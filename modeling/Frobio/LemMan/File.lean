/-
This file compares a path of the waiter with the file it stands for.

`CursorFile` is what Seek, Read and Write are meant to do: an array of bytes and a
cursor. The waiter keeps more, a `Size` from when the path was made and a handle
that may not be open for writing. `Faithful` is the condition under which its
answer to a request is that of the array, and `refines_iff_faithful` says that all
answers to any requests, and the host's file after them, are those of the array
just when every request meets it.
-/

import Frobio.Lib.Transcript
import Frobio.LemMan.Change

namespace Frobio.LemMan

open Coms SlashPath Disk Positional Transcript

/-! ### The file as it is meant -/

structure CursorFile where
  bytes : Text
  cursor : Nat
  /-- The client may write. -/
  permitted : Bool

inductive FileAnswer
  | done (regs : LMRegs) (payload : Text)
  | eof
  | refused

/-- The payload of a request. -/
def payloadOf (input : Text) : Text := input.drop headerLen

namespace CursorFile

def seek (file : CursorFile) (regs : LMRegs) : CursorFile × FileAnswer :=
  ({ file with cursor := regs.rx * 2 ^ 16 + regs.ru }, .done regs [])

def read (file : CursorFile) (regs : LMRegs) : CursorFile × FileAnswer :=
  if file.bytes.length ≤ file.cursor then (file, .eof)
  else
    let data := readAt file.cursor regs.ry file.bytes
    ({ file with cursor := file.cursor + data.length }, .done { regs with ry := data.length } data)

def write (file : CursorFile) (regs : LMRegs) (payload : Text) : CursorFile × FileAnswer :=
  if file.permitted then
    ({ file with
        bytes := writeAt 0 file.cursor payload file.bytes
        cursor := file.cursor + payload.length },
      .done { regs with ry := payload.length } [])
  else (file, .refused)

/-- Seek, Read and Write. -/
def handle (file : CursorFile) (request : Request) : CursorFile × FileAnswer :=
  let regs := regsOf request.input
  match (opOf request.input).toNat with
  | 6 => file.seek regs
  | 7 => file.read regs
  | _ => file.write regs (payloadOf request.input)

end CursorFile

/-- The bytes sent back are those of the answer. An error may come with any registers, and a refusal
with any number but that of the end of the file. -/
def Sends (sent : Option Text) : FileAnswer → Prop
  | .done regs payload => sent = some (⟨0, regs, payload⟩ : Reply).bytes
  | .eof => ∃ regs, sent = some (⟨E_EOF, regs, []⟩ : Reply).bytes
  | .refused => ∃ errnum regs, errnum ≠ 0 ∧ errnum ≠ E_EOF ∧
      sent = some (⟨errnum, regs, []⟩ : Reply).bytes

def FileAnswer.isDone : FileAnswer → Bool
  | .done _ _ => true
  | _ => false

theorem Sends.status {sent : Option Text} {answer : FileAnswer} (sends : Sends sent answer)
    (done : answer.isDone = true) : sent.bind List.head? = some 0 := by
  cases answer with
  | done regs payload =>
    obtain rfl : sent = _ := sends
    rfl
  | _ => cases done

/-- A Seek, Read or Write as it comes out of a message of the protocol. -/
structure FileRequest (request : Request) : Prop where
  header : headerLen ≤ request.input.length
  word : request.input.length < 65536
  op : (opOf request.input).toNat ∈ [6, 7, 8]

/-! ### Replies as bytes -/

theorem Reply.status_eq {reply reply' : Reply} (same : reply.bytes = reply'.bytes) :
    reply.status = reply'.status := by
  rw [Reply.bytes, Reply.bytes, List.cons_eq_cons] at same
  exact same.1

theorem Reply.ry_eq {reply reply' : Reply} (same : reply.bytes = reply'.bytes) :
    reply.regs.ry % 65536 = reply'.regs.ry % 65536 := by
  simp only [Reply.bytes, LMRegs.writeBytes, List.cons_append, List.cons_eq_cons] at same
  obtain ⟨-, -, -, -, -, -, -, high, low, -⟩ := same
  rw [← hiLo_hi_lo reply.regs.ry, high, low, hiLo_hi_lo]

theorem ry_lt (input : Text) : (regsOf input).ry < 65536 := hiLo_lt _ _

/-! ### The waiter's path -/

/-- The client may write through the path. -/
def LMPath.permitsWrite (p : LMPath) : Bool := p.mode &&& 0x02 = 0x02 ∧ p.mode &&& 0x80 = 0

/-- The waiter's answer to a request is that of the file: a Read at a place before the end of the
file is one before the `Size` of the path and asks for no more than is left up to there, and a Write
that is permitted is through a handle open for writing and has its length in Y. -/
def Faithful (pd : Nat) (g : Globals) (request : Request) : Prop :=
  ∀ p ∈ g.lmPaths pd, ∀ handle ∈ p.osFile,
    ((opOf request.input).toNat = 7 → p.offset < (g.disk.content handle.1).length →
      p.offset < p.size ∧ (regsOf request.input).ry ≤ p.size - p.offset) ∧
    ((opOf request.input).toNat = 8 → p.permitsWrite = true →
      handle.2 = true ∧ (regsOf request.input).ry = (payloadOf request.input).length)

instance (pd : Nat) (g : Globals) (request : Request) : Decidable (Faithful pd g request) :=
  inferInstanceAs (Decidable (∀ p ∈ g.lmPaths pd, ∀ handle ∈ p.osFile, _ ∧ _))

/-- The waiter, asked about one path. -/
def serve (host : Host) (pd : Nat) (g : Globals) (request : Request) : Globals × Option Text :=
  let outcome := doLemMan host g request pd
  (outcome.globals, outcome.reply.map Reply.bytes)

/-- A path that is a regular file's stands for a file. The `Size` may have been passed by. -/
structure Stands (pd : Nat) (id : FileId) (g : Globals) (file : CursorFile) (p : LMPath)
    (writable : Bool) : Prop where
  found : g.lmPaths pd = some p
  regular : p.isDir = false
  handle : p.osFile = some (id, writable)
  size : p.size ≤ (g.disk.content id).length
  numbered : Numbered g.prevLemmaError
  bytes : file.bytes = g.disk.content id
  cursor : file.cursor = p.offset
  permitted : file.permitted = p.permitsWrite

def StandsFor (pd : Nat) (id : FileId) (g : Globals) (file : CursorFile) : Prop :=
  ∃ p writable, Stands pd id g file p writable

section

variable {host : Host} {pd : Nat} {id : FileId} {g : Globals} {file : CursorFile} {p : LMPath}
  {writable : Bool} {request : Request}

theorem faithful_iff (stands : Stands pd id g file p writable) :
    Faithful pd g request ↔
      ((opOf request.input).toNat = 7 → p.offset < (g.disk.content id).length →
        p.offset < p.size ∧ (regsOf request.input).ry ≤ p.size - p.offset) ∧
      ((opOf request.input).toNat = 8 → p.permitsWrite = true →
        writable = true ∧ (regsOf request.input).ry = (payloadOf request.input).length) := by
  constructor
  · exact fun faithful => faithful p stands.found (id, writable) stands.handle
  · intro holds p' found handle opened
    obtain rfl := Option.some_inj.mp (stands.found.symm.trans found)
    obtain rfl := Option.some_inj.mp (stands.handle.symm.trans opened)
    exact holds

/-- The number of a refusal is neither success nor the end of the file. -/
theorem lemmaError_ne {prev : UInt8} (numbered : Numbered prev) :
    lemmaError prev ≠ 0 ∧ lemmaError prev ≠ E_EOF := by
  obtain ⟨above, below⟩ := lemmaError_bounds numbered
  constructor
  · intro zero
    rw [zero] at above
    revert above
    decide
  · intro eof
    rw [eof] at below
    revert below
    decide

/-! ### Seek -/

theorem doLemMan_seek (seeks : (opOf request.input).toNat = 6)
    (header : headerLen ≤ request.input.length) :
    doLemMan host g request pd = lmSeek g pd (regsOf request.input) := by
  unfold doLemMan
  rw [if_neg (Nat.not_lt.mpr header), seeks]
  rfl

theorem Stands.seek (stands : Stands pd id g file p writable)
    (seeks : (opOf request.input).toNat = 6) (header : headerLen ≤ request.input.length) :
    Sends (serve host pd g request).2 (file.handle request).2 ∧
      StandsFor pd id (serve host pd g request).1 (file.handle request).1 := by
  rw [serve, doLemMan_seek seeks header, lmSeek, stands.found, CursorFile.handle, seeks]
  exact ⟨rfl, _, writable, setPath_self .., stands.regular, stands.handle, stands.size,
    stands.numbered, stands.bytes, rfl, stands.permitted⟩

/-! ### Read -/

theorem doLemMan_read (reads : (opOf request.input).toNat = 7)
    (header : headerLen ≤ request.input.length) :
    doLemMan host g request pd = lmRead g pd (regsOf request.input) false := by
  unfold doLemMan
  rw [if_neg (Nat.not_lt.mpr header), reads]
  rfl

/-- A Read up to the `Size` gives the file's bytes. -/
theorem Stands.readPath (stands : Stands pd id g file p writable) {n : Nat}
    (inside : n ≤ p.size - p.offset) :
    readPath g p n = some (readAt p.offset n (g.disk.content id)) := by
  have size := stands.size
  rw [LemMan.readPath, stands.regular, stands.handle]
  simp only [Bool.false_eq_true, if_false]
  rw [if_pos]
  rw [length_readAt]
  omega

theorem Stands.lmRead_of_size (stands : Stands pd id g file p writable) (regs : LMRegs)
    (within : p.offset < p.size) :
    lmRead g pd regs false =
      answer
        (g.setPath pd (some { p with offset := p.offset +
          (readAt p.offset (min regs.ry (p.size - p.offset)) (g.disk.content id)).length }))
        0 regs (readAt p.offset (min regs.ry (p.size - p.offset)) (g.disk.content id)) [] := by
  rw [lmRead, stands.found]
  dsimp only
  rw [if_neg (Nat.not_le.mpr within), stands.readPath (Nat.min_le_right _ _)]
  rfl

theorem Stands.read (stands : Stands pd id g file p writable)
    (reads : (opOf request.input).toNat = 7) (header : headerLen ≤ request.input.length) :
    (Sends (serve host pd g request).2 (file.handle request).2 ↔
      (p.offset < (g.disk.content id).length →
        p.offset < p.size ∧ (regsOf request.input).ry ≤ p.size - p.offset)) ∧
    ((p.offset < (g.disk.content id).length →
        p.offset < p.size ∧ (regsOf request.input).ry ≤ p.size - p.offset) →
      StandsFor pd id (serve host pd g request).1 (file.handle request).1) := by
  have size := stands.size
  have small := ry_lt request.input
  rw [serve, doLemMan_read reads header, CursorFile.handle, reads]
  show (Sends _ (file.read (regsOf request.input)).2 ↔ _) ∧
    (_ → StandsFor pd id _ (file.read (regsOf request.input)).1)
  rw [CursorFile.read, stands.bytes, stands.cursor]
  by_cases within : p.offset < p.size
  · -- the waiter reads, and so does the file
    have inside : p.offset < (g.disk.content id).length := Nat.lt_of_lt_of_le within size
    rw [stands.lmRead_of_size _ within, if_neg (Nat.not_le.mpr inside)]
    dsimp only
    constructor
    · constructor
      · intro sends _
        refine ⟨within, ?_⟩
        have sent := Option.some_inj.mp sends
        have y := Reply.ry_eq sent
        dsimp only at y
        rw [length_readAt, Nat.mod_eq_of_lt small] at y
        have payload := congrArg List.length sent
        simp only [Reply.bytes, LMRegs.writeBytes, List.length_cons, List.length_append,
          length_readAt] at payload
        omega
      · intro holds
        obtain ⟨-, fits⟩ := holds inside
        have whole : (readAt p.offset (regsOf request.input).ry (g.disk.content id)).length =
            (regsOf request.input).ry := by
          rw [length_readAt]
          omega
        rw [Nat.min_eq_left fits, whole]
        rfl
    · intro holds
      obtain ⟨-, fits⟩ := holds inside
      rw [Nat.min_eq_left fits]
      exact ⟨_, writable, setPath_self .., stands.regular, stands.handle, size, stands.numbered,
        rfl, rfl, stands.permitted⟩
  · -- the waiter finds the end of the file
    have found : lmRead g pd (regsOf request.input) false =
        answer g E_EOF (regsOf request.input) [] [] := by
      rw [lmRead, stands.found]
      dsimp only
      rw [if_pos (Nat.not_lt.mp within)]
    rw [found]
    by_cases beyond : (g.disk.content id).length ≤ p.offset
    · rw [if_pos beyond]
      exact ⟨⟨fun _ inside => absurd inside (Nat.not_lt.mpr beyond), fun _ => ⟨_, rfl⟩⟩,
        fun _ => ⟨p, writable, stands⟩⟩
    · rw [if_neg beyond]
      refine ⟨⟨fun sends => ?_, fun holds => absurd (holds (Nat.not_le.mp beyond)).1 within⟩,
        fun holds => absurd (holds (Nat.not_le.mp beyond)).1 within⟩
      have status := Reply.status_eq (Option.some_inj.mp sends)
      revert status
      show E_EOF = 0 → _
      exact fun same => absurd same (by decide)

/-! ### Write -/

theorem doLemMan_write (writes : (opOf request.input).toNat = 8)
    (header : headerLen ≤ request.input.length) :
    doLemMan host g request pd =
      lmWrite g pd (regsOf request.input) (payloadOf request.input) := by
  unfold doLemMan
  rw [if_neg (Nat.not_lt.mpr header), writes]
  rfl

/-- What `lmWrite` does through a regular path. -/
theorem Stands.lmWrite_eq (stands : Stands pd id g file p writable) (regs : LMRegs)
    (payIn : Text) :
    lmWrite g pd regs payIn =
      if p.permitsWrite ∧ writable then
        answer
          ({ g with disk := g.disk.write id p.offset payIn }.setPath pd
            (some { p with offset := p.offset + payIn.length })) 0 regs [] []
      else refuse g regs [] := by
  rw [lmWrite, stands.found]
  dsimp only
  rw [stands.regular, stands.handle]
  by_cases writes : p.mode &&& 0x02 = 0x02
  · by_cases dir : p.mode &&& 0x80 = 0
    · have permits : p.permitsWrite = true := decide_eq_true ⟨writes, dir⟩
      cases writable with
      | true => simp [writes, dir, permits]
      | false => simp [writes, dir]
    · have permits : p.permitsWrite = false := decide_eq_false fun both => dir both.2
      simp [writes, dir, permits]
  · have permits : p.permitsWrite = false := decide_eq_false fun both => writes both.1
    simp [writes, permits]

theorem Stands.write (stands : Stands pd id g file p writable)
    (writes : (opOf request.input).toNat = 8) (header : headerLen ≤ request.input.length)
    (word : request.input.length < 65536) :
    (Sends (serve host pd g request).2 (file.handle request).2 ↔
      (p.permitsWrite = true → writable = true ∧
        (regsOf request.input).ry = (payloadOf request.input).length)) ∧
    ((p.permitsWrite = true → writable = true ∧
        (regsOf request.input).ry = (payloadOf request.input).length) →
      StandsFor pd id (serve host pd g request).1 (file.handle request).1) := by
  have small : (payloadOf request.input).length < 65536 := by
    rw [payloadOf, List.length_drop]
    omega
  have y_small := ry_lt request.input
  rw [serve, doLemMan_write writes header, stands.lmWrite_eq, CursorFile.handle, writes]
  show (Sends _ (file.write (regsOf request.input) (payloadOf request.input)).2 ↔ _) ∧
    (_ → StandsFor pd id _ (file.write (regsOf request.input) (payloadOf request.input)).1)
  rw [CursorFile.write, stands.bytes, stands.cursor, stands.permitted]
  cases permits : p.permitsWrite with
  | false =>
    obtain ⟨success, eof⟩ := lemmaError_ne stands.numbered
    simp only [Bool.false_eq_true, false_and, if_false]
    refine ⟨⟨fun _ permitted => permitted.elim, fun _ => ⟨_, _, success, eof, rfl⟩⟩, fun _ => ?_⟩
    exact ⟨p, writable, stands.found, stands.regular, stands.handle, stands.size,
      numbered_lemmaError stands.numbered, stands.bytes, stands.cursor, stands.permitted⟩
  | true =>
    cases handle : writable with
    | false =>
      obtain ⟨success, -⟩ := lemmaError_ne stands.numbered
      simp only [Bool.false_eq_true, and_false, if_false, if_true, false_and, true_implies,
        iff_false, false_implies, and_true]
      intro sends
      exact success (Reply.status_eq (Option.some_inj.mp sends))
    | true =>
      simp only [and_self, if_true, true_and, true_implies]
      constructor
      · constructor
        · intro sends
          have y := Reply.ry_eq (Option.some_inj.mp sends)
          dsimp only at y
          rwa [Nat.mod_eq_of_lt small, Nat.mod_eq_of_lt y_small] at y
        · intro same
          rw [← same]
          rfl
      · intro same
        have written := content_write g.disk id p.offset (payloadOf request.input)
        refine ⟨_, true, setPath_self .., stands.regular, handle ▸ stands.handle, ?_,
          stands.numbered, written.symm, rfl, permits.symm⟩
        exact stands.size.trans (written ▸ length_le_writeAt ..)

/-! ### One request -/

/-- The waiter's answer is that of the file just when the request is faithful. -/
theorem Stands.sends_iff (stands : Stands pd id g file p writable)
    (allowed : FileRequest request) :
    Sends (serve host pd g request).2 (file.handle request).2 ↔ Faithful pd g request := by
  rw [faithful_iff stands]
  have op := allowed.op
  simp only [List.mem_cons, List.not_mem_nil, or_false] at op
  rcases op with seeks | reads | writes
  · rw [seeks]
    exact ⟨fun _ => ⟨nofun, nofun⟩,
      fun _ => (stands.seek seeks allowed.header).1⟩
  · rw [reads, (stands.read reads allowed.header).1]
    exact ⟨fun holds => ⟨fun _ => holds, nofun⟩, fun both => both.1 rfl⟩
  · rw [writes, (stands.write writes allowed.header allowed.word).1]
    exact ⟨fun holds => ⟨nofun, fun _ => holds⟩, fun both => both.2 rfl⟩

/-- And then the path stands for the file again. -/
theorem Stands.onward (stands : Stands pd id g file p writable) (allowed : FileRequest request)
    (faithful : Faithful pd g request) :
    StandsFor pd id (serve host pd g request).1 (file.handle request).1 := by
  rw [faithful_iff stands] at faithful
  have op := allowed.op
  simp only [List.mem_cons, List.not_mem_nil, or_false] at op
  rcases op with seeks | reads | writes
  · exact (stands.seek seeks allowed.header).2
  · exact (stands.read reads allowed.header).2 (faithful.1 reads)
  · exact (stands.write writes allowed.header allowed.word).2 (faithful.2 writes)

end

/-! ### A path from its Create or Open on -/

section

variable {host : Host} {pd : Nat} {g : Globals} {p : LMPath} {request : Request} {reply : Reply}

theorem status_of_refuse {regs : LMRegs} {effects : List Effect} (numbered : Numbered g.prevLemmaError)
    (replied : (refuse g regs effects).reply = some reply) : reply.status ≠ 0 := by
  obtain rfl := Option.some_inj.mp replied
  exact (lemmaError_ne numbered).1

/-- A Create or an Open that succeeds, and not on a directory, gives a path at the start of its
file. -/
theorem stands_of_lmOpen {regs : LMRegs} {mode : UInt8} {name : Text} {create : Bool}
    (numbered : Numbered g.prevLemmaError)
    (replied : (lmOpen host g pd regs mode name create).reply = some reply)
    (okay : reply.status = 0)
    (found : (lmOpen host g pd regs mode name create).globals.lmPaths pd = some p)
    (regular : p.isDir = false) :
    ∃ id writable, Stands pd id (lmOpen host g pd regs mode name create).globals
      ⟨if create then [] else g.disk.content id, 0, p.permitsWrite⟩ p writable := by
  have refused : ∀ {effects}, (refuse g regs effects).reply = some reply → False :=
    fun replied => status_of_refuse numbered replied okay
  unfold lmOpen at replied found ⊢
  split at replied
  · exact (refused replied).elim
  rename_i path joined
  rw [joined] at found
  cases create with
  | true =>
    simp only [if_true, createPath] at replied found ⊢
    split at replied
    · exact (refused replied).elim
    rename_i two
    rw [if_neg two] at found ⊢
    split at replied
    · exact (refused replied).elim
    rename_i file disk made
    obtain ⟨place, -, created⟩ := Option.bind_eq_some_iff.mp made
    rw [made] at found
    obtain rfl := Option.some_inj.mp ((setPath_self ..).symm.trans found)
    exact ⟨file, true, setPath_self .., rfl, rfl, Nat.zero_le _, numbered,
      (content_of_create created).symm, rfl, rfl⟩
  | false =>
    simp only [Bool.false_eq_true, if_false, openPath] at replied found ⊢
    split at replied
    · exact (refused replied).elim
    rename_i place here
    rw [here] at found
    dsimp only at found
    split at replied
    · exact (refused replied).elim
    · rename_i node
      rw [node] at found
      dsimp only at found
      split at replied
      · exact (refused replied).elim
      · rename_i entries read
        rw [read] at found
        obtain rfl := Option.some_inj.mp ((setPath_self ..).symm.trans found)
        cases regular
    · rename_i node
      rw [node] at found
      dsimp only at found
      split at replied
      · exact (refused replied).elim
      · rename_i file isOpen
        rw [isOpen] at found
        obtain rfl := Option.some_inj.mp ((setPath_self ..).symm.trans found)
        exact ⟨file, false, setPath_self .., rfl, rfl, Nat.le_refl _, numbered, rfl, rfl, rfl⟩

theorem header_of_reply (replied : (doLemMan host g request pd).reply = some reply) :
    headerLen ≤ request.input.length := by
  by_contra short
  unfold doLemMan at replied
  rw [if_pos (Nat.not_le.mp short)] at replied
  cases replied

theorem doLemMan_open {op : Nat} {create : Bool} (is : (opOf request.input).toNat = op)
    (opens : (op = 1 ∧ create = true) ∨ (op = 2 ∧ create = false))
    (replied : (doLemMan host g request pd).reply = some reply) :
    ∃ name, doLemMan host g request pd =
      lmOpen host g pd (regsOf request.input) (regsOf request.input).ra name create := by
  have header := header_of_reply replied
  have unfolded : doLemMan host g request pd = withName g request.input fun name =>
      lmOpen host g pd (regsOf request.input) (regsOf request.input).ra name create := by
    unfold doLemMan
    rcases opens with ⟨rfl, rfl⟩ | ⟨rfl, rfl⟩ <;>
      (rw [if_neg (Nat.not_lt.mpr header), is]; rfl)
  rw [unfolded] at replied ⊢
  unfold withName at replied ⊢
  split at replied
  · cases replied
  · rename_i name named
    exact ⟨name, rfl⟩

end

/-- The replies to the requests are those of the file, and in the end the host's file is the same
array. -/
def Refines (host : Host) (pd : Nat) (id : FileId) (g : Globals) (file : CursorFile)
    (requests : List Request) : Prop :=
  List.Forall₂ Sends (outputs (serve host pd) g requests)
      (outputs CursorFile.handle file requests) ∧
    (after (serve host pd) g requests).disk.content id =
      (after CursorFile.handle file requests).bytes

/-- **Files.** After any history, a path of a regular file that a Create or an Open has given
refines the file, from its first byte on, under just those Seeks, Reads and Writes that all are
faithful. -/
theorem refines_iff_faithful (host : Host) (disk : Disk) (history : List (Request × Nat))
    (opening : Request) (pd : Nat)
    (opens : (opOf opening.input).toNat = 1 ∨ (opOf opening.input).toNat = 2) (reply : Reply)
    (replied : (doLemMan host (served host disk history) opening pd).reply = some reply)
    (okay : reply.status = 0) (p : LMPath)
    (found : (doLemMan host (served host disk history) opening pd).globals.lmPaths pd = some p)
    (regular : p.isDir = false) (requests : List Request)
    (each : ∀ request ∈ requests, FileRequest request) :
    ∃ id writable, p.osFile = some (id, writable) ∧
      (Refines host pd id (doLemMan host (served host disk history) opening pd).globals
          ⟨if (opOf opening.input).toNat = 1 then []
            else (served host disk history).disk.content id, 0, p.permitsWrite⟩ requests ↔
        Always (serve host pd) (Faithful pd)
          (doLemMan host (served host disk history) opening pd).globals requests) := by
  have numbered := numbered_served host disk history
  generalize served host disk history = g at replied found numbered ⊢
  obtain ⟨id, writable, stands⟩ : ∃ id writable, Stands pd id (doLemMan host g opening pd).globals
      ⟨if (opOf opening.input).toNat = 1 then [] else g.disk.content id, 0, p.permitsWrite⟩ p
      writable := by
    rcases opens with creates | opens
    · obtain ⟨name, same⟩ := doLemMan_open creates (.inl ⟨rfl, rfl⟩) replied
      rw [same] at replied found ⊢
      rw [creates]
      exact stands_of_lmOpen numbered replied okay found regular
    · obtain ⟨name, same⟩ := doLemMan_open opens (.inr ⟨rfl, rfl⟩) replied
      rw [same] at replied found ⊢
      rw [opens]
      exact stands_of_lmOpen numbered replied okay found regular
  refine ⟨id, writable, stands.handle, ?_⟩
  obtain ⟨agree, onward⟩ := outputs_agree_iff (serve host pd) CursorFile.handle (StandsFor pd id)
    Sends (Faithful pd) FileRequest
    (fun g file request ⟨p, writable, stands⟩ allowed => stands.sends_iff allowed)
    (fun g file request ⟨p, writable, stands⟩ allowed faithful => stands.onward allowed faithful)
    ⟨p, writable, stands⟩ each
  constructor
  · exact fun refines => agree.mp refines.1
  · intro always
    obtain ⟨_, _, still⟩ := onward always
    exact ⟨agree.mpr always, still.bytes.symm⟩

/-! ### Files on a small disk -/

/-- The waiter runs in the root, and keeps its files in `/lf`. -/
def smallHost : Host := ⟨[108, 102], []⟩

theorem name_flag : Name [108, 102] := by decide

/-- The directory `/lf`, and in it the file `a` with these bytes. -/
def smallDisk (bytes : Text) : Disk where
  entries := [⟨[], [108, 102], name_flag, .dir⟩, ⟨[[108, 102]], [97], by decide, .file⟩]
  made := fun _ => 1
  content := fun _ => bytes
  permits := fun _ => true

def noInfo : FileInfo := ⟨⟨1980, 1, 1, 0, 0⟩, ⟨1980, 1, 1, 0, 0⟩, 1, 0⟩

/-- A request with these A, X, Y and U, and a payload. -/
def requestOf (op a : UInt8) (x y u : Nat) (payload : Text) : Request :=
  ⟨[op, 0, a, 0, 0, hi x, lo x, hi y, lo y, hi u, lo u, 0, 0, hi payload.length,
    lo payload.length] ++ payload, noInfo⟩

/-- Open `a` for reading, or create `b`. -/
def openA : Request := requestOf 2 1 0 0 0 [97, 13]

def createB : Request := requestOf 1 2 0 0 0 [98, 13]

/-- Two Reads that the file has the bytes for, a Seek to the end, and a Read there. -/
def readsOfHello : List Request :=
  [requestOf 7 0 0 3 0 [], requestOf 7 0 0 2 0 [], requestOf 6 0 0 0 5 [], requestOf 7 0 0 9 0 []]

def hello : Text := [104, 101, 108, 108, 111]

theorem refines_readsOfHello :
    ∃ id, Refines smallHost 7 id
      (doLemMan smallHost (served smallHost (smallDisk hello) []) openA 7).globals
      ⟨hello, 0, false⟩ readsOfHello := by
  obtain ⟨reply, replied, okay⟩ : ∃ reply,
      (doLemMan smallHost (served smallHost (smallDisk hello) []) openA 7).reply = some reply ∧
        reply.status = 0 :=
    Option.map_eq_some_iff.mp (by decide +kernel)
  obtain ⟨p, found, facts⟩ : ∃ p,
      (doLemMan smallHost (served smallHost (smallDisk hello) []) openA 7).globals.lmPaths 7 =
        some p ∧ (p.isDir, p.permitsWrite) = (false, false) :=
    Option.map_eq_some_iff.mp (by decide +kernel)
  obtain ⟨regular, permits⟩ := Prod.mk.injEq .. ▸ facts
  obtain ⟨id, writable, -, exact⟩ := refines_iff_faithful smallHost (smallDisk hello) [] openA 7
    (.inr (by decide)) reply replied okay p found regular readsOfHello
    (by
      have each : ∀ request ∈ readsOfHello, headerLen ≤ request.input.length ∧
          request.input.length < 65536 ∧ (opOf request.input).toNat ∈ [6, 7, 8] := by
        decide +kernel
      exact fun request member => ⟨(each request member).1, (each request member).2.1,
        (each request member).2.2⟩)
  rw [permits] at exact
  exact ⟨id, exact.mpr (by decide +kernel)⟩

/-- A Write, a Seek back, and a Read of what was written. -/
def writeAndReadBack : List Request :=
  [requestOf 8 0 0 2 0 [104, 105], requestOf 6 0 0 0 0 [], requestOf 7 0 0 2 0 []]

/-- The `Size` of a path from Create stays zero, so what was written cannot be read. -/
theorem not_refines_writeAndReadBack :
    ¬∃ id, Refines smallHost 7 id
      (doLemMan smallHost (served smallHost (smallDisk hello) []) createB 7).globals
      ⟨[], 0, true⟩ writeAndReadBack := by
  rintro ⟨id, agree, -⟩
  have sends := agree.get (show 2 < _ by decide) (show 2 < _ by decide)
  have done : ((outputs CursorFile.handle ⟨[], 0, true⟩ writeAndReadBack).get
      ⟨2, by decide⟩).isDone = true := by
    decide +kernel
  have eof : ((outputs (serve smallHost 7)
      (doLemMan smallHost (served smallHost (smallDisk hello) []) createB 7).globals
      writeAndReadBack).get ⟨2, by decide⟩).bind List.head? = some E_EOF := by
    decide +kernel
  rw [sends.status done] at eof
  exact absurd eof (by decide)

end Frobio.LemMan
