/-
This file models the paths of the daemon of `fuse-daemons/fuse-tftp.c`, and shows when each path
reads its own file.

All paths share one list of fragments, and what a path has of it is two pointers. So the list is
kept here with the addresses of its fragments, and a pointer to a fragment that was freed leads
nowhere. What the paths should deliver is said by streams, one for each path, which know nothing
of fragments.
-/

import Mathlib.Data.List.GetD
import Mathlib.Data.List.TakeWhile
import Mathlib.Logic.Function.Basic
import Frobio.Lib.Loop
import Frobio.Tftp.Download

namespace Frobio.TftpPaths

open Coms Memory Run Loop Wiz Tftp
open Numerals (LLInfo LogFatal)

/-! ### The daemon -/

def PAYSIZ : Nat := 2048

def MAX_PATHS : Nat := 32

def E_EOF : Nat := 0xd3

def NULL : Nat := 0

/-- A carriage return. -/
def CR : UInt8 := 13

structure Fragment where
  addr : Nat
  payload : List UInt8
  deriving DecidableEq

/-- `SaveBytesToFragList`, where the answer is what `Malloc` returns. -/
def saveBytes : Saver (List Fragment) (Option Nat) where
  save fragments data malloc :=
    if data = [] then (fragments, true)
    else
      match malloc with
      | some addr => (fragments ++ [⟨addr, data⟩], true)
      | none => (fragments, false)
  bytes fragments := (fragments.map (·.payload)).flatten
  bytes_save fragments data malloc := by
    by_cases empty : data = []
    · intro _
      rw [if_pos empty, empty, List.append_nil]
    · cases malloc with
      | some addr =>
        intro _
        rw [if_neg empty]
        dsimp only
        rw [List.map_append, List.flatten_append, List.map_singleton, List.flatten_singleton]
      | none =>
        rw [if_neg empty]
        exact nofun
  keeps fragments data malloc := by
    by_cases empty : data = []
    · rw [if_pos empty]
      exact ⟨[], List.nil_prefix, (List.append_nil _).symm⟩
    · rw [if_neg empty]
      cases malloc with
      | some addr =>
        refine ⟨data, List.prefix_refl data, ?_⟩
        dsimp only
        rw [List.map_append, List.flatten_append, List.map_singleton, List.flatten_singleton]
      | none => exact ⟨[], List.nil_prefix, (List.append_nil _).symm⟩

structure PathInfo where
  root : Nat
  current : Nat
  off : Nat
  deriving DecidableEq

structure Daemon where
  packet : Nat → UInt8
  /-- The list from `FragRoot` on. -/
  fragRoot : List Fragment
  paths : Nat → PathInfo

/-- The pointer to a list. -/
def pointer : List Fragment → Nat
  | [] => NULL
  | f :: _ => f.addr

/-- The list that a pointer leads to. It is empty if no fragment has this address. -/
def follow (fragRoot : List Fragment) (addr : Nat) : List Fragment :=
  fragRoot.dropWhile (·.addr ≠ addr)

structure Copying where
  current : Nat
  off : Nat
  togo : Nat
  copied : List UInt8
  /-- There was no `break` yet. -/
  going : Bool

/-- One turn of `while (togo)`. There is no result if it looks at a fragment that was freed. -/
def copyTurn (fragRoot : List Fragment) (linely : Bool) (c : Copying) : Option Copying :=
  if c.current = NULL then some { c with going := false }
  else
    match follow fragRoot c.current with
    | [] => none
    | f :: next =>
      if f.payload.length ≤ c.off then some { c with current := pointer next, off := 0 }
      else if linely then
        let ch := f.payload.getD c.off 0
        some { c with
          copied := c.copied ++ [ch]
          off := c.off + 1
          togo := c.togo - 1
          going := ch ≠ CR }
      else
        let span := min c.togo (f.payload.length - c.off)
        some { c with
          copied := c.copied ++ (f.payload.drop c.off).take span
          off := c.off + span
          togo := c.togo - span
          going := false }

def copyBytesToBuffer (d : Daemon) (path bufSize : Nat) (linely : Bool) :
    Option (Daemon × List UInt8) :=
  let p := d.paths path
  (whileLoop (fun c => c.going && decide (c.togo ≠ 0)) (copyTurn d.fragRoot linely)
    (bufSize + d.fragRoot.length + 1) ⟨p.current, p.off, bufSize, [], true⟩).map fun c =>
      ({ d with paths := Function.update d.paths path ⟨p.root, c.current, c.off⟩ }, c.copied)

/-- A request that comes from a client. An open has what `TftpGet` receives, and the file that the
server has under this name. -/
inductive Request
  | openRead (path : Nat) (file filename : List UInt8) (turns : List (Turn (Option Nat)))
  | read (linely : Bool) (path size : Nat)
  | close (path : Nat)

/-- What the client gets. If there is no reply, the daemon has stopped, or it has used memory that
it does not own. -/
inductive Reply
  | okay
  | bytes (data : List UInt8)
  | error (errnum : Nat)
  | noReply
  deriving DecidableEq

/-- There is no result if the loop of `TftpGet` is not over. -/
def doOpenRead (d : Daemon) (path : Nat) (filename : List UInt8)
    (turns : List (Turn (Option Nat))) : Option (Option Daemon × Reply) :=
  if d.fragRoot ≠ [] then some (none, .noReply)
  else
    (run (turn saveBytes LLInfo) (start d.packet filename d.fragRoot) turns).bind fun c =>
      match c.ending with
      | none => none
      | some (.fatal _) => some (none, .noReply)
      | some .okay =>
        if path < MAX_PATHS then
          let root := pointer c.saved
          some (some ⟨c.packet, c.saved, Function.update d.paths path ⟨root, root, 0⟩⟩, .okay)
        else some (none, .noReply)

def doClose (d : Daemon) (path : Nat) : Option Daemon × Reply :=
  if path < MAX_PATHS then
    (some { d with
      fragRoot := []
      paths := Function.update d.paths path ⟨NULL, NULL, 0⟩ }, .okay)
  else (none, .noReply)

/-- `DoRead`, and what `DaemonWriteC` copies to the client. -/
def doRead (d : Daemon) (linely : Bool) (path size : Nat) : Option Daemon × Reply :=
  if path < MAX_PATHS then
    match copyBytesToBuffer d path PAYSIZ linely with
    | none => (none, .noReply)
    | some (d, data) =>
      let cc := data.length
      if cc ≠ 0 then (some d, .bytes (data.take (min cc size))) else (some d, .error E_EOF)
  else (none, .noReply)

/-- The daemon, and the requests so far with what the clients got. -/
structure System where
  daemon : Option Daemon
  exchanges : List (Request × Reply)

def answer (d : Daemon) : Request → Option (Option Daemon × Reply)
  | .openRead path _ filename turns => doOpenRead d path filename turns
  | .read linely path size => some (doRead d linely path size)
  | .close path => some (doClose d path)

/-- One turn of the loop of `main`. -/
def serve (s : System) (request : Request) : Option System :=
  s.daemon.bind fun d =>
    (answer d request).map fun (daemon, reply) => ⟨daemon, s.exchanges ++ [(request, reply)]⟩

def initial (packet : Nat → UInt8) : System :=
  ⟨some ⟨packet, [], fun _ => ⟨NULL, NULL, 0⟩⟩, []⟩

/-! ### What the paths should deliver -/

/-- What each path has still to deliver, if it is open. -/
abbrev Streams := Nat → Option (List UInt8)

/-- The streams after a request was answered. -/
def Streams.after (streams : Streams) : Request × Reply → Streams
  | (.openRead path file _ _, _) => Function.update streams path (some file)
  | (.close path, _) => Function.update streams path none
  | (.read _ path _, .bytes data) =>
    Function.update streams path ((streams path).map (·.drop data.length))
  | (.read _ _ _, _) => streams

def streamsAfter (exchanges : List (Request × Reply)) : Streams :=
  exchanges.foldl Streams.after fun _ => none

/-- What a read may answer, with these bytes still to deliver. -/
def Delivers (linely : Bool) (size : Nat) (bytes : List UInt8) : Reply → Prop
  | .bytes data =>
    data ≠ [] ∧ data <+: bytes ∧ data.length ≤ size ∧
      (linely = true → ∀ i, data[i]? = some CR → i + 1 = data.length)
  | .error errnum => errnum = E_EOF ∧ bytes = []
  | _ => False

def Right (streams : Streams) : Request × Reply → Prop
  | (.read linely path size, reply) =>
    ∀ bytes, streams path = some bytes → Delivers linely size bytes reply
  | (_, reply) => reply = .okay

/-- Each request was answered as it should be, after those before it. -/
def Served (exchanges : List (Request × Reply)) : Prop :=
  ∀ before exchange, before ++ [exchange] <+: exchanges → Right (streamsAfter before) exchange

/-- The payload of a block of a file. -/
def payload (file : List UInt8) (block : Nat) : List UInt8 :=
  (file.drop (512 * (block - 1))).take 512

def lastBlock (file : List UInt8) : Nat := file.length / 512 + 1

/-- The datagram is a block of the file. -/
def IsData (file : List UInt8) (d : Datagram) : Prop :=
  ∃ block, 1 ≤ block ∧ block ≤ lastBlock file ∧ d.data = dataHeader block ++ payload file block

/-- What arrives is blocks of the file, and the acks can be sent. -/
def Promised : Request → Prop
  | .openRead _ file _ turns => ∀ t ∈ turns, IsData file t.datagram ∧ t.sent = true
  | _ => True

/-! ### The condition -/

/-- `Malloc` finds memory for the block that is expected, which is not in use. -/
def Roomy (c : Client (List Fragment)) (t : Turn (Option Nat)) : Prop :=
  c.ending = none → dataHeader c.expectedBlock <+: t.datagram.data → 4 < t.datagram.data.length →
    ∃ addr, t.answer = some addr ∧ addr ≠ NULL ∧ addr ∉ c.saved.map (·.addr)

/-- What is unread of the fragments of a path. -/
def unreadFrom (fragRoot : List Fragment) (current off : Nat) : List (List UInt8) :=
  match follow fragRoot current with
  | [] => []
  | f :: next => f.payload.drop off :: next.map (·.payload)

def unread (d : Daemon) (path : Nat) : List (List UInt8) :=
  unreadFrom d.fragRoot (d.paths path).current (d.paths path).off

/-- The first fragment of which anything is unread. -/
def firstPiece (pieces : List (List UInt8)) : List UInt8 := (pieces.find? (· ≠ [])).getD []

/-- The bytes up to a carriage return. -/
def line : List UInt8 → List UInt8
  | [] => []
  | ch :: rest => if ch = CR then [ch] else ch :: line rest

/-- What a read takes at once: the rest of a line, or the rest of a fragment. -/
def atOnce (linely : Bool) (pieces : List (List UInt8)) : List UInt8 :=
  if linely then line pieces.flatten else firstPiece pieces

/-- An open finds no other file in the list, and room for its own. A read has room for what it
takes at once. A close is of the path that has the list. -/
def Spared (s : System) (request : Request) : Prop :=
  ∀ d, s.daemon = some d →
    match request with
    | .openRead path file filename turns =>
      path < MAX_PATHS ∧ d.fragRoot = [] ∧ file.length < 65536 ∧
        Meets (turn saveBytes LLInfo) Roomy (start d.packet filename d.fragRoot) turns
    | .read linely path size =>
      path < MAX_PATHS ∧ min PAYSIZ (atOnce linely (unread d path)).length ≤ size
    | .close path => path < MAX_PATHS ∧ (d.paths path).root = pointer d.fragRoot

/-! ### Blocks -/

@[simp] theorem length_payload (file : List UInt8) (block : Nat) :
    (payload file block).length = min 512 (file.length - 512 * (block - 1)) := by
  rw [payload, List.length_take, List.length_drop]

/-- The blocks of a file are the file. -/
theorem take_append_payload (file : List UInt8) (block : Nat) :
    file.take (512 * block) ++ payload file (block + 1) = file.take (512 * (block + 1)) := by
  rw [payload, Nat.add_sub_cancel, Nat.mul_succ, List.take_add]

theorem word_block (packet : Nat → UInt8) (block : Nat) (data : List UInt8) :
    word (store packet 0 (dataHeader block ++ data)) 0 = OP_DATA ∧
      word (store packet 0 (dataHeader block ++ data)) 2 = block % 65536 :=
  ⟨hiLo_hi_lo OP_DATA, hiLo_hi_lo block⟩

/-! ### The list -/

/-- The fragments have addresses of their own. -/
def Placed (fragments : List Fragment) : Prop :=
  NULL ∉ fragments.map (·.addr) ∧ (fragments.map (·.addr)).Nodup

/-- A pointer leads to the list that it is the pointer to. -/
def Valid (fragRoot : List Fragment) (addr : Nat) : Prop :=
  pointer (follow fragRoot addr) = addr

theorem follow_null {fragRoot : List Fragment} (placed : Placed fragRoot) :
    follow fragRoot NULL = [] := by
  refine List.dropWhile_eq_nil_iff.mpr fun f member => decide_eq_true fun null => placed.1 ?_
  exact null ▸ List.mem_map_of_mem member

theorem valid_null {fragRoot : List Fragment} (placed : Placed fragRoot) : Valid fragRoot NULL := by
  rw [Valid, follow_null placed, pointer]

/-- A pointer to the end of the list leads to that end. -/
theorem follow_pointer {before later : List Fragment} (placed : Placed (before ++ later)) :
    follow (before ++ later) (pointer later) = later := by
  cases later with
  | nil => exact follow_null placed
  | cons f later =>
    rw [Placed, List.map_append, List.map_cons, List.nodup_append] at placed
    have others : ∀ g ∈ before, (decide (g.addr ≠ f.addr)) = true := fun g member =>
      decide_eq_true (placed.2.2.2 _ (List.mem_map_of_mem member) _ List.mem_cons_self)
    rw [follow, pointer, List.dropWhile_append_of_pos others, List.dropWhile_cons_of_neg]
    rw [decide_eq_true_iff]
    exact not_not.mpr rfl

/-- The fragment that a pointer leads to, and what comes after it. -/
theorem follow_next {fragRoot next : List Fragment} {addr : Nat} {f : Fragment}
    (placed : Placed fragRoot) (there : follow fragRoot addr = f :: next) :
    follow fragRoot (pointer next) = next := by
  have split : fragRoot.takeWhile (·.addr ≠ addr) ++ [f] ++ next = fragRoot := by
    rw [List.append_assoc, List.singleton_append, ← there]
    exact List.takeWhile_append_dropWhile
  rw [← split] at placed ⊢
  exact follow_pointer placed

theorem length_follow_le (fragRoot : List Fragment) (addr : Nat) :
    (follow fragRoot addr).length ≤ fragRoot.length :=
  (List.dropWhile_sublist _).length_le

theorem pointer_ne_null {fragments : List Fragment} (placed : Placed fragments)
    (more : fragments ≠ []) : pointer fragments ≠ NULL := by
  cases fragments with
  | nil => exact absurd rfl more
  | cons f rest => exact fun null => placed.1 (null ▸ List.mem_cons_self)

/-! ### What is read at once -/

theorem line_append (ch : UInt8) (rest : List UInt8) :
    line (ch :: rest) = [ch] ++ (if ch = CR then [] else line rest) := by
  rw [line]
  split <;> rfl

/-- In a line there is no carriage return but at its end. -/
theorem line_ends {bytes : List UInt8} {i : Nat} (there : (line bytes)[i]? = some CR) :
    i + 1 = (line bytes).length := by
  induction bytes generalizing i with
  | nil => cases there
  | cons ch rest inductionHypothesis =>
    rw [line] at there ⊢
    split at there
    · rename_i ends
      rw [if_pos ends]
      have inside := (List.getElem?_eq_some_iff.mp there).1
      rw [List.length_singleton] at inside ⊢
      omega
    · rename_i goesOn
      rw [if_neg goesOn, List.length_cons]
      cases i with
      | zero => exact absurd (Option.some.inj there) goesOn
      | succ i => exact congrArg (· + 1) (inductionHypothesis there)

/-- Something is taken as long as anything is there. -/
theorem atOnce_ne_nil (linely : Bool) {pieces : List (List UInt8)} (more : pieces.flatten ≠ []) :
    atOnce linely pieces ≠ [] := by
  cases linely with
  | false =>
    obtain ⟨piece, member, full⟩ : ∃ piece ∈ pieces, piece ≠ [] := by
      by_contra none
      refine more (List.flatten_eq_nil_iff.mpr fun piece member => ?_)
      by_contra full
      exact none ⟨piece, member, full⟩
    have finds : (pieces.find? (· ≠ [])).isSome = true :=
      List.find?_isSome.mpr ⟨piece, member, decide_eq_true full⟩
    obtain ⟨first, found⟩ := Option.isSome_iff_exists.mp finds
    show firstPiece pieces ≠ []
    have full := List.find?_some found
    rw [decide_eq_true_iff] at full
    rw [firstPiece, found]
    exact full
  | true =>
    show line pieces.flatten ≠ []
    cases bytes : pieces.flatten with
    | nil => exact absurd bytes more
    | cons ch rest =>
      rw [line_append]
      exact List.cons_ne_nil _ _

/-! ### Copying -/

/-- What is copied already, and what is unread, is what was unread at first. -/
structure Copied (fragRoot : List Fragment) (linely : Bool) (bufSize origin : Nat)
    (pieces : List (List UInt8)) (c : Copying) : Prop where
  valid : Valid fragRoot c.current
  null : origin = NULL → c.current = NULL
  bytes : c.copied ++ (unreadFrom fragRoot c.current c.off).flatten = pieces.flatten
  togo : c.copied.length + c.togo = bufSize
  going : c.going = true →
    atOnce linely pieces = c.copied ++ atOnce linely (unreadFrom fragRoot c.current c.off)
  stopped : c.going = false → c.copied = (atOnce linely pieces).take bufSize

def Copying.measure (fragRoot : List Fragment) (c : Copying) : Nat :=
  c.togo + (follow fragRoot c.current).length + c.going.toNat

theorem unreadFrom_of_follow {fragRoot next : List Fragment} {current off : Nat} {f : Fragment}
    (there : follow fragRoot current = f :: next) :
    unreadFrom fragRoot current off = f.payload.drop off :: next.map (·.payload) := by
  rw [unreadFrom, there]

/-- From the begin of a fragment on, all of it is unread. -/
theorem unreadFrom_zero (fragRoot : List Fragment) (current : Nat) :
    unreadFrom fragRoot current 0 = (follow fragRoot current).map (·.payload) := by
  rw [unreadFrom]
  cases follow fragRoot current with
  | nil => rfl
  | cons f next => rfl

/-- A fragment of which nothing is unread makes no difference. -/
theorem atOnce_nil_cons (linely : Bool) (pieces : List (List UInt8)) :
    atOnce linely ([] :: pieces) = atOnce linely pieces := by
  cases linely <;> rfl

theorem firstPiece_cons {piece : List UInt8} (full : piece ≠ []) (pieces : List (List UInt8)) :
    firstPiece (piece :: pieces) = piece := by
  rw [firstPiece, List.find?_cons, decide_eq_true full, Option.getD_some]

theorem Copied.turn {fragRoot : List Fragment} {linely : Bool} {bufSize origin : Nat}
    {pieces : List (List UInt8)} {c : Copying} (placed : Placed fragRoot)
    (copied : Copied fragRoot linely bufSize origin pieces c)
    (goes : (c.going && decide (c.togo ≠ 0)) = true) :
    ∃ next, copyTurn fragRoot linely c = some next ∧
      Copied fragRoot linely bufSize origin pieces next ∧
        next.measure fragRoot < c.measure fragRoot := by
  rw [Bool.and_eq_true, decide_eq_true_iff] at goes
  obtain ⟨going, more⟩ := goes
  have goingOn := copied.going going
  have count := copied.togo
  have valid := copied.valid
  rw [copyTurn, Copying.measure, going]
  by_cases null : c.current = NULL
  · -- the list is at its end
    rw [if_pos null]
    have nothing : unreadFrom fragRoot c.current c.off = [] := by
      rw [unreadFrom, null, follow_null placed]
    refine ⟨_, rfl, ⟨valid, copied.null, copied.bytes, count, nofun, fun _ => ?_⟩, ?_⟩
    · have all : c.copied = atOnce linely pieces := by
        rw [goingOn, nothing]
        cases linely <;> exact (List.append_nil c.copied).symm
      rw [← all, List.take_of_length_le (by omega)]
    · show c.togo + (follow fragRoot c.current).length + 0 < _
      exact Nat.lt_succ_self _
  · rw [if_neg null]
    cases there : follow fragRoot c.current with
    | nil =>
      rw [Valid, there] at valid
      exact absurd valid.symm null
    | cons f next =>
      have same : unreadFrom fragRoot c.current c.off =
          f.payload.drop c.off :: next.map (·.payload) := unreadFrom_of_follow there
      have bytes := copied.bytes
      rw [same] at goingOn bytes
      dsimp only
      split
      · -- the fragment is read to its end
        rename_i done
        rw [List.drop_eq_nil_iff.mpr done] at goingOn bytes
        rw [atOnce_nil_cons] at goingOn
        have onward := follow_next placed there
        refine ⟨_, rfl, ⟨?_, fun origin => absurd (copied.null origin) null, ?_, count,
          fun _ => ?_, fun stopped => ?_⟩, ?_⟩
        · rw [Valid, onward]
        · rw [unreadFrom_zero, onward]
          exact bytes
        · rw [unreadFrom_zero, onward]
          exact goingOn
        · cases stopped
        · show c.togo + (follow fragRoot (pointer next)).length + 1 < _
          rw [onward, List.length_cons, Bool.toNat_true]
          omega
      · rename_i unread
        have inside : c.off < f.payload.length := Nat.lt_of_not_le unread
        have onward : ∀ off, unreadFrom fragRoot c.current off =
            f.payload.drop off :: next.map (·.payload) := fun off => unreadFrom_of_follow there
        cases linely with
        | true =>
          -- one byte of a line
          have first : f.payload.drop c.off =
              f.payload.getD c.off 0 :: f.payload.drop (c.off + 1) := by
            rw [List.drop_eq_getElem_cons inside, List.getD_eq_getElem _ _ inside]
          rw [first, List.flatten_cons, List.cons_append] at bytes
          have goingOn' : atOnce true pieces = c.copied ++ [f.payload.getD c.off 0] ++
              if f.payload.getD c.off 0 = CR then []
              else atOnce true (f.payload.drop (c.off + 1) :: next.map (·.payload)) := by
            rw [goingOn, first, List.append_assoc]
            exact congrArg _ (line_append _ _)
          refine ⟨_, rfl, ⟨valid, copied.null, ?_, ?_, fun goesOn => ?_, fun stops => ?_⟩, ?_⟩
          · rw [onward, List.append_assoc, List.flatten_cons]
            exact bytes
          · rw [List.length_append, List.length_singleton]
            dsimp only
            omega
          · rw [goingOn', if_neg (of_decide_eq_true goesOn), onward]
          · have ends := not_not.mp (of_decide_eq_false stops)
            rw [if_pos ends, List.append_nil] at goingOn'
            rw [goingOn', List.take_of_length_le]
            rw [List.length_append, List.length_singleton]
            omega
          · show c.togo - 1 + (follow fragRoot c.current).length + _ < _
            have bit := Bool.toNat_le (decide (f.payload.getD c.off 0 ≠ CR))
            rw [there, Bool.toNat_true]
            dsimp only
            omega
        | false =>
          -- what is left of the fragment, or what is asked for
          have full : f.payload.drop c.off ≠ [] := fun empty =>
            unread (List.drop_eq_nil_iff.mp empty)
          have rest : atOnce false pieces = c.copied ++ f.payload.drop c.off := by
            rw [goingOn]
            exact congrArg _ (firstPiece_cons full _)
          have length : (f.payload.drop c.off).length = f.payload.length - c.off :=
            List.length_drop
          refine ⟨_, rfl, ⟨valid, copied.null, ?_, ?_, nofun, fun _ => ?_⟩, ?_⟩
          · rw [onward, ← bytes, List.append_assoc, List.flatten_cons, List.flatten_cons,
              ← List.append_assoc (List.take _ _), ← List.drop_drop, List.take_append_drop]
          · rw [List.length_append, List.length_take, length]
            dsimp only
            omega
          · rw [rest, List.take_append,
              List.take_of_length_le (show c.copied.length ≤ bufSize by omega),
              List.append_cancel_left_eq, List.take_eq_take_iff, length]
            omega
          · show c.togo - _ + (follow fragRoot c.current).length + 0 < _
            rw [there, Bool.toNat_true]
            omega

/-- What is taken at once is copied, as far as it fits, and the rest stays unread. -/
theorem copyBytesToBuffer_spec {d : Daemon} (placed : Placed d.fragRoot) {path : Nat}
    (valid : Valid d.fragRoot (d.paths path).current) (bufSize : Nat) (linely : Bool) :
    ∃ p data, copyBytesToBuffer d path bufSize linely =
        some ({ d with paths := Function.update d.paths path p }, data) ∧
      p.root = (d.paths path).root ∧ Valid d.fragRoot p.current ∧
      ((d.paths path).current = NULL → p.current = NULL) ∧
      data = (atOnce linely (unread d path)).take bufSize ∧
      data ++ (unreadFrom d.fragRoot p.current p.off).flatten = (unread d path).flatten := by
  have first : Copied d.fragRoot linely bufSize (d.paths path).current (unread d path)
      ⟨(d.paths path).current, (d.paths path).off, bufSize, [], true⟩ :=
    ⟨valid, id, rfl, Nat.zero_add _, fun _ => rfl, nofun⟩
  have short : Copying.measure d.fragRoot
      ⟨(d.paths path).current, (d.paths path).off, bufSize, [], true⟩ ≤
        bufSize + d.fragRoot.length + 1 :=
    Nat.add_le_add_right (Nat.add_le_add_left (length_follow_le d.fragRoot _) _) 1
  obtain ⟨final, reached, copied, ends⟩ := whileLoop_invariant
    (Copied d.fragRoot linely bufSize (d.paths path).current (unread d path))
    (Copying.measure d.fragRoot)
    (fun c goes copied => copied.turn placed goes) first short
  refine ⟨⟨(d.paths path).root, final.current, final.off⟩, final.copied, ?_, rfl, copied.valid,
    copied.null, ?_, copied.bytes⟩
  · rw [copyBytesToBuffer, reached, Option.map_some]
  · cases going : final.going with
    | false => exact copied.stopped going
    | true =>
      rw [going, Bool.true_and, decide_eq_false_iff_not, not_not] at ends
      have count := copied.togo
      rw [copied.going going, List.take_append_of_le_length (by omega), List.take_of_length_le]
      omega

/-! ### Getting a file -/

/-- The blocks before the one that is expected are in the list, and at the end all of them are. -/
structure Getting (file : List UInt8) (c : Client (List Fragment)) : Prop where
  placed : Placed c.saved
  going : c.ending = none → c.expectedBlock ≤ lastBlock file ∧ 1 ≤ c.expectedBlock ∧
    saveBytes.bytes c.saved = file.take (512 * (c.expectedBlock - 1))
  ended : ∀ ending, c.ending = some ending → ending = .okay ∧ saveBytes.bytes c.saved = file

/-- This is the datagram of the block that is expected. -/
def IsDue (file : List UInt8) (c : Client (List Fragment)) (d : Datagram) : Prop :=
  d.data = dataHeader c.expectedBlock ++ payload file c.expectedBlock

theorem saveBytes_save {fragments : List Fragment} (placed : Placed fragments) {data : List UInt8}
    {malloc : Option Nat} (room : data ≠ [] →
      ∃ addr, malloc = some addr ∧ addr ≠ NULL ∧ addr ∉ fragments.map (·.addr)) :
    ∃ saved, saveBytes.save fragments data malloc = (saved, true) ∧ Placed saved ∧
      saveBytes.bytes saved = saveBytes.bytes fragments ++ data := by
  have law := saveBytes.bytes_save fragments data malloc
  by_cases empty : data = []
  · have same : saveBytes.save fragments data malloc = (fragments, true) := if_pos empty
    rw [same] at law
    exact ⟨fragments, same, placed, law rfl⟩
  · obtain ⟨addr, rfl, null, unused⟩ := room empty
    have grown : saveBytes.save fragments data (some addr) = (fragments ++ [⟨addr, data⟩], true) :=
      if_neg empty
    rw [grown] at law
    refine ⟨_, grown, ⟨?_, ?_⟩, law rfl⟩
    · rw [List.map_append, List.mem_append, not_or]
      exact ⟨placed.1, fun there => null (List.mem_singleton.mp there).symm⟩
    · rw [List.map_append]
      refine List.nodup_append.mpr ⟨placed.2, List.nodup_singleton addr, ?_⟩
      rintro other old _ new rfl
      rw [List.mem_singleton.mp new] at old
      exact unused old

/-- A block that is due is kept, and it is the last one if it is short. -/
theorem takeBlock_of_due {Saved Answer : Type} {saver : Saver Saved Answer} {Verbosity : UInt8}
    {c : Client Saved} {t : Turn Answer} {data : List UInt8} {saved : Saved}
    (going : c.ending = none) (sent : t.sent = true)
    (due : t.datagram.data = dataHeader c.expectedBlock ++ data) (small : data.length ≤ 512)
    (keeps : saver.save c.saved data t.answer = (saved, true)) :
    (takeBlock saver Verbosity (c.received t.datagram) t).saved = saved ∧
      (takeBlock saver Verbosity (c.received t.datagram) t).ending =
        (if data.length < 512 then some .okay else none) ∧
      (takeBlock saver Verbosity (c.received t.datagram) t).expectedBlock =
        if 512 ≤ data.length then (c.expectedBlock + 1) % 65536 else c.expectedBlock := by
  have size : t.datagram.data.length = 4 + data.length := by
    rw [due, List.length_append, length_dataHeader]
  have len : (t.datagram.data.length + 65536 - 4) % 65536 = t.datagram.data.length - 4 := by omega
  have got : t.datagram.data.drop 4 = data := by rw [due]; rfl
  have count : t.datagram.data.length - 4 = data.length := by omega
  have whole : load (sendAck (c.received t.datagram).packet c.expectedBlock) 4
      (t.datagram.data.length - 4) = data := (load_sendAck _ _ _).trans got
  have kept : (saver.save c.saved data t.answer).1 = saved := by rw [keeps]
  have done : ¬((saver.save c.saved data t.answer).2 = false ∧ LogFatal Verbosity = true) := by
    simp [keeps]
  have same : (c.received t.datagram).saved = c.saved := rfl
  rw [takeBlock]
  dsimp only
  rw [if_neg (by simp [sent]), len,
    show (c.received t.datagram).expectedBlock = c.expectedBlock from rfl, whole, count, same,
    if_neg done]
  by_cases full : 512 ≤ data.length
  · rw [if_pos full, if_neg (Nat.not_lt.mpr full), if_neg (Nat.not_lt.mpr full)]
    exact ⟨kept, going, rfl⟩
  · rw [if_neg full, if_pos (Nat.lt_of_not_le full), if_pos (Nat.lt_of_not_le full)]
    exact ⟨kept, rfl, rfl⟩

/-- What a block of the file does: it is taken if it is due, and else nothing happens. -/
theorem Getting.turn {file : List UInt8} {c : Client (List Fragment)} {t : Turn (Option Nat)}
    (getting : Getting file c) (short : file.length < 65536) (going : c.ending = none)
    (data : IsData file t.datagram) (sent : t.sent = true) (roomy : Roomy c t) :
    ∃ c', turn saveBytes LLInfo c t = some c' ∧ Getting file c' ∧
      (IsDue file c t.datagram → c'.ending = none → c'.expectedBlock = c.expectedBlock + 1) ∧
      (¬IsDue file c t.datagram → c'.ending = none ∧ c'.expectedBlock = c.expectedBlock) := by
  obtain ⟨block, first, last, same⟩ := data
  obtain ⟨expected, one, saved⟩ := getting.going going
  rw [lastBlock] at expected last
  obtain ⟨type, arg⟩ := word_block c.packet block (payload file block)
  rw [← same] at type arg
  rw [Nat.mod_eq_of_lt (by omega)] at arg
  have type : word (c.received t.datagram).packet 0 = OP_DATA := type
  have arg : word (c.received t.datagram).packet 2 = block := arg
  rw [Tftp.turn, if_neg (not_not.mpr going)]
  dsimp only
  rw [type, arg, if_pos rfl, show (c.received t.datagram).expectedBlock = c.expectedBlock from rfl]
  by_cases right : block = c.expectedBlock
  · subst right
    rw [if_neg (not_not.mpr rfl)]
    have room : payload file c.expectedBlock ≠ [] → ∃ addr, t.answer = some addr ∧ addr ≠ NULL ∧
        addr ∉ c.saved.map (·.addr) := by
      intro full
      refine roomy going (same ▸ List.prefix_append _ _) ?_
      rw [same, List.length_append, length_dataHeader]
      exact Nat.lt_add_of_pos_right (List.length_pos_iff.mpr full)
    obtain ⟨next, keeps, placed, bytes⟩ := saveBytes_save getting.placed room
    have length := length_payload file c.expectedBlock
    obtain ⟨kept, ending, later⟩ := takeBlock_of_due going sent same (by omega) keeps
    have all : saveBytes.bytes next = file.take (512 * c.expectedBlock) := by
      have joined := take_append_payload file (c.expectedBlock - 1)
      rw [Nat.sub_add_cancel one] at joined
      rw [bytes, saved, joined]
    by_cases full : 512 ≤ (payload file c.expectedBlock).length
    · -- there is another block
      rw [if_neg (Nat.not_lt.mpr full)] at ending
      rw [if_pos full, Nat.mod_eq_of_lt (by omega)] at later
      refine ⟨_, rfl, ⟨kept ▸ placed, fun _ => ?_, fun e ended => ?_⟩, fun _ _ => later,
        fun other => absurd same other⟩
      · rw [later, kept, all, lastBlock]
        exact ⟨by omega, by omega, rfl⟩
      · rw [ending] at ended
        cases ended
    · rw [if_pos (Nat.lt_of_not_le full)] at ending
      refine ⟨_, rfl, ⟨kept ▸ placed, fun goesOn => ?_, fun e ended => ?_⟩, fun _ goesOn => ?_,
        fun other => absurd same other⟩
      · rw [ending] at goesOn
        cases goesOn
      · rw [ending, Option.some_inj] at ended
        rw [kept, all, List.take_of_length_le (by omega)]
        exact ⟨ended.symm, rfl⟩
      · rw [ending] at goesOn
        cases goesOn
  · rw [if_pos right]
    refine ⟨_, rfl, ⟨getting.placed, fun _ => getting.going going, getting.ended⟩, ?_,
      fun _ => ⟨going, rfl⟩⟩
    intro due
    rw [IsDue, same] at due
    have header := (List.append_inj due rfl).1
    rw [dataHeader, dataHeader, List.cons.injEq, List.cons.injEq, List.cons.injEq,
      List.cons.injEq] at header
    have number : hiLo (hi block) (lo block) = hiLo (hi c.expectedBlock) (lo c.expectedBlock) := by
      rw [header.2.2.1, header.2.2.2.1]
    rw [hiLo_hi_lo, hiLo_hi_lo, Nat.mod_eq_of_lt (by omega), Nat.mod_eq_of_lt (by omega)] at number
    exact absurd number right

theorem getting_start {packet : Nat → UInt8} (file filename : List UInt8) :
    Getting file (start packet filename []) :=
  ⟨⟨List.not_mem_nil, List.nodup_nil⟩, fun _ => ⟨Nat.le_add_left 1 _, le_rfl, rfl⟩, nofun⟩

/-- While blocks of the file arrive, the list is the begin of the file, and it is all of it when
the loop ends. -/
theorem Getting.run {file : List UInt8} {c c' : Client (List Fragment)}
    {turns : List (Turn (Option Nat))} (getting : Getting file c) (short : file.length < 65536)
    (promised : ∀ t ∈ turns, IsData file t.datagram ∧ t.sent = true)
    (roomy : Meets (Tftp.turn saveBytes LLInfo) Roomy c turns)
    (reached : run (Tftp.turn saveBytes LLInfo) c turns = some c') : Getting file c' := by
  induction turns generalizing c with
  | nil =>
    rw [run_nil, Option.some_inj] at reached
    exact reached ▸ getting
  | cons t rest inductionHypothesis =>
    obtain ⟨next, turned, onward⟩ := run_cons_eq_some.mp reached
    obtain ⟨data, sent⟩ := promised t List.mem_cons_self
    obtain ⟨other, also, kept, -⟩ :=
      getting.turn short (turned_of_turn turned).1 data sent roomy.1
    rw [turned, Option.some_inj] at also
    exact inductionHypothesis (also ▸ kept)
      (fun t member => promised t (List.mem_cons_of_mem _ member)) (roomy.2 next turned) onward

/-- The first turns of a series. -/
def first (arrivals : Nat → Turn (Option Nat)) (count : Nat) : List (Turn (Option Nat)) :=
  (List.range count).map arrivals

theorem first_succ (arrivals : Nat → Turn (Option Nat)) (count : Nat) :
    first arrivals (count + 1) = first arrivals count ++ [arrivals count] := by
  rw [first, List.range_succ, List.map_append, List.map_singleton, first]

/-- Blocks of a file arrive, and each is sent again until it was acknowledged: as long as the loop
is not over, the block that is expected comes at some time. -/
structure Resent (file : List UInt8) (c : Client (List Fragment))
    (arrivals : Nat → Turn (Option Nat)) : Prop where
  data : ∀ i, IsData file (arrivals i).datagram ∧ (arrivals i).sent = true
  again : ∀ count c', run (turn saveBytes LLInfo) c (first arrivals count) = some c' →
    c'.ending = none → ∃ wait, IsDue file c' (arrivals (count + wait)).datagram

/-- If the block that is expected comes, the next one is expected then, or the loop is over. -/
theorem expects_next {file : List UInt8} {c c' : Client (List Fragment)}
    {arrivals : Nat → Turn (Option Nat)} {count wait : Nat} (short : file.length < 65536)
    (data : ∀ i, IsData file (arrivals i).datagram ∧ (arrivals i).sent = true)
    (roomy : ∀ count, Meets (turn saveBytes LLInfo) Roomy c (first arrivals count))
    (reached : run (turn saveBytes LLInfo) c (first arrivals count) = some c')
    (getting : Getting file c') (going : c'.ending = none)
    (due : IsDue file c' (arrivals (count + wait)).datagram) :
    ∃ count next, run (turn saveBytes LLInfo) c (first arrivals count) = some next ∧
      Getting file next ∧ (next.ending = none → next.expectedBlock = c'.expectedBlock + 1) := by
  induction wait generalizing count c' with
  | zero =>
    have meets := roomy (count + 1)
    rw [first_succ] at meets
    have room := ((meets_append.mp meets).2 c' reached).1
    obtain ⟨next, turned, kept, advances, -⟩ :=
      getting.turn short going (data count).1 (data count).2 room
    refine ⟨count + 1, next, ?_, kept, advances due⟩
    rw [first_succ, run_append_of_reached reached, Run.run, turned, Option.bind_some, run_nil]
  | succ wait inductionHypothesis =>
    have meets := roomy (count + 1)
    rw [first_succ] at meets
    have room := ((meets_append.mp meets).2 c' reached).1
    obtain ⟨next, turned, kept, advances, stays⟩ :=
      getting.turn short going (data count).1 (data count).2 room
    have reached' : run (turn saveBytes LLInfo) c (first arrivals (count + 1)) = some next := by
      rw [first_succ, run_append_of_reached reached, Run.run, turned, Option.bind_some, run_nil]
    by_cases now : IsDue file c' (arrivals count).datagram
    · exact ⟨count + 1, next, reached', kept, advances now⟩
    · obtain ⟨goesOn, same⟩ := stays now
      rw [← Nat.add_assoc, Nat.add_right_comm] at due
      rw [IsDue, ← same] at due
      rw [← same]
      exact inductionHypothesis reached' kept goesOn due

/-- The download ends, and well. -/
theorem Resent.ends {file : List UInt8} {c : Client (List Fragment)}
    {arrivals : Nat → Turn (Option Nat)} (resent : Resent file c arrivals)
    (getting : Getting file c) (short : file.length < 65536)
    (roomy : ∀ count, Meets (turn saveBytes LLInfo) Roomy c (first arrivals count)) :
    ∃ count c', run (turn saveBytes LLInfo) c (first arrivals count) = some c' ∧
      c'.ending = some .okay := by
  by_contra never
  have onward : ∀ block, ∃ count c',
      run (turn saveBytes LLInfo) c (first arrivals count) = some c' ∧ Getting file c' ∧
        c'.ending = none ∧ block ≤ c'.expectedBlock := by
    have goesOn : ∀ count c', run (turn saveBytes LLInfo) c (first arrivals count) = some c' →
        Getting file c' → c'.ending = none := by
      intro count c' reached getting'
      cases ended : c'.ending with
      | none => rfl
      | some ending =>
        refine absurd ⟨count, c', reached, ?_⟩ never
        rw [ended, (getting'.ended ending ended).1]
    intro block
    induction block with
    | zero => exact ⟨0, c, rfl, getting, goesOn 0 c rfl getting, Nat.zero_le _⟩
    | succ block inductionHypothesis =>
      obtain ⟨count, c', reached, getting', going, enough⟩ := inductionHypothesis
      obtain ⟨wait, due⟩ := resent.again count c' reached going
      obtain ⟨later, next, reached', kept, advances⟩ :=
        expects_next short resent.data roomy reached getting' going due
      have going' := goesOn later next reached' kept
      exact ⟨later, next, reached', kept, going',
        (Nat.succ_le_succ enough).trans_eq (advances going').symm⟩
  obtain ⟨count, c', reached, getting', going, beyond⟩ := onward (lastBlock file + 1)
  exact absurd (getting'.going going).1 (Nat.not_le_of_lt beyond)

/-! ### One request -/

/-- The list is of one path at most, and each path has unread what it has still to deliver. -/
structure Holds (d : Daemon) (streams : Streams) : Prop where
  placed : Placed d.fragRoot
  valid : ∀ path, Valid d.fragRoot (d.paths path).current
  owner : ∀ path, (d.paths path).root ≠ pointer d.fragRoot →
    (d.paths path).root = NULL ∧ (d.paths path).current = NULL
  alone : d.fragRoot ≠ [] → ∀ path other, (d.paths path).root = pointer d.fragRoot →
    (d.paths other).root = pointer d.fragRoot → path = other
  left : ∀ path, (unread d path).flatten = (streams path).getD []

/-- Where the list is empty, no path is in it. -/
theorem Holds.null_of_nil {d : Daemon} {streams : Streams} (holds : Holds d streams)
    (empty : d.fragRoot = []) (path : Nat) :
    (d.paths path).root = NULL ∧ (d.paths path).current = NULL := by
  have valid := holds.valid path
  rw [Valid, empty] at valid
  refine ⟨?_, valid.symm⟩
  by_contra other
  refine other (holds.owner path ?_).1
  rw [empty]
  exact other

/-- If the list is of this path, no other path is in it. -/
theorem Holds.null_of_owned {d : Daemon} {streams : Streams} (holds : Holds d streams)
    {path other : Nat} (owns : (d.paths path).root = pointer d.fragRoot)
    (different : other ≠ path) :
    (d.paths other).root = NULL ∧ (d.paths other).current = NULL := by
  by_cases also : (d.paths other).root = pointer d.fragRoot
  · by_cases empty : d.fragRoot = []
    · exact holds.null_of_nil empty other
    · exact absurd (holds.alone empty other path also owns) different
  · exact holds.owner other also

theorem unread_of_null {d : Daemon} (placed : Placed d.fragRoot) {path : Nat}
    (null : (d.paths path).current = NULL) : unread d path = [] := by
  rw [unread, unreadFrom, null, follow_null placed]

theorem Holds.opened {d : Daemon} {streams : Streams} (holds : Holds d streams)
    (empty : d.fragRoot = []) (packet : Nat → UInt8) {saved : List Fragment} (placed : Placed saved)
    (path : Nat) :
    Holds ⟨packet, saved, Function.update d.paths path ⟨pointer saved, pointer saved, 0⟩⟩
      (Function.update streams path (some (saveBytes.bytes saved))) := by
  have others : ∀ other, other ≠ path →
      Function.update d.paths path ⟨pointer saved, pointer saved, 0⟩ other = d.paths other :=
    fun other different => Function.update_of_ne different _ _
  have whole : follow saved (pointer saved) = saved := @follow_pointer [] saved placed
  refine ⟨placed, fun other => ?_, fun other differs => ?_, fun full one two mine also => ?_,
    fun other => ?_⟩
  · dsimp only
    by_cases same : other = path
    · rw [same, Function.update_self, Valid, whole]
    · rw [others other same, (holds.null_of_nil empty other).2]
      exact valid_null placed
  · dsimp only at differs ⊢
    by_cases same : other = path
    · rw [same, Function.update_self] at differs
      exact absurd rfl differs
    · rw [others other same]
      exact holds.null_of_nil empty other
  · have owner : ∀ other, (Function.update d.paths path
        ⟨pointer saved, pointer saved, 0⟩ other).root = pointer saved → other = path := by
      intro other owns
      by_contra different
      rw [others other different, (holds.null_of_nil empty other).1] at owns
      exact pointer_ne_null placed full owns.symm
    rw [owner one mine, owner two also]
  · rw [unread]
    dsimp only
    by_cases same : other = path
    · rw [same, Function.update_self, Function.update_self, unreadFrom_zero, whole]
      rfl
    · have before := holds.left other
      rw [unread_of_null holds.placed (holds.null_of_nil empty other).2] at before
      rw [others other same, Function.update_of_ne same, unreadFrom,
        (holds.null_of_nil empty other).2, follow_null placed, ← before]

/-- An open that comes to an end succeeds. -/
theorem doOpenRead_spec {d : Daemon} {streams : Streams} (holds : Holds d streams) {path : Nat}
    {file filename : List UInt8} {turns : List (Turn (Option Nat))}
    (promised : ∀ t ∈ turns, IsData file t.datagram ∧ t.sent = true)
    (small : path < MAX_PATHS) (empty : d.fragRoot = []) (short : file.length < 65536)
    (roomy : Meets (turn saveBytes LLInfo) Roomy (start d.packet filename d.fragRoot) turns)
    {daemon : Option Daemon} {reply : Reply}
    (answered : doOpenRead d path filename turns = some (daemon, reply)) :
    reply = .okay ∧
      ∃ d', daemon = some d' ∧ Holds d' (Function.update streams path (some file)) := by
  rw [doOpenRead, if_neg (not_not.mpr empty), Option.bind_eq_some_iff] at answered
  obtain ⟨c, reached, ended⟩ := answered
  rw [empty] at roomy reached
  have getting := (getting_start file filename).run short promised roomy reached
  cases ending : c.ending with
  | none =>
    rw [ending] at ended
    cases ended
  | some e =>
    obtain ⟨rfl, whole⟩ := getting.ended e ending
    rw [ending] at ended
    dsimp only at ended
    rw [if_pos small, Option.some_inj, Prod.mk.injEq] at ended
    refine ⟨ended.2.symm, _, ended.1.symm, ?_⟩
    rw [← whole]
    exact holds.opened empty c.packet getting.placed path

/-- A close of the path that has the list leaves the other paths alone. -/
theorem doClose_spec {d : Daemon} {streams : Streams} (holds : Holds d streams) {path : Nat}
    (small : path < MAX_PATHS) (owns : (d.paths path).root = pointer d.fragRoot) :
    (doClose d path).2 = .okay ∧ ∃ d', (doClose d path).1 = some d' ∧
      Holds d' (Function.update streams path none) := by
  rw [doClose, if_pos small]
  have placed : Placed [] := ⟨List.not_mem_nil, List.nodup_nil⟩
  have null : ∀ other, (Function.update d.paths path ⟨NULL, NULL, 0⟩ other).root = NULL ∧
      (Function.update d.paths path ⟨NULL, NULL, 0⟩ other).current = NULL := by
    intro other
    by_cases same : other = path
    · rw [same, Function.update_self]
      exact ⟨rfl, rfl⟩
    · rw [Function.update_of_ne same]
      exact holds.null_of_owned owns same
  refine ⟨rfl, _, rfl, placed, fun other => ?_, fun other _ => null other,
    fun full => absurd rfl full, fun other => ?_⟩
  · rw [(null other).2]
    exact valid_null placed
  · rw [unread_of_null placed (null other).2]
    by_cases same : other = path
    · rw [same, Function.update_self]
      rfl
    · have before := holds.left other
      rw [unread_of_null holds.placed (holds.null_of_owned owns same).2] at before
      rw [Function.update_of_ne same, ← before]

/-- A path goes on in its list. -/
theorem Holds.moved {d : Daemon} {streams after : Streams} (holds : Holds d streams) {path : Nat}
    {p : PathInfo} (root : p.root = (d.paths path).root) (valid : Valid d.fragRoot p.current)
    (null : (d.paths path).current = NULL → p.current = NULL)
    (here : (unreadFrom d.fragRoot p.current p.off).flatten = (after path).getD [])
    (others : ∀ other, other ≠ path → after other = streams other) :
    Holds { d with paths := Function.update d.paths path p } after := by
  have roots : ∀ other, (Function.update d.paths path p other).root = (d.paths other).root := by
    intro other
    by_cases same : other = path
    · rw [same, Function.update_self, root]
    · rw [Function.update_of_ne same]
  refine ⟨holds.placed, fun other => ?_, fun other differs => ?_, fun full one two mine also => ?_,
    fun other => ?_⟩
  · dsimp only
    by_cases same : other = path
    · rw [same, Function.update_self]
      exact valid
    · rw [Function.update_of_ne same]
      exact holds.valid other
  · dsimp only at differs ⊢
    rw [roots] at differs ⊢
    refine ⟨(holds.owner other differs).1, ?_⟩
    by_cases same : other = path
    · rw [same, Function.update_self]
      exact null (same ▸ (holds.owner other differs).2)
    · rw [Function.update_of_ne same]
      exact (holds.owner other differs).2
  · dsimp only at mine also
    rw [roots] at mine also
    exact holds.alone full one two mine also
  · rw [unread]
    dsimp only
    by_cases same : other = path
    · rw [same, Function.update_self]
      exact here
    · rw [Function.update_of_ne same, others other same]
      exact holds.left other

/-- What a read of an open path answers is what is due, if there is room for it. -/
theorem doRead_spec {d : Daemon} {streams : Streams} (holds : Holds d streams) {path size : Nat}
    (linely : Bool) (small : path < MAX_PATHS)
    (room : min PAYSIZ (atOnce linely (unread d path)).length ≤ size) :
    Right streams (.read linely path size, (doRead d linely path size).2) ∧
      ∃ d', (doRead d linely path size).1 = some d' ∧
        Holds d' (streams.after (.read linely path size, (doRead d linely path size).2)) := by
  obtain ⟨p, data, copies, root, valid, null, taken, rest⟩ :=
    copyBytesToBuffer_spec holds.placed (holds.valid path) PAYSIZ linely
  have left := holds.left path
  have length : data.length = min PAYSIZ (atOnce linely (unread d path)).length := by
    rw [taken, List.length_take]
  have begins : data <+: atOnce linely (unread d path) := taken ▸ List.take_prefix _ _
  have nothing : data = [] → (unread d path).flatten = [] := by
    intro empty
    by_contra more
    have some := List.length_pos_iff.mpr (atOnce_ne_nil linely more)
    rw [empty, List.length_nil, PAYSIZ] at length
    omega
  rw [doRead, if_pos small, copies]
  dsimp only
  by_cases empty : data = []
  · rw [empty, List.length_nil, if_neg (not_not.mpr rfl)]
    refine ⟨fun bytes open_ => ⟨rfl, ?_⟩, _, rfl, holds.moved root valid null ?_ fun _ _ => rfl⟩
    · rw [open_, Option.getD_some, nothing empty] at left
      exact left.symm
    · rw [empty, List.nil_append] at rest
      exact rest.trans left
  · rw [if_pos fun zero => empty (List.length_eq_zero_iff.mp zero),
      List.take_of_length_le (by omega)]
    refine ⟨fun bytes open_ => ⟨empty, ?_, by omega, fun ends i there => ?_⟩, _, rfl,
      holds.moved root valid null ?_ fun other different => Function.update_of_ne different _ _⟩
    · rw [open_, Option.getD_some] at left
      exact left ▸ ⟨_, rest⟩
    · -- a carriage return in what is taken is the one that ends the line
      rw [ends] at taken begins length
      obtain ⟨inside, same⟩ := List.getElem?_eq_some_iff.mp there
      have last : i + 1 = (line (unread d path).flatten).length := by
        refine line_ends (List.getElem?_eq_some_iff.mpr ⟨?_, ?_⟩)
        · exact inside.trans_le begins.length_le
        · rw [← same]
          exact (begins.getElem inside).symm
      have most : data.length ≤ (line (unread d path).flatten).length := begins.length_le
      omega
    · show _ = (Function.update streams path _ path).getD []
      rw [Function.update_self]
      cases due : streams path with
      | none =>
        rw [due, Option.getD_none] at left
        rw [left] at rest
        exact (List.append_eq_nil_iff.mp rest).2
      | some bytes =>
        rw [due, Option.getD_some] at left
        rw [left] at rest
        rw [Option.map_some, Option.getD_some, ← rest, List.drop_left]

/-! ### Every run -/

structure Sound (s : System) : Prop where
  served : Served s.exchanges
  holds : ∃ d, s.daemon = some d ∧ Holds d (streamsAfter s.exchanges)

theorem streamsAfter_concat (exchanges : List (Request × Reply)) (exchange : Request × Reply) :
    streamsAfter (exchanges ++ [exchange]) = (streamsAfter exchanges).after exchange :=
  List.foldl_concat _ _ _ _

theorem Served.concat {exchanges : List (Request × Reply)} {exchange : Request × Reply}
    (served : Served exchanges) (right : Right (streamsAfter exchanges) exchange) :
    Served (exchanges ++ [exchange]) := by
  intro before other begins
  rcases List.prefix_concat_iff.mp begins with whole | earlier
  · obtain ⟨rfl, last⟩ := List.append_inj' whole rfl
    exact List.singleton_inj.mp last ▸ right
  · exact served before other earlier

theorem sound_initial (packet : Nat → UInt8) : Sound (initial packet) := by
  refine ⟨fun before exchange begins => ?_, _, rfl, ?_⟩
  · exact absurd (List.prefix_nil.mp begins) (List.append_ne_nil_of_right_ne_nil _ nofun)
  · exact ⟨⟨List.not_mem_nil, List.nodup_nil⟩, fun _ => rfl, fun _ other => absurd rfl other,
      fun full => absurd rfl full, fun _ => rfl⟩

/-- A request that meets the condition is answered as it should be. -/
theorem Sound.answered {s next : System} {request : Request} (sound : Sound s)
    (promised : Promised request) (spared : Spared s request)
    (taken : serve s request = some next) : Sound next := by
  obtain ⟨d, there, holds⟩ := sound.holds
  have condition := spared d there
  rw [serve, there, Option.bind_some, Option.map_eq_some_iff] at taken
  obtain ⟨⟨daemon, reply⟩, answered, rfl⟩ := taken
  suffices good : Right (streamsAfter s.exchanges) (request, reply) ∧
      ∃ d', daemon = some d' ∧ Holds d' ((streamsAfter s.exchanges).after (request, reply)) by
    obtain ⟨right, d', same, holds'⟩ := good
    refine ⟨sound.served.concat right, d', same, ?_⟩
    rw [streamsAfter_concat]
    exact holds'
  cases request with
  | openRead path file filename turns =>
    obtain ⟨small, empty, short, roomy⟩ := condition
    exact doOpenRead_spec holds promised small empty short roomy answered
  | read linely path size =>
    have read := Option.some.inj answered
    have spec := doRead_spec holds linely condition.1 condition.2
    rw [read] at spec
    exact spec
  | close path =>
    have closed := Option.some.inj answered
    have spec := doClose_spec holds condition.1 condition.2
    rw [closed] at spec
    exact spec

theorem sound_of_run {packet : Nat → UInt8} {requests : List Request} {final : System}
    (meets : Meets serve (fun s request => Promised request ∧ Spared s request) (initial packet)
      requests)
    (reached : run serve (initial packet) requests = some final) : Sound final :=
  invariant_of_run Sound
    (fun _ _ _ sound condition taken => sound.answered condition.1 condition.2 taken)
    (sound_initial packet) meets reached

/-- Every open comes to an end, if its blocks are sent again until they are acknowledged. -/
theorem Sound.opens {s : System} (sound : Sound s) {path : Nat} {file filename : List UInt8}
    {arrivals : Nat → Turn (Option Nat)}
    (resent : ∀ d, s.daemon = some d → Resent file (start d.packet filename d.fragRoot) arrivals)
    (spared : ∀ count, Spared s (.openRead path file filename (first arrivals count))) :
    ∃ count daemon, serve s (.openRead path file filename (first arrivals count)) =
      some ⟨daemon,
        s.exchanges ++ [(.openRead path file filename (first arrivals count), .okay)]⟩ := by
  obtain ⟨d, there, -⟩ := sound.holds
  obtain ⟨small, empty, short, -⟩ := spared 0 d there
  have getting : Getting file (start d.packet filename d.fragRoot) := by
    rw [empty]
    exact getting_start file filename
  obtain ⟨count, c, reached, okay⟩ :=
    (resent d there).ends getting short fun count => (spared count d there).2.2.2
  have answered : answer d (.openRead path file filename (first arrivals count)) =
      some (some ⟨c.packet, c.saved, Function.update d.paths path
        ⟨pointer c.saved, pointer c.saved, 0⟩⟩, .okay) := by
    rw [answer, doOpenRead, if_neg (not_not.mpr empty), reached, Option.bind_some, okay]
    exact if_pos small
  have served : serve s (.openRead path file filename (first arrivals count)) =
      some ⟨some ⟨c.packet, c.saved, Function.update d.paths path
        ⟨pointer c.saved, pointer c.saved, 0⟩⟩,
        s.exchanges ++ [(.openRead path file filename (first arrivals count), .okay)]⟩ := by
    rw [serve, there, Option.bind_some, answered, Option.map_some]
  exact ⟨count, _, served⟩

theorem length_sourceAddr : ([10, 5, 5, 5] : List UInt8).length = 4 := rfl

theorem length_sourcePort : ([0, 69] : List UInt8).length = 2 := rfl

theorem fits_blockOne : ([0, 3, 0, 1, 97, 98] : List UInt8).length ≤ sizeofPacket := by
  decide

/-- Block 1 of the file with the bytes 97 and 98, which `Malloc` puts at 4096. -/
def twoBytes : Turn (Option Nat) :=
  ⟨⟨[10, 5, 5, 5], [0, 69], [0, 3, 0, 1, 97, 98], length_sourceAddr, length_sourcePort⟩,
    fits_blockOne, true, some 4096⟩

theorem isData_twoBytes : IsData [97, 98] twoBytes.datagram := ⟨1, le_rfl, by decide, rfl⟩

theorem isDue_twoBytes (packet : Nat → UInt8) :
    IsDue [97, 98] (start packet [97] []) twoBytes.datagram := by
  show twoBytes.datagram.data = dataHeader 1 ++ payload [97, 98] 1
  decide

theorem roomy_twoBytes (packet : Nat → UInt8) : Roomy (start packet [97] []) twoBytes :=
  fun _ _ _ => ⟨4096, rfl, by decide, List.not_mem_nil⟩

/-- The only block ends the loop. -/
theorem ending_twoBytes {packet : Nat → UInt8} {next : Client (List Fragment)}
    (turned : turn saveBytes LLInfo (start packet [97] []) twoBytes = some next) :
    next.ending ≠ none := by
  obtain ⟨other, also, kept, advances, -⟩ :=
    (getting_start [97, 98] [97]).turn (by decide) rfl isData_twoBytes rfl (roomy_twoBytes packet)
  rw [turned, Option.some_inj] at also
  intro goesOn
  have last := (kept.going (also ▸ goesOn)).1
  rw [advances (isDue_twoBytes packet) (also ▸ goesOn)] at last
  have one : 1 + 1 ≤ lastBlock [97, 98] := last
  exact absurd one (by decide)

/-- The server sends the only block again and again. -/
theorem resent_twoBytes (packet : Nat → UInt8) :
    Resent [97, 98] (start packet [97] []) fun _ => twoBytes := by
  refine ⟨fun _ => ⟨isData_twoBytes, rfl⟩, fun count c reached going => ?_⟩
  cases count with
  | zero =>
    rw [first, List.range_zero, List.map_nil, run_nil, Option.some_inj] at reached
    exact ⟨0, reached ▸ isDue_twoBytes packet⟩
  | succ count =>
    rw [first, List.range_succ_eq_map, List.map_cons] at reached
    obtain ⟨next, turned, onward⟩ := run_cons_eq_some.mp reached
    cases turns : ((List.range count).map Nat.succ).map fun _ => twoBytes with
    | nil =>
      rw [turns, run_nil, Option.some_inj] at onward
      exact absurd (onward ▸ going) (ending_twoBytes turned)
    | cons t rest =>
      rw [turns] at onward
      obtain ⟨last, turned', -⟩ := run_cons_eq_some.mp onward
      exact absurd (turned_of_turn turned').1 (ending_twoBytes turned)

theorem meets_twoBytes (packet : Nat → UInt8) (count : Nat) :
    Meets (turn saveBytes LLInfo) Roomy (start packet [97] [])
      (first (fun _ => twoBytes) count) := by
  cases count with
  | zero => trivial
  | succ count =>
    rw [first, List.range_succ_eq_map, List.map_cons]
    refine ⟨roomy_twoBytes packet, fun next turned => ?_⟩
    cases ((List.range count).map Nat.succ).map fun _ => twoBytes with
    | nil => trivial
    | cons t rest =>
      exact ⟨fun going => absurd going (ending_twoBytes turned),
        fun _ turned' => absurd (turned_of_turn turned').1 (ending_twoBytes turned)⟩

/-- The file is opened on path 3, read whole, and closed. -/
def wholeRead : List Request :=
  [.openRead 3 [97, 98] [97] [twoBytes], .read false 3 2, .close 3]

/-- The file is opened on path 3, and its bytes are asked for one at a time. -/
def byteReads : List Request :=
  [.openRead 3 [97, 98] [97] [twoBytes], .read false 3 1, .read false 3 1]

end Frobio.TftpPaths
