/-
This file shows when the replies to Reads and ReadLns cover a file: put together they are
its bytes, where only the terminator of a line is shown as a carriage return.

A ReadLn scans as many bytes as are asked for. The one terminator that it does not look at
is that in the last place: there a carriage return is right as it is, and a newline is not.
-/

import Frobio.LemMan.File

namespace Frobio.LemMan

open Coms SlashPath Disk Positional Transcript

/-! ### The law -/

def Terminator (byte : UInt8) : Prop := byte = 10 ∨ byte = 13

instance (byte : UInt8) : Decidable (Terminator byte) := inferInstanceAs (Decidable (_ ∨ _))

/-- A newline in the last place becomes a carriage return. -/
def returned (segment : Text) : Text :=
  if segment.getLast? = some 10 then segment.dropLast ++ [13] else segment

/-- What a reply shows of a segment of the file. A ReadLn has a terminator at its end only. -/
def Shows (linely : Bool) (segment payload : Text) : Prop :=
  if linely then payload = returned segment ∧ ∀ byte ∈ payload.dropLast, ¬Terminator byte
  else payload = segment

def isReadLn (request : Request) : Bool := (opOf request.input).toNat = 9

/-- A reply at an offset of the file covers a segment, or says that the end has been reached. -/
inductive Covers (content : Text) (offset : Nat) (request : Request) : Option Reply → Text → Prop
  | data (regs : LMRegs) {segment payload : Text} : segment <+: content.drop offset →
      payload.length ≤ (regsOf request.input).ry → Shows (isReadLn request) segment payload →
      Covers content offset request (some ⟨0, regs, payload⟩) segment
  | eof (regs : LMRegs) : content.length ≤ offset →
      Covers content offset request (some ⟨E_EOF, regs, []⟩) []

/-- Each reply covers what comes after the replies before it. -/
inductive CoversFrom (content : Text) :
    Nat → List Request → List (Option Reply) → List Text → Prop
  | nil (offset : Nat) : CoversFrom content offset [] [] []
  | cons {offset : Nat} {request : Request} {requests : List Request} {reply : Option Reply}
      {replies : List (Option Reply)} {segment : Text} {segments : List Text} :
      Covers content offset request reply segment →
      CoversFrom content (offset + segment.length) requests replies segments →
      CoversFrom content offset (request :: requests) (reply :: replies) (segment :: segments)

/-- The replies cover the file from an offset on, without a gap. -/
def CoversFile (content : Text) (offset : Nat) (requests : List Request)
    (replies : List (Option Reply)) : Prop :=
  ∃ segments, CoversFrom content offset requests replies segments ∧
    segments.flatten = readAt offset segments.flatten.length content

/-- The waiter, asked about one path, with its reply. -/
def consult (host : Host) (pd : Nat) (g : Globals) (request : Request) : Globals × Option Reply :=
  let outcome := doLemMan host g request pd
  (outcome.globals, outcome.reply)

/-! ### The condition -/

/-- The only terminator is a newline in the last place. -/
def NewlineLast (scanned : Text) : Prop :=
  scanned.getLast? = some 10 ∧ ∀ byte ∈ scanned.dropLast, ¬Terminator byte

instance (scanned : Text) : Decidable (NewlineLast scanned) := inferInstanceAs (Decidable (_ ∧ _))

/-- A ReadLn does not scan just up to a newline. -/
def ScansBeyond (content : Text) (pd : Nat) (g : Globals) (request : Request) : Prop :=
  ∀ p ∈ g.lmPaths pd, isReadLn request = true →
    ¬NewlineLast (readAt p.offset (regsOf request.input).ry content)

instance (content : Text) (pd : Nat) (g : Globals) (request : Request) :
    Decidable (ScansBeyond content pd g request) :=
  inferInstanceAs (Decidable (∀ p ∈ g.lmPaths pd, _ → _))

/-! ### Lines -/

theorem length_returned (segment : Text) : (returned segment).length = segment.length := by
  rw [returned]
  split
  · rename_i last
    have nonempty : segment ≠ [] := by
      rintro rfl
      cases last
    have positive := List.length_pos_of_ne_nil nonempty
    rw [List.length_append, List.length_dropLast, List.length_singleton]
    omega
  · rfl

theorem getLast_returned (segment : Text) : (returned segment).getLast? ≠ some 10 := by
  rw [returned]
  split
  · rw [List.getLast?_concat]
    decide
  · assumption

theorem Shows.length {linely : Bool} {segment payload : Text} (shown : Shows linely segment payload) :
    payload.length = segment.length := by
  cases linely with
  | false => exact congrArg List.length shown
  | true => rw [shown.1, length_returned]

/-- What is scanned, by its first terminator. -/
theorem scan_cases (scanned : Text) :
    (∀ byte ∈ scanned, ¬Terminator byte) ∧ chopLine scanned = scanned ∨
      ∃ front byte rest, scanned = front ++ byte :: rest ∧ (∀ byte ∈ front, ¬Terminator byte) ∧
        Terminator byte ∧ chopLine scanned = front ++ [if rest = [] then byte else 13] := by
  let i := scanned.findIdx fun e => e = 10 ∨ e = 13
  have chopped : chopLine scanned =
      if i + 1 < scanned.length then scanned.take i ++ [13] else scanned := rfl
  have before : ∀ byte ∈ scanned.take i, ¬Terminator byte := by
    intro byte member
    obtain ⟨nth, inside, rfl⟩ := List.getElem_of_mem member
    have early : nth < i := Nat.lt_of_lt_of_le inside (List.length_take_le _ _)
    rw [List.getElem_take]
    exact of_decide_eq_false (List.not_of_lt_findIdx early)
  by_cases found : i < scanned.length
  · right
    have terminator : Terminator scanned[i] :=
      of_decide_eq_true (List.findIdx_getElem (w := found))
    have whole : scanned = scanned.take i ++ scanned[i] :: scanned.drop (i + 1) := by
      rw [List.getElem_cons_drop, List.take_append_drop]
    refine ⟨scanned.take i, scanned[i], scanned.drop (i + 1), whole, before, terminator, ?_⟩
    rw [chopped]
    by_cases more : i + 1 < scanned.length
    · rw [if_pos more, if_neg]
      intro none
      have length := congrArg List.length none
      rw [List.length_drop, List.length_nil] at length
      omega
    · have none : scanned.drop (i + 1) = [] := List.drop_eq_nil_of_le (Nat.le_of_not_lt more)
      rw [if_neg more, if_pos none]
      rw [none] at whole
      exact whole
  · left
    have all : scanned.take i = scanned := List.take_of_length_le (Nat.le_of_not_lt found)
    rw [all] at before
    exact ⟨before, by rw [chopped, if_neg (by omega)]⟩

/-- A line is shown right just when the scan goes beyond its newline. -/
theorem shows_chopLine_iff (scanned : Text) :
    (∃ segment, segment <+: scanned ∧ Shows true segment (chopLine scanned)) ↔
      ¬NewlineLast scanned := by
  rcases scan_cases scanned with ⟨free, same⟩ | ⟨front, byte, rest, rfl, free, terminator, chopped⟩
  · refine iff_of_true ⟨scanned, List.prefix_rfl, ?_⟩ fun last => ?_
    · rw [same]
      refine ⟨?_, fun byte member => free byte (List.mem_of_mem_dropLast member)⟩
      rw [returned, if_neg]
      intro last
      exact free 10 (List.mem_of_getLast? last) (.inl rfl)
    · exact free 10 (List.mem_of_getLast? last.1) (.inl rfl)
  · rw [chopped]
    have alone (other : UInt8) : ∀ byte ∈ (front ++ [other]).dropLast, ¬Terminator byte := by
      rw [List.dropLast_concat]
      exact free
    by_cases last : rest = []
    · subst last
      rw [if_pos rfl]
      by_cases newline : byte = 10
      · subst newline
        refine iff_of_false ?_ (not_not_intro ⟨List.getLast?_concat, alone 10⟩)
        rintro ⟨segment, -, shown, -⟩
        refine getLast_returned segment ?_
        rw [← shown]
        exact List.getLast?_concat
      · refine iff_of_true ⟨front ++ [byte], List.prefix_rfl, ?_, alone byte⟩ fun other => ?_
        · rw [returned, List.getLast?_concat, if_neg fun same => newline (Option.some.inj same)]
        · have same := other.1
          rw [List.getLast?_concat] at same
          exact newline (Option.some.inj same)
    · rw [if_neg last]
      refine iff_of_true ⟨front ++ [byte], ?_, ?_, alone 13⟩ fun other => ?_
      · exact ⟨rest, by rw [List.append_assoc]; rfl⟩
      · rw [returned, List.getLast?_concat, List.dropLast_concat]
        rcases terminator with rfl | rfl
        · rw [if_pos rfl]
        · rw [if_neg (by decide)]
      · refine other.2 byte ?_ terminator
        rw [List.dropLast_append_of_ne_nil (List.cons_ne_nil _ _), List.dropLast_cons_of_ne_nil last]
        exact List.mem_append_right _ List.mem_cons_self

theorem length_chopLine_le (scanned : Text) : (chopLine scanned).length ≤ scanned.length := by
  rcases scan_cases scanned with ⟨-, same⟩ | ⟨front, byte, rest, rfl, -, -, chopped⟩
  · rw [same]
  · rw [chopped, List.length_append, List.length_append, List.length_singleton, List.length_cons]
    omega

/-! ### One read -/

/-- A path that is open on these bytes: on a file of this size, or on a directory. -/
structure Ready (pd : Nat) (content : Text) (g : Globals) (p : LMPath) : Prop where
  found : g.lmPaths pd = some p
  size : p.size = content.length
  source : if p.isDir then p.dirData = content
    else ∃ handle, p.osFile = some handle ∧ g.disk.content handle.1 = content

variable {host : Host} {pd : Nat} {content : Text} {g : Globals} {p : LMPath} {request : Request}

theorem Ready.readPath (ready : Ready pd content g p) {n : Nat} (inside : n ≤ p.size - p.offset) :
    readPath g p n = some (readAt p.offset n content) := by
  have source := ready.source
  have size := ready.size
  rw [LemMan.readPath]
  cases isDir : p.isDir with
  | true =>
    rw [isDir, if_pos rfl] at source
    rw [if_pos rfl, source]
  | false =>
    rw [isDir] at source
    obtain ⟨⟨file, writable⟩, handle, held⟩ := source
    have held : g.disk.content file = content := held
    rw [if_neg Bool.false_ne_true, handle]
    dsimp only
    rw [held, if_pos]
    rw [length_readAt]
    omega

/-- What the waiter does for a Read or a ReadLn at a path that is open. -/
theorem Ready.lmRead (ready : Ready pd content g p) (regs : LMRegs) (linely : Bool) :
    lmRead g pd regs linely =
      if content.length ≤ p.offset then answer g E_EOF regs [] []
      else
        let scanned := readAt p.offset regs.ry content
        let buf := if linely then chopLine scanned else scanned
        answer (g.setPath pd (some { p with offset := p.offset + buf.length })) 0 regs buf [] := by
  have size := ready.size
  have scanned : readAt p.offset (min regs.ry (p.size - p.offset)) content =
      readAt p.offset regs.ry content := by
    rw [readAt, readAt, ← List.take_take, List.take_of_length_le
      (by rw [List.length_drop]; omega : (content.drop p.offset).length ≤ p.size - p.offset)]
  rw [LemMan.lmRead, ready.found]
  dsimp only
  rw [size] at scanned ⊢
  by_cases ended : content.length ≤ p.offset
  · rw [if_pos ended, if_pos ended]
  · rw [if_neg ended, if_neg ended, ready.readPath (by rw [size]; exact Nat.min_le_right _ _),
      scanned]

/-- A Read or a ReadLn as it comes out of a message. -/
structure ReadRequest (request : Request) : Prop where
  header : headerLen ≤ request.input.length
  op : (opOf request.input).toNat ∈ [7, 9]

theorem doLemMan_reads (reads : ReadRequest request) :
    doLemMan host g request pd = lmRead g pd (regsOf request.input) (isReadLn request) := by
  have op := reads.op
  simp only [List.mem_cons, List.not_mem_nil, or_false] at op
  unfold doLemMan isReadLn
  rcases op with read | readLn
  · rw [if_neg (Nat.not_lt.mpr reads.header), read]
    rfl
  · rw [if_neg (Nat.not_lt.mpr reads.header), readLn]
    rfl

theorem Ready.moved (ready : Ready pd content g p) (offset : Nat) :
    Ready pd content (g.setPath pd (some { p with offset := offset })) { p with offset := offset } :=
  ⟨setPath_self .., ready.size, ready.source⟩

/-- A reply covers something just when no newline is in the last place of the scan, and then the
path is open where that ends. -/
theorem Ready.step (ready : Ready pd content g p) (reads : ReadRequest request) :
    ((∃ segment, Covers content p.offset request (consult host pd g request).2 segment) ↔
      ScansBeyond content pd g request) ∧
    ∃ p', Ready pd content (consult host pd g request).1 p' ∧
      ∀ segment, Covers content p.offset request (consult host pd g request).2 segment →
        p'.offset = p.offset + segment.length := by
  have beyond : ScansBeyond content pd g request ↔ (isReadLn request = true →
      ¬NewlineLast (readAt p.offset (regsOf request.input).ry content)) := by
    constructor
    · exact fun each => each p ready.found
    · intro holds p' found
      cases ready.found.symm.trans found
      exact holds
  rw [beyond, consult, doLemMan_reads reads, ready.lmRead]
  by_cases ended : content.length ≤ p.offset
  · rw [if_pos ended]
    refine ⟨iff_of_true ⟨[], .eof _ ended⟩ fun _ last => ?_, p, ready, ?_⟩
    · have none : readAt p.offset (regsOf request.input).ry content = [] := by
        rw [readAt, List.drop_eq_nil_of_le ended, List.take_nil]
      rw [none] at last
      cases last.1
    · rintro segment covers
      cases covers
      rfl
  · rw [if_neg ended]
    dsimp only
    refine ⟨?_, _, ready.moved _, ?_⟩
    · have short : (readAt p.offset (regsOf request.input).ry content).length ≤
          (regsOf request.input).ry := by
        rw [length_readAt]
        exact Nat.min_le_left _ _
      have inside : readAt p.offset (regsOf request.input).ry content <+: content.drop p.offset :=
        List.take_prefix _ _
      cases linely : isReadLn request with
      | false =>
        refine iff_of_true ⟨_, .data _ inside short ?_⟩ (by simp)
        rw [linely]
        rfl
      | true =>
        have line := shows_chopLine_iff (readAt p.offset (regsOf request.input).ry content)
        have chopped := length_chopLine_le (readAt p.offset (regsOf request.input).ry content)
        rw [forall_prop_of_true rfl, ← line]
        constructor
        · rintro ⟨segment, covers⟩
          cases covers with
          | data _ within _ shown =>
            rw [linely] at shown
            refine ⟨segment, ?_, shown⟩
            refine List.prefix_of_prefix_length_le within inside ?_
            rw [← shown.length]
            exact chopped
        · rintro ⟨segment, within, shown⟩
          refine ⟨segment, .data _ (within.trans inside) (chopped.trans short) ?_⟩
          rw [linely]
          exact shown
    · rintro segment covers
      cases covers with
      | data _ _ _ shown => exact congrArg (p.offset + ·) shown.length

/-! ### Every sequence of reads -/

/-- Segments that follow each other are the file's bytes. -/
theorem CoversFrom.flatten {offset : Nat} {requests : List Request} {replies : List (Option Reply)}
    {segments : List Text} (covers : CoversFrom content offset requests replies segments) :
    segments.flatten <+: content.drop offset := by
  induction covers with
  | nil => exact List.nil_prefix
  | @cons offset _ _ _ _ segment segments first _ inductionHypothesis =>
    have inside : segment <+: content.drop offset := by
      cases first with
      | data _ inside => exact inside
      | eof => exact List.nil_prefix
    obtain ⟨rest, split⟩ := inside
    rw [List.flatten_cons, ← split]
    refine (List.prefix_append_right_inj segment).mpr ?_
    have later : content.drop (offset + segment.length) = rest := by
      rw [← List.drop_drop, ← split, List.drop_left]
    rw [← later]
    exact inductionHypothesis

theorem CoversFrom.coversFile {offset : Nat} {requests : List Request}
    {replies : List (Option Reply)} {segments : List Text}
    (covers : CoversFrom content offset requests replies segments) :
    CoversFile content offset requests replies :=
  ⟨segments, covers, List.prefix_iff_eq_take.mp covers.flatten⟩

/-- The replies to Reads and ReadLns cover a file from the offset of its path on just when none
of the ReadLns scans up to a newline and no further. -/
theorem coversFile_iff (host : Host) (ready : Ready pd content g p) {requests : List Request}
    (each : ∀ request ∈ requests, ReadRequest request) :
    CoversFile content p.offset requests (outputs (consult host pd) g requests) ↔
      Always (consult host pd) (ScansBeyond content pd) g requests := by
  have run : (∃ segments,
      CoversFrom content p.offset requests (outputs (consult host pd) g requests) segments) ↔
        Always (consult host pd) (ScansBeyond content pd) g requests := by
    induction requests generalizing g p with
    | nil => exact iff_of_true ⟨[], .nil _⟩ trivial
    | cons request requests inductionHypothesis =>
      have later : ∀ request ∈ requests, ReadRequest request :=
        fun other member => each other (List.mem_cons_of_mem _ member)
      obtain ⟨first, p', ready', moved⟩ :=
        @Ready.step host _ _ _ _ _ ready (each request List.mem_cons_self)
      rw [outputs, Always, ← first, ← inductionHypothesis ready' later]
      constructor
      · rintro ⟨_, covers⟩
        cases covers with
        | cons here rest => exact ⟨⟨_, here⟩, _, moved _ here ▸ rest⟩
      · rintro ⟨⟨segment, here⟩, segments, rest⟩
        exact ⟨segment :: segments, .cons here (moved _ here ▸ rest)⟩
  rw [← run]
  constructor
  · rintro ⟨segments, covers, -⟩
    exact ⟨segments, covers⟩
  · rintro ⟨segments, covers⟩
    exact covers.coversFile

/-! ### A path from its Create or Open on -/

/-- A Create or an Open that succeeds gives a path that is open at the start of its bytes. -/
theorem ready_of_lmOpen {regs : LMRegs} {mode : UInt8} {name : Text} {create : Bool} {reply : Reply}
    (numbered : Numbered g.prevLemmaError)
    (replied : (lmOpen host g pd regs mode name create).reply = some reply)
    (okay : reply.status = 0)
    (found : (lmOpen host g pd regs mode name create).globals.lmPaths pd = some p) :
    ∃ content, Ready pd content (lmOpen host g pd regs mode name create).globals p ∧
      p.offset = 0 := by
  have refused : ∀ {effects}, (refuse g regs effects).reply = some reply → False :=
    fun replied => status_of_refuse numbered replied okay
  unfold lmOpen at replied found ⊢
  split at replied
  · exact (refused replied).elim
  rename_i path joined
  rw [joined] at found
  cases create with
  | true =>
    simp only [if_true, createPath] at replied found ⊢
    split at replied
    · exact (refused replied).elim
    rename_i two
    rw [if_neg two] at found ⊢
    split at replied
    · exact (refused replied).elim
    rename_i file disk made
    obtain ⟨place, -, created⟩ := Option.bind_eq_some_iff.mp made
    rw [made] at found
    obtain rfl := Option.some_inj.mp ((setPath_self ..).symm.trans found)
    exact ⟨[], ⟨setPath_self .., rfl, (file, true), rfl, content_of_create created⟩, rfl⟩
  | false =>
    simp only [Bool.false_eq_true, if_false, openPath] at replied found ⊢
    split at replied
    · exact (refused replied).elim
    rename_i place here
    rw [here] at found
    dsimp only at found
    split at replied
    · exact (refused replied).elim
    · rename_i node
      rw [node] at found
      dsimp only at found
      split at replied
      · exact (refused replied).elim
      · rename_i entries read
        rw [read] at found
        obtain rfl := Option.some_inj.mp ((setPath_self ..).symm.trans found)
        exact ⟨_, ⟨setPath_self .., rfl, rfl⟩, rfl⟩
    · rename_i node
      rw [node] at found
      dsimp only at found
      split at replied
      · exact (refused replied).elim
      · rename_i file isOpen
        rw [isOpen] at found
        obtain rfl := Option.some_inj.mp ((setPath_self ..).symm.trans found)
        exact ⟨g.disk.content file, ⟨setPath_self .., rfl, (file, false), rfl, rfl⟩, rfl⟩

/-- A Seek leaves the path open on its bytes, at any offset. -/
theorem Ready.seek (ready : Ready pd content g p) (regs : LMRegs) :
    Ready pd content (lmSeek g pd regs).globals { p with offset := regs.rx * 2 ^ 16 + regs.ru } := by
  have moved := ready.moved (regs.rx * 2 ^ 16 + regs.ru)
  rw [lmSeek, ready.found]
  exact moved

/-! ### Two lines -/

def twoLines : Text := [104, 105, 10, 104, 111, 10]

/-- ReadLns of nine bytes, and a Read at the end. -/
def readLines : List Request :=
  [requestOf 9 0 0 9 0 [], requestOf 9 0 0 9 0 [], requestOf 7 0 0 9 0 []]

/-- The globals after `a` was opened. -/
def withOpenA (bytes : Text) : Globals :=
  (doLemMan smallHost (served smallHost (smallDisk bytes) []) openA 7).globals

theorem ready_withOpenA :
    ∃ p, Ready 7 twoLines (withOpenA twoLines) p ∧ p.offset = 0 := by
  obtain ⟨p, found, facts⟩ : ∃ p, (withOpenA twoLines).lmPaths 7 = some p ∧
      (p.isDir, p.size, p.offset, p.osFile.isSome) = (false, 6, 0, true) :=
    Option.map_eq_some_iff.mp (by decide +kernel)
  obtain ⟨regular, size, offset, isOpen⟩ :
      p.isDir = false ∧ p.size = 6 ∧ p.offset = 0 ∧ p.osFile.isSome = true := by
    simpa only [Prod.mk.injEq] using facts
  obtain ⟨handle, handled⟩ := Option.isSome_iff_exists.mp isOpen
  refine ⟨p, ⟨found, size, ?_⟩, offset⟩
  rw [regular]
  exact ⟨handle, handled, rfl⟩

/-- A ReadLn of one byte, one of the rest of the line, Reads of the second line in two parts, and a
ReadLn at the end. -/
def mixedReads : List Request :=
  [requestOf 9 0 0 1 0 [], requestOf 9 0 0 9 0 [], requestOf 7 0 0 2 0 [], requestOf 7 0 0 9 0 [],
    requestOf 9 0 0 9 0 []]

/-- The end of the first line appears as a carriage return, and that of the second one, which is
read with the rest of the file, as it is. -/
theorem coversFile_readLines :
    CoversFile twoLines 0 mixedReads
      (outputs (consult smallHost 7) (withOpenA twoLines) mixedReads) := by
  obtain ⟨p, ready, start⟩ := ready_withOpenA
  have readRequests : ∀ request ∈ mixedReads, ReadRequest request := by
    intro request member
    simp only [mixedReads, List.mem_cons, List.not_mem_nil, or_false] at member
    rcases member with rfl | rfl | rfl | rfl | rfl <;> exact ⟨by decide, by decide⟩
  have covers := coversFile_iff smallHost ready readRequests
  rw [start] at covers
  exact covers.mpr (by decide +kernel)

/-- The end of the second line is returned as a newline. -/
theorem not_coversFile_readLines :
    ¬CoversFile twoLines 0 readLines
      (outputs (consult smallHost 7) (withOpenA twoLines) readLines) := by
  rintro ⟨segments, covers, -⟩
  obtain ⟨reply, replied, facts⟩ : ∃ reply,
      (outputs (consult smallHost 7) (withOpenA twoLines) readLines)[1]?.join = some reply ∧
        (reply.status, reply.payload) = (0, [104, 111, 10]) :=
    Option.map_eq_some_iff.mp (by decide +kernel)
  cases covers with
  | cons _ rest =>
    cases rest with
    | cons second _ =>
      have same := second
      rw [show (outputs (consult smallHost 7) (withOpenA twoLines) readLines)[1]?.join =
        (consult smallHost 7 (consult smallHost 7 (withOpenA twoLines)
          (requestOf 9 0 0 9 0 [])).1 (requestOf 9 0 0 9 0 [])).2 from rfl] at replied
      rw [replied] at same
      cases same with
      | data _ _ _ shown =>
        have payload := congrArg Prod.snd facts
        exact getLast_returned _ (congrArg List.getLast? (shown.1.symm.trans payload))
      | eof =>
        have okay : E_EOF = 0 := congrArg Prod.fst facts
        exact absurd okay (by decide)

end Frobio.LemMan
