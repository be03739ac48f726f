/-
This file says which requests the waiter answers at all, and which make `DoLemMan`
panic.

A request is answered unless its operation is past the end of the log's table of
names, its name does not end or has a byte `ExtractName` asserts it has not, or it
asks for the file descriptor of an inode that is unknown, gone, or does not fit the
buffer it brings. `doLemMan_answers_iff` is exact.
-/

import Frobio.LemMan.File

namespace Frobio.LemMan

open Coms SlashPath Disk

/-! ### Names -/

/-- A byte of a name, but for the last one. -/
def NameByte (b : UInt8) : Prop := 45 ≤ b ∧ b ≤ 122

/-- The byte after a name, or its last byte, which has the high bit. -/
def EndsName (b : UInt8) : Prop :=
  b &&& 127 = 0 ∨ b &&& 127 = 10 ∨ b &&& 127 = 13 ∨ b &&& 127 = 32 ∨
    (128 ≤ b ∧ NameByte (b &&& 127))

instance (b : UInt8) : Decidable (NameByte b) := inferInstanceAs (Decidable (_ ∧ _))

instance (b : UInt8) : Decidable (EndsName b) := inferInstanceAs (Decidable (_ ∨ _))

/-- The bytes begin with the bytes of a name and one that ends it. -/
def HasName (bytes : Text) : Prop :=
  ∃ name last rest, bytes = name ++ last :: rest ∧ (∀ b ∈ name, NameByte b) ∧ EndsName last

/-- A byte that is not blank ends a name if it has the high bit, and only then its low bits are not
all of it. -/
theorem endsName_iff (b : UInt8) (notNull : b &&& 127 ≠ 0) (notLf : b &&& 127 ≠ 10)
    (notCr : b &&& 127 ≠ 13) (notSpace : b &&& 127 ≠ 32) :
    (EndsName b ↔ 128 ≤ b ∧ NameByte (b &&& 127)) ∧
      (¬128 ≤ b → (NameByte b ↔ NameByte (b &&& 127))) ∧ (128 ≤ b → ¬NameByte b) := by
  have low : ∀ n < 256, ¬128 ≤ UInt8.ofNat n → UInt8.ofNat n &&& 127 = UInt8.ofNat n := by
    decide +kernel
  refine ⟨by simp [EndsName, notNull, notLf, notCr, notSpace], fun unmarked => ?_, ?_⟩
  · have same := low b.toNat b.toNat_lt
    rw [UInt8.ofNat_toNat] at same
    rw [same unmarked]
  · rintro marked ⟨-, below⟩
    exact absurd (UInt8.le_trans marked below) (by decide)

/-- What `ExtractName` does with one byte. -/
theorem extractName_cons (b : UInt8) (rest : Text) :
    (EndsName b ∧ (extractName (b :: rest)).isSome = true) ∨
      (¬EndsName b ∧ NameByte b ∧ (extractName (b :: rest)).isSome = (extractName rest).isSome) ∨
      (¬EndsName b ∧ ¬NameByte b ∧ extractName (b :: rest) = none) := by
  rw [extractName]
  by_cases blank : b &&& 127 = 0 ∨ b &&& 127 = 10 ∨ b &&& 127 = 13 ∨ b &&& 127 = 32
  · rw [if_pos blank]
    refine .inl ⟨?_, rfl⟩
    rcases blank with h | h | h | h
    · exact .inl h
    · exact .inr (.inl h)
    · exact .inr (.inr (.inl h))
    · exact .inr (.inr (.inr (.inl h)))
  rw [if_neg blank]
  rw [not_or, not_or, not_or] at blank
  obtain ⟨ends, low, high⟩ := endsName_iff b blank.1 blank.2.1 blank.2.2.1 blank.2.2.2
  have inside : NameByte (b &&& 127) ↔ ¬(b &&& 127 < 45 ∨ 122 < b &&& 127) := by
    rw [NameByte, not_or, UInt8.not_lt, UInt8.not_lt]
  by_cases outside : b &&& 127 < 45 ∨ 122 < b &&& 127
  · rw [if_pos outside]
    refine .inr (.inr ⟨?_, ?_, rfl⟩)
    · rw [ends, inside]
      exact fun both => both.2 outside
    · by_cases marked : 128 ≤ b
      · exact high marked
      · rw [low marked, inside]
        exact fun not => not outside
  rw [if_neg outside]
  by_cases marked : 128 ≤ b
  · rw [if_pos marked]
    exact .inl ⟨ends.mpr ⟨marked, inside.mpr outside⟩, rfl⟩
  · rw [if_neg marked]
    refine .inr (.inl ⟨?_, (low marked).mpr (inside.mpr outside), by simp⟩)
    rw [ends]
    exact fun both => marked both.1

theorem hasName_cons (b : UInt8) (rest : Text) :
    HasName (b :: rest) ↔ EndsName b ∨ (NameByte b ∧ HasName rest) := by
  constructor
  · rintro ⟨name, last, more, same, names, ends⟩
    cases name with
    | nil =>
      rw [List.nil_append, List.cons_eq_cons] at same
      exact .inl (same.1 ▸ ends)
    | cons first name =>
      rw [List.cons_append, List.cons_eq_cons] at same
      obtain ⟨rfl, rfl⟩ := same
      exact .inr ⟨names b List.mem_cons_self, name, last, more, rfl,
        fun other member => names other (List.mem_cons_of_mem _ member), ends⟩
  · rintro (ends | ⟨nameByte, name, last, more, rfl, names, ends⟩)
    · exact ⟨[], b, rest, rfl, fun _ member => (List.not_mem_nil member).elim, ends⟩
    · refine ⟨b :: name, last, more, rfl, fun other member => ?_, ends⟩
      rcases List.mem_cons.mp member with rfl | later
      · exact nameByte
      · exact names other later

theorem extractName_isSome_iff (bytes : Text) :
    (extractName bytes).isSome = true ↔ HasName bytes := by
  induction bytes with
  | nil =>
    refine ⟨nofun, ?_⟩
    rintro ⟨name, last, rest, same, -⟩
    exact absurd same.symm (by simp)
  | cons b rest inductionHypothesis =>
    rw [hasName_cons]
    rcases extractName_cons b rest with ⟨ends, some⟩ | ⟨ends, byte, same⟩ | ⟨ends, byte, none⟩
    · exact ⟨fun _ => .inl ends, fun _ => some⟩
    · rw [same, inductionHypothesis]
      refine ⟨fun has => .inr ⟨byte, has⟩, ?_⟩
      rintro (ends' | both)
      · exact absurd ends' ends
      · exact both.2
    · rw [none]
      refine ⟨nofun, ?_⟩
      rintro (ends' | both)
      · exact absurd ends' ends
      · exact absurd both.1 byte

/-! ### Open paths -/

/-- A path that is no directory's has an open file. -/
def Handled (g : Globals) : Prop :=
  ∀ pd p, g.lmPaths pd = some p → p.isDir = true ∨ p.osFile ≠ none

theorem Handled.setPath {g : Globals} (handled : Handled g) (pd : Nat) {p : Option LMPath}
    (path : ∀ p' ∈ p, p'.isDir = true ∨ p'.osFile ≠ none) : Handled (g.setPath pd p) := by
  intro other p' found
  by_cases here : other = pd
  · rw [here, setPath_self] at found
    exact path p' found
  · rw [setPath_of_ne here] at found
    exact handled other p' found

theorem Change.handled {host : Host} {g next : Globals} {request : Request} {pd : Nat}
    {effects : List Effect} (change : Change host g request pd next effects)
    (before : Handled g) : Handled next := by
  have one : ∀ {p p' : LMPath}, p' ∈ some p → p = p' := fun same => Option.some_inj.mp same
  cases change with
  | same | refused | removed => exact before
  | moved p offset about found =>
    exact before.setPath pd fun p' same => by rw [← one same]; exact before pd p found
  | wrote p file data offset about found handle =>
    exact Handled.setPath (g := { g with disk := _ }) before pd fun p' same => by
      rw [← one same]
      exact before pd p found
  | closed => exact before.setPath pd nofun
  | created name path place file disk p joined found created handle =>
    exact Handled.setPath (g := { g with disk }) before pd fun p' same => .inr (by
      rw [← one same, handle]
      exact Option.some_ne_none _)
  | listed name path place entries p joined found read dir handle =>
    exact Handled.setPath (g := { g with inodes := _, nextInodeVar := _ }) before pd fun p' same =>
      .inl (by rw [← one same, dir])
  | opened name path place file p joined found opened handle =>
    exact before.setPath pd fun p' same => .inr (by
      rw [← one same, handle]
      exact Option.some_ne_none _)

theorem handled_served (host : Host) (disk : Disk) (history : List (Request × Nat)) :
    Handled (served host disk history) :=
  invariant_served host disk Handled (fun _ _ found => by cases found)
    (fun g request pd before => (change_doLemMan host g request pd).handled before) history

/-! ### What is answered -/

/-- The inode a request for a file descriptor names is one in the table, of a file that is still
there, and the buffer takes the thirteen bytes that are always written. -/
def DescriptorFits (host : Host) (g : Globals) (regs : LMRegs) : Prop :=
  ∃ pathName place node,
    (1024 ≤ (regs.ry / 256 * 256) * 256 + regs.ru ∧
      (regs.ry / 256 * 256) * 256 + regs.ru < 2048) ∧
    g.inodes ((regs.ry / 256 * 256) * 256 + regs.ru - 1024) = some pathName ∧
    g.disk.find host.current (join [host.lemmanFs, pathName]) = some place ∧
    g.disk.nodeAt place = some node ∧ 13 ≤ regs.ry % 256

/-- The request is one that is answered. -/
def Answerable (host : Host) (g : Globals) (request : Request) (pd : Nat) : Prop :=
  (opOf request.input).toNat < 14 ∧
    (1 ≤ (opOf request.input).toNat ∧ (opOf request.input).toNat ≤ 5 →
      HasName ((request.input.drop headerLen).take (paylen request.input))) ∧
    ((opOf request.input).toNat = 11 → g.lmPaths pd ≠ none →
      (regsOf request.input).rb = 0x20 → DescriptorFits host g (regsOf request.input))

theorem fdInf_answers_iff (host : Host) (g : Globals) (info : FileInfo) (regs : LMRegs) :
    (fdInf host g info regs).reply.isSome = true ↔ DescriptorFits host g regs := by
  rw [fdInf, DescriptorFits]
  by_cases range : 1024 ≤ (regs.ry / 256 * 256) * 256 + regs.ru ∧
      (regs.ry / 256 * 256) * 256 + regs.ru < 2048
  · cases listed : g.inodes ((regs.ry / 256 * 256) * 256 + regs.ru - 1024) with
    | none => simp [range, listed, panicked]
    | some pathName =>
      cases found : g.disk.find host.current (join [host.lemmanFs, pathName]) with
      | none => simp [range, listed, found, panicked]
      | some place =>
        cases there : g.disk.nodeAt place with
        | none => simp [range, listed, found, there, panicked]
        | some node =>
          by_cases short : regs.ry % 256 < 13
          · simp [range, listed, found, there, short, panicked]
          · simp [range, listed, found, there, short, answer, Nat.not_lt.mp short]
  · simp [range, panicked]

theorem refuse_answers (g : Globals) (regs : LMRegs) (effects : List Effect) :
    (refuse g regs effects).reply.isSome = true := rfl

theorem answer_answers (g : Globals) (status : UInt8) (regs : LMRegs) (payload : Text)
    (effects : List Effect) : (answer g status regs payload effects).reply.isSome = true := rfl

theorem lmGetStt_answers_iff (host : Host) (g : Globals) (pd : Nat) (info : FileInfo)
    (regs : LMRegs) :
    (lmGetStt host g pd info regs).reply.isSome = true ↔
      (g.lmPaths pd ≠ none → regs.rb = 0x20 → DescriptorFits host g regs) := by
  rw [lmGetStt]
  cases path : g.lmPaths pd with
  | none => simp [answer_answers]
  | some p =>
    by_cases asked : regs.rb = 0x20
    · simp [asked, fdInf_answers_iff]
    · simp [asked, answer_answers]

theorem lmDelete_answers (host : Host) (g : Globals) (regs : LMRegs) (name : Text) :
    (lmDelete host g regs name).reply.isSome = true := by
  rw [lmDelete]
  split
  · rfl
  · rfl

theorem lmSeek_answers (g : Globals) (pd : Nat) (regs : LMRegs) :
    (lmSeek g pd regs).reply.isSome = true := by
  rw [lmSeek]
  split
  · rfl
  · rfl

theorem lmClose_answers (g : Globals) (pd : Nat) (regs : LMRegs) :
    (lmClose g pd regs).reply.isSome = true := by
  rw [lmClose]
  split
  · rfl
  · rfl

theorem lmRead_answers (g : Globals) (pd : Nat) (regs : LMRegs) (linely : Bool) :
    (lmRead g pd regs linely).reply.isSome = true := by
  rw [lmRead]
  split
  · rfl
  · split
    · rfl
    · split
      · rfl
      · rfl

/-- Only a path that is not a directory's and has no open file makes a write panic. -/
theorem Handled.lmWrite_answers {g : Globals} (handled : Handled g) (pd : Nat) (regs : LMRegs)
    (payIn : Text) : (lmWrite g pd regs payIn).reply.isSome = true := by
  rw [lmWrite]
  cases path : g.lmPaths pd with
  | none => rfl
  | some p =>
    rcases handled pd p path with dir | file
    · simp only [dir, if_true]
      split
      · rfl
      · split
        · rfl
        · rfl
    · obtain ⟨⟨file, writable⟩, handle⟩ := Option.ne_none_iff_exists'.mp file
      simp only [handle]
      split
      · rfl
      · split
        · rfl
        · split
          · rfl
          · cases writable with
            | false => rfl
            | true => rfl

theorem createPath_answers (host : Host) (g : Globals) (pd : Nat) (regs : LMRegs) (mode : UInt8)
    (name jname : Text) : (createPath host g pd regs mode name jname).reply.isSome = true := by
  rw [createPath]
  split
  · rfl
  · split
    · rfl
    · rfl

theorem openPath_answers (host : Host) (g : Globals) (pd : Nat) (regs : LMRegs) (mode : UInt8)
    (name jname : Text) : (openPath host g pd regs mode name jname).reply.isSome = true := by
  rw [openPath]
  split
  · rfl
  · split
    · rfl
    · split
      · rfl
      · rfl
    · split
      · rfl
      · rfl

theorem lmOpen_answers (host : Host) (g : Globals) (pd : Nat) (regs : LMRegs) (mode : UInt8)
    (name : Text) (create : Bool) :
    (lmOpen host g pd regs mode name create).reply.isSome = true := by
  rw [lmOpen]
  split
  · rfl
  · split
    · exact createPath_answers ..
    · exact openPath_answers ..

/-- A request with a name is answered if the name is one and what is done with it answers. -/
theorem withName_answers_iff (g : Globals) {input : Text} (handle : Text → Outcome)
    (fits : headerLen + paylen input ≤ input.length)
    (answers : ∀ name, (handle name).reply.isSome = true) :
    (withName g input handle).reply.isSome = true ↔
      HasName ((input.drop headerLen).take (paylen input)) := by
  rw [withName, nameOf, if_pos fits, ← extractName_isSome_iff]
  cases extractName ((input.drop headerLen).take (paylen input)) with
  | none => exact Iff.rfl
  | some name => exact ⟨fun _ => rfl, fun _ => answers name⟩

/-- In a state where every path but a directory's has an open file, the requests that are answered
are the answerable ones. -/
theorem Handled.answers_iff {g : Globals} (handled : Handled g) (host : Host) (request : Request)
    (pd : Nat) (header : headerLen ≤ request.input.length)
    (fits : headerLen + paylen request.input ≤ request.input.length) :
    (doLemMan host g request pd).reply.isSome = true ↔ Answerable host g request pd := by
  rw [doLemMan, if_neg (Nat.not_lt.mpr header), Answerable]
  generalize opOf request.input = op
  generalize op.toNat = operation
  split
  · simp [withName_answers_iff _ _ fits fun _ => lmOpen_answers ..]
  · simp [withName_answers_iff _ _ fits fun _ => lmOpen_answers ..]
  · simp [withName_answers_iff _ _ fits fun _ => refuse_answers ..]
  · simp [withName_answers_iff _ _ fits fun _ => answer_answers ..]
  · simp [withName_answers_iff _ _ fits fun _ => lmDelete_answers ..]
  · simp [lmSeek_answers]
  · simp [lmRead_answers]
  · simp [handled.lmWrite_answers]
  · simp [lmRead_answers]
  · simp [handled.lmWrite_answers]
  · simp [lmGetStt_answers_iff]
  · simp [lmClose_answers]
  · by_cases past : 14 ≤ operation
    · simp [past, panicked, Nat.not_lt.mpr past]
    · rw [if_neg past]
      refine ⟨fun _ => ⟨Nat.not_le.mp past, fun between => ?_, fun _ => ?_⟩, fun _ => rfl⟩
      · have named : operation = 1 ∨ operation = 2 ∨ operation = 3 ∨ operation = 4 ∨
            operation = 5 := by
          omega
        rcases named with h | h | h | h | h <;> contradiction
      · contradiction

/-- After any history of requests, a request of at least fifteen bytes whose payload fits is
answered if and only if it is answerable. -/
theorem doLemMan_answers_iff (host : Host) (disk : Disk) (history : List (Request × Nat))
    (request : Request) (pd : Nat) (header : headerLen ≤ request.input.length)
    (fits : headerLen + paylen request.input ≤ request.input.length) :
    (doLemMan host (served host disk history) request pd).reply.isSome = true ↔
      Answerable host (served host disk history) request pd :=
  (handled_served host disk history).answers_iff host request pd header fits

/-- List the root of the served directory, and ask for the file descriptor of its first entry. -/
def listRoot : Request := requestOf 2 1 0 0 0 [47, 13]

def askDescriptor : Request :=
  ⟨[11, 0, 0, 0x20, 0, 0, 0, 0, 16, 4, 1, 0, 0, 0, 0], noInfo⟩

theorem answers_askDescriptor :
    (doLemMan smallHost (served smallHost (smallDisk hello) [(listRoot, 7)])
        askDescriptor 7).reply.isSome = true ↔
      Answerable smallHost (served smallHost (smallDisk hello) [(listRoot, 7)]) askDescriptor 7 :=
  doLemMan_answers_iff smallHost (smallDisk hello) [(listRoot, 7)] askDescriptor 7 (by decide)
    (by decide)

/-- An operation past the end of the log's table of names. -/
def unknownOp : Request := requestOf 14 0 0 0 0 []

theorem not_answers_unknownOp :
    ¬∀ (host : Host) (disk : Disk) (history : List (Request × Nat)) (request : Request) (pd : Nat),
      headerLen ≤ request.input.length →
      headerLen + paylen request.input ≤ request.input.length →
      (doLemMan host (served host disk history) request pd).reply.isSome = true := by
  intro answers
  have replied := answers smallHost (smallDisk hello) [] unknownOp 7 (by decide) (by decide)
  have panics :
      (doLemMan smallHost (served smallHost (smallDisk hello) []) unknownOp 7).reply.isSome =
        false := by
    decide +kernel
  rw [panics] at replied
  exact absurd replied (by decide)

end Frobio.LemMan
