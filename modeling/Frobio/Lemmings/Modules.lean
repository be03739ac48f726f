/-
This file models `parseModule`, `splitModules` and `splitBootTrackAroundBootModule` of
`lemmings/modules.go`, and shows which boot tracks they get through without reading behind the
end, and what they make of them.

All three follow the fields of a header before they look how long the track is. A Go slice
knows its end, so an index or a bound behind it is a panic; that is the fault `outOfRange`
here, and not to find the module named boot, which the program reports on its own, is another.
-/

import Mathlib.Data.List.Basic
import Mathlib.Data.List.Nodup
import Mathlib.Logic.Function.Basic
import Mathlib.Tactic

namespace Frobio.Lemmings

/-! ### The program -/

inductive Fault
  | outOfRange
  | didNotFindBoot
  deriving DecidableEq

/-- `b[i]`. -/
def index (b : List UInt8) (i : Nat) : Except Fault UInt8 :=
  match b[i]? with
  | none => .error .outOfRange
  | some x => .ok x

/-- `b[low:high]` of a slice that has no capacity behind its end. -/
def slice (b : List UInt8) (low high : Nat) : Except Fault (List UInt8) :=
  if low ≤ high ∧ high ≤ b.length then .ok ((b.take high).drop low) else .error .outOfRange

def hilo (h l : UInt8) : Nat := h.toNat <<< 8 ||| l.toNat

/-- The loop that reads the name. It is given as many rounds as `i` is below `modSize`. -/
def nameLoop (b : List UInt8) : Nat → Nat → List UInt8 → Except Fault (Nat × List UInt8)
  | 0, i, name => .ok (i, name)
  | rounds + 1, i, name =>
    (index b i).bind fun x =>
      if x < 128 then nameLoop b rounds (i + 1) (name ++ [x]) else .ok (i, name)

def parseModule (b : List UInt8) : Except Fault (List UInt8 × Nat) :=
  (index b 0).bind fun b0 =>
  if b0 ≠ 0x87 then .ok ([], 0) else
  (index b 1).bind fun b1 =>
  if b1 ≠ 0xCD then .ok ([], 0) else
  (index b 2).bind fun b2 =>
  (index b 3).bind fun b3 =>
  let modSize := hilo b2 b3
  (index b 4).bind fun b4 =>
  (index b 5).bind fun b5 =>
  let modNamePtr := hilo b4 b5
  (index b 8).bind fun want =>
  ((List.range 8).foldlM (fun got i => (index b i).map fun x => got ^^^ x) 255).bind fun got =>
  if got ≠ want then .ok ([], 0) else
  (nameLoop b (modSize - modNamePtr) modNamePtr []).bind fun read =>
  (index b read.1).bind fun x =>
  .ok (read.2 ++ [x &&& 127], modSize)

/-- The names are of bytes below 128. -/
def toUpper (name : List UInt8) : List UInt8 :=
  name.map fun c => if 97 ≤ c ∧ c ≤ 122 then c - 32 else c

def toLower (name : List UInt8) : List UInt8 :=
  name.map fun c => if 65 ≤ c ∧ c ≤ 90 then c + 32 else c

abbrev Mods := List UInt8 → Option (List UInt8)

/-- One round of the loop of `splitModules`. -/
def addModule (b : List UInt8) (mods : Mods) (i : Nat) : Except Fault Mods :=
  (index b i).bind fun x =>
  if x ≠ 0x87 then .ok mods else
  (index b (i + 1)).bind fun y =>
  if y ≠ 0xCD then .ok mods else
  (slice b i b.length).bind fun m =>
  (parseModule m).bind fun (name, n) =>
  if n > 0 then
    (slice b i (i + n)).bind fun entry =>
    .ok (Function.update mods (toUpper name) (some entry))
  else .ok mods

def splitModules (b : List UInt8) : Except Fault Mods :=
  (List.range (b.length - 12)).foldlM (addModule b) fun _ => none

/-- `"boot"`. -/
def boot : List UInt8 := [98, 111, 111, 116]

/-- The loop of `splitBootTrackAroundBootModule`. -/
def bootLoop (b : List UInt8) : Nat → Nat →
    Except Fault (List UInt8 × List UInt8 × List UInt8)
  | 0, _ => .error .didNotFindBoot
  | rounds + 1, i =>
    (index b i).bind fun x =>
    if x ≠ 0x87 then bootLoop b rounds (i + 1) else
    (index b (i + 1)).bind fun y =>
    if y ≠ 0xCD then bootLoop b rounds (i + 1) else
    (slice b i b.length).bind fun m =>
    (parseModule m).bind fun (name, n) =>
    if n = 0 then bootLoop b rounds (i + 1) else
    if toLower name ≠ boot then bootLoop b rounds (i + 1) else
    (slice b 0 i).bind fun head =>
    (slice b i (i + n)).bind fun middle =>
    (slice b (i + n) b.length).bind fun tail =>
    .ok (head, middle, tail)

def splitBootTrackAroundBootModule (b : List UInt8) :
    Except Fault (List UInt8 × List UInt8 × List UInt8) :=
  bootLoop b b.length 0

/-! ### Headers -/

/-- The bytes begin with the sync bytes. -/
def Synced (m : List UInt8) : Prop := m[0]? = some 0x87 ∧ m[1]? = some 0xCD

instance (m : List UInt8) : Decidable (Synced m) := inferInstanceAs (Decidable (_ ∧ _))

/-- A header begins here whose sync bytes and parity are right. -/
def Marked (m : List UInt8) : Prop :=
  Synced m ∧ 9 ≤ m.length ∧ (m.take 8).foldl (fun got x => got ^^^ x) 255 = m.getD 8 0

/-- The header's length of the module. -/
def size (m : List UInt8) : Nat := hilo (m.getD 2 0) (m.getD 3 0)

def namePtr (m : List UInt8) : Nat := hilo (m.getD 4 0) (m.getD 5 0)

/-- The letters of the name before its last one, which is marked by the high bit or stands
where the module ends. -/
def letters (m : List UInt8) : List UInt8 :=
  ((m.drop (namePtr m)).take (size m - namePtr m)).takeWhile fun x => x < 128

/-- The place of the last letter of the name. -/
def nameEnd (m : List UInt8) : Nat := namePtr m + (letters m).length

def moduleName (m : List UInt8) : List UInt8 := letters m ++ [m.getD (nameEnd m) 0 &&& 127]

/-- The module with the header that begins here, and its name, lie within the bytes. -/
def Whole (m : List UInt8) : Prop := nameEnd m < m.length ∧ size m ≤ m.length

/-- A module named boot begins here. -/
def IsBoot (m : List UInt8) : Prop := Marked m ∧ size m ≠ 0 ∧ toLower (moduleName m) = boot

/-- All that the search for the module named boot reads here lies within the bytes. -/
structure Readable (m : List UInt8) : Prop where
  pair : m[0]? = some 0x87 → 2 ≤ m.length
  header : Synced m → 9 ≤ m.length
  name : Marked m → nameEnd m < m.length
  body : IsBoot m → size m ≤ m.length

/-! ### Sequences of modules -/

/-- A header of nine bytes, a name and a checksum of three bytes, in a module that is as long
as its header tells. -/
structure Module where
  bytes : List UInt8
  marked : Marked bytes
  size_eq : size bytes = bytes.length
  large : 13 ≤ bytes.length
  named : nameEnd bytes < bytes.length

def Module.name (m : Module) : List UInt8 := moduleName m.bytes

/-- The track consists of these modules, their names are distinct, and sync bytes are only
where a module starts. -/
structure Consists (b : List UInt8) (modules : List Module) : Prop where
  all : b = modules.flatMap Module.bytes
  distinct : (modules.map Module.name).Nodup
  starts : ∀ i, Synced (b.drop i) → ∃ before m after, modules = before ++ m :: after ∧
    i = (before.flatMap Module.bytes).length

/-- What is asked of both functions. -/
structure Splits (b : List UInt8) : Prop where
  inRange : splitModules b ≠ .error .outOfRange
  bootInRange : splitBootTrackAroundBootModule b ≠ .error .outOfRange
  slices : ∀ mods key value, splitModules b = .ok mods → mods key = some value →
    ∃ i, Marked (b.drop i) ∧ value = (b.drop i).take (size (b.drop i)) ∧
      value.length = size (b.drop i)
  holds : ∀ modules, Consists b modules → ∃ mods, splitModules b = .ok mods ∧
    ∀ m ∈ modules, mods (toUpper m.name) = some m.bytes
  around : ∀ modules before m after, Consists b modules → modules = before ++ m :: after →
    toLower m.name = boot → splitBootTrackAroundBootModule b =
      .ok (before.flatMap Module.bytes, m.bytes, after.flatMap Module.bytes)

/-- Every module whose header begins 13 bytes or more before the end lies within the track,
with its name; up to the module named boot, all that is read does; and where the track is a
sequence of modules, no two of the names differ in the case of letters only. -/
structure Sound (b : List UInt8) : Prop where
  whole : ∀ i < b.length - 12, Marked (b.drop i) → Whole (b.drop i)
  readable : ∀ i < b.length, (∀ j < i, ¬IsBoot (b.drop j)) → Readable (b.drop i)
  twins : ∀ modules, Consists b modules → (modules.map fun m => toUpper m.name).Nodup

/-! ### One header -/

theorem index_of_lt {b : List UInt8} {i : Nat} (inside : i < b.length) :
    index b i = .ok b[i] := by
  rw [index, List.getElem?_eq_getElem inside]

theorem index_of_le {b : List UInt8} {i : Nat} (outside : b.length ≤ i) :
    index b i = .error .outOfRange := by
  rw [index, List.getElem?_eq_none outside]

theorem ok_bind {α β : Type} (x : α) (f : α → Except Fault β) :
    (Except.ok x : Except Fault α).bind f = f x := rfl

theorem error_bind {α β : Type} (fault : Fault) (f : α → Except Fault β) :
    (Except.error fault : Except Fault α).bind f = .error fault := rfl

/-- The name is read to its last letter, and that one too. -/
theorem nameLoop_bind {b : List UInt8} {rounds i : Nat} {run : List UInt8}
    (letters : ((b.drop i).take rounds).takeWhile (fun x => x < 128) = run) (name : List UInt8)
    (n : Nat) :
    ((nameLoop b rounds i name).bind fun read =>
      (index b read.1).bind fun x => (.ok (read.2 ++ [x &&& 127], n) : Except Fault _)) =
    if i + run.length < b.length then
      .ok (name ++ run ++ [b.getD (i + run.length) 0 &&& 127], n)
    else .error .outOfRange := by
  have last : ∀ i name, ((index b i).bind fun x =>
      (.ok (name ++ [x &&& 127], n) : Except Fault (List UInt8 × Nat))) =
      if i < b.length then .ok (name ++ [b.getD i 0 &&& 127], n) else .error .outOfRange := by
    intro i name
    by_cases inside : i < b.length
    · rw [if_pos inside, index_of_lt inside, ok_bind, List.getD_eq_getElem?_getD,
        List.getElem?_eq_getElem inside, Option.getD_some]
    · rw [if_neg inside, index_of_le (not_lt.mp inside), error_bind]
  induction rounds generalizing i name run with
  | zero =>
    rw [List.take_zero, List.takeWhile_nil] at letters
    subst letters
    rw [List.append_nil]
    exact last i name
  | succ rounds inductionHypothesis =>
    rw [nameLoop]
    by_cases inside : i < b.length
    · rw [index_of_lt inside, ok_bind]
      rw [List.drop_eq_getElem_cons inside, List.take_succ_cons] at letters
      by_cases letter : b[i] < 128
      · rw [List.takeWhile_cons, if_pos (decide_eq_true letter)] at letters
        subst letters
        rw [if_pos letter, inductionHypothesis rfl, List.length_cons, Nat.add_right_comm i 1,
          ← Nat.add_assoc, List.append_assoc name, List.singleton_append]
      · rw [List.takeWhile_cons, if_neg (by rwa [decide_eq_true_eq])] at letters
        subst letters
        rw [if_neg letter, List.append_nil]
        exact last i name
    · rw [List.drop_of_length_le (not_lt.mp inside), List.take_nil, List.takeWhile_nil] at letters
      subst letters
      rw [index_of_le (not_lt.mp inside), error_bind, error_bind]
      exact (if_neg inside).symm

theorem Synced.exists_cons {m : List UInt8} (synced : Synced m) :
    ∃ rest, m = 0x87 :: 0xCD :: rest := by
  obtain ⟨first, second⟩ := synced
  rcases m with _ | ⟨b0, _ | ⟨b1, rest⟩⟩
  · cases first
  · cases second
  · cases first
    cases second
    exact ⟨rest, rfl⟩

/-- What `parseModule` does where the sync bytes are. -/
theorem parseModule_of_short {m : List UInt8} (synced : Synced m) (short : m.length < 9) :
    parseModule m = .error .outOfRange := by
  obtain ⟨rest, rfl⟩ := synced.exists_cons
  rcases rest with _ | ⟨b2, _ | ⟨b3, _ | ⟨b4, _ | ⟨b5, _ | ⟨b6, _ | ⟨b7, _ | ⟨b8, rest⟩⟩⟩⟩⟩⟩⟩
  all_goals try rfl
  rw [List.length_cons, List.length_cons, List.length_cons, List.length_cons, List.length_cons,
    List.length_cons, List.length_cons, List.length_cons, List.length_cons] at short
  omega

theorem parseModule_of_long {m : List UInt8} (synced : Synced m) (long : 9 ≤ m.length) :
    parseModule m =
      if (m.take 8).foldl (fun got x => got ^^^ x) 255 ≠ m.getD 8 0 then .ok ([], 0)
      else if nameEnd m < m.length then .ok (moduleName m, size m) else .error .outOfRange := by
  have name := @nameLoop_bind m (size m - namePtr m) (namePtr m) (letters m) rfl [] (size m)
  have header : parseModule m =
      if (m.take 8).foldl (fun got x => got ^^^ x) 255 ≠ m.getD 8 0 then .ok ([], 0)
      else (nameLoop m (size m - namePtr m) (namePtr m) []).bind fun read =>
        (index m read.1).bind fun x => .ok (read.2 ++ [x &&& 127], size m) := by
    obtain ⟨rest, rfl⟩ := synced.exists_cons
    rcases rest with _ | ⟨b2, _ | ⟨b3, _ | ⟨b4, _ | ⟨b5, _ | ⟨b6, _ | ⟨b7, _ | ⟨b8, rest⟩⟩⟩⟩⟩⟩⟩
    all_goals first | rfl | exact absurd long (by simp)
  rw [header, name]
  rfl

/-! ### All entries -/

theorem synced_drop {b : List UInt8} {i : Nat} :
    Synced (b.drop i) ↔ b[i]? = some 0x87 ∧ b[i + 1]? = some 0xCD := by
  rw [Synced, List.getElem?_drop, List.getElem?_drop, Nat.add_zero]

theorem slice_to_length {b : List UInt8} {i : Nat} (inside : i ≤ b.length) :
    slice b i b.length = .ok (b.drop i) := by
  rw [slice, if_pos ⟨inside, le_refl _⟩, List.take_length]

theorem slice_add (b : List UInt8) (i n : Nat) :
    slice b i (i + n) =
      if i + n ≤ b.length then .ok ((b.drop i).take n) else .error .outOfRange := by
  rw [slice]
  refine if_congr (and_iff_right (Nat.le_add_right ..)) ?_ rfl
  rw [List.drop_take, Nat.add_sub_cancel_left]

/-- Both loops look for the sync bytes in this way. -/
theorem sync_bind {α : Type} {b : List UInt8} {i : Nat} (inside : i + 1 < b.length)
    (other found : Except Fault α) :
    ((index b i).bind fun x => if x ≠ 0x87 then other else
      (index b (i + 1)).bind fun y => if y ≠ 0xCD then other else found) =
    if Synced (b.drop i) then found else other := by
  rw [index_of_lt inside, index_of_lt (Nat.lt_of_succ_lt inside), ok_bind, ok_bind]
  have pair : Synced (b.drop i) ↔ b[i] = 0x87 ∧ b[i + 1] = 0xCD := by
    rw [synced_drop, List.getElem?_eq_getElem inside,
      List.getElem?_eq_getElem (Nat.lt_of_succ_lt inside), Option.some_inj, Option.some_inj]
  by_cases first : b[i] = 0x87
  · rw [if_neg (not_not_intro first)]
    by_cases second : b[i + 1] = 0xCD
    · rw [if_neg (not_not_intro second), if_pos (pair.mpr ⟨first, second⟩)]
    · rw [if_pos second, if_neg fun synced => second (pair.mp synced).2]
  · rw [if_pos first, if_neg fun synced => first (pair.mp synced).1]

/-- What one round of `splitModules` does. -/
theorem addModule_spec {b : List UInt8} {i : Nat} (room : i < b.length - 12) (mods : Mods) :
    (¬Marked (b.drop i) → addModule b mods i = .ok mods) ∧
      (Marked (b.drop i) → ¬Whole (b.drop i) → addModule b mods i = .error .outOfRange) ∧
      (Marked (b.drop i) → Whole (b.drop i) → addModule b mods i = .ok
        (if size (b.drop i) = 0 then mods else
          Function.update mods (toUpper (moduleName (b.drop i)))
            (some ((b.drop i).take (size (b.drop i)))))) := by
  have length : (b.drop i).length = b.length - i := List.length_drop
  have found : addModule b mods i =
      if Synced (b.drop i) then (parseModule (b.drop i)).bind fun read =>
        if read.2 > 0 then (slice b i (i + read.2)).bind fun entry =>
          .ok (Function.update mods (toUpper read.1) (some entry))
        else .ok mods
      else .ok mods := by
    rw [addModule, sync_bind (by omega), slice_to_length (by omega)]
    rfl
  have long : 9 ≤ (b.drop i).length := by omega
  have parsed : Synced (b.drop i) → parseModule (b.drop i) = _ := fun synced =>
    parseModule_of_long synced long
  have fits : ∀ n, i + n ≤ b.length ↔ n ≤ (b.drop i).length := by
    intro n
    omega
  refine ⟨fun unmarked => ?_, fun marked broken => ?_, fun marked whole => ?_⟩
  · rw [found]
    by_cases synced : Synced (b.drop i)
    · rw [if_pos synced, parsed synced, if_pos fun parity => unmarked ⟨synced, long, parity⟩]
      rfl
    · rw [if_neg synced]
  · rw [found, if_pos marked.1, parsed marked.1, if_neg (not_not_intro marked.2.2)]
    by_cases named : nameEnd (b.drop i) < (b.drop i).length
    · have larger : ¬size (b.drop i) ≤ (b.drop i).length := fun fits => broken ⟨named, fits⟩
      rw [if_pos named, ok_bind]
      dsimp only
      rw [if_pos (by omega), slice_add, if_neg fun inside => larger ((fits _).mp inside)]
      rfl
    · rw [if_neg named]
      rfl
  · rw [found, if_pos marked.1, parsed marked.1, if_neg (not_not_intro marked.2.2),
      if_pos whole.1, ok_bind]
    dsimp only
    by_cases empty : size (b.drop i) = 0
    · rw [if_pos empty, if_neg (by omega)]
    · rw [if_neg empty, if_pos (Nat.pos_of_ne_zero empty), slice_add,
        if_pos ((fits _).mpr whole.2)]
      rfl

/-- The map after so many rounds: each entry is a module that begins before, and each module
that begins before has an entry. -/
structure Holds (b : List UInt8) (n : Nat) (mods : Mods) : Prop where
  entries : ∀ key value, mods key = some value → ∃ i < n, Marked (b.drop i) ∧
    Whole (b.drop i) ∧ size (b.drop i) ≠ 0 ∧ key = toUpper (moduleName (b.drop i)) ∧
    value = (b.drop i).take (size (b.drop i))
  all : ∀ i < n, Marked (b.drop i) → size (b.drop i) ≠ 0 →
    ∃ value, mods (toUpper (moduleName (b.drop i))) = some value

theorem Holds.round {b : List UInt8} {n : Nat} {mods : Mods} (holds : Holds b n mods)
    (room : n < b.length - 12) (whole : Marked (b.drop n) → Whole (b.drop n)) :
    ∃ mods', addModule b mods n = .ok mods' ∧ Holds b (n + 1) mods' := by
  obtain ⟨unmarked, -, marked⟩ := addModule_spec room mods
  have earlier : ∀ key value, mods key = some value → ∃ i < n + 1, Marked (b.drop i) ∧
      Whole (b.drop i) ∧ size (b.drop i) ≠ 0 ∧ key = toUpper (moduleName (b.drop i)) ∧
      value = (b.drop i).take (size (b.drop i)) := by
    intro key value there
    obtain ⟨i, before, rest⟩ := holds.entries key value there
    exact ⟨i, Nat.lt_succ_of_lt before, rest⟩
  have unchanged : (Marked (b.drop n) → size (b.drop n) = 0) → Holds b (n + 1) mods := by
    refine fun nothing => ⟨earlier, fun i before is something => ?_⟩
    rcases Nat.lt_succ_iff_lt_or_eq.mp before with before | rfl
    · exact holds.all i before is something
    · exact absurd (nothing is) something
  by_cases is : Marked (b.drop n)
  · by_cases empty : size (b.drop n) = 0
    · exact ⟨mods, (marked is (whole is)).trans (congrArg _ (if_pos empty)),
        unchanged fun _ => empty⟩
    refine ⟨_, (marked is (whole is)).trans (congrArg _ (if_neg empty)), ⟨?_, ?_⟩⟩
    · intro key value there
      by_cases same : key = toUpper (moduleName (b.drop n))
      · rw [same, Function.update_self, Option.some_inj] at there
        exact ⟨n, Nat.lt_succ_self n, is, whole is, empty, same, there.symm⟩
      · rw [Function.update_of_ne same] at there
        exact earlier key value there
    · intro i before marked' something
      by_cases same : toUpper (moduleName (b.drop i)) = toUpper (moduleName (b.drop n))
      · rw [same, Function.update_self]
        exact ⟨_, rfl⟩
      · rw [Function.update_of_ne same]
        rcases Nat.lt_succ_iff_lt_or_eq.mp before with before | rfl
        · exact holds.all i before marked' something
        · exact absurd rfl same
  · exact ⟨mods, unmarked is, unchanged fun is' => absurd is' is⟩

theorem foldlM_concat {b : List UInt8} (n : Nat) :
    (List.range (n + 1)).foldlM (addModule b) (fun _ => none) =
      ((List.range n).foldlM (addModule b) fun _ => none).bind fun mods => addModule b mods n := by
  rw [List.range_succ, List.foldlM_append]
  refine congrArg _ (funext fun mods => ?_)
  rw [List.foldlM_cons]
  cases addModule b mods n <;> rfl

theorem exists_splitModules {b : List UInt8} {n : Nat} (room : n ≤ b.length - 12)
    (whole : ∀ i < n, Marked (b.drop i) → Whole (b.drop i)) :
    ∃ mods, (List.range n).foldlM (addModule b) (fun _ => none) = .ok mods ∧ Holds b n mods := by
  induction n with
  | zero => exact ⟨_, rfl, nofun, fun i before => absurd before (Nat.not_lt_zero i)⟩
  | succ n inductionHypothesis =>
    obtain ⟨mods, done, holds⟩ := inductionHypothesis (Nat.le_of_succ_le room)
      fun i before => whole i (Nat.lt_succ_of_lt before)
    obtain ⟨mods', next, holds'⟩ := holds.round room (whole n (Nat.lt_succ_self n))
    refine ⟨mods', ?_, holds'⟩
    rw [foldlM_concat, done, ok_bind, next]

theorem splitModules_outOfRange {b : List UInt8} {n : Nat} (room : n ≤ b.length - 12)
    (broken : ∃ i < n, Marked (b.drop i) ∧ ¬Whole (b.drop i)) :
    (List.range n).foldlM (addModule b) (fun _ => none) = .error .outOfRange := by
  induction n with
  | zero =>
    obtain ⟨i, before, -⟩ := broken
    exact absurd before (Nat.not_lt_zero i)
  | succ n inductionHypothesis =>
    rw [foldlM_concat]
    by_cases earlier : ∃ i < n, Marked (b.drop i) ∧ ¬Whole (b.drop i)
    · rw [inductionHypothesis (Nat.le_of_succ_le room) earlier, error_bind]
    · obtain ⟨i, before, marked, bad⟩ := broken
      have last : i = n := by
        by_contra other
        exact earlier ⟨i, by omega, marked, bad⟩
      subst last
      obtain ⟨mods, done, -⟩ := exists_splitModules (Nat.le_of_succ_le room) fun j below is => by
        by_contra broken
        exact earlier ⟨j, below, is, broken⟩
      rw [done, ok_bind, (addModule_spec room mods).2.1 marked bad]

/-! ### The module named boot -/

theorem readable_of_not_marked {m : List UInt8} (pair : 2 ≤ m.length)
    (header : Synced m → 9 ≤ m.length) (unmarked : ¬Marked m) : Readable m :=
  ⟨fun _ => pair, header, fun marked => absurd marked unmarked, fun is => absurd is.1 unmarked⟩

/-- What one round of the loop does. -/
theorem bootLoop_round {b : List UInt8} {i : Nat} (inside : i < b.length) (rounds : Nat) :
    (¬Readable (b.drop i) → bootLoop b (rounds + 1) i = .error .outOfRange) ∧
      (Readable (b.drop i) → IsBoot (b.drop i) → bootLoop b (rounds + 1) i =
        .ok (b.take i, (b.drop i).take (size (b.drop i)), (b.drop i).drop (size (b.drop i)))) ∧
      (Readable (b.drop i) → ¬IsBoot (b.drop i) →
        bootLoop b (rounds + 1) i = bootLoop b rounds (i + 1)) := by
  have length : (b.drop i).length = b.length - i := List.length_drop
  have start : (b.drop i)[0]? = some b[i] := by
    rw [List.getElem?_drop, Nat.add_zero, List.getElem?_eq_getElem inside]
  by_cases last : b.length ≤ i + 1
  · have unsynced : ¬Synced (b.drop i) := by
      intro synced
      have := synced.2
      rw [List.getElem?_eq_none (by omega)] at this
      cases this
    have notBoot : ¬IsBoot (b.drop i) := fun is => unsynced is.1.1
    rw [bootLoop, index_of_lt inside, ok_bind, index_of_le last, error_bind]
    by_cases sync : b[i] = 0x87
    · have unreadable : ¬Readable (b.drop i) := by
        intro readable
        have := readable.pair (start.trans (congrArg some sync))
        omega
      rw [if_neg (not_not_intro sync)]
      exact ⟨fun _ => rfl, fun readable => absurd readable unreadable,
        fun readable => absurd readable unreadable⟩
    · have readable : Readable (b.drop i) := by
        refine ⟨fun other => absurd (Option.some.inj (start.symm.trans other)) sync,
          fun synced => absurd synced unsynced, fun marked => absurd marked.1 unsynced,
          fun is => absurd is notBoot⟩
      rw [if_pos sync]
      exact ⟨fun unreadable => absurd readable unreadable, fun _ is => absurd is notBoot,
        fun _ _ => rfl⟩
  have found : bootLoop b (rounds + 1) i =
      if Synced (b.drop i) then (parseModule (b.drop i)).bind fun read =>
        if read.2 = 0 then bootLoop b rounds (i + 1) else
        if toLower read.1 ≠ boot then bootLoop b rounds (i + 1) else
        (slice b i (i + read.2)).bind fun middle =>
        (slice b (i + read.2) b.length).bind fun tail => .ok (b.take i, middle, tail)
      else bootLoop b rounds (i + 1) := by
    have head : slice b 0 i = .ok (b.take i) := by
      rw [slice, if_pos ⟨Nat.zero_le i, inside.le⟩]
      rfl
    rw [bootLoop, sync_bind (not_le.mp last), slice_to_length inside.le, head]
    rfl
  have pair : 2 ≤ (b.drop i).length := by omega
  by_cases synced : ¬Synced (b.drop i)
  · have unmarked : ¬Marked (b.drop i) := fun marked => synced marked.1
    rw [found, if_neg synced]
    exact ⟨fun unreadable => absurd
        (readable_of_not_marked pair (fun is => absurd is synced) unmarked) unreadable,
      fun _ is => absurd is.1 unmarked, fun _ _ => rfl⟩
  rw [not_not] at synced
  by_cases long : ¬9 ≤ (b.drop i).length
  · rw [found, if_pos synced, parseModule_of_short synced (not_le.mp long), error_bind]
    exact ⟨fun _ => rfl, fun readable => absurd (readable.header synced) long,
      fun readable => absurd (readable.header synced) long⟩
  rw [not_not] at long
  rw [found, if_pos synced, parseModule_of_long synced long]
  by_cases parity : (List.take 8 (b.drop i)).foldl (fun got x => got ^^^ x) 255 ≠
      (b.drop i).getD 8 0
  · have unmarked : ¬Marked (b.drop i) := fun marked => parity marked.2.2
    rw [if_pos parity, ok_bind]
    exact ⟨fun unreadable => absurd
        (readable_of_not_marked pair (fun _ => long) unmarked) unreadable,
      fun _ is => absurd is.1 unmarked, fun _ _ => rfl⟩
  have marked : Marked (b.drop i) := ⟨synced, long, not_not.mp parity⟩
  rw [if_neg parity]
  by_cases named : ¬nameEnd (b.drop i) < (b.drop i).length
  · rw [if_neg named, error_bind]
    exact ⟨fun _ => rfl, fun readable => absurd (readable.name marked) named,
      fun readable => absurd (readable.name marked) named⟩
  rw [not_not] at named
  rw [if_pos named, ok_bind]
  dsimp only
  by_cases is : ¬IsBoot (b.drop i)
  · have readable : Readable (b.drop i) :=
      ⟨fun _ => pair, fun _ => long, fun _ => named, fun is' => absurd is' is⟩
    refine ⟨fun unreadable => absurd readable unreadable, fun _ is' => absurd is' is, fun _ _ => ?_⟩
    by_cases empty : size (b.drop i) = 0
    · rw [if_pos empty]
    · rw [if_neg empty, if_pos fun name => is ⟨marked, empty, name⟩]
  rw [not_not] at is
  rw [if_neg is.2.1, if_neg (not_not_intro is.2.2), slice_add]
  by_cases fits : i + size (b.drop i) ≤ b.length
  · have readable : Readable (b.drop i) :=
      ⟨fun _ => pair, fun _ => long, fun _ => named, fun _ => by omega⟩
    rw [if_pos fits, slice_to_length fits, ok_bind, ok_bind, List.drop_drop]
    exact ⟨fun unreadable => absurd readable unreadable, fun _ _ => rfl, fun _ is' => absurd is is'⟩
  · have unreadable : ¬Readable (b.drop i) := fun readable => by
      have := readable.body is
      omega
    rw [if_neg fits, error_bind]
    exact ⟨fun _ => rfl, fun readable => absurd readable unreadable,
      fun readable => absurd readable unreadable⟩

/-- The loop stops at the first module named boot, if it gets there. -/
theorem bootLoop_of_isBoot {b : List UInt8} {rounds i j : Nat} (le : i ≤ j) (inside : j < b.length)
    (sum : i + rounds = b.length) (readable : ∀ k, i ≤ k → k ≤ j → Readable (b.drop k))
    (first : ∀ k, i ≤ k → k < j → ¬IsBoot (b.drop k)) (is : IsBoot (b.drop j)) :
    bootLoop b rounds i =
      .ok (b.take j, (b.drop j).take (size (b.drop j)), (b.drop j).drop (size (b.drop j))) := by
  induction rounds generalizing i with
  | zero => omega
  | succ rounds inductionHypothesis =>
    obtain ⟨-, found, other⟩ := bootLoop_round (show i < b.length by omega) rounds
    rcases Nat.eq_or_lt_of_le le with rfl | before
    · exact found (readable i (le_refl i) (le_refl i)) is
    · rw [other (readable i (le_refl i) le) (first i (le_refl i) before)]
      exact inductionHypothesis before (by omega) (fun k after => readable k (by omega))
        fun k after => first k (by omega)

theorem bootLoop_outOfRange {b : List UInt8} {rounds i j : Nat} (le : i ≤ j)
    (inside : j < b.length) (sum : i + rounds = b.length)
    (first : ∀ k, i ≤ k → k < j → ¬IsBoot (b.drop k)) (unreadable : ¬Readable (b.drop j)) :
    bootLoop b rounds i = .error .outOfRange := by
  induction rounds generalizing i with
  | zero => omega
  | succ rounds inductionHypothesis =>
    obtain ⟨broken, -, other⟩ := bootLoop_round (show i < b.length by omega) rounds
    by_cases readable : Readable (b.drop i)
    · rcases Nat.eq_or_lt_of_le le with rfl | before
      · exact absurd readable unreadable
      · rw [other readable (first i (le_refl i) before)]
        exact inductionHypothesis before (by omega) fun k after => first k (by omega)
    · exact broken readable

theorem bootLoop_ne_outOfRange {b : List UInt8} {rounds i : Nat} (sum : i + rounds = b.length)
    (before : ∀ k < i, ¬IsBoot (b.drop k))
    (readable : ∀ j < b.length, (∀ k < j, ¬IsBoot (b.drop k)) → Readable (b.drop j)) :
    bootLoop b rounds i ≠ .error .outOfRange := by
  induction rounds generalizing i with
  | zero => exact nofun
  | succ rounds inductionHypothesis =>
    have inside : i < b.length := by omega
    obtain ⟨-, found, other⟩ := bootLoop_round inside rounds
    have here := readable i inside before
    by_cases is : IsBoot (b.drop i)
    · rw [found here is]
      exact nofun
    · rw [other here is]
      refine inductionHypothesis (by omega) fun k below => ?_
      rcases Nat.lt_succ_iff_lt_or_eq.mp below with below | rfl
      · exact before k below
      · exact is

/-! ### Whole modules -/

theorem toUpper_toLower (name : List UInt8) : toUpper (toLower name) = toUpper name := by
  have letters : ∀ c : Fin 256, (fun c : UInt8 => if 97 ≤ c ∧ c ≤ 122 then c - 32 else c)
      ((fun c : UInt8 => if 65 ≤ c ∧ c ≤ 90 then c + 32 else c) (UInt8.ofNat c)) =
      (fun c : UInt8 => if 97 ≤ c ∧ c ≤ 122 then c - 32 else c) (UInt8.ofNat c) := by
    decide +kernel
  rw [toUpper, toLower, List.map_map, toUpper]
  refine List.map_congr_left fun c _ => ?_
  have here := letters ⟨c.toNat, c.toNat_lt⟩
  rw [UInt8.ofNat_toNat] at here
  exact here

theorem takeWhile_take_append {p : UInt8 → Bool} {x : List UInt8} {k : Nat}
    (short : ((x.take k).takeWhile p).length < x.length) (rest : List UInt8) :
    ((x ++ rest).take k).takeWhile p = (x.take k).takeWhile p := by
  by_cases fits : k ≤ x.length
  · rw [List.take_append_of_le_length fits]
  · rw [List.take_of_length_le (not_le.mp fits).le] at short ⊢
    rw [List.take_append, List.take_of_length_le (not_le.mp fits).le, List.takeWhile_append,
      if_neg short.ne]

section

variable (m : Module) (rest : List UInt8)

theorem Module.getD_append {i : Nat} (inside : i < m.bytes.length) :
    (m.bytes ++ rest).getD i 0 = m.bytes.getD i 0 := by
  rw [List.getD_eq_getElem?_getD, List.getElem?_append_left inside, ← List.getD_eq_getElem?_getD]

theorem Module.header_append {i : Nat} (inside : i < 13) :
    (m.bytes ++ rest).getD i 0 = m.bytes.getD i 0 :=
  m.getD_append rest (inside.trans_le m.large)

theorem Module.marked_append : Marked (m.bytes ++ rest) := by
  obtain ⟨⟨first, second⟩, long, parity⟩ := m.marked
  refine ⟨⟨?_, ?_⟩, ?_, ?_⟩
  · rw [List.getElem?_append_left (by omega), first]
  · rw [List.getElem?_append_left (by omega), second]
  · rw [List.length_append]
    omega
  · rw [List.take_append_of_le_length (by omega), m.header_append rest (by decide), parity]

theorem Module.size_append : size (m.bytes ++ rest) = m.bytes.length := by
  rw [size, m.header_append rest (by decide), m.header_append rest (by decide)]
  exact m.size_eq

theorem Module.letters_append : letters (m.bytes ++ rest) = letters m.bytes := by
  have named := m.named
  rw [nameEnd] at named
  have pointer : namePtr (m.bytes ++ rest) = namePtr m.bytes := by
    rw [namePtr, m.header_append rest (by decide), m.header_append rest (by decide)]
    rfl
  rw [letters, pointer, m.size_append, ← m.size_eq, List.drop_append_of_le_length (by omega)]
  refine takeWhile_take_append ?_ rest
  rw [List.length_drop]
  show (letters m.bytes).length < _
  omega

theorem Module.nameEnd_append : nameEnd (m.bytes ++ rest) = nameEnd m.bytes := by
  rw [nameEnd, m.letters_append, nameEnd, namePtr, m.header_append rest (by decide),
    m.header_append rest (by decide)]
  rfl

theorem Module.name_append : moduleName (m.bytes ++ rest) = m.name := by
  rw [moduleName, m.letters_append, m.nameEnd_append, m.getD_append rest m.named]
  rfl

end

/-- A key that the members of a list do not share tells where in the list one is. -/
theorem split_eq_of_nodup {α β : Type} {f : α → β} {list before before' after after' : List α}
    {x y : α} (distinct : (list.map f).Nodup) (first : list = before ++ x :: after)
    (second : list = before' ++ y :: after') (same : f x = f y) :
    before = before' ∧ x = y ∧ after = after' := by
  have place : ∀ {before after : List α} {x : α}, list = before ++ x :: after →
      (list.map f)[before.length]? = some (f x) := by
    intro before after x split
    rw [split, List.getElem?_map, List.getElem?_append_right (le_refl _), Nat.sub_self]
    rfl
  have one := place first
  have other := place second
  obtain ⟨inside, -⟩ := List.getElem?_eq_some_iff.mp one
  have length : before.length = before'.length :=
    (List.getElem?_inj inside distinct).mp (one.trans ((congrArg some same).trans other.symm))
  obtain ⟨rfl, rest⟩ := List.append_inj (first.symm.trans second) length
  rw [List.cons.injEq] at rest
  exact ⟨rfl, rest⟩

section

variable {b : List UInt8} {modules before after : List Module} {m : Module}

theorem Consists.drop (consists : Consists b modules) (split : modules = before ++ m :: after) :
    b.drop (before.flatMap Module.bytes).length = m.bytes ++ after.flatMap Module.bytes := by
  rw [consists.all, split, List.flatMap_append, List.drop_left' rfl, List.flatMap_cons]

theorem Consists.room (consists : Consists b modules) (split : modules = before ++ m :: after) :
    (before.flatMap Module.bytes).length + m.bytes.length ≤ b.length := by
  rw [consists.all, split, List.flatMap_append, List.flatMap_cons, List.length_append,
    List.length_append]
  omega

/-- Where sync bytes are, one of the modules starts; and if it has the name of another up to
the case of the letters, it is that one. -/
theorem Consists.start_of_name (consists : Consists b modules)
    (twins : (modules.map fun m => toUpper m.name).Nodup)
    (split : modules = before ++ m :: after) {i : Nat} (synced : Synced (b.drop i))
    (same : toUpper (moduleName (b.drop i)) = toUpper m.name) :
    i = (before.flatMap Module.bytes).length := by
  obtain ⟨before', m', after', split', start⟩ := consists.starts i synced
  rw [start, consists.drop split', m'.name_append] at same
  rw [start, (split_eq_of_nodup twins split' split same).1]

end

/-- Both functions do what is asked of them exactly with the sound tracks. -/
theorem splits_iff (b : List UInt8) : Splits b ↔ Sound b := by
  constructor
  · intro splits
    refine ⟨?_, ?_, ?_⟩
    · intro i inside marked
      by_contra broken
      exact splits.inRange (splitModules_outOfRange (le_refl _) ⟨i, inside, marked, broken⟩)
    · intro i inside first
      by_contra unreadable
      exact splits.bootInRange (bootLoop_outOfRange (Nat.zero_le i) inside (Nat.zero_add _)
        (fun k _ below => first k below) unreadable)
    · intro modules consists
      obtain ⟨mods, -, holds⟩ := splits.holds modules consists
      have names := consists.distinct
      rw [show (modules.map fun m => toUpper m.name) = (modules.map Module.name).map toUpper from
        (List.map_map ..).symm]
      refine List.Nodup.map_on ?_ names
      intro first there second there' same
      obtain ⟨x, member, rfl⟩ := List.mem_map.mp there
      obtain ⟨y, member', rfl⟩ := List.mem_map.mp there'
      have bytes := (holds x member).symm.trans ((congrArg mods same).trans (holds y member'))
      exact congrArg moduleName (Option.some.inj bytes)
  · intro sound
    obtain ⟨mods, done, map⟩ := exists_splitModules (le_refl _) sound.whole
    have done : splitModules b = .ok mods := done
    refine ⟨?_, ?_, ?_, ?_, ?_⟩
    · rw [done]
      exact nofun
    · exact bootLoop_ne_outOfRange (Nat.zero_add _) (fun k below => absurd below (Nat.not_lt_zero k))
        sound.readable
    · intro mods' key value done' there
      cases done.symm.trans done'
      obtain ⟨i, -, marked, whole, -, -, same⟩ := map.entries key value there
      refine ⟨i, marked, same, ?_⟩
      rw [same, List.length_take, Nat.min_eq_left whole.2]
    · refine fun modules consists => ⟨mods, done, fun m member => ?_⟩
      obtain ⟨before, after, split⟩ := List.append_of_mem member
      have start := consists.drop split
      have large := m.large
      have room := consists.room split
      obtain ⟨value, there⟩ := map.all (before.flatMap Module.bytes).length (by omega)
        (start ▸ m.marked_append _) (by rw [start, m.size_append]; omega)
      rw [start, m.name_append] at there
      obtain ⟨i, -, marked, -, -, name, same⟩ := map.entries _ value there
      have here := consists.start_of_name (sound.twins modules consists) split marked.1 name.symm
      rw [there, same, here, start, m.size_append, List.take_left' rfl]
    · intro modules before m after consists split name
      have start := consists.drop split
      have large := m.large
      have room := consists.room split
      have is : IsBoot (b.drop (before.flatMap Module.bytes).length) := by
        rw [start]
        refine ⟨m.marked_append _, ?_, ?_⟩
        · rw [m.size_append]
          omega
        · rw [m.name_append, name]
      have first : ∀ k < (before.flatMap Module.bytes).length, ¬IsBoot (b.drop k) := by
        intro k below other
        have same : toUpper (moduleName (b.drop k)) = toUpper m.name := by
          rw [← toUpper_toLower, other.2.2, ← name, toUpper_toLower]
        have here := consists.start_of_name (sound.twins modules consists) split other.1.1 same
        omega
      have found := bootLoop_of_isBoot (Nat.zero_le _) (show _ < b.length by omega)
        (Nat.zero_add _) (fun k _ le => sound.readable k (by omega)
          fun j below => first j (by omega)) (fun k _ below => first k below) is
      rw [splitBootTrackAroundBootModule, found, start, m.size_append, List.take_left' rfl,
        List.drop_left' rfl]
      rw [consists.all, split, List.flatMap_append, List.take_left' rfl]

/-- The header of a module of 16 bytes of which only the first 13 are there. -/
def truncated : List UInt8 :=
  [0x87, 0xCD, 0, 16, 0, 13, 0x11, 0x81, 0x38, 0, 0, 0, 0]

theorem not_splits_truncated :
    splitModules truncated = .error .outOfRange ∧ ¬Splits truncated := by
  have broken : ∃ i < truncated.length - 12, Marked (truncated.drop i) ∧
      ¬Whole (truncated.drop i) :=
    ⟨0, by decide, ⟨by decide, by decide, by decide +kernel⟩,
      fun whole => absurd whole.2 (by decide +kernel)⟩
  have fault : splitModules truncated = .error .outOfRange :=
    splitModules_outOfRange (le_refl _) broken
  exact ⟨fault, fun splits => splits.inRange fault⟩

end Frobio.Lemmings
