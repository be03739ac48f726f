/-
This file models the navigator of `lemma/ui.go`: `Render`, `NavStep`, `Loop` and the part
of `BaseModel` they rest on. It shows when the focus stays on a row of the screen, which is
the row of the model that the focus stands for, and what ends the loop.

A model is the place of a file below the navigator's root, where the host's disk has its
entries. A key gives the state at the next call of `GetCharFromKeyboard`, with the screen
drawn. What a menu does is a parameter: it gives `GotoPath`, or panics.
-/

import Frobio.Lib.Run
import Frobio.Lib.Disk

namespace Frobio.Navigator

open SlashPath Disk Run

/-! ### Screens -/

inductive TextScreen
  | vdg
  | text40
  deriving DecidableEq

def TextScreen.W : TextScreen → Nat
  | vdg => 32
  | text40 => 40

def TextScreen.H : TextScreen → Nat
  | vdg => 16
  | text40 => 24

def HeaderSize : Nat := 2

def FooterSize : Nat := 2

def navLines (t : TextScreen) : Nat := t.H - HeaderSize - FooterSize

/-- How far if SHIFT with Up/Down. -/
def shiftSkip (t : TextScreen) : Nat := navLines t * 3 / 4

/-! ### Models -/

/-- The flag `dos_root`, the waiter's current directory, and the host's disk. -/
structure Host where
  navRoot : Text
  current : Place
  disk : Disk

/-- A `*BaseModel`, as the names that lead to it from the root. -/
abbrev Model := Place

section

variable (host : Host)

/-- `UnixPath`. No flag is a panic. -/
def unixPath (mod : Model) : Option Text :=
  if host.navRoot = [] then none else some (join [host.navRoot, below mod])

/-- The names of `Kids`, or a panic of `Value`. -/
def kids (mod : Model) : Option (List Text) :=
  (unixPath host mod).bind fun uPath =>
    (host.disk.find host.current uPath).bind fun place =>
      match host.disk.nodeAt place with
      | none => none
      | some .dir => (host.disk.readDir place).map (·.filter fun name => name.head? ≠ some 46)
      | some .file => some []

/-- `len(mod.kids)`, once they are filled in. -/
def lenKids (mod : Model) : Nat := ((kids host mod).getD []).length

def parent (mod : Model) : Option Model := if mod = [] then none else some mod.dropLast

/-- `KidAtFocus` understands 0 as the parent and 1 as this model; from 2 on are kids. -/
def kidAtFocus (mod : Model) : Nat → Option Model
  | 0 => some ((parent mod).getD mod)
  | 1 => some mod
  | i + 2 => ((kids host mod).getD [])[i]?.map fun name => mod ++ [name]

/-- `NewModel`, which reads every directory on the way. -/
def newModel (path : Text) : Option Model :=
  let mod := resolve [] (slash :: path)
  if ∀ place ∈ mod.inits, (kids host place).isSome then some mod else none

/-! ### Drawing -/

/-- The model each row shows, the row that is inverted, and the model of the title. -/
structure Picture where
  rows : Nat → Option Model
  inverted : Nat
  chosen : Model

variable (t : TextScreen)

/-- The page a focus is on. -/
def page (focus : Nat) : Nat := if focus < 2 then 0 else (focus - 2) / (navLines t - 2)

def slot (focus : Nat) : Nat := if focus < 2 then focus else 2 + (focus - 2) % (navLines t - 2)

/-- The kids that are on the page of a focus, with the kid itself for each line. -/
def onPage (mod : Model) (focus j : Nat) : Option Model :=
  let line := j + page t focus * (navLines t - 2)
  if line < lenKids host mod + 2 then kidAtFocus host mod line else none

/-- The host lets the model be read, and all its kids on the page. -/
def Drawable (mod : Model) (focus : Nat) : Prop :=
  (kids host mod).isSome ∧
    ∀ j < navLines t, 2 ≤ j → ∀ kid ∈ onPage host t mod focus j, (kids host kid).isSome

instance (mod : Model) (focus : Nat) : Decidable (Drawable host t mod focus) :=
  inferInstanceAs (Decidable (_ ∧ _))

/-- `Render`, or a panic of `ReKids`. -/
def render (mod : Model) (focus : Nat) : Option Picture :=
  if Drawable host t mod focus then
    some {
      rows := fun y =>
        if y = HeaderSize then parent mod
        else if y = HeaderSize + 1 then some mod
        else if HeaderSize + 2 ≤ y ∧ y < HeaderSize + navLines t then
          onPage host t mod focus (y - HeaderSize)
        else none
      inverted := slot t focus + HeaderSize
      chosen :=
        if focus = 0 then (parent mod).getD mod
        else if focus = 1 then mod
        else ((((kids host mod).getD [])[focus - 2]?).map fun name => mod ++ [name]).getD mod }
  else none

/-! ### Keys -/

inductive NavKey
  | shiftUp
  | shiftDown
  | up
  | down
  | left
  | right
  | clear
  | menu
  | rejected
  deriving DecidableEq

def up (x : UInt8) : UInt8 := if 97 ≤ x ∧ x ≤ 122 then x - 32 else x

/-- The cases of the `switch`. Besides the arrows there are `WASD` and `KHJL`. -/
def navKey (b : UInt8) : NavKey :=
  match b.toNat with
  | 95 => .shiftUp
  | 91 => .shiftDown
  | 87 | 75 | 94 => .up
  | 83 | 74 | 10 => .down
  | 65 | 72 | 8 => .left
  | 68 | 76 | 9 | 13 => .right
  | 12 => .clear
  | n => if 65 ≤ n ∧ n ≤ 90 ∨ n = 63 then .menu else .rejected

/-- At a key, or after the last one. -/
inductive State
  | shows (mod : Model) (focus : Nat)
  | ended (key : UInt8)
  | panicked

/-- Draw, and wait for a key. -/
def look (mod : Model) (focus : Nat) : State :=
  if (render host t mod focus).isSome then .shows mod focus else .panicked

/-- Subtract one `uint` from another. -/
def uintSub (a b : Nat) : Nat := (a + 2 ^ 64 - b) % 2 ^ 64

/-- The focus after a key that moves it. -/
def moveFocus (mod : Model) (focus : Nat) : NavKey → Nat
  | .shiftUp => if shiftSkip t < focus then focus - shiftSkip t else 0
  | .shiftDown =>
    let limit := lenKids host mod + 2
    if focus < uintSub limit (shiftSkip t) then (focus + shiftSkip t) % 2 ^ 64 else limit - 1
  | .up => focus - 1
  | .down => if focus < lenKids host mod + 2 - 1 then focus + 1 else focus
  | _ => focus

/-- What a menu leaves in `GotoPath`, or that it panics. -/
abbrev TryMenu := Model → Nat → UInt8 → Option Text

variable (tryMenu : TryMenu)

/-- One key in `NavStep`. Where that returns, `Loop` calls it again, with the focus on the
model itself, or ends. -/
def navStep : State → UInt8 → Option State
  | .shows mod focus, key =>
    match navKey (up key) with
    -- `c.Parent != nil` asks for the method, which is there
    | .left =>
      match parent mod with
      | none => some (.ended key)
      | some mod => some (look host t mod 1)
    | .right =>
      match kidAtFocus host mod focus with
      | none => some .panicked
      | some kid => some (look host t kid 1)
    | .clear => some (.ended key)
    | .menu =>
      match tryMenu mod focus key with
      | none => some .panicked
      | some [] => some (look host t mod focus)
      | some path =>
        match newModel host path with
        | none => some .panicked
        | some mod => some (look host t mod 1)
    | move => some (look host t mod (moveFocus host t mod focus move))
  | .ended _, _ | .panicked, _ => none

/-! ### The law -/

/-- The focus is a row, the model it stands for is on the row that is inverted, which is on
the screen, and only the Clear key ends the loop. -/
def Sound : State → Prop
  | .shows mod focus => focus < lenKids host mod + 2 ∧
      ∃ chosen picture, kidAtFocus host mod focus = some chosen ∧
        render host t mod focus = some picture ∧ picture.rows picture.inverted = some chosen ∧
        picture.inverted < t.H
  | .ended key => navKey (up key) = .clear
  | .panicked => False

/-- Where a key should lead: the focus is moved and stays within the rows. -/
def goal (mod : Model) (focus : Nat) : NavKey → Model × Nat
  | .shiftUp => (mod, focus - shiftSkip t)
  | .shiftDown => (mod, min (focus + shiftSkip t) (lenKids host mod + 1))
  | .up => (mod, focus - 1)
  | .down => (mod, min (focus + 1) (lenKids host mod + 1))
  | .left => (mod.dropLast, 1)
  | .right => ((kidAtFocus host mod focus).getD mod, 1)
  | _ => (mod, focus)

/-- SHIFT with Down only where the rows are as many as it skips, no Left at the root, and no
step from there to the row of the parent; and what is drawn next can be read. -/
def Permits : State → UInt8 → Prop
  | .shows mod focus, key =>
    let key := navKey (up key)
    let next := goal host t mod focus key
    (key = .shiftDown → shiftSkip t ≤ lenKids host mod + 2) ∧ (key = .left → mod ≠ []) ∧
      ¬(next.1 = [] ∧ next.2 = 0) ∧ (key = .clear ∨ Drawable host t next.1 next.2)
  | .ended _, _ | .panicked, _ => True

end

instance (host : Host) (t : TextScreen) (state : State) (key : UInt8) :
    Decidable (Permits host t state key) :=
  match state with
  | .shows _ _ => inferInstanceAs (Decidable (_ ∧ _ ∧ _ ∧ _))
  | .ended _ | .panicked => .isTrue trivial

/-! ### Rows -/

section

variable {host : Host} {t : TextScreen} {mod : Model} {focus : Nat}

theorem parent_of_ne (below : mod ≠ []) : parent mod = some mod.dropLast := if_neg below

theorem exists_kidAtFocus (valid : focus < lenKids host mod + 2) :
    ∃ chosen, kidAtFocus host mod focus = some chosen := by
  match focus with
  | 0 => exact ⟨_, rfl⟩
  | 1 => exact ⟨_, rfl⟩
  | i + 2 =>
    have inside : i < ((kids host mod).getD []).length := Nat.lt_of_add_lt_add_right valid
    refine ⟨mod ++ [((kids host mod).getD [])[i]], ?_⟩
    rw [kidAtFocus, List.getElem?_eq_getElem inside, Option.map_some]

theorem two_lt_navLines (t : TextScreen) : 0 < navLines t - 2 ∧ 2 + navLines t < t.H := by
  cases t <;> decide

/-- The row that is inverted is on the screen. -/
theorem slot_lt (t : TextScreen) (focus : Nat) : slot t focus + HeaderSize < t.H := by
  obtain ⟨some, within⟩ := two_lt_navLines t
  have turn := Nat.mod_lt (focus - 2) some
  unfold slot HeaderSize
  split
  · omega
  · omega

/-- The line of a kid, from the line it has on its page. -/
theorem onPage_slot (i : Nat) (valid : i + 2 < lenKids host mod + 2) :
    onPage host t mod (i + 2) (slot t (i + 2)) = kidAtFocus host mod (i + 2) := by
  have line : slot t (i + 2) + page t (i + 2) * (navLines t - 2) = i + 2 := by
    have whole := Nat.mod_add_div i (navLines t - 2)
    rw [slot, if_neg (by omega), page, if_neg (by omega), Nat.add_sub_cancel, Nat.mul_comm]
    omega
  rw [onPage, line]
  exact if_pos valid

/-- The row of a valid focus shows the model the focus stands for, but for the parent of the
root, which has none. -/
theorem rows_inverted {picture : Picture} {chosen : Model}
    (valid : focus < lenKids host mod + 2) (drawn : render host t mod focus = some picture)
    (stands : kidAtFocus host mod focus = some chosen) :
    picture.rows picture.inverted = some chosen ↔ ¬(mod = [] ∧ focus = 0) := by
  unfold render at drawn
  split at drawn
  · obtain rfl := Option.some_inj.mp drawn
    match focus with
    | 0 =>
      show parent mod = some chosen ↔ _
      by_cases root : mod = []
      · refine iff_of_false ?_ fun elsewhere => elsewhere ⟨root, rfl⟩
        rw [parent, if_pos root]
        exact fun none => by cases none
      · refine iff_of_true ?_ fun at_root => root at_root.1
        rw [kidAtFocus, parent_of_ne root] at stands
        exact (parent_of_ne root).trans stands
    | 1 => exact iff_of_true stands fun at_root => by cases at_root.2
    | i + 2 =>
      refine iff_of_true ?_ fun at_root => by cases at_root.2
      obtain ⟨some, within⟩ := two_lt_navLines t
      have turn := Nat.mod_lt i some
      have place : slot t (i + 2) = 2 + i % (navLines t - 2) := by
        rw [slot, if_neg (by omega), Nat.add_sub_cancel]
      dsimp only
      rw [if_neg (by unfold HeaderSize; omega), if_neg (by unfold HeaderSize; omega),
        if_pos (by unfold HeaderSize; omega), Nat.add_sub_cancel, onPage_slot i valid, stands]
  · cases drawn

/-- The title is that of the model the focus stands for. -/
theorem title {picture : Picture} {chosen : Model} (drawn : render host t mod focus = some picture)
    (stands : kidAtFocus host mod focus = some chosen) : picture.chosen = chosen := by
  unfold render at drawn
  split at drawn
  · obtain rfl := Option.some_inj.mp drawn
    match focus with
    | 0 => exact Option.some_inj.mp stands
    | 1 => exact Option.some_inj.mp stands
    | i + 2 =>
      rw [kidAtFocus] at stands
      show ((((kids host mod).getD [])[i]?).map fun name => mod ++ [name]).getD mod = chosen
      rw [stands]
      rfl
  · cases drawn

/-- What is drawn is sound just when the focus is a row, and not that of the root's parent. -/
theorem sound_look_iff : Sound host t (look host t mod focus) ↔
    Drawable host t mod focus ∧ focus < lenKids host mod + 2 ∧ ¬(mod = [] ∧ focus = 0) := by
  by_cases drawable : Drawable host t mod focus
  · obtain ⟨picture, drawn⟩ : ∃ picture, render host t mod focus = some picture := by
      unfold render
      rw [if_pos drawable]
      exact ⟨_, rfl⟩
    have inverted : picture.inverted = slot t focus + HeaderSize := by
      unfold render at drawn
      rw [if_pos drawable] at drawn
      exact (Option.some_inj.mp drawn) ▸ rfl
    rw [look, drawn, Option.isSome_some, if_pos rfl]
    constructor
    · rintro ⟨valid, chosen, picture', stands, drawn', row, -⟩
      exact ⟨drawable, valid, (rows_inverted valid drawn' stands).mp row⟩
    · rintro ⟨-, valid, elsewhere⟩
      obtain ⟨chosen, stands⟩ := exists_kidAtFocus valid
      refine ⟨valid, chosen, picture, stands, drawn,
        (rows_inverted valid drawn stands).mpr elsewhere, ?_⟩
      rw [inverted]
      exact slot_lt t focus
  · have undrawn : render host t mod focus = none := by
      unfold render
      rw [if_neg drawable]
    rw [look, undrawn]
    exact iff_of_false id fun sound => drawable sound.1

theorem drawable_of_sound (sound : Sound host t (.shows mod focus)) : Drawable host t mod focus := by
  obtain ⟨-, chosen, picture, -, drawn, -⟩ := sound
  unfold render at drawn
  split at drawn
  · rename_i drawable
    exact drawable
  · cases drawn

end

/-! ### Keys -/

section

variable {host : Host} {t : TextScreen} {mod : Model} {focus : Nat} {tryMenu : TryMenu}

/-- No directory has more entries than the disk. -/
theorem lenKids_le (host : Host) (mod : Model) : lenKids host mod ≤ host.disk.entries.length := by
  unfold lenKids kids
  cases path : unixPath host mod with
  | none => exact Nat.zero_le _
  | some uPath =>
    rw [Option.bind_some]
    cases found : host.disk.find host.current uPath with
    | none => exact Nat.zero_le _
    | some place =>
      rw [Option.bind_some]
      split
      · exact Nat.zero_le _
      · unfold Disk.readDir
        split
        · refine (List.length_filter_le _ _).trans ?_
          rw [List.length_mergeSort, List.length_map]
          exact List.length_filter_le _ _
        · exact Nat.zero_le _
      · exact Nat.zero_le _

/-- SHIFT with Down leads to the goal where the rows are enough, and beyond the rows elsewhere. -/
theorem moveFocus_shiftDown (fits : lenKids host mod + 2 < 2 ^ 64)
    (valid : focus < lenKids host mod + 2) :
    (shiftSkip t ≤ lenKids host mod + 2 → moveFocus host t mod focus .shiftDown =
      min (focus + shiftSkip t) (lenKids host mod + 1)) ∧
    (lenKids host mod + 2 < shiftSkip t →
      lenKids host mod + 2 ≤ moveFocus host t mod focus .shiftDown) := by
  have few : shiftSkip t < 16 := by cases t <;> decide
  show (_ → (if _ < uintSub _ _ then _ else _) = _) ∧ (_ → _ ≤ if _ < uintSub _ _ then _ else _)
  unfold uintSub
  constructor
  · intro enough
    split <;> omega
  · intro short
    rw [if_pos (by omega)]
    omega

/-- A move is sound just when it leads to the goal and that is sound. -/
theorem sound_navStep_iff (fits : lenKids host mod + 2 < 2 ^ 64) {key : UInt8} {next : State}
    (sound : Sound host t (.shows mod focus)) (plain : navKey (up key) ≠ .menu)
    (taken : navStep host t tryMenu (.shows mod focus) key = some next) :
    Sound host t next ↔ Permits host t (.shows mod focus) key := by
  have valid := sound.1
  have drawable := drawable_of_sound sound
  have elsewhere : ¬(mod = [] ∧ focus = 0) := by
    have drawn : look host t mod focus = .shows mod focus := by
      unfold look render
      rw [if_pos drawable]
      rfl
    exact (sound_look_iff.mp (drawn ▸ sound)).2.2
  unfold navStep at taken
  unfold Permits
  dsimp only at taken ⊢
  cases move : navKey (up key) with
  | shiftUp =>
    rw [move] at taken
    obtain rfl := Option.some_inj.mp taken
    have moved : moveFocus host t mod focus .shiftUp = focus - shiftSkip t := by
      show (if shiftSkip t < focus then focus - shiftSkip t else 0) = _
      split <;> omega
    rw [moved, sound_look_iff]
    simp only [goal, reduceCtorEq, false_implies, true_and, false_or]
    exact ⟨fun ⟨drawable, _, elsewhere⟩ => ⟨elsewhere, drawable⟩,
      fun ⟨elsewhere, drawable⟩ => ⟨drawable, by omega, elsewhere⟩⟩
  | shiftDown =>
    rw [move] at taken
    obtain rfl := Option.some_inj.mp taken
    obtain ⟨enough, short⟩ := moveFocus_shiftDown (t := t) fits valid
    rw [sound_look_iff]
    simp only [goal, reduceCtorEq, false_implies, true_and, false_or, true_implies]
    by_cases rows : shiftSkip t ≤ lenKids host mod + 2
    · rw [enough rows]
      exact ⟨fun ⟨drawable, _, elsewhere⟩ => ⟨rows, elsewhere, drawable⟩,
        fun ⟨_, elsewhere, drawable⟩ => ⟨drawable, by omega, elsewhere⟩⟩
    · have outside := short (Nat.not_le.mp rows)
      exact iff_of_false (fun inside => absurd inside.2.1 (Nat.not_lt.mpr outside))
        fun permitted => rows permitted.1
  | up =>
    rw [move] at taken
    obtain rfl := Option.some_inj.mp taken
    rw [sound_look_iff]
    simp only [goal, moveFocus, reduceCtorEq, false_implies, true_and, false_or]
    exact ⟨fun ⟨drawable, _, elsewhere⟩ => ⟨elsewhere, drawable⟩,
      fun ⟨elsewhere, drawable⟩ => ⟨drawable, by omega, elsewhere⟩⟩
  | down =>
    rw [move] at taken
    obtain rfl := Option.some_inj.mp taken
    have moved : moveFocus host t mod focus .down = min (focus + 1) (lenKids host mod + 1) := by
      show (if focus < lenKids host mod + 2 - 1 then focus + 1 else focus) = _
      split <;> omega
    rw [moved, sound_look_iff]
    simp only [goal, reduceCtorEq, false_implies, true_and, false_or]
    exact ⟨fun ⟨drawable, _, elsewhere⟩ => ⟨elsewhere, drawable⟩,
      fun ⟨elsewhere, drawable⟩ => ⟨drawable, by omega, elsewhere⟩⟩
  | left =>
    rw [move] at taken
    simp only [goal, reduceCtorEq, false_implies, true_and, false_or, true_implies, and_false,
      not_false_eq_true, Nat.one_ne_zero]
    by_cases root : mod = []
    · rw [parent, if_pos root] at taken
      obtain rfl := Option.some_inj.mp taken
      refine iff_of_false (fun clear => ?_) fun permitted => permitted.1 root
      rw [Sound, move] at clear
      cases clear
    · rw [parent_of_ne root] at taken
      obtain rfl := Option.some_inj.mp taken
      rw [sound_look_iff]
      exact ⟨fun ⟨drawable, _, _⟩ => ⟨root, drawable⟩,
        fun ⟨_, drawable⟩ => ⟨drawable, by omega, fun at_root => by cases at_root.2⟩⟩
  | right =>
    rw [move] at taken
    obtain ⟨kid, stands⟩ := exists_kidAtFocus valid
    rw [stands] at taken
    obtain rfl := Option.some_inj.mp taken
    rw [sound_look_iff]
    simp only [goal, stands, Option.getD_some, reduceCtorEq, false_implies, true_and, false_or,
      and_false, not_false_eq_true, Nat.one_ne_zero]
    exact ⟨fun inside => inside.1, fun drawable => ⟨drawable, by omega, trivial⟩⟩
  | clear =>
    rw [move] at taken
    obtain rfl := Option.some_inj.mp taken
    simp only [goal, reduceCtorEq, false_implies, true_and, true_or, and_true]
    exact iff_of_true move elsewhere
  | menu => exact absurd move plain
  | rejected =>
    rw [move] at taken
    obtain rfl := Option.some_inj.mp taken
    rw [sound_look_iff]
    simp only [goal, moveFocus, reduceCtorEq, false_implies, true_and, false_or]
    exact iff_of_true ⟨drawable, valid, elsewhere⟩ ⟨elsewhere, drawable⟩

/-- At every key the focus is a row and the row shows the model it stands for, and only the Clear
key ends the loop, just when the first picture can be drawn and every key is one that the
condition permits. -/
theorem sound_iff (host : Host) (t : TextScreen) (tryMenu : TryMenu)
    (fits : host.disk.entries.length + 2 < 2 ^ 64) (mod : Model) (keys : List UInt8)
    (plain : ∀ key ∈ keys, navKey (up key) ≠ .menu) :
    (∀ first, first <+: keys → ∀ state,
        run (navStep host t tryMenu) (look host t mod 1) first = some state → Sound host t state) ↔
      Drawable host t mod 1 ∧
        Meets (navStep host t tryMenu) (Permits host t) (look host t mod 1) keys := by
  have small (mod : Model) : lenKids host mod + 2 < 2 ^ 64 :=
    Nat.lt_of_le_of_lt (Nat.add_le_add_right (lenKids_le host mod) 2) fits
  have start : Sound host t (look host t mod 1) ↔ Drawable host t mod 1 := by
    rw [sound_look_iff]
    exact ⟨fun inside => inside.1,
      fun drawable => ⟨drawable, by omega, fun at_root => by cases at_root.2⟩⟩
  have exact_step : ∀ state key next, Sound host t state → navKey (up key) ≠ .menu →
      navStep host t tryMenu state key = some next →
        (Sound host t next ↔ Permits host t state key) := by
    intro state key next sound plain taken
    cases state with
    | shows mod focus => exact sound_navStep_iff (small mod) sound plain taken
    | ended | panicked => cases taken
  have stuck : ∀ state key, Sound host t state → navKey (up key) ≠ .menu →
      navStep host t tryMenu state key = none → Permits host t state key := by
    intro state key sound plain none
    cases state with
    | shows mod focus =>
      exfalso
      unfold navStep at none
      dsimp only at none
      split at none
      · split at none <;> cases none
      · split at none <;> cases none
      · cases none
      · exact absurd ‹_› plain
      · cases none
    | ended | panicked => trivial
  by_cases drawable : Drawable host t mod 1
  · have exact_run := forall_reached_iff_meets (Sound host t) (fun key => navKey (up key) ≠ .menu)
      exact_step stuck (start.mpr drawable) plain
    rw [exact_run]
    exact (and_iff_right drawable).symm
  · refine iff_of_false (fun all => drawable ?_) fun both => drawable both.1
    exact start.mp (all [] List.nil_prefix _ rfl)

end

/-- A navigator whose root `/nav` has these files. -/
def navHost (files : List Entry) : Host where
  navRoot := [47, 110, 97, 118]
  current := []
  disk := {
    entries := ⟨[], [110, 97, 118], by decide, .dir⟩ :: files
    made := fun _ => 1
    content := fun _ => []
    permits := fun _ => true }

/-- No menu leads anywhere. -/
def noMenu : TryMenu := fun _ _ _ => some []

/-- Down to the one file of the root, on the way to going up again. -/
theorem sound_downUp :
    run (navStep (navHost [⟨[[110, 97, 118]], [97], by decide, .file⟩]) .text40 noMenu)
        (look (navHost [⟨[[110, 97, 118]], [97], by decide, .file⟩]) .text40 [] 1) [10] =
          some (.shows [] 2) ∧
      Sound (navHost [⟨[[110, 97, 118]], [97], by decide, .file⟩]) .text40 (.shows [] 2) := by
  have shown (focus : Nat) (few : focus < 3) :
      look (navHost [⟨[[110, 97, 118]], [97], by decide, .file⟩]) .text40 [] focus =
        .shows [] focus := by
    have drawn : ∀ focus < 3, (render (navHost [⟨[[110, 97, 118]], [97], by decide, .file⟩]) .text40
        [] focus).isSome = true := by decide +kernel
    rw [look, if_pos (drawn focus few)]
  have down : navStep (navHost [⟨[[110, 97, 118]], [97], by decide, .file⟩]) .text40 noMenu
      (.shows [] 1) 10 = some (.shows [] 2) := by
    rw [← shown 2 (by decide)]
    have moved : moveFocus (navHost [⟨[[110, 97, 118]], [97], by decide, .file⟩]) .text40 [] 1
        .down = 2 := by decide +kernel
    show some (look _ .text40 [] (moveFocus _ .text40 [] 1 .down)) = _
    rw [moved]
  have reached : run (navStep (navHost [⟨[[110, 97, 118]], [97], by decide, .file⟩]) .text40 noMenu)
      (look (navHost [⟨[[110, 97, 118]], [97], by decide, .file⟩]) .text40 [] 1) [10] =
        some (.shows [] 2) := by
    rw [shown 1 (by decide)]
    exact run_cons_eq_some.mpr ⟨_, down, rfl⟩
  refine ⟨reached, (sound_iff _ .text40 noMenu (by decide) [] [10, 94] (by decide +kernel)).mpr
    ⟨?_, ?_⟩ [10] ⟨[94], rfl⟩ _ reached⟩
  · decide +kernel
  · rw [shown 1 (by decide)]
    refine (meets_cons_of_taken down).mpr ⟨by decide +kernel, by decide +kernel, ?_⟩
    exact fun _ _ => trivial

/-- In an empty root, SHIFT with Down moves the focus to row 16 of two; and there Left ends the
loop. -/
theorem not_sound_empty :
    (∃ state, run (navStep (navHost []) .text40 noMenu) (look (navHost []) .text40 [] 1) [91] =
        some state ∧ ¬Sound (navHost []) .text40 state) ∧
      ∃ state, run (navStep (navHost []) .text40 noMenu) (look (navHost []) .text40 [] 1) [8] =
        some state ∧ ¬Sound (navHost []) .text40 state := by
  have start : look (navHost []) .text40 [] 1 = .shows [] 1 := by
    rw [look, if_pos (by decide +kernel)]
  have beyond : look (navHost []) .text40 [] 16 = .shows [] 16 := by
    rw [look, if_pos (by decide +kernel)]
  rw [start]
  refine ⟨⟨.shows [] 16, ?_, fun sound => absurd sound.1 (by decide +kernel)⟩, ⟨.ended 8, rfl, ?_⟩⟩
  · have moved : moveFocus (navHost []) .text40 [] 1 .shiftDown = 16 := by decide +kernel
    show some (look (navHost []) .text40 [] (moveFocus (navHost []) .text40 [] 1 .shiftDown)) = _
    rw [moved, beyond]
  · show ¬navKey (up 8) = .clear
    decide

end Frobio.Navigator
