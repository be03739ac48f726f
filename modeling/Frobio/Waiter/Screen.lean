/-
This file models the text screen of a session, `XTextScreen` of `lemma/session.go`: the
screen RAM that is not yet sent, and the cursor.

`Clear` blanks the screen and leaves the cursor where it was. So what is printed next
begins at the top left corner just when the cursor was there already.
-/

import Frobio.Lib.Loop
import Frobio.Lib.Run
import Frobio.Lib.Utf8

namespace Frobio.Waiter.Screen

open Loop Run SlashPath Utf8

/-! ### The screen -/

structure XTextScreen where
  B : Text
  W : Nat
  H : Nat
  P : Nat
  Majuscule : Bool
  deriving DecidableEq

def newTextScreen (w h : Nat) : XTextScreen where
  B := List.replicate (w * h) 0x20
  W := w
  H := h
  P := 0
  Majuscule := true

/-- The screen of `NewSession`. -/
def sessionScreen : XTextScreen := newTextScreen 32 16

namespace XTextScreen

/-- `t.B[i] = b`; `none` is an access out of range. -/
def assign (t : XTextScreen) (i : Nat) (b : UInt8) : Option XTextScreen :=
  if i < t.B.length then some { t with B := t.B.set i b } else none

def clear (t : XTextScreen) : XTextScreen := { t with B := List.replicate (t.W * t.H) 0x20 }

/-- A round of the loop that scrolls. -/
def scroll (t : XTextScreen) : Option XTextScreen :=
  (forLoop (fun t i => (t.B[i]?).bind fun b => t.assign (i - t.W) b) t.W (t.W * t.H) t).bind
    fun t => (forLoop (fun t i => t.assign i 0x20) (t.W * (t.H - 1)) (t.W * t.H) t).map
      fun t => { t with P := t.P - t.W }

/-- In `PutChar`: delete the previous character. -/
def delete (t : XTextScreen) (ch : UInt8) : Option XTextScreen :=
  if ch = 8 ∧ 0 < t.P then (t.assign t.P 0x20).map fun t => { t with P := t.P - 1 } else some t

/-- In `PutChar`: store a character that shows. -/
def print (t : XTextScreen) (ch : UInt8) : Option XTextScreen :=
  if 0x20 ≤ ch ∧ ch ≤ 0x7E then
    let d := if t.Majuscule = true ∧ 64 ≤ ch ∧ ch ≤ 127 then ch &&& 31 else ch
    (t.assign t.P d).bind fun t =>
      let t := { t with P := t.P + 1 }
      whileLoop (fun t => t.W * t.H ≤ t.P) scroll t.P t
  else some t

/-- `PutChar` of what does not end the line. -/
def putPlain (t : XTextScreen) (ch : UInt8) : Option XTextScreen :=
  if ch = 1 ∧ 0 < t.P then (t.B[t.P - 1]?).bind fun b => t.assign (t.P - 1) (b ||| 0x40)
  else
    (t.delete ch).bind fun t => (t.print ch).bind fun t => t.assign t.P 0xA3

def putChar (t : XTextScreen) (ch : UInt8) : Option XTextScreen :=
  if ch = 10 ∨ ch = 13 then
    (t.putPlain 0x20).bind fun t =>
      whileLoop (fun t => t.P &&& (t.W - 1) ≠ 0) (fun t => t.putPlain 0x20) t.W t
  else t.putPlain ch

def putStr (t : XTextScreen) (s : Text) : Option XTextScreen :=
  (runes s).foldlM (fun t r => t.putChar (UInt8.ofNat r.1)) t

end XTextScreen

/-! ### Scrolling -/

/-- The screen of a session. -/
structure Sized (t : XTextScreen) : Prop where
  w : t.W = 32
  h : t.H = 16
  length : t.B.length = 512
  majuscule : t.Majuscule = true

section

variable {t : XTextScreen}

theorem assign_of_lt {i : Nat} (inside : i < t.B.length) (b : UInt8) :
    t.assign i b = some { t with B := t.B.set i b } := if_pos inside

theorem Sized.with (sized : Sized t) {cells : Text} (length : cells.length = 512) (p : Nat) :
    Sized { t with B := cells, P := p } := ⟨sized.w, sized.h, length, sized.majuscule⟩

/-- The loop that moves the bytes up by a row has come to `i`. -/
def Moved (t : XTextScreen) (i : Nat) (u : XTextScreen) : Prop :=
  ∃ cells : Text, u = { t with B := cells } ∧ cells.length = 512 ∧
    ∀ j, cells[j]? = if j + 32 < i then t.B[j + 32]? else t.B[j]?

theorem moved_round (sized : Sized t) {i : Nat} {u : XTextScreen} (after : 32 ≤ i) (before : i < 512)
    (moved : Moved t i u) :
    ∃ v, (u.B[i]?).bind (fun b => u.assign (i - u.W) b) = some v ∧ Moved t (i + 1) v := by
  obtain ⟨cells, rfl, length, read⟩ := moved
  obtain ⟨b, there⟩ : ∃ b, t.B[i]? = some b :=
    ⟨_, List.getElem?_eq_getElem (by rw [sized.length]; exact before)⟩
  have here : cells[i]? = some b := by
    rw [read, if_neg (by omega)]
    exact there
  refine ⟨{ t with B := cells.set (i - 32) b }, ?_, cells.set (i - 32) b, rfl, ?_, fun j => ?_⟩
  · show (cells[i]?).bind _ = _
    rw [here, Option.bind_some, sized.w, assign_of_lt (by rw [length]; omega)]
  · rw [List.length_set]
    exact length
  · rw [List.getElem?_set, read]
    by_cases same : i - 32 = j
    · rw [if_pos same, if_pos (by omega), if_pos (by omega), ← there]
      congr 1
      omega
    · rw [if_neg same]
      by_cases earlier : j + 32 < i
      · rw [if_pos earlier, if_pos (by omega)]
      · rw [if_neg earlier, if_neg (by omega)]

/-- The loop that blanks the last row has come to `i`. -/
def Blanked (t : XTextScreen) (i : Nat) (u : XTextScreen) : Prop :=
  ∃ cells : Text, u = { t with B := cells } ∧ cells.length = 512 ∧
    ∀ j, cells[j]? = if 480 ≤ j ∧ j < i then some 0x20 else t.B[j]?

theorem blanked_round {i : Nat} {u : XTextScreen} (after : 480 ≤ i) (before : i < 512)
    (blanked : Blanked t i u) : ∃ v, u.assign i 0x20 = some v ∧ Blanked t (i + 1) v := by
  obtain ⟨cells, rfl, length, read⟩ := blanked
  refine ⟨{ t with B := cells.set i 0x20 }, assign_of_lt (by rw [length]; exact before) _,
    cells.set i 0x20, rfl, ?_, fun j => ?_⟩
  · rw [List.length_set]
    exact length
  · rw [List.getElem?_set, read]
    by_cases same : i = j
    · rw [if_pos same, if_pos (by omega), if_pos (by omega)]
    · rw [if_neg same]
      by_cases earlier : 480 ≤ j ∧ j < i
      · rw [if_pos earlier, if_pos (by omega)]
      · rw [if_neg earlier, if_neg (by omega)]

/-- Every row moves up by one, and the last is blank. -/
theorem scroll_eq (sized : Sized t) : t.scroll = some { t with
    B := t.B.drop 32 ++ List.replicate 32 0x20
    P := t.P - 32 } := by
  obtain ⟨moved, up, cells, rfl, length, read⟩ : ∃ u,
      forLoop (fun t i => (t.B[i]?).bind fun b => t.assign (i - t.W) b) 32 512 t = some u ∧
        Moved t 512 u :=
    forLoop_invariant (Moved t) (by omega) (fun i u after before => moved_round sized after before)
      ⟨t.B, rfl, sized.length, fun j => by
        by_cases earlier : j + 32 < 32
        · omega
        · rw [if_neg earlier]⟩
  obtain ⟨blanked, blank, cells', rfl, length', read'⟩ : ∃ u,
      forLoop (fun t i => t.assign i 0x20) 480 512 { t with B := cells } = some u ∧
        Blanked { t with B := cells } 512 u :=
    forLoop_invariant (Blanked { t with B := cells }) (by omega)
      (fun i u after before => blanked_round after before)
      ⟨cells, rfl, length, fun j => by
        by_cases earlier : 480 ≤ j ∧ j < 480
        · omega
        · rw [if_neg earlier]⟩
  have same : cells' = t.B.drop 32 ++ List.replicate 32 0x20 := by
    refine List.ext_getElem? fun j => ?_
    rw [read']
    dsimp only
    rw [read, List.getElem?_append, List.length_drop, sized.length, List.getElem?_drop,
      List.getElem?_replicate]
    by_cases last : 480 ≤ j ∧ j < 512
    · rw [if_pos last, if_neg (by omega), if_pos (by omega)]
    · rw [if_neg last]
      by_cases early : j < 480
      · rw [if_pos (by omega), if_pos (by omega), Nat.add_comm]
      · rw [if_neg (by omega), if_neg (by omega), if_neg (by omega)]
        exact List.getElem?_eq_none (by rw [sized.length]; omega)
  have stop : t.W * t.H = 512 := by rw [sized.w, sized.h]
  have last : t.W * (t.H - 1) = 480 := by rw [sized.w, sized.h]
  rw [XTextScreen.scroll, stop, sized.w, up, Option.bind_some]
  dsimp only
  rw [stop, last, blank, Option.map_some, same]
  dsimp only
  rw [sized.w]

/-! ### Characters -/

/-- The screen has its size, and the cursor is on it. -/
structure OnScreen (t : XTextScreen) : Prop extends Sized t where
  p : t.P < 512

/-- What is stored for a character. -/
def glyph (ch : UInt8) : UInt8 := if 64 ≤ ch then ch &&& 31 else ch

/-- The screen with a character printed at the cursor. -/
def printed (t : XTextScreen) (d : UInt8) : XTextScreen :=
  if t.P < 511 then { t with B := (t.B.set t.P d).set (t.P + 1) 0xA3, P := t.P + 1 }
  else { t with
    B := ((t.B.set t.P d).drop 32 ++ List.replicate 32 0x20).set 480 0xA3
    P := 480 }

theorem print_of_visible (on : OnScreen t) {ch : UInt8} (low : 0x20 ≤ ch) (high : ch ≤ 0x7E) :
    t.print ch = some (if t.P < 511 then { t with B := t.B.set t.P (glyph ch), P := t.P + 1 }
      else { t with
        B := (t.B.set t.P (glyph ch)).drop 32 ++ List.replicate 32 0x20
        P := 480 }) := by
  have below : ch ≤ 127 := UInt8.le_trans high (by decide)
  have stored : (if t.Majuscule = true ∧ 64 ≤ ch ∧ ch ≤ 127 then ch &&& 31 else ch) = glyph ch := by
    rw [glyph]
    by_cases capital : 64 ≤ ch
    · rw [if_pos ⟨on.majuscule, capital, below⟩, if_pos capital]
    · rw [if_neg (fun all => capital all.2.1), if_neg capital]
  have inside : t.P < t.B.length := by
    rw [on.length]
    exact on.p
  have sized : Sized { t with B := t.B.set t.P (glyph ch), P := t.P + 1 } :=
    on.toSized.with (by rw [List.length_set, on.length]) _
  rw [XTextScreen.print, if_pos ⟨low, high⟩, stored]
  dsimp only
  rw [assign_of_lt inside, Option.bind_some]
  dsimp only
  generalize written : ({ t with B := t.B.set t.P (glyph ch), P := t.P + 1 } : XTextScreen) = u
  rw [written] at sized
  have stop : u.W * u.H = 512 := by rw [sized.w, sized.h]
  have p : u.P = t.P + 1 := by rw [← written]
  have := on.p
  by_cases more : t.P < 511
  · rw [if_pos more, whileLoop_of_not]
    exact decide_eq_false (by omega)
  · have full : decide (u.W * u.H ≤ u.P) = true := decide_eq_true (by omega)
    have rest : decide (u.W * u.H ≤ u.P - 32) = false := decide_eq_false (by omega)
    have home : u.P - 32 = 480 := by omega
    rw [if_neg more, whileLoop, full, if_pos rfl, scroll_eq sized, Option.bind_some]
    refine (whileLoop_of_not _ ?_).trans ?_
    · exact rest
    · rw [home, ← written]

/-- A character that shows is stored at the cursor, and the screen scrolls when that was its end. -/
theorem putPlain_of_visible (on : OnScreen t) {ch : UInt8} (low : 0x20 ≤ ch) (high : ch ≤ 0x7E) :
    t.putPlain ch = some (printed t (glyph ch)) := by
  have notOne : ¬(ch = 1 ∧ 0 < t.P) := fun both => absurd (both.1 ▸ low) (by decide)
  have notEight : ¬(ch = 8 ∧ 0 < t.P) := fun both => absurd (both.1 ▸ low) (by decide)
  rw [XTextScreen.putPlain, if_neg notOne, XTextScreen.delete, if_neg notEight, Option.bind_some,
    print_of_visible on low high, Option.bind_some, printed]
  have := on.p
  split
  · refine assign_of_lt ?_ _
    dsimp only
    rw [List.length_set, on.length]
    omega
  · refine assign_of_lt ?_ _
    dsimp only
    rw [List.length_append, List.length_drop, List.length_set, on.length, List.length_replicate]
    omega

theorem OnScreen.printed (on : OnScreen t) (d : UInt8) : OnScreen (printed t d) := by
  have := on.p
  rw [Screen.printed]
  split
  · refine ⟨⟨on.w, on.h, ?_, on.majuscule⟩, ?_⟩
    · rw [List.length_set, List.length_set, on.length]
    · dsimp only
      omega
  · refine ⟨⟨on.w, on.h, ?_, on.majuscule⟩, Nat.lt_of_sub_pos (Nat.zero_lt_succ 31)⟩
    rw [List.length_set, List.length_append, List.length_drop, List.length_set, on.length,
      List.length_replicate]

/-- No access is out of range, and the cursor stays on the screen. -/
theorem exists_putPlain (on : OnScreen t) (ch : UInt8) :
    ∃ u, t.putPlain ch = some u ∧ OnScreen u := by
  have inside : t.P < t.B.length := by
    rw [on.length]
    exact on.p
  by_cases visible : 0x20 ≤ ch ∧ ch ≤ 0x7E
  · exact ⟨_, putPlain_of_visible on visible.1 visible.2, on.printed _⟩
  · rw [XTextScreen.putPlain]
    by_cases highlight : ch = 1 ∧ 0 < t.P
    · have before : t.P - 1 < t.B.length := by omega
      rw [if_pos highlight, List.getElem?_eq_getElem before, Option.bind_some, assign_of_lt before]
      exact ⟨_, rfl, ⟨⟨on.w, on.h, by rw [List.length_set, on.length], on.majuscule⟩, on.p⟩⟩
    · rw [if_neg highlight, XTextScreen.delete]
      have cursor : ∀ u : XTextScreen, OnScreen u →
          ∃ v, ((u.print ch).bind fun t => t.assign t.P 0xA3) = some v ∧ OnScreen v := by
        intro u on'
        rw [XTextScreen.print, if_neg visible, Option.bind_some, assign_of_lt]
        · exact ⟨_, rfl, ⟨⟨on'.w, on'.h, by rw [List.length_set, on'.length], on'.majuscule⟩, on'.p⟩⟩
        · rw [on'.length]
          exact on'.p
      by_cases backspace : ch = 8 ∧ 0 < t.P
      · rw [if_pos backspace, assign_of_lt inside, Option.map_some, Option.bind_some]
        refine cursor _ ⟨⟨on.w, on.h, by rw [List.length_set, on.length], on.majuscule⟩, ?_⟩
        exact Nat.lt_of_le_of_lt (Nat.sub_le _ _) on.p
      · rw [if_neg backspace, Option.bind_some]
        exact cursor t on

theorem and_31 (p : Nat) : p &&& (32 - 1) = p % 32 := Nat.and_two_pow_sub_one_eq_mod p 5

/-- The first column of the next row; of the last row, when that scrolls. -/
def nextRow (p : Nat) : Nat := min (32 * (p / 32 + 1)) 480

theorem printed_p (t : XTextScreen) (d : UInt8) :
    (printed t d).P = if t.P < 511 then t.P + 1 else 480 := by
  rw [printed]
  split
  · rfl
  · rfl

/-- The loop of spaces, that began in this row, is still in it, or at the next. -/
structure Spacing (p : Nat) (u : XTextScreen) : Prop where
  on : OnScreen u
  row : u.P / 32 = p / 32 ∧ u.P % 32 ≠ 0 ∨ u.P = nextRow p

/-- What is left of the row. -/
def spacesLeft (u : XTextScreen) : Nat := (32 - u.P % 32) % 32

theorem spacing_printed {p : Nat} (on : OnScreen t) (row : t.P / 32 = p / 32) (d : UInt8) :
    Spacing p (printed t d) ∧ (t.P % 32 ≠ 0 → spacesLeft (printed t d) < spacesLeft t) := by
  have := on.p
  have next := printed_p t d
  rw [spacesLeft, spacesLeft, next]
  refine ⟨⟨on.printed d, ?_⟩, fun inside => ?_⟩
  · rw [next, nextRow]
    split <;> omega
  · split <;> omega

/-- The end of a line takes the cursor to the first column of the next row. -/
theorem exists_newline (on : OnScreen t) {ch : UInt8} (ends : ch = 10 ∨ ch = 13) :
    ∃ u, t.putChar ch = some u ∧ OnScreen u ∧ u.P = nextRow t.P := by
  have first := (spacing_printed on rfl (glyph 0x20)).1
  rw [XTextScreen.putChar, if_pos ends, putPlain_of_visible on (by decide) (by decide),
    Option.bind_some, first.on.w]
  have left : spacesLeft (printed t (glyph 0x20)) ≤ 32 :=
    Nat.le_of_lt (Nat.mod_lt _ (Nat.zero_lt_succ 31))
  have column : ∀ u, Spacing t.P u → (u.P &&& (u.W - 1)) = u.P % 32 := by
    intro u spacing
    rw [spacing.on.w, and_31]
  have rounds : ∀ u : XTextScreen, decide (u.P &&& (u.W - 1) ≠ 0) = true → Spacing t.P u →
      ∃ v, u.putPlain 0x20 = some v ∧ Spacing t.P v ∧ spacesLeft v < spacesLeft u := by
    intro u goes spacing
    have inside := of_decide_eq_true goes
    rw [column u spacing] at inside
    have row : u.P / 32 = t.P / 32 := by
      refine (spacing.row.resolve_right fun there => ?_).1
      rw [there, nextRow] at inside
      omega
    have next := spacing_printed spacing.on row (glyph 0x20)
    exact ⟨_, putPlain_of_visible spacing.on (by decide) (by decide), next.1, next.2 inside⟩
  obtain ⟨u, reached, spacing, done⟩ :=
    whileLoop_invariant (Spacing t.P) spacesLeft rounds first left
  refine ⟨u, reached, spacing.on, spacing.row.resolve_left fun wrong => ?_⟩
  have ended := of_decide_eq_false done
  rw [column u spacing, not_not] at ended
  exact wrong.2 ended

theorem exists_putChar (on : OnScreen t) (ch : UInt8) : ∃ u, t.putChar ch = some u ∧ OnScreen u := by
  by_cases ends : ch = 10 ∨ ch = 13
  · obtain ⟨u, put, on', -⟩ := exists_newline on ends
    exact ⟨u, put, on'⟩
  · rw [XTextScreen.putChar, if_neg ends]
    exact exists_putPlain on ch

theorem exists_putStr (on : OnScreen t) (s : Text) : ∃ u, t.putStr s = some u ∧ OnScreen u := by
  rw [XTextScreen.putStr]
  generalize runes s = characters
  induction characters generalizing t with
  | nil => exact ⟨t, rfl, on⟩
  | cons r rest inductionHypothesis =>
    obtain ⟨u, put, on'⟩ := exists_putChar on (UInt8.ofNat r.1)
    rw [List.foldlM_cons, put]
    exact inductionHypothesis on'

/-! ### Runs -/

inductive Action
  | clear
  | putStr (s : Text)

def step (t : XTextScreen) : Action → Option XTextScreen
  | .clear => some t.clear
  | .putStr s => t.putStr s

theorem onScreen_clear (on : OnScreen t) : OnScreen t.clear := by
  refine ⟨⟨on.w, on.h, ?_, on.majuscule⟩, on.p⟩
  rw [XTextScreen.clear, List.length_replicate, on.w, on.h]

theorem exists_step (on : OnScreen t) (action : Action) : ∃ u, step t action = some u ∧ OnScreen u := by
  cases action with
  | clear => exact ⟨_, rfl, onScreen_clear on⟩
  | putStr s => exact exists_putStr on s

theorem onScreen_sessionScreen : OnScreen sessionScreen :=
  ⟨⟨rfl, rfl, List.length_replicate, rfl⟩, Nat.zero_lt_succ 511⟩

theorem exists_run (on : OnScreen t) (actions : List Action) :
    ∃ u, run step t actions = some u ∧ OnScreen u := by
  induction actions generalizing t with
  | nil => exact ⟨t, rfl, on⟩
  | cons action rest inductionHypothesis =>
    obtain ⟨u, stepped, on'⟩ := exists_step on action
    obtain ⟨v, reached, last⟩ := inductionHypothesis on'
    exact ⟨v, run_cons_eq_some.mpr ⟨u, stepped, reached⟩, last⟩

/-! ### The law -/

def row (t : XTextScreen) (r : Nat) : Text := (t.B.drop (32 * r)).take 32

/-- What is seen of a screen. -/
def shown (actions : List Action) : Option Text := (run step sessionScreen actions).map (·.B)

/-- The screen at any time: no access is out of range and the cursor is on it, the end of a line
takes it to the next row, and scrolling moves every row up by one and blanks the last, where the
cursor then is. -/
structure Works (t : XTextScreen) : Prop where
  length : t.B.length = 512
  cursor : t.P < 512
  inRange : ∀ action, ∃ u, step t action = some u
  newline : ∀ ch, ch = 10 ∨ ch = 13 → ∃ u, t.putChar ch = some u ∧ u.P = nextRow t.P
  scroll : ∀ ch, 0x20 ≤ ch → ch ≤ 0x7E → t.P = 511 → ∃ u, t.putChar ch = some u ∧ u.P = 480 ∧
    (∀ r < 14, row u r = row t (r + 1)) ∧ row u 14 = (row t 15).set 31 (glyph ch) ∧
      row u 15 = 0xA3 :: List.replicate 31 0x20

/-- What is printed after a clear is seen as it is on a new screen. -/
def LaidOut (actions : List Action) : Prop :=
  ∀ before after, actions = before ++ .clear :: after → ∀ strings : List Text,
    shown (before ++ .clear :: strings.map .putStr) = shown (strings.map .putStr)

/-- The cursor is at the top left corner when the screen is cleared. -/
def ClearsAtHome (t : XTextScreen) : Action → Prop
  | .clear => t.P = 0
  | .putStr _ => True

theorem getElem?_row {t : XTextScreen} (r j : Nat) :
    (row t r)[j]? = if j < 32 then t.B[32 * r + j]? else none := by
  rw [row, List.getElem?_take, List.getElem?_drop]

theorem getElem?_scrolled {t : XTextScreen} (on : OnScreen t) (last : t.P = 511) (d : UInt8)
    (j : Nat) : (printed t d).B[j]? =
      if j = 480 then some 0xA3 else if j = 479 then some d else if j < 480 then t.B[j + 32]?
      else if j < 512 then some 0x20 else none := by
  rw [printed, if_neg (by omega), last]
  dsimp only
  rw [List.getElem?_set, List.length_append, List.length_drop, List.length_set, on.length,
    List.length_replicate, List.getElem?_append, List.length_drop, List.length_set, on.length,
    List.getElem?_drop, List.getElem?_set, on.length, List.getElem?_replicate]
  by_cases cursor : j = 480
  · rw [if_pos cursor.symm, if_pos (by omega), if_pos cursor]
  · rw [if_neg (Ne.symm cursor), if_neg cursor]
    by_cases above : j < 480
    · rw [if_pos (by omega)]
      by_cases written : j = 479
      · rw [if_pos (by omega), if_pos (by omega), if_pos written]
      · rw [if_neg (by omega), if_neg written, if_pos above, Nat.add_comm]
    · have other : j ≠ 479 := by omega
      rw [if_neg (by omega), if_neg other, if_neg above]
      by_cases inside : j < 512
      · rw [if_pos (by omega), if_pos inside]
      · rw [if_neg (by omega), if_neg inside]

theorem works_of_onScreen {t : XTextScreen} (on : OnScreen t) : Works t where
  length := on.length
  cursor := on.p
  inRange action := by
    obtain ⟨u, stepped, -⟩ := exists_step on action
    exact ⟨u, stepped⟩
  newline ch ends := by
    obtain ⟨u, put, -, p⟩ := exists_newline on ends
    exact ⟨u, put, p⟩
  scroll ch low high last := by
    have plain : ¬(ch = 10 ∨ ch = 13) := by
      rintro (rfl | rfl)
      · exact absurd low (by decide)
      · exact absurd low (by decide)
    refine ⟨printed t (glyph ch), ?_, ?_, ?_, ?_, ?_⟩
    · rw [XTextScreen.putChar, if_neg plain, putPlain_of_visible on low high]
    · rw [printed_p, if_neg (by omega)]
    · intro r inside
      refine List.ext_getElem? fun j => ?_
      rw [getElem?_row, getElem?_row, getElem?_scrolled on last]
      by_cases column : j < 32
      · rw [if_pos column, if_pos column, if_neg (by omega), if_neg (by omega), if_pos (by omega)]
        congr 1
        omega
      · rw [if_neg column, if_neg column]
    · refine List.ext_getElem? fun j => ?_
      have length : (row t 15).length = 32 := by
        rw [row, List.length_take, List.length_drop, on.length]
        rfl
      rw [List.getElem?_set, length, getElem?_row, getElem?_row, getElem?_scrolled on last]
      by_cases column : j < 32
      · rw [if_pos column, if_pos column, if_neg (by omega)]
        by_cases here : 31 = j
        · rw [if_pos (by omega), if_pos here, if_pos (by omega)]
        · rw [if_neg (by omega), if_neg here, if_pos (by omega)]
          congr 1
          omega
      · rw [if_neg column, if_neg column, if_neg (by omega)]
    · refine List.ext_getElem? fun j => ?_
      rw [getElem?_row, getElem?_scrolled on last]
      cases j with
      | zero => rfl
      | succ j =>
        rw [List.getElem?_cons_succ, List.getElem?_replicate]
        by_cases column : j < 31
        · rw [if_pos (by omega), if_neg (by omega), if_neg (by omega), if_neg (by omega),
            if_pos (by omega), if_pos column]
        · rw [if_neg (by omega), if_neg column]

/-- A screen that is cleared at home is a new one. -/
theorem clear_eq_sessionScreen {t : XTextScreen} (on : OnScreen t) (home : t.P = 0) :
    t.clear = sessionScreen := by
  rw [XTextScreen.clear, sessionScreen, newTextScreen, on.w, on.h, home, on.majuscule]

/-- The first byte of a screen that shows the cursor only. -/
theorem putStr_zero {t : XTextScreen} (on : OnScreen t) :
    t.putStr [0] = some { t with B := t.B.set t.P 0xA3 } := by
  have character : t.putChar 0 = some { t with B := t.B.set t.P 0xA3 } := by
    have plain : ¬((0 : UInt8) = 10 ∨ (0 : UInt8) = 13) := by decide
    have notOne : ¬((0 : UInt8) = 1 ∧ 0 < t.P) := fun both => absurd both.1 (by decide)
    have notEight : ¬((0 : UInt8) = 8 ∧ 0 < t.P) := fun both => absurd both.1 (by decide)
    rw [XTextScreen.putChar, if_neg plain, XTextScreen.putPlain, if_neg notOne,
      XTextScreen.delete, if_neg notEight, Option.bind_some, XTextScreen.print,
      if_neg (by decide), Option.bind_some]
    refine assign_of_lt ?_ _
    rw [on.length]
    exact on.p
  have one : runes [0] = [(0, [0])] := rfl
  rw [XTextScreen.putStr, one]
  exact (congrArg (Option.bind · some) character).trans rfl

/-- At any time the screen works; and what is printed after each clear is laid out from the top left
corner just when the cursor is there at each clear. -/
theorem laidOut_iff_clearsAtHome (actions : List Action) :
    ((∃ t, run step sessionScreen actions = some t ∧ Works t) ∧ LaidOut actions) ↔
      Meets step ClearsAtHome sessionScreen actions := by
  obtain ⟨t, reached, on⟩ := exists_run onScreen_sessionScreen actions
  rw [and_iff_right ⟨t, reached, works_of_onScreen on⟩, meets_iff_forall_split]
  have cleared : ∀ {before middle}, run step sessionScreen before = some middle →
      ∀ strings : List Text, shown (before ++ .clear :: strings.map .putStr) =
        (run step middle.clear (strings.map .putStr)).map (·.B) := by
    intro before middle there strings
    rw [shown, run_append_of_reached there]
    rfl
  constructor
  · rintro laid before (_ | s) after middle rfl there
    · obtain ⟨_, also, on⟩ := exists_run onScreen_sessionScreen before
      cases there.symm.trans also
      have same := laid before after rfl [[0]]
      rw [cleared there, shown] at same
      -- the cursor alone shows where it is
      have one : ∀ u : XTextScreen, OnScreen u →
          (run step u ([[0]].map .putStr)).map (·.B) = some (u.B.set u.P 0xA3) := by
        intro u on
        show ((u.putStr [0]).bind some).map (·.B) = _
        rw [putStr_zero on]
        rfl
      rw [one _ onScreen_sessionScreen, one _ (onScreen_clear on), Option.some.injEq] at same
      by_contra away
      have first := congrArg (·[0]?) same
      have blank : middle.clear.B[0]? = some 0x20 := by
        rw [XTextScreen.clear, on.w, on.h]
        rfl
      rw [List.getElem?_set_ne (show middle.clear.P ≠ 0 from away), blank] at first
      exact absurd first (by decide)
    · trivial
  · rintro meets before after rfl strings
    obtain ⟨middle, there, on⟩ := exists_run onScreen_sessionScreen before
    rw [cleared there, clear_eq_sessionScreen on (meets before .clear after middle rfl there), shown]

/-- The second page is not printed from the top left corner. -/
theorem not_laidOut_secondPage : ¬∀ actions, (∃ t, run step sessionScreen actions = some t ∧ Works t) ∧
    LaidOut actions := by
  intro law
  have same := (law [.putStr [0x41], .clear]).2 [.putStr [0x41]] [] rfl [[0x42]]
  have first := congrArg (Option.map List.head?) same
  exact absurd first (by decide +kernel)

end

end Frobio.Waiter.Screen
