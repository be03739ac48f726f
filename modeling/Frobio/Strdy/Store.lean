/-
This file models `lemma/strdy/strdy.go`: a map from strings to strings that is held in a
skip list and is backed by a flat text file, one line for a record. The skip list is an
ordered map. It holds the records that `addLine` puts there, and the bare strings that
`Set` puts there.
-/

import Mathlib.Data.List.Basic
import Mathlib.Tactic
import Frobio.Coms.Quint

namespace Frobio.Strdy

open Coms

abbrev Text := List UInt8

def tab : UInt8 := 9

def newline : UInt8 := 10

def carriageReturn : UInt8 := 13

/-! ### The store -/

structure Record where
  key : Text
  timestamp : Text
  value : Text
  deriving DecidableEq

/-- A value of the skip list, which are of any type. -/
inductive Entry
  | record (r : Record)
  | bare (value : Text)
  deriving DecidableEq

abbrev SkipList := Text → Option Entry

structure DB where
  list : SkipList
  file : Text

/-! ### Lines -/

/-- `strings.SplitN`. -/
def splitN (sep : UInt8) : Nat → Text → List Text
  | 0, _ => []
  | 1, text => [text]
  | n + 2, text =>
    match text.dropWhile (· ≠ sep) with
    | [] => [text]
    | _ :: rest => text.takeWhile (· ≠ sep) :: splitN sep (n + 1) rest

/-- The lines of a text. What is after the last newline is a line only if it is not empty. -/
def rawLines (text : Text) : List Text :=
  let pieces := text.splitOn newline
  if pieces.getLast? = some [] then pieces.dropLast else pieces

/-- The scanner drops one carriage return at the end of a line. -/
def dropCR (line : Text) : Text :=
  if line.getLast? = some carriageReturn then line.dropLast else line

/-- A line and its newline must fit in the 64K of the scanner. -/
def maxLine : Nat := 64 * 1024 - 1

/-- What the scanner yields; `none` is `log.Fatal`. -/
def scanLines (text : Text) : Option (List Text) :=
  if ∀ line ∈ rawLines text, line.length ≤ maxLine then some ((rawLines text).map dropCR)
  else none

/-! ### The functions -/

/-- A line is added unless the list has a later record of its key. `none` is the panic of the
assertion that an old value is a record. -/
def addLine (list : SkipList) (line : Text) : Option SkipList :=
  if ¬ascii "(" <+: line then some list
  else
    match splitN tab 6 line with
    | [before, key, timestamp, value, behind, _] =>
      if before ≠ ascii "(" ∨ behind ≠ ascii ")" then some list
      else
        match list key with
        | none => some (Function.update list key (some (.record ⟨key, timestamp, value⟩)))
        | some (.record old) =>
          if timestamp < old.timestamp then some list
          else some (Function.update list key (some (.record ⟨key, timestamp, value⟩)))
        | some (.bare _) => none
    | _ => some list

/-- `Load` and `slurpFile`. -/
def load (file : Text) : Option DB := do
  let lines ← scanLines file
  let list ← lines.foldlM addLine fun _ => none
  return ⟨list, file⟩

/-- `none` is the panic of the assertion that the value is a record. -/
def get (db : DB) (key : Text) : Option Text :=
  match db.list key with
  | none => some []
  | some (.record r) => some r.value
  | some (.bare _) => none

/-- The line that `Set` appends to the file, without its newline. -/
def setLine (key value comment ts : Text) : Text :=
  ascii "(" ++ tab :: key ++ tab :: ts ++ tab :: value ++ tab :: ascii ")" ++ tab ::
    ascii ";" ++ comment

def set (db : DB) (key value comment ts : Text) : DB :=
  ⟨Function.update db.list key (some (.bare value)),
    db.file ++ setLine key value comment ts ++ [newline]⟩

/-! ### Calls -/

/-- A call of the store. `ts` is what `Timestamp` returns. -/
inductive Call
  | get (key : Text)
  | set (key value comment ts : Text)

inductive Answer
  | nothing
  | text (value : Text)
  | panic
  deriving DecidableEq

def answer : Option Text → Answer
  | some value => .text value
  | none => .panic

/-- A panic leaves the store as it is. -/
def step (db : DB) : Call → DB × Answer
  | .get key => (db, answer (get db key))
  | .set key value comment ts => (set db key value comment ts, .nothing)

/-! ### What the store is for -/

/-- A map from strings to strings; a key that is absent has the empty string. -/
abbrev StringMap := Text → Text

def mapStep (map : StringMap) : Call → StringMap × Answer
  | .get key => (map, .text (map key))
  | .set key value _ _ => (Function.update map key value, .nothing)

/-- The values of the records of a store. -/
def values (db : DB) : StringMap := fun key => (get db key).getD []

end Frobio.Strdy
