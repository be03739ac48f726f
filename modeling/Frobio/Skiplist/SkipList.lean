/-
This file models the skip list of `lemma/skiplist`, an ordered map. The elements stand in the order
of their keys, and each has links to elements behind it, one at each of its levels.

An element is a number, and the heap is split by the fields of `Element`: each field is a map from
elements. A header is `none` if it is that of the list. A slice is a list, and a loop along the links
is given one round more than there are elements, or levels. An index out of range, a pointer that is
nil, and a loop that needs more rounds all make the result `none`. `SetMaxLevel` is not called, so
that the list has as many levels as `maxLevel` says. Scores are of any linear order: none is a NaN.
-/

import Mathlib.Logic.Function.Basic
import Mathlib.Order.Defs.LinearOrder
import Frobio.Lib.Loop

namespace Frobio.Skiplist

/-! ### The list -/

/-- The interface `Comparable`; of what `Compare` returns, whether it is less than 0, 0 or greater. -/
structure Comparable (Key Score : Type) where
  compare : Key → Key → Ordering
  calcScore : Key → Score

/-- The fields of an element that are not links. -/
structure Content (Key Score Value : Type) where
  key : Key
  score : Score
  value : Value

structure SkipList (Key Score Value : Type) where
  comparable : Comparable Key Score
  maxLevel : Nat
  length : Nat
  back : Option Nat
  /-- How many elements there have been. -/
  made : Nat
  content : Nat → Option (Content Key Score Value)
  /-- The field `levels` of a header. -/
  levels : Option Nat → List (Option Nat)
  prev : Nat → Option Nat
  prevTopLevel : Nat → Option Nat
  /-- Whether the field `list` of an element is this list. -/
  inList : Nat → Bool

/-- `New`. -/
def new {Key Score Value : Type} (comparable : Comparable Key Score) (maxLevel : Nat) :
    SkipList Key Score Value where
  comparable := comparable
  maxLevel := maxLevel
  length := 0
  back := none
  made := 0
  content := fun _ => none
  levels := Function.update (fun _ => []) none (List.replicate maxLevel none)
  prev := fun _ => none
  prevTopLevel := fun _ => none
  inList := fun _ => false

/-- `randLevel`, where `rand` gives the numbers of `rand.Int31`. -/
def randLevelFrom (rand : Nat → Nat) : Nat → Nat → Nat
  | 0, i => i
  | left + 1, i => if rand i < 2 ^ 30 then i else randLevelFrom rand left (i + 1)

def randLevel (maxLevel : Nat) (rand : Nat → Nat) : Nat := randLevelFrom rand (maxLevel - 1) 1

/-- What `Set` finds: the element with the key, or the headers in front of its place. -/
inductive Searched
  | found (elem : Nat)
  | absent (prevElemHeaders : List (Option Nat))

/-- Where the walk at a level ends: at the key, or at the last header in front of it. -/
inductive Walked
  | found (elem : Nat)
  | stopped (prevHeader next : Option Nat)

namespace SkipList

variable {Key Score Value : Type} (list : SkipList Key Score Value)

/-- The level of an element, and the number of levels of the list. -/
def level (header : Option Nat) : Nat := (list.levels header).length

/-- `Front`. -/
def front : Option (Option Nat) := (list.levels none)[0]?

/-! ### Finding -/

section

variable [LinearOrder Score]

def compare (score : Score) (key : Key) (rhs : Nat) : Option Ordering :=
  (list.content rhs).map fun c =>
    if score ≠ c.score then
      if c.score < score then .gt else if score < c.score then .lt else .eq
    else list.comparable.compare key c.key

/-- `for next := prevHeader.levels[i]; next != nil; next = prevHeader.levels[i]`. -/
def walk (score : Score) (key : Key) (i : Nat) : Nat → Option Nat → Option Walked
  | 0, _ => none
  | rounds + 1, prevHeader => do
    match ← (list.levels prevHeader)[i]? with
    | none => some (.stopped prevHeader none)
    | some next =>
      match ← list.compare score key next with
      | .eq => some (.found next)
      | .lt => some (.stopped prevHeader (some next))
      | .gt => walk score key i rounds (some next)

/-- The loop of `Set` over the levels below `i`. Those that point to the same element as `topLevel`
are skipped. -/
def search (score : Score) (key : Key) :
    Nat → Option Nat → Option (Option Nat) → List (Option Nat) → Option Searched
  | 0, _, _, prevElemHeaders => some (.absent prevElemHeaders)
  | i + 1, prevHeader, topLevel, prevElemHeaders => do
    let next ← (list.levels prevHeader)[i]?
    if topLevel = some next then search score key i prevHeader topLevel (prevHeader :: prevElemHeaders)
    else
      match ← list.walk score key i (list.made + 1) prevHeader with
      | .found elem => some (.found elem)
      | .stopped prevHeader next =>
        search score key i prevHeader (some next) (prevHeader :: prevElemHeaders)

/-- The loop of `findNext` over the levels below `i`. -/
def seek (score : Score) (key : Key) :
    Nat → Option Nat → Option (Option Nat) → Option Nat → Option (Option Nat)
  | 0, _, _, elem => some elem
  | i + 1, prevHeader, topLevel, elem => do
    let next ← (list.levels prevHeader)[i]?
    if topLevel = some next then seek score key i prevHeader topLevel elem
    else
      match ← list.walk score key i (list.made + 1) prevHeader with
      | .found elem => some (some elem)
      | .stopped prevHeader next => seek score key i prevHeader (some next) (next.or elem)

def findNext (start : Option Nat) (score : Score) (key : Key) : Option (Option Nat) := do
  if list.length = 0 then return none
  let first ← start.or list.front.join
  if (← list.compare score key first).isLE then return some first
  let back ← list.back
  if (← list.compare score key back) = .gt then return none
  list.seek score key (list.level start) start none none

def get (key : Key) : Option (Option Nat) := do
  let score := list.comparable.calcScore key
  match ← list.findNext none score key with
  | none => return none
  | some firstElem =>
    if (← list.compare score key firstElem) ≠ .eq then return none
    return some firstElem

def getValue (key : Key) : Option (Option Value) := do
  match ← list.get key with
  | none => return none
  | some element => return some (← list.content element).value

end

/-! ### Setting -/

/-- `header.levels[i] = elem`. -/
def setLevel (header : Option Nat) (i : Nat) (elem : Option Nat) : Option (SkipList Key Score Value) :=
  if i < list.level header then
    some { list with
      levels := Function.update list.levels header ((list.levels header).set i elem) }
  else none

/-- The new element is `list.made`. -/
def newElement (level : Nat) (score : Score) (key : Key) (value : Value) :
    SkipList Key Score Value :=
  { list with
    made := list.made + 1
    content := Function.update list.content list.made (some ⟨key, score, value⟩)
    levels := Function.update list.levels (some list.made) (List.replicate level none)
    prev := Function.update list.prev list.made none
    prevTopLevel := Function.update list.prevTopLevel list.made none
    inList := Function.update list.inList list.made true }

/-- `elem.levels[i] = prevElemHeaders[i].levels[i]` and `prevElemHeaders[i].levels[i] = elem`. -/
def linkLevel (prevElemHeaders : List (Option Nat)) (elem : Nat) (list : SkipList Key Score Value)
    (i : Nat) : Option (SkipList Key Score Value) := do
  let prevHeader ← prevElemHeaders[i]?
  let list ← list.setLevel (some elem) i (← (list.levels prevHeader)[i]?)
  list.setLevel prevHeader i (some elem)

/-- The largest level below this with a next element, and one more. -/
def largestLevel (elem : Nat) : Nat → Nat
  | 0 => 0
  | i + 1 => if (list.levels (some elem)).getD i none ≠ none then i + 1 else largestLevel elem i

/-- Adjust `prevTopLevel` of the next elements of a new one. -/
def adjustNext (elem level largestLevel : Nat) :
    Nat → Nat → SkipList Key Score Value → Option (SkipList Key Score Value)
  | 0, _, _ => none
  | rounds + 1, i, list =>
    if i < largestLevel then do
      let next ← (← (list.levels (some elem))[i]?)
      let nextLevel := list.level (some next)
      adjustNext elem level largestLevel rounds nextLevel
        (if nextLevel ≤ level then
          { list with prevTopLevel := Function.update list.prevTopLevel next (some elem) }
        else list)
    else some list

/-- `next.prev = elem`, if there is a next element. -/
def setPrev (next elem : Option Nat) : SkipList Key Score Value :=
  { list with prev := next.elim list.prev fun next => Function.update list.prev next elem }

/-- The first element of the list. -/
def insertFirst (level : Nat) (score : Score) (key : Key) (value : Value) :
    Option (SkipList Key Score Value × Nat) := do
  let elem := list.made
  let list ← Loop.forLoop (fun list i => list.setLevel none i (some elem)) 0 level
    (list.newElement level score key value)
  return ({ list with back := some elem, length := list.length + 1 }, elem)

/-- An element behind these headers. -/
def insert (level : Nat) (score : Score) (key : Key) (value : Value)
    (prevElemHeaders : List (Option Nat)) : Option (SkipList Key Score Value × Nat) := do
  let elem := list.made
  let list := list.newElement level score key value
  let list := { list with prev := Function.update list.prev elem (← prevElemHeaders[0]?) }
  let list := { list with
    prevTopLevel := Function.update list.prevTopLevel elem (← prevElemHeaders[level - 1]?) }
  let list ← Loop.forLoop (linkLevel prevElemHeaders elem) 0 level list
  let next ← (list.levels (some elem))[0]?
  let list := list.setPrev next (some elem)
  let list ← list.adjustNext elem level (list.largestLevel elem level) (level + 1) 0
  let list := { list with back := if next = none then some elem else list.back }
  return ({ list with length := list.length + 1 }, elem)

/-- `Set`, with the element it returns. -/
def set [LinearOrder Score] (rand : Nat → Nat) (key : Key) (value : Value) :
    Option (SkipList Key Score Value × Nat) := do
  let score := list.comparable.calcScore key
  if list.length = 0 then list.insertFirst (randLevel list.maxLevel rand) score key value
  else
    match ← list.search score key (list.level none) none none [] with
    | .found elem =>
      let c ← list.content elem
      return ({ list with content := Function.update list.content elem (some { c with value }) }, elem)
    | .absent prevElemHeaders =>
      list.insert (randLevel list.maxLevel rand) score key value prevElemHeaders

/-! ### Removing -/

/-- `for prev = prev.prevTopLevel; prev != nil && prev.Level() == prevLevel; ...`. -/
def skipSame (prevLevel : Nat) : Nat → Option Nat → Option (Option Nat)
  | 0, _ => none
  | _, none => some none
  | rounds + 1, some prev =>
    if list.level (some prev) = prevLevel then skipSame prevLevel rounds (list.prevTopLevel prev)
    else some (some prev)

/-- The previous elements, `prevElems[:max]`. -/
def findPrevs (level : Nat) : Nat → Option Nat → List Nat → Option (List Nat)
  | 0, _, _ => none
  | _, none, prevElems => some prevElems
  | rounds + 1, some prev, prevElems =>
    if level ≤ prevElems.length then some prevElems
    else do
      let prevLevel := list.level (some prev)
      let before ← list.skipSame prevLevel (list.made + 1) (list.prevTopLevel prev)
      findPrevs level rounds before
        (prevElems ++ List.replicate (min prevLevel level - prevElems.length) prev)

/-- `prevElems[i].levels[i] = elem.levels[i]`; from `max` on, where `prevElems` has no more, it is
`list.levels[i]`. -/
def unlinkLevel (prevElems : List Nat) (elem : Nat) (list : SkipList Key Score Value) (i : Nat) :
    Option (SkipList Key Score Value) := do
  list.setLevel prevElems[i]? i (← (list.levels (some elem))[i]?)

/-- Adjust `prevTopLevel` of the next elements of one that is removed. -/
def releaseNext (elem level : Nat) (prevElems : List Nat) :
    Nat → Nat → SkipList Key Score Value → Option (SkipList Key Score Value)
  | 0, _, _ => none
  | rounds + 1, i, list =>
    if i < level then do
      match ← (list.levels (some elem))[i]? with
      | none => some list
      | some next =>
        if list.prevTopLevel next ≠ some elem then some list
        else
          let i := list.level (some next)
          -- `prevElems` has `level` entries, which are nil from `max` on
          if i = 0 ∨ level < i then none
          else
            releaseNext elem level prevElems rounds i
              { list with
                prevTopLevel := Function.update list.prevTopLevel next prevElems[i - 1]? }
    else some list

/-- `reset`. -/
def reset (elem : Nat) : SkipList Key Score Value :=
  { list with
    inList := Function.update list.inList elem false
    prev := Function.update list.prev elem none
    prevTopLevel := Function.update list.prevTopLevel elem none
    levels := Function.update list.levels (some elem) [] }

def removeElement (elem : Nat) : Option (SkipList Key Score Value) := do
  if list.inList elem = false then return list
  let level := list.level (some elem)
  let prevElems ← list.findPrevs level (level + 1) (list.prev elem) []
  let list ← Loop.forLoop (unlinkLevel prevElems elem) 0 level list
  let list := list.setPrev (← (list.levels (some elem))[0]?) (list.prev elem)
  let list ← list.releaseNext elem level prevElems (level + 1) 0
  let list := if list.back = some elem then { list with back := list.prev elem } else list
  return { list with length := list.length - 1 }.reset elem

/-- `Remove`, with the element it returns. -/
def remove [LinearOrder Score] (key : Key) : Option (SkipList Key Score Value × Option Nat) := do
  match ← list.get key with
  | none => return (list, none)
  | some elem => return (← list.removeElement elem, some elem)

def removeFront : Option (SkipList Key Score Value × Option Nat) := do
  if list.length = 0 then return (list, none)
  let front ← (← list.front)
  return (← list.removeElement front, some front)

def removeBack : Option (SkipList Key Score Value × Option Nat) := do
  if list.length = 0 then return (list, none)
  let back ← list.back
  return (← list.removeElement back, some back)

/-! ### Going along -/

/-- `Next`. -/
def next (elem : Nat) : Option Nat := ((list.levels (some elem))[0]?).join

/-- `NextLevel`, of a level that is not negative. -/
def nextLevel (elem i : Nat) : Option Nat := ((list.levels (some elem))[i]?).join

/-- The loop of `PrevLevel`. -/
def prevLevelFrom (i : Nat) : Nat → Option Nat → Option (Option Nat)
  | 0, _ => none
  | _, none => some none
  | rounds + 1, some prev =>
    if i < list.level (some prev) then some (some prev)
    else prevLevelFrom i rounds (list.prevTopLevel prev)

/-- `PrevLevel`, of a level that is not negative. -/
def prevLevel (elem i : Nat) : Option (Option Nat) :=
  if list.level (some elem) ≤ i then some none
  else if i = 0 then some (list.prev elem)
  else if i = list.level (some elem) - 1 then some (list.prevTopLevel elem)
  else list.prevLevelFrom i (list.made + 1) (list.prev elem)

end SkipList

/-! ### Calls -/

/-- A call of the list. `rand` are the random numbers that it comes upon. -/
inductive Call (Key Value : Type)
  | set (rand : Nat → Nat) (key : Key) (value : Value)
  | findNext (start : Option Nat) (key : Key)
  | get (key : Key)
  | getValue (key : Key)
  | remove (key : Key)
  | removeElement (elem : Nat)
  | removeFront
  | removeBack
  | front
  | back
  | len
  | next (elem : Nat)
  | prev (elem : Nat)

/-- An element, with the key and the value that it holds. -/
structure Entry (Key Value : Type) where
  elem : Nat
  key : Key
  value : Value

inductive Answer (Key Value : Type)
  | element (e : Option (Entry Key Value))
  | value (v : Option Value)
  | number (n : Nat)
  | nothing

namespace SkipList

variable {Key Score Value : Type} [LinearOrder Score] (list : SkipList Key Score Value)

def entry (elem : Nat) : Option (Entry Key Value) :=
  (list.content elem).map fun c => ⟨elem, c.key, c.value⟩

/-- What a caller sees of an element. -/
def element (elem : Option Nat) : Answer Key Value := .element (elem.bind list.entry)

def step :
    Call Key Value → Option (SkipList Key Score Value × Answer Key Value)
  | .set rand key value => do
    let (list, elem) ← list.set rand key value
    return (list, list.element elem)
  | .findNext start key => do
    return (list, list.element (← list.findNext start (list.comparable.calcScore key) key))
  | .get key => do return (list, list.element (← list.get key))
  | .getValue key => do return (list, .value (← list.getValue key))
  | .remove key => do
    let (list, elem) ← list.remove key
    return (list, list.element elem)
  | .removeElement elem => do return (← list.removeElement elem, .nothing)
  | .removeFront => do
    let (list, elem) ← list.removeFront
    return (list, list.element elem)
  | .removeBack => do
    let (list, elem) ← list.removeBack
    return (list, list.element elem)
  | .front => do return (list, list.element (← list.front))
  | .back => some (list, list.element list.back)
  | .len => some (list, .number list.length)
  | .next elem => some (list, list.element (list.next elem))
  | .prev elem => some (list, list.element (list.prev elem))

end SkipList

end Frobio.Skiplist
