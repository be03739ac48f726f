/-
This file models `ncl/regexp.c`, which compiles a pattern and looks for the first match in a text.

A pattern is the memory from the pointer on, and a text is the bytes that are left of it. The
compiled pattern is the list of the objects in front of `UNUSED`. A class holds its characters,
which are in `ccl_buf` with a NUL in front of them and a NUL behind.

An object keeps what an earlier pattern left in it, if nothing is written there: its character, if
it is a `*` or an anchor, and its type, if the pattern ends with a backslash. Where such a value
decides, the result is `none`, and also where the code reads past what is known of the memory.
-/

import Frobio.Froblib.Buf

namespace Frobio.Ncl

open Froblib (char)

/-! ### Objects -/

/-- `regex_t`. -/
inductive Regex
  | dot
  | beginning
  | ending
  | questionMark
  | star
  | plus
  | char (ch : UInt8)
  | charClass (ccl : List UInt8)
  | invCharClass (ccl : List UInt8)
  | digit
  | notDigit
  | alpha
  | notAlpha
  | whitespace
  | notWhitespace
  /-- An object whose type is not written. -/
  | unwritten
  deriving DecidableEq

def MAX_REGEXP_OBJECTS : Nat := 30

def MAX_CHAR_CLASS_LEN : Nat := 40

/-- Why there is no compiled pattern. -/
inductive Failure
  /-- `return 0`. -/
  | exceeded
  /-- The pattern is read past what is known. -/
  | outside

/-! ### Compiling -/

/-- The object of an escaped character. -/
def escapedObject (c : UInt8) : Regex :=
  if c = 100 then .digit
  else if c = 68 then .notDigit
  else if c = 119 then .alpha
  else if c = 87 then .notAlpha
  else if c = 115 then .whitespace
  else if c = 83 then .notWhitespace
  else .char c

/-- The object of a character that is not escaped and begins no class. -/
def plainObject (c : UInt8) : Regex :=
  if c = 94 then .beginning
  else if c = 36 then .ending
  else if c = 46 then .dot
  else if c = 42 then .star
  else if c = 43 then .plus
  else if c = 63 then .questionMark
  else .char c

/-- The loop over the characters inside `[..]`: these, `ccl_bufidx`, and the pattern behind `]`. -/
def copyClass : Nat → List UInt8 → Except Failure (List UInt8 × Nat × List UInt8)
  | _, [] => .error .outside
  | ccl_bufidx, c :: pattern =>
    if c = 93 ∨ c = 0 then
      if MAX_CHAR_CLASS_LEN ≤ ccl_bufidx then .error .exceeded
      -- behind the NUL of a class that is not closed, the pattern goes on in what comes after it
      else .ok ([], ccl_bufidx + 1, pattern)
    else if c = 92 then
      if MAX_CHAR_CLASS_LEN - 1 ≤ ccl_bufidx then .error .exceeded
      else
        match pattern with
        | [] => .error .outside
        | d :: pattern => do
          let (ccl, ccl_bufidx, rest) ← copyClass (ccl_bufidx + 2) pattern
          return (92 :: d :: ccl, ccl_bufidx, rest)
    else if MAX_CHAR_CLASS_LEN ≤ ccl_bufidx then .error .exceeded
    else do
      let (ccl, ccl_bufidx, rest) ← copyClass (ccl_bufidx + 1) pattern
      return (c :: ccl, ccl_bufidx, rest)

/-- The loop of `re_compile`; `j` objects are written. -/
def compileLoop : Nat → Nat → Nat → List UInt8 → Except Failure (List Regex)
  | 0, _, _, _ => .error .outside
  | _, _, _, [] => .error .outside
  | rounds + 1, ccl_bufidx, j, c :: pattern =>
    if c = 0 ∨ MAX_REGEXP_OBJECTS ≤ j + 1 then .ok []
    else if c = 92 then
      match pattern with
      | [] => .error .outside
      | 0 :: _ => do return .unwritten :: (← compileLoop rounds ccl_bufidx (j + 1) pattern)
      | d :: pattern => do
        return escapedObject d :: (← compileLoop rounds ccl_bufidx (j + 1) pattern)
    else if c = 91 then
      match pattern with
      | 94 :: pattern => do
        let (ccl, ccl_bufidx, pattern) ← copyClass ccl_bufidx pattern
        return .invCharClass ccl :: (← compileLoop rounds ccl_bufidx (j + 1) pattern)
      | pattern => do
        let (ccl, ccl_bufidx, pattern) ← copyClass ccl_bufidx pattern
        return .charClass ccl :: (← compileLoop rounds ccl_bufidx (j + 1) pattern)
    else do return plainObject c :: (← compileLoop rounds ccl_bufidx (j + 1) pattern)

def re_compile (pattern : List UInt8) : Except Failure (List Regex) :=
  compileLoop MAX_REGEXP_OBJECTS 1 0 pattern

/-! ### Characters -/

def matchdigit (c : UInt8) : Bool := 48 ≤ c && c ≤ 57

def matchalpha (c : UInt8) : Bool := 97 ≤ c && c ≤ 122 || 65 ≤ c && c ≤ 90

def matchwhitespace (c : UInt8) : Bool :=
  c == 32 || c == 9 || c == 10 || c == 13 || c == 12 || c == 11

def matchalphanum (c : UInt8) : Bool := c == 95 || matchalpha c || matchdigit c

def matchrange (signed : Bool) (c : UInt8) : List UInt8 → Bool
  | first :: 45 :: last :: _ =>
    c != 45 && first != 0 && first != 45 && last != 0 &&
      decide (char signed first ≤ char signed c) && decide (char signed c ≤ char signed last)
  | _ => false

def ismetachar (c : UInt8) : Bool :=
  c == 115 || c == 83 || c == 119 || c == 87 || c == 100 || c == 68

def matchmetachar (c str : UInt8) : Bool :=
  if str = 100 then matchdigit c
  else if str = 68 then !matchdigit c
  else if str = 119 then matchalphanum c
  else if str = 87 then !matchalphanum c
  else if str = 115 then matchwhitespace c
  else if str = 83 then !matchwhitespace c
  else c == str

/-- `matchcharclass`, with the character before the pointer. At the NUL, no character matches. -/
def matchcharclass (signed : Bool) (c : UInt8) : UInt8 → List UInt8 → Bool
  | _, [] => false
  | before, s :: str =>
    if matchrange signed c (s :: str) then true
    else if s = 92 then
      match str with
      | [] => false
      | d :: str =>
        if d = 0 then false
        else if matchmetachar c d then true
        else if c = d ∧ !ismetachar c then true
        else matchcharclass signed c d str
    else if c = s then
      if c = 45 then before == 0 || str.isEmpty else true
    else matchcharclass signed c s str

def matchone (signed : Bool) (p : Regex) (c : UInt8) : Option Bool :=
  match p with
  | .dot => some true
  | .charClass ccl => some (matchcharclass signed c 0 ccl)
  | .invCharClass ccl => some !matchcharclass signed c 0 ccl
  | .digit => some (matchdigit c)
  | .notDigit => some !matchdigit c
  | .alpha => some (matchalphanum c)
  | .notAlpha => some !matchalphanum c
  | .whitespace => some (matchwhitespace c)
  | .notWhitespace => some !matchwhitespace c
  | .char ch => some (ch == c)
  | _ => none

/-! ### Matching -/

section

variable (signed : Bool) (p : Regex) (matchpattern : List UInt8 → Option Bool)

def matchstar : List UInt8 → Option Bool
  | [] => matchpattern []
  | c :: text => do
    if ← matchpattern (c :: text) then return true
    if ← matchone signed p c then matchstar text else return false

def matchplus : List UInt8 → Option Bool
  | [] => some false
  | c :: text => do
    if ← matchone signed p c then
      if ← matchpattern text then return true
      matchplus text
    else return false

/-- `matchquestion`, of an object that is not `UNUSED`. -/
def matchquestion (text : List UInt8) : Option Bool := do
  if ← matchpattern text then return true
  match text with
  | [] => return false
  | c :: text => if ← matchone signed p c then matchpattern text else return false

end

def matchpattern (signed : Bool) : List Regex → List UInt8 → Option Bool
  | [], _ => some true
  | .unwritten :: _, _ => none
  | _ :: .unwritten :: _, _ => none
  | p :: .questionMark :: pattern, text => matchquestion signed p (matchpattern signed pattern) text
  | p :: .star :: pattern, text => matchstar signed p (matchpattern signed pattern) text
  | p :: .plus :: pattern, text => matchplus signed p (matchpattern signed pattern) text
  | [.ending], text => some text.isEmpty
  | _ :: _, [] => some false
  | p :: pattern, c :: text => do
    if ← matchone signed p c then matchpattern signed pattern text else return false

/-- The loop of `re_matchp`; `none` of the result is -1. -/
def search (signed : Bool) (pattern : List Regex) : Nat → List UInt8 → Option (Option Nat)
  | _, [] => do
    let _ ← matchpattern signed pattern []
    return none
  | idx, c :: text => do
    if ← matchpattern signed pattern (c :: text) then return some idx
    search signed pattern (idx + 1) text

def re_matchp (signed : Bool) (pattern : List Regex) (text : List UInt8) : Option (Option Nat) :=
  match pattern with
  | .beginning :: pattern => do
    if ← matchpattern signed pattern text then return some 0 else return none
  | pattern => search signed pattern 0 text

def re_match (signed : Bool) (pattern text : List UInt8) : Option (Option Nat) :=
  match re_compile pattern with
  | .ok compiled => re_matchp signed compiled text
  | .error .exceeded => some none
  | .error .outside => none

end Frobio.Ncl
