/-
This file models the parser of `ncl/ncl.c`: `picolGetToken` and what it calls.

The position `p->p` is the memory from there on, and `p->len` is counted beside it as
in the source, so that a parser may go past the end of its text. The pointers
`p->start` and `p->end` are used for the bytes between them only, which are `token`.
A function is `none` when the memory ends before it does.
-/

import Frobio.Froblib.Buf

namespace Frobio.Ncl

open Froblib

/-- An `int` of sixteen bits. -/
def int (x : Int) : Int := (x + 32768) % 65536 - 32768

inductive PT
  | esc
  | str
  | cmd
  | var
  | sep
  | eol
  | eof
  deriving DecidableEq

structure PicolParser where
  p : List UInt8
  len : Int
  type : PT
  insidequote : Bool
  token : List UInt8
  deriving DecidableEq

/-- The memory holds a text of so many bytes and its NUL. -/
def picolInitParser (text : CString) (behind : List UInt8) : PicolParser where
  p := text.memory behind
  len := int text.bytes.length
  type := .eol
  insidequote := false
  token := []

/-! ### Loops -/

/-- What a loop goes over, where it ends, and the length that remains then. -/
structure Scan where
  passed : List UInt8
  p : List UInt8
  len : Int
  deriving DecidableEq

def Scan.over (passed : List UInt8) (scan : Scan) : Scan :=
  { scan with passed := passed ++ scan.passed }

/-- `while (test(*p->p)) p->p++, p->len--;` -/
def skipWhile (test : UInt8 → Bool) : List UInt8 → Int → Option Scan
  | [], _ => none
  | c :: p, len =>
    if test c then (skipWhile test p (int (len - 1))).map (Scan.over [c])
    else some ⟨[], c :: p, len⟩

def isSep (c : UInt8) : Bool := c == 32 || c == 9 || c == 10 || c == 13

def isEol (c : UInt8) : Bool := isSep c || c == 59

def isVar (c : UInt8) : Bool :=
  97 ≤ c && c ≤ 122 || 65 ≤ c && c ≤ 90 || 48 ≤ c && c ≤ 57 || c == 95

/-- The loop of `picolParseCommand`, up to the bracket that closes it. -/
def commandLoop : Nat → Nat → List UInt8 → Int → Option Scan
  | level, blevel, p, len =>
    if len = 0 then some ⟨[], p, len⟩
    else
      match p with
      | [] => none
      | c :: p =>
        if c = 91 ∧ blevel = 0 then
          (commandLoop (level + 1) blevel p (int (len - 1))).map (Scan.over [c])
        else if c = 93 ∧ blevel = 0 then
          if level - 1 = 0 then some ⟨[], c :: p, len⟩
          else (commandLoop (level - 1) blevel p (int (len - 1))).map (Scan.over [c])
        else if c = 92 then
          match p with
          | [] => none
          | d :: p =>
            (commandLoop level blevel p (int (int (len - 1) - 1))).map (Scan.over [c, d])
        else if c = 123 then
          (commandLoop level (blevel + 1) p (int (len - 1))).map (Scan.over [c])
        else if c = 125 then
          (commandLoop level (blevel - 1) p (int (len - 1))).map (Scan.over [c])
        else (commandLoop level blevel p (int (len - 1))).map (Scan.over [c])
termination_by structural _ _ p => p

/-- The loop of `picolParseBrace`, up to the brace that closes it. -/
def braceLoop : Nat → List UInt8 → Int → Option Scan
  | level, p, len =>
    if len = 0 then some ⟨[], p, len⟩
    else
      match p with
      | [] => none
      | c :: p =>
        if len ≥ 2 ∧ c = 92 then
          match p with
          | [] => none
          | d :: p => (braceLoop level p (int (int (len - 1) - 1))).map (Scan.over [c, d])
        else if c = 125 then
          if level - 1 = 0 then some ⟨[], c :: p, len⟩
          else (braceLoop (level - 1) p (int (len - 1))).map (Scan.over [c])
        else if c = 123 then (braceLoop (level + 1) p (int (len - 1))).map (Scan.over [c])
        else (braceLoop level p (int (len - 1))).map (Scan.over [c])
termination_by structural _ p => p

/-- The loop of `picolParseString`. -/
def stringLoop (insidequote : Bool) : List UInt8 → Int → Option Scan
  | p, len =>
    if len = 0 then some ⟨[], p, len⟩
    else
      match p with
      | [] => none
      | c :: p =>
        if c = 92 ∧ len ≥ 2 then
          match p with
          | [] => none
          | d :: p => (stringLoop insidequote p (int (int (len - 1) - 1))).map (Scan.over [c, d])
        else if c = 36 ∨ c = 91 then some ⟨[], c :: p, len⟩
        else if isEol c ∧ insidequote = false then some ⟨[], c :: p, len⟩
        else if c = 34 ∧ insidequote then some ⟨[], c :: p, len⟩
        else (stringLoop insidequote p (int (len - 1))).map (Scan.over [c])
termination_by structural p => p

/-- The loop of `picolParseComment`. -/
def commentLoop : List UInt8 → Int → Option Scan
  | p, len =>
    if len = 0 then some ⟨[], p, len⟩
    else
      match p with
      | [] => none
      | c :: p =>
        if c ≠ 10 ∧ c ≠ 13 then (commentLoop p (int (len - 1))).map (Scan.over [c])
        else some ⟨[], c :: p, len⟩
termination_by structural p => p

/-! ### Tokens -/

section

variable (p : PicolParser)

/-- `p->p++; p->len--;` -/
def advance : Option PicolParser :=
  match p.p with
  | [] => none
  | _ :: rest => some { p with p := rest, len := int (p.len - 1) }

/-- The parser at the end of a scan, with what the scan went over as its token. -/
def PicolParser.at (scan : Scan) (type : PT) : PicolParser :=
  { p with p := scan.p, len := scan.len, type, token := scan.passed }

def picolParseSep : Option PicolParser :=
  (skipWhile isSep p.p p.len).map fun scan => p.at scan .sep

def picolParseEol : Option PicolParser :=
  (skipWhile isEol p.p p.len).map fun scan => p.at scan .eol

def picolParseCommand : Option PicolParser :=
  (advance p).bind fun p =>
    (commandLoop 1 0 p.p p.len).bind fun scan =>
      match scan.p with
      | [] => none
      | c :: _ => if c = 93 then advance (p.at scan .cmd) else some (p.at scan .cmd)

def picolParseVar : Option PicolParser :=
  (advance p).bind fun p =>
    (skipWhile isVar p.p p.len).map fun scan =>
      -- it is just a single char string "$"
      if scan.passed = [] then { p.at scan .str with token := [36] } else p.at scan .var

def picolParseBrace : Option PicolParser :=
  (advance p).bind fun p =>
    (braceLoop 1 p.p p.len).bind fun scan =>
      -- skip the final closed brace
      if scan.len ≠ 0 then advance (p.at scan .str) else some (p.at scan .str)

/-- `picolParseString` from where the word begins. -/
def parseWord : Option PicolParser :=
  (stringLoop p.insidequote p.p p.len).bind fun scan =>
    if scan.len ≠ 0 ∧ scan.p.head? = some 34 ∧ p.insidequote then
      advance { p.at scan .esc with insidequote := false }
    else some (p.at scan .esc)

def picolParseString : Option PicolParser :=
  match p.p with
  | [] => none
  | c :: _ =>
    let newword := p.type = .sep ∨ p.type = .eol ∨ p.type = .str
    if newword ∧ c = 123 then picolParseBrace p
    else if newword ∧ c = 34 then (advance { p with insidequote := true }).bind parseWord
    else parseWord p

def picolParseComment : Option PicolParser :=
  (commentLoop p.p p.len).map fun scan => { p with p := scan.p, len := scan.len }

/-- The end of the text: the last command ends, and then the file. -/
def atEnd : PicolParser :=
  { p with type := if p.type ≠ .eol ∧ p.type ≠ .eof then .eol else .eof }

/-- The `switch` of `picolGetToken`, comments apart. -/
def tokenAt : Option PicolParser :=
  match p.p with
  | [] => none
  | c :: _ =>
    if c = 32 ∨ c = 9 then if p.insidequote then picolParseString p else picolParseSep p
    else if c = 10 ∨ c = 13 ∨ c = 59 then
      if p.insidequote then picolParseString p else picolParseEol p
    else if c = 91 then picolParseCommand p
    else if c = 36 then picolParseVar p
    else picolParseString p

/-- A comment ends before a newline or at the end of the text, so there is one at most. -/
def picolGetToken : Option PicolParser :=
  if p.len = 0 then some (atEnd p)
  else if p.p.head? = some 35 ∧ p.type = .eol then
    (picolParseComment p).bind fun p => if p.len = 0 then some (atEnd p) else tokenAt p
  else tokenAt p

end

end Frobio.Ncl
