/-
This file models the state of the interpreter of `ncl/ncl.c`, its call frames,
variables, commands and arrays, and what every command function does to it.

A command function gets the evaluator as a parameter: `picolEval` calls the command
functions, and they call `picolEval`. OS-9, the memory outside of the interpreter's
data and the two matchers of patterns are a parameter as well.
-/

import Frobio.Coms.Quint
import Frobio.Lib.Program
import Frobio.Ncl.Lists
import Frobio.Ncl.Parser

namespace Frobio.Ncl

open Coms Froblib Program

/-! ### Strings and numbers -/

def text (s : String) : CString := cut (ascii s)

def cat (parts : List CString) : CString := cut (parts.flatMap CString.bytes)

def charAt (s : CString) (i : Nat) : UInt8 := s.bytes.getD i 0

/-- `snprintf_s` of these parts into a buffer of so many bytes. -/
def snprintf (max : Nat) (parts : List CString) : CString :=
  cut ((parts.flatMap CString.bytes).take (max - 1))

def BUF_SIZE : Nat := 200

/-- `%d` of an `int`. -/
def formatInt (x : Int) : CString :=
  cut (if x < 0 then 45 :: decimal (-x).toNat else decimal x.toNat)

def digits : Nat → List UInt8 → Nat
  | z, [] => z
  | z, c :: s => if 48 ≤ c ∧ c ≤ 57 then digits (z * 10 + (c.toNat - 48)) s else z

def atoi (s : CString) : Int :=
  let s := s.bytes.dropWhile fun c => c == 32 || 9 ≤ c && c ≤ 13
  match s with
  | 45 :: s => int (-(digits 0 s : Int))
  | 43 :: s => int (digits 0 s)
  | s => int (digits 0 s)

def charUp (c : UInt8) : UInt8 := if 97 ≤ c ∧ c ≤ 122 then c - 32 else c

def charDown (c : UInt8) : UInt8 := if 65 ≤ c ∧ c ≤ 90 then c + 32 else c

def strcmp (s t : CString) : Int :=
  if s.bytes = t.bytes then 0 else if s.bytes < t.bytes then -1 else 1

/-! ### The state -/

inductive Code
  | ok
  | err
  | return_
  | break_
  | continue_
  deriving DecidableEq

def Code.number : Code → Int
  | ok => 0
  | err => 1
  | return_ => 2
  | break_ => 3
  | continue_ => 4

structure PicolVar where
  name : CString
  val : CString
  deriving DecidableEq

structure PicolArray where
  name : CString
  vars : List PicolVar
  deriving DecidableEq

structure PicolCallFrame where
  address : Nat
  vars : List PicolVar
  deriving DecidableEq

inductive PicolCmdFunc
  | callProc
  | math
  | stringRelOp
  | set
  | puts
  | gets
  | if_
  | and_
  | or_
  | while_
  | retCodes
  | proc
  | return_
  | info
  | forEach
  | eval
  | catch_
  | list
  | explode
  | implode
  | peek
  | poke
  | incr
  | append
  | listAppend
  | listLength
  | listRangeOrIndex
  | stringLength
  | stringRangeOrIndex
  | stringUpperOrLower
  | stringMatchOrRegexp
  | array
  | split
  | join
  | error
  | exit9
  | source
  | kill9
  | chain9
  | fork9
  | wait9
  | fileSize9
  | dup9
  | close9
  | sleep9
  | makOrChgDir9
  | open9
  | create9
  | delete9
  | read9
  deriving DecidableEq

/-- The private data of a proc are its arguments list and its body. -/
structure PicolCmd where
  name : CString
  minArgc : Nat
  maxArgc : Nat
  func : PicolCmdFunc
  privdata : Option (CString × CString)
  deriving DecidableEq

/-- What `picolEval` did with a command it had found, and how many arguments it had. -/
structure Dispatch where
  cmd : PicolCmd
  argc : Nat
  called : Bool
  deriving DecidableEq

structure Interp (World : Type) where
  /-- `Callframe`, and the frames below it. -/
  callframe : PicolCallFrame
  parents : List PicolCallFrame
  /-- How many frames there have been. -/
  frames : Nat
  commands : List PicolCmd
  arrays : List PicolArray
  result : CString
  /-- All commands that were found so far. -/
  dispatches : List Dispatch
  world : World

/-- The OS-9 calls. -/
inductive Os9
  | read (fd n : Int)
  | readLn (fd n : Int)
  | writLn (fd : Int) (bytes : List UInt8)
  | open_ (path : CString) (mode : Int)
  | create (path : CString) (mode attrs : Int)
  | delete (path : CString)
  | makDir (path : CString) (mode : Int)
  | chgDir (path : CString) (mode : Int)
  | getStt (fd code : Int)
  | dup (fd : Int)
  | close (fd : Int)
  | chain (program params : CString)
  | fork (program params : CString) (memSize : Int)
  | wait
  | send (victim signal : Int)
  | sleep (ticks : Int)

/-- An error number, or zero; the values of two registers; and the bytes of a buffer. -/
structure Os9Reply where
  error : Int
  value : Int
  x : Int
  bytes : List UInt8

/-- What the interpreter is built on. -/
structure Outside (World : Type) where
  /-- Whether `char` is signed. -/
  signed : Bool
  /-- An OS-9 call may not return. -/
  os9 : World → Os9 → Option Os9Reply × World
  print : World → CString → World
  /-- What the memory holds after the NUL of a string. -/
  behind : World → CString → List UInt8 × World
  peek : World → Int → UInt8
  poke : World → Int → UInt8 → World
  /-- The value of a variable that was not set. -/
  garbage : World → UInt8
  /-- The arithmetic that the language leaves open. -/
  undefined : CString → Int → Int → Int
  stringMatch : CString → CString → Int
  reMatch : CString → CString → Int

/-- A program of the interpreter. -/
abbrev Picol (World : Type) : Type → Type := Program (Interp World)

section

variable {World : Type}

/-! ### Results, variables and commands -/

def picolSetResult (s : CString) : Picol World Unit := change fun x => { x with result := s }

def picolAppendResult (s : CString) : Picol World Unit :=
  change fun x => { x with result := cat [x.result, s] }

/-- Set the result and return. -/
def conclude (result : CString) (code : Code) : Picol World Code := do
  picolSetResult result
  pure code

def resultD (x : Int) : Picol World Code := conclude (formatInt x) .ok

def errorNum (err : Int) : Picol World Code := conclude (formatInt err) .err

def emptyOrErrorNum (e : Int) : Picol World Code :=
  if e ≠ 0 then errorNum e else conclude (text "") .ok

def intOrErrorNum (e x : Int) : Picol World Code := if e ≠ 0 then errorNum e else resultD x

def notFound : Picol World Code := conclude (text "not found") .err

def picolArityErr (name : CString) : Picol World Code :=
  conclude (snprintf BUF_SIZE [text "Wrong number of args for ", name]) .err

def picolGetVarFromRoot (vars : List PicolVar) (name : CString) : Option PicolVar :=
  vars.find? fun v => v.name = name

def picolGetVar (name : CString) : Picol World (Option PicolVar) := do
  let x ← get
  pure (picolGetVarFromRoot x.callframe.vars name)

/-- Set the value of a variable that is there. -/
def setVal (name val : CString) : List PicolVar → List PicolVar
  | [] => []
  | v :: vars => if v.name = name then { v with val } :: vars else v :: setVal name val vars

def picolSetVarFromRoot (vars : List PicolVar) (name val : CString) : List PicolVar :=
  if (picolGetVarFromRoot vars name).isSome then setVal name val vars else ⟨name, val⟩ :: vars

def picolSetVar (name val : CString) : Picol World Unit :=
  change fun x =>
    { x with
      callframe :=
        { x.callframe with vars := picolSetVarFromRoot x.callframe.vars name val } }

/-- The value of a variable, which is made with this value if it is not there. -/
def ensureVar (name initial : CString) : Picol World CString := do
  match ← picolGetVar name with
  | some v => pure v.val
  | none =>
    picolSetVar name initial
    pure initial

def picolGetCommand (commands : List PicolCmd) (name : CString) : Option PicolCmd :=
  commands.find? fun c => c.name = name

/-- Replace the command of the same name. -/
def setCommand (cmd : PicolCmd) : List PicolCmd → List PicolCmd
  | [] => []
  | c :: commands => if c.name = cmd.name then cmd :: commands else c :: setCommand cmd commands

def picolRegisterCommand (cmd : PicolCmd) : Picol World Unit :=
  change fun x =>
    { x with
      commands :=
        if (picolGetCommand x.commands cmd.name).isSome then setCommand cmd x.commands
        else cmd :: x.commands }

def picolGetArray (arrays : List PicolArray) (name : CString) : Option PicolArray :=
  arrays.find? fun a => a.name = name

def setArray (array : PicolArray) : List PicolArray → List PicolArray
  | [] => []
  | a :: arrays => if a.name = array.name then array :: arrays else a :: setArray array arrays

/-- An argument of a command. -/
def arg (argv : List CString) (i : Nat) : CString := argv.getD i (text "")

variable (o : Outside World)

def os9 (call : Os9) : Picol World Os9Reply := fun x =>
  ((o.os9 x.world call).1, { x with world := (o.os9 x.world call).2 })

def print (s : CString) : Picol World Unit :=
  change fun x => { x with world := o.print x.world s }

/-- What the memory holds after a string. -/
def behind (s : CString) : Picol World (List UInt8) := fun x =>
  (some (o.behind x.world s).1, { x with world := (o.behind x.world s).2 })

/-- `SplitList` of a string in memory. -/
def split (s : CString) : Picol World (List CString) := do
  let rest ← behind o s
  ofOption (splitList o.signed (s.memory rest))

/-! ### Commands on strings, numbers and lists -/

def picolCommandStringRelOp (argv : List CString) : Picol World Code :=
  let m1 := charAt (arg argv 0) 0
  let m2 := charAt (arg argv 0) 1
  let cmp := strcmp (arg argv 1) (arg argv 2)
  let answer (b : Bool) := conclude (if b then text "1" else text "0") .ok
  if m1 = 101 ∧ m2 = 113 then answer (cmp = 0)
  else if m1 = 110 ∧ m2 = 101 then answer (cmp ≠ 0)
  else if m1 = 108 ∧ m2 = 116 then answer (cmp < 0)
  else if m1 = 108 ∧ m2 = 101 then answer (cmp ≤ 0)
  else if m1 = 103 ∧ m2 = 116 then answer (cmp > 0)
  else if m1 = 103 ∧ m2 = 101 then answer (cmp ≥ 0)
  else notFound

def bits (f : BitVec 16 → BitVec 16 → BitVec 16) (a b : Int) : Int :=
  (f (BitVec.ofInt 16 a) (BitVec.ofInt 16 b)).toInt

/-- What the language says about a shift, or what it leaves open. -/
def shift (f : Int → Nat → Int) (name : CString) (a b : Int) : Int :=
  if 0 ≤ b ∧ b < 16 then int (f a b.toNat) else o.undefined name a b

/-- The operators on two numbers, or `none` for a name that is none of them. -/
def mathOp (name : CString) (a b : Int) : Option Int :=
  let m1 := charAt name 0
  let m2 := charAt name 1
  let m3 := charAt name 2
  let truth (p : Bool) : Option Int := some (if p then 1 else 0)
  if m1 = 45 then some (int (a - b))
  else if m1 = 47 then some (if b = 0 then o.undefined name a b else int (a.tdiv b))
  else if m1 = 37 then some (if b = 0 then o.undefined name a b else int (a.tmod b))
  else if m1 = 62 ∧ m2 = 0 then truth (a > b)
  else if m1 = 62 ∧ m2 = 61 then truth (a ≥ b)
  else if m1 = 62 ∧ m2 = 62 ∧ m3 = 0 then some (shift o (fun a b => a / 2 ^ b) name a b)
  else if m1 = 62 ∧ m2 = 62 ∧ m3 = 62 then
    some (shift o (fun a b => a % 65536 / 2 ^ b) name a b)
  else if m1 = 60 ∧ m2 = 0 then truth (a < b)
  else if m1 = 60 ∧ m2 = 61 then truth (a ≤ b)
  else if m1 = 60 ∧ m2 = 60 then some (shift o (fun a b => a * 2 ^ b) name a b)
  else if m1 = 61 ∧ m2 = 61 then truth (a = b)
  else if m1 = 33 ∧ m2 = 61 then truth (a ≠ b)
  else if name = text "bitand" then some (bits (· &&& ·) a b)
  else if name = text "bitor" then some (bits (· ||| ·) a b)
  else if name = text "bitxor" then some (bits (· ^^^ ·) a b)
  else none

def picolCommandMath (argv : List CString) : Picol World Code :=
  let m1 := charAt (arg argv 0) 0
  if m1 = 43 then resultD ((argv.drop 1).foldl (fun c s => int (c + atoi s)) 0)
  else if m1 = 42 then resultD ((argv.drop 1).foldl (fun c s => int (c * atoi s)) 1)
  else if argv.length ≠ 3 then picolArityErr (arg argv 0)
  else
    match mathOp o (arg argv 0) (atoi (arg argv 1)) (atoi (arg argv 2)) with
    | some c => resultD c
    | none => notFound

def picolCommandError (argv : List CString) : Picol World Code := conclude (arg argv 1) .err

def picolCommandRetCodes (argv : List CString) : Picol World Code :=
  pure (if charAt (arg argv 0) 0 = 98 then .break_ else .continue_)

def picolCommandReturn (argv : List CString) : Picol World Code :=
  conclude (if argv.length = 2 then arg argv 1 else text "") .return_

/-- `join`: the items, with the character between any two if there is one. -/
def joined (delim : UInt8) : List CString → Buf
  | [] => []
  | [v] => v.bytes
  | v :: vs => v.bytes ++ (if delim ≠ 0 then [delim] else []) ++ joined delim vs

/-- The delimiter is not set if there are more than two arguments. -/
def delimOf (argv : List CString) : Picol World UInt8 := do
  let x ← get
  pure (if argv.length = 2 then 0 else if argv.length = 3 then charAt (arg argv 2) 0
    else o.garbage x.world)

def picolCommandJoin (argv : List CString) : Picol World Code := do
  let v ← split o (arg argv 1)
  let delim ← delimOf o argv
  conclude (bufFinish (joined delim v)) .ok

/-- The inner loop of `split`: a part, what follows it, and `final_delim`. -/
def splitPart (signed : Bool) (delim : UInt8) : List UInt8 → Bool → Buf × List UInt8 × Bool
  | [], final => ([], [], final)
  | c :: s, final =>
    if delim ≠ 0 ∧ c = delim then ([], c :: s, true)
    else if delim = 0 ∧ char signed c ≤ 32 then ([], c :: s, final)
    else
      let rest := splitPart signed delim s false
      (c :: rest.1, rest.2)

/-- The outer loop of `split`, a round for a part. -/
def splitRounds (signed : Bool) (delim : UInt8) : Nat → List UInt8 → Bool → Buf → Buf
  | 0, _, _, list => list
  | _ + 1, [], final, list => if final then bufAppElemS signed list (text "") else list
  | rounds + 1, c :: s, final, list =>
    let part := splitPart signed delim (c :: s) final
    -- past the delimiter
    splitRounds signed delim rounds part.2.1.tail part.2.2
      (if delim ≠ 0 ∨ part.1 ≠ [] then bufAppElemS signed list (bufFinish part.1) else list)

def picolCommandSplit (argv : List CString) : Picol World Code := do
  let delim ← delimOf o argv
  let s := (arg argv 1).bytes
  conclude (bufFinish (splitRounds o.signed delim (s.length + 1) s false [])) .ok

def picolCommandStringMatchOrRegexp (argv : List CString) : Picol World Code :=
  resultD (if charAt (arg argv 0) 1 = 114 then o.reMatch (arg argv 1) (arg argv 2)
    else o.stringMatch (arg argv 2) (arg argv 1))

def picolCommandListLength (argv : List CString) : Picol World Code := do
  let v ← split o (arg argv 1)
  resultD v.length

/-- The items from index `a` to index `b`. -/
def listRange (a b : Int) (v : List CString) : List CString :=
  (v.zipIdx.filter fun item => a ≤ item.2 ∧ (item.2 : Int) ≤ b).map Prod.fst

def picolCommandListRangeOrIndex (argv : List CString) : Picol World Code := do
  let a := atoi (arg argv 2)
  let b := if argv.length = 3 then a else atoi (arg argv 3)
  let v ← split o (arg argv 1)
  conclude (formList o.signed (listRange a b v)) .ok

def picolCommandStringLength (argv : List CString) : Picol World Code :=
  resultD (arg argv 1).bytes.length

def picolCommandStringRangeOrIndex (argv : List CString) : Picol World Code :=
  let s := (arg argv 1).bytes
  let n : Int := s.length
  let a := atoi (arg argv 2)
  let b := if argv.length = 3 then a else atoi (arg argv 3)
  let a := if a < 0 then 0 else a
  let b := if b ≥ n then n - 1 else b
  conclude (bufFinish ((s.drop a.toNat).take (b + 1 - a).toNat)) .ok

def picolCommandStringUpperOrLower (argv : List CString) : Picol World Code :=
  let up := charAt (arg argv 0) 1 = 117
  conclude (cut ((arg argv 1).bytes.map fun c => if up then charUp c else charDown c)) .ok

def picolCommandList (argv : List CString) : Picol World Code :=
  conclude (formList o.signed (argv.drop 1)) .ok

/-- The numbers of some bytes, as a list. -/
def explode (s : List UInt8) : CString :=
  formList o.signed (s.map fun c => formatInt (char o.signed c))

def picolCommandExplode (argv : List CString) : Picol World Code :=
  conclude (explode o (arg argv 1).bytes) .ok

def picolCommandImplode (argv : List CString) : Picol World Code := do
  let v ← split o (arg argv 1)
  conclude (cut (v.map fun s => UInt8.ofInt (atoi s))) .ok

/-! ### Commands on variables, procs and arrays -/

def picolCommandSet (argv : List CString) : Picol World Code := do
  if argv.length = 2 then
    match ← picolGetVar (arg argv 1) with
    | none => conclude (cat [text "no such var: ", arg argv 1]) .err
    | some s => conclude s.val .ok
  else
    picolSetVar (arg argv 1) (arg argv 2)
    conclude (arg argv 2) .ok

def picolCommandIncr (argv : List CString) : Picol World Code := do
  let val ← ensureVar (arg argv 1) (text "0")
  let z := int ((if argv.length = 3 then atoi (arg argv 2) else 1) + atoi val)
  picolSetVar (arg argv 1) (formatInt z)
  conclude (formatInt z) .ok

def picolCommandAppend (argv : List CString) : Picol World Code := do
  let val ← ensureVar (arg argv 1) (text "")
  picolSetVar (arg argv 1) (bufFinish ((argv.drop 2).foldl bufAppS val.bytes))
  pure .ok

def picolCommandListAppend (argv : List CString) : Picol World Code := do
  let val ← ensureVar (arg argv 1) (text "")
  picolSetVar (arg argv 1) (listAppend o.signed val (argv.drop 2))
  pure .ok

def picolCommandProc (argv : List CString) : Picol World Code := do
  picolRegisterCommand ⟨arg argv 1, 0, 0, .callProc, some (arg argv 2, arg argv 3)⟩
  pure .ok

def picolCommandArray (argv : List CString) : Picol World Code := do
  let x ← get
  let array := picolGetArray x.arrays (arg argv 1)
  match argv.length with
  | 1 => conclude (formList o.signed (x.arrays.map PicolArray.name)) .ok
  | 2 =>
    match array with
    | none => notFound
    | some array => conclude (formList o.signed (array.vars.map PicolVar.name)) .ok
  | 3 =>
    match array.bind fun array => picolGetVarFromRoot array.vars (arg argv 2) with
    | none => notFound
    | some var => conclude var.val .ok
  | 4 =>
    match array with
    | none =>
      change fun x =>
        { x with arrays := ⟨arg argv 1, [⟨arg argv 2, arg argv 3⟩]⟩ :: x.arrays }
      pure .ok
    | some array =>
      let vars := picolSetVarFromRoot array.vars (arg argv 2) (arg argv 3)
      change fun x => { x with arrays := setArray { array with vars } x.arrays }
      pure .ok
  | _ => pure .ok

/-- Names, each with a space after it. -/
def listed (names : List CString) : List CString := names.flatMap fun name => [name, text " "]

def picolCommandInfo : Picol World Code := do
  let x ← get
  let named (vars : List PicolVar) := listed (vars.map PicolVar.name)
  let procs := x.commands.filter fun c => c.func = .callProc
  let others := x.commands.filter fun c => c.func ≠ .callProc
  let frames := (x.callframe :: x.parents).dropLast
  let globals := (x.callframe :: x.parents).getLast (List.cons_ne_nil _ _)
  print o (cat (
    [text " procs: "] ++ listed (procs.map PicolCmd.name) ++ [text "\n commands: "] ++
    listed (others.map PicolCmd.name) ++ [text "\n"] ++
    (frames.flatMap fun f => [text " frame: "] ++ named f.vars ++ [text "\n"]) ++
    [text " globals: "] ++ named globals.vars ++ [text "\n arrays:\n"] ++
    (x.arrays.flatMap fun a => [text "   ", a.name, text ": "] ++ named a.vars ++ [text "\n"])))
  conclude (text "") .ok

/-! ### Commands of the machine -/

def picolCommandPeek (argv : List CString) : Picol World Code := do
  let x ← get
  conclude (formatInt (o.peek x.world (atoi (arg argv 1))).toNat) .ok

def picolCommandPoke (argv : List CString) : Picol World Code := do
  let val := UInt8.ofInt (atoi (arg argv 2))
  change fun x => { x with world := o.poke x.world (atoi (arg argv 1)) val }
  conclude (text "") .ok

def picolCommandGets (argv : List CString) : Picol World Code := do
  let reply ← os9 o (.readLn (atoi (arg argv 1)) BUF_SIZE)
  if reply.error = 211 then
    picolSetVar (arg argv 2) (text "")
    resultD 0
  else if reply.error ≠ 0 then errorNum reply.error
  else
    picolSetVar (arg argv 2) (cut reply.bytes)
    resultD reply.bytes.length

/-- `puts` without its option. -/
def putsTo (nonewline : Bool) (argv : List CString) : Picol World Code := do
  let fd := if argv.length = 3 then atoi (arg argv 1) else 1
  let reply ← os9 o (.writLn fd (arg argv (argv.length - 1)).bytes)
  if reply.error ≠ 0 then errorNum reply.error
  else if nonewline then emptyOrErrorNum 0
  else
    let reply ← os9 o (.writLn fd [10])
    if reply.error ≠ 0 then errorNum reply.error else emptyOrErrorNum 0

def picolCommandPuts (argv : List CString) : Picol World Code :=
  -- any dash argument must be -nonewline
  let nonewline := argv.length > 2 && charAt (arg argv 1) 0 == 45
  let rest := if nonewline then argv.drop 1 else argv
  if rest.length ≠ 2 ∧ rest.length ≠ 3 then picolArityErr (arg argv 0)
  else putsTo o nonewline rest

def picolCommand9Read (argv : List CString) : Picol World Code := do
  let reply ← os9 o (.read (atoi (arg argv 1)) (atoi (arg argv 2)))
  if reply.error ≠ 0 then errorNum reply.error else conclude (explode o reply.bytes) .ok

/-- A call that gives an error or nothing. -/
def callForNothing (call : Os9) : Picol World Code := do
  let reply ← os9 o call
  emptyOrErrorNum reply.error

/-- A call that gives an error or a number. -/
def callForInt (call : Os9) : Picol World Code := do
  let reply ← os9 o call
  intOrErrorNum reply.error reply.value

def picolCommand9Dup (argv : List CString) : Picol World Code :=
  callForInt o (.dup (atoi (arg argv 1)))

def picolCommand9Close (argv : List CString) : Picol World Code :=
  callForNothing o (.close (atoi (arg argv 1)))

def picolCommand9Kill (argv : List CString) : Picol World Code :=
  callForNothing o
    (.send (atoi (arg argv 1)) (if argv.length < 3 then 228 else atoi (arg argv 2)))

def picolCommand9Sleep (argv : List CString) : Picol World Code :=
  callForNothing o (.sleep (atoi (arg argv 1)))

def picolCommand9Create (argv : List CString) : Picol World Code :=
  callForInt o (.create (arg argv 1) (atoi (arg argv 2)) (atoi (arg argv 3)))

def picolCommand9Open (argv : List CString) : Picol World Code :=
  callForInt o (.open_ (arg argv 1) (atoi (arg argv 2)))

def picolCommand9MakOrChgDir (argv : List CString) : Picol World Code :=
  callForNothing o
    (if charUp (charAt (arg argv 0) 1) = 77 then .makDir (arg argv 1) (atoi (arg argv 2))
      else .chgDir (arg argv 1) (atoi (arg argv 2)))

def picolCommand9Delete (argv : List CString) : Picol World Code :=
  callForNothing o (.delete (arg argv 1))

def picolCommand9FileSize (argv : List CString) : Picol World Code := do
  let reply ← os9 o (.getStt (atoi (arg argv 1)) 2)
  if reply.error ≠ 0 then errorNum reply.error
  else if reply.x ≠ 0 then conclude (text "toobig") .err
  else resultD reply.value

def picolCommand9Wait (argv : List CString) : Picol World Code := do
  let reply ← os9 o .wait
  if reply.error ≠ 0 then errorNum reply.error
  else
    if argv.length ≥ 2 then picolSetVar (arg argv 1) (formatInt (reply.value / 256 % 256))
    if argv.length ≥ 3 then picolSetVar (arg argv 2) (formatInt (reply.value % 256))
    pure .ok

/-- `JoinWithSpaces` and `AddCR`. -/
def params (argv : List CString) : CString := cut (joined 32 argv ++ [13])

def picolCommand9Chain (argv : List CString) : Picol World Code := do
  let reply ← os9 o (.chain (arg argv 1) (params (argv.drop 2)))
  -- if it returns, it is an error
  errorNum reply.error

/-- The options of `9fork`: the size of memory, and the other arguments. -/
def forkOptions (memSize : Int) : List CString → Int × List CString
  | argv0 :: option :: argv2 :: more =>
    if o.stringMatch option (text "-m*") ≠ 0 then
      let memSize := atoi (cut (option.bytes.drop 2))
      let last := charAt option (option.bytes.length - 1)
      -- the name of the command is shifted out, and the option stands in its place
      forkOptions (if charUp last = 75 then int (memSize * 4) else memSize)
        (option :: argv2 :: more)
    else (memSize, argv0 :: option :: argv2 :: more)
  | argv => (memSize, argv)

def picolCommand9Fork (argv : List CString) : Picol World Code :=
  let options := forkOptions o 0 argv
  let memSize := options.1
  let argv := options.2
  if argv.length < 2 then picolArityErr (arg argv 0)
  else callForInt o (.fork (arg argv 1) (params (argv.drop 2)) memSize)

/-! ### Commands that evaluate -/

section

variable (eval : CString → CString → Picol World Code)

def picolCommandIf (argv : List CString) : Picol World Code := do
  if argv.length ≠ 3 ∧ argv.length ≠ 5 then picolArityErr (arg argv 0)
  else
    let retcode ← eval (arg argv 1) (text "cond of if")
    if retcode ≠ .ok then pure retcode
    else
      let x ← get
      if atoi x.result ≠ 0 then eval (arg argv 2) (text "then of if")
      else if argv.length = 5 then eval (arg argv 4) (text "else of if")
      else pure .ok

/-- The loop of `and`. -/
def andLoop (n : Int) : List CString → Picol World Code
  | [] => resultD n
  | clause :: clauses => do
    let e ← eval clause (text "clause of and")
    if e ≠ .ok then pure e
    else
      let x ← get
      let n := atoi x.result
      if n = 0 then resultD 0 else andLoop n clauses

/-- The loop of `or`. -/
def orLoop : List CString → Picol World Code
  | [] => resultD 0
  | clause :: clauses => do
    let e ← eval clause (text "clause of or")
    if e ≠ .ok then pure e
    else
      let x ← get
      let n := atoi x.result
      if n ≠ 0 then resultD n else orLoop clauses

def picolCommandAnd (argv : List CString) : Picol World Code := andLoop eval 1 (argv.drop 1)

def picolCommandOr (argv : List CString) : Picol World Code := orLoop eval (argv.drop 1)

def picolCommandWhile : Nat → List CString → Picol World Code
  | 0, _ => stop
  | rounds + 1, argv => do
    let retcode ← eval (arg argv 1) (text "cond of while")
    if retcode ≠ .ok then pure retcode
    else
      let x ← get
      if atoi x.result ≠ 0 then
        match ← eval (arg argv 2) (text "body of while") with
        | .continue_ => picolCommandWhile rounds argv
        | .ok => picolCommandWhile rounds argv
        | .break_ => pure .ok
        | retcode => pure retcode
      else pure .ok

/-- The loop of `foreach`. -/
def forEachLoop (var body : CString) : List CString → Picol World Code
  | [] => conclude (text "") .ok
  | v :: vs => do
    picolSetVar var v
    match ← eval body (text "body of foreach") with
    | .continue_ => forEachLoop var body vs
    | .break_ => conclude (text "") .ok
    | .ok => forEachLoop var body vs
    | e => pure e

def picolCommandForEach (argv : List CString) : Picol World Code := do
  let v ← split o (arg argv 2)
  forEachLoop eval (arg argv 1) (arg argv 3) v

def picolCommandEval (argv : List CString) : Picol World Code :=
  eval (bufFinish ((argv.drop 1).flatMap fun s => 32 :: s.bytes)) (text "eval")

def picolCommandCatch (argv : List CString) : Picol World Code := do
  let e ← eval (arg argv 1) (text "catch")
  if argv.length = 3 then
    let x ← get
    picolSetVar (arg argv 2) x.result
  resultD e.number

def picolCommandSource (argv : List CString) : Picol World Code := do
  let path := arg argv (argv.length - 1)
  let opened ← os9 o (.open_ path 1)
  if opened.error ≠ 0 then errorNum opened.error
  else
    let fd := opened.value
    let stat ← os9 o (.getStt fd 2)
    if stat.error ≠ 0 then errorNum stat.error
    else if stat.x ≠ 0 ∨ stat.value < 0 ∨ stat.value > 16 * 1024 then
      conclude (text "toobig") .err
    else
      let reply ← os9 o (.read fd stat.value)
      if reply.error ≠ 0 then errorNum reply.error
      else if (reply.bytes.length : Int) ≠ stat.value then errorNum 0
      else
        let closed ← os9 o (.close fd)
        if closed.error ≠ 0 then errorNum closed.error else eval (cut reply.bytes) path

/-! ### Procs -/

def pushCallFrame : Picol World Unit :=
  change fun x =>
    { x with
      callframe := ⟨x.frames, []⟩
      parents := x.callframe :: x.parents
      frames := x.frames + 1 }

def picolDropCallFrame : Picol World Unit := fun x =>
  match x.parents with
  | [] => (none, x)
  | parent :: parents => (some (), { x with callframe := parent, parents })

/-- Set the variables of these names to the arguments. -/
def setVars : List CString → List CString → Picol World Unit
  | name :: names, val :: vals => do
    picolSetVar name val
    setVars names vals
  | _, _ => pure ()

def picolCommandCallProc (pd : Option (CString × CString)) (argv : List CString) :
    Picol World Code :=
  match pd with
  | none => stop
  | some (alist, body) => do
    pushCallFrame
    let v ← split o alist
    let c := v.length
    let varargs := v.getLast? = some (text "args")
    if ¬varargs ∧ c ≠ argv.length - 1 ∨ varargs ∧ argv.length - 1 < c - 1 then
      picolSetResult
        (snprintf BUF_SIZE [text "Proc '", arg argv 0, text "' called with wrong num args"])
      picolDropCallFrame
      pure .err
    else
      setVars (if varargs then v.dropLast else v) (argv.drop 1)
      if varargs then picolSetVar (text "args") (formList o.signed (argv.drop c))
      let errcode ← eval body (arg argv 0)
      picolDropCallFrame
      pure (if errcode = .return_ then .ok else errcode)

/-- Call a command function. A loop of the source goes so many rounds at most. -/
def picolCmdFunc (rounds : Nat) (pd : Option (CString × CString)) (argv : List CString) :
    PicolCmdFunc → Picol World Code
  | .callProc => picolCommandCallProc o eval pd argv
  | .math => picolCommandMath o argv
  | .stringRelOp => picolCommandStringRelOp argv
  | .set => picolCommandSet argv
  | .puts => picolCommandPuts o argv
  | .gets => picolCommandGets o argv
  | .if_ => picolCommandIf eval argv
  | .and_ => picolCommandAnd eval argv
  | .or_ => picolCommandOr eval argv
  | .while_ => picolCommandWhile eval rounds argv
  | .retCodes => picolCommandRetCodes argv
  | .proc => picolCommandProc argv
  | .return_ => picolCommandReturn argv
  | .info => picolCommandInfo o
  | .forEach => picolCommandForEach o eval argv
  | .eval => picolCommandEval eval argv
  | .catch_ => picolCommandCatch eval argv
  | .list => picolCommandList o argv
  | .explode => picolCommandExplode o argv
  | .implode => picolCommandImplode o argv
  | .peek => picolCommandPeek o argv
  | .poke => picolCommandPoke o argv
  | .incr => picolCommandIncr argv
  | .append => picolCommandAppend argv
  | .listAppend => picolCommandListAppend o argv
  | .listLength => picolCommandListLength o argv
  | .listRangeOrIndex => picolCommandListRangeOrIndex o argv
  | .stringLength => picolCommandStringLength argv
  | .stringRangeOrIndex => picolCommandStringRangeOrIndex argv
  | .stringUpperOrLower => picolCommandStringUpperOrLower argv
  | .stringMatchOrRegexp => picolCommandStringMatchOrRegexp o argv
  | .array => picolCommandArray o argv
  | .split => picolCommandSplit o argv
  | .join => picolCommandJoin o argv
  | .error => picolCommandError argv
  | .exit9 => stop
  | .source => picolCommandSource o eval argv
  | .kill9 => picolCommand9Kill o argv
  | .chain9 => picolCommand9Chain o argv
  | .fork9 => picolCommand9Fork o argv
  | .wait9 => picolCommand9Wait o argv
  | .fileSize9 => picolCommand9FileSize o argv
  | .dup9 => picolCommand9Dup o argv
  | .close9 => picolCommand9Close o argv
  | .sleep9 => picolCommand9Sleep o argv
  | .makOrChgDir9 => picolCommand9MakOrChgDir o argv
  | .open9 => picolCommand9Open o argv
  | .create9 => picolCommand9Create o argv
  | .delete9 => picolCommand9Delete o argv
  | .read9 => picolCommand9Read o argv

end

end

end Frobio.Ncl
