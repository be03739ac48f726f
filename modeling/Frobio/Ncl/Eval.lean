/-
This file models `picolEval` of `ncl/ncl.c`, with the gate in front of the command
functions, and the commands that are registered at the start.

`picolEval` and the command functions call each other. The depth of these calls, and
the rounds of each loop of theirs, are limited by a number that is a parameter; an
evaluation that needs more does not return.
-/

import Frobio.Ncl.Interp

namespace Frobio.Ncl

open Froblib Program

variable {World : Type}

/-! ### Calling a command -/

def noteDispatch (dispatch : Dispatch) : Picol World Unit :=
  change fun x => { x with dispatches := x.dispatches ++ [dispatch] }

section

variable (o : Outside World) (eval : CString → CString → Picol World Code) (rounds : Nat)

/-- What `picolEval` does at `call:`, with the arguments it has chosen. -/
def call (c : PicolCmd) (argv : List CString) : Picol World Code :=
  if c.minArgc ≠ 0 ∧ argv.length < c.minArgc then do
    noteDispatch ⟨c, argv.length, false⟩
    picolArityErr (arg argv 0)
  -- the source makes the same test once more, and none of `maxArgc`
  else if c.minArgc ≠ 0 ∧ argv.length < c.minArgc then do
    noteDispatch ⟨c, argv.length, false⟩
    picolArityErr (arg argv 0)
  else do
    noteDispatch ⟨c, argv.length, true⟩
    picolCmdFunc o eval rounds c.privdata argv c.func

def noSuchCommand (argv : List CString) : Picol World Code :=
  conclude (snprintf BUF_SIZE [text "No such command '", arg argv 0, text "'"]) .err

/-- A complete command and its arguments. -/
def command (argv : List CString) : Picol World Code := do
  let x ← get
  match picolGetCommand x.commands (arg argv 0) with
  | some c => call o eval rounds c argv
  | none =>
    if arg argv 0 ≠ text "unknown" then
      match picolGetCommand x.commands (text "unknown") with
      -- shift everything down one slot, and shove "unknown" in front
      | some c => call o eval rounds c (text "unknown" :: argv)
      | none => noSuchCommand argv
    else noSuchCommand argv

/-! ### Tokens -/

/-- What comes of a token: `picolEval` is done, or it goes on with these arguments. -/
inductive Next
  | done (retcode : Code)
  | go (argv : List CString)

/-- A new token is appended to the previous one or is a new argument. -/
def addToken (prevtype : PT) (t : CString) (argv : List CString) : Picol World Next :=
  if prevtype = .sep ∨ prevtype = .eol then pure (.go (argv ++ [t]))
  else
    match argv.getLast? with
    | none => stop
    | some last => pure (.go (argv.dropLast ++ [cat [last, t]]))

/-- One round of `picolEval`, once it has the token. -/
def token (prevtype : PT) (p : PicolParser) (argv : List CString) : Picol World Next :=
  let t := cut p.token
  match p.type with
  | .eof => pure (.done .ok)
  | .var => do
    match ← picolGetVar t with
    | none =>
      picolSetResult (snprintf BUF_SIZE [text "No such variable '", t, text "'"])
      pure (.done .err)
    | some v => addToken prevtype v.val argv
  | .cmd => do
    let retcode ← eval t (text "[...]")
    if retcode ≠ .ok then pure (.done retcode)
    else
      let x ← get
      addToken prevtype x.result argv
  | .sep => pure (.go argv)
  | .eol =>
    if argv = [] then pure (.go [])
    else do
      let retcode ← command o eval rounds argv
      if retcode ≠ .ok then pure (.done retcode) else pure (.go [])
  | .esc => addToken prevtype t argv
  | .str => addToken prevtype t argv

/-- The loop of `picolEval`. -/
def tokens : Nat → PicolParser → List CString → Picol World Code
  | 0, _, _ => stop
  | left + 1, p, argv => do
    let prevtype := p.type
    let p ← ofOption (picolGetToken p)
    match ← token o eval rounds prevtype p argv with
    | .done retcode => pure retcode
    | .go argv => tokens left p argv

end

/-- `picolEval`, with nested evaluations down to this depth, and so many rounds of each loop. -/
def picolEval (o : Outside World) : Nat → CString → CString → Picol World Code
  | 0, _, _ => stop
  | depth + 1, t, location => do
    picolSetResult (text "")
    let rest ← behind o t
    let retcode ← tokens o (picolEval o depth) depth depth (picolInitParser t rest) []
    if retcode = .err then
      picolAppendResult (text "; in ")
      picolAppendResult location
    pure retcode

/-! ### The core commands -/

/-- `picolRegisterCommand` of a command without private data. -/
def builtin (func : PicolCmdFunc) (minArgc maxArgc : Nat) (name : String) : PicolCmd :=
  ⟨text name, minArgc, maxArgc, func, none⟩

/-- The commands of `picolRegisterCoreCommands`, in its order. -/
def coreCommands : List PicolCmd :=
  ["+", "-", "*", "/", "%", ">", ">=", "<", "<=", "==", "!=", "bitand", "bitor", "bitxor", "<<",
    ">>", ">>>"].map (builtin .math 0 0) ++
  ["eq", "ne", "lt", "le", "gt", "ge"].map (builtin .stringRelOp 3 3) ++
  [builtin .set 2 3 "set", builtin .puts 0 0 "puts", builtin .gets 3 3 "gets",
    builtin .if_ 0 0 "if", builtin .and_ 0 0 "and", builtin .or_ 0 0 "or",
    builtin .while_ 3 3 "while", builtin .retCodes 1 1 "break", builtin .retCodes 1 1 "continue",
    builtin .proc 4 4 "proc", builtin .return_ 1 2 "return", builtin .info 1 1 "info",
    builtin .forEach 4 4 "foreach", builtin .eval 0 0 "eval", builtin .catch_ 2 3 "catch",
    builtin .list 0 0 "list", builtin .explode 2 2 "explode", builtin .implode 2 2 "implode",
    builtin .peek 2 2 "peek", builtin .poke 3 3 "poke", builtin .incr 2 3 "incr",
    builtin .append 2 0 "append", builtin .listAppend 2 0 "lappend",
    builtin .listLength 2 2 "llength", builtin .listRangeOrIndex 3 3 "lindex",
    builtin .listRangeOrIndex 4 4 "lrange", builtin .stringLength 2 2 "slength",
    builtin .stringRangeOrIndex 3 3 "sindex", builtin .stringRangeOrIndex 4 4 "srange",
    builtin .stringUpperOrLower 2 2 "supper", builtin .stringUpperOrLower 2 2 "slower",
    builtin .stringMatchOrRegexp 3 3 "smatch", builtin .stringMatchOrRegexp 3 3 "sregexp",
    builtin .array 1 4 "array", builtin .split 2 3 "split", builtin .join 2 3 "join",
    builtin .error 2 2 "error", builtin .exit9 1 2 "exit", builtin .source 2 2 "source",
    builtin .kill9 2 3 "kill", builtin .chain9 2 0 "9chain", builtin .fork9 0 0 "9fork",
    builtin .wait9 1 3 "9wait", builtin .fileSize9 2 2 "9filesize", builtin .dup9 2 2 "9dup",
    builtin .close9 2 2 "9close", builtin .sleep9 2 2 "9sleep",
    builtin .makOrChgDir9 3 3 "9chgdir", builtin .makOrChgDir9 3 3 "9makdir",
    builtin .open9 3 3 "9open", builtin .create9 4 4 "9create", builtin .delete9 2 2 "9delete",
    builtin .read9 3 3 "9read"]

/-- The interpreter after `picolInitInterp`, `picolRegisterCoreCommands` and the setting of
`rcfile`. -/
def start (world : World) : Interp World where
  callframe := ⟨0, [⟨text "rcfile", text "/dd/sys/nclrc.tcl"⟩]⟩
  parents := []
  frames := 1
  commands := coreCommands.reverse
  arrays := []
  result := text ""
  dispatches := []
  world := world

end Frobio.Ncl
