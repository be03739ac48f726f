/-
This file shows what no command function does: it does not touch the call frames, apart
from the variables of the frame it is called in, and it dispatches no command, but by
way of the evaluator and of `picolCommandCallProc`.

`Harmless` is a relation between states that does not look at anything else. If the
evaluator and `picolCommandCallProc` keep a harmless relation, so does every command
function, and so does `picolEval` if the calls of commands do.
-/

import Frobio.Ncl.Eval

namespace Frobio.Ncl

open Froblib Program

variable {World : Type}

/-- The call frames are the same, apart from the variables of the first, and nothing was
dispatched. -/
structure Quiet (x x' : Interp World) : Prop where
  parents : x'.parents = x.parents
  address : x'.callframe.address = x.callframe.address
  dispatches : x'.dispatches = x.dispatches

/-- A relation between states that allows what is quiet. -/
class Harmless (related : Interp World → Interp World → Prop) : Prop extends
    Std.Refl related, IsTrans (Interp World) related where
  quiet : ∀ {x x'}, Quiet x x' → related x x'

section

variable {stops : Bool} {related : Interp World → Interp World → Prop} [Harmless related]
  {Value : Type}

/-! ### Steps -/

theorem keeps_of_quiet {m : Picol World Value} (quiet : ∀ x, Quiet x (m x).2) :
    Keeps stops related m :=
  fun x _ => Harmless.quiet (quiet x)

theorem keeps_setResult (s : CString) : Keeps stops related (picolSetResult s) :=
  keeps_of_quiet fun _ => ⟨rfl, rfl, rfl⟩

theorem keeps_appendResult (s : CString) : Keeps stops related (picolAppendResult s) :=
  keeps_of_quiet fun _ => ⟨rfl, rfl, rfl⟩

theorem keeps_setVar (name val : CString) : Keeps stops related (picolSetVar name val) :=
  keeps_of_quiet fun _ => ⟨rfl, rfl, rfl⟩

theorem keeps_registerCommand (cmd : PicolCmd) :
    Keeps stops related (picolRegisterCommand cmd) :=
  keeps_of_quiet fun _ => ⟨rfl, rfl, rfl⟩

theorem keeps_getVar (name : CString) : Keeps stops related (picolGetVar name) :=
  Keeps.get.bind fun _ => .pure _

theorem keeps_ensureVar (name initial : CString) :
    Keeps stops related (ensureVar name initial) := by
  refine (keeps_getVar name).bind fun v => ?_
  cases v with
  | some v => exact .pure _
  | none => exact (keeps_setVar name initial).bind fun _ => .pure _

theorem keeps_conclude (result : CString) (code : Code) :
    Keeps stops related (conclude result code) :=
  (keeps_setResult result).bind fun _ => .pure _

theorem keeps_resultD (x : Int) : Keeps stops related (resultD x) := keeps_conclude _ _

theorem keeps_errorNum (err : Int) : Keeps stops related (errorNum err) := keeps_conclude _ _

theorem keeps_notFound : Keeps stops related notFound := keeps_conclude _ _

theorem keeps_arityErr (name : CString) : Keeps stops related (picolArityErr name) :=
  keeps_conclude _ _

theorem keeps_emptyOrErrorNum (e : Int) : Keeps stops related (emptyOrErrorNum e) := by
  rw [emptyOrErrorNum]
  split
  · exact keeps_errorNum e
  · exact keeps_conclude _ _

theorem keeps_intOrErrorNum (e x : Int) : Keeps stops related (intOrErrorNum e x) := by
  rw [intOrErrorNum]
  split
  · exact keeps_errorNum e
  · exact keeps_resultD x

variable (o : Outside World) (argv : List CString)

theorem keeps_os9 (call : Os9) : Keeps stops related (os9 o call) :=
  keeps_of_quiet fun _ => ⟨rfl, rfl, rfl⟩

theorem keeps_print (s : CString) : Keeps stops related (print o s) :=
  keeps_of_quiet fun _ => ⟨rfl, rfl, rfl⟩

theorem keeps_behind (s : CString) : Keeps stops related (behind o s) :=
  keeps_of_quiet fun _ => ⟨rfl, rfl, rfl⟩

theorem keeps_split (s : CString) : Keeps stops related (split o s) :=
  (keeps_behind o s).bind fun _ => .ofOption _

theorem keeps_callForNothing (call : Os9) : Keeps stops related (callForNothing o call) :=
  (keeps_os9 o call).bind fun _ => keeps_emptyOrErrorNum _

theorem keeps_callForInt (call : Os9) : Keeps stops related (callForInt o call) :=
  (keeps_os9 o call).bind fun _ => keeps_intOrErrorNum _ _

/-! ### Commands -/

theorem keeps_stringRelOp : Keeps stops related (picolCommandStringRelOp argv) := by
  have answer (b : Bool) : Keeps stops related
      (conclude (if b then text "1" else text "0") .ok : Picol World Code) := keeps_conclude _ _
  rw [picolCommandStringRelOp]
  dsimp only
  split
  · exact answer _
  split
  · exact answer _
  split
  · exact answer _
  split
  · exact answer _
  split
  · exact answer _
  split
  · exact answer _
  · exact keeps_notFound

theorem keeps_math : Keeps stops related (picolCommandMath o argv) := by
  rw [picolCommandMath]
  split
  · exact keeps_resultD _
  split
  · exact keeps_resultD _
  split
  · exact keeps_arityErr _
  split
  · exact keeps_resultD _
  · exact keeps_notFound

theorem keeps_delimOf : Keeps stops related (delimOf o argv) := Keeps.get.bind fun _ => .pure _

theorem keeps_join : Keeps stops related (picolCommandJoin o argv) :=
  (keeps_split o _).bind fun _ => (keeps_delimOf o argv).bind fun _ => keeps_conclude _ _

theorem keeps_splitCommand : Keeps stops related (picolCommandSplit o argv) :=
  (keeps_delimOf o argv).bind fun _ => keeps_conclude _ _

theorem keeps_listLength : Keeps stops related (picolCommandListLength o argv) :=
  (keeps_split o _).bind fun _ => keeps_resultD _

theorem keeps_listRangeOrIndex : Keeps stops related (picolCommandListRangeOrIndex o argv) :=
  (keeps_split o _).bind fun _ => keeps_conclude _ _

theorem keeps_implode : Keeps stops related (picolCommandImplode o argv) :=
  (keeps_split o _).bind fun _ => keeps_conclude _ _

theorem keeps_set : Keeps stops related (picolCommandSet argv) := by
  rw [picolCommandSet]
  split
  · refine (keeps_getVar _).bind fun v => ?_
    cases v with
    | none => exact keeps_conclude _ _
    | some v => exact keeps_conclude _ _
  · exact (keeps_setVar _ _).bind fun _ => keeps_conclude _ _

theorem keeps_incr : Keeps stops related (picolCommandIncr argv) :=
  (keeps_ensureVar _ _).bind fun _ => (keeps_setVar _ _).bind fun _ => keeps_conclude _ _

theorem keeps_append : Keeps stops related (picolCommandAppend argv) :=
  (keeps_ensureVar _ _).bind fun _ => (keeps_setVar _ _).bind fun _ => .pure _

theorem keeps_listAppend : Keeps stops related (picolCommandListAppend o argv) :=
  (keeps_ensureVar _ _).bind fun _ => (keeps_setVar _ _).bind fun _ => .pure _

theorem keeps_proc : Keeps stops related (picolCommandProc argv) :=
  (keeps_registerCommand _).bind fun _ => .pure _

theorem keeps_setArrays (f : List PicolArray → List PicolArray) :
    Keeps stops related (do
      change fun x : Interp World => { x with arrays := f x.arrays }
      pure Code.ok) :=
  keeps_of_quiet fun _ => ⟨rfl, rfl, rfl⟩

theorem keeps_array : Keeps stops related (picolCommandArray o argv) := by
  refine Keeps.get.bind fun x => ?_
  dsimp only
  split
  · exact keeps_conclude _ _
  · split
    · exact keeps_notFound
    · exact keeps_conclude _ _
  · split
    · exact keeps_notFound
    · exact keeps_conclude _ _
  · split
    · exact keeps_setArrays _
    · exact keeps_setArrays _
  · exact .pure _

theorem keeps_info : Keeps stops related (picolCommandInfo o) :=
  Keeps.get.bind fun _ => (keeps_print o _).bind fun _ => keeps_conclude _ _

theorem keeps_peek : Keeps stops related (picolCommandPeek o argv) :=
  Keeps.get.bind fun _ => keeps_conclude _ _

theorem keeps_poke : Keeps stops related (picolCommandPoke o argv) :=
  keeps_of_quiet fun _ => ⟨rfl, rfl, rfl⟩

theorem keeps_gets : Keeps stops related (picolCommandGets o argv) := by
  refine (keeps_os9 o _).bind fun reply => ?_
  split
  · exact (keeps_setVar _ _).bind fun _ => keeps_resultD _
  split
  · exact keeps_errorNum _
  · exact (keeps_setVar _ _).bind fun _ => keeps_resultD _

theorem keeps_putsTo (nonewline : Bool) : Keeps stops related (putsTo o nonewline argv) := by
  refine (keeps_os9 o _).bind fun reply => ?_
  split
  · exact keeps_errorNum _
  split
  · exact keeps_emptyOrErrorNum _
  refine (keeps_os9 o _).bind fun reply => ?_
  split
  · exact keeps_errorNum _
  · exact keeps_emptyOrErrorNum _

theorem keeps_puts : Keeps stops related (picolCommandPuts o argv) := by
  rw [picolCommandPuts]
  split
  · split
    · exact keeps_arityErr _
    · exact keeps_putsTo o _ _
  · split
    · exact keeps_arityErr _
    · exact keeps_putsTo o _ _

theorem keeps_read : Keeps stops related (picolCommand9Read o argv) := by
  refine (keeps_os9 o _).bind fun reply => ?_
  split
  · exact keeps_errorNum _
  · exact keeps_conclude _ _

theorem keeps_fileSize : Keeps stops related (picolCommand9FileSize o argv) := by
  refine (keeps_os9 o _).bind fun reply => ?_
  split
  · exact keeps_errorNum _
  split
  · exact keeps_conclude _ _
  · exact keeps_resultD _

theorem keeps_wait : Keeps stops related (picolCommand9Wait o argv) := by
  refine (keeps_os9 o _).bind fun reply => ?_
  split
  · exact keeps_errorNum _
  dsimp only
  split
  · refine (keeps_setVar _ _).bind fun _ => ?_
    split
    · exact (keeps_setVar _ _).bind fun _ => .pure _
    · exact .pure _
  · split
    · exact (keeps_setVar _ _).bind fun _ => .pure _
    · exact .pure _

theorem keeps_chain : Keeps stops related (picolCommand9Chain o argv) :=
  (keeps_os9 o _).bind fun _ => keeps_errorNum _

theorem keeps_fork : Keeps stops related (picolCommand9Fork o argv) := by
  rw [picolCommand9Fork]
  split
  · exact keeps_arityErr _
  · exact keeps_callForInt o _

/-! ### Commands that evaluate -/

section

variable {eval : CString → CString → Picol World Code}
  (evals : ∀ t location, Keeps stops related (eval t location))

include evals

theorem keeps_if : Keeps stops related (picolCommandIf eval argv) := by
  rw [picolCommandIf]
  split
  · exact keeps_arityErr _
  refine (evals _ _).bind fun retcode => ?_
  split
  · exact .pure _
  refine Keeps.get.bind fun x => ?_
  split
  · exact evals _ _
  split
  · exact evals _ _
  · exact .pure _

theorem keeps_andLoop (n : Int) (clauses : List CString) :
    Keeps stops related (andLoop eval n clauses) := by
  induction clauses generalizing n with
  | nil => exact keeps_resultD n
  | cons clause clauses inductionHypothesis =>
    refine (evals _ _).bind fun e => ?_
    split
    · exact .pure _
    refine Keeps.get.bind fun x => ?_
    dsimp only
    split
    · exact keeps_resultD 0
    · exact inductionHypothesis _

theorem keeps_orLoop (clauses : List CString) : Keeps stops related (orLoop eval clauses) := by
  induction clauses with
  | nil => exact keeps_resultD 0
  | cons clause clauses inductionHypothesis =>
    refine (evals _ _).bind fun e => ?_
    split
    · exact .pure _
    refine Keeps.get.bind fun x => ?_
    dsimp only
    split
    · exact keeps_resultD _
    · exact inductionHypothesis

theorem keeps_while (rounds : Nat) : Keeps stops related (picolCommandWhile eval rounds argv) := by
  induction rounds with
  | zero => exact .stop
  | succ rounds inductionHypothesis =>
    refine (evals _ _).bind fun retcode => ?_
    split
    · exact .pure _
    refine Keeps.get.bind fun x => ?_
    split
    · refine (evals _ _).bind fun retcode => ?_
      cases retcode with
      | ok => exact inductionHypothesis
      | continue_ => exact inductionHypothesis
      | err => exact .pure _
      | return_ => exact .pure _
      | break_ => exact .pure _
    · exact .pure _

theorem keeps_forEachLoop (var body : CString) (vs : List CString) :
    Keeps stops related (forEachLoop eval var body vs) := by
  induction vs with
  | nil => exact keeps_conclude _ _
  | cons v vs inductionHypothesis =>
    refine (keeps_setVar _ _).bind fun _ => (evals _ _).bind fun e => ?_
    cases e with
    | ok => exact inductionHypothesis
    | continue_ => exact inductionHypothesis
    | break_ => exact keeps_conclude _ _
    | err => exact .pure _
    | return_ => exact .pure _

theorem keeps_forEach : Keeps stops related (picolCommandForEach o eval argv) :=
  (keeps_split o _).bind fun _ => keeps_forEachLoop evals _ _ _

theorem keeps_catch : Keeps stops related (picolCommandCatch eval argv) := by
  refine (evals _ _).bind fun e => ?_
  split
  · exact Keeps.get.bind fun _ => (keeps_setVar _ _).bind fun _ => keeps_resultD _
  · exact keeps_resultD _

theorem keeps_source : Keeps stops related (picolCommandSource o eval argv) := by
  refine (keeps_os9 o _).bind fun opened => ?_
  split
  · exact keeps_errorNum _
  refine (keeps_os9 o _).bind fun stat => ?_
  split
  · exact keeps_errorNum _
  split
  · exact keeps_conclude _ _
  refine (keeps_os9 o _).bind fun reply => ?_
  split
  · exact keeps_errorNum _
  split
  · exact keeps_errorNum _
  refine (keeps_os9 o _).bind fun closed => ?_
  split
  · exact keeps_errorNum _
  · exact evals _ _

/-- Every command function keeps what the evaluator and the calls of procs keep. -/
theorem keeps_cmdFunc (rounds : Nat) (pd : Option (CString × CString))
    (calls : Keeps stops related (picolCommandCallProc o eval pd argv)) (func : PicolCmdFunc) :
    Keeps stops related (picolCmdFunc o eval rounds pd argv func) := by
  cases func with
  | callProc => exact calls
  | math => exact keeps_math o argv
  | stringRelOp => exact keeps_stringRelOp argv
  | set => exact keeps_set argv
  | puts => exact keeps_puts o argv
  | gets => exact keeps_gets o argv
  | if_ => exact keeps_if argv evals
  | and_ => exact keeps_andLoop evals 1 _
  | or_ => exact keeps_orLoop evals _
  | while_ => exact keeps_while argv evals rounds
  | retCodes => exact .pure _
  | proc => exact keeps_proc argv
  | return_ => exact keeps_conclude _ _
  | info => exact keeps_info o
  | forEach => exact keeps_forEach o argv evals
  | eval => exact evals _ _
  | catch_ => exact keeps_catch argv evals
  | list => exact keeps_conclude _ _
  | explode => exact keeps_conclude _ _
  | implode => exact keeps_implode o argv
  | peek => exact keeps_peek o argv
  | poke => exact keeps_poke o argv
  | incr => exact keeps_incr argv
  | append => exact keeps_append argv
  | listAppend => exact keeps_listAppend o argv
  | listLength => exact keeps_listLength o argv
  | listRangeOrIndex => exact keeps_listRangeOrIndex o argv
  | stringLength => exact keeps_resultD _
  | stringRangeOrIndex => exact keeps_conclude _ _
  | stringUpperOrLower => exact keeps_conclude _ _
  | stringMatchOrRegexp => exact keeps_resultD _
  | array => exact keeps_array o argv
  | split => exact keeps_splitCommand o argv
  | join => exact keeps_join o argv
  | error => exact keeps_conclude _ _
  | exit9 => exact .stop
  | source => exact keeps_source o argv evals
  | kill9 => exact keeps_callForNothing o _
  | chain9 => exact keeps_chain o argv
  | fork9 => exact keeps_fork o argv
  | wait9 => exact keeps_wait o argv
  | fileSize9 => exact keeps_fileSize o argv
  | dup9 => exact keeps_callForInt o _
  | close9 => exact keeps_callForNothing o _
  | sleep9 => exact keeps_callForNothing o _
  | makOrChgDir9 => exact keeps_callForNothing o _
  | open9 => exact keeps_callForInt o _
  | create9 => exact keeps_callForInt o _
  | delete9 => exact keeps_callForNothing o _
  | read9 => exact keeps_read o argv

/-! ### Tokens -/

variable {rounds : Nat} (calls : ∀ c argv, Keeps stops related (call o eval rounds c argv))

include calls

omit evals in
theorem keeps_command : Keeps stops related (command o eval rounds argv) := by
  refine Keeps.get.bind fun x => ?_
  split
  · exact calls _ _
  split
  · split
    · exact calls _ _
    · exact keeps_conclude _ _
  · exact keeps_conclude _ _

omit evals calls in
theorem keeps_addToken (prevtype : PT) (t : CString) :
    Keeps stops related (addToken prevtype t argv : Picol World Next) := by
  rw [addToken]
  split
  · exact .pure _
  split
  · exact .stop
  · exact .pure _

theorem keeps_token (prevtype : PT) (p : PicolParser) :
    Keeps stops related (token o eval rounds prevtype p argv) := by
  rw [token]
  cases p.type with
  | eof => exact .pure _
  | sep => exact .pure _
  | esc => exact keeps_addToken argv _ _
  | str => exact keeps_addToken argv _ _
  | var =>
    refine (keeps_getVar _).bind fun v => ?_
    cases v with
    | none => exact (keeps_setResult _).bind fun _ => .pure _
    | some v => exact keeps_addToken argv _ _
  | cmd =>
    refine (evals _ _).bind fun retcode => ?_
    split
    · exact .pure _
    · exact Keeps.get.bind fun _ => keeps_addToken argv _ _
  | eol =>
    dsimp only
    split
    · exact .pure _
    refine (keeps_command o argv calls).bind fun retcode => ?_
    split
    · exact .pure _
    · exact .pure _

theorem keeps_tokens (left : Nat) (p : PicolParser) :
    Keeps stops related (tokens o eval rounds left p argv) := by
  induction left generalizing p argv with
  | zero => exact .stop
  | succ left inductionHypothesis =>
    refine (Keeps.ofOption _).bind fun p' => (keeps_token o argv evals calls _ p').bind fun next => ?_
    cases next with
    | done retcode => exact .pure _
    | go argv => exact inductionHypothesis argv p'

end

/-- `picolEval` keeps what every call of a command keeps, if the nested evaluations do. -/
theorem keeps_picolEval
    (calls : ∀ depth, (∀ t location, Keeps stops related (picolEval o depth t location)) →
      ∀ c argv, Keeps stops related (call o (picolEval o depth) depth c argv))
    (depth : Nat) (t location : CString) : Keeps stops related (picolEval o depth t location) := by
  induction depth generalizing t location with
  | zero => exact .stop
  | succ depth inductionHypothesis =>
    refine (keeps_setResult _).bind fun _ => (keeps_behind o t).bind fun rest => ?_
    refine (keeps_tokens o [] inductionHypothesis (calls depth inductionHypothesis) depth _).bind
      fun retcode => ?_
    split
    · exact (keeps_appendResult _).bind fun _ => (keeps_appendResult _).bind fun _ => .pure _
    · exact .pure _

end

end Frobio.Ncl
