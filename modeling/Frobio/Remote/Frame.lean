/-
This file states what holds of a conversation between the waiter and Axiom in every
state it goes through.

The waiter is sending until Axiom takes the quint of a call that is answered, and
Axiom is replying until the waiter has read the whole reply. While the waiter is
sending, what it has written and Axiom has not read is the rest of one poke and then
whole requests. While Axiom is replying, what the waiter has not read and what Axiom
is going to write are together the rest of one reply. `Phase` says both, and the RAM
that is to come about in the end goes along with it.
-/

import Frobio.Remote.Conversation

namespace Frobio.Remote

open Coms Memory Ring

variable {own : Nat → Bool}

/-! ### What the calls mean -/

/-- The addresses are in memory, and none is Axiom's own. -/
def Clear (own : Nat → Bool) (addr n : Nat) : Prop :=
  addr + n ≤ SPACE ∧ ∀ a, addr ≤ a → a < addr + n → own a = false

/-- The call is about some memory that is not Axiom's own. A sum must not end just below the last
address if it begins at an even one: the loop in `CheckSum16` would step over its end. -/
def Call.Proper (own : Nat → Bool) : Call → Prop
  | pokeRam addr data => 0 < data.length ∧ Clear own addr data.length
  | peekRam addr n => 0 < n ∧ Clear own addr n
  | checkSum16Ram addr n => 0 < n ∧ Clear own addr n ∧ ¬(addr % 2 = 0 ∧ addr + n = 65535)
  | scanKeyboard => True

/-- The RAM after a call. -/
def Call.after (ram : Nat → UInt8) : Call → Nat → UInt8
  | pokeRam addr data => store ram addr data
  | _ => ram

/-- The RAM after some calls. -/
def afterAll (ram : Nat → UInt8) (calls : List Call) : Nat → UInt8 := calls.foldl Call.after ram

/-- What a call may return, if this is the RAM. -/
def Call.Answer (ram : Nat → UInt8) : Call → Result → Prop
  | pokeRam _ _, .poked => True
  | peekRam addr n, .bytes z => z = load ram addr n
  | checkSum16Ram _ _, .sum _ => True
  | scanKeyboard, .bytes z => z.length = 8
  | _, _ => False

/-- The results are what the calls may return, one after the other. -/
def Answered : (Nat → UInt8) → List Call → List Result → Prop
  | _, [], [] => True
  | ram, call :: calls, result :: results =>
    call.Answer ram result ∧ Answered (call.after ram) calls results
  | _, _, _ => False

/-- Memories that agree where Axiom's own bytes are not. -/
def Agree (own : Nat → Bool) (ram ram' : Nat → UInt8) : Prop :=
  ∀ a, own a = false → ram a = ram' a

theorem afterAll_append (ram : Nat → UInt8) (first second : List Call) :
    afterAll ram (first ++ second) = afterAll (afterAll ram first) second := by
  rw [afterAll, List.foldl_append]
  rfl

theorem Answered.append {ram : Nat → UInt8} {calls : List Call} {results : List Result}
    (answered : Answered ram calls results) {call : Call} {result : Result}
    (answer : call.Answer (afterAll ram calls) result) :
    Answered ram (calls ++ [call]) (results ++ [result]) := by
  induction calls generalizing ram results with
  | nil =>
    cases results with
    | nil => exact ⟨answer, trivial⟩
    | cons => exact answered.elim
  | cons first calls inductionHypothesis =>
    cases results with
    | nil => exact answered.elim
    | cons one results => exact ⟨answered.1, inductionHypothesis answered.2 answer⟩

section

variable {ram ram' ram'' : Nat → UInt8}

theorem Agree.refl (ram : Nat → UInt8) : Agree own ram ram := fun _ _ => rfl

theorem Agree.trans (first : Agree own ram ram') (second : Agree own ram' ram'') :
    Agree own ram ram'' :=
  fun a clear => (first a clear).trans (second a clear)

theorem Agree.store (agree : Agree own ram ram') (addr : Nat) (data : List UInt8) :
    Agree own (Memory.store ram addr data) (Memory.store ram' addr data) := by
  intro a clear
  rw [Memory.store, Memory.store, agree a clear]

theorem Agree.after (agree : Agree own ram ram') (call : Call) :
    Agree own (call.after ram) (call.after ram') := by
  cases call with
  | pokeRam addr data => exact agree.store addr data
  | _ => exact agree

theorem Agree.afterAll (agree : Agree own ram ram') (calls : List Call) :
    Agree own (afterAll ram calls) (afterAll ram' calls) := by
  induction calls generalizing ram ram' with
  | nil => exact agree
  | cons call calls inductionHypothesis => exact inductionHypothesis (agree.after call)

/-- Memory that is nobody's own loads the same. -/
theorem Agree.load (agree : Agree own ram ram') {addr n : Nat} (clear : Clear own addr n) :
    load ram addr n = Memory.load ram' addr n :=
  load_congr fun i inside => agree _ (clear.2 _ (by omega) (by omega))

end

/-! ### Messages -/

def Call.IsPoke : Call → Prop
  | pokeRam _ _ => True
  | _ => False

/-- The bytes a call writes. -/
def Call.request : Call → List UInt8
  | pokeRam addr data => (pokeRam addr data).quint.bytes ++ data
  | call => call.quint.bytes

/-- The bytes a call is answered with. -/
def Call.Reply (ram : Nat → UInt8) : Call → List UInt8 → Prop
  | pokeRam _ _, _ => False
  | peekRam addr n, bytes => bytes = (newQuint Coms.CMD_DATA n addr).bytes ++ load ram addr n
  | checkSum16Ram _ _, bytes => ∃ sum, bytes = (newQuint Coms.CMD_SUM 0 sum).bytes
  | scanKeyboard, bytes =>
    ∃ keys, keys.length = 8 ∧ bytes = (newQuint Coms.CMD_KEYBOARD 8 0).bytes ++ keys

/-- The bytes after the first five of the answer. -/
def Call.Payload (ram : Nat → UInt8) : Call → List UInt8 → Prop
  | peekRam addr n, bytes => bytes = load ram addr n
  | scanKeyboard, bytes => bytes.length = 8
  | _, _ => False

/-- The bytes the waiter has still to write. -/
def Stage.unwritten : Stage → List UInt8
  | data bytes => bytes
  | _ => []

/-- Axiom is not answering, and these are the bytes of a poke that it has still to read. -/
inductive Resting (own : Nat → Bool) : Task → List UInt8 → Prop
  | polling : Resting own .polling []
  | peeked (p : Nat) : Resting own (.peek p 0) []
  | poked (p : Nat) : Resting own (.poke p 0) []
  | poking (p : Nat) (bytes : List UInt8) (clear : Clear own p bytes.length) :
      Resting own (.poke p bytes.length) bytes

/-- The RAM once Axiom has read these bytes of the poke it is in. -/
def settled (ram : Nat → UInt8) (bytes : List UInt8) : Task → Nat → UInt8
  | .poke p _ => store ram p bytes
  | _ => ram

/-- The bytes of its reply to the call that Axiom has still to write. -/
inductive Coming (own : Nat → Bool) (ram : Nat → UInt8) : Call → Task → List UInt8 → Prop
  | polling (call : Call) : Coming own ram call .polling []
  | peeked (call : Call) (p : Nat) : Coming own ram call (.peek p 0) []
  | peeking (call : Call) (p n : Nat) (clear : Clear own p n) :
      Coming own ram call (.peek p n) (load ram p n)
  | summing (addr n begin_ end_ sum sum' : Nat) (below : end_ < SPACE)
      (odd : end_ = 65535 → begin_ % 2 = 1) :
      Coming own ram (.checkSum16Ram addr n) (.checkSum16 begin_ end_ sum)
        (newQuint Coms.CMD_SUM 0 sum').bytes
  | replying (call : Call) (keys : List UInt8) (eight : keys.length = 8) :
      Coming own ram call (.reply keys) keys

/-- What stands between the ends, if `now` is the RAM that all calls so far should give and
`active` the call the waiter is in. -/
inductive Phase (own : Nat → Bool) (now : Nat → UInt8) (x : State) : List Call → Prop
  /-- No answer is asked for. -/
  | pokes (active queue : List Call) (bytes : List UInt8)
      (stage : x.stage = .idle ∧ active = [] ∨
        ∃ addr data, x.stage = .data data ∧ active = [.pokeRam addr data])
      (nothing : x.toWaiter = []) (resting : Resting own x.task bytes)
      (unread : x.toAxiom ++ x.stage.unwritten = bytes ++ queue.flatMap Call.request)
      (proper : ∀ call ∈ queue, call.Proper own ∧ call.IsPoke)
      (agree : Agree own (afterAll (settled x.ram bytes x.task) queue) now) : Phase own now x active
  /-- Axiom has not got to the call that is to be answered. -/
  | asked (call : Call) (queue : List Call) (bytes : List UInt8) (stage : x.stage = .header call)
      (nothing : x.toWaiter = []) (resting : Resting own x.task bytes)
      (unread : x.toAxiom = bytes ++ (queue.flatMap Call.request ++ call.quint.bytes))
      (proper : ∀ call ∈ queue, call.Proper own ∧ call.IsPoke)
      (last : call.Proper own ∧ ¬call.IsPoke)
      (agree : Agree own (afterAll (settled x.ram bytes x.task) queue) now) :
      Phase own now x [call]
  /-- Axiom is answering, or has answered. -/
  | replying (call : Call) (bytes : List UInt8) (stage : x.stage = .header call)
      (nothing : x.toAxiom = []) (coming : Coming own x.ram call x.task bytes)
      (reply : call.Reply now (x.toWaiter ++ bytes)) (agree : Agree own x.ram now) :
      Phase own now x [call]
  | payload (call : Call) (n : Nat) (bytes : List UInt8) (stage : x.stage = .payload n)
      (nothing : x.toAxiom = []) (coming : Coming own x.ram call x.task bytes)
      (length : (x.toWaiter ++ bytes).length = n)
      (payload : call.Payload now (x.toWaiter ++ bytes)) (agree : Agree own x.ram now) :
      Phase own now x [call]

/-- The invariant of a conversation that began with these calls and this RAM. -/
structure InFrame (own : Nat → Bool) (calls : List Call) (ram : Nat → UInt8) (x : State) :
    Prop where
  proper : ∀ call ∈ calls, call.Proper own
  books : ∃ finished active, calls = finished ++ active ++ x.todo ∧
    Answered ram finished x.results ∧ Phase own (afterAll ram (finished ++ active)) x active

theorem inFrame_start {calls : List Call} (ram : Nat → UInt8)
    (proper : ∀ call ∈ calls, call.Proper own) : InFrame own calls ram (start calls ram) where
  proper := proper
  books := ⟨[], [], rfl, trivial, .pokes [] [] [] (.inl ⟨rfl, rfl⟩) rfl .polling rfl
    (fun _ member => absurd member List.not_mem_nil) (.refl ram)⟩

end Frobio.Remote
