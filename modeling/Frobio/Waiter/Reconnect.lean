/-
This file is about the hellos of a session: `GetHellos` of `lemma/waiter.go` reads them
into a table, and `ReconnectPort` of `lemma/session.go` sends a table to another server,
in the order in which the map is iterated.

The hello of key 0 ends the hellos. It is in every table, so it ends them where the map
has it, and the marker that `ReconnectPort` sends after the table is not read any more.
-/

import Frobio.Coms.Quint
import Frobio.Lib.SlashPath

namespace Frobio.Waiter

open Coms SlashPath

/-! ### Hellos -/

def CMD_HELLO : UInt8 := 1

/-- The map `ses.Hellos`. -/
abbrev Hellos := Nat → Option Text

theorem length_lt_of_readQuintAndPayload {stream rest : Text} {hello : Message}
    (read : readQuintAndPayload stream = some (hello, rest)) : rest.length < stream.length := by
  obtain ⟨q, rfl, -, -⟩ := readQuintAndPayload_eq_some.mp read
  rw [List.length_append, List.length_append, Quint.length_bytes]
  omega

/-- The loop of `GetHellos`; `none` is a panic. -/
def getHellosFrom (dict : Hellos) (stream : Text) : Option (Hellos × Text) :=
  match _ : readQuintAndPayload stream with
  | none => none
  | some (hello, rest) =>
    if hello.command ≠ CMD_HELLO then none
    else
      let dict' := Function.update dict hello.p (some hello.payload)
      if hello.p = 0 then some (dict', rest) else getHellosFrom dict' rest
termination_by stream.length
decreasing_by
  rename_i read _ _
  exact length_lt_of_readQuintAndPayload read

def getHellos (stream : Text) : Option (Hellos × Text) := getHellosFrom (fun _ => none) stream

/-- What `ReconnectPort` sends before it copies, when the map is iterated in this order. -/
def reconnectHellos (order : List (Nat × Text)) : Text :=
  order.flatMap (fun (p, payload) => (Message.of CMD_HELLO p payload).bytes) ++
    (newQuint CMD_HELLO 0 0).bytes

/-- An order in which the map can be iterated: each entry once. -/
structure Iterates (table : Hellos) (order : List (Nat × Text)) : Prop where
  entries : ∀ p payload, (p, payload) ∈ order ↔ table p = some payload
  once : (order.map Prod.fst).Nodup

/-- The other server reads the table, and then just what is copied. -/
def RoundTrip (table : Hellos) (order : List (Nat × Text)) : Prop :=
  ∀ copied, getHellos (reconnectHellos order ++ copied) = some (table, copied)

/-- The table of these entries, the last of a key standing for it. -/
def enter (dict : Hellos) (entries : List (Nat × Text)) : Hellos :=
  entries.foldl (fun dict entry => Function.update dict entry.1 (some entry.2)) dict

/-! ### One hello -/

section

variable {dict table : Hellos} {stream rest : Text} {hello : Message} {order : List (Nat × Text)}

theorem getHellosFrom_of_read (read : readQuintAndPayload stream = some (hello, rest)) :
    getHellosFrom dict stream =
      if hello.command ≠ CMD_HELLO then none
      else if hello.p = 0 then some (Function.update dict hello.p (some hello.payload), rest)
      else getHellosFrom (Function.update dict hello.p (some hello.payload)) rest := by
  rw [getHellosFrom]
  split
  · rename_i stuck
    rw [stuck] at read
    cases read
  · rename_i other rest' read'
    rw [read, Option.some.injEq, Prod.mk.injEq] at read'
    obtain ⟨rfl, rfl⟩ := read'
    rfl

theorem getHellosFrom_of_stuck (stuck : readQuintAndPayload stream = none) :
    getHellosFrom dict stream = none := by
  rw [getHellosFrom]
  split
  · rfl
  · rename_i read
    rw [stuck] at read
    cases read

/-- What a loop of `GetHellos` gets, it gets from these entries, the last of which has key 0. -/
theorem getHellosFrom_eq_some (got : getHellosFrom dict stream = some (table, rest)) :
    ∃ before payload, (∀ entry ∈ before, entry.1 ≠ 0) ∧ payload.length < 65536 ∧
      (∀ entry ∈ before, entry.1 < 65536 ∧ entry.2.length < 65536) ∧
        table = enter dict (before ++ [(0, payload)]) := by
  induction size : stream.length using Nat.strongRec generalizing stream dict with
  | ind length inductionHypothesis =>
    cases read : readQuintAndPayload stream with
    | none =>
      rw [getHellosFrom_of_stuck read] at got
      cases got
    | some pair =>
      obtain ⟨hello, onward⟩ := pair
      have shorter := length_lt_of_readQuintAndPayload read
      obtain ⟨q, -, whole, same⟩ := readQuintAndPayload_eq_some.mp read
      have small : hello.p < 65536 ∧ hello.payload.length < 65536 := by
        rw [whole]
        refine ⟨?_, q.n_lt⟩
        rw [same]
        exact q.p_lt
      rw [getHellosFrom_of_read read] at got
      split at got
      · cases got
      · split at got
        · rename_i zero
          rw [Option.some.injEq, Prod.mk.injEq] at got
          refine ⟨[], hello.payload, nofun, small.2, nofun, ?_⟩
          rw [← got.1, zero]
          rfl
        · rename_i other
          obtain ⟨before, payload, others, fits, fit, rfl⟩ :=
            inductionHypothesis onward.length (size ▸ shorter) got rfl
          refine ⟨(hello.p, hello.payload) :: before, payload, ?_, fits, ?_, rfl⟩
          · exact List.forall_mem_cons.mpr ⟨other, others⟩
          · exact List.forall_mem_cons.mpr ⟨small, fit⟩

/-! ### Reading what was sent -/

theorem getHellosFrom_hello {p : Nat} {payload : Text} (small : p < 65536)
    (fits : payload.length < 65536) :
    getHellosFrom dict ((Message.of CMD_HELLO p payload).bytes ++ stream) =
      if p = 0 then some (Function.update dict p (some payload), stream)
      else getHellosFrom (Function.update dict p (some payload)) stream := by
  have read : readQuintAndPayload ((Message.of CMD_HELLO p payload).bytes ++ stream) =
      some (Message.of CMD_HELLO p payload, stream) :=
    extends_readQuintAndPayload _ _ _ stream (readQuintAndPayload_of_lt fits small)
  have hello : (Message.of CMD_HELLO p payload).command = CMD_HELLO := rfl
  rw [getHellosFrom_of_read read, if_neg (not_not_intro hello)]
  rfl

/-- The hello of key 0 ends the hellos where the map has it. -/
theorem getHellosFrom_reconnectHellos {before after : List (Nat × Text)} {payload : Text}
    (others : ∀ entry ∈ before, entry.1 ≠ 0)
    (small : ∀ entry ∈ before, entry.1 < 65536 ∧ entry.2.length < 65536)
    (fits : payload.length < 65536) :
    getHellosFrom dict (reconnectHellos (before ++ (0, payload) :: after) ++ stream) =
      some (enter dict (before ++ [(0, payload)]), reconnectHellos after ++ stream) := by
  induction before generalizing dict with
  | nil =>
    rw [List.nil_append, reconnectHellos, List.flatMap_cons, List.append_assoc, List.append_assoc,
      getHellosFrom_hello (by decide) fits, if_pos rfl, reconnectHellos, List.append_assoc]
    rfl
  | cons entry before inductionHypothesis =>
    obtain ⟨p, payload'⟩ := entry
    obtain ⟨other, others⟩ := List.forall_mem_cons.mp others
    obtain ⟨here, small⟩ := List.forall_mem_cons.mp small
    have onward := @inductionHypothesis (Function.update dict p (some payload')) others small
    rw [reconnectHellos, List.append_assoc] at onward
    rw [List.cons_append, reconnectHellos, List.flatMap_cons, List.append_assoc, List.append_assoc,
      getHellosFrom_hello here.1 here.2, if_neg other, onward]
    rfl

theorem reconnectHellos_ne_nil (order : List (Nat × Text)) : reconnectHellos order ≠ [] := by
  intro empty
  have length := congrArg List.length empty
  rw [reconnectHellos, List.length_append, Quint.length_bytes] at length
  exact absurd length (Nat.succ_ne_zero _)

/-! ### Tables -/

theorem enter_of_not_mem {entries : List (Nat × Text)} {p : Nat}
    (missing : p ∉ entries.map Prod.fst) : enter dict entries p = dict p := by
  induction entries generalizing dict with
  | nil => rfl
  | cons entry rest inductionHypothesis =>
    rw [List.map_cons, List.mem_cons, not_or] at missing
    exact (inductionHypothesis missing.2).trans (Function.update_of_ne missing.1 _ _)

theorem enter_of_mem {entries : List (Nat × Text)} {p : Nat} {payload : Text}
    (once : (entries.map Prod.fst).Nodup) (member : (p, payload) ∈ entries) :
    enter dict entries p = some payload := by
  induction entries generalizing dict with
  | nil => cases member
  | cons entry rest inductionHypothesis =>
    rw [List.map_cons, List.nodup_cons] at once
    rcases List.mem_cons.mp member with rfl | later
    · exact (enter_of_not_mem once.1).trans (Function.update_self _ _ _)
    · exact inductionHypothesis once.2 later

theorem mem_of_enter {entries : List (Nat × Text)} {p : Nat} {payload : Text}
    (found : enter dict entries p = some payload) :
    (p, payload) ∈ entries ∨ dict p = some payload := by
  induction entries generalizing dict with
  | nil => exact .inr found
  | cons entry rest inductionHypothesis =>
    rcases inductionHypothesis found with later | before
    · exact .inl (List.mem_cons_of_mem _ later)
    · change Function.update dict entry.1 (some entry.2) p = some payload at before
      by_cases here : p = entry.1
      · rw [here, Function.update_self, Option.some.injEq] at before
        refine .inl (List.mem_cons.mpr (.inl ?_))
        rw [here, ← before]
      · rw [Function.update_of_ne here] at before
        exact .inr before

/-- An order of a table that was read has the key 0 once, and what it has fits in a hello. -/
theorem exists_split (got : getHellos stream = some (table, rest))
    (iterates : Iterates table order) :
    ∃ before payload after, order = before ++ (0, payload) :: after ∧
      (∀ entry ∈ before, entry.1 ≠ 0) ∧ payload.length < 65536 ∧
        ∀ entry ∈ before, entry.1 < 65536 ∧ entry.2.length < 65536 := by
  obtain ⟨entries, payload, -, fits, small, same⟩ := getHellosFrom_eq_some got
  have zero : table 0 = some payload := by
    rw [same, enter, List.foldl_append]
    show Function.update (enter (fun _ => none) entries : Nat → Option Text) 0 (some payload) 0 = _
    rw [Function.update_self]
  obtain ⟨before, after, split⟩ := List.append_of_mem ((iterates.entries 0 payload).mpr zero)
  refine ⟨before, payload, after, split, ?_, fits, ?_⟩
  · intro entry member here
    have once := iterates.once
    rw [split, List.map_append, List.map_cons, List.nodup_append] at once
    exact once.2.2 entry.1 (List.mem_map_of_mem member) 0 List.mem_cons_self here
  · intro entry member
    have listed : entry ∈ order := by
      rw [split]
      exact List.mem_append_left _ member
    have found : table entry.1 = some entry.2 := (iterates.entries entry.1 entry.2).mp listed
    rw [same] at found
    rcases mem_of_enter found with old | wrong
    · rcases List.mem_append.mp old with old | last
      · exact small entry old
      · rw [List.mem_singleton, Prod.mk.injEq] at last
        rw [last.1, last.2]
        exact ⟨Nat.zero_lt_succ _, fits⟩
    · cases wrong

/-- The other server reads the whole table just when the map has the key 0 last. -/
theorem reads_table_iff (got : getHellos stream = some (table, rest))
    (iterates : Iterates table order) (copied : Text) :
    (getHellos (reconnectHellos order ++ copied)).map Prod.fst = some table ↔
      ∃ before payload, order = before ++ [(0, payload)] := by
  obtain ⟨before, payload, after, rfl, others, fits, small⟩ := exists_split got iterates
  rw [getHellos, getHellosFrom_reconnectHellos others small fits, Option.map_some,
    Option.some.injEq]
  have once := iterates.once
  constructor
  · intro same
    cases after with
    | nil => exact ⟨before, payload, rfl⟩
    | cons entry later =>
      -- the first entry behind the key 0 is lost
      have found := (iterates.entries entry.1 entry.2).mp
        (List.mem_append_right _ (List.mem_cons_of_mem _ List.mem_cons_self))
      rw [← same] at found
      rcases mem_of_enter found with old | wrong
      · rw [List.append_cons, List.map_append, List.nodup_append] at once
        exact absurd rfl
          (once.2.2 entry.1 (List.mem_map_of_mem old) entry.1 List.mem_cons_self)
      · cases wrong
  · rintro ⟨before', payload', last⟩
    obtain rfl : after = [] := by
      rcases List.eq_nil_or_concat after with empty | ⟨middle, final, rfl⟩
      · exact empty
      · rw [List.concat_eq_append, ← List.cons_append, ← List.append_assoc] at last
        have same := (List.append_inj' last rfl).2
        rw [List.singleton_inj] at same
        rw [same, List.map_append, List.map_cons, List.nodup_append, List.nodup_cons] at once
        refine absurd ?_ once.2.1.1
        rw [List.concat_eq_append, List.map_append]
        exact List.mem_append_right _ (List.mem_singleton_self 0)
    funext p
    cases found : table p with
    | none =>
      refine enter_of_not_mem fun member => ?_
      obtain ⟨entry, listed, rfl⟩ := List.mem_map.mp member
      exact nomatch found.symm.trans ((iterates.entries entry.1 entry.2).mp listed)
    | some payload'' => exact enter_of_mem once ((iterates.entries p payload'').mpr found)

/-- However the map is iterated, the other server leaves bytes of the hellos to what follows. -/
theorem not_roundTrip (got : getHellos stream = some (table, rest))
    (iterates : Iterates table order) : ¬RoundTrip table order := by
  obtain ⟨before, payload, after, rfl, others, fits, small⟩ := exists_split got iterates
  intro whole
  have read := whole []
  rw [getHellos, getHellosFrom_reconnectHellos others small fits, Option.some.injEq,
    Prod.mk.injEq, List.append_nil] at read
  exact reconnectHellos_ne_nil after read.2

end

theorem iterates_enter {entries : List (Nat × Text)} (once : (entries.map Prod.fst).Nodup) :
    Iterates (enter (fun _ => none) entries) entries where
  entries p payload := by
    refine ⟨enter_of_mem once, fun found => ?_⟩
    rcases mem_of_enter found with member | wrong
    · exact member
    · cases wrong
  once := once

/-- A server that is sent only the marker has a table of key 0. -/
theorem getHellosFrom_marker : getHellosFrom dict (reconnectHellos []) =
    some (Function.update dict 0 (some []), []) := by
  have read := @getHellosFrom_hello dict [] 0 [] (by decide) (by decide)
  rw [if_pos rfl, List.append_nil] at read
  exact read

/-- Three hellos as they came, and in the order the map has them, with that of key 0 between the
others. -/
def greetings : List (Nat × Text) := [(3, [1, 2]), (7, [5]), (0, [9])]

def mixed : List (Nat × Text) := [(7, [5]), (0, [9]), (3, [1, 2])]

theorem enter_greetings : enter (fun _ => none) greetings = enter (fun _ => none) mixed := by
  show Function.update (Function.update (Function.update _ 3 _) 7 _) 0 _ =
    Function.update (Function.update (Function.update _ 7 _) 0 _) 3 _
  rw [Function.update_comm (show (3 : Nat) ≠ 7 by decide),
    Function.update_comm (show (3 : Nat) ≠ 0 by decide)]

theorem not_roundTrip_greeting : ¬RoundTrip (enter (fun _ => none) greetings) mixed := by
  have got := @getHellosFrom_reconnectHellos (fun _ => none) [] [(3, [1, 2]), (7, [5])] [] [9]
    (by decide) (by decide) (by decide)
  rw [enter_greetings]
  exact not_roundTrip (got.trans (congrArg (fun table => some (table, _)) enter_greetings))
    (iterates_enter (by decide))

/-- A table of two hellos, of which the map has that of key 0 first. -/
theorem not_roundTrip_zeroFirst : ¬∀ stream table rest order,
    getHellos stream = some (table, rest) → Iterates table order → RoundTrip table order := by
  intro law
  have got : getHellos (reconnectHellos [(1, [7])]) =
      some (enter (fun _ => none) [(1, [7]), (0, [])], []) := by
    rw [reconnectHellos, List.flatMap_singleton, getHellos,
      getHellosFrom_hello (by decide) (by decide), if_neg (by decide)]
    exact getHellosFrom_marker
  have same : enter (fun _ => none) [(1, [7]), (0, [])] =
      enter (fun _ => none) [(0, []), (1, [7])] :=
    Function.update_comm (by decide) _ _ _
  have read := law _ _ _ [(0, []), (1, [7])] got (same ▸ iterates_enter (by decide)) []
  have ends := @getHellosFrom_reconnectHellos (fun _ => none) [] [] [(1, [7])] [] nofun nofun
    (by decide)
  rw [getHellos, ← List.nil_append [(0, []), (1, [7])], ends, Option.some.injEq, Prod.mk.injEq,
    List.append_nil] at read
  exact reconnectHellos_ne_nil _ read.2

end Frobio.Waiter
