/-
This file is about reading messages from a stream of bytes, one after the other.

`Whole` says that a stream is these messages and nothing else. A message written
after a whole stream leaves it whole, if it reads as itself; if it does not, whatever
follows, no later bytes make the stream whole again.
-/

import Mathlib.Data.List.Basic

namespace Frobio.Stream

variable {Byte Message : Type} {read : List Byte → Option (Message × List Byte)}

/-- Read that many messages, and give what is left. -/
def readMany (read : List Byte → Option (Message × List Byte)) :
    Nat → List Byte → Option (List Message × List Byte)
  | 0, stream => some ([], stream)
  | count + 1, stream =>
    (read stream).bind fun (message, rest) =>
      (readMany read count rest).map fun (messages, rest) => (message :: messages, rest)

/-- What follows a message does not change how it is read. -/
def Extends (read : List Byte → Option (Message × List Byte)) : Prop :=
  ∀ stream message rest more, read stream = some (message, rest) →
    read (stream ++ more) = some (message, rest ++ more)

/-- The stream is these messages and nothing else. -/
def Whole (read : List Byte → Option (Message × List Byte)) (messages : List Message)
    (stream : List Byte) : Prop :=
  readMany read messages.length stream = some (messages, [])

/-- Whatever follows the bytes, they do not begin with the message. -/
def Garbles (read : List Byte → Option (Message × List Byte)) (bytes : List Byte)
    (message : Message) : Prop :=
  ∀ more rest, read (bytes ++ more) ≠ some (message, rest)

theorem readMany_succ_eq_some {count : Nat} {stream rest : List Byte} {messages : List Message} :
    readMany read (count + 1) stream = some (messages, rest) ↔
      ∃ message middle later, read stream = some (message, middle) ∧
        readMany read count middle = some (later, rest) ∧ messages = message :: later := by
  rw [readMany, Option.bind_eq_some_iff]
  constructor
  · rintro ⟨⟨message, middle⟩, first, mapped⟩
    obtain ⟨⟨later, rest'⟩, others, same⟩ := Option.map_eq_some_iff.mp mapped
    rw [Prod.mk.injEq] at same
    exact ⟨message, middle, later, first, same.2 ▸ others, same.1.symm⟩
  · rintro ⟨message, middle, later, first, others, rfl⟩
    exact ⟨(message, middle), first, Option.map_eq_some_iff.mpr ⟨(later, rest), others, rfl⟩⟩

theorem Extends.readMany (extends_ : Extends read) {count : Nat} {stream rest : List Byte}
    {messages : List Message} (several : readMany read count stream = some (messages, rest))
    (more : List Byte) :
    Stream.readMany read count (stream ++ more) = some (messages, rest ++ more) := by
  induction count generalizing stream messages with
  | zero =>
    cases several
    rfl
  | succ count inductionHypothesis =>
    obtain ⟨message, middle, later, first, others, rfl⟩ := readMany_succ_eq_some.mp several
    exact readMany_succ_eq_some.mpr ⟨message, middle ++ more, later,
      extends_ stream message middle more first, inductionHypothesis others, rfl⟩

/-- Reading some messages and then others. -/
theorem readMany_add {first second : Nat} {stream middle : List Byte} {messages : List Message}
    (several : readMany read first stream = some (messages, middle)) :
    readMany read (first + second) stream =
      (readMany read second middle).map fun (later, rest) => (messages ++ later, rest) := by
  induction first generalizing stream messages with
  | zero =>
    cases several
    rw [Nat.zero_add]
    exact (congrFun Option.map_id _).symm
  | succ first inductionHypothesis =>
    obtain ⟨message, rest, later, one, others, rfl⟩ := readMany_succ_eq_some.mp several
    rw [Nat.succ_add_eq_add_succ, Nat.add_succ, readMany, one, Option.bind_some]
    dsimp only
    rw [inductionHypothesis others, Option.map_map]
    rfl

theorem whole_nil : Whole read [] [] := rfl

theorem Whole.append (extends_ : Extends read) {messages : List Message} {stream : List Byte}
    (whole : Whole read messages stream) {bytes : List Byte} {message : Message}
    (reads : read bytes = some (message, [])) :
    Whole read (messages ++ [message]) (stream ++ bytes) := by
  have before := extends_.readMany whole bytes
  rw [List.nil_append] at before
  rw [Whole, List.length_append, readMany_add before]
  have one : readMany read 1 bytes = some ([message], []) :=
    readMany_succ_eq_some.mpr ⟨message, [], [], reads, rfl, rfl⟩
  rw [List.length_singleton, one]
  rfl

theorem Whole.not_of_garbles (extends_ : Extends read) {messages later : List Message}
    {stream bytes more : List Byte} {message : Message} (whole : Whole read messages stream)
    (garbles : Garbles read bytes message) :
    ¬Whole read (messages ++ message :: later) (stream ++ (bytes ++ more)) := by
  intro also
  have before := extends_.readMany whole (bytes ++ more)
  rw [List.nil_append] at before
  rw [Whole, List.length_append, readMany_add before] at also
  obtain ⟨⟨read', rest⟩, others, same⟩ := Option.map_eq_some_iff.mp also
  rw [Prod.mk.injEq, List.append_cancel_left_eq] at same
  obtain ⟨rfl, rfl⟩ := same
  obtain ⟨first, middle, others', one, -, same⟩ := readMany_succ_eq_some.mp others
  rw [List.cons.injEq] at same
  exact garbles more middle (same.1 ▸ one)

end Frobio.Stream
