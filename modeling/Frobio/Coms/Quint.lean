/-
This file models `lemma/coms/coms.go` and `lemma/util/hilo.go`: the five-byte
quint that starts every message of the protocol, its command numbers, and the two
ways a connection is read, a quint at a time and a given number of bytes at a
time. Of `lemma/util/util.go` it has what `Format` makes of a string and of a number.
-/

import Mathlib.Data.UInt
import Mathlib.Tactic
import Frobio.Lib.Stream

namespace Frobio.Coms

/-! ### Texts -/

/-- The bytes of a text of ASCII characters. -/
def ascii (text : String) : List UInt8 := text.toList.map fun c => UInt8.ofNat c.toNat

/-- `%d`. -/
def decimal (n : Nat) : List UInt8 := (Nat.toDigits 10 n).map fun c => UInt8.ofNat c.toNat

/-! ### Words as two bytes -/

def hi (x : Nat) : UInt8 := UInt8.ofNat (x / 256)

def lo (x : Nat) : UInt8 := UInt8.ofNat x

def hiLo (a b : UInt8) : Nat := a.toNat * 256 + b.toNat

theorem hiLo_lt (a b : UInt8) : hiLo a b < 65536 := by
  have := a.toNat_lt
  have := b.toNat_lt
  unfold hiLo
  omega

/-- Splitting a number and joining it again keeps its low sixteen bits. -/
@[simp] theorem hiLo_hi_lo (x : Nat) : hiLo (hi x) (lo x) = x % 65536 := by
  simp only [hiLo, hi, lo, UInt8.toNat_ofNat']
  omega

/-- Two bytes are the number that they are split from. -/
theorem hi_hiLo (a b : UInt8) : hi (hiLo a b) = a := by
  have small := b.toNat_lt
  refine UInt8.toNat.inj ?_
  rw [hi, hiLo, UInt8.toNat_ofNat']
  have := a.toNat_lt
  omega

theorem lo_hiLo (a b : UInt8) : lo (hiLo a b) = b := by
  have small := b.toNat_lt
  refine UInt8.toNat.inj ?_
  rw [lo, hiLo, UInt8.toNat_ofNat']
  omega

theorem hi_mod (x : Nat) : hi (x % 65536) = hi x := by
  refine UInt8.toNat.inj ?_
  rw [hi, hi, UInt8.toNat_ofNat', UInt8.toNat_ofNat']
  omega

theorem lo_mod (x : Nat) : lo (x % 65536) = lo x := by
  refine UInt8.toNat.inj ?_
  rw [lo, lo, UInt8.toNat_ofNat', UInt8.toNat_ofNat']
  omega

/-! ### Command numbers -/

def CMD_POKE : UInt8 := 0
def CMD_KEYBOARD : UInt8 := 193
def CMD_SUM : UInt8 := 194
def CMD_BEGIN_MUX : UInt8 := 196
def CMD_MID_MUX : UInt8 := 197
def CMD_END_MUX : UInt8 := 198
def CMD_PEEK : UInt8 := 203
def CMD_DATA : UInt8 := 204
def CMD_CACHE_READ : UInt8 := 205
def CMD_CACHE_OKAY : UInt8 := 206
def CMD_BLOCK_READ : UInt8 := 207
def CMD_BLOCK_WRITE : UInt8 := 208
def CMD_BLOCK_OKAY : UInt8 := 210
def CMD_BOOT_BEGIN : UInt8 := 211
def CMD_BOOT_END : UInt8 := 213
def CMD_LEMMAN_REQUEST : UInt8 := 214
def CMD_LEMMAN_REPLY : UInt8 := 215

/-! ### Quints -/

/-- The Go type `[5]byte`. -/
structure Quint where
  q0 : UInt8
  q1 : UInt8
  q2 : UInt8
  q3 : UInt8
  q4 : UInt8
  deriving DecidableEq, Repr

namespace Quint

def command (q : Quint) : UInt8 := q.q0

def n (q : Quint) : Nat := hiLo q.q1 q.q2

def p (q : Quint) : Nat := hiLo q.q3 q.q4

/-- The bytes `q[:]`. -/
def bytes (q : Quint) : List UInt8 := [q.q0, q.q1, q.q2, q.q3, q.q4]

theorem n_lt (q : Quint) : q.n < 65536 := hiLo_lt _ _

theorem p_lt (q : Quint) : q.p < 65536 := hiLo_lt _ _

@[simp] theorem length_bytes (q : Quint) : q.bytes.length = 5 := rfl

end Quint

def newQuint (cmd : UInt8) (n p : Nat) : Quint :=
  ⟨cmd, hi n, lo n, hi p, lo p⟩

@[simp] theorem command_newQuint (cmd : UInt8) (n p : Nat) : (newQuint cmd n p).command = cmd := rfl

@[simp] theorem n_newQuint (cmd : UInt8) (n p : Nat) : (newQuint cmd n p).n = n % 65536 :=
  hiLo_hi_lo n

@[simp] theorem p_newQuint (cmd : UInt8) (n p : Nat) : (newQuint cmd n p).p = p % 65536 :=
  hiLo_hi_lo p

/-! ### Reading a connection -/

/-- `io.ReadFull(conn, q[:])`: the next quint, once its five bytes have arrived. -/
def readQuint : List UInt8 → Option (Quint × List UInt8)
  | q0 :: q1 :: q2 :: q3 :: q4 :: rest => some (⟨q0, q1, q2, q3, q4⟩, rest)
  | _ => none

/-- `io.ReadFull` into a buffer of `count` bytes. -/
def readFull (count : Nat) (stream : List UInt8) : Option (List UInt8 × List UInt8) :=
  if count ≤ stream.length then some (stream.take count, stream.drop count) else none

@[simp] theorem readQuint_bytes (q : Quint) (rest : List UInt8) :
    readQuint (q.bytes ++ rest) = some (q, rest) := rfl

theorem bytes_append_inj {q q' : Quint} {rest rest' : List UInt8}
    (same : q.bytes ++ rest = q'.bytes ++ rest') : q = q' ∧ rest = rest' := by
  have read := congrArg readQuint same
  rw [readQuint_bytes, readQuint_bytes, Option.some_inj, Prod.mk.injEq] at read
  exact read

theorem readQuint_eq_some {stream rest : List UInt8} {q : Quint} :
    readQuint stream = some (q, rest) ↔ stream = q.bytes ++ rest := by
  constructor
  · intro parsed
    unfold readQuint at parsed
    split at parsed
    · simp only [Option.some.injEq, Prod.mk.injEq] at parsed
      obtain ⟨rfl, rfl⟩ := parsed
      rfl
    · cases parsed
  · rintro rfl
    exact readQuint_bytes q rest

theorem readFull_append {count : Nat} {payload : List UInt8} (whole : payload.length = count)
    (rest : List UInt8) : readFull count (payload ++ rest) = some (payload, rest) := by
  subst whole
  simp [readFull]

theorem readFull_eq_some {count : Nat} {stream payload rest : List UInt8} :
    readFull count stream = some (payload, rest) ↔
      stream = payload ++ rest ∧ payload.length = count := by
  constructor
  · intro parsed
    unfold readFull at parsed
    split at parsed
    · rename_i enough
      simp only [Option.some.injEq, Prod.mk.injEq] at parsed
      obtain ⟨rfl, rfl⟩ := parsed
      exact ⟨(List.take_append_drop count stream).symm, by rw [List.length_take]; omega⟩
    · cases parsed
  · rintro ⟨rfl, whole⟩
    exact readFull_append whole rest

/-! ### Messages -/

/-- What `ReadQuintAndPayload` returns, with the count in the quint. -/
structure Message where
  command : UInt8
  n : Nat
  p : Nat
  payload : List UInt8
  deriving DecidableEq

/-- The message of this payload. -/
def Message.of (command : UInt8) (p : Nat) (payload : List UInt8) : Message :=
  ⟨command, payload.length, p, payload⟩

/-- What is written for a message: `WriteQuintAndPayload`, `ReplyOnChannel` and `LowPutOne`. -/
def Message.bytes (m : Message) : List UInt8 := (newQuint m.command m.n m.p).bytes ++ m.payload

def readQuintAndPayload (stream : List UInt8) : Option (Message × List UInt8) :=
  (readQuint stream).bind fun (q, rest) =>
    (readFull q.n rest).map fun (bb, rest) => (⟨q.command, q.n, q.p, bb⟩, rest)

theorem readQuintAndPayload_eq_some {stream rest : List UInt8} {m : Message} :
    readQuintAndPayload stream = some (m, rest) ↔
      ∃ q : Quint, stream = q.bytes ++ (m.payload ++ rest) ∧ m.payload.length = q.n ∧
        m = ⟨q.command, q.n, q.p, m.payload⟩ := by
  rw [readQuintAndPayload, Option.bind_eq_some_iff]
  constructor
  · rintro ⟨⟨q, middle⟩, first, mapped⟩
    obtain ⟨⟨payload, rest'⟩, second, same⟩ := Option.map_eq_some_iff.mp mapped
    rw [Prod.mk.injEq] at same
    obtain ⟨rfl, rfl⟩ := same
    obtain ⟨rfl, whole⟩ := readFull_eq_some.mp second
    exact ⟨q, readQuint_eq_some.mp first, whole, rfl⟩
  · rintro ⟨q, rfl, whole, same⟩
    refine ⟨(q, m.payload ++ rest), readQuint_bytes q _, ?_⟩
    dsimp only
    rw [readFull_append whole, Option.map_some, ← same]

theorem extends_readQuintAndPayload : Stream.Extends readQuintAndPayload := by
  intro stream m rest more reads
  obtain ⟨q, rfl, whole, same⟩ := readQuintAndPayload_eq_some.mp reads
  refine readQuintAndPayload_eq_some.mpr ⟨q, ?_, whole, same⟩
  rw [List.append_assoc, List.append_assoc]

/-- A quint with the payload's length, and the payload, are read as they were meant if the length
and the channel fit their two bytes. -/
theorem readQuintAndPayload_of_lt {command : UInt8} {p : Nat} {payload : List UInt8}
    (fits : payload.length < 65536) (small : p < 65536) :
    readQuintAndPayload (Message.of command p payload).bytes =
      some (Message.of command p payload, []) := by
  refine readQuintAndPayload_eq_some.mpr ⟨newQuint command payload.length p, ?_, ?_, ?_⟩
  · rw [List.append_nil]
    rfl
  · rw [n_newQuint, Nat.mod_eq_of_lt fits]
    rfl
  · rw [n_newQuint, p_newQuint, command_newQuint, Nat.mod_eq_of_lt fits, Nat.mod_eq_of_lt small]
    rfl

/-- No payload is read that is too long for the count. -/
theorem garbles_of_le {m : Message} (long : 65536 ≤ m.payload.length) (bytes : List UInt8) :
    Stream.Garbles readQuintAndPayload bytes m := by
  intro more rest reads
  obtain ⟨q, -, whole, -⟩ := readQuintAndPayload_eq_some.mp reads
  exact absurd (whole ▸ q.n_lt) (Nat.not_lt.mpr long)

/-- If other bytes come between a quint and its payload, and begin otherwise, the payload is not
read. -/
theorem garbles_of_between {m : Message} {q : Quint} {first other : UInt8}
    {between payload : List UInt8} (begins : m.payload = first :: payload) (apart : other ≠ first) :
    Stream.Garbles readQuintAndPayload (q.bytes ++ other :: between) m := by
  intro more rest reads
  obtain ⟨q', same, -, -⟩ := readQuintAndPayload_eq_some.mp reads
  rw [List.append_assoc] at same
  have after := (List.append_inj same (by rw [Quint.length_bytes, Quint.length_bytes])).2
  rw [begins, List.cons_append, List.cons_append, List.cons_eq_cons] at after
  exact apart after.1

end Frobio.Coms
