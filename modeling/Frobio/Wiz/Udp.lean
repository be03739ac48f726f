/-
This file models `UdpRecvCommon` of `wiz/wiz5100s.c`, and compares what a sequence of
calls returns with the datagrams that the chip stored.

A call first tells the chip to take over the read pointer that the last call left, then
waits for an interrupt, and then reads a header and the bytes it announces. It leaves the
read pointer behind all that was stored when it looked, and keeps only eleven bits of it;
and if the buffer is too small it leaves it where it was.
-/

import Frobio.Wiz.Receive
import Frobio.Lib.Transcript

namespace Frobio.Wiz

open Coms Memory Ring Transcript

/-! ### The function -/

def RX_BUF (n : Nat) : Nat := 0x6000 + n * RX_SIZE

def SOCK_UDP : UInt8 := 0x22

/-- What the chip does on its own. -/
inductive Event
  | arrive (d : Datagram)
  /-- Interrupts of other kinds. -/
  | interrupt (bits : UInt8)

def Chip.event (ring : Nat) (c : Chip) : Event → Chip
  | .arrive d => c.arrive ring d
  | .interrupt bits => { c with ir := c.ir ||| (bits &&& ~~~IR_RECV) }

def Chip.events (ring : Nat) (c : Chip) (events : List Event) : Chip :=
  events.foldl (Chip.event ring) c

/-- What the chip does during a call: before each look at the interrupts, between the last one and
the look at the sizes, and from then on. -/
structure During where
  polls : List (List Event)
  noticed : List Event
  reading : List Event

inductive Outcome
  /-- The call has not returned yet. -/
  | waits
  | problem (text : String)
  | good (payload addr port : List UInt8)
  deriving DecidableEq

/-- The loop that waits for an interrupt. The outcome is absent if there is one. -/
def poll (ring : Nat) (wait : Bool) (c : Chip) : List (List Event) → Chip × Option Outcome
  | [] => (c, some .waits)
  | events :: rest =>
    let c' := c.events ring events
    if c'.ir ≠ 0 then (c', none)
    else if wait then poll ring wait c' rest
    else (c', some (.problem "NotYet"))

/-- The call up to the look at the sizes. The outcome is absent if it goes on. -/
def awaitDatagram (socknum : Nat) (wait : Bool) (during : During) (c : Chip) :
    Chip × Option Outcome :=
  if 3 < socknum then (c, some (.problem "NoAvailableSocket"))
  else if c.status ≠ SOCK_UDP then (c, some (.problem "NotReady"))
  else
    match poll (RX_BUF socknum) wait ({ c with ir := 0 } : Chip).recv during.polls with
    | (c', some outcome) => (c', some outcome)
    | (c', none) =>
      let c'' := ({ c' with ir := 0 } : Chip).events (RX_BUF socknum) during.noticed
      if c'.ir ≠ IR_RECV then (c'', some (.problem "BadRecv")) else (c'', none)

/-- Bytes of the ring, one by one. -/
def readRing (memory : Nat → UInt8) (buf : Nat) : Nat → Nat → List UInt8
  | 0, _ => []
  | count + 1, ptr => memory (buf + ptr) :: readRing memory buf count ((ptr + 1) % RX_SIZE)

/-- The rest of the call. -/
def readDatagram (buf size : Nat) (reading : List Event) (c : Chip) : Chip × Outcome :=
  let recvSize := c.rsr
  let ptr := c.rxRd % RX_SIZE
  let hdr := readRing c.memory buf UDP_HEADER ptr
  let len := hiLo (hdr.getD 6 0) (hdr.getD 7 0)
  let payload := readRing c.memory buf len ((ptr + UDP_HEADER) % RX_SIZE)
  -- what arrives meanwhile is stored apart from what is read
  let c' := c.events buf reading
  if size < len then (c', .problem "TooBig")
  else
    ({ c' with rxRd := (c.rxRd + recvSize) % RX_SIZE },
      .good payload (hdr.take 4) ((hdr.drop 4).take 2))

def udpRecvCommon (socknum size : Nat) (wait : Bool) (during : During) (c : Chip) :
    Chip × Outcome :=
  match awaitDatagram socknum wait during c with
  | (c', some outcome) => (c', outcome)
  | (c', none) => readDatagram (RX_BUF socknum) size during.reading c'

/-! ### Sequences of calls -/

structure Session where
  chip : Chip
  /-- The buffer sizes and the outcomes of the calls that read a header. -/
  handled : List (Nat × Outcome)

inductive Action
  | event (e : Event)
  | call (size : Nat) (wait : Bool) (during : During)

def note (size : Nat) : Outcome → List (Nat × Outcome)
  | .good payload addr port => [(size, .good payload addr port)]
  | .problem text => if text = "TooBig" then [(size, .problem text)] else []
  | .waits => []

def step (socknum : Nat) (s : Session) : Action → Session × Option Outcome
  | .event e => (⟨s.chip.event (RX_BUF socknum) e, s.handled⟩, none)
  | .call size wait during =>
    let result := udpRecvCommon socknum size wait during s.chip
    (⟨result.1, s.handled ++ note size result.2⟩, some result.2)

/-! ### The law -/

/-- A datagram is delivered with its address and its bytes, or reported if it is too big. -/
def Delivers (entry : Nat × Outcome) (d : Datagram) : Prop :=
  entry.2 = if d.data.length ≤ entry.1 then .good d.data d.addr d.port else .problem "TooBig"

/-- The datagrams that were stored and not handled. -/
def Session.unread (s : Session) : List Datagram := s.chip.stored.drop s.handled.length

/-- The calls handled the first datagrams, in order, and the others are still in the ring. -/
structure Intact (socknum : Nat) (s : Session) : Prop where
  delivered : List.Forall₂ Delivers s.handled (s.chip.stored.take s.handled.length)
  rest : Holds (RX_BUF socknum) s.chip (allBytes s.unread)

/-- If the call gets to read, one datagram is there and it fits, and the read pointer behind it
has eleven bits. -/
def OneFits (socknum : Nat) (s : Session) : Action → Prop
  | .event _ => True
  | .call size wait during =>
    let seen := awaitDatagram socknum wait during s.chip
    seen.2 = none → ∃ d, seen.1.stored.drop s.handled.length = [d] ∧ d.data.length ≤ size ∧
      (s.chip.rxRd + d.bytes.length) % 65536 < RX_SIZE

/-! ### What events keep -/

section

variable {ring n : Nat} {c c' c'' : Chip}

/-- The datagrams after the first `n` are in the ring. -/
structure Left (ring n : Nat) (c : Chip) : Prop where
  count : n ≤ c.stored.length
  holds : Holds ring c (allBytes (c.stored.drop n))

/-- There are some, if the interrupt says so. -/
structure Waiting (ring n : Nat) (c : Chip) : Prop extends Left ring n c where
  told : c.ir &&& IR_RECV ≠ 0 → c.stored.drop n ≠ []

/-- More datagrams may have been stored. -/
structure Grows (c c' : Chip) : Prop where
  rxRd : c'.rxRd = c.rxRd
  rxStart : c'.rxStart = c.rxStart
  stored : ∃ new, c'.stored = c.stored ++ new

theorem Grows.refl (c : Chip) : Grows c c := ⟨rfl, rfl, [], (List.append_nil _).symm⟩

theorem Grows.trans (first : Grows c c') (second : Grows c' c'') : Grows c c'' := by
  obtain ⟨new, stored⟩ := first.stored
  obtain ⟨new', stored'⟩ := second.stored
  refine ⟨second.rxRd.trans first.rxRd, second.rxStart.trans first.rxStart, new ++ new', ?_⟩
  rw [stored', stored, List.append_assoc]

theorem Grows.take (grows : Grows c c') (count : n ≤ c.stored.length) :
    c'.stored.take n = c.stored.take n := by
  obtain ⟨new, stored⟩ := grows.stored
  rw [stored, List.take_append_of_le_length count]

theorem other_bits (ir bits : UInt8) :
    (ir ||| (bits &&& ~~~IR_RECV)) &&& IR_RECV = ir &&& IR_RECV := by
  have none : ~~~IR_RECV &&& IR_RECV = 0 := by decide
  rw [or_and_bits, UInt8.and_assoc, none, UInt8.and_zero, UInt8.or_zero]

theorem Left.event (left : Left ring n c) (e : Event) :
    Left ring n (c.event ring e) ∧ Grows c (c.event ring e) := by
  obtain ⟨count, holds⟩ := left
  cases e with
  | interrupt bits =>
    exact ⟨⟨count, ⟨holds.window, holds.rxRd, holds.rxStart, holds.rxWr, holds.rsr, holds.behind⟩⟩,
      rfl, rfl, [], (List.append_nil _).symm⟩
  | arrive d =>
    by_cases room : c.rsr + d.bytes.length ≤ RX_SIZE
    · have stored : (c.arrive ring d).stored = c.stored ++ [d] := by rw [arrive_of_room room]
      have one : allBytes [d] = d.bytes := by
        rw [allBytes_cons]
        exact List.append_nil _
      refine ⟨⟨?_, ?_⟩, ?_, ?_, [d], stored⟩
      · show n ≤ (c.arrive ring d).stored.length
        rw [stored, List.length_append]
        omega
      · show Holds ring (c.arrive ring d) (allBytes ((c.arrive ring d).stored.drop n))
        rw [stored, List.drop_append_of_le_length count, allBytes_append, one]
        exact holds.arrive room
      · show (c.arrive ring d).rxRd = c.rxRd
        rw [arrive_of_room room]
      · show (c.arrive ring d).rxStart = c.rxStart
        rw [arrive_of_room room]
    · have same : c.event ring (.arrive d) = c := arrive_of_full room
      rw [same]
      exact ⟨⟨count, holds⟩, .refl c⟩

theorem Waiting.event (waiting : Waiting ring n c) (e : Event) :
    Waiting ring n (c.event ring e) ∧ Grows c (c.event ring e) := by
  obtain ⟨left, grows⟩ := waiting.toLeft.event e
  refine ⟨⟨left, fun bit => ?_⟩, grows⟩
  cases e with
  | interrupt bits =>
    refine waiting.told ?_
    rw [← other_bits c.ir bits]
    exact bit
  | arrive d =>
    by_cases room : c.rsr + d.bytes.length ≤ RX_SIZE
    · show (c.arrive ring d).stored.drop n ≠ []
      rw [arrive_of_room room]
      show (c.stored ++ [d]).drop n ≠ []
      rw [List.drop_append_of_le_length waiting.count]
      exact List.append_ne_nil_of_right_ne_nil _ (List.cons_ne_nil _ _)
    · have same : c.event ring (.arrive d) = c := arrive_of_full room
      rw [same] at bit ⊢
      exact waiting.told bit

theorem Left.events (left : Left ring n c) (events : List Event) :
    Left ring n (c.events ring events) ∧ Grows c (c.events ring events) := by
  induction events generalizing c with
  | nil => exact ⟨left, .refl c⟩
  | cons e rest inductionHypothesis =>
    obtain ⟨one, grows⟩ := left.event e
    obtain ⟨all, more⟩ := inductionHypothesis one
    exact ⟨all, grows.trans more⟩

theorem Waiting.events (waiting : Waiting ring n c) (events : List Event) :
    Waiting ring n (c.events ring events) ∧ Grows c (c.events ring events) := by
  induction events generalizing c with
  | nil => exact ⟨waiting, .refl c⟩
  | cons e rest inductionHypothesis =>
    obtain ⟨one, grows⟩ := waiting.event e
    obtain ⟨all, more⟩ := inductionHypothesis one
    exact ⟨all, grows.trans more⟩

/-- The interrupt register is cleared. -/
theorem waiting_clear (count : n ≤ c.stored.length)
    (holds : Holds ring c (allBytes (c.stored.drop n))) : Waiting ring n { c with ir := 0 } := by
  refine ⟨⟨count, ⟨holds.window, holds.rxRd, holds.rxStart, holds.rxWr, holds.rsr, holds.behind⟩⟩,
    fun bit => absurd ?_ bit⟩
  exact UInt8.zero_and

/-- RECV says whether something is left. -/
theorem Waiting.recv (waiting : Waiting ring n c) (silent : c.ir = 0) : Waiting ring n c.recv := by
  obtain ⟨⟨count, holds⟩, -⟩ := waiting
  obtain ⟨taken, size⟩ := holds.recv
  have stored : c.recv.stored = c.stored := by
    rw [Chip.recv]
    split <;> rfl
  refine ⟨⟨stored ▸ count, stored ▸ taken⟩, fun bit => ?_⟩
  rw [stored]
  intro nothing
  rw [nothing] at size
  have unchanged : c.recv.ir = c.ir := by
    rw [Chip.recv] at size ⊢
    split
    · rfl
    · rename_i left
      rw [if_neg left] at size
      exact absurd size left
  rw [unchanged, silent, UInt8.zero_and] at bit
  exact bit rfl

/-! ### Waiting for a datagram -/

theorem Waiting.poll (waiting : Waiting ring n c) (wait : Bool) (polls : List (List Event)) :
    Waiting ring n (poll ring wait c polls).1 ∧ Grows c (Wiz.poll ring wait c polls).1 := by
  induction polls generalizing c with
  | nil => exact ⟨waiting, .refl c⟩
  | cons events rest inductionHypothesis =>
    obtain ⟨one, grows⟩ := waiting.events events
    rw [Wiz.poll]
    split
    · exact ⟨one, grows⟩
    · split
      · obtain ⟨all, more⟩ := inductionHypothesis one
        exact ⟨all, grows.trans more⟩
      · exact ⟨one, grows⟩

theorem Grows.drop_ne_nil (grows : Grows c c') (left : c.stored.drop n ≠ []) :
    c'.stored.drop n ≠ [] := by
  obtain ⟨new, stored⟩ := grows.stored
  rw [stored, List.drop_append]
  exact List.append_ne_nil_of_left_ne_nil left _

/-- When the call goes on, the chip has all its bytes back but those of the datagrams that are
still to be read, and there are some. -/
theorem awaitDatagram_keeps {socknum : Nat} (count : n ≤ c.stored.length)
    (holds : Holds (RX_BUF socknum) c (allBytes (c.stored.drop n))) (wait : Bool)
    (during : During) :
    let seen := awaitDatagram socknum wait during c
    n ≤ seen.1.stored.length ∧ Holds (RX_BUF socknum) seen.1 (allBytes (seen.1.stored.drop n)) ∧
      seen.1.stored.take n = c.stored.take n ∧ seen.1.rxRd = c.rxRd ∧
      (seen.2 = none → seen.1.rxStart = seen.1.rxRd ∧ seen.1.stored.drop n ≠ []) := by
  intro seen
  have seen_eq : seen = awaitDatagram socknum wait during c := rfl
  rw [awaitDatagram] at seen_eq
  split at seen_eq
  · rw [seen_eq]
    exact ⟨count, holds, rfl, rfl, by simp⟩
  split at seen_eq
  · rw [seen_eq]
    exact ⟨count, holds, rfl, rfl, by simp⟩
  have started := (waiting_clear count holds).recv rfl
  have recv : ({ c with ir := 0 } : Chip).recv.stored = c.stored ∧
      ({ c with ir := 0 } : Chip).recv.rxRd = c.rxRd ∧
      ({ c with ir := 0 } : Chip).recv.rxStart = c.rxRd := by
    rw [Chip.recv]
    split <;> exact ⟨rfl, rfl, rfl⟩
  obtain ⟨polled, grows⟩ := started.poll wait during.polls
  have same := grows.take (recv.1 ▸ count)
  split at seen_eq
  · rename_i c' outcome result
    rw [result] at polled grows same
    rw [seen_eq]
    exact ⟨polled.count, polled.holds, same.trans (congrArg _ recv.1), grows.rxRd.trans recv.2.1,
      by simp⟩
  · rename_i c' result
    rw [result] at polled grows same
    obtain ⟨noticed, more⟩ :=
      (waiting_clear polled.count polled.holds).events during.noticed
    have keeps := more.take (show n ≤ c'.stored.length from polled.count)
    have all := keeps.trans (same.trans (congrArg _ recv.1))
    have rxRd := more.rxRd.trans (grows.rxRd.trans recv.2.1)
    have rxStart := more.rxStart.trans (grows.rxStart.trans recv.2.2)
    split at seen_eq
    · rw [seen_eq]
      exact ⟨noticed.count, noticed.holds, all, rxRd, by simp⟩
    · rename_i irq
      rw [seen_eq]
      refine ⟨noticed.count, noticed.holds, all, rxRd, fun _ => ⟨rxStart.trans rxRd.symm, ?_⟩⟩
      refine more.drop_ne_nil (polled.told ?_)
      rw [not_not.mp irq]
      decide

theorem poll_outcome {wait : Bool} {polls : List (List Event)} {outcome : Outcome}
    (early : (Wiz.poll ring wait c polls).2 = some outcome) (size : Nat) :
    note size outcome = [] := by
  induction polls generalizing c with
  | nil =>
    cases early
    rfl
  | cons events rest inductionHypothesis =>
    rw [Wiz.poll] at early
    split at early
    · cases early
    · split at early
      · exact inductionHypothesis early
      · cases early
        rfl

/-- A call that does not get to read has handled nothing. -/
theorem awaitDatagram_outcome {socknum : Nat} {wait : Bool} {during : During} {outcome : Outcome}
    (early : (awaitDatagram socknum wait during c).2 = some outcome) (size : Nat) :
    note size outcome = [] := by
  rw [awaitDatagram] at early
  split at early
  · cases early
    rfl
  split at early
  · cases early
    rfl
  split at early
  · rename_i result
    cases early
    exact poll_outcome (congrArg Prod.snd result) size
  · split at early
    · cases early
      rfl
    · cases early

/-! ### Reading a datagram -/

theorem readRing_eq (memory : Nat → UInt8) (buf count start : Nat) :
    readRing memory buf count (start % RX_SIZE) = window buf RX_SIZE memory start count := by
  induction count generalizing start with
  | zero => rfl
  | succ count inductionHypothesis =>
    rw [readRing, Nat.mod_add_mod, inductionHypothesis, Nat.add_comm count 1, window_add]
    rfl

/-- What a call reads is the first datagram of the ring. -/
theorem readDatagram_eq {buf : Nat} {d : Datagram} {rest : List Datagram}
    (holds : Holds buf c (allBytes (d :: rest))) (size : Nat) (reading : List Event) :
    readDatagram buf size reading c =
      if size < d.data.length then (c.events buf reading, .problem "TooBig")
      else ({ c.events buf reading with rxRd := (c.rxRd + c.rsr) % RX_SIZE },
        .good d.data d.addr d.port) := by
  have fits := holds.length_le
  rw [allBytes_cons] at holds fits
  have whole := holds.front
  rw [List.length_append, d.length_bytes] at fits
  rw [d.bytes_eq, List.length_append, d.length_header, window_add] at whole
  obtain ⟨header, data⟩ := List.append_inj whole
    ((length_window ..).trans d.length_header.symm)
  have small : d.data.length < 65536 := by
    simp only [RX_SIZE] at fits
    omega
  obtain ⟨len, addr, port⟩ := d.header_fields small
  have hdr : readRing c.memory buf UDP_HEADER (c.rxRd % RX_SIZE) = d.header := by
    rw [readRing_eq, header]
  have payload : readRing c.memory buf d.data.length ((c.rxRd % RX_SIZE + UDP_HEADER) % RX_SIZE) =
      d.data := by
    rw [Nat.mod_add_mod, readRing_eq, data]
  simp only [readDatagram, hdr, len, addr, port, payload]

/-- The read pointer is right after the call if nothing else was there, the datagram fits the
buffer, and the pointer has eleven bits. -/
theorem readDatagram_holds_iff {buf : Nat} {d : Datagram} {rest : List Datagram}
    (count : n ≤ c.stored.length) (holds : Holds buf c (allBytes (c.stored.drop n)))
    (first : c.stored.drop n = d :: rest) (caughtUp : c.rxStart = c.rxRd) (size : Nat)
    (reading : List Event) :
    Holds buf (readDatagram buf size reading c).1
        (allBytes ((readDatagram buf size reading c).1.stored.drop (n + 1))) ↔
      rest = [] ∧ d.data.length ≤ size ∧ (c.rxRd + d.bytes.length) % 65536 < RX_SIZE := by
  obtain ⟨later, grows⟩ := (Left.mk count holds).events reading
  obtain ⟨new, stored⟩ := grows.stored
  have left : (c.events buf reading).stored.drop n = d :: (rest ++ new) := by
    rw [stored, List.drop_append_of_le_length count, first]
    rfl
  have next : (c.events buf reading).stored.drop (n + 1) = rest ++ new := by
    rw [← List.tail_drop, left, List.tail_cons]
  rw [first] at holds
  have size_eq : c.rsr = d.bytes.length + (allBytes rest).length := by
    have behind := holds.behind
    rw [caughtUp, allBytes_cons, List.length_append] at behind
    omega
  have room := holds.rsr
  have header : UDP_HEADER ≤ d.bytes.length := by
    rw [d.length_bytes]
    omega
  have held := later.holds
  rw [left, allBytes_cons] at held
  have moved : ∀ {rxRd : Nat}, rxRd < 65536 →
      (Holds buf { c.events buf reading with rxRd := rxRd } (allBytes (rest ++ new)) ↔
        rxRd = ((c.events buf reading).rxRd + d.bytes.length) % 65536) := held.advance
  rw [readDatagram_eq holds size reading]
  by_cases big : size < d.data.length
  · rw [if_pos big]
    show Holds buf (c.events buf reading) (allBytes ((c.events buf reading).stored.drop (n + 1))) ↔ _
    rw [next]
    refine iff_of_false (fun wrong => ?_) fun right => absurd right.2.1 (Nat.not_le.mpr big)
    have stays := (moved held.rxRd).mp wrong
    rw [grows.rxRd] at stays
    simp only [RX_SIZE, UDP_HEADER] at room header
    omega
  · rw [if_neg big]
    show Holds buf _ (allBytes ((c.events buf reading).stored.drop (n + 1))) ↔ _
    have small : (c.rxRd + c.rsr) % RX_SIZE < 65536 :=
      (Nat.mod_lt _ (by decide)).trans (by decide)
    rw [next, moved small, grows.rxRd, ← allBytes_eq_nil_iff]
    have below : d.data.length ≤ size := Nat.not_lt.mp big
    simp only [RX_SIZE, UDP_HEADER] at room header ⊢
    omega

end

/-! ### Every sequence of calls -/

section

variable {socknum : Nat} {s : Session}

theorem Intact.count (intact : Intact socknum s) : s.handled.length ≤ s.chip.stored.length := by
  have same := intact.delivered.length_eq
  rw [List.length_take] at same
  omega

/-- The bytes are still there if nothing was handled. -/
theorem intact_of_unhandled {c : Chip} (intact : Intact socknum s)
    (holds : Holds (RX_BUF socknum) c (allBytes (c.stored.drop s.handled.length)))
    (same : c.stored.take s.handled.length = s.chip.stored.take s.handled.length) :
    Intact socknum ⟨c, s.handled⟩ :=
  ⟨by rw [same]; exact intact.delivered, holds⟩

/-- One call more is right if it delivers the next datagram, and the others are still there. -/
theorem intact_of_handled_iff {c : Chip} {entry : Nat × Outcome} {d : Datagram}
    {rest : List Datagram} (intact : Intact socknum s)
    (same : c.stored.take s.handled.length = s.chip.stored.take s.handled.length)
    (first : c.stored.drop s.handled.length = d :: rest) (delivers : Delivers entry d) :
    Intact socknum ⟨c, s.handled ++ [entry]⟩ ↔
      Holds (RX_BUF socknum) c (allBytes (c.stored.drop (s.handled.length + 1))) := by
  have one : (s.handled ++ [entry]).length = s.handled.length + 1 := List.length_append
  have taken : c.stored.take (s.handled.length + 1) =
      s.chip.stored.take s.handled.length ++ [d] := by
    rw [List.take_add, same, first]
    rfl
  constructor
  · intro after
    have rest := after.rest
    rw [Session.unread] at rest
    rw [← one]
    exact rest
  · intro holds
    refine ⟨?_, ?_⟩
    · show List.Forall₂ Delivers (s.handled ++ [entry])
        (c.stored.take (s.handled ++ [entry]).length)
      rw [one, taken]
      exact List.rel_append intact.delivered (.cons delivers .nil)
    · show Holds (RX_BUF socknum) c (allBytes (c.stored.drop (s.handled ++ [entry]).length))
      rw [one]
      exact holds

theorem intact_event (intact : Intact socknum s) (e : Event) :
    Intact socknum ⟨s.chip.event (RX_BUF socknum) e, s.handled⟩ := by
  obtain ⟨left, grows⟩ := (Left.mk intact.count intact.rest).event e
  exact intact_of_unhandled intact left.holds (grows.take intact.count)

theorem note_of_handled {entry : Nat × Outcome} {d : Datagram} (delivers : Delivers entry d) :
    note entry.1 entry.2 = [entry] := by
  obtain ⟨size, outcome⟩ := entry
  have outcome_eq : outcome = _ := delivers
  rw [outcome_eq]
  split <;> rfl

theorem intact_call_iff (intact : Intact socknum s) (size : Nat) (wait : Bool) (during : During) :
    Intact socknum (step socknum s (.call size wait during)).1 ↔
      OneFits socknum s (.call size wait during) := by
  obtain ⟨count, holds, same, rxRd, goesOn⟩ :=
    awaitDatagram_keeps intact.count intact.rest wait during
  rw [step, udpRecvCommon, OneFits]
  obtain ⟨c, outcome, seen⟩ : ∃ c outcome,
    awaitDatagram socknum wait during s.chip = (c, outcome) := ⟨_, _, rfl⟩
  rw [seen] at count holds same rxRd goesOn ⊢
  cases outcome with
  | some outcome =>
    have nothing := awaitDatagram_outcome (congrArg Prod.snd seen) size
    show Intact socknum ⟨c, s.handled ++ note size outcome⟩ ↔ _
    rw [nothing, List.append_nil]
    exact iff_of_true (intact_of_unhandled intact holds same) nofun
  | none =>
    obtain ⟨caughtUp, nonempty⟩ := goesOn rfl
    obtain ⟨d, rest, first⟩ := List.exists_cons_of_ne_nil nonempty
    have reads := readDatagram_eq (first ▸ holds) size during.reading
    have exact := readDatagram_holds_iff count holds first caughtUp size during.reading
    obtain ⟨-, grows⟩ := (Left.mk count holds).events during.reading
    obtain ⟨new, stored⟩ := grows.stored
    obtain ⟨result, result_eq⟩ : ∃ result,
      result = readDatagram (RX_BUF socknum) size during.reading c := ⟨_, rfl⟩
    have log : result.1.stored = c.stored ++ new := by
      rw [result_eq, reads, ← stored]
      split <;> rfl
    have delivers : Delivers (size, result.2) d := by
      rw [result_eq, reads, Delivers]
      by_cases big : size < d.data.length
      · rw [if_pos big, if_neg (Nat.not_le.mpr big)]
      · rw [if_neg big, if_pos (Nat.not_lt.mp big)]
    have firstAfter : result.1.stored.drop s.handled.length = d :: (rest ++ new) := by
      rw [log, List.drop_append_of_le_length count, first]
      rfl
    have sameAfter : result.1.stored.take s.handled.length =
        s.chip.stored.take s.handled.length := by
      rw [log, List.take_append_of_le_length count, same]
    show Intact socknum ⟨(readDatagram (RX_BUF socknum) size during.reading c).1,
      s.handled ++ note size (readDatagram (RX_BUF socknum) size during.reading c).2⟩ ↔ _
    rw [← result_eq, note_of_handled delivers,
      intact_of_handled_iff intact sameAfter firstAfter delivers, result_eq, exact]
    show rest = [] ∧ d.data.length ≤ size ∧ (c.rxRd + d.bytes.length) % 65536 < RX_SIZE ↔ _
    rw [show c.rxRd = s.chip.rxRd from rxRd, show c.stored.drop s.handled.length = _ from first]
    constructor
    · rintro ⟨alone, fits, small⟩ -
      exact ⟨d, by rw [alone], fits, small⟩
    · intro one
      obtain ⟨other, only, fits, small⟩ := one rfl
      cases only
      exact ⟨rfl, fits, small⟩

/-- The calls deliver every datagram once, in order, with its address and its bytes, and skip those
that are too big, just when each call that reads finds one datagram only, that fits its buffer, and
the read pointer behind it has eleven bits. -/
theorem intact_iff_oneFits (socknum : Nat) (start : Intact socknum s) (actions : List Action) :
    Always (step socknum) (fun s action => Intact socknum (step socknum s action).1) s actions ↔
      Always (step socknum) (OneFits socknum) s actions := by
  refine always_iff_always (Intact socknum) (OneFits socknum) (fun s action intact => ?_) start
    actions
  cases action with
  | event e => exact iff_of_true (intact_event intact e) trivial
  | call size wait during => exact intact_call_iff intact size wait during

/-- A socket that was just opened. -/
def opened : Session := ⟨⟨fun _ => 0, 0, 0, 0, 0, SOCK_UDP, []⟩, []⟩

theorem intact_opened : Intact 0 opened :=
  ⟨.nil, ⟨rfl, by decide, by decide, rfl, by decide, rfl⟩⟩

/-- A datagram of the waiter, and one of another host. -/
def fromWaiter : Datagram := ⟨[10, 23, 23, 23], [2, 43], [72, 105], by decide, rfl⟩

def fromOther : Datagram := ⟨[10, 23, 23, 7], [0, 123], [1], rfl, rfl⟩

/-- A datagram is received, and then another one. -/
theorem intact_iff_oneFits_inTurn :
    Always (step 0) (fun s action => Intact 0 (step 0 s action).1) opened
      [.event (.arrive fromWaiter), .call 512 true ⟨[[]], [], []⟩,
        .call 512 true ⟨[[], [.arrive fromOther]], [], []⟩] :=
  (intact_iff_oneFits 0 intact_opened _).mpr
    ⟨trivial, fun _ => ⟨fromWaiter, rfl, by decide, by decide⟩,
      fun _ => ⟨fromOther, rfl, by decide, by decide⟩, trivial⟩

/-- If two datagrams are there, the second one is lost. -/
theorem not_intact_twoQueued :
    ¬Always (step 0) (fun s action => Intact 0 (step 0 s action).1) opened
      [.event (.arrive fromWaiter), .event (.arrive fromOther),
        .call 512 true ⟨[[]], [], []⟩] := by
  rintro ⟨-, -, intact, -⟩
  have wrong := intact.rest.rxWr
  revert wrong
  decide

end

end Frobio.Wiz
