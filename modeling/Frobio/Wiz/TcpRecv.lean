/-
This file models `TcpRecvUntilOrNotYet` of `wiz/wiz5100s.c` with `WizGetNUntil`, and shows of
which bytes in the receive ring it takes the beginning up to the byte that was asked for.

Both calls of `WizGetNUntil` are given zero as that byte. What lies behind the end of the ring is
read in a second piece, at its own place in the buffer.
-/

import Frobio.Lib.Delimited
import Frobio.Wiz.Tcp

namespace Frobio.Tcp

open Memory Ring Axcore Delimited

/-! ### The function -/

def WIZ_RING_SIZE : Nat := 2048

/-- The bytes that the loop puts in the buffer. -/
def WizGetNUntil (memory : Nat → UInt8) (untilByte : UInt8) (reg : Nat) : Nat → List UInt8
  | 0 => []
  | size + 1 =>
    if memory reg = untilByte then [memory reg]
    else memory reg :: WizGetNUntil memory untilByte (reg + 1) size

/-- How the call ends: with the assertion, with `NotYet`, with `TcpRecvBad`, or with so much of the
buffer. -/
inductive Received
  | asserted
  | notYet
  | bad
  | good (bytes : List UInt8)

section

variable (socknum : Nat) (course : Course)

/-- The bytes are read from the ring, in one piece or in two. -/
def readUntil (start bytes_waiting : Nat) (untilByte : UInt8) (buf : Nat → UInt8) (w : World) :
    List UInt8 × World :=
  let rxbuf := (sock socknum).rxRing
  let w := turn socknum course w
  if start + bytes_waiting ≥ WIZ_RING_SIZE then
    let first_n := WIZ_RING_SIZE - start
    let second_n := bytes_waiting - first_n
    let cc := WizGetNUntil w.chip.memory 0 (rxbuf + start) first_n
    let buf := store buf 0 cc
    if buf (cc.length - 1) ≠ untilByte then
      let w := turn socknum course w
      let cc' := WizGetNUntil w.chip.memory 0 rxbuf second_n
      (load (store buf first_n cc') 0 (cc.length + cc'.length), w)
    else (load buf 0 cc.length, w)
  else
    let cc := WizGetNUntil w.chip.memory 0 (rxbuf + start) bytes_waiting
    (load (store buf 0 cc) 0 cc.length, w)

/-- The pointer is moved and the command RECV given. -/
def takeOver (rd count : Nat) (w : World) : World :=
  let w := turn socknum course w
  let w := turn socknum course
    { w with chip := { w.chip with rxRd := (rd + count) % 65536 } }
  { w with chip := { w.chip with rxStart := w.chip.rxRd } }

def TcpRecvUntilOrNotYet (rounds : Nat) (buf : Nat → UInt8) (n : Nat) (untilByte : UInt8)
    (w : World) : Option (Received × World) :=
  if ¬n < 1200 then some (.asserted, w) else
  let w := turn socknum course w
  let bytes_waiting := w.chip.rxRsr
  if bytes_waiting = 0 then some (.notYet, w)
  else
    let bytes_waiting := if bytes_waiting > n then n else bytes_waiting
    let w := turn socknum course w
    let rd := w.chip.rxRd
    let (bytes, w) :=
      readUntil socknum course (rd % WIZ_RING_SIZE) bytes_waiting untilByte buf w
    let w := takeOver socknum course rd bytes.length w
    match Wiz__sock_command socknum course rounds SK_SR_ESTB w with
    | none => none
    | some (ok, w) => if !ok then some (.bad, w) else some (.good bytes, w)

end

/-! ### The law -/

/-- Enough bytes have arrived. -/
def Enough (untilByte : UInt8) (n : Nat) (unread : List UInt8) : Prop :=
  untilByte ∈ unread.take n ∨ n ≤ unread.length

instance (untilByte : UInt8) (n : Nat) (unread : List UInt8) :
    Decidable (Enough untilByte n unread) := inferInstanceAs (Decidable (_ ∨ _))

/-- The shortest beginning that ends with the byte, and the first `n` bytes where it is not among
them. -/
def Wanted (untilByte : UInt8) (n : Nat) (unread bytes : List UInt8) : Prop :=
  if untilByte ∈ unread.take n then bytes <+: unread.take n ∧ EndsAt untilByte bytes
  else n ≤ unread.length ∧ bytes = unread.take n

/-- The bytes in the receive ring. -/
def unread (socknum : Nat) (c : Chip) : List UInt8 :=
  window (sock socknum).rxRing RING_SIZE c.memory c.rxStart c.rxRsr

/-- Every call that finds these bytes at this place of the ring, whatever its buffer held before,
takes what it should, and nothing where there is not enough. -/
def Receives (socknum start n : Nat) (untilByte : UInt8) (arrived : List UInt8) : Prop :=
  ∀ course rounds buf w received w', Idle w.chip →
    unread socknum (turn socknum course w).chip = arrived → w.chip.rxRd % WIZ_RING_SIZE = start →
    TcpRecvUntilOrNotYet socknum course rounds buf n untilByte w = some (received, w') →
      (∀ bytes, received = .good bytes → Wanted untilByte n arrived bytes ∧
        Moves (sock socknum) w.chip w'.chip [] bytes) ∧
      (¬Enough untilByte n arrived → received = .notYet ∧
        Moves (sock socknum) w.chip w'.chip [] [])

/-- Where zero is asked for, there are enough bytes. Where it is not, the byte is at the end of the
first piece and not before, with no zero before it; or it is not before the last byte that is
looked at, no piece has a zero before its last byte, and there are enough bytes. -/
def Fits (start n : Nat) (untilByte : UInt8) (arrived : List UInt8) : Prop :=
  let first := (arrived.take n).take (WIZ_RING_SIZE - start)
  let second := (arrived.take n).drop (WIZ_RING_SIZE - start)
  arrived = [] ∨ (untilByte = 0 ∧ Enough untilByte n arrived) ∨
    (untilByte ≠ 0 ∧ (EndsAt untilByte first ∧ 0 ∉ first.dropLast ∨
      Enough untilByte n arrived ∧ untilByte ∉ (arrived.take n).dropLast ∧
        0 ∉ first.dropLast ∧ 0 ∉ second.dropLast))

instance (start n : Nat) (untilByte : UInt8) (arrived : List UInt8) :
    Decidable (Fits start n untilByte arrived) := inferInstanceAs (Decidable (_ ∨ _ ∨ _))

/-! ### Two pieces -/

theorem wizGetNUntil_eq (memory : Nat → UInt8) (untilByte : UInt8) (reg size : Nat) :
    WizGetNUntil memory untilByte reg size = upTo untilByte (load memory reg size) := by
  induction size generalizing reg with
  | zero => rfl
  | succ size inductionHypothesis =>
    rw [load_succ, WizGetNUntil, inductionHypothesis]
    rfl

/-- What is counted of the buffer after two pieces. -/
def gather (untilByte : UInt8) (first second : List UInt8) (buf : Nat → UInt8) : List UInt8 :=
  if (upTo 0 first).getLast? = some untilByte then upTo 0 first
  else load (store (store buf 0 (upTo 0 first)) first.length (upTo 0 second)) 0
    ((upTo 0 first).length + (upTo 0 second).length)

variable {untilByte : UInt8} {first second : List UInt8}

theorem gather_nil_second (untilByte : UInt8) (first : List UInt8) (buf : Nat → UInt8) :
    gather untilByte first [] buf = upTo 0 first := by
  rw [gather]
  split
  · rfl
  · show load (store (store buf 0 (upTo 0 first)) first.length []) 0 (upTo 0 first).length = _
    rw [store_nil, load_store_self]

/-- The first piece is read to its end, and so the second one is behind it. -/
theorem gather_of_whole (whole : upTo 0 first = first) (away : first.getLast? ≠ some untilByte)
    (second : List UInt8) (buf : Nat → UInt8) :
    gather untilByte first second buf = first ++ upTo 0 second := by
  rw [gather, whole, if_neg away, load_add, Nat.zero_add,
    load_store_of_apart _ (.inl (Nat.le_of_eq (Nat.zero_add _))), load_store_self, load_store_self]

/-- Between the pieces is what was there before. -/
theorem exists_gather_ne {wanted : List UInt8} (short : (upTo 0 first).length < first.length)
    (away : (upTo 0 first).getLast? ≠ some untilByte) (more : second ≠ []) :
    ∃ buf, gather untilByte first second buf ≠ wanted := by
  have cell : ∀ b : UInt8, (gather untilByte first second fun _ => b)[(upTo 0 first).length]? =
      some b := by
    intro b
    have behind : 0 < (upTo 0 second).length := by
      rw [List.length_pos_iff]
      exact fun empty => more (upTo_eq_nil_iff.mp empty)
    rw [gather, if_neg away, getElem?_load _ _ (by omega), store_apply_of_before _ _ (by omega),
      store_apply_of_after _ (by omega)]
  by_contra all
  push Not at all
  have zero := cell 0
  have one := cell 1
  rw [all] at zero one
  rw [zero] at one
  cases one

/-- What is counted of the buffer is what was asked for. -/
theorem gather_eq_iff (apart : untilByte ≠ 0) :
    (∀ buf, gather untilByte first second buf = upTo untilByte (first ++ second)) ↔
      EndsAt untilByte first ∧ 0 ∉ first.dropLast ∨
        untilByte ∉ (first ++ second).dropLast ∧ 0 ∉ first.dropLast ∧ 0 ∉ second.dropLast := by
  constructor
  · intro all
    by_cases whole : upTo 0 first = first
    · have early := upTo_eq_self_iff.mp whole
      by_cases last : first.getLast? = some untilByte
      · refine .inl ⟨⟨last, ?_⟩, early⟩
        have same := all fun _ => 0
        rw [gather, whole, if_pos last, upTo_append_of_mem (List.mem_of_getLast? last)] at same
        exact upTo_eq_self_iff.mp same.symm
      · have same := all fun _ => 0
        rw [gather_of_whole whole last] at same
        have absent : untilByte ∉ first := by
          intro member
          rw [upTo_append_of_mem member] at same
          have begins := upTo_first untilByte first
          have length := congrArg List.length same
          rw [List.length_append] at length
          have less := begins.length_le
          have ends := endsAt_upTo member
          rw [begins.eq_of_length (by omega)] at ends
          exact last ends.1
        rw [upTo_append_of_not_mem absent] at same
        obtain ⟨zeroes, delimits⟩ :=
          (upTo_eq_upTo_iff (Ne.symm apart)).mp (List.append_cancel_left same)
        refine .inr ⟨upTo_eq_self_iff.mp ?_, early, upTo_eq_self_iff.mp zeroes⟩
        rw [upTo_append_of_not_mem absent, delimits]
    · have member : (0 : UInt8) ∈ first := by
        by_contra absent
        exact whole (upTo_of_not_mem absent)
      have away : (upTo 0 first).getLast? ≠ some untilByte := by
        rw [(endsAt_upTo member).1]
        exact fun same => apart (Option.some.inj same).symm
      by_cases more : second = []
      · have same := all fun _ => 0
        rw [more, gather_nil_second, List.append_nil] at same
        exact absurd ((upTo_eq_upTo_iff (Ne.symm apart)).mp same).1 whole
      · have begins := upTo_first 0 first
        have short := lt_of_le_of_ne begins.length_le fun same => whole (begins.eq_of_length same)
        obtain ⟨buf, wrong⟩ :=
          @exists_gather_ne _ _ _ (upTo untilByte (first ++ second)) short away more
        exact absurd (all buf) wrong
  · rintro (⟨ends, early⟩ | ⟨absent, early, early'⟩) buf
    · rw [gather, upTo_eq_self_iff.mpr early, if_pos ends.1, upTo_append_of_mem ends.mem]
      exact ends.eq_upTo (List.prefix_refl _)
    · rw [upTo_eq_self_iff.mpr absent]
      by_cases last : first.getLast? = some untilByte
      · have alone : second = [] := by
          by_contra more
          rw [List.dropLast_append_of_ne_nil more] at absent
          exact absent (List.mem_append_left _ (List.mem_of_getLast? last))
        rw [alone, gather_nil_second, List.append_nil, upTo_eq_self_iff.mpr early]
      · rw [gather_of_whole (upTo_eq_self_iff.mpr early) last, upTo_eq_self_iff.mpr early']

theorem gather_zero (first second : List UInt8) (buf : Nat → UInt8) :
    gather 0 first second buf = upTo 0 (first ++ second) := by
  by_cases member : (0 : UInt8) ∈ first
  · rw [upTo_append_of_mem member, gather, if_pos (endsAt_upTo member).1]
  · have whole := upTo_of_not_mem member
    rw [upTo_append_of_not_mem member, gather_of_whole whole]
    exact fun last => member (List.mem_of_getLast? last)

/-! ### One call -/

variable {socknum : Nat} {course : Course} {w w' : World}

/-- The pieces of the ring are the two parts of what was asked for. -/
theorem load_pieces {memory : Nat → UInt8} {base start count : Nat} (inside : start < RING_SIZE)
    (fits : count ≤ RING_SIZE) (wraps : RING_SIZE ≤ start + count) :
    load memory (base + start) (RING_SIZE - start) =
        (window base RING_SIZE memory start count).take (RING_SIZE - start) ∧
      load memory base (count - (RING_SIZE - start)) =
        (window base RING_SIZE memory start count).drop (RING_SIZE - start) := by
  rw [← get_eq_window inside fits, Ring.get, if_pos wraps]
  constructor
  · exact (List.take_left' (length_load ..)).symm
  · exact (List.drop_left' (length_load ..)).symm

/-- The bytes that have arrived stay where they are. -/
theorem window_of_passes {sock : Sock} {c c' : Chip} {n : Nat} (sane : Sane c)
    (passes : Passes sock c c') (enough : n ≤ c.rxRsr) :
    window sock.rxRing RING_SIZE c'.memory (c.rxStart % RING_SIZE) n =
      window sock.rxRing RING_SIZE c.memory c.rxStart n := by
  have after : (c'.inStream sock).take n = _ :=
    passes.sane.take_inStream (enough.trans passes.rxRsr)
  rw [passes.inStream, sane.take_inStream enough, passes.rxStart] at after
  rw [window_mod n (Nat.mod_mod _ _), after]

/-- The last byte that was read is the last one in the buffer. -/
theorem store_last {data : List UInt8} (more : data ≠ []) (buf : Nat → UInt8) (b : UInt8) :
    store buf 0 data (data.length - 1) = b ↔ data.getLast? = some b := by
  have inside : data.length - 1 < data.length :=
    Nat.sub_lt (List.length_pos_of_ne_nil more) Nat.one_pos
  have last := @store_apply_of_lt _ buf 0 _ _ inside
  rw [Nat.zero_add] at last
  rw [last, List.getLast?_eq_getElem?, List.getElem?_eq_getElem inside]
  exact ⟨congrArg some, Option.some.inj⟩

/-- The buffer holds what was read in the pieces that there are. -/
theorem readUntil_spec {start count : Nat} {bytes : List UInt8} (buf : Nat → UInt8)
    (sane : Sane w.chip) (position : start = w.chip.rxStart % RING_SIZE)
    (arrived : count ≤ w.chip.rxRsr) (held : window (sock socknum).rxRing RING_SIZE w.chip.memory
      w.chip.rxStart count = bytes) :
    Passes (sock socknum) w.chip
        (readUntil socknum course start count untilByte buf w).2.chip ∧
      (readUntil socknum course start count untilByte buf w).1 =
        gather untilByte (bytes.take (RING_SIZE - start)) (bytes.drop (RING_SIZE - start)) buf := by
  have inside : start < RING_SIZE := position ▸ Nat.mod_lt _ (by decide)
  have fits := arrived.trans sane.rxRsr
  have first := passes_turn socknum course sane
  have bytes₁ := window_of_passes sane first arrived
  rw [← position, held] at bytes₁
  rw [readUntil]
  generalize turn socknum course w = w₁ at first bytes₁
  by_cases wraps : start + count ≥ WIZ_RING_SIZE
  · rw [if_pos wraps]
    dsimp only
    rw [wizGetNUntil_eq]
    obtain ⟨piece, _⟩ :=
      @load_pieces w₁.chip.memory (sock socknum).rxRing start count inside fits wraps
    rw [bytes₁] at piece
    have nonempty : upTo 0 (bytes.take (RING_SIZE - start)) ≠ [] := by
      rw [Ne, upTo_eq_nil_iff]
      intro empty
      have length := congrArg List.length empty
      rw [List.length_take, ← bytes₁, length_window, List.length_nil] at length
      have : RING_SIZE ≤ start + count := wraps
      omega
    have here : load w₁.chip.memory ((sock socknum).rxRing + start) (WIZ_RING_SIZE - start) =
        bytes.take (RING_SIZE - start) := piece
    rw [here]
    by_cases last : (upTo 0 (bytes.take (RING_SIZE - start))).getLast? = some untilByte
    · rw [if_neg (not_not_intro ((store_last nonempty buf untilByte).mpr last)), gather,
        if_pos last, load_store_self]
      exact ⟨first, rfl⟩
    · rw [if_pos fun found => last ((store_last nonempty buf untilByte).mp found), gather,
        if_neg last]
      have second := first.trans (passes_turn socknum course first.sane)
      have bytes₂ := window_of_passes sane second arrived
      rw [← position, held] at bytes₂
      obtain ⟨_, piece₂⟩ := @load_pieces (turn socknum course w₁).chip.memory
        (sock socknum).rxRing start count inside fits wraps
      rw [bytes₂] at piece₂
      have there : load (turn socknum course w₁).chip.memory (sock socknum).rxRing
          (count - (WIZ_RING_SIZE - start)) = bytes.drop (RING_SIZE - start) := piece₂
      have full : (bytes.take (RING_SIZE - start)).length = WIZ_RING_SIZE - start := by
        rw [← here, length_load]
      rw [wizGetNUntil_eq, there, full]
      exact ⟨second, rfl⟩
  · have short : start + count < RING_SIZE := not_le.mp wraps
    have all : load w₁.chip.memory ((sock socknum).rxRing + start) count = bytes := by
      rw [← bytes₁, ← get_eq_window inside fits, get_eq_load (Nat.le_of_lt short)]
    have length : bytes.length ≤ RING_SIZE - start := by
      rw [← bytes₁, length_window]
      omega
    rw [if_neg wraps, wizGetNUntil_eq, all, List.take_of_length_le length,
      List.drop_of_length_le length, gather_nil_second]
    exact ⟨first, load_store_self ..⟩

/-- The bytes are taken by moving the pointer past them. -/
theorem moves_takeOver (socknum : Nat) (course : Course) (idle : Idle w.chip) {rd count : Nat}
    (pointer : rd = w.chip.rxRd) (enough : count ≤ w.chip.rxRsr) :
    Moves (sock socknum) w.chip (takeOver socknum course rd count w).chip []
      ((w.chip.inStream (sock socknum)).take count) := by
  have first := passes_turn socknum course idle.sane
  rw [takeOver]
  generalize turn socknum course w = w₁ at first
  have written : Sane { w₁.chip with rxRd := (rd + count) % 65536 } :=
    ⟨first.sane.txEnd, first.sane.txRd, first.sane.rxStart, first.sane.rxWr, first.sane.waiting,
      first.sane.rxRsr⟩
  have second := @passes_turn ⟨{ w₁.chip with rxRd := (rd + count) % 65536 }, w₁.turns⟩ socknum
    course written
  dsimp only at second ⊢
  generalize turn socknum course _ = w₂ at second ⊢
  have enough₂ : count ≤ w₂.chip.rxRsr := enough.trans (first.rxRsr.trans second.rxRsr)
  have start : w₂.chip.rxRd = (w₂.chip.rxStart + count) % 65536 := by
    rw [second.rxRd, second.rxStart]
    show (rd + count) % 65536 = (w₁.chip.rxStart + count) % 65536
    rw [first.rxStart, pointer, idle.rxRd]
  have stream : w₂.chip.inStream (sock socknum) = w.chip.inStream (sock socknum) :=
    second.inStream.trans first.inStream
  obtain ⟨sane, taken⟩ := second.sane.taken (sock socknum) enough₂
  rw [← start] at sane taken
  refine ⟨⟨sane, ?_, rfl⟩, ?_, ?_⟩
  · show w₂.chip.txWr = w₂.chip.txEnd
    rw [second.txWr, second.txEnd]
    exact (first.idle idle).txWr
  · rw [List.append_nil]
    exact second.outStream.trans first.outStream
  · rw [← stream, second.sane.take_inStream enough₂]
    exact taken

theorem take_unread (sane : Sane w.chip) (n : Nat) :
    (unread socknum w.chip).take n =
      window (sock socknum).rxRing RING_SIZE w.chip.memory w.chip.rxStart (min n w.chip.rxRsr) := by
  rw [unread, ← sane.take_inStream (Nat.le_refl _), List.take_take,
    sane.take_inStream (Nat.min_le_right _ _)]

/-- What a call does: nothing where nothing has arrived, and otherwise it counts a part of the
buffer and takes as many bytes. -/
theorem tcpRecvUntil_spec {rounds n : Nat} {buf : Nat → UInt8} {received : Received}
    {arrived : List UInt8} (limit : n < 1200) (idle : Idle w.chip)
    (held : unread socknum (turn socknum course w).chip = arrived)
    (returned : TcpRecvUntilOrNotYet socknum course rounds buf n untilByte w =
      some (received, w')) :
    (arrived = [] → received = .notYet ∧ Moves (sock socknum) w.chip w'.chip [] []) ∧
      (arrived ≠ [] → ∃ bytes, (received = .bad ∨ received = .good bytes) ∧
        bytes = gather untilByte
          ((arrived.take n).take (WIZ_RING_SIZE - w.chip.rxRd % WIZ_RING_SIZE))
          ((arrived.take n).drop (WIZ_RING_SIZE - w.chip.rxRd % WIZ_RING_SIZE)) buf ∧
        (bytes <+: arrived.take n → Moves (sock socknum) w.chip w'.chip [] bytes)) := by
  have first := passes_turn socknum course idle.sane
  rw [TcpRecvUntilOrNotYet, if_neg (not_not_intro limit)] at returned
  dsimp only at returned
  generalize turn socknum course w = w₁ at first held returned
  have counted : arrived.length = w₁.chip.rxRsr := by rw [← held, unread, length_window]
  split at returned
  · rename_i nothing
    cases returned
    have empty := List.length_eq_zero_iff.mp (counted.trans nothing)
    exact ⟨fun _ => ⟨rfl, first.moves idle⟩, fun more => absurd empty more⟩
  rename_i something
  refine ⟨fun empty => absurd (counted.symm.trans (congrArg List.length empty)) something,
    fun _ => ?_⟩
  have few : (if w₁.chip.rxRsr > n then n else w₁.chip.rxRsr) = min n w₁.chip.rxRsr := by
    split
    · omega
    · omega
  have looked : arrived.take n = (w₁.chip.inStream (sock socknum)).take (min n w₁.chip.rxRsr) := by
    rw [← held, take_unread first.sane, first.sane.take_inStream (Nat.min_le_right _ _)]
  rw [few] at returned
  have second := passes_turn socknum course first.sane
  generalize turn socknum course w₁ = w₂ at second returned
  have through := first.trans second
  have idle₂ := through.idle idle
  have within : min n w₁.chip.rxRsr ≤ w₂.chip.rxRsr := (Nat.min_le_right _ _).trans second.rxRsr
  have held₂ : window (sock socknum).rxRing RING_SIZE w₂.chip.memory w₂.chip.rxStart
      (min n w₁.chip.rxRsr) = arrived.take n := by
    rw [looked, ← second.inStream, second.sane.take_inStream within]
  obtain ⟨third, read⟩ := @readUntil_spec untilByte socknum course w₂ (w₂.chip.rxRd % WIZ_RING_SIZE)
    (min n w₁.chip.rxRsr) (arrived.take n) buf second.sane (by rw [idle₂.rxRd]; rfl) within held₂
  rcases result : readUntil socknum course (w₂.chip.rxRd % WIZ_RING_SIZE) (min n w₁.chip.rxRsr)
    untilByte buf w₂ with ⟨bytes, w₃⟩
  rw [result] at third read returned
  dsimp only at third read returned
  have idle₃ := third.idle idle₂
  refine ⟨bytes, ?_, ?_, fun begins => ?_⟩
  · split at returned
    · cases returned
    · split at returned
      · cases returned
        exact .inl rfl
      · cases returned
        exact .inr rfl
  · rw [read, through.rxRd]
    rfl
  · have length := begins.length_le
    rw [← held₂, length_window] at length
    have fourth := moves_takeOver socknum course idle₃ third.rxRd.symm
      (length.trans (within.trans third.rxRsr))
    have stream : w₃.chip.inStream (sock socknum) = w₁.chip.inStream (sock socknum) :=
      third.inStream.trans second.inStream
    have taken : (w₃.chip.inStream (sock socknum)).take bytes.length = bytes := by
      have same := List.prefix_iff_eq_take.mp begins
      rw [looked, List.take_take, Nat.min_eq_left length] at same
      rw [stream]
      exact same.symm
    rw [taken] at fourth
    have sofar := ((through.trans third).moves idle).trans fourth
    split at returned
    · cases returned
    · rename_i ok w₅ commanded
      have fifth := passes_sockCommand fourth.idle.sane commanded
      have all := sofar.trans (fifth.moves fourth.idle)
      simp only [List.append_nil, List.nil_append] at all
      split at returned
      · cases returned
        exact all
      · cases returned
        exact all

/-! ### Every stream -/

theorem wanted_iff {n : Nat} {arrived bytes : List UInt8} :
    Wanted untilByte n arrived bytes ↔
      bytes = upTo untilByte (arrived.take n) ∧ Enough untilByte n arrived := by
  rw [Wanted, Enough]
  split
  · rename_i member
    constructor
    · rintro ⟨begins, ends⟩
      exact ⟨ends.eq_upTo begins, .inl member⟩
    · rintro ⟨rfl, _⟩
      exact ⟨upTo_first _ _, endsAt_upTo member⟩
  · rename_i absent
    rw [upTo_of_not_mem absent]
    exact ⟨fun both => ⟨both.2, .inr both.1⟩, fun both => ⟨both.2.resolve_left absent, both.1⟩⟩

/-- A chip that does nothing. -/
def still : Course := ⟨fun _ => [], fun _ => SK_SR_ESTB, fun _ => 0⟩

/-- A socket with these bytes at this place of its receive ring. -/
def holding (socknum start : Nat) (arrived : List UInt8) : World where
  chip :=
    { memory := put (sock socknum).rxRing RING_SIZE (fun _ => 0) start arrived, txWr := 0,
      txEnd := 0, txRd := 0, rxRd := start, rxStart := start, rxWr := start + arrived.length,
      ir := 0, out := [], incoming := [] }
  turns := 0

theorem rxRsr_holding {start : Nat} {arrived : List UInt8} (room : arrived.length ≤ RING_SIZE) :
    (holding socknum start arrived).chip.rxRsr = arrived.length := by
  show (start + arrived.length + 65536 - start) % 65536 = arrived.length
  rw [RING_SIZE] at room
  omega

theorem idle_holding {start : Nat} {arrived : List UInt8} (position : start < RING_SIZE)
    (room : arrived.length ≤ RING_SIZE) : Idle (holding socknum start arrived).chip := by
  have rsr := @rxRsr_holding socknum start arrived room
  rw [RING_SIZE] at position room
  refine ⟨⟨?_, ?_, ?_, ?_, ?_, ?_⟩, rfl, rfl⟩
  · exact (by decide : 0 < 65536)
  · exact (by decide : 0 < 65536)
  · show start < 65536
    omega
  · show start + arrived.length < 65536
    omega
  · exact (by decide : (0 + 65536 - 0) % 65536 ≤ RING_SIZE)
  · exact rsr.trans_le room

theorem unread_holding {start : Nat} {arrived : List UInt8} (position : start < RING_SIZE)
    (room : arrived.length ≤ RING_SIZE) :
    unread socknum (holding socknum start arrived).chip = arrived := by
  rw [unread, rxRsr_holding room]
  exact window_put_self position room

theorem exists_good_holding (socknum : Nat) {start : Nat} {arrived : List UInt8}
    (room : arrived.length ≤ RING_SIZE)
    (more : arrived ≠ []) (buf : Nat → UInt8) {n : Nat} (limit : n < 1200) (untilByte : UInt8) :
    ∃ bytes w', TcpRecvUntilOrNotYet socknum still 1 buf n untilByte
      (holding socknum start arrived) = some (.good bytes, w') := by
  have something : (turn socknum still (holding socknum start arrived)).chip.rxRsr ≠ 0 := by
    show (holding socknum start arrived).chip.rxRsr ≠ 0
    rw [rxRsr_holding room]
    exact fun empty => more (List.length_eq_zero_iff.mp empty)
  have accepted : ∀ w, Wiz__sock_command socknum still 1 SK_SR_ESTB w =
      some (true, turn socknum still (turn socknum still w)) := fun _ => rfl
  rw [TcpRecvUntilOrNotYet, if_neg (not_not_intro limit)]
  dsimp only
  rw [if_neg something, accepted]
  exact ⟨_, _, rfl⟩

/-- A chip that holds the bytes shows what is counted of the buffer. -/
theorem Receives.takes {n start : Nat} {arrived : List UInt8}
    (receives : Receives socknum start n untilByte arrived) (limit : n < 1200)
    (position : start < RING_SIZE)
    (room : arrived.length ≤ RING_SIZE) (more : arrived ≠ []) (buf : Nat → UInt8) :
    gather untilByte ((arrived.take n).take (WIZ_RING_SIZE - start))
        ((arrived.take n).drop (WIZ_RING_SIZE - start)) buf = upTo untilByte (arrived.take n) ∧
      Enough untilByte n arrived := by
  have idle := @idle_holding socknum start arrived position room
  have held := @unread_holding socknum start arrived position room
  have place : (holding socknum start arrived).chip.rxRd % WIZ_RING_SIZE = start :=
    Nat.mod_eq_of_lt position
  obtain ⟨bytes, w', returned⟩ := exists_good_holding socknum room more buf limit untilByte
  have wanted := ((receives still 1 buf _ _ w' idle held place returned).1 bytes rfl).1
  obtain ⟨bytes', bad | good, counted, _⟩ := (tcpRecvUntil_spec limit idle held returned).2 more
  · exact Received.noConfusion bad
  · cases good
    rw [place] at counted
    rw [← counted]
    exact wanted_iff.mp wanted

/-- The bytes that should be taken are, and no others, if and only if the pieces and the byte that
was asked for fit together. -/
theorem receives_iff (socknum n : Nat) (untilByte : UInt8) {start : Nat} {arrived : List UInt8}
    (limit : n < 1200) (position : start < RING_SIZE) (room : arrived.length ≤ RING_SIZE) :
    Receives socknum start n untilByte arrived ↔ Fits start n untilByte arrived := by
  have whole := List.take_append_drop (WIZ_RING_SIZE - start) (arrived.take n)
  rw [Fits]
  by_cases empty : arrived = []
  · refine ⟨fun _ => .inl empty, ?_⟩
    intro _ course rounds buf w received w' idle held place returned
    obtain ⟨rfl, moves⟩ := (tcpRecvUntil_spec limit idle held returned).1 empty
    exact ⟨fun bytes good => Received.noConfusion good, fun _ => ⟨rfl, moves⟩⟩
  constructor
  · intro receives
    have takes := fun buf => receives.takes limit position room empty buf
    have enough := (takes fun _ => 0).2
    by_cases zero : untilByte = 0
    · exact .inr (.inl ⟨zero, enough⟩)
    · have pieces := @gather_eq_iff untilByte ((arrived.take n).take (WIZ_RING_SIZE - start))
        ((arrived.take n).drop (WIZ_RING_SIZE - start)) zero
      rw [whole] at pieces
      rcases pieces.mp fun buf => (takes buf).1 with seam | both
      · exact .inr (.inr ⟨zero, .inl seam⟩)
      · exact .inr (.inr ⟨zero, .inr ⟨enough, both⟩⟩)
  · intro fits course rounds buf w received w' idle held place returned
    obtain ⟨bytes, ended, counted, moves⟩ := (tcpRecvUntil_spec limit idle held returned).2 empty
    rw [place] at counted
    have right : bytes = upTo untilByte (arrived.take n) ∧ Enough untilByte n arrived := by
      rcases fits with nothing | ⟨rfl, enough⟩ | ⟨zero, fits⟩
      · exact absurd nothing empty
      · rw [gather_zero, whole] at counted
        exact ⟨counted, enough⟩
      · have pieces := @gather_eq_iff untilByte ((arrived.take n).take (WIZ_RING_SIZE - start))
          ((arrived.take n).drop (WIZ_RING_SIZE - start)) zero
        rw [whole] at pieces
        rcases fits with seam | ⟨enough, both⟩
        · refine ⟨counted.trans (pieces.mpr (.inl seam) buf), .inl ?_⟩
          exact List.mem_of_mem_take seam.1.mem
        · exact ⟨counted.trans (pieces.mpr (.inr both) buf), enough⟩
    refine ⟨fun bytes' good => ?_, fun short => absurd right.2 short⟩
    rcases ended with bad | same
    · exact Received.noConfusion (bad.symm.trans good)
    · cases same.symm.trans good
      exact ⟨wanted_iff.mpr right, moves (right.1 ▸ upTo_first _ _)⟩

theorem receives_crlf : Receives 1 2046 10 10 [72, 105, 13, 10] :=
  (receives_iff 1 10 10 (by decide) (by decide) (by decide)).mpr (by decide +kernel)

/-- Two bytes have arrived, and the rest of the line has not. -/
theorem not_receives_half : ¬Receives 1 0 10 10 [72, 105] := by
  intro receives
  have enough := (receives.takes (by decide) (by decide) (by decide) (by decide) fun _ => 0).2
  exact absurd enough (by decide +kernel)

end Frobio.Tcp
