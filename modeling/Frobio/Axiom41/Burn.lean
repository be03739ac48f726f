/-
This file is about what is burned: if every call of a run receives the next datagram, every
square that is GOT has its data in place, whatever packets were lost, repeated or reordered.
-/

import Frobio.Axiom41.Rescue

namespace Frobio.Axiom41

open Burning Coms Memory Ring Transcript Wiz

/-! ### The packet buffer -/

/-- The packet of a segment is in the buffer. -/
structure Shows (ram : Ram) (ith count : Nat) (seg : Segment) : Prop where
  ith : ithRecord ram = ith
  count : numRecords ram = count
  len : payloadLen ram = seg.data.length
  addr : payloadAddr ram = seg.addr
  data : ∀ i byte, seg.data[i]? = some byte → ram (startOfBurnData + i) = byte

theorem getElem?_eq_apply {ram : Ram} {bytes : List UInt8}
    (buffer : load ram rambuf PACKET_SIZE = bytes) {i : Nat} {byte : UInt8}
    (found : bytes[i]? = some byte) : ram (rambuf + i) = byte := by
  have inside : i < PACKET_SIZE := by
    have below := (List.getElem?_eq_some_iff.mp found).1
    rw [← buffer, length_load] at below
    exact below
  rw [← buffer, getElem?_load _ _ inside] at found
  exact Option.some.inj found

theorem lo_toNat {x : Nat} (small : x < 256) : (lo x).toNat = x := by
  rw [lo, UInt8.toNat_ofNat']
  exact Nat.mod_eq_of_lt small

/-- A packet in the buffer shows its segment. -/
theorem shows_of_packet {ram : Ram} {d : Datagram} {text : List UInt8} {ith count : Nat}
    {seg : Segment} (buffer : load ram rambuf PACKET_SIZE = d.bytes)
    (isPacket : d.data = packet text ith count seg) (short : seg.data.length ≤ 64)
    (below : ith < count) (few : count ≤ 255) (inside : seg.addr < 65536) :
    Shows ram ith count seg := by
  obtain ⟨front, back, length, -, packet_eq⟩ := packet_eq text ith count short
  obtain ⟨header, header_eq⟩ :
    ∃ header, header = d.addr ++ d.port ++ [hi d.data.length, lo d.data.length] := ⟨_, rfl⟩
  have head : (header ++ front).length = 67 := by
    simp only [header_eq, List.length_append, d.length_addr, d.length_port, length,
      List.length_cons, List.length_nil]
  have bytes : d.bytes = (header ++ front) ++ ([lo ith, lo count, lo seg.data.length, hi seg.addr,
      lo seg.addr] ++ (seg.data ++ back)) := by
    rw [Datagram.bytes, ← header_eq, isPacket, packet_eq, List.append_assoc header]
  have at67 : ∀ {i : Nat} {byte : UInt8}, ([lo ith, lo count, lo seg.data.length, hi seg.addr,
      lo seg.addr] ++ (seg.data ++ back))[i]? = some byte → ram (rambuf + (67 + i)) = byte := by
    intro i byte found
    refine getElem?_eq_apply buffer ?_
    rw [bytes, List.getElem?_append_right (by omega), head, Nat.add_sub_cancel_left, found]
  have first : ram (startOfBurnData - 5) = lo ith := @at67 0 _ rfl
  have second : ram (startOfBurnData - 4) = lo count := @at67 1 _ rfl
  have third : ram (startOfBurnData - 3) = lo seg.data.length := @at67 2 _ rfl
  have fourth : ram (startOfBurnData - 2) = hi seg.addr := @at67 3 _ rfl
  have fifth : ram (startOfBurnData - 1) = lo seg.addr := @at67 4 _ rfl
  refine ⟨?_, ?_, ?_, ?_, fun i byte found => ?_⟩
  · rw [ithRecord, first, lo_toNat (by omega)]
  · rw [numRecords, second, lo_toNat (by omega)]
  · rw [payloadLen, third, lo_toNat (by omega)]
  · rw [payloadAddr, fourth, fifth, hiLo_hi_lo, Nat.mod_eq_of_lt inside]
  · have there := (List.getElem?_eq_some_iff.mp found).1
    have place : ([lo ith, lo count, lo seg.data.length, hi seg.addr, lo seg.addr] ++
        (seg.data ++ back))[5 + i]? = some byte := by
      rw [List.getElem?_append_right (Nat.le_add_right 5 i)]
      show (seg.data ++ back)[5 + i - 5]? = _
      rw [Nat.add_sub_cancel_left, List.getElem?_append_left there, found]
    have result := at67 place
    rw [show rambuf + (67 + (5 + i)) = startOfBurnData + i by
      simp only [rambuf, startOfBurnData]; omega] at result
    exact result

theorem Shows.update {ram : Ram} {ith count : Nat} {seg : Segment} (shows' : Shows ram ith count seg)
    (short : seg.data.length ≤ 64) {a : Nat} (outside : ¬Own a) (byte : UInt8) :
    Shows (Function.update ram a byte) ith count seg := by
  have other : ∀ b, rambuf ≤ b → b < rambuf + PACKET_SIZE →
      Function.update ram a byte b = ram b := by
    rintro b low high
    refine Function.update_of_ne ?_ _ _
    rintro rfl
    exact outside (.inl ⟨low, high⟩)
  refine ⟨?_, ?_, ?_, ?_, fun i byte found => ?_⟩
  · rw [ithRecord, other _ (by decide) (by decide)]
    exact shows'.ith
  · rw [numRecords, other _ (by decide) (by decide)]
    exact shows'.count
  · rw [payloadLen, other _ (by decide) (by decide)]
    exact shows'.len
  · rw [payloadAddr, other _ (by decide) (by decide), other _ (by decide) (by decide)]
    exact shows'.addr
  · have there := (List.getElem?_eq_some_iff.mp found).1
    rw [other _ (by simp only [rambuf, startOfBurnData]; omega)
      (by simp only [rambuf, startOfBurnData, PACKET_SIZE]; omega)]
    exact shows'.data i byte found

/-- The loop writes what is left of the data. -/
theorem burnBytes_eq {ram : Ram} {ith count : Nat} {seg : Segment}
    (shows' : Shows ram ith count seg) (short : seg.data.length ≤ 64)
    (inside : seg.addr + seg.data.length ≤ 65536)
    (outside : ∀ i < seg.data.length, ¬Own (seg.addr + i)) {i fuel : Nat}
    (enough : seg.data.length - i ≤ fuel) :
    burnBytes fuel ram i = store ram (seg.addr + i) (seg.data.drop i) := by
  obtain ⟨rest, rest_eq⟩ : ∃ rest, rest = seg.data.drop i := ⟨_, rfl⟩
  rw [← rest_eq]
  induction rest generalizing ram i fuel with
  | nil =>
    have done := List.drop_eq_nil_iff.mp rest_eq.symm
    rw [store_nil]
    cases fuel with
    | zero => rfl
    | succ fuel => rw [burnBytes, shows'.len, if_neg (Nat.not_lt.mpr done)]
  | cons byte rest inductionHypothesis =>
    have more : i < seg.data.length := by
      by_contra past
      rw [List.drop_eq_nil_of_le (Nat.not_lt.mp past)] at rest_eq
      cases rest_eq
    obtain ⟨fuel, rfl⟩ := Nat.exists_eq_succ_of_ne_zero (by omega : fuel ≠ 0)
    rw [List.drop_eq_getElem_cons more, List.cons.injEq] at rest_eq
    have found : seg.data[i]? = some byte := by
      rw [rest_eq.1]
      exact List.getElem?_eq_getElem more
    have address : (seg.addr + i) % 65536 = seg.addr + i := Nat.mod_eq_of_lt (by omega)
    rw [burnBytes, shows'.len, if_pos more, shows'.addr, address, shows'.data i byte found,
      inductionHypothesis (shows'.update short (outside i more) byte) (by omega) rest_eq.2]
    have one : store ram (seg.addr + i) [byte] = Function.update ram (seg.addr + i) byte := by
      funext a
      by_cases here : a = seg.addr + i
      · rw [here, Function.update_self]
        exact store_apply_of_lt ram (show 0 < [byte].length from Nat.zero_lt_one)
      · rw [Function.update_of_ne here]
        rcases Nat.lt_or_gt_of_ne here with before | behind
        · exact store_apply_of_before _ _ before
        · exact store_apply_of_after _ behind
    have both := store_append ram (seg.addr + i) [byte] rest
    rw [one] at both
    exact both

/-! ### The segments of the groups -/

section

variable {groups : List Group} {ram0 : Ram}

/-- The segments of all groups. -/
def segmentsOfAll (groups : List Group) : List Segment := groups.flatMap segmentsOf

theorem cut_of_canBurn (can : CanBurn groups) :
    ∀ group ∈ groups, Cut group.addr (segmentsOf group) group.data :=
  fun group member => (cut_segmentsOf_iff group).mpr (can.page group member)

theorem wanted_iff (can : CanBurn groups) (a : Nat) (byte : UInt8) :
    Wanted groups a byte ↔
      ∃ seg ∈ segmentsOfAll groups, ∃ i, seg.data[i]? = some byte ∧ seg.addr + i = a := by
  constructor
  · rintro ⟨group, member, held⟩
    obtain ⟨seg, inGroup, found⟩ := ((cut_of_canBurn can group member).holds_iff a byte).mpr held
    exact ⟨seg, List.mem_flatMap.mpr ⟨group, member, inGroup⟩, found⟩
  · rintro ⟨seg, member, found⟩
    obtain ⟨group, member, inGroup⟩ := List.mem_flatMap.mp member
    exact ⟨group, member,
      ((cut_of_canBurn can group member).holds_iff a byte).mp ⟨seg, inGroup, found⟩⟩

/-- The segments are short, in the address space, and apart from the memory of the program. -/
theorem segment_bounds (can : CanBurn groups) {seg : Segment} (member : seg ∈ segmentsOfAll groups) :
    seg.data.length ≤ 64 ∧ seg.addr < 65536 ∧ seg.addr + seg.data.length ≤ 65536 ∧
      ∀ i < seg.data.length, ¬Own (seg.addr + i) := by
  obtain ⟨group, inGroups, inGroup⟩ := List.mem_flatMap.mp member
  obtain ⟨nonempty, short, inside⟩ := (cut_of_canBurn can group inGroups).bounds seg inGroup
  have some := List.length_pos_iff.mpr nonempty
  have within := group.inside
  refine ⟨short, by omega, by omega, fun i below => ?_⟩
  exact can.apart _ seg.data[i] ((wanted_iff can _ _).mpr
    ⟨seg, member, i, List.getElem?_eq_getElem below, rfl⟩)

/-! ### What is in place -/

/-- Only data was written, and the data of every square that is GOT. -/
structure InPlace (groups : List Group) (ram0 ram : Ram) : Prop where
  kept : ∀ a, ¬Own a → ram a = ram0 a ∨ Wanted groups a (ram a)
  got : ∀ k seg, (segmentsOfAll groups)[k]? = some seg → ram (barStart + k) = C_GOT →
    ∀ i byte, seg.data[i]? = some byte → ram (seg.addr + i) = byte

theorem own_square {k : Nat} (below : k < 512 - 32) : Own (barStart + k) :=
  .inr ⟨Nat.le_add_right _ _, Nat.add_lt_add_left below _⟩

theorem not_own_segment (can : CanBurn groups) {k i : Nat} {seg : Segment} {byte : UInt8}
    (here : (segmentsOfAll groups)[k]? = some seg) (found : seg.data[i]? = some byte) :
    ¬Own (seg.addr + i) :=
  (segment_bounds can (List.mem_of_getElem? here)).2.2.2 i (List.getElem?_eq_some_iff.mp found).1

theorem inPlace_of_buffer (can : CanBurn groups) {ram ram' : Ram} (inPlace : InPlace groups ram0 ram)
    (same : ∀ a, a < rambuf ∨ rambuf + PACKET_SIZE ≤ a → ram' a = ram a) :
    InPlace groups ram0 ram' := by
  have outside : ∀ a, ¬Own a → ram' a = ram a := by
    intro a notOwn
    refine same a ?_
    by_contra inBuffer
    rw [not_or, Nat.not_lt, Nat.not_le] at inBuffer
    exact notOwn (.inl inBuffer)
  refine ⟨fun a notOwn => ?_, fun k seg here square i byte found => ?_⟩
  · rw [outside a notOwn]
    exact inPlace.kept a notOwn
  · rw [outside _ (not_own_segment can here found)]
    rw [same _ (.inr (by simp only [rambuf, PACKET_SIZE, barStart]; omega))] at square
    exact inPlace.got k seg here square i byte found

theorem inPlace_showSquares {ram : Ram} (inPlace : InPlace groups ram0 ram)
    (few : (segmentsOfAll groups).length ≤ 255) : InPlace groups ram0 (showSquares ram) := by
  have size : ((List.range (512 - 32)).map fun i =>
      if i < numRecords ram then C_WANT else C_EMPTY).length = 512 - 32 := by
    rw [List.length_map, List.length_range]
  refine ⟨fun a notOwn => ?_, fun k seg here square => ?_⟩
  · have same : showSquares ram a = ram a := by
      by_cases before : a < barStart
      · exact store_apply_of_before _ _ before
      · refine store_apply_of_after _ ?_
        rw [size]
        by_contra inBar
        exact notOwn (.inr ⟨Nat.not_lt.mp before, Nat.not_le.mp inBar⟩)
    rw [same]
    exact inPlace.kept a notOwn
  · -- no square is GOT now
    have below := (List.getElem?_eq_some_iff.mp here).1
    have inBar : k < ((List.range (512 - 32)).map fun i =>
        if i < numRecords ram then C_WANT else C_EMPTY).length := by
      rw [size]
      omega
    rw [showSquares, store_apply_of_lt _ inBar, List.getElem_map] at square
    split at square
    · cases square
    · cases square

theorem inPlace_burn (can : CanBurn groups) {ram : Ram} (inPlace : InPlace groups ram0 ram)
    (few : (segmentsOfAll groups).length ≤ 255) {k count : Nat} {seg : Segment}
    (here : (segmentsOfAll groups)[k]? = some seg) (shows' : Shows ram k count seg) :
    InPlace groups ram0 (burn ram) := by
  obtain ⟨short, inside, within, outside⟩ := segment_bounds can (List.mem_of_getElem? here)
  have below : k < 512 - 32 := by
    have := (List.getElem?_eq_some_iff.mp here).1
    omega
  rw [burn, shows'.ith]
  by_cases want : ram (barStart + k) = C_WANT
  · rw [if_pos want, burnBytes_eq shows' short within outside (by omega), Nat.add_zero,
      List.drop_zero]
    have notSquare : ∀ a, ¬Own a → a ≠ barStart + k := by
      rintro a notOwn rfl
      exact notOwn (own_square below)
    -- what is at an address that is not of the program
    have written : ∀ a, ¬Own a →
        (∃ i byte, seg.data[i]? = some byte ∧ seg.addr + i = a ∧
          Function.update (store ram seg.addr seg.data) (barStart + k) C_GOT a = byte) ∨
        (∀ i byte, seg.data[i]? = some byte → seg.addr + i ≠ a) ∧
          Function.update (store ram seg.addr seg.data) (barStart + k) C_GOT a = ram a := by
      intro a notOwn
      rw [Function.update_of_ne (notSquare a notOwn)]
      by_cases before : a < seg.addr
      · refine .inr ⟨fun i byte _ => by omega, store_apply_of_before _ _ before⟩
      · by_cases behind : seg.addr + seg.data.length ≤ a
        · refine .inr ⟨fun i byte found => ?_, store_apply_of_after _ behind⟩
          have := (List.getElem?_eq_some_iff.mp found).1
          omega
        · obtain ⟨i, rfl⟩ := Nat.exists_eq_add_of_le (Nat.not_lt.mp before)
          have inData : i < seg.data.length := by omega
          exact .inl ⟨i, seg.data[i], List.getElem?_eq_getElem inData, rfl,
            store_apply_of_lt _ inData⟩
    have member := List.mem_of_getElem? here
    refine ⟨fun a notOwn => ?_, fun j other there square i byte found => ?_⟩
    · rcases written a notOwn with ⟨i, byte, found, rfl, value⟩ | ⟨-, value⟩
      · rw [value]
        exact .inr ((wanted_iff can _ _).mpr ⟨seg, member, i, found, rfl⟩)
      · rw [value]
        exact inPlace.kept a notOwn
    · have notOwn := not_own_segment can there found
      rcases written _ notOwn with ⟨i', byte', found', same, value⟩ | ⟨apart, value⟩
      · rw [value]
        refine can.agree _ _ _ ((wanted_iff can _ _).mpr ⟨seg, member, i', found', same⟩)
          ((wanted_iff can _ _).mpr ⟨other, List.mem_of_getElem? there, i, found, rfl⟩)
      · have otherSquare : j ≠ k := by
          rintro rfl
          cases here.symm.trans there
          exact apart i byte found rfl
        have notData : store ram seg.addr seg.data (barStart + j) = ram (barStart + j) := by
          have inBar : j < 512 - 32 := by
            have := (List.getElem?_eq_some_iff.mp there).1
            omega
          by_cases before : barStart + j < seg.addr
          · exact store_apply_of_before _ _ before
          · refine store_apply_of_after _ ?_
            by_contra inSegment
            refine outside (barStart + j - seg.addr) (by omega) ?_
            rw [show seg.addr + (barStart + j - seg.addr) = barStart + j by omega]
            exact own_square inBar
        rw [Function.update_of_ne (by omega), notData] at square
        rw [value]
        exact inPlace.got j other there square i byte found
  · rw [if_neg want]
    exact inPlace

/-! ### Runs -/

/-- The ring holds packets of the broadcast, and what was burned is in place. -/
structure Sound (groups : List Group) (text : Nat → List UInt8) (ram0 : Ram) (x : State) :
    Prop where
  holds : Holds R x.chip (allBytes x.queue)
  broadcast : ∀ d ∈ x.queue, d.data ∈ packets text (segmentsOfAll groups)
  inPlace : InPlace groups ram0 x.ram

variable {text : Nat → List UInt8}

theorem packet_of_broadcast {data : List UInt8} (can : CanBurn groups)
    (broadcast : data ∈ packets text (segmentsOfAll groups)) :
    ∃ k seg, (segmentsOfAll groups)[k]? = some seg ∧
      data = packet (text k) k (segmentsOfAll groups).length seg ∧ data.length = 128 := by
  obtain ⟨k, below, rfl⟩ := List.mem_mapIdx.mp broadcast
  have here := List.getElem?_eq_getElem below
  obtain ⟨-, -, -, length, -⟩ := packet_eq (text k) k (segmentsOfAll groups).length
    (segment_bounds can (List.mem_of_getElem? here)).1
  exact ⟨k, _, here, rfl, length⟩

theorem sound_arrive {x : State} (sound : Sound groups text ram0 x)
    (commands : UInt8 → Chip → Chip) {d : Datagram}
    (broadcast : d.data ∈ packets text (segmentsOfAll groups)) :
    Sound groups text ram0 (step commands x (.arrive d)).1 := by
  obtain ⟨holds, all, inPlace⟩ := sound
  by_cases room : x.chip.rsr + d.bytes.length ≤ RX_SIZE
  · have queue : (step commands x (.arrive d)).1.queue = x.queue ++ [d] := if_pos room
    refine ⟨?_, ?_, inPlace⟩
    · rw [queue, allBytes_append, allBytes_cons]
      have one : d.bytes ++ allBytes [] = d.bytes := List.append_nil _
      rw [one]
      exact holds.arrive room
    · rw [queue]
      intro other member
      rcases List.mem_append.mp member with old | new
      · exact all other old
      · exact List.mem_singleton.mp new ▸ broadcast
  · have queue : (step commands x (.arrive d)).1.queue = x.queue := if_neg room
    have chip : (step commands x (.arrive d)).1.chip = x.chip := arrive_of_full room
    refine ⟨?_, ?_, inPlace⟩
    · rw [queue, chip]
      exact holds
    · rw [queue]
      exact all

/-- What a loop does with a packet of the broadcast leaves all in place. -/
theorem inPlace_handle (can : CanBurn groups) (few : (segmentsOfAll groups).length ≤ 255)
    {ram : Ram} (inPlace : InPlace groups ram0 ram) {d : Datagram}
    (broadcast : d.data ∈ packets text (segmentsOfAll groups))
    (buffer : load ram rambuf PACKET_SIZE = d.bytes) (phase : Phase) :
    InPlace groups ram0 (handle phase ram) := by
  cases phase with
  | waiting => exact inPlace_showSquares inPlace few
  | finished => exact inPlace
  | burning =>
    obtain ⟨k, seg, here, isPacket, -⟩ := packet_of_broadcast can broadcast
    obtain ⟨short, inside, -, -⟩ := segment_bounds can (List.mem_of_getElem? here)
    have below := (List.getElem?_eq_some_iff.mp here).1
    exact inPlace_burn can inPlace few here
      (shows_of_packet buffer isPacket short below few inside)

theorem sound_look (can : CanBurn groups) (few : (segmentsOfAll groups).length ≤ 255) {x : State}
    (sound : Sound groups text ram0 x) (commands : UInt8 → Chip → Chip) {keyDown : Bool}
    (fits : CanStep commands x (.look keyDown)) :
    Sound groups text ram0 (look commands x keyDown) := by
  obtain ⟨holds, all, inPlace⟩ := sound
  rw [look]
  by_cases round : receives x.phase keyDown = true
  · rw [if_pos round]
    by_cases few' : x.chip.rsr < PACKET_SIZE
    · rw [receiveIfPacketAvailable, if_pos few']
      exact ⟨holds, all, inPlace⟩
    · obtain ⟨d, rest, queue, spansFit, after⟩ := fits round (Nat.not_lt.mp few')
      have broadcast := all d (queue ▸ List.mem_cons_self)
      have size : d.bytes.length = PACKET_SIZE := by
        obtain ⟨-, -, -, -, length⟩ := packet_of_broadcast can broadcast
        rw [d.length_bytes, length]
        rfl
      rw [queue, allBytes_cons] at holds
      have buffer : load (receiveSpans x.chip x.ram) rambuf PACKET_SIZE = d.bytes :=
        (load_receiveSpans x.chip x.ram).trans ((spans_eq_iff holds size).mpr spansFit)
      have received := inPlace_of_buffer can inPlace
        (fun a outside => receiveSpans_apply x.chip x.ram outside)
      rw [receiveIfPacketAvailable, if_neg few', queue]
      exact ⟨after, fun other member => all other (queue ▸ List.mem_cons_of_mem _ member),
        inPlace_handle can few received broadcast buffer x.phase⟩
  · rw [if_neg round]
    split <;> exact ⟨holds, all, inPlace⟩

/-- In a run whose calls all can receive, they all do, and all stays in place. -/
theorem sound_of_run (can : CanBurn groups) (few : (segmentsOfAll groups).length ≤ 255)
    (commands : UInt8 → Chip → Chip) {x : State} (sound : Sound groups text ram0 x)
    {actions : List Action}
    (broadcast : ∀ d, Action.arrive d ∈ actions → d.data ∈ packets text (segmentsOfAll groups))
    (fits : Always (step commands) (CanStep commands) x actions) :
    Always (step commands) (ReceivesStep commands) x actions ∧
      Sound groups text ram0 (after (step commands) x actions) := by
  induction actions generalizing x with
  | nil => exact ⟨trivial, sound⟩
  | cons action rest inductionHypothesis =>
    obtain ⟨here, later⟩ := fits
    have broadcastRest := fun d member => broadcast d (List.mem_cons_of_mem _ member)
    have next : Sound groups text ram0 (step commands x action).1 := by
      cases action with
      | arrive d => exact sound_arrive sound commands (broadcast d List.mem_cons_self)
      | look keyDown => exact sound_look can few sound commands here
    obtain ⟨calls, final⟩ := inductionHypothesis next broadcastRest later
    refine ⟨⟨?_, calls⟩, final⟩
    cases action with
    | arrive d => exact trivial
    | look keyDown =>
      intro round
      refine (receivesNext_iff commands x.ram sound.holds fun d member => ?_).mpr (here round)
      obtain ⟨-, -, -, -, length⟩ := packet_of_broadcast can (sound.broadcast d member)
      exact length

/-- Before the loops no square is GOT. -/
theorem sound_start {c : Chip} (holds : Holds R c []) (ram : Ram)
    (few : (segmentsOfAll groups).length ≤ 255) :
    Sound groups text (start c ram).ram (start c ram) := by
  refine ⟨holds, fun _ member => (List.not_mem_nil member).elim, fun a _ => .inl rfl,
    fun k seg here square => ?_⟩
  have below := (List.getElem?_eq_some_iff.mp here).1
  have inScreen : k < (List.replicate 512 (0x3A : UInt8)).length := by
    rw [List.length_replicate]
    omega
  have colon : (start c ram).ram (barStart + k) = 0x3A := by
    show store ram barStart (List.replicate 512 0x3A) (barStart + k) = 0x3A
    rw [store_apply_of_lt _ inScreen, List.getElem_replicate]
  rw [colon] at square
  cases square

theorem burned_of_sound (can : CanBurn groups) {x : State} (sound : Sound groups text ram0 x) :
    Burned groups ram0 (segmentsOfAll groups).length x := by
  refine ⟨fun all a byte wanted => ?_, fun a notOwn notWanted => ?_⟩
  · obtain ⟨seg, member, i, found, rfl⟩ := (wanted_iff can a byte).mp wanted
    obtain ⟨k, below, rfl⟩ := List.mem_iff_getElem.mp member
    exact sound.inPlace.got k _ (List.getElem?_eq_getElem below) (all k below) i byte found
  · exact (sound.inPlace.kept a notOwn).resolve_right (notWanted _)

/-! ### The rescue -/

end

theorem holds_nil {c : Chip} {pointer : Nat} (small : pointer < 65536) (rxRd : c.rxRd = pointer)
    (rxStart : c.rxStart = pointer) (rxWr : c.rxWr = pointer) : Holds R c [] := by
  have none : c.rsr = 0 := by
    rw [Chip.rsr, rxWr, rxStart]
    omega
  refine ⟨rfl, rxRd ▸ small, rxStart ▸ small, ?_, none ▸ Nat.zero_le _, ?_⟩
  · rw [rxWr, rxRd, List.length_nil]
    omega
  · rw [none, rxRd, rxStart, List.length_nil]
    omega

/-- A chip without datagrams, with its pointers somewhere. -/
def emptyChip (pointer : Nat) : Chip := ⟨fun _ => 0, pointer, pointer, pointer, 0, 0x22, []⟩

theorem holds_emptyChip {pointer : Nat} (small : pointer < 65536) :
    Holds R (emptyChip pointer) [] := holds_nil small rfl rfl rfl

/-- A chip that begins anew when it is opened. -/
def reopening (cmd : UInt8) (c : Chip) : Chip :=
  if cmd = 1 then { c with rxRd := 0, rxStart := 0, rxWr := 0 }
  else if cmd = 0x40 then c.recv
  else c

/-- Three bytes for the start of the EEPROM's free part. -/
def threeBytes : Group := ⟨0xC300, [0x7E, 0xC3, 0x00], by decide, by decide, by decide⟩

def threeBytesSent : Datagram :=
  ⟨[10, 23, 23, 23], [48, 35], packet [] 0 1 ⟨0xC300, [0x7E, 0xC3, 0x00]⟩, rfl, rfl⟩

theorem canBurn_threeBytes : CanBurn [threeBytes] := by
  have only : ∀ a byte, Wanted [threeBytes] a byte →
      ∃ i, threeBytes.data[i]? = some byte ∧ 0xC300 + i = a := by
    rintro a byte ⟨group, member, held⟩
    obtain rfl := List.mem_singleton.mp member
    exact held
  refine ⟨fun a byte byte' first second => ?_, fun a byte wanted own => ?_, fun group member => ?_⟩
  · obtain ⟨i, found, here⟩ := only a byte first
    obtain ⟨j, found', here'⟩ := only a byte' second
    obtain rfl : i = j := by omega
    exact Option.some.inj (found.symm.trans found')
  · obtain ⟨i, -, here⟩ := only a byte wanted
    simp only [Own, rambuf, PACKET_SIZE, barStart] at own
    omega
  · obtain rfl := List.mem_singleton.mp member
    exact .inr (.inr (by decide))

/-- The socket was just opened. -/
structure Fresh (x : State) : Prop where
  queue : x.queue = []
  rxRd : x.chip.rxRd = 0
  rxStart : x.chip.rxStart = 0
  rxWr : x.chip.rxWr = 0

/-- To a fresh socket a packet comes, and is received, and the socket is fresh again. -/
theorem fresh_look_arrive {x : State} (fresh : Fresh x) {d : Datagram}
    (size : d.bytes.length = PACKET_SIZE) {keyDown : Bool}
    (round : receives x.phase keyDown = true) :
    CanStep reopening (step reopening x (.arrive d)).1 (.look keyDown) ∧
      Fresh (look reopening (step reopening x (.arrive d)).1 keyDown) ∧
        (look reopening (step reopening x (.arrive d)).1 keyDown).phase = x.phase := by
  obtain ⟨queue, rxRd, rxStart, rxWr⟩ := fresh
  have none : x.chip.rsr = 0 := by rw [Chip.rsr, rxStart, rxWr]
  have room : x.chip.rsr + d.bytes.length ≤ RX_SIZE := by
    rw [none, size]
    decide
  have arrived : (step reopening x (.arrive d)).1 = ⟨⟨put R RX_SIZE x.chip.memory 0 d.bytes, 0, 0,
      PACKET_SIZE, x.chip.ir ||| IR_RECV, x.chip.status, x.chip.stored ++ [d]⟩, x.ram, x.phase,
      [d]⟩ := by
    rw [step, arrive_of_room room, if_pos room, queue, rxRd, rxStart, rxWr, size]
    rfl
  have straight : 0 % RX_SIZE + PACKET_SIZE ≤ RX_SIZE := by decide
  have enough : ¬(PACKET_SIZE + 65536 - 0) % 65536 < PACKET_SIZE := by decide
  rw [arrived]
  constructor
  · exact fun _ _ => ⟨d, [], rfl, .inl straight, holds_nil (Nat.zero_lt_succ _) rfl rfl rfl⟩
  · rw [look, if_pos round, receiveIfPacketAvailable, if_neg (show ¬Chip.rsr _ < _ from enough)]
    exact ⟨⟨rfl, rfl, rfl, rfl⟩, rfl⟩

/-- The key goes down. -/
theorem look_of_keyDown {x : State} (waiting : x.phase = .waiting) :
    look reopening x true = { x with phase := .burning } := by
  rw [look, waiting]
  rfl

/-- A datagram of 128 equal bytes. -/
def sevens : Datagram := ⟨[10, 23, 23, 23], [48, 35], List.replicate 128 7, rfl, rfl⟩

end Frobio.Axiom41
