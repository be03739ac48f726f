/-
This file models the loop of `WGet` in `net-cmds/f-wget.c` with `TcpRecvOrNotYet` of
`wiz/wiz5100s.c`, and shows when the file that it leaves is the whole stream.

The loop does not look whether the server has closed the connection. It ends with the fifth
poll that finds nothing, wherever in the stream the other four were, and with a packet whose
first byte is zero. All it learns is what the polls find, so the condition is about them.
-/

import Frobio.Wiz.TcpRecv

namespace Frobio.Wget

open Memory Ring Axcore Tcp

/-! ### The functions -/

/-- How `TcpRecvOrNotYet` ends. -/
inductive Prob
  | asserted
  | notYet
  | bad
  | good
  deriving DecidableEq

section

variable (socknum : Nat) (course : Course)

/-- The bytes are read from the ring, in one piece or in two. -/
def readRing (start n : Nat) (w : World) : List UInt8 × World :=
  let rxbuf := (sock socknum).rxRing
  let w := turn socknum course w
  if start + n ≥ WIZ_RING_SIZE then
    let first_n := WIZ_RING_SIZE - start
    let second_n := n - first_n
    let first := load w.chip.memory (rxbuf + start) first_n
    let w := turn socknum course w
    (first ++ load w.chip.memory rxbuf second_n, w)
  else (load w.chip.memory (rxbuf + start) n, w)

/-- The packet is as long as the number that is stored through `num_bytes_out`. -/
def TcpRecvOrNotYet (rounds n : Nat) (w : World) : Option (Prob × List UInt8 × World) :=
  if ¬n < 1200 then some (.asserted, [], w) else
  let w := turn socknum course w
  let bytes_waiting := w.chip.rxRsr
  let n := if bytes_waiting > n then n else bytes_waiting
  if n = 0 then some (.notYet, [], w)
  else
    let w := turn socknum course w
    let rd := w.chip.rxRd
    let (packet, w) := readRing socknum course (rd % WIZ_RING_SIZE) n w
    let w := takeOver socknum course rd n w
    match Wiz__sock_command socknum course rounds SK_SR_ESTB w with
    | none => none
    | some (ok, w) => if !ok then some (.bad, packet, w) else some (.good, packet, w)

/-- `sizeof packet`. -/
def PACKET_SIZE : Nat := 666

/-- The loop of `WGet` after so many polls: whether it has ended, and what the file holds. The
buffer is cleared before each poll, so its first byte is zero also where nothing came. -/
def wGetLoop (rounds : Nat) : Nat → Nat → List UInt8 → World →
    Option (Bool × List UInt8 × World)
  | 0, _, file, w => some (false, file, w)
  | polls + 1, count_not_yets, file, w =>
    match TcpRecvOrNotYet socknum course rounds PACKET_SIZE w with
    | none => none
    | some (ps, packet, w) =>
      if ps = .notYet then
        let count_not_yets := count_not_yets + 1
        if count_not_yets ≥ 5 then some (true, file, w)
        else wGetLoop rounds polls count_not_yets file w
      else if packet.length = 0 then some (true, file, w)
      else if packet.getD 0 0 = 0 then some (true, file, w)
      else wGetLoop rounds polls count_not_yets (file ++ packet) w

def WGet (rounds polls : Nat) (w : World) : Option (Bool × List UInt8 × World) :=
  wGetLoop socknum course rounds polls 0 [] w

/-! ### What the polls find -/

/-- The packets of so many polls, one after the other. -/
def polled (rounds : Nat) : Nat → World → Option (List (List UInt8) × World)
  | 0, w => some ([], w)
  | polls + 1, w =>
    match TcpRecvOrNotYet socknum course rounds PACKET_SIZE w with
    | none => none
    | some (_, packet, w) =>
      (polled rounds polls w).map fun (packets, w) => (packet :: packets, w)

/-- No packet before the fifth empty poll begins with a zero, and they are the whole stream. -/
def Patient (rounds : Nat) (w : World) : Prop :=
  ∃ polls packets w', polled socknum course rounds polls w = some (packets ++ [[]], w') ∧
    packets.count [] = 4 ∧ (∀ packet ∈ packets, packet.head? ≠ some 0) ∧
    packets.flatten = w.chip.inStream (sock socknum)

end

/-! ### One poll -/

section

variable {socknum : Nat} {course : Course} {rounds : Nat} {w w' : World}

theorem readRing_spec {start count : Nat} (sane : Sane w.chip)
    (position : start = w.chip.rxStart % RING_SIZE) (arrived : count ≤ w.chip.rxRsr) :
    Passes (sock socknum) w.chip (readRing socknum course start count w).2.chip ∧
      (readRing socknum course start count w).1 =
        window (sock socknum).rxRing RING_SIZE w.chip.memory w.chip.rxStart count := by
  have inside : start < RING_SIZE := position ▸ Nat.mod_lt _ (by decide)
  have fits := arrived.trans sane.rxRsr
  have first := passes_turn socknum course sane
  have bytes₁ := window_of_passes sane first arrived
  rw [← position] at bytes₁
  rw [readRing]
  generalize turn socknum course w = w₁ at first bytes₁
  by_cases wraps : start + count ≥ WIZ_RING_SIZE
  · have second := first.trans (passes_turn socknum course first.sane)
    have bytes₂ := window_of_passes sane second arrived
    rw [← position] at bytes₂
    have piece₁ := (@load_pieces w₁.chip.memory (sock socknum).rxRing start count inside fits
      wraps).1
    have piece₂ := (@load_pieces (turn socknum course w₁).chip.memory (sock socknum).rxRing start
      count inside fits wraps).2
    rw [bytes₁] at piece₁
    rw [bytes₂] at piece₂
    rw [if_pos wraps]
    refine ⟨second, ?_⟩
    exact (congrArg₂ _ piece₁ piece₂).trans (List.take_append_drop ..)
  · have short : start + count < RING_SIZE := not_le.mp wraps
    rw [if_neg wraps, ← bytes₁, ← get_eq_window inside fits, get_eq_load (Nat.le_of_lt short)]
    exact ⟨first, rfl⟩

/-- A poll takes its packet from the stream, and says `NotYet` exactly if it is empty. -/
theorem tcpRecvOrNotYet_spec {ps : Prob} {packet : List UInt8} (idle : Idle w.chip)
    (returned : TcpRecvOrNotYet socknum course rounds PACKET_SIZE w = some (ps, packet, w')) :
    (ps = .notYet ↔ packet = []) ∧ Moves (sock socknum) w.chip w'.chip [] packet := by
  have first := passes_turn socknum course idle.sane
  rw [TcpRecvOrNotYet, if_neg (not_not_intro (by decide))] at returned
  dsimp only at returned
  generalize turn socknum course w = w₁ at first returned
  have few : (if w₁.chip.rxRsr > PACKET_SIZE then PACKET_SIZE else w₁.chip.rxRsr) =
      min PACKET_SIZE w₁.chip.rxRsr := by
    split
    · omega
    · omega
  rw [few] at returned
  obtain ⟨n, count⟩ : ∃ n, min PACKET_SIZE w₁.chip.rxRsr = n := ⟨_, rfl⟩
  rw [count] at returned
  have some_waiting : n ≤ w₁.chip.rxRsr := by omega
  split at returned
  · cases returned
    exact ⟨iff_of_true rfl rfl, first.moves idle⟩
  rename_i something
  have second := passes_turn socknum course first.sane
  generalize turn socknum course w₁ = w₂ at second returned
  have through := first.trans second
  have idle₂ := through.idle idle
  have within : n ≤ w₂.chip.rxRsr := some_waiting.trans second.rxRsr
  obtain ⟨third, read⟩ := @readRing_spec socknum course w₂ (w₂.chip.rxRd % WIZ_RING_SIZE) n
    second.sane (by rw [idle₂.rxRd]; rfl) within
  rcases result : readRing socknum course (w₂.chip.rxRd % WIZ_RING_SIZE) n w₂ with ⟨bytes, w₃⟩
  rw [result] at third read returned
  dsimp only at third read returned
  have fourth := moves_takeOver socknum course (third.idle idle₂) third.rxRd.symm
    (within.trans third.rxRsr)
  rw [third.inStream, second.sane.take_inStream within, ← read] at fourth
  have sofar := ((through.trans third).moves idle).trans fourth
  have length : bytes.length = n := by rw [read, length_window]
  have nonempty : bytes ≠ [] := by
    rintro rfl
    exact something length.symm
  split at returned
  · cases returned
  · rename_i ok w₅ commanded
    have fifth := passes_sockCommand fourth.idle.sane commanded
    have all := sofar.trans (fifth.moves fourth.idle)
    simp only [List.append_nil, List.nil_append] at all
    split at returned
    · cases returned
      exact ⟨iff_of_false (by decide) nonempty, all⟩
    · cases returned
      exact ⟨iff_of_false (by decide) nonempty, all⟩

/-- A longer sequence of polls begins like a shorter one. -/
theorem polled_le {polls polls' : Nat} {packets packets' : List (List UInt8)} {w₁ w₂ : World}
    (le : polls ≤ polls') (shorter : polled socknum course rounds polls w = some (packets, w₁))
    (longer : polled socknum course rounds polls' w = some (packets', w₂)) :
    packets <+: packets' := by
  induction polls generalizing polls' w packets packets' with
  | zero =>
    cases shorter
    exact List.nil_prefix
  | succ polls inductionHypothesis =>
    obtain ⟨polls', rfl⟩ : ∃ more, polls' = more + 1 := ⟨polls' - 1, by omega⟩
    rw [polled] at shorter longer
    cases returned : TcpRecvOrNotYet socknum course rounds PACKET_SIZE w with
    | none =>
      rw [returned] at shorter
      cases shorter
    | some result =>
      rw [returned] at shorter longer
      obtain ⟨⟨_, _⟩, first, same⟩ := Option.map_eq_some_iff.mp shorter
      obtain ⟨⟨_, _⟩, second, same'⟩ := Option.map_eq_some_iff.mp longer
      cases same
      cases same'
      exact List.cons_prefix_cons.mpr ⟨rfl, inductionHypothesis (by omega) first second⟩

/-! ### The whole loop -/

/-- What a run of the loop has done: the file has got the packets of the polls, none of which
begins with a zero, and if it has ended, that was at the fifth empty poll or at a packet that
does. -/
def Ran (socknum : Nat) (course : Course) (rounds : Nat) (w : World) (count_not_yets : Nat)
    (file : List UInt8) (ended : Bool) (final : List UInt8) : Prop :=
  ∃ packets last rest, w.chip.inStream (sock socknum) = packets.flatten ++ last ++ rest ∧
    final = file ++ packets.flatten ∧ (∀ packet ∈ packets, packet.head? ≠ some 0) ∧
    count_not_yets + packets.count [] < 5 ∧
    (ended = true →
      (∃ polls w', polled socknum course rounds polls w = some (packets ++ [last], w')) ∧
      (last = [] ∧ count_not_yets + packets.count [] = 4 ∨ last.head? = some 0))

/-- The run has ended with this packet. -/
theorem ran_stop {ps : Prob} {packet file : List UInt8} {count_not_yets : Nat}
    (few : count_not_yets < 5) (moves : Moves (sock socknum) w.chip w'.chip [] packet)
    (returned : TcpRecvOrNotYet socknum course rounds PACKET_SIZE w = some (ps, packet, w'))
    (why : packet = [] ∧ count_not_yets = 4 ∨ packet.head? = some 0) :
    Ran socknum course rounds w count_not_yets file true file := by
  refine ⟨[], packet, w'.chip.inStream (sock socknum), moves.inStream,
    (List.append_nil _).symm, fun _ member => absurd member List.not_mem_nil, few,
    fun _ => ⟨⟨1, w', ?_⟩, why⟩⟩
  rw [polled, returned]
  rfl

/-- The run goes on behind this packet. -/
theorem Ran.behind {ps : Prob} {packet file final : List UInt8} {count_not_yets : Nat}
    {ended : Bool} (moves : Moves (sock socknum) w.chip w'.chip [] packet)
    (returned : TcpRecvOrNotYet socknum course rounds PACKET_SIZE w = some (ps, packet, w'))
    (head : packet.head? ≠ some 0)
    (ran : Ran socknum course rounds w' (count_not_yets + [packet].count []) (file ++ packet)
      ended final) :
    Ran socknum course rounds w count_not_yets file ended final := by
  obtain ⟨packets, last, rest, stream, same, heads, counts, ends⟩ := ran
  have added : count_not_yets + (packet :: packets).count [] =
      count_not_yets + [packet].count [] + packets.count [] := by
    rw [← List.singleton_append, List.count_append, Nat.add_assoc]
  refine ⟨packet :: packets, last, rest, ?_, ?_, ?_, added ▸ counts, fun stopped => ?_⟩
  · rw [moves.inStream, stream, List.flatten_cons, List.append_assoc, List.append_assoc,
      List.append_assoc]
  · rw [same, List.flatten_cons, List.append_assoc]
  · intro other member
    rcases List.mem_cons.mp member with rfl | later
    · exact head
    · exact heads other later
  · obtain ⟨⟨polls, w'', found⟩, why⟩ := ends stopped
    refine ⟨⟨polls + 1, w'', ?_⟩, added ▸ why⟩
    rw [polled, returned]
    dsimp only
    rw [found]
    rfl

theorem ran_wGetLoop {polls count_not_yets : Nat} {file final : List UInt8} {ended : Bool}
    (idle : Idle w.chip) (few : count_not_yets < 5)
    (run : wGetLoop socknum course rounds polls count_not_yets file w =
      some (ended, final, w')) :
    Ran socknum course rounds w count_not_yets file ended final := by
  induction polls generalizing count_not_yets file w with
  | zero =>
    cases run
    exact ⟨[], [], _, rfl, (List.append_nil _).symm, fun _ member => absurd member List.not_mem_nil,
      few, nofun⟩
  | succ polls inductionHypothesis =>
    rw [wGetLoop] at run
    cases returned : TcpRecvOrNotYet socknum course rounds PACKET_SIZE w with
    | none =>
      rw [returned] at run
      cases run
    | some result =>
      obtain ⟨ps, packet, w₁⟩ := result
      obtain ⟨empty, moves⟩ := tcpRecvOrNotYet_spec idle returned
      rw [returned] at run
      dsimp only at run
      by_cases none_came : ps = .notYet
      · have nothing : packet = [] := empty.mp none_came
        subst nothing
        rw [if_pos none_came] at run
        by_cases fifth : count_not_yets + 1 ≥ 5
        · rw [if_pos fifth] at run
          cases run
          exact ran_stop few moves returned (.inl ⟨rfl, by omega⟩)
        · rw [if_neg fifth] at run
          refine Ran.behind moves returned (by decide) ?_
          rw [List.append_nil]
          exact inductionHypothesis moves.idle (not_le.mp fifth) run
      · have something : packet ≠ [] := fun nothing => none_came (empty.mpr nothing)
        obtain ⟨byte, others, rfl⟩ := List.exists_cons_of_ne_nil something
        rw [if_neg none_came, if_neg (List.length_pos_of_ne_nil something).ne',
          List.getD_cons_zero] at run
        by_cases zero : byte = 0
        · rw [if_pos zero] at run
          cases run
          exact ran_stop few moves returned (.inr (congrArg some zero))
        · rw [if_neg zero] at run
          refine Ran.behind moves returned (fun head => zero (Option.some.inj head)) ?_
          rw [List.count_singleton, if_neg fun equal => something (beq_iff_eq.mp equal)]
          exact inductionHypothesis moves.idle few run

end

/-- The file always has a beginning of the stream; and where the loop has ended, all of it
exactly if no packet before the fifth empty poll begins with a zero and the whole stream has
come before that poll. -/
theorem wget_whole_iff (socknum : Nat) (course : Course) (rounds : Nat) {w : World}
    (idle : Idle w.chip) :
    (∀ polls ended file w', WGet socknum course rounds polls w = some (ended, file, w') →
      file <+: w.chip.inStream (sock socknum)) ∧
    ∀ polls file w', WGet socknum course rounds polls w = some (true, file, w') →
      (file = w.chip.inStream (sock socknum) ↔ Patient socknum course rounds w) := by
  constructor
  · intro polls ended file w' run
    obtain ⟨packets, last, rest, stream, same, -⟩ := ran_wGetLoop idle (by decide) run
    rw [same, stream, List.append_assoc]
    exact List.prefix_append ..
  intro polls file w' run
  obtain ⟨packets, last, rest, stream, same, heads, counts, ends⟩ :=
    ran_wGetLoop idle (by decide) run
  obtain ⟨⟨made, w'', found⟩, why⟩ := ends rfl
  rw [Nat.zero_add] at counts why
  rw [List.nil_append] at same
  constructor
  · intro whole
    have both : packets.flatten ++ (last ++ rest) = packets.flatten := by
      rw [← List.append_assoc, ← stream, ← whole, same]
    have nothing : last = [] :=
      (List.append_eq_nil_iff.mp (List.append_right_eq_self.mp both)).1
    subst nothing
    rcases why with ⟨-, four⟩ | head
    · exact ⟨made, packets, w'', found, four, heads, same ▸ whole⟩
    · cases head
  · rintro ⟨made', packets', w₂, found', four, heads', whole⟩
    have counted : (packets' ++ [[]]).count [] = 5 := by
      rw [List.count_append, four]
      rfl
    suffices ended : packets ++ [last] = packets' ++ [[]] by
      rw [same, (List.append_inj' ended rfl).1, whole]
    -- One of the two sequences begins like the other, and both stop as soon as they can.
    rcases Nat.le_total made made' with le | le
    · rcases List.prefix_concat_iff.mp (polled_le le found found') with ended | before
      · exact ended
      rcases why with ⟨rfl, fourth⟩ | head
      · have most := before.sublist.count_le []
        rw [List.count_append, fourth, four] at most
        exact absurd most (by decide)
      · exact absurd head (heads' last (before.subset List.mem_concat_self))
    · rcases List.prefix_concat_iff.mp (polled_le le found' found) with ended | before
      · exact ended.symm
      · have most := before.sublist.count_le []
        omega

theorem idle_incoming {c : Chip} (idle : Idle c) (incoming : List UInt8) :
    Idle { c with incoming := incoming } :=
  ⟨⟨idle.sane.1, idle.sane.2, idle.sane.3, idle.sane.4, idle.sane.5, idle.sane.6⟩, idle.txWr,
    idle.rxRd⟩

/-- Of five bytes, one has arrived, two more arrive before the third poll and the last two before
the sixth. -/
def arriving : Course where
  events turns := if turns = 8 ∨ turns = 18 then [.arrive 2] else []
  sr _ := SK_SR_ESTB
  cr _ := 0

/-- The first byte is near the end of the ring. -/
def responding : World :=
  { holding 1 2046 [72] with
    chip := { (holding 1 2046 [72]).chip with incoming := [84, 0, 80, 33] } }

/-- The second packet goes over the end of the ring, and has a zero behind its first byte. Between
the packets there are empty polls. -/
theorem wget_whole_responding :
    responding.chip.inStream (sock 1) = [72, 84, 0, 80, 33] ∧
      (polled 1 arriving 1 8 responding).map Prod.fst =
        some [[72], [], [84, 0], [], [], [80, 33], [], []] ∧
      Patient 1 arriving 1 responding := by
  have idle : Idle responding.chip :=
    idle_incoming (idle_holding (by decide) (by decide)) [84, 0, 80, 33]
  have stream : responding.chip.inStream (sock 1) = [72, 84, 0, 80, 33] := by decide +kernel
  refine ⟨stream, by decide +kernel, ?_⟩
  have run : (WGet 1 arriving 1 8 responding).map (fun result => (result.1, result.2.1)) =
      some (true, [72, 84, 0, 80, 33]) := by decide +kernel
  obtain ⟨⟨ended, file, w'⟩, returned, same⟩ := Option.map_eq_some_iff.mp run
  cases same
  exact ((wget_whole_iff 1 arriving 1 idle).2 8 _ w' returned).mp stream.symm

/-- The stream is one zero, and the file is left empty. -/
theorem not_wget_whole_zero :
    Idle (holding 1 0 [0]).chip ∧ (holding 1 0 [0]).chip.inStream (sock 1) = [0] ∧
      ∃ w', WGet 1 still 1 1 (holding 1 0 [0]) = some (true, [], w') := by
  refine ⟨idle_holding (by decide) (by decide), by decide +kernel, ?_⟩
  have run : (WGet 1 still 1 1 (holding 1 0 [0])).map (fun result => (result.1, result.2.1)) =
      some (true, []) := by decide +kernel
  obtain ⟨⟨ended, file, w'⟩, returned, same⟩ := Option.map_eq_some_iff.mp run
  cases same
  exact ⟨w', returned⟩

end Frobio.Wget
