/-
This file shows that any calls of `TcpSend` and `TcpRecv`, one after the other, are
faithful to the streams of a socket, and that they all return if the chip is fair: it
raises no error, and however late it is, it transmits some of what waits, and takes in
some of what arrives.

The loops that wait are rounds of one function, so that they end is an instance of
the rule for such loops, with what waits or the room that is left as the measure.
-/

import Frobio.Axcore.Rings

namespace Frobio.Axcore

open Memory Ring Loop

variable {sock : Sock} {schedule : Nat → List Event} {c c' : Chip} {w w' : World}

/-! ### Calls -/

/-- Each send appended a beginning of its buffer, each receive put no more in its buffer than was
asked for, and both did all of it if they gave no error. -/
def Honest : List Call → List Returned → List UInt8 → Prop
  | [], [], sent => sent = []
  | .send p :: later, (e, _) :: others, sent =>
    ∃ first rest, sent = first ++ rest ∧ first <+: p ∧ (e = OKAY → first = p) ∧
      Honest later others rest
  | .recv n :: later, (e, buf) :: others, sent =>
    buf.length ≤ n ∧ (e = OKAY → buf.length = n) ∧ Honest later others sent
  | _, _, _ => False

/-- All that calls put in their buffers. -/
def delivered (returned : List Returned) : List UInt8 := returned.flatMap Prod.snd

theorem moves_calls (apart : sock.Apart) {rounds : Nat} {list : List Call}
    {returned : List Returned} (idle : Idle w.chip)
    (all : calls sock schedule rounds w list = some (returned, w')) :
    ∃ sent, Moves sock w.chip w'.chip sent (delivered returned) ∧ Honest list returned sent := by
  induction list generalizing w returned with
  | nil =>
    cases all
    exact ⟨[], .refl idle, rfl⟩
  | cons first later inductionHypothesis =>
    rw [calls] at all
    split at all
    · cases all
    rename_i one w₁ called
    split at all
    · cases all
    rename_i others w₂ rest
    cases all
    cases first with
    | send p =>
      rw [call] at called
      split at called
      · cases called
      · rename_i e w₁ returned
        cases called
        obtain ⟨sent, moves, begins, whole⟩ := moves_tcpSend apart idle returned
        obtain ⟨sent', moves', honest⟩ := inductionHypothesis moves.idle rest
        exact ⟨sent ++ sent', moves.trans moves', sent, sent', rfl, begins, whole, honest⟩
    | recv n =>
      rw [call] at called
      split at called
      · cases called
      · rename_i e buf w₁ returned
        cases called
        obtain ⟨moves, short, whole⟩ := moves_tcpRecv apart idle returned
        obtain ⟨sent', moves', honest⟩ := inductionHypothesis moves.idle rest
        exact ⟨sent', moves.trans moves', short, whole, honest⟩

/-! ### More rounds -/

theorem wizReserveToSend_add {rounds n : Nat} {result : Nat × World} (more : Nat)
    (done : wizReserveToSend sock schedule rounds w n = some result) :
    wizReserveToSend sock schedule (rounds + more) w n = some result := by
  induction rounds generalizing w with
  | zero => cases done
  | succ rounds inductionHypothesis =>
    rw [Nat.succ_add]
    rw [wizReserveToSend] at done ⊢
    dsimp only at done ⊢
    split at done
    · rename_i short
      rw [if_pos short]
      exact inductionHypothesis done
    · rename_i enough
      rw [if_neg enough]
      exact done

theorem wizRecvChunk_add {rounds n : Nat} {result : UInt8 × List UInt8 × World} (more : Nat)
    (done : wizRecvChunk sock schedule rounds w n = some result) :
    wizRecvChunk sock schedule (rounds + more) w n = some result := by
  induction rounds generalizing w with
  | zero => cases done
  | succ rounds inductionHypothesis =>
    rw [Nat.succ_add]
    rw [wizRecvChunk] at done ⊢
    split at done
    split at done
    · rename_i notYet
      rw [if_pos notYet]
      exact inductionHypothesis done
    · rename_i returned
      rw [if_neg returned]
      exact done

theorem wizSendChunk_add {rounds : Nat} {data : List UInt8} {result : UInt8 × World} (more : Nat)
    (done : wizSendChunk sock schedule rounds w data = some result) :
    wizSendChunk sock schedule (rounds + more) w data = some result := by
  rw [wizSendChunk] at done ⊢
  split at done
  split at done
  · rename_i failed
    rw [if_pos failed]
    exact done
  · rename_i okay
    rw [if_neg okay]
    split at done
    · cases done
    · rename_i txPtr w₂ reserved
      rw [wizReserveToSend_add more reserved]
      exact done

theorem tcpRecv_add {rounds n : Nat} {result : UInt8 × List UInt8 × World} (more : Nat)
    (done : tcpRecv sock schedule rounds w n = some result) :
    tcpRecv sock schedule (rounds + more) w n = some result := by
  induction rounds generalizing w n result with
  | zero => cases done
  | succ rounds inductionHypothesis =>
    rw [Nat.succ_add]
    rw [tcpRecv] at done ⊢
    split at done
    · rename_i nothing
      rw [if_pos nothing]
      exact done
    · rename_i positive
      rw [if_neg positive]
      split at done
      · cases done
      · rename_i e buf w₁ chunk
        rw [wizRecvChunk_add more chunk]
        dsimp only
        split at done
        · rename_i failed
          rw [if_pos failed]
          exact done
        · rename_i okay
          rw [if_neg okay]
          split at done
          · cases done
          · rename_i e₂ rest w₂ later
            rw [inductionHypothesis later]
            exact done

theorem tcpSend_add {rounds : Nat} {p : List UInt8} {result : UInt8 × World} (more : Nat)
    (done : tcpSend sock schedule rounds w p = some result) :
    tcpSend sock schedule (rounds + more) w p = some result := by
  induction rounds generalizing w p with
  | zero => cases done
  | succ rounds inductionHypothesis =>
    rw [Nat.succ_add]
    rw [tcpSend] at done ⊢
    split at done
    · rename_i nothing
      rw [if_pos nothing]
      exact done
    · rename_i positive
      rw [if_neg positive]
      split at done
      · cases done
      · rename_i e w₁ chunk
        rw [wizSendChunk_add more chunk]
        dsimp only
        split at done
        · rename_i failed
          rw [if_pos failed]
          exact done
        · rename_i okay
          rw [if_neg okay]
          exact inductionHypothesis done

/-- More rounds change no result of a call. -/
theorem call_add {rounds : Nat} {one : Call} {result : Returned × World} (more : Nat)
    (done : call sock schedule rounds w one = some result) :
    call sock schedule (rounds + more) w one = some result := by
  cases one with
  | send p =>
    rw [call] at done ⊢
    split at done
    · cases done
    · rename_i e w₁ returned
      rw [tcpSend_add more returned]
      exact done
  | recv n =>
    rw [call] at done ⊢
    split at done
    · cases done
    · rename_i e buf w₁ returned
      rw [tcpRecv_add more returned]
      exact done

theorem calls_add {rounds : Nat} {list : List Call} {result : List Returned × World} (more : Nat)
    (done : calls sock schedule rounds w list = some result) :
    calls sock schedule (rounds + more) w list = some result := by
  induction list generalizing w result with
  | nil => exact done
  | cons first later inductionHypothesis =>
    rw [calls] at done ⊢
    split at done
    · cases done
    · rename_i returned w₁ called
      rw [call_add more called]
      dsimp only
      split at done
      · cases done
      · rename_i others w₂ rest
        rw [inductionHypothesis rest]
        exact done

/-! ### A fair chip -/

/-- The chip has raised no error. -/
def Calm (c : Chip) : Prop := c.ir &&& SK_IR_TOUT = 0 ∧ c.ir &&& SK_IR_DISC = 0

/-- The chip raises no error. -/
def Quiet (schedule : Nat → List Event) : Prop :=
  ∀ turn bits, .interrupt bits ∈ schedule turn → bits &&& SK_IR_TOUT = 0 ∧ bits &&& SK_IR_DISC = 0

/-- The chip raises no error, and always goes on to transmit and to take in. -/
structure Fair (schedule : Nat → List Event) : Prop where
  calm : ∀ turn bits, .interrupt bits ∈ schedule turn →
    bits &&& SK_IR_TOUT = 0 ∧ bits &&& SK_IR_DISC = 0
  transmits : ∀ turn, ∃ later count, turn ≤ later ∧ 0 < count ∧ .transmit count ∈ schedule later
  arrives : ∀ turn, ∃ later count, turn ≤ later ∧ 0 < count ∧ .arrive count ∈ schedule later

theorem Fair.quiet (fair : Fair schedule) : Quiet schedule := fair.calm

theorem Quiet.calm_access (quiet : Quiet schedule) (sock : Sock) (calm : Calm w.chip) :
    Calm (access sock schedule w).chip := by
  have each : ∀ event ∈ schedule w.turns, ∀ c, Calm c → Calm (Chip.event sock c event) := by
    intro event member c calm
    cases event with
    | arrive count => exact calm
    | transmit count => exact calm
    | interrupt bits =>
      obtain ⟨tout, disc⟩ := quiet w.turns bits member
      refine ⟨?_, ?_⟩
      · show (c.ir ||| bits) &&& SK_IR_TOUT = 0
        rw [or_and_bits, calm.1, tout]
        rfl
      · show (c.ir ||| bits) &&& SK_IR_DISC = 0
        rw [or_and_bits, calm.2, disc]
        rfl
  rw [access]
  dsimp only
  generalize w.chip = c at calm
  generalize schedule w.turns = events at each
  induction events generalizing c with
  | nil => exact calm
  | cons event rest inductionHypothesis =>
    exact inductionHypothesis _ (each event List.mem_cons_self c calm)
      fun other member => each other (List.mem_cons_of_mem _ member)

theorem wizCheck_of_calm (calm : Calm (access sock schedule w).chip) :
    wizCheck sock schedule w = (OKAY, access sock schedule w) := by
  rw [wizCheck, if_neg (Classical.not_not.mpr calm.1), if_neg (Classical.not_not.mpr calm.2)]

/-- Among the events is one that transmits, so less waits, or nothing does. -/
theorem waiting_of_transmits (sane : Sane c) (apart : sock.Apart) {events : List Event}
    {count : Nat} (some : 0 < count) (member : .transmit count ∈ events) :
    (events.foldl (Chip.event sock) c).waiting = 0 ∨
      (events.foldl (Chip.event sock) c).waiting < c.waiting := by
  induction events generalizing c with
  | nil => exact absurd member List.not_mem_nil
  | cons event rest inductionHypothesis =>
    have one := passes_event sane apart event
    have others := passes_events one.sane apart rest
    rcases List.mem_cons.mp member with rfl | later
    · have fewer : (c.event sock (.transmit count)).waiting = c.waiting - min count c.waiting :=
        waiting_transmit sock sane count
      have bound : (rest.foldl (Chip.event sock) (c.event sock (.transmit count))).waiting ≤
          c.waiting - min count c.waiting := others.waiting.trans_eq fewer
      rw [List.foldl_cons]
      omega
    · rw [List.foldl_cons]
      rcases inductionHypothesis one.sane later with none | less
      · exact .inl none
      · exact .inr (lt_of_lt_of_le less one.waiting)

/-- Among the events is one that takes bytes in, so more have arrived, or enough had. -/
theorem rxRsr_of_arrives (sane : Sane c) (apart : sock.Apart) {events : List Event} {count n : Nat}
    (some : 0 < count) (member : .arrive count ∈ events) (small : n ≤ RING_SIZE)
    (there : n ≤ (c.inStream sock).length) :
    n ≤ (events.foldl (Chip.event sock) c).rxRsr ∨
      c.rxRsr < (events.foldl (Chip.event sock) c).rxRsr := by
  induction events generalizing c with
  | nil => exact absurd member List.not_mem_nil
  | cons event rest inductionHypothesis =>
    have one := passes_event sane apart event
    have others := passes_events one.sane apart rest
    rw [List.foldl_cons]
    rcases List.mem_cons.mp member with rfl | later
    · have more : (c.event sock (.arrive count)).rxRsr = c.rxRsr + c.room count :=
        rxRsr_arrive sock sane count
      have bound := others.rxRsr
      rw [more] at bound
      rw [length_inStream] at there
      rw [Chip.room] at bound
      omega
    · rcases inductionHypothesis one.sane later (by rw [one.inStream]; exact there) with
        enough | grown
      · exact .inl enough
      · exact .inr (lt_of_le_of_lt one.rxRsr grown)

/-! ### Waiting -/

theorem turns_iterate (sock : Sock) (schedule : Nat → List Event) (count : Nat) (w : World) :
    ((access sock schedule)^[count] w).turns = w.turns + count := by
  induction count generalizing w with
  | zero => rfl
  | succ count inductionHypothesis =>
    rw [Function.iterate_succ_apply, inductionHypothesis]
    show w.turns + 1 + count = w.turns + (count + 1)
    omega

theorem passes_iterate (schedule : Nat → List Event) (apart : sock.Apart) (sane : Sane w.chip) (count : Nat) :
    Passes sock w.chip ((access sock schedule)^[count] w).chip := by
  induction count generalizing w with
  | zero => exact .refl sane
  | succ count inductionHypothesis =>
    rw [Function.iterate_succ_apply]
    have first := passes_access schedule apart sane
    exact first.trans (inductionHypothesis first.sane)

theorem wizReserveToSend_of_ready {count n : Nat}
    (ready : n ≤ ((access sock schedule)^[count + 1] w).chip.txFsr) :
    ∃ result, wizReserveToSend sock schedule (count + 1) w n = some result := by
  induction count generalizing w with
  | zero =>
    rw [wizReserveToSend]
    dsimp only
    exact ⟨_, if_neg (Nat.not_lt.mpr ready)⟩
  | succ count inductionHypothesis =>
    rw [wizReserveToSend]
    dsimp only
    split
    · rw [Function.iterate_succ_apply] at ready
      exact inductionHypothesis ready
    · exact ⟨_, rfl⟩

/-- A chip that goes on to transmit makes room. -/
theorem exists_wizReserveToSend (fair : Fair schedule) (apart : sock.Apart) (sane : Sane w.chip)
    {n : Nat} (small : n ≤ RING_SIZE) :
    ∃ rounds result, wizReserveToSend sock schedule rounds w n = some result := by
  have progress : ∀ w : World, Sane w.chip → ∃ count,
      n ≤ ((access sock schedule)^[count + 1] w).chip.txFsr ∨
        ((access sock schedule)^[count + 1] w).chip.waiting < w.chip.waiting := by
    intro w sane
    obtain ⟨later, count, le, positive, member⟩ := fair.transmits w.turns
    refine ⟨later - w.turns, ?_⟩
    have before := passes_iterate schedule apart sane (later - w.turns)
    have turns := turns_iterate sock schedule (later - w.turns) w
    rw [Function.iterate_succ_apply']
    generalize (access sock schedule)^[later - w.turns] w = u at before turns
    rw [show w.turns + (later - w.turns) = later by omega] at turns
    rw [← turns] at member
    rcases waiting_of_transmits before.sane apart positive member with none | less
    · refine .inl ?_
      have all : (access sock schedule u).chip.waiting = 0 := none
      rw [Chip.txFsr, all]
      exact small
    · exact .inr (lt_of_lt_of_le less before.waiting)
  obtain ⟨count, ready⟩ := exists_ready_of_progress (access sock schedule) (fun w => Sane w.chip)
    (fun w => n ≤ w.chip.txFsr) (fun w => w.chip.waiting)
    (fun w sane => (passes_access schedule apart sane).sane) progress sane
  exact ⟨count + 1, wizReserveToSend_of_ready ready⟩

/-- One round of the loop in `WizRecvChunk` that finds too little. -/
def poll (sock : Sock) (schedule : Nat → List Event) (w : World) : World :=
  access sock schedule (access sock schedule w)

theorem wizRecvGetBytesWaiting_of_calm (calm : Calm (access sock schedule w).chip) :
    wizRecvGetBytesWaiting sock schedule w =
      (OKAY, (poll sock schedule w).chip.rxRsr, poll sock schedule w) := by
  rw [wizRecvGetBytesWaiting, wizCheck_of_calm calm]
  rfl

theorem wizRecvChunkTry_of_short {n : Nat} (calm : Calm (access sock schedule w).chip)
    (short : (poll sock schedule w).chip.rxRsr < n) :
    wizRecvChunkTry sock schedule w n = (NOTYET, [], poll sock schedule w) := by
  rw [wizRecvChunkTry, wizRecvGetBytesWaiting_of_calm calm]
  dsimp only
  rw [if_neg (Classical.not_not.mpr rfl), if_pos short]

theorem Quiet.wizRecvChunkTry_of_enough (quiet : Quiet schedule) {n : Nat} (calm : Calm w.chip)
    (enough : n ≤ (poll sock schedule w).chip.rxRsr) :
    ∃ buf w', wizRecvChunkTry sock schedule w n = (OKAY, buf, w') ∧ Calm w'.chip := by
  have first := quiet.calm_access sock calm
  rw [wizRecvChunkTry, wizRecvGetBytesWaiting_of_calm first]
  dsimp only
  rw [if_neg (Classical.not_not.mpr rfl), if_neg (Nat.not_lt.mpr enough)]
  refine ⟨_, _, rfl, ?_⟩
  have third := quiet.calm_access sock
    (quiet.calm_access sock (quiet.calm_access sock
      (quiet.calm_access sock first)))
  exact quiet.calm_access sock (w := ⟨{ (access sock schedule (access sock schedule (access sock schedule
    (poll sock schedule w)))).chip with rxRd := _ }, _⟩) third

theorem Fair.wizRecvChunk_of_ready (fair : Fair schedule) {count n : Nat} (calm : Calm w.chip)
    (ready : n ≤ ((poll sock schedule)^[count + 1] w).chip.rxRsr) :
    ∃ buf w', wizRecvChunk sock schedule (count + 1) w n = some (OKAY, buf, w') ∧
      Calm w'.chip := by
  induction count generalizing w with
  | zero =>
    obtain ⟨buf, w', tried, after⟩ := fair.quiet.wizRecvChunkTry_of_enough calm ready
    refine ⟨buf, w', ?_, after⟩
    rw [wizRecvChunk, tried]
    rfl
  | succ count inductionHypothesis =>
    have first := fair.quiet.calm_access sock calm
    by_cases enough : n ≤ (poll sock schedule w).chip.rxRsr
    · obtain ⟨buf, w', tried, after⟩ := fair.quiet.wizRecvChunkTry_of_enough calm enough
      refine ⟨buf, w', ?_, after⟩
      rw [wizRecvChunk, tried]
      rfl
    · rw [wizRecvChunk, wizRecvChunkTry_of_short first (Nat.not_le.mp enough)]
      dsimp only
      rw [if_pos rfl]
      rw [Function.iterate_succ_apply] at ready
      exact inductionHypothesis (fair.quiet.calm_access sock first) ready

/-- A chip that raises no error lets a chunk be received without one. -/
theorem Quiet.wizRecvChunk_okay (quiet : Quiet schedule) {rounds n : Nat} {e : UInt8}
    {buf : List UInt8} (calm : Calm w.chip)
    (received : wizRecvChunk sock schedule rounds w n = some (e, buf, w')) :
    e = OKAY ∧ Calm w'.chip := by
  induction rounds generalizing w with
  | zero => cases received
  | succ rounds inductionHypothesis =>
    have first := quiet.calm_access sock calm
    rw [wizRecvChunk] at received
    by_cases enough : n ≤ (poll sock schedule w).chip.rxRsr
    · obtain ⟨buf', w₁, tried, after⟩ := quiet.wizRecvChunkTry_of_enough calm enough
      rw [tried] at received
      cases received
      exact ⟨rfl, after⟩
    · rw [wizRecvChunkTry_of_short first (Nat.not_le.mp enough)] at received
      exact inductionHypothesis (quiet.calm_access sock first) received

theorem passes_poll (schedule : Nat → List Event) (apart : sock.Apart) (sane : Sane w.chip) :
    Passes sock w.chip (poll sock schedule w).chip := by
  have first := passes_access schedule apart sane
  exact first.trans (passes_access schedule apart first.sane)

/-- If bytes come in during a poll, more have arrived after it, or enough had. -/
theorem rxRsr_poll (apart : sock.Apart) (sane : Sane w.chip) {n turn count : Nat}
    (positive : 0 < count) (member : .arrive count ∈ schedule turn)
    (now : turn = w.turns ∨ turn = w.turns + 1) (small : n ≤ RING_SIZE)
    (there : n ≤ (w.chip.inStream sock).length) :
    n ≤ (poll sock schedule w).chip.rxRsr ∨
      w.chip.rxRsr < (poll sock schedule w).chip.rxRsr := by
  have first := passes_access schedule apart sane
  have second := passes_access schedule apart first.sane
  rcases now with rfl | rfl
  · rcases rxRsr_of_arrives sane apart positive member small there with enough | grown
    · exact .inl (enough.trans second.rxRsr)
    · exact .inr (lt_of_lt_of_le grown second.rxRsr)
  · rw [← first.inStream] at there
    rcases rxRsr_of_arrives first.sane apart positive member small there with enough | grown
    · exact .inl enough
    · exact .inr (lt_of_le_of_lt first.rxRsr grown)

theorem turns_poll (sock : Sock) (schedule : Nat → List Event) (count : Nat) (w : World) :
    ((poll sock schedule)^[count] w).turns = w.turns + 2 * count := by
  induction count generalizing w with
  | zero => rfl
  | succ count inductionHypothesis =>
    rw [Function.iterate_succ_apply, inductionHypothesis]
    show w.turns + 1 + 1 + 2 * count = w.turns + 2 * (count + 1)
    omega

/-- A chip that goes on to take in lets a chunk be received that the stream has. -/
theorem exists_wizRecvChunk (fair : Fair schedule) (apart : sock.Apart) (sane : Sane w.chip)
    (calm : Calm w.chip) {n : Nat} (small : n ≤ RING_SIZE)
    (there : n ≤ (w.chip.inStream sock).length) :
    ∃ rounds buf w', wizRecvChunk sock schedule rounds w n = some (OKAY, buf, w') ∧
      Calm w'.chip := by
  have kept : ∀ w : World, Sane w.chip ∧ n ≤ (w.chip.inStream sock).length →
      Sane (poll sock schedule w).chip ∧
        n ≤ ((poll sock schedule w).chip.inStream sock).length := by
    rintro w ⟨sane, there⟩
    have polled := passes_poll schedule apart sane
    exact ⟨polled.sane, by rwa [polled.inStream]⟩
  have grows : ∀ (count : Nat) (w : World), Sane w.chip ∧ n ≤ (w.chip.inStream sock).length →
      w.chip.rxRsr ≤ ((poll sock schedule)^[count] w).chip.rxRsr := by
    intro count
    induction count with
    | zero => exact fun w _ => Nat.le_refl _
    | succ count inductionHypothesis =>
      intro w good
      rw [Function.iterate_succ_apply]
      exact (passes_poll schedule apart good.1).rxRsr.trans (inductionHypothesis _ (kept w good))
  have progress : ∀ w : World, Sane w.chip ∧ n ≤ (w.chip.inStream sock).length → ∃ count,
      n ≤ ((poll sock schedule)^[count + 1] w).chip.rxRsr ∨
        RING_SIZE - ((poll sock schedule)^[count + 1] w).chip.rxRsr < RING_SIZE - w.chip.rxRsr := by
    intro w good
    obtain ⟨later, count, le, positive, member⟩ := fair.arrives w.turns
    refine ⟨(later - w.turns) / 2, ?_⟩
    have before := iterate_of_kept kept good ((later - w.turns) / 2)
    have more := grows ((later - w.turns) / 2) w good
    have turns := turns_poll sock schedule ((later - w.turns) / 2) w
    rw [Function.iterate_succ_apply']
    generalize (poll sock schedule)^[(later - w.turns) / 2] w = u at before turns more
    have bound := (passes_poll schedule apart before.1).sane.rxRsr
    rcases rxRsr_poll apart before.1 positive member (by omega) small before.2 with enough | grown
    · exact .inl enough
    · exact .inr (by omega)
  obtain ⟨count, ready⟩ := exists_ready_of_progress (poll sock schedule) _
    (fun w => n ≤ w.chip.rxRsr) (fun w => RING_SIZE - w.chip.rxRsr) kept progress ⟨sane, there⟩
  exact ⟨count + 1, fair.wizRecvChunk_of_ready calm ready⟩

/-! ### Every call returns -/

theorem chunkOf_small (n : Nat) : chunkOf n ≤ RING_SIZE := by
  rw [chunkOf, TCP_CHUNK_SIZE, RING_SIZE]
  split <;> omega

theorem chunkOf_pos {n : Nat} (positive : n ≠ 0) : 0 < chunkOf n := by
  rw [chunkOf, TCP_CHUNK_SIZE]
  split <;> omega

theorem exists_tcpRecv (fair : Fair schedule) (apart : sock.Apart) (idle : Idle w.chip)
    (calm : Calm w.chip) {n : Nat} (there : n ≤ (w.chip.inStream sock).length) :
    ∃ rounds buf w', tcpRecv sock schedule rounds w n = some (OKAY, buf, w') ∧ Calm w'.chip := by
  induction n using Nat.strong_induction_on generalizing w with
  | _ n inductionHypothesis =>
    by_cases nothing : n = 0
    · refine ⟨1, [], w, ?_, calm⟩
      rw [tcpRecv, if_pos nothing]
    · have least := chunkOf_le n
      have positive := chunkOf_pos nothing
      obtain ⟨rounds, buf, w₁, chunk, calm₁⟩ :=
        exists_wizRecvChunk fair apart idle.sane calm (chunkOf_small n) (least.trans there)
      obtain ⟨moves, full, -⟩ := moves_wizRecvChunk apart idle chunk
      have left : n - chunkOf n ≤ (w₁.chip.inStream sock).length := by
        rw [moves.inStream, List.length_append, full rfl] at there
        omega
      obtain ⟨rounds', rest, w₂, later, calm₂⟩ :=
        inductionHypothesis (n - chunkOf n) (by omega) moves.idle calm₁ left
      refine ⟨rounds + rounds' + 1, buf ++ rest, w₂, ?_, calm₂⟩
      rw [tcpRecv, if_neg nothing, wizRecvChunk_add rounds' chunk]
      dsimp only
      rw [if_neg (Classical.not_not.mpr rfl), Nat.add_comm rounds, tcpRecv_add rounds later]

theorem Quiet.calm_reserved (quiet : Quiet schedule) (sock : Sock) {rounds n txPtr : Nat}
    (calm : Calm w.chip)
    (reserved : wizReserveToSend sock schedule rounds w n = some (txPtr, w')) : Calm w'.chip := by
  induction rounds generalizing w with
  | zero => cases reserved
  | succ rounds inductionHypothesis =>
    have first := quiet.calm_access sock calm
    rw [wizReserveToSend] at reserved
    dsimp only at reserved
    split at reserved
    · exact inductionHypothesis first reserved
    · cases reserved
      exact quiet.calm_access sock first

theorem Quiet.calm_wizFinalizeSend (quiet : Quiet schedule) (sock : Sock) (calm : Calm w.chip)
    (n : Nat) : Calm (wizFinalizeSend sock schedule w n).chip := by
  -- it turns to the chip three times, and leaves the interrupts to it
  have written := quiet.calm_access sock (quiet.calm_access sock calm)
  exact quiet.calm_access sock
    (w := ⟨{ (access sock schedule (access sock schedule w)).chip with txWr := _ }, _⟩) written

/-- A chip that raises no error lets a chunk be sent without one. -/
theorem Quiet.wizSendChunk_okay (quiet : Quiet schedule) {rounds : Nat} {data : List UInt8}
    {e : UInt8} (calm : Calm w.chip)
    (sent : wizSendChunk sock schedule rounds w data = some (e, w')) :
    e = OKAY ∧ Calm w'.chip := by
  have first := quiet.calm_access sock calm
  rw [wizSendChunk, wizCheck_of_calm first] at sent
  dsimp only at sent
  rw [if_neg (Classical.not_not.mpr rfl)] at sent
  split at sent
  · cases sent
  · rename_i txPtr w₁ reserved
    cases sent
    have reserve := quiet.calm_reserved sock first reserved
    have put : Calm (wizDataToSend sock schedule w₁ txPtr data).chip :=
      quiet.calm_access sock reserve
    exact ⟨rfl, quiet.calm_wizFinalizeSend sock put data.length⟩

theorem exists_wizSendChunk (fair : Fair schedule) (apart : sock.Apart) (idle : Idle w.chip)
    (calm : Calm w.chip) {data : List UInt8} (small : data.length ≤ RING_SIZE) :
    ∃ rounds w', wizSendChunk sock schedule rounds w data = some (OKAY, w') ∧ Calm w'.chip := by
  have first := fair.quiet.calm_access sock calm
  have checked := passes_access schedule apart idle.sane
  obtain ⟨rounds, ⟨txPtr, w₁⟩, reserved⟩ := exists_wizReserveToSend fair apart checked.sane small
  have sent : wizSendChunk sock schedule rounds w data =
      some (OKAY, wizFinalizeSend sock schedule (wizDataToSend sock schedule w₁ txPtr data)
        data.length) := by
    rw [wizSendChunk, wizCheck_of_calm first]
    dsimp only
    rw [if_neg (Classical.not_not.mpr rfl), reserved]
  exact ⟨rounds, _, sent, (fair.quiet.wizSendChunk_okay calm sent).2⟩

theorem exists_tcpSend (fair : Fair schedule) (apart : sock.Apart) (idle : Idle w.chip)
    (calm : Calm w.chip) (p : List UInt8) :
    ∃ rounds w', tcpSend sock schedule rounds w p = some (OKAY, w') ∧ Calm w'.chip := by
  induction length : p.length using Nat.strong_induction_on generalizing w p with
  | _ length inductionHypothesis =>
    by_cases nothing : p.length = 0
    · refine ⟨1, w, ?_, calm⟩
      rw [tcpSend, if_pos nothing]
    · have positive := chunkOf_pos nothing
      have least := chunkOf_le p.length
      have small : (p.take (chunkOf p.length)).length ≤ RING_SIZE := by
        rw [List.length_take]
        exact (Nat.min_le_left _ _).trans (chunkOf_small _)
      obtain ⟨rounds, w₁, chunk, calm₁⟩ := exists_wizSendChunk fair apart idle calm small
      have moves := (moves_wizSendChunk apart idle chunk).1 rfl
      obtain ⟨rounds', w₂, later, calm₂⟩ := inductionHypothesis (p.drop (chunkOf p.length)).length
        (by rw [List.length_drop]; omega) moves.idle calm₁ _ rfl
      refine ⟨rounds + rounds' + 1, w₂, ?_, calm₂⟩
      rw [tcpSend, if_neg nothing, wizSendChunk_add rounds' chunk]
      dsimp only
      rw [if_neg (Classical.not_not.mpr rfl), Nat.add_comm rounds, tcpSend_add rounds later]

/-- How many bytes the calls are to receive. -/
def wanted : List Call → Nat
  | [] => 0
  | .send _ :: later => wanted later
  | .recv n :: later => n + wanted later

theorem exists_calls (fair : Fair schedule) (apart : sock.Apart) (idle : Idle w.chip)
    (calm : Calm w.chip) {list : List Call}
    (there : wanted list ≤ (w.chip.inStream sock).length) :
    ∃ rounds returned w', calls sock schedule rounds w list = some (returned, w') ∧
      ∀ one ∈ returned, one.1 = OKAY := by
  induction list generalizing w with
  | nil => exact ⟨0, [], w, rfl, fun one member => absurd member List.not_mem_nil⟩
  | cons first later inductionHypothesis =>
    cases first with
    | send p =>
      obtain ⟨rounds, w₁, returned, calm₁⟩ := exists_tcpSend fair apart idle calm p
      obtain ⟨sent, moves, -⟩ := moves_tcpSend apart idle returned
      have left : wanted later ≤ (w₁.chip.inStream sock).length := by
        rw [moves.inStream] at there
        exact there
      obtain ⟨rounds', others, w₂, rest, okay⟩ := inductionHypothesis moves.idle calm₁ left
      refine ⟨rounds + rounds', (OKAY, []) :: others, w₂, ?_, ?_⟩
      · have called : call sock schedule rounds w (.send p) = some ((OKAY, []), w₁) := by
          rw [call, returned]
        rw [calls, call_add rounds' called]
        dsimp only
        rw [Nat.add_comm rounds, calls_add rounds rest]
      · intro one member
        rcases List.mem_cons.mp member with rfl | old
        · rfl
        · exact okay one old
    | recv n =>
      have enough : n ≤ (w.chip.inStream sock).length :=
        le_trans (Nat.le_add_right n (wanted later)) there
      obtain ⟨rounds, buf, w₁, returned, calm₁⟩ := exists_tcpRecv fair apart idle calm enough
      obtain ⟨moves, -, full⟩ := moves_tcpRecv apart idle returned
      have left : wanted later ≤ (w₁.chip.inStream sock).length := by
        rw [moves.inStream, List.length_append, full rfl, wanted] at there
        omega
      obtain ⟨rounds', others, w₂, rest, okay⟩ := inductionHypothesis moves.idle calm₁ left
      refine ⟨rounds + rounds', (OKAY, buf) :: others, w₂, ?_, ?_⟩
      · have called : call sock schedule rounds w (.recv n) = some ((OKAY, buf), w₁) := by
          rw [call, returned]
        rw [calls, call_add rounds' called]
        dsimp only
        rw [Nat.add_comm rounds, calls_add rounds rest]
      · intro one member
        rcases List.mem_cons.mp member with rfl | old
        · rfl
        · exact okay one old

/-- From any pointers of an idle socket, and however the chip goes on: what the calls that have
returned appended to one stream and took from the other is what they were given and what they
delivered, in order and in full; and if the chip is fair, and the bytes come that are asked for,
they all return without an error. -/
theorem calls_faithful (sock : Sock) (known : sock ∈ socks) (schedule : Nat → List Event)
    (w : World) (idle : Idle w.chip) (list : List Call) :
    (∀ rounds returned w', calls sock schedule rounds w list = some (returned, w') →
      ∃ sent, Moves sock w.chip w'.chip sent (delivered returned) ∧ Honest list returned sent) ∧
    (Fair schedule → Calm w.chip → wanted list ≤ (w.chip.inStream sock).length →
      ∃ rounds returned w', calls sock schedule rounds w list = some (returned, w') ∧
        ∀ one ∈ returned, one.1 = OKAY) :=
  ⟨fun _ _ _ all => moves_calls (apart_of_mem known) idle all,
    fun fair calm there => exists_calls fair (apart_of_mem known) idle calm there⟩

/-- Socket 1 just before its pointers wrap, with eleven bytes on their way to it. -/
def wrapping : World where
  chip :=
    { memory := fun _ => 0, txWr := 65533, txEnd := 65533, txRd := 65533, rxRd := 65531,
      rxStart := 65531, rxWr := 65531, ir := 0, out := [], incoming := List.replicate 11 7 }
  turns := 0

/-- The chip transmits a byte, and takes one in, at every turn. -/
def everyTurn : Nat → List Event := fun _ => [.transmit 1, .arrive 1]

theorem fair_everyTurn : Fair everyTurn where
  calm := by
    intro turn bits member
    simp [everyTurn] at member
  transmits := fun turn => ⟨turn, 1, Nat.le_refl _, by decide, by simp [everyTurn]⟩
  arrives := fun turn => ⟨turn, 1, Nat.le_refl _, by decide, by simp [everyTurn]⟩

theorem idle_wrapping : Idle wrapping.chip where
  sane := ⟨by decide, by decide, by decide, by decide, by decide, by decide⟩
  txWr := rfl
  rxRd := rfl

theorem calls_faithful_wrapping :
    ∃ rounds returned w', calls ⟨0x4800, 0x6800⟩ everyTurn rounds wrapping
        [.send [1, 2, 3, 4, 5, 6], .recv 9] = some (returned, w') ∧
      ∃ sent, Moves ⟨0x4800, 0x6800⟩ wrapping.chip w'.chip sent (delivered returned) ∧
        Honest [.send [1, 2, 3, 4, 5, 6], .recv 9] returned sent := by
  obtain ⟨faithful, complete⟩ := calls_faithful ⟨0x4800, 0x6800⟩ (by simp [socks]) everyTurn wrapping
    idle_wrapping [.send [1, 2, 3, 4, 5, 6], .recv 9]
  obtain ⟨rounds, returned, w', all, -⟩ := complete fair_everyTurn ⟨by decide, by decide⟩
    (by rw [length_inStream]; decide)
  exact ⟨rounds, returned, w', all, faithful rounds returned w' all⟩

end Frobio.Axcore
