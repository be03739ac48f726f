/-
This file shows what a program gets that receives from a socket whose receive ring
holds a datagram: the datagram at the first try, and never more than the ring holds.
-/

import Frobio.Axcore.Streams

namespace Frobio.Axcore

/-! ### Datagrams in the ring -/

/-- These bytes are to be received, and no more than the last so many have not arrived. -/
structure Fed (sock : Sock) (c : Chip) (stream : List UInt8) (late : Nat) : Prop where
  idle : Idle c
  calm : Calm c
  stream : c.inStream sock = stream
  arrived : c.incoming.length ≤ late

section

variable {sock : Sock} {schedule : Nat → List Event} {w w' : World} {c : Chip} {late : Nat}
  {first others : List UInt8}

theorem incoming_event (sock : Sock) (c : Chip) (event : Event) :
    (c.event sock event).incoming.length ≤ c.incoming.length := by
  cases event with
  | arrive count =>
    show (c.incoming.drop _).length ≤ _
    rw [List.length_drop]
    exact Nat.sub_le _ _
  | transmit count => exact Nat.le_refl _
  | interrupt bits => exact Nat.le_refl _

theorem incoming_access (sock : Sock) (schedule : Nat → List Event) (w : World) :
    (access sock schedule w).chip.incoming.length ≤ w.chip.incoming.length := by
  rw [access]
  dsimp only
  generalize w.chip = c
  generalize schedule w.turns = events
  induction events generalizing c with
  | nil => exact Nat.le_refl _
  | cons event others inductionHypothesis =>
    exact (inductionHypothesis _).trans (incoming_event sock c event)

theorem incoming_wizRecvGetBytesWaiting (sock : Sock) (schedule : Nat → List Event) (w : World) :
    (wizRecvGetBytesWaiting sock schedule w).2.2.chip.incoming.length ≤
      w.chip.incoming.length := by
  have checked : (wizCheck sock schedule w).2.chip.incoming.length ≤ w.chip.incoming.length := by
    rw [wizCheck]
    split
    · exact incoming_access sock schedule w
    · split
      · exact incoming_access sock schedule w
      · exact incoming_access sock schedule w
  rw [wizRecvGetBytesWaiting]
  split
  rename_i e w₁ check
  rw [check] at checked
  split
  · exact checked
  · exact (incoming_access sock schedule w₁).trans checked

theorem incoming_wizRecvChunkTry (sock : Sock) (schedule : Nat → List Event) (w : World) (n : Nat) :
    (wizRecvChunkTry sock schedule w n).2.2.chip.incoming.length ≤ w.chip.incoming.length := by
  have asked := incoming_wizRecvGetBytesWaiting sock schedule w
  rw [wizRecvChunkTry]
  split
  rename_i e bytesWaiting w₁ waiting
  rw [waiting] at asked
  split
  · exact asked
  split
  · exact asked
  · refine (incoming_access sock schedule _).trans ((incoming_access sock schedule _).trans ?_)
    exact (incoming_access sock schedule _).trans ((incoming_access sock schedule w₁).trans asked)

/-- A datagram in the ring is received at the first try. -/
theorem Quiet.wizRecvChunkTry_of_fed (quiet : Quiet schedule) (apart : sock.Apart)
    (fed : Fed sock w.chip (first ++ others) late) (behind : late ≤ others.length) :
    ∃ w', wizRecvChunkTry sock schedule w first.length = (OKAY, first, w') ∧
      Fed sock w'.chip others late := by
  have length := length_inStream sock w.chip
  rw [fed.stream, List.length_append] at length
  have arrived := fed.arrived
  have passes := passes_poll schedule apart fed.idle.sane
  have enough : first.length ≤ (poll sock schedule w).chip.rxRsr := by
    have := passes.rxRsr
    omega
  obtain ⟨buf, w', tried, calm⟩ := quiet.wizRecvChunkTry_of_enough fed.calm enough
  obtain ⟨moves, full, -⟩ := moves_wizRecvChunkTry apart fed.idle tried
  have stream := moves.inStream
  rw [fed.stream] at stream
  obtain ⟨same, onward⟩ := List.append_inj stream (full rfl).symm
  subst same
  have coming := incoming_wizRecvChunkTry sock schedule w first.length
  rw [tried] at coming
  exact ⟨w', tried, moves.idle, calm, onward.symm, coming.trans arrived⟩

theorem Quiet.wizRecvChunk_of_fed (quiet : Quiet schedule) (apart : sock.Apart)
    (fed : Fed sock w.chip (first ++ others) late) (behind : late ≤ others.length) :
    ∃ w', (∀ rounds, wizRecvChunk sock schedule (rounds + 1) w first.length =
      some (OKAY, first, w')) ∧ Fed sock w'.chip others late := by
  obtain ⟨w', tried, onward⟩ := quiet.wizRecvChunkTry_of_fed apart fed behind
  refine ⟨w', fun rounds => ?_, onward⟩
  rw [wizRecvChunk, tried]
  exact if_neg (by decide)

/-- The loop waits for ever for more than the ring holds. -/
theorem Quiet.wizRecvChunk_of_large (quiet : Quiet schedule) (apart : sock.Apart)
    (sane : Sane w.chip) (calm : Calm w.chip) {n : Nat} (large : RING_SIZE < n) (rounds : Nat) :
    wizRecvChunk sock schedule rounds w n = none := by
  induction rounds generalizing w with
  | zero => rfl
  | succ rounds inductionHypothesis =>
    have passes := passes_poll schedule apart sane
    have first := quiet.calm_access sock calm
    rw [wizRecvChunk, wizRecvChunkTry_of_short first (lt_of_le_of_lt passes.sane.rxRsr large)]
    exact inductionHypothesis passes.sane (quiet.calm_access sock first)

end

end Frobio.Axcore
