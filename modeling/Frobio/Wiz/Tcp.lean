/-
This file models `TcpSendOrNotYet` of `wiz/wiz5100s.c`, and shows of which buffers it puts every
byte on the connection.

The chip is the one of `axcore.c`: every time the program turns to it, it may have gone on. What
the registers `SK_SR` and `SK_CR` read then is a part of its course as well. A loop that waits for
the chip is given the number of rounds it may take.
-/

import Frobio.Axcore.Streams

namespace Frobio.Tcp

open Memory Ring Loop Axcore

/-! ### The function -/

def TX_SIZE : Nat := 2048

def SK_IR_TXOK : UInt8 := 0x10

def SK_SR_ESTB : UInt8 := 0x17

/-- The rings of a socket, at `TX_BUF` and `RX_BUF`. -/
def sock (socknum : Nat) : Sock := ⟨0x4000 + socknum * 2048, 0x6000 + socknum * 2048⟩

/-- What the chip does before each turn, and what its registers read after so many turns. -/
structure Course where
  events : Nat → List Event
  sr : Nat → UInt8
  cr : Nat → UInt8

section

variable (socknum : Nat) (course : Course)

def turn (w : World) : World := access (sock socknum) course.events w

/-- Turn to the chip until it has got somewhere. -/
def await (there : World → Prop) [DecidablePred there] : Nat → World → Option World
  | 0, _ => none
  | rounds + 1, w =>
    let w := turn socknum course w
    if there w then some w else await there rounds w

/-- `while (send_size >= WizGet2(base+SK_TX_FSR0))`. -/
def awaitRoom (send_size : Nat) : Nat → World → Option World :=
  await socknum course fun w => ¬send_size ≥ w.chip.txFsr

/-- The loop that writes the bytes in the ring. -/
def putBytes (p : Nat) : List UInt8 → World → World
  | [], w => w
  | b :: data, w =>
    let w := turn socknum course w
    putBytes ((p + 1) % TX_SIZE) data
      { w with chip := { w.chip with
          memory := store w.chip.memory ((sock socknum).txRing + p) [b] } }

/-- `Wiz__sock_command`, when the command is written. -/
def Wiz__sock_command (rounds : Nat) (want : UInt8) (w : World) : Option (Bool × World) :=
  match await socknum course (fun w => course.cr w.turns = 0) rounds w with
  | none => none
  | some w =>
    let w := turn socknum course w
    some (course.sr w.turns = want, w)

/-- An interrupt is cleared by writing it. -/
def clearInterrupt (bit : UInt8) (w : World) : World :=
  let w := turn socknum course w
  { w with chip := { w.chip with ir := w.chip.ir &&& ~~~bit } }

def awaitSent (rounds : Nat) (w : World) : Option (Option String × World) :=
  match await socknum course (fun w => w.chip.ir &&& SK_IR_DISC ≠ 0 ∨ w.chip.ir &&& SK_IR_TOUT ≠ 0 ∨
    w.chip.ir &&& SK_IR_TXOK ≠ 0) rounds w with
  | none => none
  | some w =>
    if w.chip.ir &&& SK_IR_DISC ≠ 0 then
      some (some "TcpSendDisconnect", clearInterrupt socknum course SK_IR_DISC w)
    else if w.chip.ir &&& SK_IR_TOUT ≠ 0 then
      some (some "TcpSendTimeout", clearInterrupt socknum course SK_IR_TOUT w)
    else some (none, clearInterrupt socknum course SK_IR_TXOK w)

/-- The body of the loop of `TcpSendOrNotYet`. The pointer is moved and the command SEND is given
as in `axcore.c`. -/
def sendPiece (rounds : Nat) (data : List UInt8) (w : World) : Option (Option String × World) :=
  let w := turn socknum course w
  let get_offset := w.chip.txWr % TX_SIZE
  match awaitRoom socknum course data.length rounds w with
  | none => none
  | some w =>
    let w := putBytes socknum course get_offset data w
    let w := wizFinalizeSend (sock socknum) course.events w data.length
    match Wiz__sock_command socknum course rounds SK_SR_ESTB w with
    | none => none
    | some (ok, w) =>
      if !ok then some (some "TcpSendFailed", w)
      else awaitSent socknum course rounds (turn socknum course w)

/-- No error is `GOOD`. The buffer is the same in every round. -/
def TcpSendOrNotYet (buf : List UInt8) : Nat → Nat → World → Option (Option String × World)
  | 0, _, _ => none
  | rounds + 1, num_bytes_to_send, w =>
    if num_bytes_to_send = 0 then some (none, w)
    else
      let send_size := min num_bytes_to_send TX_SIZE
      match sendPiece socknum course rounds (buf.take send_size) w with
      | none => none
      | some (some error, w) => some (some error, w)
      | some (none, w) => TcpSendOrNotYet buf rounds (num_bytes_to_send - send_size) w

end

/-! ### The law -/

/-- The connection stays open, and the chip goes on to transmit, to take over commands, and to say
that it has sent. -/
structure Course.Goes (course : Course) : Prop where
  quiet : Quiet course.events
  transmits : ∀ turn, ∃ later count, turn ≤ later ∧ 0 < count ∧
    .transmit count ∈ course.events later
  sent : ∀ turn, ∃ later bits, turn ≤ later ∧ .interrupt bits ∈ course.events later ∧
    bits &&& SK_IR_TXOK ≠ 0
  takes : ∀ turn, ∃ later, turn ≤ later ∧ course.cr (later + 1) = 0
  established : ∀ turn, course.sr turn = SK_SR_ESTB

/-- What a call that has completed put on the connection is the buffer, and where the chip goes on
every call completes. -/
structure Transmits (socknum : Nat) (buf : List UInt8) : Prop where
  whole : ∀ course rounds w w', Idle w.chip →
    TcpSendOrNotYet socknum course buf rounds buf.length w = some (none, w') →
      Moves (sock socknum) w.chip w'.chip buf []
  completes : ∀ course w, Idle w.chip → Calm w.chip → course.Goes →
    ∃ rounds w', TcpSendOrNotYet socknum course buf rounds buf.length w = some (none, w')

variable {socknum : Nat} {course : Course} {w w' : World}

theorem apart_sock (socknum : Nat) : (sock socknum).Apart := by
  show 0x4000 + socknum * 2048 + 2048 ≤ 0x6000 + socknum * 2048
  omega

theorem passes_turn (socknum : Nat) (course : Course) (sane : Sane w.chip) :
    Passes (sock socknum) w.chip (turn socknum course w).chip :=
  passes_access course.events (apart_sock socknum) sane

/-! ### Waiting -/

section

variable {there : World → Prop} [DecidablePred there]

theorem await_spec {rounds : Nat} (sane : Sane w.chip)
    (came : await socknum course there rounds w = some w') :
    Passes (sock socknum) w.chip w'.chip ∧ there w' := by
  induction rounds generalizing w with
  | zero => cases came
  | succ rounds inductionHypothesis =>
    have first := passes_turn socknum course sane
    rw [await] at came
    split at came
    · rename_i arrived
      cases came
      exact ⟨first, arrived⟩
    · obtain ⟨passes, arrived⟩ := inductionHypothesis first.sane came
      exact ⟨first.trans passes, arrived⟩

theorem await_mono {rounds more : Nat} (le : rounds ≤ more)
    (came : await socknum course there rounds w = some w') :
    await socknum course there more w = some w' := by
  induction rounds generalizing w more with
  | zero => cases came
  | succ rounds inductionHypothesis =>
    obtain ⟨more, rfl⟩ := Nat.exists_eq_succ_of_ne_zero (Nat.ne_of_gt (Nat.zero_lt_of_lt le))
    rw [await] at came ⊢
    split at came
    · rename_i arrived
      exact (if_pos arrived).trans came
    · rename_i away
      exact (if_neg away).trans (inductionHypothesis (Nat.le_of_succ_le_succ le) came)

theorem exists_await {count : Nat} (ready : there ((turn socknum course)^[count + 1] w)) :
    ∃ w', await socknum course there (count + 1) w = some w' := by
  induction count generalizing w with
  | zero => exact ⟨_, if_pos ready⟩
  | succ count inductionHypothesis =>
    rw [await]
    split
    · exact ⟨_, rfl⟩
    · rw [Function.iterate_succ_apply] at ready
      exact inductionHypothesis ready

end

/-! ### Writing in the ring -/

/-- Some bytes are behind those that wait, and there is room for all of them. -/
structure Filled (sock : Sock) (c : Chip) (done : List UInt8) (n : Nat) : Prop where
  idle : Idle c
  room : c.waiting + n ≤ RING_SIZE
  put : window sock.txRing RING_SIZE c.memory c.txEnd done.length = done

theorem txEnd_mod {c : Chip} (sane : Sane c) :
    c.txEnd % RING_SIZE = (c.txRd + c.waiting) % RING_SIZE := by
  have start := sane.txRd
  have finish := sane.txEnd
  simp only [Chip.waiting, RING_SIZE]
  omega

/-- One byte more. -/
theorem Filled.putByte {sock : Sock} {c : Chip} {done : List UInt8} {n : Nat} (apart : sock.Apart)
    (filled : Filled sock c done n) (more : done.length < n) (b : UInt8) :
    let c' := { c with
      memory := store c.memory (sock.txRing + (c.txEnd + done.length) % RING_SIZE) [b] }
    Moves sock c c' [] [] ∧ Filled sock c' (done ++ [b]) n := by
  obtain ⟨idle, room, put⟩ := filled
  have sized : 0 < RING_SIZE := by decide
  have inside := Nat.mod_lt (c.txEnd + done.length) sized
  have behind := txEnd_mod idle.sane
  have one : [b].length ≤ RING_SIZE := (by decide : 1 ≤ RING_SIZE)
  have position : (c.txEnd + done.length) % RING_SIZE =
      (c.txRd + (c.waiting + done.length)) % RING_SIZE := by
    rw [Nat.add_mod, behind, ← Nat.add_mod, Nat.add_assoc]
  have single : ∀ memory : Nat → UInt8,
      store memory (sock.txRing + (c.txEnd + done.length) % RING_SIZE) [b] =
        Ring.put sock.txRing RING_SIZE memory ((c.txEnd + done.length) % RING_SIZE) [b] :=
    fun memory => (put_eq_store (by
      show (c.txEnd + done.length) % RING_SIZE + 1 ≤ RING_SIZE
      omega)).symm
  have old : window sock.txRing RING_SIZE (Ring.put sock.txRing RING_SIZE c.memory
      ((c.txEnd + done.length) % RING_SIZE) [b]) c.txRd (c.waiting + done.length) =
        window sock.txRing RING_SIZE c.memory c.txRd (c.waiting + done.length) := by
    rw [position]
    exact window_put_of_before sized (by
      show c.waiting + done.length + 1 ≤ RING_SIZE
      omega)
  rw [window_add, window_add] at old
  obtain ⟨waits, _⟩ := List.append_inj old (by rw [length_window, length_window])
  rw [single]
  have idle' : Idle { c with
      memory := Ring.put sock.txRing RING_SIZE c.memory
        ((c.txEnd + done.length) % RING_SIZE) [b] } :=
    ⟨⟨idle.sane.txEnd, idle.sane.txRd, idle.sane.rxStart, idle.sane.rxWr, idle.sane.waiting,
      idle.sane.rxRsr⟩, idle.txWr, idle.rxRd⟩
  refine ⟨⟨idle', ?_, ?_⟩, idle', room, ?_⟩
  · rw [List.append_nil, Chip.outStream]
    exact congrArg (c.out ++ ·) waits
  · rw [List.nil_append, Chip.inStream, Chip.inStream]
    show _ = window sock.rxRing RING_SIZE _ c.rxStart c.rxRsr ++ c.incoming
    rw [window_put_of_apart sized inside one (.inr apart)]
  · show window sock.txRing RING_SIZE _ c.txEnd (done ++ [b]).length = _
    rw [List.length_append, window_add, window_put_of_before sized (by
      show done.length + 1 ≤ RING_SIZE
      omega), put]
    refine congrArg (done ++ ·) ?_
    rw [window_mod [b].length (Nat.mod_mod _ _).symm, window_put_self inside one]

theorem Filled.pass {sock : Sock} {c c' : Chip} {done : List UInt8} {n : Nat}
    (filled : Filled sock c done n) (passes : Passes sock c c') (within : done.length ≤ n) :
    Filled sock c' done n where
  idle := passes.idle filled.idle
  room := (Nat.add_le_add_right passes.waiting n).trans filled.room
  put := by
    rw [passes.txEnd, passes.free _ ((Nat.add_le_add_left within _).trans filled.room), filled.put]

/-- By induction on the bytes that are left. -/
theorem putBytes_spec (course : Course) {done data : List UInt8} {p : Nat}
    (filled : Filled (sock socknum) w.chip done (done.length + data.length))
    (pointer : p = (w.chip.txEnd + done.length) % RING_SIZE) :
    let w' := putBytes socknum course p data w
    Moves (sock socknum) w.chip w'.chip [] [] ∧
      Filled (sock socknum) w'.chip (done ++ data) (done.length + data.length) := by
  induction data generalizing done p w with
  | nil =>
    rw [List.append_nil]
    exact ⟨.refl filled.idle, filled⟩
  | cons b data inductionHypothesis =>
    have passes := passes_turn socknum course filled.idle.sane
    have filled₁ := filled.pass passes (Nat.le_add_right _ _)
    have moves₁ := passes.moves filled.idle
    rw [putBytes]
    generalize turn socknum course w = w₁ at passes filled₁ moves₁
    rw [← passes.txEnd] at pointer
    obtain ⟨moves₂, filled₂⟩ := filled₁.putByte (apart_sock socknum)
      (Nat.lt_add_of_pos_right (Nat.succ_pos _)) b
    have count : done.length + (b :: data).length = (done ++ [b]).length + data.length := by
      rw [List.length_append, List.length_cons, List.length_cons, List.length_nil]
      omega
    rw [← pointer] at moves₂ filled₂
    rw [count] at filled₂ ⊢
    have next : (p + 1) % TX_SIZE = (w₁.chip.txEnd + (done ++ [b]).length) % RING_SIZE := by
      rw [pointer, List.length_append]
      exact Nat.mod_add_mod _ _ _
    obtain ⟨moves₃, filled₃⟩ := inductionHypothesis (w := ⟨{ w₁.chip with
      memory := store w₁.chip.memory ((sock socknum).txRing + p) [b] }, w₁.turns⟩) filled₂ next
    rw [List.append_assoc] at filled₃
    exact ⟨(moves₁.trans moves₂).trans moves₃, filled₃⟩

/-! ### Sending a piece -/

theorem passes_sockCommand {rounds : Nat} {want : UInt8} {ok : Bool} (sane : Sane w.chip)
    (returned : Wiz__sock_command socknum course rounds want w = some (ok, w')) :
    Passes (sock socknum) w.chip w'.chip := by
  rw [Wiz__sock_command] at returned
  split at returned
  · cases returned
  · rename_i w₁ came
    have first := (await_spec sane came).1
    cases returned
    exact first.trans (passes_turn socknum course first.sane)

/-- Interrupts are neither bytes nor pointers. -/
theorem moves_clearInterrupt (course : Course) (idle : Idle w.chip) (bit : UInt8) :
    Moves (sock socknum) w.chip (clearInterrupt socknum course bit w).chip [] [] := by
  have passes := passes_turn socknum course idle.sane
  have moves := passes.moves idle
  have sane := passes.sane
  exact ⟨⟨⟨sane.txEnd, sane.txRd, sane.rxStart, sane.rxWr, sane.waiting, sane.rxRsr⟩,
    moves.idle.txWr, moves.idle.rxRd⟩, moves.outStream, moves.inStream⟩

theorem moves_awaitSent {rounds : Nat} {error : Option String} (idle : Idle w.chip)
    (returned : awaitSent socknum course rounds w = some (error, w')) :
    Moves (sock socknum) w.chip w'.chip [] [] := by
  rw [awaitSent] at returned
  split at returned
  · cases returned
  · rename_i w₁ came
    have first := (await_spec idle.sane came).1
    have clears := fun bit => (first.moves idle).trans
      (moves_clearInterrupt course (first.idle idle) bit)
    split at returned
    · cases returned
      exact clears _
    · split at returned
      · cases returned
        exact clears _
      · cases returned
        exact clears _

theorem moves_sendPiece {rounds : Nat} {data : List UInt8} (idle : Idle w.chip)
    (returned : sendPiece socknum course rounds data w = some (none, w')) :
    Moves (sock socknum) w.chip w'.chip data [] := by
  have first := passes_turn socknum course idle.sane
  rw [sendPiece] at returned
  dsimp only at returned
  generalize turn socknum course w = w₁ at first returned
  split at returned
  · cases returned
  rename_i w₂ roomy
  obtain ⟨second, room⟩ := await_spec first.sane roomy
  have through := first.trans second
  have idle₂ := through.idle idle
  have start : Filled (sock socknum) w₂.chip [] (([] : List UInt8).length + data.length) := by
    refine ⟨idle₂, ?_, rfl⟩
    have few := second.sane.waiting
    rw [Chip.txFsr] at room
    rw [List.length_nil]
    omega
  have pointer : w₁.chip.txWr % TX_SIZE =
      (w₂.chip.txEnd + ([] : List UInt8).length) % RING_SIZE := by
    rw [(first.idle idle).txWr, second.txEnd]
    rfl
  obtain ⟨third, filled⟩ := putBytes_spec course start pointer
  rw [List.nil_append, List.length_nil, Nat.zero_add] at filled
  have sends := moves_wizFinalizeSend course.events (apart_sock socknum)
    ⟨filled.idle, filled.room, filled.put⟩
  have sofar := ((through.moves idle).trans third).trans sends
  split at returned
  · cases returned
  rename_i ok w₅ commanded
  have fourth := passes_sockCommand sofar.idle.sane commanded
  split at returned
  · cases returned
  · have fifth := passes_turn socknum course fourth.sane
    have waits := (fourth.trans fifth).moves sofar.idle
    have ends := moves_awaitSent waits.idle returned
    have all := (sofar.trans waits).trans ends
    simp only [List.nil_append, List.append_nil] at all
    exact all

/-- A piece as large as the ring is waited for without end. -/
theorem sendPiece_of_large {rounds : Nat} {data : List UInt8} (large : TX_SIZE ≤ data.length) :
    sendPiece socknum course rounds data w = none := by
  have never : ∀ rounds w, awaitRoom socknum course data.length rounds w = none := by
    intro rounds
    induction rounds with
    | zero => exact fun _ => rfl
    | succ rounds inductionHypothesis =>
      intro w
      refine (if_neg (not_not_intro ?_)).trans (inductionHypothesis _)
      exact (Nat.sub_le _ _).trans large
  rw [sendPiece]
  dsimp only
  rw [never]

/-! ### Where the chip goes on -/

theorem turn_iterate (socknum : Nat) (course : Course) (count : Nat) (w : World) :
    ((turn socknum course)^[count] w).turns = w.turns + count :=
  turns_iterate (sock socknum) course.events count w

theorem passes_turn_iterate (socknum : Nat) (course : Course) (sane : Sane w.chip) (count : Nat) :
    Passes (sock socknum) w.chip ((turn socknum course)^[count] w).chip :=
  passes_iterate course.events (apart_sock socknum) sane count

theorem exists_awaitRoom (socknum : Nat) (goes : course.Goes) (sane : Sane w.chip) {send_size : Nat}
    (small : send_size < TX_SIZE) :
    ∃ rounds w', awaitRoom socknum course send_size rounds w = some w' := by
  have progress : ∀ w : World, Sane w.chip → ∃ count,
      send_size < ((turn socknum course)^[count + 1] w).chip.txFsr ∨
        ((turn socknum course)^[count + 1] w).chip.waiting < w.chip.waiting := by
    intro w sane
    obtain ⟨later, count, le, positive, member⟩ := goes.transmits w.turns
    refine ⟨later - w.turns, ?_⟩
    have before := passes_turn_iterate socknum course sane (later - w.turns)
    have turns := turn_iterate socknum course (later - w.turns) w
    rw [Function.iterate_succ_apply']
    generalize (turn socknum course)^[later - w.turns] w = u at before turns
    rw [show w.turns + (later - w.turns) = later by omega] at turns
    rw [← turns] at member
    rcases waiting_of_transmits before.sane (apart_sock socknum) positive member with all | less
    · refine .inl ?_
      have emptied : (turn socknum course u).chip.waiting = 0 := all
      rw [Chip.txFsr, emptied]
      exact small
    · exact .inr (lt_of_lt_of_le less before.waiting)
  obtain ⟨count, ready⟩ := exists_ready_of_progress (turn socknum course) (fun w => Sane w.chip)
    (fun w => send_size < w.chip.txFsr) (fun w => w.chip.waiting)
    (fun w sane => (passes_turn socknum course sane).sane) progress sane
  exact ⟨count + 1, exists_await (not_le.mpr ready)⟩

theorem exists_awaitCommand (socknum : Nat) (goes : course.Goes) (w : World) :
    ∃ rounds w', await socknum course (fun w => course.cr w.turns = 0) rounds w = some w' := by
  obtain ⟨later, le, zero⟩ := goes.takes w.turns
  refine ⟨later - w.turns + 1, exists_await ?_⟩
  rw [turn_iterate, show w.turns + (later - w.turns + 1) = later + 1 by omega]
  exact zero

/-- Interrupts that were raised stay. -/
theorem ir_events {sock : Sock} {c : Chip} {events : List Event} {mask : UInt8}
    (raised : c.ir &&& mask ≠ 0 ∨ ∃ bits, .interrupt bits ∈ events ∧ bits &&& mask ≠ 0) :
    (events.foldl (Chip.event sock) c).ir &&& mask ≠ 0 := by
  induction events generalizing c with
  | nil =>
    rcases raised with already | ⟨bits, member, _⟩
    · exact already
    · exact absurd member List.not_mem_nil
  | cons event rest inductionHypothesis =>
    refine inductionHypothesis ?_
    rcases raised with already | ⟨bits, member, here⟩
    · refine .inl ?_
      cases event with
      | arrive count => exact already
      | transmit count => exact already
      | interrupt bits =>
        show (c.ir ||| bits) &&& mask ≠ 0
        rw [or_and_bits]
        exact fun both => already (UInt8.or_eq_zero_iff.mp both).1
    · rcases List.mem_cons.mp member with rfl | later
      · refine .inl ?_
        show (c.ir ||| bits) &&& mask ≠ 0
        rw [or_and_bits]
        exact fun both => here (UInt8.or_eq_zero_iff.mp both).2
      · exact .inr ⟨bits, later, here⟩

theorem calm_await {there : World → Prop} [DecidablePred there] {rounds : Nat}
    (goes : course.Goes) (calm : Calm w.chip)
    (came : await socknum course there rounds w = some w') : Calm w'.chip := by
  induction rounds generalizing w with
  | zero => cases came
  | succ rounds inductionHypothesis =>
    have first := goes.quiet.calm_access (sock socknum) calm
    rw [await] at came
    split at came
    · cases came
      exact first
    · exact inductionHypothesis first came

theorem calm_putBytes {p : Nat} {data : List UInt8} (goes : course.Goes) (calm : Calm w.chip) :
    Calm (putBytes socknum course p data w).chip := by
  induction data generalizing p w with
  | nil => exact calm
  | cons b data inductionHypothesis =>
    rw [putBytes]
    exact inductionHypothesis (goes.quiet.calm_access (sock socknum) calm)

/-- The chip says in the end that it has sent. -/
theorem exists_awaitSent (socknum : Nat) (goes : course.Goes) (calm : Calm w.chip) :
    ∃ rounds w', awaitSent socknum course rounds w = some (none, w') := by
  obtain ⟨later, bits, le, member, sent⟩ := goes.sent w.turns
  have turns := turn_iterate socknum course (later - w.turns) w
  have ready : ((turn socknum course)^[later - w.turns + 1] w).chip.ir &&& SK_IR_TXOK ≠ 0 := by
    rw [Function.iterate_succ_apply']
    generalize (turn socknum course)^[later - w.turns] w = u at turns
    rw [show w.turns + (later - w.turns) = later by omega] at turns
    rw [← turns] at member
    exact ir_events (.inr ⟨bits, member, sent⟩)
  obtain ⟨w', came⟩ : ∃ w', await socknum course (fun w => w.chip.ir &&& SK_IR_DISC ≠ 0 ∨
      w.chip.ir &&& SK_IR_TOUT ≠ 0 ∨ w.chip.ir &&& SK_IR_TXOK ≠ 0) (later - w.turns + 1) w =
        some w' := exists_await (.inr (.inr ready))
  have calm' := calm_await goes calm came
  refine ⟨later - w.turns + 1, clearInterrupt socknum course SK_IR_TXOK w', ?_⟩
  rw [awaitSent, came]
  dsimp only
  rw [if_neg (not_not_intro calm'.2), if_neg (not_not_intro calm'.1)]

theorem awaitSent_mono {rounds more : Nat} {result : Option String × World} (le : rounds ≤ more)
    (returned : awaitSent socknum course rounds w = some result) :
    awaitSent socknum course more w = some result := by
  rw [awaitSent] at returned ⊢
  split at returned
  · cases returned
  · rename_i w₁ came
    rw [await_mono le came]
    exact returned

theorem exists_sendPiece (socknum : Nat) (goes : course.Goes) (idle : Idle w.chip)
    (calm : Calm w.chip) {data : List UInt8} (small : data.length < TX_SIZE) :
    ∃ rounds w', sendPiece socknum course rounds data w = some (none, w') := by
  have quiet := goes.quiet
  have first := passes_turn socknum course idle.sane
  have calm₁ := quiet.calm_access (sock socknum) calm
  obtain ⟨rounds₁, w₂, roomy⟩ := exists_awaitRoom socknum goes first.sane small
  have calm₂ := calm_await goes calm₁ roomy
  obtain ⟨w₃, sends⟩ : ∃ w₃, w₃ = wizFinalizeSend (sock socknum) course.events
      (putBytes socknum course ((turn socknum course w).chip.txWr % TX_SIZE) data w₂)
      data.length := ⟨_, rfl⟩
  have calm₃ : Calm w₃.chip := by
    rw [sends]
    exact quiet.calm_wizFinalizeSend (sock socknum) (calm_putBytes goes calm₂) _
  obtain ⟨rounds₂, w₄, taken⟩ := exists_awaitCommand socknum goes w₃
  have calm₄ := calm_await goes calm₃ taken
  have calm₅ := quiet.calm_access (sock socknum) calm₄
  have calm₆ := quiet.calm_access (sock socknum) calm₅
  obtain ⟨rounds₃, w₇, sent⟩ := exists_awaitSent socknum goes calm₆
  have commanded : Wiz__sock_command socknum course (rounds₁ + rounds₂ + rounds₃) SK_SR_ESTB w₃ =
      some (true, turn socknum course w₄) := by
    rw [Wiz__sock_command, await_mono (by omega) taken]
    dsimp only
    rw [goes.established, decide_eq_true rfl]
  refine ⟨rounds₁ + rounds₂ + rounds₃, w₇, ?_⟩
  rw [sendPiece]
  dsimp only
  rw [awaitRoom, await_mono (show rounds₁ ≤ rounds₁ + rounds₂ + rounds₃ by omega) roomy]
  dsimp only
  rw [← sends, commanded]
  exact awaitSent_mono (by omega) sent

/-! ### Every buffer -/

/-- The first piece is all there is to send. -/
theorem tcpSend_of_small {buf : List UInt8} (small : buf.length < TX_SIZE) (more : buf.length ≠ 0)
    (rounds : Nat) :
    TcpSendOrNotYet socknum course buf (rounds + 1) buf.length w =
      match sendPiece socknum course rounds buf w with
      | none => none
      | some (some error, w) => some (some error, w)
      | some (none, w) => TcpSendOrNotYet socknum course buf rounds 0 w := by
  have all : min buf.length TX_SIZE = buf.length := Nat.min_eq_left (Nat.le_of_lt small)
  rw [TcpSendOrNotYet, if_neg more]
  dsimp only
  rw [all, List.take_length, Nat.sub_self]

theorem tcpSend_of_large {buf : List UInt8} (large : TX_SIZE ≤ buf.length) (rounds : Nat) :
    TcpSendOrNotYet socknum course buf rounds buf.length w = none := by
  cases rounds with
  | zero => rfl
  | succ rounds =>
    have ring : min buf.length TX_SIZE = TX_SIZE := Nat.min_eq_right large
    have more : buf.length ≠ 0 := Nat.ne_of_gt (Nat.lt_of_lt_of_le (by decide) large)
    rw [TcpSendOrNotYet, if_neg more]
    dsimp only
    rw [ring, sendPiece_of_large (by rw [List.length_take, Nat.min_comm, ring])]

/-- The chip transmits a byte at every turn, and has always just sent. -/
def prompt : Course where
  events _ := [.transmit 1, .interrupt SK_IR_TXOK]
  sr _ := SK_SR_ESTB
  cr _ := 0

theorem goes_prompt : prompt.Goes where
  quiet := by
    intro turn bits member
    rcases List.mem_cons.mp member with never | last
    · cases never
    · cases List.mem_singleton.mp last
      exact ⟨by decide, by decide⟩
  transmits := fun turn => ⟨turn, 1, Nat.le_refl _, by decide, List.mem_cons_self⟩
  sent := fun turn => ⟨turn, SK_IR_TXOK, Nat.le_refl _,
    List.mem_cons_of_mem _ List.mem_cons_self, by decide⟩
  takes := fun turn => ⟨turn, Nat.le_refl _, rfl⟩
  established := fun _ => rfl

/-- Every byte of the buffer is put on the connection, and every call completes, if and only if
there is less to send than the ring holds. -/
theorem transmits_iff (socknum : Nat) (buf : List UInt8) :
    Transmits socknum buf ↔ buf.length < TX_SIZE := by
  refine ⟨fun transmits => ?_, fun small => ⟨?_, ?_⟩⟩
  · by_contra large
    obtain ⟨rounds, w', returned⟩ := transmits.completes prompt wrapping idle_wrapping
      ⟨by decide, by decide⟩ goes_prompt
    rw [tcpSend_of_large (not_lt.mp large)] at returned
    cases returned
  · intro course rounds w w' idle returned
    cases rounds with
    | zero => cases returned
    | succ rounds =>
      by_cases nothing : buf.length = 0
      · rw [TcpSendOrNotYet, if_pos nothing] at returned
        cases returned
        rw [List.length_eq_zero_iff.mp nothing]
        exact .refl idle
      · rw [tcpSend_of_small small nothing] at returned
        split at returned
        · cases returned
        · cases returned
        · rename_i w₁ piece
          have moves := moves_sendPiece idle piece
          cases rounds with
          | zero => cases returned
          | succ rounds =>
            cases returned
            exact moves
  · intro course w idle calm goes
    by_cases nothing : buf.length = 0
    · exact ⟨1, w, if_pos nothing⟩
    · obtain ⟨rounds, w', piece⟩ := exists_sendPiece socknum goes idle calm small
      cases rounds with
      | zero => cases piece
      | succ rounds =>
        refine ⟨rounds + 1 + 1, w', ?_⟩
        rw [tcpSend_of_small small nothing, piece]
        rfl

theorem not_transmits_ring : ¬Transmits 1 (List.replicate 2048 65) := by
  intro transmits
  obtain ⟨rounds, w', returned⟩ := transmits.completes prompt wrapping idle_wrapping
    ⟨by decide, by decide⟩ goes_prompt
  rw [tcpSend_of_large (by rw [List.length_replicate]; exact Nat.le_refl _)] at returned
  cases returned

end Frobio.Tcp
