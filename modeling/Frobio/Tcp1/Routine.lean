/-
This file is about programs of the CoCo that call `Tcp1Read` and `Tcp1Write`, with the other
end at work at the same time. A program is in blocks, from one label to the next.

It can be executed on the machine, with the chip and its rings, and it can be played on the two
streams. What comes of it when it is played also comes of it when it is executed, whatever the
pointers of the rings are and however the bytes arrive.
-/

import Frobio.Tcp1.Rings

namespace Frobio.Tcp1

open Memory Frobio.Ring Axcore

abbrev Ram : Type := Nat → UInt8

/-! ### Programs -/

/-- A block without loops. It is stuck where it loops forever, or goes where no code is known. -/
inductive Routine (Label : Type)
  | rts
  | bra (label : Label)
  | stuck
  | read (x y : Nat) (next : Routine Label)
  | write (x y : Nat) (next : Routine Label)
  | look (next : Ram → Routine Label)
  | change (f : Ram → Ram) (next : Routine Label)
  | keyin (next : UInt8 → Routine Label)

/-- What a program is in touch with. -/
structure Around (Peer : Type) where
  /-- What becomes of the other end when it gets these bytes, and the bytes it sends then. -/
  hears : Peer → List UInt8 → Peer × List UInt8
  /-- The routine `KEYIN` of BASIC, each time it is called: the key, or 0, and the memory. -/
  keyin : Nat → Ram → UInt8 × Ram

structure Scene (Here Peer : Type) where
  here : Here
  polls : Nat
  peer : Peer

/-- More bytes are coming. -/
def Machine.hear (m : Machine) (bytes : List UInt8) : Machine :=
  { m with world := { m.world with
      chip := { m.world.chip with incoming := m.world.chip.incoming ++ bytes } } }

def Streams.hear (s : Streams) (bytes : List UInt8) : Streams :=
  { s with coming := s.coming ++ bytes }

/-- Why a program gives nothing when it is played: it never ends, or it calls a routine with what
does not fit the ring. -/
inductive Fault
  | stuck
  | unfit

instance : (call : Call) → Decidable call.Fits
  | .read _ _ => inferInstanceAs (Decidable (_ ∧ _ ∧ _))
  | .write _ _ => inferInstanceAs (Decidable (_ ∧ _ ∧ _))

section

variable {Label Peer : Type} (around : Around Peer)

/-- Execute one block. What has been sent is heard when the call returns; however late it is
answered is up to the chip. -/
def exec (schedule : Nat → List Event) (rounds : Nat) :
    Routine Label → Scene Machine Peer → Option (Option Label × Scene Machine Peer)
  | .rts, s => some (none, s)
  | .bra label, s => some (some label, s)
  | .stuck, _ => none
  | .read x y next, s =>
    (perform schedule hdbWay rounds s.here (.read x y)).bind fun m =>
      exec schedule rounds next { s with here := m }
  | .write x y next, s =>
    (perform schedule hdbWay rounds s.here (.write x y)).bind fun m =>
      let sent := m.streams.sent.drop s.here.streams.sent.length
      let heard := around.hears s.peer sent
      exec schedule rounds next ⟨m.hear heard.2, s.polls, heard.1⟩
  | .look next, s => exec schedule rounds (next s.here.ram) s
  | .change f next, s =>
    exec schedule rounds next { s with here := { s.here with ram := f s.here.ram } }
  | .keyin next, s =>
    let pressed := around.keyin s.polls s.here.ram
    exec schedule rounds (next pressed.1) ⟨{ s.here with ram := pressed.2 }, s.polls + 1, s.peer⟩

/-- Play one block. -/
def play : Routine Label → Scene Streams Peer → Except Fault (Option Label × Scene Streams Peer)
  | .rts, s => .ok (none, s)
  | .bra label, s => .ok (some label, s)
  | .stuck, _ => .error .stuck
  | .read x y next, s =>
    if ¬(Call.read x y).Fits then .error .unfit
    else if s.here.coming.length < y then .error .stuck
    else play next { s with here := s.here.perform (.read x y) }
  | .write x y next, s =>
    if ¬(Call.write x y).Fits then .error .unfit
    else
      let heard := around.hears s.peer (window 0 SPACE s.here.ram x y)
      play next ⟨(s.here.perform (.write x y)).hear heard.2, s.polls, heard.1⟩
  | .look next, s => play (next s.here.ram) s
  | .change f next, s => play next { s with here := { s.here with ram := f s.here.ram } }
  | .keyin next, s =>
    let pressed := around.keyin s.polls s.here.ram
    play (next pressed.1) ⟨{ s.here with ram := pressed.2 }, s.polls + 1, s.peer⟩

variable (block : Label → Routine Label)

/-- Execute the blocks from a label on. -/
def execFrom (schedule : Nat → List Event) (rounds : Nat) :
    Nat → Label → Scene Machine Peer → Option (Scene Machine Peer)
  | 0, _, _ => none
  | count + 1, label, s =>
    (exec around schedule rounds (block label) s).bind fun (next, s) =>
      match next with
      | none => some s
      | some label => execFrom schedule rounds count label s

def playFrom : Nat → Label → Scene Streams Peer → Except Fault (Scene Streams Peer)
  | 0, _, _ => .error .stuck
  | count + 1, label, s =>
    (play around (block label) s).bind fun (next, s) =>
      match next with
      | none => .ok s
      | some label => playFrom count label s

end

/-- What can be seen of a scene on the streams. -/
def Scene.streams {Peer : Type} (s : Scene Machine Peer) : Scene Streams Peer :=
  ⟨s.here.streams, s.polls, s.peer⟩

section

variable {Label Peer : Type} {around : Around Peer} {schedule : Nat → List Event}
  {rounds count : Nat} {s s' : Scene Machine Peer} {block : Label → Routine Label}

/-! ### What is executed can be played -/

theorem idle_hear {m : Machine} (idle : Idle m.world.chip) (bytes : List UInt8) :
    Idle (m.hear bytes).world.chip :=
  ⟨⟨idle.sane.txEnd, idle.sane.txRd, idle.sane.rxStart, idle.sane.rxWr, idle.sane.waiting,
    idle.sane.rxRsr⟩, idle.txWr, idle.rxRd⟩

theorem streams_hear (m : Machine) (bytes : List UInt8) :
    (m.hear bytes).streams = m.streams.hear bytes := by
  show (⟨m.ram, _, _ ++ (m.world.chip.incoming ++ bytes)⟩ : Streams) = _
  rw [← List.append_assoc]
  rfl

/-- A call that reads does not return before the bytes have come. -/
theorem length_of_read {m m' : Machine} {x y : Nat} (idle : Idle m.world.chip)
    (fits : (Call.read x y).Fits)
    (done : perform schedule hdbWay rounds m (.read x y) = some m') :
    y ≤ m.streams.coming.length := by
  obtain ⟨inside, some_, -⟩ := fits
  obtain ⟨bytes, length, moves, -⟩ := moves_tcp1Read exact_hdbWay idle inside some_ done
  show y ≤ (m.world.chip.inStream sock1).length
  rw [moves.inStream, List.length_append, length]
  exact Nat.le_add_right _ _

theorem sent_of_write {m m' : Machine} {x y : Nat} (idle : Idle m.world.chip)
    (fits : (Call.write x y).Fits)
    (done : perform schedule hdbWay rounds m (.write x y) = some m') :
    m'.streams.sent.drop m.streams.sent.length = window 0 SPACE m.ram x y := by
  rw [(perform_streams exact_hdbWay idle fits done).2]
  exact List.drop_left

theorem streams_called {m : Machine} {call : Call}
    (streams : m.streams = s.here.streams.perform call) :
    ({ s with here := m } : Scene Machine Peer).streams =
      { s.streams with here := s.streams.here.perform call } := by
  rw [Scene.streams, streams]
  rfl

theorem streams_heard {m : Machine} {call : Call}
    (streams : m.streams = s.here.streams.perform call) {heard : Peer × List UInt8} :
    (⟨m.hear heard.2, s.polls, heard.1⟩ : Scene Machine Peer).streams =
      ⟨(s.streams.here.perform call).hear heard.2, s.streams.polls, heard.1⟩ := by
  rw [Scene.streams, streams_hear, streams]
  rfl

/-- What is executed comes to what is played, unless a call does not fit. -/
theorem played_of_executed {routine : Routine Label} {result : Option Label}
    (idle : Idle s.here.world.chip) (fits : play around routine s.streams ≠ .error .unfit)
    (done : exec around schedule rounds routine s = some (result, s')) :
    Idle s'.here.world.chip ∧ play around routine s.streams = .ok (result, s'.streams) := by
  induction routine generalizing s with
  | rts =>
    cases done
    exact ⟨idle, rfl⟩
  | bra label =>
    cases done
    exact ⟨idle, rfl⟩
  | stuck => cases done
  | read x y next inductionHypothesis =>
    obtain ⟨m, called, later⟩ := Option.bind_eq_some_iff.mp done
    rw [play] at fits ⊢
    by_cases fit : (Call.read x y).Fits
    · obtain ⟨idle', streams⟩ := perform_streams exact_hdbWay idle fit called
      have enough : ¬s.streams.here.coming.length < y :=
        Nat.not_lt.mpr (length_of_read idle fit called)
      rw [if_neg (not_not_intro fit), if_neg enough] at fits ⊢
      rw [← streams_called streams] at fits ⊢
      exact inductionHypothesis idle' fits later
    · exact absurd (if_pos fit) fits
  | write x y next inductionHypothesis =>
    obtain ⟨m, called, later⟩ := Option.bind_eq_some_iff.mp done
    rw [play] at fits ⊢
    by_cases fit : (Call.write x y).Fits
    · obtain ⟨idle', streams⟩ := perform_streams exact_hdbWay idle fit called
      rw [sent_of_write idle fit called] at later
      rw [if_neg (not_not_intro fit)] at fits ⊢
      dsimp only at fits later ⊢
      rw [← streams_heard streams] at fits ⊢
      exact inductionHypothesis (idle_hear idle' _) fits later
    · exact absurd (if_pos fit) fits
  | look next inductionHypothesis => exact inductionHypothesis _ idle fits done
  | change f next inductionHypothesis =>
    exact @inductionHypothesis { s with here := { s.here with ram := f s.here.ram } } idle fits done
  | keyin next inductionHypothesis =>
    exact @inductionHypothesis (around.keyin s.polls s.here.ram).1
      ⟨{ s.here with ram := (around.keyin s.polls s.here.ram).2 }, s.polls + 1, s.peer⟩ idle fits
      done

/-! ### What is played can be executed -/

/-- More rounds do no harm. -/
theorem exec_add {routine : Routine Label} {result : Option Label × Scene Machine Peer} (more : Nat)
    (done : exec around schedule rounds routine s = some result) :
    exec around schedule (rounds + more) routine s = some result := by
  induction routine generalizing s with
  | rts => exact done
  | bra label => exact done
  | stuck => cases done
  | read x y next inductionHypothesis =>
    obtain ⟨m, called, later⟩ := Option.bind_eq_some_iff.mp done
    exact Option.bind_eq_some_iff.mpr ⟨m, perform_add more called, inductionHypothesis later⟩
  | write x y next inductionHypothesis =>
    obtain ⟨m, called, later⟩ := Option.bind_eq_some_iff.mp done
    exact Option.bind_eq_some_iff.mpr ⟨m, perform_add more called, inductionHypothesis later⟩
  | look next inductionHypothesis => exact inductionHypothesis _ done
  | change f next inductionHypothesis =>
    exact @inductionHypothesis { s with here := { s.here with ram := f s.here.ram } } done
  | keyin next inductionHypothesis =>
    exact @inductionHypothesis (around.keyin s.polls s.here.ram).1
      ⟨{ s.here with ram := (around.keyin s.polls s.here.ram).2 }, s.polls + 1, s.peer⟩ done

/-- What is played to its end is executed if the chip goes on. -/
theorem exists_exec {routine : Routine Label} {result : Option Label × Scene Streams Peer}
    (lively : Lively schedule) (idle : Idle s.here.world.chip)
    (played : play around routine s.streams = .ok result) :
    ∃ rounds executed, exec around schedule rounds routine s = some executed := by
  induction routine generalizing s with
  | rts => exact ⟨0, _, rfl⟩
  | bra label => exact ⟨0, _, rfl⟩
  | stuck => cases played
  | read x y next inductionHypothesis =>
    rw [play] at played
    by_cases fit : (Call.read x y).Fits
    · rw [if_neg (not_not_intro fit)] at played
      by_cases short : s.streams.here.coming.length < y
      · rw [if_pos short] at played
        cases played
      · rw [if_neg short] at played
        obtain ⟨rounds, m, called⟩ := exists_perform lively hdbWay idle fit (Nat.not_lt.mp short)
        obtain ⟨idle', streams⟩ := perform_streams exact_hdbWay idle fit called
        rw [← streams_called streams] at played
        obtain ⟨rounds', executed, later⟩ := inductionHypothesis idle' played
        refine ⟨rounds + rounds', executed,
          Option.bind_eq_some_iff.mpr ⟨m, perform_add _ called, ?_⟩⟩
        rw [Nat.add_comm rounds rounds']
        exact exec_add rounds later
    · rw [if_pos fit] at played
      cases played
  | write x y next inductionHypothesis =>
    rw [play] at played
    by_cases fit : (Call.write x y).Fits
    · rw [if_neg (not_not_intro fit)] at played
      obtain ⟨rounds, m, called⟩ := exists_perform lively hdbWay idle fit (Nat.zero_le _)
      obtain ⟨idle', streams⟩ := perform_streams exact_hdbWay idle fit called
      dsimp only at played
      rw [← streams_heard streams] at played
      obtain ⟨rounds', executed, later⟩ := inductionHypothesis (idle_hear idle' _) played
      refine ⟨rounds + rounds', executed, Option.bind_eq_some_iff.mpr ⟨m, perform_add _ called, ?_⟩⟩
      rw [sent_of_write idle fit called, Nat.add_comm rounds rounds']
      exact exec_add rounds later
    · rw [if_pos fit] at played
      cases played
  | look next inductionHypothesis => exact inductionHypothesis _ idle played
  | change f next inductionHypothesis =>
    exact @inductionHypothesis { s with here := { s.here with ram := f s.here.ram } } idle played
  | keyin next inductionHypothesis =>
    exact @inductionHypothesis (around.keyin s.polls s.here.ram).1
      ⟨{ s.here with ram := (around.keyin s.polls s.here.ram).2 }, s.polls + 1, s.peer⟩ idle played

/-! ### From block to block -/

theorem playedFrom_of_executedFrom {label : Label} (idle : Idle s.here.world.chip)
    (fits : playFrom around block count label s.streams ≠ .error .unfit)
    (done : execFrom around block schedule rounds count label s = some s') :
    Idle s'.here.world.chip ∧ playFrom around block count label s.streams = .ok s'.streams := by
  induction count generalizing label s with
  | zero => cases done
  | succ count inductionHypothesis =>
    obtain ⟨⟨next, middle⟩, first, later⟩ := Option.bind_eq_some_iff.mp done
    have fits' : play around (block label) s.streams ≠ .error .unfit := by
      intro unfit
      rw [playFrom, unfit] at fits
      exact fits rfl
    obtain ⟨idle', played⟩ := played_of_executed idle fits' first
    rw [playFrom, played] at fits ⊢
    cases next with
    | none =>
      cases later
      exact ⟨idle', rfl⟩
    | some label => exact inductionHypothesis idle' fits later

theorem execFrom_add {label : Label} (more more' : Nat)
    (done : execFrom around block schedule rounds count label s = some s') :
    execFrom around block schedule (rounds + more) (count + more') label s = some s' := by
  induction count generalizing label s with
  | zero => cases done
  | succ count inductionHypothesis =>
    obtain ⟨⟨next, middle⟩, first, later⟩ := Option.bind_eq_some_iff.mp done
    rw [Nat.succ_add]
    refine Option.bind_eq_some_iff.mpr ⟨(next, middle), exec_add more first, ?_⟩
    cases next with
    | none => exact later
    | some label => exact inductionHypothesis later

theorem exists_execFrom {label : Label} {t : Scene Streams Peer} (lively : Lively schedule)
    (idle : Idle s.here.world.chip)
    (played : playFrom around block count label s.streams = .ok t) :
    ∃ rounds count' s', execFrom around block schedule rounds count' label s = some s' := by
  induction count generalizing label s with
  | zero => cases played
  | succ count inductionHypothesis =>
    rw [playFrom] at played
    cases one : play around (block label) s.streams with
    | error fault =>
      rw [one] at played
      cases played
    | ok result =>
      obtain ⟨rounds, ⟨next, middle⟩, first⟩ := exists_exec lively idle one
      have fits : play around (block label) s.streams ≠ .error .unfit := by
        rw [one]
        intro same
        cases same
      obtain ⟨idle', also⟩ := played_of_executed idle fits first
      rw [also] at played
      cases next with
      | none => exact ⟨rounds, 1, middle, Option.bind_eq_some_iff.mpr ⟨_, first, rfl⟩⟩
      | some label =>
        obtain ⟨rounds', count', s', later⟩ := inductionHypothesis idle' played
        refine ⟨rounds + rounds', count' + 1, s',
          Option.bind_eq_some_iff.mpr ⟨_, exec_add rounds' first, ?_⟩⟩
        rw [Nat.add_comm rounds rounds']
        exact execFrom_add rounds 0 later

/-- Only the end of the blocks that are counted can be put off. -/
theorem playFrom_add {label : Label} {t : Scene Streams Peer} (more : Nat)
    (ends : playFrom around block count label t ≠ .error .stuck) :
    playFrom around block (count + more) label t = playFrom around block count label t := by
  induction count generalizing label t with
  | zero => exact absurd rfl ends
  | succ count inductionHypothesis =>
    rw [Nat.succ_add]
    rw [playFrom] at ends ⊢
    rw [playFrom]
    cases one : play around (block label) t with
    | error fault => rfl
    | ok result =>
      obtain ⟨next, middle⟩ := result
      rw [one] at ends
      cases next with
      | none => rfl
      | some label => exact inductionHypothesis ends

/-! ### Rules -/

/-- From a label, a program gets to another one. -/
def Goes (around : Around Peer) (block : Label → Routine Label) (label : Label)
    (t : Scene Streams Peer) (label' : Label) (t' : Scene Streams Peer) : Prop :=
  ∃ count, ∀ more, playFrom around block (count + more) label t =
    playFrom around block more label' t'

/-- From a label, a program comes to its end. -/
def Ends (around : Around Peer) (block : Label → Routine Label) (label : Label)
    (t t' : Scene Streams Peer) : Prop :=
  ∃ count, playFrom around block count label t = .ok t'

/-- From a label, a program never ends. -/
def Loops (around : Around Peer) (block : Label → Routine Label) (label : Label)
    (t : Scene Streams Peer) : Prop :=
  ∀ count, playFrom around block count label t = .error .stuck

variable {label label' label'' : Label} {t t' t'' : Scene Streams Peer}

section

variable {next : Routine Label} {ram : Ram} {sent coming : List UInt8} {polls : Nat} {peer : Peer}

theorem play_look (next : Ram → Routine Label) :
    play around (.look next) ⟨⟨ram, sent, coming⟩, polls, peer⟩ =
      play around (next ram) ⟨⟨ram, sent, coming⟩, polls, peer⟩ := rfl

theorem play_change (f : Ram → Ram) :
    play around (.change f next) ⟨⟨ram, sent, coming⟩, polls, peer⟩ =
      play around next ⟨⟨f ram, sent, coming⟩, polls, peer⟩ := rfl

theorem play_keyin (next : UInt8 → Routine Label) :
    play around (.keyin next) ⟨⟨ram, sent, coming⟩, polls, peer⟩ =
      play around (next (around.keyin polls ram).1)
        ⟨⟨(around.keyin polls ram).2, sent, coming⟩, polls + 1, peer⟩ := rfl

theorem play_read {bytes rest : List UInt8} {x y : Nat} (inside : x < SPACE) (some : 0 < y)
    (fits : y ≤ RING_SIZE) (length : bytes.length = y) :
    play around (.read x y next) ⟨⟨ram, sent, bytes ++ rest⟩, polls, peer⟩ =
      play around next ⟨⟨put 0 SPACE ram x bytes, sent, rest⟩, polls, peer⟩ := by
  have enough : ¬(bytes ++ rest).length < y := by
    rw [List.length_append]
    omega
  rw [play, if_neg (not_not_intro ⟨inside, some, fits⟩), if_neg enough, Streams.perform,
    List.take_left' length, List.drop_left' length]

theorem play_write {x y : Nat} (inside : x < SPACE) (some : 0 < y) (fits : y ≤ RING_SIZE) :
    play around (.write x y next) ⟨⟨ram, sent, coming⟩, polls, peer⟩ =
      play around next
        ⟨⟨ram, sent ++ window 0 SPACE ram x y,
          coming ++ (around.hears peer (window 0 SPACE ram x y)).2⟩, polls,
          (around.hears peer (window 0 SPACE ram x y)).1⟩ := by
  rw [play, if_neg (not_not_intro ⟨inside, some, fits⟩)]
  rfl

end

theorem Goes.trans (first : Goes around block label t label' t')
    (second : Goes around block label' t' label'' t'') :
    Goes around block label t label'' t'' := by
  obtain ⟨count, one⟩ := first
  obtain ⟨count', two⟩ := second
  refine ⟨count + count', fun more => ?_⟩
  rw [Nat.add_assoc, one, two]

theorem Goes.of_play (played : play around (block label) t = .ok (some label', t')) :
    Goes around block label t label' t' := by
  refine ⟨1, fun more => ?_⟩
  rw [Nat.add_comm, playFrom, played]
  rfl

theorem Ends.of_play (played : play around (block label) t = .ok (none, t')) :
    Ends around block label t t' := by
  refine ⟨1, ?_⟩
  rw [playFrom, played]
  rfl

theorem Goes.ends (first : Goes around block label t label' t')
    (second : Ends around block label' t' t'') : Ends around block label t t'' := by
  obtain ⟨count, one⟩ := first
  obtain ⟨more, two⟩ := second
  exact ⟨count + more, (one more).trans two⟩

theorem Loops.of_play (played : play around (block label) t = .error .stuck) :
    Loops around block label t := by
  intro count
  cases count with
  | zero => rfl
  | succ count =>
    rw [playFrom, played]
    rfl

theorem Loops.of_next (played : play around (block label) t = .ok (some label', t'))
    (loops : Loops around block label' t') : Loops around block label t := by
  intro count
  cases count with
  | zero => rfl
  | succ count =>
    rw [playFrom, played]
    exact loops count

theorem unfit_ne_stuck : (.error .unfit : Except Fault (Scene Streams Peer)) ≠ .error .stuck := by
  intro same
  cases same

/-- Whatever the pointers of the chip are, and however the bytes arrive, a program that ends when it
is played comes to the same end when it is executed; and it does end if the chip goes on. -/
theorem Ends.exec (idle : Idle s.here.world.chip) (ends : Ends around block label s.streams t) :
    (∀ rounds count s', execFrom around block schedule rounds count label s = some s' →
      Idle s'.here.world.chip ∧ s'.streams = t) ∧
    (Lively schedule → ∃ rounds s',
      execFrom around block schedule rounds rounds label s = some s') := by
  obtain ⟨count, played⟩ := ends
  have okay : ∀ t : Scene Streams Peer,
      (.ok t : Except Fault (Scene Streams Peer)) ≠ .error .stuck := by
    intro t same
    cases same
  refine ⟨fun rounds count' s' done => ?_, fun lively => ?_⟩
  · have all : playFrom around block (count + count') label s.streams = .ok t := by
      rw [playFrom_add _ (played ▸ okay t), played]
    have fits : playFrom around block count' label s.streams ≠ .error .unfit := by
      intro unfit
      rw [Nat.add_comm, playFrom_add count (unfit ▸ unfit_ne_stuck), unfit] at all
      cases all
    obtain ⟨idle', also⟩ := playedFrom_of_executedFrom idle fits done
    rw [Nat.add_comm, playFrom_add count (also ▸ okay _), also] at all
    exact ⟨idle', Except.ok.inj all⟩
  · obtain ⟨rounds, count', s', done⟩ := exists_execFrom lively idle played
    refine ⟨rounds + count', s', ?_⟩
    have more := execFrom_add count' rounds done
    rwa [Nat.add_comm count' rounds] at more

/-- A program that never ends when it is played never ends when it is executed. -/
theorem Loops.exec (idle : Idle s.here.world.chip) (loops : Loops around block label s.streams)
    (rounds count : Nat) : execFrom around block schedule rounds count label s = none := by
  cases done : execFrom around block schedule rounds count label s with
  | none => rfl
  | some s' =>
    have stuck := loops count
    obtain ⟨-, also⟩ := playedFrom_of_executedFrom idle (stuck ▸ unfit_ne_stuck.symm) done
    rw [stuck] at also
    cases also

end

end Frobio.Tcp1
