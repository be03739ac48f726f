/-
This file is about areas of options as they stand in a memory: an option is a code, a
length and that many bytes of value; between options there may be padding of single
bytes; and an area ends with an end byte, or with the packet it stands in.

`found` is the reading of such an area. A `Walker` is a loop that goes from code to
code, and takes the byte behind every code for a length, also behind padding; what it
does at an option is its own. `Serves.faithful_iff` says on which areas such a loop
visits just what the reading finds.

A memory has no byte where it must not be read.
-/

import Mathlib.Data.List.Basic
import Mathlib.Tactic

namespace Frobio.TypeLengthValue

def PAD : UInt8 := 0

def END : UInt8 := 255

/-! ### Areas -/

inductive Item
  | pad
  | option (code : UInt8) (value : List UInt8) (coded : code ≠ PAD ∧ code ≠ END)
    (short : value.length < 256)

/-- What ends an area: the packet, or an end byte, and so many more bytes then follow it. -/
inductive Ending
  | packet
  | option (trailing : Nat)

def Item.bytes : Item → List UInt8
  | .pad => [PAD]
  | .option code value _ _ => code :: UInt8.ofNat value.length :: value

def Ending.bytes : Ending → List UInt8
  | .packet => []
  | .option _ => [END]

def Ending.trailing : Ending → Nat
  | .packet => 0
  | .option trailing => trailing

/-- The bytes of an area, to its end byte. -/
def encode (ending : Ending) : List Item → List UInt8
  | [] => ending.bytes
  | item :: rest => item.bytes ++ encode ending rest

structure Found where
  place : Nat
  code : UInt8
  value : List UInt8
  deriving DecidableEq

/-- The options of an area that begins at the place, the end byte among them, but no padding. -/
def found (ending : Ending) : Nat → List Item → List Found
  | place, [] => match ending with
    | .packet => []
    | .option _ => [⟨place, END, []⟩]
  | place, .pad :: rest => found ending (place + 1) rest
  | place, .option code value _ _ :: rest =>
    ⟨place, code, value⟩ :: found ending (place + 2 + value.length) rest

/-- Padding comes in pairs. -/
def Paired : List Item → Prop
  | [] => True
  | [.pad] => False
  | .pad :: .pad :: rest => Paired rest
  | .pad :: .option .. :: _ => False
  | .option .. :: rest => Paired rest

/-- Every option of the area is of this kind. -/
def All (kind : UInt8 → List UInt8 → Prop) : List Item → Prop
  | [] => True
  | .pad :: rest => All kind rest
  | .option code value _ _ :: rest => kind code value ∧ All kind rest

/-! ### Memories -/

/-- From the place on, the memory has these bytes and no others. -/
def Exposes (memory : Nat → Option UInt8) (place : Nat) (bytes : List UInt8) : Prop :=
  ∀ i, memory (place + i) = bytes[i]?

/-- The memory that has these bytes, and no others. -/
def exposing (place : Nat) (bytes : List UInt8) : Nat → Option UInt8 := fun a =>
  if place ≤ a then bytes[a - place]? else none

theorem exposes_exposing (place : Nat) (bytes : List UInt8) :
    Exposes (exposing place bytes) place bytes := by
  intro i
  rw [exposing, if_pos (Nat.le_add_right _ _), Nat.add_sub_cancel_left]

section

variable {memory : Nat → Option UInt8} {place : Nat} {bytes more : List UInt8} {byte : UInt8}

theorem Exposes.nil (exposes : Exposes memory place []) : memory place = none := exposes 0

theorem Exposes.head (exposes : Exposes memory place (byte :: bytes)) :
    memory place = some byte := exposes 0

theorem Exposes.tail (exposes : Exposes memory place (byte :: bytes)) :
    Exposes memory (place + 1) bytes := by
  intro i
  have shifted := exposes (i + 1)
  rw [List.getElem?_cons_succ] at shifted
  rw [← shifted, Nat.add_assoc, Nat.add_comm 1 i]

theorem Exposes.skip (exposes : Exposes memory place (bytes ++ more)) :
    Exposes memory (place + bytes.length) more := by
  intro i
  have shifted := exposes (bytes.length + i)
  rw [List.getElem?_append_right (Nat.le_add_right _ _), Nat.add_sub_cancel_left] at shifted
  rw [← shifted, Nat.add_assoc]

end

/-- Some bytes of the memory, if it has all of them. -/
def fetch (memory : Nat → Option UInt8) : Nat → Nat → Option (List UInt8)
  | _, 0 => some []
  | p, n + 1 =>
    match memory p with
    | none => none
    | some byte => (fetch memory (p + 1) n).map (byte :: ·)

theorem length_of_fetch {memory : Nat → Option UInt8} {p n : Nat} {bytes : List UInt8}
    (fetched : fetch memory p n = some bytes) : bytes.length = n := by
  induction n generalizing p bytes with
  | zero =>
    cases fetched
    rfl
  | succ n inductionHypothesis =>
    rw [fetch] at fetched
    split at fetched
    · cases fetched
    · obtain ⟨rest, later, rfl⟩ := Option.map_eq_some_iff.mp fetched
      rw [List.length_cons, inductionHypothesis later]

theorem Exposes.fetch {memory : Nat → Option UInt8} {p n : Nat} {bytes : List UInt8}
    (exposes : Exposes memory p bytes) (enough : n ≤ bytes.length) :
    fetch memory p n = some (bytes.take n) := by
  induction n generalizing p bytes with
  | zero => rfl
  | succ n inductionHypothesis =>
    cases bytes with
    | nil => exact absurd enough (Nat.not_succ_le_zero n)
    | cons byte rest =>
      rw [TypeLengthValue.fetch, exposes.head]
      dsimp only
      rw [inductionHypothesis exposes.tail (Nat.le_of_succ_le_succ enough)]
      rfl

/-! ### Walkers -/

inductive Next (State Result : Type)
  | goOn (state : State)
  | stop (result : Result) (state : State)

/-- A visit of an option, with the bytes of its value that were taken. -/
structure Visit where
  place : Nat
  code : UInt8
  taken : List UInt8
  deriving DecidableEq

/-- What a loop does before it reads a code, and what it does there. -/
structure Walker (State Result : Type) where
  leave : Nat → Option Result
  body : (Nat → Option UInt8) → Nat → UInt8 → State → Option (Next State Result × List UInt8)

variable {State Result : Type}

/-- The loop, for so many rounds. It has no result if it takes more, or reads where it must not. -/
def Walker.walk (walker : Walker State Result) (memory : Nat → Option UInt8) :
    Nat → Nat → State → Option (Result × State × List Visit)
  | 0, _, _ => none
  | rounds + 1, p, state =>
    match walker.leave p with
    | some result => some (result, state, [])
    | none =>
      match memory p with
      | none => none
      | some code =>
        match walker.body memory p code state with
        | none => none
        | some (.stop result state, taken) => some (result, state, [⟨p, code, taken⟩])
        | some (.goOn state, taken) =>
          match memory (p + 1) with
          | none => none
          | some len =>
            match walker.walk memory rounds (p + 2 + len.toNat) state with
            | none => none
            | some (result, state, visits) => some (result, state, ⟨p, code, taken⟩ :: visits)

section

variable {walker : Walker State Result} {memory : Nat → Option UInt8} {p : Nat}
  {state state' : State} {result : Result} {visits : List Visit} {code len : UInt8}
  {taken : List UInt8}

theorem Walker.walk_of_leave (leaves : walker.leave p = some result) (rounds : Nat) :
    walker.walk memory (rounds + 1) p state = some (result, state, []) := by
  rw [walk, leaves]

theorem Walker.walk_of_stop (stays : walker.leave p = none) (read : memory p = some code)
    (stops : walker.body memory p code state = some (.stop result state', taken)) (rounds : Nat) :
    walker.walk memory (rounds + 1) p state = some (result, state', [⟨p, code, taken⟩]) := by
  rw [walk, stays]
  dsimp only
  rw [read]
  dsimp only
  rw [stops]

theorem Walker.walk_of_goOn (stays : walker.leave p = none) (read : memory p = some code)
    (goes : walker.body memory p code state = some (.goOn state', taken))
    (length : memory (p + 1) = some len) (rounds : Nat) :
    walker.walk memory (rounds + 1) p state =
      match walker.walk memory rounds (p + 2 + len.toNat) state' with
      | none => none
      | some (result, final, visits) => some (result, final, ⟨p, code, taken⟩ :: visits) := by
  rw [walk, stays]
  dsimp only
  rw [read]
  dsimp only
  rw [goes]
  dsimp only
  rw [length]

/-- The first thing a loop does, if it comes to a result. -/
theorem Walker.walk_cases {rounds : Nat}
    (walked : walker.walk memory rounds p state = some (result, state', visits)) :
    ∃ rounds', rounds = rounds' + 1 ∧
      ((walker.leave p = some result ∧ state' = state ∧ visits = []) ∨
        (walker.leave p = none ∧ ∃ code, memory p = some code ∧ ∃ taken,
          ((walker.body memory p code state = some (.stop result state', taken) ∧
              visits = [⟨p, code, taken⟩]) ∨
            ∃ middle len rest,
              walker.body memory p code state = some (.goOn middle, taken) ∧
              memory (p + 1) = some len ∧
              walker.walk memory rounds' (p + 2 + len.toNat) middle =
                some (result, state', rest) ∧
              visits = ⟨p, code, taken⟩ :: rest))) := by
  cases rounds with
  | zero => cases walked
  | succ rounds =>
    refine ⟨rounds, rfl, ?_⟩
    rw [walk] at walked
    split at walked
    · rename_i leaves
      cases walked
      exact .inl ⟨leaves, rfl, rfl⟩
    · rename_i stays
      refine .inr ⟨stays, ?_⟩
      split at walked
      · cases walked
      rename_i code read
      refine ⟨code, read, ?_⟩
      split at walked
      · cases walked
      · rename_i stops
        cases walked
        exact ⟨_, .inl ⟨stops, rfl⟩⟩
      · rename_i middle taken goes
        split at walked
        · cases walked
        rename_i len length
        split at walked
        · cases walked
        rename_i later
        cases walked
        exact ⟨_, .inr ⟨middle, len, _, goes, length, later, rfl⟩⟩

/-- A loop only goes forward. -/
theorem Walker.le_place_of_walk {rounds : Nat}
    (walked : walker.walk memory rounds p state = some (result, state', visits)) :
    ∀ visit ∈ visits, p ≤ visit.place := by
  induction rounds generalizing p state visits with
  | zero => cases walked
  | succ rounds inductionHypothesis =>
    obtain ⟨rounds', counted, ⟨-, -, rfl⟩ | ⟨-, code, -, taken, steps⟩⟩ := walk_cases walked
    · exact fun visit member => absurd member List.not_mem_nil
    · cases counted
      rcases steps with ⟨-, rfl⟩ | ⟨middle, len, rest, -, -, later, rfl⟩
      · intro visit member
        rw [List.mem_singleton.mp member]
      · intro visit member
        rcases List.mem_cons.mp member with rfl | member
        · exact Nat.le_refl p
        · have := inductionHypothesis later visit member
          omega

/-- A loop that is through at some place, and faces a memory it may read anywhere, comes to a
result. -/
theorem Walker.exists_walk (through : ℕ) (leaves : ∀ p, through ≤ p → walker.leave p ≠ none)
    (readable : ∀ p, memory p ≠ none)
    (goes : ∀ p code state, walker.body memory p code state ≠ none) (rounds : ℕ)
    (near : through ≤ p + rounds) :
    ∃ final, walker.walk memory (rounds + 1) p state = some final := by
  induction rounds generalizing p state with
  | zero =>
    obtain ⟨result, left⟩ := Option.ne_none_iff_exists'.mp (leaves p near)
    exact ⟨_, walk_of_leave left 0⟩
  | succ rounds inductionHypothesis =>
    cases leave : walker.leave p with
    | some result => exact ⟨_, walk_of_leave leave _⟩
    | none =>
      obtain ⟨code, read⟩ := Option.ne_none_iff_exists'.mp (readable p)
      obtain ⟨⟨next, taken⟩, done⟩ := Option.ne_none_iff_exists'.mp (goes p code state)
      cases next with
      | stop result state' => exact ⟨_, walk_of_stop leave read done _⟩
      | goOn state' =>
        obtain ⟨len, length⟩ := Option.ne_none_iff_exists'.mp (readable (p + 1))
        obtain ⟨final, later⟩ := @inductionHypothesis (p + 2 + len.toNat) state' (by omega)
        rw [walk_of_goOn leave read done length, later]
        exact ⟨_, rfl⟩

end

/-! ### What a walker is for -/

/-- Of the options, the walker takes the bytes that are wanted of those that fit, and does with
them what it should. It minds no padding, is done at an end byte, and otherwise at the end of the
packet. -/
structure Serves (walker : Walker State Result) (wanted : UInt8 → List UInt8 → List UInt8)
    (effect : UInt8 → List UInt8 → State → State) (fits : UInt8 → List UInt8 → Prop)
    (done lapsed : Result) : Prop where
  pad : ∀ memory p state, walker.body memory p PAD state = some (.goOn state, [])
  finish : ∀ memory p state, walker.body memory p END state = some (.stop done state, [])
  idle : wanted END [] = [] ∧ ∀ state, effect END [] state = state
  leave : ∀ p result, walker.leave p = some result → result = lapsed
  fit : ∀ {memory p code value more} state, code ≠ PAD ∧ code ≠ END →
    Exposes memory (p + 2) (value ++ more) → fits code value →
    walker.body memory p code state =
      some (.goOn (effect code (wanted code value) state), wanted code value)
  unfit : ∀ {memory p code value more} state next taken, code ≠ PAD ∧ code ≠ END →
    Exposes memory (p + 2) (value ++ more) → ¬ fits code value →
    walker.body memory p code state = some (next, taken) →
    taken ≠ wanted code value ∨
      ∃ result state', next = .stop result state' ∧ result ≠ done ∧ result ≠ lapsed

/-- What should come of the options found. -/
def settle (wanted : UInt8 → List UInt8 → List UInt8) (effect : UInt8 → List UInt8 → State → State)
    (state : State) (list : List Found) : State :=
  list.foldl (fun state one => effect one.code (wanted one.code one.value) state) state

def Ending.result (done lapsed : Result) : Ending → Result
  | .packet => lapsed
  | .option _ => done

/-- The loop comes to the end of the area, has visited the options that stand there and nothing
else but padding, has taken from each what is wanted of it, and has done with that what it
should. -/
def Faithful (walker : Walker State Result) (wanted : UInt8 → List UInt8 → List UInt8)
    (effect : UInt8 → List UInt8 → State → State) (done lapsed : Result)
    (memory : Nat → Option UInt8) (ending : Ending) (place : Nat) (items : List Item)
    (state : State) : Prop :=
  ∃ rounds visits,
    walker.walk memory rounds place state =
      some (ending.result done lapsed, settle wanted effect state (found ending place items),
        visits) ∧
    visits.filter (·.code ≠ PAD) =
      (found ending place items).map fun one => ⟨one.place, one.code, wanted one.code one.value⟩

/-! ### On which areas it does so -/

/-- The loop does not leave while it is among so many bytes. -/
def Within (walker : Walker State Result) (place length : Nat) : Prop :=
  ∀ p, place ≤ p → p < place + length → walker.leave p = none

section

variable {walker : Walker State Result} {wanted : UInt8 → List UInt8 → List UInt8}
  {effect : UInt8 → List UInt8 → State → State} {fits : UInt8 → List UInt8 → Prop}
  {done lapsed : Result} {memory : Nat → Option UInt8} {ending : Ending} {place : Nat}
  {items : List Item} {state : State}

theorem Within.head {length : Nat} (within : Within walker place length) (some : 0 < length) :
    walker.leave place = none :=
  within place (Nat.le_refl place) (Nat.lt_add_of_pos_right some)

theorem Within.skip {length skipped : Nat} (within : Within walker place length) {less : Nat}
    (split : length = skipped + less) : Within walker (place + skipped) less :=
  fun p from_ until_ => within p (by omega) (by omega)

theorem Serves.faithful_nil (serves : Serves walker wanted effect fits done lapsed)
    (exposes : Exposes memory place (encode ending []))
    (within : Within walker place (encode ending []).length) :
    Faithful walker wanted effect done lapsed memory ending place [] state ↔
      (ending = .packet → walker.leave place = some lapsed) := by
  cases ending with
  | packet =>
    refine ⟨?_, fun leaves => ⟨1, [], walker.walk_of_leave (leaves rfl) 0, rfl⟩⟩
    rintro ⟨rounds, visits, walked, -⟩ -
    obtain ⟨-, -, ⟨leaves, -, -⟩ | ⟨-, code, read, -⟩⟩ := Walker.walk_cases walked
    · exact leaves
    · rw [exposes.nil] at read
      cases read
  | option trailing =>
    refine ⟨fun _ other => (by cases other), fun _ => ⟨1, [⟨place, END, []⟩], ?_, ?_⟩⟩
    · rw [Walker.walk_of_stop (within.head Nat.one_pos) exposes.head (serves.finish _ _ _)]
      show _ = some (done, effect END (wanted END []) state, _)
      rw [serves.idle.1, serves.idle.2]
    · show _ = [(⟨place, END, wanted END []⟩ : Visit)]
      rw [serves.idle.1]
      rfl

/-- An option that fits is stepped over. -/
theorem Serves.faithful_option (serves : Serves walker wanted effect fits done lapsed)
    {code : UInt8} {value : List UInt8} {coded : code ≠ PAD ∧ code ≠ END}
    {short : value.length < 256}
    (exposes : Exposes memory place (encode ending (.option code value coded short :: items)))
    (stays : walker.leave place = none) (fitting : fits code value) :
    Faithful walker wanted effect done lapsed memory ending place
        (.option code value coded short :: items) state ↔
      Faithful walker wanted effect done lapsed memory ending (place + 2 + value.length) items
        (effect code (wanted code value) state) := by
  have goes := serves.fit state coded exposes.tail.tail fitting
  have length := exposes.tail.head
  have counted : (UInt8.ofNat value.length).toNat = value.length := by
    rw [UInt8.toNat_ofNat']
    exact Nat.mod_eq_of_lt short
  refine ⟨?_, ?_⟩
  · rintro ⟨rounds, visits, walked, same⟩
    obtain ⟨rounds', -, ⟨leaves, -, -⟩ | ⟨-, code', read, taken, steps⟩⟩ :=
      Walker.walk_cases walked
    · rw [stays] at leaves
      cases leaves
    · rw [exposes.head] at read
      cases read
      rw [goes] at steps
      rcases steps with ⟨stops, -⟩ | ⟨middle, len, rest, went, read, later, rfl⟩
      · cases stops
      · cases went
        rw [length] at read
        cases read
        rw [counted] at later
        rw [List.filter_cons_of_pos (by simpa using coded.1)] at same
        exact ⟨rounds', rest, later, (List.cons.inj same).2⟩
  · rintro ⟨rounds, visits, walked, same⟩
    refine ⟨rounds + 1, ⟨place, code, wanted code value⟩ :: visits, ?_, ?_⟩
    · rw [Walker.walk_of_goOn stays exposes.head goes length, counted, walked]
      rfl
    · rw [List.filter_cons_of_pos (by simpa using coded.1), same]
      rfl

/-- A pair of padding is taken for an option with no value. -/
theorem Serves.faithful_pads (serves : Serves walker wanted effect fits done lapsed)
    (exposes : Exposes memory place (encode ending (.pad :: .pad :: items)))
    (stays : walker.leave place = none) :
    Faithful walker wanted effect done lapsed memory ending place (.pad :: .pad :: items) state ↔
      Faithful walker wanted effect done lapsed memory ending (place + 2) items state := by
  have goes := serves.pad memory place state
  have length := exposes.tail.head
  refine ⟨?_, ?_⟩
  · rintro ⟨rounds, visits, walked, same⟩
    obtain ⟨rounds', -, ⟨leaves, -, -⟩ | ⟨-, code', read, taken, steps⟩⟩ :=
      Walker.walk_cases walked
    · rw [stays] at leaves
      cases leaves
    · rw [exposes.head] at read
      cases read
      rw [goes] at steps
      rcases steps with ⟨stops, -⟩ | ⟨middle, len, rest, went, read, later, rfl⟩
      · cases stops
      · cases went
        rw [length] at read
        cases read
        rw [List.filter_cons_of_neg (by simp)] at same
        exact ⟨rounds', rest, later, same⟩
  · rintro ⟨rounds, visits, walked, same⟩
    refine ⟨rounds + 1, ⟨place, PAD, []⟩ :: visits, ?_, ?_⟩
    · have step := Walker.walk_of_goOn stays exposes.head goes length rounds
      rw [show place + 2 + PAD.toNat = place + 2 from rfl, walked] at step
      exact step
    · rw [List.filter_cons_of_neg (by simp), same]
      rfl

theorem Serves.not_faithful_of_unfit (serves : Serves walker wanted effect fits done lapsed)
    {code : UInt8} {value : List UInt8} {coded : code ≠ PAD ∧ code ≠ END}
    {short : value.length < 256}
    (exposes : Exposes memory place (encode ending (.option code value coded short :: items)))
    (stays : walker.leave place = none) (unfitting : ¬ fits code value) :
    ¬ Faithful walker wanted effect done lapsed memory ending place
      (.option code value coded short :: items) state := by
  rintro ⟨rounds, visits, walked, same⟩
  obtain ⟨rounds', -, ⟨leaves, -, -⟩ | ⟨-, code', read, taken, steps⟩⟩ := Walker.walk_cases walked
  · rw [stays] at leaves
    cases leaves
  rw [exposes.head] at read
  cases read
  have other := fun next => serves.unfit state next taken coded exposes.tail.tail unfitting
  -- the visit of this option comes first
  rcases steps with ⟨stops, rfl⟩ | ⟨middle, len, rest, goes, -, -, rfl⟩
  · rcases other _ stops with wrong | ⟨result, state', equal, notDone, notLapsed⟩
    · rw [List.filter_cons_of_pos (by simpa using coded.1)] at same
      exact wrong (congrArg Visit.taken (List.cons.inj same).1)
    · cases equal
      cases ending with
      | packet => exact notLapsed rfl
      | option trailing => exact notDone rfl
  · rcases other _ goes with wrong | ⟨result, state', equal, -, -⟩
    · rw [List.filter_cons_of_pos (by simpa using coded.1)] at same
      exact wrong (congrArg Visit.taken (List.cons.inj same).1)
    · cases equal

/-- Behind a single byte of padding the loop loses what stands there. -/
theorem Serves.not_faithful_of_lone (serves : Serves walker wanted effect fits done lapsed)
    (exposes : Exposes memory place (encode ending (.pad :: items)))
    (stays : walker.leave place = none) (alone : ∀ rest, items ≠ .pad :: rest) :
    ¬ Faithful walker wanted effect done lapsed memory ending place (.pad :: items) state := by
  rintro ⟨rounds, visits, walked, same⟩
  obtain ⟨rounds', -, ⟨leaves, -, -⟩ | ⟨-, code', read, taken, steps⟩⟩ := Walker.walk_cases walked
  · rw [stays] at leaves
    cases leaves
  rw [exposes.head] at read
  cases read
  rw [serves.pad] at steps
  rcases steps with ⟨stops, -⟩ | ⟨middle, len, rest, went, read, later, rfl⟩
  · cases stops
  cases went
  rw [List.filter_cons_of_neg (by simp)] at same
  -- what stands at the next byte is found, and never visited
  have missed : ∀ one ∈ found ending (place + 1) items, one.place ≠ place + 1 ∨ len = 0 := by
    intro one member
    refine Classical.or_iff_not_imp_right.mpr fun long equal => ?_
    have visited : (⟨one.place, one.code, wanted one.code one.value⟩ : Visit) ∈
        rest.filter (·.code ≠ PAD) := by
      rw [same]
      exact List.mem_map.mpr ⟨one, member, rfl⟩
    have far := Walker.le_place_of_walk later _ (List.mem_filter.mp visited).1
    have positive : 0 < len.toNat := by
      rw [Nat.pos_iff_ne_zero]
      exact fun zero => long (UInt8.toNat_inj.mp zero)
    dsimp only at far
    omega
  cases items with
  | nil =>
    cases ending with
    | packet =>
      rw [exposes.tail.nil] at read
      cases read
    | option trailing =>
      have after := exposes.tail.head
      rw [read] at after
      cases after
      rcases missed _ List.mem_cons_self with elsewhere | zero
      · exact elsewhere rfl
      · exact absurd zero (by decide)
  | cons item others =>
    cases item with
    | pad => exact alone others rfl
    | option code value coded short =>
      have after := exposes.tail.head
      rw [read] at after
      cases after
      rcases missed _ List.mem_cons_self with elsewhere | zero
      · exact elsewhere rfl
      · exact coded.1 zero

theorem Serves.faithful_iff (serves : Serves walker wanted effect fits done lapsed)
    (exposes : Exposes memory place (encode ending items))
    (within : Within walker place (encode ending items).length) :
    Faithful walker wanted effect done lapsed memory ending place items state ↔
      Paired items ∧ All fits items ∧ (ending = .packet →
        walker.leave (place + (encode ending items).length) = some lapsed) := by
  induction items using Paired.induct generalizing place state with
  | case1 =>
    rw [serves.faithful_nil exposes within]
    refine ⟨fun leaves => ⟨trivial, trivial, ?_⟩, fun ⟨_, _, leaves⟩ => ?_⟩
    · rintro rfl
      exact leaves rfl
    · rintro rfl
      exact leaves rfl
  | case2 =>
    refine iff_of_false ?_ fun ⟨paired, _⟩ => paired
    exact serves.not_faithful_of_lone exposes (within.head (Nat.succ_pos _)) fun rest equal => by
      cases equal
  | case3 rest inductionHypothesis =>
    have length : (encode ending (.pad :: .pad :: rest)).length =
        2 + (encode ending rest).length := by
      show (encode ending rest).length + 1 + 1 = _
      omega
    rw [serves.faithful_pads exposes (within.head (Nat.succ_pos _)),
      inductionHypothesis exposes.tail.tail (within.skip length), length, ← Nat.add_assoc]
    rfl
  | case4 code value coded short rest =>
    refine iff_of_false ?_ fun ⟨paired, _⟩ => paired
    exact serves.not_faithful_of_lone exposes (within.head (Nat.succ_pos _)) fun rest equal => by
      cases equal
  | case5 code value coded short rest inductionHypothesis =>
    have length : (encode ending (.option code value coded short :: rest)).length =
        (2 + value.length) + (encode ending rest).length := by
      show ((value ++ encode ending rest).length + 1 + 1) = _
      rw [List.length_append]
      omega
    by_cases fitting : fits code value
    · have shifted : Within walker (place + 2 + value.length) (encode ending rest).length := by
        rw [Nat.add_assoc]
        exact within.skip length
      rw [serves.faithful_option exposes (within.head (Nat.succ_pos _)) fitting,
        inductionHypothesis exposes.tail.tail.skip shifted, length, ← Nat.add_assoc,
        ← Nat.add_assoc]
      exact and_congr_right fun _ => and_congr_left fun _ =>
        ⟨fun all => ⟨fitting, all⟩, fun all => all.2⟩
    · refine iff_of_false ?_ fun ⟨_, all, _⟩ => fitting all.1
      exact serves.not_faithful_of_unfit exposes (within.head (Nat.succ_pos _)) fitting

end

end Frobio.TypeLengthValue
