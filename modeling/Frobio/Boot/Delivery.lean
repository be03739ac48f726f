/-
This file models how a boot image is delivered: `BuildConfig` of `lemmings/main.go` writes it in
chunks, and the module of `drivers/boot_lemma.asm` reads them into the memory that it requests.

The locals of `Tcp1Read` on the stack are values here, and the variables of the module in page 0
are cells of the memory.
-/

import Frobio.Tcp1.Rings

namespace Frobio.Boot

open Coms Memory Frobio.Ring Axcore Tcp1

/-! ### The writer -/

def quint (cmd : UInt8) (n p : Nat) : List UInt8 := [cmd, hi n, lo n, hi p, lo p]

def chunksOf (bb : List UInt8) : List (List UInt8) :=
  if bb.length = 0 then []
  else
    let n := if bb.length > 444 then 444 else bb.length
    bb.take n :: chunksOf (bb.drop n)
termination_by bb.length
decreasing_by
  rw [List.length_drop]
  split
  · omega
  · omega

def emitChunk (chunk : List UInt8) : List UInt8 := quint 212 chunk.length 0 ++ chunk

/-- What `BuildConfig` writes after the launch quint. -/
def emitB2 (b2 : List UInt8) : List UInt8 :=
  quint 211 b2.length 0 ++ ((chunksOf b2).flatMap emitChunk ++ quint 213 b2.length 0)

/-! ### The module -/

def BeginPtr : Nat := 0x12
def CurrPtr : Nat := 0x14
def QuintPtr : Nat := 0x16
def QuintN : Nat := 0x17
def QuintSize : Nat := 5

def Q_BfEnd : UInt8 := 213

def word (ram : Nat → UInt8) (addr : Nat) : Nat := hiLo (ram addr) (ram (addr + 1))

def setWord (ram : Nat → UInt8) (addr value : Nat) : Nat → UInt8 := store ram addr [hi value, lo value]

section

variable (schedule : Nat → List Event)

def readQuint (rounds : Nat) (m : Machine) : Option Machine :=
  tcp1Read schedule bootWay rounds m QuintPtr QuintSize

/-- `CurrPtr` goes on behind the chunk. -/
def advanceCurr (m : Machine) : Machine :=
  ⟨m.world, setWord m.ram CurrPtr ((word m.ram CurrPtr + word m.ram QuintN) % 65536)⟩

def loopLemma : Nat → Machine → Option Machine
  | 0, _ => none
  | rounds + 1, m =>
    (readQuint schedule rounds m).bind fun m =>
      if m.ram QuintPtr = Q_BfEnd then some m
      else
        (tcp1Read schedule bootWay rounds m (word m.ram CurrPtr) (word m.ram QuintN)).bind fun m =>
          loopLemma rounds (advanceCurr m)

/-- What the module returns to the kernel. -/
structure Booted where
  x : Nat
  d : Nat
  machine : Machine

/-- `F$SRqMem` grants memory at `u`, for the size in D. -/
def start (srqMem : Nat → Nat) (rounds : Nat) (m : Machine) : Option Booted :=
  (readQuint schedule rounds m).bind fun m =>
    let u := srqMem (word m.ram QuintN)
    (loopLemma schedule rounds ⟨m.world, setWord (setWord m.ram BeginPtr u) CurrPtr u⟩).map fun m =>
      ⟨word m.ram BeginPtr, word m.ram QuintN, m⟩

end

/-- The variables of the module. -/
def Own (a : Nat) : Prop := BeginPtr ≤ a ∧ a < QuintPtr + QuintSize

instance (a : Nat) : Decidable (Own a) := inferInstanceAs (Decidable (_ ∧ _))

/-- The memory granted is there, and the variables are not in it. -/
structure Granted (u size : Nat) : Prop where
  fits : u + size ≤ SPACE
  apart : ∀ a, u ≤ a → a < u + size → ¬Own a

/-- The image is in the memory granted, and nothing else is written but the variables; the stream is
consumed up to what comes later. -/
structure Delivered (m : Machine) (u : Nat) (b2 later : List UInt8) (b : Booted) : Prop where
  x : b.x = u
  d : b.d = b2.length
  image : load b.machine.ram u b2.length = b2
  kept : ∀ a, ¬Own a → ¬(u ≤ a ∧ a < u + b2.length) → b.machine.ram a = m.ram a
  consumed : b.machine.world.chip.inStream sock1 = later
  silent : b.machine.world.chip.outStream sock1 = m.world.chip.outStream sock1

/-! ### Chunks -/

theorem chunksOf_nil : chunksOf [] = [] := by
  rw [chunksOf, if_pos List.length_nil]

theorem chunksOf_cons {bb : List UInt8} (some : bb.length ≠ 0) :
    chunksOf bb = bb.take (min 444 bb.length) :: chunksOf (bb.drop (min 444 bb.length)) := by
  rw [chunksOf, if_neg some]
  have n : (if bb.length > 444 then 444 else bb.length) = min 444 bb.length := by
    split
    · omega
    · omega
  dsimp only
  rw [n]

/-- The chunks are the image, and none is empty or longer than 444 bytes. -/
theorem chunksOf_eq (bb : List UInt8) : (chunksOf bb).flatten = bb ∧
    ∀ chunk ∈ chunksOf bb, 0 < chunk.length ∧ chunk.length ≤ 444 := by
  induction bb using chunksOf.induct with
  | case1 bb empty =>
    rw [List.length_eq_zero_iff.mp empty, chunksOf_nil]
    exact ⟨rfl, nofun⟩
  | case2 bb some n inductionHypothesis =>
    have same : n = min 444 bb.length := by
      show (if bb.length > 444 then 444 else bb.length) = _
      split
      · omega
      · omega
    rw [same] at inductionHypothesis
    rw [chunksOf_cons some]
    refine ⟨?_, ?_⟩
    · rw [List.flatten_cons, inductionHypothesis.1, List.take_append_drop]
    · intro chunk member
      rcases List.mem_cons.mp member with rfl | later
      · rw [List.length_take]
        omega
      · exact inductionHypothesis.2 chunk later

section

variable {schedule : Nat → List Event} {m m' : Machine} {ram : Nat → UInt8} {u size : Nat}
  {loaded pending chunk q : List UInt8}

/-! ### Words in page 0 -/

theorem word_setWord (ram : Nat → UInt8) {addr value : Nat} (small : value < 65536) :
    word (setWord ram addr value) addr = value := by
  have high : store ram addr [hi value, lo value] (addr + 0) = hi value :=
    store_apply_of_lt ram (Nat.zero_lt_succ 1)
  have low : store ram addr [hi value, lo value] (addr + 1) = lo value :=
    store_apply_of_lt ram (Nat.lt_succ_self 1)
  rw [word, setWord, low]
  rw [Nat.add_zero] at high
  rw [high, hiLo_hi_lo, Nat.mod_eq_of_lt small]

theorem setWord_of_apart (ram : Nat → UInt8) {addr value a : Nat} (apart : a < addr ∨ addr + 2 ≤ a) :
    setWord ram addr value a = ram a := by
  rcases apart with before | after
  · exact store_apply_of_before ram _ before
  · exact store_apply_of_after ram after

theorem word_congr {ram ram' : Nat → UInt8} {addr : Nat} (first : ram' addr = ram addr)
    (second : ram' (addr + 1) = ram (addr + 1)) : word ram' addr = word ram addr := by
  rw [word, word, first, second]

/-! ### Reading a quint, and a chunk -/

/-- Some of the image is in the memory granted, and this comes on the stream. -/
structure Loading (ram : Nat → UInt8) (out : List UInt8) (u size : Nat) (loaded pending : List UInt8)
    (m : Machine) : Prop where
  idle : Idle m.world.chip
  begins : word m.ram BeginPtr = u
  curr : word m.ram CurrPtr = (u + loaded.length) % 65536
  within : loaded.length ≤ size
  image : load m.ram u loaded.length = loaded
  kept : ∀ a, ¬Own a → ¬(u ≤ a ∧ a < u + size) → m.ram a = ram a
  stream : m.world.chip.inStream sock1 = pending
  silent : m.world.chip.outStream sock1 = out

/-- A quint is read into page 0, and the rest stays. -/
theorem moves_readQuint {rounds : Nat} (idle : Idle m.world.chip)
    (stream : m.world.chip.inStream sock1 = q ++ pending) (five : q.length = QuintSize)
    (read : readQuint schedule rounds m = some m') :
    Moves sock1 m.world.chip m'.world.chip [] q ∧ m'.ram = store m.ram QuintPtr q := by
  obtain ⟨bytes, length, moves, after⟩ :=
    moves_tcp1Read exact_bootWay idle (by decide) (by decide) read
  have same : bytes = q := by
    have both := moves.inStream
    rw [stream] at both
    exact (List.append_inj_left both (by rw [length, five])).symm
  subst same
  refine ⟨moves, ?_⟩
  rw [after, put_eq_store (by rw [length]; decide), Nat.zero_add]

theorem Loading.takeQuint {out : List UInt8} {rounds : Nat}
    (loading : Loading ram out u size loaded (q ++ pending) m) (granted : Granted u size)
    (five : q.length = QuintSize) (read : readQuint schedule rounds m = some m') :
    Loading ram out u size loaded pending m' ∧ ∀ i < 5, m'.ram (QuintPtr + i) = q.getD i 0 := by
  obtain ⟨moves, after⟩ := moves_readQuint loading.idle loading.stream five read
  have before : ∀ a, a < QuintPtr ∨ QuintPtr + QuintSize ≤ a → m'.ram a = m.ram a := by
    intro a apart
    rw [after]
    rcases apart with low | high
    · exact store_apply_of_before _ _ low
    · exact store_apply_of_after _ (by rw [five]; exact high)
  have notOwn : ∀ a, ¬Own a → m'.ram a = m.ram a := by
    intro a other
    refine before a ?_
    simp only [Own, BeginPtr, QuintPtr, QuintSize] at *
    omega
  refine ⟨⟨moves.idle, ?_, ?_, loading.within, ?_, ?_, ?_, ?_⟩, ?_⟩
  · rw [word_congr (before _ (by decide)) (before _ (by decide))]
    exact loading.begins
  · rw [word_congr (before _ (by decide)) (before _ (by decide))]
    exact loading.curr
  · refine (load_congr fun i below => notOwn _ ?_).trans loading.image
    have within := loading.within
    exact granted.apart _ (Nat.le_add_right _ _) (by omega)
  · exact fun a other outside => (notOwn a other).trans (loading.kept a other outside)
  · have both := moves.inStream
    rw [loading.stream] at both
    exact (List.append_cancel_left both).symm
  · rw [moves.outStream, List.append_nil]
    exact loading.silent
  · intro i below
    have long : i < q.length := by
      rw [five]
      exact below
    rw [after, store_apply_of_lt _ long, List.getD_eq_getElem?_getD, List.getElem?_eq_getElem long,
      Option.getD_some]

/-- A chunk is read behind what is there already. -/
theorem Loading.takeChunk {out : List UInt8} {rounds : Nat}
    (loading : Loading ram out u size loaded (chunk ++ pending) m) (granted : Granted u size)
    (positive : 0 < chunk.length) (more : loaded.length + chunk.length ≤ size)
    (announced : word m.ram QuintN = chunk.length)
    (read : tcp1Read schedule bootWay rounds m (word m.ram CurrPtr) (word m.ram QuintN) = some m') :
    Loading ram out u size (loaded ++ chunk) pending (advanceCurr m') := by
  have fits := granted.fits
  have here : word m.ram CurrPtr = u + loaded.length := by
    rw [loading.curr]
    simp only [SPACE] at fits
    omega
  rw [here, announced] at read
  have inside : u + loaded.length < SPACE := by omega
  obtain ⟨bytes, length, moves, after⟩ :=
    moves_tcp1Read exact_bootWay loading.idle inside positive read
  have same : bytes = chunk := by
    have both := moves.inStream
    rw [loading.stream] at both
    exact (List.append_inj_left both length.symm).symm
  subst same
  rw [put_eq_store (by omega), Nat.zero_add] at after
  have before : ∀ a, a < u + loaded.length ∨ u + loaded.length + bytes.length ≤ a →
      m'.ram a = m.ram a := by
    intro a apart
    rw [after]
    rcases apart with low | high
    · exact store_apply_of_before _ _ low
    · exact store_apply_of_after _ high
  have own : ∀ a, Own a → m'.ram a = m.ram a := by
    intro a mine
    refine before a ?_
    by_contra inside
    exact granted.apart a (by omega) (by omega) mine
  have begins := word_congr (own BeginPtr (by decide)) (own (BeginPtr + 1) (by decide))
  have curr := word_congr (own CurrPtr (by decide)) (own (CurrPtr + 1) (by decide))
  have quintN := word_congr (own QuintN (by decide)) (own (QuintN + 1) (by decide))
  have advanced : ∀ a, a < CurrPtr ∨ CurrPtr + 2 ≤ a → (advanceCurr m').ram a = m'.ram a :=
    fun a apart => setWord_of_apart _ apart
  have notOwn : ∀ a, ¬Own a → (advanceCurr m').ram a = m'.ram a := by
    intro a other
    refine advanced a ?_
    simp only [Own, BeginPtr, CurrPtr, QuintPtr, QuintSize] at *
    omega
  have total : (loaded ++ bytes).length = loaded.length + bytes.length := List.length_append
  refine ⟨moves.idle, ?_, ?_, ?_, ?_, ?_, ?_, ?_⟩
  · rw [word_congr (advanced _ (by decide)) (advanced _ (by decide)), begins]
    exact loading.begins
  · rw [advanceCurr]
    dsimp only
    rw [word_setWord _ (Nat.mod_lt _ (by decide)), curr, quintN, here, announced, total,
      Nat.add_assoc]
  · rw [total]
    exact more
  · have there : load (advanceCurr m').ram u (loaded ++ bytes).length =
        load m'.ram u (loaded ++ bytes).length := by
      refine load_congr fun i below => notOwn _ (granted.apart _ (Nat.le_add_right _ _) ?_)
      omega
    rw [there, total, load_add]
    have first : load m'.ram u loaded.length = loaded :=
      (load_congr fun i below => before _ (.inl (by omega))).trans loading.image
    rw [first, after, load_store_self]
  · intro a other outside
    rw [notOwn a other, before a (by omega)]
    exact loading.kept a other outside
  · have both := moves.inStream
    rw [loading.stream] at both
    exact (List.append_cancel_left both).symm
  · exact (moves.outStream.trans (List.append_nil _)).trans loading.silent

/-! ### All chunks -/

variable {chunks : List (List UInt8)} {later out : List UInt8}

/-- The command and the size of a quint that was read. -/
theorem quint_fields {cmd : UInt8} {n p : Nat} (small : n < 65536)
    (there : ∀ i < 5, m.ram (QuintPtr + i) = (quint cmd n p).getD i 0) :
    m.ram QuintPtr = cmd ∧ word m.ram QuintN = n := by
  have first : m.ram (QuintPtr + 1) = hi n := there 1 (by decide)
  have second : m.ram (QuintPtr + 2) = lo n := there 2 (by decide)
  refine ⟨there 0 (by decide), ?_⟩
  show hiLo (m.ram (QuintPtr + 1)) (m.ram (QuintPtr + 2)) = n
  rw [first, second, hiLo_hi_lo, Nat.mod_eq_of_lt small]

/-- The chunks that are still to come make the image full. -/
structure Rest (size : Nat) (loaded : List UInt8) (chunks : List (List UInt8)) : Prop where
  full : loaded.length + chunks.flatten.length = size
  sized : ∀ chunk ∈ chunks, 0 < chunk.length ∧ chunk.length ≤ 444

theorem Rest.cons (rest : Rest size loaded (chunk :: chunks)) :
    Rest size (loaded ++ chunk) chunks where
  full := by
    have full := rest.full
    rw [List.flatten_cons, List.length_append] at full
    rw [List.length_append]
    omega
  sized other member := rest.sized other (List.mem_cons_of_mem _ member)

theorem stream_cons (chunk : List UInt8) (chunks : List (List UInt8)) (pending : List UInt8) :
    (chunk :: chunks).flatMap emitChunk ++ pending =
      quint 212 chunk.length 0 ++ (chunk ++ (chunks.flatMap emitChunk ++ pending)) := by
  rw [List.flatMap_cons, emitChunk, List.append_assoc, List.append_assoc]

/-- After its quint, a chunk is read. -/
theorem Rest.announced (rest : Rest size loaded (chunk :: chunks))
    (there : ∀ i < 5, m.ram (QuintPtr + i) = (quint 212 chunk.length 0).getD i 0) :
    m.ram QuintPtr ≠ Q_BfEnd ∧ word m.ram QuintN = chunk.length ∧ 0 < chunk.length ∧
      chunk.length ≤ 444 ∧ loaded.length + chunk.length ≤ size := by
  obtain ⟨positive, short⟩ := rest.sized chunk List.mem_cons_self
  obtain ⟨command, n⟩ := quint_fields (by omega) there
  have full := rest.full
  rw [List.flatten_cons, List.length_append] at full
  refine ⟨?_, n, positive, short, by omega⟩
  rw [command]
  decide

theorem Loading.loop {rounds n : Nat} (granted : Granted u size) (small : n < 65536)
    (loading : Loading ram out u size loaded
      (chunks.flatMap emitChunk ++ (quint 213 n 0 ++ later)) m)
    (rest : Rest size loaded chunks) (looped : loopLemma schedule rounds m = some m') :
    Loading ram out u size (loaded ++ chunks.flatten) later m' ∧ word m'.ram QuintN = n := by
  induction chunks generalizing rounds loaded m with
  | nil =>
    rw [List.flatMap_nil, List.nil_append] at loading
    cases rounds with
    | zero => cases looped
    | succ rounds =>
      rw [loopLemma] at looped
      obtain ⟨m₁, read, onward⟩ := Option.bind_eq_some_iff.mp looped
      obtain ⟨loading₁, there⟩ := loading.takeQuint granted rfl read
      obtain ⟨command, size'⟩ := quint_fields small there
      have last : m₁.ram QuintPtr = Q_BfEnd := command
      rw [if_pos last, Option.some.injEq] at onward
      subst onward
      rw [List.flatten_nil, List.append_nil]
      exact ⟨loading₁, size'⟩
  | cons chunk chunks inductionHypothesis =>
    cases rounds with
    | zero => cases looped
    | succ rounds =>
      rw [loopLemma] at looped
      rw [stream_cons] at loading
      obtain ⟨m₁, read, onward⟩ := Option.bind_eq_some_iff.mp looped
      obtain ⟨loading₁, there⟩ := loading.takeQuint granted rfl read
      obtain ⟨goesOn, n', positive, -, more⟩ := rest.announced there
      rw [if_neg goesOn] at onward
      obtain ⟨m₂, taken, onward⟩ := Option.bind_eq_some_iff.mp onward
      have loading₂ := loading₁.takeChunk granted positive more n' taken
      have last := inductionHypothesis loading₂ rest.cons onward
      rw [List.flatten_cons, ← List.append_assoc]
      exact last

/-- More rounds do no harm. -/
theorem loopLemma_add {rounds : Nat} (more : Nat) (looped : loopLemma schedule rounds m = some m') :
    loopLemma schedule (rounds + more) m = some m' := by
  induction rounds generalizing m with
  | zero => cases looped
  | succ rounds inductionHypothesis =>
    rw [Nat.add_right_comm]
    rw [loopLemma] at looped ⊢
    obtain ⟨m₁, read, onward⟩ := Option.bind_eq_some_iff.mp looped
    refine Option.bind_eq_some_iff.mpr ⟨m₁, tcp1Read_add more read, ?_⟩
    split at onward
    · rename_i last
      rw [if_pos last]
      exact onward
    · rename_i goesOn
      obtain ⟨m₂, taken, onward⟩ := Option.bind_eq_some_iff.mp onward
      rw [if_neg goesOn]
      exact Option.bind_eq_some_iff.mpr
        ⟨m₂, tcp1Read_add more taken, inductionHypothesis onward⟩

theorem Loading.exists_readQuint (lively : Lively schedule)
    (loading : Loading ram out u size loaded (q ++ pending) m) (five : q.length = QuintSize) :
    ∃ rounds m', Boot.readQuint schedule rounds m = some m' := by
  refine exists_tcp1Read lively bootWay loading.idle.sane (by decide) ?_ QuintPtr
  rw [loading.stream, List.length_append, five]
  exact Nat.le_add_right _ _

theorem Loading.exists_loop {n : Nat} (lively : Lively schedule) (granted : Granted u size)
    (small : n < 65536) (loading : Loading ram out u size loaded
      (chunks.flatMap emitChunk ++ (quint 213 n 0 ++ later)) m)
    (rest : Rest size loaded chunks) : ∃ rounds m', loopLemma schedule rounds m = some m' := by
  induction chunks generalizing loaded m with
  | nil =>
    rw [List.flatMap_nil, List.nil_append] at loading
    obtain ⟨rounds, m₁, read⟩ := loading.exists_readQuint lively rfl
    obtain ⟨-, there⟩ := loading.takeQuint granted rfl read
    have last : m₁.ram QuintPtr = Q_BfEnd := (quint_fields small there).1
    refine ⟨rounds + 1, m₁, ?_⟩
    rw [loopLemma, read, Option.bind_some, if_pos last]
  | cons chunk chunks inductionHypothesis =>
    rw [stream_cons] at loading
    obtain ⟨rounds, m₁, read⟩ := loading.exists_readQuint lively rfl
    obtain ⟨loading₁, there⟩ := loading.takeQuint granted rfl read
    obtain ⟨goesOn, n', positive, short, more⟩ := rest.announced there
    obtain ⟨rounds', m₂, taken⟩ := exists_tcp1Read lively bootWay loading₁.idle.sane
      (show word m₁.ram QuintN ≤ RING_SIZE by rw [n']; exact short.trans (by decide))
      (by rw [loading₁.stream, List.length_append, n']; exact Nat.le_add_right _ _)
      (word m₁.ram CurrPtr)
    have loading₂ := loading₁.takeChunk granted positive more n' taken
    obtain ⟨rounds'', m₃, looped⟩ := inductionHypothesis loading₂ rest.cons
    refine ⟨rounds + rounds' + rounds'' + 1, m₃, ?_⟩
    have first := tcp1Read_add (rounds' + rounds'') read
    have second := tcp1Read_add (rounds + rounds'') taken
    have third := loopLemma_add (rounds + rounds') looped
    rw [← Nat.add_assoc] at first
    rw [show rounds' + (rounds + rounds'') = rounds + rounds' + rounds'' by omega] at second
    rw [show rounds'' + (rounds + rounds') = rounds + rounds' + rounds'' by omega] at third
    rw [loopLemma, Boot.readQuint, first, Option.bind_some, if_neg goesOn, second,
      Option.bind_some, third]

/-! ### The whole delivery -/

/-- Page 0, once the memory is granted. -/
def granted₀ (u : Nat) (m : Machine) : Machine :=
  ⟨m.world, setWord (setWord m.ram BeginPtr u) CurrPtr u⟩

theorem loading_start {rounds n : Nat} (idle : Idle m.world.chip) (granted : Granted u size)
    (positive : 0 < size) (small : n < 65536)
    (stream : m.world.chip.inStream sock1 = quint 211 n 0 ++ pending)
    (read : readQuint schedule rounds m = some m') :
    word m'.ram QuintN = n ∧
      Loading m.ram (m.world.chip.outStream sock1) u size [] pending (granted₀ u m') := by
  obtain ⟨moves, after⟩ := moves_readQuint idle stream rfl read
  have fits := granted.fits
  have inside : u < 65536 := by
    simp only [SPACE] at fits
    omega
  have there : ∀ i < 5, m'.ram (QuintPtr + i) = (quint 211 n 0).getD i 0 := by
    intro i below
    have long : i < (quint 211 n 0).length := below
    rw [after, store_apply_of_lt _ long, List.getD_eq_getElem?_getD, List.getElem?_eq_getElem long,
      Option.getD_some]
  have own : ∀ a, ¬Own a → (granted₀ u m').ram a = m.ram a := by
    intro a other
    simp only [Own, BeginPtr, QuintPtr, QuintSize] at other
    have apart : a < QuintPtr ∨ QuintPtr + (quint 211 n 0).length ≤ a := by
      show a < 0x16 ∨ 0x16 + 5 ≤ a
      omega
    rw [granted₀]
    dsimp only
    rw [setWord_of_apart _ (by simp only [CurrPtr]; omega),
      setWord_of_apart _ (by simp only [BeginPtr]; omega), after]
    rcases apart with low | high
    · exact store_apply_of_before _ _ low
    · exact store_apply_of_after _ high
  refine ⟨(quint_fields small there).2, moves.idle, ?_, ?_, Nat.zero_le _, rfl, ?_, ?_, ?_⟩
  · have apart : ∀ a, a < CurrPtr → (granted₀ u m').ram a = setWord m'.ram BeginPtr u a :=
      fun a low => setWord_of_apart _ (.inl low)
    rw [word_congr (apart BeginPtr (by decide)) (apart (BeginPtr + 1) (by decide)),
      word_setWord _ inside]
  · rw [granted₀]
    dsimp only
    rw [word_setWord _ inside]
    exact (Nat.mod_eq_of_lt inside).symm
  · exact fun a other _ => own a other
  · have both := moves.inStream
    rw [stream] at both
    exact (List.append_cancel_left both).symm
  · exact moves.outStream.trans (List.append_nil _)

/-- The module takes the image just as it is written, whatever the pointers of the chip are and
however the bytes arrive; and it returns if the chip goes on. -/
theorem start_delivers (schedule : Nat → List Event) {m : Machine} (idle : Idle m.world.chip)
    {b2 later : List UInt8} (positive : 0 < b2.length) (short : b2.length < 65536)
    (stream : m.world.chip.inStream sock1 = emitB2 b2 ++ later) {srqMem : Nat → Nat}
    (granted : Granted (srqMem b2.length) b2.length) :
    (∀ rounds booted, start schedule srqMem rounds m = some booted →
      Delivered m (srqMem b2.length) b2 later booted) ∧
    (Lively schedule → ∃ rounds booted, start schedule srqMem rounds m = some booted) := by
  obtain ⟨flat, sized⟩ := chunksOf_eq b2
  have rest : Rest b2.length [] (chunksOf b2) := ⟨by rw [flat]; exact Nat.zero_add _, sized⟩
  rw [emitB2, List.append_assoc, List.append_assoc] at stream
  constructor
  · intro rounds booted started
    rw [start] at started
    obtain ⟨m₁, read, onward⟩ := Option.bind_eq_some_iff.mp started
    obtain ⟨n, loading⟩ := loading_start idle granted positive short stream read
    dsimp only at onward
    rw [n] at onward
    obtain ⟨m₂, looped, rfl⟩ := Option.map_eq_some_iff.mp onward
    obtain ⟨last, n'⟩ := loading.loop granted short rest looped
    rw [List.nil_append, flat] at last
    exact ⟨last.begins, n', last.image, last.kept, last.stream, last.silent⟩
  · intro lively
    obtain ⟨rounds, m₁, read⟩ := exists_tcp1Read lively bootWay idle.sane
      (show QuintSize ≤ RING_SIZE by decide)
      (by rw [stream, List.length_append]; exact Nat.le_add_right _ _) QuintPtr
    obtain ⟨n, loading⟩ := loading_start idle granted positive short stream read
    obtain ⟨rounds', m₂, looped⟩ := loading.exists_loop lively granted short rest
    refine ⟨rounds + rounds', ⟨word m₂.ram BeginPtr, word m₂.ram QuintN, m₂⟩, ?_⟩
    have first := tcp1Read_add rounds' read
    have second := loopLemma_add rounds looped
    rw [Nat.add_comm rounds' rounds] at second
    rw [start, readQuint, first, Option.bind_some]
    dsimp only
    rw [n]
    exact Option.map_eq_some_iff.mpr ⟨m₂, second, rfl⟩

end

/-- Nothing is read yet of an image of three bytes, and the pointers are at the end of the ring. -/
def threeBytes : Machine where
  world :=
    ⟨⟨fun _ => 0, 2047, 2047, 2047, 2047, 2047, 2047, 0, [], emitB2 [1, 2, 3]⟩, 0⟩
  ram _ := 0

theorem idle_threeBytes : Idle threeBytes.world.chip :=
  ⟨⟨by decide, by decide, by decide, by decide, by decide, by decide⟩, rfl, rfl⟩

theorem start_delivers_threeBytes :
    (∀ rounds booted, start everyTurn (fun _ => 0x5000) rounds threeBytes = some booted →
      Delivered threeBytes 0x5000 [1, 2, 3] [] booted) ∧
    (Lively everyTurn →
      ∃ rounds booted, start everyTurn (fun _ => 0x5000) rounds threeBytes = some booted) := by
  have granted : Granted 0x5000 3 := by
    refine ⟨by decide, fun a low _ own => ?_⟩
    simp only [Own, BeginPtr, QuintPtr, QuintSize] at own
    omega
  have stream : threeBytes.world.chip.inStream sock1 = emitB2 [1, 2, 3] ++ [] :=
    (List.append_nil _).symm
  exact @start_delivers everyTurn threeBytes idle_threeBytes [1, 2, 3] [] (by decide) (by decide)
    stream (fun _ => 0x5000) granted

end Frobio.Boot
