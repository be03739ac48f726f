/-
This file models the two loops that burn the EEPROM: `Burn` of `burning/burn-decb.c`, which
takes its bytes from the network and collects each chunk in `CASBUF` first, and `EepromBurn`
of `metal/eeprom.h`, which copies from RAM.

The chip takes at most one page of 64 bytes between two delays, so what is observed of a run
is the list of its pokes, cut at the delays. Some of the pokes of `Burn` go to cells of its
own, the first 64 of `CASBUF` and two fields of the screen; all others are for the chip. The
invariant keeps the bytes of the finished chunks and those of the current one apart, because
only the current one still has to fit into its page.
-/

import Mathlib.Data.List.Basic
import Mathlib.Tactic
import Frobio.Lib.Loop
import Frobio.Lib.Memory

namespace Frobio.Eeprom

open Loop Memory

/-! ### What is observed -/

/-- The memory; the bytes taken from the source so far, each with its place there; and the
pokes, byte and address, since the last delay and those of each chunk before it. -/
structure World where
  memory : Nat → UInt8
  taken : List (Nat × UInt8)
  chunk : List (UInt8 × Nat)
  chunks : List (List (UInt8 × Nat))

def started (memory : Nat → UInt8) : World := ⟨memory, [], [], []⟩

def POKE1 (w : World) (a : Nat) (x : UInt8) : World :=
  { w with memory := Function.update w.memory a x, chunk := w.chunk ++ [(x, a)] }

def Delay (w : World) : World := { w with chunk := [], chunks := w.chunks ++ [w.chunk] }

def World.take (w : World) (place : Nat) (byte : UInt8) : World :=
  { w with taken := w.taken ++ [(place, byte)] }

/-! ### The loops -/

/-- The most that can be burned from `p` on in one chunk, but not more than `n`. -/
def chunkSize (p n : Nat) : Nat :=
  let size := 64 - (63 &&& p % 256)
  if n < size then n % 256 else size

def CASBUF : Nat := 0x01DA

/-- The digits as the screen shows them. -/
def Hex : List UInt8 := [48, 49, 50, 51, 52, 53, 54, 55, 56, 57, 1, 2, 3, 4, 5, 6]

def PrintHex (w : World) (loc val : Nat) : World :=
  let a := 15 &&& val >>> 12
  let b := 15 &&& val >>> 8
  let c := 15 &&& val >>> 4
  let d := 15 &&& val
  let shown := [32, 40, Hex.getD a 0, Hex.getD b 0, Hex.getD c 0, Hex.getD d 0, 41, 32]
  (shown.zipIdx loc).foldl (fun w poke => POKE1 w poke.2 poke.1) w

/-- The bytes come from the network in the order in which they were sent; where none is
there yet, `Recv` waits. -/
def Recv (sent : Nat → UInt8) (w : World) : UInt8 × World :=
  (sent w.taken.length, w.take w.taken.length (sent w.taken.length))

/-- One round of the loop of `Burn`. -/
def burnRound (sent : Nat → UInt8) : Nat × Nat × World → Option (Nat × Nat × World)
  | (n, p, w) =>
    let size := chunkSize p n
    (forLoop (fun w i => some (POKE1 (Recv sent w).2 (CASBUF + i) (Recv sent w).1)) 0 size
      (PrintHex (PrintHex w 0x520 n) 0x528 p)).bind fun w =>
    (forLoop (fun w i => some (POKE1 w ((p + i) % 65536) (w.memory (CASBUF + i)))) 0 size
      w).bind fun w =>
    some ((n + 65536 - size) % 65536, (p + size) % 65536, Delay w)

def Burn (sent : Nat → UInt8) (rounds n p : Nat) (w : World) : Option World :=
  (whileLoop (fun state => state.1 ≠ 0) (burnRound sent) rounds (n, p, w)).map
    fun (n, p, w) => PrintHex (PrintHex w 0x520 n) 0x528 p

/-- One round of the loop of `EepromBurn`. -/
def eepromBurnRound : Nat × Nat × Nat × World → Option (Nat × Nat × Nat × World)
  | (n, dest, src_ptr, w) =>
    let size := chunkSize dest n
    (forLoop (fun state i =>
      let byte := state.2.memory state.1
      some ((state.1 + 1) % 65536,
        POKE1 (state.2.take state.1 byte) ((dest + i) % 65536) byte)) 0 size
      (src_ptr, w)).bind fun (src_ptr, w) =>
    some ((n + 65536 - size) % 65536, (dest + size) % 65536, src_ptr, Delay w)

def EepromBurn (rounds dest src n : Nat) (w : World) : Option World :=
  (whileLoop (fun state => state.1 ≠ 0) eepromBurnRound rounds (n, dest, src % 65536, w)).map
    fun state => state.2.2.2

/-! ### What a run has to do -/

/-- The cells that `Burn` itself works in: the 64 of the staging buffer and the two fields of
the screen. The chip is in none of them; it starts at `$C000`. -/
def ownCell (a : Nat) : Bool :=
  (CASBUF ≤ a && a < CASBUF + 64) || (0x520 ≤ a && a < 0x530)

/-- The pokes of a list that go elsewhere than to own cells. -/
def foreign (own : Nat → Bool) (pokes : List (UInt8 × Nat)) : List (UInt8 × Nat) :=
  pokes.filter fun poke => !own poke.2

/-- What the chip gets in the chunk are consecutive cells of one page. -/
def InPage (own : Nat → Bool) (chunk : List (UInt8 × Nat)) : Prop :=
  ∃ (data : List UInt8) (address : Nat), foreign own chunk = data.zipIdx address ∧
    address % 64 + data.length ≤ 64

/-- The bytes, in their order and each at its place, are all that was poked elsewhere than
to own cells, and no chunk leaves its page. -/
structure Burnt (own : Nat → Bool) (memory : Nat → UInt8) (dest : Nat) (bytes : List UInt8)
    (final : World) : Prop where
  poked : foreign own (final.chunks.flatten ++ final.chunk) = bytes.zipIdx dest
  pages : ∀ chunk ∈ final.chunks ++ [final.chunk], InPage own chunk
  stands : load final.memory dest bytes.length = bytes
  elsewhere : ∀ a, own a = false → a < dest ∨ dest + bytes.length ≤ a →
    final.memory a = memory a

/-! ### The invariant -/

/-- The bytes of the finished chunks and those of the current one. -/
structure Progress (own : Nat → Bool) (memory : Nat → UInt8) (dest : Nat)
    (earlier current : List UInt8) (w : World) : Prop where
  finished : foreign own w.chunks.flatten = earlier.zipIdx dest
  running : foreign own w.chunk = current.zipIdx (dest + earlier.length)
  pages : ∀ chunk ∈ w.chunks, InPage own chunk
  stands : load w.memory dest (earlier ++ current).length = earlier ++ current
  elsewhere : ∀ a, own a = false → a < dest ∨ dest + (earlier ++ current).length ≤ a →
    w.memory a = memory a

theorem foreign_append (own : Nat → Bool) (first second : List (UInt8 × Nat)) :
    foreign own (first ++ second) = foreign own first ++ foreign own second :=
  List.filter_append ..

theorem foreign_of_own {own : Nat → Bool} {a : Nat} (inside : own a = true) (x : UInt8) :
    foreign own [(x, a)] = [] := by
  rw [foreign, List.filter_cons_of_neg (by rw [inside]; exact Bool.false_ne_true),
    List.filter_nil]

theorem foreign_of_not_own {own : Nat → Bool} {a : Nat} (outside : own a = false) (x : UInt8) :
    foreign own [(x, a)] = [(x, a)] := by
  rw [foreign, List.filter_cons_of_pos (by rw [outside]; rfl), List.filter_nil]

section

variable {own : Nat → Bool} {memory : Nat → UInt8} {dest : Nat} {earlier current : List UInt8}
  {w : World}

theorem progress_started (own : Nat → Bool) (memory : Nat → UInt8) (dest : Nat) :
    Progress own memory dest [] [] (started memory) where
  finished := rfl
  running := rfl
  pages := fun _ member => absurd member List.not_mem_nil
  stands := rfl
  elsewhere := fun _ _ _ => rfl

theorem Progress.take (progress : Progress own memory dest earlier current w) (place : Nat)
    (byte : UInt8) : Progress own memory dest earlier current (w.take place byte) :=
  ⟨progress.finished, progress.running, progress.pages, progress.stands, progress.elsewhere⟩

/-- A poke to an own cell changes nothing where the chip is not. -/
theorem Progress.poke_own (progress : Progress own memory dest earlier current w)
    (apart : ∀ i < (earlier ++ current).length, own (dest + i) = false) {a : Nat}
    (inside : own a = true) (x : UInt8) :
    Progress own memory dest earlier current (POKE1 w a x) where
  finished := progress.finished
  running := by
    show foreign own (w.chunk ++ [(x, a)]) = _
    rw [foreign_append, foreign_of_own inside, List.append_nil, progress.running]
  pages := progress.pages
  stands := by
    refine (load_congr fun i before => ?_).trans progress.stands
    refine Function.update_of_ne (fun same => ?_) ..
    rw [← same, apart i before] at inside
    exact Bool.false_ne_true inside
  elsewhere := by
    intro b outside away
    refine (Function.update_of_ne (fun same => ?_) ..).trans (progress.elsewhere b outside away)
    rw [← same, outside] at inside
    exact Bool.false_ne_true inside

theorem Progress.pokes_own (progress : Progress own memory dest earlier current w)
    (apart : ∀ i < (earlier ++ current).length, own (dest + i) = false)
    (pokes : List (UInt8 × Nat)) (inside : ∀ poke ∈ pokes, own poke.2 = true) :
    Progress own memory dest earlier current
        (pokes.foldl (fun w poke => POKE1 w poke.2 poke.1) w) ∧
      (pokes.foldl (fun w poke => POKE1 w poke.2 poke.1) w).taken = w.taken := by
  induction pokes generalizing w with
  | nil => exact ⟨progress, rfl⟩
  | cons poke pokes inductionHypothesis =>
    exact inductionHypothesis
      (progress.poke_own apart (inside poke (List.mem_cons_self ..)) poke.1)
      fun other member => inside other (List.mem_cons_of_mem _ member)

theorem Progress.poke (progress : Progress own memory dest earlier current w)
    (outside : own (dest + earlier.length + current.length) = false) (x : UInt8) :
    Progress own memory dest earlier (current ++ [x])
      (POKE1 w (dest + earlier.length + current.length) x) where
  finished := progress.finished
  running := by
    show foreign own (w.chunk ++ [(x, dest + earlier.length + current.length)]) = _
    rw [foreign_append, foreign_of_not_own outside, progress.running, List.zipIdx_append]
    rfl
  pages := progress.pages
  stands := by
    have next : dest + (earlier ++ current).length = dest + earlier.length + current.length := by
      rw [List.length_append, Nat.add_assoc]
    rw [← List.append_assoc, List.length_append, load_add, next]
    congr 1
    · refine (load_congr fun i before => ?_).trans progress.stands
      exact Function.update_of_ne (by omega) ..
    · show [_] = [x]
      exact congrArg (fun y => [y]) (Function.update_self ..)
  elsewhere := by
    intro b notOwn away
    rw [← List.append_assoc, List.length_append, List.length_singleton] at away
    rw [List.length_append] at away
    refine (Function.update_of_ne (by omega) ..).trans (progress.elsewhere b notOwn ?_)
    rw [List.length_append]
    omega

theorem Progress.delay (progress : Progress own memory dest earlier current w)
    (fits : (dest + earlier.length) % 64 + current.length ≤ 64) :
    Progress own memory dest (earlier ++ current) [] (Delay w) where
  finished := by
    show foreign own (w.chunks ++ [w.chunk]).flatten = _
    rw [List.flatten_append, List.flatten_singleton, foreign_append, progress.finished,
      progress.running, List.zipIdx_append]
  running := rfl
  pages := by
    intro chunk member
    rcases List.mem_append.mp member with before | last
    · exact progress.pages chunk before
    · rw [List.mem_singleton.mp last]
      exact ⟨current, _, progress.running, fits⟩
  stands := by
    rw [List.append_nil]
    exact progress.stands
  elsewhere := by
    rw [List.append_nil]
    exact progress.elsewhere

theorem Progress.burnt (progress : Progress own memory dest earlier [] w) :
    Burnt own memory dest earlier w where
  poked := by
    rw [foreign_append, progress.finished, progress.running]
    exact List.append_nil _
  pages := by
    intro chunk member
    rcases List.mem_append.mp member with before | last
    · exact progress.pages chunk before
    · rw [List.mem_singleton.mp last]
      exact ⟨[], 0, progress.running, Nat.zero_le _⟩
  stands := by
    have stands := progress.stands
    rw [List.append_nil] at stands
    exact stands
  elsewhere := by
    have elsewhere := progress.elsewhere
    rw [List.append_nil] at elsewhere
    exact elsewhere

end

theorem chunkSize_eq (p n : Nat) : chunkSize p n = min n (64 - p % 64) := by
  have low : 63 &&& p % 256 = p % 64 := by
    rw [Nat.and_comm, Nat.and_two_pow_sub_one_eq_mod (p % 256) 6]
    exact Nat.mod_mod_of_dvd p (by decide)
  rw [chunkSize, low]
  split <;> omega

/-! ### From the network -/

section

variable {memory : Nat → UInt8} {p : Nat} {earlier : List UInt8} {w : World}

theorem Progress.printHex {current : List UInt8}
    (progress : Progress ownCell memory p earlier current w)
    (apart : ∀ i < (earlier ++ current).length, ownCell (p + i) = false) {loc : Nat}
    (field : loc = 0x520 ∨ loc = 0x528) (val : Nat) :
    Progress ownCell memory p earlier current (PrintHex w loc val) ∧
      (PrintHex w loc val).taken = w.taken := by
  refine progress.pokes_own apart _ fun poke member => ?_
  have after := List.le_snd_of_mem_zipIdx member
  have before := List.snd_lt_add_of_mem_zipIdx member
  have length : loc ≤ poke.2 ∧ poke.2 < loc + 8 := ⟨after, before⟩
  rw [ownCell, Bool.or_eq_true, Bool.and_eq_true, Bool.and_eq_true, decide_eq_true_eq,
    decide_eq_true_eq, decide_eq_true_eq, decide_eq_true_eq]
  omega

theorem not_ownCell {a i : Nat} (outside : ownCell a = false) (small : i < 64) :
    CASBUF + i ≠ a := by
  intro same
  rw [← same, ownCell, Bool.or_eq_false_iff, Bool.and_eq_false_iff, decide_eq_false_iff_not,
    decide_eq_false_iff_not] at outside
  omega

theorem ownCell_staging {i : Nat} (small : i < 64) : ownCell (CASBUF + i) = true := by
  rw [ownCell, Bool.or_eq_true, Bool.and_eq_true, decide_eq_true_eq, decide_eq_true_eq]
  omega

/-- The first inner loop of a round collects the bytes of the chunk. -/
theorem Progress.stage (sent : Nat → UInt8) (progress : Progress ownCell memory p earlier [] w)
    (apart : ∀ i < earlier.length, ownCell (p + i) = false)
    (taken : w.taken = (List.range earlier.length).map fun i => (i, sent i)) {size : Nat}
    (small : size ≤ 64) :
    ∃ next, forLoop (fun w i => some (POKE1 (Recv sent w).2 (CASBUF + i) (Recv sent w).1)) 0 size
        w = some next ∧
      Progress ownCell memory p earlier [] next ∧
      (next.taken = (List.range (earlier.length + size)).map fun i => (i, sent i)) ∧
      ∀ i < size, next.memory (CASBUF + i) = sent (earlier.length + i) := by
  refine forLoop_invariant
    (fun count (state : World) => Progress ownCell memory p earlier [] state ∧
      (state.taken = (List.range (earlier.length + count)).map fun i => (i, sent i)) ∧
      ∀ i < count, state.memory (CASBUF + i) = sent (earlier.length + i))
    (Nat.zero_le size) ?_ ⟨progress, taken, fun i before => absurd before (Nat.not_lt_zero i)⟩
  rintro i state - before ⟨kept, came, staged⟩
  have count : state.taken.length = earlier.length + i := by
    rw [came, List.length_map, List.length_range]
  refine ⟨_, rfl, ?_, ?_, ?_⟩
  · refine (kept.take _ _).poke_own (fun j inside => apart j ?_) (ownCell_staging (by omega)) _
    rwa [List.append_nil] at inside
  · show state.taken ++ [(state.taken.length, sent state.taken.length)] = _
    rw [count, came, ← Nat.add_assoc, List.range_succ, List.map_append]
    rfl
  · intro j inside
    show Function.update state.memory (CASBUF + i) (sent state.taken.length) (CASBUF + j) = _
    by_cases last : j = i
    · rw [last, Function.update_self, count]
    · rw [Function.update_of_ne (by omega)]
      exact staged j (by omega)

/-- The second one copies them to the chip. -/
theorem Progress.copy (sent : Nat → UInt8) (progress : Progress ownCell memory p earlier [] w)
    {size : Nat} (small : size ≤ 64) (noWrap : p + earlier.length + size ≤ 65536)
    (apart : ∀ i < earlier.length + size, ownCell (p + i) = false)
    (staged : ∀ i < size, w.memory (CASBUF + i) = sent (earlier.length + i)) :
    ∃ next, forLoop (fun w i => some (POKE1 w ((p + earlier.length + i) % 65536)
          (w.memory (CASBUF + i)))) 0 size w = some next ∧
      Progress ownCell memory p earlier (load sent earlier.length size) next ∧
      next.taken = w.taken := by
  have run : ∃ next, forLoop (fun w i => some (POKE1 w ((p + earlier.length + i) % 65536)
        (w.memory (CASBUF + i)))) 0 size w = some next ∧
      Progress ownCell memory p earlier (load sent earlier.length size) next ∧
      (∀ i < size, next.memory (CASBUF + i) = sent (earlier.length + i)) ∧
      next.taken = w.taken := by
    refine forLoop_invariant
      (fun count (state : World) =>
        Progress ownCell memory p earlier (load sent earlier.length count) state ∧
        (∀ i < size, state.memory (CASBUF + i) = sent (earlier.length + i)) ∧
        state.taken = w.taken)
      (Nat.zero_le size) ?_ ⟨progress, staged, rfl⟩
    rintro i state - before ⟨kept, there, same⟩
    have outside : ownCell (p + earlier.length + i) = false := by
      rw [Nat.add_assoc]
      exact apart _ (by omega)
    have place : (p + earlier.length + i) % 65536 = p + earlier.length + i :=
      Nat.mod_eq_of_lt (by omega)
    refine ⟨_, rfl, ?_, ?_, same⟩
    · rw [place, there i before, load_add]
      have poked := kept.poke (by rwa [length_load]) (sent (earlier.length + i))
      rw [length_load] at poked
      exact poked
    · intro j inside
      show Function.update state.memory _ _ (CASBUF + j) = _
      rw [place, Function.update_of_ne (not_ownCell outside (by omega))]
      exact there j inside
  obtain ⟨next, done, kept, -, same⟩ := run
  exact ⟨next, done, kept, same⟩

end

/-- What the loop of `Burn` keeps, for the number of bytes it has burned so far. -/
structure Burning (sent memory : Nat → UInt8) (n p done : Nat) (state : Nat × Nat × World) :
    Prop where
  count : done + state.1 = n
  place : state.2.1 = (p + done) % 65536
  progress : Progress ownCell memory p (load sent 0 done) [] state.2.2
  taken : state.2.2.taken = (List.range done).map fun i => (i, sent i)

theorem burning_burnRound {sent memory : Nat → UInt8} {n p done : Nat}
    {state : Nat × Nat × World} (noWrap : p + n ≤ 65536) (apart : ∀ i < n, ownCell (p + i) = false)
    (more : state.1 ≠ 0) (burning : Burning sent memory n p done state) :
    ∃ next, burnRound sent state = some next ∧
      (∃ done, Burning sent memory n p done next) ∧ next.1 < state.1 := by
  obtain ⟨left, place, w⟩ := state
  obtain ⟨count, placed, progress, taken⟩ := burning
  dsimp only at more count placed progress taken
  have here : place = p + done := placed.trans (Nat.mod_eq_of_lt (by omega))
  subst here
  obtain ⟨size, sized⟩ : ∃ size, chunkSize (p + done) left = size := ⟨_, rfl⟩
  have least : size = min left (64 - (p + done) % 64) := sized ▸ chunkSize_eq ..
  have length : (load sent 0 done).length = done := length_load ..
  have free : ∀ i < (load sent 0 done ++ []).length, ownCell (p + i) = false := by
    intro i inside
    rw [List.append_nil, length] at inside
    exact apart i (by omega)
  obtain ⟨shown, same⟩ := progress.printHex free (.inl rfl) left
  obtain ⟨shown, same'⟩ := shown.printHex free (.inr rfl) (p + done)
  obtain ⟨staged, collects, kept, came, there⟩ := shown.stage sent
    (fun i inside => apart i (by omega)) (by rw [same', same, length, taken])
    (show size ≤ 64 by omega)
  obtain ⟨copied, copies, kept, still⟩ := kept.copy sent (show size ≤ 64 by omega) (by omega)
    (fun i inside => apart i (by omega)) there
  rw [length] at kept copies came
  refine ⟨((left + 65536 - size) % 65536, (p + done + size) % 65536, Delay copied), ?_,
    ⟨done + size, ?_, ?_, ?_, ?_⟩, ?_⟩
  · rw [burnRound, sized, collects, Option.bind_some, copies]
    rfl
  · show done + size + (left + 65536 - size) % 65536 = n
    omega
  · exact congrArg (· % 65536) (Nat.add_assoc ..)
  · have paged := kept.delay (by rw [length, length_load]; omega)
    rw [load_add, Nat.zero_add]
    exact paged
  · exact still.trans came
  · show (left + 65536 - size) % 65536 < left
    omega

/-- `Burn` of any count to any place where it does not work itself. -/
theorem burn_burnt (sent memory : Nat → UInt8) {n p rounds : Nat} (noWrap : p + n ≤ 65536)
    (word : p < 65536) (apart : ∀ i < n, ownCell (p + i) = false) (enough : n ≤ rounds) :
    ∃ final, Burn sent rounds n p (started memory) = some final ∧
      (final.taken = (List.range n).map fun i => (i, sent i)) ∧
      Burnt ownCell memory p (load sent 0 n) final := by
  have run : ∃ last, whileLoop (fun state => decide (state.1 ≠ 0)) (burnRound sent) rounds
        (n, p, started memory) = some last ∧
      (∃ done, Burning sent memory n p done last) ∧ decide (last.1 ≠ 0) = false := by
    refine whileLoop_invariant (fun state => ∃ done, Burning sent memory n p done state)
      (fun state => state.1) ?_ ?_ enough
    · rintro state goes ⟨done, burning⟩
      exact burning_burnRound noWrap apart (of_decide_eq_true goes) burning
    · exact ⟨0, Nat.zero_add n, (Nat.mod_eq_of_lt word).symm, progress_started .., rfl⟩
  obtain ⟨⟨left, place, w⟩, runs, ⟨done, count, -, progress, taken⟩, stops⟩ := run
  have none_left : left = 0 := not_not.mp (of_decide_eq_false stops)
  subst none_left
  have all : done = n := count
  subst all
  have free : ∀ i < (load sent 0 done ++ []).length, ownCell (p + i) = false := by
    intro i inside
    rw [List.append_nil, length_load] at inside
    exact apart i inside
  obtain ⟨shown, same⟩ := progress.printHex free (.inl rfl) 0
  obtain ⟨shown, same'⟩ := shown.printHex free (.inr rfl) place
  refine ⟨_, ?_, same'.trans (same.trans taken), shown.burnt⟩
  rw [Burn, runs]
  rfl

/-! ### From RAM -/

/-- What the loops of `EepromBurn` keep: the bytes were read one after the other, and each is
what the memory held at first, unless the source lies where the bytes go. -/
structure Copied (memory : Nat → UInt8) (dest src n : Nat) (earlier current : List UInt8)
    (src_ptr : Nat) (w : World) : Prop where
  progress : Progress (fun _ => false) memory dest earlier current w
  pointer : src_ptr = (src + (earlier ++ current).length) % 65536
  places : w.taken.map Prod.fst =
    (List.range (earlier ++ current).length).map fun i => (src + i) % 65536
  bytes : w.taken.map Prod.snd = earlier ++ current
  original : (∀ i < n, ∀ j < n, (src + i) % 65536 ≠ dest + j) →
    earlier ++ current =
      (List.range (earlier ++ current).length).map fun i => memory ((src + i) % 65536)

section

variable {memory : Nat → UInt8} {dest src n src_ptr : Nat} {earlier current : List UInt8}
  {w : World}

theorem Copied.step (copied : Copied memory dest src n earlier current src_ptr w)
    (more : (earlier ++ current).length < n) :
    Copied memory dest src n earlier (current ++ [w.memory src_ptr]) ((src_ptr + 1) % 65536)
      (POKE1 (w.take src_ptr (w.memory src_ptr)) (dest + earlier.length + current.length)
        (w.memory src_ptr)) where
  progress := (copied.progress.take _ _).poke rfl _
  pointer := by
    rw [← List.append_assoc, List.length_append, copied.pointer, Nat.mod_add_mod]
    rfl
  places := by
    show (w.taken ++ [(src_ptr, w.memory src_ptr)]).map Prod.fst = _
    rw [← List.append_assoc, List.length_append, List.length_singleton, List.range_succ,
      List.map_append, List.map_append, copied.places, copied.pointer]
    rfl
  bytes := by
    show (w.taken ++ [(src_ptr, w.memory src_ptr)]).map Prod.snd = _
    rw [← List.append_assoc, List.map_append, copied.bytes]
    rfl
  original := by
    intro apart
    have before : w.memory src_ptr = memory ((src + (earlier ++ current).length) % 65536) := by
      rw [copied.pointer]
      refine copied.progress.elsewhere _ rfl ?_
      by_contra inside
      rw [not_or, not_lt, not_le] at inside
      obtain ⟨j, same⟩ := Nat.exists_eq_add_of_le inside.1
      exact apart _ more j (by omega) same
    rw [← List.append_assoc, List.length_append, List.length_singleton, List.range_succ,
      List.map_append, ← copied.original apart, before]
    rfl

/-- The inner loop of a round. -/
theorem Copied.chunk (copied : Copied memory dest src n earlier [] src_ptr w) {size : Nat}
    (fits : earlier.length + size ≤ n) (noWrap : dest + n ≤ 65536) :
    ∃ next : Nat × World, forLoop (fun (state : Nat × World) i =>
        let byte := state.2.memory state.1
        some ((state.1 + 1) % 65536,
          POKE1 (state.2.take state.1 byte) ((dest + earlier.length + i) % 65536) byte))
        0 size (src_ptr, w) = some next ∧
      ∃ current, current.length = size ∧
        Copied memory dest src n earlier current next.1 next.2 := by
  refine forLoop_invariant
    (fun count (state : Nat × World) => ∃ current, current.length = count ∧
      Copied memory dest src n earlier current state.1 state.2)
    (Nat.zero_le size) ?_ ?_
  · rintro i ⟨src_ptr, w⟩ - before ⟨current, rfl, kept⟩
    have place : (dest + earlier.length + current.length) % 65536 =
        dest + earlier.length + current.length := Nat.mod_eq_of_lt (by omega)
    refine ⟨_, rfl, current ++ [w.memory src_ptr], List.length_append, ?_⟩
    dsimp only
    rw [place]
    exact kept.step (by rw [List.length_append]; omega)
  · exact ⟨[], rfl, copied⟩

end

/-- What the loop keeps from round to round. -/
def Copying (memory : Nat → UInt8) (dest src n : Nat) (state : Nat × Nat × Nat × World) : Prop :=
  ∃ earlier, earlier.length + state.1 = n ∧ state.2.1 = (dest + earlier.length) % 65536 ∧
    Copied memory dest src n earlier [] state.2.2.1 state.2.2.2

theorem copying_eepromBurnRound {memory : Nat → UInt8} {dest src n : Nat}
    {state : Nat × Nat × Nat × World} (noWrap : dest + n ≤ 65536) (more : state.1 ≠ 0)
    (copying : Copying memory dest src n state) :
    ∃ next, eepromBurnRound state = some next ∧ Copying memory dest src n next ∧
      next.1 < state.1 := by
  obtain ⟨left, place, src_ptr, w⟩ := state
  obtain ⟨earlier, count, placed, copied⟩ := copying
  dsimp only at more count placed copied
  have here : place = dest + earlier.length := placed.trans (Nat.mod_eq_of_lt (by omega))
  subst here
  obtain ⟨size, sized⟩ : ∃ size, chunkSize (dest + earlier.length) left = size := ⟨_, rfl⟩
  have least : size = min left (64 - (dest + earlier.length) % 64) := sized ▸ chunkSize_eq ..
  obtain ⟨⟨pointer, next⟩, copies, current, length, kept⟩ := copied.chunk
    (show earlier.length + size ≤ n by omega) noWrap
  refine ⟨((left + 65536 - size) % 65536, (dest + earlier.length + size) % 65536, pointer,
    Delay next), ?_, ⟨earlier ++ current, ?_, ?_, ?_⟩, ?_⟩
  · rw [eepromBurnRound, sized, copies]
    rfl
  · show (earlier ++ current).length + (left + 65536 - size) % 65536 = n
    rw [List.length_append]
    omega
  · rw [List.length_append, length, Nat.add_assoc]
  · have same : earlier ++ current ++ [] = earlier ++ current := List.append_nil _
    refine ⟨kept.progress.delay (by omega), ?_, ?_, ?_, ?_⟩
    · rw [same]
      exact kept.pointer
    · rw [same]
      exact kept.places
    · rw [same]
      exact kept.bytes
    · rw [same]
      exact kept.original
  · show (left + 65536 - size) % 65536 < left
    omega

/-- `EepromBurn` of any count to any place. -/
theorem eepromBurn_burnt (memory : Nat → UInt8) {dest src n rounds : Nat}
    (noWrap : dest + n ≤ 65536) (word : dest < 65536) (enough : n ≤ rounds) :
    ∃ final, EepromBurn rounds dest src n (started memory) = some final ∧
      (final.taken.map Prod.fst = (List.range n).map fun i => (src + i) % 65536) ∧
      Burnt (fun _ => false) memory dest (final.taken.map Prod.snd) final ∧
      ((∀ i < n, ∀ j < n, (src + i) % 65536 ≠ dest + j) →
        final.taken.map Prod.snd = (List.range n).map fun i => memory ((src + i) % 65536)) := by
  have run : ∃ last, whileLoop (fun state => decide (state.1 ≠ 0)) eepromBurnRound rounds
        (n, dest, src % 65536, started memory) = some last ∧
      Copying memory dest src n last ∧ decide (last.1 ≠ 0) = false := by
    refine whileLoop_invariant (Copying memory dest src n) (fun state => state.1) ?_ ?_ enough
    · intro state goes copying
      exact copying_eepromBurnRound noWrap (of_decide_eq_true goes) copying
    · exact ⟨[], Nat.zero_add n, (Nat.mod_eq_of_lt word).symm, progress_started .., rfl, rfl, rfl,
        fun _ => rfl⟩
  obtain ⟨⟨left, place, src_ptr, w⟩, runs, ⟨bytes, count, -, copied⟩, stops⟩ := run
  have none_left : left = 0 := not_not.mp (of_decide_eq_false stops)
  subst none_left
  have all : bytes.length = n := count
  obtain ⟨progress, -, places, same, original⟩ := copied
  dsimp only at progress places same original
  rw [List.append_nil] at places same original
  rw [all] at places original
  refine ⟨w, ?_, places, same ▸ progress.burnt, fun apart => same.trans (original apart)⟩
  rw [EepromBurn, runs]
  rfl

/-- Both loops take exactly the bytes they have to from their source, in order; give the
chip these and no others, each at its place and no chunk beyond its page; and end, after at
most as many rounds as there are bytes. -/
theorem burners_burn (memory : Nat → UInt8) {p n rounds : Nat} (word : p < 65536)
    (noWrap : p + n ≤ 65536) (enough : n ≤ rounds) :
    (∀ sent, (∀ i < n, ownCell (p + i) = false) →
      ∃ final, Burn sent rounds n p (started memory) = some final ∧
        (final.taken = (List.range n).map fun i => (i, sent i)) ∧
        Burnt ownCell memory p (load sent 0 n) final) ∧
    ∀ src, ∃ final, EepromBurn rounds p src n (started memory) = some final ∧
      (final.taken.map Prod.fst = (List.range n).map fun i => (src + i) % 65536) ∧
      Burnt (fun _ => false) memory p (final.taken.map Prod.snd) final ∧
      ((∀ i < n, ∀ j < n, (src + i) % 65536 ≠ p + j) →
        final.taken.map Prod.snd = (List.range n).map fun i => memory ((src + i) % 65536)) :=
  ⟨fun sent apart => burn_burnt sent memory noWrap word apart enough,
    fun _ => eepromBurn_burnt memory noWrap word enough⟩

/-- Across a page boundary of the cartridge, from the network and from RAM. -/
theorem burners_burn_threeBytes :
    (∃ final, Burn (fun i => UInt8.ofNat (i + 1)) 3 3 0xC03F (started fun _ => 0) = some final ∧
      load final.memory 0xC03F 3 = [1, 2, 3]) ∧
    ∃ final, EepromBurn 3 0xC03F 0x2000 3 (started fun a => UInt8.ofNat (a - 0x1FFF)) = some final ∧
      load final.memory 0xC03F 3 = [1, 2, 3] := by
  refine ⟨?_, ?_⟩
  · obtain ⟨final, runs, -, burnt⟩ := (burners_burn (fun _ => 0) (show 0xC03F < 65536 by decide)
      (show 0xC03F + 3 ≤ 65536 by decide) (le_refl 3)).1 (fun i => UInt8.ofNat (i + 1))
      (by decide +kernel)
    exact ⟨final, runs, burnt.stands⟩
  · obtain ⟨final, runs, -, burnt, original⟩ := (burners_burn
      (fun a => UInt8.ofNat (a - 0x1FFF)) (show 0xC03F < 65536 by decide)
      (show 0xC03F + 3 ≤ 65536 by decide) (le_refl 3)).2 0x2000
    have bytes := original (by decide +kernel)
    have stands := burnt.stands
    rw [bytes] at stands
    exact ⟨final, runs, stands⟩

end Frobio.Eeprom
