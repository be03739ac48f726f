/-
This file says what the conduit asks the server for ahead of time, when a block that the client
reads is not in the cache.

The loop looks up the block that was read, and not the one it is about to ask for, and the carry out
of the low word of the sector number is lost. `Steady` is the condition under which this does not
show, and `requested_iff_steady` says that it is exact, whatever the server's answers put into the
cache while the loop goes on.
-/

import Frobio.Conduit.Transparency

namespace Frobio.Conduit

open Coms Run

/-! ### What a run shows -/

section

variable {Note : Type}

/-- What is noted at the turns of a run. -/
def observed (cacheBlocks : Nat) (note : State → Turn → List Note) : State → List Turn → List Note
  | _, [] => []
  | s, turn :: rest =>
    note s turn ++
      match step cacheBlocks s turn with
      | some next => observed cacheBlocks note next rest
      | none => []

end

/-- The round of the loop and the cache it finds. -/
abbrev Look := Nat × BlockCache

def looks (cacheBlocks : Nat) (s : State) : Turn → List Look
  | .server => []
  | .client =>
    match s.clientCopy with
    | .prefetch _ _ i => if i ≤ cacheBlocks then [(i, s.blockCache)] else []
    | _ => []

/-- The `CMD_CACHE_READ` that is sent. -/
def requests (s : State) : Turn → List Quint
  | .server => []
  | .client =>
    match s.clientCopy with
    | .prefetchSend n p i => [prefetchQuint n p i]
    | _ => []

/-- No other message of the client is begun. -/
def OneMessage (s : State) (turn : Turn) : Prop := turn = .client → s.clientCopy ≠ .quint

instance (s : State) (turn : Turn) : Decidable (OneMessage s turn) :=
  inferInstanceAs (Decidable (_ → _))

/-! ### What is meant -/

/-- The request for a sector, with the carry out of the low word. -/
def sectorQuint (sector : Nat) : Quint :=
  newQuint CMD_CACHE_READ (sector / 65536) (sector % 65536)

/-- There is such a sector, and the cache does not have it. -/
def Lacking (cache : BlockCache) (sector : Nat) : Prop :=
  sector < 2 ^ 32 ∧ getCache cache sector = none

instance (cache : BlockCache) (sector : Nat) : Decidable (Lacking cache sector) :=
  inferInstanceAs (Decidable (_ ∧ _))

/-- The requests that are meant for the sectors after the one that is read. -/
def wantedAfter (sector : Nat) (seen : List Look) : List Quint :=
  (seen.filter fun look => Lacking look.2 (sector + look.1)).map fun look =>
    sectorQuint (sector + look.1)

/-- Each time the loop looks, the cache has the sector that the loop has come to just if it has the
sector that was read, and if it does not, the two have the same high word. -/
def Steady (q : Quint) (seen : List Look) : Prop :=
  ∀ look ∈ seen,
    (getCache look.2 (key q.n q.p) = none →
      q.p + look.1 < 65536 ∧ getCache look.2 (key q.n q.p + look.1) = none) ∧
    (Lacking look.2 (key q.n q.p + look.1) → getCache look.2 (key q.n q.p) = none)

instance (q : Quint) (seen : List Look) : Decidable (Steady q seen) :=
  inferInstanceAs (Decidable (∀ look ∈ seen, _ ∧ _))

/-! ### The loop -/

section

variable {cacheBlocks : Nat} {s next final : State}

theorem copyFromServer_frame (taken : copyFromServer s = some next) :
    next.clientCopy = s.clientCopy ∧ next.toServer = s.toServer ∧
      ∀ k, (s.blockCache k).isSome → (next.blockCache k).isSome := by
  have grows : ∀ (k' : Nat) (block : Block) k, (s.blockCache k).isSome →
      (putCache s.blockCache k' block k).isSome := by
    intro k' block k present
    by_cases same : k = k'
    · rw [same, putCache, Function.update_self]
      rfl
    · rw [putCache, Function.update_of_ne same]
      exact present
  unfold copyFromServer at taken
  split at taken
  · obtain ⟨⟨q, rest⟩, -, rfl⟩ := Option.map_eq_some_iff.mp taken
    exact ⟨rfl, rfl, fun _ present => present⟩
  · obtain ⟨⟨payload, rest⟩, -, same⟩ := Option.map_eq_some_iff.mp taken
    dsimp only at same
    split at same
    · obtain rfl := same
      exact ⟨rfl, rfl, grows _ _⟩
    · split at same
      · obtain rfl := same
        exact ⟨rfl, rfl, grows _ _⟩
      · obtain rfl := same
        exact ⟨rfl, rfl, fun _ present => present⟩
  · obtain rfl := Option.some_inj.mp taken
    exact ⟨rfl, rfl, fun _ present => present⟩

/-- What the rounds of the loop from `i` on have done, where the caches they find only grow. -/
structure Rounds (cacheBlocks n p i : Nat) (s final : State) (caches : Nat → BlockCache)
    (seen : List Look) (sent : List Quint) : Prop where
  seen_eq : seen = (List.range' i (cacheBlocks + 1 - i)).map fun j => (j, caches j)
  sent_eq : sent = ((List.range' i (cacheBlocks + 1 - i)).filter fun j =>
    getCache (caches j) (key n p) = none).map (prefetchQuint n p)
  toServer : final.toServer = s.toServer ++ sent.flatMap Quint.bytes
  first : ∀ k, (s.blockCache k).isSome → (caches i k).isSome
  grows : ∀ j k, i ≤ j → (caches j k).isSome → (caches (j + 1) k).isSome

theorem Rounds.of_frame {n p i : Nat} {caches : Nat → BlockCache} {seen : List Look}
    {sent : List Quint} (rounds : Rounds cacheBlocks n p i next final caches seen sent)
    (toServer : next.toServer = s.toServer)
    (grows : ∀ k, (s.blockCache k).isSome → (next.blockCache k).isSome) :
    Rounds cacheBlocks n p i s final caches seen sent :=
  ⟨rounds.seen_eq, rounds.sent_eq, toServer ▸ rounds.toServer,
    fun k present => rounds.first k (grows k present), rounds.grows⟩

/-- One round before the others. -/
theorem Rounds.cons {n p i : Nat} {caches : Nat → BlockCache} {seen : List Look}
    {sent sent' : List Quint} (rounds : Rounds cacheBlocks n p (i + 1) next final caches seen sent)
    (inside : i ≤ cacheBlocks) (grows : ∀ k, (s.blockCache k).isSome → (next.blockCache k).isSome)
    (sent_eq : sent' = if getCache s.blockCache (key n p) = none then prefetchQuint n p i :: sent
      else sent) (toServer : final.toServer = s.toServer ++ sent'.flatMap Quint.bytes) :
    Rounds cacheBlocks n p i s final (Function.update caches i s.blockCache)
      ((i, s.blockCache) :: seen) sent' := by
  have range : List.range' i (cacheBlocks + 1 - i) =
      i :: List.range' (i + 1) (cacheBlocks + 1 - (i + 1)) := by
    rw [show cacheBlocks + 1 - i = cacheBlocks + 1 - (i + 1) + 1 by omega, List.range'_succ]
  have later : ∀ j ∈ List.range' (i + 1) (cacheBlocks + 1 - (i + 1)),
      Function.update caches i s.blockCache j = caches j := by
    intro j member
    have above := (List.mem_range'_1.mp member).1
    exact Function.update_of_ne (by omega) ..
  refine ⟨?_, ?_, toServer, fun k present => ?_, fun j k above present => ?_⟩
  · rw [range, List.map_cons, Function.update_self, rounds.seen_eq]
    refine congrArg _ (List.map_congr_left fun j member => ?_)
    rw [later j member]
  · have same : (List.range' (i + 1) (cacheBlocks + 1 - (i + 1))).filter (fun j =>
          getCache (Function.update caches i s.blockCache j) (key n p) = none) =
        (List.range' (i + 1) (cacheBlocks + 1 - (i + 1))).filter fun j =>
          getCache (caches j) (key n p) = none := by
      refine List.filter_congr fun j member => ?_
      rw [later j member]
    rw [range, List.filter_cons, Function.update_self, same, sent_eq, rounds.sent_eq]
    by_cases lacks : getCache s.blockCache (key n p) = none
    · rw [if_pos lacks, if_pos (decide_eq_true lacks), List.map_cons]
    · rw [if_neg lacks, if_neg (by rw [decide_eq_false lacks]; exact Bool.false_ne_true)]
  · rw [Function.update_self]
    exact present
  · rw [Function.update_of_ne (show j + 1 ≠ i by omega)]
    by_cases first : j = i
    · rw [first, Function.update_self] at present
      rw [first]
      exact rounds.first k (grows k present)
    · rw [Function.update_of_ne first] at present
      exact rounds.grows j k (by omega) present

theorem observed_cons {Note : Type} (note : State → Turn → List Note) {turn : Turn}
    {rest : List Turn} (taken : step cacheBlocks s turn = some next) :
    observed cacheBlocks note s (turn :: rest) =
      note s turn ++ observed cacheBlocks note next rest := by
  rw [observed, taken]

/-- A run in which the client's goroutine comes back to the next quint, from each place in the
loop. -/
theorem rounds_of_run {turns : List Turn} (once : Meets (step cacheBlocks) OneMessage s turns)
    (reached : run (step cacheBlocks) s turns = some final) (back : final.clientCopy = .quint) :
    (s.clientCopy = .quint → observed cacheBlocks (looks cacheBlocks) s turns = [] ∧
      observed cacheBlocks requests s turns = [] ∧ final.toServer = s.toServer) ∧
    (∀ n p i, s.clientCopy = .prefetch n p i → i ≤ cacheBlocks + 1 →
      ∃ caches, Rounds cacheBlocks n p i s final caches
        (observed cacheBlocks (looks cacheBlocks) s turns)
        (observed cacheBlocks requests s turns)) ∧
    ∀ n p i, s.clientCopy = .prefetchSend n p i → i ≤ cacheBlocks →
      ∃ caches later, observed cacheBlocks requests s turns = prefetchQuint n p i :: later ∧
        Rounds cacheBlocks n p (i + 1)
          { s with toServer := s.toServer ++ (prefetchQuint n p i).bytes } final caches
          (observed cacheBlocks (looks cacheBlocks) s turns) later := by
  induction turns generalizing s with
  | nil =>
    rw [run_nil, Option.some_inj] at reached
    rw [reached, back]
    exact ⟨fun _ => ⟨rfl, rfl, rfl⟩, fun _ _ _ impossible => (by cases impossible),
      fun _ _ _ impossible => (by cases impossible)⟩
  | cons turn rest inductionHypothesis =>
    obtain ⟨next, taken, onward⟩ := run_cons_eq_some.mp reached
    obtain ⟨quiet, looking, sending⟩ := inductionHypothesis (once.2 next taken) onward
    cases turn with
    | server =>
      obtain ⟨stays, toServer, grows⟩ := copyFromServer_frame taken
      have unseen : observed cacheBlocks (looks cacheBlocks) s (.server :: rest) =
          observed cacheBlocks (looks cacheBlocks) next rest := observed_cons _ taken
      have unsent : observed cacheBlocks requests s (.server :: rest) =
          observed cacheBlocks requests next rest := observed_cons _ taken
      rw [unseen, unsent, ← stays]
      refine ⟨fun at_quint => ?_, fun n p i at_look inside => ?_, fun n p i at_send inside => ?_⟩
      · obtain ⟨seen, sent, same⟩ := quiet at_quint
        exact ⟨seen, sent, same.trans toServer⟩
      · obtain ⟨caches, rounds⟩ := looking n p i at_look inside
        exact ⟨caches, rounds.of_frame toServer grows⟩
      · obtain ⟨caches, later, sent, rounds⟩ := sending n p i at_send inside
        exact ⟨caches, later, sent, rounds.of_frame (congrArg (· ++ _) toServer) grows⟩
    | client =>
      have begun : s.clientCopy ≠ .quint := once.1 rfl
      refine ⟨fun at_quint => absurd at_quint begun, fun n p i at_look inside => ?_,
        fun n p i at_send inside => ?_⟩
      · have taken' := taken
        simp only [step, copyFromClient, at_look, Option.some_inj] at taken'
        have unsent : observed cacheBlocks requests s (.client :: rest) =
            observed cacheBlocks requests next rest := by
          rw [observed_cons _ taken, requests, at_look]
          rfl
        by_cases more : i ≤ cacheBlocks
        · have seen : observed cacheBlocks (looks cacheBlocks) s (.client :: rest) =
              (i, s.blockCache) :: observed cacheBlocks (looks cacheBlocks) next rest := by
            rw [observed_cons _ taken, looks, at_look]
            dsimp only
            rw [if_pos more]
            rfl
          rw [if_pos more] at taken'
          rw [unsent, seen]
          cases cached : getCache s.blockCache (key n p) with
          | some block =>
            rw [cached] at taken'
            obtain ⟨caches, rounds⟩ := looking n p (i + 1) (taken' ▸ rfl) (by omega)
            refine ⟨_, rounds.cons more (fun k present => taken' ▸ present) ?_
              (taken' ▸ rounds.toServer)⟩
            rw [cached, if_neg (Option.some_ne_none block)]
          | none =>
            rw [cached] at taken'
            obtain ⟨caches, later, sent, rounds⟩ := sending n p i (taken' ▸ rfl) more
            refine ⟨_, rounds.cons more (fun k present => taken' ▸ present) ?_ ?_⟩
            · rw [if_pos cached, sent]
            · have total := rounds.toServer
              rw [← taken'] at total
              rw [sent, List.flatMap_cons, ← List.append_assoc]
              exact total
        · rw [if_neg more] at taken'
          have unseen : observed cacheBlocks (looks cacheBlocks) s (.client :: rest) =
              observed cacheBlocks (looks cacheBlocks) next rest := by
            rw [observed_cons _ taken, looks, at_look]
            dsimp only
            rw [if_neg more]
            rfl
          obtain ⟨none, nothing, same⟩ := quiet (taken' ▸ rfl)
          obtain rfl : i = cacheBlocks + 1 := by omega
          rw [unsent, unseen, none, nothing]
          refine ⟨fun _ => s.blockCache, ?_, ?_, ?_, fun _ present => present,
            fun _ _ _ present => present⟩
          · rw [Nat.sub_self]
            rfl
          · rw [Nat.sub_self]
            rfl
          · rw [same, List.flatMap_nil, List.append_nil, ← taken']
      · have taken' := taken
        simp only [step, copyFromClient, at_send, Option.some_inj] at taken'
        obtain ⟨caches, rounds⟩ := looking n p (i + 1) (taken' ▸ rfl) (by omega)
        refine ⟨caches, observed cacheBlocks requests next rest, ?_, ?_⟩
        · rw [observed_cons _ taken, requests, at_send]
          rfl
        · have unseen : observed cacheBlocks (looks cacheBlocks) s (.client :: rest) =
              observed cacheBlocks (looks cacheBlocks) next rest := by
            rw [observed_cons _ taken, looks, at_send]
            rfl
          rw [unseen]
          exact rounds.of_frame (taken' ▸ rfl) fun k present => taken' ▸ present

/-! ### The requests and what is meant -/

theorem prefetchQuint_eq (n p i : Nat) : prefetchQuint n p i = newQuint CMD_CACHE_READ n (p + i) := by
  show newQuint CMD_CACHE_READ (if p + i < p then n + 1 else n) (p + i) = _
  rw [if_neg (by omega)]

/-- Without a carry the request is the one that is meant. -/
theorem prefetchQuint_of_lt {n p i : Nat} (same : p + i < 65536) :
    prefetchQuint n p i = sectorQuint (key n p + i) := by
  have quotient : (key n p + i) / 65536 = n := by
    unfold key
    omega
  have remainder : (key n p + i) % 65536 = p + i := by
    unfold key
    omega
  rw [prefetchQuint_eq, sectorQuint, quotient, remainder]

theorem sectorQuint_inj {sector sector' : Nat} (there : sector < 2 ^ 32) (there' : sector' < 2 ^ 32)
    (same : sectorQuint sector = sectorQuint sector') : sector = sector' := by
  have high := congrArg Quint.n same
  have low := congrArg Quint.p same
  simp only [sectorQuint, n_newQuint, p_newQuint] at high low
  omega

/-- With a carry the request is for a sector before the one that was read. -/
theorem prefetchQuint_of_carry {n p i sector : Nat} (small : n < 65536) (carry : p + i = 65536)
    (there : sector < 2 ^ 32) (after : key n p < sector) :
    prefetchQuint n p i ≠ sectorQuint sector := by
  intro same
  rw [prefetchQuint_eq, sectorQuint] at same
  have high := congrArg Quint.n same
  have low := congrArg Quint.p same
  simp only [n_newQuint, p_newQuint] at high low
  unfold key at after
  omega

theorem present_of_grows {caches : Nat → BlockCache} {i j k : Nat}
    (grows : ∀ j k, i ≤ j → (caches j k).isSome → (caches (j + 1) k).isSome) (first : i ≤ j)
    {j' : Nat} (later : j ≤ j') (present : (caches j k).isSome) : (caches j' k).isSome := by
  induction later with
  | refl => exact present
  | step later inductionHypothesis =>
    exact grows _ k (first.trans later) inductionHypothesis

theorem mem_wantedAfter {sector : Nat} {caches : Nat → BlockCache} {first count : Nat}
    {quint : Quint} :
    quint ∈ wantedAfter sector ((List.range' first count).map fun j => (j, caches j)) ↔
      ∃ j, (first ≤ j ∧ j < first + count) ∧ Lacking (caches j) (sector + j) ∧
        quint = sectorQuint (sector + j) := by
  rw [wantedAfter, List.filter_map, List.map_map]
  constructor
  · intro member
    obtain ⟨j, inside, rfl⟩ := List.mem_map.mp member
    obtain ⟨range, lacking⟩ := List.mem_filter.mp inside
    exact ⟨j, List.mem_range'_1.mp range, of_decide_eq_true lacking, rfl⟩
  · rintro ⟨j, range, lacking, rfl⟩
    exact List.mem_map.mpr ⟨j, List.mem_filter.mpr
      ⟨List.mem_range'_1.mpr range, decide_eq_true lacking⟩, rfl⟩

/-- The requests are those that are meant just if the caches that the loop finds are steady. -/
theorem perm_iff_steady {q : Quint} {caches : Nat → BlockCache}
    (grows : ∀ j k, 1 ≤ j → (caches j k).isSome → (caches (j + 1) k).isSome) (count : Nat) :
    (((List.range' 1 count).filter fun j => getCache (caches j) (key q.n q.p) = none).map
        (prefetchQuint q.n q.p)).Perm
      (wantedAfter (key q.n q.p) ((List.range' 1 count).map fun j => (j, caches j))) ↔
    Steady q ((List.range' 1 count).map fun j => (j, caches j)) := by
  have n_lt := q.n_lt
  have p_lt := q.p_lt
  constructor
  · intro perm
    have sent : ∀ j, 1 ≤ j → j < 1 + count → getCache (caches j) (key q.n q.p) = none →
        prefetchQuint q.n q.p j ∈
          wantedAfter (key q.n q.p) ((List.range' 1 count).map fun j => (j, caches j)) := by
      intro j above below lacks
      exact perm.subset (List.mem_map_of_mem (List.mem_filter.mpr
        ⟨List.mem_range'_1.mpr ⟨above, below⟩, decide_eq_true lacks⟩))
    -- what is lacked in a round was lacked in all rounds before
    have earlier : ∀ i j, 1 ≤ i → i ≤ j → getCache (caches j) (key q.n q.p) = none →
        getCache (caches i) (key q.n q.p) = none := by
      intro i j above later lacks
      rw [← Option.not_isSome_iff_eq_none]
      intro present
      have still := present_of_grows grows above later present
      rw [show caches j (key q.n q.p) = none from lacks] at still
      cases still
    have carries : ∀ j, 1 ≤ j → j < 1 + count → getCache (caches j) (key q.n q.p) = none →
        q.p + j < 65536 := by
      intro j above below lacks
      by_contra carry
      have first := sent (65536 - q.p) (by omega) (by omega)
        (earlier _ j (by omega) (by omega) lacks)
      obtain ⟨i, range, lacking, same⟩ := mem_wantedAfter.mp first
      exact prefetchQuint_of_carry n_lt (by omega) lacking.1 (by omega) same
    have there : ∀ j, q.p + j < 65536 → key q.n q.p + j < 2 ^ 32 := by
      intro j short
      unfold key
      omega
    intro look member
    obtain ⟨j, range, rfl⟩ := List.mem_map.mp member
    obtain ⟨above, below⟩ := List.mem_range'_1.mp range
    refine ⟨fun lacks => ?_, fun lacking => ?_⟩
    · have short := carries j above below lacks
      refine ⟨short, ?_⟩
      obtain ⟨i, -, lacking, same⟩ := mem_wantedAfter.mp (sent j above below lacks)
      rw [prefetchQuint_of_lt short] at same
      have equal := sectorQuint_inj (there j short) lacking.1 same
      obtain rfl : j = i := by omega
      exact lacking.2
    · have wanted := perm.symm.subset (mem_wantedAfter.mpr ⟨j, ⟨above, below⟩, lacking, rfl⟩)
      obtain ⟨i, inside, same⟩ := List.mem_map.mp wanted
      obtain ⟨range', lacks'⟩ := List.mem_filter.mp inside
      obtain ⟨above', below'⟩ := List.mem_range'_1.mp range'
      have lacks := of_decide_eq_true lacks'
      have short := carries i above' below' lacks
      rw [prefetchQuint_of_lt short] at same
      have equal := sectorQuint_inj (there i short) lacking.1 same
      obtain rfl : i = j := by omega
      exact lacks
  · intro steady
    have each : ∀ j ∈ List.range' 1 count, _ := fun j range =>
      steady (j, caches j) (List.mem_map_of_mem range)
    refine List.Perm.of_eq ?_
    rw [wantedAfter, List.filter_map, List.map_map]
    have alike : (List.range' 1 count).filter (fun j =>
        getCache (caches j) (key q.n q.p) = none) =
        (List.range' 1 count).filter ((fun look : Look =>
          Lacking look.2 (key q.n q.p + look.1)) ∘ fun j => (j, caches j)) := by
      refine List.filter_congr fun j range => ?_
      obtain ⟨lacks, wanted⟩ := each j range
      refine decide_eq_decide.mpr ⟨fun none => ?_, wanted⟩
      obtain ⟨short, also⟩ := lacks none
      refine ⟨?_, also⟩
      dsimp only at short ⊢
      unfold key
      omega
    rw [← alike]
    refine List.map_congr_left fun j member => ?_
    obtain ⟨range, lacks⟩ := List.mem_filter.mp member
    exact prefetchQuint_of_lt ((each j range).1 (of_decide_eq_true lacks)).1

/-! ### The result -/

/-- A run that begins as the `CMD_BLOCK_READ` is about to be sent. -/
theorem rounds_of_send {q : Quint} {turns : List Turn} (at_send : s.clientCopy = .send q)
    (read : q.command = CMD_BLOCK_READ) (once : Meets (step cacheBlocks) OneMessage s turns)
    (reached : run (step cacheBlocks) s turns = some final) (back : final.clientCopy = .quint) :
    ∃ caches, Rounds cacheBlocks q.n q.p 1 { s with toServer := s.toServer ++ q.bytes } final caches
      (observed cacheBlocks (looks cacheBlocks) s turns) (observed cacheBlocks requests s turns) := by
  induction turns generalizing s with
  | nil =>
    rw [run_nil, Option.some_inj] at reached
    rw [reached, back] at at_send
    cases at_send
  | cons turn rest inductionHypothesis =>
    obtain ⟨next, taken, onward⟩ := run_cons_eq_some.mp reached
    have later := once.2 next taken
    cases turn with
    | server =>
      obtain ⟨stays, toServer, grows⟩ := copyFromServer_frame taken
      obtain ⟨caches, rounds⟩ := inductionHypothesis (stays.trans at_send) later onward
      rw [observed_cons _ taken, observed_cons _ taken]
      exact ⟨caches, rounds.of_frame (congrArg (· ++ _) toServer) grows⟩
    | client =>
      have unseen : observed cacheBlocks (looks cacheBlocks) s (.client :: rest) =
          observed cacheBlocks (looks cacheBlocks) next rest := by
        rw [observed_cons _ taken, looks, at_send]
        rfl
      have unsent : observed cacheBlocks requests s (.client :: rest) =
          observed cacheBlocks requests next rest := by
        rw [observed_cons _ taken, requests, at_send]
        rfl
      have bare : clientReadsPayload q = false := by
        rw [clientReadsPayload, read]
        exact Bool.and_false _
      obtain ⟨quiet, looking, -⟩ := rounds_of_run later onward back
      simp only [step, copyFromClient, at_send, bare, Bool.false_eq_true, if_false, afterMessage,
        read, and_true, Option.some_inj] at taken
      rw [unseen, unsent]
      by_cases some : cacheBlocks > 0
      · rw [if_pos some] at taken
        obtain ⟨caches, rounds⟩ := looking q.n q.p 1 (taken ▸ rfl) (by omega)
        exact ⟨caches, rounds.of_frame (taken ▸ rfl) fun k present => taken ▸ present⟩
      · rw [if_neg some] at taken
        obtain rfl : cacheBlocks = 0 := by omega
        obtain ⟨none, nothing, same⟩ := quiet (taken ▸ rfl)
        rw [none, nothing]
        refine ⟨fun _ => s.blockCache, rfl, rfl, ?_, fun _ present => present,
          fun _ _ _ present => present⟩
        rw [same, List.flatMap_nil, List.append_nil, ← taken]

/-- **Prefetches.** When a `CMD_BLOCK_READ` misses, and until the client's goroutine goes on to the
next message, the loop looks once for each of the next sectors, and after the `CMD_BLOCK_READ` the
server is sent the requests. They are those for the sectors that the cache lacks just if the caches
that the loop finds are steady. -/
theorem requested_iff_steady (cacheBlocks : Nat) {s final : State} {q : Quint} {rest : List UInt8}
    {turns : List Turn} (at_quint : s.clientCopy = .quint)
    (arrived : readQuint s.fromClient = some (q, rest)) (read : q.command = CMD_BLOCK_READ)
    (missed : getCache s.blockCache (key q.n q.p) = none)
    (once : ∀ next, step cacheBlocks s .client = some next →
      Meets (step cacheBlocks) OneMessage next turns)
    (reached : run (step cacheBlocks) s (.client :: turns) = some final)
    (back : final.clientCopy = .quint) :
    (observed cacheBlocks (looks cacheBlocks) s (.client :: turns)).map Prod.fst =
        List.range' 1 cacheBlocks ∧
      final.toServer = s.toServer ++ q.bytes ++
        (observed cacheBlocks requests s (.client :: turns)).flatMap Quint.bytes ∧
      ((observed cacheBlocks requests s (.client :: turns)).Perm
          (wantedAfter (key q.n q.p)
            (observed cacheBlocks (looks cacheBlocks) s (.client :: turns))) ↔
        Steady q (observed cacheBlocks (looks cacheBlocks) s (.client :: turns))) := by
  obtain ⟨next, taken, onward⟩ := run_cons_eq_some.mp reached
  have later := once next taken
  have unseen : observed cacheBlocks (looks cacheBlocks) s (.client :: turns) =
      observed cacheBlocks (looks cacheBlocks) next turns := by
    rw [observed_cons _ taken, looks, at_quint]
    rfl
  have unsent : observed cacheBlocks requests s (.client :: turns) =
      observed cacheBlocks requests next turns := by
    rw [observed_cons _ taken, requests, at_quint]
    rfl
  simp only [step, copyFromClient, at_quint, arrived, Option.map_some, read, if_true, missed,
    Option.some_inj] at taken
  obtain ⟨caches, rounds⟩ := rounds_of_send (taken ▸ rfl) read later onward back
  have toServer : next.toServer = s.toServer := taken ▸ rfl
  rw [unseen, unsent]
  generalize observed cacheBlocks (looks cacheBlocks) next turns = seen at rounds ⊢
  generalize observed cacheBlocks requests next turns = sent at rounds ⊢
  obtain ⟨rfl, rfl, total, -, grows⟩ := rounds
  rw [Nat.add_sub_cancel] at total ⊢
  refine ⟨?_, ?_, perm_iff_steady grows cacheBlocks⟩
  · rw [List.map_map]
    exact List.map_id _
  · rw [← toServer]
    exact total

end

/-! ### Seven blocks -/

/-- A client that reads sector 0 of the first drive. -/
def readsZero : State := start [] [readFirstBlock]

/-- The run to the end of the loop, with nothing in the cache. -/
theorem requested_iff_steady_readsZero :
    ∃ final, run (step 7) readsZero (List.replicate 17 .client) = some final ∧
      (observed 7 requests readsZero (List.replicate 17 .client)).Perm
        (wantedAfter 0 (observed 7 (looks 7) readsZero (List.replicate 17 .client))) := by
  have ends : (run (step 7) readsZero (List.replicate 17 .client)).map State.clientCopy =
      some .quint := by
    decide +kernel
  obtain ⟨final, reached, back⟩ := Option.map_eq_some_iff.mp ends
  have once : ∀ next, step 7 readsZero .client = some next →
      Meets (step 7) OneMessage next (List.replicate 16 .client) := by
    intro next taken
    obtain rfl := Option.some_inj.mp taken
    decide +kernel
  obtain ⟨-, -, exact⟩ := @requested_iff_steady 7 readsZero final (newQuint CMD_BLOCK_READ 0 0) []
    (List.replicate 16 .client) rfl rfl rfl rfl once reached back
  exact ⟨final, reached, exact.mpr (by decide +kernel)⟩

/-- The cache has sector 1. -/
def hasOne : State :=
  { readsZero with
    blockCache := putCache (fun _ => none) 1 (Block.copy []) }

/-- Sector 1 is asked for again. -/
theorem not_perm_hasOne :
    ¬(observed 7 requests hasOne (List.replicate 17 .client)).Perm
      (wantedAfter 0 (observed 7 (looks 7) hasOne (List.replicate 17 .client))) := by
  intro perm
  have lengths := perm.length_eq
  revert lengths
  decide +kernel

end Frobio.Conduit
