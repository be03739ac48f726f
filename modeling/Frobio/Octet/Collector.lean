/-
This file is about the collector of `octet/octet2.c`, and shows when a collection keeps
what can be reached from the roots: when there is nothing to be kept.

The mark is in the byte of the bucket. `ogc` masks it off before it looks for it, and so
finds no chunk marked. Whatever the marking has done, the sweep releases every chunk: what
the marking leaves alone, all bits but the marks, is all that the sweep reads.
-/

import Frobio.Octet.Chunks
import Frobio.Octet.Realloc

namespace Frobio.Octet

open Memory Arena

/-! ### Marking -/

/-- Some bytes have got the mark, and nothing else has changed. -/
structure Marks (h h' : Heap) : Prop where
  masked : ∀ a, h'.memory a &&& BUCK_MASK = h.memory a &&& BUCK_MASK
  begins : h'.oRamBegin = h.oRamBegin
  uses : h'.oRamUsed = h.oRamUsed
  ends : h'.oRamEnd = h.oRamEnd
  roots : h'.oMarkRoots = h.oMarkRoots

theorem Marks.refl (h : Heap) : Marks h h := ⟨fun _ => rfl, rfl, rfl, rfl, rfl⟩

theorem Marks.trans {h h' h'' : Heap} (first : Marks h h') (second : Marks h' h'') : Marks h h'' :=
  ⟨fun a => (second.masked a).trans (first.masked a), second.begins.trans first.begins,
    second.uses.trans first.uses, second.ends.trans first.ends, second.roots.trans first.roots⟩

theorem Marks.setBuck (h : Heap) (hdr : Nat) :
    Marks h (h.setBuck hdr (BUCK_MARK_BIT ||| h.buck hdr)) := by
  refine ⟨fun a => ?_, rfl, rfl, rfl, rfl⟩
  show oputb h.memory hdr (BUCK_MARK_BIT ||| h.buck hdr) a &&& BUCK_MASK = _
  rw [oputb_apply]
  split
  · rename_i same
    exact same ▸ marked_masked _
  · rfl

theorem Marks.kind {h h' : Heap} (marks : Marks h h') (c : Nat) : h'.view.kind c = h.view.kind c :=
  congrArg UInt8.toNat (marks.masked c)

variable (beyond : (Nat → UInt8) → Nat → Nat)

/-- `omark` and its loop call each other, and the rounds go down for both. -/
theorem marks_of_rounds (rounds : Nat) :
    (∀ h addr h', omark beyond rounds h addr = .ok h' → Marks h h') ∧
      ∀ h addr cap i h', markFields beyond rounds h addr cap i = .ok h' → Marks h h' := by
  induction rounds with
  | zero =>
    constructor
    · intro h addr h' returned
      cases returned
    · intro h addr cap i h' returned
      cases returned
  | succ rounds inductionHypothesis =>
    constructor
    · intro h addr h' returned
      rw [omark] at returned
      dsimp only at returned
      split at returned
      · cases returned
        exact .refl h
      split at returned
      · cases returned
      split at returned
      · cases returned
      split at returned
      · cases returned
      split at returned
      · cases returned
      split at returned
      · exact (Marks.setBuck h _).trans (inductionHypothesis.2 _ _ _ _ _ returned)
      · cases returned
        exact .setBuck h _
    · intro h addr cap i h' returned
      rw [markFields] at returned
      dsimp only at returned
      split at returned
      · split at returned
        · cases marked : omark beyond rounds h (ogetw h.memory (addr + i)) with
          | error stop =>
            rw [marked] at returned
            cases returned
          | ok between =>
            rw [marked] at returned
            exact (inductionHypothesis.1 _ _ _ marked).trans
              (inductionHypothesis.2 _ _ _ _ _ returned)
        · exact inductionHypothesis.2 _ _ _ _ _ returned
      · cases returned
        exact .refl h

theorem marks_of_markRoots {rounds : Nat} {roots : List Nat} {h h' : Heap}
    (returned : markRoots beyond rounds h roots = .ok h') : Marks h h' := by
  induction roots generalizing h with
  | nil =>
    cases returned
    exact .refl _
  | cons root rest inductionHypothesis =>
    rw [markRoots] at returned
    cases marked : omark beyond rounds h root with
    | error stop =>
      rw [marked] at returned
      cases returned
    | ok between =>
      rw [marked] at returned
      exact ((marks_of_rounds beyond rounds).1 _ _ _ marked).trans (inductionHypothesis returned)

/-- Roots that are null mark nothing. -/
theorem markRoots_of_null {rounds : Nat} {roots : List Nat} (h : Heap)
    (null : ∀ root ∈ roots, root = 0) : markRoots beyond (rounds + 1) h roots = .ok h := by
  induction roots with
  | nil => rfl
  | cons root rest inductionHypothesis =>
    have first : omark beyond (rounds + 1) h root = .ok h := if_pos (null root List.mem_cons_self)
    rw [markRoots, first]
    exact inductionHypothesis fun r member => null r (List.mem_cons_of_mem _ member)

/-! ### Sweeping -/

/-- The sweep has come to a place: what is before it is free, and what is behind it is not on any
list. The chunks are those of the heap before the collection. -/
structure Swept (start h : Heap) (chunks : List Nat) (p : Nat) : Prop where
  stocked : Stocked h.view h.oBucket (· < p) h.oRamBegin chunks h.oRamUsed
  kinds : ∀ c ∈ chunks, h.view.kind c = start.view.kind c
  clear : ∀ c ∈ chunks, c < p → (h.buck c).toNat < NUM_BUCKETS ∧ h.cls c = 0 ∧
    ∀ i, 2 ≤ i → i < capOf (h.view.kind c) → h.memory (c + HDR_SIZE + i) = 0
  front : p ∈ chunks ∨ p = h.oRamUsed
  begins : h.oRamBegin = start.oRamBegin
  uses : h.oRamUsed = start.oRamUsed
  ends : h.oRamEnd = start.oRamEnd
  roots : h.oMarkRoots = start.oMarkRoots

section

variable {start h h' : Heap} {chunks : List Nat} {p : Nat}

/-- The bucket that is left in the header is the one under the mask. -/
theorem Releases.unmark (releases : Releases h h' p) :
    Releases h (h'.setBuck p (h'.buck p &&& BUCK_MASK)) p := by
  have elsewhere : ∀ a, a ≠ p → (h'.setBuck p (h'.buck p &&& BUCK_MASK)).memory a = h'.memory a :=
    fun a other => (oputb_apply _ _ _ _).trans (if_neg other)
  have here : (h'.setBuck p (h'.buck p &&& BUCK_MASK)).buck p = h'.buck p &&& BUCK_MASK :=
    (oputb_apply _ _ _ _).trans (if_pos rfl)
  have header : HDR_SIZE = 2 := rfl
  refine { releases with
    outside := fun a outside => ?_, kind := ?_, cls := ?_, next := ?_, rest := fun i low high => ?_ }
  · have size := h.size_view p
    exact (elsewhere a (by omega)).trans (releases.outside a outside)
  · refine Eq.trans ?_ releases.kind
    show ((h'.setBuck p (h'.buck p &&& BUCK_MASK)).buck p &&& BUCK_MASK).toNat = _
    rw [here, masked_masked]
    rfl
  · exact (elsewhere (p + 1) (by omega)).trans releases.cls
  · refine (ogetw_congr ?_ ?_).trans releases.next
    · exact elsewhere _ (by omega)
    · exact elsewhere _ (by omega)
  · rw [elsewhere _ (by omega)]
    exact releases.rest i low high

/-- Whatever the header says of a mark, the sweep releases the chunk. -/
theorem sweepChunk_eq (valid : h.view.kind p < NUM_BUCKETS) :
    sweepChunk beyond h p =
      ((h.release p (h.view.kind p) (capOf (h.view.kind p))).setBuck p
        ((h.release p (h.view.kind p) (capOf (h.view.kind p))).buck p &&& BUCK_MASK),
        (p + HDR_SIZE + capOf (h.view.kind p)) % 65536) := by
  have masked : BUCK_MASK &&& h.buck p = h.buck p &&& BUCK_MASK := UInt8.and_comm _ _
  have table : h.cap beyond (h.buck p &&& BUCK_MASK) = capOf (h.view.kind p) :=
    h.cap_of_valid beyond valid
  have unmarked : BUCK_MARK_BIT &&& (h.buck p &&& BUCK_MASK) = 0 := masked ▸ mark_masked _
  rw [sweepChunk, masked, table, if_pos (.inr unmarked)]
  rfl

theorem Swept.head_lt (swept : Swept start h chunks p) (bounded : start.oRamUsed < 65536)
    (b : Nat) : h.oBucket b < 65536 := by
  by_cases empty : h.oBucket b = 0
  · omega
  · have inside := swept.stocked.tiles.within (swept.stocked.head_free empty).1
    have uses := swept.uses
    omega

/-- What the body of the sweep does, from one chunk to the next. -/
theorem Swept.step (swept : Swept start h chunks p)
    (valid : ∀ c ∈ chunks, start.view.kind c < NUM_BUCKETS) (positive : 0 < start.oRamBegin)
    (bounded : start.oRamUsed < 65536) (more : p < h.oRamUsed) :
    Swept start (sweepChunk beyond h p).1 chunks (sweepChunk beyond h p).2 ∧
      p < (sweepChunk beyond h p).2 := by
  have uses := swept.uses
  have tiles := swept.stocked.tiles
  have member : p ∈ chunks := swept.front.resolve_right (Nat.ne_of_lt more)
  have valid' : ∀ c ∈ chunks, h.view.kind c < NUM_BUCKETS := fun c inside =>
    (swept.kinds c inside).symm ▸ valid c inside
  have inside := tiles.within member
  have size := h.size_view p
  have word : p + HDR_SIZE + capOf (h.view.kind p) < 65536 := by omega
  have releases : Releases h (sweepChunk beyond h p).1 p := by
    rw [sweepChunk_eq beyond (valid' p member)]
    exact (Heap.release_releases (valid' p member) (swept.head_lt bounded _)).unmark
  have next : (sweepChunk beyond h p).2 = p + h.view.size p := by
    rw [sweepChunk_eq beyond (valid' p member)]
    show (p + HDR_SIZE + capOf (h.view.kind p)) % 65536 = _
    rw [Nat.mod_eq_of_lt word, size, Nat.add_assoc]
  have unmarked : ((sweepChunk beyond h p).1.buck p).toNat < NUM_BUCKETS := by
    rw [sweepChunk_eq beyond (valid' p member)]
    have here : ((h.release p (h.view.kind p) (capOf (h.view.kind p))).setBuck p
        ((h.release p (h.view.kind p) (capOf (h.view.kind p))).buck p &&& BUCK_MASK)).buck p =
        (h.release p (h.view.kind p) (capOf (h.view.kind p))).buck p &&& BUCK_MASK :=
      (oputb_apply _ _ _ _).trans (if_pos rfl)
    rw [here, Heap.buck_release]
    exact valid' p member
  have before : ∀ c ∈ chunks, c < p + h.view.size p ↔ c = p ∨ c < p := by
    intro c listed
    by_cases same : c = p
    · omega
    · have apart := tiles.apart listed member same
      have positive' := (tiles.within listed).2.1
      omega
  rw [next]
  refine ⟨⟨?_, fun c listed => ?_, fun c listed passed => ?_, ?_, releases.begins.trans swept.begins,
    releases.uses.trans uses, releases.ends.trans swept.ends, releases.roots.trans swept.roots⟩,
    by omega⟩
  · exact releases.stocked swept.stocked valid' (swept.begins ▸ positive) member
      (Nat.lt_irrefl p) before
  · exact (releases.outside.kind tiles member releases.kind valid' listed).trans
      (swept.kinds c listed)
  · rcases (before c listed).mp passed with rfl | earlier
    · refine ⟨unmarked, releases.cls, fun i low high => releases.rest i low ?_⟩
      exact releases.kind ▸ high
    · have other : c ≠ p := Nat.ne_of_lt earlier
      obtain ⟨buck, cls, -⟩ := releases.outside.view_of_ne tiles member listed other (valid' c listed)
      obtain ⟨small, zero, rest⟩ := swept.clear c listed earlier
      have kind : (sweepChunk beyond h p).1.view.kind c = h.view.kind c :=
        congrArg (fun x : UInt8 => (x &&& BUCK_MASK).toNat) buck
      refine ⟨buck.symm ▸ small, cls.trans zero, fun i low high => ?_⟩
      rw [kind] at high
      have size' := h.size_view c
      rw [Nat.add_assoc, releases.outside.memory_of_ne tiles member listed other (by omega),
        ← Nat.add_assoc]
      exact rest i low high
  · rw [releases.uses]
    exact tiles.next_mem member

/-- A sweep that returns has gone through all chunks. -/
theorem Swept.sweep_of_ok (swept : Swept start h chunks p)
    (valid : ∀ c ∈ chunks, start.view.kind c < NUM_BUCKETS) (positive : 0 < start.oRamBegin)
    (bounded : start.oRamUsed < 65536) {rounds : Nat}
    (returned : sweep beyond rounds h p = .ok h') : Swept start h' chunks start.oRamUsed := by
  induction rounds generalizing h p with
  | zero => cases returned
  | succ rounds inductionHypothesis =>
    rw [sweep] at returned
    split at returned
    · rename_i more
      exact inductionHypothesis (swept.step beyond valid positive bounded more).1 returned
    · rename_i done
      have arrived : p = h.oRamUsed := by
        refine swept.front.resolve_left fun member => done ?_
        have inside := swept.stocked.tiles.within member
        omega
      cases returned
      exact (arrived.trans swept.uses) ▸ swept

/-- With a round for each byte of the arena, the sweep returns. -/
theorem Swept.exists_sweep (swept : Swept start h chunks p)
    (valid : ∀ c ∈ chunks, start.view.kind c < NUM_BUCKETS) (positive : 0 < start.oRamBegin)
    (bounded : start.oRamUsed < 65536) {rounds : Nat} (enough : start.oRamUsed - p < rounds) :
    ∃ h', sweep beyond rounds h p = .ok h' := by
  induction rounds generalizing h p with
  | zero => exact absurd enough (Nat.not_lt_zero _)
  | succ rounds inductionHypothesis =>
    rw [sweep]
    split
    · rename_i more
      obtain ⟨after, further⟩ := swept.step beyond valid positive bounded more
      have uses := swept.uses
      have fewer : start.oRamUsed - (sweepChunk beyond h p).2 < rounds := by omega
      exact inductionHypothesis after fewer
    · exact ⟨h, rfl⟩

end

/-! ### The collection -/

section

variable {h h' : Heap} {chunks roots : List Nat}

/-- The sweep begins with no chunk on any list. -/
theorem TiledBy.swept_of_marks (tiled : TiledBy h chunks) (marks : Marks h h') :
    Swept h { h' with oBucket := fun _ => 0 } chunks h'.oRamBegin := by
  have sizes : ∀ c ∈ chunks, h'.view.size c = h.view.size c := by
    intro c _
    rw [Heap.size_view, Heap.size_view, marks.kind c]
  have tiles : Tiles h'.view.size h'.oRamBegin chunks h'.oRamUsed := by
    rw [marks.begins, marks.uses]
    exact tiled.tiles.congr sizes
  have later : ∀ c ∈ chunks, ¬c < h'.oRamBegin := fun c member =>
    Nat.not_lt.mpr (tiles.within member).1
  refine ⟨.of_not_free tiles (fun _ => rfl) later, fun c _ => marks.kind c, fun c member passed => ?_,
    ?_, marks.begins, marks.uses, marks.ends, marks.roots⟩
  · exact absurd passed (later c member)
  · by_cases some : h'.oRamBegin < h'.oRamUsed
    · exact .inl (tiles.first_mem some)
    · exact .inr (Nat.le_antisymm tiles.le (Nat.not_lt.mp some))

theorem TiledBy.kind_lt (tiled : TiledBy h chunks) {c : Nat} (member : c ∈ chunks) :
    h.view.kind c < NUM_BUCKETS :=
  (Heap.kind_of_valid (tiled.valid c member)).symm ▸ tiled.valid c member

/-- Whatever the roots are, a collection that returns has released every chunk. -/
theorem TiledBy.swept_of_ogc (tiled : TiledBy h chunks) (set : h.oMarkRoots = some roots)
    {rounds : Nat} (returned : ogc beyond rounds h = .ok h') : Swept h h' chunks h.oRamUsed := by
  rw [ogc, set] at returned
  dsimp only at returned
  cases marked : markRoots beyond rounds h roots with
  | error stop =>
    rw [marked] at returned
    cases returned
  | ok between =>
    rw [marked] at returned
    exact (tiled.swept_of_marks (marks_of_markRoots beyond marked)).sweep_of_ok beyond
      (fun _ => tiled.kind_lt) tiled.positive tiled.bounded returned

/-- If the roots are null, the collection returns. -/
theorem TiledBy.exists_ogc (tiled : TiledBy h chunks) (set : h.oMarkRoots = some roots)
    (null : ∀ root ∈ roots, root = 0) : ∃ rounds h', ogc beyond rounds h = .ok h' := by
  refine ⟨h.oRamUsed - h.oRamBegin + 1, ?_⟩
  rw [ogc, set]
  dsimp only
  rw [markRoots_of_null beyond h null]
  exact (tiled.swept_of_marks (.refl h)).exists_sweep beyond (fun _ => tiled.kind_lt)
    tiled.positive tiled.bounded (Nat.lt_succ_self _)

end

/-- The objects that can be reached from the roots. An object whose class says so has pointers at
its even offsets. -/
inductive Reached (h : Heap) (roots : List Nat) : Nat → Prop
  | root {r : Nat} (member : r ∈ roots) (some : r ≠ 0) : Reached h roots r
  | field {obj i : Nat} (reached : Reached h roots obj)
      (pointers : O_LAST_NONPTR_CLASS < h.cls (obj - HDR_SIZE))
      (inside : i < capOf (h.view.kind (obj - HDR_SIZE))) (even : i % 2 = 0)
      (low : h.oRamBegin < ogetw h.memory (obj + i)) (high : ogetw h.memory (obj + i) < h.oRamEnd)
      (aligned : ogetw h.memory (obj + i) % 2 = 0) : Reached h roots (ogetw h.memory (obj + i))

/-- The collection returns and keeps what can be reached. The lists have the chunks that were free
and those that cannot be reached, each under its bucket. -/
def Collects (h : Heap) (chunks roots : List Nat) : Prop :=
  ∃ rounds h', ogc beyond rounds h = .ok h' ∧
    (∀ obj, Reached h roots obj → Untouched beyond h h' obj) ∧
    ∀ b < NUM_BUCKETS,
      Shelf h'.view (fun c => h.cls c = 0 ∨ ¬Reached h roots (c + HDR_SIZE)) chunks b (h'.oBucket b)

section

variable {beyond} {h : Heap} {chunks roots : List Nat}

/-- An object that is a root loses its class. -/
theorem TiledBy.not_collects_of_root (tiled : TiledBy h chunks) (set : h.oMarkRoots = some roots)
    {c : Nat} (member : c ∈ chunks) (live : h.cls c ≠ 0) (root : c + HDR_SIZE ∈ roots) :
    ¬Collects beyond h chunks roots := by
  rintro ⟨rounds, h', returned, kept, -⟩
  have nonzero : c + HDR_SIZE ≠ 0 := by
    rw [HDR_SIZE]
    omega
  have same : h'.cls c = h.cls c := (kept _ (.root root nonzero)).cls
  have swept := tiled.swept_of_ogc beyond set returned
  have inside := tiled.tiles.within member
  have lost := (swept.clear c member (by omega)).2.1
  exact live (same.symm.trans lost)

/-- Nothing can be reached from null. -/
theorem not_reached_of_null (null : ∀ root ∈ roots, root = 0) : ∀ obj, ¬Reached h roots obj := by
  intro obj reached
  induction reached with
  | root member some => exact some (null _ member)
  | field _ _ _ _ _ _ _ inductionHypothesis => exact inductionHypothesis

theorem TiledBy.collects_of_null (tiled : TiledBy h chunks) (set : h.oMarkRoots = some roots)
    (null : ∀ root ∈ roots, root = 0) : Collects beyond h chunks roots := by
  have nothing := not_reached_of_null (h := h) null
  obtain ⟨rounds, h', returned⟩ := tiled.exists_ogc beyond set null
  have swept := tiled.swept_of_ogc beyond set returned
  refine ⟨rounds, h', returned, fun obj reached => absurd reached (nothing obj), fun b _ => ?_⟩
  refine (swept.stocked.shelf b).congr (fun _ _ => rfl) (fun _ _ _ _ => rfl) fun c member _ => ?_
  have inside := tiled.tiles.within member
  exact iff_of_true (.inr (nothing _)) (by omega)

/-- If the roots are live objects or null: the collection is right if and only if all of them
are null. -/
theorem collects_iff (beyond : (Nat → UInt8) → Nat → Nat) (h : Heap) (chunks roots : List Nat)
    (tiled : TiledBy h chunks) (set : h.oMarkRoots = some roots)
    (objects : ∀ root ∈ roots, root = 0 ∨ ∃ c ∈ chunks, root = c + HDR_SIZE ∧ h.cls c ≠ 0) :
    Collects beyond h chunks roots ↔ ∀ root ∈ roots, root = 0 := by
  refine ⟨fun collects root member => ?_, tiled.collects_of_null set⟩
  rcases objects root member with null | ⟨c, listed, rfl, live⟩
  · exact null
  · exact absurd collects (tiled.not_collects_of_root set listed live member)

end

/-- The heap after one object of four bytes is allocated. -/
def oneAllocated (roots : List Nat) : Heap :=
  match oalloc (fun _ _ => 0) 0 (oinit (fun _ => 0) 0x1000 0x2000 (some roots)) 4 1 with
  | .ok (_, h) => h
  | .error _ => oinit (fun _ => 0) 0x1000 0x2000 (some roots)

theorem tiledBy_oneAllocated (roots : List Nat) : TiledBy (oneAllocated roots) [0x1000] := by
  have buck : (oneAllocated roots).buck 0x1000 = 0 := by
    show ozero (oputb (oputb (fun _ => 0) 0x1000 0) 0x1001 1) 0x1002 4 0x1000 = 0
    rw [ozero_apply, if_neg (by decide), oputb_apply, if_neg (by decide), oputb_apply, if_pos rfl]
  have size : (oneAllocated roots).view.size 0x1000 = 6 := by
    show HDR_SIZE + capOf ((oneAllocated roots).buck 0x1000 &&& BUCK_MASK).toNat = 6
    rw [buck]
    rfl
  refine ⟨⟨rfl, ?_, ?_⟩, ?_, ?_, ?_⟩
  · rw [size]
    decide
  · show 0x1000 + (oneAllocated roots).view.size 0x1000 = 0x1006
    rw [size]
  · intro c member
    rw [List.mem_singleton.mp member, buck]
    decide
  · exact (show 0 < 0x1000 by decide)
  · exact (show 0x1006 < 65536 by decide)

/-- With no root set, the object is collected as it should be. -/
theorem collects_oneAllocated : Collects (fun _ _ => 0) (oneAllocated [0]) [0x1000] [0] :=
  (collects_iff _ _ _ _ (tiledBy_oneAllocated [0]) rfl (by decide)).mpr (by decide)

/-- The object is the root, and the collection frees it. -/
theorem not_collects_oneRoot :
    (∃ h, oalloc (fun _ _ => 0) 0 (oinit (fun _ => 0) 0x1000 0x2000 (some [0x1002])) 4 1 =
      .ok (0x1002, h) ∧ h = oneAllocated [0x1002]) ∧
      ¬Collects (fun _ _ => 0) (oneAllocated [0x1002]) [0x1000] [0x1002] := by
  refine ⟨⟨_, rfl, rfl⟩, (tiledBy_oneAllocated [0x1002]).not_collects_of_root rfl
    (List.mem_singleton_self _) ?_ (List.mem_singleton_self _)⟩
  exact (show (1 : UInt8) ≠ 0 by decide)

end Frobio.Octet
