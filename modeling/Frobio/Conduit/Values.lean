/-
This file relates the blocks in the cache, on the disk and in the messages in
flight to the blocks the client most recently wrote.

A sector is out of sight while a write to it is on its way through
`CopyFromClient`, since the cache is brought up to date last; `Pending` is that
stretch. When it ends, `PutCache` hides the old block only for good if nothing is
left that can bring it back. `NothingStale` is that condition: no prefetch of the
sector is still to be answered with the old block, no answer with another block is
still to be cached, and no other key of the same sector holds another block.

There is one lemma for each event that changes what `Values` is about.
-/

import Frobio.Conduit.System

namespace Frobio.Conduit

open Coms

/-! ### The condition -/

/-- Once the payload is cached as the block `(n, p)`, nothing in flight or in the cache stands for
an older block of the same sector. -/
def NothingStale (s : State) (n p : Nat) (payload : List UInt8) : Prop :=
  (∀ request ∈ requestsInFlight s, request.1.command = CMD_CACHE_READ →
    lsnOf request.1 ≠ SeekSectorReturnLSN n p) ∧
  (∀ answer ∈ answersInFlight s, answer.1.command = CMD_CACHE_OKAY →
    lsnOf answer.1 = SeekSectorReturnLSN n p → answer.2 = payload) ∧
  ∀ high < 256, high * 256 + n % 256 = n ∨
    getCache s.blockCache (key (high * 256 + n % 256) p) = none ∨
    getCache s.blockCache (key (high * 256 + n % 256) p) = some (Block.copy payload)

instance (s : State) (n p : Nat) (payload : List UInt8) :
    Decidable (NothingStale s n p payload) :=
  inferInstanceAs (Decidable (_ ∧ _ ∧ _))

/-- `CopyFromClient` puts a written block into the cache only when nothing is left to undo it, and
the server is not asked to read `n = p = 0xFFFF`. -/
def KeepsCoherent (s : System) : Action → Prop
  | .copy .client =>
    match s.conduit.clientCopy with
    | .update n p payload => NothingStale s.conduit n p payload
    | _ => True
  | .serve =>
    match readQuint s.conduit.toServer with
    | some (q, _) => q.command = CMD_BLOCK_WRITE ∨ ¬(q.n = 0xFFFF ∧ q.p = 0xFFFF)
    | none => True
  | _ => True

instance (s : System) (action : Action) : Decidable (KeepsCoherent s action) := by
  unfold KeepsCoherent
  split
  · split <;> infer_instance
  · split <;> infer_instance
  · infer_instance

/-! ### Kinds of messages -/

def writes (requests : List ClientMessage) : List ClientMessage :=
  requests.filter fun m => m.quint.command == CMD_BLOCK_WRITE

def prefetches (requests : List ClientMessage) : List ClientMessage :=
  requests.filter fun m => m.quint.command == CMD_CACHE_READ

/-- The requests the client itself made. -/
def wanted (requests : List ClientMessage) : List ClientMessage :=
  requests.filter fun m => m.quint.command != CMD_CACHE_READ

def prefetched (answers : List ServerMessage) : List ServerMessage :=
  answers.filter fun m => m.quint.command == CMD_CACHE_OKAY

/-- The answers that go to the client. -/
def replies (answers : List ServerMessage) : List ServerMessage :=
  answers.filter fun m => m.quint.command != CMD_CACHE_OKAY

theorem writes_eq_writes_wanted (requests : List ClientMessage) :
    writes requests = writes (wanted requests) := by
  rw [writes, writes, wanted, List.filter_filter]
  refine List.filter_congr fun m _ => ?_
  by_cases write : m.quint.command = CMD_BLOCK_WRITE
  · rw [write]
    rfl
  · simp [write]

/-! ### The values -/

/-- The write `CopyFromClient` has forwarded and not yet cached. -/
def ClientCopy.uncached : ClientCopy → Option (Nat × Nat × List UInt8)
  | .update n p buffer => some (n, p, buffer)
  | _ => none

/-- A write to the sector is on its way through `CopyFromClient`. -/
def Pending (unsent : List ClientMessage) (uncached : Option (Nat × Nat × List UInt8))
    (lsn : Nat) : Prop :=
  (∃ m ∈ unsent, lsnOf m.quint = lsn) ∨
    ∃ n p payload, uncached = some (n, p, payload) ∧ SeekSectorReturnLSN n p = lsn

/-- How the cache, the disk and the messages in flight relate to the blocks most recently written.
The writes are split into the ones `CopyFromClient` has yet to forward and the ones it sent. -/
structure Values (newest : Nat → Block) (cache : BlockCache) (disk : List UInt8)
    (unsent sent asked : List ClientMessage) (told : List ServerMessage)
    (uncached : Option (Nat × Nat × List UInt8)) : Prop where
  cached : ∀ n p block, n < 65536 → p < 65536 → getCache cache (key n p) = some block →
    ¬Pending unsent uncached (SeekSectorReturnLSN n p) → block = newest (SeekSectorReturnLSN n p)
  told : ∀ m ∈ told, ¬Pending unsent uncached (lsnOf m.quint) →
    m.payload = (newest (lsnOf m.quint)).bytes
  asked : ∀ m ∈ sent, ∀ request ∈ asked, lsnOf request.quint = lsnOf m.quint →
    Pending unsent uncached (lsnOf m.quint)
  disk : ∀ lsn, (∀ m ∈ unsent ++ sent, lsnOf m.quint ≠ lsn) → sector disk lsn = newest lsn
  written : ∀ m ∈ unsent ++ sent, m.payload = (newest (lsnOf m.quint)).bytes
  uncached : ∀ n p payload, uncached = some (n, p, payload) → n < 65536 ∧ p < 65536 ∧
    ((∀ m ∈ unsent, lsnOf m.quint ≠ SeekSectorReturnLSN n p) →
      payload = (newest (SeekSectorReturnLSN n p)).bytes)

theorem key_inj {n p n' p' : Nat} (small : p < 65536) (small' : p' < 65536)
    (same : key n p = key n' p') : n = n' ∧ p = p' := by
  unfold key at same
  omega

theorem Pending.of_append {unsent : List ClientMessage}
    {uncached : Option (Nat × Nat × List UInt8)} {lsn : Nat} (quiet : ¬Pending unsent uncached lsn) :
    ∀ m ∈ unsent, lsnOf m.quint ≠ lsn :=
  fun m member same => quiet (.inl ⟨m, member, same⟩)

namespace Values

variable {newest : Nat → Block} {cache : BlockCache} {disk : List UInt8}
  {unsent sent asked : List ClientMessage} {told : List ServerMessage}
  {uncached : Option (Nat × Nat × List UInt8)}

/-- `CopyFromServer` caches the answer to a prefetch. -/
theorem cacheAnswer {m : ServerMessage}
    (values : Values newest cache disk unsent sent asked (m :: told) uncached) :
    Values newest (putCache cache (key m.quint.n m.quint.p) (Block.copy m.payload)) disk unsent sent
      asked told uncached := by
  refine ⟨?_, fun other member => values.told other (List.mem_cons_of_mem _ member), values.asked,
    values.disk, values.written, values.uncached⟩
  intro n p block small small' found quiet
  by_cases same : key n p = key m.quint.n m.quint.p
  · obtain ⟨rfl, rfl⟩ := key_inj small' m.quint.p_lt same
    rw [getCache_putCache_self, Option.some_inj] at found
    rw [← found, values.told m List.mem_cons_self quiet, Block.copy_bytes]
    rfl
  · rw [getCache_putCache_of_ne _ _ same] at found
    exact values.cached n p block small small' found quiet

/-- `CopyFromServer` caches the answer to a read of the client. -/
theorem cacheReply {q : Quint}
    (values : Values newest cache disk unsent sent asked told uncached) :
    Values newest (putCache cache (key q.n q.p) (newest (lsnOf q))) disk unsent sent asked told
      uncached := by
  refine ⟨?_, values.told, values.asked, values.disk, values.written, values.uncached⟩
  intro n p block small small' found quiet
  by_cases same : key n p = key q.n q.p
  · obtain ⟨rfl, rfl⟩ := key_inj small' q.p_lt same
    rw [getCache_putCache_self, Option.some_inj] at found
    rw [← found]
    rfl
  · rw [getCache_putCache_of_ne _ _ same] at found
    exact values.cached n p block small small' found quiet

/-- `CopyFromClient` has sent a write, and is yet to cache it. -/
theorem forward {m : ClientMessage} (values : Values newest cache disk [m] [] asked told none) :
    Values newest cache disk [] [m] asked told (some (m.quint.n, m.quint.p, m.payload)) := by
  have same : ∀ lsn, Pending [] (some (m.quint.n, m.quint.p, m.payload)) lsn ↔
      Pending [m] none lsn := by
    intro lsn
    simp [Pending, lsnOf]
  refine ⟨?_, ?_, ?_, values.disk, values.written, ?_⟩
  · intro n p block small small' found quiet
    exact values.cached n p block small small' found (mt (same _).mpr quiet)
  · intro other member quiet
    exact values.told other member (mt (same _).mpr quiet)
  · intro other member request _ _
    rw [List.mem_singleton] at member
    exact (same _).mpr (.inl ⟨m, List.mem_singleton_self m, member ▸ rfl⟩)
  · rintro n p payload ⟨⟩
    exact ⟨m.quint.n_lt, m.quint.p_lt, fun _ => values.written m List.mem_cons_self⟩

/-- `CopyFromClient` caches a write, and nothing is left to undo it. -/
theorem update {n p : Nat} {payload : List UInt8}
    (values : Values newest cache disk unsent sent asked told (some (n, p, payload)))
    (noRequest : ∀ request ∈ asked, lsnOf request.quint ≠ SeekSectorReturnLSN n p)
    (noAnswer : ∀ answer ∈ told, lsnOf answer.quint = SeekSectorReturnLSN n p →
      answer.payload = payload)
    (noAlias : ∀ high < 256, high * 256 + n % 256 = n ∨
      getCache cache (key (high * 256 + n % 256) p) = none ∨
      getCache cache (key (high * 256 + n % 256) p) = some (Block.copy payload)) :
    Values newest (putCache cache (key n p) (Block.copy payload)) disk unsent sent asked told
      none := by
  obtain ⟨-, inRange, newestPayload⟩ := values.uncached n p payload rfl
  -- a sector that is quiet now was quiet before, or it is the one just cached
  have cases : ∀ lsn, ¬Pending unsent none lsn → ¬Pending unsent (some (n, p, payload)) lsn ∨
      lsn = SeekSectorReturnLSN n p := by
    intro lsn quiet
    by_cases this : lsn = SeekSectorReturnLSN n p
    · exact .inr this
    · refine .inl fun pending => ?_
      rcases pending with unsentWrite | ⟨n', p', payload', same, here⟩
      · exact quiet (.inl unsentWrite)
      · cases same
        exact this here.symm
  refine ⟨?_, ?_, ?_, values.disk, values.written, fun _ _ _ none => by cases none⟩
  · intro n' p' block small small' found quiet
    by_cases same : key n' p' = key n p
    · obtain ⟨rfl, rfl⟩ := key_inj small' inRange same
      rw [getCache_putCache_self, Option.some_inj] at found
      rw [← found, newestPayload (Pending.of_append quiet), Block.copy_bytes]
    rw [getCache_putCache_of_ne _ _ same] at found
    rcases cases _ quiet with before | this
    · exact values.cached n' p' block small small' found before
    · have byte : n' % 256 = n % 256 ∧ p' = p := by
        unfold SeekSectorReturnLSN at this
        omega
      have split : n' / 256 * 256 + n % 256 = n' := by omega
      have other := noAlias (n' / 256) (by omega)
      rw [split, ← byte.2, found] at other
      rcases other with equal | missing | same'
      · rw [equal, byte.2] at same
        exact absurd rfl same
      · cases missing
      · rw [Option.some_inj.mp same', this, newestPayload (Pending.of_append (this ▸ quiet)),
          Block.copy_bytes]
  · intro m member quiet
    rcases cases _ quiet with before | this
    · exact values.told m member before
    · rw [noAnswer m member this, this]
      exact newestPayload (Pending.of_append (this ▸ quiet))
  · intro m member request waits same
    by_contra quiet
    rcases cases _ quiet with before | this
    · exact before (values.asked m member request waits same)
    · exact noRequest request waits (same.trans this)

/-- `CopyFromClient` sends a prefetch, while no write waits at the server. -/
theorem prefetch (values : Values newest cache disk unsent [] asked told uncached)
    (asked' : List ClientMessage) :
    Values newest cache disk unsent [] asked' told uncached :=
  ⟨values.cached, values.told, fun _ member => (List.not_mem_nil member).elim, values.disk,
    values.written, values.uncached⟩

/-- The client writes a block. -/
theorem issue (values : Values newest cache disk [] [] asked told uncached) (m : ClientMessage)
    (block : Block) (carried : m.payload = block.bytes) :
    Values (fun lsn => if lsn = lsnOf m.quint then block else newest lsn) cache disk [m] [] asked
      told uncached := by
  have apart : ∀ lsn, ¬Pending [m] uncached lsn → lsn ≠ lsnOf m.quint ∧
      ¬Pending [] uncached lsn := by
    intro lsn quiet
    refine ⟨fun same => quiet (.inl ⟨m, List.mem_singleton_self m, same.symm⟩), fun pending => ?_⟩
    rcases pending with ⟨_, absent, _⟩ | waits
    · exact (List.not_mem_nil absent).elim
    · exact quiet (.inr waits)
  refine ⟨?_, ?_, ?_, ?_, ?_, ?_⟩
  · intro n p old small small' found quiet
    obtain ⟨other, before⟩ := apart _ quiet
    rw [if_neg other]
    exact values.cached n p old small small' found before
  · intro answer member quiet
    obtain ⟨other, before⟩ := apart _ quiet
    rw [if_neg other]
    exact values.told answer member before
  · exact fun _ member => (List.not_mem_nil member).elim
  · intro lsn unwritten
    rw [if_neg fun same => unwritten m (List.mem_singleton_self m) same.symm]
    exact values.disk lsn fun _ member => (List.not_mem_nil member).elim
  · intro other member
    rw [List.append_nil, List.mem_singleton] at member
    rw [member, if_pos rfl, carried]
  · intro n p payload waits
    obtain ⟨inRange, inRange', newestPayload⟩ := values.uncached n p payload waits
    refine ⟨inRange, inRange', fun apart => ?_⟩
    rw [if_neg fun same => apart m (List.mem_singleton_self m) same.symm]
    exact newestPayload fun _ member => (List.not_mem_nil member).elim

/-- The server carries out a write. -/
theorem serveWrite {m : ClientMessage}
    (values : Values newest cache disk [] [m] asked told uncached) :
    Values newest cache (writeSector disk (lsnOf m.quint) m.payload) [] [] asked told uncached := by
  refine ⟨values.cached, values.told, fun _ member => (List.not_mem_nil member).elim, ?_,
    fun _ member => (List.not_mem_nil member).elim, values.uncached⟩
  intro lsn _
  rw [values.written m (List.mem_singleton_self m), sector_writeSector]
  by_cases same : lsn = lsnOf m.quint
  · rw [if_pos same, same]
  · rw [if_neg same]
    refine values.disk lsn fun other member => ?_
    rw [List.nil_append, List.mem_singleton] at member
    exact member ▸ fun equal => same equal.symm

/-- The server answers a prefetch. -/
theorem servePrefetch {m : ClientMessage} {answer : ServerMessage}
    (values : Values newest cache disk unsent sent (m :: asked) told uncached)
    (same : lsnOf answer.quint = lsnOf m.quint)
    (read : answer.payload = (sector disk (lsnOf m.quint)).bytes) :
    Values newest cache disk unsent sent asked (told ++ [answer]) uncached := by
  refine ⟨values.cached, ?_, ?_, values.disk, values.written, values.uncached⟩
  · intro other member quiet
    rcases List.mem_append.mp member with old | new
    · exact values.told other old quiet
    · rw [List.mem_singleton] at new
      subst new
      rw [read, ← same, values.disk]
      intro write waits here
      rcases List.mem_append.mp waits with unsentWrite | sentWrite
      · exact quiet (.inl ⟨write, unsentWrite, here⟩)
      · refine quiet (here ▸ values.asked write sentWrite m List.mem_cons_self ?_)
        rw [← same, here]
  · intro write member request waits
    exact values.asked write member request (List.mem_cons_of_mem _ waits)

end Values

end Frobio.Conduit
