/-
This file models `lemma/conduit/conduit.go`: the block cache and the two
goroutines `CopyFromServer` and `CopyFromClient` of one connection.

Each goroutine is a program counter and a step function. One step does the
goroutine's private work up to and including its next access to something the
other goroutine or a peer can see: one `Write` call, one `GetCache` or one
`PutCache`. The `io.ReadFull` calls block, so a step is not enabled before the
bytes it reads have arrived. A connection is the list of the bytes written to it
and not yet read.
-/

import Frobio.Coms.Quint

namespace Frobio.Conduit

open Coms

/-! ### The cache -/

/-- The Go type `[256]byte`. -/
structure Block where
  bytes : List UInt8
  size : bytes.length = 256
  deriving DecidableEq

namespace Block

/-- `var tmp [256]byte; copy(tmp[:], payload)`. -/
def copy (payload : List UInt8) : Block where
  bytes := payload.take 256 ++ List.replicate (256 - payload.length) 0
  size := by
    simp only [List.length_append, List.length_take, List.length_replicate]
    omega

theorem copy_bytes (block : Block) : copy block.bytes = block := by
  obtain ⟨bytes, size⟩ := block
  simp [copy, size, List.take_of_length_le (le_of_eq size)]

end Block

/-- `(uint32(n) << 16) | uint32(p)`, on the sixteen-bit `n` and `p` of a quint. -/
def key (n p : Nat) : Nat := n * 65536 + p

/-- The field `blockCache` of the Go type `Conduit`. -/
abbrev BlockCache := Nat → Option Block

def getCache (cache : BlockCache) (k : Nat) : Option Block := cache k

def putCache (cache : BlockCache) (k : Nat) (block : Block) : BlockCache :=
  Function.update cache k (some block)

@[simp] theorem getCache_putCache_self (cache : BlockCache) (k : Nat) (block : Block) :
    getCache (putCache cache k block) k = some block :=
  Function.update_self ..

theorem getCache_putCache_of_ne (cache : BlockCache) {k other : Nat} (block : Block)
    (different : other ≠ k) : getCache (putCache cache k block) other = getCache cache other :=
  Function.update_of_ne different ..

/-! ### The state of one connection -/

def commandsFromServerWithNoPayload : List UInt8 :=
  [CMD_PEEK, CMD_SUM, CMD_BOOT_BEGIN, CMD_BOOT_END]

def commandsFromClientWithNoPayload : List UInt8 :=
  [CMD_BLOCK_READ, CMD_CACHE_READ]

/-- Where `CopyFromServer` stands in its loop. -/
inductive ServerCopy
  /-- About to read the next quint. -/
  | quint
  /-- The header `q` is dealt with; its payload is to be read. -/
  | payload (q : Quint)
  /-- The payload of a `CMD_BLOCK_OKAY` is in the cache; the client is to be sent it. -/
  | forward (q : Quint) (payload : List UInt8)
  deriving DecidableEq

/-- Where `CopyFromClient` stands in its loop. -/
inductive ClientCopy
  /-- About to read the next quint. -/
  | quint
  /-- `GetCache` found the block; the client is to be sent the header of the answer. -/
  | hit (n p : Nat) (block : Block)
  /-- The header of the answer is sent; the block is to follow. -/
  | hitBlock (n p : Nat) (block : Block)
  /-- The server is to be sent the quint. -/
  | send (q : Quint)
  /-- The server was sent the quint; the payload is to be read and sent. -/
  | payload (q : Quint)
  /-- The server was sent a `CMD_BLOCK_WRITE`; the cache is to be updated. -/
  | update (n p : Nat) (payload : List UInt8)
  /-- The loop `CACHE_REQUESTS`, about to look at its `i`. -/
  | prefetch (n p i : Nat)
  /-- The loop found nothing cached; the server is to be sent the `CMD_CACHE_READ`. -/
  | prefetchSend (n p i : Nat)
  deriving DecidableEq

structure State where
  /-- Sent by the server, not yet read by `CopyFromServer`. -/
  fromServer : List UInt8
  /-- Sent by the client, not yet read by `CopyFromClient`. -/
  fromClient : List UInt8
  toClient : List UInt8
  toServer : List UInt8
  blockCache : BlockCache
  serverCopy : ServerCopy
  clientCopy : ClientCopy

/-! ### CopyFromServer -/

/-- The payload length `CopyFromServer` infers from a quint. -/
def serverCount (q : Quint) : Nat :=
  let count := if q.command = CMD_BLOCK_OKAY ∨ q.command = CMD_CACHE_OKAY then 256 else q.n
  -- "Special case for WRITE confirmation", made for every command
  if q.n = 0xFFFF ∧ q.p = 0xFFFF then 0 else count

/-- The condition under which `CopyFromServer` reads a payload. -/
def serverReadsPayload (q : Quint) : Bool :=
  serverCount q > 0 && !commandsFromServerWithNoPayload.contains q.command

def copyFromServer (s : State) : Option State :=
  match s.serverCopy with
  | .quint =>
    (readQuint s.fromServer).map fun (q, rest) =>
      { s with
        fromServer := rest
        toClient := if q.command = CMD_CACHE_OKAY then s.toClient else s.toClient ++ q.bytes
        serverCopy := if serverReadsPayload q then .payload q else .quint }
  | .payload q =>
    (readFull (serverCount q) s.fromServer).map fun (payload, rest) =>
      if q.command = CMD_CACHE_OKAY then
        { s with
          fromServer := rest
          blockCache := putCache s.blockCache (key q.n q.p) (Block.copy payload)
          serverCopy := .quint }
      else if q.command = CMD_BLOCK_OKAY then
        { s with
          fromServer := rest
          blockCache := putCache s.blockCache (key q.n q.p) (Block.copy payload)
          serverCopy := .forward q payload }
      else
        { s with
          fromServer := rest
          toClient := s.toClient ++ payload
          serverCopy := .quint }
  | .forward _ payload =>
    some { s with toClient := s.toClient ++ payload, serverCopy := .quint }

/-! ### CopyFromClient -/

/-- The payload length `CopyFromClient` infers from a quint, the work-around for
`CMD_KEYBOARD` included. -/
def clientCount (q : Quint) : Nat :=
  let n := if q.command = CMD_KEYBOARD then 8 else q.n
  if q.command = CMD_BLOCK_WRITE then 256 else n

/-- The condition under which `CopyFromClient` reads a payload. -/
def clientReadsPayload (q : Quint) : Bool :=
  clientCount q > 0 && !commandsFromClientWithNoPayload.contains q.command

/-- Where the loop goes once a message is dealt with: on to the prefetches of a
`CMD_BLOCK_READ`, or back to the next quint. -/
def afterMessage (cacheBlocks : Nat) (q : Quint) : ClientCopy :=
  if cacheBlocks > 0 ∧ q.command = CMD_BLOCK_READ then .prefetch q.n q.p 1 else .quint

/-- The `q2` of the loop `CACHE_REQUESTS`. -/
def prefetchQuint (n p i : Nat) : Quint :=
  let p2 := p + i
  -- `p2` is a 64-bit `uint`, so this never holds
  let n2 := if p2 < p then n + 1 else n
  newQuint CMD_CACHE_READ n2 p2

/-- The answer `CopyFromClient` makes when the cache has the block. -/
def hitQuint (n p : Nat) : Quint := newQuint CMD_BLOCK_OKAY n p

def copyFromClient (cacheBlocks : Nat) (s : State) : Option State :=
  match s.clientCopy with
  | .quint =>
    (readQuint s.fromClient).map fun (q, rest) =>
      { s with
        fromClient := rest
        clientCopy :=
          if q.command = CMD_BLOCK_READ then
            match getCache s.blockCache (key q.n q.p) with
            | some block => .hit q.n q.p block
            | none => .send q
          else .send q }
  | .hit n p block =>
    some { s with
      toClient := s.toClient ++ (hitQuint n p).bytes
      clientCopy := .hitBlock n p block }
  | .hitBlock _ _ block =>
    some { s with toClient := s.toClient ++ block.bytes, clientCopy := .quint }
  | .send q =>
    some { s with
      toServer := s.toServer ++ q.bytes
      clientCopy := if clientReadsPayload q then .payload q else afterMessage cacheBlocks q }
  | .payload q =>
    (readFull (clientCount q) s.fromClient).map fun (payload, rest) =>
      { s with
        fromClient := rest
        toServer := s.toServer ++ payload
        clientCopy :=
          if q.command = CMD_BLOCK_WRITE then .update q.n q.p payload
          else afterMessage cacheBlocks q }
  | .update n p payload =>
    some { s with
      blockCache := putCache s.blockCache (key n p) (Block.copy payload)
      clientCopy := .quint }
  | .prefetch n p i =>
    some { s with
      clientCopy :=
        if i ≤ cacheBlocks then
          -- the key is that of the block just read, not of the one to prefetch
          match getCache s.blockCache (key n p) with
          | some _ => .prefetch n p (i + 1)
          | none => .prefetchSend n p i
        else .quint }
  | .prefetchSend n p i =>
    some { s with
      toServer := s.toServer ++ (prefetchQuint n p i).bytes
      clientCopy := .prefetch n p (i + 1) }

end Frobio.Conduit
