/-
This file says what a well-formed message is, in each direction, and what the two
goroutines of the conduit do with a stream of them.

The payload a message carries is what its command and its `n` call for. The one
message the command alone does not settle is the server's confirmation of a
write, a bare `CMD_BLOCK_OKAY` quint with `n = p = 0xFFFF`.

`ServerStep` and `ClientStep` list what one step of a goroutine can do when what
it has left to read is a list of whole messages. Everything else that is proved
about the conduit is derived from these two lists of cases.
-/

import Frobio.Conduit.Copy

namespace Frobio.Conduit

open Coms

/-! ### Well-formed messages -/

/-- The payload length the command and the `n` of a quint from the server call for. -/
def serverPayload (q : Quint) : Nat :=
  if q.command = CMD_BLOCK_OKAY ∨ q.command = CMD_CACHE_OKAY then 256
  else if commandsFromServerWithNoPayload.contains q.command then 0
  else q.n

/-- The payload length the command and the `n` of a quint from the client call for. -/
def clientPayload (q : Quint) : Nat :=
  if q.command = CMD_BLOCK_WRITE then 256
  else if q.command = CMD_KEYBOARD then 8
  else if commandsFromClientWithNoPayload.contains q.command then 0
  else q.n

/-- `WriteFive(conn, C.CMD_BLOCK_OKAY, ^uint(0), ^uint(0))`. -/
def writeConfirmation : Quint := newQuint CMD_BLOCK_OKAY 0xFFFF 0xFFFF

structure ServerMessage where
  quint : Quint
  payload : List UInt8
  whole : payload.length = serverPayload quint ∨ (quint = writeConfirmation ∧ payload = [])

structure ClientMessage where
  quint : Quint
  payload : List UInt8
  whole : payload.length = clientPayload quint

namespace ServerMessage

def bytes (m : ServerMessage) : List UInt8 := m.quint.bytes ++ m.payload

/-- A message that `n = p = 0xFFFF` does not rob of its payload. -/
def Plain (m : ServerMessage) : Prop :=
  m.quint.n = 0xFFFF → m.quint.p = 0xFFFF → m.payload = []

theorem serverReadsPayload_of_nil {m : ServerMessage} (bare : m.payload = []) :
    serverReadsPayload m.quint = false := by
  unfold serverReadsPayload serverCount
  rcases m.whole with called | ⟨confirms, -⟩
  · rw [bare, List.length_nil] at called
    unfold serverPayload at called
    split at called
    · cases called
    · rename_i notOkay
      split at called
      · rename_i none
        simp only [none, Bool.not_true, Bool.and_false]
      · simp only [if_neg notOkay, ← called, ite_self, gt_iff_lt, lt_self_iff_false, decide_false,
          Bool.false_and]
  · rw [confirms]
    decide

/-- Of a plain message with a payload, the goroutine infers just the payload's length. -/
theorem serverCount_of_ne_nil {m : ServerMessage} (plain : m.Plain) (payload : m.payload ≠ []) :
    serverReadsPayload m.quint = true ∧ m.payload.length = serverCount m.quint := by
  have positive : 0 < m.payload.length := List.length_pos_iff.mpr payload
  have ordinary : ¬(m.quint.n = 0xFFFF ∧ m.quint.p = 0xFFFF) := fun special =>
    payload (plain special.1 special.2)
  have called : m.payload.length = serverPayload m.quint :=
    m.whole.resolve_right fun confirms => payload confirms.2
  rw [called] at positive ⊢
  unfold serverReadsPayload serverCount
  simp only [if_neg ordinary]
  unfold serverPayload at positive ⊢
  by_cases okay : m.quint.command = CMD_BLOCK_OKAY ∨ m.quint.command = CMD_CACHE_OKAY
  · rcases okay with okay | okay <;> rw [okay] <;> exact ⟨rfl, rfl⟩
  · simp only [if_neg okay] at positive ⊢
    by_cases none : commandsFromServerWithNoPayload.contains m.quint.command = true
    · rw [if_pos none] at positive
      exact absurd positive (lt_irrefl 0)
    · rw [if_neg none] at positive ⊢
      refine ⟨?_, rfl⟩
      rw [Bool.not_eq_true] at none
      simpa only [none, Bool.not_false, Bool.and_true, decide_eq_true_eq] using positive

end ServerMessage

namespace ClientMessage

def bytes (m : ClientMessage) : List UInt8 := m.quint.bytes ++ m.payload

theorem clientReadsPayload_of_nil {m : ClientMessage} (bare : m.payload = []) :
    clientReadsPayload m.quint = false := by
  have called := m.whole
  rw [bare, List.length_nil] at called
  unfold clientReadsPayload clientCount
  unfold clientPayload at called
  split at called
  · cases called
  · rename_i notWrite
    split at called
    · cases called
    · rename_i notKeyboard
      split at called
      · rename_i none
        simp only [none, Bool.not_true, Bool.and_false]
      · simp only [if_neg notWrite, if_neg notKeyboard, ← called, gt_iff_lt, lt_self_iff_false,
          decide_false, Bool.false_and]

theorem clientCount_of_ne_nil {m : ClientMessage} (payload : m.payload ≠ []) :
    clientReadsPayload m.quint = true ∧ m.payload.length = clientCount m.quint := by
  have positive : 0 < m.payload.length := List.length_pos_iff.mpr payload
  rw [m.whole] at positive ⊢
  unfold clientReadsPayload clientCount
  unfold clientPayload at positive ⊢
  by_cases write : m.quint.command = CMD_BLOCK_WRITE
  · rw [write]
    exact ⟨rfl, rfl⟩
  · simp only [if_neg write] at positive ⊢
    by_cases keyboard : m.quint.command = CMD_KEYBOARD
    · rw [keyboard]
      exact ⟨rfl, rfl⟩
    · simp only [if_neg keyboard] at positive ⊢
      by_cases none : commandsFromClientWithNoPayload.contains m.quint.command = true
      · rw [if_pos none] at positive
        exact absurd positive (lt_irrefl 0)
      · rw [if_neg none] at positive ⊢
        refine ⟨?_, rfl⟩
        rw [Bool.not_eq_true] at none
        simpa only [none, Bool.not_false, Bool.and_true, decide_eq_true_eq] using positive

theorem payload_eq_nil_of_blockRead {m : ClientMessage} (read : m.quint.command = CMD_BLOCK_READ) :
    m.payload = [] := by
  have called := m.whole
  rw [clientPayload, read] at called
  exact List.eq_nil_of_length_eq_zero called

theorem payload_ne_nil_of_blockWrite {m : ClientMessage}
    (write : m.quint.command = CMD_BLOCK_WRITE) : m.payload ≠ [] := by
  intro bare
  have called := m.whole
  rw [clientPayload, write, bare] at called
  cases called

end ClientMessage

/-! ### Streams of messages -/

/-- The stream that carries the messages one after another. -/
def serverStream (messages : List ServerMessage) : List UInt8 :=
  messages.flatMap ServerMessage.bytes

def clientStream (messages : List ClientMessage) : List UInt8 :=
  messages.flatMap ClientMessage.bytes

@[simp] theorem clientStream_nil : clientStream [] = [] := rfl

theorem serverStream_cons (m : ServerMessage) (rest : List ServerMessage) :
    serverStream (m :: rest) = m.quint.bytes ++ (m.payload ++ serverStream rest) := by
  rw [serverStream, List.flatMap_cons, ServerMessage.bytes, List.append_assoc]
  rfl

theorem clientStream_cons (m : ClientMessage) (rest : List ClientMessage) :
    clientStream (m :: rest) = m.quint.bytes ++ (m.payload ++ clientStream rest) := by
  rw [clientStream, List.flatMap_cons, ClientMessage.bytes, List.append_assoc]
  rfl

theorem clientStream_append (first second : List ClientMessage) :
    clientStream (first ++ second) = clientStream first ++ clientStream second :=
  List.flatMap_append

/-! ### What a goroutine still has to deal with -/

/-- `CopyFromServer` has exactly these messages left, the first of them perhaps begun. -/
inductive ServerReading : ServerCopy → List UInt8 → List ServerMessage → Prop
  | quint (rest : List ServerMessage) : ServerReading .quint (serverStream rest) rest
  | payload (m : ServerMessage) (rest : List ServerMessage) (carried : m.payload ≠ []) :
      ServerReading (.payload m.quint) (m.payload ++ serverStream rest) (m :: rest)
  | forward (m : ServerMessage) (rest : List ServerMessage) (carried : m.payload ≠ [])
      (okay : m.quint.command = CMD_BLOCK_OKAY) :
      ServerReading (.forward m.quint m.payload) (serverStream rest) (m :: rest)

/-- `CopyFromClient` has exactly these messages left, the first of them perhaps begun. -/
inductive ClientReading : ClientCopy → List UInt8 → List ClientMessage → Prop
  | quint (rest : List ClientMessage) : ClientReading .quint (clientStream rest) rest
  | hit (m : ClientMessage) (block : Block) (rest : List ClientMessage)
      (read : m.quint.command = CMD_BLOCK_READ) :
      ClientReading (.hit m.quint.n m.quint.p block) (clientStream rest) (m :: rest)
  | hitBlock (m : ClientMessage) (block : Block) (rest : List ClientMessage)
      (read : m.quint.command = CMD_BLOCK_READ) :
      ClientReading (.hitBlock m.quint.n m.quint.p block) (clientStream rest) (m :: rest)
  | send (m : ClientMessage) (rest : List ClientMessage) :
      ClientReading (.send m.quint) (m.payload ++ clientStream rest) (m :: rest)
  | payload (m : ClientMessage) (rest : List ClientMessage) (carried : m.payload ≠ []) :
      ClientReading (.payload m.quint) (m.payload ++ clientStream rest) (m :: rest)
  | update (n p : Nat) (payload : List UInt8) (rest : List ClientMessage) :
      ClientReading (.update n p payload) (clientStream rest) rest
  | prefetch (n p i : Nat) (rest : List ClientMessage) :
      ClientReading (.prefetch n p i) (clientStream rest) rest
  | prefetchSend (n p i : Nat) (rest : List ClientMessage) :
      ClientReading (.prefetchSend n p i) (clientStream rest) rest

theorem ClientReading.afterMessage (cacheBlocks : Nat) (q : Quint) (rest : List ClientMessage) :
    ClientReading (afterMessage cacheBlocks q) (clientStream rest) rest := by
  unfold Conduit.afterMessage
  split
  · exact .prefetch ..
  · exact .quint rest

/-! ### The steps of `CopyFromServer` -/

/-- What a step of `CopyFromServer` does, the messages it has left before and after. -/
inductive ServerStep (s : State) : List ServerMessage → State → List ServerMessage → Prop
  | header (m : ServerMessage) (rest : List ServerMessage) (carried : m.payload ≠ [])
      (at_quint : s.serverCopy = .quint) (unread : s.fromServer = serverStream (m :: rest)) :
      ServerStep s (m :: rest)
        { s with
          fromServer := m.payload ++ serverStream rest
          toClient :=
            if m.quint.command = CMD_CACHE_OKAY then s.toClient else s.toClient ++ m.quint.bytes
          serverCopy := .payload m.quint } (m :: rest)
  | bare (m : ServerMessage) (rest : List ServerMessage) (empty : m.payload = [])
      (at_quint : s.serverCopy = .quint) (unread : s.fromServer = serverStream (m :: rest)) :
      ServerStep s (m :: rest)
        { s with
          fromServer := serverStream rest
          toClient :=
            if m.quint.command = CMD_CACHE_OKAY then s.toClient else s.toClient ++ m.quint.bytes
          serverCopy := .quint } rest
  | cache (m : ServerMessage) (rest : List ServerMessage) (carried : m.payload ≠ [])
      (at_payload : s.serverCopy = .payload m.quint) (okay : m.quint.command = CMD_CACHE_OKAY) :
      ServerStep s (m :: rest)
        { s with
          fromServer := serverStream rest
          blockCache := putCache s.blockCache (key m.quint.n m.quint.p) (Block.copy m.payload)
          serverCopy := .quint } rest
  | store (m : ServerMessage) (rest : List ServerMessage) (carried : m.payload ≠ [])
      (at_payload : s.serverCopy = .payload m.quint) (okay : m.quint.command = CMD_BLOCK_OKAY) :
      ServerStep s (m :: rest)
        { s with
          fromServer := serverStream rest
          blockCache := putCache s.blockCache (key m.quint.n m.quint.p) (Block.copy m.payload)
          serverCopy := .forward m.quint m.payload } (m :: rest)
  | pass (m : ServerMessage) (rest : List ServerMessage) (carried : m.payload ≠ [])
      (at_payload : s.serverCopy = .payload m.quint) (notCache : m.quint.command ≠ CMD_CACHE_OKAY)
      (notBlock : m.quint.command ≠ CMD_BLOCK_OKAY) :
      ServerStep s (m :: rest)
        { s with
          fromServer := serverStream rest
          toClient := s.toClient ++ m.payload
          serverCopy := .quint } rest
  | forward (m : ServerMessage) (rest : List ServerMessage) (carried : m.payload ≠ [])
      (at_forward : s.serverCopy = .forward m.quint m.payload)
      (okay : m.quint.command = CMD_BLOCK_OKAY) (unread : s.fromServer = serverStream rest) :
      ServerStep s (m :: rest)
        { s with toClient := s.toClient ++ m.payload, serverCopy := .quint } rest

/-- As long as the messages left are plain, a step of `CopyFromServer` is one of the cases, and
leaves the goroutine with whole messages to read. -/
theorem ServerReading.step {s next : State} {rest : List ServerMessage}
    (reading : ServerReading s.serverCopy s.fromServer rest) (plain : ∀ m ∈ rest, m.Plain)
    (taken : copyFromServer s = some next) :
    ∃ left, ServerStep s rest next left ∧ ServerReading next.serverCopy next.fromServer left := by
  generalize counter : s.serverCopy = copy at reading
  generalize unread : s.fromServer = stream at reading
  cases reading with
  | quint =>
    simp only [copyFromServer, counter, unread] at taken
    cases rest with
    | nil => cases taken
    | cons m rest =>
      rw [serverStream_cons, readQuint_bytes, Option.map_some, Option.some_inj] at taken
      subst taken
      by_cases empty : m.payload = []
      · simp only [ServerMessage.serverReadsPayload_of_nil empty, empty, List.nil_append,
          Bool.false_eq_true, if_false]
        exact ⟨rest, .bare m rest empty counter unread, .quint rest⟩
      · simp only [(ServerMessage.serverCount_of_ne_nil (plain m List.mem_cons_self) empty).1,
          if_true]
        exact ⟨m :: rest, .header m rest empty counter unread, .payload m rest empty⟩
  | payload m rest carried =>
    have counted := ServerMessage.serverCount_of_ne_nil (plain m List.mem_cons_self) carried
    simp only [copyFromServer, counter, unread] at taken
    rw [readFull_append counted.2, Option.map_some, Option.some_inj] at taken
    by_cases cached : m.quint.command = CMD_CACHE_OKAY
    · rw [if_pos cached] at taken
      subst taken
      exact ⟨rest, .cache m rest carried counter cached, .quint rest⟩
    · rw [if_neg cached] at taken
      by_cases okay : m.quint.command = CMD_BLOCK_OKAY
      · rw [if_pos okay] at taken
        subst taken
        exact ⟨m :: rest, .store m rest carried counter okay, .forward m rest carried okay⟩
      · rw [if_neg okay] at taken
        subst taken
        exact ⟨rest, .pass m rest carried counter cached okay, .quint rest⟩
  | forward m rest carried okay =>
    simp only [copyFromServer, counter, Option.some_inj] at taken
    subst taken
    exact ⟨rest, .forward m rest carried counter okay unread, unread ▸ .quint rest⟩

/-- `CopyFromServer` waits only when it has nothing left to deal with. -/
theorem ServerReading.eq_nil_of_stuck {s : State} {rest : List ServerMessage}
    (reading : ServerReading s.serverCopy s.fromServer rest) (plain : ∀ m ∈ rest, m.Plain)
    (stuck : copyFromServer s = none) : rest = [] := by
  generalize counter : s.serverCopy = copy at reading
  generalize unread : s.fromServer = stream at reading
  cases reading with
  | quint =>
    cases rest with
    | nil => rfl
    | cons m rest =>
      simp only [copyFromServer, counter, unread, serverStream_cons, readQuint_bytes,
        Option.map_some, reduceCtorEq] at stuck
  | payload m rest carried =>
    have counted := ServerMessage.serverCount_of_ne_nil (plain m List.mem_cons_self) carried
    simp only [copyFromServer, counter, unread, readFull_append counted.2, Option.map_some,
      reduceCtorEq] at stuck
  | forward m rest carried okay =>
    simp only [copyFromServer, counter, reduceCtorEq] at stuck

/-! ### The steps of `CopyFromClient` -/

/-- What a step of `CopyFromClient` does, the messages it has left before and after. -/
inductive ClientStep (cacheBlocks : Nat) (s : State) :
    List ClientMessage → State → List ClientMessage → Prop
  | hit (m : ClientMessage) (rest : List ClientMessage) (block : Block)
      (at_quint : s.clientCopy = .quint) (read : m.quint.command = CMD_BLOCK_READ)
      (cached : getCache s.blockCache (key m.quint.n m.quint.p) = some block) :
      ClientStep cacheBlocks s (m :: rest)
        { s with
          fromClient := clientStream rest
          clientCopy := .hit m.quint.n m.quint.p block } (m :: rest)
  | take (m : ClientMessage) (rest : List ClientMessage) (at_quint : s.clientCopy = .quint)
      (missed : m.quint.command = CMD_BLOCK_READ →
        getCache s.blockCache (key m.quint.n m.quint.p) = none) :
      ClientStep cacheBlocks s (m :: rest)
        { s with
          fromClient := m.payload ++ clientStream rest
          clientCopy := .send m.quint } (m :: rest)
  | answer (m : ClientMessage) (rest : List ClientMessage) (block : Block)
      (at_hit : s.clientCopy = .hit m.quint.n m.quint.p block)
      (read : m.quint.command = CMD_BLOCK_READ) (unread : s.fromClient = clientStream rest) :
      ClientStep cacheBlocks s (m :: rest)
        { s with
          toClient := s.toClient ++ (hitQuint m.quint.n m.quint.p).bytes
          clientCopy := .hitBlock m.quint.n m.quint.p block } (m :: rest)
  | answerBlock (m : ClientMessage) (rest : List ClientMessage) (block : Block)
      (at_block : s.clientCopy = .hitBlock m.quint.n m.quint.p block)
      (read : m.quint.command = CMD_BLOCK_READ) (unread : s.fromClient = clientStream rest) :
      ClientStep cacheBlocks s (m :: rest)
        { s with toClient := s.toClient ++ block.bytes, clientCopy := .quint } rest
  | send (m : ClientMessage) (rest : List ClientMessage) (carried : m.payload ≠ [])
      (at_send : s.clientCopy = .send m.quint)
      (unread : s.fromClient = m.payload ++ clientStream rest) :
      ClientStep cacheBlocks s (m :: rest)
        { s with
          toServer := s.toServer ++ m.quint.bytes
          clientCopy := .payload m.quint } (m :: rest)
  | sendBare (m : ClientMessage) (rest : List ClientMessage) (empty : m.payload = [])
      (at_send : s.clientCopy = .send m.quint) (unread : s.fromClient = clientStream rest) :
      ClientStep cacheBlocks s (m :: rest)
        { s with
          toServer := s.toServer ++ m.quint.bytes
          clientCopy := afterMessage cacheBlocks m.quint } rest
  | write (m : ClientMessage) (rest : List ClientMessage) (carried : m.payload ≠ [])
      (at_payload : s.clientCopy = .payload m.quint) (write : m.quint.command = CMD_BLOCK_WRITE) :
      ClientStep cacheBlocks s (m :: rest)
        { s with
          fromClient := clientStream rest
          toServer := s.toServer ++ m.payload
          clientCopy := .update m.quint.n m.quint.p m.payload } rest
  | payload (m : ClientMessage) (rest : List ClientMessage) (carried : m.payload ≠ [])
      (at_payload : s.clientCopy = .payload m.quint)
      (notWrite : m.quint.command ≠ CMD_BLOCK_WRITE) :
      ClientStep cacheBlocks s (m :: rest)
        { s with
          fromClient := clientStream rest
          toServer := s.toServer ++ m.payload
          clientCopy := afterMessage cacheBlocks m.quint } rest
  | update (n p : Nat) (payload : List UInt8) (rest : List ClientMessage)
      (at_update : s.clientCopy = .update n p payload) (unread : s.fromClient = clientStream rest) :
      ClientStep cacheBlocks s rest
        { s with
          blockCache := putCache s.blockCache (key n p) (Block.copy payload)
          clientCopy := .quint } rest
  | prefetch (n p i : Nat) (rest : List ClientMessage) (copy : ClientCopy)
      (at_prefetch : s.clientCopy = .prefetch n p i) (unread : s.fromClient = clientStream rest)
      (onward : copy = .prefetch n p (i + 1) ∨ (copy = .prefetchSend n p i ∧ i ≤ cacheBlocks) ∨
        copy = .quint) :
      ClientStep cacheBlocks s rest { s with clientCopy := copy } rest
  | prefetchSend (n p i : Nat) (rest : List ClientMessage)
      (at_send : s.clientCopy = .prefetchSend n p i) (unread : s.fromClient = clientStream rest) :
      ClientStep cacheBlocks s rest
        { s with
          toServer := s.toServer ++ (prefetchQuint n p i).bytes
          clientCopy := .prefetch n p (i + 1) } rest

/-- A step of `CopyFromClient` is one of the cases, and leaves the goroutine with whole messages
to read. -/
theorem ClientReading.step {cacheBlocks : Nat} {s next : State} {rest : List ClientMessage}
    (reading : ClientReading s.clientCopy s.fromClient rest)
    (taken : copyFromClient cacheBlocks s = some next) :
    ∃ left, ClientStep cacheBlocks s rest next left ∧
      ClientReading next.clientCopy next.fromClient left := by
  generalize counter : s.clientCopy = copy at reading
  generalize unread : s.fromClient = stream at reading
  cases reading with
  | quint =>
    simp only [copyFromClient, counter, unread] at taken
    cases rest with
    | nil => cases taken
    | cons m rest =>
      rw [clientStream_cons, readQuint_bytes, Option.map_some, Option.some_inj] at taken
      subst taken
      by_cases read : m.quint.command = CMD_BLOCK_READ
      · rw [if_pos read]
        cases cached : getCache s.blockCache (key m.quint.n m.quint.p) with
        | none => exact ⟨m :: rest, .take m rest counter fun _ => cached, .send m rest⟩
        | some block =>
          have bare := ClientMessage.payload_eq_nil_of_blockRead read
          simp only [bare, List.nil_append]
          exact ⟨m :: rest, .hit m rest block counter read cached, .hit m block rest read⟩
      · rw [if_neg read]
        exact ⟨m :: rest, .take m rest counter fun isRead => absurd isRead read, .send m rest⟩
  | hit m block _ read =>
    simp only [copyFromClient, counter, Option.some_inj] at taken
    subst taken
    exact ⟨m :: _, .answer m _ block counter read unread, unread ▸ .hitBlock m block _ read⟩
  | hitBlock m block _ read =>
    simp only [copyFromClient, counter, Option.some_inj] at taken
    subst taken
    exact ⟨_, .answerBlock m _ block counter read unread, unread ▸ .quint _⟩
  | send m =>
    simp only [copyFromClient, counter, Option.some_inj] at taken
    subst taken
    by_cases empty : m.payload = []
    · simp only [ClientMessage.clientReadsPayload_of_nil empty, Bool.false_eq_true, if_false]
      rw [empty, List.nil_append] at unread
      exact ⟨_, .sendBare m _ empty counter unread, unread ▸ .afterMessage ..⟩
    · simp only [(ClientMessage.clientCount_of_ne_nil empty).1, if_true]
      exact ⟨m :: _, .send m _ empty counter unread, unread ▸ .payload m _ empty⟩
  | payload m _ carried =>
    simp only [copyFromClient, counter, unread] at taken
    rw [readFull_append (ClientMessage.clientCount_of_ne_nil carried).2, Option.map_some,
      Option.some_inj] at taken
    subst taken
    by_cases isWrite : m.quint.command = CMD_BLOCK_WRITE
    · simp only [if_pos isWrite]
      exact ⟨_, .write m _ carried counter isWrite, .update ..⟩
    · simp only [if_neg isWrite]
      exact ⟨_, .payload m _ carried counter isWrite, .afterMessage ..⟩
  | update n p payload =>
    simp only [copyFromClient, counter, Option.some_inj] at taken
    subst taken
    exact ⟨_, .update n p payload _ counter unread, unread ▸ .quint _⟩
  | prefetch n p i =>
    simp only [copyFromClient, counter, Option.some_inj] at taken
    subst taken
    by_cases more : i ≤ cacheBlocks
    · simp only [if_pos more]
      cases getCache s.blockCache (key n p) with
      | none =>
        exact ⟨_, .prefetch n p i _ _ counter unread (.inr (.inl ⟨rfl, more⟩)),
          unread ▸ .prefetchSend ..⟩
      | some block =>
        exact ⟨_, .prefetch n p i _ _ counter unread (.inl rfl), unread ▸ .prefetch ..⟩
    · simp only [if_neg more]
      exact ⟨_, .prefetch n p i _ _ counter unread (.inr (.inr rfl)), unread ▸ .quint _⟩
  | prefetchSend n p i =>
    simp only [copyFromClient, counter, Option.some_inj] at taken
    subst taken
    exact ⟨_, .prefetchSend n p i _ counter unread, unread ▸ .prefetch ..⟩

/-- `CopyFromClient` waits only when it has nothing left to deal with. -/
theorem ClientReading.eq_nil_of_stuck {cacheBlocks : Nat} {s : State} {rest : List ClientMessage}
    (reading : ClientReading s.clientCopy s.fromClient rest)
    (stuck : copyFromClient cacheBlocks s = none) : s.clientCopy = .quint ∧ rest = [] := by
  generalize counter : s.clientCopy = copy at reading
  generalize unread : s.fromClient = stream at reading
  cases reading with
  | quint =>
    cases rest with
    | nil => exact ⟨rfl, rfl⟩
    | cons m rest =>
      simp only [copyFromClient, counter, unread, clientStream_cons, readQuint_bytes,
        Option.map_some, reduceCtorEq] at stuck
  | payload m _ carried =>
    simp only [copyFromClient, counter, unread,
      readFull_append (ClientMessage.clientCount_of_ne_nil carried).2, Option.map_some,
      reduceCtorEq] at stuck
  | _ => simp only [copyFromClient, counter, reduceCtorEq] at stuck

end Frobio.Conduit
