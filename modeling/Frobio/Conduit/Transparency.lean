/-
This file is about what the conduit does to the two byte streams it copies.

`Event` is what the conduit may do with one whole message: forward it, keep it in
the cache, answer it from the cache, or send a prefetch of its own. A connection
is copied transparently when the two output streams are the bytes of such a
history, every incoming message in it once and in order, and behind it at most the
first part of the message that is being written.

The two goroutines write to the client without a lock, the header and the payload
of a message in two calls, so this depends on the schedule. `TakesTurns` is the
condition under which no goroutine writes to the client between the two writes of
the other one. The other way a connection goes wrong is a message that
`n = p = 0xFFFF` robs of its payload, which `ServerMessage.Plain` excludes.
-/

import Frobio.Conduit.Message
import Frobio.Lib.Run

namespace Frobio.Conduit

open Coms Run

/-! ### Schedules -/

/-- Which of the two goroutines takes the next step. -/
inductive Turn
  | server
  | client
  deriving DecidableEq

def step (cacheBlocks : Nat) (s : State) : Turn → Option State
  | .server => copyFromServer s
  | .client => copyFromClient cacheBlocks s

/-- A fresh connection over which these messages come in. -/
def start (serverSent : List ServerMessage) (clientSent : List ClientMessage) : State where
  fromServer := serverStream serverSent
  fromClient := clientStream clientSent
  toClient := []
  toServer := []
  blockCache := fun _ => none
  serverCopy := .quint
  clientCopy := .quint

/-! ### Histories of whole messages -/

/-- What the conduit does with one whole message. -/
inductive Event
  | forwardedToClient (m : ServerMessage) (other : m.quint.command ≠ CMD_CACHE_OKAY)
  | cached (m : ServerMessage) (okay : m.quint.command = CMD_CACHE_OKAY)
  | forwardedToServer (m : ClientMessage)
  | answered (m : ClientMessage) (block : Block) (read : m.quint.command = CMD_BLOCK_READ)
  | prefetched (q : Quint) (read : q.command = CMD_CACHE_READ)

namespace Event

def takenFromServer : Event → List ServerMessage
  | forwardedToClient m _ => [m]
  | cached m _ => [m]
  | _ => []

def takenFromClient : Event → List ClientMessage
  | forwardedToServer m => [m]
  | answered m _ _ => [m]
  | _ => []

def toClient : Event → List UInt8
  | forwardedToClient m _ => m.bytes
  | answered m block _ => (hitQuint m.quint.n m.quint.p).bytes ++ block.bytes
  | _ => []

def toServer : Event → List UInt8
  | forwardedToServer m => m.bytes
  | prefetched q _ => q.bytes
  | _ => []

end Event

/-- The stretch `cut` is the beginning of the message of one more event. -/
def Begun (serverSent : List ServerMessage) (clientSent : List ClientMessage)
    (history : List Event) (output : Event → List UInt8) (cut : List UInt8) : Prop :=
  cut = [] ∨ ∃ event more, more ≠ [] ∧ output event = cut ++ more ∧
    (history ++ [event]).flatMap Event.takenFromServer <+: serverSent ∧
    (history ++ [event]).flatMap Event.takenFromClient <+: clientSent

/-- The two output streams are the messages of the history, in order and whole, but for the one
being written. A goroutine that cannot go on has dealt with every message. -/
structure Transparent (cacheBlocks : Nat) (serverSent : List ServerMessage)
    (clientSent : List ClientMessage) (s : State) (history : List Event) : Prop where
  fromServer : history.flatMap Event.takenFromServer <+: serverSent
  fromClient : history.flatMap Event.takenFromClient <+: clientSent
  toClient : ∃ cut, s.toClient = history.flatMap Event.toClient ++ cut ∧
    Begun serverSent clientSent history Event.toClient cut
  toServer : ∃ cut, s.toServer = history.flatMap Event.toServer ++ cut ∧
    Begun serverSent clientSent history Event.toServer cut
  serverDone : copyFromServer s = none → history.flatMap Event.takenFromServer = serverSent
  clientDone : copyFromClient cacheBlocks s = none →
    history.flatMap Event.takenFromClient = clientSent
  whole : copyFromServer s = none → copyFromClient cacheBlocks s = none →
    s.toClient = history.flatMap Event.toClient ∧ s.toServer = history.flatMap Event.toServer

/-! ### Taking turns -/

/-- `CopyFromServer` has written the header of a message to the client, and not the payload. -/
def ServerCopy.inside : ServerCopy → Bool
  | .quint => false
  | .payload q => q.command != CMD_CACHE_OKAY
  | .forward _ _ => true

/-- `CopyFromClient` has written the header of an answer to the client, and not the block. -/
def ClientCopy.inside : ClientCopy → Bool
  | .hitBlock _ _ _ => true
  | _ => false

/-- The next step of `CopyFromServer` writes to the client. -/
def serverWrites (s : State) : Bool :=
  match s.serverCopy with
  | .quint =>
    match readQuint s.fromServer with
    | some (q, _) => q.command != CMD_CACHE_OKAY
    | none => false
  | .payload q => q.command != CMD_CACHE_OKAY && q.command != CMD_BLOCK_OKAY
  | .forward _ _ => true

/-- The next step of `CopyFromClient` writes to the client. -/
def clientWrites (s : State) : Bool :=
  match s.clientCopy with
  | .hit _ _ _ => true
  | .hitBlock _ _ _ => true
  | _ => false

/-- Neither goroutine writes to the client while the other is inside a message. -/
def TakesTurns (s : State) : Turn → Prop
  | .server => serverWrites s = true → s.clientCopy.inside = false
  | .client => clientWrites s = true → s.serverCopy.inside = false

instance (s : State) : ∀ turn, Decidable (TakesTurns s turn)
  | .server => inferInstanceAs (Decidable (serverWrites s = true → s.clientCopy.inside = false))
  | .client => inferInstanceAs (Decidable (clientWrites s = true → s.serverCopy.inside = false))

/-! ### The invariant -/

/-- The header of the message `CopyFromServer` is forwarding. -/
def ServerCopy.cut : ServerCopy → List UInt8
  | .quint => []
  | .payload q => if q.command = CMD_CACHE_OKAY then [] else q.bytes
  | .forward q _ => q.bytes

/-- The header of the answer `CopyFromClient` is making. -/
def ClientCopy.cut : ClientCopy → List UInt8
  | .hitBlock n p _ => (hitQuint n p).bytes
  | _ => []

/-- The header of the message `CopyFromClient` is forwarding. -/
def ClientCopy.sentCut : ClientCopy → List UInt8
  | .payload q => q.bytes
  | _ => []

theorem ServerCopy.cut_eq_nil {copy : ServerCopy} (outside : copy.inside = false) :
    copy.cut = [] := by
  cases copy with
  | quint => rfl
  | payload q =>
    have cache : q.command = CMD_CACHE_OKAY := by simpa [inside] using outside
    rw [cut, if_pos cache]
  | forward q payload => cases outside

theorem ClientCopy.cut_eq_nil {copy : ClientCopy} (outside : copy.inside = false) :
    copy.cut = [] := by
  cases copy <;> first | rfl | cases outside

/-- The history accounts for both streams, with the two goroutines where they stand. -/
structure Accounts (serverSent : List ServerMessage) (clientSent : List ClientMessage) (s : State)
    (history : List Event) (serverRest : List ServerMessage) (clientRest : List ClientMessage) :
    Prop where
  server : history.flatMap Event.takenFromServer ++ serverRest = serverSent
  serverReading : ServerReading s.serverCopy s.fromServer serverRest
  client : history.flatMap Event.takenFromClient ++ clientRest = clientSent
  clientReading : ClientReading s.clientCopy s.fromClient clientRest
  toClient : s.toClient =
    history.flatMap Event.toClient ++ (s.serverCopy.cut ++ s.clientCopy.cut)
  toServer : s.toServer = history.flatMap Event.toServer ++ s.clientCopy.sentCut
  apart : s.serverCopy.inside = false ∨ s.clientCopy.inside = false

section

variable {cacheBlocks : Nat} {serverSent : List ServerMessage} {clientSent : List ClientMessage}
  {s next : State} {history : List Event} {serverRest serverLeft : List ServerMessage}
  {clientRest clientLeft : List ClientMessage}

theorem serverWrites_of_quint {m : ServerMessage} {rest : List ServerMessage}
    (at_quint : s.serverCopy = .quint) (unread : s.fromServer = serverStream (m :: rest)) :
    serverWrites s = (m.quint.command != CMD_CACHE_OKAY) := by
  rw [serverWrites, at_quint, unread, serverStream_cons]
  rfl

/-- A step of `CopyFromServer` that waits its turn extends the history by at most one event. -/
theorem Accounts.server_step (accounts : Accounts serverSent clientSent s history serverRest
      clientRest) (turn : TakesTurns s .server) (taken : ServerStep s serverRest next serverLeft)
    (reading : ServerReading next.serverCopy next.fromServer serverLeft) :
    ∃ history', Accounts serverSent clientSent next history' serverLeft clientRest := by
  cases taken with
  | header m rest carried at_quint unread =>
    refine ⟨history, accounts.server, reading, accounts.client, accounts.clientReading, ?_,
      accounts.toServer, ?_⟩
    · have before := accounts.toClient
      rw [at_quint] at before
      by_cases cache : m.quint.command = CMD_CACHE_OKAY
      · simpa only [cache, if_true, ServerCopy.cut, List.nil_append] using before
      · have quiet := ClientCopy.cut_eq_nil (turn (by
          rw [serverWrites_of_quint at_quint unread]
          simpa using cache))
        simp only [cache, if_false, ServerCopy.cut, before, quiet, List.append_nil]
    · by_cases cache : m.quint.command = CMD_CACHE_OKAY
      · left
        simp only [ServerCopy.inside, cache, bne_self_eq_false]
      · right
        exact turn (by rw [serverWrites_of_quint at_quint unread]; simpa using cache)
  | bare m rest empty at_quint unread =>
    have before := accounts.toClient
    rw [at_quint] at before
    by_cases cache : m.quint.command = CMD_CACHE_OKAY
    · refine ⟨history ++ [.cached m cache], ?_, reading, ?_, accounts.clientReading, ?_, ?_,
        .inl rfl⟩
      · simpa [Event.takenFromServer] using accounts.server
      · simpa [Event.takenFromClient] using accounts.client
      · simpa [Event.toClient, cache, ServerCopy.cut] using before
      · simpa [Event.toServer] using accounts.toServer
    · have quiet := ClientCopy.cut_eq_nil (turn (by
        rw [serverWrites_of_quint at_quint unread]
        simpa using cache))
      refine ⟨history ++ [.forwardedToClient m cache], ?_, reading, ?_, accounts.clientReading, ?_,
        ?_, .inl rfl⟩
      · simpa [Event.takenFromServer] using accounts.server
      · simpa [Event.takenFromClient] using accounts.client
      · simp [Event.toClient, ServerMessage.bytes, cache, ServerCopy.cut, before, quiet, empty]
      · simpa [Event.toServer] using accounts.toServer
  | cache m rest carried at_payload okay =>
    refine ⟨history ++ [.cached m okay], ?_, reading, ?_, accounts.clientReading, ?_, ?_, .inl rfl⟩
    · simpa [Event.takenFromServer] using accounts.server
    · simpa [Event.takenFromClient] using accounts.client
    · simpa [Event.toClient, ServerCopy.cut, at_payload, okay] using accounts.toClient
    · simpa [Event.toServer] using accounts.toServer
  | store m rest carried at_payload okay =>
    have notCache : m.quint.command ≠ CMD_CACHE_OKAY := by
      rw [okay]
      decide
    refine ⟨history, accounts.server, reading, accounts.client, accounts.clientReading, ?_,
      accounts.toServer, ?_⟩
    · simpa [ServerCopy.cut, at_payload, notCache] using accounts.toClient
    · simpa [ServerCopy.inside, at_payload, notCache] using accounts.apart
  | pass m rest carried at_payload notCache notBlock =>
    have quiet := ClientCopy.cut_eq_nil (turn (by simp [serverWrites, at_payload, notCache, notBlock]))
    refine ⟨history ++ [.forwardedToClient m notCache], ?_, reading, ?_, accounts.clientReading, ?_,
      ?_, .inl rfl⟩
    · simpa [Event.takenFromServer] using accounts.server
    · simpa [Event.takenFromClient] using accounts.client
    · simp [Event.toClient, ServerMessage.bytes, ServerCopy.cut, accounts.toClient, at_payload,
        notCache, quiet]
    · simpa [Event.toServer] using accounts.toServer
  | forward m rest carried at_forward okay unread =>
    have notCache : m.quint.command ≠ CMD_CACHE_OKAY := by
      rw [okay]
      decide
    have quiet := ClientCopy.cut_eq_nil (turn (by simp [serverWrites, at_forward]))
    refine ⟨history ++ [.forwardedToClient m notCache], ?_, reading, ?_, accounts.clientReading, ?_,
      ?_, .inl rfl⟩
    · simpa [Event.takenFromServer] using accounts.server
    · simpa [Event.takenFromClient] using accounts.client
    · simp [Event.toClient, ServerMessage.bytes, ServerCopy.cut, accounts.toClient, at_forward,
        quiet]
    · simpa [Event.toServer] using accounts.toServer

theorem inside_afterMessage (q : Quint) : (afterMessage cacheBlocks q).inside = false := by
  unfold afterMessage
  split <;> rfl

theorem cut_afterMessage (q : Quint) : (afterMessage cacheBlocks q).cut = [] :=
  ClientCopy.cut_eq_nil (inside_afterMessage q)

theorem sentCut_afterMessage (q : Quint) : (afterMessage cacheBlocks q).sentCut = [] := by
  unfold afterMessage
  split <;> rfl

/-- A step of `CopyFromClient` that waits its turn extends the history by at most one event. -/
theorem Accounts.client_step (accounts : Accounts serverSent clientSent s history serverRest
      clientRest) (turn : TakesTurns s .client)
    (taken : ClientStep cacheBlocks s clientRest next clientLeft)
    (reading : ClientReading next.clientCopy next.fromClient clientLeft) :
    ∃ history', Accounts serverSent clientSent next history' serverRest clientLeft := by
  have before := accounts.toClient
  have sent := accounts.toServer
  cases taken with
  | hit m rest block at_quint read cached =>
    rw [at_quint] at before sent
    exact ⟨history, accounts.server, accounts.serverReading, accounts.client, reading, before, sent,
      .inr rfl⟩
  | take m rest at_quint missed =>
    rw [at_quint] at before sent
    exact ⟨history, accounts.server, accounts.serverReading, accounts.client, reading, before, sent,
      .inr rfl⟩
  | answer m rest block at_hit read unread =>
    have outside := turn (by simp [clientWrites, at_hit])
    have quiet := ServerCopy.cut_eq_nil outside
    rw [at_hit] at before sent
    refine ⟨history, accounts.server, accounts.serverReading, accounts.client, reading, ?_, sent,
      .inl outside⟩
    simp [ClientCopy.cut, before, quiet]
  | answerBlock m rest block at_block read unread =>
    have quiet := ServerCopy.cut_eq_nil (turn (by simp [clientWrites, at_block]))
    rw [at_block] at before sent
    refine ⟨history ++ [.answered m block read], ?_, accounts.serverReading, ?_, reading, ?_, ?_,
      .inr rfl⟩
    · simpa [Event.takenFromServer] using accounts.server
    · simpa [Event.takenFromClient] using accounts.client
    · simp [Event.toClient, ClientCopy.cut, before, quiet]
    · simpa [Event.toServer, ClientCopy.sentCut] using sent
  | send m rest carried at_send unread =>
    rw [at_send] at before sent
    refine ⟨history, accounts.server, accounts.serverReading, accounts.client, reading, before, ?_,
      .inr rfl⟩
    simp [ClientCopy.sentCut, sent]
  | sendBare m rest empty at_send unread =>
    rw [at_send] at before sent
    change s.toClient = _ ++ (s.serverCopy.cut ++ []) at before
    change s.toServer = _ ++ [] at sent
    refine ⟨history ++ [.forwardedToServer m], ?_, accounts.serverReading, ?_, reading, ?_, ?_,
      .inr (inside_afterMessage _)⟩
    · simpa [Event.takenFromServer] using accounts.server
    · simpa [Event.takenFromClient] using accounts.client
    · simpa [Event.toClient, cut_afterMessage] using before
    · simp [Event.toServer, ClientMessage.bytes, sentCut_afterMessage, sent, empty]
  | write m rest carried at_payload isWrite =>
    rw [at_payload] at before sent
    refine ⟨history ++ [.forwardedToServer m], ?_, accounts.serverReading, ?_, reading, ?_, ?_,
      .inr rfl⟩
    · simpa [Event.takenFromServer] using accounts.server
    · simpa [Event.takenFromClient] using accounts.client
    · simpa [Event.toClient, ClientCopy.cut] using before
    · simp [Event.toServer, ClientMessage.bytes, ClientCopy.sentCut, sent]
  | payload m rest carried at_payload notWrite =>
    rw [at_payload] at before sent
    change s.toClient = _ ++ (s.serverCopy.cut ++ []) at before
    change s.toServer = _ ++ m.quint.bytes at sent
    refine ⟨history ++ [.forwardedToServer m], ?_, accounts.serverReading, ?_, reading, ?_, ?_,
      .inr (inside_afterMessage _)⟩
    · simpa [Event.takenFromServer] using accounts.server
    · simpa [Event.takenFromClient] using accounts.client
    · simpa [Event.toClient, cut_afterMessage] using before
    · simp [Event.toServer, ClientMessage.bytes, sentCut_afterMessage, sent]
  | update n p payload _ at_update unread =>
    rw [at_update] at before sent
    exact ⟨history, accounts.server, accounts.serverReading, accounts.client, reading, before, sent,
      .inr rfl⟩
  | prefetch n p i _ copy at_prefetch unread onward =>
    rw [at_prefetch] at before sent
    refine ⟨history, accounts.server, accounts.serverReading, accounts.client, reading, ?_, ?_, ?_⟩
    · rcases onward with rfl | ⟨rfl, -⟩ | rfl <;> exact before
    · rcases onward with rfl | ⟨rfl, -⟩ | rfl <;> exact sent
    · rcases onward with rfl | ⟨rfl, -⟩ | rfl <;> exact .inr rfl
  | prefetchSend n p i _ at_send unread =>
    rw [at_send] at before sent
    refine ⟨history ++ [.prefetched (prefetchQuint n p i) rfl], ?_, accounts.serverReading, ?_,
      reading, ?_, ?_, .inr rfl⟩
    · simpa [Event.takenFromServer] using accounts.server
    · simpa [Event.takenFromClient] using accounts.client
    · simpa [Event.toClient, ClientCopy.cut] using before
    · simp [Event.toServer, ClientCopy.sentCut, sent]

/-- A run that takes turns keeps a history. -/
theorem accounts_of_run (plain : ∀ m ∈ serverSent, m.Plain) {turns : List Turn}
    (meets : Meets (step cacheBlocks) TakesTurns (start serverSent clientSent) turns)
    (reached : run (step cacheBlocks) (start serverSent clientSent) turns = some s) :
    ∃ history serverRest clientRest,
      Accounts serverSent clientSent s history serverRest clientRest := by
  refine invariant_of_run (fun s => ∃ history serverRest clientRest,
    Accounts serverSent clientSent s history serverRest clientRest) ?_ ?_ meets reached
  · rintro state turn next ⟨history, serverRest, clientRest, accounts⟩ condition taken
    cases turn with
    | server =>
      have plainRest : ∀ m ∈ serverRest, m.Plain := fun m member =>
        plain m (accounts.server ▸ List.mem_append_right _ member)
      obtain ⟨left, cases, reading⟩ := accounts.serverReading.step plainRest taken
      obtain ⟨history', accounts'⟩ := accounts.server_step condition cases reading
      exact ⟨history', left, clientRest, accounts'⟩
    | client =>
      obtain ⟨left, cases, reading⟩ := accounts.clientReading.step taken
      obtain ⟨history', accounts'⟩ := accounts.client_step condition cases reading
      exact ⟨history', serverRest, left, accounts'⟩
  · exact ⟨[], serverSent, clientSent, rfl, .quint _, rfl, .quint _, rfl, rfl, .inl rfl⟩

/-! ### From the invariant to transparency -/

/-- What `CopyFromServer` has begun to write is the beginning of its next message. -/
theorem Accounts.begun_server (accounts : Accounts serverSent clientSent s history serverRest
    clientRest) : Begun serverSent clientSent history Event.toClient s.serverCopy.cut := by
  have split := accounts.server
  have next : ∀ (m : ServerMessage) (rest : List ServerMessage) (event : Event),
      serverRest = m :: rest → event.takenFromServer = [m] → event.takenFromClient = [] →
      (history ++ [event]).flatMap Event.takenFromServer <+: serverSent ∧
        (history ++ [event]).flatMap Event.takenFromClient <+: clientSent := by
    intro m rest event left taken none
    constructor
    · exact ⟨rest, by simpa [taken, left] using split⟩
    · exact ⟨clientRest, by simpa [none] using accounts.client⟩
  generalize counter : s.serverCopy = copy
  have reading := accounts.serverReading
  rw [counter] at reading
  cases copy with
  | quint => exact .inl rfl
  | payload q =>
    by_cases cache : q.command = CMD_CACHE_OKAY
    · exact .inl (by rw [ServerCopy.cut, if_pos cache])
    · obtain ⟨rest, m, left, carried, rfl⟩ : ∃ rest m, serverRest = m :: rest ∧ m.payload ≠ [] ∧
          q = m.quint := by
        generalize s.fromServer = stream at reading
        cases reading with
        | payload m rest carried => exact ⟨rest, m, rfl, carried, rfl⟩
      refine .inr ⟨.forwardedToClient m cache, m.payload, carried, ?_, next m rest _ left rfl rfl⟩
      rw [ServerCopy.cut, if_neg cache]
      rfl
  | forward q payload =>
    obtain ⟨rest, m, left, carried, okay, rfl⟩ : ∃ rest m, serverRest = m :: rest ∧
        m.payload ≠ [] ∧ m.quint.command = CMD_BLOCK_OKAY ∧ q = m.quint := by
      generalize s.fromServer = stream at reading
      cases reading with
      | forward m rest carried okay => exact ⟨rest, m, rfl, carried, okay, rfl⟩
    have notCache : m.quint.command ≠ CMD_CACHE_OKAY := by
      rw [okay]
      decide
    exact .inr ⟨.forwardedToClient m notCache, m.payload, carried, rfl,
      next m rest _ left rfl rfl⟩

theorem Block.bytes_ne_nil (block : Block) : block.bytes ≠ [] := by
  intro empty
  have size := block.size
  rw [empty] at size
  cases size

/-- What `CopyFromClient` has begun to write, to either side, is the beginning of its next
message. -/
theorem Accounts.begun_client (accounts : Accounts serverSent clientSent s history serverRest
      clientRest) :
    Begun serverSent clientSent history Event.toClient s.clientCopy.cut ∧
      Begun serverSent clientSent history Event.toServer s.clientCopy.sentCut := by
  have next : ∀ (m : ClientMessage) (rest : List ClientMessage) (event : Event),
      clientRest = m :: rest → event.takenFromServer = [] → event.takenFromClient = [m] →
      (history ++ [event]).flatMap Event.takenFromServer <+: serverSent ∧
        (history ++ [event]).flatMap Event.takenFromClient <+: clientSent := by
    intro m rest event left none taken
    constructor
    · exact ⟨serverRest, by simpa [none] using accounts.server⟩
    · exact ⟨rest, by simpa [taken, left] using accounts.client⟩
  have reading := accounts.clientReading
  generalize counter : s.clientCopy = copy at reading ⊢
  generalize s.fromClient = stream at reading
  cases reading with
  | hitBlock m block rest read =>
    exact ⟨.inr ⟨.answered m block read, block.bytes, block.bytes_ne_nil, rfl,
      next m rest _ rfl rfl rfl⟩, .inl rfl⟩
  | payload m rest carried =>
    exact ⟨.inl rfl, .inr ⟨.forwardedToServer m, m.payload, carried, rfl,
      next m rest _ rfl rfl rfl⟩⟩
  | _ => exact ⟨.inl rfl, .inl rfl⟩

theorem Accounts.transparent (accounts : Accounts serverSent clientSent s history serverRest
      clientRest) (plain : ∀ m ∈ serverSent, m.Plain) :
    Transparent cacheBlocks serverSent clientSent s history := by
  have plainRest : ∀ m ∈ serverRest, m.Plain := fun m member =>
    plain m (accounts.server ▸ List.mem_append_right _ member)
  have serverIdle : copyFromServer s = none → s.serverCopy = .quint ∧ serverRest = [] := by
    intro stuck
    have empty := accounts.serverReading.eq_nil_of_stuck plainRest stuck
    have reading := accounts.serverReading
    rw [empty] at reading
    generalize s.serverCopy = copy at reading ⊢
    generalize s.fromServer = stream at reading
    cases reading
    exact ⟨rfl, empty⟩
  refine ⟨⟨serverRest, accounts.server⟩, ⟨clientRest, accounts.client⟩, ⟨_, accounts.toClient, ?_⟩,
    ⟨_, accounts.toServer, accounts.begun_client.2⟩, ?_, ?_, ?_⟩
  · rcases accounts.apart with outside | outside
    · rw [ServerCopy.cut_eq_nil outside, List.nil_append]
      exact accounts.begun_client.1
    · rw [ClientCopy.cut_eq_nil outside, List.append_nil]
      exact accounts.begun_server
  · intro stuck
    simpa [(serverIdle stuck).2] using accounts.server
  · intro stuck
    simpa [(accounts.clientReading.eq_nil_of_stuck stuck).2] using accounts.client
  · intro serverStuck clientStuck
    have toClient := accounts.toClient
    have toServer := accounts.toServer
    rw [(serverIdle serverStuck).1, (accounts.clientReading.eq_nil_of_stuck clientStuck).1]
      at toClient
    rw [(accounts.clientReading.eq_nil_of_stuck clientStuck).1] at toServer
    exact ⟨by simpa [ServerCopy.cut, ClientCopy.cut] using toClient,
      by simpa [ClientCopy.sentCut] using toServer⟩

end

/-- **Transparency.** When every message from the server with `n = p = 0xFFFF` is bare, and no
goroutine writes to the client between the two writes of the other one, every run copies the
connection transparently. -/
theorem transparent_of_takesTurns (cacheBlocks : Nat) (serverSent : List ServerMessage)
    (clientSent : List ClientMessage) (plain : ∀ m ∈ serverSent, m.Plain) (turns : List Turn)
    (meets : Meets (step cacheBlocks) TakesTurns (start serverSent clientSent) turns) (s : State)
    (reached : run (step cacheBlocks) (start serverSent clientSent) turns = some s) :
    ∃ history, Transparent cacheBlocks serverSent clientSent s history := by
  obtain ⟨history, serverRest, clientRest, accounts⟩ := accounts_of_run plain meets reached
  exact ⟨history, accounts.transparent plain⟩

/-- The payload of a `CMD_MID_MUX` comes through while the client is kept waiting. -/
def midMux : ServerMessage where
  quint := newQuint CMD_MID_MUX 1 0
  payload := [7]
  whole := .inl rfl

def readFirstBlock : ClientMessage where
  quint := newQuint CMD_BLOCK_READ 0 0
  payload := []
  whole := List.length_nil

theorem transparent_midMux_blockRead :
    ∃ s history, run (step 0) (start [midMux] [readFirstBlock]) [.server, .client, .server, .client] =
        some s ∧
      Transparent 0 [midMux] [readFirstBlock] s history := by
  obtain ⟨s, reached⟩ := Option.isSome_iff_exists.mp (show (run (step 0)
    (start [midMux] [readFirstBlock]) [.server, .client, .server, .client]).isSome = true by
      decide +kernel)
  obtain ⟨history, transparent⟩ := transparent_of_takesTurns 0 [midMux] [readFirstBlock]
    (by simp [ServerMessage.Plain, midMux]) [.server, .client, .server, .client]
    (by decide +kernel) s reached
  exact ⟨s, history, reached, transparent⟩

/-! ### Where a schedule or a message breaks it -/

/-- What comes first on the way to the client belongs to one event. -/
theorem exists_event_of_prefix {serverSent : List ServerMessage} {clientSent : List ClientMessage}
    {history : List Event} {cut : List UInt8} (present : history.flatMap Event.toClient ++ cut ≠ [])
    (fromServer : history.flatMap Event.takenFromServer <+: serverSent)
    (fromClient : history.flatMap Event.takenFromClient <+: clientSent)
    (begun : Begun serverSent clientSent history Event.toClient cut) :
    ∃ event : Event, event.takenFromServer ⊆ serverSent ∧ event.takenFromClient ⊆ clientSent ∧
      event.toClient ≠ [] ∧
      (event.toClient <+: history.flatMap Event.toClient ++ cut ∨
        history.flatMap Event.toClient ++ cut <+: event.toClient) := by
  have member : ∀ event ∈ history, event.takenFromServer ⊆ serverSent ∧
      event.takenFromClient ⊆ clientSent := fun event within =>
    ⟨fun _ carried => fromServer.subset (List.mem_flatMap.mpr ⟨event, within, carried⟩),
      fun _ carried => fromClient.subset (List.mem_flatMap.mpr ⟨event, within, carried⟩)⟩
  by_cases silent : history.flatMap Event.toClient = []
  · rw [silent, List.nil_append] at present ⊢
    obtain rfl | ⟨event, more, -, output, server, client⟩ := begun
    · exact absurd rfl present
    · rw [List.flatMap_append, List.flatMap_singleton] at server client
      refine ⟨event, fun _ carried => server.subset (List.mem_append_right _ carried),
        fun _ carried => client.subset (List.mem_append_right _ carried), ?_, .inr ⟨more, output.symm⟩⟩
      rw [output]
      exact List.append_ne_nil_of_left_ne_nil present more
  · clear fromServer fromClient begun
    induction history with
    | nil => exact absurd rfl silent
    | cons event rest inductionHypothesis =>
      rw [List.flatMap_cons] at present silent ⊢
      by_cases quiet : event.toClient = []
      · rw [quiet, List.nil_append] at present silent ⊢
        exact inductionHypothesis present
          (fun other within => member other (List.mem_cons_of_mem _ within)) silent
      · refine ⟨event, (member event List.mem_cons_self).1, (member event List.mem_cons_self).2,
          quiet, .inl ?_⟩
        rw [List.append_assoc]
        exact List.prefix_append ..

def cacheOkay (n p : Nat) : ServerMessage where
  quint := newQuint CMD_CACHE_OKAY n p
  payload := List.replicate 256 0
  whole := .inl ((List.length_replicate).trans (if_pos (.inr rfl)).symm)

/-- The client is sent the header of a block it reads from the cache after the header of a message
from the server, and before that message's payload. -/
theorem not_transparent_interleaved {s : State}
    (reached : run (step 0) (start [cacheOkay 0 0, midMux] [readFirstBlock])
      [.server, .server, .client, .server, .client] = some s) :
    ¬∃ history, Transparent 0 [cacheOkay 0 0, midMux] [readFirstBlock] s history := by
  have output : s.toClient = midMux.quint.bytes ++ (hitQuint 0 0).bytes := by
    have evaluated : (run (step 0) (start [cacheOkay 0 0, midMux] [readFirstBlock])
        [.server, .server, .client, .server, .client]).map State.toClient =
          some (midMux.quint.bytes ++ (hitQuint 0 0).bytes) := by
      decide +kernel
    rwa [reached, Option.map_some, Option.some_inj] at evaluated
  rintro ⟨history, transparent⟩
  obtain ⟨cut, toClient, begun⟩ := transparent.toClient
  have split := toClient.symm.trans output
  obtain ⟨event, server, client, spoken, prefixed⟩ := exists_event_of_prefix
    (by rw [split]; decide) transparent.fromServer transparent.fromClient begun
  rw [split] at prefixed
  cases event with
  | forwardedToClient m other =>
    have sent : m = cacheOkay 0 0 ∨ m = midMux := by simpa [Event.takenFromServer] using server
    obtain rfl | rfl := sent
    · exact other rfl
    · have apart : ¬(midMux.bytes <+: midMux.quint.bytes ++ (hitQuint 0 0).bytes ∨
          midMux.quint.bytes ++ (hitQuint 0 0).bytes <+: midMux.bytes) := by
        decide +kernel
      exact apart prefixed
  | answered m block read =>
    have sent : m = readFirstBlock := by simpa [Event.takenFromClient] using client
    subst sent
    obtain ⟨rest, same⟩ | ⟨rest, same⟩ := prefixed <;>
      exact absurd (List.cons.inj same).1 (by decide)
  | _ => exact spoken rfl

/-- A cached block with `n = p = 0xFFFF` is forwarded to the client, as if it were messages of the
server. -/
theorem not_transparent_special {s : State}
    (reached : run (step 0) (start [cacheOkay 0xFFFF 0xFFFF] []) [.server, .server] = some s) :
    ¬∃ history, Transparent 0 [cacheOkay 0xFFFF 0xFFFF] [] s history := by
  have output : s.toClient = List.replicate 5 0 := by
    have evaluated : (run (step 0) (start [cacheOkay 0xFFFF 0xFFFF] []) [.server, .server]).map
        State.toClient = some (List.replicate 5 0) := by
      decide +kernel
    rwa [reached, Option.map_some, Option.some_inj] at evaluated
  rintro ⟨history, transparent⟩
  obtain ⟨cut, toClient, begun⟩ := transparent.toClient
  obtain ⟨event, server, client, spoken, -⟩ := exists_event_of_prefix
    (by rw [← toClient, output]; decide) transparent.fromServer transparent.fromClient begun
  cases event with
  | forwardedToClient m other =>
    have sent : m = cacheOkay 0xFFFF 0xFFFF := by simpa [Event.takenFromServer] using server
    exact other (sent ▸ rfl)
  | answered m block read => simp [Event.takenFromClient] at client
  | _ => exact spoken rfl

/-- Neither condition can be left out. -/
theorem not_transparent :
    (∃ turns s, run (step 0) (start [cacheOkay 0 0, midMux] [readFirstBlock]) turns = some s ∧
      ¬∃ history, Transparent 0 [cacheOkay 0 0, midMux] [readFirstBlock] s history) ∧
    ∃ turns s, run (step 0) (start [cacheOkay 0xFFFF 0xFFFF] []) turns = some s ∧
      ¬∃ history, Transparent 0 [cacheOkay 0xFFFF 0xFFFF] [] s history := by
  constructor
  · obtain ⟨s, reached⟩ := Option.isSome_iff_exists.mp (show (run (step 0)
      (start [cacheOkay 0 0, midMux] [readFirstBlock])
      [.server, .server, .client, .server, .client]).isSome = true by decide +kernel)
    exact ⟨_, s, reached, not_transparent_interleaved reached⟩
  · obtain ⟨s, reached⟩ := Option.isSome_iff_exists.mp (show (run (step 0)
      (start [cacheOkay 0xFFFF 0xFFFF] []) [.server, .server]).isSome = true by decide +kernel)
    exact ⟨_, s, reached, not_transparent_special reached⟩

end Frobio.Conduit
