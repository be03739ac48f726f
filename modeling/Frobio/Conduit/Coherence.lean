/-
This file is about what the client of the conduit reads: the block most recently
written to the sector, whether the answer comes from the cache or from the server.

The client has at most one request outstanding, and `Token` follows it from queue
to queue among the prefetches and their answers. With `Values` it makes the
invariant that every step of a run keeps.
-/

import Frobio.Conduit.Values

namespace Frobio.Conduit

open Coms Run

/-! ### The outstanding request -/

/-- The client waits for the answer to this request. -/
def Client.Awaits (client : Client) (m : ClientMessage) : Prop :=
  (client = .blockRead m.quint ∧ m.quint.command = CMD_BLOCK_READ) ∨
    (client = .blockWrite m.quint ∧ m.quint.command = CMD_BLOCK_WRITE)

/-- This answer is the one the client waits for. -/
def Client.Answer (newest : Nat → Block) (client : Client) (answer : ServerMessage) : Prop :=
  (∃ q, client = .blockRead q ∧ answer.quint = newQuint CMD_BLOCK_OKAY q.n q.p ∧
      answer.payload = (newest (lsnOf q)).bytes) ∨
    (∃ q, client = .blockWrite q) ∧ answer.quint = writeConfirmation ∧ answer.payload = []

/-- `CopyFromClient` is not dealing with a request of the client. -/
def ClientCopy.quiet : ClientCopy → Bool
  | .quint | .update .. | .prefetch .. | .prefetchSend .. => true
  | _ => false

/-- `CopyFromClient` makes no prefetch before its next message. -/
def ClientCopy.still : ClientCopy → Bool
  | .quint | .update .. => true
  | _ => false

/-- Where the one request of the client, or its answer, is. The requests are the ones
`CopyFromClient` has left, `wanted` the ones that wait for the server, and `cut` is the header
`CopyFromServer` has begun an answer with. -/
inductive Token (newest : Nat → Block) (client : Client) (requests wanted : List ClientMessage)
    (replies : List ServerMessage) (toClient : List UInt8) (copy : ClientCopy)
    (cut : List UInt8) : Prop
  | idle (none : client = .idle) (noRequest : requests = []) (noWanted : wanted = [])
      (noReply : replies = []) (empty : toClient = []) (quiet : copy.quiet = true)
  | asked (m : ClientMessage) (awaits : client.Awaits m) (request : requests = [m])
      (noWanted : wanted = []) (noReply : replies = []) (empty : toClient = [])
      (stands : copy.quiet = true ∨ copy = .send m.quint ∨
        (copy = .payload m.quint ∧ m.quint.command = CMD_BLOCK_WRITE) ∨
        copy = .hit m.quint.n m.quint.p (newest (lsnOf m.quint)))
  | answering (m : ClientMessage) (awaits : client = .blockRead m.quint) (request : requests = [m])
      (read : m.quint.command = CMD_BLOCK_READ) (noWanted : wanted = []) (noReply : replies = [])
      (begun : toClient = (hitQuint m.quint.n m.quint.p).bytes)
      (stands : copy = .hitBlock m.quint.n m.quint.p (newest (lsnOf m.quint)))
  | requested (m : ClientMessage) (awaits : client.Awaits m) (noRequest : requests = [])
      (sent : wanted = [m]) (noReply : replies = []) (empty : toClient = [])
      (quiet : copy.quiet = true)
      (still : m.quint.command = CMD_BLOCK_WRITE → copy.still = true)
  | answered (answer : ServerMessage) (answers : client.Answer newest answer)
      (noRequest : requests = []) (noWanted : wanted = []) (reply : replies = [answer])
      (begun : toClient = cut)
      (stands : cut = [] ∨ (cut = answer.quint.bytes ∧ answer.payload ≠ []))
      (quiet : copy.quiet = true)
  | delivered (answer : ServerMessage) (answers : client.Answer newest answer)
      (noRequest : requests = []) (noWanted : wanted = []) (noReply : replies = [])
      (whole : toClient = answer.bytes) (quiet : copy.quiet = true)

section

variable {newest : Nat → Block} {client : Client} {requests more sent : List ClientMessage}
  {answers : List ServerMessage} {toClient cut : List UInt8} {copy copy' : ClientCopy}

theorem Client.Answer.command {answer : ServerMessage} (answers : client.Answer newest answer) :
    answer.quint.command = CMD_BLOCK_OKAY := by
  rcases answers with ⟨q, -, same, -⟩ | ⟨-, same, -⟩ <;> rw [same] <;> rfl

/-- A reply that `CopyFromServer` has left is the one the client waits for. -/
theorem Token.reply {m : ServerMessage}
    (token : Token newest client requests sent (m :: answers) toClient copy cut) :
    client.Answer newest m ∧ requests = [] ∧ sent = [] ∧ answers = [] ∧ toClient = cut ∧
      copy.quiet = true := by
  cases token with
  | answered answer isAnswer noRequest noWanted reply begun stands quiet =>
    obtain ⟨rfl, rfl⟩ := List.cons.inj reply
    exact ⟨isAnswer, noRequest, noWanted, rfl, begun, quiet⟩
  | idle _ _ _ noReply => cases noReply
  | asked _ _ _ _ noReply => cases noReply
  | answering _ _ _ _ _ noReply => cases noReply
  | requested _ _ _ _ noReply => cases noReply
  | delivered _ _ _ _ noReply => cases noReply

/-- A request that `CopyFromClient` has left is the one the client made. -/
theorem Token.request {m : ClientMessage}
    (token : Token newest client (m :: more) sent answers toClient copy cut) :
    more = [] ∧ sent = [] ∧ answers = [] ∧
      ((client.Awaits m ∧ toClient = [] ∧ (copy.quiet = true ∨ copy = .send m.quint ∨
          (copy = .payload m.quint ∧ m.quint.command = CMD_BLOCK_WRITE) ∨
          copy = .hit m.quint.n m.quint.p (newest (lsnOf m.quint)))) ∨
        (client = .blockRead m.quint ∧ toClient = (hitQuint m.quint.n m.quint.p).bytes ∧
          copy = .hitBlock m.quint.n m.quint.p (newest (lsnOf m.quint)))) := by
  cases token with
  | asked other awaits request noWanted noReply empty stands =>
    obtain ⟨rfl, rfl⟩ := List.cons.inj request
    exact ⟨rfl, noWanted, noReply, .inl ⟨awaits, empty, stands⟩⟩
  | answering other awaits request read noWanted noReply begun stands =>
    obtain ⟨rfl, rfl⟩ := List.cons.inj request
    exact ⟨rfl, noWanted, noReply, .inr ⟨awaits, begun, stands⟩⟩
  | idle _ noRequest => cases noRequest
  | requested _ _ noRequest => cases noRequest
  | answered _ _ noRequest => cases noRequest
  | delivered _ _ noRequest => cases noRequest

/-- Outside the requests of the client, `CopyFromClient` leaves the token alone. -/
theorem Token.quietly (token : Token newest client requests sent answers toClient copy cut)
    (before : copy.quiet = true) (after : copy'.quiet = true)
    (still : copy.still = true → copy'.still = true) :
    Token newest client requests sent answers toClient copy' cut := by
  cases token with
  | idle none noRequest noWanted noReply empty =>
    exact .idle none noRequest noWanted noReply empty after
  | asked m awaits request noWanted noReply empty =>
    exact .asked m awaits request noWanted noReply empty (.inl after)
  | answering m awaits request read noWanted noReply begun stands =>
    rw [stands] at before
    cases before
  | requested m awaits noRequest sent noReply empty _ wasStill =>
    exact .requested m awaits noRequest sent noReply empty after fun write => still (wasStill write)
  | answered answer answers noRequest noWanted reply begun stands =>
    exact .answered answer answers noRequest noWanted reply begun stands after
  | delivered answer answers noRequest noWanted noReply whole =>
    exact .delivered answer answers noRequest noWanted noReply whole after

/-- While prefetches are made, no write waits at the server. -/
theorem Token.writes_eq_nil (token : Token newest client requests sent answers toClient copy cut)
    (moving : copy.still = false) : writes sent = [] := by
  cases token with
  | requested m awaits noRequest sent noReply empty quiet still =>
    subst sent
    refine List.filter_eq_nil_iff.mpr fun other member => ?_
    rw [List.mem_singleton] at member
    subst member
    intro write
    rw [still (by simpa using write)] at moving
    cases moving
  | idle _ _ noWanted => rw [noWanted]; rfl
  | asked _ _ _ noWanted => rw [noWanted]; rfl
  | answering _ _ _ _ noWanted => rw [noWanted]; rfl
  | answered _ _ _ noWanted => rw [noWanted]; rfl
  | delivered _ _ _ noWanted => rw [noWanted]; rfl

end

/-! ### The invariant -/

/-- The messages in flight, with the token among them, and the values they carry. -/
structure Invariant (initial : Nat → Block) (s : System) (requests atServer : List ClientMessage)
    (answers : List ServerMessage) : Prop where
  fromClient : ClientReading s.conduit.clientCopy s.conduit.fromClient requests
  toServer : s.conduit.toServer = clientStream atServer ++ s.conduit.clientCopy.sentCut
  fromServer : ServerReading s.conduit.serverCopy s.conduit.fromServer answers
  plain : ∀ m ∈ answers, m.Plain
  token : Token (latest initial s.log) s.client requests (wanted atServer) (replies answers)
    s.conduit.toClient s.conduit.clientCopy s.conduit.serverCopy.cut
  values : Values (latest initial s.log) s.conduit.blockCache s.disk (writes requests)
    (writes atServer) (prefetches atServer) (prefetched answers) s.conduit.clientCopy.uncached
  coherent : Coherent initial s.log

theorem ServerMessage.payload_ne_nil_of_cacheOkay {m : ServerMessage}
    (okay : m.quint.command = CMD_CACHE_OKAY) : m.payload ≠ [] := by
  intro empty
  rcases m.whole with called | ⟨confirms, -⟩
  · rw [serverPayload, if_pos (.inr okay), empty] at called
    cases called
  · rw [confirms] at okay
    cases okay

section

variable {initial : Nat → Block} {cacheBlocks : Nat} {s : System} {next : State}
  {requests atServer : List ClientMessage} {answers : List ServerMessage}

theorem replies_cons_of_cacheOkay {m : ServerMessage} (okay : m.quint.command = CMD_CACHE_OKAY)
    (rest : List ServerMessage) : replies (m :: rest) = replies rest := by
  simp [replies, okay]

theorem replies_cons_of_ne {m : ServerMessage} (other : m.quint.command ≠ CMD_CACHE_OKAY)
    (rest : List ServerMessage) : replies (m :: rest) = m :: replies rest := by
  simp [replies, other]

theorem prefetched_cons_of_cacheOkay {m : ServerMessage} (okay : m.quint.command = CMD_CACHE_OKAY)
    (rest : List ServerMessage) : prefetched (m :: rest) = m :: prefetched rest := by
  simp [prefetched, okay]

theorem prefetched_cons_of_ne {m : ServerMessage} (other : m.quint.command ≠ CMD_CACHE_OKAY)
    (rest : List ServerMessage) : prefetched (m :: rest) = prefetched rest := by
  simp [prefetched, other]

/-- A step of `CopyFromServer` moves the answers along. -/
theorem Invariant.server_step (invariant : Invariant initial s requests atServer answers)
    (taken : copyFromServer s.conduit = some next) :
    ∃ left, Invariant initial { s with conduit := next } requests atServer left := by
  obtain ⟨left, cases, reading⟩ := invariant.fromServer.step invariant.plain taken
  have token := invariant.token
  have values := invariant.values
  have plain := invariant.plain
  cases cases with
  | header m rest carried at_quint unread =>
    refine ⟨m :: rest, invariant.fromClient, invariant.toServer, reading, plain, ?_, values,
      invariant.coherent⟩
    rw [at_quint] at token
    by_cases cache : m.quint.command = CMD_CACHE_OKAY
    · simpa [cache, ServerCopy.cut] using token
    · rw [replies_cons_of_ne cache] at token ⊢
      obtain ⟨isAnswer, noRequest, noWanted, noMore, begun, quiet⟩ := token.reply
      refine .answered m isAnswer noRequest noWanted (by rw [noMore]) ?_
        (.inr ⟨by simp [ServerCopy.cut, cache], carried⟩) quiet
      simp [ServerCopy.cut, cache, begun]
  | bare m _ empty at_quint unread =>
    have other : m.quint.command ≠ CMD_CACHE_OKAY := fun okay =>
      ServerMessage.payload_ne_nil_of_cacheOkay okay empty
    refine ⟨left, invariant.fromClient, invariant.toServer, reading,
      fun m member => plain m (List.mem_cons_of_mem _ member), ?_, ?_, invariant.coherent⟩
    · rw [at_quint, replies_cons_of_ne other] at token
      obtain ⟨isAnswer, noRequest, noWanted, noMore, begun, quiet⟩ := token.reply
      refine .delivered m isAnswer noRequest noWanted noMore ?_ quiet
      simp [ServerMessage.bytes, ServerCopy.cut, other, begun, empty]
    · rwa [prefetched_cons_of_ne other] at values
  | cache m _ carried at_payload okay =>
    refine ⟨left, invariant.fromClient, invariant.toServer, reading,
      fun m member => plain m (List.mem_cons_of_mem _ member), ?_, ?_, invariant.coherent⟩
    · rw [at_payload, replies_cons_of_cacheOkay okay] at token
      simpa [ServerCopy.cut, okay] using token
    · rw [prefetched_cons_of_cacheOkay okay] at values
      exact values.cacheAnswer
  | store m rest carried at_payload okay =>
    have other : m.quint.command ≠ CMD_CACHE_OKAY := by
      rw [okay]
      decide
    rw [at_payload, replies_cons_of_ne other] at token
    obtain ⟨isAnswer, noRequest, noWanted, noMore, begun, quiet⟩ := token.reply
    refine ⟨m :: rest, invariant.fromClient, invariant.toServer, reading, plain, ?_, ?_,
      invariant.coherent⟩
    · rw [replies_cons_of_ne other]
      refine .answered m isAnswer noRequest noWanted (by rw [noMore]) ?_ (.inr ⟨rfl, carried⟩) quiet
      simpa [ServerCopy.cut, other] using begun
    · rcases isAnswer with ⟨q, -, same, payload⟩ | ⟨-, -, empty⟩
      · have inRange := q.n_lt
        have inRange' := q.p_lt
        have cached : putCache s.conduit.blockCache (key m.quint.n m.quint.p)
            (Block.copy m.payload) = putCache s.conduit.blockCache (key q.n q.p)
              (latest initial s.log (lsnOf q)) := by
          rw [same, payload, Block.copy_bytes, n_newQuint, p_newQuint, Nat.mod_eq_of_lt inRange,
            Nat.mod_eq_of_lt inRange']
        show Values _ (putCache s.conduit.blockCache _ _) _ _ _ _ _ _
        rw [cached]
        exact values.cacheReply
      · exact absurd empty carried
  | pass m _ carried at_payload notCache notBlock =>
    rw [replies_cons_of_ne notCache] at token
    exact absurd token.reply.1.command notBlock
  | forward m _ carried at_forward okay unread =>
    have other : m.quint.command ≠ CMD_CACHE_OKAY := by
      rw [okay]
      decide
    refine ⟨left, invariant.fromClient, invariant.toServer, reading,
      fun m member => plain m (List.mem_cons_of_mem _ member), ?_, ?_, invariant.coherent⟩
    · rw [at_forward, replies_cons_of_ne other] at token
      obtain ⟨isAnswer, noRequest, noWanted, noMore, begun, quiet⟩ := token.reply
      refine .delivered m isAnswer noRequest noWanted noMore ?_ quiet
      simp [ServerMessage.bytes, ServerCopy.cut, begun]
    · rwa [prefetched_cons_of_ne other] at values

/-! ### What is in flight -/

theorem ServerMessage.length_eq_serverReads {m : ServerMessage} (plain : m.Plain) :
    m.payload.length = serverReads m.quint := by
  unfold serverReads
  by_cases empty : m.payload = []
  · rw [if_neg (by rw [serverReadsPayload_of_nil empty]; decide), empty, List.length_nil]
  · obtain ⟨reads, counted⟩ := serverCount_of_ne_nil plain empty
    rw [if_pos reads, counted]

theorem messages_serverStream {answers : List ServerMessage} (plain : ∀ m ∈ answers, m.Plain)
    {fuel : Nat} (enough : (serverStream answers).length ≤ fuel) :
    messages serverReads fuel (serverStream answers) =
      answers.map fun m => (m.quint, m.payload) := by
  have same : serverStream answers = (answers.map fun m => (m.quint, m.payload)).flatMap
      fun message => message.1.bytes ++ message.2 := by
    rw [List.flatMap_map]
    rfl
  rw [same] at enough ⊢
  refine messages_flatMap _ _ ?_ _ enough
  intro message member
  obtain ⟨m, within, rfl⟩ := List.mem_map.mp member
  exact ServerMessage.length_eq_serverReads (plain m within)

theorem mem_requestsInFlight {c : State} (unread : c.toServer = clientStream atServer)
    {m : ClientMessage} (member : m ∈ atServer) : (m.quint, m.payload) ∈ requestsInFlight c := by
  have same : clientStream atServer = (atServer.map fun m => (m.quint, m.payload)).flatMap
      fun message => message.1.bytes ++ message.2 := by
    rw [List.flatMap_map]
    rfl
  rw [requestsInFlight, unread, same, messages_flatMap]
  · exact List.mem_map_of_mem member
  · intro message within
    obtain ⟨m, -, rfl⟩ := List.mem_map.mp within
    exact m.whole
  · exact le_rfl

theorem mem_answersInFlight {c : State} (reading : ServerReading c.serverCopy c.fromServer answers)
    (plain : ∀ m ∈ answers, m.Plain) {m : ServerMessage} (member : m ∈ answers)
    (cache : m.quint.command = CMD_CACHE_OKAY) : (m.quint, m.payload) ∈ answersInFlight c := by
  unfold answersInFlight
  generalize c.serverCopy = copy at reading ⊢
  generalize c.fromServer = stream at reading ⊢
  cases reading with
  | quint =>
    rw [messages_serverStream plain le_rfl]
    exact List.mem_map_of_mem member
  | payload first rest carried =>
    have counted := ServerMessage.length_eq_serverReads (plain first List.mem_cons_self)
    simp only [← counted, List.take_left, List.drop_left]
    rw [messages_serverStream (fun m within => plain m (List.mem_cons_of_mem _ within))
      (by rw [List.length_append]; omega)]
    rcases List.mem_cons.mp member with rfl | later
    · exact List.mem_cons_self
    · exact List.mem_cons_of_mem _ (List.mem_map_of_mem later)
  | forward first rest carried okay =>
    rw [messages_serverStream (fun m within => plain m (List.mem_cons_of_mem _ within)) le_rfl]
    rcases List.mem_cons.mp member with rfl | later
    · rw [okay] at cache
      cases cache
    · exact List.mem_map_of_mem later

/-! ### The steps of `CopyFromClient` -/

theorem quiet_afterMessage (q : Quint) : (afterMessage cacheBlocks q).quiet = true := by
  unfold afterMessage
  split <;> rfl

@[simp] theorem uncached_afterMessage (q : Quint) : (afterMessage cacheBlocks q).uncached = none := by
  unfold afterMessage
  split <;> rfl

theorem Client.Awaits.command {client : Client} {m : ClientMessage} (awaits : client.Awaits m) :
    m.quint.command = CMD_BLOCK_READ ∨ m.quint.command = CMD_BLOCK_WRITE := by
  rcases awaits with ⟨-, read⟩ | ⟨-, write⟩
  · exact .inl read
  · exact .inr write

theorem Client.Awaits.wanted {client : Client} {m : ClientMessage} (awaits : client.Awaits m)
    (rest : List ClientMessage) : wanted (m :: rest) = m :: Conduit.wanted rest := by
  rcases awaits.command with command | command <;>
    exact List.filter_cons_of_pos (by rw [command]; decide)

theorem Client.Awaits.prefetches {client : Client} {m : ClientMessage} (awaits : client.Awaits m)
    (rest : List ClientMessage) : prefetches (m :: rest) = Conduit.prefetches rest := by
  rcases awaits.command with command | command <;>
    exact List.filter_cons_of_neg (by rw [command]; decide)

@[simp] theorem writes_nil : writes [] = [] := rfl

@[simp] theorem prefetches_nil : prefetches [] = [] := rfl

theorem wanted_append (first second : List ClientMessage) :
    wanted (first ++ second) = wanted first ++ wanted second :=
  List.filter_append ..

theorem writes_append (first second : List ClientMessage) :
    writes (first ++ second) = writes first ++ writes second :=
  List.filter_append ..

theorem prefetches_append (first second : List ClientMessage) :
    prefetches (first ++ second) = prefetches first ++ prefetches second :=
  List.filter_append ..

theorem writes_singleton_of_read {m : ClientMessage} (read : m.quint.command = CMD_BLOCK_READ) :
    writes [m] = [] :=
  List.filter_cons_of_neg (by rw [read]; decide)

theorem writes_singleton_of_write {m : ClientMessage} (write : m.quint.command = CMD_BLOCK_WRITE) :
    writes [m] = [m] :=
  List.filter_cons_of_pos (by rw [write]; decide)

theorem writes_eq_nil_of_wanted (none : wanted atServer = []) : writes atServer = [] := by
  rw [writes_eq_writes_wanted, none]
  rfl

def prefetchMessage (n p i : Nat) : ClientMessage where
  quint := prefetchQuint n p i
  payload := []
  whole := List.length_nil

/-- The answer `CopyFromClient` makes from the cache. -/
def hitMessage (n p : Nat) (block : Block) : ServerMessage where
  quint := hitQuint n p
  payload := block.bytes
  whole := .inl block.size

/-- A step of `CopyFromClient` that keeps coherence moves the requests along. -/
theorem Invariant.client_step (invariant : Invariant initial s requests atServer answers)
    (condition : KeepsCoherent s (.copy .client))
    (taken : copyFromClient cacheBlocks s.conduit = some next) :
    ∃ left atServer', Invariant initial { s with conduit := next } left atServer' answers := by
  obtain ⟨left, cases, reading⟩ := invariant.fromClient.step taken
  have token := invariant.token
  have values := invariant.values
  have toServer := invariant.toServer
  cases cases with
  | hit m rest block at_quint read cached =>
    rw [at_quint] at token values toServer
    obtain ⟨rfl, noWanted, noReply, ⟨awaits, empty, -⟩ | ⟨-, -, stands⟩⟩ := token.request
    · refine ⟨[m], atServer, reading, toServer, invariant.fromServer, invariant.plain, ?_, values,
        invariant.coherent⟩
      have newest : block = latest initial s.log (lsnOf m.quint) := by
        refine values.cached _ _ block m.quint.n_lt m.quint.p_lt cached ?_
        rintro (⟨write, member, -⟩ | ⟨_, _, _, none, -⟩)
        · rw [writes_singleton_of_read read] at member
          exact List.not_mem_nil member
        · cases none
      exact .asked m awaits rfl noWanted noReply empty (.inr (.inr (.inr (newest ▸ rfl))))
    · cases stands
  | take m rest at_quint missed =>
    rw [at_quint] at token values toServer
    obtain ⟨rfl, noWanted, noReply, ⟨awaits, empty, -⟩ | ⟨-, -, stands⟩⟩ := token.request
    · exact ⟨[m], atServer, reading, toServer, invariant.fromServer, invariant.plain,
        .asked m awaits rfl noWanted noReply empty (.inr (.inl rfl)), values, invariant.coherent⟩
    · cases stands
  | answer m rest block at_hit read unread =>
    rw [at_hit] at token values toServer
    obtain ⟨rfl, noWanted, noReply, ⟨awaits, empty, stands⟩ | ⟨-, -, stands⟩⟩ := token.request
    · refine ⟨[m], atServer, reading, toServer, invariant.fromServer, invariant.plain, ?_, values,
        invariant.coherent⟩
      have newest : block = latest initial s.log (lsnOf m.quint) := by
        rcases stands with quiet | send | ⟨payload, -⟩ | hit
        · cases quiet
        · cases send
        · cases payload
        · injection hit
      have reads : s.client = .blockRead m.quint := by
        rcases awaits with ⟨reads, -⟩ | ⟨-, write⟩
        · exact reads
        · rw [read] at write
          cases write
      exact .answering m reads rfl read noWanted noReply (by rw [empty]; rfl) (newest ▸ rfl)
    · cases stands
  | answerBlock m _ block at_block read unread =>
    rw [at_block] at token values toServer
    obtain ⟨rfl, noWanted, noReply, ⟨-, -, stands⟩ | ⟨reads, begun, stands⟩⟩ := token.request
    · rcases stands with quiet | send | ⟨payload, -⟩ | hit
      · cases quiet
      · cases send
      · cases payload
      · cases hit
    · refine ⟨[], atServer, reading, toServer, invariant.fromServer, invariant.plain, ?_, ?_,
        invariant.coherent⟩
      · refine .delivered (hitMessage m.quint.n m.quint.p block)
          (.inl ⟨m.quint, reads, rfl, ?_⟩) rfl noWanted noReply ?_ rfl
        · injection stands with _ _ newest
          rw [← newest]
          rfl
        · rw [begun]
          rfl
      · rwa [writes_singleton_of_read read] at values
  | send m rest carried at_send unread =>
    rw [at_send] at token values toServer
    obtain ⟨rfl, noWanted, noReply, ⟨awaits, empty, -⟩ | ⟨-, -, stands⟩⟩ := token.request
    · have write : m.quint.command = CMD_BLOCK_WRITE := by
        rcases awaits.command with read | write
        · exact absurd (ClientMessage.payload_eq_nil_of_blockRead read) carried
        · exact write
      refine ⟨[m], atServer, reading, ?_, invariant.fromServer, invariant.plain,
        .asked m awaits rfl noWanted noReply empty (.inr (.inr (.inl ⟨rfl, write⟩))), values,
        invariant.coherent⟩
      simp [ClientCopy.sentCut, toServer]
    · cases stands
  | sendBare m _ empty at_send unread =>
    rw [at_send] at token values toServer
    obtain ⟨rfl, noWanted, noReply, ⟨awaits, quietClient, -⟩ | ⟨-, -, stands⟩⟩ := token.request
    · have read : m.quint.command = CMD_BLOCK_READ := by
        rcases awaits.command with read | write
        · exact read
        · exact absurd empty (ClientMessage.payload_ne_nil_of_blockWrite write)
      refine ⟨[], atServer ++ [m], reading, ?_, invariant.fromServer, invariant.plain, ?_, ?_,
        invariant.coherent⟩
      · have sent : s.conduit.toServer = clientStream atServer := toServer.trans (List.append_nil _)
        simp [clientStream_append, clientStream_cons, sentCut_afterMessage, sent, empty]
      · refine .requested m awaits rfl ?_ noReply quietClient (quiet_afterMessage _) ?_
        · rw [wanted_append, noWanted, awaits.wanted]
          rfl
        · intro write
          rw [read] at write
          cases write
      · change Values _ _ _ _ _ _ _ none at values
        rw [writes_singleton_of_read read] at values
        simpa only [writes_append, writes_singleton_of_read read, prefetches_append,
          awaits.prefetches, writes_nil, prefetches_nil, uncached_afterMessage,
          List.append_nil] using values
    · cases stands
  | write m _ carried at_payload write =>
    rw [at_payload] at token values toServer
    obtain ⟨rfl, noWanted, noReply, ⟨awaits, empty, -⟩ | ⟨-, -, stands⟩⟩ := token.request
    · refine ⟨[], atServer ++ [m], reading, ?_, invariant.fromServer, invariant.plain, ?_, ?_,
        invariant.coherent⟩
      · simp [clientStream_append, clientStream_cons, ClientCopy.sentCut, toServer]
      · refine .requested m awaits rfl ?_ noReply empty rfl fun _ => rfl
        rw [wanted_append, noWanted, awaits.wanted]
        rfl
      · rw [writes_singleton_of_write write, writes_eq_nil_of_wanted noWanted] at values
        have forwarded := values.forward
        simpa only [writes_append, writes_eq_nil_of_wanted noWanted,
          writes_singleton_of_write write, prefetches_append, awaits.prefetches, writes_nil,
          prefetches_nil, List.append_nil, List.nil_append, ClientCopy.uncached] using forwarded
    · cases stands
  | payload m _ carried at_payload notWrite =>
    rw [at_payload] at token
    obtain ⟨rfl, -, -, ⟨-, -, stands⟩ | ⟨-, -, stands⟩⟩ := token.request
    · rcases stands with quiet | send | ⟨-, write⟩ | hit
      · cases quiet
      · cases send
      · exact absurd write notWrite
      · cases hit
    · cases stands
  | update n p payload _ at_update unread =>
    rw [at_update] at token values toServer
    have nothingStale : NothingStale s.conduit n p payload := by
      simpa only [KeepsCoherent, at_update] using condition
    obtain ⟨noRequest, noAnswer, noAlias⟩ := nothingStale
    refine ⟨requests, atServer, reading, toServer, invariant.fromServer, invariant.plain,
      token.quietly rfl rfl fun _ => rfl, values.update ?_ ?_ noAlias, invariant.coherent⟩
    · intro request asked
      obtain ⟨member, cacheRead⟩ := List.mem_filter.mp asked
      have sent : s.conduit.toServer = clientStream atServer := toServer.trans (List.append_nil _)
      exact noRequest (request.quint, request.payload) (mem_requestsInFlight sent member)
        (by simpa using cacheRead)
    · intro answer told
      obtain ⟨member, cacheOkay⟩ := List.mem_filter.mp told
      have cache : answer.quint.command = CMD_CACHE_OKAY := by simpa using cacheOkay
      exact noAnswer (answer.quint, answer.payload)
        (mem_answersInFlight invariant.fromServer invariant.plain member cache) cache
  | prefetch n p i _ copy at_prefetch unread onward =>
    rw [at_prefetch] at token values toServer
    have moved : copy.quiet = true ∧ copy.sentCut = [] ∧ copy.uncached = none := by
      rcases onward with rfl | ⟨rfl, -⟩ | rfl <;> exact ⟨rfl, rfl, rfl⟩
    refine ⟨requests, atServer, reading, ?_, invariant.fromServer, invariant.plain,
      token.quietly rfl moved.1 (fun still => by cases still), ?_, invariant.coherent⟩
    · rw [moved.2.1]
      exact toServer
    · rw [moved.2.2]
      exact values
  | prefetchSend n p i _ at_send unread =>
    rw [at_send] at token values toServer
    have noWrite : writes atServer = [] := by
      rw [writes_eq_writes_wanted]
      exact token.writes_eq_nil rfl
    have more : wanted [prefetchMessage n p i] = [] ∧ writes [prefetchMessage n p i] = [] :=
      ⟨rfl, rfl⟩
    refine ⟨requests, atServer ++ [prefetchMessage n p i], reading, ?_, invariant.fromServer,
      invariant.plain, ?_, ?_, invariant.coherent⟩
    · simp [clientStream_append, clientStream_cons, ClientCopy.sentCut, toServer, prefetchMessage]
    · rw [wanted_append, more.1, List.append_nil]
      exact token.quietly rfl rfl fun still => by cases still
    · rw [writes_append, noWrite, more.2, List.append_nil]
      rw [noWrite] at values
      exact values.prefetch _

/-! ### The steps of the client -/

theorem ClientReading.append {copy : ClientCopy} {stream : List UInt8}
    {rest : List ClientMessage} (reading : ClientReading copy stream rest) (m : ClientMessage) :
    ClientReading copy (stream ++ m.bytes) (rest ++ [m]) := by
  have tail : ∀ rest, clientStream rest ++ m.bytes = clientStream (rest ++ [m]) := by
    intro rest
    simp [clientStream]
  cases reading with
  | quint rest => exact tail rest ▸ .quint _
  | hit m' block rest read => exact tail rest ▸ .hit m' block _ read
  | hitBlock m' block rest read => exact tail rest ▸ .hitBlock m' block _ read
  | send m' rest =>
    rw [List.append_assoc, tail]
    exact .send m' _
  | payload m' rest carried =>
    rw [List.append_assoc, tail]
    exact .payload m' _ carried
  | update n p payload rest => exact tail rest ▸ .update n p payload _
  | prefetch n p i rest => exact tail rest ▸ .prefetch n p i _
  | prefetchSend n p i rest => exact tail rest ▸ .prefetchSend n p i _

theorem ServerReading.append {copy : ServerCopy} {stream : List UInt8}
    {rest : List ServerMessage} (reading : ServerReading copy stream rest) (m : ServerMessage) :
    ServerReading copy (stream ++ m.bytes) (rest ++ [m]) := by
  have tail : ∀ rest, serverStream rest ++ m.bytes = serverStream (rest ++ [m]) := by
    intro rest
    simp [serverStream]
  cases reading with
  | quint rest => exact tail rest ▸ .quint _
  | payload m' rest carried =>
    rw [List.append_assoc, tail]
    exact .payload m' _ carried
  | forward m' rest carried okay => exact tail rest ▸ .forward m' _ carried okay

def readMessage (q : Quint) (read : q.command = CMD_BLOCK_READ) : ClientMessage where
  quint := q
  payload := []
  whole := by
    rw [clientPayload, read]
    rfl

def writeMessage (q : Quint) (write : q.command = CMD_BLOCK_WRITE) (block : Block) :
    ClientMessage where
  quint := q
  payload := block.bytes
  whole := by
    rw [clientPayload, if_pos write]
    exact block.size

/-- An idle client has nothing in any queue. -/
theorem Invariant.idle (invariant : Invariant initial s requests atServer answers)
    (idle : s.client = .idle) : requests = [] ∧ wanted atServer = [] ∧ replies answers = [] ∧
      s.conduit.toClient = [] ∧ s.conduit.clientCopy.quiet = true := by
  have noneAwaited : ∀ m, ¬s.client.Awaits m := by
    rintro m (⟨awaits, -⟩ | ⟨awaits, -⟩) <;> rw [idle] at awaits <;> cases awaits
  have noAnswer : ∀ answer, ¬s.client.Answer (latest initial s.log) answer := by
    rintro answer (⟨q, awaits, -⟩ | ⟨⟨q, awaits⟩, -⟩) <;> rw [idle] at awaits <;> cases awaits
  cases invariant.token with
  | idle _ noRequest noWanted noReply empty quiet =>
    exact ⟨noRequest, noWanted, noReply, empty, quiet⟩
  | asked m awaits => exact absurd awaits (noneAwaited m)
  | answering m awaits => rw [idle] at awaits; cases awaits
  | requested m awaits => exact absurd awaits (noneAwaited m)
  | answered answer isAnswer => exact absurd isAnswer (noAnswer answer)
  | delivered answer isAnswer => exact absurd isAnswer (noAnswer answer)

theorem Invariant.blockRead_step {next : System} {q : Quint}
    (invariant : Invariant initial s requests atServer answers) (read : q.command = CMD_BLOCK_READ)
    (taken : blockRead s q = some next) : ∃ left, Invariant initial next left atServer answers := by
  unfold blockRead at taken
  split at taken
  · rename_i idle
    rw [Option.some_inj] at taken
    subst taken
    obtain ⟨rfl, noWanted, noReply, empty, quiet⟩ := invariant.idle idle
    refine ⟨[readMessage q read], ?_, invariant.toServer, invariant.fromServer, invariant.plain,
      .asked (readMessage q read) (.inl ⟨rfl, read⟩) rfl noWanted noReply empty (.inl quiet), ?_,
      invariant.coherent⟩
    · have appended := invariant.fromClient.append (readMessage q read)
      simpa only [ClientMessage.bytes, readMessage, List.append_nil, List.nil_append] using appended
    · rw [show writes [readMessage q read] = [] from writes_singleton_of_read read]
      exact invariant.values
  · cases taken

theorem Invariant.blockWrite_step {next : System} {q : Quint} {buffer : Block}
    (invariant : Invariant initial s requests atServer answers)
    (write : q.command = CMD_BLOCK_WRITE) (taken : blockWrite s q buffer = some next) :
    ∃ left, Invariant initial next left atServer answers := by
  unfold blockWrite at taken
  split at taken
  · rename_i idle
    rw [Option.some_inj] at taken
    subst taken
    obtain ⟨rfl, noWanted, noReply, empty, quiet⟩ := invariant.idle idle
    refine ⟨[writeMessage q write buffer], ?_, invariant.toServer, invariant.fromServer,
      invariant.plain, .asked (writeMessage q write buffer) (.inr ⟨rfl, write⟩) rfl noWanted noReply
        empty (.inl quiet), ?_, invariant.coherent⟩
    · exact invariant.fromClient.append (writeMessage q write buffer)
    · have values := invariant.values
      rw [writes_eq_nil_of_wanted noWanted] at values ⊢
      rw [show writes [writeMessage q write buffer] = [writeMessage q write buffer] from
        writes_singleton_of_write write]
      exact values.issue (writeMessage q write buffer) buffer rfl
  · cases taken

/-- What has come in for the client is its whole answer, or the header of a block. -/
theorem Invariant.arrived {q : Quint} {rest : List UInt8}
    (invariant : Invariant initial s requests atServer answers)
    (parsed : readQuint s.conduit.toClient = some (q, rest)) :
    (∃ answer, s.client.Answer (latest initial s.log) answer ∧ requests = [] ∧
        wanted atServer = [] ∧ replies answers = [] ∧ s.conduit.clientCopy.quiet = true ∧
        q = answer.quint ∧ rest = answer.payload) ∨
      ((∃ asked, s.client = .blockRead asked) ∧ q.command = CMD_BLOCK_OKAY ∧ rest = []) := by
  have whole : ∀ {header : Quint} {payload : List UInt8},
      s.conduit.toClient = header.bytes ++ payload → q = header ∧ rest = payload := by
    intro header payload same
    rw [same, readQuint_bytes, Option.some_inj, Prod.mk.injEq] at parsed
    exact ⟨parsed.1.symm, parsed.2.symm⟩
  have nonempty : s.conduit.toClient ≠ [] := by
    intro empty
    rw [empty] at parsed
    cases parsed
  cases invariant.token with
  | idle _ _ _ _ empty => exact absurd empty nonempty
  | asked _ _ _ _ _ empty => exact absurd empty nonempty
  | requested _ _ _ _ _ empty => exact absurd empty nonempty
  | answering m awaits _ _ _ _ begun =>
    obtain ⟨rfl, rfl⟩ := whole (begun.trans (List.append_nil _).symm)
    exact .inr ⟨⟨m.quint, awaits⟩, rfl, rfl⟩
  | answered answer isAnswer _ _ _ begun stands =>
    rcases stands with none | ⟨header, carried⟩
    · exact absurd (begun.trans none) nonempty
    · obtain ⟨rfl, rfl⟩ := whole ((begun.trans header).trans (List.append_nil _).symm)
      rcases isAnswer with ⟨asked, awaits, same, -⟩ | ⟨-, -, empty⟩
      · exact .inr ⟨⟨asked, awaits⟩, by rw [same]; rfl, rfl⟩
      · exact absurd empty carried
  | delivered answer isAnswer noRequest noWanted noReply bytes quiet =>
    obtain ⟨rfl, rfl⟩ := whole bytes
    exact .inl ⟨answer, isAnswer, noRequest, noWanted, noReply, quiet, rfl, rfl⟩

/-- When the client takes an answer, it is the answer to its request. -/
theorem Invariant.receive_step {next : System}
    (invariant : Invariant initial s requests atServer answers) (taken : receive s = some next) :
    Invariant initial next requests atServer answers := by
  unfold receive at taken
  split at taken
  · cases taken
  · rename_i asked awaits
    obtain ⟨⟨header, rest⟩, parsed, taken⟩ := Option.bind_eq_some_iff.mp taken
    rcases invariant.arrived parsed with
      ⟨answer, isAnswer, noRequest, noWanted, noReply, quiet, rfl, rfl⟩ | ⟨-, okay, rfl⟩
    · have okay := isAnswer.command
      rcases isAnswer with ⟨q, same, -, payload⟩ | ⟨⟨q, same⟩, -⟩
      · rw [awaits, Client.blockRead.injEq] at same
        subst same
        have size : answer.payload.length = 256 := by
          rw [payload]
          exact Block.size _
        have buffer := readFull_append size []
        rw [List.append_nil] at buffer
        simp only [okay, if_true, buffer, Option.map_some, Option.some_inj] at taken
        subst taken
        refine ⟨invariant.fromClient, invariant.toServer, invariant.fromServer, invariant.plain,
          .idle rfl noRequest noWanted noReply rfl quiet, invariant.values, ?_,
          invariant.coherent⟩
        rw [payload, Block.copy_bytes]
      · rw [awaits] at same
        cases same
    · simp only [okay, if_true, readFull, List.length_nil, Nat.reduceLeDiff, if_false,
        Option.map_none, reduceCtorEq] at taken
  · rename_i asked awaits
    obtain ⟨⟨header, rest⟩, parsed, taken⟩ := Option.map_eq_some_iff.mp taken
    subst taken
    rcases invariant.arrived parsed with
      ⟨answer, isAnswer, noRequest, noWanted, noReply, quiet, rfl, rfl⟩ | ⟨⟨q, same⟩, -⟩
    · rcases isAnswer with ⟨q, same, -⟩ | ⟨-, -, empty⟩
      · rw [awaits] at same
        cases same
      · exact ⟨invariant.fromClient, invariant.toServer, invariant.fromServer, invariant.plain,
          .idle rfl noRequest noWanted noReply empty quiet, invariant.values, invariant.coherent⟩
    · rw [awaits] at same
      cases same

/-! ### The steps of the server -/

/-- The answer of the server to a read. -/
def replyMessage (command : UInt8) (q : Quint) (block : Block)
    (okay : command = CMD_BLOCK_OKAY ∨ command = CMD_CACHE_OKAY) : ServerMessage where
  quint := newQuint command q.n q.p
  payload := block.bytes
  whole := by
    rw [serverPayload, command_newQuint, if_pos okay]
    exact .inl block.size

def confirmMessage : ServerMessage where
  quint := writeConfirmation
  payload := []
  whole := .inr ⟨rfl, rfl⟩

theorem lsnOf_newQuint (command : UInt8) (q : Quint) :
    lsnOf (newQuint command q.n q.p) = lsnOf q := by
  rw [lsnOf, n_newQuint, p_newQuint, Nat.mod_eq_of_lt q.n_lt, Nat.mod_eq_of_lt q.p_lt]
  rfl

theorem plain_replyMessage {command : UInt8} {q : Quint} {block : Block}
    {okay : command = CMD_BLOCK_OKAY ∨ command = CMD_CACHE_OKAY}
    (ordinary : ¬(q.n = 0xFFFF ∧ q.p = 0xFFFF)) : (replyMessage command q block okay).Plain := by
  intro n p
  rw [replyMessage, n_newQuint, Nat.mod_eq_of_lt q.n_lt] at n
  rw [replyMessage, p_newQuint, Nat.mod_eq_of_lt q.p_lt] at p
  exact absurd ⟨n, p⟩ ordinary

theorem prefetches_cons_of_ne {m : ClientMessage} {waiting : List ClientMessage}
    (other : m.quint.command ≠ CMD_CACHE_READ) : prefetches (m :: waiting) = prefetches waiting :=
  List.filter_cons_of_neg (by simpa using other)

theorem replies_append (first second : List ServerMessage) :
    replies (first ++ second) = replies first ++ replies second :=
  List.filter_append ..

theorem prefetched_append (first second : List ServerMessage) :
    prefetched (first ++ second) = prefetched first ++ prefetched second :=
  List.filter_append ..

/-- A request of the client that waits for the server is the one the client made. -/
theorem Token.sent {newest : Nat → Block} {client : Client} {more : List ClientMessage}
    {toClient cut : List UInt8} {copy : ClientCopy} {m : ClientMessage}
    (token : Token newest client requests (m :: more) answers toClient copy cut) :
    client.Awaits m ∧ requests = [] ∧ more = [] ∧ answers = [] ∧ toClient = [] ∧
      copy.quiet = true := by
  cases token with
  | requested other awaits noRequest sent noReply empty quiet =>
    obtain ⟨rfl, rfl⟩ := List.cons.inj sent
    exact ⟨awaits, noRequest, rfl, noReply, empty, quiet⟩
  | idle _ _ noWanted => cases noWanted
  | asked _ _ _ noWanted => cases noWanted
  | answering _ _ _ _ noWanted => cases noWanted
  | answered _ _ _ noWanted => cases noWanted
  | delivered _ _ _ noWanted => cases noWanted

theorem ServerReading.cut_eq_nil {copy : ServerCopy} {stream : List UInt8}
    (reading : ServerReading copy stream answers) (noReply : replies answers = []) :
    copy.cut = [] := by
  cases reading with
  | quint => rfl
  | payload m rest carried =>
    by_cases cache : m.quint.command = CMD_CACHE_OKAY
    · rw [ServerCopy.cut, if_pos cache]
    · rw [replies_cons_of_ne cache] at noReply
      cases noReply
  | forward m rest carried okay =>
    rw [replies_cons_of_ne (by rw [okay]; decide)] at noReply
    cases noReply

/-- The server reads nothing of a message `CopyFromClient` has sent the header of only, but for
the header. -/
theorem Invariant.sentCut_cases (invariant : Invariant initial s requests atServer answers) :
    s.conduit.clientCopy.sentCut = [] ∨
      ∃ q : Quint, s.conduit.clientCopy.sentCut = q.bytes ∧ q.command = CMD_BLOCK_WRITE := by
  have token := invariant.token
  have reading := invariant.fromClient
  generalize s.conduit.clientCopy = copy at token reading
  generalize s.conduit.fromClient = stream at reading
  cases reading with
  | payload m rest carried =>
    obtain ⟨-, -, -, ⟨-, -, stands⟩ | ⟨-, -, stands⟩⟩ := token.request
    · rcases stands with quiet | send | ⟨-, write⟩ | hit
      · cases quiet
      · cases send
      · exact .inr ⟨m.quint, rfl, write⟩
      · cases hit
    · cases stands
  | _ => exact .inl rfl

/-- A request the server carries out is answered as the client's log has it. -/
theorem Invariant.serve_step {next : System}
    (invariant : Invariant initial s requests atServer answers)
    (condition : KeepsCoherent s .serve) (taken : serve s = some next) :
    ∃ atServer' answers', Invariant initial next requests atServer' answers' := by
  obtain ⟨⟨q, rest⟩, parsed, -⟩ := Option.bind_eq_some_iff.mp taken
  have ordinary : q.command = CMD_BLOCK_WRITE ∨ ¬(q.n = 0xFFFF ∧ q.p = 0xFFFF) := by
    simpa only [KeepsCoherent, parsed] using condition
  have toServer := invariant.toServer
  have token := invariant.token
  have values := invariant.values
  cases atServer with
  | nil =>
    rw [clientStream_nil, List.nil_append] at toServer
    rcases invariant.sentCut_cases with none | ⟨header, begun, write⟩
    · rw [toServer, none] at parsed
      cases parsed
    · have parsed' : readQuint s.conduit.toServer = some (header, []) := by
        rw [toServer, begun]
        exact readQuint_bytes header []
      rw [serve_of_write parsed' write] at taken
      cases taken
  | cons m waiting =>
    have parsed' : readQuint s.conduit.toServer = some (m.quint,
        m.payload ++ (clientStream waiting ++ s.conduit.clientCopy.sentCut)) := by
      rw [toServer, clientStream_cons, List.append_assoc, List.append_assoc, readQuint_bytes]
    obtain ⟨rfl, rfl⟩ : m.quint = q ∧ _ = rest := by
      rwa [parsed', Option.some_inj, Prod.mk.injEq] at parsed
    by_cases prefetch : m.quint.command = CMD_CACHE_READ
    · have bare : m.payload = [] := by
        have called := m.whole
        rw [clientPayload, prefetch] at called
        exact List.eq_nil_of_length_eq_zero called
      rw [serve_of_read parsed' (.inr prefetch)] at taken
      obtain ⟨block, read, taken⟩ := Option.map_eq_some_iff.mp taken
      have found := readSector_eq_some read
      have notWrite : ¬(m.quint.command = CMD_BLOCK_WRITE) := by
        rw [prefetch]
        decide
      have notRead : ¬(m.quint.command = CMD_BLOCK_READ) := by
        rw [prefetch]
        decide
      simp only [if_neg notRead, bare, List.nil_append] at taken
      subst taken
      let answer := replyMessage CMD_CACHE_OKAY m.quint block (.inr rfl)
      have cacheOkay : answer.quint.command = CMD_CACHE_OKAY := rfl
      refine ⟨waiting, answers ++ [answer], invariant.fromClient, rfl,
        invariant.fromServer.append answer, ?_, ?_, ?_, invariant.coherent⟩
      · intro other member
        rcases List.mem_append.mp member with old | new
        · exact invariant.plain other old
        · rw [List.mem_singleton.mp new]
          exact plain_replyMessage (ordinary.resolve_left notWrite)
      · rw [replies_append, replies_cons_of_cacheOkay cacheOkay]
        have same : wanted (m :: waiting) = wanted waiting :=
          List.filter_cons_of_neg (by simpa using prefetch)
        rw [same] at token
        simpa [replies] using token
      · have same : prefetches (m :: waiting) = m :: prefetches waiting :=
          List.filter_cons_of_pos (by simpa using prefetch)
        have same' : writes (m :: waiting) = writes waiting :=
          List.filter_cons_of_neg (by simpa using notWrite)
        rw [same, same'] at values
        rw [prefetched_append, prefetched_cons_of_cacheOkay cacheOkay]
        exact values.servePrefetch (lsnOf_newQuint ..) (by rw [← found]; rfl)
    · have isWanted : wanted (m :: waiting) = m :: wanted waiting :=
        List.filter_cons_of_pos (by simpa using prefetch)
      rw [isWanted] at token
      obtain ⟨awaits, rfl, noMore, noReply, empty, quiet⟩ := token.sent
      have noCut := invariant.fromServer.cut_eq_nil noReply
      have noWrite : writes waiting = [] := writes_eq_nil_of_wanted noMore
      rcases awaits with ⟨reads, read⟩ | ⟨writes', write⟩
      · have bare := ClientMessage.payload_eq_nil_of_blockRead read
        have same : writes (m :: waiting) = writes waiting :=
          List.filter_cons_of_neg (by rw [read]; decide)
        rw [serve_of_read parsed' (.inl read)] at taken
        obtain ⟨block, found, taken⟩ := Option.map_eq_some_iff.mp taken
        have newest : block = latest initial s.log (lsnOf m.quint) := by
          rw [readSector_eq_some found]
          refine values.disk _ fun other member => ?_
          rw [same, noWrite] at member
          exact (List.not_mem_nil member).elim
        simp only [if_pos read, bare, List.nil_append] at taken
        subst taken
        let answer := replyMessage CMD_BLOCK_OKAY m.quint block (.inl rfl)
        have other : answer.quint.command ≠ CMD_CACHE_OKAY :=
          show CMD_BLOCK_OKAY ≠ CMD_CACHE_OKAY by decide
        refine ⟨waiting, answers ++ [answer], invariant.fromClient, rfl,
          invariant.fromServer.append answer, ?_, ?_, ?_, invariant.coherent⟩
        · intro other member
          rcases List.mem_append.mp member with old | new
          · exact invariant.plain other old
          · rw [List.mem_singleton.mp new]
            exact plain_replyMessage (ordinary.resolve_left (by rw [read]; decide))
        · rw [replies_append, noReply, replies_cons_of_ne other]
          refine .answered answer (.inl ⟨m.quint, reads, rfl, ?_⟩) rfl noMore rfl
            (by rw [noCut]; exact empty) (.inl noCut) quiet
          rw [← newest]
          rfl
        · rw [same, prefetches_cons_of_ne prefetch] at values
          rw [prefetched_append, prefetched_cons_of_ne other]
          simpa [prefetched] using values
      · have same : writes (m :: waiting) = m :: writes waiting :=
          List.filter_cons_of_pos (by rw [write]; decide)
        have size : m.payload.length = 256 := by
          have called := m.whole
          rwa [clientPayload, if_pos write] at called
        rw [serve_of_write parsed' write, readFull_append size, Option.map_some,
          Option.some_inj] at taken
        subst taken
        have other : confirmMessage.quint.command ≠ CMD_CACHE_OKAY := by decide
        refine ⟨waiting, answers ++ [confirmMessage], invariant.fromClient, rfl, ?_, ?_, ?_, ?_,
          invariant.coherent⟩
        · have appended := invariant.fromServer.append confirmMessage
          simpa only [ServerMessage.bytes, confirmMessage, List.append_nil] using appended
        · intro other member
          rcases List.mem_append.mp member with old | new
          · exact invariant.plain other old
          · rw [List.mem_singleton.mp new]
            exact fun _ _ => rfl
        · rw [replies_append, noReply, replies_cons_of_ne other]
          exact .answered confirmMessage (.inr ⟨⟨m.quint, writes'⟩, rfl, rfl⟩) rfl noMore rfl
            (by rw [noCut]; exact empty) (.inl noCut) quiet
        · rw [same, noWrite, prefetches_cons_of_ne prefetch] at values
          rw [prefetched_append, prefetched_cons_of_ne other, noWrite]
          simpa [prefetched] using values.serveWrite

end

/-! ### Coherence -/

section

variable {initial : Nat → Block} {cacheBlocks : Nat}

theorem Invariant.step {s next : System} {requests atServer : List ClientMessage}
    {answers : List ServerMessage} (invariant : Invariant initial s requests atServer answers)
    {action : Action} (condition : KeepsCoherent s action)
    (taken : systemStep cacheBlocks s action = some next) :
    ∃ requests' atServer' answers', Invariant initial next requests' atServer' answers' := by
  cases action with
  | blockRead driveNum lsn1 lsn2 =>
    obtain ⟨left, invariant'⟩ := invariant.blockRead_step rfl taken
    exact ⟨left, atServer, answers, invariant'⟩
  | blockWrite driveNum lsn1 lsn2 buffer =>
    obtain ⟨left, invariant'⟩ := invariant.blockWrite_step rfl taken
    exact ⟨left, atServer, answers, invariant'⟩
  | receive => exact ⟨requests, atServer, answers, invariant.receive_step taken⟩
  | copy turn =>
    obtain ⟨conduit, moved, rfl⟩ := Option.map_eq_some_iff.mp taken
    cases turn with
    | server =>
      obtain ⟨left, invariant'⟩ := invariant.server_step moved
      exact ⟨requests, atServer, left, invariant'⟩
    | client =>
      obtain ⟨left, atServer', invariant'⟩ := invariant.client_step condition moved
      exact ⟨left, atServer', answers, invariant'⟩
  | serve =>
    obtain ⟨atServer', answers', invariant'⟩ := invariant.serve_step condition taken
    exact ⟨requests, atServer', answers', invariant'⟩

theorem Invariant.start (disk : List UInt8) :
    Invariant (sector disk) (systemStart disk) [] [] [] where
  fromClient := .quint []
  toServer := rfl
  fromServer := .quint []
  plain := fun _ member => (List.not_mem_nil member).elim
  token := .idle rfl rfl rfl rfl rfl rfl
  values :=
    { cached := fun _ _ _ _ _ found => by cases found
      told := fun _ member => (List.not_mem_nil member).elim
      asked := fun _ member => (List.not_mem_nil member).elim
      disk := fun _ _ => rfl
      written := fun _ member => (List.not_mem_nil member).elim
      uncached := fun _ _ _ waits => by cases waits }
  coherent := trivial

end

/-- **Cache coherence.** In every run whose steps keep coherence, every block the client is given
is the one most recently written to its logical sector. -/
theorem coherent_of_keepsCoherent (cacheBlocks : Nat) (disk : List UInt8) (actions : List Action)
    (meets : Meets (systemStep cacheBlocks) KeepsCoherent (systemStart disk) actions) (s : System)
    (reached : run (systemStep cacheBlocks) (systemStart disk) actions = some s) :
    Coherent (sector disk) s.log := by
  obtain ⟨requests, atServer, answers, invariant⟩ := invariant_of_run
    (fun s => ∃ requests atServer answers,
      Invariant (sector disk) s requests atServer answers)
    (fun _ _ _ ⟨_, _, _, invariant⟩ condition taken => invariant.step condition taken)
    ⟨[], [], [], .start disk⟩ meets reached
  exact invariant.coherent

def filled (byte : UInt8) : Block where
  bytes := List.replicate 256 byte
  size := List.length_replicate

/-- The client writes sector 1 and reads it back from the cache. -/
def writeAndRead : List Action :=
  [.blockWrite 0 0 1 (filled 1), .copy .client, .copy .client, .copy .client, .copy .client,
    .serve, .copy .server, .receive,
    .blockRead 0 0 1, .copy .client, .copy .client, .copy .client, .receive]

theorem coherent_writeAndRead :
    ∃ s, run (systemStep 1) (systemStart []) writeAndRead = some s ∧
      s.log = [.got 1 (filled 1), .wrote 1 (filled 1)] ∧ Coherent (sector []) s.log := by
  have evaluated : (run (systemStep 1) (systemStart []) writeAndRead).map System.log =
      some [.got 1 (filled 1), .wrote 1 (filled 1)] := by
    decide +kernel
  obtain ⟨s, reached, log⟩ := Option.map_eq_some_iff.mp evaluated
  exact ⟨s, reached, log,
    coherent_of_keepsCoherent 1 [] writeAndRead (by decide +kernel) s reached⟩

/-- The client reads sector 0, and while the prefetch of sector 1 is answered it writes sector 1.
The answer, made before the write, is cached after it. Then the client reads sector 1. -/
def staleRead : List Action :=
  [.blockRead 0 0 0, .copy .client, .copy .client, .copy .client, .copy .client, .copy .client,
    .serve, .copy .server, .copy .server, .copy .server, .receive, .serve,
    .blockWrite 0 0 1 (filled 1), .copy .client, .copy .client, .copy .client, .copy .client,
    .copy .server, .copy .server, .serve, .copy .server, .receive,
    .blockRead 0 0 1, .copy .client, .copy .client, .copy .client, .receive]

/-- A stale prefetch hides what the client wrote. -/
theorem not_coherent_staleRead :
    ∃ s, run (systemStep 1) (systemStart []) staleRead = some s ∧
      ¬Coherent (sector []) s.log := by
  have evaluated : (run (systemStep 1) (systemStart []) staleRead).map System.log =
      some [.got 1 (filled 0), .wrote 1 (filled 1), .got 0 (filled 0)] := by
    decide +kernel
  obtain ⟨s, reached, log⟩ := Option.map_eq_some_iff.mp evaluated
  refine ⟨s, reached, fun coherent => ?_⟩
  rw [log] at coherent
  have same : filled 0 = filled 1 := coherent.1
  exact absurd same (by decide +kernel)

end Frobio.Conduit
