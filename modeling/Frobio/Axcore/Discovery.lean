/-
This file models how `axiom41/axcore.c` receives the replies to its discovery, from
`RecvLanReply` to `DhcpPhaseTwo`, and shows what becomes of a datagram that stands in
the receive ring, and of the configuration variables.

The packet buffer is memory, so that a store beyond its end is one; the variables lie
far below it and are a record.
-/

import Frobio.Lib.TypeLengthValue
import Frobio.Axcore.Datagrams

namespace Frobio.Axcore.Discovery

open Memory TypeLengthValue

def PACKET_BUF : Nat := 0x600

def PACKET_MAX : Nat := 256

/-- The size of `struct UdpRecvHeader`. -/
def UDP_HEADER_SIZE : Nat := 8

/-- The size of `struct dhcp`. -/
def DHCP_SIZE : Nat := 236

/-- The configuration among the variables. -/
structure Config where
  ipAddr : List UInt8
  ipMask : List UInt8
  ipGateway : List UInt8
  ipResolver : List UInt8
  ipDhcp : List UInt8
  ipWaiter : List UInt8
  deriving DecidableEq

structure Vars extends Config where
  transactionId : List UInt8
  lineBuf : List UInt8

structure Machine where
  world : World
  ram : Nat → UInt8
  vars : Vars

variable (sock : Sock) (schedule : Nat → List Event)

/-- A received chunk is put in the packet buffer. -/
def Machine.received (m : Machine) (world : World) (buf : List UInt8) : Machine :=
  { m with world, ram := store m.ram PACKET_BUF buf }

def recvLanReply (rounds : Nat) (m : Machine) (plen : Nat) : Option (UInt8 × Machine) :=
  match wizRecvChunk sock schedule rounds m.world plen with
  | none => none
  | some (e, buf, world) =>
    let m := m.received world buf
    if e ≠ OKAY then some (e, m)
    else some (OKAY, { m with vars := { m.vars with lineBuf := load m.ram (PACKET_BUF + 16) 80 } })

/-! ### DHCP replies -/

def DHCP_OPT_MAGIC : List UInt8 := [99, 130, 83, 99]

/-- The loop over the four bytes of the transaction id and of the magic number. -/
def replyError (gotXid transactionId opt : List UInt8) : Option UInt8 :=
  (List.range 4).findSome? fun i =>
    if gotXid[i]? ≠ transactionId[i]? then some 10
    else if opt[i]? ≠ DHCP_OPT_MAGIC[i]? then some 9
    else none

/-- The message type of the reply: ACK the second time, OFFER the first. -/
def expected (second : Bool) : UInt8 := if second then 5 else 2

/-- The loop over the options. -/
def optionWalker (second : Bool) (finish : Nat) : Walker Config UInt8 where
  leave opt := if opt < finish then none else some 5
  body memory opt code config :=
    if code = 1 then
      (fetch memory (opt + 2) 4).map fun quad => (.goOn { config with ipMask := quad }, quad)
    else if code = 3 then
      (fetch memory (opt + 2) 4).map fun quad => (.goOn { config with ipGateway := quad }, quad)
    else if code = 6 then
      (fetch memory (opt + 2) 4).map fun quad => (.goOn { config with ipResolver := quad }, quad)
    else if code = 53 then
      (fetch memory (opt + 2) 1).map fun type =>
        (if type ≠ [expected second] then .stop 1 config else .goOn config, type)
    else if code = 255 then some (.stop OKAY config, [])
    else some (.goOn config, [])

/-- What `RecvDhcpReply` does once it has received both chunks. -/
def judgeDhcpReply (rounds : Nat) (ram : Nat → UInt8) (gotXid : List UInt8) (vars : Vars)
    (plen : Nat) (second : Bool) : Option (UInt8 × Config) :=
  match replyError gotXid vars.transactionId (load ram PACKET_BUF 4) with
  | some e => some (e, vars.toConfig)
  | none =>
    let finish := (PACKET_BUF + plen + 65536 - DHCP_SIZE) % 65536
    match (optionWalker second finish).walk (fun a => some (ram a)) rounds (PACKET_BUF + 4)
        vars.toConfig with
    | none => none
    | some (e, config, _) => some (e, config)

def recvDhcpReply (second : Bool) (rounds : Nat) (m : Machine) (plen : Nat) :
    Option (UInt8 × Machine) :=
  match wizRecvChunk sock schedule rounds m.world DHCP_SIZE with
  | none => none
  | some (e, buf, world) =>
    let m := m.received world buf
    if e ≠ OKAY then some (e, m)
    else
      -- the address is stored before anything is checked
      let m := { m with vars := { m.vars with ipAddr := load m.ram (PACKET_BUF + 16) 4 } }
      let gotXid := load m.ram (PACKET_BUF + 4) 4
      match wizRecvChunk sock schedule rounds m.world ((plen + 65536 - DHCP_SIZE) % 65536) with
      | none => none
      | some (e, buf, world) =>
        let m := m.received world buf
        if e ≠ OKAY then some (e, m)
        else
          match judgeDhcpReply rounds m.ram gotXid m.vars plen second with
          | none => none
          | some (e, config) => some (e, { m with vars := { m.vars with toConfig := config } })

/-- The field `len` of a `struct UdpRecvHeader`. -/
def lenOf (header : List UInt8) : Nat :=
  (header.getD 6 0).toNat * 256 + (header.getD 7 0).toNat

/-- In a round of `OneDiscoveryRound` or `DhcpPhaseTwo`: if there is a header, receive the reply
behind it. -/
def onDatagram (reply : Machine → Nat → Option (UInt8 × Machine)) (m : Machine) :
    Option (UInt8 × Machine) :=
  match wizRecvChunkTry sock schedule m.world UDP_HEADER_SIZE with
  | (e, header, world) =>
    if e ≠ OKAY then some (e, { m with world })
    else reply { m with world } (lenOf header)

/-! ### What becomes of a reply -/

section

variable {sock : Sock} {schedule : Nat → List Event} {late : Nat} {payload rest : List UInt8}

theorem recvLanReply_of_fed (quiet : Quiet schedule) (apart : sock.Apart) {m : Machine}
    (fed : Fed sock m.world.chip (payload ++ rest) late) (behind : late ≤ rest.length) :
    ∃ world, Fed sock world.chip rest late ∧ ∀ rounds,
      recvLanReply sock schedule (rounds + 1) m payload.length =
        some (OKAY, ⟨world, store m.ram PACKET_BUF payload, { m.vars with
          lineBuf := load (store m.ram PACKET_BUF payload) (PACKET_BUF + 16) 80 }⟩) := by
  obtain ⟨world, chunk, onward⟩ := quiet.wizRecvChunk_of_fed apart fed behind
  refine ⟨world, onward, fun rounds => ?_⟩
  rw [recvLanReply, chunk]
  dsimp only
  rw [if_neg (by decide)]
  rfl

/-- A DHCP reply shorter than its fixed part is never done with. -/
theorem recvDhcpReply_of_short (quiet : Quiet schedule) (apart : sock.Apart) {m : Machine}
    (idle : Idle m.world.chip) (calm : Calm m.world.chip) {plen : Nat} (short : plen < DHCP_SIZE)
    (second : Bool) (rounds : Nat) : recvDhcpReply sock schedule second rounds m plen = none := by
  rw [recvDhcpReply]
  split
  · rfl
  rename_i e buf world chunk
  obtain ⟨okay, after⟩ := quiet.wizRecvChunk_okay calm chunk
  obtain ⟨moves, -, -⟩ := moves_wizRecvChunk apart idle chunk
  dsimp only
  rw [if_neg (Classical.not_not.mpr okay)]
  have large : RING_SIZE < (plen + 65536 - DHCP_SIZE) % 65536 := by
    simp only [DHCP_SIZE, RING_SIZE] at short ⊢
    omega
  rw [show (Machine.received m world buf).world = world from rfl,
    quiet.wizRecvChunk_of_large apart moves.idle.sane after large]

/-- The packet buffer and what is behind it, once both chunks of a DHCP reply are received. -/
def bothChunks (ram : Nat → UInt8) (payload : List UInt8) : Nat → UInt8 :=
  store (store ram PACKET_BUF (payload.take DHCP_SIZE)) PACKET_BUF (payload.drop DHCP_SIZE)

/-- The field `yiaddr` of a reply. -/
def yiaddr (payload : List UInt8) : List UInt8 := (payload.drop 16).take 4

/-- The field `xid` of a reply. -/
def xid (payload : List UInt8) : List UInt8 := (payload.drop 4).take 4

/-- The verdict on a DHCP reply. -/
def verdict (second : Bool) (rounds : Nat) (ram : Nat → UInt8) (vars : Vars)
    (payload : List UInt8) : Option (UInt8 × Config) :=
  judgeDhcpReply rounds (bothChunks ram payload) (xid payload)
    { vars with ipAddr := yiaddr payload } payload.length second

/-- A field of the fixed part, as it is loaded from the packet buffer. -/
theorem load_fixed (ram : Nat → UInt8) {payload : List UInt8} (long : DHCP_SIZE ≤ payload.length)
    {offset count : Nat} (inside : offset + count ≤ DHCP_SIZE) :
    load (store ram PACKET_BUF (payload.take DHCP_SIZE)) (PACKET_BUF + offset) count =
      (payload.drop offset).take count := by
  refine List.ext_getElem ?_ fun i within _ => ?_
  · rw [length_load, List.length_take, List.length_drop]
    omega
  · rw [length_load] at within
    have stored : offset + i < (payload.take DHCP_SIZE).length := by
      rw [List.length_take]
      omega
    simp only [load]
    rw [List.getElem_map, List.getElem_range, Nat.add_assoc, store_apply_of_lt _ stored,
      List.getElem_take, List.getElem_take, List.getElem_drop]

theorem recvDhcpReply_of_fed (quiet : Quiet schedule) (apart : sock.Apart) {m : Machine}
    (fed : Fed sock m.world.chip (payload ++ rest) late) (behind : late ≤ rest.length)
    (long : DHCP_SIZE ≤ payload.length) (fits : payload.length ≤ RING_SIZE) (second : Bool) :
    ∃ world, Fed sock world.chip rest late ∧ ∀ rounds,
      recvDhcpReply sock schedule second (rounds + 1) m payload.length =
        (verdict second (rounds + 1) m.ram m.vars payload).map fun (e, config) =>
          (e, ⟨world, bothChunks m.ram payload, { m.vars with toConfig := config }⟩) := by
  rw [← List.take_append_drop DHCP_SIZE payload, List.append_assoc] at fed
  obtain ⟨world₁, chunk₁, fed₁⟩ := quiet.wizRecvChunk_of_fed apart fed (by
    rw [List.length_append]
    omega)
  obtain ⟨world₂, chunk₂, fed₂⟩ := quiet.wizRecvChunk_of_fed apart fed₁ behind
  have firstLength : (payload.take DHCP_SIZE).length = DHCP_SIZE := by
    rw [List.length_take]
    omega
  have secondLength : (payload.drop DHCP_SIZE).length =
      (payload.length + 65536 - DHCP_SIZE) % 65536 := by
    rw [List.length_drop]
    simp only [DHCP_SIZE, RING_SIZE] at long fits ⊢
    omega
  rw [firstLength] at chunk₁
  rw [secondLength] at chunk₂
  refine ⟨world₂, fed₂, fun rounds => ?_⟩
  rw [recvDhcpReply, chunk₁]
  dsimp only
  rw [if_neg (by decide), show (Machine.received m world₁ _).world = world₁ from rfl, chunk₂]
  dsimp only
  rw [if_neg (by decide), verdict]
  simp only [Machine.received]
  rw [load_fixed m.ram long (by decide), load_fixed m.ram long (by decide)]
  show (match judgeDhcpReply (rounds + 1) (bothChunks m.ram payload) (xid payload)
    { m.vars with ipAddr := yiaddr payload } payload.length second with
    | none => none
    | some (e, config) => some (e, _)) = _
  cases judgeDhcpReply (rounds + 1) (bothChunks m.ram payload) (xid payload)
      { m.vars with ipAddr := yiaddr payload } payload.length second with
  | none => rfl
  | some result => rfl

end

/-! ### The options that are heeded -/

theorem fetch_ram (ram : Nat → UInt8) (p n : Nat) :
    fetch (fun a => some (ram a)) p n = some (load ram p n) := by
  induction n generalizing p with
  | zero => rfl
  | succ n inductionHypothesis =>
    rw [fetch, inductionHypothesis, load_succ]
    rfl

/-- What an option stores. -/
def assign (config : Config) (one : UInt8 × List UInt8) : Config :=
  if one.1 = 1 then { config with ipMask := one.2 }
  else if one.1 = 3 then { config with ipGateway := one.2 }
  else if one.1 = 6 then { config with ipResolver := one.2 }
  else config

/-- The options from a place on, each with the four bytes behind its length: to the end of the
packet, an end option, or a message type that is not the one expected. -/
def offered (ram : Nat → UInt8) (second : Bool) (finish opt : Nat) : List (UInt8 × List UInt8) :=
  if opt < finish ∧ ram opt ≠ 255 ∧ ¬ (ram opt = 53 ∧ ram (opt + 2) ≠ expected second) then
    (ram opt, load ram (opt + 2) 4) ::
      offered ram second finish (opt + 2 + (ram (opt + 1)).toNat)
  else []
termination_by finish - opt
decreasing_by omega

section

variable {ram : Nat → UInt8} {second : Bool} {finish opt : Nat} {config : Config}

theorem body_ram (ram : Nat → UInt8) (second : Bool) (finish opt : Nat) (code : UInt8)
    (config : Config) : ∃ taken,
    (optionWalker second finish).body (fun a => some (ram a)) opt code config = some
      (if code = 53 ∧ ram (opt + 2) ≠ expected second then .stop 1 config
        else if code = 255 then .stop OKAY config
        else .goOn (assign config (code, load ram (opt + 2) 4)), taken) := by
  simp only [optionWalker, fetch_ram, Option.map_some]
  by_cases mask : code = 1
  · subst mask
    exact ⟨_, rfl⟩
  by_cases gateway : code = 3
  · subst gateway
    exact ⟨_, rfl⟩
  by_cases resolver : code = 6
  · subst resolver
    exact ⟨_, rfl⟩
  rw [if_neg mask, if_neg gateway, if_neg resolver]
  by_cases type : code = 53
  · subst type
    refine ⟨load ram (opt + 2) 1, ?_⟩
    have loaded : load ram (opt + 2) 1 = [ram (opt + 2)] := rfl
    rw [if_pos rfl, loaded]
    by_cases other : ram (opt + 2) = expected second
    · rw [if_neg (by simp [other]), if_neg (by simp [other]), if_neg (by decide)]
      rfl
    · rw [if_pos (by simp [other]), if_pos ⟨rfl, other⟩]
  · have calm : ¬ (code = 53 ∧ ram (opt + 2) ≠ expected second) := fun both => type both.1
    rw [if_neg type, if_neg calm]
    by_cases last : code = 255
    · rw [if_pos last, if_pos last]
      exact ⟨_, rfl⟩
    · rw [if_neg last, if_neg last]
      simp only [assign, if_neg mask, if_neg gateway, if_neg resolver]
      exact ⟨_, rfl⟩

/-- The loop stores what the options that are offered say. -/
theorem config_of_walk {rounds : Nat} {e : UInt8} {config' : Config} {visits : List Visit}
    (walked : (optionWalker second finish).walk (fun a => some (ram a)) rounds opt config =
      some (e, config', visits)) :
    config' = (offered ram second finish opt).foldl assign config := by
  induction rounds generalizing opt config visits with
  | zero => cases walked
  | succ rounds inductionHypothesis =>
    obtain ⟨rounds', counted, steps⟩ := Walker.walk_cases walked
    cases counted
    rw [offered]
    rcases steps with ⟨leaves, rfl, -⟩ | ⟨stays, code, read, taken, steps⟩
    · by_cases inside : opt < finish
      · have stays : (optionWalker second finish).leave opt = none := if_pos inside
        rw [stays] at leaves
        cases leaves
      · rw [if_neg fun all => inside all.1]
        rfl
    · have inside : opt < finish := by
        by_contra outside
        have leaves : (optionWalker second finish).leave opt = some 5 := if_neg outside
        rw [leaves] at stays
        cases stays
      cases read
      obtain ⟨taken', body⟩ := body_ram ram second finish opt (ram opt) config
      rw [body] at steps
      by_cases rejected : ram opt = 53 ∧ ram (opt + 2) ≠ expected second
      · rw [if_pos rejected] at steps
        rw [if_neg fun all => all.2.2 rejected]
        rcases steps with ⟨stops, -⟩ | ⟨middle, len, rest, goes, -⟩
        · cases stops
          rfl
        · cases goes
      rw [if_neg rejected] at steps
      by_cases last : ram opt = 255
      · rw [if_pos last] at steps
        rw [if_neg fun all => all.2.1 last]
        rcases steps with ⟨stops, -⟩ | ⟨middle, len, rest, goes, -⟩
        · cases stops
          rfl
        · cases goes
      rw [if_neg last] at steps
      rw [if_pos ⟨inside, last, rejected⟩, List.foldl_cons]
      rcases steps with ⟨stops, -⟩ | ⟨middle, len, rest, goes, length, later, -⟩
      · cases stops
      · cases goes
        cases length
        exact inductionHypothesis later

theorem exists_judgeDhcpReply (ram : Nat → UInt8) (gotXid : List UInt8) (vars : Vars) (plen : Nat)
    (second : Bool) :
    ∃ rounds result, judgeDhcpReply (rounds + 1) ram gotXid vars plen second = some result := by
  rw [exists_comm]
  simp only [judgeDhcpReply]
  cases replyError gotXid vars.transactionId (load ram PACKET_BUF 4) with
  | some e => exact ⟨_, 0, rfl⟩
  | none =>
    generalize (PACKET_BUF + plen + 65536 - DHCP_SIZE) % 65536 = finish
    have walks : ∃ final, (optionWalker second finish).walk (fun a => some (ram a)) (finish + 1)
        (PACKET_BUF + 4) vars.toConfig = some final := by
      refine Walker.exists_walk finish (fun p far => ?_) (fun p => Option.some_ne_none _)
        (fun p code config => ?_) finish (Nat.le_add_left _ _)
      · rw [show (optionWalker second finish).leave p = some 5 from if_neg (Nat.not_lt.mpr far)]
        exact Option.some_ne_none _
      · obtain ⟨taken, body⟩ := body_ram ram second finish p code config
        rw [body]
        exact Option.some_ne_none _
    obtain ⟨⟨e, config, visits⟩, walked⟩ := walks
    refine ⟨(e, config), finish, ?_⟩
    dsimp only
    rw [walked]

end

/-- The options of a reply that are heeded: none if its transaction id or its magic number is
wrong. -/
def heeded (second : Bool) (ram : Nat → UInt8) (vars : Vars) (payload : List UInt8) :
    List (UInt8 × List UInt8) :=
  let ram := bothChunks ram payload
  if replyError (xid payload) vars.transactionId (load ram PACKET_BUF 4) = none then
    offered ram second (PACKET_BUF + payload.length - DHCP_SIZE) (PACKET_BUF + 4)
  else []

theorem config_of_verdict {second : Bool} {rounds : Nat} {ram : Nat → UInt8} {vars : Vars}
    {payload : List UInt8} {e : UInt8} {config : Config} (long : DHCP_SIZE ≤ payload.length)
    (fits : payload.length ≤ RING_SIZE)
    (judged : verdict second rounds ram vars payload = some (e, config)) :
    config = (heeded second ram vars payload).foldl assign
      { vars.toConfig with ipAddr := yiaddr payload } := by
  have finish : (PACKET_BUF + payload.length + 65536 - DHCP_SIZE) % 65536 =
      PACKET_BUF + payload.length - DHCP_SIZE := by
    simp only [DHCP_SIZE, RING_SIZE, PACKET_BUF] at long fits ⊢
    omega
  rw [verdict, judgeDhcpReply, finish] at judged
  rw [heeded]
  dsimp only at judged ⊢
  split at judged
  · rename_i e' wrong
    cases judged
    rw [if_neg (by rw [wrong]; exact Option.some_ne_none _)]
    rfl
  · rename_i right
    rw [if_pos right]
    split at judged
    · cases judged
    · rename_i walked
      cases judged
      exact config_of_walk walked

/-! ### Exactly the datagram, and inside the buffer -/

/-- The reply to any datagram with this payload takes from the ring just that datagram, stores
nothing outside of the packet buffer, and changes only those variables that it may. -/
def TakesJust
    (reply : Sock → (Nat → List Event) → Nat → Machine → Nat → Option (UInt8 × Machine))
    (may : Vars → Vars → Prop) (payload : List UInt8) : Prop :=
  ∀ sock ∈ socks, ∀ schedule, Quiet schedule → ∀ (m : Machine) (header rest : List UInt8),
    header.length = UDP_HEADER_SIZE → lenOf header = payload.length →
    Fed sock m.world.chip (header ++ (payload ++ rest)) rest.length →
    (∃ rounds result, onDatagram sock schedule (reply sock schedule rounds) m = some result) ∧
    ∀ rounds e m', onDatagram sock schedule (reply sock schedule rounds) m = some (e, m') →
      Fed sock m'.world.chip rest rest.length ∧
      (∀ a, a < PACKET_BUF ∨ PACKET_BUF + PACKET_MAX ≤ a → m'.ram a = m.ram a) ∧
      may m.vars m'.vars

/-- What `RecvLanReply` may set. -/
def MaySetLine (before after : Vars) : Prop := after = { before with lineBuf := after.lineBuf }

/-- What `RecvDhcpReply` may set. -/
def MaySetConfig (before after : Vars) : Prop :=
  after = { before with
    ipAddr := after.ipAddr, ipMask := after.ipMask, ipGateway := after.ipGateway,
    ipResolver := after.ipResolver }

section

variable {sock : Sock} {schedule : Nat → List Event} {m m' : Machine} {late : Nat}
  {header payload rest : List UInt8}

theorem onDatagram_of_fed (quiet : Quiet schedule) (apart : sock.Apart)
    (headed : header.length = UDP_HEADER_SIZE)
    (fed : Fed sock m.world.chip (header ++ (payload ++ rest)) rest.length) :
    ∃ world, Fed sock world.chip (payload ++ rest) rest.length ∧ ∀ reply,
      onDatagram sock schedule reply m = reply { m with world } (lenOf header) := by
  obtain ⟨world, tried, onward⟩ := quiet.wizRecvChunkTry_of_fed apart fed (by
    rw [List.length_append]
    omega)
  refine ⟨world, onward, fun reply => ?_⟩
  rw [onDatagram, ← headed, tried]
  exact if_neg (by decide)

theorem foldl_assign_rest (config : Config) (options : List (UInt8 × List UInt8)) :
    (options.foldl assign config).ipAddr = config.ipAddr ∧
      (options.foldl assign config).ipDhcp = config.ipDhcp ∧
      (options.foldl assign config).ipWaiter = config.ipWaiter := by
  induction options generalizing config with
  | nil => exact ⟨rfl, rfl, rfl⟩
  | cons one others inductionHypothesis =>
    have same : (assign config one).ipAddr = config.ipAddr ∧
        (assign config one).ipDhcp = config.ipDhcp ∧
        (assign config one).ipWaiter = config.ipWaiter := by
      rw [assign]
      split
      · exact ⟨rfl, rfl, rfl⟩
      split
      · exact ⟨rfl, rfl, rfl⟩
      split
      · exact ⟨rfl, rfl, rfl⟩
      · exact ⟨rfl, rfl, rfl⟩
    obtain ⟨addr, dhcp, waiter⟩ := inductionHypothesis (assign config one)
    exact ⟨addr.trans same.1, dhcp.trans same.2.1, waiter.trans same.2.2⟩

theorem store_outside (ram : Nat → UInt8) {data : List UInt8} (small : data.length ≤ PACKET_MAX)
    {a : Nat} (outside : a < PACKET_BUF ∨ PACKET_BUF + PACKET_MAX ≤ a) :
    store ram PACKET_BUF data a = ram a := by
  rcases outside with below | above
  · exact store_apply_of_before _ _ below
  · exact store_apply_of_after _ (by omega)

theorem takesJust_recvLanReply (small : payload.length ≤ PACKET_MAX) :
    TakesJust recvLanReply MaySetLine payload := by
  intro sock known schedule quiet m header rest headed length fed
  obtain ⟨world, fed, read⟩ := onDatagram_of_fed quiet (apart_of_mem known) headed fed
  simp only [read, length]
  obtain ⟨world', onward, replies⟩ :=
    recvLanReply_of_fed quiet (apart_of_mem known) (m := { m with world }) fed (Nat.le_refl _)
  refine ⟨⟨1, _, replies 0⟩, fun rounds e m' returned => ?_⟩
  cases rounds with
  | zero => cases returned
  | succ rounds =>
    rw [replies] at returned
    cases returned
    exact ⟨onward, fun a outside => store_outside m.ram small outside, rfl⟩

theorem takesJust_recvDhcpReply (second : Bool) (long : DHCP_SIZE ≤ payload.length)
    (small : payload.length ≤ DHCP_SIZE + PACKET_MAX) :
    TakesJust (fun sock schedule => recvDhcpReply sock schedule second) MaySetConfig payload := by
  intro sock known schedule quiet m header rest headed length fed
  obtain ⟨world, fed, read⟩ := onDatagram_of_fed quiet (apart_of_mem known) headed fed
  simp only [read, length]
  have fits : payload.length ≤ RING_SIZE := small.trans (by decide)
  obtain ⟨world', onward, replies⟩ := recvDhcpReply_of_fed quiet (apart_of_mem known)
    (m := { m with world }) fed (Nat.le_refl _) long fits second
  refine ⟨?_, fun rounds e m' returned => ?_⟩
  · obtain ⟨rounds, result, judged⟩ := exists_judgeDhcpReply (bothChunks m.ram payload)
      (xid payload) { m.vars with ipAddr := yiaddr payload } payload.length second
    have returned := replies rounds
    rw [verdict, judged] at returned
    exact ⟨rounds + 1, _, returned⟩
  cases rounds with
  | zero => cases returned
  | succ rounds =>
    rw [replies] at returned
    obtain ⟨⟨e', config⟩, judged, same⟩ := Option.map_eq_some_iff.mp returned
    cases same
    refine ⟨onward, fun a outside => ?_, ?_⟩
    · show bothChunks m.ram payload a = m.ram a
      rw [bothChunks, store_outside _ _ outside, store_outside _ _ outside]
      · rw [List.length_take]
        exact (Nat.min_le_left _ _).trans (by decide)
      · rw [List.length_drop]
        omega
    · have stored := config_of_verdict long fits judged
      obtain ⟨-, dhcp, waiter⟩ := foldl_assign_rest
        { m.vars.toConfig with ipAddr := yiaddr payload } (heeded second m.ram m.vars payload)
      rw [← stored] at dhcp waiter
      have dhcp : config.ipDhcp = m.vars.ipDhcp := dhcp
      have waiter : config.ipWaiter = m.vars.ipWaiter := waiter
      rw [MaySetConfig, ← dhcp, ← waiter]

/-! ### Longer and shorter datagrams -/

/-- A socket with these bytes in its receive ring. -/
def ringing (sock : Sock) (bytes : List UInt8) : World where
  chip :=
    { memory := store (fun _ => 0) sock.rxRing bytes, txWr := 0, txEnd := 0, txRd := 0, rxRd := 0,
      rxStart := 0, rxWr := bytes.length, ir := 0, out := [], incoming := [] }
  turns := 0

theorem fed_ringing (sock : Sock) {bytes : List UInt8} (fits : bytes.length ≤ RING_SIZE) :
    Fed sock (ringing sock bytes).chip bytes 0 := by
  have few : bytes.length < 65536 := lt_of_le_of_lt fits (by decide)
  have full : (ringing sock bytes).chip.rxRsr = bytes.length := by
    show (bytes.length + 65536 - 0) % 65536 = bytes.length
    omega
  have zero : 0 < 65536 := by decide
  have tout : (0 : UInt8) &&& SK_IR_TOUT = 0 := by decide
  have disc : (0 : UInt8) &&& SK_IR_DISC = 0 := by decide
  refine ⟨⟨⟨zero, zero, zero, few, ?_, ?_⟩, rfl, rfl⟩, ⟨tout, disc⟩, ?_, Nat.le_refl _⟩
  · show (0 + 65536 - 0) % 65536 ≤ RING_SIZE
    decide
  · rw [full]
    exact fits
  · rw [Chip.inStream, full]
    show Ring.window sock.rxRing RING_SIZE (store (fun _ => 0) sock.rxRing bytes) 0 bytes.length ++ [] = _
    rw [List.append_nil, ← Ring.get_eq_window (by decide) fits, Ring.get_eq_load (by omega)]
    exact load_store_self _ _ _

/-- The header of a datagram of this length. -/
def headerOf (length : Nat) : List UInt8 :=
  [0, 0, 0, 0, 0, 0, UInt8.ofNat (length / 256), UInt8.ofNat length]

theorem lenOf_headerOf {length : Nat} (word : length < 65536) : lenOf (headerOf length) = length := by
  show (UInt8.ofNat (length / 256)).toNat * 256 + (UInt8.ofNat length).toNat = length
  rw [UInt8.toNat_ofNat', UInt8.toNat_ofNat']
  omega

/-- A datagram with this payload in the ring of socket 0, and a memory of this byte. -/
def holding (payload : List UInt8) (byte : UInt8) : Machine where
  world := ringing ⟨0x4000, 0x6000⟩ (headerOf payload.length ++ (payload ++ []))
  ram := fun _ => byte
  vars :=
    { ipAddr := [0, 0, 0, 0], ipMask := [0, 0, 0, 0], ipGateway := [0, 0, 0, 0],
      ipResolver := [0, 0, 0, 0], ipDhcp := [0, 0, 0, 0], ipWaiter := [0, 0, 0, 0],
      transactionId := [1, 2, 3, 4], lineBuf := List.replicate 80 0 }

theorem quiet_silence : Quiet fun _ => [] := fun _ _ member => absurd member List.not_mem_nil

/-- What a reply makes of such a datagram, if it takes just that. -/
theorem TakesJust.holding
    {reply : Sock → (Nat → List Event) → Nat → Machine → Nat → Option (UInt8 × Machine)}
    {may : Vars → Vars → Prop} (just : TakesJust reply may payload)
    (fits : UDP_HEADER_SIZE + payload.length ≤ RING_SIZE) (byte : UInt8) :
    ∃ rounds world e m', Fed ⟨0x4000, 0x6000⟩ world.chip (payload ++ []) 0 ∧
      reply ⟨0x4000, 0x6000⟩ (fun _ => []) rounds { holding payload byte with world }
        payload.length = some (e, m') ∧
      m'.ram (PACKET_BUF + PACKET_MAX) = byte := by
  have known : (⟨0x4000, 0x6000⟩ : Sock) ∈ socks := List.mem_cons_self
  have word : payload.length < 65536 := by
    simp only [UDP_HEADER_SIZE, RING_SIZE] at fits
    omega
  have fed : Fed ⟨0x4000, 0x6000⟩ (Discovery.holding payload byte).world.chip
      (headerOf payload.length ++ (payload ++ [])) ([] : List UInt8).length := by
    refine fed_ringing _ ?_
    rw [List.length_append, List.append_nil]
    exact fits
  obtain ⟨⟨rounds, ⟨e, m'⟩, returned⟩, all⟩ := just _ known _ quiet_silence _ _ _ rfl
    (lenOf_headerOf word) fed
  obtain ⟨-, kept, -⟩ := all rounds e m' returned
  obtain ⟨world, onward, read⟩ := onDatagram_of_fed quiet_silence (apart_of_mem known) rfl fed
  rw [read, lenOf_headerOf word] at returned
  exact ⟨rounds, world, e, m', onward, returned, kept _ (.inr (Nat.le_refl _))⟩

/-- A memory that has another byte than this everywhere. -/
theorem exists_other (byte : UInt8) : ∃ other : UInt8, byte ≠ other := by
  by_cases zero : byte = 0
  · exact ⟨1, by rw [zero]; decide⟩
  · exact ⟨0, zero⟩

/-- Whatever the payload, a reply to the broadcast for the LAN takes just its datagram if and only
if that fits the packet buffer, and one to DHCP if and only if its options do and its fixed part is
complete. -/
theorem replies_bounded_iff (payload : List UInt8)
    (fits : UDP_HEADER_SIZE + payload.length ≤ RING_SIZE) (second : Bool) :
    (TakesJust recvLanReply MaySetLine payload ↔ payload.length ≤ PACKET_MAX) ∧
    (TakesJust (fun sock schedule => recvDhcpReply sock schedule second) MaySetConfig payload ↔
      DHCP_SIZE ≤ payload.length ∧ payload.length ≤ DHCP_SIZE + PACKET_MAX) := by
  have inside : payload.length ≤ RING_SIZE := (Nat.le_add_left _ _).trans fits
  have apart : Sock.Apart ⟨0x4000, 0x6000⟩ := by decide
  refine ⟨⟨fun just => ?_, takesJust_recvLanReply⟩, ⟨fun just => ?_, fun ⟨long, small⟩ =>
    takesJust_recvDhcpReply second long small⟩⟩
  · by_contra large
    have beyond : PACKET_MAX < payload.length := Nat.not_le.mp large
    obtain ⟨byte, other⟩ := exists_other payload[PACKET_MAX]
    obtain ⟨rounds, world, e, m', fed, returned, kept⟩ := just.holding fits byte
    cases rounds with
    | zero => cases returned
    | succ rounds =>
      obtain ⟨world', -, replies⟩ := recvLanReply_of_fed quiet_silence apart
        (m := { holding payload byte with world }) fed (Nat.le_refl _)
      rw [replies] at returned
      cases returned
      have kept : store (fun _ => byte) PACKET_BUF payload (PACKET_BUF + PACKET_MAX) = byte := kept
      rw [store_apply_of_lt _ beyond] at kept
      exact other kept
  · have long : DHCP_SIZE ≤ payload.length := by
      by_contra short
      obtain ⟨rounds, world, e, m', fed, returned, -⟩ := just.holding fits 0
      rw [recvDhcpReply_of_short quiet_silence apart fed.idle fed.calm (Nat.not_le.mp short)]
        at returned
      cases returned
    refine ⟨long, ?_⟩
    by_contra large
    have beyond : PACKET_MAX < (payload.drop DHCP_SIZE).length := by
      rw [List.length_drop]
      omega
    obtain ⟨byte, other⟩ := exists_other (payload.drop DHCP_SIZE)[PACKET_MAX]
    obtain ⟨rounds, world, e, m', fed, returned, kept⟩ := just.holding fits byte
    cases rounds with
    | zero => cases returned
    | succ rounds =>
      obtain ⟨world', -, replies⟩ := recvDhcpReply_of_fed quiet_silence apart
        (m := { holding payload byte with world }) fed (Nat.le_refl _) long inside second
      rw [replies] at returned
      obtain ⟨⟨e', config⟩, -, same⟩ := Option.map_eq_some_iff.mp returned
      cases same
      have kept : bothChunks (fun _ => byte) payload (PACKET_BUF + PACKET_MAX) = byte := kept
      rw [bothChunks, store_apply_of_lt _ beyond] at kept
      exact other kept

end

/-- The reply to a broadcast that fills the packet buffer, and to DHCP with one option byte. -/
theorem replies_bounded_example :
    TakesJust recvLanReply MaySetLine (List.replicate 256 0) ∧
      TakesJust (fun sock schedule => recvDhcpReply sock schedule false) MaySetConfig
        (List.replicate 237 0) :=
  ⟨(replies_bounded_iff (List.replicate 256 0) (by decide +kernel) false).1.mpr (by decide +kernel),
    (replies_bounded_iff (List.replicate 237 0) (by decide +kernel) false).2.mpr (by decide +kernel)⟩

/-- A DHCP reply of ten bytes is never done with. -/
theorem not_takesJust_short :
    ¬ TakesJust (fun sock schedule => recvDhcpReply sock schedule false) MaySetConfig
      (List.replicate 10 0) := by
  intro just
  obtain ⟨rounds, world, e, m', fed, returned, -⟩ := just.holding (by decide +kernel) 0
  rw [recvDhcpReply_of_short quiet_silence (by decide +kernel) fed.idle fed.calm (by decide +kernel)] at returned
  cases returned

/-! ### What a reply leaves of the configuration -/

/-- The value of the last option of this code. -/
def lastOf (code : UInt8) (options : List (UInt8 × List UInt8)) : Option (List UInt8) :=
  ((options.filter (·.1 = code)).getLast?).map Prod.snd

/-- The address that the reply gives, and the last values of the options that are heeded, are what
the variables hold. -/
def OffersNothingNew (second : Bool) (ram : Nat → UInt8) (vars : Vars) (payload : List UInt8) :
    Prop :=
  let options := heeded second ram vars payload
  yiaddr payload = vars.ipAddr ∧
    (∀ quad, lastOf 1 options = some quad → quad = vars.ipMask) ∧
    (∀ quad, lastOf 3 options = some quad → quad = vars.ipGateway) ∧
    ∀ quad, lastOf 6 options = some quad → quad = vars.ipResolver

/-- A field is set by the options of one code. -/
theorem foldl_assign_field (field : Config → List UInt8) (code : UInt8)
    (sets : ∀ config one, one.1 = code → field (assign config one) = one.2)
    (keeps : ∀ config one, one.1 ≠ code → field (assign config one) = field config)
    (config : Config) (options : List (UInt8 × List UInt8)) :
    field (options.foldl assign config) = (lastOf code options).getD (field config) := by
  induction options using List.reverseRecOn with
  | nil => rfl
  | append_singleton others one inductionHypothesis =>
    rw [List.foldl_append, List.foldl_cons, List.foldl_nil, lastOf, List.filter_append]
    by_cases same : one.1 = code
    · rw [sets _ one same, List.filter_cons_of_pos (by simpa using same), List.filter_nil,
        List.getLast?_concat]
      rfl
    · rw [keeps _ one same, List.filter_cons_of_neg (by simpa using same), List.filter_nil,
        List.append_nil]
      exact inductionHypothesis

theorem getD_eq_iff (value : Option (List UInt8)) (old : List UInt8) :
    value.getD old = old ↔ ∀ quad, value = some quad → quad = old := by
  cases value with
  | none => exact iff_of_true rfl fun quad equal => by cases equal
  | some quad =>
    refine ⟨fun same other equal => ?_, fun all => all quad rfl⟩
    cases equal
    exact same

theorem foldl_assign_eq_iff (config : Config) (address : List UInt8)
    (options : List (UInt8 × List UInt8)) :
    options.foldl assign { config with ipAddr := address } = config ↔
      address = config.ipAddr ∧
        (∀ quad, lastOf 1 options = some quad → quad = config.ipMask) ∧
        (∀ quad, lastOf 3 options = some quad → quad = config.ipGateway) ∧
        ∀ quad, lastOf 6 options = some quad → quad = config.ipResolver := by
  obtain ⟨addr, dhcp, waiter⟩ := foldl_assign_rest { config with ipAddr := address } options
  have mask := foldl_assign_field Config.ipMask 1
    (fun config one code => by rw [assign, if_pos code])
    (fun config one code => by
      rw [assign, if_neg code]
      split
      · rfl
      split
      · rfl
      · rfl) { config with ipAddr := address } options
  have gateway := foldl_assign_field Config.ipGateway 3
    (fun config one code => by rw [assign, code, if_neg (by decide), if_pos rfl])
    (fun config one code => by
      rw [assign, if_neg code]
      split
      · rfl
      split
      · rfl
      · rfl) { config with ipAddr := address } options
  have resolver := foldl_assign_field Config.ipResolver 6
    (fun config one code => by
      rw [assign, code, if_neg (by decide), if_neg (by decide), if_pos rfl])
    (fun config one code => by
      rw [assign, if_neg code]
      split
      · rfl
      split
      · rfl
      · rfl) { config with ipAddr := address } options
  rw [← getD_eq_iff, ← getD_eq_iff, ← getD_eq_iff]
  refine ⟨fun same => ?_, fun ⟨sameAddr, sameMask, sameGateway, sameResolver⟩ => ?_⟩
  · rw [same] at addr mask gateway resolver
    exact ⟨addr.symm, mask.symm, gateway.symm, resolver.symm⟩
  · cases result : options.foldl assign { config with ipAddr := address } with
    | mk ipAddr ipMask ipGateway ipResolver ipDhcp ipWaiter =>
      rw [result] at addr dhcp waiter mask gateway resolver
      cases config with
      | mk oldAddr oldMask oldGateway oldResolver oldDhcp oldWaiter =>
        rw [Config.mk.injEq]
        exact ⟨addr.trans sameAddr, mask.trans sameMask, gateway.trans sameGateway,
          resolver.trans sameResolver, dhcp, waiter⟩

/-- A DHCP reply, be it rejected or not, leaves the configuration as it was if and only if it offers
nothing new: it is checked only after what it says has been stored. -/
theorem rejected_keeps_config_iff {sock : Sock} (known : sock ∈ socks)
    {schedule : Nat → List Event} (quiet : Quiet schedule) {m m' : Machine}
    {payload rest : List UInt8}
    (fed : Fed sock m.world.chip (payload ++ rest) rest.length)
    (fits : UDP_HEADER_SIZE + payload.length ≤ RING_SIZE) {second : Bool} {rounds : Nat} {e : UInt8}
    (returned : recvDhcpReply sock schedule second rounds m payload.length = some (e, m')) :
    m'.vars.toConfig = m.vars.toConfig ↔ OffersNothingNew second m.ram m.vars payload := by
  have inside : payload.length ≤ RING_SIZE := (Nat.le_add_left _ _).trans fits
  by_cases long : DHCP_SIZE ≤ payload.length
  · obtain ⟨world, -, replies⟩ :=
      recvDhcpReply_of_fed quiet (apart_of_mem known) fed (Nat.le_refl _) long inside second
    cases rounds with
    | zero => cases returned
    | succ rounds =>
      rw [replies] at returned
      obtain ⟨⟨e', config⟩, judged, same⟩ := Option.map_eq_some_iff.mp returned
      cases same
      show config = m.vars.toConfig ↔ _
      rw [config_of_verdict long inside judged, foldl_assign_eq_iff]
      rfl
  · rw [recvDhcpReply_of_short quiet (apart_of_mem known) fed.idle fed.calm (Nat.not_le.mp long)]
      at returned
    cases returned

/-- A reply to another station, which gives it the address 10.0.0.7. -/
def foreign : List UInt8 :=
  List.replicate 16 0 ++ [10, 0, 0, 7] ++ List.replicate 216 0 ++ [99, 130, 83, 99, 255]

/-- A refusal (message type 6), which repeats the address, the mask and the gateway that the station
has. -/
def refusal : List UInt8 :=
  [2, 1, 6, 0, 1, 2, 3, 4] ++ List.replicate 8 0 ++ [10, 0, 0, 7] ++ List.replicate 216 0 ++
    [99, 130, 83, 99] ++ [1, 4, 255, 255, 255, 0] ++ [3, 4, 10, 0, 0, 1] ++ [53, 1, 6] ++ [255]

/-- The station with one of these in its receive ring, behind the header. -/
def facing (payload : List UInt8) : Machine :=
  { holding [] 0 with world := ringing ⟨0x4000, 0x6000⟩ (payload ++ []) }

/-- A station that has an address, with the refusal in its receive ring. -/
def renewing : Machine :=
  { facing refusal with
    vars :=
      { (facing refusal).vars with
        ipAddr := [10, 0, 0, 7]
        ipMask := [255, 255, 255, 0]
        ipGateway := [10, 0, 0, 1] } }

/-- The options before the message type are heeded. -/
theorem heeded_refusal : heeded false renewing.ram renewing.vars refusal =
    [(1, [255, 255, 255, 0]), (3, [10, 0, 0, 1])] := by
  rw [heeded]
  refine (if_pos (by decide +kernel)).trans ?_
  rw [offered, if_pos (by decide +kernel), offered, if_pos (by decide +kernel), offered,
    if_neg (by decide +kernel)]
  decide +kernel

theorem rejected_keeps_config_refusal :
    ∃ m', recvDhcpReply ⟨0x4000, 0x6000⟩ (fun _ => []) false 4 renewing refusal.length =
        some (1, m') ∧ m'.vars.toConfig = renewing.vars.toConfig := by
  have fed : Fed ⟨0x4000, 0x6000⟩ renewing.world.chip (refusal ++ [])
      ([] : List UInt8).length := fed_ringing _ (by decide +kernel)
  obtain ⟨world, -, replies⟩ :=
    recvDhcpReply_of_fed quiet_silence (by decide +kernel) fed (Nat.le_refl _) (by decide +kernel)
      (by decide +kernel) false
  have judged : verdict false 4 renewing.ram renewing.vars refusal =
      some (1, renewing.vars.toConfig) := by decide +kernel
  have returned := replies 3
  rw [judged] at returned
  refine ⟨_, returned, (rejected_keeps_config_iff List.mem_cons_self quiet_silence fed
    (by decide +kernel) returned).mpr ?_⟩
  rw [OffersNothingNew, heeded_refusal]
  exact ⟨by decide +kernel, by decide +kernel, by decide +kernel, by decide +kernel⟩

/-- Told that it is not for this station, the reply has changed its address. -/
theorem rejected_changes_config :
    ∃ m', recvDhcpReply ⟨0x4000, 0x6000⟩ (fun _ => []) false 1 (facing foreign) foreign.length =
        some (10, m') ∧ m'.vars.toConfig ≠ (facing foreign).vars.toConfig := by
  have fed : Fed ⟨0x4000, 0x6000⟩ (facing foreign).world.chip (foreign ++ [])
      ([] : List UInt8).length := fed_ringing _ (by decide +kernel)
  obtain ⟨world, -, replies⟩ :=
    recvDhcpReply_of_fed quiet_silence (by decide +kernel) fed (Nat.le_refl _) (by decide +kernel) (by decide +kernel) false
  have judged : verdict false 1 (facing foreign).ram (facing foreign).vars foreign =
      some (10, { (facing foreign).vars.toConfig with ipAddr := [10, 0, 0, 7] }) := by decide +kernel
  have returned := replies 0
  rw [judged] at returned
  refine ⟨_, returned, ?_⟩
  show ({ (facing foreign).vars.toConfig with ipAddr := [10, 0, 0, 7] } : Config) ≠
    (facing foreign).vars.toConfig
  decide +kernel

end Frobio.Axcore.Discovery
