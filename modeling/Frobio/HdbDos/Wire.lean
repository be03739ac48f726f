/-
This file shows that HDB-DOS and the server agree on the wire. Whatever sectors are read and
written, and whatever the navigator does when the machine is hijacked, each side reads just what the
other side has sent. After a sector, the buffer of the CoCo has what the server's drive has there,
and a hijack does to the memory what the navigator means.
-/

import Frobio.HdbDos.Injection
import Frobio.HdbDos.Plain
import Frobio.HdbDos.Trap
import Frobio.Lib.Run

namespace Frobio.Wire

open Coms HdbDos Tcp1 Memory Frobio.Ring Axcore Positional SlashPath Run

/-! ### The header -/

section

variable {ram : Ram} {u : Nat}

/-- The frame of the variables is apart from the first page. -/
def Framed (u : Nat) : Prop := 256 ≤ u ∧ u + sizeofVars ≤ SPACE

theorem Framed.inside (framed : Framed u) : u + h_cmd < SPACE :=
  lt_of_lt_of_le (Nat.add_lt_add_left (by decide) u) framed.2

theorem header_of_apart {a : Nat} (apart : a < u ∨ u + sizeofVars ≤ a) (other : a ≠ DCSTAT) :
    header u ram a = ram a := by
  simp only [h_cmd, h_len, h_param, h_drive_num, h_lsn1, h_drive_cmd, sizeofVars, header] at *
  simp (disch := omega) only [setByte_of_ne, setWord_of_ne]

/-- The header is sent as the request of a sector. -/
theorem window_header (framed : Framed u) :
    window 0 SPACE (header u ram) (u + h_cmd) 10 =
      (newQuint CMD_HDBDOS_SECTOR (if ram VCMD = WBLK then 256 + 5 else 5)
        (word ram DCBPT)).bytes ++ load ram VCMD 5 := by
  obtain ⟨high, inside⟩ := framed
  rw [window_eq_load (by decide) (by rw [h_cmd]; rw [sizeofVars] at inside; omega)]
  show [header u ram (u + 14), header u ram (u + 15), header u ram (u + 15 + 1),
    header u ram (u + 17), header u ram (u + 17 + 1), header u ram (u + 19), header u ram (u + 20),
    header u ram (u + 20 + 1), header u ram (u + 22), header u ram (u + 22 + 1)] = _
  simp only [h_cmd, h_len, h_param, h_drive_num, h_lsn1, h_drive_cmd, header, word, VCMD, DCBPT,
    DCSTAT]
  simp (disch := omega) only [setByte_of_ne, setWord_of_ne, setByte_self, setWord_first,
    setWord_second]
  rw [hi_hiLo (ram (243 + 1)), lo_hiLo (ram (243 + 1)), hi_hiLo (ram (243 + 3)),
    lo_hiLo (ram (243 + 3))]
  rfl

/-- What `SETUP` leaves for `EXECMD`. -/
theorem load_setup (l : Layout) (a b : UInt8) (x : Nat) (ram : Ram) :
    load (setup l a b x ram) VCMD 5 = [a, ram IDNUM, b, hi x, lo x] := by
  show [setup l a b x ram VCMD, setup l a b x ram (VCMD + 1), setup l a b x ram (VCMD + 1 + 1),
    setup l a b x ram (VCMD + 3), setup l a b x ram (VCMD + 3 + 1)] = _
  simp only [setup, VCMD, IDNUM, PTR_TO_TCP1READ, PTR_TO_TCP1WRITE]
  simp (disch := omega) only [setByte_of_ne, setWord_of_ne, setByte_self, setWord_first,
    setWord_second]
  rw [hi_hiLo, lo_hiLo]

end

/-! ### What `HdbDosSector` sends -/

section

variable {o : Outside} {x y : Session} {payload now : Text} {messages : List Message}

/-- The sector that a request is about. -/
def sectorOf (x : Session) (payload : Text) : Option Text :=
  if small : lsnBig payload / 630 < NumDrives then
    ((x.drives ⟨lsnBig payload / 630, small⟩).bind DriveImage.image).map
      (readAt (256 * (lsnBig payload % 630)) 256)
  else none

theorem length_copyInto {offset : Nat} (data : Text) {buf : Text} (inside : offset ≤ buf.length) :
    (copyInto offset data buf).length = buf.length := by
  refine length_writeAt_of_fits ?_
  rw [List.length_take]
  omega

/-- A packet to inject fills its sector. -/
theorem length_inject (sideload : Text) (dest : Nat) (exec : Bool) (data : Text) :
    (inject sideload dest exec data).payload.length = 5 + 256 := by
  have first := @length_copyInto 5 sideload (List.replicate (5 + 256) 0)
    (by rw [List.length_replicate]; decide)
  rw [List.length_replicate] at first
  have second := @length_copyInto (5 + 64) data
    (copyInto 5 sideload (List.replicate (5 + 256) 0)) (by rw [first]; decide)
  rw [first] at second
  rw [inject, Message.of]
  dsimp only
  split
  · simp only [List.length_set, second]
  · simp only [List.length_set, second]

/-- A packet of a sector that is injected. -/
def IsPacket (m : Message) : Prop :=
  m = Message.of CMD_HDBDOS_EXEC 0 m.payload ∧ m.payload.length = 5 + 256

theorem isPacket_inject (sideload : Text) (dest : Nat) (exec : Bool) (data : Text) :
    IsPacket (inject sideload dest exec data) := ⟨rfl, length_inject ..⟩

theorem isPacket_injectChunks {sideload bb : Text} {rounds endAddr : Nat} :
    ∀ m ∈ injectChunks sideload rounds endAddr bb, IsPacket m := by
  induction rounds generalizing endAddr bb with
  | zero => exact fun m member => absurd member List.not_mem_nil
  | succ rounds inductionHypothesis =>
    intro m member
    rw [injectChunks] at member
    split at member
    · exact absurd member List.not_mem_nil
    · split at member
      · rcases List.mem_cons.mp member with rfl | later
        · exact isPacket_inject ..
        · exact inductionHypothesis m later
      · rw [List.mem_singleton.mp member]
        exact isPacket_inject ..

/-- One of the packets that go before the first sector. -/
def IsInitial (o : Outside) (m : Message) : Prop :=
  ∃ injections, sendInitialInjections o = some injections ∧ m ∈ injections

theorem IsInitial.isPacket {m : Message} (initial : IsInitial o m) : IsPacket m := by
  obtain ⟨injections, sent, member⟩ := initial
  rw [sendInitialInjections] at sent
  obtain ⟨sideload, -, mapped⟩ := Option.bind_eq_some_iff.mp sent
  obtain ⟨bb, -, rfl⟩ := Option.map_eq_some_iff.mp mapped
  rcases List.mem_cons.mp member with rfl | later
  · exact isPacket_inject ..
  · exact isPacket_injectChunks m later

/-- What is sent for a read: some packets to inject, and then the sector. -/
def IsReply (o : Outside) (data payload : Text) (messages : List Message) : Prop :=
  data.length = 256 ∧ ∃ injections,
    (∀ m ∈ injections, IsInitial o m) ∧
      messages = injections ++ [Message.of CMD_HDBDOS_SECTOR 0 (payload.take 5 ++ data)]

theorem sectorOf_eq {d : DriveImage} {image : Text} (small : lsnBig payload / 630 < NumDrives)
    (there : y.drives ⟨lsnBig payload / 630, small⟩ = some d) (whole : d.image = some image) :
    sectorOf y payload = some (readAt (256 * (lsnBig payload % 630)) 256 image) := by
  rw [sectorOf, dif_pos small, there, Option.bind_some, whole, Option.map_some]

theorem length_readAt_of_le {front : Nat} {image : Text} (inside : front + 256 ≤ image.length) :
    (readAt front 256 image).length = 256 := by
  rw [length_readAt]
  omega

theorem readAt_copySector {front : Nat} {image data : Text} (length : data.length = 256) :
    readAt front 256 (copySector image front data) = data := by
  rw [copySector, List.take_of_length_le (Nat.le_of_eq length)]
  exact length ▸ readAt_writeAt 0 front data image

/-- The `switch` answers a read with the sector, and for a write it changes the sector. -/
theorem sector_of_sectorCommand {d : DriveImage} {image : Text}
    (small : lsnBig payload / 630 < NumDrives)
    (there : x.drives ⟨lsnBig payload / 630, small⟩ = some d) (whole : d.image = some image)
    (done : sectorCommand o x ⟨lsnBig payload / 630, small⟩ d image payload = (y, some messages)) :
    (payload.head? = some 2 ∧ ∃ data, sectorOf y payload = some data ∧
      IsReply o data payload messages) ∨
    (payload.head? = some 3 ∧ messages = [] ∧ ∀ data, payload.drop 5 = data → data.length = 256 →
      sectorOf y payload = some data) := by
  rw [sectorCommand] at done
  split at done
  · rename_i reads
    dsimp only at done
    split at done
    · cases done
    · rename_i injections sent
      split at done
      · rename_i inside
        cases done
        refine .inl ⟨reads, _, sectorOf_eq small there whole, length_readAt_of_le inside,
          injections, fun m member => ?_, rfl⟩
        split at sent
        · exact ⟨injections, sent, member⟩
        · cases sent
          exact absurd member List.not_mem_nil
      · cases done
  · rename_i writes
    dsimp only at done
    split at done
    · cases done
      refine .inr ⟨writes, rfl, fun data same length => ?_⟩
      rw [sectorOf_eq small (drives_put_self ..) rfl, same, readAt_copySector length]
    · cases done
  · cases done

/-- A read is answered with the sector, and a write changes the sector and is not answered. -/
theorem sector_of_hdbDosSector
    (done : HdbDos.hdbDosSector o x payload now = (y, some messages)) :
    (payload.head? = some 2 ∧ ∃ data, sectorOf y payload = some data ∧
      IsReply o data payload messages) ∨
    (payload.head? = some 3 ∧ messages = [] ∧ ∀ data, payload.drop 5 = data → data.length = 256 →
      sectorOf y payload = some data) := by
  rw [HdbDos.hdbDosSector] at done
  split at done
  · cases done
  · split at done
    · rename_i small
      dsimp only at done
      split at done
      · cases done
      · split at done
        · cases done
        · rename_i image whole
          exact sector_of_sectorCommand small (drives_put_self ..) whole done
    · cases done

end

/-! ### What the server reads in its loop -/

section

variable {v : Serving} {x : Server} {q : Quint} {new more payload : List UInt8}

/-- A message that has not all come is waited for. -/
theorem hears_of_short (waits : x.waiting = .readFive) (begun : x.unread ++ new = q.bytes ++ more)
    (short : more.length < q.n) :
    x.hears v new = ({ x with unread := q.bytes ++ more }, []) := by
  rw [← begun]
  obtain ⟨hdbDos, sectors, hijacks, waiting, unread⟩ := x
  obtain rfl : waiting = .readFive := waits
  refine hears_of_none ?_
  show (readQuintAndPayload (unread ++ new)).map _ = none
  rw [begun, readQuintAndPayload, readQuint_bytes, Option.bind_some]
  dsimp only
  rw [readFull, if_neg (Nat.not_le.mpr short)]
  rfl

/-- A message that has all come is dispatched. -/
theorem reads_of_whole (waits : x.waiting = .readFive)
    (begun : x.unread ++ new = q.bytes ++ payload) (whole : payload.length = q.n) :
    ({ x with unread := x.unread ++ new } : Server).reads v =
      some (if q.command = CMD_HDBDOS_SECTOR then { x with unread := [] }.hdbDosSector v payload
        else if q.command = CMD_HDBDOS_HIJACK then { x with unread := [] }.hdbDosHijack v payload
        else ({ x with unread := [] }.panic, [])) := by
  obtain ⟨hdbDos, sectors, hijacks, waiting, unread⟩ := x
  obtain rfl : waiting = .readFive := waits
  show (readQuintAndPayload (unread ++ new)).map _ = _
  have parsed : readQuintAndPayload (unread ++ new) =
      some (⟨q.command, q.n, q.p, payload⟩, []) := by
    refine readQuintAndPayload_eq_some.mpr ⟨q, ?_, whole, rfl⟩
    rw [begun, List.append_nil]
  rw [parsed]
  rfl

theorem unread_hdbDosSector (v : Serving) (x : Server) (payload : List UInt8) :
    (x.hdbDosSector v payload).1.unread = x.unread := by
  rw [Server.hdbDosSector]
  split
  · rfl
  · rfl
  · rfl

theorem hears_of_sector (waits : x.waiting = .readFive) (command : q.command = CMD_HDBDOS_SECTOR)
    (begun : x.unread ++ new = q.bytes ++ payload) (whole : payload.length = q.n) :
    x.hears v new = { x with unread := [] }.hdbDosSector v payload := by
  have reads := reads_of_whole (v := v) waits begun whole
  rw [if_pos command] at reads
  exact hears_of_reads reads (unread_hdbDosSector ..)

/-- A hijack that can be served starts the navigator. -/
theorem hears_of_hijack (waits : x.waiting = .readFive) (command : q.command = CMD_HDBDOS_HIJACK)
    (begun : x.unread ++ new = q.bytes ++ payload) (whole : payload.length = q.n)
    (known : x.hdbDos ≠ none) (long : 256 + 32 ≤ payload.length) :
    x.hears v new = { x with unread := [], hijacks := x.hijacks + 1 }.navigate
      (v.shell x.hijacks payload) := by
  have other : ¬q.command = CMD_HDBDOS_SECTOR := by
    rw [command]
    decide
  have reads := reads_of_whole (v := v) waits begun whole
  rw [if_neg other, if_pos command, Server.hdbDosHijack,
    if_neg (not_or.mpr ⟨known, Nat.not_lt.mpr long⟩)] at reads
  exact hears_of_reads reads (unread_navigate ..)

/-- A sector that can be served. -/
theorem hdbDosSector_of_done {session : Session} {messages : List Message}
    (done : HdbDos.hdbDosSector v.outside (x.hdbDos.getD v.fresh) payload (v.now x.sectors) =
      (session, some messages)) :
    x.hdbDosSector v payload = ({ x with hdbDos := some session, sectors := x.sectors + 1 },
      if messages = [] then []
      else ((v.injected x.sectors).map (Message.of CMD_HDBDOS_EXEC 0) ++ messages).flatMap
        Message.bytes) := by
  rw [Server.hdbDosSector, done]
  cases messages with
  | nil => rfl
  | cons first rest => rfl

end

/-! ### The sector comes to the buffer -/

/-- The buffer is not in the first page, and apart from the frame and from the chip. -/
structure Buffered (l : Layout) (u d : Nat) : Prop where
  low : 256 ≤ d
  inside : d + 256 ≤ SPACE
  framed : d + 256 ≤ u ∨ u + sizeofVars ≤ d
  apart : ∀ i < 256, ¬l.program (d + i) ∧ ¬Port (d + i)

section

variable {l : Layout} {v : Serving} {keyin : Nat → Ram → UInt8 × Ram} {code : Nat → Ram → Ram}
  {ram : Ram} {sent rest data payload : List UInt8} {polls u d : Nat} {x : Server} {c : UInt8}

theorem Buffered.begins (buffered : Buffered l u d) : d < SPACE :=
  lt_of_lt_of_le (Nat.lt_add_of_pos_right (by decide)) buffered.inside

/-- The memory after a packet of a sector: ten bytes are in the frame, the rest in the buffer. -/
def received (u d : Nat) (c : UInt8) (payload : List UInt8) (ram : Ram) : Ram :=
  put 0 SPACE (put 0 SPACE ram (u + h_cmd) ((newQuint c (5 + 256) 0).bytes ++ payload.take 5)) d
    (payload.drop 5)

theorem length_tenBytes (length : payload.length = 5 + 256) :
    ((newQuint c (5 + 256) 0).bytes ++ payload.take 5).length = 10 := by
  rw [List.length_append, Quint.length_bytes, List.length_take, length]
  rfl

theorem length_rest (length : payload.length = 5 + 256) : (payload.drop 5).length = 256 := by
  rw [List.length_drop, length]

theorem load_received (buffered : Buffered l u d) (length : payload.length = 5 + 256) :
    load (received u d c payload ram) d 256 = payload.drop 5 := by
  have rest := length_rest length
  have inside := buffered.inside
  rw [received, put_eq_store (by rw [rest]; exact inside), Nat.zero_add, ← rest]
  exact load_store_self ..

/-- The bytes in the frame leave the first page alone. -/
theorem put_frame_of_low (framed : Framed u) (length : data.length = 10) {a : Nat} (low : a < 256) :
    put 0 SPACE ram (u + h_cmd) data a = ram a := by
  obtain ⟨high, most⟩ := framed
  refine put_of_lt ?_ (by omega)
  simp only [h_cmd, sizeofVars] at *
  omega

theorem received_of_low (framed : Framed u) (buffered : Buffered l u d)
    (length : payload.length = 5 + 256) {a : Nat} (low : a < 256) :
    received u d c payload ram a = ram a := by
  have inside := buffered.inside
  have after := buffered.low
  rw [received, put_of_lt (by rw [length_rest length]; exact inside) (by omega),
    put_frame_of_low framed (length_tenBytes length) low]

theorem command_received (framed : Framed u) (buffered : Buffered l u d)
    (length : payload.length = 5 + 256) : received u d c payload ram (u + h_cmd) = c := by
  obtain ⟨high, most⟩ := framed
  have inside := buffered.inside
  have apart := buffered.framed
  have ten := length_tenBytes (c := c) length
  have rest := length_rest length
  have kept : received u d c payload ram (u + h_cmd) = put 0 SPACE ram (u + h_cmd)
      ((newQuint c (5 + 256) 0).bytes ++ payload.take 5) (u + h_cmd) := by
    simp only [h_cmd, sizeofVars] at *
    rw [received]
    rcases apart with before | after
    · exact put_of_le (by rw [rest]; exact inside) (by rw [rest]; omega)
    · exact put_of_lt (by rw [rest]; exact inside) (by omega)
  have here : u + h_cmd + 10 ≤ SPACE := by
    simp only [h_cmd, sizeofVars] at *
    omega
  rw [kept]
  exact put_self (i := 0) (by rw [ten]; exact here) (by rw [ten]; decide)

theorem play_readSector (framed : Framed u) (buffered : Buffered l u d) (there : word ram DCBPT = d)
    (length : payload.length = 5 + 256) :
    play (around v keyin) (block l code (.readSector u))
        ⟨⟨ram, sent, (Message.of c 0 payload).bytes ++ rest⟩, polls, x⟩ =
      play (around v keyin)
        (if c = CMD_HDBDOS_SECTOR then .rts
        else if c = CMD_HDBDOS_EXEC then .change (code d) <| .bra (.readSector u)
        else .stuck)
        ⟨⟨received u d c payload ram, sent, rest⟩, polls, x⟩ := by
  have bytes : (Message.of c 0 payload).bytes ++ rest =
      ((newQuint c (5 + 256) 0).bytes ++ payload.take 5) ++ (payload.drop 5 ++ rest) := by
    rw [Message.bytes, Message.of, length, List.append_assoc, List.append_assoc,
      ← List.append_assoc (payload.take 5), List.take_append_drop]
  have pointer : word (put 0 SPACE ram (u + h_cmd)
      ((newQuint c (5 + 256) 0).bytes ++ payload.take 5)) DCBPT = d := by
    rw [← there]
    exact word_congr (put_frame_of_low framed (length_tenBytes length) (by decide))
      (put_frame_of_low framed (length_tenBytes length) (by decide))
  have pointer' : word (received u d c payload ram) DCBPT = d := by
    rw [← there]
    exact word_congr (received_of_low framed (there ▸ buffered) length (by decide))
      (received_of_low framed (there ▸ buffered) length (by decide))
  rw [bytes, block, play_read framed.inside (by decide) (by decide) (length_tenBytes length),
    play_look, pointer, play_read buffered.begins (by decide) (by decide) (length_rest length),
    play_look, ← received, command_received framed buffered length, pointer']

/-- The packets that are injected are executed, and then the sector is in the buffer. -/
theorem ends_readSector {injections : List Message} (framed : Framed u)
    (buffered : Buffered l u d) (there : word ram DCBPT = d) (size : payload.length = 5)
    (length : data.length = 256) (packets : ∀ m ∈ injections, IsPacket m)
    (returns : ∀ m ∈ injections, ∀ ram, load ram d 256 = m.payload.drop 5 →
      word (code d ram) DCBPT = word ram DCBPT) :
    ∃ ram', load ram' d 256 = data ∧ Ends (around v keyin) (block l code) (.readSector u)
      ⟨⟨ram, sent, (injections ++ [Message.of CMD_HDBDOS_SECTOR 0 (payload ++ data)]).flatMap
        Message.bytes⟩, polls, x⟩ ⟨⟨ram', sent, []⟩, polls, x⟩ := by
  induction injections generalizing ram with
  | nil =>
    have whole : (payload ++ data).length = 5 + 256 := by
      rw [List.length_append, size, length]
    refine ⟨received u d CMD_HDBDOS_SECTOR (payload ++ data) ram, ?_, .of_play ?_⟩
    · rw [load_received buffered whole, List.drop_left' size]
    · rw [List.nil_append, List.flatMap_singleton, ← List.append_nil (Message.bytes _),
        play_readSector framed buffered there whole, if_pos rfl]
      rfl
  | cons m injections inductionHypothesis =>
    obtain ⟨packet, others⟩ := List.forall_mem_cons.mp packets
    obtain ⟨return_, onward⟩ := List.forall_mem_cons.mp returns
    obtain ⟨same, whole⟩ := packet
    have there' : word (code d (received u d CMD_HDBDOS_EXEC m.payload ram)) DCBPT = d := by
      rw [return_ _ (load_received buffered whole), ← there]
      exact word_congr (received_of_low framed (there ▸ buffered) whole (by decide))
        (received_of_low framed (there ▸ buffered) whole (by decide))
    obtain ⟨ram', loaded, ends⟩ := inductionHypothesis there' others onward
    refine ⟨ram', loaded, Goes.ends (.of_play ?_) ends⟩
    have bytes : m.bytes = (Message.of CMD_HDBDOS_EXEC 0 m.payload).bytes := congrArg _ same
    rw [List.cons_append, List.flatMap_cons, bytes, play_readSector framed buffered there whole,
      if_neg (by decide), if_pos rfl]
    rfl

/-! ### `EXECMD` -/

/-- The header leaves the buffer alone. -/
theorem load_header (buffered : Buffered l u d) : load (header u ram) d 256 = load ram d 256 := by
  have after := buffered.low
  have apart := buffered.framed
  refine load_congr fun i below => header_of_apart (by omega) ?_
  rw [DCSTAT]
  omega

theorem header_of_low (framed : Framed u) {a : Nat} (low : a < 256) (other : a ≠ DCSTAT) :
    header u ram a = ram a :=
  header_of_apart (.inl (lt_of_lt_of_le low framed.1)) other

theorem word_header (framed : Framed u) : word (header u ram) DCBPT = word ram DCBPT :=
  word_congr (header_of_low framed (by decide) (by decide))
    (header_of_low framed (by decide) (by decide))

/-- The request is all that a read sends. -/
theorem play_execmd_read (framed : Framed u) (reads : ram VCMD = RBLK)
    (waits : x.waiting = .readFive) (empty : x.unread = []) :
    ∃ sent', play (around v keyin) (block l code (.execmd u)) ⟨⟨ram, sent, []⟩, polls, x⟩ =
      .ok (some (.readSector u),
        ⟨⟨header u ram, sent', (x.hdbDosSector v (load ram VCMD 5)).2⟩, polls,
          (x.hdbDosSector v (load ram VCMD 5)).1⟩) := by
  have kept : header u ram VCMD = RBLK := by
    rw [header_of_low framed (by decide) (by decide), reads]
  have other : ¬ram VCMD = WBLK := by
    rw [reads]
    decide
  have other' : ¬RBLK = WBLK := by decide
  have heard : x.hears v ((newQuint CMD_HDBDOS_SECTOR 5 (word ram DCBPT)).bytes ++
      load ram VCMD 5) = x.hdbDosSector v (load ram VCMD 5) := by
    have all := @hears_of_sector v x (newQuint CMD_HDBDOS_SECTOR 5 (word ram DCBPT))
      ((newQuint CMD_HDBDOS_SECTOR 5 (word ram DCBPT)).bytes ++ load ram VCMD 5)
      (load ram VCMD 5) waits rfl (by rw [empty, List.nil_append]) (by rw [length_load, n_newQuint])
    rwa [← empty] at all
  refine ⟨sent ++ ((newQuint CMD_HDBDOS_SECTOR 5 (word ram DCBPT)).bytes ++ load ram VCMD 5), ?_⟩
  rw [block, play_change, play_write framed.inside (by decide) (by decide), window_header framed,
    if_neg other, hears_around, heard, play_look, kept, if_neg other']
  rfl

/-- A write sends the buffer behind the request. -/
theorem play_execmd_write (framed : Framed u) (buffered : Buffered l u d)
    (there : word ram DCBPT = d) (writes : ram VCMD = WBLK) (waits : x.waiting = .readFive)
    (empty : x.unread = []) :
    ∃ sent', play (around v keyin) (block l code (.execmd u)) ⟨⟨ram, sent, []⟩, polls, x⟩ =
      .ok (none,
        ⟨⟨header u ram, sent', (x.hdbDosSector v (load ram VCMD 5 ++ load ram d 256)).2⟩, polls,
          (x.hdbDosSector v (load ram VCMD 5 ++ load ram d 256)).1⟩) := by
  have kept : header u ram VCMD = WBLK := by
    rw [header_of_low framed (by decide) (by decide), writes]
  have data : window 0 SPACE (header u ram) d 256 = load ram d 256 := by
    rw [window_eq_load (by decide) buffered.inside, load_header buffered]
  have first : x.hears v ((newQuint CMD_HDBDOS_SECTOR (256 + 5) (word ram DCBPT)).bytes ++
      load ram VCMD 5) = ({ x with unread :=
        (newQuint CMD_HDBDOS_SECTOR (256 + 5) (word ram DCBPT)).bytes ++ load ram VCMD 5 }, []) :=
    hears_of_short waits (by rw [empty, List.nil_append])
      (by rw [length_load, n_newQuint]; decide)
  have second : ({ x with unread :=
      (newQuint CMD_HDBDOS_SECTOR (256 + 5) (word ram DCBPT)).bytes ++ load ram VCMD 5 } :
        Server).hears v (load ram d 256) =
      x.hdbDosSector v (load ram VCMD 5 ++ load ram d 256) := by
    have all := @hears_of_sector v { x with unread :=
        (newQuint CMD_HDBDOS_SECTOR (256 + 5) (word ram DCBPT)).bytes ++ load ram VCMD 5 }
      (newQuint CMD_HDBDOS_SECTOR (256 + 5) (word ram DCBPT)) (load ram d 256)
      (load ram VCMD 5 ++ load ram d 256) waits rfl (List.append_assoc ..)
      (by rw [List.length_append, length_load, length_load, n_newQuint])
    rwa [← empty] at all
  refine ⟨sent ++ ((newQuint CMD_HDBDOS_SECTOR (256 + 5) (word ram DCBPT)).bytes ++
    load ram VCMD 5) ++ load ram d 256, ?_⟩
  have there' : word (header u ram) DCBPT = d := (word_header framed).trans there
  rw [block, play_change, play_write framed.inside (by decide) (by decide), window_header framed,
    if_pos writes, hears_around, first, play_look, kept, if_pos rfl, there',
    play_write buffered.begins (by decide) (by decide), data, hears_around, second]
  rfl

/-! ### The key that hijacks -/

/-- The request of a hijack carries the first page and the registers of the memory map. -/
def hijackPayload (ram : Ram) : List UInt8 :=
  window 0 SPACE ram 0 256 ++ window 0 SPACE ram 0xFFA0 32

theorem length_hijackPayload (ram : Ram) : (hijackPayload ram).length = 256 + 32 := by
  rw [hijackPayload, List.length_append, length_window, length_window]

theorem play_inkeyTrapEach_of_other (other : (keyin polls ram).1 ≠ HIJACK_KEY_ASCII) :
    play (around v keyin) (block l code .inkeyTrapEach) ⟨⟨ram, sent, rest⟩, polls, x⟩ =
      .ok (none, ⟨⟨(keyin polls ram).2, sent, rest⟩, polls + 1, x⟩) := by
  rw [block, play_keyin, around, if_neg other]
  rfl

/-- The trap waits for its next command. -/
theorem play_serveHijack_of_nil (there : word ram PTR_TO_TCP1READ = l.tcp1Read) :
    play (around v keyin) (block l code .serveHijack) ⟨⟨ram, sent, []⟩, polls, x⟩ =
      .error .stuck := by
  rw [block, play_jsrRead there]
  rfl

/-- The quint of a hijack. -/
def hijackQuint : Quint := ⟨CMD_HDBDOS_HIJACK, 1, 32, 0, 0⟩

theorem play_inkeyTrapEach_of_hijack {ram' : Ram}
    (polled : keyin polls ram = (HIJACK_KEY_ASCII, ram')) (installed : Installed l ram')
    (waits : x.waiting = .readFive) (empty : x.unread = [])
    (known : x.hdbDos ≠ none) :
    ∃ sent', play (around v keyin) (block l code .inkeyTrapEach) ⟨⟨ram, sent, []⟩, polls, x⟩ =
      .ok (some .serveHijack,
        ⟨⟨ram', sent', ({ x with hijacks := x.hijacks + 1 }.navigate
          (v.shell x.hijacks (hijackPayload ram'))).2⟩, polls + 1,
          ({ x with hijacks := x.hijacks + 1 }.navigate
            (v.shell x.hijacks (hijackPayload ram'))).1⟩) := by
  have both : (around v keyin).keyin polls ram = (HIJACK_KEY_ASCII, ram') := polled
  have inside : l.HIJACK_KEY_PACKET < SPACE := by
    have inside := l.inside
    omega
  have size : hijackQuint.n = 256 + 32 := by decide
  have first : x.hears v [CMD_HDBDOS_HIJACK, 1, 32, 0, 0] =
      ({ x with unread := hijackQuint.bytes ++ [] }, []) :=
    hears_of_short waits (by rw [empty]; rfl) (by rw [size]; decide)
  have second : ({ x with unread := hijackQuint.bytes ++ [] } : Server).hears v
      (window 0 SPACE ram' 0 256) =
      ({ x with unread := hijackQuint.bytes ++ window 0 SPACE ram' 0 256 }, []) :=
    hears_of_short (x := { x with unread := hijackQuint.bytes ++ [] }) waits
      (by rw [List.append_nil]) (by rw [size, length_window]; decide)
  have third : ({ x with unread :=
      hijackQuint.bytes ++ window 0 SPACE ram' 0 256 } : Server).hears v
        (window 0 SPACE ram' 0xFFA0 32) =
      { x with hijacks := x.hijacks + 1 }.navigate (v.shell x.hijacks (hijackPayload ram')) := by
    have all := @hears_of_hijack v
      { x with unread := hijackQuint.bytes ++ window 0 SPACE ram' 0 256 } hijackQuint
      (window 0 SPACE ram' 0xFFA0 32) (hijackPayload ram') waits rfl (List.append_assoc ..)
      (by rw [size, length_hijackPayload]) known (Nat.le_of_eq (length_hijackPayload ram').symm)
    rwa [← empty] at all
  refine ⟨sent ++ [CMD_HDBDOS_HIJACK, 1, 32, 0, 0] ++ window 0 SPACE ram' 0 256 ++
    window 0 SPACE ram' 0xFFA0 32, ?_⟩
  rw [block, play_keyin, both, if_pos rfl, play_jsrWrite installed.write,
    play_write inside (by decide) (by decide), window_hijackKeyPacket installed, hears_around,
    first, play_jsrWrite installed.write, play_write (by decide) (by decide) (by decide),
    hears_around, second, play_jsrWrite installed.write,
    play_write (by decide) (by decide) (by decide), hears_around, third]
  rfl

end

/-! ### The law -/

/-- What HDB-DOS is asked for: a sector, at the end of `RBLOCK` or `WBLOCK`, or a key. Before it,
BASIC does as it likes. -/
inductive Op
  | execmd (basic : Ram → Ram) (u : Nat) (a b : UInt8) (x : Nat)
  | inkey (basic : Ram → Ram)

def Op.prepare (l : Layout) : Op → Ram → Ram
  | .execmd basic _ a b x, ram => setup l a b x (basic ram)
  | .inkey basic, ram => basic ram

def Op.label : Op → Label
  | .execmd _ u _ _ _ => .execmd u
  | .inkey _ => .inkeyTrapEach

section

variable (l : Layout) (v : Serving) (keyin : Nat → Ram → UInt8 × Ram) (code : Nat → Ram → Ram)

/-- The code of HDB-DOS, or that of the trap, runs on the machine. -/
def step (schedule : Nat → List Event) (rounds : Nat) (s : Scene Machine Server) (op : Op) :
    Option (Scene Machine Server) :=
  execFrom (around v keyin) (block l code) schedule rounds rounds op.label
    { s with here := { s.here with ram := op.prepare l s.here.ram } }

/-- Each side has read what the other side has sent. -/
structure Quiet (s : Scene Streams Server) : Prop where
  coming : s.here.coming = []
  waiting : s.peer.waiting = .readFive
  unread : s.peer.unread = []

/-- The request of `EXECMD`, with the buffer if it is a write. -/
def request (ram : Ram) : List UInt8 :=
  load ram VCMD 5 ++ if ram VCMD = WBLK then load ram (word ram DCBPT) 256 else []

/-- What the server does with a request. -/
def Server.served (x : Server) (payload : List UInt8) : Session × Option (List Message) :=
  HdbDos.hdbDosSector v.outside (x.hdbDos.getD v.fresh) payload (v.now x.sectors)

/-- The packets that the server may inject before a sector. -/
def Serving.Injects (x : Server) (m : Message) : Prop :=
  m ∈ (v.injected x.sectors).map (Message.of CMD_HDBDOS_EXEC 0) ∨ IsInitial v.outside m

/-- A sector that HDB-DOS can ask for, when the memory is as `SETUP` leaves it. The drives have
images, and the code that may be injected leaves the pointer to the buffer alone. -/
structure Fit (ram : Ram) (u : Nat) (x : Server) : Prop where
  command : ram VCMD = RBLK ∨ ram VCMD = WBLK
  framed : Framed u
  buffered : Buffered l u (word ram DCBPT)
  below : lsnBig (request ram) < 6300
  mounted : Mounted v.outside (x.hdbDos.getD v.fresh)
  injects : (sendInitialInjections v.outside).isSome = true
  returns : ∀ m, v.Injects x m → ∀ ram', load ram' (word ram DCBPT) 256 = m.payload.drop 5 →
    word (code (word ram DCBPT) ram') DCBPT = word ram' DCBPT

/-- A sector is read or written that the server has. When the machine is hijacked, the trap is in
place, a sector was asked for before, and the navigator is careful. -/
def Expected (s : Scene Streams Server) (op : Op) : Prop :=
  match op with
  | .execmd _ u _ _ _ => Fit l v code (op.prepare l s.here.ram) u s.peer
  | .inkey _ =>
    let ram := op.prepare l s.here.ram
    (keyin s.polls ram).1 = HIJACK_KEY_ASCII →
      Installed l ram ∧ s.peer.hdbDos ≠ none ∧
        (v.shell s.peer.hijacks (hijackPayload (keyin s.polls ram).2)).Careful l

/-- After a sector, the buffer has what the server's drive has there, and a write has changed the
drive and not the buffer. A hijack does what the navigator means. -/
def Agreed (s t : Scene Streams Server) (op : Op) : Prop :=
  match op with
  | .execmd .. =>
    let ram := op.prepare l s.here.ram
    let session := (s.peer.served v (request ram)).1
    t.peer.hdbDos = some session ∧
      sectorOf session (request ram) = some (load t.here.ram (word ram DCBPT) 256) ∧
      (ram VCMD = WBLK → load t.here.ram (word ram DCBPT) 256 = load ram (word ram DCBPT) 256)
  | .inkey _ =>
    let pressed := keyin s.polls (op.prepare l s.here.ram)
    if pressed.1 = HIJACK_KEY_ASCII then
      ∃ mounts, t.peer.hdbDos = s.peer.hdbDos.map mounts ∧
        Carried l keyin (v.shell s.peer.hijacks (hijackPayload pressed.2)) (s.polls + 1) pressed.2
          t.polls t.here.ram mounts
    else t.peer.hdbDos = s.peer.hdbDos ∧ t.here.ram = pressed.2

end

section

variable {l : Layout} {v : Serving} {keyin : Nat → Ram → UInt8 × Ram} {code : Nat → Ram → Ram}
  {s : Scene Streams Server}

theorem request_of_read {ram : Ram} (reads : ram VCMD = RBLK) : request ram = load ram VCMD 5 := by
  have other : ¬ram VCMD = WBLK := by
    rw [reads]
    decide
  rw [request, if_neg other, List.append_nil]

theorem request_of_write {ram : Ram} (writes : ram VCMD = WBLK) :
    request ram = load ram VCMD 5 ++ load ram (word ram DCBPT) 256 := by
  rw [request, if_pos writes]

theorem head_request (ram : Ram) : (request ram).head? = some (ram VCMD) := by
  rw [request, load_succ, List.cons_append, List.head?_cons]

theorem lsnBig_request (ram : Ram) : lsnBig (request ram) = lsnBig (load ram VCMD 5) := rfl

theorem length_request (ram : Ram) : 5 ≤ (request ram).length := by
  rw [request, List.length_append, length_load]
  exact Nat.le_add_right _ _

/-- The server does not panic, and its drives still have images. -/
theorem Fit.served {ram : Ram} {u : Nat} {x : Server} (fit : Fit l v code ram u x) :
    (∃ messages, x.served v (request ram) = ((x.served v (request ram)).1, some messages)) ∧
      Mounted v.outside (x.served v (request ram)).1 := by
  have command : (request ram).head? = some 2 ∨
      (request ram).head? = some 3 ∧ (request ram).length = 261 := by
    rw [head_request]
    rcases fit.command with reads | writes
    · exact .inl (congrArg some reads)
    · refine .inr ⟨congrArg some writes, ?_⟩
      rw [request_of_write writes, List.length_append, length_load, length_load]
  obtain ⟨sent, -, mounted⟩ := hdbDosSector_plain (v.now x.sectors) fit.mounted fit.injects
    (length_request ram) command fit.below
  obtain ⟨messages, served, -⟩ := Option.map_eq_some_iff.mp sent
  exact ⟨⟨messages, Prod.ext rfl served⟩, mounted⟩

/-- A read ends with the sector in the buffer. -/
theorem Fit.ends_of_read {ram : Ram} {sent : List UInt8} {polls u : Nat} {x : Server}
    (fit : Fit l v code ram u x) (reads : ram VCMD = RBLK) (waits : x.waiting = .readFive)
    (empty : x.unread = []) :
    ∃ ram' sent', sectorOf (x.served v (request ram)).1 (request ram) =
        some (load ram' (word ram DCBPT) 256) ∧
      Ends (around v keyin) (block l code) (.execmd u) ⟨⟨ram, sent, []⟩, polls, x⟩
        ⟨⟨ram', sent', []⟩, polls,
          { x with hdbDos := some (x.served v (request ram)).1, sectors := x.sectors + 1 }⟩ := by
  have asks := request_of_read reads
  obtain ⟨⟨messages, done⟩, -⟩ := fit.served
  rcases sector_of_hdbDosSector done with ⟨-, data, there, length, injections, initial, all⟩ |
    ⟨writes, -⟩
  · have five : (load ram VCMD 5).take 5 = load ram VCMD 5 :=
      List.take_of_length_le (Nat.le_of_eq (length_load ..))
    have nonempty : messages ≠ [] := by
      rw [all]
      exact List.append_ne_nil_of_right_ne_nil _ (List.cons_ne_nil _ _)
    obtain ⟨sent', played⟩ :=
      @play_execmd_read l v keyin code ram sent polls u x fit.framed reads waits empty
    rw [← asks, hdbDosSector_of_done done, if_neg nonempty, all, ← List.append_assoc, asks,
      five] at played
    have injects : ∀ m ∈ (v.injected x.sectors).map (Message.of CMD_HDBDOS_EXEC 0) ++ injections,
        IsPacket m ∧ v.Injects x m := by
      intro m member
      rcases List.mem_append.mp member with more | own
      · refine ⟨?_, .inl more⟩
        obtain ⟨bb, among, rfl⟩ := List.mem_map.mp more
        exact ⟨rfl, v.sized _ _ among⟩
      · exact ⟨(initial m own).isPacket, .inr (initial m own)⟩
    obtain ⟨ram', loaded, ends⟩ := @ends_readSector l v keyin code (header u ram) sent' data
      (load ram VCMD 5) polls u (word ram DCBPT)
      { x with hdbDos := some (x.served v (load ram VCMD 5)).1, sectors := x.sectors + 1 }
      ((v.injected x.sectors).map (Message.of CMD_HDBDOS_EXEC 0) ++ injections) fit.framed
      fit.buffered (word_header fit.framed) (length_load ..) length
      (fun m member => (injects m member).1) fun m member => fit.returns m (injects m member).2
    rw [there]
    refine ⟨ram', sent', congrArg some loaded.symm, ?_⟩
    rw [asks]
    exact Goes.ends (.of_play played) ends
  · rw [head_request, reads] at writes
    exact absurd writes (by decide)

/-- A write ends with the buffer in the sector. -/
theorem Fit.ends_of_write {ram : Ram} {sent : List UInt8} {polls u : Nat} {x : Server}
    (fit : Fit l v code ram u x) (writes : ram VCMD = WBLK) (waits : x.waiting = .readFive)
    (empty : x.unread = []) :
    ∃ sent', sectorOf (x.served v (request ram)).1 (request ram) =
        some (load (header u ram) (word ram DCBPT) 256) ∧
      Ends (around v keyin) (block l code) (.execmd u) ⟨⟨ram, sent, []⟩, polls, x⟩
        ⟨⟨header u ram, sent', []⟩, polls,
          { x with hdbDos := some (x.served v (request ram)).1, sectors := x.sectors + 1 }⟩ := by
  have asks := request_of_write writes
  obtain ⟨⟨messages, done⟩, -⟩ := fit.served
  rcases sector_of_hdbDosSector done with ⟨reads, -⟩ | ⟨-, rfl, changed⟩
  · rw [head_request, writes] at reads
    exact absurd reads (by decide)
  · obtain ⟨sent', played⟩ := @play_execmd_write l v keyin code ram sent polls u _ x fit.framed
      fit.buffered rfl writes waits empty
    rw [← asks, hdbDosSector_of_done done, if_pos rfl] at played
    refine ⟨sent', changed _ ?_ (length_load ..), .of_play played⟩
    rw [load_header fit.buffered, asks, List.drop_left' (length_load ..)]

/-- Played on the streams, what is expected ends as it should. -/
theorem ends_of_expected (typed : Typed l keyin) (quiet : Quiet s) {op : Op}
    (expected : Expected l v keyin code s op) :
    ∃ t, Quiet t ∧ Agreed l v keyin s t op ∧
      Ends (around v keyin) (block l code) op.label
        { s with here := { s.here with ram := op.prepare l s.here.ram } } t := by
  obtain ⟨⟨ram, sent, coming⟩, polls, x⟩ := s
  obtain ⟨rfl, waits, empty⟩ := quiet
  cases op with
  | execmd basic u a b y =>
    have fit : Fit l v code (setup l a b y (basic ram)) u x := expected
    rcases fit.command with reads | writes
    · obtain ⟨ram', sent', there, ends⟩ :=
        @Fit.ends_of_read l v keyin code _ sent polls u x fit reads waits empty
      refine ⟨⟨⟨ram', sent', []⟩, polls,
        { x with hdbDos := some _, sectors := x.sectors + 1 }⟩, ⟨rfl, waits, empty⟩,
        ⟨rfl, there, fun writes => ?_⟩, ends⟩
      exact absurd (reads.symm.trans writes) (by decide)
    · obtain ⟨sent', there, ends⟩ :=
        @Fit.ends_of_write l v keyin code _ sent polls u x fit writes waits empty
      refine ⟨⟨⟨header u (setup l a b y (basic ram)), sent', []⟩, polls,
        { x with hdbDos := some _, sectors := x.sectors + 1 }⟩, ⟨rfl, waits, empty⟩,
        ⟨rfl, there, fun _ => load_header fit.buffered⟩, ends⟩
  | inkey basic =>
    by_cases hijacked : (keyin polls (basic ram)).1 = HIJACK_KEY_ASCII
    · obtain ⟨installed, known, careful⟩ := expected hijacked
      have polled : keyin polls (basic ram) = (HIJACK_KEY_ASCII, (keyin polls (basic ram)).2) :=
        Prod.ext hijacked rfl
      have installed' := installed.keyin typed polls
      obtain ⟨sent₁, played⟩ := @play_inkeyTrapEach_of_hijack l v keyin code (basic ram) sent
        polls x _ polled installed' waits empty known
      obtain ⟨sent', polls', ram', mounts, carried, ends⟩ :=
        @carried_of_careful l v keyin code _ sent₁ (polls + 1)
          { x with hijacks := x.hijacks + 1 } _ careful typed installed' empty
      refine ⟨⟨⟨ram', sent', []⟩, polls', { x with
        waiting := .readFive, hijacks := x.hijacks + 1, hdbDos := x.hdbDos.map mounts }⟩,
        ⟨rfl, rfl, empty⟩, ?_, Goes.ends (.of_play played) ends⟩
      rw [Agreed]
      exact (if_pos hijacked).mpr ⟨mounts, rfl, carried⟩
    · refine ⟨⟨⟨(keyin polls (basic ram)).2, sent, []⟩, polls + 1, x⟩, ⟨rfl, waits, empty⟩, ?_,
        .of_play (play_inkeyTrapEach_of_other hijacked)⟩
      rw [Agreed]
      exact (if_neg hijacked).mpr ⟨rfl, rfl⟩

/-- Executed on the machine, what is expected ends as it should. -/
theorem step_of_expected (schedule : Nat → List Event) {s : Scene Machine Server}
    (typed : Typed l keyin) (idle : Idle s.here.world.chip) (quiet : Quiet s.streams) {op : Op}
    (expected : Expected l v keyin code s.streams op) :
    (∀ rounds t, step l v keyin code schedule rounds s op = some t →
      Idle t.here.world.chip ∧ Quiet t.streams ∧ Agreed l v keyin s.streams t.streams op) ∧
    (Lively schedule → ∃ rounds t, step l v keyin code schedule rounds s op = some t) := by
  obtain ⟨t, quiet', agreed, ends⟩ := ends_of_expected typed quiet expected
  obtain ⟨same, returns⟩ := @Ends.exec _ _ (around v keyin) schedule
    { s with here := { s.here with ram := op.prepare l s.here.ram } } (block l code) op.label t
    idle ends
  refine ⟨fun rounds t' done => ?_, returns⟩
  obtain ⟨idle', streams⟩ := same rounds rounds t' done
  exact ⟨idle', streams.symm ▸ quiet', streams.symm ▸ agreed⟩

/-- More rounds do no harm. -/
theorem step_add {schedule : Nat → List Event} {rounds : Nat} {s t : Scene Machine Server} {op : Op}
    (more : Nat) (done : step l v keyin code schedule rounds s op = some t) :
    step l v keyin code schedule (rounds + more) s op = some t :=
  execFrom_add more more done

end

def trapLayout : Layout where
  tcp1Read := 0xD900
  tcp1Write := 0xD980
  HIJACK_KEY_PACKET := 0xFB00
  program a := 0xD800 ≤ a ∧ a < 0xDA00 ∨ InkeyTrapInit ≤ a ∧ a < 0xFB00
  behind := by decide
  inside := by decide

/-- The packets are behind the code of the trap. -/
def trapRam : Ram :=
  setWord PTR_TO_TCP1READ 0xD900 <| setWord PTR_TO_TCP1WRITE 0xD980 <|
    store (fun a => UInt8.ofNat a) 0xFB00
      [CMD_HDBDOS_HIJACK, 1, 32, 0, 0, CMD_GETCHAR, 0, 0, 0, 0, CMD_PEEK2, 0, 0, 0, 0]

theorem installed_trapRam : Installed trapLayout trapRam := by
  refine ⟨?_, ?_, ?_, ?_⟩ <;> decide

/-- Somebody holds the CLEAR key down. -/
def clearKey : Nat → Ram → UInt8 × Ram := fun _ ram => (HIJACK_KEY_ASCII, ram)

theorem typed_clearKey : Typed trapLayout clearKey :=
  ⟨fun _ _ _ _ => rfl, fun polls => ⟨polls, le_refl _, fun _ => (by decide : HIJACK_KEY_ASCII ≠ 0)⟩⟩

/-- One more packet goes before every sector, and every hijack is the same. -/
def trapServing (nav : Nav) : Serving where
  outside := gameOutside
  fresh := newDriveSession (ascii "r") gameHost
  now _ := ascii "0102-150405"
  injected _ := [List.replicate (5 + 256) 0]
  sized _ bb member := by rw [List.mem_singleton.mp member, List.length_replicate]
  shell _ _ := nav

/-- The pointers of both rings are before their ends. -/
def edgeMachine : Machine where
  world := ⟨⟨fun _ => 0, 2046, 2046, 2046, 2047, 2047, 2047, 0, [], []⟩, 0⟩
  ram a := UInt8.ofNat a

theorem idle_edgeMachine : Idle edgeMachine.world.chip :=
  ⟨⟨by decide, by decide, by decide, by decide, by decide, by decide⟩, rfl, rfl⟩

/-- No code is injected. -/
def noCode : Nat → Ram → Ram := fun _ ram => ram

def edgeScene (hdbDos : Option Session) : Scene Machine Server :=
  ⟨edgeMachine, 0, ⟨hdbDos, 0, 0, .readFive, []⟩⟩

/-- A `POKE` of the first byte of the packet that answers a `PEEK2`, and a `PEEK2`. -/
def spoiling : Nav := .pokeRam 0xFB0A [0] <| .peek2Ram 0x400 1 fun _ => .leave id

theorem lively_everyTurn : Lively everyTurn where
  transmits turn := ⟨turn, 1, le_refl _, by decide, List.mem_cons_self⟩
  arrives turn := ⟨turn, 1, le_refl _, by decide, List.mem_cons_of_mem _ List.mem_cons_self⟩

/-- The screen is changed, and what is there is looked at; then a key is waited for and shown. -/
def visiting : Nav :=
  .pokeRam 0x400 [1, 2, 3] <| .peek2Ram 0x3FE 6 fun bytes => .getCharFromKeyboard fun key =>
    .pokeRam 0x600 (key :: bytes.take 5) <| .leave id

/-- Nothing of the trap is in a region below its code. -/
theorem apart_of_low {addr n : Nat} (low : addr + n ≤ 0xD800) :
    ∀ i < n, ¬trapLayout.program ((addr + i) % SPACE) ∧ ¬trapLayout.Fixed ((addr + i) % SPACE) ∧
      ¬Port ((addr + i) % SPACE) := by
  intro i below
  have same : (addr + i) % SPACE = addr + i := Nat.mod_eq_of_lt (by rw [SPACE]; omega)
  simp only [same, trapLayout, Layout.Fixed, Layout.PEEK2_PACKET, Port, InkeyTrapInit,
    PTR_TO_TCP1READ]
  omega

theorem careful_visiting : visiting.Careful trapLayout := by
  refine ⟨⟨by decide, by decide, by decide⟩, apart_of_low (by decide),
    ⟨by decide, by decide, by decide⟩, fun i below => (apart_of_low (by decide) i below).2.2,
    fun bytes key => ?_⟩
  have few : (key :: bytes.take 5).length ≤ 6 := by
    rw [List.length_cons, List.length_take]
    omega
  exact ⟨⟨by decide, Nat.succ_pos _, few.trans (by decide)⟩,
    apart_of_low (le_trans (Nat.add_le_add_left few _) (by decide)), trivial⟩

/-- The buffer is at 0x600. -/
def sectorRam : Ram := setWord DCBPT 0x600 <| setByte IDNUM 0 fun a => UInt8.ofNat a

/-- The injected code changes the screen. -/
def splash : Nat → Ram → Ram := fun _ => setByte 0x4A0 0x20

theorem fit_sectorRam {a : UInt8} (kind : a = RBLK ∨ a = WBLK) {x : Server}
    (mounted : Mounted gameOutside (x.hdbDos.getD (newDriveSession (ascii "r") gameHost))) :
    Fit trapLayout (trapServing visiting) splash (setup trapLayout a 0 307 sectorRam) 0x7E00 x := by
  have command : setup trapLayout a 0 307 sectorRam VCMD = a := by
    rcases kind with rfl | rfl <;> decide
  have buffer : word (setup trapLayout a 0 307 sectorRam) DCBPT = 0x600 := by
    rcases kind with rfl | rfl <;> decide
  refine ⟨command.symm ▸ kind, ⟨by decide, by decide⟩, ?_, ?_, mounted, by decide,
    fun m _ ram' _ => word_congr (setByte_of_ne (by decide) _) (setByte_of_ne (by decide) _)⟩
  · rw [buffer]
    refine ⟨by decide, by decide, by decide, fun i below => ?_⟩
    have apart := apart_of_low (show 0x600 + 256 ≤ 0xD800 by decide) i below
    rw [Nat.mod_eq_of_lt (by rw [SPACE]; omega)] at apart
    exact ⟨apart.1, apart.2.2⟩
  · rw [lsnBig_request, load_setup]
    exact show lsnBig [0, sectorRam IDNUM, 0, hi 307, lo 307] < 6300 by decide

/-- A sector is written and read, and the machine is hijacked. -/
def visitOps : List Op :=
  [.execmd (fun _ => sectorRam) 0x7E00 WBLK 0 307, .execmd (fun _ => sectorRam) 0x7E00 RBLK 0 307,
    .inkey fun _ => trapRam]

/-- The drives of the server have images after a sector. -/
theorem mounted_of_step {l : Layout} {v : Serving} {keyin : Nat → Ram → UInt8 × Ram}
    {code : Nat → Ram → Ram} {schedule : Nat → List Event} {rounds : Nat}
    {s t : Scene Machine Server} {basic : Ram → Ram} {u : Nat} {a b : UInt8} {x : Nat}
    (typed : Typed l keyin) (idle : Idle s.here.world.chip) (quiet : Quiet s.streams)
    (done : step l v keyin code schedule rounds s (.execmd basic u a b x) = some t)
    (fit : Fit l v code (setup l a b x (basic s.here.ram)) u s.peer) :
    Idle t.here.world.chip ∧ Quiet t.streams ∧
      ∃ session, t.peer.hdbDos = some session ∧ Mounted v.outside session := by
  have expected : Expected l v keyin code s.streams (.execmd basic u a b x) := fit
  obtain ⟨idle', quiet', agreed⟩ :=
    (step_of_expected schedule typed idle quiet expected).1 rounds t done
  exact ⟨idle', quiet', _, agreed.1, fit.served.2⟩

theorem mounted_newDriveSession (o : Outside) (retain : Text) (host : Text → Option Text) :
    Mounted o (newDriveSession retain host) := by
  refine (allSound_newDriveSession retain host).mounted fun nth d there => ?_
  cases there

theorem expected_visitOps (rounds : Nat) :
    Meets (step trapLayout (trapServing visiting) clearKey splash everyTurn rounds)
      (fun s op => Expected trapLayout (trapServing visiting) clearKey splash s.streams op)
      (edgeScene none) visitOps := by
  have fit := @fit_sectorRam WBLK (.inr rfl) (edgeScene none).peer (mounted_newDriveSession ..)
  refine ⟨fit, fun t wrote => ?_⟩
  obtain ⟨idle, quiet, session, there, mounted⟩ :=
    mounted_of_step typed_clearKey idle_edgeMachine ⟨rfl, rfl, rfl⟩ wrote fit
  have fit' : Fit trapLayout (trapServing visiting) splash (setup trapLayout RBLK 0 307 sectorRam)
      0x7E00 t.peer := fit_sectorRam (.inl rfl) (by rw [there]; exact mounted)
  refine ⟨fit', fun t' read => ?_⟩
  obtain ⟨-, -, session', there', -⟩ := mounted_of_step typed_clearKey idle quiet read fit'
  refine ⟨fun _ => ⟨installed_trapRam, ?_, careful_visiting⟩, fun _ _ => trivial⟩
  show t'.peer.hdbDos ≠ none
  rw [there']
  exact Option.some_ne_none _

end Frobio.Wire
