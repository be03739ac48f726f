/-
This file models how HDB-DOS and the server talk. On one side are `SETUP` and `EXECMD` of
`hdbdos/lemma_hdb.asm` and the trap of `hdbdos/inkey_trap.asm`. On the other side are the cases of
`ReadFiveLoop` of `lemma/waiter.go` for HDB-DOS, `HdbDosSector` and `HdbDosHijack` of
`lemma/hdbdos.go`, and what the navigator calls: `PokeRam`, `Peek2Ram` and `GetCharFromKeyboard`.

The code of the CoCo is not read from its memory, but the pointers, the packets and the arguments
that the code finds there are. The memory is what is at each address, and the registers of the
memory map are cells like others.
-/

import Frobio.HdbDos.Drives
import Frobio.Tcp1.Routine

namespace Frobio.Wire

open Coms HdbDos Tcp1 Memory Frobio.Ring Axcore SlashPath

def CMD_GETCHAR : UInt8 := 192
def CMD_PEEK2 : UInt8 := 195
def CMD_HDBDOS_HIJACK : UInt8 := 221
def CMD_CALL : UInt8 := 255

/-! ### Memory -/

def DCBPT : Nat := 0xEE
def DCSTAT : Nat := 0xF0
def VCMD : Nat := 0xF3
def IDNUM : Nat := 0x151
def CASBUF : Nat := 0x01DA
def MYBUF : Nat := CASBUF + 60
def PTR_TO_TCP1READ : Nat := 0xFA0C
def PTR_TO_TCP1WRITE : Nat := 0xFA0E

def RBLK : UInt8 := 2
def WBLK : UInt8 := 3

def HIJACK_KEY_ASCII : UInt8 := 12

/-- The fields of `vars`. -/
def h_cmd : Nat := 14
def h_len : Nat := 15
def h_param : Nat := 17
def h_drive_cmd : Nat := 19
def h_drive_num : Nat := 20
def h_lsn1 : Nat := 22
def sizeofVars : Nat := 24

def word (ram : Ram) (a : Nat) : Nat := hiLo (ram a) (ram (a + 1))

def setByte (a : Nat) (byte : UInt8) (ram : Ram) : Ram := Function.update ram a byte

def setWord (a d : Nat) (ram : Ram) : Ram := setByte (a + 1) (lo d) (setByte a (hi d) ram)

/-- Where the parts of the programs are. The three packets are one after the other, behind the code
of the trap. -/
structure Layout where
  tcp1Read : Nat
  tcp1Write : Nat
  HIJACK_KEY_PACKET : Nat
  /-- The cells of the code and of the stack. -/
  program : Nat → Prop
  behind : InkeyTrapInit ≤ HIJACK_KEY_PACKET
  inside : HIJACK_KEY_PACKET + 15 ≤ SPACE

def Layout.GETCHAR_PACKET (l : Layout) : Nat := l.HIJACK_KEY_PACKET + 5

def Layout.PEEK2_PACKET (l : Layout) : Nat := l.HIJACK_KEY_PACKET + 10

/-! ### The CoCo -/

/-- Labels of the code, and with `EXECMD` where the frame of its variables is. -/
inductive Label
  | execmd (u : Nat)
  | readSector (u : Nat)
  | inkeyTrapEach
  | serveHijack
  | doGetchar

section

variable (l : Layout)

/-- `SETUP`, with A, B and X. -/
def setup (a b : UInt8) (x : Nat) (ram : Ram) : Ram :=
  let ram := setByte VCMD a ram
  let ram := setWord (VCMD + 1) (hiLo (ram IDNUM) b) ram
  let ram := setWord (VCMD + 3) x ram
  let ram := setWord PTR_TO_TCP1READ l.tcp1Read ram
  setWord PTR_TO_TCP1WRITE l.tcp1Write ram

/-- The header of `EXECMD`. -/
def header (u : Nat) (ram : Ram) : Ram :=
  let ram := setWord (u + h_len) (if ram VCMD = WBLK then 256 + 5 else 5) ram
  let ram := setByte (u + h_cmd) CMD_HDBDOS_SECTOR ram
  let ram := setWord (u + h_param) (word ram DCBPT) ram
  let ram := setByte DCSTAT 0 ram
  let ram := setWord (u + h_drive_num) (word ram (VCMD + 1)) ram
  let ram := setWord (u + h_lsn1) (word ram (VCMD + 3)) ram
  setByte (u + h_drive_cmd) (ram VCMD) ram

/-- `jsr [PTR_TO_TCP1READ]`. What another address would run is not known. -/
def jsrRead (x y : Nat) (next : Routine Label) : Routine Label :=
  .look fun ram => if word ram PTR_TO_TCP1READ = l.tcp1Read then .read x y next else .stuck

def jsrWrite (x y : Nat) (next : Routine Label) : Routine Label :=
  .look fun ram => if word ram PTR_TO_TCP1WRITE = l.tcp1Write then .write x y next else .stuck

/-- The code of HDB-DOS and of the trap. The code at an address that is injected, or called, does
something to the memory and returns. -/
def block (code : Nat → Ram → Ram) : Label → Routine Label
  | .execmd u =>
    .change (header u) <| .write (u + h_cmd) 10 <| .look fun ram =>
      if ram VCMD = WBLK then .write (word ram DCBPT) 256 .rts else .bra (.readSector u)
  | .readSector u =>
    .read (u + h_cmd) 10 <| .look fun ram => .read (word ram DCBPT) 256 <| .look fun ram =>
      if ram (u + h_cmd) = CMD_HDBDOS_SECTOR then .rts
      else if ram (u + h_cmd) = CMD_HDBDOS_EXEC then
        .change (code (word ram DCBPT)) <| .bra (.readSector u)
      -- badReadCmd: get stuck if unexpected cmd
      else .stuck
  | .inkeyTrapEach =>
    .keyin fun key =>
      if key = HIJACK_KEY_ASCII then
        jsrWrite l l.HIJACK_KEY_PACKET 5 <| jsrWrite l 0x0000 256 <| jsrWrite l 0xFFA0 32 <|
          .bra .serveHijack
      else .rts
  | .serveHijack =>
    jsrRead l MYBUF 5 <| .look fun ram =>
      if ram MYBUF = CMD_HDBDOS_HIJACK then .rts
      else if ram MYBUF = CMD_PEEK2 then
        jsrRead l CASBUF 4 <|
          .change (fun ram => setWord (l.PEEK2_PACKET + 1) (word ram CASBUF) ram) <|
          .change (fun ram => setWord (l.PEEK2_PACKET + 3) (word ram (CASBUF + 2)) ram) <|
          jsrWrite l l.PEEK2_PACKET 5 <| .look fun ram =>
            jsrWrite l (word ram (CASBUF + 2)) (word ram CASBUF) <| .bra .serveHijack
      else if ram MYBUF = CMD_POKE then
        jsrRead l (word ram (MYBUF + 3)) (word ram (MYBUF + 1)) <| .bra .serveHijack
      else if ram MYBUF = CMD_GETCHAR then .bra .doGetchar
      else if ram MYBUF = CMD_CALL then
        .change (code (word ram (MYBUF + 3))) <| .bra .serveHijack
      -- splash junk on the screen, to show it
      else jsrRead l 0x0400 (word ram (MYBUF + 1)) <| .bra .serveHijack
  | .doGetchar =>
    .keyin fun key =>
      -- keep looking while no key
      if key = 0 then .bra .doGetchar
      else
        .change (setByte (l.GETCHAR_PACKET + 4) key) <| jsrWrite l l.GETCHAR_PACKET 5 <|
          .bra .serveHijack

end

/-! ### The server -/

/-- What the navigator does from here on. At last it has mounted some drives. -/
inductive Nav
  | leave (mounts : Session → Session)
  | pokeRam (addr : Nat) (data : List UInt8) (next : Nav)
  | peek2Ram (addr n : Nat) (next : List UInt8 → Nav)
  | getCharFromKeyboard (next : UInt8 → Nav)

/-- What the server waits for. -/
inductive Waiting
  | readFive
  | peek2Ram (n : Nat) (next : List UInt8 → Nav)
  | getCharFromKeyboard (next : UInt8 → Nav)
  | panicked

structure Server where
  /-- `ses.HdbDos`. -/
  hdbDos : Option Session
  /-- How many sectors and hijacks it was asked for. -/
  sectors : Nat
  hijacks : Nat
  waiting : Waiting
  /-- The bytes that have been sent to it and that it has not read. -/
  unread : List UInt8

structure Serving where
  outside : Outside
  /-- What `NewDriveSession` makes. -/
  fresh : Session
  now : Nat → Text
  /-- More packets that are injected before the sector is sent. -/
  injected : Nat → List Text
  sized : ∀ i, ∀ bb ∈ injected i, bb.length = 5 + 256
  /-- The shell that runs on a hijack, with the payload of the request. -/
  shell : Nat → List UInt8 → Nav

def Server.panic (x : Server) : Server := { x with waiting := .panicked }

/-- The navigator goes on: what it sends until it waits for an answer. -/
def Server.navigate : Nav → Server → Server × List UInt8
  | .leave mounts, x =>
    ({ x with waiting := .readFive, hdbDos := x.hdbDos.map mounts },
      (Message.of CMD_HDBDOS_HIJACK 0 []).bytes)
  | .pokeRam addr data next, x =>
    let later := navigate next x
    (later.1, (Message.of CMD_POKE addr data).bytes ++ later.2)
  | .peek2Ram addr n next, x =>
    ({ x with waiting := .peek2Ram n next },
      [CMD_PEEK2, 0, 4, 0, 0, hi n, lo n, hi addr, lo addr])
  | .getCharFromKeyboard next, x =>
    ({ x with waiting := .getCharFromKeyboard next }, (Message.of CMD_GETCHAR 0 []).bytes)

/-- `GetCharFromKeyboard` makes ESCAPE a BREAK. -/
def charOf (z : UInt8) : UInt8 := if z = 27 then 3 else z

section

variable (v : Serving)

/-- `HdbDosSector`, with the packets to inject. -/
def Server.hdbDosSector (x : Server) (payload : List UInt8) : Server × List UInt8 :=
  let session := x.hdbDos.getD v.fresh
  let result := HdbDos.hdbDosSector v.outside session payload (v.now x.sectors)
  let y := { x with hdbDos := some result.1, sectors := x.sectors + 1 }
  match result.2 with
  | none => (y.panic, [])
  | some [] => (y, [])
  | some messages =>
    (y, ((v.injected x.sectors).map (Message.of CMD_HDBDOS_EXEC 0) ++ messages).flatMap
      Message.bytes)

/-- `HdbDosHijack`. There is no session before the first sector, and the navigator looks at the
first 288 bytes of the payload. -/
def Server.hdbDosHijack (x : Server) (payload : List UInt8) : Server × List UInt8 :=
  let y := { x with hijacks := x.hijacks + 1 }
  if x.hdbDos = none ∨ payload.length < 256 + 32 then (y.panic, [])
  else y.navigate (v.shell x.hijacks payload)

/-- Read what is waited for, if it is there, and go on until something else is waited for. What is
done with other commands is left out, as HDB-DOS sends only these two. -/
def Server.reads (x : Server) : Option (Server × List UInt8) :=
  match x.waiting with
  | .panicked => none
  | .readFive =>
    (readQuintAndPayload x.unread).map fun (m, rest) =>
      let y := { x with unread := rest }
      if m.command = CMD_HDBDOS_SECTOR then y.hdbDosSector v m.payload
      else if m.command = CMD_HDBDOS_HIJACK then y.hdbDosHijack v m.payload
      else (y.panic, [])
  | .peek2Ram n next =>
    (readQuint x.unread).bind fun (q, rest) =>
      if q.command ≠ CMD_PEEK2 ∨ q.n ≠ n then some ({ x with unread := rest }.panic, [])
      else (readFull n rest).map fun (z, rest) => { x with unread := rest }.navigate (next z)
  | .getCharFromKeyboard next =>
    (readQuint x.unread).map fun (q, rest) =>
      let y := { x with unread := rest }
      if q.command ≠ CMD_GETCHAR then (y.panic, []) else y.navigate (next (charOf (lo q.p)))

/-- Read on until what is waited for is not there. -/
def Server.serve : Nat → Server → Server × List UInt8
  | 0, x => (x, [])
  | count + 1, x =>
    match x.reads v with
    | none => (x, [])
    | some (y, bytes) =>
      let later := serve count y
      (later.1, bytes ++ later.2)

/-- The server gets more bytes. Whatever it reads has five bytes or more. -/
def Server.hears (x : Server) (bytes : List UInt8) : Server × List UInt8 :=
  let unread := x.unread ++ bytes
  Server.serve v unread.length { x with unread }

end

/-! ### The law of a hijack -/

/-- The registers of the chip. -/
def Port (a : Nat) : Prop := 0xFF68 ≤ a ∧ a ≤ 0xFF6B

/-- The cells that the trap relies on: the pointers and what does not change in the packets. -/
def Layout.Fixed (l : Layout) (a : Nat) : Prop :=
  PTR_TO_TCP1READ ≤ a ∧ a < PTR_TO_TCP1READ + 4 ∨
    l.HIJACK_KEY_PACKET ≤ a ∧ a < l.HIJACK_KEY_PACKET + 9 ∨ a = l.PEEK2_PACKET

/-- The trap is in place. -/
structure Installed (l : Layout) (ram : Ram) : Prop where
  read : word ram PTR_TO_TCP1READ = l.tcp1Read
  write : word ram PTR_TO_TCP1WRITE = l.tcp1Write
  packets : load ram l.HIJACK_KEY_PACKET 9 = [CMD_HDBDOS_HIJACK, 1, 32, 0, 0, CMD_GETCHAR, 0, 0, 0]
  peek2 : ram l.PEEK2_PACKET = CMD_PEEK2

/-- The keyboard is polled until there is a key. -/
inductive Pressed (keyin : Nat → Ram → UInt8 × Ram) : Nat → Ram → UInt8 → Nat → Ram → Prop
  | now {polls : Nat} {ram : Ram} (pressed : (keyin polls ram).1 ≠ 0) :
    Pressed keyin polls ram (keyin polls ram).1 (polls + 1) (keyin polls ram).2
  | later {polls polls' : Nat} {ram ram' : Ram} {key : UInt8} (idle : (keyin polls ram).1 = 0)
    (pressed : Pressed keyin (polls + 1) (keyin polls ram).2 key polls' ram') :
    Pressed keyin polls ram key polls' ram'

/-- The trap has a command in its buffer. -/
def noted (q : Quint) (ram : Ram) : Ram := put 0 SPACE ram MYBUF q.bytes

/-- The trap has the arguments of a `PEEK2` in its buffer and in its packet. -/
def asked (l : Layout) (addr n : Nat) (ram : Ram) : Ram :=
  setWord (l.PEEK2_PACKET + 3) addr <| setWord (l.PEEK2_PACKET + 1) n <|
    put 0 SPACE (noted ⟨CMD_PEEK2, 0, 4, 0, 0⟩ ram) CASBUF [hi n, lo n, hi addr, lo addr]

/-- What the navigator does, with nothing between it and the memory of the CoCo: a `POKE` changes
its region, a `PEEK2` gives its region, a `GETCHAR` gives the next key, and besides only the trap's
buffers change and what `KEYIN` changes. -/
inductive Carried (l : Layout) (keyin : Nat → Ram → UInt8 × Ram) :
    Nav → Nat → Ram → Nat → Ram → (Session → Session) → Prop
  | leave {polls : Nat} {ram : Ram} {mounts : Session → Session} :
    Carried l keyin (.leave mounts) polls ram polls
      (noted (newQuint CMD_HDBDOS_HIJACK 0 0) ram) mounts
  | pokeRam {addr polls polls' : Nat} {data : List UInt8} {next : Nav} {ram ram' : Ram}
    {mounts : Session → Session}
    (rest : Carried l keyin next polls
      (put 0 SPACE (noted (newQuint CMD_POKE data.length addr) ram) addr data) polls' ram' mounts) :
    Carried l keyin (.pokeRam addr data next) polls ram polls' ram' mounts
  | peek2Ram {addr n polls polls' : Nat} {next : List UInt8 → Nav} {ram ram' : Ram}
    {mounts : Session → Session}
    (rest : Carried l keyin (next (window 0 SPACE (asked l addr n ram) addr n)) polls
      (asked l addr n ram) polls' ram' mounts) :
    Carried l keyin (.peek2Ram addr n next) polls ram polls' ram' mounts
  | getCharFromKeyboard {polls polls' polls'' : Nat} {next : UInt8 → Nav} {key : UInt8}
    {ram ram' ram'' : Ram} {mounts : Session → Session}
    (pressed : Pressed keyin polls (noted (newQuint CMD_GETCHAR 0 0) ram) key polls' ram')
    (rest : Carried l keyin (next (charOf key)) polls'
      (setByte (l.GETCHAR_PACKET + 4) key ram') polls'' ram'' mounts) :
    Carried l keyin (.getCharFromKeyboard next) polls ram polls'' ram'' mounts

/-- The regions are of 1 to 2048 bytes. What is poked is apart from the program's cells, and no
region reaches the registers of the chip. -/
def Nav.Careful (l : Layout) : Nav → Prop
  | .leave _ => True
  | .pokeRam addr data next =>
    (addr < SPACE ∧ 0 < data.length ∧ data.length ≤ RING_SIZE) ∧
      (∀ i < data.length, ¬l.program ((addr + i) % SPACE) ∧ ¬l.Fixed ((addr + i) % SPACE) ∧
        ¬Port ((addr + i) % SPACE)) ∧ next.Careful l
  | .peek2Ram addr n next =>
    (addr < SPACE ∧ 0 < n ∧ n ≤ RING_SIZE) ∧ (∀ i < n, ¬Port ((addr + i) % SPACE)) ∧
      ∀ bytes, (next bytes).Careful l
  | .getCharFromKeyboard next => ∀ key, (next key).Careful l

/-- `KEYIN` leaves the trap alone, and keys are pressed again and again. -/
structure Typed (l : Layout) (keyin : Nat → Ram → UInt8 × Ram) : Prop where
  spares : ∀ polls ram a, l.Fixed a → (keyin polls ram).2 a = ram a
  pressed : ∀ polls, ∃ later ≥ polls, ∀ ram, (keyin later ram).1 ≠ 0

section

variable {l : Layout} {ram ram' : Ram}

/-! ### Cells -/

theorem setByte_of_ne {a b : Nat} (apart : b ≠ a) (byte : UInt8) : setByte a byte ram b = ram b :=
  Function.update_of_ne apart ..

@[simp] theorem setByte_self (a : Nat) (byte : UInt8) : setByte a byte ram a = byte :=
  Function.update_self ..

theorem setWord_of_ne {a b : Nat} (apart : b ≠ a ∧ b ≠ a + 1) (d : Nat) :
    setWord a d ram b = ram b := by
  rw [setWord, setByte_of_ne apart.2, setByte_of_ne apart.1]

theorem setWord_first (a d : Nat) : setWord a d ram a = hi d := by
  rw [setWord, setByte_of_ne (Nat.ne_of_lt (Nat.lt_succ_self a)), setByte_self]

theorem setWord_second (a d : Nat) : setWord a d ram (a + 1) = lo d := setByte_self ..

theorem word_congr {a : Nat} (first : ram' a = ram a) (second : ram' (a + 1) = ram (a + 1)) :
    word ram' a = word ram a := by
  rw [word, first, second, word]

theorem window_eq_load {x n : Nat} (some : 0 < n) (inside : x + n ≤ SPACE) :
    window 0 SPACE ram x n = load ram x n := by
  rw [← get_eq_window (by omega) (by omega), get_eq_load inside, Nat.zero_add]

theorem put_of_lt {x a : Nat} {data : List UInt8} (inside : x + data.length ≤ SPACE)
    (before : a < x) : put 0 SPACE ram x data a = ram a := by
  rw [put_eq_store inside, Nat.zero_add]
  exact store_apply_of_before _ _ before

theorem put_of_le {x a : Nat} {data : List UInt8} (inside : x + data.length ≤ SPACE)
    (after : x + data.length ≤ a) : put 0 SPACE ram x data a = ram a := by
  rw [put_eq_store inside, Nat.zero_add]
  exact store_apply_of_after _ after

theorem put_self {x i : Nat} {data : List UInt8} (inside : x + data.length ≤ SPACE)
    (here : i < data.length) : put 0 SPACE ram x data (x + i) = data[i] := by
  rw [put_eq_store inside, Nat.zero_add]
  exact store_apply_of_lt _ here

/-- A region leaves the cells alone that it does not reach. -/
theorem put_of_apart {x a : Nat} {data : List UInt8} (inside : x < SPACE) (low : a < SPACE)
    (apart : ∀ i < data.length, (x + i) % SPACE ≠ a) : put 0 SPACE ram x data a = ram a := by
  obtain ⟨i, round, here⟩ := exists_position inside (Nat.zero_le a) (by omega)
  have beyond : data.length ≤ i := by
    by_contra reached
    exact apart i (Nat.not_le.mp reached) (by omega)
  rw [here]
  exact put_apply_of_le inside beyond round

/-! ### The trap's buffers -/

theorem noted_apply (ram : Ram) (q : Quint) {i : Nat} (here : i < 5) :
    noted q ram (MYBUF + i) = q.bytes[i] := put_self (show MYBUF + 5 ≤ SPACE by decide) here

theorem noted_of_high (q : Quint) {a : Nat} (high : MYBUF + 5 ≤ a) : noted q ram a = ram a :=
  put_of_le (show MYBUF + 5 ≤ SPACE by decide) high

theorem command_noted (q : Quint) : noted q ram MYBUF = q.command :=
  noted_apply ram q (i := 0) (by decide)

theorem n_noted (q : Quint) : word (noted q ram) (MYBUF + 1) = q.n := by
  have first := noted_apply ram q (i := 1) (by decide)
  have second := noted_apply ram q (i := 2) (by decide)
  rw [word, first, show MYBUF + 1 + 1 = MYBUF + 2 from rfl, second]
  rfl

theorem p_noted (q : Quint) : word (noted q ram) (MYBUF + 3) = q.p := by
  have first := noted_apply ram q (i := 3) (by decide)
  have second := noted_apply ram q (i := 4) (by decide)
  rw [word, first, show MYBUF + 3 + 1 = MYBUF + 4 from rfl, second]
  rfl

/-! ### The trap stays in place -/

theorem Layout.Fixed.high {a : Nat} (fixed : l.Fixed a) : PTR_TO_TCP1READ ≤ a ∧ a < SPACE := by
  have behind := l.behind
  have inside := l.inside
  simp only [Layout.Fixed, Layout.PEEK2_PACKET, PTR_TO_TCP1READ, InkeyTrapInit, SPACE] at *
  omega

theorem Installed.congr (installed : Installed l ram) (same : ∀ a, l.Fixed a → ram' a = ram a) :
    Installed l ram' := by
  have pointer : ∀ i < 4, ram' (PTR_TO_TCP1READ + i) = ram (PTR_TO_TCP1READ + i) :=
    fun i below => same _ (.inl ⟨Nat.le_add_right _ _, Nat.add_lt_add_left below _⟩)
  have packet : ∀ i < 9, ram' (l.HIJACK_KEY_PACKET + i) = ram (l.HIJACK_KEY_PACKET + i) :=
    fun i below => same _ (.inr (.inl ⟨Nat.le_add_right _ _, Nat.add_lt_add_left below _⟩))
  refine ⟨?_, ?_, (load_congr packet).trans installed.packets,
    (same _ (.inr (.inr rfl))).trans installed.peek2⟩
  · exact (word_congr (pointer 0 (by decide)) (pointer 1 (by decide))).trans installed.read
  · exact (word_congr (pointer 2 (by decide)) (pointer 3 (by decide))).trans installed.write

theorem Installed.noted (installed : Installed l ram) (q : Quint) : Installed l (noted q ram) :=
  installed.congr fun a fixed => noted_of_high q (le_trans (by decide) fixed.high.1)

theorem asked_of_fixed (addr n : Nat) {a : Nat} (fixed : l.Fixed a) :
    asked l addr n ram a = ram a := by
  have apart : a < l.PEEK2_PACKET + 1 := by
    have behind := l.behind
    simp only [Layout.Fixed, Layout.PEEK2_PACKET, PTR_TO_TCP1READ, InkeyTrapInit] at *
    omega
  rw [asked, setWord_of_ne (by omega), setWord_of_ne (by omega),
    put_of_le (show CASBUF + 4 ≤ SPACE by decide)
      (le_trans (show CASBUF + 4 ≤ PTR_TO_TCP1READ by decide) fixed.high.1),
    noted_of_high _ (le_trans (by decide) fixed.high.1)]

theorem Installed.asked (installed : Installed l ram) (addr n : Nat) :
    Installed l (asked l addr n ram) :=
  installed.congr fun _ fixed => asked_of_fixed addr n fixed

theorem Installed.setKey (installed : Installed l ram) (key : UInt8) :
    Installed l (setByte (l.GETCHAR_PACKET + 4) key ram) := by
  refine installed.congr fun a fixed => setByte_of_ne ?_ key
  have behind := l.behind
  simp only [Layout.Fixed, Layout.PEEK2_PACKET, Layout.GETCHAR_PACKET, PTR_TO_TCP1READ,
    InkeyTrapInit] at *
  omega

/-- The region of a careful `POKE` leaves the trap alone. -/
theorem Installed.poke (installed : Installed l ram) {addr : Nat} {data : List UInt8}
    (inside : addr < SPACE)
    (apart : ∀ i < data.length, ¬l.Fixed ((addr + i) % SPACE)) :
    Installed l (put 0 SPACE ram addr data) :=
  installed.congr fun _ fixed => put_of_apart inside fixed.high.2
    fun i below same => apart i below (same ▸ fixed)

theorem Installed.keyin {keyin : Nat → Ram → UInt8 × Ram} (installed : Installed l ram)
    (typed : Typed l keyin) (polls : Nat) : Installed l (keyin polls ram).2 :=
  installed.congr fun a fixed => typed.spares polls ram a fixed

/-! ### What the trap sends -/

theorem window_hijackKeyPacket (installed : Installed l ram) :
    window 0 SPACE ram l.HIJACK_KEY_PACKET 5 = [CMD_HDBDOS_HIJACK, 1, 32, 0, 0] := by
  have inside := l.inside
  rw [window_eq_load (by decide) (by omega), ← take_load ram _ (show 5 ≤ 9 by decide),
    installed.packets]
  rfl

theorem window_getcharPacket (installed : Installed l ram) (key : UInt8) :
    window 0 SPACE (setByte (l.GETCHAR_PACKET + 4) key ram) l.GETCHAR_PACKET 5 =
      [CMD_GETCHAR, 0, 0, 0, key] := by
  have inside := l.inside
  have four : load (setByte (l.GETCHAR_PACKET + 4) key ram) l.GETCHAR_PACKET 4 =
      (load ram l.HIJACK_KEY_PACKET 9).drop 5 := by
    rw [load_add ram l.HIJACK_KEY_PACKET 5 4, List.drop_left' (length_load ..)]
    refine load_congr fun i below => ?_
    exact setByte_of_ne (by omega) key
  rw [installed.packets] at four
  rw [window_eq_load (by decide) (by rw [Layout.GETCHAR_PACKET]; omega), load_add _ _ 4 1, four]
  show [CMD_GETCHAR, 0, 0, 0] ++ [setByte (l.GETCHAR_PACKET + 4) key ram (l.GETCHAR_PACKET + 4)] = _
  rw [setByte_self]
  rfl

theorem arguments_asked (l : Layout) (ram : Ram) {addr n : Nat} (small : addr < 65536)
    (few : n < 65536) :
    word (asked l addr n ram) CASBUF = n ∧ word (asked l addr n ram) (CASBUF + 2) = addr := by
  have behind := l.behind
  have low : ∀ i < 4,
      asked l addr n ram (CASBUF + i) = [hi n, lo n, hi addr, lo addr].getD i 0 := by
    intro i below
    have apart : CASBUF + i < l.PEEK2_PACKET + 1 := by
      simp only [Layout.PEEK2_PACKET, InkeyTrapInit, CASBUF] at *
      omega
    rw [asked, setWord_of_ne (by omega), setWord_of_ne (by omega),
      put_self (show CASBUF + 4 ≤ SPACE by decide) below, List.getD_eq_getElem?_getD,
      List.getElem?_eq_getElem below, Option.getD_some]
  have first : word (asked l addr n ram) CASBUF = hiLo (hi n) (lo n) :=
    congrArg₂ hiLo (low 0 (by decide)) (low 1 (by decide))
  have second : word (asked l addr n ram) (CASBUF + 2) = hiLo (hi addr) (lo addr) :=
    congrArg₂ hiLo (low 2 (by decide)) (low 3 (by decide))
  rw [first, second, hiLo_hi_lo, hiLo_hi_lo, Nat.mod_eq_of_lt small, Nat.mod_eq_of_lt few]
  exact ⟨rfl, rfl⟩

theorem window_peek2Packet (l : Layout) (ram : Ram) (addr n : Nat) :
    window 0 SPACE (asked l addr n ram) l.PEEK2_PACKET 5 =
      [ram l.PEEK2_PACKET, hi n, lo n, hi addr, lo addr] := by
  have inside := l.inside
  have first : asked l addr n ram l.PEEK2_PACKET = ram l.PEEK2_PACKET :=
    asked_of_fixed addr n (.inr (.inr rfl))
  rw [window_eq_load (by decide) (by rw [Layout.PEEK2_PACKET]; omega)]
  show [asked l addr n ram l.PEEK2_PACKET, asked l addr n ram (l.PEEK2_PACKET + 1),
    asked l addr n ram (l.PEEK2_PACKET + 2), asked l addr n ram (l.PEEK2_PACKET + 3),
    asked l addr n ram (l.PEEK2_PACKET + 4)] = _
  have second : asked l addr n ram (l.PEEK2_PACKET + 1) = hi n := by
    rw [asked, setWord_of_ne (by omega), setWord_first]
  have third : asked l addr n ram (l.PEEK2_PACKET + 2) = lo n := by
    rw [asked, setWord_of_ne (by omega)]
    exact setWord_second ..
  have fourth : asked l addr n ram (l.PEEK2_PACKET + 3) = hi addr := setWord_first ..
  have fifth : asked l addr n ram (l.PEEK2_PACKET + 4) = lo addr := setWord_second ..
  rw [first, second, third, fourth, fifth]

end

/-! ### What the server reads -/

section

variable {v : Serving} {x y : Server} {bytes sent : List UInt8}

theorem reads_of_nil (empty : x.unread = []) : x.reads v = none := by
  rw [Server.reads, empty]
  cases x.waiting with
  | readFive => rfl
  | peek2Ram n next => rfl
  | getCharFromKeyboard next => rfl
  | panicked => rfl

/-- A message that has all come is answered. -/
theorem hears_of_reads (reads : ({ x with unread := x.unread ++ sent }).reads v = some (y, bytes))
    (all : y.unread = []) : x.hears v sent = (y, bytes) := by
  rw [Server.hears]
  cases length : (x.unread ++ sent).length with
  | zero =>
    rw [List.length_eq_zero_iff.mp length, reads_of_nil rfl] at reads
    cases reads
  | succ count =>
    have later : Server.serve v count y = (y, []) := by
      cases count with
      | zero => rfl
      | succ count =>
        rw [Server.serve, reads_of_nil all]
    rw [Server.serve, reads]
    dsimp only
    rw [later, List.append_nil]

/-- A message that has not all come waits. -/
theorem hears_of_none (reads : ({ x with unread := x.unread ++ sent }).reads v = none) :
    x.hears v sent = ({ x with unread := x.unread ++ sent }, []) := by
  rw [Server.hears]
  cases (x.unread ++ sent).length with
  | zero => rfl
  | succ count => rw [Server.serve, reads]

@[simp] theorem unread_navigate (nav : Nav) (x : Server) :
    (x.navigate nav).1.unread = x.unread := by
  induction nav generalizing x with
  | leave mounts => rfl
  | pokeRam addr data next inductionHypothesis => exact inductionHypothesis x
  | peek2Ram addr n next => rfl
  | getCharFromKeyboard next => rfl

end

/-! ### The trap and the navigator -/

def around (v : Serving) (keyin : Nat → Ram → UInt8 × Ram) : Around Server :=
  ⟨Server.hears v, keyin⟩

section

variable {l : Layout} {v : Serving} {keyin : Nat → Ram → UInt8 × Ram} {code : Nat → Ram → Ram}
  {ram : Ram} {sent rest : List UInt8} {polls : Nat} {x : Server}

theorem play_jsrRead {next : Routine Label} {a b : Nat}
    (there : word ram PTR_TO_TCP1READ = l.tcp1Read) :
    play (around v keyin) (jsrRead l a b next) ⟨⟨ram, sent, rest⟩, polls, x⟩ =
      play (around v keyin) (.read a b next) ⟨⟨ram, sent, rest⟩, polls, x⟩ := by
  rw [jsrRead, play_look, if_pos there]

theorem play_jsrWrite {next : Routine Label} {a b : Nat}
    (there : word ram PTR_TO_TCP1WRITE = l.tcp1Write) :
    play (around v keyin) (jsrWrite l a b next) ⟨⟨ram, sent, rest⟩, polls, x⟩ =
      play (around v keyin) (.write a b next) ⟨⟨ram, sent, rest⟩, polls, x⟩ := by
  rw [jsrWrite, play_look, if_pos there]

theorem play_doGetchar_of_idle (idle : (keyin polls ram).1 = 0) :
    play (around v keyin) (block l code .doGetchar) ⟨⟨ram, sent, rest⟩, polls, x⟩ =
      .ok (some .doGetchar, ⟨⟨(keyin polls ram).2, sent, rest⟩, polls + 1, x⟩) := by
  rw [block, play_keyin, around, if_pos idle]
  rfl

theorem play_doGetchar_of_pressed {key : UInt8} {ram' : Ram}
    (polled : keyin polls ram = (key, ram')) (pressed : key ≠ 0) (installed : Installed l ram') :
    play (around v keyin) (block l code .doGetchar) ⟨⟨ram, sent, rest⟩, polls, x⟩ =
      .ok (some .serveHijack,
        ⟨⟨setByte (l.GETCHAR_PACKET + 4) key ram', sent ++ [CMD_GETCHAR, 0, 0, 0, key],
          rest ++ (x.hears v [CMD_GETCHAR, 0, 0, 0, key]).2⟩, polls + 1,
          (x.hears v [CMD_GETCHAR, 0, 0, 0, key]).1⟩) := by
  have inside : l.GETCHAR_PACKET < SPACE := by
    have inside := l.inside
    rw [Layout.GETCHAR_PACKET]
    omega
  have both : (around v keyin).keyin polls ram = (key, ram') := polled
  rw [block, play_keyin, both, if_neg pressed, play_change,
    play_jsrWrite (installed.setKey key).write, play_write inside (by decide) (by decide),
    window_getcharPacket installed]
  rfl

/-- The trap polls the keyboard until there is a key, and sends it. -/
theorem goes_doGetchar (installed : Installed l ram) (typed : Typed l keyin) :
    ∃ key polls' ram', Pressed keyin polls ram key polls' ram' ∧ Installed l ram' ∧
      Goes (around v keyin) (block l code) .doGetchar ⟨⟨ram, sent, rest⟩, polls, x⟩ .serveHijack
        ⟨⟨setByte (l.GETCHAR_PACKET + 4) key ram', sent ++ [CMD_GETCHAR, 0, 0, 0, key],
          rest ++ (x.hears v [CMD_GETCHAR, 0, 0, 0, key]).2⟩, polls',
          (x.hears v [CMD_GETCHAR, 0, 0, 0, key]).1⟩ := by
  obtain ⟨later, after, pressed⟩ := typed.pressed polls
  have installed' := installed.keyin typed polls
  induction gap : later - polls generalizing polls ram with
  | zero =>
    obtain rfl : later = polls := by omega
    exact ⟨_, _, _, .now (pressed ram), installed',
      .of_play (play_doGetchar_of_pressed rfl (pressed ram) installed')⟩
  | succ gap inductionHypothesis =>
    by_cases idle : (keyin polls ram).1 = 0
    · obtain ⟨key, polls', ram', onward, there, goes⟩ :=
        @inductionHypothesis _ (polls + 1) installed' (by omega) (installed'.keyin typed _)
          (by omega)
      exact ⟨key, polls', ram', .later idle onward, there,
        (Goes.of_play (play_doGetchar_of_idle idle)).trans goes⟩
    · exact ⟨_, _, _, .now idle, installed',
        .of_play (play_doGetchar_of_pressed rfl idle installed')⟩

/-- The trap reads a command. -/
theorem play_serveHijack (q : Quint) (there : word ram PTR_TO_TCP1READ = l.tcp1Read) :
    play (around v keyin) (block l code .serveHijack)
        ⟨⟨ram, sent, q.bytes ++ rest⟩, polls, x⟩ =
      play (around v keyin)
        (if q.command = CMD_HDBDOS_HIJACK then .rts
        else if q.command = CMD_PEEK2 then
          jsrRead l CASBUF 4 <|
            .change (fun ram => setWord (l.PEEK2_PACKET + 1) (word ram CASBUF) ram) <|
            .change (fun ram => setWord (l.PEEK2_PACKET + 3) (word ram (CASBUF + 2)) ram) <|
            jsrWrite l l.PEEK2_PACKET 5 <| .look fun ram =>
              jsrWrite l (word ram (CASBUF + 2)) (word ram CASBUF) <| .bra .serveHijack
        else if q.command = CMD_POKE then jsrRead l q.p q.n <| .bra .serveHijack
        else if q.command = CMD_GETCHAR then .bra .doGetchar
        else if q.command = CMD_CALL then .change (code q.p) <| .bra .serveHijack
        else jsrRead l 0x0400 q.n <| .bra .serveHijack)
        ⟨⟨noted q ram, sent, rest⟩, polls, x⟩ := by
  rw [block, play_jsrRead there, play_read (by decide) (by decide) (by decide) (by rfl), ← noted,
    play_look, command_noted, n_noted, p_noted]

theorem hears_around (bytes : List UInt8) : (around v keyin).hears x bytes = x.hears v bytes := rfl

/-- The header of the reply to a `PEEK2` is right, and the data is waited for. -/
theorem hears_peek2Packet {n : Nat} {next : List UInt8 → Nav} (addr : Nat)
    (waits : x.waiting = .peek2Ram n next) (empty : x.unread = []) (some : 0 < n)
    (few : n < 65536) :
    x.hears v [CMD_PEEK2, hi n, lo n, hi addr, lo addr] =
      ({ x with unread := [CMD_PEEK2, hi n, lo n, hi addr, lo addr] }, []) := by
  have size : hiLo (hi n) (lo n) = n := by rw [hiLo_hi_lo, Nat.mod_eq_of_lt few]
  have short : ¬n ≤ ([] : List UInt8).length := Nat.not_le.mpr some
  obtain ⟨hdbDos, sectors, hijacks, waiting, unread⟩ := x
  obtain rfl : waiting = .peek2Ram n next := waits
  obtain rfl : unread = [] := empty
  refine hears_of_none ?_
  show (if CMD_PEEK2 ≠ CMD_PEEK2 ∨ hiLo (hi n) (lo n) ≠ n then _ else
    (readFull n []).map _) = none
  rw [if_neg (not_or.mpr ⟨not_not_intro rfl, not_not_intro size⟩), readFull, if_neg short]
  rfl

/-- The reply to a `PEEK2` is what is in the region. -/
theorem hears_peek2Data {n : Nat} {next : List UInt8 → Nav} {data : List UInt8} (addr : Nat)
    (waits : x.waiting = .peek2Ram n next) (empty : x.unread = []) (few : n < 65536)
    (length : data.length = n) :
    ({ x with unread := [CMD_PEEK2, hi n, lo n, hi addr, lo addr] } : Server).hears v data =
      x.navigate (next data) := by
  have size : hiLo (hi n) (lo n) = n := by rw [hiLo_hi_lo, Nat.mod_eq_of_lt few]
  have whole : readFull n data = some (data, []) := by
    rw [← List.append_nil data, readFull_append length, List.append_nil]
  obtain ⟨hdbDos, sectors, hijacks, waiting, unread⟩ := x
  obtain rfl : waiting = .peek2Ram n next := waits
  obtain rfl : unread = [] := empty
  refine hears_of_reads ?_ (unread_navigate ..)
  show (if CMD_PEEK2 ≠ CMD_PEEK2 ∨ hiLo (hi n) (lo n) ≠ n then _ else
    (readFull n data).map _) = _
  rw [if_neg (not_or.mpr ⟨not_not_intro rfl, not_not_intro size⟩), whole]
  rfl

theorem hears_key {next : UInt8 → Nav} (key : UInt8) (waits : x.waiting = .getCharFromKeyboard next)
    (empty : x.unread = []) :
    x.hears v [CMD_GETCHAR, 0, 0, 0, key] = x.navigate (next (charOf key)) := by
  obtain ⟨hdbDos, sectors, hijacks, waiting, unread⟩ := x
  obtain rfl : waiting = .getCharFromKeyboard next := waits
  obtain rfl : unread = [] := empty
  refine hears_of_reads ?_ (unread_navigate ..)
  show some (if CMD_GETCHAR ≠ CMD_GETCHAR then _ else
    Server.navigate (next (charOf (lo (hiLo 0 key)))) _) = _
  rw [if_neg (not_not_intro rfl), lo_hiLo]

/-- The arguments of a `PEEK2` go to the packet. -/
theorem asked_eq (l : Layout) (ram : Ram) {addr n : Nat} (small : addr < 65536) (few : n < 65536)
    {buffer : Ram} (read : buffer = put 0 SPACE (noted ⟨CMD_PEEK2, 0, 4, 0, 0⟩ ram) CASBUF
      [hi n, lo n, hi addr, lo addr]) :
    setWord (l.PEEK2_PACKET + 3)
        (word (setWord (l.PEEK2_PACKET + 1) (word buffer CASBUF) buffer) (CASBUF + 2))
        (setWord (l.PEEK2_PACKET + 1) (word buffer CASBUF) buffer) = asked l addr n ram := by
  obtain ⟨sizes, place⟩ := arguments_asked l ram small few
  have behind := l.behind
  have low : ∀ a < CASBUF + 4, ∀ d d', setWord (l.PEEK2_PACKET + 3) d
      (setWord (l.PEEK2_PACKET + 1) d' buffer) a = buffer a := by
    intro a below d d'
    simp only [Layout.PEEK2_PACKET, InkeyTrapInit, CASBUF] at *
    rw [setWord_of_ne (by omega), setWord_of_ne (by omega)]
  have low' : ∀ a < CASBUF + 4, ∀ d', setWord (l.PEEK2_PACKET + 1) d' buffer a = buffer a := by
    intro a below d'
    simp only [Layout.PEEK2_PACKET, InkeyTrapInit, CASBUF] at *
    rw [setWord_of_ne (by omega)]
  rw [asked, ← read] at sizes place
  rw [word_congr (low _ (by decide) ..) (low _ (by decide) ..)] at sizes place
  rw [word_congr (low' (CASBUF + 2) (by decide) _) (low' (CASBUF + 2 + 1) (by decide) _), sizes,
    place, asked, read]

/-- The pointers to the routines are kept while a command is read. -/
theorem word_noted (q : Quint) {a : Nat} (high : MYBUF + 5 ≤ a) :
    word (noted q ram) a = word ram a :=
  word_congr (noted_of_high q high) (noted_of_high q (Nat.le_succ_of_le high))

/-- A `POKE` is read into its region. -/
theorem play_pokeRam {addr : Nat} {data : List UInt8}
    (there : word ram PTR_TO_TCP1READ = l.tcp1Read) (inside : addr < SPACE) (some : 0 < data.length)
    (fits : data.length ≤ RING_SIZE) :
    play (around v keyin) (block l code .serveHijack)
        ⟨⟨ram, sent, (Message.of CMD_POKE addr data).bytes ++ rest⟩, polls, x⟩ =
      .ok (Option.some .serveHijack,
        ⟨⟨put 0 SPACE (noted (newQuint CMD_POKE data.length addr) ram) addr data, sent, rest⟩,
          polls, x⟩) := by
  have small : addr < 65536 := inside
  have few : data.length < 65536 := lt_of_le_of_lt fits (by decide)
  have there' := (word_noted (newQuint CMD_POKE data.length addr) (by decide)).trans there
  rw [Message.bytes, List.append_assoc]
  dsimp only [Message.of]
  rw [play_serveHijack _ there, command_newQuint, if_neg (by decide), if_neg (by decide),
    if_pos rfl, p_newQuint, n_newQuint, Nat.mod_eq_of_lt few, Nat.mod_eq_of_lt small,
    play_jsrRead there', play_read inside some fits rfl]
  rfl

/-- A `PEEK2` is answered with the packet and the region. -/
theorem play_peek2Ram {addr n : Nat} {c : UInt8} {y z : Server} {first second : List UInt8}
    (read : word ram PTR_TO_TCP1READ = l.tcp1Read)
    (write : word ram PTR_TO_TCP1WRITE = l.tcp1Write) (inside : addr < SPACE) (some : 0 < n)
    (fits : n ≤ RING_SIZE) (here : ram l.PEEK2_PACKET = c)
    (header : x.hears v [c, hi n, lo n, hi addr, lo addr] = (y, first))
    (data : y.hears v (window 0 SPACE (asked l addr n ram) addr n) = (z, second)) :
    play (around v keyin) (block l code .serveHijack)
        ⟨⟨ram, sent, [CMD_PEEK2, 0, 4, 0, 0, hi n, lo n, hi addr, lo addr]⟩, polls, x⟩ =
      .ok (Option.some .serveHijack,
        ⟨⟨asked l addr n ram, sent ++ [c, hi n, lo n, hi addr, lo addr] ++
          window 0 SPACE (asked l addr n ram) addr n, first ++ second⟩, polls, z⟩) := by
  have small : addr < 65536 := inside
  have few : n < 65536 := lt_of_le_of_lt fits (by decide)
  have packet : l.PEEK2_PACKET < SPACE := by
    have inside := l.inside
    rw [Layout.PEEK2_PACKET]
    omega
  have peek2 : (⟨CMD_PEEK2, 0, 4, 0, 0⟩ : Quint).command = CMD_PEEK2 := rfl
  have length : [hi n, lo n, hi addr, lo addr].length = 4 := rfl
  have read' := (word_noted ⟨CMD_PEEK2, 0, 4, 0, 0⟩ (by decide)).trans read
  have fixed : ∀ i < 4, l.Fixed (PTR_TO_TCP1READ + i) := fun i below =>
    .inl ⟨Nat.le_add_right _ _, Nat.add_lt_add_left below _⟩
  have write' : word (asked l addr n ram) PTR_TO_TCP1WRITE = l.tcp1Write :=
    (word_congr (asked_of_fixed addr n (fixed 2 (by decide)))
      (asked_of_fixed addr n (fixed 3 (by decide)))).trans write
  obtain ⟨sizes, place⟩ := arguments_asked l ram small few
  show play _ _ ⟨⟨_, _, Quint.bytes ⟨CMD_PEEK2, 0, 4, 0, 0⟩ ++
    ([hi n, lo n, hi addr, lo addr] ++ [])⟩, _, x⟩ = _
  rw [play_serveHijack _ read, if_neg (by decide), if_pos peek2, play_jsrRead read',
    play_read (show CASBUF < SPACE by decide) (by decide) (by decide) length, play_change,
    play_change, asked_eq l ram small few rfl, play_jsrWrite write',
    play_write packet (by decide) (by decide), window_peek2Packet, here, hears_around, header,
    play_look,
    sizes, place, play_jsrWrite write', play_write inside some fits, hears_around, data]
  rfl

/-- What the navigator does on the wire, it does to the memory of the CoCo. -/
theorem carried_of_careful {nav : Nav} (careful : nav.Careful l) (typed : Typed l keyin)
    (installed : Installed l ram) (empty : x.unread = []) :
    ∃ sent' polls' ram' mounts, Carried l keyin nav polls ram polls' ram' mounts ∧
      Ends (around v keyin) (block l code) .serveHijack
        ⟨⟨ram, sent, (x.navigate nav).2⟩, polls, (x.navigate nav).1⟩
        ⟨⟨ram', sent', []⟩, polls',
          { x with waiting := .readFive, hdbDos := x.hdbDos.map mounts }⟩ := by
  induction nav generalizing x ram sent polls with
  | leave mounts =>
    refine ⟨sent, polls, _, mounts, .leave, .of_play ?_⟩
    rw [Server.navigate, Message.bytes, ← List.append_nil (_ ++ _), List.append_assoc,
      play_serveHijack _ installed.read]
    rfl
  | pokeRam addr data next inductionHypothesis =>
    obtain ⟨⟨inside, some, fits⟩, apart, onward⟩ := careful
    have there := installed.noted (newQuint CMD_POKE data.length addr)
    obtain ⟨sent', polls', ram', mounts, rest, ends⟩ :=
      @inductionHypothesis _ sent polls x onward
        (there.poke inside fun i below => (apart i below).2.1) empty
    refine ⟨sent', polls', ram', mounts, .pokeRam rest, Goes.ends (.of_play ?_) ends⟩
    rw [Server.navigate, play_pokeRam installed.read inside some fits]
  | peek2Ram addr n next inductionHypothesis =>
    obtain ⟨⟨inside, some, fits⟩, -, onward⟩ := careful
    have few : n < 65536 := lt_of_le_of_lt fits (by decide)
    obtain ⟨sent', polls', ram', mounts, rest, ends⟩ :=
      @inductionHypothesis (window 0 SPACE (asked l addr n ram) addr n) _
        (sent ++ [CMD_PEEK2, hi n, lo n, hi addr, lo addr] ++
          window 0 SPACE (asked l addr n ram) addr n) polls
        { x with waiting := .peek2Ram n next } (onward _) (installed.asked addr n) empty
    refine ⟨sent', polls', ram', mounts, .peek2Ram rest, Goes.ends (.of_play ?_) ends⟩
    have header := @hears_peek2Packet v { x with waiting := .peek2Ram n next } n next addr rfl empty
      some few
    have data := @hears_peek2Data v { x with waiting := .peek2Ram n next } n next
      (window 0 SPACE (asked l addr n ram) addr n) addr rfl empty few (length_window ..)
    rw [Server.navigate, play_peek2Ram installed.read installed.write inside some fits
      installed.peek2 header data, List.nil_append]
  | getCharFromKeyboard next inductionHypothesis =>
    have there := installed.noted (newQuint CMD_GETCHAR 0 0)
    obtain ⟨key, polled, ram', pressed, installed', goes⟩ :=
      @goes_doGetchar l v keyin code _ sent [] polls
        { x with waiting := .getCharFromKeyboard next } there typed
    rw [hears_key (x := { x with waiting := .getCharFromKeyboard next }) key rfl empty] at goes
    obtain ⟨sent', polls', ram'', mounts, rest, ends⟩ :=
      @inductionHypothesis (charOf key) _ (sent ++ [CMD_GETCHAR, 0, 0, 0, key]) polled
        { x with waiting := .getCharFromKeyboard next } (careful _) (installed'.setKey key) empty
    refine ⟨sent', polls', ram'', mounts, .getCharFromKeyboard pressed rest,
      Goes.ends ((Goes.of_play ?_).trans goes) ends⟩
    rw [Server.navigate, Message.bytes, ← List.append_nil (_ ++ _), List.append_assoc,
      play_serveHijack _ installed.read]
    rfl

end

end Frobio.Wire
