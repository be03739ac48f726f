/-
This file models the download loops of `net-cmds/f-tget.c` and
`fuse-daemons/fuse-tftp.c`, which are one loop with two ways to keep the data.

The loop looks at the packet buffer only: it does not look at the sender, and it does not
look at the length before it reads the type and the block number. So what it takes is a
block of the server as long as nobody else sends the block that is expected, and no
datagram of less than four bytes is completed to it by bytes that are left over.

At `Verbosity` 0 a fatal error does nothing: the loop goes on when an ack cannot be sent,
when data cannot be written, and after an error of the server.
-/

import Frobio.Froblib.Numerals
import Frobio.Lib.Run
import Frobio.Wiz.Receive

namespace Frobio.Tftp

open Coms Memory Run Wiz
open Numerals (LLInfo LogFatal)

/-! ### The loop -/

def OP_READ : Nat := 1
def OP_DATA : Nat := 3
def OP_ACK : Nat := 4
def OP_ERROR : Nat := 5

def sizeofPacket : Nat := 666

/-- How the data of a block are kept: the new state, and whether that went well. If not, a begin of
the data is kept. -/
structure Saver (Saved Answer : Type) where
  save : Saved → List UInt8 → Answer → Saved × Bool
  /-- The data kept so far. -/
  bytes : Saved → List UInt8
  bytes_save : ∀ saved data answer, (save saved data answer).2 = true →
    bytes (save saved data answer).1 = bytes saved ++ data
  keeps : ∀ saved data answer, ∃ kept, kept <+: data ∧
    bytes (save saved data answer).1 = bytes saved ++ kept

inductive Fatal
  | cannotSend
  | cannotSave
  | serverError (arg : Nat) (text : List UInt8)
  | unexpectedType (type : Nat)
  deriving DecidableEq

inductive Ending
  | okay
  | fatal (reason : Fatal)
  deriving DecidableEq

structure Client (Saved : Type) where
  /-- The memory from the array `packet` on. -/
  packet : Nat → UInt8
  expectedBlock : Nat
  saved : Saved
  ending : Option Ending
  /-- The data that were handed over to be kept, each with the datagram received in that turn. -/
  taken : List (Datagram × List UInt8)
  /-- The texts that were shown, each with the datagram received in that turn. -/
  shown : List (Datagram × List UInt8)

/-- What `UdpRecv` delivers, whether the answer can be sent, and what comes of keeping the data. -/
structure Turn (Answer : Type) where
  datagram : Datagram
  fits : datagram.data.length ≤ sizeofPacket
  sent : Bool
  answer : Answer

/-- The word at an even offset of the packet. -/
def word (packet : Nat → UInt8) (offset : Nat) : Nat :=
  hiLo (packet offset) (packet (offset + 1))

/-- A string of C. -/
def text (memory : Nat → UInt8) (addr : Nat) : List UInt8 :=
  (load memory addr (65536 - addr)).takeWhile (· ≠ 0)

def setWord (packet : Nat → UInt8) (offset value : Nat) : Nat → UInt8 :=
  store packet offset [hi value, lo value]

section

variable {Saved Answer : Type} (saver : Saver Saved Answer) (Verbosity : UInt8)

/-- The packet after `SendAck`. -/
def sendAck (packet : Nat → UInt8) (block : Nat) : Nat → UInt8 :=
  setWord (setWord packet 0 OP_ACK) 2 block

/-- The case of a block that is expected. -/
def takeBlock (c : Client Saved) (t : Turn Answer) : Client Saved :=
  let size := t.datagram.data.length
  let len := (size + 65536 - 4) % 65536
  let packet := sendAck c.packet c.expectedBlock
  if t.sent = false ∧ LogFatal Verbosity then
    { c with packet := packet, ending := some (.fatal .cannotSend) }
  else
    let data := load packet 4 len
    let (saved, done) := saver.save c.saved data t.answer
    let c := { c with packet := packet, saved := saved, taken := c.taken ++ [(t.datagram, data)] }
    if done = false ∧ LogFatal Verbosity then { c with ending := some (.fatal .cannotSave) }
    else if len < 512 then { c with ending := some .okay }
    else { c with expectedBlock := (c.expectedBlock + 1) % 65536 }

/-- The client after `UdpRecv`. -/
def Client.received (c : Client Saved) (d : Datagram) : Client Saved :=
  { c with packet := store c.packet 0 d.data }

/-- One turn of `while (1)`, while the program has not stopped. -/
def turn (c : Client Saved) (t : Turn Answer) : Option (Client Saved) :=
  if c.ending ≠ none then none
  else
    let c := c.received t.datagram
    let type := word c.packet 0
    let arg := word c.packet 2
    if type = OP_DATA then
      -- the wrong block is not acked
      if arg ≠ c.expectedBlock then some c
      else some (takeBlock saver Verbosity c t)
    else if type = OP_ERROR then
      if LogFatal Verbosity then
        some { c with
          ending := some (.fatal (.serverError arg (text c.packet 4)))
          shown := c.shown ++ [(t.datagram, text c.packet 4)] }
      else some c
    else if LogFatal Verbosity then
      some { c with ending := some (.fatal (.unexpectedType type)) }
    else some c

/-- The packet after `SendRequest`, or `SendTftpRequest`. -/
def request (packet : Nat → UInt8) (opcode : Nat) (filename mode : List UInt8) : Nat → UInt8 :=
  store (setWord packet 0 opcode) 2 (filename ++ [0] ++ mode ++ [0])

/-- The text `octet`. -/
def octet : List UInt8 := [111, 99, 116, 101, 116]

/-- The loop begins, after the file was asked for. -/
def start (packet : Nat → UInt8) (filename : List UInt8) (saved : Saved) : Client Saved :=
  ⟨request packet OP_READ filename octet, 1, saved, none, [], []⟩

end

/-! ### The two programs -/

/-- The file, and what `Os9Write` returns: an error, or how many bytes were written. -/
def os9Write : Saver (List UInt8) (Except UInt8 Nat) where
  save file data
    | .error _ => (file, false)
    | .ok bytesWritten => (file ++ data.take bytesWritten, bytesWritten = data.length)
  bytes file := file
  bytes_save file data answer := by
    cases answer with
    | error errnum => exact nofun
    | ok bytesWritten =>
      intro all
      rw [decide_eq_true_iff] at all
      show file ++ data.take bytesWritten = file ++ data
      rw [all, List.take_length]
  keeps file data answer := by
    cases answer with
    | error errnum => exact ⟨[], List.nil_prefix, (List.append_nil file).symm⟩
    | ok bytesWritten => exact ⟨data.take bytesWritten, List.take_prefix _ _, rfl⟩

/-- The list from `FragRoot` on, and whether `Malloc` returns a fragment. -/
def saveBytesToFragList : Saver (List (List UInt8)) Bool where
  save fragments data malloc :=
    if data = [] then (fragments, true)
    else if malloc then (fragments ++ [data], true)
    else (fragments, false)
  bytes fragments := fragments.flatten
  bytes_save fragments data malloc := by
    by_cases empty : data = []
    · intro _
      rw [if_pos empty, empty, List.append_nil]
    · cases malloc with
      | true =>
        intro _
        rw [if_neg empty, if_pos rfl, List.flatten_append, List.flatten_singleton]
      | false =>
        rw [if_neg empty]
        exact nofun
  keeps fragments data malloc := by
    by_cases empty : data = []
    · rw [if_pos empty]
      exact ⟨[], List.nil_prefix, (List.append_nil _).symm⟩
    · rw [if_neg empty]
      cases malloc with
      | true =>
        refine ⟨data, List.prefix_refl data, ?_⟩
        rw [if_pos rfl, List.flatten_append, List.flatten_singleton]
      | false => exact ⟨[], List.nil_prefix, (List.append_nil _).symm⟩

/-- The loop of `TGet`. -/
def tGet (Verbosity : UInt8) :
    Client (List UInt8) → Turn (Except UInt8 Nat) → Option (Client (List UInt8)) :=
  turn os9Write Verbosity

/-- The loop of `TftpGet`. The daemon has no flags. -/
def tftpGet : Client (List (List UInt8)) → Turn Bool → Option (Client (List (List UInt8))) :=
  turn saveBytesToFragList LLInfo

/-! ### The law -/

/-- The header of a block. -/
def dataHeader (block : Nat) : List UInt8 := [hi OP_DATA, lo OP_DATA, hi block, lo block]

/-- The datagram is this block, from this server. -/
def IsBlock (server : List UInt8) (block : Nat) (d : Datagram) : Prop :=
  d.addr = server ∧ dataHeader block <+: d.data

/-- What was taken is the blocks of the server, in order, and it is kept; and what was shown was
received. -/
structure Sound {Saved Answer : Type} (saver : Saver Saved Answer) (server : List UInt8)
    (c : Client Saved) : Prop where
  blocks : ∀ i d data, c.taken[i]? = some (d, data) →
    IsBlock server (i + 1) d ∧ data = d.data.drop 4
  saved : c.ending ≠ some (.fatal .cannotSave) →
    saver.bytes c.saved = (c.taken.map (·.2)).flatten
  finished : c.ending = some .okay →
    ∃ d data, c.taken.getLast? = some (d, data) ∧ data.length < 512
  shown : ∀ d data, (d, data) ∈ c.shown → data <+: d.data.drop 4

/-- The packet reads as the block that is expected. -/
def Looks {Saved : Type} (c : Client Saved) (d : Datagram) : Prop :=
  word (c.received d).packet 0 = OP_DATA ∧ word (c.received d).packet 2 = c.expectedBlock

/-- Nobody but the server sends the block that is expected, no short datagram is completed to its
header by what is left over, and an error text ends inside the datagram. Where fatal errors are not
noticed, the data can be kept. -/
def Harmless {Saved Answer : Type} (saver : Saver Saved Answer) (Verbosity : UInt8)
    (server : List UInt8) (c : Client Saved) (t : Turn Answer) : Prop :=
  c.ending = none →
    (t.sent = true ∨ LogFatal Verbosity = false →
      (dataHeader c.expectedBlock <+: t.datagram.data → t.datagram.addr = server) ∧
      ¬(t.datagram.data.length < 4 ∧ Looks c t.datagram)) ∧
    (LogFatal Verbosity = true → word (c.received t.datagram).packet 0 = OP_ERROR →
      text (c.received t.datagram).packet 4 <+: t.datagram.data.drop 4) ∧
    (LogFatal Verbosity = false → dataHeader c.expectedBlock <+: t.datagram.data →
      saver.bytes (saver.save c.saved (t.datagram.data.drop 4) t.answer).1 =
        saver.bytes c.saved ++ t.datagram.data.drop 4)

/-! ### Words and headers -/

theorem word_eq_iff {packet : Nat → UInt8} {offset value : Nat} (small : value < 65536) :
    word packet offset = value ↔ packet offset = hi value ∧ packet (offset + 1) = lo value := by
  constructor
  · rintro rfl
    exact ⟨(hi_hiLo _ _).symm, (lo_hiLo _ _).symm⟩
  · rintro ⟨high, low⟩
    rw [word, high, low, hiLo_hi_lo, Nat.mod_eq_of_lt small]

theorem dataHeader_mod (block : Nat) : dataHeader (block % 65536) = dataHeader block := by
  rw [dataHeader, hi_mod, lo_mod, dataHeader]

@[simp] theorem length_dataHeader (block : Nat) : (dataHeader block).length = 4 := rfl

/-- A datagram of four bytes or more makes the packet look like a block just if it is that block. -/
theorem looks_iff_header {packet : Nat → UInt8} {data : List UInt8} {block : Nat}
    (small : block < 65536) (long : 4 ≤ data.length) :
    word (store packet 0 data) 0 = OP_DATA ∧ word (store packet 0 data) 2 = block ↔
      dataHeader block <+: data := by
  obtain ⟨a, b, c, d, rest, rfl⟩ : ∃ a b c d rest, data = a :: b :: c :: d :: rest := by
    match data, long with
    | a :: b :: c :: d :: rest, _ => exact ⟨a, b, c, d, rest, rfl⟩
  have first : store packet 0 (a :: b :: c :: d :: rest) 0 = a := rfl
  have second : store packet 0 (a :: b :: c :: d :: rest) (0 + 1) = b := rfl
  have third : store packet 0 (a :: b :: c :: d :: rest) 2 = c := rfl
  have fourth : store packet 0 (a :: b :: c :: d :: rest) (2 + 1) = d := rfl
  rw [word_eq_iff (by decide), word_eq_iff small, first, second, third, fourth, dataHeader,
    List.cons_prefix_cons, List.cons_prefix_cons, List.cons_prefix_cons, List.cons_prefix_cons,
    and_iff_left List.nil_prefix, and_assoc, eq_comm, eq_comm (a := b), eq_comm (a := c),
    eq_comm (a := d)]

theorem IsBlock.of_mod {server : List UInt8} {block : Nat} {d : Datagram}
    (is : IsBlock server (block % 65536) d) : IsBlock server block d :=
  ⟨is.1, dataHeader_mod block ▸ is.2⟩

/-! ### The packet -/

/-- The ack leaves the data of the datagram alone. -/
theorem load_sendAck (packet : Nat → UInt8) (block : Nat) (data : List UInt8) :
    load (sendAck (store packet 0 data) block) 4 (data.length - 4) = data.drop 4 := by
  refine List.ext_getElem? fun i => ?_
  rw [List.getElem?_drop]
  by_cases inside : i < data.length - 4
  · rw [getElem?_load _ _ inside, sendAck, setWord, setWord,
      store_apply_of_after _ (show 2 + 2 ≤ 4 + i from Nat.le_add_right 4 i),
      store_apply_of_after _ (show 0 + 2 ≤ 4 + i by omega), ← Nat.zero_add (4 + i),
      store_apply_of_lt _ (by omega), List.getElem?_eq_getElem (by omega)]
    exact congrArg some (getElem_congr_idx (Nat.zero_add _).symm)
  · rw [List.getElem?_eq_none (by rw [length_load]; omega), List.getElem?_eq_none (by omega)]

/-! ### One turn -/

section

variable {Saved Answer : Type} {saver : Saver Saved Answer} {Verbosity : UInt8}
  {server : List UInt8} {c c' : Client Saved} {t : Turn Answer}

/-- What a turn can do. -/
inductive Turned (saver : Saver Saved Answer) (Verbosity : UInt8) (c : Client Saved)
    (t : Turn Answer) : Client Saved → Prop
  | ignored (other : ¬Looks c t.datagram)
    (data : LogFatal Verbosity = true → word (c.received t.datagram).packet 0 = OP_DATA) :
    Turned saver Verbosity c t (c.received t.datagram)
  | taken (looks : Looks c t.datagram) :
    Turned saver Verbosity c t (takeBlock saver Verbosity (c.received t.datagram) t)
  | error (type : word (c.received t.datagram).packet 0 = OP_ERROR)
    (loud : LogFatal Verbosity = true) (arg : Nat) :
    Turned saver Verbosity c t { c.received t.datagram with
      ending := some (.fatal (.serverError arg (text (c.received t.datagram).packet 4)))
      shown := c.shown ++ [(t.datagram, text (c.received t.datagram).packet 4)] }
  | unexpected (type : Nat) (loud : LogFatal Verbosity = true)
    (neither : word (c.received t.datagram).packet 0 ≠ OP_DATA ∧
      word (c.received t.datagram).packet 0 ≠ OP_ERROR) :
    Turned saver Verbosity c t
      { c.received t.datagram with ending := some (.fatal (.unexpectedType type)) }

theorem turned_of_turn (turned : turn saver Verbosity c t = some c') :
    c.ending = none ∧ Turned saver Verbosity c t c' := by
  rw [turn] at turned
  split at turned
  · cases turned
  · rename_i going
    refine ⟨not_not.mp going, ?_⟩
    dsimp only at turned
    split at turned
    · rename_i data
      split at turned
      · rename_i wrong
        exact Option.some.inj turned ▸ .ignored (fun looks => wrong looks.2) fun _ => data
      · rename_i right
        exact Option.some.inj turned ▸ .taken ⟨data, not_not.mp right⟩
    · rename_i notData
      by_cases loud : LogFatal Verbosity = true
      · simp only [if_pos loud] at turned
        split at turned
        · rename_i error
          exact Option.some.inj turned ▸ .error error loud _
        · rename_i notError
          exact Option.some.inj turned ▸ .unexpected _ loud ⟨notData, notError⟩
      · simp only [if_neg loud, ite_self] at turned
        exact Option.some.inj turned ▸ .ignored (fun looks => notData looks.1)
          fun also => absurd also loud

/-- The blocks taken so far are good, and the next one is expected. -/
structure Ready (saver : Saver Saved Answer) (server : List UInt8) (c : Client Saved) : Prop where
  sound : Sound saver server c
  expected : c.ending = none → c.expectedBlock = (c.taken.length + 1) % 65536

/-- Something was taken that is not the block that was due, or shown that was not received, or not
all is kept and it was not noticed. -/
def Spoiled (saver : Saver Saved Answer) (Verbosity : UInt8) (server : List UInt8)
    (c : Client Saved) : Prop :=
  (∃ i d data, c.taken[i]? = some (d, data) ∧
    ¬(IsBlock server (i + 1) d ∧ data = d.data.drop 4)) ∨
  (∃ d data, (d, data) ∈ c.shown ∧ ¬data <+: d.data.drop 4) ∨
  (LogFatal Verbosity = false ∧ (∀ reason, c.ending ≠ some (.fatal reason)) ∧
    (saver.bytes c.saved).length < (c.taken.map (·.2)).flatten.length)

theorem not_sound_of_spoiled (spoiled : Spoiled saver Verbosity server c) :
    ¬Sound saver server c := by
  intro sound
  rcases spoiled with ⟨i, d, data, there, bad⟩ | ⟨d, data, there, bad⟩ | ⟨-, unnoticed, less⟩
  · exact bad (sound.blocks i d data there)
  · exact bad (sound.shown d data there)
  · rw [sound.saved (unnoticed _)] at less
    exact Nat.lt_irrefl _ less

/-! ### A block that is taken -/

/-- The data of the datagram, and what is kept of it. -/
structure Takes (saver : Saver Saved Answer) (Verbosity : UInt8) (c : Client Saved)
    (t : Turn Answer) (data : List UInt8) (c' : Client Saved) : Prop where
  taken : c'.taken = c.taken ++ [(t.datagram, data)]
  shown : c'.shown = c.shown
  saved : c'.saved = (saver.save c.saved data t.answer).1
  fatal : ∀ reason, c'.ending = some (.fatal reason) → reason = .cannotSave ∧
    (saver.save c.saved data t.answer).2 = false ∧ LogFatal Verbosity = true
  lost : (saver.save c.saved data t.answer).2 = false → LogFatal Verbosity = true →
    c'.ending = some (.fatal .cannotSave)
  okay : c'.ending = some .okay → (t.datagram.data.length + 65536 - 4) % 65536 < 512
  next : c'.ending = none → c'.expectedBlock = (c.expectedBlock + 1) % 65536

/-- A block is taken, or the ack cannot be sent. -/
theorem takeBlock_cases (going : c.ending = none) (d : Datagram) :
    ((t.sent = true ∨ LogFatal Verbosity = false) ∧
      Takes saver Verbosity c t (load (sendAck (c.received d).packet c.expectedBlock) 4
        ((t.datagram.data.length + 65536 - 4) % 65536))
        (takeBlock saver Verbosity (c.received d) t)) ∨
    (¬(t.sent = true ∨ LogFatal Verbosity = false) ∧
      takeBlock saver Verbosity (c.received d) t = { c with
        packet := sendAck (c.received d).packet c.expectedBlock
        ending := some (.fatal .cannotSend) }) := by
  rw [takeBlock]
  dsimp only
  by_cases stops : t.sent = false ∧ LogFatal Verbosity = true
  · rw [if_pos stops]
    refine .inr ⟨?_, rfl⟩
    rw [stops.1, stops.2]
    simp
  · rw [if_neg stops]
    refine .inl ⟨?_, ?_⟩
    · exact (not_and_or.mp stops).imp Bool.of_not_eq_false Bool.of_not_eq_true
    · have same : (c.received d).saved = c.saved := rfl
      split
      · rename_i unsaved
        exact ⟨rfl, rfl, rfl, fun reason fatal => by cases fatal; exact ⟨rfl, unsaved⟩,
          fun _ _ => rfl, nofun, nofun⟩
      · rename_i kept
        have lost : ∀ {P : Prop}, (saver.save c.saved (load (sendAck (c.received d).packet
            c.expectedBlock) 4 ((t.datagram.data.length + 65536 - 4) % 65536)) t.answer).2 = false →
            LogFatal Verbosity = true → P := fun unsaved loud => absurd ⟨unsaved, loud⟩ kept
        split
        · rename_i short
          exact ⟨rfl, rfl, rfl, nofun, lost, fun _ => short, nofun⟩
        · have none : (c.received d).ending = none := going
          refine ⟨rfl, rfl, rfl, ?_, lost, ?_, fun _ => rfl⟩
          · exact fun reason fatal => absurd (none.symm.trans fatal) nofun
          · exact fun okay => absurd (none.symm.trans okay) nofun

theorem Takes.flatten {data : List UInt8} (takes : Takes saver Verbosity c t data c') :
    (c'.taken.map (·.2)).flatten = (c.taken.map (·.2)).flatten ++ data := by
  rw [takes.taken, List.map_append, List.flatten_append, List.map_singleton,
    List.flatten_singleton]

/-- If the datagram has a header, its data are what comes behind it. -/
theorem loaded_eq (c : Client Saved) (block : Nat) (long : 4 ≤ t.datagram.data.length) :
    load (sendAck (c.received t.datagram).packet block) 4
      ((t.datagram.data.length + 65536 - 4) % 65536) = t.datagram.data.drop 4 := by
  have fits := t.fits
  rw [sizeofPacket] at fits
  have len : (t.datagram.data.length + 65536 - 4) % 65536 = t.datagram.data.length - 4 := by omega
  rw [len]
  exact load_sendAck c.packet block t.datagram.data

/-- A block that is due is taken as it should be. -/
theorem Ready.takes (ready : Ready saver server c) (going : c.ending = none)
    (block : IsBlock server (c.taken.length + 1) t.datagram)
    (keeps : LogFatal Verbosity = false →
      saver.bytes (saver.save c.saved (t.datagram.data.drop 4) t.answer).1 =
        saver.bytes c.saved ++ t.datagram.data.drop 4)
    (takes : Takes saver Verbosity c t (t.datagram.data.drop 4) c') : Ready saver server c' := by
  have kept := ready.sound.saved (by rw [going]; exact nofun)
  refine ⟨⟨?_, ?_, ?_, ?_⟩, fun goesOn => ?_⟩
  · intro i d data there
    rw [takes.taken] at there
    by_cases old : i < c.taken.length
    · rw [List.getElem?_append_left old] at there
      exact ready.sound.blocks i d data there
    · rw [List.getElem?_append_right (Nat.not_lt.mp old)] at there
      obtain ⟨single, same⟩ := List.getElem?_eq_some_iff.mp there
      rw [List.length_singleton] at single
      have last : i = c.taken.length := by omega
      subst last
      rw [List.getElem_singleton, Prod.mk.injEq] at same
      obtain ⟨rfl, rfl⟩ := same
      exact ⟨block, rfl⟩
  · intro noticed
    rw [takes.flatten, takes.saved, ← kept]
    cases done : (saver.save c.saved (t.datagram.data.drop 4) t.answer).2 with
    | true => exact saver.bytes_save _ _ _ done
    | false =>
      cases loud : LogFatal Verbosity with
      | true => exact absurd (takes.lost done loud) noticed
      | false => exact keeps loud
  · intro okay
    refine ⟨t.datagram, t.datagram.data.drop 4, ?_, ?_⟩
    · rw [takes.taken]
      exact List.getLast?_concat
    · have long := block.2.length_le
      rw [length_dataHeader] at long
      have fits := t.fits
      rw [sizeofPacket] at fits
      have short := takes.okay okay
      rw [List.length_drop]
      omega
  · rw [takes.shown]
    exact ready.sound.shown
  · rw [takes.next goesOn, ready.expected going, takes.taken, List.length_append,
      List.length_singleton]
    omega

/-- What was taken of a datagram that is not the block that is due is not undone. -/
theorem spoiled_of_takes {data : List UInt8} (takes : Takes saver Verbosity c t data c')
    (other : ¬IsBlock server (c.taken.length + 1) t.datagram) :
    Spoiled saver Verbosity server c' := by
  refine .inl ⟨c.taken.length, t.datagram, data, ?_, fun good => other good.1⟩
  rw [takes.taken]
  exact List.getElem?_concat_length

/-- What is lost of the data without notice stays lost. -/
theorem spoiled_of_lost (ready : Ready saver server c) (going : c.ending = none)
    (quiet : LogFatal Verbosity = false)
    (lost : saver.bytes (saver.save c.saved (t.datagram.data.drop 4) t.answer).1 ≠
      saver.bytes c.saved ++ t.datagram.data.drop 4)
    (takes : Takes saver Verbosity c t (t.datagram.data.drop 4) c') :
    Spoiled saver Verbosity server c' := by
  have before := ready.sound.saved (by rw [going]; exact nofun)
  obtain ⟨kept, front, bytes⟩ := saver.keeps c.saved (t.datagram.data.drop 4) t.answer
  refine .inr (.inr ⟨quiet, fun reason fatal => ?_, ?_⟩)
  · exact absurd (takes.fatal reason fatal).2.2 (Bool.eq_false_iff.mp quiet)
  · have part : kept ≠ t.datagram.data.drop 4 := fun all => lost (all ▸ bytes)
    have less := lt_of_le_of_ne front.length_le fun same => part (front.eq_of_length same)
    rw [takes.flatten, takes.saved, bytes, ← before, List.length_append, List.length_append]
    exact Nat.add_lt_add_left less _

/-! ### Every turn -/

theorem spoiled_turn (spoiled : Spoiled saver Verbosity server c)
    (turned : turn saver Verbosity c t = some c') : Spoiled saver Verbosity server c' := by
  obtain ⟨going, can⟩ := turned_of_turn turned
  have loudly : ∀ {P : Prop}, LogFatal Verbosity = true → LogFatal Verbosity = false → P :=
    fun loud quiet => absurd loud (Bool.eq_false_iff.mp quiet)
  cases can with
  | ignored => exact spoiled
  | taken =>
    rcases takeBlock_cases going t.datagram with ⟨-, takes⟩ | ⟨fails, same⟩
    · rcases spoiled with ⟨i, d, data, there, bad⟩ | ⟨d, data, there, bad⟩ | ⟨quiet, _, less⟩
      · refine .inl ⟨i, d, data, ?_, bad⟩
        rw [takes.taken, List.getElem?_append_left (List.getElem?_eq_some_iff.mp there).1]
        exact there
      · exact .inr (.inl ⟨d, data, takes.shown ▸ there, bad⟩)
      · refine .inr (.inr ⟨quiet, fun reason fatal => ?_, ?_⟩)
        · exact loudly (takes.fatal reason fatal).2.2 quiet
        · obtain ⟨kept, front, bytes⟩ := saver.keeps c.saved _ t.answer
          rw [takes.flatten, takes.saved, bytes, List.length_append, List.length_append]
          exact Nat.add_lt_add_of_lt_of_le less front.length_le
    · rw [same]
      rcases spoiled with taken | shown | ⟨quiet, -⟩
      · exact .inl taken
      · exact .inr (.inl shown)
      · exact absurd (.inr quiet) fails
  | error type loud arg =>
    rcases spoiled with taken | ⟨d, data, there, bad⟩ | ⟨quiet, -⟩
    · exact .inl taken
    · exact .inr (.inl ⟨d, data, List.mem_append_left _ there, bad⟩)
    · exact loudly loud quiet
  | unexpected type loud neither =>
    rcases spoiled with taken | shown | ⟨quiet, -⟩
    · exact .inl taken
    · exact .inr (.inl shown)
    · exact loudly loud quiet

/-- A fatal error leaves what was taken as it is. -/
theorem Ready.fatal {packet : Nat → UInt8} {reason : Fatal} (ready : Ready saver server c)
    (going : c.ending = none) :
    Ready saver server { c with packet := packet, ending := some (.fatal reason) } := by
  have kept := ready.sound.saved (by rw [going]; exact nofun)
  refine ⟨⟨ready.sound.blocks, fun _ => kept, fun okay => ?_, ready.sound.shown⟩, nofun⟩
  exact absurd (Option.some.inj okay) nofun

/-- A turn that is harmless keeps the client sound. -/
theorem Ready.turn (ready : Ready saver server c)
    (harmless : Harmless saver Verbosity server c t)
    (turned : turn saver Verbosity c t = some c') : Ready saver server c' := by
  obtain ⟨going, can⟩ := turned_of_turn turned
  have expected := ready.expected going
  obtain ⟨whole, inside, keeps⟩ := harmless going
  cases can with
  | ignored => exact ⟨⟨ready.sound.blocks, ready.sound.saved, ready.sound.finished,
      ready.sound.shown⟩, ready.expected⟩
  | taken looks =>
    rcases takeBlock_cases going t.datagram with ⟨able, takes⟩ | ⟨-, same⟩
    · obtain ⟨owned, full⟩ := whole able
      have long := Nat.le_of_not_lt fun short => full ⟨short, looks⟩
      have header := (looks_iff_header (by omega) long).mp looks
      rw [loaded_eq c _ long] at takes
      refine ready.takes going ?_ (fun quiet => keeps quiet header) takes
      rw [expected] at header
      exact IsBlock.of_mod ⟨owned (expected ▸ header), header⟩
    · rw [same]
      exact ready.fatal going
  | error type loud arg =>
    obtain ⟨sound, -⟩ := @Ready.fatal _ _ _ _ _ (c.received t.datagram).packet
      (.serverError arg (text (c.received t.datagram).packet 4)) ready going
    refine ⟨⟨sound.blocks, sound.saved, sound.finished, fun d data member => ?_⟩, nofun⟩
    rcases List.mem_append.mp member with old | new
    · exact ready.sound.shown d data old
    · rw [List.mem_singleton, Prod.mk.injEq] at new
      rw [new.1, new.2]
      exact inside loud type
  | unexpected type loud neither => exact ready.fatal going

/-- A turn that is not harmless spoils the client. -/
theorem spoiled_of_turn (ready : Ready saver server c)
    (harmful : ¬Harmless saver Verbosity server c t)
    (turned : turn saver Verbosity c t = some c') : Spoiled saver Verbosity server c' := by
  obtain ⟨going, can⟩ := turned_of_turn turned
  have expected := ready.expected going
  have looks : dataHeader c.expectedBlock <+: t.datagram.data → Looks c t.datagram := by
    intro header
    have long := header.length_le
    rw [length_dataHeader] at long
    exact (looks_iff_header (by omega) long).mpr header
  have dataNotError : OP_DATA ≠ OP_ERROR := by decide
  rw [Harmless, imp_iff_right going] at harmful
  -- a turn that takes nothing can only show an error text
  have takesNothing : ¬Looks c t.datagram → LogFatal Verbosity = true ∧
      word (c.received t.datagram).packet 0 = OP_ERROR ∧
        ¬text (c.received t.datagram).packet 4 <+: t.datagram.data.drop 4 := by
    intro other
    by_contra shows
    refine harmful ⟨fun _ => ⟨?_, fun both => other both.2⟩, fun loud type => ?_, ?_⟩
    · exact fun header => absurd (looks header) other
    · exact not_not.mp fun bad => shows ⟨loud, type, bad⟩
    · exact fun _ header => absurd (looks header) other
  cases can with
  | ignored other data =>
    obtain ⟨loud, type, -⟩ := takesNothing other
    exact absurd ((data loud).symm.trans type) dataNotError
  | taken here =>
    have notError : word (c.received t.datagram).packet 0 ≠ OP_ERROR :=
      fun type => dataNotError (here.1.symm.trans type)
    rcases takeBlock_cases going t.datagram with ⟨able, takes⟩ | ⟨fails, -⟩
    · by_cases block : IsBlock server (c.taken.length + 1) t.datagram
      · have header := block.2
        rw [← dataHeader_mod, ← expected] at header
        have long := header.length_le
        rw [length_dataHeader] at long
        rw [loaded_eq c _ long] at takes
        -- so the data are not kept, and nobody notices
        have lost : LogFatal Verbosity = false ∧
            saver.bytes (saver.save c.saved (t.datagram.data.drop 4) t.answer).1 ≠
              saver.bytes c.saved ++ t.datagram.data.drop 4 := by
          by_contra fine
          refine harmful ⟨fun _ => ⟨fun _ => block.1, fun both => ?_⟩, ?_, fun quiet _ => ?_⟩
          · exact absurd both.1 (Nat.not_lt.mpr long)
          · exact fun _ type => absurd type notError
          · exact not_not.mp fun less => fine ⟨quiet, less⟩
        exact spoiled_of_lost ready going lost.1 lost.2 takes
      · exact spoiled_of_takes takes block
    · refine absurd ⟨fun able => absurd able fails, ?_, ?_⟩ harmful
      · exact fun _ type => absurd type notError
      · exact fun quiet => absurd (.inr quiet) fails
  | error type loud arg =>
    obtain ⟨-, -, bad⟩ := takesNothing fun here => dataNotError (here.1.symm.trans type)
    exact .inr (.inl ⟨_, _, List.mem_append_right _ (List.mem_singleton_self _), bad⟩)
  | unexpected type loud neither =>
    obtain ⟨-, type, -⟩ := takesNothing fun here => neither.1 here.1
    exact absurd type neither.2

/-- The loop is sound just as long as every turn is harmless. -/
theorem sound_iff_meets {turns : List (Turn Answer)} (ready : Ready saver server c)
    (reached : run (turn saver Verbosity) c turns = some c') :
    Sound saver server c' ↔
      Meets (turn saver Verbosity) (Harmless saver Verbosity server) c turns := by
  have either := meets_or_spoiled_of_run (Ready saver server) (Spoiled saver Verbosity server)
    (fun _ _ _ ready harmless turned => ready.turn harmless turned)
    (fun _ _ _ ready harmful turned => spoiled_of_turn ready harmful turned)
    (fun _ _ _ spoiled turned => spoiled_turn spoiled turned) ready reached
  rcases either with ⟨meets, ready'⟩ | ⟨harmful, spoiled⟩
  · exact iff_of_true ready'.sound meets
  · exact iff_of_false (not_sound_of_spoiled spoiled) harmful

theorem ready_start (packet : Nat → UInt8) (filename : List UInt8) {saved : Saved}
    (empty : saver.bytes saved = []) : Ready saver server (start packet filename saved) :=
  ⟨⟨fun _ _ _ => nofun, fun _ => empty, nofun, fun _ _ => nofun⟩, fun _ => rfl⟩

end

/-! ### The two programs are sound under the same condition -/

/-- Both loops keep just the blocks of the server, in every run, as long as every turn is harmless;
and if one is not, they do not. -/
theorem downloads_sound_iff (Verbosity : UInt8) (server : List UInt8) (packet : Nat → UInt8)
    (filename : List UInt8) :
    (∀ turns final, run (tGet Verbosity) (start packet filename []) turns = some final →
      (Sound os9Write server final ↔ Meets (tGet Verbosity)
        (Harmless os9Write Verbosity server) (start packet filename []) turns)) ∧
    ∀ turns final, run tftpGet (start packet filename []) turns = some final →
      (Sound saveBytesToFragList server final ↔ Meets tftpGet
        (Harmless saveBytesToFragList LLInfo server) (start packet filename []) turns) :=
  ⟨fun _ _ reached => sound_iff_meets (ready_start packet filename rfl) reached,
    fun _ _ reached => sound_iff_meets (ready_start packet filename rfl) reached⟩

/-- The server sends an error, and block 1 with the byte 66. -/
def errorPassedOver : List (Turn (Except UInt8 Nat)) :=
  [⟨⟨[10, 5, 5, 5], [0, 69], [0, 5, 0, 2, 0], rfl, by decide⟩, by decide, true, .ok 0⟩,
    ⟨⟨[10, 5, 5, 5], [0, 69], [0, 3, 0, 1, 66], rfl, by decide⟩, by decide, false, .ok 1⟩]

/-- At `Verbosity` 0 the error does not end the loop, and block 1 is taken. -/
theorem downloads_sound_iff_errorPassedOver :
    ∃ final, run (tGet 0) (start (fun _ => 0) [97] []) errorPassedOver = some final ∧
      final.saved = [66] ∧ Sound os9Write [10, 5, 5, 5] final := by
  have quiet : ∀ {P : Prop}, LogFatal 0 = true → P := fun loud => absurd loud (by decide)
  have meets : Meets (tGet 0) (Harmless os9Write 0 [10, 5, 5, 5]) (start (fun _ => 0) [97] [])
      errorPassedOver := by
    refine ⟨fun _ => ⟨fun _ => ⟨fun _ => rfl, ?_⟩, quiet, ?_⟩, fun next turned => ?_⟩
    · exact fun both => absurd both.1 (by decide)
    · exact fun _ header => absurd header (by decide)
    · refine ⟨fun _ => ⟨fun _ => ⟨fun _ => rfl, ?_⟩, quiet, fun _ _ => rfl⟩, fun _ _ => trivial⟩
      exact fun both => absurd both.1 (by decide)
  exact ⟨_, rfl, rfl, ((downloads_sound_iff 0 [10, 5, 5, 5] (fun _ => 0) [97]).1
    errorPassedOver _ rfl).mpr meets⟩

/-- Block 1 with the byte 66, from a stranger. -/
def strangersBlock : Datagram := ⟨[6, 6, 6, 6], [0, 7], [0, 3, 0, 1, 66], rfl, by decide⟩

/-- Both loops take the block of a stranger. -/
theorem not_sound_strangersBlock :
    (∃ final, run (tGet LLInfo) (start (fun _ => 0) [97] [])
        [⟨strangersBlock, by decide, true, .ok 1⟩] = some final ∧
      ¬Sound os9Write [10, 5, 5, 5] final) ∧
    ∃ final, run tftpGet (start (fun _ => 0) [97] [])
        [⟨strangersBlock, by decide, true, true⟩] = some final ∧
      ¬Sound saveBytesToFragList [10, 5, 5, 5] final :=
  ⟨⟨_, rfl, fun sound => absurd (sound.blocks 0 strangersBlock [66] rfl).1.1 (by decide)⟩,
    ⟨_, rfl, fun sound => absurd (sound.blocks 0 strangersBlock [66] rfl).1.1 (by decide)⟩⟩

end Frobio.Tftp
