/-
This file models the option filter of `net-cmds/f-telnetd0.c`, and the loop that calls it for each
chunk it receives.

The filter takes three bytes for every command but a doubled IAC, and starts anew with each chunk. So
it does what it should when no chunk ends within a command and no command has two bytes. A command
that is cut is completed with what is behind the chunk, and its rest is taken for data. The loop ends
behind a chunk whose first data byte is a "q", so that where the stream is cut tells which one that
is.
-/

import Frobio.Lib.Loop
import Frobio.Lib.Memory

namespace Frobio.FTelnetd

open Loop Memory

/-! ### The filter -/

def ECHO : UInt8 := 1
def SUPRESS_GO_AHEAD : UInt8 := 3

def WILL : UInt8 := 0xfb
def WONT : UInt8 := 0xfc
def DO : UInt8 := 0xfd
def DONT : UInt8 := 0xfe
def IAC : UInt8 := 0xff

def sizeofBuffer : Nat := 250

/-- What `SendCommand` sends. -/
structure Command where
  modal : UInt8
  option : UInt8
  deriving DecidableEq

/-- The commands sent, and the places of `Buffer` that were taken for a command, are those so far. -/
structure Filter where
  i : Nat
  j : Nat
  buffer : Nat → UInt8
  sent : List Command
  taken : List Nat

def answer (b c : UInt8) : List Command :=
  if b = WILL then if c = SUPRESS_GO_AHEAD then [⟨DO, c⟩] else [⟨DONT, c⟩]
  else if b = WONT then [⟨DONT, c⟩]
  else if b = DO then if c = ECHO ∨ c = SUPRESS_GO_AHEAD then [⟨WILL, c⟩] else [⟨WONT, c⟩]
  else if b = DONT then [⟨WONT, c⟩]
  else []

/-- A round of the loop. The third byte is loaded for a doubled IAC as well, but not used. -/
def turn (f : Filter) : Filter :=
  let a := f.buffer f.i
  if a = IAC then
    let b := f.buffer (f.i + 1)
    let c := f.buffer (f.i + 2)
    let size := if b = IAC then 2 else 3
    { f with
      i := f.i + size
      sent := f.sent ++ answer b c
      taken := f.taken ++ List.range' f.i size }
  else if a &&& 0x80 = 0 then
    { f with buffer := store f.buffer f.j [a], j := f.j + 1, i := f.i + 1 }
  else { f with i := f.i + 1 }

/-- `none` if the loop does not end in as many rounds. -/
def ProcessTelnetOptions (rounds : Nat) (buffer : Nat → UInt8) (n : Nat) : Option Filter :=
  whileLoop (fun f => f.i < n) (fun f => some (turn f)) rounds ⟨0, 0, buffer, [], []⟩

/-- `Buffer`, and the memory behind it, when a chunk was received. -/
def received (behind : Nat → UInt8) (chunk : List UInt8) : Nat → UInt8 :=
  store (store behind 0 (List.replicate sizeofBuffer 0)) 0 chunk

/-- The user quits. -/
def Filter.quits (f : Filter) : Prop := f.buffer 0 = 113 ∨ f.buffer 0 = 81

instance (f : Filter) : Decidable f.quits := inferInstanceAs (Decidable (_ ∨ _))

/-- The chunks that are received one after another, until the user quits. -/
def receiveAll (rounds : Nat) (behind : Nat → UInt8) : List (List UInt8) → Option (List Filter)
  | [] => some []
  | chunk :: chunks =>
    (ProcessTelnetOptions rounds (received behind chunk) chunk.length).bind fun f =>
      if f.quits then some [f] else (receiveAll rounds behind chunks).map (f :: ·)

/-- The bytes that are left of the chunk. -/
def Filter.data (f : Filter) : List UInt8 := load f.buffer 0 f.j

/-! ### What a client sends -/

inductive Item
  | data (b : UInt8) (plain : b ≠ IAC)
  | doubledIac
  /-- A command of two bytes. -/
  | short (b : UInt8) (other : b < WILL)
  | negotiation (b : UInt8) (verb : b = WILL ∨ b = WONT ∨ b = DO ∨ b = DONT) (option : UInt8)

namespace Item

def encode : Item → List UInt8
  | data b _ => [b]
  | doubledIac => [IAC, IAC]
  | short b _ => [IAC, b]
  | negotiation b _ option => [IAC, b, option]

/-- What is to be left of the item. -/
def kept : Item → List UInt8
  | data b _ => if b < 128 then [b] else []
  | _ => []

/-- The options that are to be answered. -/
def options : Item → List UInt8
  | negotiation _ _ option => [option]
  | _ => []

def isShort : Item → Bool
  | short _ _ => true
  | _ => false

end Item

def stream (items : List Item) : List UInt8 := items.flatMap Item.encode

/-- The data left is that of the stream, each negotiation is answered once, with its option, and
only what was received is taken for a command. -/
def Filters (behind : Nat → UInt8) (items : List Item) (chunks : List (List UInt8)) : Prop :=
  ∃ rounds results, receiveAll rounds behind chunks = some results ∧
    results.flatMap Filter.data = items.flatMap Item.kept ∧
    results.flatMap (fun f => f.sent.map Command.option) = items.flatMap Item.options ∧
    ∀ processed ∈ chunks.zip results, ∀ place ∈ processed.2.taken, place < processed.1.length

/-- The first data byte of the chunk is one that quits. -/
def Quits (group : List Item) : Prop :=
  (group.flatMap Item.kept).head? = some 113 ∨ (group.flatMap Item.kept).head? = some 81

/-- Each chunk is made of whole items, and none of them is a command of two bytes. There is neither
data nor a negotiation behind a chunk that quits. -/
def Whole (items : List Item) (chunks : List (List UInt8)) : Prop :=
  (∀ item ∈ items, item.isShort = false) ∧
    ∃ groups : List (List Item), groups.flatten = items ∧ groups.map stream = chunks ∧
      groups.Pairwise fun group later =>
        Quits group → later.flatMap Item.kept = [] ∧ later.flatMap Item.options = []

/-! ### One chunk -/

/-- Where the filter is before the bytes `rest` of a chunk of `n` bytes. -/
structure Filtering (n : Nat) (start : Nat → UInt8) (f : Filter) (rest kept options : List UInt8) :
    Prop where
  place : f.i + rest.length = n
  behind : f.j ≤ f.i
  ahead : load f.buffer f.i rest.length = rest
  data : f.data = kept
  sent : f.sent.map Command.option = options
  inside : ∀ place ∈ f.taken, place < n
  /-- Where nothing is left so far, nothing was stored. -/
  untouched : f.j = 0 → f.buffer = start

section
variable {n : Nat} {start : Nat → UInt8} {f : Filter} {rest kept options : List UInt8} {b : UInt8}

theorem load_cons {memory : Nat → UInt8} {i : Nat} (ahead : load memory i (b :: rest).length =
    b :: rest) : memory i = b ∧ load memory (i + 1) rest.length = rest := by
  rw [List.length_cons, load_succ] at ahead
  exact List.cons.inj ahead

theorem and_eq_zero_iff (b : UInt8) : b &&& 0x80 = 0 ↔ b < 128 := by
  have each : ∀ k < 256, UInt8.ofNat k &&& 0x80 = 0 ↔ UInt8.ofNat k < 128 := by decide +kernel
  have here := each b.toNat b.toNat_lt
  rwa [UInt8.ofNat_toNat] at here

theorem Filtering.data_turn (filtering : Filtering n start f (b :: rest) kept options)
    (plain : b ≠ IAC) :
    Filtering n start (turn f) rest (kept ++ if b < 128 then [b] else []) options := by
  obtain ⟨here, ahead⟩ := load_cons filtering.ahead
  have place := filtering.place
  have behind := filtering.behind
  rw [List.length_cons] at place
  unfold turn
  rw [here, if_neg plain]
  split_ifs with low small small
  · refine ⟨show f.i + 1 + rest.length = n by omega, show f.j + 1 ≤ f.i + 1 by omega, ?_, ?_,
      filtering.sent, filtering.inside, fun none_ => absurd none_ (Nat.succ_ne_zero f.j)⟩
    · show load (store f.buffer f.j [b]) (f.i + 1) rest.length = rest
      rw [load_store_of_apart _ (.inr (by rw [List.length_singleton]; omega))]
      exact ahead
    · show load (store f.buffer f.j [b]) 0 (f.j + 1) = _
      rw [load_add, load_store_of_apart _ (.inl (by omega)), Nat.zero_add]
      exact congrArg₂ _ filtering.data (load_store_self f.buffer f.j [b])
  · exact absurd ((and_eq_zero_iff b).mp low) small
  · exact absurd ((and_eq_zero_iff b).mpr small) low
  · refine ⟨show f.i + 1 + rest.length = n by omega, show f.j ≤ f.i + 1 by omega, ahead, ?_,
      filtering.sent, filtering.inside, filtering.untouched⟩
    rw [List.append_nil]
    exact filtering.data

/-- A command of the size that the filter takes it for. -/
theorem Filtering.command_turn {command : List UInt8} {size : Nat}
    (filtering : Filtering n start f (command ++ rest) kept options) (length : command.length = size)
    (starts : f.buffer f.i = IAC)
    (sized : (if f.buffer (f.i + 1) = IAC then 2 else 3) = size) :
    Filtering n start (turn f) rest kept
      (options ++ (answer (f.buffer (f.i + 1)) (f.buffer (f.i + 2))).map Command.option) := by
  have place := filtering.place
  have ahead := filtering.ahead
  rw [List.length_append, length] at place ahead
  rw [load_add] at ahead
  obtain ⟨-, ahead⟩ := List.append_inj ahead ((length_load ..).trans length.symm)
  unfold turn
  rw [starts, if_pos rfl]
  dsimp only
  rw [sized]
  have behind := filtering.behind
  refine ⟨?_, show f.j ≤ f.i + size by omega, ahead, filtering.data, ?_, ?_,
    filtering.untouched⟩
  · show f.i + size + rest.length = n
    omega
  · rw [List.map_append, filtering.sent]
  · intro taken member
    rcases List.mem_append.mp member with before | new
    · exact filtering.inside taken before
    · have within := List.mem_range'_1.mp new
      omega

theorem options_answer (verb : b = WILL ∨ b = WONT ∨ b = DO ∨ b = DONT) (option : UInt8) :
    (answer b option).map Command.option = [option] := by
  unfold answer
  split_ifs
  all_goals first | rfl | exfalso; tauto

theorem Filtering.item_turn {item : Item} (long : item.isShort = false)
    (filtering : Filtering n start f (item.encode ++ rest) kept options) :
    Filtering n start (turn f) rest (kept ++ item.kept) (options ++ item.options) := by
  cases item with
  | data b plain =>
    rw [show (Item.data b plain).options = [] from rfl, List.append_nil]
    exact filtering.data_turn plain
  | doubledIac =>
    obtain ⟨first, ahead⟩ := load_cons filtering.ahead
    obtain ⟨second, -⟩ := load_cons ahead
    have after := filtering.command_turn rfl first (by rw [second]; rfl)
    rw [second] at after
    rw [show Item.doubledIac.kept = [] from rfl, List.append_nil]
    exact after
  | short b other => cases long
  | negotiation b verb option =>
    obtain ⟨first, ahead⟩ := load_cons filtering.ahead
    obtain ⟨second, ahead⟩ := load_cons ahead
    obtain ⟨third, -⟩ := load_cons ahead
    have three : (if b = IAC then 2 else 3) = 3 := by
      rcases verb with rfl | rfl | rfl | rfl <;> rfl
    have after := filtering.command_turn rfl first (by rw [second]; exact three)
    rw [second, third, options_answer verb] at after
    rw [show (Item.negotiation b verb option).kept = [] from rfl, List.append_nil]
    exact after

theorem Item.length_encode (item : Item) : 0 < item.encode.length := by
  cases item <;> exact Nat.succ_pos _

theorem Filtering.exists_final {items : List Item} {rounds : Nat}
    (long : ∀ item ∈ items, item.isShort = false)
    (filtering : Filtering n start f (stream items) kept options)
    (enough : (stream items).length ≤ rounds) : ∃ final,
      whileLoop (fun f => f.i < n) (fun f => some (turn f)) rounds f = some final ∧
      Filtering n start final [] (kept ++ items.flatMap Item.kept)
        (options ++ items.flatMap Item.options) := by
  induction items generalizing f kept options rounds with
  | nil =>
    have place : f.i + 0 = n := filtering.place
    refine ⟨f, whileLoop_of_not rounds (decide_eq_false (by omega)), ?_⟩
    rw [List.flatMap_nil, List.flatMap_nil, List.append_nil, List.append_nil]
    exact filtering
  | cons item items inductionHypothesis =>
    rw [List.forall_mem_cons] at long
    have some := item.length_encode
    have place := filtering.place
    rw [stream, List.flatMap_cons] at filtering enough
    rw [stream, List.flatMap_cons, List.length_append] at place
    rw [List.length_append] at enough
    obtain ⟨rounds, rfl⟩ := Nat.exists_eq_add_of_lt (lt_of_lt_of_le some (by omega : _ ≤ rounds))
    obtain ⟨final, reached, last⟩ := inductionHypothesis long.2 (filtering.item_turn long.1)
      (show (stream items).length ≤ 0 + rounds by rw [stream]; omega)
    refine ⟨final, ?_, ?_⟩
    · rw [whileLoop, if_pos (decide_eq_true (by omega))]
      exact reached
    · rw [List.flatMap_cons, List.flatMap_cons, ← List.append_assoc, ← List.append_assoc]
      exact last

end

theorem exists_processed {items : List Item} (long : ∀ item ∈ items, item.isShort = false)
    (behind : Nat → UInt8) {rounds : Nat} (enough : (stream items).length ≤ rounds) : ∃ final,
      ProcessTelnetOptions rounds (received behind (stream items)) (stream items).length =
        some final ∧
      Filtering (stream items).length (received behind (stream items)) final []
        (items.flatMap Item.kept) (items.flatMap Item.options) := by
  have first : Filtering (stream items).length (received behind (stream items))
      ⟨0, 0, received behind (stream items), [], []⟩ (stream items) [] [] :=
    ⟨Nat.zero_add _, le_rfl, load_store_self _ 0 _, rfl, rfl,
      fun _ member => absurd member List.not_mem_nil, fun _ => rfl⟩
  exact first.exists_final long enough

/-- The first byte of a chunk that leaves no data is not one that quits. -/
theorem received_zero {items : List Item} (nothing : items.flatMap Item.kept = [])
    (behind : Nat → UInt8) :
    ¬(received behind (stream items) 0 = 113 ∨ received behind (stream items) 0 = 81) := by
  have high : received behind (stream items) 0 = 0 ∨ 128 ≤ received behind (stream items) 0 := by
    cases items with
    | nil => exact .inl rfl
    | cons item items =>
      have starts (c : UInt8) (rest : List UInt8) (encoded : item.encode = c :: rest) :
          received behind (stream (item :: items)) 0 = c := by
        rw [received, stream, List.flatMap_cons, encoded]
        exact @store_apply_of_lt _ _ 0 0 (c :: (rest ++ _)) (Nat.succ_pos _)
      cases item with
      | data b plain =>
        rw [starts b [] rfl]
        by_cases small : b < 128
        · rw [List.flatMap_cons, Item.kept, if_pos small] at nothing
          cases nothing
        · exact .inr (UInt8.not_lt.mp small)
      | doubledIac =>
        rw [starts IAC _ rfl]
        exact .inr (by decide)
      | short b other =>
        rw [starts IAC _ rfl]
        exact .inr (by decide)
      | negotiation b verb option =>
        rw [starts IAC _ rfl]
        exact .inr (by decide)
  rintro (letter | letter)
  · rw [letter] at high
    exact absurd high (by decide)
  · rw [letter] at high
    exact absurd high (by decide)

/-- The loop ends where the first data byte of the chunk quits. -/
theorem Filtering.quits_iff {items : List Item} {behind : Nat → UInt8} {f : Filter} {n : Nat}
    {options : List UInt8} (filtering : Filtering n (received behind (stream items)) f []
      (items.flatMap Item.kept) options) : f.quits ↔ Quits items := by
  have data := filtering.data
  rw [Quits]
  cases kept : items.flatMap Item.kept with
  | nil =>
    rw [kept] at data
    have none_ : f.j = 0 := by
      rw [← length_load f.buffer 0 f.j]
      exact congrArg List.length data
    have first := received_zero kept behind
    rw [← filtering.untouched none_] at first
    refine iff_of_false first ?_
    rintro (letter | letter)
    · cases letter
    · cases letter
  | cons c later =>
    rw [kept] at data
    have some_ : f.j = later.length + 1 := by
      rw [← length_load f.buffer 0 f.j]
      exact congrArg List.length data
    rw [Filter.data, some_, load_succ] at data
    have head := (List.cons.inj data).1
    rw [Filter.quits, head, List.head?_cons, Option.some.injEq, Option.some.injEq]

/-! ### All chunks -/

/-- Every number of rounds suffices that is not less than the bytes there are. -/
theorem exists_receivedAll {groups : List (List Item)}
    (long : ∀ item ∈ groups.flatten, item.isShort = false)
    (patient : groups.Pairwise fun group later =>
      Quits group → later.flatMap Item.kept = [] ∧ later.flatMap Item.options = [])
    (behind : Nat → UInt8) {rounds : Nat} (enough : (stream groups.flatten).length ≤ rounds) :
    ∃ results, receiveAll rounds behind (groups.map stream) = some results ∧
      results.flatMap Filter.data = groups.flatten.flatMap Item.kept ∧
      results.flatMap (fun f => f.sent.map Command.option) =
        groups.flatten.flatMap Item.options ∧
      ∀ processed ∈ (groups.map stream).zip results,
        ∀ place ∈ processed.2.taken, place < processed.1.length := by
  induction groups with
  | nil => exact ⟨[], rfl, rfl, rfl, fun _ member => absurd member List.not_mem_nil⟩
  | cons group groups inductionHypothesis =>
    rw [List.flatten_cons] at long enough
    rw [stream, List.flatMap_append, List.length_append] at enough
    obtain ⟨nothing, patient⟩ := List.pairwise_cons.mp patient
    obtain ⟨final, processed, last⟩ := exists_processed
      (fun item member => long item (List.mem_append_left _ member)) behind
      (show (stream group).length ≤ rounds by rw [stream]; omega)
    rw [List.map_cons, receiveAll, processed, Option.bind_some, List.flatten_cons,
      List.flatMap_append, List.flatMap_append]
    by_cases quits : final.quits
    · have rest := fun later member => nothing later member (last.quits_iff.mp quits)
      have noData : groups.flatten.flatMap Item.kept = [] := by
        refine List.flatMap_eq_nil_iff.mpr fun item member => ?_
        obtain ⟨later, here, there⟩ := List.mem_flatten.mp member
        exact List.flatMap_eq_nil_iff.mp (rest later here).1 item there
      have noOptions : groups.flatten.flatMap Item.options = [] := by
        refine List.flatMap_eq_nil_iff.mpr fun item member => ?_
        obtain ⟨later, here, there⟩ := List.mem_flatten.mp member
        exact List.flatMap_eq_nil_iff.mp (rest later here).2 item there
      rw [if_pos quits, noData, noOptions]
      refine ⟨[final], rfl, ?_, ?_, ?_⟩
      · rw [List.flatMap_singleton, List.append_nil, last.data]
      · rw [List.flatMap_singleton, List.append_nil, last.sent]
      · intro pair member
        rw [List.zip_cons_cons, List.zip_nil_right] at member
        cases List.mem_singleton.mp member
        exact last.inside
    · obtain ⟨results, later, data, options, inside⟩ := inductionHypothesis
        (fun item member => long item (List.mem_append_right _ member)) patient
        (show (stream groups.flatten).length ≤ rounds by rw [stream]; omega)
      rw [if_neg quits, later]
      refine ⟨final :: results, rfl, ?_, ?_, fun pair member => ?_⟩
      · rw [List.flatMap_cons, last.data, data]
      · rw [List.flatMap_cons, last.sent, options]
      · rw [List.zip_cons_cons] at member
        rcases List.mem_cons.mp member with rfl | others
        · exact last.inside
        · exact inside pair others

/-- The negotiation `IAC WILL 3`, between the bytes "a" and "b", and a "q". -/
def politeItems : List Item :=
  [.data 97 (by decide), .negotiation WILL (.inl rfl) SUPRESS_GO_AHEAD, .data 98 (by decide),
    .data 113 (by decide)]

end Frobio.FTelnetd
