/-
This file models `UseOptions` of `net-cmds/f-dhcp.c` and compares both loops over DHCP
options, that one and the one of `RecvDhcpReply` in `axiom41/axcore.c`, with the
reading of the options as codes, lengths and values.

Both take the byte behind every code for a length, and four bytes for every address,
whatever the option's length says; and `UseOptions` does not know where the packet ends.
-/

import Frobio.Axcore.Discovery

namespace Frobio.NetCmds

open TypeLengthValue Axcore Axcore.Discovery

/-- The variables that the options set. -/
structure Globals where
  ipMask : List UInt8
  ipGateway : List UInt8
  ipDnsServer : List UInt8
  deriving DecidableEq

inductive Used
  | fatal
  | used
  deriving DecidableEq

/-- The loop of `UseOptions`. -/
def useOptionsWalker : Walker Globals Used where
  leave _ := none
  body memory p code globals :=
    if code = 255 then some (.stop .used globals, [])
    else if code = 1 then
      (fetch memory (p + 2) 4).map fun quad => (.goOn { globals with ipMask := quad }, quad)
    else if code = 3 then
      (fetch memory (p + 2) 4).map fun quad => (.goOn { globals with ipGateway := quad }, quad)
    else if code = 6 then
      (fetch memory (p + 2) 4).map fun quad => (.goOn { globals with ipDnsServer := quad }, quad)
    else some (.goOn globals, [])

def useOptions (memory : Nat → Option UInt8) (rounds o : Nat) (globals : Globals) :
    Option (Used × Globals × List Visit) :=
  match fetch memory o 4 with
  | none => none
  | some magic =>
    if magic ≠ DHCP_OPT_MAGIC then some (.fatal, globals, [])
    else useOptionsWalker.walk memory rounds (o + 4) globals

/-! ### What the loops are for -/

/-- The options that hold an address: the mask, the router, and the name server. -/
def IsAddress (code : UInt8) : Prop := code = 1 ∨ code = 3 ∨ code = 6

instance (code : UInt8) : Decidable (IsAddress code) := inferInstanceAs (Decidable (_ ∨ _))

/-- What `RecvDhcpReply` should take of an option: the first address, or the message type. -/
def wanted (code : UInt8) (value : List UInt8) : List UInt8 :=
  if IsAddress code then value.take 4 else if code = 53 then value.take 1 else []

/-- What `UseOptions` should take of an option. -/
def wantedAddress (code : UInt8) (value : List UInt8) : List UInt8 :=
  if IsAddress code then value.take 4 else []

/-- What `UseOptions` should do with it. -/
def setGlobal (code : UInt8) (taken : List UInt8) (globals : Globals) : Globals :=
  if code = 1 then { globals with ipMask := taken }
  else if code = 3 then { globals with ipGateway := taken }
  else if code = 6 then { globals with ipDnsServer := taken }
  else globals

/-- An address is complete. -/
def Complete (code : UInt8) (value : List UInt8) : Prop := IsAddress code → 4 ≤ value.length

/-- An address is complete, and the message type is the one expected. -/
def Welcome (second : Bool) (code : UInt8) (value : List UInt8) : Prop :=
  Complete code value ∧ (code = 53 → value.head? = some (expected second))

section

variable {memory : Nat → Option UInt8} {p n : Nat} {value more : List UInt8}

theorem fetch_of_complete (exposes : Exposes memory p (value ++ more)) (enough : n ≤ value.length) :
    fetch memory p n = some (value.take n) := by
  rw [exposes.fetch (by rw [List.length_append]; omega), List.take_append_of_le_length enough]

/-- What is taken of too short a value is not of that value. -/
theorem ne_take_of_short (short : value.length < n) {taken : List UInt8}
    (fetched : fetch memory p n = some taken) : taken ≠ value.take n := by
  intro same
  have length := length_of_fetch fetched
  rw [same, List.length_take] at length
  omega

end

theorem serves_useOptionsWalker :
    Serves useOptionsWalker wantedAddress setGlobal Complete .used .used where
  pad := fun _ _ _ => rfl
  finish := fun _ _ _ => rfl
  idle := ⟨rfl, fun _ => rfl⟩
  leave := fun _ _ leaves => by cases leaves
  fit := by
    intro memory p code value more globals coded exposes complete
    have last : code ≠ 255 := coded.2
    simp only [useOptionsWalker, wantedAddress, setGlobal, if_neg last]
    by_cases address : IsAddress code
    · rw [fetch_of_complete exposes (complete address), if_pos address]
      rcases address with rfl | rfl | rfl
      · rfl
      · rfl
      · rfl
    · have others := not_or.mp address
      rw [if_neg address, if_neg others.1, if_neg (not_or.mp others.2).1,
        if_neg (not_or.mp others.2).2]
      simp only [if_neg others.1, if_neg (not_or.mp others.2).1, if_neg (not_or.mp others.2).2]
  unfit := by
    intro memory p code value more globals next taken coded exposes incomplete body
    obtain ⟨address, short⟩ := Classical.not_imp.mp incomplete
    left
    rw [wantedAddress, if_pos address]
    rcases address with rfl | rfl | rfl
    all_goals
      obtain ⟨quad, fetched, same⟩ := Option.map_eq_some_iff.mp body
      cases same
      exact ne_take_of_short (Nat.not_le.mp short) fetched

theorem serves_optionWalker (second : Bool) (finish : Nat) :
    Serves (optionWalker second finish) wanted (fun code taken config => assign config (code, taken))
      (Welcome second) OKAY 5 where
  pad := fun _ _ _ => rfl
  finish := fun _ _ _ => rfl
  idle := ⟨rfl, fun _ => rfl⟩
  leave := by
    intro p result leaves
    simp only [optionWalker] at leaves
    split at leaves
    · cases leaves
    · cases leaves
      rfl
  fit := by
    intro memory p code value more config coded exposes welcome
    by_cases address : IsAddress code
    · have fetched := fetch_of_complete exposes (welcome.1 address)
      rcases address with rfl | rfl | rfl
      all_goals
        simp only [optionWalker, fetched]
        rfl
    have others := not_or.mp address
    by_cases type : code = 53
    · subst type
      obtain ⟨tail, rfl⟩ : ∃ tail, value = expected second :: tail := by
        cases value with
        | nil => cases welcome.2 rfl
        | cons first tail => exact ⟨tail, by rw [Option.some.inj (welcome.2 rfl)]⟩
      have fetched := fetch_of_complete (n := 1) exposes (by simp)
      simp only [optionWalker, fetched]
      cases second with
      | false => rfl
      | true => rfl
    · have last : code ≠ 255 := coded.2
      simp only [optionWalker, wanted, assign, if_neg address, if_neg type, if_neg last,
        if_neg others.1, if_neg (not_or.mp others.2).1, if_neg (not_or.mp others.2).2]
  unfit := by
    intro memory p code value more config next taken coded exposes unwelcome body
    by_cases complete : Complete code value
    · -- the message type is another one, or missing
      obtain ⟨rfl, other⟩ := Classical.not_imp.mp fun typed => unwelcome ⟨complete, typed⟩
      obtain ⟨type, fetched, same⟩ := Option.map_eq_some_iff.mp body
      cases same
      cases value with
      | nil => exact .inl (ne_take_of_short (by decide) fetched)
      | cons first tail =>
        rw [fetch_of_complete exposes (by simp)] at fetched
        cases fetched
        refine .inr ⟨1, config, ?_, by decide, by decide⟩
        refine if_pos fun same => other ?_
        exact congrArg some (List.cons.inj same).1
    · obtain ⟨address, short⟩ := Classical.not_imp.mp complete
      left
      rw [wanted, if_pos address]
      rcases address with rfl | rfl | rfl
      all_goals
        obtain ⟨quad, fetched, same⟩ := Option.map_eq_some_iff.mp body
        cases same
        exact ne_take_of_short (Nat.not_le.mp short) fetched

/-! ### On which areas they do that -/

/-- The loop of `RecvDhcpReply` follows the reading of the area, in a packet that has so many bytes
behind it. -/
def AxiomFollows (second : Bool) (base : Nat) (items : List Item) (ending : Ending)
    (config : Config) : Prop :=
  Faithful (optionWalker second (base + (encode ending items).length + ending.trailing)) wanted
    (fun code taken config => assign config (code, taken)) OKAY 5
    (exposing base (encode ending items)) ending base items config

/-- `UseOptions` follows the reading of the area, which stands behind the magic number. -/
def UseOptionsFollows (o : Nat) (items : List Item) (ending : Ending) (globals : Globals) : Prop :=
  ∃ rounds visits,
    useOptions (exposing o (DHCP_OPT_MAGIC ++ encode ending items)) rounds o globals =
      some (.used, settle wantedAddress setGlobal globals (found ending (o + 4) items), visits) ∧
    visits.filter (·.code ≠ PAD) = (found ending (o + 4) items).map fun one =>
      ⟨one.place, one.code, wantedAddress one.code one.value⟩

/-- Wherever an area stands, and whatever options it has: `RecvDhcpReply` follows its reading if
and only if padding comes in pairs, addresses are complete, and message types are the one expected;
and `UseOptions` if and only if padding comes in pairs, addresses are complete, and there is an end
option. -/
theorem options_followed_iff (second : Bool) (base : Nat) (items : List Item) (ending : Ending)
    (config : Config) (globals : Globals) :
    (AxiomFollows second base items ending config ↔ Paired items ∧ All (Welcome second) items) ∧
    (UseOptionsFollows base items ending globals ↔
      Paired items ∧ All Complete items ∧ ending ≠ .packet) := by
  refine ⟨?_, ?_⟩
  · rw [AxiomFollows, (serves_optionWalker second _).faithful_iff (exposes_exposing _ _)
      fun p _ inside => if_pos (by omega)]
    refine and_congr_right fun _ => ⟨And.left, fun all => ⟨all, ?_⟩⟩
    rintro rfl
    exact if_neg (Nat.lt_irrefl _)
  · have exposes := exposes_exposing base (DHCP_OPT_MAGIC ++ encode ending items)
    have magic : fetch (exposing base (DHCP_OPT_MAGIC ++ encode ending items)) base 4 =
        some DHCP_OPT_MAGIC := fetch_of_complete exposes (Nat.le_refl _)
    have follows : UseOptionsFollows base items ending globals ↔
        Faithful useOptionsWalker wantedAddress setGlobal .used .used
          (exposing base (DHCP_OPT_MAGIC ++ encode ending items)) ending (base + 4) items
          globals := by
      have result : ending.result Used.used Used.used = .used := by
        cases ending with
        | packet => rfl
        | option trailing => rfl
      simp only [UseOptionsFollows, useOptions, magic, Faithful, result]
      rfl
    have area : Exposes (exposing base (DHCP_OPT_MAGIC ++ encode ending items)) (base + 4)
        (encode ending items) := exposes.skip
    rw [follows, serves_useOptionsWalker.faithful_iff area fun _ _ _ => rfl]
    refine and_congr_right fun _ => and_congr_right fun _ =>
      ⟨fun leaves packet => ?_, fun other packet => absurd packet other⟩
    cases leaves packet

/-- One byte of padding before the mask. -/
theorem not_options_followed_padded :
    ¬ (AxiomFollows false 0x604 [.pad, .option 1 [255, 255, 255, 0] (by decide) (by decide)]
        (.option 0) ⟨[], [], [], [], [], []⟩ ∧
      UseOptionsFollows 0x604 [.pad, .option 1 [255, 255, 255, 0] (by decide) (by decide)]
        (.option 0) ⟨[], [], []⟩) := by
  rintro ⟨follows, -⟩
  refine (serves_optionWalker false _).not_faithful_of_lone (exposes_exposing _ _) ?_ ?_ follows
  · rfl
  · intro rest same
    cases same

end Frobio.NetCmds
