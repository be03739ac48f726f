/-
This file compares the two deciders of what anyone may read: the guard of the web server
and `CanAccess1` for the anonymous principal. The first looks for PUBLIC and PRIVATE
anywhere in the path; the second looks at the first word before that.
-/

import Frobio.Pizga.Guard

namespace Frobio.Pizga

open Coms SlashPath Utf8

/-- A request for a path below `NavRoot`, without credentials. -/
structure Asks (r : Request) (path : Text) : Prop where
  url : r.urlPath = pizga ++ path
  raw : r.rawPath = [] ∨ pizga <+: r.rawPath
  nobody : r.basicAuth = none

/-- A private path under PUBLIC, or a public one under RESTRICTED. -/
def Disputed (table : UpperCase) (path : Text) : Prop :=
  (accessWords table path).head? = some PUBLIC ∧ PRIVATE ∈ accessWords table path ∨
    (accessWords table path).head? = some RESTRICTED ∧ PUBLIC ∈ accessWords table path ∧
      PRIVATE ∉ accessWords table path

variable {o : WebFlags} {r : Request} {names : List Text}

/-! ### The guard -/

theorem readings_below (each : ∀ name ∈ names, Name name) (nonempty : names ≠ []) :
    resolve [] (pizga ++ below names) = pizgaName :: names ∧
      filePath (pizga ++ below names) = clean (below names) := by
  have glued : gluedWord (pizga ++ below names) = [] := by
    rw [gluedWord, List.drop_left, splitOn_below each nonempty]
    rfl
  have later : laterWords (pizga ++ below names) = names := by
    rw [laterWords, List.drop_left, splitOn_below each nonempty]
    rfl
  refine ⟨?_, ?_⟩
  · rw [(readings (List.prefix_append pizga _)).2.2.1, glued, later, List.append_nil,
      walk_names each]
    rfl
  · rw [filePath, List.drop_left]
    rfl

theorem pathFront_below (names : List Text) (nonempty : names ≠ []) :
    pathFront (below (pizgaName :: names)) = some pizga := by
  cases names with
  | nil => exact absurd rfl nonempty
  | cons name names =>
    show pathFront (slash :: [slash].intercalate (pizgaName :: name :: names)) = some pizga
    rw [List.intercalate_cons_cons]
    rfl

/-- The guard lets anyone read what is public, and not private, by any of its words. -/
theorem serves_iff (asks : Asks r (below names)) (each : ∀ name ∈ names, Name name)
    (nonempty : names ≠ []) (notHomes : names ≠ [ascii "Homes"])
    (isClean : clean (below names) = below names) :
    serveHTTP o r = .files (below names) ↔ OpenNames o names := by
  obtain ⟨place, file⟩ := readings_below each nonempty
  have root : rooted (pizga ++ below names) = true := rfl
  have eachPlace : ∀ name ∈ pizgaName :: names, Name name := by
    intro name member
    rcases List.mem_cons.mp member with rfl | later
    · decide
    · exact each name later
  have forPizga : ForPizga r := by
    rw [ForPizga, asks.url, clean_of_rooted root, place]
    exact ⟨pathFront_below names nonempty, List.prefix_append _ _, asks.raw⟩
  have nobody : fullMatch o r = false ∧ readerMatch o r = false := by
    rw [fullMatch, readerMatch, asks.nobody]
    exact ⟨rfl, rfl⟩
  have upper := upper_pizgaName_ne (o := o) []
  rw [List.append_nil] at upper
  rw [serveHTTP_eq_files, letsThrough_iff, nobody.1, nobody.2, asks.url, file, isClean,
    servesPublic_iff root, place, clean_of_rooted root, place,
    mem_publicExceptions_iff eachPlace, OpenNames]
  constructor
  · rintro ⟨-, (⟨isPublic, notPrivate⟩ | wrong | wrong), -⟩
    · refine ⟨?_, fun word member => notPrivate word (List.mem_cons_of_mem _ member)⟩
      rcases isPublic with ⟨word, member, isPublic⟩ | none | alone | homes
      · rcases List.mem_cons.mp member with rfl | later
        · exact absurd isPublic upper.1
        · exact ⟨word, later, isPublic⟩
      · cases none
      · exact absurd (List.cons.inj alone).2 nonempty
      · exact absurd (List.cons.inj homes).2 notHomes
    · cases wrong
    · cases wrong.1
  · rintro ⟨⟨word, member, isPublic⟩, notPrivate⟩
    refine ⟨forPizga, .inl ⟨.inl ⟨word, List.mem_cons_of_mem _ member, isPublic⟩, ?_⟩, rfl⟩
    intro word member
    rcases List.mem_cons.mp member with rfl | later
    · exact upper.2
    · exact notPrivate word later

/-! ### The permissions -/

theorem openNames_iff : OpenNames o names ↔
    PUBLIC ∈ names.map (toUpper o.table) ∧ PRIVATE ∉ names.map (toUpper o.table) := by
  rw [OpenNames, List.mem_map, List.mem_map]
  refine and_congr_right fun _ => ?_
  simp only [not_exists, not_and, ne_eq]

/-- The anonymous principal reads what is under PUBLIC, and what is public and not private by any
of its words and not under RESTRICTED. -/
theorem canAccess1_anonymous {table : UpperCase} {path first : Text} {rest : List Text}
    (words : accessWords table path = first :: rest) (named : ∀ word ∈ rest, word ≠ []) :
    canAccess1 table [] path false = some true ↔
      first = PUBLIC ∨
        first ≠ RESTRICTED ∧ PUBLIC ∈ first :: rest ∧ PRIVATE ∉ first :: rest := by
  rw [canAccess1, words, toUpper_nil]
  simp only [and_true, ne_eq, not_true_eq_false, false_and, if_false]
  by_cases alone : first = HOMES ∧ rest = []
  · rw [if_pos alone, alone.1, alone.2]
    exact iff_of_false (by simp) (by decide)
  rw [if_neg alone]
  have notOwn : ¬(first = HOMES ∧ rest.head? = some []) := fun own =>
    named [] (List.mem_of_head? own.2) rfl
  rw [if_neg notOwn]
  by_cases isPublic : first = PUBLIC
  · rw [if_pos isPublic]
    exact iff_of_true rfl (.inl isPublic)
  rw [if_neg isPublic]
  by_cases restricted : first = RESTRICTED
  · rw [if_pos restricted]
    exact iff_of_false (by decide) fun wrong =>
      wrong.elim isPublic fun other => other.1 restricted
  rw [if_neg restricted]
  by_cases anywhere : PUBLIC ∈ first :: rest ∧ PRIVATE ∉ first :: rest
  · rw [if_pos anywhere]
    exact iff_of_true rfl (.inr ⟨restricted, anywhere⟩)
  · rw [if_neg anywhere]
    exact iff_of_false (by decide) fun wrong =>
      wrong.elim isPublic fun other => anywhere other.2

/-! ### Agreement -/

/-- Two deciders agree where neither of the cases comes in that one of them has alone. -/
theorem deciders_agree_iff {under restricted isPublic isPrivate : Prop}
    (apart : under → ¬restricted) (word : under → isPublic) :
    (isPublic ∧ ¬isPrivate ↔ under ∨ ¬restricted ∧ isPublic ∧ ¬isPrivate) ↔
      ¬(under ∧ isPrivate ∨ restricted ∧ isPublic ∧ ¬isPrivate) := by
  tauto

/-- The guard and the permissions agree on what anyone may read, but for a private path under
PUBLIC and a public path under RESTRICTED. -/
theorem agree_iff_not_disputed (o : WebFlags) (r : Request) (path : Text)
    (root : rooted path = true) (isClean : clean path = path) (notRoot : path ≠ ascii "/")
    (notHomes : path ≠ ascii "/Homes") (asks : Asks r path) :
    (serveHTTP o r = .files path ↔ canAccess1 o.table [] path false = some true) ↔
      ¬Disputed o.table path := by
  have each : ∀ name ∈ resolve [] path, Name name := fun _ => name_of_mem_resolve root
  have same : path = below (resolve [] path) := isClean.symm.trans (clean_of_rooted root)
  generalize resolve [] path = names at each same
  subst same
  have nonempty : names ≠ [] := by
    rintro rfl
    exact notRoot rfl
  have others : names ≠ [ascii "Homes"] := by
    rintro rfl
    exact notHomes rfl
  have words : accessWords o.table (below names) = names.map (toUpper o.table) :=
    accessWords_below each nonempty isClean
  rw [serves_iff asks each nonempty others isClean, openNames_iff, ← words, Disputed]
  cases upper : accessWords o.table (below names) with
  | nil =>
    rw [words] at upper
    exact absurd (List.map_eq_nil_iff.mp upper) nonempty
  | cons first rest =>
    have named : ∀ word ∈ rest, word ≠ [] := by
      intro word member
      have inside : word ∈ names.map (toUpper o.table) := by
        rw [← words, upper]
        exact List.mem_cons_of_mem _ member
      obtain ⟨name, named, rfl⟩ := List.mem_map.mp inside
      exact toUpper_ne_nil (each name named).1
    rw [canAccess1_anonymous upper named, List.head?_cons, Option.some.injEq, Option.some.injEq]
    exact deciders_agree_iff (fun same => same ▸ by decide) fun same => same ▸ List.mem_cons_self

def gamesOfAll : Request := ⟨ascii "GET", ascii "/pizga/Games/Public", [], none⟩

theorem agree_iff_not_disputed_gamesOfAll :
    (serveHTTP plainFlags gamesOfAll = .files (ascii "/Games/Public") ↔
      canAccess1 plainFlags.table [] (ascii "/Games/Public") false = some true) ↔
      ¬Disputed plainFlags.table (ascii "/Games/Public") :=
  agree_iff_not_disputed plainFlags gamesOfAll (ascii "/Games/Public") (by decide) (by decide +kernel)
    (by decide) (by decide) ⟨rfl, .inl rfl, rfl⟩

def restrictedPublic : Request := ⟨ascii "GET", ascii "/pizga/Restricted/Public", [], none⟩

/-- The web server lets anyone read a public path under RESTRICTED. -/
theorem not_agree_restrictedPublic :
    ¬(serveHTTP plainFlags restrictedPublic = .files (ascii "/Restricted/Public") ↔
      canAccess1 plainFlags.table [] (ascii "/Restricted/Public") false = some true) := by
  decide +kernel

end Frobio.Pizga
