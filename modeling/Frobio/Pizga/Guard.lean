/-
This file compares how the guard of the web server reads the path of a request with how
the file server behind it does. The guard cleans the whole path; the file server cleans
what is left of it when `/pizga` is stripped.

The two agree where `/pizga` is a word of the path that the path does not climb above.
They differ where something is glued to `/pizga` without a slash, which is a word of its
own to the file server, and where the path climbs above `/pizga` and comes back.
-/

import Frobio.Pizga.Web

namespace Frobio.Pizga

open Coms SlashPath Utf8

variable (o : WebFlags)

/-! ### What the guard should do -/

/-- What anyone may read, by the path below `NavRoot`. -/
def OpenPath (path : Text) : Prop :=
  path = ascii "/" ∨ path = ascii "/Homes" ∨
    (∃ word ∈ path.splitOn slash, toUpper o.table word = PUBLIC) ∧
      ∀ word ∈ path.splitOn slash, toUpper o.table word ≠ PRIVATE

def ReadsOnly (method : Text) : Prop := method = ascii "GET" ∨ method = ascii "HEAD"

/-- A request without the owner's credentials reaches the file server only for what anyone may
read, or with the password of the readers and to read. -/
def Guarded (r : Request) : Prop :=
  ∀ path, serveHTTP o r = .files path → fullMatch o r = false →
    OpenPath o path ∨ readerMatch o r = true ∧ ReadsOnly r.method

/-! ### The condition -/

/-- The word that is glued to `/pizga`, which is empty if a slash or nothing comes next. -/
def gluedWord (urlPath : Text) : Text := ((urlPath.drop pizga.length).splitOn slash).headD []

/-- The words after the first. -/
def laterWords (urlPath : Text) : List Text := ((urlPath.drop pizga.length).splitOn slash).tail

/-- The path climbs above `/pizga` and comes back to one of the exceptions, or PRIVATE is glued to
`/pizga`. -/
def Tricky (urlPath : Text) : Prop :=
  if Climbs (laterWords urlPath) then clean urlPath ∈ PublicExceptions
  else toUpper o.table (gluedWord urlPath) = PRIVATE

/-- The path of the file server. -/
def filePath (urlPath : Text) : Text :=
  let upath := urlPath.drop pizga.length
  clean (if rooted upath then upath else slash :: upath)

/-- The request is for `/pizga`. -/
def ForPizga (r : Request) : Prop :=
  pathFront (clean r.urlPath) = some pizga ∧ pizga <+: r.urlPath ∧
    (r.rawPath = [] ∨ pizga <+: r.rawPath)

/-- The method is GET or HEAD, but not in capitals. -/
def ReadsInSmallLetters (method : Text) : Prop :=
  (toUpper o.table method = ascii "GET" ∨ toUpper o.table method = ascii "HEAD") ∧
    ¬ReadsOnly method

/-- The requests that are let through by mistake. -/
def Slips (r : Request) : Prop :=
  ForPizga r ∧ fullMatch o r = false ∧ ¬(readerMatch o r = true ∧ ReadsOnly r.method) ∧
    (servesPublic o r.urlPath = true ∧ Tricky o r.urlPath ∨
      servesPublic o r.urlPath = false ∧ readerMatch o r = true ∧
        ReadsInSmallLetters o r.method ∧ ¬OpenPath o (filePath r.urlPath))

/-! ### Words of a path from the root -/

section

variable {o}

theorem word_below_iff {names : List Text} (each : ∀ name ∈ names, Name name) {word : Text}
    (some : word ≠ []) :
    (∃ other ∈ (below names).splitOn slash, toUpper o.table other = word) ↔
      ∃ other ∈ names, toUpper o.table other = word := by
  by_cases empty : names = []
  · subst empty
    have split : (below []).splitOn slash = [[], []] := by decide
    rw [split]
    refine iff_of_false ?_ fun ⟨other, member, _⟩ => absurd member List.not_mem_nil
    rintro ⟨other, member, upper⟩
    have nothing : other = [] := by simpa using member
    rw [nothing, toUpper_nil] at upper
    exact some upper.symm
  · rw [splitOn_below each empty]
    constructor
    · rintro ⟨other, member, upper⟩
      rcases List.mem_cons.mp member with rfl | member
      · exact absurd (upper.symm.trans toUpper_nil) some
      · exact ⟨other, member, upper⟩
    · exact fun ⟨other, member, upper⟩ => ⟨other, List.mem_cons_of_mem _ member, upper⟩

theorem noWord_below_iff {names : List Text} (each : ∀ name ∈ names, Name name) {word : Text}
    (some : word ≠ []) :
    (∀ other ∈ (below names).splitOn slash, toUpper o.table other ≠ word) ↔
      ∀ other ∈ names, toUpper o.table other ≠ word := by
  have negated := not_congr (word_below_iff (o := o) each some)
  simpa only [not_exists, not_and] using negated

/-- A path is one of the given ones by its names. -/
theorem below_eq_iff {names names' : List Text} (each : ∀ name ∈ names, Name name)
    (each' : ∀ name ∈ names', Name name) {text : Text} (same : below names' = text) :
    below names = text ↔ names = names' := by
  rw [← same]
  exact ⟨below_inj each each', congrArg below⟩

/-- What anyone may read, by the names. -/
def OpenNames (o : WebFlags) (names : List Text) : Prop :=
  (∃ word ∈ names, toUpper o.table word = PUBLIC) ∧ ∀ word ∈ names, toUpper o.table word ≠ PRIVATE

theorem openNames_below_iff {names : List Text} (each : ∀ name ∈ names, Name name) :
    ((∃ word ∈ (below names).splitOn slash, toUpper o.table word = PUBLIC) ∧
      ∀ word ∈ (below names).splitOn slash, toUpper o.table word ≠ PRIVATE) ↔
        OpenNames o names := by
  exact and_congr (word_below_iff each (by decide)) (noWord_below_iff each (by decide))

theorem openPath_below_iff {names : List Text} (each : ∀ name ∈ names, Name name) :
    OpenPath o (below names) ↔
      names = [] ∨ names = [ascii "Homes"] ∨ OpenNames o names := by
  rw [OpenPath, openNames_below_iff each,
    below_eq_iff each (fun _ member => absurd member List.not_mem_nil) (by decide),
    @below_eq_iff names [ascii "Homes"] each (by decide) _ (by decide)]

theorem servesPublic_iff {urlPath : Text} (root : rooted urlPath = true) :
    servesPublic o urlPath = true ↔
      ((∃ word ∈ resolve [] urlPath, toUpper o.table word = PUBLIC) ∨
        clean urlPath ∈ PublicExceptions) ∧
      ∀ word ∈ resolve [] urlPath, toUpper o.table word ≠ PRIVATE := by
  have each : ∀ name ∈ resolve [] urlPath, Name name := fun _ => name_of_mem_resolve root
  rw [← word_below_iff each (by decide : PUBLIC ≠ []),
    ← noWord_below_iff each (by decide : PRIVATE ≠ []), ← clean_of_rooted root, servesPublic]
  simp only [Bool.and_eq_true, Bool.or_eq_true, List.any_eq_true, beq_iff_eq,
    List.contains_iff_mem, Bool.not_eq_true', List.any_eq_false, ne_eq]

/-! ### The two readings -/

/-- What follows the slash of `/pizga`. -/
def pizgaName : Text := ascii "pizga"

theorem toUpper_pizgaName (word : Text) :
    toUpper o.table (pizgaName ++ word) = ascii "PIZGA" ++ toUpper o.table word := by
  show toUpper o.table (112 :: 105 :: 122 :: 103 :: 97 :: word) = _
  rw [toUpper_cons_of_ascii (by decide), toUpper_cons_of_ascii (by decide),
    toUpper_cons_of_ascii (by decide), toUpper_cons_of_ascii (by decide),
    toUpper_cons_of_ascii (by decide)]
  rfl

theorem name_pizgaName {word : Text} (noSlash : slash ∉ word) : Name (pizgaName ++ word) := by
  refine ⟨nofun, fun same => ?_, fun same => ?_, fun inside => ?_⟩
  · exact absurd (List.cons.inj same).1 (by decide)
  · exact absurd (List.cons.inj same).1 (by decide)
  · exact (List.mem_append.mp inside).elim (by decide) noSlash

theorem resolve_slash (text : Text) : resolve [] (slash :: text) = walk [] (text.splitOn slash) := by
  have split : ([] ++ slash :: text).splitOn slash = [] :: text.splitOn slash := by
    rw [List.splitOn_append_cons_self]
    rfl
  show walk [] (([] ++ slash :: text).splitOn slash) = _
  rw [split]
  rfl

/-- Where a path under `/pizga` leads, and where it leads to the file server. -/
theorem readings {urlPath : Text} (starts : pizga <+: urlPath) :
    rooted urlPath = true ∧ slash ∉ gluedWord urlPath ∧
      resolve [] urlPath = walk [pizgaName ++ gluedWord urlPath] (laterWords urlPath) ∧
      ∃ names, filePath urlPath = below names ∧ (∀ name ∈ names, Name name) ∧
        names = walk (follow [] (gluedWord urlPath)) (laterWords urlPath) := by
  obtain ⟨rest, rfl⟩ := starts
  have dropped : (pizga ++ rest).drop pizga.length = rest := List.drop_left
  obtain ⟨first, words, split⟩ : ∃ first words, rest.splitOn slash = first :: words := by
    cases parts : rest.splitOn slash with
    | nil => exact absurd parts (List.splitOn_ne_nil slash rest)
    | cons first words => exact ⟨first, words, rfl⟩
  have noSlash : slash ∉ first := noSlash_of_mem_splitOn (split ▸ List.mem_cons_self)
  rw [gluedWord, laterWords, filePath, dropped, split]
  refine ⟨rfl, noSlash, ?_, ?_⟩
  · show resolve [] (slash :: (pizgaName ++ rest)) = walk [pizgaName ++ first] words
    rw [resolve_slash, splitOn_append_of_noSlash (by decide) split]
    show walk (follow [] (pizgaName ++ first)) words = _
    rw [follow_name (name_pizgaName noSlash)]
    rfl
  · have root : rooted (if rooted rest = true then rest else slash :: rest) = true := by
      split
      · assumption
      · rfl
    refine ⟨_, clean_of_rooted root, fun name => name_of_mem_resolve root, ?_⟩
    split
    · rename_i already
      rw [resolve, already, split]
      rfl
    · rw [resolve_slash, split]
      rfl

/-- A name has no upper case that an empty word or a dot has. -/
theorem follow_of_upper {word upper : Text} (same : toUpper o.table word = upper)
    (some : upper ≠ []) (noDot : upper ≠ dot) (noUp : upper ≠ dotdot) : follow [] word = [word] := by
  have kept (other : Text) (ascii : toUpper o.table other = other) (differs : upper ≠ other) :
      word ≠ other := by
    rintro rfl
    exact differs (same.symm.trans ascii)
  rw [follow, if_neg, if_neg]
  · rfl
  · exact kept dotdot (by
      rw [dotdot, toUpper_cons_of_ascii (by decide), toUpper_cons_of_ascii (by decide)]
      rfl) noUp
  · rintro (empty | single)
    · exact kept [] toUpper_nil some empty
    · exact kept dot (by
        rw [dot, toUpper_cons_of_ascii (by decide)]
        rfl) noDot single

theorem mem_publicExceptions_iff {names : List Text} (each : ∀ name ∈ names, Name name) :
    below names ∈ PublicExceptions ↔
      names = [] ∨ names = [pizgaName] ∨ names = [pizgaName, ascii "Homes"] := by
  rw [PublicExceptions, List.mem_cons, List.mem_cons, List.mem_singleton,
    below_eq_iff each (fun _ member => absurd member List.not_mem_nil) (by decide),
    @below_eq_iff names [pizgaName] each (by decide) _ (by decide),
    @below_eq_iff names [pizgaName, ascii "Homes"] each (by decide) _ (by decide)]

theorem follow_nil_cases (word : Text) : follow [] word = [] ∨ follow [] word = [word] := by
  rw [follow]
  split
  · exact .inl rfl
  split
  · exact .inl rfl
  · exact .inr rfl

/-- The word in front is climbed above or stays. -/
theorem walk_follow (word : Text) (words : List Text) :
    (Climbs words → walk (follow [] word) words = walk [] words) ∧
      (¬Climbs words → walk (follow [] word) words = follow [] word ++ walk [] words) := by
  rcases follow_nil_cases word with empty | alone
  · rw [empty]
    exact ⟨fun _ => rfl, fun _ => rfl⟩
  · rw [alone]
    rcases walk_name word words with ⟨climbs, up⟩ | ⟨stays, under⟩
    · exact ⟨fun _ => up, fun stays => absurd climbs stays⟩
    · exact ⟨fun climbs => absurd climbs stays, fun _ => under⟩

theorem toUpper_homes : toUpper o.table (ascii "Homes") = HOMES := rfl

theorem upper_pizgaName_ne (word : Text) :
    toUpper o.table (pizgaName ++ word) ≠ PUBLIC ∧ toUpper o.table (pizgaName ++ word) ≠ PRIVATE := by
  rw [toUpper_pizgaName]
  refine ⟨fun same => ?_, fun same => ?_⟩
  · exact absurd (List.cons.inj (List.cons.inj same).2).1 (by decide)
  · exact absurd (List.cons.inj (List.cons.inj same).2).1 (by decide)

/-- The exceptions under `/pizga` are not open one level further down. -/
theorem not_open_exceptions {names : List Text}
    (exception : names = [pizgaName] ∨ names = [pizgaName, ascii "Homes"]) :
    ¬(names = [] ∨ names = [ascii "Homes"] ∨ OpenNames o names) := by
  have upper := (upper_pizgaName_ne (o := o) []).1
  rw [List.append_nil] at upper
  rcases exception with rfl | rfl
  · rintro (none | homes | ⟨⟨word, member, isPublic⟩, -⟩)
    · cases none
    · exact absurd homes (by decide)
    · rw [List.mem_singleton.mp member] at isPublic
      exact upper isPublic
  · rintro (none | homes | ⟨⟨word, member, isPublic⟩, -⟩)
    · cases none
    · exact absurd homes (by decide)
    · rcases List.mem_cons.mp member with rfl | last
      · exact upper isPublic
      · rw [List.mem_singleton.mp last, toUpper_homes] at isPublic
        exact absurd isPublic (by decide)

/-- What the guard takes for public is open, unless the path is tricky. -/
theorem openPath_of_servesPublic {urlPath : Text} (starts : pizga <+: urlPath)
    (serves : servesPublic o urlPath = true) (notRoot : resolve [] urlPath ≠ []) :
    OpenPath o (filePath urlPath) ↔ ¬Tricky o urlPath := by
  obtain ⟨root, noSlash, place, names, file, each, same⟩ := readings starts
  have eachPlace : ∀ name ∈ resolve [] urlPath, Name name := fun _ => name_of_mem_resolve root
  obtain ⟨isPublic, notPrivate⟩ := (servesPublic_iff root).mp serves
  rw [clean_of_rooted root, mem_publicExceptions_iff eachPlace] at isPublic
  rw [file, openPath_below_iff each, Tricky, clean_of_rooted root,
    mem_publicExceptions_iff eachPlace]
  obtain ⟨ups, stays⟩ := walk_follow (gluedWord urlPath) (laterWords urlPath)
  rcases walk_name (pizgaName ++ gluedWord urlPath) (laterWords urlPath) with
    ⟨climbs, up⟩ | ⟨low, under⟩
  · -- above `/pizga` the two readings are one
    have both : names = resolve [] urlPath := by
      rw [same, place, up, ups climbs]
    rw [if_pos climbs, both]
    by_cases exception : resolve [] urlPath = [pizgaName] ∨
        resolve [] urlPath = [pizgaName, ascii "Homes"]
    · exact iff_of_false (not_open_exceptions exception) fun not => not (.inr exception)
    · refine iff_of_true (.inr (.inr ⟨?_, notPrivate⟩)) fun wrong => ?_
      · exact isPublic.resolve_right fun wrong => (wrong.resolve_left notRoot |> exception)
      · exact wrong.resolve_left notRoot |> exception
  · -- below it they differ in the word that is glued to it
    rw [if_neg low]
    rw [place, under] at isPublic notPrivate
    rw [stays low] at same
    have laterNotPrivate : ∀ word ∈ walk [] (laterWords urlPath), toUpper o.table word ≠ PRIVATE :=
      fun word member => notPrivate word (List.mem_cons_of_mem _ member)
    by_cases isPrivate : toUpper o.table (gluedWord urlPath) = PRIVATE
    · refine iff_of_false ?_ fun not => not isPrivate
      rw [follow_of_upper isPrivate (by decide) (by decide) (by decide)] at same
      rw [same]
      rintro (none | homes | ⟨-, nowhere⟩)
      · cases none
      · obtain ⟨glued, -⟩ := List.cons.inj homes
        rw [glued, toUpper_homes] at isPrivate
        exact absurd isPrivate (by decide)
      · exact nowhere _ List.mem_cons_self isPrivate
    · refine iff_of_true ?_ isPrivate
      have notPrivate' : ∀ word ∈ names, toUpper o.table word ≠ PRIVATE := by
        intro word member
        rw [same] at member
        rcases List.mem_append.mp member with glued | later
        · rcases follow_nil_cases (gluedWord urlPath) with empty | alone
          · rw [empty] at glued
            cases glued
          · rw [alone] at glued
            rw [List.mem_singleton.mp glued]
            exact isPrivate
        · exact laterNotPrivate word later
      have glued_eq {rest : Text} (glued : pizgaName ++ gluedWord urlPath = pizgaName ++ rest) :
          gluedWord urlPath = rest := List.append_cancel_left glued
      rcases isPublic with ⟨word, member, isPublic⟩ | root | alone | homes
      · refine .inr (.inr ⟨⟨word, ?_, isPublic⟩, notPrivate'⟩)
        rw [same]
        rcases List.mem_cons.mp member with rfl | later
        · exact absurd isPublic (upper_pizgaName_ne _).1
        · exact List.mem_append_right _ later
      · cases root
      · obtain ⟨first, rest⟩ := List.cons.inj alone
        rw [same, rest, List.append_nil, glued_eq (first.trans (List.append_nil _).symm)]
        exact .inl rfl
      · obtain ⟨first, rest⟩ := List.cons.inj homes
        rw [same, rest, glued_eq (first.trans (List.append_nil _).symm)]
        exact .inr (.inl rfl)

/-! ### The handler for `/pizga` -/

/-- A path with this front begins with it. -/
theorem prefix_of_pathFront {p : Text} (front : pathFront p = some pizga) : pizga <+: p := by
  cases p with
  | nil => cases front
  | cons first rest =>
    rw [pathFront] at front
    split at front
    · rename_i isSlash
      have taken : rest.takeWhile isFrontByte = pizgaName :=
        (List.cons.inj (Option.some.inj front)).2
      rw [isSlash]
      show slash :: pizgaName <+: slash :: rest
      rw [← taken]
      exact List.cons_prefix_cons.mpr ⟨rfl, List.takeWhile_prefix _⟩
    · cases front

/-- The paths are as they came, or were rewritten to another front. -/
def Unless (urlPath : Text) (paths : Text × Text) : Prop :=
  paths = (clean urlPath, urlPath) ∨ ascii "/w" <+: paths.1 ∧ ¬pizga <+: clean urlPath

theorem unless_rewriteWhere {urlPath : Text} {applies : Text → Bool} {rewritten : Text → Text}
    (other : ∀ p, applies p = true → ¬pizga <+: p) (starts : ∀ p, ascii "/w" <+: rewritten p)
    {paths : Text × Text} (before : Unless urlPath paths) :
    Unless urlPath (rewriteWhere applies rewritten paths) := by
  rw [rewriteWhere]
  split
  · rename_i here
    refine .inr ⟨starts _, ?_⟩
    rcases before with rfl | ⟨-, already⟩
    · exact other _ here
    · exact already
  · exact before

theorem not_pizga_of_prefix {p pre : Text} (starts : pre <+: p) (other : ¬pizga <+: pre)
    (other' : ¬pre <+: pizga) : ¬pizga <+: p := fun wrong =>
  (List.prefix_or_prefix_of_prefix wrong starts).elim other other'

theorem unless_rewrite (urlPath : Text) : Unless urlPath (rewrite urlPath) := by
  have start : Unless urlPath (clean urlPath, urlPath) := .inl rfl
  rw [rewrite]
  refine unless_rewriteWhere (fun p tilde => ?_) (fun p => ?_)
    (unless_rewriteWhere (fun p icon => ?_) (fun p => ?_)
      (unless_rewriteWhere (fun p known => ?_) (fun p => ?_) start))
  · rw [isTilde, Bool.and_eq_true, Bool.and_eq_true, beq_iff_eq] at tilde
    exact not_pizga_of_prefix (tilde.1.1 ▸ List.take_prefix 2 p) (by decide) (by decide)
  · exact List.prefix_append_of_prefix (by decide)
  · rw [beq_iff_eq.mp icon]
    decide
  · exact (by decide : ascii "/w" <+: ascii "/web-static/favicon.ico")
  · exact not_pizga_of_prefix (List.isPrefixOf_iff_prefix.mp known) (by decide) (by decide)
  · exact List.prefix_append_of_prefix (by decide)

/-- The path of a request that comes to the guard was not rewritten. -/
theorem rewrite_of_front {urlPath : Text} (front : pathFront (rewrite urlPath).1 = some pizga) :
    rewrite urlPath = (clean urlPath, urlPath) := by
  refine (unless_rewrite urlPath).resolve_right fun ⟨starts, _⟩ => ?_
  exact not_pizga_of_prefix starts (by decide) (by decide) (prefix_of_pathFront front)

theorem rewrite_of_clean_front {urlPath : Text} (front : pathFront (clean urlPath) = some pizga) :
    rewrite urlPath = (clean urlPath, urlPath) :=
  (unless_rewrite urlPath).resolve_right fun ⟨_, other⟩ => other (prefix_of_pathFront front)

theorem letsThrough_iff {r : Request} {urlPath : Text} :
    letsThrough o r urlPath = true ↔ servesPublic o urlPath = true ∨ fullMatch o r = true ∨
      readerMatch o r = true ∧
        (toUpper o.table r.method = ascii "GET" ∨ toUpper o.table r.method = ascii "HEAD") := by
  rw [letsThrough]
  simp only [Bool.or_eq_true, Bool.and_eq_true, beq_iff_eq, or_assoc]

/-- The file server is reached by what is for it and is let through. -/
theorem serveHTTP_eq_files {r : Request} {path : Text} :
    serveHTTP o r = .files path ↔
      ForPizga r ∧ letsThrough o r r.urlPath = true ∧ path = filePath r.urlPath := by
  rw [serveHTTP]
  by_cases front : pathFront (clean r.urlPath) = some pizga
  · rw [rewrite_of_clean_front front]
    dsimp only
    rw [front]
    dsimp only
    rw [if_pos rfl, ForPizga, stripAndServe]
    by_cases lets : letsThrough o r r.urlPath = true
    · rw [if_pos lets]
      by_cases strips : pizga <+: r.urlPath ∧ (r.rawPath = [] ∨ pizga <+: r.rawPath)
      · rw [if_pos strips]
        refine ⟨fun same => ⟨⟨front, strips⟩, lets, ?_⟩, fun ⟨_, _, same⟩ => ?_⟩
        · exact (Answer.files.inj same).symm
        · rw [same]
          rfl
      · rw [if_neg strips]
        exact iff_of_false nofun fun ⟨⟨_, wrong⟩, _⟩ => strips wrong
    · rw [if_neg lets]
      exact iff_of_false nofun fun ⟨_, wrong, _⟩ => lets wrong
  · refine iff_of_false (fun reaches => ?_) fun ⟨⟨wrong, _⟩, _⟩ => front wrong
    cases found : pathFront (rewrite r.urlPath).1 with
    | none =>
      rw [found] at reaches
      cases reaches
    | some other =>
      rw [found] at reaches
      dsimp only at reaches
      split at reaches
      · rename_i same
        rw [same] at found
        rw [rewrite_of_front found] at found
        exact front found
      · split at reaches
        · cases reaches
        · cases reaches

end

/-- The guard does what it should but for the requests that slip through: those whose path climbs
above `/pizga` and comes back to an exception, those that have PRIVATE glued to `/pizga`, and those
of a reader that say get or head in small letters. -/
theorem guarded_iff_not_slips (o : WebFlags) (r : Request) : Guarded o r ↔ ¬Slips o r := by
  by_cases forPizga : ForPizga r
  · have notRoot : resolve [] r.urlPath ≠ [] := by
      intro root
      have starts := prefix_of_pathFront forPizga.1
      rw [clean_of_rooted (readings forPizga.2.1).1, root] at starts
      exact absurd starts (by decide)
    have reached : Guarded o r ↔ (letsThrough o r r.urlPath = true → fullMatch o r = false →
        OpenPath o (filePath r.urlPath) ∨ readerMatch o r = true ∧ ReadsOnly r.method) := by
      refine ⟨fun guarded lets => guarded _ (serveHTTP_eq_files.mpr ⟨forPizga, lets, rfl⟩),
        fun guarded path reaches => ?_⟩
      obtain ⟨-, lets, rfl⟩ := serveHTTP_eq_files.mp reaches
      exact guarded lets
    rw [reached, letsThrough_iff]
    constructor
    · rintro guarded ⟨-, notFull, notReads, ⟨serves, tricky⟩ | ⟨-, reader, ⟨reads, -⟩, closed⟩⟩
      · refine (guarded (.inl serves) notFull).elim (fun opens => ?_) notReads
        exact (openPath_of_servesPublic forPizga.2.1 serves notRoot).mp opens tricky
      · exact (guarded (.inr (.inr ⟨reader, reads⟩)) notFull).elim closed notReads
    · intro noSlip lets notFull
      by_contra bad
      rw [not_or] at bad
      refine noSlip ⟨forPizga, notFull, bad.2, ?_⟩
      by_cases serves : servesPublic o r.urlPath = true
      · refine .inl ⟨serves, ?_⟩
        by_contra plain
        exact bad.1 ((openPath_of_servesPublic forPizga.2.1 serves notRoot).mpr plain)
      · rcases lets with wrong | full | ⟨reader, reads⟩
        · exact absurd wrong serves
        · rw [full] at notFull
          cases notFull
        · refine .inr ⟨Bool.eq_false_iff.mpr serves, reader, ⟨reads, fun capitals => ?_⟩, bad.1⟩
          exact bad.2 ⟨reader, capitals⟩
  · refine iff_of_true (fun path reaches => ?_) fun ⟨wrong, _⟩ => forPizga wrong
    exact absurd (serveHTTP_eq_files.mp reaches).1 forPizga

/-! ### A private file -/

/-- Nothing beyond ASCII has another upper case. -/
def plainUpper : UpperCase := ⟨fun rune => max rune 128, fun rune => by omega⟩

def plainFlags : WebFlags := ⟨plainUpper, id, ascii "XLXL-KVYYOVH"⟩

def gluedPrivate : Request := ⟨ascii "GET", ascii "/pizgaPRIVATE/PUBLIC/DIARY", [], none⟩

/-- Anyone reads what is under PRIVATE. -/
theorem not_guarded_gluedPrivate : ¬Guarded plainFlags gluedPrivate := by
  intro guarded
  have reaches : serveHTTP plainFlags gluedPrivate = .files (ascii "/PRIVATE/PUBLIC/DIARY") := by
    decide +kernel
  rcases guarded _ reaches rfl with opens | ⟨reader, -⟩
  · rcases opens with root | homes | ⟨-, nowhere⟩
    · exact absurd root (by decide)
    · exact absurd homes (by decide)
    · exact nowhere (ascii "PRIVATE") (by decide) rfl
  · exact absurd reader (by decide)

end Frobio.Pizga
