/-
This file is about slash-separated paths: how they are cleaned and joined as text,
and where they lead.

`resolve` is what a path means. It walks from the root, or from the current
directory, one word at a time; an empty word and `.` stay, and `..` goes up. A
symbolic link is not followed: a place is the list of names that leads to it.
The text operations are then judged by what they do to the place: cleaning a path
leads to the same place (`resolve_clean`), and appending a path of names leads
below (`resolve_append`).
-/

import Mathlib.Data.List.Basic
import Mathlib.Tactic

namespace Frobio.SlashPath

/-- A path, or a part of one, as bytes. -/
abbrev Text := List UInt8

def slash : UInt8 := 47

def dot : Text := [46]

def dotdot : Text := [46, 46]

/-! ### Where a path leads -/

/-- Follow one word from a directory, the directory being the names from the root on. -/
def follow (place : List Text) (word : Text) : List Text :=
  if word = [] ∨ word = dot then place
  else if word = dotdot then place.dropLast
  else place ++ [word]

def walk (place : List Text) (words : List Text) : List Text := words.foldl follow place

def rooted (path : Text) : Bool := path.head? == some slash

/-- The place a path leads to from a directory. -/
def resolve (current : List Text) (path : Text) : List Text :=
  walk (if rooted path then [] else current) (path.splitOn slash)

/-- A word that is the name of something in a directory. -/
def Name (word : Text) : Prop := word ≠ [] ∧ word ≠ dot ∧ word ≠ dotdot ∧ slash ∉ word

instance (word : Text) : Decidable (Name word) :=
  inferInstanceAs (Decidable (_ ∧ _ ∧ _ ∧ _))

@[simp] theorem walk_nil (place : List Text) : walk place [] = place := rfl

@[simp] theorem walk_append (place : List Text) (first second : List Text) :
    walk place (first ++ second) = walk (walk place first) second :=
  List.foldl_append

theorem follow_name {word : Text} (name : Name word) (place : List Text) :
    follow place word = place ++ [word] := by
  rw [follow, if_neg (by rintro (empty | same); exacts [name.1 empty, name.2.1 same]),
    if_neg name.2.2.1]

theorem walk_names {words : List Text} (names : ∀ word ∈ words, Name word) (place : List Text) :
    walk place words = place ++ words := by
  induction words generalizing place with
  | nil => rw [walk_nil, List.append_nil]
  | cons word rest inductionHypothesis =>
    show walk (follow place word) rest = _
    rw [follow_name (names word List.mem_cons_self),
      inductionHypothesis fun other member => names other (List.mem_cons_of_mem _ member),
      List.append_assoc]
    rfl

theorem rooted_append {path : Text} (rest : Text) (some : path ≠ []) :
    rooted (path ++ rest) = rooted path := by
  cases path with
  | nil => exact absurd rfl some
  | cons => rfl

/-- What follows a slash is followed from where the path before the slash leads. -/
theorem resolve_append (current : List Text) {path : Text} (some : path ≠ []) (rest : Text) :
    resolve current (path ++ slash :: rest) = walk (resolve current path) (rest.splitOn slash) := by
  rw [resolve, resolve, rooted_append _ some, List.splitOn_append_cons_self, walk_append]

/-- The words of names joined by slashes are the names. -/
theorem splitOn_intercalate {words : List Text} (names : ∀ word ∈ words, Name word)
    (some : words ≠ []) : ([slash].intercalate words).splitOn slash = words :=
  List.splitOn_intercalate slash (fun word member => (names word member).2.2.2) some

/-! ### Cleaning -/

/-- Take one more word into a path that is clean so far. -/
def cleanWord (fromRoot : Bool) (words : List Text) (word : Text) : List Text :=
  if word = [] ∨ word = dot then words
  else if word = dotdot then
    match words.getLast? with
    | some last => if last = dotdot then words ++ [dotdot] else words.dropLast
    | none => if fromRoot then [] else [dotdot]
  else words ++ [word]

def cleanWords (fromRoot : Bool) (words : List Text) : List Text :=
  words.foldl (cleanWord fromRoot) []

/-- The shortest path equivalent to the given one by processing of `.`, `..` and slashes alone. -/
def clean (path : Text) : Text :=
  let words := cleanWords (rooted path) (path.splitOn slash)
  if rooted path then slash :: [slash].intercalate words
  else if words = [] then dot
  else [slash].intercalate words

/-- Join the elements that are not empty, and clean. -/
def join (elements : List Text) : Text :=
  match elements.filter (· ≠ []) with
  | [] => []
  | words => clean ([slash].intercalate words)

/-- The last word of a path. -/
def base (path : Text) : Text :=
  if path = [] then dot
  else
    match (path.splitOn slash).reverse.find? (· ≠ []) with
    | some word => word
    | none => [slash]

/-- The words of a clean path: `..` only at the front, and nothing empty. -/
def CleanWords (words : List Text) : Prop := ∀ word ∈ words, word = dotdot ∨ Name word

theorem cleanWord_clean {fromRoot : Bool} {words : List Text} (clean : CleanWords words)
    {word : Text} (noSlash : slash ∉ word) : CleanWords (cleanWord fromRoot words word) := by
  unfold cleanWord
  split
  · exact clean
  · rename_i visible
    split
    · split
      · split
        · intro other member
          rcases List.mem_append.mp member with old | new
          · exact clean other old
          · exact .inl (List.mem_singleton.mp new)
        · exact fun other member => clean other (List.mem_of_mem_dropLast member)
      · split
        · exact fun other member => (List.not_mem_nil member).elim
        · exact fun other member => .inl (List.mem_singleton.mp member)
    · rename_i up
      intro other member
      rcases List.mem_append.mp member with old | new
      · exact clean other old
      · rw [List.mem_singleton.mp new]
        exact .inr ⟨fun empty => visible (.inl empty), fun same => visible (.inr same), up, noSlash⟩

theorem noSlash_of_mem_splitOn {path word : Text} (member : word ∈ path.splitOn slash) :
    slash ∉ word := by
  induction path generalizing word with
  | nil =>
    rw [List.splitOn_nil, List.mem_singleton] at member
    exact member ▸ List.not_mem_nil
  | cons byte rest inductionHypothesis =>
    rw [List.splitOn_cons_eq_if_modifyHead] at member
    split at member
    · rcases List.mem_cons.mp member with rfl | later
      · exact List.not_mem_nil
      · exact inductionHypothesis later
    · rename_i other
      cases parts : rest.splitOn slash with
      | nil => exact absurd parts (List.splitOn_ne_nil slash rest)
      | cons first more =>
        rw [parts] at member inductionHypothesis
        rcases List.mem_cons.mp member with rfl | later
        · intro here
          rcases List.mem_cons.mp here with same | inside
          · exact other (by rw [same]; exact beq_self_eq_true _)
          · exact inductionHypothesis List.mem_cons_self inside
        · exact inductionHypothesis (List.mem_cons_of_mem _ later)

theorem cleanWords_clean (fromRoot : Bool) {words : List Text}
    (noSlash : ∀ word ∈ words, slash ∉ word) : CleanWords (cleanWords fromRoot words) := by
  have general : ∀ start, CleanWords start → CleanWords (words.foldl (cleanWord fromRoot) start) := by
    induction words with
    | nil => exact fun _ clean => clean
    | cons word rest inductionHypothesis =>
      intro start clean
      exact inductionHypothesis (fun other member => noSlash other (List.mem_cons_of_mem _ member))
        _ (cleanWord_clean clean (noSlash word List.mem_cons_self))
  exact general [] fun _ member => (List.not_mem_nil member).elim

/-- Following a word after a clean path leads where the longer clean path leads. -/
theorem walk_cleanWord {fromRoot : Bool} {place words : List Text} (word : Text)
    (clean : CleanWords words) (root : fromRoot = true → place = []) :
    walk place (cleanWord fromRoot words word) = follow (walk place words) word := by
  unfold cleanWord
  by_cases stay : word = [] ∨ word = dot
  · rw [if_pos stay, follow, if_pos stay]
  rw [if_neg stay]
  by_cases up : word = dotdot
  · rw [if_pos up, follow, if_neg stay, if_pos up]
    cases ending : words.getLast? with
    | none =>
      rw [List.getLast?_eq_none_iff.mp ending]
      cases fromRoot with
      | true => rw [root rfl]; rfl
      | false => rfl
    | some last =>
      obtain ⟨before, rfl⟩ := List.getLast?_eq_some_iff.mp ending
      by_cases above : last = dotdot
      · simp only [if_pos above, walk_append]
        rfl
      · have name : Name last :=
          (clean last (List.mem_append_right _ List.mem_cons_self)).resolve_left above
        simp only [if_neg above, List.dropLast_concat, walk_append]
        show _ = (follow (walk place before) last).dropLast
        rw [follow_name name, List.dropLast_concat]
  · rw [if_neg up, walk_append]
    rfl

theorem walk_cleanWords (fromRoot : Bool) (place : List Text) {words : List Text}
    (noSlash : ∀ word ∈ words, slash ∉ word) (root : fromRoot = true → place = []) :
    walk place (cleanWords fromRoot words) = walk place words := by
  have general : ∀ start, CleanWords start →
      walk place (words.foldl (cleanWord fromRoot) start) = walk (walk place start) words := by
    induction words with
    | nil => exact fun _ _ => rfl
    | cons word rest inductionHypothesis =>
      intro start clean
      have headFree := noSlash word List.mem_cons_self
      rw [List.foldl_cons, inductionHypothesis
        (fun other member => noSlash other (List.mem_cons_of_mem _ member)) _
        (cleanWord_clean clean headFree), walk_cleanWord word clean root]
      rfl
  exact general [] fun _ member => (List.not_mem_nil member).elim

theorem CleanWords.noSlash {words : List Text} (clean : CleanWords words) :
    ∀ word ∈ words, slash ∉ word := by
  intro word member
  rcases clean word member with rfl | name
  · decide
  · exact name.2.2.2

theorem CleanWords.head_ne_nil {word : Text} {rest : List Text}
    (clean : CleanWords (word :: rest)) : word ≠ [] := by
  rcases clean word List.mem_cons_self with rfl | name
  · decide
  · exact name.1

/-- The words of joined clean words, and that they begin with no slash. -/
theorem splitOn_intercalate_clean {words : List Text} (clean : CleanWords words)
    (some : words ≠ []) : ([slash].intercalate words).splitOn slash = words ∧
      rooted ([slash].intercalate words) = false := by
  refine ⟨List.splitOn_intercalate slash clean.noSlash some, ?_⟩
  cases words with
  | nil => exact absurd rfl some
  | cons word rest =>
    cases word with
    | nil => exact absurd rfl clean.head_ne_nil
    | cons byte more =>
      have other : byte ≠ slash := fun same =>
        clean.noSlash _ List.mem_cons_self (same ▸ List.mem_cons_self)
      cases rest with
      | nil => simpa [rooted, List.intercalate_singleton] using other
      | cons => simpa [rooted, List.intercalate_cons_cons] using other

/-- A path and the clean path lead to the same place. -/
theorem resolve_clean (current : List Text) (path : Text) :
    resolve current (clean path) = resolve current path := by
  have noSlash : ∀ word ∈ path.splitOn slash, slash ∉ word := fun word => noSlash_of_mem_splitOn
  have isClean := cleanWords_clean (rooted path) noSlash
  have walked := walk_cleanWords (rooted path) (if rooted path then [] else current) noSlash
    (fun root => if_pos root)
  rw [resolve, resolve, ← walked]
  unfold clean
  cases root : rooted path with
  | true =>
    rw [root] at isClean
    simp only [if_true]
    show walk [] ((([] : Text) ++ slash :: _).splitOn slash) = _
    rw [List.splitOn_append_cons_self, walk_append]
    show walk [] _ = _
    by_cases empty : cleanWords true (path.splitOn slash) = []
    · rw [empty]
      rfl
    · rw [(splitOn_intercalate_clean isClean empty).1]
  | false =>
    rw [root] at isClean
    simp only [Bool.false_eq_true, if_false]
    by_cases empty : cleanWords false (path.splitOn slash) = []
    · rw [if_pos empty, empty]
      rfl
    · rw [if_neg empty, (splitOn_intercalate_clean isClean empty).1,
        (splitOn_intercalate_clean isClean empty).2]
      rfl

/-! ### Paths below a directory -/

/-- The words that are left of a path when it is cleaned. -/
theorem cleanWords_path (path : Text) :
    CleanWords (cleanWords (rooted path) (path.splitOn slash)) :=
  cleanWords_clean _ fun _ => noSlash_of_mem_splitOn

theorem rooted_clean (path : Text) : rooted (clean path) = rooted path := by
  have isClean := cleanWords_path path
  unfold clean
  cases root : rooted path with
  | true => rfl
  | false =>
    rw [root] at isClean
    simp only [Bool.false_eq_true, if_false]
    split
    · rfl
    · rename_i some
      exact (splitOn_intercalate_clean isClean some).2

theorem clean_ne_nil (path : Text) : clean path ≠ [] := by
  intro empty
  have isClean := cleanWords_path path
  unfold clean at empty
  cases root : rooted path with
  | true =>
    rw [root] at empty
    cases empty
  | false =>
    rw [root] at empty isClean
    simp only [Bool.false_eq_true, if_false] at empty
    split at empty
    · cases empty
    · rename_i some
      have words := (splitOn_intercalate_clean isClean some).1
      rw [empty, List.splitOn_nil] at words
      rw [← words] at isClean
      exact isClean.head_ne_nil rfl

/-- A path that is not rooted leads, after a slash, from where the path before it leads. -/
theorem resolve_below (current : List Text) {path rest : Text} (some : path ≠ [])
    (unrooted : rooted rest = false) :
    resolve current (path ++ slash :: rest) = resolve (resolve current path) rest := by
  rw [resolve_append current some]
  show _ = walk (if rooted rest = true then [] else resolve current path) _
  rw [unrooted]
  rfl

theorem rooted_of_name {word : Text} (name : Name word) : rooted word = false := by
  cases word with
  | nil => exact absurd rfl name.1
  | cons first rest =>
    have other : first ≠ slash := fun same => name.2.2.2 (same ▸ List.mem_cons_self)
    simpa [rooted] using other

theorem resolve_name (place : List Text) {word : Text} (name : Name word) :
    resolve place word = place ++ [word] := by
  have alone : word.splitOn slash = [word] := by
    have names : ∀ other ∈ [word], Name other := by simpa using name
    simpa using splitOn_intercalate names (List.cons_ne_nil word [])
  rw [resolve, rooted_of_name name, alone]
  exact follow_name name place

/-- Joined names lead below. -/
theorem resolve_join_names (place : List Text) {words : List Text}
    (names : ∀ word ∈ words, Name word) :
    rooted (join words) = false ∧ resolve place (join words) = place ++ words := by
  have kept : words.filter (· ≠ []) = words :=
    List.filter_eq_self.mpr fun word member => decide_eq_true (names word member).1
  rw [join, kept]
  cases words with
  | nil => exact ⟨rfl, by rw [List.append_nil]; rfl⟩
  | cons word rest =>
    have isClean : CleanWords (word :: rest) := fun other member => .inr (names other member)
    obtain ⟨split, unrooted⟩ := splitOn_intercalate_clean isClean (List.cons_ne_nil word rest)
    refine ⟨(rooted_clean _).trans unrooted, ?_⟩
    rw [resolve_clean, resolve, unrooted, split]
    exact walk_names names place

theorem join_pair {first second : Text} (some : first ≠ []) (some' : second ≠ []) :
    join [first, second] = clean (first ++ slash :: second) := by
  have kept : [first, second].filter (· ≠ []) = [first, second] := by simp [some, some']
  have joined : [slash].intercalate [first, second] = first ++ slash :: second := by
    simp [List.intercalate]
  rw [join, kept, ← joined]

/-- A name joined to a path that is not rooted leads to the name below the path. -/
theorem resolve_join_name (place : List Text) {path word : Text} (unrooted : rooted path = false)
    (name : Name word) : rooted (join [path, word]) = false ∧
      resolve place (join [path, word]) = resolve place path ++ [word] := by
  by_cases empty : path = []
  · have kept : [path, word].filter (· ≠ []) = [word] := by simp [empty, name.1]
    have joined : join [path, word] = clean word := by
      rw [join, kept]
      simp
    rw [joined, rooted_clean, resolve_clean, empty]
    exact ⟨rooted_of_name name, resolve_name place name⟩
  · rw [join_pair empty name.1]
    refine ⟨(rooted_clean _).trans ((rooted_append _ empty).trans unrooted), ?_⟩
    rw [resolve_clean, resolve_below place empty (rooted_of_name name), resolve_name _ name]

/-! ### Paths from the root -/

theorem cleanWord_true {words : List Text} (noUp : dotdot ∉ words) (word : Text) :
    cleanWord true words word = follow words word := by
  rw [cleanWord, follow]
  split
  · rfl
  split
  · cases ending : words.getLast? with
    | none =>
      rw [List.getLast?_eq_none_iff.mp ending]
      rfl
    | some last =>
      have other : last ≠ dotdot := fun same =>
        noUp (same ▸ List.mem_of_getLast? ending)
      exact if_neg other
  · rfl

theorem dotdot_not_mem_follow {place : List Text} (noUp : dotdot ∉ place) (word : Text) :
    dotdot ∉ follow place word := by
  rw [follow]
  split
  · exact noUp
  split
  · exact fun member => noUp (List.mem_of_mem_dropLast member)
  · rename_i other
    intro member
    rcases List.mem_append.mp member with old | new
    · exact noUp old
    · exact other (List.mem_singleton.mp new).symm

/-- The words that are left of a path from the root are the place it leads to. -/
theorem cleanWords_true (words : List Text) : cleanWords true words = walk [] words := by
  have general : ∀ start, dotdot ∉ start →
      words.foldl (cleanWord true) start = walk start words := by
    induction words with
    | nil => exact fun _ _ => rfl
    | cons word rest inductionHypothesis =>
      intro start noUp
      rw [List.foldl_cons, cleanWord_true noUp,
        inductionHypothesis _ (dotdot_not_mem_follow noUp word)]
      rfl
  exact general [] List.not_mem_nil

/-- A path of names from the root. -/
def below (names : List Text) : Text := slash :: [slash].intercalate names

theorem clean_of_rooted {path : Text} (root : rooted path = true) :
    clean path = below (resolve [] path) := by
  rw [clean, root, cleanWords_true, resolve, root]
  rfl

theorem name_of_mem_resolve {path word : Text} (root : rooted path = true)
    (member : word ∈ resolve [] path) : Name word := by
  have isClean := cleanWords_path path
  have noUp : ∀ words : List Text, dotdot ∉ walk [] words := by
    intro words
    induction words using List.reverseRecOn with
    | nil => exact List.not_mem_nil
    | append_singleton words word inductionHypothesis =>
      rw [walk_append]
      exact dotdot_not_mem_follow inductionHypothesis word
  rw [root, cleanWords_true] at isClean
  have same : resolve [] path = walk [] (path.splitOn slash) := by
    rw [resolve, root]
    rfl
  rw [same] at member
  exact (isClean word member).resolve_left fun up => noUp _ (up ▸ member)

theorem splitOn_below {names : List Text} (each : ∀ name ∈ names, Name name) (some : names ≠ []) :
    (below names).splitOn slash = [] :: names := by
  have split : ([] ++ slash :: [slash].intercalate names).splitOn slash =
      [] :: ([slash].intercalate names).splitOn slash := by
    rw [List.splitOn_append_cons_self]
    rfl
  exact split.trans (congrArg _ (splitOn_intercalate each some))

theorem below_inj {names names' : List Text} (each : ∀ name ∈ names, Name name)
    (each' : ∀ name ∈ names', Name name) (same : below names = below names') : names = names' := by
  have empty {names : List Text} (each : ∀ name ∈ names, Name name)
      (same : below [] = below names) : names = [] := by
    by_contra some
    have words := congrArg (List.splitOn slash) same
    rw [splitOn_below each some] at words
    obtain ⟨-, rfl⟩ := List.cons.inj (words : [[], []] = [] :: names)
    exact (each [] List.mem_cons_self).1 rfl
  by_cases some : names = []
  · subst some
    exact (empty each' same).symm
  by_cases some' : names' = []
  · subst some'
    exact empty each same.symm
  have words := congrArg (List.splitOn slash) same
  rw [splitOn_below each some, splitOn_below each' some'] at words
  exact (List.cons.inj words).2

/-- Words that lead above where they begin. -/
def Climbs (words : List Text) : Prop := (cleanWords false words).head? = some dotdot

instance (words : List Text) : Decidable (Climbs words) :=
  inferInstanceAs (Decidable (_ = _))

/-- From a name, words that climb lead where they lead from the root; others lead below the name. -/
theorem walk_name (first : Text) (words : List Text) :
    Climbs words ∧ walk [first] words = walk [] words ∨
      ¬Climbs words ∧ walk [first] words = first :: walk [] words := by
  suffices general : (cleanWords false words).head? = some dotdot ∧
      walk [first] words = walk [] words ∨
      cleanWords false words = walk [] words ∧ dotdot ∉ walk [] words ∧
        walk [first] words = first :: walk [] words by
    refine general.imp_right fun ⟨same, noUp, walked⟩ => ⟨fun up => ?_, walked⟩
    rw [Climbs, same] at up
    exact noUp (List.mem_of_head? up)
  induction words using List.reverseRecOn with
  | nil => exact .inr ⟨rfl, List.not_mem_nil, rfl⟩
  | append_singleton words word inductionHypothesis =>
    have cleaned : cleanWords false (words ++ [word]) =
        cleanWord false (cleanWords false words) word := List.foldl_append
    rw [walk_append, walk_append, cleaned]
    show _ ∧ follow _ word = follow _ word ∨ _ = follow _ word ∧ dotdot ∉ follow _ word ∧
      follow _ word = first :: follow _ word
    rcases inductionHypothesis with ⟨up, same⟩ | ⟨same, noUp, walked⟩
    · refine .inl ⟨?_, by rw [same]⟩
      obtain ⟨rest, climbed⟩ := List.head?_eq_some_iff.mp up
      rw [climbed, cleanWord]
      split
      · rfl
      split
      · cases rest with
        | nil => rfl
        | cons next rest =>
          rw [List.getLast?_cons_cons]
          cases ending : (next :: rest).getLast? with
          | none => exact absurd (List.getLast?_eq_none_iff.mp ending) (List.cons_ne_nil _ _)
          | some last =>
            dsimp only
            split
            · rfl
            · rfl
      · rfl
    · rw [same, walked]
      by_cases stay : word = [] ∨ word = dot
      · rw [cleanWord, follow, follow, if_pos stay, if_pos stay, if_pos stay]
        exact .inr ⟨rfl, noUp, rfl⟩
      by_cases goUp : word = dotdot
      · rw [cleanWord, follow, follow, if_neg stay, if_neg stay, if_neg stay, if_pos goUp,
          if_pos goUp, if_pos goUp]
        cases place : walk [] words with
        | nil => exact .inl ⟨rfl, rfl⟩
        | cons next rest =>
          rw [place] at noUp
          cases ending : (next :: rest).getLast? with
          | none => exact absurd (List.getLast?_eq_none_iff.mp ending) (List.cons_ne_nil _ _)
          | some last =>
            have other : last ≠ dotdot := fun same => noUp (same ▸ List.mem_of_getLast? ending)
            exact .inr ⟨if_neg other, fun member => noUp (List.mem_of_mem_dropLast member), rfl⟩
      · have noUp' := dotdot_not_mem_follow noUp word
        rw [follow, if_neg stay, if_neg goUp] at noUp'
        rw [cleanWord, follow, follow, if_neg stay, if_neg stay, if_neg stay, if_neg goUp,
          if_neg goUp, if_neg goUp]
        exact .inr ⟨rfl, noUp', rfl⟩

/-- A text without slashes is the first word, or its front. -/
theorem splitOn_append_of_noSlash {front : Text} (noSlash : slash ∉ front) {rest first : Text}
    {words : List Text} (split : rest.splitOn slash = first :: words) :
    (front ++ rest).splitOn slash = (front ++ first) :: words := by
  induction front with
  | nil => exact split
  | cons byte front inductionHypothesis =>
    have other : ¬(byte == slash) = true := fun same =>
      noSlash (beq_iff_eq.mp same ▸ List.mem_cons_self)
    rw [List.cons_append, List.splitOn_cons_eq_if_modifyHead, if_neg other,
      inductionHypothesis fun inside => noSlash (List.mem_cons_of_mem _ inside)]
    rfl

end Frobio.SlashPath
