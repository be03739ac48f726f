/-
This file shows that a load does not depend on the order of the lines of a table, as long as
no two lines of a key have the same timestamp. Of the lines of a key, the one with the
greatest timestamp wins, and the later one of two with the same timestamp.

The scanner sets the only limit: a line of 64K bytes ends the program.
-/

import Frobio.Strdy.RoundTrip

namespace Frobio.Strdy

open Coms

/-! ### Table lines -/

/-- A line of a table: `(`, the key, the timestamp, the value, `)` and anything more, with
tabs between them. -/
structure TableLine where
  key : Text
  timestamp : Text
  value : Text
  more : Text
  keyClean : Clean key
  timestampClean : Clean timestamp
  valueClean : Clean value
  moreClean : newline ∉ more

def TableLine.text (line : TableLine) : Text :=
  ascii "(" ++ tab :: (line.key ++ tab :: (line.timestamp ++ tab :: (line.value ++ tab ::
    (ascii ")" ++ tab :: line.more))))

def TableLine.record (line : TableLine) : Record := ⟨line.key, line.timestamp, line.value⟩

/-- The lines of a file are these. -/
def Holds (file : Text) (lines : List TableLine) : Prop :=
  rawLines file = lines.map TableLine.text

def tableFile (lines : List TableLine) : Text :=
  lines.foldl (fun file line => file ++ line.text ++ [newline]) []

def DistinctTimes (lines : List TableLine) : Prop :=
  lines.Pairwise fun line other => line.key = other.key → line.timestamp ≠ other.timestamp

/-- The line has the greatest timestamp of its key, and is the last one that has it. -/
def Wins (lines : List TableLine) (line : TableLine) : Prop :=
  ∃ front back, lines = front ++ line :: back ∧
    (∀ other ∈ front, other.key = line.key → other.timestamp ≤ line.timestamp) ∧
    ∀ other ∈ back, other.key = line.key → other.timestamp < line.timestamp

/-! ### One line -/

theorem newline_not_mem_text (line : TableLine) : newline ∉ line.text := by
  have noTab : newline ≠ tab := by decide
  have noOpen : newline ∉ ascii "(" := by decide
  have noClose : newline ∉ ascii ")" := by decide
  simp only [TableLine.text, List.mem_append, List.mem_cons, not_or]
  exact ⟨noOpen, noTab, line.keyClean.2, noTab, line.timestampClean.2, noTab, line.valueClean.2,
    noTab, noClose, noTab, line.moreClean⟩

/-- The scanner can only shorten what is behind the last tab. -/
theorem dropCR_tab (more : Text) : ∃ rest, dropCR (tab :: more) = tab :: rest := by
  have kept : tab ≠ carriageReturn := by decide
  rw [dropCR]
  by_cases ends : (tab :: more).getLast? = some carriageReturn
  · rw [if_pos ends]
    cases more with
    | nil => exact absurd (Option.some.inj ends) kept
    | cons byte rest => exact ⟨_, List.dropLast_cons_cons⟩
  · exact ⟨more, if_neg ends⟩

theorem addLine_text (held : Text → Option Record) (line : TableLine) :
    addLine (records held) (dropCR line.text) = some (records (add held line.record)) := by
  obtain ⟨rest, dropped⟩ := dropCR_tab line.more
  have split : line.text = (ascii "(" ++ tab :: (line.key ++ tab :: (line.timestamp ++ tab ::
      (line.value ++ tab :: ascii ")")))) ++ tab :: line.more := by
    simp only [TableLine.text, List.append_assoc, List.cons_append]
  have scanned : dropCR line.text = ascii "(" ++ tab :: (line.key ++ tab :: (line.timestamp ++
      tab :: (line.value ++ tab :: (ascii ")" ++ tab :: rest)))) := by
    rw [split, dropCR_append _ (List.cons_ne_nil _ _), dropped]
    simp only [List.append_assoc, List.cons_append]
  have words : splitN tab 6 (ascii "(" ++ tab :: (line.key ++ tab :: (line.timestamp ++ tab ::
      (line.value ++ tab :: (ascii ")" ++ tab :: rest))))) =
      [ascii "(", line.key, line.timestamp, line.value, ascii ")", rest] := by
    rw [splitN_field 4 (by decide), splitN_field 3 line.keyClean.1,
      splitN_field 2 line.timestampClean.1, splitN_field 1 line.valueClean.1,
      splitN_field 0 (by decide)]
    rfl
  rw [scanned]
  exact addLine_fields held (List.prefix_append _ _) words

/-! ### The lines of a file -/

theorem addLines_text (lines : List TableLine) (held : Text → Option Record) :
    ((lines.map TableLine.text).map dropCR).foldlM addLine (records held) =
      some (records ((lines.map TableLine.record).foldl add held)) := by
  induction lines generalizing held with
  | nil => rfl
  | cons line rest inductionHypothesis =>
    rw [List.map_cons, List.map_cons, List.foldlM_cons, addLine_text]
    exact inductionHypothesis _

theorem holds_tableFile (lines : List TableLine) : Holds (tableFile lines) lines := by
  have each : ∀ lines, Whole (tableFile lines) ∧ Holds (tableFile lines) lines := by
    intro lines
    induction lines using List.reverseRecOn with
    | nil => exact ⟨.inl rfl, rfl⟩
    | append_singleton lines line inductionHypothesis =>
      obtain ⟨whole, held⟩ := inductionHypothesis
      have written : tableFile (lines ++ [line]) = tableFile lines ++ line.text ++ [newline] :=
        List.foldl_append
      refine ⟨.inr ⟨_, written⟩, ?_⟩
      show rawLines (tableFile (lines ++ [line])) = _
      rw [written, rawLines_append whole (newline_not_mem_text line), held, List.map_append]
      rfl
  exact (each lines).2

theorem load_lines {file : Text} {lines : List TableLine} (holds : Holds file lines)
    (fit : ∀ line ∈ lines, line.text.length ≤ maxLine) :
    load file =
      some ⟨records ((lines.map TableLine.record).foldl add fun _ => none), file⟩ := by
  refine load_eq_some_iff.mpr ⟨?_, rfl, ?_⟩
  · rw [holds, List.forall_mem_map]
    exact fit
  · rw [holds]
    exact addLines_text lines _

/-- A line that does not fit the scanner ends the program. -/
theorem load_tooLong {file : Text} {lines : List TableLine} (holds : Holds file lines)
    {line : TableLine} (member : line ∈ lines) (tooLong : maxLine < line.text.length) :
    load file = none := by
  rw [Option.eq_none_iff_forall_ne_some]
  intro db loaded
  have fits := (load_eq_some_iff.mp loaded).1
  rw [holds, List.forall_mem_map] at fits
  exact absurd tooLong (not_lt.mpr (fits line member))

/-! ### What is held of a key -/

theorem newer_later (held : Option Record) {r : Record}
    (latest : ∀ old, held = some old → ¬r.timestamp < old.timestamp) :
    newer held r = some r := by
  cases held with
  | none => rfl
  | some old => exact if_neg (latest old rfl)

/-- What is held of a key is the record of a line of the key. -/
theorem mem_of_foldl_add {lines : List TableLine} {key : Text} {r : Record}
    (found : (lines.map TableLine.record).foldl add (fun _ => none) key = some r) :
    ∃ line ∈ lines, line.key = key ∧ line.record = r := by
  induction lines using List.reverseRecOn with
  | nil => cases found
  | append_singleton lines line inductionHypothesis =>
    rw [List.map_append, List.foldl_append, List.map_singleton, List.foldl_cons, List.foldl_nil,
      add_apply] at found
    have last : line ∈ lines ++ [line] := List.mem_append_right _ (List.mem_singleton.mpr rfl)
    have earlier : (lines.map TableLine.record).foldl add (fun _ => none) key = some r →
        ∃ line' ∈ lines ++ [line], line'.key = key ∧ line'.record = r := by
      intro before
      obtain ⟨other, member, same⟩ := inductionHypothesis before
      exact ⟨other, List.mem_append_left _ member, same⟩
    by_cases same : line.record.key = key
    · rw [if_pos same] at found
      cases before : (lines.map TableLine.record).foldl add (fun _ => none) key with
      | none =>
        rw [before] at found
        exact ⟨line, last, same, Option.some.inj found⟩
      | some old =>
        rw [before] at found
        by_cases obsolete : line.record.timestamp < old.timestamp
        · have kept : newer (some old) line.record = some old := if_pos obsolete
          exact earlier (before.trans (kept.symm.trans found))
        · have replaced : newer (some old) line.record = some line.record := if_neg obsolete
          exact ⟨line, last, same, Option.some.inj (replaced.symm.trans found)⟩
    · rw [if_neg same] at found
      exact earlier found

/-- Earlier records and records of other keys change nothing. -/
theorem foldl_add_keeps {back : List TableLine} {held : Text → Option Record} {key : Text}
    {r : Record} (found : held key = some r)
    (obsolete : ∀ other ∈ back, other.key = key → other.timestamp < r.timestamp) :
    (back.map TableLine.record).foldl add held key = some r := by
  induction back generalizing held with
  | nil => exact found
  | cons line rest inductionHypothesis =>
    refine inductionHypothesis ?_ fun other member => obsolete other (List.mem_cons_of_mem _ member)
    rw [add_apply, found]
    by_cases same : line.record.key = key
    · rw [if_pos same]
      exact if_pos (obsolete line List.mem_cons_self same)
    · exact if_neg same

/-- The line that wins is held. -/
theorem foldl_add_of_wins {lines : List TableLine} {line : TableLine} (wins : Wins lines line) :
    (lines.map TableLine.record).foldl add (fun _ => none) line.key = some line.record := by
  obtain ⟨front, back, rfl, before, behind⟩ := wins
  rw [List.map_append, List.foldl_append, List.map_cons, List.foldl_cons]
  refine foldl_add_keeps ?_ behind
  have own : line.record.key = line.key := rfl
  rw [add_apply, if_pos own]
  refine newer_later _ fun old found => ?_
  obtain ⟨other, member, same, rfl⟩ := mem_of_foldl_add found
  exact List.not_lt.mpr (before other member same)

theorem foldl_add_of_absent {lines : List TableLine} {key : Text}
    (absent : ∀ line ∈ lines, line.key ≠ key) :
    (lines.map TableLine.record).foldl add (fun _ => none) key = none := by
  rw [Option.eq_none_iff_forall_ne_some]
  intro r found
  obtain ⟨line, member, same, -⟩ := mem_of_foldl_add found
  exact absent line member same

/-! ### The line that wins -/

/-- A line of every key wins. -/
theorem exists_wins {lines : List TableLine} {line : TableLine} (member : line ∈ lines) :
    ∃ winner, Wins lines winner ∧ winner.key = line.key := by
  induction lines using List.reverseRecOn generalizing line with
  | nil => cases member
  | append_singleton lines last inductionHypothesis =>
    by_cases earlier : ∃ other ∈ lines, other.key = line.key
    · obtain ⟨other, otherMember, otherKey⟩ := earlier
      obtain ⟨winner, ⟨front, back, rfl, before, behind⟩, winnerKey⟩ :=
        inductionHypothesis otherMember
      by_cases beaten : last.key = line.key ∧ winner.timestamp ≤ last.timestamp
      · obtain ⟨lastKey, later⟩ := beaten
        have sameKey : last.key = winner.key := lastKey.trans (otherKey.symm.trans winnerKey.symm)
        refine ⟨last, ⟨front ++ winner :: back, [], rfl, ?_, nofun⟩, lastKey⟩
        intro other member key
        have key : other.key = winner.key := key.trans sameKey
        rcases List.mem_append.mp member with member | member
        · exact List.le_trans (before other member key) later
        · rcases List.mem_cons.mp member with rfl | member
          · exact later
          · exact List.le_trans (List.le_of_lt (behind other member key)) later
      · refine ⟨winner, ⟨front, back ++ [last], ?_, before, ?_⟩, winnerKey.trans otherKey⟩
        · rw [List.append_assoc, List.cons_append]
        · intro other member key
          rcases List.mem_append.mp member with member | member
          · exact behind other member key
          · rw [List.mem_singleton.mp member] at key ⊢
            have notLater := not_and.mp beaten (key.trans (winnerKey.trans otherKey))
            exact List.not_le.mp notLater
    · have notEarlier : ∀ other ∈ lines, other.key ≠ line.key :=
        fun other member same => earlier ⟨other, member, same⟩
      have isLast : line = last := by
        rcases List.mem_append.mp member with member | member
        · exact absurd rfl (notEarlier line member)
        · exact List.mem_singleton.mp member
      subst isLast
      exact ⟨line, ⟨lines, [], rfl, fun other member same => absurd same (notEarlier other member),
        nofun⟩, rfl⟩

theorem greatest_of_wins {lines : List TableLine} {winner : TableLine} (wins : Wins lines winner) :
    winner ∈ lines ∧
      ∀ other ∈ lines, other.key = winner.key → other.timestamp ≤ winner.timestamp := by
  obtain ⟨front, back, rfl, before, behind⟩ := wins
  refine ⟨List.mem_append_right _ List.mem_cons_self, fun other member same => ?_⟩
  rcases List.mem_append.mp member with member | member
  · exact before other member same
  · rcases List.mem_cons.mp member with rfl | member
    · exact List.le_refl _
    · exact List.le_of_lt (behind other member same)

/-- With distinct timestamps the same lines win in every order. -/
theorem wins_unique {lines permuted : List TableLine} (distinct : DistinctTimes lines)
    (same : lines.Perm permuted) {winner other : TableLine} (wins : Wins lines winner)
    (wins' : Wins permuted other) (key : winner.key = other.key) : winner = other := by
  obtain ⟨member, greatest⟩ := greatest_of_wins wins
  obtain ⟨member', greatest'⟩ := greatest_of_wins wins'
  have below := greatest' winner (same.mem_iff.mp member) key
  have above := greatest other (same.mem_iff.mpr member') key.symm
  by_contra different
  have symmetric : Std.Symm fun line other : TableLine =>
      line.key = other.key → line.timestamp ≠ other.timestamp :=
    ⟨fun _ _ apart same => (apart same.symm).symm⟩
  exact distinct.forall member (same.mem_iff.mpr member') different key
    (List.le_antisymm below above)

/-! ### The load -/

/-- A file of table lines that fit the scanner loads. Of the lines of a key the one that wins is
in the table, so with distinct timestamps the table is the same for every order of the lines. -/
theorem load_tableLines {file : Text} {lines : List TableLine} (holds : Holds file lines)
    (fit : ∀ line ∈ lines, line.text.length ≤ maxLine) :
    ∃ db, load file = some db ∧
      (∀ line ∈ lines, ∃ winner, Wins lines winner ∧ winner.key = line.key) ∧
      (∀ winner, Wins lines winner → db.list winner.key = some (.record winner.record) ∧
        get db winner.key = some winner.value) ∧
      (∀ key, (∀ line ∈ lines, line.key ≠ key) → db.list key = none ∧ get db key = some []) ∧
      (DistinctTimes lines → ∀ permuted, lines.Perm permuted → ∀ file', Holds file' permuted →
        ∃ db', load file' = some db' ∧ db'.list = db.list) := by
  let db : DB := ⟨records ((lines.map TableLine.record).foldl add fun _ => none), file⟩
  have list : db.list = records ((lines.map TableLine.record).foldl add fun _ => none) := rfl
  refine ⟨db, load_lines holds fit, fun line => exists_wins, ?_, ?_, ?_⟩
  · intro winner wins
    have held := foldl_add_of_wins wins
    refine ⟨(list_eq_record_iff list _ _).mpr held, ?_⟩
    rw [get_of_records list, held]
    rfl
  · intro key absent
    have held := foldl_add_of_absent absent
    refine ⟨?_, ?_⟩
    · show ((lines.map TableLine.record).foldl add (fun _ => none) key).map Entry.record = none
      rw [held]
      rfl
    · rw [get_of_records list, held]
      rfl
  · intro distinct permuted same file' holds'
    have fit' : ∀ line ∈ permuted, line.text.length ≤ maxLine :=
      fun line member => fit line (same.mem_iff.mpr member)
    refine ⟨_, load_lines holds' fit', ?_⟩
    refine congrArg records (funext fun key => ?_)
    by_cases present : ∃ line ∈ lines, line.key = key
    · obtain ⟨line, member, rfl⟩ := present
      obtain ⟨winner, wins, key⟩ := exists_wins member
      obtain ⟨winner', wins', key'⟩ := exists_wins (same.mem_iff.mp member)
      have alike := wins_unique distinct same wins wins' (key.trans key'.symm)
      rw [← key, foldl_add_of_wins wins, alike, foldl_add_of_wins wins']
    · have absent : ∀ line ∈ lines, line.key ≠ key :=
        fun line member found => present ⟨line, member, found⟩
      rw [foldl_add_of_absent absent,
        foldl_add_of_absent fun line member => absent line (same.mem_iff.mpr member)]

/-! ### A table -/

def nameLine (timestamp value : Text) (timestampClean : Clean timestamp)
    (valueClean : Clean value) (more : Text) (moreClean : newline ∉ more) : TableLine where
  key := ascii "name"
  timestamp := timestamp
  value := value
  more := more
  keyClean := by unfold Clean; decide
  timestampClean := timestampClean
  valueClean := valueClean
  moreClean := moreClean

def newerName : TableLine :=
  nameLine (ascii "2024-0101-130000") (ascii "frobio2") (by unfold Clean; decide)
    (by unfold Clean; decide) (ascii ";") (by decide)

def olderName : TableLine :=
  nameLine (ascii "2024-0101-120000") (ascii "frobio") (by unfold Clean; decide)
    (by unfold Clean; decide) [] (by decide)

/-- The newer name wins from the first line. -/
theorem load_tableLines_names :
    ∃ db, load (tableFile [newerName, olderName]) = some db ∧
      get db (ascii "name") = some (ascii "frobio2") := by
  have fit : ∀ line ∈ [newerName, olderName], line.text.length ≤ maxLine := by
    rw [List.forall_mem_cons, List.forall_mem_singleton]
    decide
  obtain ⟨db, loaded, -, won, -⟩ :=
    load_tableLines (holds_tableFile [newerName, olderName]) fit
  refine ⟨db, loaded, (won newerName ⟨[], [olderName], rfl, nofun, ?_⟩).2⟩
  rw [List.forall_mem_singleton]
  exact fun _ => by decide

/-- A table with a comment of 64K bytes does not load. -/
theorem not_load_longComment :
    ∃ lines, DistinctTimes lines ∧ load (tableFile lines) = none := by
  have noNewline : newline ∉ List.replicate 65536 (59 : UInt8) := by
    intro member
    exact absurd (List.eq_of_mem_replicate member) (by decide)
  refine ⟨[nameLine (ascii "2024-0101-120000") (ascii "frobio") (by unfold Clean; decide)
    (by unfold Clean; decide) (List.replicate 65536 59) noNewline], List.pairwise_singleton _ _, ?_⟩
  refine load_tooLong (holds_tableFile _) (List.mem_singleton.mpr rfl) ?_
  simp only [TableLine.text, nameLine, List.length_append, List.length_cons,
    List.length_replicate, maxLine]
  omega

end Frobio.Strdy
