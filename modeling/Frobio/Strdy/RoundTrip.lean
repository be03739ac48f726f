/-
This file compares the store with the map it is for, over every sequence of calls, and
compares a fresh load of the file with the map in the end.

The two representations disagree on one point: `Set` leaves a bare string in the skip
list, and `Get` takes a record from there. So the store answers as long as no key is read
after it is set, and the file is right when every line can be scanned again and is not
obsolete.
-/

import Frobio.Strdy.Store
import Frobio.Lib.Transcript

namespace Frobio.Strdy

open Coms Transcript

/-! ### The law -/

/-- What the calls answer is what a map answers, and so is every `Get` after a fresh load. -/
structure RoundTrip (db : DB) (calls : List Call) : Prop where
  answers : outputs step db calls = outputs mapStep (values db) calls
  reload : ∃ again, load (after step db calls).file = some again ∧
    ∀ key, get again key = some (after mapStep (values db) calls key)

def Clean (text : Text) : Prop := tab ∉ text ∧ newline ∉ text

def Call.Clean : Call → Prop
  | .get key => Strdy.Clean key
  | .set key value comment ts =>
    Strdy.Clean key ∧ Strdy.Clean value ∧ Strdy.Clean ts ∧ newline ∉ comment

/-- What `Set` is to record. -/
def Call.recorded : Call → Option Record
  | .get _ => none
  | .set key value _ ts => some ⟨key, ts, value⟩

def NonDecreasing (calls : List Call) : Prop :=
  (calls.filterMap Call.recorded).Pairwise fun earlier later =>
    ¬later.timestamp < earlier.timestamp

/-- A file of whole lines. -/
def Whole (file : Text) : Prop := file = [] ∨ ∃ front, file = front ++ [newline]

/-! ### The condition -/

/-- No `Get` comes after a `Set` of its key. -/
def NoneReadBack (calls : List Call) : Prop :=
  calls.Pairwise fun earlier later => ∀ key, later = .get key →
    ∀ value comment ts, earlier ≠ .set key value comment ts

/-- The line of every `Set` can be scanned. -/
def AllFit (calls : List Call) : Prop :=
  ∀ key value comment ts, Call.set key value comment ts ∈ calls →
    (setLine key value comment ts).length ≤ maxLine

/-- What the last `Set` of a key is to record. -/
def lastSet (calls : List Call) (key : Text) : Option Record :=
  (calls.filterMap Call.recorded).reverse.find? fun r => r.key = key

/-- No last `Set` is obsoleted by a record of the file with another value. -/
def NoneObsolete (db : DB) (calls : List Call) : Prop :=
  ∀ key old r, db.list key = some (.record old) → lastSet calls key = some r →
    r.timestamp < old.timestamp → r.value = old.value

/-! ### Lines -/

theorem splitN_field {field : Text} (n : Nat) (free : tab ∉ field) (rest : Text) :
    splitN tab (n + 2) (field ++ tab :: rest) = field :: splitN tab (n + 1) rest := by
  have inField : ∀ byte ∈ field, decide (byte ≠ tab) = true := by
    intro byte member
    exact decide_eq_true fun same => free (same ▸ member)
  have dropped : (field ++ tab :: rest).dropWhile (· ≠ tab) = tab :: rest := by
    rw [List.dropWhile_append_of_pos inField]
    rfl
  have taken : (field ++ tab :: rest).takeWhile (· ≠ tab) = field := by
    rw [List.takeWhile_append_of_pos inField]
    exact List.append_nil field
  rw [splitN, dropped, taken]

theorem rawLines_whole (front : Text) : rawLines (front ++ [newline]) = front.splitOn newline := by
  have pieces : (front ++ [newline]).splitOn newline = front.splitOn newline ++ [[]] := by
    rw [List.splitOn_append_cons_self, List.splitOn_nil]
  rw [rawLines, pieces, List.getLast?_concat, if_pos rfl, List.dropLast_concat]

/-- A line that is appended to whole lines is one more line. -/
theorem rawLines_append {file line : Text} (whole : Whole file) (free : newline ∉ line) :
    rawLines (file ++ line ++ [newline]) = rawLines file ++ [line] := by
  have alone : line.splitOn newline = [line] := List.splitOn_eq_singleton free
  rw [rawLines_whole]
  rcases whole with rfl | ⟨front, rfl⟩
  · rw [List.nil_append, alone]
    rfl
  · rw [rawLines_whole, List.append_assoc, List.singleton_append, List.splitOn_append_cons_self,
      alone]

theorem dropCR_append (front : Text) {tail : Text} (nonempty : tail ≠ []) :
    dropCR (front ++ tail) = front ++ dropCR tail := by
  rw [dropCR, dropCR, List.getLast?_append_of_ne_nil _ nonempty,
    List.dropLast_append_of_ne_nil nonempty]
  split <;> rfl

theorem setLine_fields (key value comment ts : Text) :
    setLine key value comment ts = (ascii "(" ++ tab :: (key ++ tab :: (ts ++ tab ::
      (value ++ tab :: (ascii ")" ++ [tab]))))) ++ (ascii ";" ++ comment) := by
  simp only [setLine, List.append_assoc, List.cons_append, List.nil_append]

theorem newline_not_mem_setLine {key value comment ts : Text}
    (clean : (Call.set key value comment ts).Clean) : newline ∉ setLine key value comment ts := by
  obtain ⟨keyClean, valueClean, tsClean, commentClean⟩ := clean
  have noTab : newline ≠ tab := by decide
  have noOpen : newline ∉ ascii "(" := by decide
  have noClose : newline ∉ ascii ")" := by decide
  have noSemicolon : newline ∉ ascii ";" := by decide
  simp only [setLine, List.mem_append, List.mem_cons, not_or]
  exact ⟨⟨⟨⟨⟨⟨noOpen, noTab, keyClean.2⟩, noTab, tsClean.2⟩, noTab, valueClean.2⟩, noTab, noClose⟩,
    noTab, noSemicolon⟩, commentClean⟩

/-! ### Records -/

/-- A skip list that holds records only. -/
def records (held : Text → Option Record) : SkipList := fun key => (held key).map .record

/-- Record a value, unless the record that is held is later. -/
def add (held : Text → Option Record) (r : Record) : Text → Option Record :=
  match held r.key with
  | some old =>
    if r.timestamp < old.timestamp then held else Function.update held r.key (some r)
  | none => Function.update held r.key (some r)

theorem records_update (held : Text → Option Record) (r : Record) :
    Function.update (records held) r.key (some (.record r)) =
      records (Function.update held r.key (some r)) := by
  funext key
  by_cases same : key = r.key
  · rw [same, records, Function.update_self, Function.update_self]
    rfl
  · rw [records, Function.update_of_ne same, Function.update_of_ne same, records]

/-- The fields of a line decide what is added. -/
theorem addLine_fields (held : Text → Option Record) {line key timestamp value more : Text}
    (opens : ascii "(" <+: line)
    (fields : splitN tab 6 line = [ascii "(", key, timestamp, value, ascii ")", more]) :
    addLine (records held) line = some (records (add held ⟨key, timestamp, value⟩)) := by
  have put := records_update held ⟨key, timestamp, value⟩
  rw [addLine, if_neg (not_not_intro opens), fields]
  show (if ascii "(" ≠ ascii "(" ∨ ascii ")" ≠ ascii ")" then _ else _) = _
  rw [if_neg (by decide)]
  cases found : held key with
  | none =>
    have shown : records held key = none := by rw [records, found]; rfl
    rw [shown, add, found]
    exact congrArg some put
  | some old =>
    have shown : records held key = some (.record old) := by rw [records, found]; rfl
    rw [shown, add, found]
    by_cases later : timestamp < old.timestamp
    · simp only [if_pos later]
    · simp only [if_neg later]
      exact congrArg some put

/-- A line leaves a list of records a list of records. -/
theorem addLine_records (held : Text → Option Record) (line : Text) :
    ∃ held', addLine (records held) line = some (records held') := by
  by_cases opens : ascii "(" <+: line
  · by_cases valid : ∃ key timestamp value more,
        splitN tab 6 line = [ascii "(", key, timestamp, value, ascii ")", more]
    · obtain ⟨key, timestamp, value, more, fields⟩ := valid
      exact ⟨_, addLine_fields held opens fields⟩
    · refine ⟨held, ?_⟩
      rw [addLine, if_neg (not_not_intro opens)]
      split
      · rename_i before key timestamp value behind more fields
        rw [if_pos]
        by_contra both
        rw [not_or, not_not, not_not] at both
        exact valid ⟨key, timestamp, value, more, both.1 ▸ both.2 ▸ fields⟩
      · rfl
  · exact ⟨held, by rw [addLine, if_pos opens]⟩

theorem addLines_records (lines : List Text) (held : Text → Option Record) :
    ∃ held', lines.foldlM addLine (records held) = some (records held') := by
  induction lines generalizing held with
  | nil => exact ⟨held, rfl⟩
  | cons line rest inductionHypothesis =>
    obtain ⟨next, added⟩ := addLine_records held line
    obtain ⟨final, rested⟩ := inductionHypothesis next
    exact ⟨final, by rw [List.foldlM_cons, added]; exact rested⟩

/-- The line that `Set` appends is added as a record. -/
theorem addLine_setLine (held : Text → Option Record) {key value comment ts : Text}
    (clean : (Call.set key value comment ts).Clean) :
    addLine (records held) (dropCR (setLine key value comment ts)) =
      some (records (add held ⟨key, ts, value⟩)) := by
  obtain ⟨keyClean, valueClean, tsClean, -⟩ := clean
  have nonempty : ascii ";" ++ comment ≠ [] := List.cons_ne_nil _ _
  rw [setLine_fields, dropCR_append _ nonempty]
  generalize dropCR (ascii ";" ++ comment) = more
  have fields : (ascii "(" ++ tab :: (key ++ tab :: (ts ++ tab ::
      (value ++ tab :: (ascii ")" ++ [tab]))))) ++ more = ascii "(" ++ tab :: (key ++ tab ::
      (ts ++ tab :: (value ++ tab :: (ascii ")" ++ tab :: more)))) := by
    simp only [List.append_assoc, List.cons_append, List.nil_append]
  rw [fields]
  have words : splitN tab 6 (ascii "(" ++ tab :: (key ++ tab :: (ts ++ tab ::
      (value ++ tab :: (ascii ")" ++ tab :: more))))) =
      [ascii "(", key, ts, value, ascii ")", more] := by
    rw [splitN_field 4 (by decide), splitN_field 3 keyClean.1, splitN_field 2 tsClean.1,
      splitN_field 1 valueClean.1, splitN_field 0 (by decide)]
    rfl
  exact addLine_fields held (List.prefix_append _ _) words

/-! ### The file after a run -/

/-- The line that a call appends. -/
def Call.appended : Call → Option Text
  | .get _ => none
  | .set key value comment ts => some (setLine key value comment ts)

theorem rawLines_after {db : DB} {calls : List Call}
    (whole : Whole db.file ∨ calls.filterMap Call.recorded = [])
    (clean : ∀ call ∈ calls, call.Clean) :
    rawLines (after step db calls).file =
      rawLines db.file ++ calls.filterMap Call.appended := by
  induction calls generalizing db with
  | nil => exact (List.append_nil _).symm
  | cons call rest inductionHypothesis =>
    have cleanRest : ∀ other ∈ rest, other.Clean :=
      fun other member => clean other (List.mem_cons_of_mem _ member)
    cases call with
    | get key => exact inductionHypothesis whole cleanRest
    | set key value comment ts =>
      have whole : Whole db.file := whole.resolve_right (List.cons_ne_nil _ _)
      have free := newline_not_mem_setLine (clean _ List.mem_cons_self)
      have written : (set db key value comment ts).file =
        db.file ++ setLine key value comment ts ++ [newline] := rfl
      have wholeNext : Whole (set db key value comment ts).file := .inr ⟨_, written⟩
      refine (inductionHypothesis (.inl wholeNext) cleanRest).trans ?_
      rw [written, rawLines_append whole free, List.append_assoc]
      rfl

/-- Behind a line that has no newline, the first line that is appended is not a line of its own. -/
theorem rawLines_after_glued {db : DB} {calls : List Call} {front tail line : Text}
    {lines : List Text} (whole : Whole front) (free : newline ∉ tail)
    (file : db.file = front ++ tail) (clean : ∀ call ∈ calls, call.Clean)
    (appended : calls.filterMap Call.appended = line :: lines) :
    rawLines (after step db calls).file = rawLines front ++ (tail ++ line) :: lines := by
  induction calls with
  | nil => cases appended
  | cons call rest inductionHypothesis =>
    have cleanRest : ∀ other ∈ rest, other.Clean :=
      fun other member => clean other (List.mem_cons_of_mem _ member)
    cases call with
    | get key => exact inductionHypothesis cleanRest appended
    | set key value comment ts =>
      obtain ⟨rfl, rfl⟩ := List.cons.inj appended
      have lineFree := newline_not_mem_setLine (clean _ List.mem_cons_self)
      have gluedFree : newline ∉ tail ++ setLine key value comment ts :=
        fun member => (List.mem_append.mp member).elim free lineFree
      have written : (set db key value comment ts).file =
          front ++ (tail ++ setLine key value comment ts) ++ [newline] := by
        show db.file ++ setLine key value comment ts ++ [newline] = _
        rw [file, List.append_assoc front]
      have wholeNext : Whole (set db key value comment ts).file := .inr ⟨_, written⟩
      refine (rawLines_after (.inl wholeNext) cleanRest).trans ?_
      rw [written, rawLines_append whole gluedFree, List.append_assoc]
      rfl

/-- The appended lines add what the calls are to record. -/
theorem addLines_appended {calls : List Call} (clean : ∀ call ∈ calls, call.Clean)
    (held : Text → Option Record) :
    ((calls.filterMap Call.appended).map dropCR).foldlM addLine (records held) =
      some (records ((calls.filterMap Call.recorded).foldl add held)) := by
  induction calls generalizing held with
  | nil => rfl
  | cons call rest inductionHypothesis =>
    have cleanRest : ∀ other ∈ rest, other.Clean :=
      fun other member => clean other (List.mem_cons_of_mem _ member)
    cases call with
    | get key => exact inductionHypothesis cleanRest held
    | set key value comment ts =>
      have added := addLine_setLine held (clean _ List.mem_cons_self)
      show (setLine key value comment ts :: rest.filterMap Call.appended |>.map dropCR).foldlM
        addLine (records held) = _
      rw [List.map_cons, List.foldlM_cons, added]
      exact inductionHypothesis cleanRest _

/-- A load goes through when every line can be scanned. -/
theorem load_eq_some_iff {file : Text} {db : DB} :
    load file = some db ↔ (∀ line ∈ rawLines file, line.length ≤ maxLine) ∧ db.file = file ∧
      ((rawLines file).map dropCR).foldlM addLine (records fun _ => none) = some db.list := by
  obtain ⟨list, file'⟩ := db
  rw [load, scanLines]
  by_cases fit : ∀ line ∈ rawLines file, line.length ≤ maxLine
  · rw [if_pos fit]
    obtain ⟨held, added⟩ := addLines_records ((rawLines file).map dropCR) fun _ => none
    show (((rawLines file).map dropCR).foldlM addLine (records fun _ => none) >>= fun list =>
      some (DB.mk list file)) = _ ↔ _
    rw [added, Option.bind_eq_bind, Option.bind_some, Option.some.injEq, DB.mk.injEq,
      Option.some.injEq]
    exact ⟨fun ⟨sameList, sameFile⟩ => ⟨fit, sameFile.symm, sameList⟩,
      fun ⟨_, sameFile, sameList⟩ => ⟨sameList, sameFile.symm⟩⟩
  · rw [if_neg fit]
    exact iff_of_false nofun fun all => fit all.1

/-! ### The latest record -/

/-- What is held of a key after one more record of it. -/
def newer (held : Option Record) (r : Record) : Option Record :=
  match held with
  | some old => if r.timestamp < old.timestamp then some old else some r
  | none => some r

theorem add_apply (held : Text → Option Record) (r : Record) (key : Text) :
    add held r key = if r.key = key then newer (held key) r else held key := by
  by_cases same : r.key = key
  · subst same
    rw [if_pos rfl, add]
    cases found : held r.key with
    | none => exact Function.update_self _ _ _
    | some old =>
      by_cases later : r.timestamp < old.timestamp
      · simp only [newer, if_pos later, found]
      · simp only [newer, if_neg later, Function.update_self]
  · rw [if_neg same, add]
    cases held r.key with
    | none => exact Function.update_of_ne (Ne.symm same) _ _
    | some old =>
      by_cases later : r.timestamp < old.timestamp
      · simp only [if_pos later]
      · simp only [if_neg later, Function.update_of_ne (Ne.symm same)]

/-- Of two records in order, the second decides. -/
theorem newer_newer (held : Option Record) {r later : Record}
    (ordered : ¬later.timestamp < r.timestamp) :
    newer (newer held r) later = newer held later := by
  cases held with
  | none => exact if_neg ordered
  | some old =>
    by_cases before : r.timestamp < old.timestamp
    · have kept : newer (some old) r = some old := if_pos before
      rw [kept]
    · have replaced : newer (some old) r = some r := if_neg before
      have notBefore : ¬later.timestamp < old.timestamp := List.le_trans before ordered
      rw [replaced]
      exact (if_neg ordered : newer (some r) later = some later).trans (if_neg notBefore).symm

/-- Of records in order, the last one of a key decides what is held of the key. -/
theorem foldl_add {rs : List Record}
    (ordered : rs.Pairwise fun earlier later => ¬later.timestamp < earlier.timestamp)
    (held : Text → Option Record) (key : Text) :
    rs.foldl add held key =
      (rs.reverse.find? fun r => r.key = key).elim (held key) (newer (held key)) := by
  induction rs using List.reverseRecOn with
  | nil => rfl
  | append_singleton rs r inductionHypothesis =>
    obtain ⟨orderedInit, -, before⟩ := List.pairwise_append.mp ordered
    rw [List.foldl_append, List.foldl_cons, List.foldl_nil, add_apply,
      inductionHypothesis orderedInit, List.reverse_append, List.reverse_singleton,
      List.singleton_append, List.find?_cons]
    by_cases same : r.key = key
    · rw [if_pos same, decide_eq_true same]
      cases found : rs.reverse.find? fun r => r.key = key with
      | none => rfl
      | some earlier =>
        have member := List.mem_reverse.mp (List.mem_of_find?_eq_some found)
        exact newer_newer _ (before earlier member r (List.mem_singleton.mpr rfl))
    · rw [if_neg same, decide_eq_false same]

/-- The map has the values of the last `Set`s. -/
theorem after_mapStep (map : StringMap) (calls : List Call) (key : Text) :
    after mapStep map calls key = (lastSet calls key).elim (map key) Record.value := by
  induction calls using List.reverseRecOn with
  | nil => rfl
  | append_singleton calls call inductionHypothesis =>
    have last : after mapStep map (calls ++ [call]) = (mapStep (after mapStep map calls) call).1 :=
      List.foldl_append ..
    rw [last, lastSet, List.filterMap_append, List.reverse_append]
    cases call with
    | get other => exact inductionHypothesis
    | set other value comment ts =>
      show Function.update (after mapStep map calls) other value key =
        Option.elim (List.find? _ (Record.mk other ts value :: _)) _ _
      rw [List.find?_cons]
      by_cases same : other = key
      · subst same
        simp only [decide_true]
        exact Function.update_self _ _ _
      · simp only [decide_eq_false same]
        rw [Function.update_of_ne (Ne.symm same)]
        exact inductionHypothesis

/-! ### The answers -/

/-- The store answers for a key, as the map does, unless it holds a bare string. -/
def Agree (db : DB) (map : StringMap) : Prop :=
  ∀ key, (∀ value, db.list key ≠ some (.bare value)) → get db key = some (map key)

/-- A key that is read has no bare string. -/
def ReadsRecord (db : DB) : Call → Prop
  | .get key => ∀ value, db.list key ≠ some (.bare value)
  | .set .. => True

theorem answer_step_iff {db : DB} {map : StringMap} (agree : Agree db map) (call : Call) :
    (step db call).2 = (mapStep map call).2 ↔ ReadsRecord db call := by
  cases call with
  | set key value comment ts => exact iff_of_true rfl trivial
  | get key =>
    constructor
    · intro same value bare
      have panics : get db key = none := by rw [get, bare]
      have wrong : answer (get db key) = .text (map key) := same
      rw [panics] at wrong
      cases wrong
    · intro held
      show answer (get db key) = .text (map key)
      rw [agree key held]
      rfl

theorem agree_step {db : DB} {map : StringMap} (agree : Agree db map) (call : Call) :
    Agree (step db call).1 (mapStep map call).1 := by
  cases call with
  | get key => exact agree
  | set key value comment ts =>
    intro other held
    have apart : other ≠ key := by
      rintro rfl
      exact held value (Function.update_self _ _ _)
    have list : (set db key value comment ts).list other = db.list other :=
      Function.update_of_ne apart _ _
    have mapped : Function.update map key value other = map other :=
      Function.update_of_ne apart _ _
    show get (set db key value comment ts) other = some (Function.update map key value other)
    rw [mapped, get, list]
    exact agree other fun value bare => held value (list.trans bare)

/-- The keys that are read have no bare strings, from the start and from the `Set`s. -/
theorem always_readsRecord_iff (db : DB) (calls : List Call) :
    Always step ReadsRecord db calls ↔
      (∀ key, Call.get key ∈ calls → ∀ value, db.list key ≠ some (.bare value)) ∧
        NoneReadBack calls := by
  induction calls generalizing db with
  | nil => exact iff_of_true trivial ⟨fun _ member => (List.not_mem_nil member).elim, .nil⟩
  | cons call rest inductionHypothesis =>
    rw [Always, inductionHypothesis]
    unfold NoneReadBack
    rw [List.pairwise_cons]
    cases call with
    | get key =>
      constructor
      · rintro ⟨here, later, apart⟩
        refine ⟨fun other member => ?_, fun _ _ _ _ _ _ _ => by simp, apart⟩
        rcases List.mem_cons.mp member with same | member
        · cases same
          exact here
        · exact later other member
      · rintro ⟨each, -, apart⟩
        exact ⟨each key List.mem_cons_self,
          fun other member => each other (List.mem_cons_of_mem _ member), apart⟩
    | set key value comment ts =>
      constructor
      · rintro ⟨-, later, apart⟩
        have notRead : ∀ other, Call.get other ∈ rest → other ≠ key := by
          rintro other member rfl
          exact later other member value (Function.update_self _ _ _)
        refine ⟨fun other member => ?_, fun read member other same _ _ _ set => ?_, apart⟩
        · have member := (List.mem_cons.mp member).resolve_left (by simp)
          intro bare found
          exact later other member bare
            ((Function.update_of_ne (notRead other member) _ _).trans found)
        · subst same
          cases set
          exact notRead _ member rfl
      · rintro ⟨each, first, apart⟩
        refine ⟨trivial, fun other member bare found => ?_, apart⟩
        have notKey : other ≠ key := by
          rintro rfl
          exact first _ member _ rfl _ _ _ rfl
        refine each other (List.mem_cons_of_mem _ member) bare ?_
        exact (Function.update_of_ne notKey _ _).symm.trans found

/-- The list of a loaded store holds records only. -/
theorem records_of_load {file : Text} {db : DB} (loaded : load file = some db) :
    ∃ held, db.list = records held := by
  obtain ⟨-, -, added⟩ := load_eq_some_iff.mp loaded
  obtain ⟨held, same⟩ := addLines_records ((rawLines file).map dropCR) fun _ => none
  exact ⟨held, Option.some.inj (added.symm.trans same)⟩

theorem list_eq_record_iff {db : DB} {held : Text → Option Record} (list : db.list = records held)
    (key : Text) (r : Record) : db.list key = some (.record r) ↔ held key = some r := by
  rw [list, records]
  cases held key with
  | none => exact iff_of_false nofun nofun
  | some old =>
    rw [Option.map_some, Option.some.injEq, Option.some.injEq, Entry.record.injEq]

theorem get_of_records {db : DB} {held : Text → Option Record} (list : db.list = records held)
    (key : Text) : get db key = some ((held key).elim [] Record.value) := by
  rw [get, list, records]
  cases held key <;> rfl

theorem values_of_records {db : DB} {held : Text → Option Record} (list : db.list = records held)
    (key : Text) : values db key = (held key).elim [] Record.value := by
  rw [values, get_of_records list key, Option.getD_some]

/-- A loaded store answers as a map just when no `Set` is read back. -/
theorem answers_iff {file : Text} {db : DB} (loaded : load file = some db) (calls : List Call) :
    outputs step db calls = outputs mapStep (values db) calls ↔ NoneReadBack calls := by
  obtain ⟨held, list⟩ := records_of_load loaded
  have noneBare : ∀ key value, db.list key ≠ some (.bare value) := by
    intro key value bare
    rw [list, records] at bare
    cases found : held key <;> rw [found] at bare <;> cases bare
  have agree : Agree db (values db) := fun key _ =>
    (get_of_records list key).trans (congrArg some (values_of_records list key).symm)
  have agreement := outputs_agree_iff step mapStep Agree Eq ReadsRecord (fun _ => True)
    (fun _ _ call agree _ => answer_step_iff agree call)
    (fun _ _ call agree _ _ => agree_step agree call) agree (fun call (_ : call ∈ calls) => trivial)
  rw [← List.forall₂_eq_eq_eq, agreement.1, always_readsRecord_iff]
  exact and_iff_right fun key _ value => noneBare key value

/-! ### The fresh load -/

theorem allFit_iff (calls : List Call) :
    AllFit calls ↔ ∀ line ∈ calls.filterMap Call.appended, line.length ≤ maxLine := by
  constructor
  · intro fit line member
    obtain ⟨call, called, appended⟩ := List.mem_filterMap.mp member
    cases call with
    | get key => cases appended
    | set key value comment ts =>
      cases appended
      exact fit key value comment ts called
  · intro fit key value comment ts member
    exact fit _ (List.mem_filterMap.mpr ⟨_, member, rfl⟩)

/-- The file of whole lines loads again with the records of the calls. -/
theorem load_after {file : Text} {db : DB} {held : Text → Option Record}
    (loaded : load file = some db) (list : db.list = records held) {calls : List Call}
    (whole : Whole file ∨ ∀ call ∈ calls, call.recorded = none)
    (clean : ∀ call ∈ calls, call.Clean) (again : DB) :
    load (after step db calls).file = some again ↔ AllFit calls ∧
      again.file = (after step db calls).file ∧
        again.list = records ((calls.filterMap Call.recorded).foldl add held) := by
  obtain ⟨fits, sameFile, added⟩ := load_eq_some_iff.mp loaded
  have lines := rawLines_after (sameFile.symm ▸ whole.imp_right List.filterMap_eq_nil_iff.mpr) clean
  rw [load_eq_some_iff, lines, sameFile, List.forall_mem_append, and_iff_right fits, ← allFit_iff,
    List.map_append, List.foldlM_append, added, list]
  refine and_congr_right fun _ => and_congr_right fun _ => ?_
  show (((calls.filterMap Call.appended).map dropCR).foldlM addLine (records held)) = _ ↔ _
  rw [addLines_appended clean held, Option.some.injEq]
  exact eq_comm

/-- The value of a key after a load is that of its last `Set`, unless that is obsolete. -/
theorem value_newer_iff (old : Option Record) (r : Record) :
    (newer old r).elim [] Record.value = r.value ↔
      ∀ was, old = some was → r.timestamp < was.timestamp → r.value = was.value := by
  cases old with
  | none => exact iff_of_true rfl nofun
  | some was =>
    by_cases before : r.timestamp < was.timestamp
    · have kept : newer (some was) r = some was := if_pos before
      rw [kept]
      constructor
      · intro same _ found _
        cases found
        exact same.symm
      · exact fun each => (each was rfl before).symm
    · have replaced : newer (some was) r = some r := if_neg before
      rw [replaced]
      refine iff_of_true rfl fun other found obsolete => ?_
      cases found
      exact absurd obsolete before

theorem reload_iff {file : Text} {db : DB} (loaded : load file = some db) {calls : List Call}
    (whole : Whole file ∨ ∀ call ∈ calls, call.recorded = none)
    (clean : ∀ call ∈ calls, call.Clean) (ordered : NonDecreasing calls) :
    (∃ again, load (after step db calls).file = some again ∧
      ∀ key, get again key = some (after mapStep (values db) calls key)) ↔
        AllFit calls ∧ NoneObsolete db calls := by
  obtain ⟨held, list⟩ := records_of_load loaded
  have each : ∀ key,
      ((calls.filterMap Call.recorded).foldl add held key).elim [] Record.value =
        after mapStep (values db) calls key ↔
      ∀ old r, db.list key = some (.record old) → lastSet calls key = some r →
        r.timestamp < old.timestamp → r.value = old.value := by
    intro key
    rw [foldl_add ordered, after_mapStep, values_of_records list]
    show ((lastSet calls key).elim (held key) (newer (held key))).elim [] Record.value = _ ↔ _
    cases lastSet calls key with
    | none => exact iff_of_true rfl fun _ _ _ => nofun
    | some r =>
      refine (value_newer_iff (held key) r).trans ?_
      constructor
      · intro obsolete old _ found same
        cases same
        exact obsolete old ((list_eq_record_iff list key old).mp found)
      · intro obsolete old found
        exact obsolete old r ((list_eq_record_iff list key old).mpr found) rfl
  constructor
  · rintro ⟨again, reloaded, same⟩
    obtain ⟨fit, -, listAgain⟩ := (load_after loaded list whole clean again).mp reloaded
    refine ⟨fit, fun key old r => (each key).mp ?_ old r⟩
    exact Option.some.inj ((get_of_records listAgain key).symm.trans (same key))
  · rintro ⟨fit, notObsolete⟩
    have reloaded := (load_after loaded list whole clean
      ⟨records ((calls.filterMap Call.recorded).foldl add held), (after step db calls).file⟩).mpr
        ⟨fit, rfl, rfl⟩
    refine ⟨_, reloaded, fun key => ?_⟩
    rw [get_of_records rfl key]
    exact congrArg some ((each key).mpr (notObsolete key))

/-! ### The round trip -/

/-- The store is the map just when no `Set` is read back in the same run, every line fits the
scanner, and no last `Set` is obsolete in the file, if the file is of whole lines or nothing is set.
Otherwise the first condition is still needed, and the first line that is set is glued to the last
line of the file. -/
theorem roundTrip_iff {file : Text} {db : DB} (loaded : load file = some db) {calls : List Call}
    (clean : ∀ call ∈ calls, call.Clean) (ordered : NonDecreasing calls) :
    ((Whole file ∨ ∀ call ∈ calls, call.recorded = none) →
      (RoundTrip db calls ↔ NoneReadBack calls ∧ AllFit calls ∧ NoneObsolete db calls)) ∧
    (RoundTrip db calls → NoneReadBack calls) ∧
    ∀ front tail line lines, file = front ++ tail → Whole front → newline ∉ tail →
      calls.filterMap Call.appended = line :: lines →
        rawLines (after step db calls).file = rawLines front ++ (tail ++ line) :: lines := by
  refine ⟨fun whole => ?_, fun trip => (answers_iff loaded calls).mp trip.answers,
    fun front tail line lines split whole free appended => ?_⟩
  · rw [← reload_iff loaded whole clean ordered, ← answers_iff loaded calls]
    exact ⟨fun trip => ⟨trip.answers, trip.reload⟩, fun both => ⟨both.1, both.2⟩⟩
  · have sameFile := (load_eq_some_iff.mp loaded).2.1
    exact rawLines_after_glued whole free (sameFile.trans split) clean appended

/-- The file after the store set the name of the machine, at noon of a day. -/
def namedFile : Text :=
  setLine (ascii "name") (ascii "frobio") (ascii "comment") (ascii "2024-0101-120000") ++ [newline]

def namedRecord : Record := ⟨ascii "name", ascii "2024-0101-120000", ascii "frobio"⟩

/-- The next run may read the name, and then set another one. -/
theorem roundTrip_iff_secondRun :
    RoundTrip ⟨records (add (fun _ => none) namedRecord), namedFile⟩
      [.get (ascii "name"), .set (ascii "name") (ascii "frobio2") (ascii "comment")
        (ascii "2024-0101-120000")] := by
  have cleanFirst : (Call.set (ascii "name") (ascii "frobio") (ascii "comment")
    (ascii "2024-0101-120000")).Clean := by unfold Call.Clean Strdy.Clean; decide
  have lines : rawLines namedFile = [setLine (ascii "name") (ascii "frobio") (ascii "comment")
    (ascii "2024-0101-120000")] := rawLines_append (.inl rfl) (newline_not_mem_setLine cleanFirst)
  have loaded : load namedFile = some ⟨records (add (fun _ => none) namedRecord), namedFile⟩ := by
    refine load_eq_some_iff.mpr ⟨?_, rfl, ?_⟩
    · rw [lines]
      decide
    · rw [lines, List.map_singleton, List.foldlM_cons, addLine_setLine _ cleanFirst]
      rfl
  have clean : ∀ call ∈ [Call.get (ascii "name"), .set (ascii "name") (ascii "frobio2")
      (ascii "comment") (ascii "2024-0101-120000")], call.Clean := by
    rw [List.forall_mem_cons, List.forall_mem_singleton]
    unfold Call.Clean Strdy.Clean
    decide
  refine ((roundTrip_iff loaded clean (List.pairwise_singleton _ _)).1 (.inl (.inr ⟨_, rfl⟩))).mpr
    ⟨?_, ?_, ?_⟩
  · refine .cons (fun _ _ _ _ _ _ _ => nofun) (List.pairwise_singleton _ _)
  · intro key value comment ts member
    have same := List.mem_singleton.mp ((List.mem_cons.mp member).resolve_left nofun)
    cases same
    decide
  · intro key old r found last obsolete
    have held := (list_eq_record_iff rfl key old).mp found
    have member := List.mem_reverse.mp (List.mem_of_find?_eq_some last)
    rw [add_apply] at held
    split at held
    · cases held
      cases List.mem_singleton.mp member
      revert obsolete
      decide
    · cases held

/-- The store panics when a key is read after it is set. -/
theorem not_roundTrip_readBack :
    load [] = some ⟨fun _ => none, []⟩ ∧
      ¬RoundTrip ⟨fun _ => none, []⟩ [.set (ascii "name") (ascii "frobio") (ascii "comment")
        (ascii "2024-0101-120000"), .get (ascii "name")] := by
  refine ⟨rfl, fun trip => ?_⟩
  have answers := trip.answers
  have panics : (List.getLast? (outputs step ⟨fun _ => none, []⟩ [.set (ascii "name")
    (ascii "frobio") (ascii "comment") (ascii "2024-0101-120000"), .get (ascii "name")])) =
      some .panic := by decide
  rw [answers] at panics
  revert panics
  decide

end Frobio.Strdy
