/-
This file is about what the transfers do to the files: `getb` leaves a local file that is the
remote one, `gett` one with the lines of the remote one, each ended by a carriage return, and `putt`
a remote file that is the local one with its carriage returns changed to newlines
(`transfers_of_fair`).

Each command is a conversation, of messages that each change the files a little. That the two sides
go through it together is shown where it is no matter what is said.
-/

import Mathlib.Data.List.TakeWhile
import Frobio.NetCmds.RPhases

namespace Frobio.RCommand

open Coms SlashPath Mux Run

/-! ### Reading the files of the host -/

/-- The text with the end of each line made a carriage return: a newline, or the two bytes that end
a line elsewhere; and one after a last line that was not ended. -/
def withCr : Text → Text
  | [] => []
  | byte :: rest =>
    if byte = 13 ∧ rest.head? = some 10 then withCr rest
    else if byte = 10 then 13 :: withCr rest
    else if rest = [] then [byte, 13]
    else byte :: withCr rest

/-- There are as many bytes without a newline as the buffer of the reader has. -/
def LongLine (content : Text) : Prop :=
  ∃ line, line <:+: content ∧ line.length = defaultBufSize ∧ 10 ∉ line

theorem flatten_readBlocksFrom {rounds : Nat} {cuts : List Nat} {content : Text}
    (enough : content.length ≤ rounds) : (readBlocksFrom rounds cuts content).flatten = content := by
  induction rounds generalizing cuts content with
  | zero =>
    rw [List.length_eq_zero_iff.mp (Nat.le_zero.mp enough)]
    rfl
  | succ rounds inductionHypothesis =>
    rw [readBlocksFrom]
    by_cases none : content = []
    · rw [if_pos none, none]
      rfl
    · have some := List.length_pos_iff.mpr none
      rw [if_neg none, List.flatten_cons, inductionHypothesis, List.take_append_drop]
      rw [List.length_drop]
      omega

theorem readBlocksFrom_ne_nil {rounds : Nat} {cuts : List Nat} {content : Text} :
    ∀ block ∈ readBlocksFrom rounds cuts content, block ≠ [] := by
  induction rounds generalizing cuts content with
  | zero => exact fun block member => (List.not_mem_nil member).elim
  | succ rounds inductionHypothesis =>
    rw [readBlocksFrom]
    split
    · exact fun block member => (List.not_mem_nil member).elim
    · rename_i some
      refine List.forall_mem_cons.mpr ⟨fun none => ?_, inductionHypothesis⟩
      have length := congrArg List.length none
      rw [List.length_take, List.length_nil] at length
      have := List.length_pos_iff.mpr some
      omega

/-- A part without the separator lies on one side of it. -/
theorem infix_append_cons {part front back : Text} {byte : UInt8} (without : byte ∉ part)
    (inside : part <:+: front ++ byte :: back) : part <:+: front ∨ part <:+: back := by
  have before : ∀ front : Text, part <+: front ++ byte :: back → part <+: front := by
    intro front begins
    obtain ⟨more, same⟩ := begins
    rcases List.append_eq_append_iff.mp same with ⟨between, rfl, -⟩ | ⟨between, rfl, tail⟩
    · exact List.prefix_append _ _
    · cases between with
      | nil => exact (List.append_nil front).symm ▸ List.prefix_refl _
      | cons first rest =>
        rw [List.cons_append, List.cons.injEq] at tail
        exact absurd (List.mem_append_right _ (tail.1 ▸ List.mem_cons_self)) without
  induction front with
  | nil =>
    rw [List.nil_append, List.infix_cons_iff] at inside
    rcases inside with begins | within
    · exact .inl (before [] begins).isInfix
    · exact .inr within
  | cons first front inductionHypothesis =>
    rw [List.cons_append, List.infix_cons_iff] at inside
    rcases inside with begins | within
    · exact .inl (before (first :: front) begins).isInfix
    · exact (inductionHypothesis within).imp_left List.infix_cons

theorem withCr_line {line : Text} (some : line ≠ []) (without : 10 ∉ line) :
    withCr line = line ++ [13] := by
  induction line with
  | nil => exact absurd rfl some
  | cons byte line inductionHypothesis =>
    obtain ⟨other, rest⟩ := not_or.mp (List.mem_cons.not.mp without)
    have follows : line.head? ≠ .some 10 := fun here => rest (List.mem_of_head? here)
    rw [withCr, if_neg fun both => follows both.2, if_neg (Ne.symm other)]
    by_cases last : line = []
    · rw [if_pos last, last]
      rfl
    · rw [if_neg last, inductionHypothesis last rest]
      rfl

theorem withCr_append {line : Text} (without : 10 ∉ line) (rest : Text) :
    withCr (line ++ 10 :: rest) =
      (if line.getLast? = some 13 then line.dropLast else line) ++ 13 :: withCr rest := by
  induction line with
  | nil =>
    rw [List.nil_append, withCr, if_neg (by simp), if_pos rfl]
    rfl
  | cons byte line inductionHypothesis =>
    obtain ⟨other, within⟩ := not_or.mp (List.mem_cons.not.mp without)
    rw [List.cons_append, withCr]
    cases line with
    | nil =>
      by_cases cr : byte = 13
      · rw [if_pos ⟨cr, rfl⟩, inductionHypothesis within, cr]
        rfl
      · rw [if_neg fun both => cr both.1, if_neg (Ne.symm other), if_neg (by simp),
          inductionHypothesis within, if_neg (by simp), if_neg (by simpa using cr)]
        rfl
    | cons next line =>
      have follows : (next :: line ++ 10 :: rest).head? ≠ some 10 := by
        intro here
        exact within (Option.some.inj here ▸ List.mem_cons_self)
      rw [if_neg fun both => follows both.2, if_neg (Ne.symm other), if_neg (by simp),
        inductionHypothesis within, List.getLast?_cons_cons, List.dropLast_cons₂]
      split
      · rfl
      · rfl

/-- The first line, and what follows it if it is ended. -/
theorem line_cases (content : Text) : 10 ∉ content.takeWhile (· ≠ 10) ∧
    (content = content.takeWhile (· ≠ 10) ∨ ∃ rest, content = content.takeWhile (· ≠ 10) ++ 10 :: rest) := by
  constructor
  · intro member
    have other := List.all_eq_true.mp (@List.all_takeWhile _ (fun byte : UInt8 => byte ≠ 10) content)
    exact of_decide_eq_true (other 10 member) rfl
  · induction content with
    | nil => exact .inl rfl
    | cons byte rest inductionHypothesis =>
      by_cases ends : byte = 10
      · refine .inr ⟨rest, ?_⟩
        rw [List.takeWhile_cons_of_neg (by simpa using ends), ends]
        rfl
      · rw [List.takeWhile_cons_of_pos (by simpa using ends)]
        rcases inductionHypothesis with last | ⟨more, split⟩
        · exact .inl (congrArg _ last)
        · exact .inr ⟨more, congrArg _ split⟩

/-- The lines that are read, and whether a line is too long for the reader. -/
theorem readLinesFrom_spec {rounds : Nat} {content : Text} (enough : content.length ≤ rounds) :
    (LongLine content ∧ (readLinesFrom rounds content).2 = .isPrefix) ∨
      (¬LongLine content ∧ (readLinesFrom rounds content).2 = .eof ∧
        (readLinesFrom rounds content).1.flatMap (· ++ [13]) = withCr content) := by
  induction rounds generalizing content with
  | zero =>
    obtain rfl := List.length_eq_zero_iff.mp (Nat.le_zero.mp enough)
    refine .inr ⟨?_, rfl, rfl⟩
    rintro ⟨line, inside, long, -⟩
    rw [List.infix_nil.mp inside] at long
    cases long
  | succ rounds inductionHypothesis =>
    rw [readLinesFrom]
    by_cases none : content = []
    · subst none
      rw [if_pos rfl]
      refine .inr ⟨?_, rfl, rfl⟩
      rintro ⟨line, inside, long, -⟩
      rw [List.infix_nil.mp inside] at long
      cases long
    rw [if_neg none]
    obtain ⟨without, split⟩ := line_cases content
    generalize content.takeWhile (· ≠ 10) = line at without split
    dsimp only
    by_cases fits : defaultBufSize ≤ line.length
    · rw [if_pos fits]
      refine .inl ⟨⟨line.take defaultBufSize, ?_, ?_, ?_⟩, rfl⟩
      · have first : line <+: content := by
          rcases split with same | ⟨rest, same⟩
          · exact same ▸ List.prefix_refl _
          · exact same ▸ List.prefix_append _ _
        exact ((List.take_prefix _ _).trans first).isInfix
      · rw [List.length_take, Nat.min_eq_left fits]
      · exact fun member => without (List.mem_of_mem_take member)
    · rw [if_neg fits]
      have short : ∀ {part : Text}, part <:+: line → part.length ≠ defaultBufSize := by
        intro part inside same
        have := inside.length_le
        omega
      rcases split with rfl | ⟨rest, rfl⟩
      · rw [List.drop_length]
        dsimp only
        refine .inr ⟨?_, rfl, ?_⟩
        · rintro ⟨part, inside, long, -⟩
          exact short inside long
        · rw [withCr_line none without, List.flatMap_singleton]
      · rw [List.drop_left]
        dsimp only
        rw [List.length_append, List.length_cons] at enough
        have longer : LongLine (line ++ 10 :: rest) ↔ LongLine rest := by
          constructor
          · rintro ⟨part, inside, long, free⟩
            rcases infix_append_cons free inside with within | within
            · exact absurd long (short within)
            · exact ⟨part, within, long, free⟩
          · rintro ⟨part, inside, long, free⟩
            refine ⟨part, inside.trans ?_, long, free⟩
            exact (List.suffix_append_of_suffix (List.suffix_cons 10 rest)).isInfix
        rw [longer]
        rcases @inductionHypothesis rest (by omega) with
          ⟨long, ends⟩ | ⟨short, ends, lines⟩
        · exact .inl ⟨long, ends⟩
        · refine .inr ⟨short, ends, ?_⟩
          rw [List.flatMap_cons, lines, withCr_append without, List.append_assoc]
          rfl

/-! ### What the messages do -/

namespace Local

variable (here : Local) (text more : Text)

@[simp] theorem output_setOutput : (here.setOutput text).output = text := by
  unfold setOutput output
  cases here.filePtr with
  | none => rfl
  | some f =>
    dsimp only
    rw [Function.update_self]
    rfl

@[simp] theorem setOutput_setOutput : (here.setOutput text).setOutput more = here.setOutput more := by
  unfold setOutput
  cases here.filePtr with
  | none => rfl
  | some f =>
    dsimp only
    rw [Function.update_idem]

theorem puts_setOutput : (here.setOutput text).puts more = here.setOutput (text ++ more) := by
  rw [puts, output_setOutput, setOutput_setOutput]

theorem create_eq (name : Text) :
    here.create name = { here with filePtr := some ⟨name, []⟩ }.setOutput [] := rfl

end Local

theorem cString_of_not_mem {text : Text} (noNul : 0 ∉ text) : cString text = text := by
  refine List.takeWhile_eq_self_iff.mpr fun byte member => decide_eq_true ?_
  rintro rfl
  exact noNul member

section

variable {channel : Nat} {here : Local}

theorem does_line (text : Text) :
    Does channel here (writeLine text) (here.puts (cString text)) CMD_MID_MUX [] where
  said := List.cons_ne_nil _ _
  short := by decide
  does := by
    intro q os9 result _ succeeds _ acts
    have same : onMid channel q (writeLine text) os9 here =
        some (goOn channel (here.puts (cString text))) := by
      cases os9 with
      | done => rfl
      | wrote answers => rfl
      | failed errnum => cases succeeds.1
    rw [same] at acts
    exact (Option.some.inj acts).symm
  can := fun _ _ => ⟨_, rfl⟩

theorem does_create (name : Text) :
    Does channel here (cocoCreate name) (here.create (cString name)) CMD_MID_MUX [] where
  said := List.cons_ne_nil _ _
  short := by decide
  does := by
    intro q os9 result _ succeeds _ acts
    have same : onMid channel q (cocoCreate name) os9 here =
        some (goOn channel (here.create (cString name))) := by
      cases os9 with
      | done => rfl
      | wrote answers => rfl
      | failed errnum => cases succeeds.1
    rw [same] at acts
    exact (Option.some.inj acts).symm
  can := fun _ _ => ⟨_, rfl⟩

theorem does_open {name text : Text} (found : here.files (cString name) = some text) :
    Does channel here (cocoOpen name) { here with filePtr := some ⟨cString name, text⟩ }
      CMD_MID_MUX [] where
  said := List.cons_ne_nil _ _
  short := by decide
  does := by
    intro q os9 result _ succeeds _ acts
    have same : onMid channel q (cocoOpen name) os9 here =
        (here.openRead (cString name)).map (goOn channel) := by
      cases os9 with
      | done => rfl
      | wrote answers => rfl
      | failed errnum => cases succeeds.1
    rw [same, Local.openRead, found] at acts
    exact (Option.some.inj acts).symm
  can := by
    intro q _
    have same : onMid channel q (cocoOpen name) .done here =
        (here.openRead (cString name)).map (goOn channel) := rfl
    rw [same, Local.openRead, found]
    exact ⟨_, rfl⟩

theorem onMid_close {f : File} (opened : here.filePtr = some f) (q : Quint) (os9 : Os9) :
    onMid channel q cocoClose os9 here = some (goOn channel { here with filePtr := none }) := by
  obtain ⟨files, filePtr, stdIn, stdOut, stdErr⟩ := here
  cases opened
  rfl

theorem does_close {f : File} (opened : here.filePtr = some f) :
    Does channel here cocoClose { here with filePtr := none } CMD_MID_MUX [] where
  said := List.cons_ne_nil _ _
  short := by decide
  does := by
    intro q os9 result _ _ _ acts
    rw [onMid_close opened] at acts
    exact (Option.some.inj acts).symm
  can := fun q _ => ⟨_, onMid_close opened q .done⟩

theorem does_dot : Does channel here (ascii ".") here CMD_END_MUX [] where
  said := List.cons_ne_nil _ _
  short := by decide
  does := by
    intro q os9 result _ _ _ acts
    have same : onMid channel q (ascii ".") os9 here =
        some (.quint CMD_END_MUX, here, bare CMD_END_MUX channel) := rfl
    rw [same] at acts
    exact (Option.some.inj acts).symm
  can := fun _ _ => ⟨_, rfl⟩

/-- Calls of OS-9 without an error do not make `FWrite` return one. -/
theorem okay_of_fWrite {memory : Nat → UInt8} {buf n : Nat} {answers : List Stdio.Answer}
    {file file' : List UInt8} {e : UInt8} (all : ∀ answer ∈ answers, ∃ cc, answer = .ok cc)
    (done : Stdio.FWrite memory buf answers n file = some (e, file')) : e = Stdio.OKAY := by
  induction answers generalizing n file with
  | nil =>
    rw [Stdio.FWrite] at done
    split at done
    · cases done
      rfl
    · cases done
  | cons answer later inductionHypothesis =>
    obtain ⟨⟨cc, rfl⟩, others⟩ := List.forall_mem_cons.mp all
    rw [Stdio.FWrite] at done
    split at done
    · cases done
      rfl
    · exact inductionHypothesis others done

/-- The data of a message, where `inbuf` has it. -/
theorem load_data (q : Quint) (which : UInt8) (data : Text) :
    Memory.load (fun a => (q.bytes ++ which :: data).getD a 0) 6 data.length = data := by
  refine List.ext_getElem? fun i => ?_
  by_cases inside : i < data.length
  · rw [Memory.getElem?_load _ _ inside, List.getD_eq_getElem?_getD,
      List.getElem?_append_right (by rw [Quint.length_bytes]; omega), Quint.length_bytes,
      show 6 + i - 5 = i + 1 by omega, List.getElem?_cons_succ, List.getElem?_eq_getElem inside]
    rfl
  · rw [List.getElem?_eq_none (by rw [Memory.length_load]; omega),
      List.getElem?_eq_none (by omega)]

theorem does_bytes (data : Text) :
    Does channel here (writeBytes data) (here.puts data) CMD_MID_MUX [] where
  said := List.cons_ne_nil _ _
  short := by decide
  does := by
    intro q os9 result count succeeds repeats acts
    have same : onMid channel q (writeBytes data) os9 here =
        writesAll channel q (52 :: data) os9 here := rfl
    rw [same, writesAll] at acts
    obtain ⟨⟨e, written⟩, wrote, rfl⟩ := Option.map_eq_some_iff.mp acts
    have length : (52 :: data).length - 1 = data.length := Nat.add_sub_cancel ..
    have length' : (writeBytes data).length - 1 = data.length := Nat.add_sub_cancel ..
    rw [length'] at succeeds repeats
    rw [length] at wrote
    -- whether in one part or in several, all of the data is written
    have right : (∀ answer ∈ os9.answers data.length, ∃ cc, answer = .ok cc) ∧
        Stdio.Legal (os9.answers data.length) data.length ∧
        Stdio.Repeats (fun a => (q.bytes ++ 52 :: data).getD a 0) 6
          (Stdio.counts (os9.answers data.length) data.length) 0 := by
      cases os9 with
      | done =>
        refine ⟨List.forall_mem_singleton.mpr ⟨_, rfl⟩, ?_, ?_⟩
        · by_cases none : data.length = 0
          · exact .inl none
          · exact .inr ⟨Nat.one_le_iff_ne_zero.mpr none, le_rfl, trivial⟩
        · show Stdio.Repeats _ 6 (if data.length = 0 then [] else [data.length]) 0
          split
          · trivial
          · exact ⟨rfl, trivial⟩
      | failed errnum => cases succeeds.1
      | wrote answers =>
        obtain ⟨legal, all⟩ := succeeds.2 answers rfl
        exact ⟨all, legal, repeats answers rfl⟩
    obtain ⟨all, legal, repeats⟩ := right
    have okay : e = Stdio.OKAY := okay_of_fWrite all wrote
    rw [okay] at wrote
    obtain ⟨total, rfl⟩ := Stdio.fWrite_eq legal wrote
    have whole := (Stdio.flatMap_load_iff _ 6 _ 0).mpr repeats
    rw [total, Nat.add_zero, load_data] at whole
    dsimp only
    rw [if_pos okay, whole]
    rfl
  can := by
    intro q _
    have same : onMid channel q (writeBytes data) .done here =
        writesAll channel q (52 :: data) .done here := rfl
    rw [same, writesAll]
    have length : (52 :: data).length - 1 = data.length := Nat.add_sub_cancel ..
    rw [length]
    have wrote : ∃ result, Stdio.FWrite (fun a => (q.bytes ++ 52 :: data).getD a 0) 6
        (Os9.done.answers data.length) data.length here.output = some result := by
      rw [Os9.answers, Stdio.FWrite]
      by_cases none : data.length = 0
      · exact ⟨_, if_pos none⟩
      · rw [if_neg none, Stdio.FWrite, if_pos (Nat.sub_self _)]
        exact ⟨_, rfl⟩
    obtain ⟨result, wrote⟩ := wrote
    rw [wrote]
    exact ⟨_, rfl⟩

theorem readLn_prefix (limit : Nat) (text : Text) : readLn limit text <+: text := by
  induction limit generalizing text with
  | zero => exact List.nil_prefix
  | succ limit inductionHypothesis =>
    cases text with
    | nil => exact List.nil_prefix
    | cons byte rest =>
      rw [readLn]
      split
      · exact List.cons_prefix_cons.mpr ⟨rfl, List.nil_prefix⟩
      · exact List.cons_prefix_cons.mpr ⟨rfl, inductionHypothesis rest⟩

theorem readLn_ne_nil {limit : Nat} {text : Text} (some : text ≠ []) :
    readLn (limit + 1) text ≠ [] := by
  cases text with
  | nil => exact absurd rfl some
  | cons byte rest =>
    rw [readLn]
    split
    · exact List.cons_ne_nil _ _
    · exact List.cons_ne_nil _ _

theorem length_readLn_le (limit : Nat) (text : Text) : (readLn limit text).length ≤ limit := by
  induction limit generalizing text with
  | zero => exact Nat.le_refl 0
  | succ limit inductionHypothesis =>
    cases text with
    | nil => exact Nat.zero_le _
    | cons byte rest =>
      rw [readLn]
      split
      · exact Nat.succ_le_succ (Nat.zero_le limit)
      · exact Nat.succ_le_succ (inductionHypothesis rest)

theorem onMid_six (q : Quint) (os9 : Os9) :
    onMid channel q (ascii "6") os9 here = some (getsLine channel os9 here) := rfl

theorem does_six_nil (atEnd : here.input = []) :
    Does channel here (ascii "6") here CMD_MID_MUX [] where
  said := List.cons_ne_nil _ _
  short := by decide
  does := by
    intro q os9 result _ succeeds _ acts
    have none : readLn (bufSize - 7 - 1) here.input = [] := by rw [atEnd]; rfl
    rw [onMid_six, Option.some_inj, getsLine, succeeds.1] at acts
    dsimp only at acts
    rw [if_pos none] at acts
    exact acts.symm
  can := fun q _ => ⟨_, onMid_six q .done⟩

theorem does_six {line : Text} (more : here.input ≠ []) (noNul : 0 ∉ here.input)
    (reads : readLn (bufSize - 7 - 1) here.input = line) :
    Does channel here (ascii "6") (here.setInput (here.input.drop line.length)) CMD_MID_MUX
      (54 :: line) where
  said := List.cons_ne_nil _ _
  short := by
    have within := reads ▸ length_readLn_le (bufSize - 7 - 1) here.input
    unfold bufSize MAX_MSG_LEN at within
    rw [List.length_cons]
    omega
  does := by
    intro q os9 result _ succeeds _ acts
    have some : line ≠ [] := reads ▸ readLn_ne_nil more
    have free : 0 ∉ line := fun member => noNul ((reads ▸ readLn_prefix _ _).subset member)
    rw [onMid_six, Option.some_inj, getsLine, succeeds.1] at acts
    dsimp only at acts
    rw [reads, if_neg some, cString_of_not_mem free] at acts
    exact acts.symm
  can := fun q _ => ⟨_, onMid_six q .done⟩

/-- Messages that are each taken in turn, with no answer but to ask for more. -/
inductive Plays (channel : Nat) : Local → List Text → Local → Prop
  | nil (here : Local) : Plays channel here [] here
  | cons {here here' final : Local} {message : Text} {later : List Text}
      (does : Does channel here message here' CMD_MID_MUX []) (rest : Plays channel here' later final) :
      Plays channel here (message :: later) final

theorem Plays.append {first second : List Text} {middle final : Local}
    (begins : Plays channel here first middle) (ends : Plays channel middle second final) :
    Plays channel here (first ++ second) final := by
  induction begins with
  | nil => exact ends
  | cons does _ inductionHypothesis => exact .cons does (inductionHypothesis ends)

theorem plays_blocks (here : Local) (text : Text) (blocks : List Text) :
    Plays channel (here.setOutput text) (blocks.map writeBytes)
      (here.setOutput (text ++ blocks.flatten)) := by
  induction blocks generalizing text with
  | nil =>
    rw [List.flatten_nil, List.append_nil]
    exact .nil _
  | cons block blocks inductionHypothesis =>
    have first : Does channel (here.setOutput text) (writeBytes block)
        ((here.setOutput text).puts block) CMD_MID_MUX [] := does_bytes block
    rw [Local.puts_setOutput] at first
    have rest := inductionHypothesis (text ++ block)
    rw [List.append_assoc, ← List.flatten_cons] at rest
    exact .cons first rest

theorem plays_lines (here : Local) (text : Text) {lines : List Text}
    (noNul : ∀ line ∈ lines, 0 ∉ line) :
    Plays channel (here.setOutput text) (lines.map fun line => writeLine (line ++ [13]))
      (here.setOutput (text ++ lines.flatMap (· ++ [13]))) := by
  induction lines generalizing text with
  | nil =>
    rw [List.flatMap_nil, List.append_nil]
    exact .nil _
  | cons line lines inductionHypothesis =>
    obtain ⟨free, others⟩ := List.forall_mem_cons.mp noNul
    have whole : cString (line ++ [13]) = line ++ [13] := by
      refine cString_of_not_mem fun member => ?_
      rcases List.mem_append.mp member with inside | last
      · exact free inside
      · cases List.mem_singleton.mp last
    have first : Does channel (here.setOutput text) (writeLine (line ++ [13]))
        ((here.setOutput text).puts (cString (line ++ [13]))) CMD_MID_MUX [] := does_line _
    rw [whole, Local.puts_setOutput] at first
    have rest := inductionHypothesis (text ++ (line ++ [13])) others
    rw [List.append_assoc] at rest
    rw [List.flatMap_cons]
    exact .cons first rest

end

/-! ### The conversations -/

def cost (messages : List Text) : Nat := (messages.map fun message => message.length + 20).sum

section

variable {host : Host} {channel : Nat} {good : Goal} {here here' : Local} {remote : Text → Text}
  {total : Nat}

theorem talk_exit {verdict : Text} (said : verdict ≠ []) (ends : good here.files remote verdict) :
    Talk host channel good (verdict.length + 41) here remote (.exitDot verdict) CMD_MID_MUX [] :=
  .round rfl rfl rfl does_dot (.last ends said le_rfl) (by
    show verdict.length + 20 + 1 + 20 ≤ verdict.length + 41
    omega)

theorem talk_script {messages : List Text} {ending : Ending}
    (plays : Plays channel here messages here')
    (after : Talk host channel good total here' remote (Script.next ⟨[], ending⟩) CMD_MID_MUX []) :
    Talk host channel good (cost messages + total) here remote (Script.next ⟨messages, ending⟩)
      CMD_MID_MUX [] := by
  induction plays with
  | nil =>
    rw [cost, List.map_nil, List.sum_nil, Nat.zero_add]
    exact after
  | @cons _ _ _ message later does _ inductionHypothesis =>
    refine .round rfl rfl rfl does (inductionHypothesis after) ?_
    rw [cost, cost, List.map_cons, List.sum_cons]
    omega

/-- What `putt` makes of a byte. -/
def crToLf (byte : UInt8) : UInt8 := if byte = 13 then 10 else byte

def putTVerdict (host : Host) (src dest : Text) : Text :=
  ascii "+ PutT " ++ host.quote src ++ ascii " to " ++ host.quote dest

/-- `PutTCommand` asks for lines until there are no more. -/
theorem talk_putT {src dest path rest : Text} (opened : here.filePtr = some ⟨path, rest⟩)
    (noNul : 0 ∉ rest)
    (ends : good here.files (Function.update remote (longName host dest)
      (remote (longName host dest) ++ rest.map crToLf)) (putTVerdict host src dest)) :
    ∃ here' tag' pay', Does channel here (ascii "6") here' tag' pay' ∧
      Talk host channel good (25 * rest.length + (putTVerdict host src dest).length + 62) here' remote
        (.packet src dest) tag' pay' := by
  induction size : rest.length using Nat.strong_induction_on generalizing here remote rest with
  | _ count inductionHypothesis =>
    have input : here.input = rest := by rw [Local.input, opened]
    by_cases none : rest = []
    · refine ⟨here, _, _, does_six_nil (input.trans none), ?_⟩
      rw [none, List.map_nil, List.append_nil, Function.update_eq_self] at ends
      have exits : Talk host channel good ((putTVerdict host src dest).length + 41)
          { here with filePtr := Option.none } remote (.exitDot (putTVerdict host src dest))
          CMD_MID_MUX [] := talk_exit (List.cons_ne_nil _ _) ends
      refine .round rfl rfl rfl (does_close opened) exits ?_
      show (putTVerdict host src dest).length + 41 + 1 + 20 ≤ _
      omega
    · generalize reads : readLn (bufSize - 7 - 1) rest = line
      have begins : line <+: rest := reads ▸ readLn_prefix _ _
      have some : line ≠ [] := reads ▸ readLn_ne_nil none
      have parts : line ++ rest.drop line.length = rest :=
        List.prefix_append_drop begins |>.symm
      have some' := List.length_pos_iff.mpr some
      have within := begins.length_le
      have does : Does channel here (ascii "6") (here.setInput (here.input.drop line.length))
          CMD_MID_MUX (54 :: line) :=
        does_six (by rw [input]; exact none) (by rw [input]; exact noNul) (by rw [input]; exact reads)
      have read : here.setInput (here.input.drop line.length) =
          { here with filePtr := Option.some ⟨path, rest.drop line.length⟩ } := by
        rw [input, Local.setInput, opened]
      rw [read] at does
      have fewer : (rest.drop line.length).length < count := by
        rw [List.length_drop]
        omega
      have ends' : good here.files (Function.update
          (Function.update remote (longName host dest)
            (remote (longName host dest) ++ line.map crToLf)) (longName host dest)
          (Function.update remote (longName host dest)
            (remote (longName host dest) ++ line.map crToLf) (longName host dest) ++
              (rest.drop line.length).map crToLf)) (putTVerdict host src dest) := by
        rw [Function.update_idem, Function.update_self, List.append_assoc, ← List.map_append, parts]
        exact ends
      have opened' : { here with filePtr := Option.some ⟨path, rest.drop line.length⟩ }.filePtr =
          Option.some ⟨path, rest.drop line.length⟩ := rfl
      obtain ⟨here', tag', pay', next, talk⟩ := inductionHypothesis _ fewer opened'
        (fun member => noNul (List.mem_of_mem_drop member)) ends' rfl
      refine ⟨_, _, _, does, ?_⟩
      have accepts : Stage.accept host (54 :: line) (.packet src dest) =
          .ok (.take src dest (line.map crToLf)) := by
        cases line with
        | nil => exact absurd rfl some
        | cons byte line => rfl
      refine .stores rfl accepts next talk ?_
      rw [List.length_drop]
      omega

end

/-! ### What a transfer is for -/

/-- The command does not come to its transfer: the waiter has no file system, the words are not those
of its usage, or a line is longer than the waiter reads. -/
def Refused (host : Host) (fn : CommandFunc) (argv : List Text) (remote : Text → Text) : Prop :=
  host.fs = [] ∨
    match fn with
    | .putt => putPaths argv = none
    | .gett => ∀ src dest, getPaths argv = some (src, dest) → LongLine (remote (longName host src))
    | _ => getPaths argv = none

/-- The one file that is written is what it should be, and the others are as before. -/
def Transferred (host : Host) (fn : CommandFunc) (argv : List Text) (files : Text → Option Text)
    (remote : Text → Text) (files' : Text → Option Text) (remote' : Text → Text) : Prop :=
  match fn with
  | .getb => ∀ src dest, getPaths argv = some (src, dest) → remote' = remote ∧
      files' = Function.update files (cString dest) (some (remote (longName host src)))
  | .gett => ∀ src dest, getPaths argv = some (src, dest) → remote' = remote ∧
      files' = Function.update files (cString dest) (some (withCr (remote (longName host src))))
  | .putt => ∀ src dest text, putPaths argv = some (src, dest) → files (cString src) = some text →
      files' = files ∧ remote' = Function.update remote (longName host dest) (text.map crToLf)
  | _ => False

/-- What the command is given: for text, no NUL bytes; and a local file to send. -/
def Given (host : Host) (fn : CommandFunc) (argv : List Text) (files : Text → Option Text)
    (remote : Text → Text) : Prop :=
  match fn with
  | .getb => True
  | .gett => ∀ src dest, getPaths argv = some (src, dest) → 0 ∉ remote (longName host src)
  | .putt => ∀ src dest, putPaths argv = some (src, dest) →
      ∃ text, files (cString src) = some text ∧ 0 ∉ text
  | _ => False

/-- The verdict says whether the transfer was made. -/
def EndsWell (host : Host) (fn : CommandFunc) (argv : List Text) (files : Text → Option Text)
    (remote : Text → Text) : Goal := fun files' remote' verdict =>
  (Refused host fn argv remote → verdict.head? ≠ some 43) ∧
    (¬Refused host fn argv remote →
      verdict.head? = some 43 ∧ Transferred host fn argv files remote files' remote')

section

variable {host : Host} {channel : Nat} {here : Local} {remote : Text → Text} {argv : List Text}

/-- A panic before anything is said is an error at both ends. -/
theorem talk_refused {fn : CommandFunc} {files : Text → Option Text} {here : Local}
    {remote remote' : Text → Text} (refused : Refused host fn argv remote) (text : Text) :
    Talk host channel (EndsWell host fn argv files remote) ((caught text).length + 41) here remote'
      (.exitDot (caught text)) CMD_MID_MUX [] := by
  refine talk_exit (List.cons_ne_nil _ _) ⟨fun _ => ?_, fun accepted => absurd refused accepted⟩
  exact fun plus => absurd (Option.some.inj plus) (by decide)

theorem cost_blocks {blocks : List Text} (some : ∀ block ∈ blocks, block ≠ []) :
    cost (blocks.map writeBytes) ≤ 22 * blocks.flatten.length := by
  induction blocks with
  | nil => exact Nat.le_refl 0
  | cons block blocks inductionHypothesis =>
    obtain ⟨first, rest⟩ := List.forall_mem_cons.mp some
    have later := inductionHypothesis rest
    have length := List.length_pos_iff.mpr first
    have message : (writeBytes block).length = block.length + 1 := rfl
    rw [cost] at later ⊢
    rw [List.map_cons, List.map_cons, List.sum_cons, List.flatten_cons, List.length_append, message]
    omega

theorem cost_between (first last : Text) (middle : List Text) :
    cost (first :: (middle ++ [last])) = cost [first] + cost middle + cost [last] := by
  simp only [cost, List.map_cons, List.map_append, List.map_nil, List.sum_cons, List.sum_append,
    List.sum_nil]
  omega

theorem starts_getb : ∃ total, Starts host channel (EndsWell host .getb argv here.files remote) total
    here remote ⟨channel, .getb, argv, .opened, .start⟩ := by
  by_cases fs : host.fs = []
  · refine ⟨(caught noFilesystem).length + 41, rfl, fun cuts => ?_⟩
    show Talk host channel _ _ here remote (getBCommand host argv _).next CMD_MID_MUX []
    rw [getBCommand, if_pos fs]
    exact talk_refused (.inl fs) noFilesystem
  cases paths : getPaths argv with
  | none =>
    refine ⟨(caught (ascii "Usage:  getb remote_src local_dest")).length + 41, rfl, fun cuts => ?_⟩
    show Talk host channel _ _ here remote (getBCommand host argv _).next CMD_MID_MUX []
    rw [getBCommand, if_neg fs, paths]
    exact talk_refused (.inr paths) _
  | some both =>
    obtain ⟨src, dest⟩ := both
    refine ⟨cost [cocoCreate dest] + 22 * (remote (longName host src)).length + cost [cocoClose] + 44,
      rfl, fun cuts => ?_⟩
    have outcome : outcomeOf host remote ⟨channel, .getb, argv, .opened, .start⟩ (.done cuts) =
        .opened (readBlocks cuts (remote (longName host src))) .eof := by
      rw [outcomeOf, fileReads, paths]
    show Talk host channel _ _ here remote (getBCommand host argv _).next CMD_MID_MUX []
    rw [outcome, getBCommand, if_neg fs, paths]
    dsimp only
    generalize reads : readBlocks cuts (remote (longName host src)) = blocks
    have whole : blocks.flatten = remote (longName host src) := by
      rw [← reads]
      exact flatten_readBlocksFrom le_rfl
    have each : ∀ block ∈ blocks, block ≠ [] := by
      rw [← reads]
      exact readBlocksFrom_ne_nil
    have accepted : ¬Refused host .getb argv remote := by
      rintro (none | none)
      · exact fs none
      · cases paths.symm.trans none
    have create : Plays channel here [cocoCreate dest] (here.create (cString dest)) :=
      .cons (does_create dest) (.nil _)
    have fill : Plays channel _ (blocks.map writeBytes) _ :=
      plays_blocks { here with filePtr := some ⟨cString dest, []⟩ } [] blocks
    rw [← Local.create_eq, List.nil_append, whole] at fill
    have close : Plays channel
        ({ here with filePtr := some ⟨cString dest, []⟩ }.setOutput (remote (longName host src)))
        [cocoClose] _ := .cons (does_close rfl) (.nil _)
    refine Talk.mono (talk_script ((create.append fill).append close)
      (talk_exit (show ascii "+ok" ≠ [] from List.cons_ne_nil _ _)
        ⟨fun refused => absurd refused accepted, fun _ => ⟨rfl, ?_⟩⟩)) ?_
    · intro src' dest' paths'
      cases paths.symm.trans paths'
      exact ⟨rfl, rfl⟩
    · have bound := cost_blocks each
      rw [whole] at bound
      have whole := cost_between (cocoCreate dest) cocoClose (blocks.map writeBytes)
      show cost (cocoCreate dest :: (blocks.map writeBytes ++ [cocoClose])) + (3 + 41) ≤ _
      omega

theorem not_mem_withCr {content : Text} (noNul : 0 ∉ content) : 0 ∉ withCr content := by
  induction content with
  | nil => exact List.not_mem_nil
  | cons byte rest inductionHypothesis =>
    obtain ⟨first, others⟩ := not_or.mp (List.mem_cons.not.mp noNul)
    have later := inductionHypothesis others
    rw [withCr]
    split
    · exact later
    split
    · exact fun member => (List.mem_cons.mp member).elim (by decide) later
    split
    · intro member
      rcases List.mem_cons.mp member with same | last
      · exact first same
      · cases List.mem_singleton.mp last
    · exact fun member => (List.mem_cons.mp member).elim first later

theorem exists_plays_lines (here : Local) (lines : List Text) : ∃ here',
    Plays channel here (lines.map fun line => writeLine (line ++ [13])) here' := by
  induction lines generalizing here with
  | nil => exact ⟨here, .nil here⟩
  | cons line lines inductionHypothesis =>
    obtain ⟨here', rest⟩ := inductionHypothesis (here.puts (cString (line ++ [13])))
    exact ⟨here', .cons (does_line _) rest⟩

theorem starts_gett (noNul : ∀ src dest, getPaths argv = some (src, dest) →
      0 ∉ remote (longName host src)) :
    ∃ total, Starts host channel (EndsWell host .gett argv here.files remote) total here remote
      ⟨channel, .gett, argv, .opened, .start⟩ := by
  by_cases fs : host.fs = []
  · refine ⟨(caught noFilesystem).length + 41, rfl, fun cuts => ?_⟩
    show Talk host channel _ _ here remote (getTCommand host argv _).next CMD_MID_MUX []
    rw [getTCommand, if_pos fs]
    exact talk_refused (.inl fs) noFilesystem
  cases paths : getPaths argv with
  | none =>
    refine ⟨(caught (ascii "Usage:  gett remote_src local_dest")).length + 41, rfl, fun cuts => ?_⟩
    show Talk host channel _ _ here remote (getTCommand host argv _).next CMD_MID_MUX []
    rw [getTCommand, if_neg fs, paths]
    refine talk_refused (.inr fun src dest paths' => ?_) _
    cases paths.symm.trans paths'
  | some both =>
    obtain ⟨src, dest⟩ := both
    have free := noNul src dest paths
    have outcome : ∀ cuts, outcomeOf host remote ⟨channel, .gett, argv, .opened, .start⟩
        (.done cuts) = .opened (readLines (remote (longName host src))).1
          (readLines (remote (longName host src))).2 := by
      intro cuts
      rw [outcomeOf, fileReads, paths]
    generalize found : (readLines (remote (longName host src))).1 = lines at outcome
    generalize said : (lines.map fun line => writeLine (line ++ [13])) = messages
    have create : Plays channel here [cocoCreate dest] (here.create (cString dest)) :=
      .cons (does_create dest) (.nil _)
    rcases readLinesFrom_spec (le_refl (remote (longName host src)).length) with
      ⟨long, ends⟩ | ⟨short, ends, whole⟩
    · have refused : Refused host .gett argv remote := by
        refine .inr fun src' dest' paths' => ?_
        cases paths.symm.trans paths'
        exact long
      refine ⟨cost (cocoCreate dest :: messages) +
        ((caught (ascii "Error reading long line in " ++ host.quote src)).length + 41), rfl,
        fun cuts => ?_⟩
      show Talk host channel _ _ here remote (getTCommand host argv _).next CMD_MID_MUX []
      rw [outcome, readLines, ends, getTCommand, if_neg fs, paths]
      dsimp only
      rw [said]
      obtain ⟨here', plays⟩ : ∃ here', Plays channel (here.create (cString dest)) _ here' :=
        exists_plays_lines _ lines
      rw [said] at plays
      have after : Talk host channel (EndsWell host .gett argv here.files remote) _ here' remote _
          CMD_MID_MUX [] :=
        talk_refused refused (ascii "Error reading long line in " ++ host.quote src)
      exact talk_script (create.append plays) after
    · have accepted : ¬Refused host .gett argv remote := by
        rintro (none | long)
        · exact fs none
        · exact short (long src dest paths)
      rw [← readLines, found] at whole
      have each : ∀ line ∈ lines, 0 ∉ line := by
        intro line member inside
        refine not_mem_withCr free ?_
        rw [← whole]
        exact List.mem_flatMap.mpr ⟨line, member, List.mem_append_left _ inside⟩
      refine ⟨cost (cocoCreate dest :: (messages ++ [cocoClose])) + 44, rfl, fun cuts => ?_⟩
      show Talk host channel _ _ here remote (getTCommand host argv _).next CMD_MID_MUX []
      rw [outcome, readLines, ends, getTCommand, if_neg fs, paths]
      dsimp only
      rw [said]
      have fill : Plays channel _ (lines.map fun line => writeLine (line ++ [13])) _ :=
        plays_lines { here with filePtr := some ⟨cString dest, []⟩ } [] each
      rw [← Local.create_eq, List.nil_append, whole, said] at fill
      have close : Plays channel ({ here with filePtr := some ⟨cString dest, []⟩ }.setOutput
          (withCr (remote (longName host src)))) [cocoClose] _ := .cons (does_close rfl) (.nil _)
      refine talk_script ((create.append fill).append close)
        (talk_exit (show ascii "+ok" ≠ [] from List.cons_ne_nil _ _)
          ⟨fun refused => absurd refused accepted, fun _ => ⟨rfl, ?_⟩⟩)
      intro src' dest' paths'
      cases paths.symm.trans paths'
      exact ⟨rfl, rfl⟩

theorem starts_putt (given : ∀ src dest, putPaths argv = some (src, dest) →
      ∃ text, here.files (cString src) = some text ∧ 0 ∉ text) :
    ∃ total, Starts host channel (EndsWell host .putt argv here.files remote) total here remote
      ⟨channel, .putt, argv, .opened, .start⟩ := by
  by_cases fs : host.fs = []
  · refine ⟨(caught noFilesystem).length + 41, rfl, fun cuts => ?_⟩
    show Talk host channel _ _ here _ (putTCommand host argv .done).next CMD_MID_MUX []
    rw [putTCommand, if_pos fs]
    exact talk_refused (.inl fs) noFilesystem
  cases paths : putPaths argv with
  | none =>
    refine ⟨(caught (ascii "Usage:  putt local_src remote_dest")).length + 41, rfl, fun cuts => ?_⟩
    show Talk host channel _ _ here _ (putTCommand host argv .done).next CMD_MID_MUX []
    rw [putTCommand, if_neg fs, paths]
    exact talk_refused (.inr paths) _
  | some both =>
    obtain ⟨src, dest⟩ := both
    obtain ⟨text, found, noNul⟩ := given src dest paths
    have accepted : ¬Refused host .putt argv remote := by
      rintro (none | none)
      · exact fs none
      · cases paths.symm.trans none
    have ends : EndsWell host .putt argv here.files remote here.files
        (Function.update (Function.update remote (longName host dest) []) (longName host dest)
          (Function.update remote (longName host dest) [] (longName host dest) ++ text.map crToLf))
        (putTVerdict host src dest) := by
      refine ⟨fun refused => absurd refused accepted, fun _ => ⟨rfl, ?_⟩⟩
      intro src' dest' text' paths' found'
      cases paths.symm.trans paths'
      cases found.symm.trans found'
      refine ⟨rfl, ?_⟩
      rw [Function.update_idem, Function.update_self, List.nil_append]
    have opened : { here with filePtr := some ⟨cString src, text⟩ }.filePtr =
        some ⟨cString src, text⟩ := rfl
    obtain ⟨here', tag', pay', next, talk⟩ : ∃ here' tag' pay', Does channel _ _ here' tag' pay' ∧
        Talk host channel _ _ here' _ (.packet src dest) tag' pay' := talk_putT opened noNul ends
    refine ⟨cost [cocoOpen src] +
      (25 * text.length + (putTVerdict host src dest).length + 62 + 1 + 20), rfl, fun cuts => ?_⟩
    have created : rewrites host remote ⟨channel, .putt, argv, .opened, .start⟩ (.done cuts) =
        Function.update remote (longName host dest) [] := by
      rw [rewrites, paths]
      exact if_neg fs
    show Talk host channel _ _ here _ (putTCommand host argv .done).next CMD_MID_MUX []
    rw [created, putTCommand, if_neg fs, paths]
    dsimp only
    have opens : Plays channel here [cocoOpen src] _ := .cons (does_open found) (.nil _)
    exact talk_script opens (.round rfl rfl rfl next talk le_rfl)

end

/-! ### Transfers -/

/-- What holds in every state of a transfer. -/
structure Kept (host : Host) (fn : CommandFunc) (argv : List Text) (s₀ s : State) : Prop where
  /-- The command has stored no byte past its buffers, and neither side has broken down. -/
  alive : s.client.control ≠ .spilled ∧ s.client.control ≠ .fatal ∧ s.session.crashed = false
  inStep : InStep s
  goesOn : Over s ∨ ∃ action t, Willing action ∧ step host s action = some t
  /-- A command that has exited returns what the waiter's verdict says, which is an error just if the
  command was refused; and if it was not, the transfer is made. -/
  exited : ∀ status, s.client.control = .exited status → ∃ id verdict,
    .reply (.proc id) (replyQuint CMD_END_MUX s₀.client.channel verdict) verdict ∈ s.session.log ∧
      (status = 0 ∨ status = 255) ∧ (status = 0 ↔ verdict.head? = some 43) ∧
      (status = 0 ↔ ¬Refused host fn argv s₀.remote) ∧
      (status = 0 → Transferred host fn argv s₀.client.here.files s₀.remote s.client.here.files
        s.remote)
  /-- Then the waiter serves another. -/
  served : Over s → Quiet s.session

/-- Every one of the three commands goes well from its start. -/
theorem exists_starts (fn : CommandFunc) {here : Local} {remote : Text → Text} (host : Host)
    (channel : Nat) (argv : List Text) (given : Given host fn argv here.files remote) :
    ∃ total, Starts host channel (EndsWell host fn argv here.files remote) total here remote
      ⟨channel, fn, argv, .opened, .start⟩ := by
  cases fn with
  | getb => exact starts_getb
  | gett => exact starts_gett given
  | putt => exact starts_putt given
  | help => exact given.elim
  | echo => exact given.elim
  | vecho => exact given.elim

/-- A transfer that is called begins in a phase. -/
theorem exists_begins (host : Host) (ticks : UInt16) {args : List Text} {name : Text}
    {words : List Text} {fn : CommandFunc} {here : Local} {session : Session} {remote : Text → Text}
    (short : ([32].intercalate args).length ≤ MAX_MSG_LEN) (quiet : Quiet session)
    (called : argvOf (beginPayload args) = name :: words)
    (found : commandFuncs.lookup (toLower host name) = some fn)
    (given : Given host fn (name :: words) here.files remote) : ∃ most,
      Phase host ticks.toNat (EndsWell host fn (name :: words) here.files remote) session.procs most
        (start ticks args here session remote) := by
  obtain ⟨total, starts⟩ := exists_starts fn host ticks.toNat (name :: words) given
  exact ⟨total + 16, .begins rfl short ⟨rfl, rfl, rfl⟩ quiet rfl
    ⟨name, words, fn, called, found, rfl⟩ starts le_rfl⟩

/-- A command that has exited has the transfer made, or both sides have the error. -/
theorem Phase.judged {host : Host} {channel bound : Nat} {fn : CommandFunc} {argv : List Text}
    {files : Text → Option Text} {remote : Text → Text} {done : List Proc} {s : State} {status : UInt8}
    (phase : Phase host channel (EndsWell host fn argv files remote) done bound s)
    (exits : s.client.control = .exited status) : ∃ verdict,
      .reply (.proc done.length) (replyQuint CMD_END_MUX channel verdict) verdict ∈ s.session.log ∧
      (status = 0 ∧ verdict.head? = some 43 ∧ ¬Refused host fn argv remote ∧
          Transferred host fn argv files remote s.client.here.files s.remote ∨
        status = 255 ∧ verdict.head? ≠ some 43 ∧ Refused host fn argv remote) := by
  obtain ⟨verdict, logged, same, ⟨refuses, makes⟩, -, -⟩ := phase.exited exits
  refine ⟨verdict, logged, ?_⟩
  by_cases refused : Refused host fn argv remote
  · rw [if_neg (refuses refused)] at same
    exact .inr ⟨same, refuses refused, refused⟩
  · obtain ⟨plus, transferred⟩ := makes refused
    rw [if_pos plus] at same
    exact .inl ⟨same, plus, refused, transferred⟩

/-- **Transfers.** In every run without errors in which what is polled for has arrived whole, every
message has its place in the buffer, what is written in parts is written right and the channel is not
0, the two sides stay in step, and come to an end. -/
theorem transfers_of_fair (host : Host) (ticks : UInt16) (args : List Text) (name : Text)
    (words : List Text) (fn : CommandFunc) (here : Local) (session : Session) (remote : Text → Text)
    (short : ([32].intercalate args).length ≤ MAX_MSG_LEN) (quiet : Quiet session)
    (called : argvOf (beginPayload args) = name :: words)
    (found : commandFuncs.lookup (toLower host name) = some fn)
    (given : Given host fn (name :: words) here.files remote) :
    ∃ most, ∀ actions s, Meets (step host) Fair (start ticks args here session remote) actions →
      run (step host) (start ticks args here session remote) actions = some s →
        actions.length ≤ most ∧
          Kept host fn (name :: words) (start ticks args here session remote) s := by
  have small : ticks.toNat < 65536 := ticks.toNat_lt
  obtain ⟨most, begins⟩ := exists_begins host ticks short quiet called found given
  refine ⟨most, fun actions s meets reached => ?_⟩
  obtain ⟨left, within, its, phase⟩ := begins.run rfl small meets reached
  refine ⟨by omega, phase.alive, phase.inStep its, phase.progress its small, ?_, ?_⟩
  · intro status exits
    obtain ⟨verdict, logged, judged⟩ := phase.judged exits
    refine ⟨session.procs.length, verdict, logged, ?_⟩
    rcases judged with ⟨rfl, plus, accepted, transferred⟩ | ⟨rfl, minus, refused⟩
    · exact ⟨.inl rfl, iff_of_true rfl plus, iff_of_true rfl accepted, fun _ => transferred⟩
    · exact ⟨.inr rfl, iff_of_false (by decide) minus,
        iff_of_false (by decide) (not_not_intro refused), fun zero => absurd zero (by decide)⟩
  · rintro ⟨⟨status, exits⟩, ready⟩
    obtain ⟨verdict, -, -, -, -, quiet⟩ := phase.exited exits
    exact quiet ready

def sampleHost : Host := { plainHost with fs := ascii "/f" }

/-- `r getb a b` on channel 5, where the waiter has a file of three bytes. -/
def sampleStart : State :=
  start 5 [ascii "getb", ascii "a", ascii "b"] ⟨fun _ => none, none, [], [], []⟩ (Mux.start 1)
    fun name => if name = ascii "/f/a" then ascii "xyz" else []

/-- The waiter says a message, which arrives whole, and the command takes it. -/
def exchange (count : Nat) : List Action :=
  [.frame, .deliver, .run 0 (.done []), .arrive count, .client .done, .client .done]

def sampleRun : List Action :=
  [.client .done, .frame, .loop (.done []), .run 0 (.done []), .arrive 6, .client .done,
    .client .done] ++ exchange 7 ++ exchange 9 ++ exchange 6 ++ exchange 6 ++
    [.frame, .deliver, .loop (.done []), .run 0 (.done []), .arrive 8, .client .done, .client .done]

theorem transfers_sampleRun : ∃ most s, run (step sampleHost) sampleStart sampleRun = some s ∧
    s.client.control = .exited 0 ∧ s.client.here.files (ascii "b") = some (ascii "xyz") ∧
      sampleRun.length ≤ most ∧
        Kept sampleHost .getb [ascii "getb", ascii "a", ascii "b"] sampleStart s := by
  obtain ⟨most, kept⟩ := transfers_of_fair sampleHost 5 [ascii "getb", ascii "a", ascii "b"]
    (ascii "getb") [ascii "a", ascii "b"] .getb ⟨fun _ => none, none, [], [], []⟩ (Mux.start 1)
    (fun name => if name = ascii "/f/a" then ascii "xyz" else []) (by decide +kernel)
    ⟨rfl, rfl, rfl, fun _ member => (List.not_mem_nil member).elim⟩ (by decide +kernel)
    (by decide +kernel) trivial
  have evaluated : (run (step sampleHost) sampleStart sampleRun).map (fun s =>
      (s.client.control, s.client.here.files (ascii "b"))) = some (.exited 0, some (ascii "xyz")) := by
    decide +kernel
  obtain ⟨s, reached, facts⟩ := Option.map_eq_some_iff.mp evaluated
  obtain ⟨exits, file⟩ := Prod.mk.inj facts
  exact ⟨most, s, reached, exits, file, kept sampleRun s (by decide +kernel) reached⟩

/-! ### What a transfer comes to -/

/-- In a fair run the command stores no byte past its buffers and the two sides stay in step; there is
always somebody who can go on until it is over, and the run is no longer than some bound. At the end
the one file is what it should be, or both sides have the error of a command that was refused. -/
theorem transferred_or_refused_of_fair (host : Host) (ticks : UInt16) (args : List Text)
    (name : Text) (words : List Text) (fn : CommandFunc) (here : Local) (session : Session)
    (remote : Text → Text) (short : ([32].intercalate args).length ≤ MAX_MSG_LEN)
    (quiet : Quiet session) (called : argvOf (beginPayload args) = name :: words)
    (found : commandFuncs.lookup (toLower host name) = some fn)
    (given : Given host fn (name :: words) here.files remote) :
    ∃ most, ∀ actions s, Meets (step host) Fair (start ticks args here session remote) actions →
      run (step host) (start ticks args here session remote) actions = some s →
        s.client.control ≠ .spilled ∧ InStep s ∧
        actions.length ≤ most ∧
        (Over s ∨ ∃ action t, Willing action ∧ step host s action = some t) ∧
        ∀ status, s.client.control = .exited status → ∃ id verdict,
          .reply (.proc id) (replyQuint CMD_END_MUX ticks.toNat verdict) verdict ∈ s.session.log ∧
          (status = 0 ∧ verdict.head? = some 43 ∧ ¬Refused host fn (name :: words) remote ∧
              Transferred host fn (name :: words) here.files remote s.client.here.files s.remote ∨
            status = 255 ∧ verdict.head? ≠ some 43 ∧ Refused host fn (name :: words) remote) := by
  have small : ticks.toNat < 65536 := ticks.toNat_lt
  obtain ⟨most, begins⟩ := exists_begins host ticks short quiet called found given
  refine ⟨most, fun actions s meets reached => ?_⟩
  obtain ⟨left, within, its, phase⟩ := begins.run rfl small meets reached
  refine ⟨phase.alive.1, phase.inStep its, by omega, phase.progress its small, ?_⟩
  exact fun status exits => ⟨session.procs.length, phase.judged exits⟩

/-- `r gett a b` on channel 5, where the waiter has a file of these bytes. -/
def textStart (content : Text) : State :=
  start 5 [ascii "gett", ascii "a", ascii "b"] ⟨fun _ => none, none, [], [], []⟩ (Mux.start 1)
    fun name => if name = ascii "/f/a" then content else []

/-- A file of two lines, the second without its end, whose messages arrive in two parts each. -/
def textRun : List Action :=
  [.client .done, .frame, .loop (.done []), .run 0 (.done []), .arrive 6, .client .done,
    .client .done, .frame, .deliver, .run 0 (.done []), .arrive 5, .client .done, .arrive 2,
    .client .done, .frame, .deliver, .run 0 (.done []), .arrive 7, .client .done, .arrive 2,
    .client .done] ++ exchange 8 ++ exchange 6 ++ exchange 6 ++
    [.frame, .deliver, .loop (.done []), .run 0 (.done []), .arrive 8, .client .done, .client .done]

theorem transferred_textRun : ∃ most s,
    run (step sampleHost) (textStart (ascii "xy\nz")) textRun = some s ∧
      s.client.here.files (ascii "b") = some (ascii "xy" ++ [13] ++ ascii "z" ++ [13]) ∧
      textRun.length ≤ most ∧ s.client.control ≠ .spilled ∧ InStep s := by
  have noNul : ∀ name : Text, 0 ∉ if name = ascii "/f/a" then ascii "xy\nz" else [] := by
    intro name
    split
    · decide +kernel
    · exact List.not_mem_nil
  obtain ⟨most, fair⟩ := transferred_or_refused_of_fair sampleHost 5
    [ascii "gett", ascii "a", ascii "b"] (ascii "gett") [ascii "a", ascii "b"] .gett
    ⟨fun _ => none, none, [], [], []⟩ (Mux.start 1)
    (fun name => if name = ascii "/f/a" then ascii "xy\nz" else []) (by decide +kernel)
    ⟨rfl, rfl, rfl, fun _ member => (List.not_mem_nil member).elim⟩ (by decide +kernel)
    (by decide +kernel) (fun src dest _ => noNul _)
  have evaluated : (run (step sampleHost) (textStart (ascii "xy\nz")) textRun).map (fun s =>
      s.client.here.files (ascii "b")) = some (some (ascii "xy" ++ [13] ++ ascii "z" ++ [13])) := by
    decide +kernel
  obtain ⟨s, reached, file⟩ := Option.map_eq_some_iff.mp evaluated
  obtain ⟨safe, inStep, within, -⟩ := fair textRun s (by decide +kernel) reached
  exact ⟨most, s, reached, file, within, safe, inStep⟩

/-- A line that `inbuf` has no place for is stored past its end. -/
theorem not_transfers_longLine :
    ¬∀ content actions s, 0 ∉ content → Meets (step sampleHost) NoErrors (textStart content) actions →
      run (step sampleHost) (textStart content) actions = some s → s.client.control ≠ .spilled := by
  intro claimed
  have evaluated : (run (step sampleHost) (textStart (List.replicate 300 120))
      ([.client .done, .frame, .loop (.done []), .run 0 (.done []), .arrive 6, .client .done,
        .client .done] ++ exchange 7 ++ exchange 307)).map (·.client.control) = some .spilled := by
    decide +kernel
  obtain ⟨s, reached, spills⟩ := Option.map_eq_some_iff.mp evaluated
  exact claimed _ _ s (by decide +kernel) (by decide +kernel) reached spills

/-- A poll that finds the first bytes of a message ends the command. -/
example : (run (step sampleHost) sampleStart [.client .done, .frame, .loop (.done []),
    .run 0 (.done []), .arrive 4, .client .done]).map (·.client.control) = some .fatal := by
  decide +kernel

end Frobio.RCommand
