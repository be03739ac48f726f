/-
This file is about what the tokenizer reads: the cursor and the length that remains stay
together and within the text, but for a command in brackets that ends in a backslash, and
the end of the text is reached.

The text is at the end of the memory here, so that reading behind its NUL is no result.
-/

import Frobio.Ncl.Parser

namespace Frobio.Ncl

open Froblib

/-! ### The law -/

/-- The parser is within the text, and the length that remains is that up to the NUL. -/
def InText (text : CString) (p : PicolParser) : Prop :=
  ∃ rest, p.p = rest ++ [0] ∧ rest <:+ text.bytes ∧ p.len = rest.length

/-- The parser after some calls of `picolGetToken`. -/
def afterTokens (text : CString) : Nat → Option PicolParser
  | 0 => some (picolInitParser text [])
  | calls + 1 => (afterTokens text calls).bind picolGetToken

/-- Every call stays within the text, and one of them finds the end of it. -/
def TokensSafe (text : CString) : Prop :=
  (∀ calls, ∃ p ∈ afterTokens text calls, InText text p) ∧
    ∃ calls, ∃ p ∈ afterTokens text calls, p.type = .eof

/-! ### The condition -/

/-- The loop of `picolParseCommand` comes to a backslash that is the last byte before the NUL. -/
def commandDangles : Nat → Nat → List UInt8 → Bool
  | _, _, [] => false
  | level, blevel, c :: p =>
    if c = 0 then false
    else if c = 91 ∧ blevel = 0 then commandDangles (level + 1) blevel p
    else if c = 93 ∧ blevel = 0 then
      if level - 1 = 0 then false else commandDangles (level - 1) blevel p
    else if c = 92 then
      match p with
      | [] => false
      | d :: p => if d = 0 then true else commandDangles level blevel p
    else if c = 123 then commandDangles level (blevel + 1) p
    else if c = 125 then commandDangles level (blevel - 1) p
    else commandDangles level blevel p

/-- The parser is at a command in brackets that ends so. -/
def Dangles (p : PicolParser) : Prop := p.p.head? = some 91 ∧ commandDangles 1 0 p.p.tail = true

instance (p : PicolParser) : Decidable (Dangles p) := inferInstanceAs (Decidable (_ ∧ _))

/-! ### Loops -/

/-- A scan of what was left of a text ends within it. -/
def Scan.Within (rest : List UInt8) (scan : Scan) : Prop :=
  ∃ rest', scan.p = rest' ++ [0] ∧ rest' <:+ rest ∧ scan.len = rest'.length

/-- A rest that an `int` can count. -/
def Short (rest : List UInt8) : Prop := rest.length < 32768

theorem int_pred {c : UInt8} {rest : List UInt8} (short : Short (c :: rest)) :
    int (((c :: rest).length : Int) - 1) = rest.length := by
  unfold Short at short
  rw [List.length_cons] at *
  unfold int
  omega

theorem Short.tail {c : UInt8} {rest : List UInt8} (short : Short (c :: rest)) : Short rest :=
  Nat.lt_of_succ_lt short

theorem Scan.Within.over {rest longer : List UInt8} {scan : Scan} (within : scan.Within rest)
    (suffix : rest <:+ longer) (passed : List UInt8) : (scan.over passed).Within longer := by
  obtain ⟨rest', at_, suffix', length⟩ := within
  exact ⟨rest', at_, suffix'.trans suffix, length⟩

theorem within_here (rest : List UInt8) (passed : List UInt8) :
    Scan.Within rest ⟨passed, rest ++ [0], rest.length⟩ :=
  ⟨rest, rfl, List.suffix_rfl, rfl⟩

theorem length_ne_zero (c : UInt8) (rest : List UInt8) : ((c :: rest).length : Int) ≠ 0 := by
  rw [List.length_cons]
  omega

/-- A scan of the tail, put behind the first byte. -/
theorem exists_over {c : UInt8} {rest : List UInt8} {loop : Option Scan}
    (inner : ∃ scan, loop = some scan ∧ scan.Within rest) (passed : List UInt8) :
    ∃ scan, loop.map (Scan.over passed) = some scan ∧ scan.Within (c :: rest) := by
  obtain ⟨scan, found, within⟩ := inner
  exact ⟨_, by rw [found]; rfl, within.over (List.suffix_cons c rest) passed⟩

theorem within_skipWhile {test : UInt8 → Bool} (stops : test 0 = false) {rest : List UInt8}
    (short : Short rest) :
    ∃ scan, skipWhile test (rest ++ [0]) rest.length = some scan ∧ scan.Within rest ∧
      ∀ c later, rest = c :: later → test c = true → scan.Within later := by
  induction rest with
  | nil =>
    refine ⟨⟨[], [0], 0⟩, ?_, within_here [] [], fun _ _ wrong => by cases wrong⟩
    rw [List.nil_append, skipWhile, stops]
    rfl
  | cons c rest inductionHypothesis =>
    rw [List.cons_append, skipWhile, int_pred short]
    by_cases go : test c = true
    · obtain ⟨scan, found, within, -⟩ := inductionHypothesis short.tail
      rw [if_pos go, found]
      refine ⟨_, rfl, within.over (List.suffix_cons c rest) [c], ?_⟩
      rintro _ _ ⟨⟩ -
      exact within.over List.suffix_rfl [c]
    · rw [if_neg go]
      refine ⟨_, rfl, within_here (c :: rest) [], ?_⟩
      rintro _ _ ⟨⟩ wrong
      exact absurd wrong go

theorem commentLoop_cons (c : UInt8) (p : List UInt8) {len : Int} (more : len ≠ 0) :
    commentLoop (c :: p) len =
      if c ≠ 10 ∧ c ≠ 13 then (commentLoop p (int (len - 1))).map (Scan.over [c])
      else some ⟨[], c :: p, len⟩ := by
  rw [commentLoop.eq_def]
  dsimp only
  rw [if_neg more]

theorem within_commentLoop {rest : List UInt8} (short : Short rest) :
    ∃ scan, commentLoop (rest ++ [0]) rest.length = some scan ∧ scan.Within rest ∧
      (scan.len ≠ 0 → scan.p.head? ≠ some 91) := by
  induction rest with
  | nil => exact ⟨_, by rw [commentLoop.eq_def]; rfl, within_here [] [], fun more => (more rfl).elim⟩
  | cons c rest inductionHypothesis =>
    rw [List.cons_append, commentLoop_cons c _ (length_ne_zero c rest), int_pred short]
    split
    · obtain ⟨scan, found, within, newline⟩ := inductionHypothesis short.tail
      exact ⟨_, by rw [found]; rfl, within.over (List.suffix_cons c rest) [c], newline⟩
    · rename_i newline
      refine ⟨_, rfl, within_here (c :: rest) [], fun _ same => newline ?_⟩
      rw [Option.some_inj.mp same]
      decide

theorem length_ge_two_iff {c : UInt8} {rest : List UInt8} :
    ((c :: rest).length : Int) ≥ 2 ↔ rest ≠ [] := by
  rw [List.length_cons, ← List.length_pos_iff]
  omega

theorem stringLoop_cons (insidequote : Bool) (c : UInt8) (p : List UInt8) {len : Int}
    (more : len ≠ 0) :
    stringLoop insidequote (c :: p) len =
      if c = 92 ∧ len ≥ 2 then
        match p with
        | [] => none
        | d :: p => (stringLoop insidequote p (int (int (len - 1) - 1))).map (Scan.over [c, d])
      else if c = 36 ∨ c = 91 then some ⟨[], c :: p, len⟩
      else if isEol c ∧ insidequote = false then some ⟨[], c :: p, len⟩
      else if c = 34 ∧ insidequote then some ⟨[], c :: p, len⟩
      else (stringLoop insidequote p (int (len - 1))).map (Scan.over [c]) := by
  rw [stringLoop.eq_def]
  dsimp only
  exact if_neg more

/-- The first byte of a word does not end it. -/
def GoesOn (insidequote : Bool) (c : UInt8) : Prop :=
  ¬(c = 36 ∨ c = 91) ∧ ¬(isEol c ∧ insidequote = false) ∧ ¬(c = 34 ∧ insidequote)

theorem within_stringLoop (insidequote : Bool) : (rest : List UInt8) → Short rest →
    ∃ scan, stringLoop insidequote (rest ++ [0]) rest.length = some scan ∧ scan.Within rest ∧
      ∀ c later, rest = c :: later → GoesOn insidequote c → scan.Within later
  | [], _ => by
    refine ⟨⟨[], [0], 0⟩, ?_, within_here [] [], fun _ _ wrong => by cases wrong⟩
    rw [stringLoop.eq_def]
    rfl
  | c :: rest, short => by
    rw [List.cons_append, stringLoop_cons insidequote c _ (length_ne_zero c rest), int_pred short]
    by_cases escape : c = 92 ∧ ((c :: rest).length : Int) ≥ 2
    · rw [if_pos escape]
      match rest, length_ge_two_iff.mp escape.2 with
      | d :: rest, _ =>
        have short' : Short (d :: rest) := short.tail
        obtain ⟨scan, found, within, -⟩ := within_stringLoop insidequote rest short'.tail
        rw [List.cons_append]
        dsimp only
        rw [int_pred short', found]
        refine ⟨_, rfl, within.over ((List.suffix_cons d rest).trans (List.suffix_cons c _)) [c, d], ?_⟩
        rintro _ _ ⟨⟩ -
        exact within.over (List.suffix_cons d rest) [c, d]
    · rw [if_neg escape]
      obtain ⟨scan, found, within, -⟩ := within_stringLoop insidequote rest short.tail
      split
      · rename_i ends
        refine ⟨_, rfl, within_here (c :: rest) [], ?_⟩
        rintro _ _ ⟨⟩ on
        exact absurd ends on.1
      · split
        · rename_i ends
          refine ⟨_, rfl, within_here (c :: rest) [], ?_⟩
          rintro _ _ ⟨⟩ on
          exact absurd ends on.2.1
        · split
          · rename_i ends
            refine ⟨_, rfl, within_here (c :: rest) [], ?_⟩
            rintro _ _ ⟨⟩ on
            exact absurd ends on.2.2
          · rw [found]
            refine ⟨_, rfl, within.over (List.suffix_cons c rest) [c], ?_⟩
            rintro _ _ ⟨⟩ -
            exact within.over List.suffix_rfl [c]

theorem braceLoop_cons (level : Nat) (c : UInt8) (p : List UInt8) {len : Int} (more : len ≠ 0) :
    braceLoop level (c :: p) len =
      if len ≥ 2 ∧ c = 92 then
        match p with
        | [] => none
        | d :: p => (braceLoop level p (int (int (len - 1) - 1))).map (Scan.over [c, d])
      else if c = 125 then
        if level - 1 = 0 then some ⟨[], c :: p, len⟩
        else (braceLoop (level - 1) p (int (len - 1))).map (Scan.over [c])
      else if c = 123 then (braceLoop (level + 1) p (int (len - 1))).map (Scan.over [c])
      else (braceLoop level p (int (len - 1))).map (Scan.over [c]) := by
  rw [braceLoop.eq_def]
  dsimp only
  exact if_neg more

theorem within_braceLoop : (level : Nat) → (rest : List UInt8) → Short rest →
    ∃ scan, braceLoop level (rest ++ [0]) rest.length = some scan ∧ scan.Within rest
  | _, [], _ => ⟨_, by rw [braceLoop.eq_def]; rfl, within_here [] []⟩
  | level, c :: rest, short => by
    rw [List.cons_append, braceLoop_cons level c _ (length_ne_zero c rest), int_pred short]
    by_cases escape : ((c :: rest).length : Int) ≥ 2 ∧ c = 92
    · rw [if_pos escape]
      match rest, length_ge_two_iff.mp escape.1 with
      | d :: rest, _ =>
        have short' : Short (d :: rest) := short.tail
        rw [List.cons_append]
        dsimp only
        rw [int_pred short']
        obtain ⟨scan, found, within⟩ := within_braceLoop level rest short'.tail
        rw [found]
        exact ⟨_, rfl, within.over ((List.suffix_cons d rest).trans (List.suffix_cons c _)) [c, d]⟩
    · rw [if_neg escape]
      split
      · split
        · exact ⟨_, rfl, within_here (c :: rest) []⟩
        · exact exists_over (within_braceLoop (level - 1) rest short.tail) [c]
      · split
        · exact exists_over (within_braceLoop (level + 1) rest short.tail) [c]
        · exact exists_over (within_braceLoop level rest short.tail) [c]

theorem commandLoop_cons (level blevel : Nat) (c : UInt8) (p : List UInt8) {len : Int}
    (more : len ≠ 0) :
    commandLoop level blevel (c :: p) len =
      if c = 91 ∧ blevel = 0 then
        (commandLoop (level + 1) blevel p (int (len - 1))).map (Scan.over [c])
      else if c = 93 ∧ blevel = 0 then
        if level - 1 = 0 then some ⟨[], c :: p, len⟩
        else (commandLoop (level - 1) blevel p (int (len - 1))).map (Scan.over [c])
      else if c = 92 then
        match p with
        | [] => none
        | d :: p => (commandLoop level blevel p (int (int (len - 1) - 1))).map (Scan.over [c, d])
      else if c = 123 then
        (commandLoop level (blevel + 1) p (int (len - 1))).map (Scan.over [c])
      else if c = 125 then
        (commandLoop level (blevel - 1) p (int (len - 1))).map (Scan.over [c])
      else (commandLoop level blevel p (int (len - 1))).map (Scan.over [c]) := by
  rw [commandLoop.eq_def]
  dsimp only
  exact if_neg more

/-- The command ends within the text, or the loop reads behind it. -/
def CommandEnds (level blevel : Nat) (rest : List UInt8) : Prop :=
  if commandDangles level blevel (rest ++ [0]) then
    commandLoop level blevel (rest ++ [0]) rest.length = none
  else ∃ scan, commandLoop level blevel (rest ++ [0]) rest.length = some scan ∧ scan.Within rest

/-- The loop goes over the first byte and on. -/
theorem CommandEnds.cons {level blevel level' blevel' : Nat} {c : UInt8} {rest : List UInt8}
    (ends : CommandEnds level' blevel' rest)
    (loop : commandLoop level blevel (c :: rest ++ [0]) (c :: rest).length =
      (commandLoop level' blevel' (rest ++ [0]) rest.length).map (Scan.over [c]))
    (dangles : commandDangles level blevel (c :: rest ++ [0]) =
      commandDangles level' blevel' (rest ++ [0])) : CommandEnds level blevel (c :: rest) := by
  unfold CommandEnds at ends ⊢
  rw [loop, dangles]
  split
  · rename_i beyond
    rw [if_pos beyond] at ends
    rw [ends]
    rfl
  · rename_i inside
    rw [if_neg inside] at ends
    exact exists_over ends [c]

theorem commandEnds : (level blevel : Nat) → (rest : List UInt8) → 0 ∉ rest → Short rest →
    CommandEnds level blevel rest
  | _, _, [], _, _ => by
    rw [CommandEnds, commandLoop.eq_def]
    exact ⟨_, rfl, within_here [] []⟩
  | level, blevel, c :: rest, noNul, short => by
    rw [List.mem_cons, not_or] at noNul
    have nonzero : c ≠ 0 := fun zero => noNul.1 zero.symm
    have loop := commandLoop_cons level blevel c (rest ++ [0]) (length_ne_zero c rest)
    rw [int_pred short] at loop
    have dangles : commandDangles level blevel (c :: (rest ++ [0])) = _ := commandDangles.eq_def ..
    dsimp only at dangles
    rw [if_neg nonzero] at dangles
    by_cases opens : c = 91 ∧ blevel = 0
    · rw [if_pos opens] at loop dangles
      exact (commandEnds (level + 1) blevel rest noNul.2 short.tail).cons loop dangles
    rw [if_neg opens] at loop dangles
    by_cases closes : c = 93 ∧ blevel = 0
    · rw [if_pos closes] at loop dangles
      by_cases last : level - 1 = 0
      · rw [if_pos last] at loop dangles
        rw [CommandEnds, List.cons_append, dangles, loop]
        exact ⟨_, rfl, within_here (c :: rest) []⟩
      · rw [if_neg last] at loop dangles
        exact (commandEnds (level - 1) blevel rest noNul.2 short.tail).cons loop dangles
    rw [if_neg closes] at loop dangles
    by_cases escapes : c = 92
    · rw [if_pos escapes] at loop dangles
      match rest, noNul.2, short.tail with
      | [], _, _ =>
        rw [CommandEnds, List.cons_append, dangles, loop]
        rfl
      | d :: rest, noNul, short =>
        rw [List.mem_cons, not_or] at noNul
        have nonzero : d ≠ 0 := fun zero => noNul.1 zero.symm
        rw [List.cons_append] at loop dangles
        dsimp only at loop dangles
        rw [int_pred short] at loop
        rw [if_neg nonzero] at dangles
        have ends := commandEnds level blevel rest noNul.2 short.tail
        unfold CommandEnds at ends ⊢
        rw [List.cons_append, List.cons_append, loop, dangles]
        split
        · rename_i beyond
          rw [if_pos beyond] at ends
          rw [ends]
          rfl
        · rename_i inside
          rw [if_neg inside] at ends
          obtain ⟨scan, found, within⟩ := ends
          rw [found]
          exact ⟨_, rfl, within.over ((List.suffix_cons d rest).trans (List.suffix_cons c _)) [c, d]⟩
    rw [if_neg escapes] at loop dangles
    by_cases deeper : c = 123
    · rw [if_pos deeper] at loop dangles
      exact (commandEnds level (blevel + 1) rest noNul.2 short.tail).cons loop dangles
    rw [if_neg deeper] at loop dangles
    by_cases shallower : c = 125
    · rw [if_pos shallower] at loop dangles
      exact (commandEnds level (blevel - 1) rest noNul.2 short.tail).cons loop dangles
    rw [if_neg shallower] at loop dangles
    exact (commandEnds level blevel rest noNul.2 short.tail).cons loop dangles

/-! ### Tokens -/

/-- The parser is at this rest of the text. -/
def At (rest : List UInt8) (p : PicolParser) : Prop := p.p = rest ++ [0] ∧ p.len = rest.length

/-- The token is found, and ends in this rest. -/
def Finds (rest : List UInt8) (found : Option PicolParser) : Prop :=
  ∃ p rest', found = some p ∧ At rest' p ∧ rest' <:+ rest

section

variable {p : PicolParser} {c : UInt8} {rest : List UInt8}

theorem advance_eq (here : At (c :: rest) p) (short : Short (c :: rest)) :
    advance p = some { p with p := rest ++ [0], len := rest.length } := by
  obtain ⟨at_, length⟩ := here
  have pred := int_pred short
  unfold advance
  rw [at_, length]
  show some { p with p := rest ++ [0], len := int _ } = _
  rw [pred]

/-- The token ends where a scan of the rest did. -/
theorem finds_at {scan : Scan} (within : scan.Within rest) (type : PT) :
    Finds rest (some (p.at scan type)) := by
  obtain ⟨rest', at_, suffix, length⟩ := within
  exact ⟨_, rest', rfl, ⟨at_, length⟩, suffix⟩

/-- The token ends a byte after a scan of the rest did. -/
theorem finds_advance {q : PicolParser} (short : Short rest) {rest' : List UInt8} (here : At rest' q)
    (suffix : rest' <:+ rest) (more : rest' ≠ []) : Finds rest (advance q) := by
  obtain ⟨c, later, rfl⟩ := List.exists_cons_of_ne_nil more
  have short' : Short (c :: later) := Nat.lt_of_le_of_lt suffix.length_le short
  exact ⟨_, later, advance_eq here short', ⟨rfl, rfl⟩, (List.suffix_cons c later).trans suffix⟩

theorem finds_sep {test : UInt8 → Bool} (stops : test 0 = false) (go : test c = true)
    (here : At (c :: rest) p) (short : Short (c :: rest)) (type : PT) :
    Finds rest ((skipWhile test p.p p.len).map fun scan => p.at scan type) := by
  obtain ⟨scan, found, -, further⟩ := within_skipWhile stops short
  rw [here.1, here.2, found]
  exact finds_at (further c rest rfl go) type

theorem finds_var (here : At (c :: rest) p) (short : Short (c :: rest)) :
    Finds rest (picolParseVar p) := by
  obtain ⟨scan, found, within, -⟩ := within_skipWhile (by decide : isVar 0 = false) short.tail
  obtain ⟨rest', at_, suffix, length⟩ := within
  rw [picolParseVar, advance_eq here short, Option.bind_some]
  dsimp only
  rw [found, Option.map_some]
  refine ⟨_, rest', rfl, ?_, suffix⟩
  split
  · exact ⟨at_, length⟩
  · exact ⟨at_, length⟩

theorem finds_brace (here : At (c :: rest) p) (short : Short (c :: rest)) :
    Finds rest (picolParseBrace p) := by
  obtain ⟨scan, found, rest', at_, suffix, length⟩ := within_braceLoop 1 rest short.tail
  rw [picolParseBrace, advance_eq here short, Option.bind_some]
  dsimp only
  rw [found, Option.bind_some]
  split
  · rename_i more
    have there : At rest' (p.at scan .str) := ⟨at_, length⟩
    refine finds_advance short.tail there suffix fun empty => more ?_
    rw [length, empty]
    rfl
  · exact finds_at ⟨rest', at_, suffix, length⟩ .str

theorem finds_command (here : At (c :: rest) p) (short : Short (c :: rest)) (noNul : 0 ∉ rest) :
    if commandDangles 1 0 (rest ++ [0]) then picolParseCommand p = none
    else Finds rest (picolParseCommand p) := by
  have ends := commandEnds 1 0 rest noNul short.tail
  unfold CommandEnds at ends
  rw [picolParseCommand, advance_eq here short, Option.bind_some]
  dsimp only
  split
  · rename_i beyond
    rw [if_pos beyond] at ends
    rw [ends]
    rfl
  · rename_i inside
    rw [if_neg inside] at ends
    obtain ⟨scan, found, rest', at_, suffix, length⟩ := ends
    rw [found, Option.bind_some]
    cases rest' with
    | nil =>
      rw [at_]
      dsimp only [List.nil_append]
      rw [if_neg (by decide)]
      exact finds_at ⟨[], at_, suffix, length⟩ .cmd
    | cons d later =>
      rw [at_, List.cons_append]
      dsimp only
      split
      · exact finds_advance short.tail ⟨at_, length⟩ suffix (List.cons_ne_nil d later)
      · exact finds_at ⟨d :: later, at_, suffix, length⟩ .cmd

/-- A word ends within the rest it begins at. -/
theorem finds_word (here : At rest p) (short : Short rest) : Finds rest (parseWord p) := by
  obtain ⟨scan, found, ⟨rest', at_, suffix, length⟩, -⟩ :=
    within_stringLoop p.insidequote rest short
  rw [parseWord, here.1, here.2, found, Option.bind_some]
  split
  · rename_i quote
    have there : At rest' { p.at scan .esc with insidequote := false } := ⟨at_, length⟩
    refine finds_advance short there suffix fun empty => quote.1 ?_
    rw [length, empty]
    rfl
  · exact finds_at ⟨rest', at_, suffix, length⟩ .esc

/-- A word goes over its first byte, if that does not end it or is the quote at the end. -/
theorem finds_word_cons (here : At (c :: rest) p) (short : Short (c :: rest))
    (on : GoesOn p.insidequote c ∨ c = 34 ∧ p.insidequote = true) : Finds rest (parseWord p) := by
  obtain ⟨scan, found, ⟨rest', at_, suffix, length⟩, further⟩ :=
    within_stringLoop p.insidequote (c :: rest) short
  rw [parseWord, here.1, here.2, found, Option.bind_some]
  have ends (inside : rest' <:+ rest) : Finds rest
      (if scan.len ≠ 0 ∧ scan.p.head? = some 34 ∧ p.insidequote = true then
        advance { p.at scan .esc with insidequote := false }
      else some (p.at scan .esc)) := by
    split
    · rename_i quote
      have there : At rest' { p.at scan .esc with insidequote := false } := ⟨at_, length⟩
      refine finds_advance short.tail there inside fun empty => quote.1 ?_
      rw [length, empty]
      rfl
    · exact finds_at ⟨rest', at_, inside, length⟩ .esc
  rcases on with on | ⟨rfl, quoted⟩
  · obtain ⟨rest'', at_', suffix', -⟩ := further c rest rfl on
    refine ends ?_
    rw [List.append_cancel_right (at_.symm.trans at_')]
    exact suffix'
  · rcases List.suffix_cons_iff.mp suffix with rfl | inside
    · rw [if_pos ⟨by rw [length]; exact length_ne_zero _ _, by rw [at_]; rfl, quoted⟩]
      have there : At (34 :: rest) { p.at scan .esc with insidequote := false } := ⟨at_, length⟩
      exact ⟨_, rest, advance_eq there short, ⟨rfl, rfl⟩, List.suffix_rfl⟩
    · exact ends inside

theorem finds_string (here : At (c :: rest) p) (short : Short (c :: rest))
    (on : GoesOn p.insidequote c ∨ c = 34 ∧ p.insidequote = true) :
    Finds rest (picolParseString p) := by
  have string : picolParseString p =
      if (p.type = .sep ∨ p.type = .eol ∨ p.type = .str) ∧ c = 123 then picolParseBrace p
      else if (p.type = .sep ∨ p.type = .eol ∨ p.type = .str) ∧ c = 34 then
        (advance { p with insidequote := true }).bind parseWord
      else parseWord p := by
    unfold picolParseString
    rw [here.1]
    rfl
  rw [string]
  split
  · exact finds_brace here short
  · split
    · have here' : At (c :: rest) { p with insidequote := true } := here
      rw [advance_eq here' short, Option.bind_some]
      exact finds_word ⟨rfl, rfl⟩ short.tail
    · exact finds_word_cons here short on

/-- A token goes over a byte at least, unless it is a command that dangles. -/
theorem finds_tokenAt (here : At (c :: rest) p) (short : Short (c :: rest)) (noNul : 0 ∉ rest) :
    if Dangles p then tokenAt p = none else Finds rest (tokenAt p) := by
  have at_ : p.p = c :: (rest ++ [0]) := here.1
  have command : tokenAt p = if c = 32 ∨ c = 9 then
      if p.insidequote then picolParseString p else picolParseSep p
    else if c = 10 ∨ c = 13 ∨ c = 59 then
      if p.insidequote then picolParseString p else picolParseEol p
    else if c = 91 then picolParseCommand p
    else if c = 36 then picolParseVar p
    else picolParseString p := by
    unfold tokenAt
    rw [at_]
  by_cases bracket : c = 91
  · subst bracket
    have ends := finds_command here short noNul
    have dangles : Dangles p ↔ commandDangles 1 0 (rest ++ [0]) = true := by
      rw [Dangles, at_]
      exact and_iff_right rfl
    have parses : tokenAt p = picolParseCommand p := by
      rw [command, if_neg (by decide), if_neg (by decide), if_pos rfl]
    rw [parses]
    simpa only [dangles] using ends
  · have whole : ¬Dangles p := by
      rintro ⟨first, -⟩
      rw [at_] at first
      exact bracket (Option.some_inj.mp first)
    rw [if_neg whole, command]
    by_cases blank : c = 32 ∨ c = 9
    · rw [if_pos blank]
      split
      · rename_i quoted
        refine finds_string here short (.inl ⟨?_, fun wrong => ?_, ?_⟩)
        · rcases blank with rfl | rfl <;> decide
        · rw [quoted] at wrong
          cases wrong.2
        · rcases blank with rfl | rfl <;> exact fun wrong => absurd wrong.1 (by decide)
      · refine finds_sep (by decide) ?_ here short .sep
        rcases blank with rfl | rfl <;> decide
    rw [if_neg blank]
    by_cases newline : c = 10 ∨ c = 13 ∨ c = 59
    · rw [if_pos newline]
      split
      · rename_i quoted
        refine finds_string here short (.inl ⟨?_, fun wrong => ?_, ?_⟩)
        · rcases newline with rfl | rfl | rfl <;> decide
        · rw [quoted] at wrong
          cases wrong.2
        · rcases newline with rfl | rfl | rfl <;> exact fun wrong => absurd wrong.1 (by decide)
      · refine finds_sep (by decide) ?_ here short .eol
        rcases newline with rfl | rfl | rfl <;> decide
    rw [if_neg newline, if_neg bracket]
    by_cases dollar : c = 36
    · rw [if_pos dollar]
      exact finds_var here short
    rw [if_neg dollar]
    refine finds_string here short ?_
    by_cases closes : c = 34 ∧ p.insidequote = true
    · exact .inr closes
    · refine .inl ⟨fun wrong => wrong.elim dollar bracket, fun wrong => ?_, closes⟩
      have eol := wrong.1
      simp only [isEol, isSep, Bool.or_eq_true, beq_iff_eq] at eol
      rcases eol with (((same | same) | same) | same) | same
      · exact blank (.inl same)
      · exact blank (.inr same)
      · exact newline (.inl same)
      · exact newline (.inr (.inl same))
      · exact newline (.inr (.inr same))

/-- A call goes over a byte at least, unless it is at the end or at a command that dangles. -/
theorem finds_getToken (here : At (c :: rest) p) (short : Short (c :: rest)) (noNul : 0 ∉ rest) :
    if Dangles p then picolGetToken p = none else Finds rest (picolGetToken p) := by
  have more : p.len ≠ 0 := by
    rw [here.2]
    exact length_ne_zero c rest
  rw [picolGetToken, if_neg more]
  by_cases comment : p.p.head? = some 35 ∧ p.type = .eol
  · have hash : c = 35 := by
      rw [here.1] at comment
      exact Option.some_inj.mp comment.1
    subst hash
    have whole : ¬Dangles p := by
      rintro ⟨bracket, -⟩
      rw [comment.1] at bracket
      cases bracket
    obtain ⟨scan, found, within, newline⟩ := within_commentLoop short
    obtain ⟨scan', found', within', -⟩ := within_commentLoop short.tail
    have same : scan = scan'.over [35] := by
      rw [List.cons_append, commentLoop_cons 35 _ (length_ne_zero _ _), int_pred short,
        if_pos (by decide), found'] at found
      exact (Option.some_inj.mp found).symm
    obtain ⟨rest', at_, suffix, length⟩ := within'
    have at_' : scan.p = rest' ++ [0] := by
      rw [same]
      exact at_
    have length' : scan.len = rest'.length := by
      rw [same]
      exact length
    have short' : Short rest' := Nat.lt_of_le_of_lt suffix.length_le short.tail
    have parsed : picolParseComment p = some { p with p := scan.p, len := scan.len } := by
      rw [picolParseComment, here.1, here.2, found]
      rfl
    rw [if_neg whole, if_pos comment, parsed, Option.bind_some]
    dsimp only
    split
    · exact ⟨_, rest', rfl, ⟨at_', length'⟩, suffix⟩
    · rename_i further
      cases rest' with
      | nil => exact absurd length' further
      | cons d later =>
        have there : At (d :: later) { p with p := scan.p, len := scan.len } := ⟨at_', length'⟩
        have noNul' : 0 ∉ later := fun member =>
          noNul (suffix.subset (List.mem_cons_of_mem d member))
        have token := finds_tokenAt there short' noNul'
        rw [if_neg fun dangles : Dangles _ => newline further dangles.1] at token
        obtain ⟨q, rest'', found'', at_'', suffix''⟩ := token
        exact ⟨q, rest'', found'', at_'', suffix''.trans ((List.suffix_cons d later).trans suffix)⟩
  · rw [if_neg comment]
    exact finds_tokenAt here short noNul

/-- At the end a call stays there. -/
theorem getToken_nil (here : At [] p) : ¬Dangles p ∧ picolGetToken p = some (atEnd p) := by
  refine ⟨fun dangles => ?_, ?_⟩
  · have first := dangles.1
    rw [here.1] at first
    cases first
  · have done : p.len = 0 := here.2
    rw [picolGetToken, if_pos done]

end

section

variable {text : CString}

/-- One call keeps the parser within the text, unless a command dangles. -/
theorem inText_step (short : Short text.bytes) {p : PicolParser} (inside : InText text p) :
    if Dangles p then picolGetToken p = none
    else ∃ q, picolGetToken p = some q ∧ InText text q := by
  obtain ⟨rest, at_, suffix, length⟩ := inside
  have noNul : 0 ∉ rest := fun member => text.noNul (suffix.subset member)
  cases rest with
  | nil =>
    obtain ⟨whole, found⟩ := getToken_nil (p := p) ⟨at_, length⟩
    rw [if_neg whole]
    exact ⟨_, found, [], at_, suffix, length⟩
  | cons c rest =>
    have short' : Short (c :: rest) := Nat.lt_of_le_of_lt suffix.length_le short
    have token := finds_getToken (p := p) ⟨at_, length⟩ short'
      fun member => noNul (List.mem_cons_of_mem c member)
    split
    · rename_i dangles
      rwa [if_pos dangles] at token
    · rename_i whole
      rw [if_neg whole] at token
      obtain ⟨q, rest', found, here, suffix'⟩ := token
      exact ⟨q, found, rest', here.1, suffix'.trans ((List.suffix_cons c rest).trans suffix), here.2⟩

theorem afterTokens_add (calls more : Nat) {p q : PicolParser}
    (reached : afterTokens text calls = some p) (further : picolGetToken p = some q)
    (rest : more = calls + 1) : afterTokens text more = some q := by
  rw [rest, afterTokens, reached, Option.bind_some, further]

/-- Where nothing dangles, the end of the text is found. -/
theorem exists_eof (short : Short text.bytes)
    (whole : ∀ calls, ∀ p ∈ afterTokens text calls, ¬Dangles p) (calls : Nat) {p : PicolParser}
    (reached : afterTokens text calls = some p) {rest : List UInt8} (here : At rest p)
    (suffix : rest <:+ text.bytes) : ∃ calls, ∃ p ∈ afterTokens text calls, p.type = .eof := by
  induction size : rest.length using Nat.strong_induction_on generalizing calls p rest with
  | _ count inductionHypothesis =>
    cases rest with
    | nil =>
      obtain ⟨-, found⟩ := getToken_nil here
      have next := afterTokens_add calls (calls + 1) reached found rfl
      have here' : At [] (atEnd p) := here
      obtain ⟨-, found'⟩ := getToken_nil here'
      have next' := afterTokens_add (calls + 1) (calls + 2) next found' rfl
      refine ⟨calls + 2, _, next', ?_⟩
      have ended : (atEnd p).type = .eol ∨ (atEnd p).type = .eof := by
        unfold atEnd
        dsimp only
        split
        · exact .inl rfl
        · exact .inr rfl
      show (if (atEnd p).type ≠ .eol ∧ (atEnd p).type ≠ .eof then PT.eol else PT.eof) = .eof
      exact if_neg fun other => ended.elim other.1 other.2
    | cons c later =>
      have short' : Short (c :: later) := Nat.lt_of_le_of_lt suffix.length_le short
      have noNul : 0 ∉ later := fun member =>
        text.noNul (suffix.subset (List.mem_cons_of_mem c member))
      have token := finds_getToken here short' noNul
      rw [if_neg (whole calls p reached)] at token
      obtain ⟨q, rest', found, here', suffix'⟩ := token
      have next := afterTokens_add calls (calls + 1) reached found rfl
      have shorter : rest'.length < count := by
        have shorter := suffix'.length_le
        rw [← size, List.length_cons]
        omega
      exact inductionHypothesis rest'.length shorter (calls + 1) next here'
        (suffix'.trans ((List.suffix_cons c later).trans suffix)) rfl

/-- The tokenizer stays within a text, and finds its end, just when an `int` can count the text and
no call is at a command that dangles. -/
theorem tokensSafe_iff (text : CString) :
    TokensSafe text ↔
      Short text.bytes ∧ ∀ calls, ∀ p ∈ afterTokens text calls, ¬Dangles p := by
  constructor
  · rintro ⟨inside, -⟩
    have short : Short text.bytes := by
      obtain ⟨p, start, rest, at_, suffix, length⟩ := inside 0
      obtain rfl := Option.some_inj.mp start
      have whole : rest = text.bytes := (List.append_cancel_right at_).symm
      have counted : int text.bytes.length = rest.length := length
      rw [whole] at counted
      unfold int at counted
      unfold Short
      omega
    refine ⟨short, fun calls p reached dangles => ?_⟩
    obtain ⟨q, reached', inText⟩ := inside calls
    obtain rfl := Option.some_inj.mp (reached.symm.trans reached')
    have beyond := inText_step short inText
    rw [if_pos dangles] at beyond
    obtain ⟨q, next, -⟩ := inside (calls + 1)
    have reached : afterTokens text calls = some p := reached
    rw [afterTokens, reached, Option.bind_some, beyond] at next
    cases next
  · rintro ⟨short, whole⟩
    have start : At text.bytes (picolInitParser text []) := by
      refine ⟨rfl, ?_⟩
      have counted : int text.bytes.length = text.bytes.length := by
        unfold Short at short
        unfold int
        omega
      exact counted
    refine ⟨fun calls => ?_, exists_eof short whole 0 rfl start List.suffix_rfl⟩
    induction calls with
    | zero => exact ⟨_, rfl, text.bytes, start.1, List.suffix_rfl, start.2⟩
    | succ calls inductionHypothesis =>
      obtain ⟨p, reached, inText⟩ := inductionHypothesis
      have reached : afterTokens text calls = some p := reached
      have next := inText_step short inText
      rw [if_neg (whole calls p reached)] at next
      obtain ⟨q, found, inText'⟩ := next
      refine ⟨q, ?_, inText'⟩
      rw [afterTokens, reached, Option.bind_some, found]
      rfl

end

/-- `[\`, and then the NUL. -/
theorem not_tokensSafe_backslash : ¬TokensSafe ⟨[91, 92], by decide⟩ := by
  rintro ⟨inside, -⟩
  obtain ⟨p, reached, -⟩ := inside 1
  have beyond : afterTokens ⟨[91, 92], by decide⟩ 1 = none := by decide +kernel
  rw [beyond] at reached
  cases reached

end Frobio.Ncl
