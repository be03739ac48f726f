/-
This file models how `net-cmds/f-dig.c` writes and reads names: `encode_name`, which makes the
labels of a host name a sequence with a length before each, and `print_name`, which follows such a
sequence through the pointers of a message.

Addresses are counted from the start of the message. What comes behind it is memory as well, and
so is what comes behind the text of the name.
-/

import Frobio.Lib.Memory

namespace Frobio.FDig

open Memory

/-! ### Printing -/

def lowerHexDigit (n : Nat) : UInt8 := UInt8.ofNat (if n < 10 then 48 + n else 87 + n)

/-- A byte as itself, or as an escape. -/
def printByte (c : UInt8) : List UInt8 :=
  if c = 45 ∨ 47 ≤ c ∧ c ≤ 122 then [c]
  else [92, 120, lowerHexDigit (c.toNat / 16), lowerHexDigit (c.toNat % 16)]

/-- The loop of `print_name`, with the rounds that are left. It has no result where it logs a
fatal error, and otherwise what was printed and the address that is returned. -/
def printLoop (message : Nat → UInt8) :
    Nat → Option Nat → Nat → List UInt8 → Option (List UInt8 × Nat)
  | 0, _, _, _ => none
  | patience + 1, override_result, p, printed =>
    let first := (message p).toNat
    if first = 0 then some (printed, override_result.getD (p + 1))
    else if first < 64 then
      printLoop message patience override_result (p + 1 + first)
        (printed ++ ((load message (p + 1) first).flatMap printByte ++ [46]))
    else if first ≥ 192 then
      printLoop message patience (some (p + 2)) ((first - 192) * 256 + (message (p + 1)).toNat)
        printed
    else none

/-- The loop goes round less often than `patience` says. -/
def print_name (message : Nat → UInt8) (p : Nat) : Option (List UInt8 × Nat) :=
  printLoop message 63 none p []

/-! ### Names in a message -/

/-- At an address is a name with these labels, by way of so many pointers, and this is the address
after it. -/
inductive Encoded (message : Nat → UInt8) : Nat → List (List UInt8) → Nat → Nat → Prop
  | root {p : Nat} : message p = 0 → Encoded message p [] 0 (p + 1)
  | label {p next pointers : Nat} {label : List UInt8} {labels : List (List UInt8)} :
      label ≠ [] → label.length < 64 → (message p).toNat = label.length →
      load message (p + 1) label.length = label →
      Encoded message (p + 1 + label.length) labels pointers next →
      Encoded message p (label :: labels) pointers next
  | pointer {p target next pointers : Nat} {labels : List (List UInt8)} :
      192 ≤ (message p).toNat →
      target = ((message p).toNat - 192) * 256 + (message (p + 1)).toNat → target < p →
      Encoded message target labels pointers next →
      Encoded message p labels (pointers + 1) (p + 2)

/-- The labels, each with a dot behind it. -/
def dotted (labels : List (List UInt8)) : List UInt8 :=
  labels.flatMap fun label => label.flatMap printByte ++ [46]

theorem dotted_cons (label : List UInt8) (labels : List (List UInt8)) :
    dotted (label :: labels) = (label.flatMap printByte ++ [46]) ++ dotted labels :=
  List.flatMap_cons

variable {message : Nat → UInt8} {p next pointers : Nat} {labels : List (List UInt8)}

/-! ### Following a name -/

theorem printLoop_root (zero : message p = 0) (patience : Nat) (override : Option Nat)
    (printed : List UInt8) :
    printLoop message (patience + 1) override p printed =
      some (printed, override.getD (p + 1)) := by
  rw [printLoop, zero]
  rfl

theorem printLoop_label {label : List UInt8} (nonempty : label ≠ []) (short : label.length < 64)
    (first : (message p).toNat = label.length) (bytes : load message (p + 1) label.length = label)
    (patience : Nat) (override : Option Nat) (printed : List UInt8) :
    printLoop message (patience + 1) override p printed =
      printLoop message patience override (p + 1 + label.length)
        (printed ++ (label.flatMap printByte ++ [46])) := by
  have more : label.length ≠ 0 := fun zero => nonempty (List.length_eq_zero_iff.mp zero)
  rw [printLoop, first, if_neg more, if_pos short, bytes]

theorem printLoop_pointer (first : 192 ≤ (message p).toNat) (patience : Nat)
    (override : Option Nat) (printed : List UInt8) :
    printLoop message (patience + 1) override p printed =
      printLoop message patience (some (p + 2))
        (((message p).toNat - 192) * 256 + (message (p + 1)).toNat) printed := by
  rw [printLoop, if_neg (by omega), if_neg (by omega), if_pos first]

/-- A name takes a round for every label and pointer, and one for its end. -/
theorem Encoded.printLoop_of_short (encoded : Encoded message p labels pointers next)
    {patience : Nat} (short : patience ≤ labels.length + pointers) (override : Option Nat)
    (printed : List UInt8) : printLoop message patience override p printed = none := by
  induction encoded generalizing patience override printed with
  | root zero =>
    obtain rfl : patience = 0 := Nat.le_zero.mp short
    rfl
  | label nonempty small first bytes rest inductionHypothesis =>
    cases patience with
    | zero => rfl
    | succ patience =>
      rw [printLoop_label nonempty small first bytes]
      rw [List.length_cons] at short
      exact inductionHypothesis (by omega) _ _
  | pointer first target earlier rest inductionHypothesis =>
    cases patience with
    | zero => rfl
    | succ patience =>
      rw [printLoop_pointer first, ← target]
      exact inductionHypothesis (by omega) _ _

/-- Where a name begins decides what it is. -/
theorem Encoded.unique {labels' : List (List UInt8)} {pointers' next' : Nat}
    (encoded : Encoded message p labels pointers next)
    (other : Encoded message p labels' pointers' next') : pointers = pointers' := by
  induction encoded generalizing labels' pointers' next' with
  | root zero =>
    cases other with
    | root _ => rfl
    | label nonempty _ first _ _ =>
      rw [zero] at first
      exact absurd (List.length_eq_zero_iff.mp first.symm) nonempty
    | pointer first _ _ _ =>
      rw [zero] at first
      exact absurd first (by decide)
  | label nonempty small first bytes rest inductionHypothesis =>
    cases other with
    | root zero =>
      rw [zero] at first
      exact absurd (List.length_eq_zero_iff.mp first.symm) nonempty
    | label _ _ first' _ rest' =>
      rw [← first', first] at rest'
      exact inductionHypothesis rest'
    | pointer first' _ _ _ =>
      omega
  | pointer first target earlier rest inductionHypothesis =>
    cases other with
    | root zero =>
      rw [zero] at first
      exact absurd first (by decide)
    | label _ small first' _ _ => omega
    | pointer _ target' _ rest' =>
      rw [target', ← target] at rest'
      rw [inductionHypothesis rest']

/-- With enough rounds the labels are printed. The address that is returned is the one after the
last pointer, which is not the first one where there are more. -/
theorem Encoded.exists_printLoop (encoded : Encoded message p labels pointers next) :
    ∃ last, (pointers = 1 → last = next) ∧ (2 ≤ pointers → last ≠ next) ∧
      (1 ≤ pointers → ∃ q labels', last = q + 2 ∧ Encoded message q labels' 1 (q + 2)) ∧
      ∀ patience override printed, labels.length + pointers < patience →
        printLoop message patience override p printed = some (printed ++ dotted labels,
          if pointers = 0 then override.getD next else last) := by
  induction encoded with
  | @root p zero =>
    refine ⟨0, fun one => absurd one (by decide), fun two => absurd two (by decide),
      fun one => absurd one (by decide), fun patience override printed enough => ?_⟩
    obtain ⟨patience, rfl⟩ :=
      Nat.exists_eq_succ_of_ne_zero (Nat.ne_of_gt (Nat.zero_lt_of_lt enough))
    rw [printLoop_root zero]
    show _ = some (printed ++ [], _)
    rw [List.append_nil, if_pos rfl]
  | @label p next pointers label labels nonempty small first bytes rest inductionHypothesis =>
    obtain ⟨last, one, more, ends, follows⟩ := inductionHypothesis
    refine ⟨last, one, more, ends, fun patience override printed enough => ?_⟩
    obtain ⟨patience, rfl⟩ :=
      Nat.exists_eq_succ_of_ne_zero (Nat.ne_of_gt (Nat.zero_lt_of_lt enough))
    rw [List.length_cons] at enough
    rw [printLoop_label nonempty small first bytes, follows _ _ _ (by omega), dotted_cons,
      List.append_assoc]
  | @pointer p target next pointers labels first toTarget earlier rest inductionHypothesis =>
    obtain ⟨last, one, more, ends, follows⟩ := inductionHypothesis
    by_cases direct : pointers = 0
    · subst direct
      refine ⟨p + 2, fun _ => rfl, fun two => absurd two (by decide),
        fun _ => ⟨p, labels, rfl, .pointer first toTarget earlier rest⟩,
        fun patience override printed enough => ?_⟩
      obtain ⟨patience, rfl⟩ :=
        Nat.exists_eq_succ_of_ne_zero (Nat.ne_of_gt (Nat.zero_lt_of_lt enough))
      rw [printLoop_pointer first, ← toTarget, follows _ _ _ (by omega), if_pos rfl,
        if_neg (by decide)]
      rfl
    · refine ⟨last, fun one => absurd one (by omega), fun _ => ?_, fun _ => ends (by omega),
        fun patience override printed enough => ?_⟩
      · obtain ⟨q, labels', rfl, ended⟩ := ends (by omega)
        intro same
        obtain rfl : q = p := by omega
        have count := ended.unique (.pointer first toTarget earlier rest)
        omega
      · obtain ⟨patience, rfl⟩ :=
          Nat.exists_eq_succ_of_ne_zero (Nat.ne_of_gt (Nat.zero_lt_of_lt enough))
        rw [printLoop_pointer first, ← toTarget, follows _ _ _ (by omega), if_neg direct,
          if_neg (by omega)]

/-- A name is printed, and the address after it returned, if and only if it has at most one pointer
and no more labels than the patience allows. -/
theorem print_name_iff (encoded : Encoded message p labels pointers next) :
    print_name message p = some (dotted labels, next) ↔
      pointers ≤ 1 ∧ labels.length + pointers ≤ 62 := by
  by_cases enough : labels.length + pointers < 63
  · obtain ⟨last, one, more, _, follows⟩ := encoded.exists_printLoop
    rw [print_name, follows _ _ _ enough, List.nil_append]
    by_cases direct : pointers = 0
    · rw [if_pos direct]
      exact ⟨fun _ => by omega, fun _ => rfl⟩
    · rw [if_neg direct]
      refine ⟨fun same => ?_, fun few => ?_⟩
      · have right : last = next := by
          injection same with pair
          injection pair
        have few : ¬2 ≤ pointers := fun two => more two right
        omega
      · rw [one (by omega)]
  · rw [print_name, encoded.printLoop_of_short (by omega)]
    exact ⟨fun fatal => absurd fatal.symm (Option.some_ne_none _), fun few => by omega⟩

/-- A name with one pointer, to the name before it. -/
def shared : Nat → UInt8 := fun a => [3, 119, 119, 119, 2, 97, 98, 0, 1, 120, 192, 4].getD a 0

theorem encoded_shared : Encoded shared 8 [[120], [97, 98]] 1 12 :=
  .label (by decide) (by decide) (by decide) (by decide) (.pointer (by decide) (by decide)
    (by decide : 4 < 10) (.label (by decide) (by decide) (by decide) (by decide)
      (.root (by decide))))

theorem print_name_shared :
    print_name shared 8 = some (dotted [[120], [97, 98]], 12) ↔ 1 ≤ 1 ∧ 2 + 1 ≤ 62 :=
  print_name_iff encoded_shared

/-- A pointer to a pointer. -/
def chained : Nat → UInt8 := fun a => [1, 97, 0, 192, 0, 192, 3].getD a 0

theorem not_print_name_chained :
    ¬∀ labels pointers next, Encoded chained 5 labels pointers next →
      print_name chained 5 = some (dotted labels, next) := by
  intro all
  have encoded : Encoded chained 5 [[97]] 2 7 :=
    .pointer (by decide) (by decide) (by decide : 3 < 5) (.pointer (by decide) (by decide)
      (by decide : 0 < 3) (.label (by decide) (by decide) (by decide) (by decide)
        (.root (by decide))))
  have returned := all _ _ _ encoded
  have five : print_name chained 5 = some (dotted [[97]], 5) := by decide +kernel
  rw [five] at returned
  injection returned with pair
  injection pair with _ address
  exact absurd address (by decide)

/-! ### Writing a name -/

/-- How `encode_name` ends: with an assertion that fails, or with the memory and the address that
is returned. -/
inductive Written
  | fatal
  | name (memory : Nat → UInt8) (address : Nat)

/-- The loop of `encode_name`, with the rounds that are left. The text is read at `s`. -/
def encodeLoop (text : Nat → UInt8) : Nat → (Nat → UInt8) → Nat → Nat → Nat → Option Written
  | 0, _, _, _, _ => none
  | rounds + 1, memory, sizep, p, s =>
    if text s = 46 ∨ text s = 0 then
      -- a dot is looked for in the buffer
      let s := if memory p = 46 ∧ memory (p + 1) = 0 then s + 1 else s
      let len := p - sizep - 1
      if ¬len < 64 then some .fatal
      else
        let memory := store memory sizep [UInt8.ofNat len]
        let s := if text s ≠ 0 then s + 1 else s
        if text s = 0 then some (.name (store memory p [0]) (p + 1))
        else encodeLoop text rounds memory p (p + 1) s
    else encodeLoop text rounds (store memory p [text s]) sizep (p + 1) (s + 1)

def encode_name (text : Nat → UInt8) (rounds : Nat) (memory : Nat → UInt8) (buf : Nat) :
    Option Written :=
  encodeLoop text rounds memory buf (buf + 1) 0

/-- The labels, each with its length before it, and a zero. -/
def wire : List (List UInt8) → List UInt8
  | [] => [0]
  | label :: labels => UInt8.ofNat label.length :: label ++ wire labels

/-- The labels with dots between them. -/
def hostName : List (List UInt8) → List UInt8
  | [] => []
  | [label] => label
  | label :: labels => label ++ 46 :: hostName labels

theorem hostName_cons_cons (label next : List UInt8) (labels : List (List UInt8)) :
    hostName (label :: next :: labels) = label ++ 46 :: hostName (next :: labels) := rfl

/-- What a label of a host name is. -/
def IsLabel (label : List UInt8) : Prop :=
  label ≠ [] ∧ label.length < 64 ∧ 46 ∉ label ∧ 0 ∉ label

/-- A string is in memory, with its terminator. -/
def IsText (text : Nat → UInt8) (s : Nat) (string : List UInt8) : Prop :=
  load text s (string.length + 1) = string ++ [0]

theorem isText_cons {text : Nat → UInt8} {s : Nat} {c : UInt8} {string : List UInt8} :
    IsText text s (c :: string) ↔ text s = c ∧ IsText text (s + 1) string := by
  rw [IsText, IsText, List.length_cons, load_succ, List.cons_append, List.cons.injEq]

theorem isText_nil {text : Nat → UInt8} {s : Nat} : IsText text s [] ↔ text s = 0 := by
  show [text s] = [0] ↔ _
  rw [List.cons.injEq]
  exact and_iff_left rfl

theorem isText_append {text : Nat → UInt8} {s : Nat} {front back : List UInt8} :
    IsText text s (front ++ back) ↔
      load text s front.length = front ∧ IsText text (s + front.length) back := by
  induction front generalizing s with
  | nil => exact (and_iff_right rfl).symm
  | cons c front inductionHypothesis =>
    rw [List.cons_append, isText_cons, inductionHypothesis, List.length_cons, load_succ,
      List.cons.injEq, Nat.add_comm front.length 1, ← Nat.add_assoc, and_assoc]

/-- The bytes of a label are copied. -/
theorem encodeLoop_bytes {text : Nat → UInt8} {s : Nat} {label : List UInt8}
    (noDot : 46 ∉ label) (noNul : 0 ∉ label) (there : load text s label.length = label)
    (rounds : Nat) (memory : Nat → UInt8) (sizep p : Nat) :
    encodeLoop text (label.length + rounds) memory sizep p s =
      encodeLoop text rounds (store memory p label) sizep (p + label.length)
        (s + label.length) := by
  induction label generalizing s memory p with
  | nil => rw [store_nil, List.length_nil, Nat.zero_add, Nat.add_zero, Nat.add_zero]
  | cons c label inductionHypothesis =>
    rw [List.length_cons, load_succ] at there
    obtain ⟨here, later⟩ := List.cons.inj there
    have same : text s = c := here
    have ordinary : ¬(text s = 46 ∨ text s = 0) := by
      rw [same]
      rintro (dot | nul)
      · exact noDot (dot ▸ List.mem_cons_self)
      · exact noNul (nul ▸ List.mem_cons_self)
    have count : (c :: label).length + rounds = label.length + rounds + 1 := by
      rw [List.length_cons]
      omega
    rw [count, encodeLoop, if_neg ordinary, same,
      inductionHypothesis (fun dot => noDot (List.mem_cons_of_mem _ dot))
        (fun nul => noNul (List.mem_cons_of_mem _ nul)) later]
    have joined := store_append memory p [c] label
    rw [List.length_singleton] at joined
    rw [joined, List.length_cons, Nat.add_assoc, Nat.add_assoc, Nat.add_comm 1 label.length]
    rfl

/-- The length is put before the bytes. -/
theorem store_cons (memory : Nat → UInt8) (address : Nat) (b : UInt8) (data : List UInt8) :
    store (store memory (address + 1) data) address [b] = store memory address (b :: data) := by
  funext a
  rcases Nat.lt_trichotomy a address with before | rfl | behind
  · rw [store_apply_of_before _ _ before, store_apply_of_before _ _ before,
      store_apply_of_before _ _ (by omega)]
  · have self := @store_apply_of_lt _ (store memory (a + 1) data) a 0 [b] Nat.one_pos
    have self' := @store_apply_of_lt _ memory a 0 (b :: data) (Nat.succ_pos _)
    exact self.trans self'.symm
  · have joined := store_append memory address [b] data
    rw [List.length_singleton] at joined
    rw [store_apply_of_after _ (by rw [List.length_singleton]; omega), ← List.singleton_append,
      ← joined, store, store]
    split
    · refine congrArg (data.getD (a - (address + 1)) ·) ?_
      rw [store_apply_of_after _ (by rw [List.length_singleton]; omega)]
    · omega

theorem length_wire_cons (label : List UInt8) (labels : List (List UInt8)) :
    (wire (label :: labels)).length = label.length + 1 + (wire labels).length := by
  rw [wire, List.cons_append, List.length_cons, List.length_append]
  omega

theorem wire_ne_nil (labels : List (List UInt8)) : 0 < (wire labels).length := by
  cases labels with
  | nil => exact Nat.one_pos
  | cons label labels =>
    rw [length_wire_cons]
    omega

/-- A label, at the dot or the zero behind it, where the buffer is zero. -/
theorem encodeLoop_label {text : Nat → UInt8} {s : Nat} {label : List UInt8}
    (isLabel : IsLabel label) (there : load text s label.length = label)
    (ends : text (s + label.length) = 46 ∨ text (s + label.length) = 0) (rounds : Nat)
    {memory : Nat → UInt8} {sizep : Nat} (zero : memory (sizep + 1 + label.length) = 0) :
    encodeLoop text (label.length + (rounds + 1)) memory sizep (sizep + 1) s =
      let memory := store memory sizep (UInt8.ofNat label.length :: label)
      let p := sizep + 1 + label.length
      let s := if text (s + label.length) ≠ 0 then s + label.length + 1 else s + label.length
      if text s = 0 then some (.name (store memory p [0]) (p + 1))
      else encodeLoop text rounds memory p (p + 1) s := by
  obtain ⟨_, short, noDot, noNul⟩ := isLabel
  have still : store memory (sizep + 1) label (sizep + 1 + label.length) = 0 :=
    (store_apply_of_after memory (Nat.le_refl _)).trans zero
  have length : sizep + 1 + label.length - sizep - 1 = label.length := by omega
  have away : ¬((0 : UInt8) = 46 ∧
      store memory (sizep + 1) label (sizep + 1 + label.length + 1) = 0) :=
    fun both => absurd both.1 (by decide)
  rw [encodeLoop_bytes noDot noNul there, encodeLoop, if_pos ends, still, length,
    if_neg (not_not_intro short), if_neg away, store_cons]

/-- The text of a name does not begin with its end. -/
theorem text_ne_zero {text : Nat → UInt8} {s : Nat} {label back : List UInt8}
    {labels : List (List UInt8)} (isLabel : IsLabel label)
    (there : IsText text s (hostName (label :: labels) ++ back)) : text s ≠ 0 := by
  obtain ⟨nonempty, _, _, noNul⟩ := isLabel
  obtain ⟨c, rest, rfl⟩ := List.exists_cons_of_ne_nil nonempty
  have begins : ∃ tail, hostName ((c :: rest) :: labels) = c :: tail := by
    cases labels with
    | nil => exact ⟨rest, rfl⟩
    | cons next labels => exact ⟨rest ++ 46 :: hostName (next :: labels), rfl⟩
  obtain ⟨tail, begins⟩ := begins
  rw [begins, List.cons_append] at there
  rw [(isText_cons.mp there).1]
  exact fun nul => noNul (nul ▸ List.mem_cons_self)

/-- By induction on the labels. -/
theorem encodeLoop_labels {text : Nat → UInt8} {labels : List (List UInt8)} {trailing : List UInt8}
    (named : labels ≠ []) (valid : ∀ label ∈ labels, IsLabel label)
    (dot : trailing = [] ∨ trailing = [46]) (memory : Nat → UInt8) (sizep s more : Nat)
    (there : IsText text s (hostName labels ++ trailing))
    (zeroed : ∀ a, sizep < a → a < sizep + (wire labels).length → memory a = 0) :
    encodeLoop text ((wire labels).length + more) memory sizep (sizep + 1) s =
      some (.name (store memory sizep (wire labels)) (sizep + (wire labels).length)) := by
  induction labels generalizing memory sizep s with
  | nil => exact absurd rfl named
  | cons label labels inductionHypothesis =>
    have isLabel := valid label List.mem_cons_self
    have counted := length_wire_cons label labels
    have behind := wire_ne_nil labels
    have zero := zeroed (sizep + 1 + label.length) (by omega) (by omega)
    obtain ⟨rounds, rounds_eq⟩ : ∃ rounds, (wire (label :: labels)).length + more =
        label.length + (rounds + 1) ∧ rounds = (wire labels).length + more := by
      refine ⟨_, ?_, rfl⟩
      omega
    rw [rounds_eq.1]
    by_cases alone : labels = []
    · subst alone
      obtain ⟨bytes, ends⟩ := isText_append.mp there
      have last : text (s + label.length) = 0 ∨
          text (s + label.length) = 46 ∧ text (s + label.length + 1) = 0 := by
        rcases dot with rfl | rfl
        · exact .inl (isText_nil.mp ends)
        · exact .inr ((isText_cons.mp ends).imp id isText_nil.mp)
      have stops : text (if text (s + label.length) ≠ 0 then s + label.length + 1
          else s + label.length) = 0 := by
        split
        · rename_i more
          exact (last.resolve_left more).2
        · rename_i none_
          exact not_not.mp none_
      rw [encodeLoop_label isLabel bytes (last.symm.imp And.left id) _ zero]
      dsimp only
      rw [if_pos stops, counted]
      have joined := store_append memory sizep (UInt8.ofNat label.length :: label) [0]
      rw [List.length_cons] at joined
      have place : sizep + 1 + label.length = sizep + (label.length + 1) := by omega
      rw [place, joined]
      rfl
    · obtain ⟨next, rest, rfl⟩ := List.exists_cons_of_ne_nil alone
      have split : hostName (label :: next :: rest) ++ trailing =
          label ++ (46 :: (hostName (next :: rest) ++ trailing)) := by
        rw [hostName_cons_cons, List.append_assoc, List.cons_append]
      rw [split] at there
      obtain ⟨bytes, ends⟩ := isText_append.mp there
      obtain ⟨isDot, following⟩ := isText_cons.mp ends
      have more_ : text (s + label.length) ≠ 0 := by
        rw [isDot]
        decide
      have goes := text_ne_zero (valid next (List.mem_cons_of_mem _ List.mem_cons_self)) following
      have place : sizep + 1 + label.length = sizep + (label.length + 1) := by omega
      have after : ∀ a, sizep + 1 + label.length < a →
          a < sizep + 1 + label.length + (wire (next :: rest)).length →
            store memory sizep (UInt8.ofNat label.length :: label) a = 0 := by
        intro a low high
        rw [store_apply_of_after _ (by rw [List.length_cons]; omega)]
        exact zeroed a (by omega) (by omega)
      rw [encodeLoop_label isLabel bytes (.inl isDot) _ zero]
      dsimp only
      rw [if_pos more_, if_neg goes, rounds_eq.2,
        inductionHypothesis (List.cons_ne_nil _ _)
          (fun other member => valid other (List.mem_cons_of_mem _ member)) _ _ _ following after]
      have joined := store_append memory sizep (UInt8.ofNat label.length :: label)
        (wire (next :: rest))
      rw [List.length_cons] at joined
      rw [place, joined, counted, Nat.add_assoc]
      rfl

/-! ### Reading back what was written -/

theorem encoded_wire {labels : List (List UInt8)} (valid : ∀ label ∈ labels, IsLabel label)
    {p : Nat} (written : load message p (wire labels).length = wire labels) :
    Encoded message p labels 0 (p + (wire labels).length) := by
  induction labels generalizing p with
  | nil =>
    refine .root ?_
    exact (List.cons.inj written).1
  | cons label labels inductionHypothesis =>
    obtain ⟨nonempty, short, _, _⟩ := valid label List.mem_cons_self
    have counted := length_wire_cons label labels
    have split : (wire (label :: labels)).length =
        1 + (label.length + (wire labels).length) := by omega
    rw [split, load_add, load_add] at written
    obtain ⟨first, rest⟩ := List.cons.inj written
    have behind : load message (p + 1) label.length ++
        load message (p + 1 + label.length) (wire labels).length = label ++ wire labels := rest
    obtain ⟨bytes, others⟩ := List.append_inj behind (length_load ..)
    have length : (message p).toNat = label.length := by
      have same : message p = UInt8.ofNat label.length := first
      rw [same, UInt8.toNat_ofNat']
      omega
    have tail := inductionHypothesis
      (fun other member => valid other (List.mem_cons_of_mem _ member)) others
    have place : p + 1 + label.length + (wire labels).length =
        p + (wire (label :: labels)).length := by omega
    rw [place] at tail
    exact .label nonempty short length bytes tail

/-- What `encode_name` leaves in a buffer that was zero. -/
theorem encode_name_spec {text : Nat → UInt8} {trailing : List UInt8} (named : labels ≠ [])
    (valid : ∀ label ∈ labels, IsLabel label) (dot : trailing = [] ∨ trailing = [46])
    (there : IsText text 0 (hostName labels ++ trailing)) {memory : Nat → UInt8} {buf : Nat}
    (zeroed : ∀ a, buf ≤ a → a < buf + (wire labels).length → memory a = 0) :
    encode_name text (wire labels).length memory buf =
        some (.name (store memory buf (wire labels)) (buf + (wire labels).length)) ∧
      Encoded (store memory buf (wire labels)) buf labels 0 (buf + (wire labels).length) :=
  ⟨encodeLoop_labels named valid dot memory buf 0 0 there fun a low high =>
      zeroed a (Nat.le_of_lt low) high,
    encoded_wire valid (load_store_self memory buf (wire labels))⟩

/-- The bytes of host names are printed as they are. -/
theorem dotted_eq_hostName (named : labels ≠ [])
    (plain : ∀ label ∈ labels, ∀ c ∈ label, c = 45 ∨ 47 ≤ c ∧ c ≤ 122) :
    dotted labels = hostName labels ++ [46] := by
  induction labels with
  | nil => exact absurd rfl named
  | cons label labels inductionHypothesis =>
    have same : label.flatMap printByte = label := by
      have ones : label.flatMap printByte = label.flatMap fun c => [c] := by
        refine List.flatMap_congr fun c member => ?_
        exact if_pos (plain label List.mem_cons_self c member)
      rw [ones, List.flatMap_singleton']
    rw [dotted_cons, same]
    cases labels with
    | nil => exact List.append_nil _
    | cons next rest =>
      have later := inductionHypothesis (List.cons_ne_nil _ _)
        fun other member => plain other (List.mem_cons_of_mem _ member)
      rw [later, hostName_cons_cons, List.append_assoc, List.append_assoc, List.cons_append]
      rfl

/-- In a buffer that is zero a host name, with or without a trailing dot, is written as its labels
with their lengths, and the address after them is returned. It is printed again from there, to the
same address, if and only if there are no more labels than the patience allows. -/
theorem encode_name_print_name {text : Nat → UInt8} {trailing : List UInt8} (named : labels ≠ [])
    (valid : ∀ label ∈ labels, IsLabel label) (dot : trailing = [] ∨ trailing = [46])
    (there : IsText text 0 (hostName labels ++ trailing)) {memory : Nat → UInt8} {buf : Nat}
    (zeroed : ∀ a, buf ≤ a → a < buf + (wire labels).length → memory a = 0) :
    ∃ rounds memory' address, encode_name text rounds memory buf = some (.name memory' address) ∧
      load memory' buf (wire labels).length = wire labels ∧
      address = buf + (wire labels).length ∧
      (print_name memory' buf = some (dotted labels, address) ↔ labels.length ≤ 62) := by
  obtain ⟨written, encoded⟩ := encode_name_spec named valid dot there zeroed
  refine ⟨_, _, _, written, load_store_self memory buf (wire labels), rfl, ?_⟩
  by_cases few : labels.length ≤ 62
  · obtain ⟨_, _, _, _, follows⟩ := encoded.exists_printLoop
    rw [print_name, follows _ _ _ (by omega)]
    exact ⟨fun _ => few, fun _ => rfl⟩
  · rw [print_name, encoded.printLoop_of_short (by omega)]
    exact ⟨fun fatal => absurd fatal.symm (Option.some_ne_none _), fun some_ => absurd some_ few⟩

/-- The text with nothing else in its memory. -/
def textOf (string : List UInt8) : Nat → UInt8 := store (fun _ => 0) 0 (string ++ [0])

theorem isText_textOf (string : List UInt8) : IsText (textOf string) 0 string := by
  have all := load_store_self (fun _ => 0) 0 (string ++ [0])
  rw [List.length_append] at all
  exact all

theorem encode_name_print_name_dot :
    ∃ rounds memory' address,
      encode_name (textOf [97, 46, 98, 99, 46]) rounds (fun _ => 0) 12 =
        some (.name memory' address) ∧
      load memory' 12 (wire [[97], [98, 99]]).length = wire [[97], [98, 99]] ∧
      address = 12 + (wire [[97], [98, 99]]).length ∧
      (print_name memory' 12 = some (dotted [[97], [98, 99]], address) ↔
        [[97], [98, 99]].length ≤ 62) :=
  @encode_name_print_name [[97], [98, 99]] _ [46] (by decide) (by
    intro label member
    rcases List.mem_cons.mp member with rfl | rest
    · exact ⟨by decide, by decide, by decide, by decide⟩
    · cases List.mem_singleton.mp rest
      exact ⟨by decide, by decide, by decide, by decide⟩) (.inr rfl)
    (isText_textOf [97, 46, 98, 99, 46]) (fun _ => 0) 12 fun _ _ _ => rfl

/-- The patience ends before sixty-three labels do. -/
theorem not_print_name_manyLabels :
    ¬∀ labels : List (List UInt8), labels ≠ [] → (∀ label ∈ labels, IsLabel label) →
      ∀ rounds memory address, encode_name (textOf (hostName labels)) rounds (fun _ => 0) 12 =
          some (.name memory address) →
        print_name memory 12 = some (dotted labels, address) := by
  intro all
  have named : List.replicate 63 ([97] : List UInt8) ≠ [] := List.cons_ne_nil _ _
  have valid : ∀ label ∈ List.replicate 63 ([97] : List UInt8), IsLabel label := by
    intro label member
    rw [List.eq_of_mem_replicate member]
    exact ⟨by decide, by decide, by decide, by decide⟩
  have there := isText_textOf (hostName (List.replicate 63 [97]))
  rw [← List.append_nil (hostName _)] at there
  obtain ⟨written, encoded⟩ := @encode_name_spec _ _ [] named valid (.inl rfl) there
    (fun _ => 0) 12 fun _ _ _ => rfl
  have printed := all _ named valid _ _ _ (by rw [List.append_nil] at written; exact written)
  rw [print_name, encoded.printLoop_of_short (by rw [List.length_replicate])] at printed
  exact absurd printed.symm (Option.some_ne_none _)

end Frobio.FDig
