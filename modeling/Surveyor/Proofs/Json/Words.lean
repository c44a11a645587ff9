import Mathlib.Data.List.Find
import Mathlib.Data.Option.Basic
import Surveyor.Proofs.Json.Tokens

/-! # Numbers and names

What is read of a word is decided by its own characters, wherever it stands and whatever follows it
(`scalarAt_word`). It has to be read to its end for this: that the reader stops within a word is a
matter of what it has to find next. Two places at which the same word stands (`SameWord`) are gone over
together, part of a number by part.
-/

namespace Surveyor.Json

variable {t u : Text} {i j k fuel : Nat}

/-! ## Parts of numbers -/

theorem digitsFrom_eq {found : List Char} (enough : t.size ≤ i + fuel) :
    digitsFrom t fuel i found
      = (found.reverse ++ (t.toList.drop i).takeWhile Char.isDigit,
        i + ((t.toList.drop i).takeWhile Char.isDigit).length) := by
  induction fuel generalizing i found with
  | zero =>
    have ended : t.toList.drop i = [] := List.drop_eq_nil_of_le (by simpa using enough)
    simp [digitsFrom, ended]
  | succ fuel inductionHypothesis =>
    rw [digitsFrom]
    cases here : t[i]? with
    | none =>
      have beyond := Array.getElem?_eq_none_iff.mp here
      have ended : t.toList.drop i = [] := List.drop_eq_nil_of_le (by simpa using beyond)
      simp [ended]
    | some c =>
      rw [Text.drop_eq_cons here]
      by_cases digit : c.isDigit = true
      · simp only [digit, if_true, List.takeWhile_cons_of_pos, List.length_cons]
        rw [inductionHypothesis (by omega)]
        simp
        omega
      · simp [digit]

def exponentValue (negative : Bool) (digits : List Char) : Int :=
  let size : Int := digitsToNat (digits.dropWhile (· == '0') |>.take 10)
  if negative then -size else size

theorem exponentAt?_of_mark {mark : Char} {minus plus : Bool} {digits : List Char} {stop : Nat}
    (here : t[i]? = some mark) (isMark : (mark == 'e' || mark == 'E') = true)
    (isMinus : (t[i + 1]? == some '-') = minus) (isPlus : (t[i + 1]? == some '+') = plus)
    (read : digitsFrom t t.size (if (minus || plus) = true then i + 2 else i + 1) [] = (digits, stop)) :
    exponentAt? t i = if digits.isEmpty then none else some (exponentValue minus digits, stop) := by
  subst isMinus isPlus
  simp only [exponentAt?, here, Option.bind_eq_bind, Option.bind_some, guard, isMark, if_true, read]
  cases digits with
  | nil => rfl
  | cons => rfl

/-- An exponent begins with its mark. -/
theorem exponentAt?_eq_none (unmarked : ∀ c, t[i]? = some c → (c == 'e' || c == 'E') = false) :
    exponentAt? t i = none := by
  cases here : t[i]? with
  | none => simp [exponentAt?, here]
  | some c =>
    simp only [exponentAt?, here, Option.bind_eq_bind, Option.bind_some, guard, unmarked c here]
    rfl

def shifted {α : Type} (start : Nat) (read : α × Nat) : α × Nat := (read.1, start + read.2)

def extent {α : Type} (read? : Option (α × Nat)) : Nat := (read?.map (·.2)).getD 0

section

variable {α : Type} {read? : Option (α × Nat)}

theorem fst_shifted (start : Nat) : (read?.map (shifted start)).map (·.1) = read?.map (·.1) := by
  cases read? <;> rfl

theorem snd_shifted (start : Nat) :
    ((read?.map (shifted start)).map (·.2)).getD start = start + extent read? := by
  cases read? <;> rfl

theorem extent_le {bound : Nat} (within : ∀ r ∈ read?, r.2 ≤ bound) : extent read? ≤ bound := by
  cases read? with
  | none => exact Nat.zero_le _
  | some r => exact within r rfl

end

/-- The whole part of a number. A leading zero stands alone. -/
def wholeAt (t : Text) (i : Nat) : List Char × Nat :=
  let (all, stop) := digitsFrom t t.size i []
  if all.head? == some '0' then (['0'], i + 1) else (all, stop)

def numberValue (negative : Bool) (whole : List Char) (fraction? : Option (List Char))
    (exponent? : Option Int) : Except ReadError Value :=
  match fraction?, exponent? with
  | none, none =>
    if whole.length > maxDigits then .error .tooManyDigits
    else
      let n : Int := digitsToNat whole
      .ok (.int (if negative then -n else n))
  | _, _ =>
    let fraction := fraction?.getD []
    .ok (.float (decimalToFloat negative (whole ++ fraction) (exponent?.getD 0 - fraction.length)))

theorem numberAt_eq {negative : Bool} {start stop after : Nat} {whole : List Char}
    (sign : (t[i]? == some '-') = negative) (behindSign : (if negative then i + 1 else i) = start)
    (readWhole : wholeAt t start = (whole, stop))
    (behindFraction : ((fractionAt? t stop).map (·.2)).getD stop = after) :
    numberAt t i = if whole.isEmpty then .error (.malformed i) else
      (numberValue negative whole ((fractionAt? t stop).map (·.1)) ((exponentAt? t after).map (·.1))).map
        fun v => (v, ((exponentAt? t after).map (·.2)).getD after) := by
  subst sign behindSign behindFraction
  rw [numberAt]
  simp only [wholeAt] at readWhole
  simp only [readWhole]
  cases fractionAt? t stop with
  | none =>
    cases exponentAt? t ((Option.map (·.2) (none : Option (List Char × Nat))).getD stop) with
    | none =>
      simp only [numberValue, Option.map_none, Option.getD_none]
      split
      · rfl
      · split <;> rfl
    | some => rfl
  | some => rfl

/-! ## Names -/

/-- The names of values, each before those that are looked for after it. -/
def namedValues : List (List Char × Value) :=
  [("null".toList, .null), ("true".toList, .bool true), ("false".toList, .bool false),
    ("NaN".toList, .float Binary64.undefined), ("Infinity".toList, .float Binary64.infinity),
    ("-Infinity".toList, .float (-Binary64.infinity))]

theorem isWord_of_namedValues : ∀ named ∈ namedValues, ∀ c ∈ named.1, isWordChar c = true := by
  have all : (namedValues.all fun named => named.1.all isWordChar) = true := rfl
  simpa only [List.all_eq_true] using all

theorem nonempty_of_namedValues : ∀ named ∈ namedValues, 0 < named.1.length := by
  simp only [namedValues, List.forall_mem_cons]
  decide

theorem scalarAt_eq (t : Text) (i : Nat) :
    scalarAt t i = match namedValues.find? fun named => hasWord t named.1 i with
      | some (name, v) => .ok (v, i + name.length)
      | none => numberAt t i := by
  simp only [scalarAt, namedValues, List.find?_cons]
  cases hasWord t "null".toList i with
  | true => rfl
  | false =>
    cases hasWord t "true".toList i with
    | true => rfl
    | false =>
      cases hasWord t "false".toList i with
      | true => rfl
      | false =>
        cases hasWord t "NaN".toList i with
        | true => rfl
        | false =>
          cases hasWord t "Infinity".toList i with
          | true => rfl
          | false => cases hasWord t "-Infinity".toList i <;> rfl

/-! ## The same word -/

theorem takeWhile_isDigit {letters rest : List Char} (ends : rest.head?.any isWordChar = false) :
    (letters ++ rest).takeWhile Char.isDigit = letters.takeWhile Char.isDigit := by
  apply Text.takeWhile_append_of_stops
  cases rest with
  | nil => rfl
  | cons c rest =>
    simp only [List.head?_cons, Option.any_some, isWordChar, Bool.or_eq_false_iff] at ends ⊢
    exact (Bool.or_eq_false_iff.mp ends.1.1.1).2

/-- The same characters of words at two places, and no further ones behind them. -/
structure SameWord (letters after after' : List Char) (t : Text) (i : Nat) (u : Text) (k : Nat) :
    Prop where
  all : ∀ c ∈ letters, isWordChar c = true
  left : t.toList.drop i = letters ++ after
  right : u.toList.drop k = letters ++ after'
  ends : after.head?.any isWordChar = false
  ends' : after'.head?.any isWordChar = false

namespace SameWord

variable {letters after after' : List Char}

theorem drop (same : SameWord letters after after' t i u k) {n : Nat} (within : n ≤ letters.length) :
    SameWord (letters.drop n) after after' t (i + n) u (k + n) where
  all := fun c member => same.all c (List.mem_of_mem_drop member)
  left := by
    rw [← List.drop_drop, same.left, List.drop_append_of_le_length within]
  right := by
    rw [← List.drop_drop, same.right, List.drop_append_of_le_length within]
  ends := same.ends
  ends' := same.ends'

theorem head?_iff {rest : List Char} (ends : rest.head?.any isWordChar = false) {c : Char}
    (letter : isWordChar c = true) : (letters ++ rest).head? = some c ↔ letters.head? = some c := by
  cases letters with
  | nil =>
    constructor
    · intro here
      rw [List.nil_append] at here
      rw [here] at ends
      simp [letter] at ends
    · intro here
      cases here
  | cons d letters => simp

theorem here_left (same : SameWord letters after after' t i u k) {c : Char}
    (letter : isWordChar c = true) : (t[i]? == some c) = (letters.head? == some c) := by
  rw [Text.getElem?_eq_head?, same.left, Bool.eq_iff_iff, beq_iff_eq, beq_iff_eq,
    head?_iff same.ends letter]

theorem symm (same : SameWord letters after after' t i u k) : SameWord letters after' after u k t i :=
  ⟨same.all, same.right, same.left, same.ends', same.ends⟩

theorem here_right (same : SameWord letters after after' t i u k) {c : Char}
    (letter : isWordChar c = true) : (u[k]? == some c) = (letters.head? == some c) :=
  same.symm.here_left letter

theorem digits (same : SameWord letters after after' t i u k) :
    ∃ read : List Char × Nat, digitsFrom t t.size i [] = shifted i read
      ∧ digitsFrom u u.size k [] = shifted k read ∧ read.2 ≤ letters.length
      ∧ read.1 = letters.takeWhile Char.isDigit ∧ read.2 = read.1.length := by
  refine ⟨(letters.takeWhile Char.isDigit, (letters.takeWhile Char.isDigit).length), ?_, ?_, ?_, rfl, rfl⟩
  · rw [digitsFrom_eq (by omega), same.left, takeWhile_isDigit same.ends]
    rfl
  · rw [digitsFrom_eq (by omega), same.right, takeWhile_isDigit same.ends']
    rfl
  · exact (List.takeWhile_prefix _).length_le

theorem fraction (same : SameWord letters after after' t i u k) :
    ∃ read : Option (List Char × Nat), fractionAt? t i = read.map (shifted i)
      ∧ fractionAt? u k = read.map (shifted k) ∧ ∀ r ∈ read, r.2 ≤ letters.length := by
  have point : isWordChar '.' = true := by decide
  have left := same.here_left point
  have right := same.here_right point
  cases pointed : letters.head? == some '.' with
  | false =>
    rw [pointed] at left right
    exact ⟨none, by simp [fractionAt?, left, guard], by simp [fractionAt?, right, guard], by simp⟩
  | true =>
    rw [pointed] at left right
    have nonempty : 1 ≤ letters.length := by
      cases letters with
      | nil => cases pointed
      | cons => simp
    obtain ⟨read, inLeft, inRight, within, -⟩ := (same.drop nonempty).digits
    rw [List.length_drop] at within
    -- A point without digits behind it is no fraction.
    cases empty : read.1.isEmpty with
    | true =>
      refine ⟨none, ?_, ?_, by simp⟩
      · simp [fractionAt?, left, guard, inLeft, shifted, empty]
      · simp [fractionAt?, right, guard, inRight, shifted, empty]
    | false =>
      refine ⟨some (read.1, 1 + read.2), ?_, ?_, ?_⟩
      · simp [fractionAt?, left, guard, inLeft, shifted, empty, Nat.add_assoc]
      · simp [fractionAt?, right, guard, inRight, shifted, empty, Nat.add_assoc]
      · rintro r ⟨⟩
        simp only
        omega

theorem unmarked (same : SameWord letters after after' t i u k)
    (unmarked : ¬ letters.head?.any (fun c => c == 'e' || c == 'E') = true) (c : Char)
    (here : t[i]? = some c) : (c == 'e' || c == 'E') = false := by
  by_cases isMark : (c == 'e' || c == 'E') = true
  · have letter : isWordChar c = true := by
      simp only [Bool.or_eq_true, beq_iff_eq] at isMark
      rcases isMark with rfl | rfl
      · decide
      · decide
    have first := same.here_left letter
    rw [here, beq_self_eq_true] at first
    rw [beq_iff_eq.mp first.symm] at unmarked
    exact absurd isMark unmarked
  · simpa using isMark

/-- The digits start behind the sign, if there is one. -/
theorem exists_signLength {signed : Bool} (isThere : signed = true → letters ≠ []) :
    ∃ skipped, skipped ≤ letters.length ∧ ∀ start : Nat,
      (if signed = true then start + 1 else start) = start + skipped := by
  cases signed with
  | true => exact ⟨1, List.length_pos_iff.mpr (isThere rfl), fun start => by rw [if_pos rfl]⟩
  | false => exact ⟨0, Nat.zero_le _, fun start => by simp⟩

theorem exponent (same : SameWord letters after after' t i u k) :
    ∃ read : Option (Int × Nat), exponentAt? t i = read.map (shifted i)
      ∧ exponentAt? u k = read.map (shifted k) ∧ ∀ r ∈ read, r.2 ≤ letters.length := by
  by_cases marked : letters.head?.any (fun c => c == 'e' || c == 'E') = true
  · obtain ⟨mark, letters, rfl⟩ : ∃ mark rest, letters = mark :: rest := by
      cases letters with
      | nil => cases marked
      | cons mark rest => exact ⟨mark, rest, rfl⟩
    have next := same.drop (show 1 ≤ (mark :: letters).length by simp)
    rw [List.drop_one, List.tail_cons] at next
    -- A sign may stand between the mark and the digits.
    obtain ⟨skipped, within, offset⟩ := @exists_signLength letters
      (letters.head? == some '-' || letters.head? == some '+') (by rintro signed rfl; cases signed)
    have behindMark : ∀ start, (if (letters.head? == some '-' || letters.head? == some '+') = true
        then start + 2 else start + 1) = start + 1 + skipped := fun start => offset (start + 1)
    obtain ⟨⟨digits, length⟩, inLeft, inRight, inLetters, -⟩ := (next.drop within).digits
    rw [List.length_drop] at inLetters
    refine ⟨if digits.isEmpty then none
      else some (exponentValue (letters.head? == some '-') digits, 1 + skipped + length), ?_, ?_, ?_⟩
    · rw [exponentAt?_of_mark (Text.getElem?_of_drop same.left) marked (next.here_left (by decide))
        (next.here_left (by decide)) (by rw [behindMark, inLeft, shifted])]
      cases digits <;> simp [shifted, Nat.add_assoc]
    · rw [exponentAt?_of_mark (Text.getElem?_of_drop same.right) marked (next.here_right (by decide))
        (next.here_right (by decide)) (by rw [behindMark, inRight, shifted])]
      cases digits <;> simp [shifted, Nat.add_assoc]
    · intro r member
      split at member
      · cases member
      · cases member
        simp only [List.length_cons]
        omega
  · exact ⟨none, exponentAt?_eq_none (same.unmarked marked), exponentAt?_eq_none (same.symm.unmarked marked),
      by simp⟩

theorem whole (same : SameWord letters after after' t i u k) :
    ∃ read : List Char × Nat, wholeAt t i = shifted i read ∧ wholeAt u k = shifted k read
      ∧ read.2 ≤ letters.length ∧ (read.1.isEmpty = false → 0 < read.2) := by
  obtain ⟨⟨digits, length⟩, inLeft, inRight, within, spelled, counted⟩ := same.digits
  cases zero : digits.head? == some '0' with
  | true =>
    refine ⟨(['0'], 1), ?_, ?_, ?_, fun _ => Nat.one_pos⟩
    · simp [wholeAt, inLeft, shifted, zero]
    · simp [wholeAt, inRight, shifted, zero]
    · have nonempty : digits ≠ [] := by
        rintro rfl
        cases zero
      exact Nat.le_trans (counted ▸ List.length_pos_iff.mpr nonempty) within
  | false =>
    refine ⟨(digits, length), ?_, ?_, within, ?_⟩
    · simp [wholeAt, inLeft, shifted, zero]
    · simp [wholeAt, inRight, shifted, zero]
    · intro nonempty
      rw [counted]
      exact List.length_pos_iff.mpr (by simpa using nonempty)

/-- A number is read alike in both places, and it reaches equally far into the word. -/
theorem number (same : SameWord letters after after' t i u k) {v : Value}
    (read : numberAt t i = .ok (v, j)) :
    ∃ n, 0 < n ∧ n ≤ letters.length ∧ j = i + n ∧ numberAt u k = .ok (v, k + n) := by
  have minus := same.here_left (show isWordChar '-' = true by decide)
  have minus' := same.here_right (show isWordChar '-' = true by decide)
  obtain ⟨skipped, within, offset⟩ := @exists_signLength letters (letters.head? == some '-')
    (by rintro signed rfl; cases signed)
  -- Behind each part the rest of the word is the same in both places again.
  have unsigned := same.drop within
  obtain ⟨⟨whole, length⟩, inLeft, inRight, inLetters, positive⟩ := unsigned.whole
  have behindWhole := unsigned.drop inLetters
  obtain ⟨fraction?, fractionLeft, fractionRight, fractionWithin⟩ := behindWhole.fraction
  have pointWithin := extent_le fractionWithin
  obtain ⟨exponent?, exponentLeft, exponentRight, exponentWithin⟩ := (behindWhole.drop pointWithin).exponent
  have exponentWithin := extent_le exponentWithin
  simp only [List.length_drop] at inLetters pointWithin exponentWithin
  rw [numberAt_eq minus (offset i) inLeft (by rw [fractionLeft, snd_shifted]), exponentLeft, fractionLeft,
    fst_shifted, fst_shifted, snd_shifted] at read
  rw [numberAt_eq minus' (offset k) inRight (by rw [fractionRight, snd_shifted]), exponentRight,
    fractionRight, fst_shifted, fst_shifted, snd_shifted]
  cases empty : whole.isEmpty with
  | true => simp [empty] at read
  | false =>
    rw [empty] at positive
    have digit := positive rfl
    simp only [empty, Bool.false_eq_true, if_false] at read ⊢
    cases value : numberValue (letters.head? == some '-') whole (fraction?.map (·.1))
        (exponent?.map (·.1)) with
    | error e =>
      rw [value] at read
      cases read
    | ok number =>
      rw [value] at read
      cases read
      refine ⟨skipped + length + extent fraction? + extent exponent?, by omega, by omega, by omega, ?_⟩
      simp only [Except.map, Nat.add_assoc]

theorem prefix_append_iff {name rest : List Char} (ends : rest.head?.any isWordChar = false)
    (isWord : ∀ c ∈ name, isWordChar c = true) : name <+: letters ++ rest ↔ name <+: letters := by
  induction name generalizing letters with
  | nil => simp
  | cons c name inductionHypothesis =>
    cases letters with
    | nil =>
      constructor
      · rintro ⟨more, same⟩
        rw [List.nil_append] at same
        rw [← same] at ends
        simp [isWord c List.mem_cons_self] at ends
      · intro impossible
        simp at impossible
    | cons d letters =>
      rw [List.cons_append, List.cons_prefix_cons, List.cons_prefix_cons,
        inductionHypothesis fun e member => isWord e (List.mem_cons_of_mem c member)]

/-- A name is there if the word begins with it. -/
theorem hasWord_iff (same : SameWord letters after after' t i u k) {name : List Char}
    (isWord : ∀ c ∈ name, isWordChar c = true) : hasWord t name i = true ↔ name <+: letters := by
  rw [hasWord, beq_iff_eq, Array.toList_extract, List.extract_eq_take_drop, Nat.add_sub_cancel_left,
    same.left, ← prefix_append_iff same.ends isWord, List.prefix_iff_eq_take]
  exact eq_comm

theorem hasWord_eq (same : SameWord letters after after' t i u k) {name : List Char}
    (isWord : ∀ c ∈ name, isWordChar c = true) : hasWord t name i = hasWord u name k := by
  rw [Bool.eq_iff_iff, same.hasWord_iff isWord, same.symm.hasWord_iff isWord]

/-- A scalar is read alike in both places, and it reaches equally far into the word. -/
theorem scalar (same : SameWord letters after after' t i u k) {v : Value}
    (read : scalarAt t i = .ok (v, j)) :
    ∃ n, 0 < n ∧ n ≤ letters.length ∧ j = i + n ∧ scalarAt u k = .ok (v, k + n) := by
  have alike : namedValues.find? (fun named => hasWord u named.1 k)
      = namedValues.find? fun named => hasWord t named.1 i :=
    List.find?_congr fun named member => (same.hasWord_eq (isWord_of_namedValues named member)).symm
  rw [scalarAt_eq] at read ⊢
  rw [alike]
  cases found : namedValues.find? fun named => hasWord t named.1 i with
  | none =>
    rw [found] at read
    exact same.number read
  | some named =>
    rw [found] at read
    cases read
    have member := List.mem_of_find?_eq_some found
    have there : hasWord t named.1 i = true := by simpa using List.find?_some found
    have begins := (same.hasWord_iff (isWord_of_namedValues named member)).mp there
    exact ⟨named.1.length, nonempty_of_namedValues named member, begins.length_le, rfl, rfl⟩

end SameWord

/-! ## Words -/

/-- The word at an offset; it is empty if none is there. -/
theorem exists_sameWord (t : Text) (i : Nat) : ∃ letters after, SameWord letters after after t i t i := by
  refine ⟨(t.toList.drop i).takeWhile isWordChar, (t.toList.drop i).dropWhile isWordChar, ?_⟩
  have left := (List.takeWhile_append_dropWhile (p := isWordChar) (l := t.toList.drop i)).symm
  have ends : ((t.toList.drop i).dropWhile isWordChar).head?.any isWordChar = false := by
    have stopped := List.head?_dropWhile_not isWordChar (t.toList.drop i)
    cases behind : (t.toList.drop i).dropWhile isWordChar with
    | nil => rfl
    | cons c after =>
      rw [behind] at stopped
      simpa using stopped
  exact ⟨fun c member => List.all_eq_true.mp List.all_takeWhile c member, left, left, ends, ends⟩

theorem scalarAt_bounds {v : Value} (read : scalarAt t i = .ok (v, j)) :
    i < j ∧ j ≤ t.size ∧ ∃ c, t[i]? = some c ∧ isWordChar c = true := by
  obtain ⟨letters, after, same⟩ := exists_sameWord t i
  obtain ⟨n, positive, within, rfl, -⟩ := same.scalar read
  cases letters with
  | nil => exact absurd within (by simpa using Nat.ne_of_gt positive)
  | cons c letters =>
    have inText := Text.le_size_of_append (List.cons_ne_nil c letters) same.left
    exact ⟨by omega, by omega, c, Text.getElem?_of_drop same.left, same.all c List.mem_cons_self⟩

/-- A word that is read to its end: how it is spelled, and that it is read alike elsewhere. -/
theorem scalarAt_word {v : Value} (read : scalarAt t i = .ok (v, j))
    (boundary : (t.toList.drop j).head?.any isWordChar = false) :
    ∃ letters, letters ≠ [] ∧ (∀ c ∈ letters, isWordChar c = true)
      ∧ t.toList.drop i = letters ++ t.toList.drop j
      ∧ ∀ (u : Text) (k : Nat) (after : List Char), u.toList.drop k = letters ++ after →
        after.head?.any isWordChar = false → scalarAt u k = .ok (v, k + letters.length) := by
  obtain ⟨letters, after, same⟩ := exists_sameWord t i
  -- At the boundary nothing of the word is left.
  have atEnd : ∀ n, n ≤ letters.length → j = i + n → n = letters.length := by
    intro n within reaches
    by_cases inside : n < letters.length
    · have behind : t.toList.drop j = letters.drop n ++ after := reaches ▸ (same.drop within).left
      rw [behind, List.drop_eq_getElem_cons inside, List.cons_append, List.head?_cons, Option.any_some,
        same.all _ (List.getElem_mem inside)] at boundary
      cases boundary
    · omega
  obtain ⟨n, positive, within, reaches, -⟩ := same.scalar read
  have whole := atEnd n within reaches
  subst whole
  refine ⟨letters, List.length_pos_iff.mp positive, same.all, ?_, ?_⟩
  · rw [reaches, Text.drop_of_append same.left, same.left]
  · intro u k after' right ends'
    obtain ⟨n, -, within, reaches, readAlike⟩ :=
      SameWord.scalar ⟨same.all, same.left, right, same.ends, ends'⟩ read
    rw [atEnd n within reaches] at readAlike
    exact readAlike

end Surveyor.Json
