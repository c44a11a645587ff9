import Surveyor.Json.Writer
import Surveyor.Proofs.Json.Literals
import Surveyor.Proofs.Json.Words

/-! # Literals and integers as they are written

What the writer writes of a string or an integer is read back as the same string or integer, wherever
it stands (`stringAt_of_literal`, `scalarAt_of_int`). A literal ends with its quote whatever follows it;
an integer has to be followed by something that could not belong to it.
-/

namespace Surveyor.Json

variable {t : Text} {i : Nat} {after : List Char}

/-! ## String literals -/

theorem hexDigits_of_control {code : Nat} (control : code < 32) :
    hexDigits 4 code = ['0', '0', Nat.digitChar (code / 16), Nat.digitChar (code % 16)] := by
  revert code
  decide

theorem hexValue?_digitChar {digit : Nat} (single : digit < 16) :
    hexValue? (Nat.digitChar digit) = some digit := by
  revert digit
  decide

theorem hexCode?_of_control {code : Nat} (control : code < 32)
    (left : t.toList.drop i = hexDigits 4 code ++ after) : hexCode? t i = some code := by
  rw [hexDigits_of_control control] at left
  have second := Text.drop_succ left
  have third := Text.drop_succ second
  have fourth := Text.drop_succ third
  have zero : hexValue? '0' = some 0 := rfl
  simp only [hexCode?, Text.getElem?_of_drop left, Text.getElem?_of_drop second,
    Text.getElem?_of_drop third, Text.getElem?_of_drop fourth, Option.bind_eq_bind, Option.bind_some,
    zero, hexValue?_digitChar (show code / 16 < 16 by omega),
    hexValue?_digitChar (show code % 16 < 16 by omega), Option.pure_def, Option.some.injEq]
  omega

/-- A control character is no half of a surrogate pair, so no second escape is looked for. -/
theorem numericEscape?_of_control {c : Char} (control : c.toNat < 32)
    (left : t.toList.drop i = hexDigits 4 c.toNat ++ after) (further : after ≠ []) :
    numericEscape? t i = some (c, i + 4) := by
  have four : (hexDigits 4 c.toNat).length = 4 := by rw [hexDigits_of_control control]; rfl
  have inText := Text.le_size_of_append
    (List.append_ne_nil_of_right_ne_nil (hexDigits 4 c.toNat) further)
    (show t.toList.drop i = (hexDigits 4 c.toNat ++ after) ++ [] by rw [left, List.append_nil])
  have positive := List.length_pos_iff.mpr further
  rw [List.length_append, four] at inText
  have single : Surrogate.isHigh c.toNat = false := by
    simp [Surrogate.isHigh]
    omega
  have unpaired : lowSurrogate? t i c.toNat = none := by simp [lowSurrogate?, single, guard]
  have itself : Surrogate.charOf c.toNat = c := by
    have scalar : ¬ (Surrogate.isHigh c.toNat || Surrogate.isLow c.toNat) = true := by
      simp [single, Surrogate.isLow]
      omega
    simp [Surrogate.charOf, scalar]
  simp [numericEscape?_eq, guard, show i + 4 < t.size by omega, hexCode?_of_control control left,
    unpaired, itself]

/-- A character is read back from the way it is written within a literal. -/
theorem stringBody_escapeChar {c : Char} {opened fuel : Nat} {found : List Char}
    (left : t.toList.drop i = escapeChar c ++ after) (further : after ≠ []) :
    stringBody t opened (fuel + 1) i found
      = stringBody t opened fuel (i + (escapeChar c).length) (c :: found) := by
  -- Of an escape by one letter the second character tells which one it is.
  have simple : ∀ e, escapeChar c = ['\\', e] → simpleEscape? e = some c →
      stringBody t opened (fuel + 1) i found
        = stringBody t opened fuel (i + (escapeChar c).length) (c :: found) := by
    intro e written isEscape
    rw [written] at left ⊢
    exact stringBody_simple (Text.getElem?_of_drop left) (Text.getElem?_of_drop (Text.drop_succ left))
      isEscape
  by_cases quoted : c = '"' ∨ c = '\\'
  · rcases quoted with rfl | rfl
    · exact simple '"' rfl rfl
    · exact simple '\\' rfl rfl
  by_cases lettered : c = '\n' ∨ c = '\r' ∨ c = '\t' ∨ c.toNat = 12 ∨ c.toNat = 8
  · rcases lettered with rfl | rfl | rfl | formFeed | backspace
    · exact simple 'n' rfl rfl
    · exact simple 'r' rfl rfl
    · exact simple 't' rfl rfl
    · obtain rfl : c = Char.ofNat 12 := by rw [← formFeed, Char.ofNat_toNat]
      exact simple 'f' rfl rfl
    · obtain rfl : c = Char.ofNat 8 := by rw [← backspace, Char.ofNat_toNat]
      exact simple 'b' rfl rfl
  simp only [not_or] at quoted lettered
  obtain ⟨notQuote, notEscape⟩ := quoted
  obtain ⟨notLine, notReturn, notTab, notFeed, notBack⟩ := lettered
  by_cases control : c.toNat < 32
  · have written : escapeChar c = '\\' :: 'u' :: hexDigits 4 c.toNat := by
      simp [escapeChar, notQuote, notEscape, notLine, notReturn, notTab, notFeed, notBack, control]
    rw [written] at left ⊢
    have mark := Text.drop_succ left
    rw [stringBody_numeric (Text.getElem?_of_drop left) (Text.getElem?_of_drop mark)
      (numericEscape?_of_control control (Text.drop_succ mark) further), hexDigits_of_control control]
    rfl
  · have written : escapeChar c = [c] := by
      simp [escapeChar, notQuote, notEscape, notLine, notReturn, notTab, notFeed, notBack, control]
    rw [written] at left ⊢
    exact stringBody_plain (Text.getElem?_of_drop left) notQuote notEscape control

theorem stringBody_of_written {opened fuel : Nat} {chars found : List Char}
    (enough : chars.length < fuel)
    (left : t.toList.drop i = chars.flatMap escapeChar ++ '"' :: after) :
    ∃ j, stringBody t opened fuel i found = .ok (String.ofList (found.reverse ++ chars), j)
      ∧ t.toList.drop j = after := by
  induction chars generalizing fuel i found with
  | nil =>
    obtain ⟨fuel, rfl⟩ : ∃ less, fuel = less + 1 := ⟨fuel - 1, by omega⟩
    refine ⟨i + 1, ?_, Text.drop_succ left⟩
    rw [stringBody, Text.getElem?_of_drop left, List.append_nil]
    rfl
  | cons c chars inductionHypothesis =>
    obtain ⟨fuel, rfl⟩ : ∃ less, fuel = less + 1 := ⟨fuel - 1, by omega⟩
    rw [List.flatMap_cons, List.append_assoc] at left
    rw [List.length_cons] at enough
    obtain ⟨j, read, behind⟩ :=
      @inductionHypothesis (i + (escapeChar c).length) fuel (c :: found) (by omega)
        (Text.drop_of_append left)
    refine ⟨j, ?_, behind⟩
    rw [stringBody_escapeChar left (by simp), read]
    simp

theorem length_le_flatMap_escapeChar (chars : List Char) :
    chars.length ≤ (chars.flatMap escapeChar).length := by
  induction chars with
  | nil => exact Nat.le_refl 0
  | cons c chars inductionHypothesis =>
    have positive : 0 < (escapeChar c).length := by
      unfold escapeChar
      repeat' split
      all_goals exact Nat.succ_pos _
    rw [List.flatMap_cons, List.length_append, List.length_cons]
    omega

/-- A string literal is read as the string it was written for. -/
theorem stringAt_of_literal {s : String} (left : t.toList.drop i = (literal s).toList ++ after) :
    t[i]? = some '"' ∧ ∃ j, stringAt t i = .ok (s, j) ∧ t.toList.drop j = after := by
  have opened : t.toList.drop i = '"' :: (s.toList.flatMap escapeChar ++ '"' :: after) := by
    simpa [literal] using left
  have body := Text.drop_succ opened
  have inText := Text.le_size_of_append (List.append_ne_nil_of_right_ne_nil _ (List.cons_ne_nil '"' []))
    (show t.toList.drop (i + 1) = (s.toList.flatMap escapeChar ++ ['"']) ++ after by simp [body])
  have longer := length_le_flatMap_escapeChar s.toList
  simp only [List.length_append] at inText
  obtain ⟨j, read, behind⟩ :=
    @stringBody_of_written t (i + 1) after i (t.size + 1) s.toList [] (by omega) body
  refine ⟨Text.getElem?_of_drop opened, j, ?_, behind⟩
  rw [stringAt, read]
  simp

/-! ## Integers -/

theorem digitsToNat_toDigits (n : Nat) : digitsToNat (Nat.toDigits 10 n) = n :=
  Nat.ofDigitChars_toDigits (by decide) (by decide)

/-- Digits are written without leading zeros. -/
theorem toDigits_of_head? {n : Nat} (zero : (Nat.toDigits 10 n).head? = some '0') :
    Nat.toDigits 10 n = ['0'] := by
  induction n using Nat.strong_induction_on with
  | _ n inductionHypothesis =>
    rcases Nat.lt_or_ge n 10 with single | several
    · rw [Nat.toDigits_of_lt_base single] at zero ⊢
      simpa using zero
    · have nonempty : Nat.toDigits 10 (n / 10) ≠ [] := List.length_pos_iff.mp Nat.length_toDigits_pos
      rw [Nat.toDigits_of_base_le (by decide) several, List.head?_append,
        List.head?_eq_some_head nonempty, Option.some_or, ← List.head?_eq_some_head nonempty] at zero
      have front := inductionHypothesis (n / 10) (by omega) zero
      have nothing := digitsToNat_toDigits (n / 10)
      rw [front] at nothing
      have : digitsToNat ['0'] = 0 := rfl
      omega

theorem isDigit_of_toDigits {n : Nat} : ∀ c ∈ Nat.toDigits 10 n, c.isDigit = true :=
  fun _ member => Nat.isDigit_of_mem_toDigits (by decide) (by decide) member

/-- The digits of a number are its whole part, whether or not it begins with a zero. -/
theorem wholeAt_of_toDigits {n : Nat} (left : t.toList.drop i = Nat.toDigits 10 n ++ after)
    (ends : after.head?.any isWordChar = false) :
    wholeAt t i = (Nat.toDigits 10 n, i + (Nat.toDigits 10 n).length) := by
  have all : (Nat.toDigits 10 n ++ after).takeWhile Char.isDigit = Nat.toDigits 10 n := by
    rw [takeWhile_isDigit ends]
    have kept := @List.takeWhile_append_of_pos _ _ _ [] (@isDigit_of_toDigits n)
    simpa using kept
  simp only [wholeAt, digitsFrom_eq (show t.size ≤ i + t.size by omega), left, all, List.reverse_nil,
    List.nil_append, beq_iff_eq]
  split
  · next zero => rw [toDigits_of_head? zero]; rfl
  · rfl

/-- The digits of an integer, after its sign, are read as the integer. -/
theorem numberAt_of_digits {negative : Bool} {n start : Nat}
    (sign : (t[i]? == some '-') = negative) (behindSign : (if negative then i + 1 else i) = start)
    (left : t.toList.drop start = Nat.toDigits 10 n ++ after)
    (ends : after.head?.any isWordChar = false) (few : (Nat.toDigits 10 n).length ≤ maxDigits) :
    numberAt t i = .ok (.int (if negative then -(n : Int) else n), start + (Nat.toDigits 10 n).length) := by
  have next : t[start + (Nat.toDigits 10 n).length]? = after.head? := by
    rw [Text.getElem?_eq_head?, Text.drop_of_append left]
  -- What follows the digits can be no point and no letter, so the number ends with them.
  have letterless : ∀ c, t[start + (Nat.toDigits 10 n).length]? = some c → isWordChar c = false := by
    intro c here
    rw [next] at here
    rw [here] at ends
    exact ends
  have noFraction : fractionAt? t (start + (Nat.toDigits 10 n).length) = none := by
    have noPoint : (t[start + (Nat.toDigits 10 n).length]? == some '.') = false := by
      rw [beq_eq_false_iff_ne]
      intro point
      cases letterless '.' point
    simp [fractionAt?, noPoint, guard]
  have noExponent : exponentAt? t (start + (Nat.toDigits 10 n).length) = none := by
    refine exponentAt?_eq_none fun c here => ?_
    have other := letterless c here
    rw [Bool.or_eq_false_iff, beq_eq_false_iff_ne, beq_eq_false_iff_ne]
    constructor
    · rintro rfl
      cases other
    · rintro rfl
      cases other
  have nonempty : (Nat.toDigits 10 n).isEmpty = false := by
    rw [← Bool.not_eq_true, List.isEmpty_iff]
    exact List.length_pos_iff.mp Nat.length_toDigits_pos
  have unbroken : ((fractionAt? t (start + (Nat.toDigits 10 n).length)).map (·.2)).getD
      (start + (Nat.toDigits 10 n).length) = start + (Nat.toDigits 10 n).length := by
    rw [noFraction]
    rfl
  rw [numberAt_eq sign behindSign (wholeAt_of_toDigits left ends) unbroken, noFraction, noExponent,
    nonempty]
  simp [numberValue, Nat.not_lt.mpr few, digitsToNat_toDigits, Except.map]

theorem scalarAt_of_word {letters : List Char}
    (same : SameWord letters after after t i t i)
    (unnamed : ∀ named ∈ namedValues, ¬ named.1 <+: letters) : scalarAt t i = numberAt t i := by
  have nothing : (namedValues.find? fun named => hasWord t named.1 i) = none := by
    rw [List.find?_eq_none]
    intro named member there
    exact unnamed named member ((same.hasWord_iff (isWord_of_namedValues named member)).mp there)
  rw [scalarAt_eq, nothing]

def signOf (n : Int) : List Char := if n < 0 then ['-'] else []

theorem toList_toString (n : Int) : (toString n).toList = signOf n ++ Nat.toDigits 10 n.natAbs := by
  rw [Int.toString_eq_repr, Int.repr_eq_if, signOf]
  by_cases negative : n < 0
  · have size : (-n).toNat = n.natAbs := by omega
    rw [if_neg (by omega), if_pos negative, String.toList_append, Nat.toList_repr, size]
    rfl
  · have size : n.toNat = n.natAbs := by omega
    rw [if_pos (by omega), if_neg negative, Nat.toList_repr, size]
    rfl

theorem isWordChar_of_isDigit {c : Char} (digit : c.isDigit = true) : isWordChar c = true := by
  simp [isWordChar, Char.isAlphanum, digit]

theorem isWordChar_of_int {n : Int} : ∀ c ∈ (toString n).toList, isWordChar c = true := by
  intro c member
  rw [toList_toString, List.mem_append] at member
  rcases member with sign | digit
  · obtain rfl : c = '-' := by
      unfold signOf at sign
      split at sign
      · exact List.mem_singleton.mp sign
      · cases sign
    rfl
  · exact isWordChar_of_isDigit (isDigit_of_toDigits c digit)

/-- A written integer starts with a digit, or with a sign and a digit; no name of a value does. -/
theorem unnamed_of_int (n : Int) : ∀ named ∈ namedValues, ¬ named.1 <+: (toString n).toList := by
  obtain ⟨c, rest, spelled⟩ : ∃ c rest, Nat.toDigits 10 n.natAbs = c :: rest :=
    List.exists_cons_of_ne_nil (List.length_pos_iff.mp Nat.length_toDigits_pos)
  have digit : c.isDigit = true := isDigit_of_toDigits c (by rw [spelled]; exact List.mem_cons_self)
  have differs : ∀ d : Char, d.isDigit = false → d ≠ c := by
    rintro d other rfl
    rw [other] at digit
    cases digit
  rw [toList_toString, spelled, signOf]
  split
  all_goals simp [namedValues, List.cons_prefix_cons, differs]

/-- An integer is read back if it has few enough digits and nothing that follows belongs to it. -/
theorem scalarAt_of_int {n : Int} (left : t.toList.drop i = (toString n).toList ++ after)
    (ends : after.head?.any isWordChar = false)
    (few : (Nat.toDigits 10 n.natAbs).length ≤ maxDigits) :
    scalarAt t i = .ok (.int n, i + (toString n).toList.length) := by
  rw [scalarAt_of_word ⟨isWordChar_of_int, left, left, ends, ends⟩ (unnamed_of_int n)]
  rw [toList_toString, signOf] at left ⊢
  by_cases negative : n < 0
  · rw [if_pos negative] at left ⊢
    have signed : (t[i]? == some '-') = true := by
      rw [Text.getElem?_of_drop left]
      rfl
    have itself : -(n.natAbs : Int) = n := by omega
    rw [numberAt_of_digits signed rfl (Text.drop_succ left) ends few, List.length_append]
    simp only [if_true, itself, List.length_singleton, Nat.add_assoc]
  · rw [if_neg negative] at left ⊢
    have unsigned : (t[i]? == some '-') = false := by
      rw [Text.getElem?_eq_head?, left]
      cases digits : Nat.toDigits 10 n.natAbs with
      | nil => exact absurd digits (List.length_pos_iff.mp Nat.length_toDigits_pos)
      | cons c rest =>
        have digit := isDigit_of_toDigits c (by rw [digits]; exact List.mem_cons_self)
        exact beq_eq_false_iff_ne.mpr fun minus => absurd digit (by cases minus; decide)
    have itself : (n.natAbs : Int) = n := by omega
    rw [numberAt_of_digits unsigned rfl left ends few]
    simp only [Bool.false_eq_true, if_false, itself, List.nil_append]

end Surveyor.Json
