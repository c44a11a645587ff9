import Mathlib.Data.Option.Basic
import Surveyor.Proofs.Json.Tokens

/-! # String literals

What is read of a string literal is decided by its own characters, wherever it stands
(`stringAt_literal`). The characters of an escape are plain ones, so a literal goes on behind them as
it went on before, and whether a second escape belongs to the first is decided within the literal.
-/

namespace Surveyor.Json

variable {t u : Text} {i j k fuel : Nat}

/-! ## Plain characters -/

/-- Characters of a literal that stand for themselves. -/
def IsPlain (part : List Char) : Prop := ∀ c ∈ part, c ≠ '"' ∧ c ≠ '\\' ∧ c ≠ '\n'

theorem LiteralTail.ne_nil {tail : List Char} (closed : LiteralTail tail) : tail ≠ [] := by
  rintro rfl
  cases closed

theorem IsPlain.append_literal {part tail : List Char} (plain : IsPlain part)
    (closed : LiteralTail tail) : LiteralTail (part ++ tail) := by
  induction part with
  | nil => exact closed
  | cons c part inductionHypothesis =>
    obtain ⟨notQuote, notEscape, inLine⟩ := plain c List.mem_cons_self
    exact .plain notQuote notEscape inLine
      (inductionHypothesis fun d member => plain d (List.mem_cons_of_mem c member))

/-- Of a literal that goes on with plain characters the rest is one as well. -/
theorem IsPlain.literal_of_append {part tail after more : List Char} (plain : IsPlain part)
    (closed : LiteralTail tail) (same : tail ++ after = part ++ more) :
    ∃ rest, tail = part ++ rest ∧ LiteralTail rest := by
  induction part generalizing tail with
  | nil => exact ⟨tail, rfl, closed⟩
  | cons c part inductionHypothesis =>
    obtain ⟨notQuote, notEscape, -⟩ := plain c List.mem_cons_self
    cases closed with
    | close => exact absurd (List.cons.inj same).1.symm notQuote
    | escape => exact absurd (List.cons.inj same).1.symm notEscape
    | plain _ _ _ further =>
      rw [List.cons_append, List.cons_append] at same
      obtain ⟨rfl, behind⟩ := List.cons.inj same
      obtain ⟨rest, rfl, ends⟩ := inductionHypothesis
        (fun d member => plain d (List.mem_cons_of_mem _ member)) further behind
      exact ⟨rest, rfl, ends⟩

/-! ## Escapes -/

theorem hexCode?_eq_some {code : Nat} (hex : hexCode? t i = some code) :
    ∃ digits, digits.length = 4 ∧ IsPlain digits
      ∧ t.toList.drop i = digits ++ t.toList.drop (i + 4)
      ∧ ∀ (u : Text) (k : Nat) (after : List Char), u.toList.drop k = digits ++ after →
        hexCode? u k = some code := by
  simp only [hexCode?, Option.bind_eq_bind, Option.bind_eq_some_iff, Option.pure_def,
    Option.some.injEq] at hex
  obtain ⟨_, ⟨a, first, hexA⟩, _, ⟨b, second, hexB⟩, _, ⟨c, third, hexC⟩, _, ⟨d, fourth, hexD⟩,
    rfl⟩ := hex
  refine ⟨[a, b, c, d], rfl, ?_, ?_, ?_⟩
  · intro e member
    have isHex : (hexValue? e).isSome = true := by
      simp only [List.mem_cons, List.not_mem_nil, or_false] at member
      rcases member with rfl | rfl | rfl | rfl <;> simp [hexA, hexB, hexC, hexD]
    have differs : ∀ d, (hexValue? d).isSome = false → e ≠ d :=
      fun d => ne_of_holds (p := fun d => (hexValue? d).isSome) isHex
    exact ⟨differs _ rfl, differs _ rfl, differs _ rfl⟩
  · rw [Text.drop_eq_cons first, Text.drop_eq_cons second, Text.drop_eq_cons third,
      Text.drop_eq_cons fourth]
    rfl
  · intro u k after left
    have next := Text.drop_succ left
    have next' := Text.drop_succ next
    simp [hexCode?, Text.getElem?_of_drop left, Text.getElem?_of_drop next,
      Text.getElem?_of_drop next', Text.getElem?_of_drop (Text.drop_succ next'), hexA, hexB, hexC, hexD]

/-- The second escape of a surrogate pair whose first one has its digits at `i`. -/
def lowSurrogate? (t : Text) (i code : Nat) : Option Nat := do
  guard (Surrogate.isHigh code && i + 10 < t.size)
  guard (t[i + 4]? == some '\\' && t[i + 5]? == some 'u')
  let low ← hexCode? t (i + 6)
  guard (Surrogate.isLow low)
  pure low

theorem numericEscape?_eq (t : Text) (i : Nat) :
    numericEscape? t i = (do
      guard (i + 4 < t.size)
      let code ← hexCode? t i
      match lowSurrogate? t i code with
      | some low => pure (Surrogate.join code low, i + 10)
      | none => pure (Surrogate.charOf code, i + 4)) :=
  rfl

theorem lowSurrogate?_eq_some {code low : Nat} :
    lowSurrogate? t i code = some low ↔ (Surrogate.isHigh code = true ∧ i + 10 < t.size)
      ∧ (t[i + 4]? = some '\\' ∧ t[i + 5]? = some 'u') ∧ hexCode? t (i + 6) = some low
      ∧ Surrogate.isLow low = true := by
  simp [lowSurrogate?, guard, Option.bind_eq_some_iff]

/-- Whether a second escape follows is decided by the rest of the literal. -/
theorem lowSurrogate?_of_tail {code low : Nat} {tail after after' : List Char}
    (second : lowSurrogate? t i code = some low) (closed : LiteralTail tail)
    (left : t.toList.drop (i + 4) = tail ++ after) (right : u.toList.drop (k + 4) = tail ++ after') :
    lowSurrogate? u k code = some low := by
  obtain ⟨⟨high, -⟩, ⟨backslash, mark⟩, hex, isLow⟩ := lowSurrogate?_eq_some.mp second
  obtain ⟨digits, four, plain, read, sameRead⟩ := hexCode?_eq_some hex
  have start : t.toList.drop (i + 4) = '\\' :: 'u' :: (digits ++ t.toList.drop (i + 10)) := by
    rw [Text.drop_eq_cons backslash, Text.drop_eq_cons mark, read]
  rw [left] at start
  -- What follows in the first text opens an escape, so the tail of the literal does.
  cases closed with
  | close => cases start
  | plain _ notEscape => exact absurd (List.cons.inj start).1 notEscape
  | @escape c rest _ further =>
    simp only [List.cons_append, List.cons.injEq, true_and] at start
    obtain ⟨rfl, behind⟩ := start
    obtain ⟨rest, rfl, ends⟩ := plain.literal_of_append further behind
    have next := Text.drop_succ right
    have inDigits : u.toList.drop (k + 6) = digits ++ (rest ++ after') := by
      rw [← List.append_assoc]
      exact Text.drop_succ next
    have inText := Text.le_size_of_append (by simp [ends.ne_nil] : digits ++ rest ≠ [])
      (Text.drop_succ next)
    have positive := List.length_pos_iff.mpr ends.ne_nil
    rw [List.length_append, four] at inText
    exact lowSurrogate?_eq_some.mpr ⟨⟨high, by omega⟩,
      ⟨Text.getElem?_of_drop right, Text.getElem?_of_drop next⟩, sameRead u (k + 6) _ inDigits, isLow⟩

/-- The spelling of a numeric escape, up to where the literal goes on: it keeps a literal a literal, and
it is read alike wherever the rest of the literal follows. -/
structure SpellsEscape (t : Text) (i : Nat) (c : Char) (next : Nat) (part : List Char) : Prop where
  spelled : t.toList.drop i = part ++ t.toList.drop next
  inLiteral : ∀ tail, LiteralTail tail → LiteralTail (part ++ tail)
  alike : ∀ (tail after after' : List Char) (u : Text) (k : Nat), LiteralTail tail →
    t.toList.drop next = tail ++ after → u.toList.drop k = part ++ (tail ++ after') →
    numericEscape? u k = some (c, k + part.length)

theorem spellsEscape_single {code : Nat} (hex : hexCode? t i = some code)
    (single : lowSurrogate? t i code = none) :
    ∃ digits, SpellsEscape t i (Surrogate.charOf code) (i + 4) digits := by
  obtain ⟨digits, four, plain, left, sameRead⟩ := hexCode?_eq_some hex
  refine ⟨digits, left, fun tail => plain.append_literal, ?_⟩
  intro tail after after' u k closed behind right
  have inText := Text.le_size_of_append (by simp [closed.ne_nil] : digits ++ tail ≠ [])
    (by rw [List.append_assoc]; exact right)
  have positive := List.length_pos_iff.mpr closed.ne_nil
  rw [List.length_append, four] at inText
  have behind' : u.toList.drop (k + 4) = tail ++ after' := four ▸ Text.drop_of_append right
  -- A second escape found there lies within the literal, so it would be found here as well.
  have unpaired : lowSurrogate? u k code = none := by
    cases other : lowSurrogate? u k code with
    | none => rfl
    | some low =>
      rw [lowSurrogate?_of_tail other closed behind' behind] at single
      cases single
  rw [numericEscape?_eq, sameRead u k _ right]
  simp [guard, show k + 4 < u.size by omega, unpaired, four]

theorem spellsEscape_pair {code low : Nat} (hex : hexCode? t i = some code)
    (second : lowSurrogate? t i code = some low) :
    ∃ part, SpellsEscape t i (Surrogate.join code low) (i + 10) part := by
  obtain ⟨digits, four, plain, left, sameRead⟩ := hexCode?_eq_some hex
  obtain ⟨⟨high, -⟩, ⟨backslash, mark⟩, hexLow, isLow⟩ := lowSurrogate?_eq_some.mp second
  obtain ⟨lows, fourLow, plainLow, leftLow, -⟩ := hexCode?_eq_some hexLow
  have behindFirst : t.toList.drop (i + 4) = '\\' :: 'u' :: lows ++ t.toList.drop (i + 10) := by
    rw [Text.drop_eq_cons backslash, Text.drop_eq_cons mark, leftLow]
    rfl
  have inLiteral : ∀ tail, LiteralTail tail → LiteralTail ('\\' :: 'u' :: lows ++ tail) :=
    fun tail closed => .escape (by decide) (plainLow.append_literal closed)
  refine ⟨digits ++ '\\' :: 'u' :: lows, ?_, ?_, ?_⟩
  · rw [left, behindFirst, List.append_assoc]
  · intro tail closed
    rw [List.append_assoc]
    exact plain.append_literal (inLiteral tail closed)
  · intro tail after after' u k closed behind right
    rw [List.append_assoc] at right
    have behind' : u.toList.drop (k + 4) = ('\\' :: 'u' :: lows ++ tail) ++ after' := by
      rw [List.append_assoc]
      exact four ▸ Text.drop_of_append right
    have inText := Text.le_size_of_append (by simp : '\\' :: 'u' :: lows ++ tail ≠ []) behind'
    have second' : lowSurrogate? u k code = some low :=
      lowSurrogate?_of_tail second (inLiteral tail closed)
        (show t.toList.drop (i + 4) = ('\\' :: 'u' :: lows ++ tail) ++ after by
          rw [behindFirst, behind, List.append_assoc]) behind'
    rw [numericEscape?_eq, sameRead u k _ right]
    simp only [List.cons_append, List.length_cons, List.length_append] at inText
    simp [guard, show k + 4 < u.size by omega, second', four, fourLow]

theorem exists_spellsEscape {c : Char} {next : Nat} (read : numericEscape? t i = some (c, next)) :
    ∃ part, SpellsEscape t i c next part := by
  rw [numericEscape?_eq] at read
  simp only [Option.bind_eq_bind, Option.bind_eq_some_iff] at read
  obtain ⟨_, -, code, hex, read⟩ := read
  cases second : lowSurrogate? t i code with
  | none =>
    simp only [second, Option.pure_def, Option.some.injEq, Prod.mk.injEq] at read
    obtain ⟨rfl, rfl⟩ := read
    exact spellsEscape_single hex second
  | some low =>
    simp only [second, Option.pure_def, Option.some.injEq, Prod.mk.injEq] at read
    obtain ⟨rfl, rfl⟩ := read
    exact spellsEscape_pair hex second

/-! ## Reading a literal -/

theorem simpleEscape?_inLine {e c : Char} (read : simpleEscape? e = some c) : e ≠ '\n' := by
  rintro rfl
  cases read

section

variable {opened : Nat} {found : List Char} {c e : Char}

theorem stringBody_plain (here : t[i]? = some c) (notQuote : c ≠ '"') (notEscape : c ≠ '\\')
    (visible : ¬ c.toNat < 32) :
    stringBody t opened (fuel + 1) i found = stringBody t opened fuel (i + 1) (c :: found) := by
  rw [stringBody, here]
  split
  · next absent => cases absent
  · next quote => exact absurd (Option.some.inj quote) notQuote
  · next escape => exact absurd (Option.some.inj escape) notEscape
  · next d _ _ same =>
    cases same
    rw [if_neg visible]

theorem stringBody_simple (here : t[i]? = some '\\') (mark : t[i + 1]? = some e)
    (simple : simpleEscape? e = some c) :
    stringBody t opened (fuel + 1) i found = stringBody t opened fuel (i + 2) (c :: found) := by
  rw [stringBody, here]
  simp only [mark]
  split
  · next absent => cases absent
  · next numeric =>
    cases numeric
    cases simple
  · next d _ same =>
    cases same
    rw [simple]

theorem stringBody_numeric {next : Nat} (here : t[i]? = some '\\') (mark : t[i + 1]? = some 'u')
    (numeric : numericEscape? t (i + 2) = some (c, next)) :
    stringBody t opened (fuel + 1) i found = stringBody t opened fuel next (c :: found) := by
  rw [stringBody, here]
  simp only [mark, numeric]

end

/-- Reading the rest of a literal: how it is spelled, and that it is read alike elsewhere. -/
theorem stringBody_literal {opened : Nat} {found : List Char} {s : String}
    (read : stringBody t opened fuel i found = .ok (s, j)) :
    ∃ tail, LiteralTail tail ∧ t.toList.drop i = tail ++ t.toList.drop j
      ∧ ∀ (u : Text) (k opened' fuel' : Nat) (after : List Char), u.toList.drop k = tail ++ after →
        tail.length ≤ fuel' → stringBody u opened' fuel' k found = .ok (s, k + tail.length) := by
  induction fuel generalizing i found with
  | zero => cases read
  | succ fuel inductionHypothesis =>
    rw [stringBody] at read
    split at read
    · cases read
    · -- The quote that closes the literal.
      next here =>
      cases read
      refine ⟨['"'], .close, Text.drop_eq_cons here, ?_⟩
      intro u k opened' fuel' after right enough
      obtain ⟨fuel', rfl⟩ : ∃ less, fuel' = less + 1 := ⟨fuel' - 1, by simp at enough; omega⟩
      rw [stringBody, Text.getElem?_of_drop right]
      rfl
    · next here =>
      split at read
      · cases read
      · next mark =>
        split at read
        · -- A numeric escape may be a surrogate pair, so what is left to read starts behind the whole
          -- of it, and the reading elsewhere has to see what follows the first half.
          next c next readEscape =>
          obtain ⟨part, spelled, inLiteral, alike⟩ := exists_spellsEscape readEscape
          obtain ⟨tail, closed, behind, readAlike⟩ := inductionHypothesis read
          refine ⟨'\\' :: 'u' :: (part ++ tail), .escape (by decide) (inLiteral tail closed), ?_, ?_⟩
          · rw [Text.drop_eq_cons here, Text.drop_eq_cons mark, spelled, behind]
            simp
          · intro u k opened' fuel' after right enough
            simp only [List.length_cons, List.length_append] at enough ⊢
            obtain ⟨fuel', rfl⟩ : ∃ less, fuel' = less + 1 := ⟨fuel' - 1, by omega⟩
            have second := Text.drop_succ right
            have digits : u.toList.drop (k + 2) = part ++ (tail ++ after) := by
              rw [← List.append_assoc]
              exact Text.drop_succ second
            rw [stringBody_numeric (Text.getElem?_of_drop right) (Text.getElem?_of_drop second)
                (alike tail _ _ u (k + 2) closed behind digits),
              readAlike u (k + 2 + part.length) opened' fuel' after (Text.drop_of_append digits)
              (by omega)]
            congr 2
            omega
        · cases read
      · next e noMark mark =>
        split at read
        · next c readEscape =>
          obtain ⟨tail, closed, behind, readAlike⟩ := inductionHypothesis read
          refine ⟨'\\' :: e :: tail, .escape (simpleEscape?_inLine readEscape) closed, ?_, ?_⟩
          · rw [Text.drop_eq_cons here, Text.drop_eq_cons mark, behind]
            rfl
          · intro u k opened' fuel' after right enough
            simp only [List.length_cons] at enough ⊢
            obtain ⟨fuel', rfl⟩ : ∃ less, fuel' = less + 1 := ⟨fuel' - 1, by omega⟩
            have second := Text.drop_succ right
            rw [stringBody_simple (Text.getElem?_of_drop right) (Text.getElem?_of_drop second) readEscape,
              readAlike u (k + 2) opened' fuel' after (Text.drop_succ second) (by omega)]
            congr 2
            omega
        · cases read
    · next c notQuote notEscape here =>
      split at read
      · cases read
      · next visible =>
        obtain ⟨tail, closed, behind, readAlike⟩ := inductionHypothesis read
        have inLine : c ≠ '\n' := by
          rintro rfl
          exact visible (by decide)
        refine ⟨c :: tail, .plain notQuote notEscape inLine closed, ?_, ?_⟩
        · rw [Text.drop_eq_cons here, behind]
          rfl
        · intro u k opened' fuel' after right enough
          rw [List.length_cons] at enough ⊢
          obtain ⟨fuel', rfl⟩ : ∃ less, fuel' = less + 1 := ⟨fuel' - 1, by omega⟩
          rw [stringBody_plain (Text.getElem?_of_drop right) notQuote notEscape visible,
            readAlike u (k + 1) opened' fuel' after (Text.drop_succ right) (by omega)]
          congr 2
          omega

theorem stringAt_literal {s : String} (quote : t[i]? = some '"') (read : stringAt t i = .ok (s, j)) :
    ∃ tail, LiteralTail tail ∧ t.toList.drop i = '"' :: tail ++ t.toList.drop j
      ∧ ∀ (u : Text) (k : Nat) (after : List Char), u.toList.drop k = '"' :: tail ++ after →
        stringAt u k = .ok (s, k + ('"' :: tail).length) := by
  obtain ⟨tail, closed, spelled, alike⟩ := stringBody_literal read
  refine ⟨tail, closed, by rw [Text.drop_eq_cons quote, spelled]; rfl, ?_⟩
  intro u k after right
  have next := Text.drop_succ right
  have inText := Text.le_size_of_append closed.ne_nil next
  rw [stringAt, alike u (k + 1) k (u.size + 1) after next (by omega), List.length_cons]
  congr 2
  omega

end Surveyor.Json
