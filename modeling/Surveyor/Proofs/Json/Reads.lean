import Surveyor.Proofs.Json.Literals
import Surveyor.Proofs.Json.Words

/-! # Successful readings

`Reads` says by which steps a value, the rest of an array or the rest of an object is read between two
offsets, without the fuel of the reader. The reader succeeds by such steps only (`readsOnly`),
and it takes every one of them if its fuel is at least the length of what is read (`Reads.complete`).
-/

namespace Surveyor.Json

def skip (t : Text) (i : Nat) : Nat := skipBlanks t t.size i

/-- What is read: a value, or the rest of a collection after the members found already. -/
inductive Part where
  | value (v : Value)
  | items (found : List Value) (v : Value)
  | entries (found : Entries) (v : Value)

def Part.result : Part → Value
  | .value v | .items _ v | .entries _ v => v

def Part.read (t : Text) (fuel i : Nat) : Part → Result
  | .value _ => valueAt t fuel i
  | .items found _ => itemsFrom t fuel i found
  | .entries found _ => entriesFrom t fuel i found

def opensValue (c : Char) : Bool := c == '"' || c == '{' || c == '['

/-- A part that is read from one offset to another one. -/
inductive Reads (t : Text) : Part → Nat → Nat → Prop
  | string {i j : Nat} {s : String} (quote : t[i]? = some '"') (read : stringAt t i = .ok (s, j)) :
      Reads t (.value (.str s)) i j
  | scalar {i j : Nat} {c : Char} {v : Value} (here : t[i]? = some c)
      (plain : opensValue c = false) (read : scalarAt t i = .ok (v, j)) : Reads t (.value v) i j
  | emptyObject {i : Nat} (brace : t[i]? = some '{')
      (closes : t[skip t (i + 1)]? = some '}') :
      Reads t (.value (.map [])) i (skip t (i + 1) + 1)
  | object {i j : Nat} {v : Value} (brace : t[i]? = some '{')
      (entries : Reads t (.entries [] v) (skip t (i + 1)) j) : Reads t (.value v) i j
  | emptyArray {i : Nat} (bracket : t[i]? = some '[')
      (closes : t[skip t (i + 1)]? = some ']') :
      Reads t (.value (.list [])) i (skip t (i + 1) + 1)
  | array {i j : Nat} {v : Value} (bracket : t[i]? = some '[')
      (items : Reads t (.items [] v) (skip t (i + 1)) j) : Reads t (.value v) i j
  | lastItem {i after : Nat} {found : List Value} {v : Value}
      (item : Reads t (.value v) i after) (closes : t[skip t after]? = some ']') :
      Reads t (.items found (.list (v :: found).reverse)) i (skip t after + 1)
  | nextItem {i after j : Nat} {found : List Value} {v w : Value}
      (item : Reads t (.value v) i after) (comma : t[skip t after]? = some ',')
      (rest : Reads t (.items (v :: found) w) (skip t (skip t after + 1)) j) :
      Reads t (.items found w) i j
  | lastEntry {i afterKey after : Nat} {found : Entries} {key : String} {v : Value}
      (quote : t[i]? = some '"') (readKey : stringAt t i = .ok (key, afterKey))
      (colon : t[skip t afterKey]? = some ':')
      (value : Reads t (.value v) (skip t (skip t afterKey + 1)) after)
      (closes : t[skip t after]? = some '}') :
      Reads t (.entries found (.map (Entries.insert key v found))) i (skip t after + 1)
  | nextEntry {i afterKey after j : Nat} {found : Entries} {key : String} {v w : Value}
      (quote : t[i]? = some '"') (readKey : stringAt t i = .ok (key, afterKey))
      (colon : t[skip t afterKey]? = some ':')
      (value : Reads t (.value v) (skip t (skip t afterKey + 1)) after)
      (comma : t[skip t after]? = some ',')
      (rest : Reads t (.entries (Entries.insert key v found) w) (skip t (skip t after + 1)) j) :
      Reads t (.entries found w) i j

variable {t : Text}

/-! ## What the reader reads -/

/-- With this fuel, the three readers succeed by the steps of `Reads` only. -/
structure ReadsOnly (t : Text) (fuel : Nat) : Prop where
  value {i j : Nat} {v : Value} (read : valueAt t fuel i = .ok (v, j)) :
    Reads t (.value v) i j
  items {i j : Nat} {found : List Value} {v : Value}
    (read : itemsFrom t fuel i found = .ok (v, j)) : Reads t (.items found v) i j
  entries {i j : Nat} {found : Entries} {v : Value}
    (read : entriesFrom t fuel i found = .ok (v, j)) : Reads t (.entries found v) i j

section

variable {fuel i j : Nat} {v : Value} (smaller : ReadsOnly t fuel)

include smaller

theorem reads_of_valueAt (read : valueAt t (fuel + 1) i = .ok (v, j)) :
    Reads t (.value v) i j := by
  rw [valueAt] at read
  split at read
  · next quote =>
    split at read
    · next readString =>
      cases read
      exact .string quote readString
    · cases read
  · next brace =>
    simp only [beq_iff_eq] at read
    split at read
    · next closes =>
      cases read
      exact .emptyObject brace closes
    · exact .object brace (smaller.entries read)
  · next bracket =>
    simp only [beq_iff_eq] at read
    split at read
    · next closes =>
      cases read
      exact .emptyArray bracket closes
    · exact .array bracket (smaller.items read)
  · next c noQuote noBrace noBracket here =>
    refine .scalar here ?_ read
    simp only [opensValue, Bool.or_eq_false_iff, beq_eq_false_iff_ne]
    exact ⟨⟨noQuote, noBrace⟩, noBracket⟩
  · cases read

theorem reads_of_itemsFrom {found : List Value}
    (read : itemsFrom t (fuel + 1) i found = .ok (v, j)) : Reads t (.items found v) i j := by
  rw [itemsFrom] at read
  split at read
  · cases read
  · next value after readValue =>
    have item := smaller.value readValue
    simp only [beq_iff_eq] at read
    split at read
    · next comma => exact .nextItem item comma (smaller.items read)
    · split at read
      · next closes =>
        cases read
        exact .lastItem item closes
      · cases read

theorem reads_of_entriesFrom {found : Entries}
    (read : entriesFrom t (fuel + 1) i found = .ok (v, j)) :
    Reads t (.entries found v) i j := by
  rw [entriesFrom] at read
  split at read
  · cases read
  · next quote =>
    split at read
    · cases read
    · next key afterKey readKey =>
      simp only [bne_iff_ne, ne_eq, ite_not, beq_iff_eq] at read
      split at read
      · next colon =>
        split at read
        · cases read
        · next value after readValue =>
          have entry := smaller.value readValue
          have isQuote : t[i]? = some '"' := by simpa using quote
          split at read
          · next comma => exact .nextEntry isQuote readKey colon entry comma (smaller.entries read)
          · split at read
            · next closes =>
              cases read
              exact .lastEntry isQuote readKey colon entry closes
            · cases read
      · cases read

end

theorem readsOnly (t : Text) (fuel : Nat) : ReadsOnly t fuel := by
  induction fuel with
  | zero => constructor <;> simp [valueAt, itemsFrom, entriesFrom]
  | succ fuel smaller =>
    exact ⟨reads_of_valueAt smaller, reads_of_itemsFrom smaller, reads_of_entriesFrom smaller⟩

/-! ## The reader reads it -/

theorem le_skipBlanks (t : Text) (fuel i : Nat) : i ≤ skipBlanks t fuel i := by
  induction fuel generalizing i with
  | zero => exact Nat.le_refl i
  | succ fuel inductionHypothesis =>
    rw [skipBlanks]
    split
    · split
      · exact Nat.le_of_succ_le (inductionHypothesis (i + 1))
      · exact Nat.le_refl i
    · exact Nat.le_refl i

theorem le_skip (t : Text) (i : Nat) : i ≤ skip t i := le_skipBlanks t t.size i

theorem stringAt_bounds {i j : Nat} {s : String} (quote : t[i]? = some '"')
    (read : stringAt t i = .ok (s, j)) : i < j ∧ j ≤ t.size := by
  obtain ⟨tail, -, spelled, alike⟩ := stringAt_literal quote read
  have again := alike t i _ spelled
  have inText := Text.le_size_of_append (List.cons_ne_nil '"' tail) spelled
  rw [read] at again
  cases again
  exact ⟨by simp, inText⟩

theorem lt_size {i : Nat} {c : Char} (here : t[i]? = some c) : i < t.size :=
  (Array.getElem?_eq_some_iff.mp here).1

namespace Reads

variable {i j : Nat} {part : Part}

/-- What is read is not empty, and it lies within the text. -/
theorem bounds (reads : Reads t part i j) : i < j ∧ j ≤ t.size := by
  induction reads with
  | string quote read => exact stringAt_bounds quote read
  | scalar here plain read =>
    obtain ⟨progress, inText, -⟩ := scalarAt_bounds read
    exact ⟨progress, inText⟩
  | @emptyObject i _ closes | @emptyArray i _ closes =>
    have := le_skip t (i + 1)
    have := lt_size closes
    omega
  | @object i _ _ _ _ inductionHypothesis | @array i _ _ _ _ inductionHypothesis =>
    have := le_skip t (i + 1)
    omega
  | @lastItem _ after _ _ _ closes inductionHypothesis =>
    have := le_skip t after
    have := lt_size closes
    omega
  | @nextItem _ after _ _ _ _ _ _ _ ofItem ofRest =>
    have := le_skip t after
    have := le_skip t (skip t after + 1)
    omega
  | @lastEntry i afterKey after _ _ _ quote readKey _ _ closes inductionHypothesis =>
    have := stringAt_bounds quote readKey
    have := le_skip t afterKey
    have := le_skip t (skip t afterKey + 1)
    have := le_skip t after
    have := lt_size closes
    omega
  | @nextEntry i afterKey after _ _ _ _ _ quote readKey _ _ _ _ ofValue ofRest =>
    have := stringAt_bounds quote readKey
    have := le_skip t afterKey
    have := le_skip t (skip t afterKey + 1)
    have := le_skip t after
    have := le_skip t (skip t after + 1)
    omega

/-- The first character is one of those with which values start. -/
theorem start (reads : Reads t part i j) :
    ∃ c, t[i]? = some c ∧ (opensValue c = true ∨ isWordChar c = true) := by
  induction reads with
  | string quote | lastEntry quote | nextEntry quote => exact ⟨_, quote, .inl rfl⟩
  | emptyObject brace | object brace => exact ⟨_, brace, .inl rfl⟩
  | emptyArray bracket | array bracket => exact ⟨_, bracket, .inl rfl⟩
  | scalar here plain read =>
    obtain ⟨-, -, c, here, letter⟩ := scalarAt_bounds read
    exact ⟨c, here, .inr letter⟩
  | lastItem item closes inductionHypothesis => exact inductionHypothesis
  | nextItem item comma rest ofItem => exact ofItem

/-- The next character does not close the collection. -/
theorem not_closed (reads : Reads t part i j) {c : Char} (closer : isCloser c = true) :
    (t[i]? == some c) = false := by
  obtain ⟨d, here, first⟩ := reads.start
  rw [here]
  simp only [Option.some_beq_some, beq_eq_false_iff_ne]
  rintro rfl
  simp only [isCloser, Bool.or_eq_true, beq_iff_eq] at closer
  rcases closer with rfl | rfl
  · revert first
    decide
  · revert first
    decide

/-- The reader takes every such step if it has enough fuel. -/
theorem complete (reads : Reads t part i j) {fuel : Nat} (enough : j ≤ i + fuel) :
    part.read t fuel i = .ok (part.result, j) := by
  -- Every step passes a character of its own, so its parts have enough with one unit of fuel less.
  induction reads generalizing fuel with
  | string quote read =>
    have := stringAt_bounds quote read
    obtain ⟨fuel, rfl⟩ : ∃ less, fuel = less + 1 := ⟨fuel - 1, by omega⟩
    simp only [Part.read, Part.result, valueAt, quote, read]
  | @scalar i _ c v here plain read =>
    have := scalarAt_bounds read
    obtain ⟨fuel, rfl⟩ : ∃ less, fuel = less + 1 := ⟨fuel - 1, by omega⟩
    simp only [opensValue, Bool.or_eq_false_iff, beq_eq_false_iff_ne] at plain
    rw [Part.read, valueAt, here]
    split
    · next quote => exact absurd (Option.some.inj quote) plain.1.1
    · next brace => exact absurd (Option.some.inj brace) plain.1.2
    · next bracket => exact absurd (Option.some.inj bracket) plain.2
    · exact read
    · next absent => cases absent
  | @emptyObject i brace closes =>
    have := le_skip t (i + 1)
    obtain ⟨fuel, rfl⟩ : ∃ less, fuel = less + 1 := ⟨fuel - 1, by omega⟩
    rw [skip] at closes
    simp [Part.read, Part.result, valueAt, brace, closes, skip]
  | @object i _ _ brace entries inductionHypothesis =>
    have := le_skip t (i + 1)
    have := entries.bounds
    obtain ⟨fuel, rfl⟩ : ∃ less, fuel = less + 1 := ⟨fuel - 1, by omega⟩
    have further := @inductionHypothesis fuel (by omega)
    have unclosed := entries.not_closed (show isCloser '}' = true by decide)
    rw [skip] at unclosed further
    simp only [Part.read, Part.result, valueAt, brace, unclosed,
      Bool.false_eq_true] at further ⊢
    exact further
  | @emptyArray i bracket closes =>
    have := le_skip t (i + 1)
    obtain ⟨fuel, rfl⟩ : ∃ less, fuel = less + 1 := ⟨fuel - 1, by omega⟩
    rw [skip] at closes
    simp [Part.read, Part.result, valueAt, bracket, closes, skip]
  | @array i _ _ bracket items inductionHypothesis =>
    have := le_skip t (i + 1)
    have := items.bounds
    obtain ⟨fuel, rfl⟩ : ∃ less, fuel = less + 1 := ⟨fuel - 1, by omega⟩
    have further := @inductionHypothesis fuel (by omega)
    have unclosed := items.not_closed (show isCloser ']' = true by decide)
    rw [skip] at unclosed further
    simp only [Part.read, Part.result, valueAt, bracket, unclosed,
      Bool.false_eq_true] at further ⊢
    exact further
  | @lastItem _ after _ _ item closes inductionHypothesis =>
    have := le_skip t after
    have := item.bounds
    obtain ⟨fuel, rfl⟩ : ∃ less, fuel = less + 1 := ⟨fuel - 1, by omega⟩
    have value := @inductionHypothesis fuel (by omega)
    rw [skip] at closes
    simp only [Part.read, Part.result] at value ⊢
    simp [itemsFrom, value, closes, skip]
  | @nextItem _ after _ _ _ _ item comma rest ofItem ofRest =>
    have := le_skip t after
    have := le_skip t (skip t after + 1)
    have := item.bounds
    have := rest.bounds
    obtain ⟨fuel, rfl⟩ : ∃ less, fuel = less + 1 := ⟨fuel - 1, by omega⟩
    have value := @ofItem fuel (by omega)
    have further := @ofRest fuel (by omega)
    rw [skip] at comma
    simp only [Part.read, Part.result, skip] at value further ⊢
    simp [itemsFrom, value, comma, further]
  | @lastEntry i afterKey after _ _ _ quote readKey colon value closes inductionHypothesis =>
    have := stringAt_bounds quote readKey
    have := le_skip t afterKey
    have := le_skip t (skip t afterKey + 1)
    have := le_skip t after
    have := value.bounds
    obtain ⟨fuel, rfl⟩ : ∃ less, fuel = less + 1 := ⟨fuel - 1, by omega⟩
    have entry := @inductionHypothesis fuel (by omega)
    rw [skip] at colon closes
    simp only [Part.read, Part.result, skip] at entry ⊢
    simp [entriesFrom, quote, readKey, colon, entry, closes]
  | @nextEntry i afterKey after _ _ _ _ _ quote readKey colon value comma rest ofValue ofRest =>
    have := stringAt_bounds quote readKey
    have := le_skip t afterKey
    have := le_skip t (skip t afterKey + 1)
    have := le_skip t after
    have := le_skip t (skip t after + 1)
    have := value.bounds
    have := rest.bounds
    obtain ⟨fuel, rfl⟩ : ∃ less, fuel = less + 1 := ⟨fuel - 1, by omega⟩
    have entry := @ofValue fuel (by omega)
    have further := @ofRest fuel (by omega)
    rw [skip] at colon comma
    simp only [Part.read, Part.result, skip] at entry further ⊢
    simp [entriesFrom, quote, readKey, colon, entry, comma, further]

end Reads

/-- A text is read as a value exactly if it consists of the value and blanks around it. -/
theorem readText_eq_ok_iff {v : Value} :
    readText t = .ok v ↔ t[0]? ≠ some (Char.ofNat 0xfeff)
      ∧ ∃ j, Reads t (.value v) (skip t 0) j ∧ skip t j = t.size := by
  rw [readText]
  simp only [beq_iff_eq]
  by_cases mark : t[0]? = some (Char.ofNat 0xfeff)
  · rw [if_pos mark]
    constructor
    · intro impossible
      cases impossible
    · intro unmarked
      exact absurd mark unmarked.1
  · rw [if_neg mark]
    constructor
    · intro read
      split at read
      · cases read
      · next value after readValue =>
        split at read
        · next atEnd =>
          cases read
          exact ⟨mark, after, (readsOnly t _).value readValue, atEnd⟩
        · cases read
    · rintro ⟨-, j, reads, atEnd⟩
      have := reads.bounds
      have value := reads.complete (show j ≤ skip t 0 + (2 * t.size + 2) by omega)
      simp only [Part.read, Part.result, skip] at value atEnd
      rw [value]
      simp only [atEnd, if_true]

theorem readObject?_eq_some_iff {entries : Entries} :
    readObject? t = some entries ↔ readText t = .ok (.map entries) := by
  unfold readObject?
  constructor
  · intro read
    split at read
    · next whole =>
      cases read
      exact whole
    all_goals cases read
  · intro whole
    rw [whole]

end Surveyor.Json
