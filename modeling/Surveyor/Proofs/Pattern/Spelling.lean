import Surveyor.Proofs.Pattern.Vocabulary

/-! # The plain pieces of a pattern, on a whole text

A fixed word, one character of a class or a run of a class matches a whole text exactly where the
word, the character or the run stands there. The `mem_ways_…_ofText` lemmas say so in terms of the
text alone, so that what a pattern finds can be stated without the pattern.
-/

namespace Surveyor

/-- The word stands in the text from the offset on. -/
def Spelled (t : Text) (word : String) (i : Nat) : Prop :=
  ∀ k, k < word.length → t[i + k]? = word.toList[k]?

instance (t : Text) (word : String) (i : Nat) : Decidable (Spelled t word i) :=
  inferInstanceAs (Decidable (∀ k, k < word.length → t[i + k]? = word.toList[k]?))

def Holds (t : Text) (p : Char → Bool) (i : Nat) : Prop := ∃ c, t[i]? = some c ∧ p c = true

theorem holds_iff {t : Text} {p : Char → Bool} {i : Nat} : Holds t p i ↔ t[i]?.any p = true := by
  simp [Holds, Option.any_eq_true]

instance (t : Text) (p : Char → Bool) (i : Nat) : Decidable (Holds t p i) :=
  decidable_of_iff _ holds_iff.symm

instance (t : Text) (p : Char → Bool) (i j : Nat) : Decidable (Stands t p i j) :=
  decidable_of_iff (∀ k, k < j → i ≤ k → Holds t p k)
    ⟨fun all k from_ inside => all k inside from_, fun stands k inside from_ => stands k from_ inside⟩

/-- A word starts at the offset: the character before it, if there is one, is no word character. -/
def Fresh (t : Text) (i : Nat) : Prop := ∀ c, 0 < i → t[i - 1]? = some c → isWordChar c = false

variable {t : Text} {i j : Nat}

theorem Spelled.head {word : String} {c : Char} (spelled : Spelled t word i)
    (first : word.toList.head? = some c) : t[i]? = some c := by
  have nonempty : 0 < word.length := by
    rw [← String.length_toList]
    cases chars : word.toList with
    | nil => simp [chars] at first
    | cons _ _ => simp
  rw [← first, List.head?_eq_getElem?, ← spelled 0 nonempty, Nat.add_zero]

theorem Holds.lt_size {p : Char → Bool} (holds : Holds t p i) : i < t.size := by
  obtain ⟨_, here, -⟩ := holds
  exact (Array.getElem?_eq_some_iff.mp here).1

namespace Pattern

variable {caps after : Captures}

theorem mem_ways_lit_ofText {word : String} :
    (j, after) ∈ (lit word).ways (.ofText t) i caps ↔
      Spelled t word i ∧ j = i + word.length ∧ after = caps := by
  simp only [lit, mem_ways_literal, String.length_toList, Subject.has_ofText]
  constructor
  · rintro ⟨⟨rfl, letters⟩, rfl⟩
    refine ⟨fun k inWord => ?_, rfl, rfl⟩
    obtain ⟨c, here, same⟩ := letters k inWord
    rw [here, ← beq_iff_eq.mp same]
    exact (List.getElem?_eq_getElem _).symm
  · rintro ⟨spelled, rfl, rfl⟩
    refine ⟨⟨rfl, fun k inWord => ?_⟩, rfl⟩
    have inList : k < word.toList.length := by rwa [String.length_toList]
    exact ⟨word.toList[k], (spelled k inWord).trans (List.getElem?_eq_getElem inList), by simp⟩

theorem mem_ways_words_ofText {choices : List String} :
    (j, after) ∈ (words choices).ways (.ofText t) i caps ↔
      ∃ word ∈ choices, Spelled t word i ∧ j = i + word.length ∧ after = caps := by
  simp only [words, mem_ways_anyOf, List.mem_map]
  constructor
  · rintro ⟨_, ⟨word, listed, rfl⟩, way⟩
    exact ⟨word, listed, mem_ways_lit_ofText.mp way⟩
  · rintro ⟨word, listed, way⟩
    exact ⟨lit word, ⟨word, listed, rfl⟩, mem_ways_lit_ofText.mpr way⟩

theorem mem_ways_one_ofText {p : Char → Bool} :
    (j, after) ∈ (one p).ways (.ofText t) i caps ↔ Holds t p i ∧ j = i + 1 ∧ after = caps := by
  rw [mem_ways_one, Subject.has_ofText, Holds]

theorem mem_ways_char_ofText {c : Char} :
    (j, after) ∈ (char c).ways (.ofText t) i caps ↔ t[i]? = some c ∧ j = i + 1 ∧ after = caps := by
  simp only [char, mem_ways_one_ofText, Holds, beq_iff_eq]
  constructor
  · rintro ⟨⟨_, here, rfl⟩, ends⟩
    exact ⟨here, ends⟩
  · rintro ⟨here, ends⟩
    exact ⟨⟨c, here, rfl⟩, ends⟩

theorem mem_ways_greedy_ofText {p : Char → Bool} {least : Nat} :
    (j, after) ∈ (greedy p least).ways (.ofText t) i caps ↔
      i + least ≤ j ∧ Stands t p i j ∧ after = caps := by
  simp only [mem_ways_greedy, Subject.has_ofText, Stands]

/-- A fixed word that starts with a word character, at the edge of a word. -/
theorem mem_ways_edgedLit_ofText {word : String} {c : Char} (first : word.toList.head? = some c)
    (inWord : isWordChar c = true) :
    (j, after) ∈ (wordEdge ++ lit word).ways (.ofText t) i caps ↔
      Fresh t i ∧ Spelled t word i ∧ j = i + word.length ∧ after = caps := by
  have edge : Spelled t word i →
      (((Subject.ofText t).hasBefore isWordChar i != (Subject.ofText t).has isWordChar i) = true ↔
        Fresh t i) := by
    intro spelled
    have starts : (Subject.ofText t).has isWordChar i = true :=
      Subject.has_ofText.mpr ⟨c, spelled.head first, inWord⟩
    rw [starts, bne_iff_ne, ne_eq, Subject.hasBefore_iff, Subject.has_ofText]
    constructor
    · intro noWord d positive before
      cases alsoWord : isWordChar d with
      | false => rfl
      | true => exact absurd ⟨positive, d, before, alsoWord⟩ noWord
    · rintro fresh ⟨positive, d, before, alsoWord⟩
      rw [fresh d positive before] at alsoWord
      cases alsoWord
  simp only [mem_ways_append, wordEdge, mem_ways_where, mem_ways_lit_ofText]
  constructor
  · rintro ⟨_, _, ⟨atEdge, rfl, rfl⟩, spelled, ends⟩
    exact ⟨(edge spelled).mp atEdge, spelled, ends⟩
  · rintro ⟨fresh, spelled, ends⟩
    exact ⟨i, caps, ⟨(edge spelled).mpr fresh, rfl, rfl⟩, spelled, ends⟩

theorem occursIn_ofText_iff {p : Pattern} :
    p.occursIn (.ofText t) = true ↔
      ∃ i j after, i ≤ t.size ∧ (j, after) ∈ p.ways (.ofText t) i [] := by
  rw [occursIn, find?, findFrom?_isSome]
  constructor
  · rintro ⟨i, -, upTo, some_⟩
    obtain ⟨⟨j, after⟩, way⟩ := List.exists_mem_of_ne_nil _ some_
    simp only [Subject.ofText] at upTo
    exact ⟨i, j, after, by omega, way⟩
  · rintro ⟨i, j, after, inText, way⟩
    refine ⟨i, Nat.zero_le i, ?_, List.ne_nil_of_mem way⟩
    simp only [Subject.ofText]
    omega

end Pattern

end Surveyor
