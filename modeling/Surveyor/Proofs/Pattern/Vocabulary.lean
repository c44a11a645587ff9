import Surveyor.Proofs.Pattern.Search
import Surveyor.Pattern.Vocabulary

/-! # Stretches of one class

`Stands t p i j` says that every character from `i` up to `j` is in the class `p`. Blanks, name
characters and parentheses have nothing in common, so where one kind of stretch ends and the next
one starts is determined by the text.
-/

namespace Surveyor

/-- Every character from `i` up to, and without, `j` is in the class. -/
def Stands (t : Text) (p : Char → Bool) (i j : Nat) : Prop :=
  ∀ k, i ≤ k → k < j → ∃ c, t[k]? = some c ∧ p c = true

namespace Stands

variable {t : Text} {p q : Char → Bool} {i j k : Nat}

theorem empty : Stands t p i i := by
  intro k from_ inside
  omega

theorem append (first : Stands t p i j) (second : Stands t p j k) : Stands t p i k := by
  intro l from_ inside
  rcases Nat.lt_or_ge l j with early | late
  · exact first l from_ early
  · exact second l late inside

theorem one {c : Char} (here : t[i]? = some c) (inClass : p c = true) : Stands t p i (i + 1) := by
  intro k from_ inside
  obtain rfl : k = i := by omega
  exact ⟨c, here, inClass⟩

/-- A stretch does not go past a character outside of its class. -/
theorem le_of_not {c : Char} (stands : Stands t p i j) (from_ : i ≤ k) (here : t[k]? = some c)
    (outside : p c = false) : j ≤ k := by
  rcases Nat.lt_or_ge k j with inside | beyond
  · obtain ⟨d, same, inClass⟩ := stands k from_ inside
    rw [here] at same
    cases same
    rw [outside] at inClass
    cases inClass
  · exact beyond

theorem mono (stands : Stands t p i j) (weaker : ∀ c, p c = true → q c = true) : Stands t q i j := by
  intro k from_ inside
  obtain ⟨c, here, inClass⟩ := stands k from_ inside
  exact ⟨c, here, weaker c inClass⟩

theorem narrow {k l : Nat} (stands : Stands t p i j) (from_ : i ≤ k) (upTo : l ≤ j) :
    Stands t p k l :=
  fun o after inside => stands o (Nat.le_trans from_ after) (Nat.lt_of_lt_of_le inside upTo)

theorem congr {t' : Text} (stands : Stands t p i j) (same : ∀ k, k < j → t'[k]? = t[k]?) :
    Stands t' p i j := by
  intro k from_ inside
  rw [same k inside]
  exact stands k from_ inside

end Stands

/-! ## Subjects -/

namespace Subject

variable {t : Text} {p : Char → Bool} {i j : Nat}

theorem stands_of_has {s : Subject} (all : ∀ k, i ≤ k → k < j → s.has p k = true) :
    Stands s.text p i j :=
  fun k from_ inside => getElem?_of_has (all k from_ inside)

theorem has_ofText : (ofText t).has p i = true ↔ ∃ c, t[i]? = some c ∧ p c = true := by
  constructor
  · exact getElem?_of_has
  · rintro ⟨c, here, inClass⟩
    obtain ⟨inText, -⟩ := Array.getElem?_eq_some_iff.mp here
    exact has_iff.mpr ⟨c, by rw [charAt?, if_pos (show i < (ofText t).stop from inText)]; exact here,
      inClass⟩

theorem has_upTo {stop : Nat} :
    (upTo t stop).has p i = true ↔ i < stop ∧ ∃ c, t[i]? = some c ∧ p c = true := by
  constructor
  · intro present
    have inside := has_lt_stop present
    exact ⟨Nat.lt_of_lt_of_le inside (Nat.min_le_left stop t.size), getElem?_of_has present⟩
  · rintro ⟨inside, c, here, inClass⟩
    obtain ⟨inText, -⟩ := Array.getElem?_eq_some_iff.mp here
    have inStop : i < (upTo t stop).stop := by
      simp only [upTo]
      omega
    exact has_iff.mpr ⟨c, by rw [charAt?, if_pos inStop]; exact here, inClass⟩

end Subject

namespace Pattern

theorem getElem?_of_mem_char {s : Subject} {c : Char} {i j : Nat} {caps after : Captures}
    (member : (j, after) ∈ (char c).ways s i caps) :
    s.text[i]? = some c ∧ j = i + 1 ∧ after = caps := by
  obtain ⟨present, ends, same⟩ := mem_ways_one.mp member
  obtain ⟨d, here, isSame⟩ := Subject.getElem?_of_has present
  rw [beq_iff_eq.mp isSame]
  exact ⟨here, ends, same⟩

theorem stands_of_mem_greedy {s : Subject} {p : Char → Bool} {least i j : Nat} {caps after : Captures}
    (member : (j, after) ∈ (greedy p least).ways s i caps) :
    i + least ≤ j ∧ Stands s.text p i j ∧ after = caps := by
  obtain ⟨enough, all, same⟩ := mem_ways_greedy.mp member
  exact ⟨enough, Subject.stands_of_has all, same⟩

/-! ## Classes with nothing in common -/

def blankCodes : List Nat :=
  [9, 10, 11, 12, 13, 28, 29, 30, 31, 32, 0x85, 0xa0, 0x1680, 0x2000, 0x2001, 0x2002, 0x2003, 0x2004,
    0x2005, 0x2006, 0x2007, 0x2008, 0x2009, 0x200a, 0x2028, 0x2029, 0x202f, 0x205f, 0x3000]

theorem mem_blankCodes {c : Char} (blank : isBlank c = true) : c.toNat ∈ blankCodes := by
  simp only [isBlank, Bool.or_eq_true, Bool.and_eq_true, decide_eq_true_eq, beq_iff_eq] at blank
  simp only [blankCodes, List.mem_cons, List.not_mem_nil, or_false]
  omega

theorem not_isNameChar_of_isBlank {c : Char} (blank : isBlank c = true) : isNameChar c = false := by
  have none_ : ∀ code ∈ blankCodes, isNameChar (Char.ofNat code) = false := by decide +kernel
  simpa using none_ c.toNat (mem_blankCodes blank)

theorem isNameChar_of_isWordChar {c : Char} (inWord : isWordChar c = true) : isNameChar c = true := by
  simp [isNameChar, inWord]

theorem isWordChar_of_isNameChar {c : Char} (inName : isNameChar c = true) (other : c ≠ '$') :
    isWordChar c = true := by
  simpa [isNameChar, other] using inName

theorem isNameChar_of_isNameStart {c : Char} (starts : isNameStart c = true) :
    isNameChar c = true := by
  have ascii : c.isAlpha = true → isAlphanumeric c = true := by
    intro letter
    have below : c.toNat < 128 := by
      change (decide (c.val ≥ 65 ∧ c.val ≤ 90) || (c.val ≥ 97 && c.val ≤ 122)) = true at letter
      simp only [ge_iff_le, Bool.or_eq_true, Bool.and_eq_true, decide_eq_true_eq,
        UInt32.le_iff_toNat_le, UInt32.reduceToNat] at letter
      have : c.toNat = c.val.toNat := rfl
      omega
    simp [isAlphanumeric, below, Char.isAlphanum, letter]
  simp only [isNameStart, Bool.or_eq_true, beq_iff_eq] at starts
  rcases starts with (rfl | rfl) | letter
  · decide
  · decide
  · simp [isNameChar, isWordChar, ascii letter]

end Pattern

end Surveyor
