import Mathlib.Order.CompletePartialOrder
import Mathlib.Order.Interval.Set.Disjoint
import Surveyor.Proofs.Source.Braces

/-! # Blocks nest

What the block of a brace is can be told without the scan that finds it (`IsBlock`): up to its last
character more braces are opened than closed, and either the last one closes the first one, or the text
ends while the block is still open. An opening brace has exactly one such block. So of two blocks the
inner one cannot reach beyond the outer one: at the end of the outer block all braces are closed, those
of the inner one included (`blocks_nest`).
-/

namespace Surveyor

def Text.stretch (t : Text) (start stop : Nat) : List Char := (t.slice start stop).toList

def IsOpen (chars : List Char) : Prop := chars.count '}' < chars.count '{'

/-- The stretch of a text from an opening brace to the one that closes it, or else to the end of the
text. -/
structure IsBlock (t : Text) (start stop : Nat) : Prop where
  nonempty : start < stop
  inText : stop ≤ t.size
  staysOpen : ∀ part, part <+: t.stretch start stop → part ≠ [] → part ≠ t.stretch start stop →
    IsOpen part
  ends : ((t.stretch start stop).getLast? = some '}'
      ∧ (t.stretch start stop).count '{' = (t.stretch start stop).count '}')
    ∨ (stop = t.size ∧ ∀ part, part <+: t.stretch start t.size → part ≠ [] → IsOpen part)

section

variable {t : Text} {start stop : Nat}

/-! ## Stretches -/

theorem length_stretch (inText : stop ≤ t.size) : (t.stretch start stop).length = stop - start :=
  length_slice inText

theorem getLast?_stretch (nonempty : start < stop) (inText : stop ≤ t.size) :
    (t.stretch start stop).getLast? = t[stop - 1]? := by
  rw [List.getLast?_eq_getElem?, length_stretch inText, Text.stretch,
    getElem?_slice inText (by omega)]
  congr 1
  omega

theorem take_stretch {k : Nat} (upTo : k ≤ stop) :
    (t.stretch start stop).take (k - start) = t.stretch start k := by
  rw [Text.stretch, Text.stretch, toList_slice, toList_slice, Array.toList_extract,
    Array.toList_extract, List.extract_eq_take_drop, List.extract_eq_take_drop, List.take_take,
    Nat.min_eq_left (Nat.sub_le_sub_right upTo start)]

/-- What a stretch begins with are the stretches from its start. -/
theorem prefix_stretch_iff (order : start ≤ stop) (inText : stop ≤ t.size) {part : List Char} :
    part <+: t.stretch start stop ↔ ∃ k, start ≤ k ∧ k ≤ stop ∧ part = t.stretch start k := by
  constructor
  · intro begins
    have short : part.length ≤ stop - start := length_stretch inText ▸ begins.length_le
    have upTo : start + part.length ≤ stop := by omega
    refine ⟨start + part.length, Nat.le_add_right start _, upTo, ?_⟩
    rw [← take_stretch upTo, Nat.add_sub_cancel_left]
    exact List.prefix_iff_eq_take.mp begins
  · rintro ⟨k, -, upTo, rfl⟩
    rw [← take_stretch upTo]
    exact List.take_prefix _ _

theorem forall_prefix_iff (order : start ≤ stop) (inText : stop ≤ t.size)
    {p : List Char → Prop} :
    (∀ part, part <+: t.stretch start stop → part ≠ [] → p part) ↔
      ∀ k, start < k → k ≤ stop → p (t.stretch start k) := by
  constructor
  · intro each k after upTo
    apply each
    · exact (prefix_stretch_iff order inText).mpr ⟨k, Nat.le_of_lt after, upTo, rfl⟩
    · rw [← List.length_pos_iff, length_stretch (Nat.le_trans upTo inText)]
      omega
  · intro each part begins nonempty
    obtain ⟨k, from_, upTo, rfl⟩ := (prefix_stretch_iff order inText).mp begins
    rw [← List.length_pos_iff, length_stretch (Nat.le_trans upTo inText)] at nonempty
    exact each k (by omega) upTo

theorem stretch_ne_of_lt {k : Nat} (earlier : k < stop) (after : start < k) (inText : stop ≤ t.size) :
    t.stretch start k ≠ t.stretch start stop := by
  intro same
  have lengths := congrArg List.length same
  rw [length_stretch inText, length_stretch (by omega)] at lengths
  omega

/-! ## Counting braces -/

theorem depthBetween_eq_count (t : Text) (start stop : Nat) :
    depthBetween t start stop
      = ((t.stretch start stop).count '{' : Nat) - ((t.stretch start stop).count '}' : Nat) := by
  rw [depthBetween_eq_braceDepth, braceDepth, ← Array.foldl_toList, Text.stretch, toList_slice]
  induction (t.extract start stop).toList with
  | nil => rfl
  | cons c rest inductionHypothesis =>
    rw [List.foldl_cons, foldl_braceStep, inductionHypothesis, List.count_cons, List.count_cons]
    unfold braceStep
    grind

theorem isOpen_stretch_iff : IsOpen (t.stretch start stop) ↔ 0 < depthBetween t start stop := by
  rw [depthBetween_eq_count, IsOpen]
  omega

theorem blockEnd_depth_nonneg (opens : t[start]? = some '{') :
    0 ≤ depthBetween t start (blockEnd t start) := by
  obtain ⟨after, inText⟩ := lt_blockEnd opens
  obtain ⟨last, isLast⟩ : ∃ last, blockEnd t start = last + 1 := ⟨blockEnd t start - 1, by omega⟩
  rw [isLast] at inText ⊢
  have here := Array.getElem?_eq_getElem (show last < t.size by omega)
  rw [depthBetween_add t (show start ≤ last by omega) (Nat.le_add_right last 1),
    depthBetween_succ here]
  -- The last character closes one brace at most.
  have step : -1 ≤ braceStep t[last] := by
    unfold braceStep
    grind
  by_cases atOpening : start = last
  · obtain rfl := atOpening
    rw [Array.getElem?_eq_getElem (by omega)] at opens
    rw [depthBetween_self, Option.some.inj opens]
    decide
  · have open_ := depth_pos_of_lt_blockEnd opens (show start < last by omega) (by omega)
    omega

/-! ## Blocks -/

/-- All of a stretch but the whole of it. -/
theorem staysOpen_iff (order : start ≤ stop) (inText : stop ≤ t.size) :
    (∀ part, part <+: t.stretch start stop → part ≠ [] → part ≠ t.stretch start stop → IsOpen part) ↔
      ∀ k, start < k → k < stop → 0 < depthBetween t start k := by
  rw [forall_prefix_iff (p := fun part => part ≠ t.stretch start stop → IsOpen part) order inText]
  simp only [isOpen_stretch_iff]
  constructor
  · intro opened k after earlier
    exact opened k after (Nat.le_of_lt earlier) (stretch_ne_of_lt earlier after inText)
  · intro opened k after upTo notWhole
    apply opened k after
    apply Nat.lt_of_le_of_ne upTo
    rintro rfl
    exact notWhole rfl

theorem neverCloses_iff (order : start ≤ stop) (inText : stop ≤ t.size) :
    (∀ part, part <+: t.stretch start stop → part ≠ [] → IsOpen part) ↔
      ∀ k, start < k → k ≤ stop → 0 < depthBetween t start k := by
  rw [forall_prefix_iff order inText]
  simp only [isOpen_stretch_iff]

theorem closes_iff (nonempty : start < stop) (inText : stop ≤ t.size) :
    ((t.stretch start stop).getLast? = some '}'
        ∧ (t.stretch start stop).count '{' = (t.stretch start stop).count '}') ↔
      t[stop - 1]? = some '}' ∧ depthBetween t start stop = 0 := by
  rw [getLast?_stretch nonempty inText, depthBetween_eq_count]
  apply and_congr_right
  intro _
  omega

/-- A block by the depths in it. -/
theorem isBlock_iff : IsBlock t start stop ↔
    start < stop ∧ stop ≤ t.size ∧ (∀ k, start < k → k < stop → 0 < depthBetween t start k)
      ∧ ((t[stop - 1]? = some '}' ∧ depthBetween t start stop = 0)
        ∨ (stop = t.size ∧ 0 < depthBetween t start stop)) := by
  constructor
  · rintro ⟨nonempty, inText, staysOpen, ends⟩
    have order := Nat.le_of_lt nonempty
    refine ⟨nonempty, inText, (staysOpen_iff order inText).mp staysOpen, ?_⟩
    cases ends with
    | inl closed => exact .inl ((closes_iff nonempty inText).mp closed)
    | inr unclosed =>
      obtain ⟨rfl, opened⟩ := unclosed
      exact .inr ⟨rfl, (neverCloses_iff order inText).mp opened _ nonempty inText⟩
  · rintro ⟨nonempty, inText, before, ends⟩
    have order := Nat.le_of_lt nonempty
    refine ⟨nonempty, inText, (staysOpen_iff order inText).mpr before, ?_⟩
    cases ends with
    | inl closed => exact .inl ((closes_iff nonempty inText).mpr closed)
    | inr unclosed =>
      obtain ⟨rfl, opened⟩ := unclosed
      refine .inr ⟨rfl, (neverCloses_iff order inText).mpr fun k after upTo => ?_⟩
      -- At the end of the text the depth is given, before it the block is still open.
      by_cases atEnd : k = t.size
      · rw [atEnd]
        exact opened
      · exact before k after (by omega)

theorem isBlock_blockEnd (opens : t[start]? = some '{') : IsBlock t start (blockEnd t start) := by
  obtain ⟨nonempty, inText⟩ := lt_blockEnd opens
  refine isBlock_iff.mpr ⟨nonempty, inText, fun k after inside =>
    depth_pos_of_lt_blockEnd opens after inside, ?_⟩
  by_cases balanced : depthBetween t start (blockEnd t start) = 0
  · exact .inl ⟨getElem?_blockEnd opens balanced, balanced⟩
  · right
    have opened := blockEnd_depth_nonneg opens
    constructor
    · -- A block that ends before the text does is balanced.
      by_contra notAtEnd
      exact balanced (depth_blockEnd (show blockEnd t start < t.size by omega)).2
    · omega

/-- A shorter block would have to be closed where the longer one still is open. -/
theorem IsBlock.le {other : Nat} (block : IsBlock t start stop) (longer : IsBlock t start other) :
    other ≤ stop := by
  obtain ⟨nonempty, -, -, ends⟩ := isBlock_iff.mp block
  obtain ⟨-, inText, before, -⟩ := isBlock_iff.mp longer
  by_contra beyond
  have opened := before stop nonempty (by omega)
  cases ends with
  | inl closed => omega
  | inr unclosed => omega

theorem IsBlock.unique {other : Nat} (block : IsBlock t start stop) (alike : IsBlock t start other) :
    stop = other :=
  Nat.le_antisymm (alike.le block) (block.le alike)

/-- Where the outer block ends, the inner one does not go on. -/
theorem IsBlock.within {inner innerStop : Nat} (block : IsBlock t start stop)
    (innerBlock : IsBlock t inner innerStop) (after : start < inner) (inside : inner < stop) :
    innerStop ≤ stop := by
  obtain ⟨-, -, before, ends⟩ := isBlock_iff.mp block
  obtain ⟨-, inText, beforeInner, -⟩ := isBlock_iff.mp innerBlock
  by_contra beyond
  -- Both the outer block up to the inner one and the rest of it leave braces open.
  have parts := depthBetween_add t (Nat.le_of_lt after) (Nat.le_of_lt inside)
  have openBefore := before inner after inside
  have openInside := beforeInner stop inside (by omega)
  cases ends with
  | inl closed => omega
  | inr unclosed => omega

/-- Blocks that open one after the other are apart, or the second one lies in the first one. -/
theorem IsBlock.apart_or_within {later laterStop : Nat} (block : IsBlock t start stop)
    (laterBlock : IsBlock t later laterStop) (after : start < later) :
    Disjoint (Set.Ico start stop) (Set.Ico later laterStop)
      ∨ Set.Ico later laterStop ⊆ Set.Ico start stop := by
  by_cases beyond : stop ≤ later
  · left
    rw [Set.Ico_disjoint_Ico]
    exact Nat.le_trans (Nat.min_le_left _ _) (Nat.le_trans beyond (Nat.le_max_right _ _))
  · right
    exact Set.Ico_subset_Ico (Nat.le_of_lt after) (block.within laterBlock after (by omega))

end

/-- An opening brace has exactly one block, which the scan finds; and the blocks of two opening braces
are apart, or one of them lies in the other. -/
theorem blocks_nest (t : Text) (opening : Nat) (opens : t[opening]? = some '{') :
    (∀ stop, blockEnd t opening = stop ↔ IsBlock t opening stop)
    ∧ blockText? t opening = some (t.extract opening (blockEnd t opening))
    ∧ ∀ other, t[other]? = some '{' →
      Disjoint (Set.Ico opening (blockEnd t opening)) (Set.Ico other (blockEnd t other))
      ∨ Set.Ico opening (blockEnd t opening) ⊆ Set.Ico other (blockEnd t other)
      ∨ Set.Ico other (blockEnd t other) ⊆ Set.Ico opening (blockEnd t opening) := by
  have block := isBlock_blockEnd opens
  refine ⟨fun stop => ⟨fun isEnd => isEnd ▸ block, fun alike => block.unique alike⟩, ?_, ?_⟩
  · have here : blockEndFrom? t opening = some (blockEnd t opening : Int) := by
      rw [blockEndFrom?, if_neg (by omega), if_neg (by omega), Int.toNat_natCast]
    rw [blockText?, here, ← between_eq_extract]
    rfl
  · intro other opensOther
    have otherBlock := isBlock_blockEnd opensOther
    rcases Nat.lt_trichotomy opening other with before | same | behind
    · rcases block.apart_or_within otherBlock before with apart | inside
      · exact .inl apart
      · exact .inr (.inr inside)
    · exact .inr (.inl (by rw [same]))
    · rcases otherBlock.apart_or_within block behind with apart | inside
      · exact .inl apart.symm
      · exact .inr (.inl inside)

/-- A block that is never closed, with one in it that is. -/
def closedInUnclosed : Text := Text.ofString "\x7ba\x7bb\x7d"

theorem closedInUnclosed_nests :
    IsBlock closedInUnclosed 0 5 ∧ IsBlock closedInUnclosed 2 5
      ∧ (Disjoint (Set.Ico 0 5) (Set.Ico 2 5) ∨ Set.Ico 0 5 ⊆ Set.Ico 2 5
        ∨ Set.Ico 2 5 ⊆ Set.Ico 0 5) := by
  have outer := blocks_nest closedInUnclosed 0 (by decide)
  have inner := blocks_nest closedInUnclosed 2 (by decide)
  have outerEnd : blockEnd closedInUnclosed 0 = 5 := by decide +kernel
  have innerEnd : blockEnd closedInUnclosed 2 = 5 := by decide +kernel
  have apartOrWithin := outer.2.2 2 (by decide)
  rw [outerEnd, innerEnd] at apartOrWithin
  exact ⟨(outer.1 5).mp outerEnd, (inner.1 5).mp innerEnd, apartOrWithin⟩

end Surveyor
