import Surveyor.Text.Basic

/-! # Names in ascending order

What is sorted by a key is in the order of the keys (`pairwise_mergeSort_key`). Of sorted names,
those that are the same stand next to each other, so leaving out what stands before its like leaves
each name once (`Text.nodup_distinctSorted`).
-/

namespace Surveyor

theorem pairwise_mergeSort_key {α β : Type} [LE β] [DecidableLE β] [Std.IsLinearPreorder β]
    (key : α → β) (items : List α) :
    (items.mergeSort fun a b => decide (key a ≤ key b)).Pairwise fun a b => key a ≤ key b := by
  have transitive : ∀ a b c : α, decide (key a ≤ key b) = true → decide (key b ≤ key c) = true →
      decide (key a ≤ key c) = true := by
    simp only [decide_eq_true_eq]
    exact fun a b c => Std.le_trans
  have total : ∀ a b : α, (decide (key a ≤ key b) || decide (key b ≤ key a)) = true := by
    simp only [Bool.or_eq_true, decide_eq_true_eq]
    exact fun a b => Std.le_total
  exact (List.pairwise_mergeSort transitive total items).imp fun atMost => of_decide_eq_true atMost

namespace Text

/-- The names of a list, one of those in a row that are the same. -/
def withoutRepeats (names : List String) : List String :=
  names.foldr (fun name kept => if kept.head? == some name then kept else name :: kept) []

theorem withoutRepeats_cons (name : String) (rest : List String) :
    withoutRepeats (name :: rest) =
      if (withoutRepeats rest).head? == some name then withoutRepeats rest
      else name :: withoutRepeats rest := rfl

theorem mem_withoutRepeats {names : List String} {name : String} :
    name ∈ withoutRepeats names ↔ name ∈ names := by
  induction names with
  | nil => exact Iff.rfl
  | cons first rest inductionHypothesis =>
    rw [withoutRepeats_cons, List.mem_cons, ← inductionHypothesis]
    split
    · next isHead =>
      have isKept : first ∈ withoutRepeats rest := List.mem_of_head? (by simpa using isHead)
      constructor
      · exact .inr
      · rintro (rfl | later)
        · exact isKept
        · exact later
    · exact List.mem_cons

theorem head?_withoutRepeats (names : List String) : (withoutRepeats names).head? = names.head? := by
  cases names with
  | nil => rfl
  | cons first rest =>
    rw [withoutRepeats_cons]
    split
    · next isHead => simpa using isHead
    · rfl

theorem withoutRepeats_sublist (names : List String) : (withoutRepeats names).Sublist names := by
  induction names with
  | nil => exact .slnil
  | cons first rest inductionHypothesis =>
    rw [withoutRepeats_cons]
    split
    · exact inductionHypothesis.cons first
    · exact inductionHypothesis.cons_cons first

theorem nodup_withoutRepeats {names : List String} (sorted : names.Pairwise (· ≤ ·)) :
    (withoutRepeats names).Nodup := by
  induction names with
  | nil => exact List.nodup_nil
  | cons first rest inductionHypothesis =>
    obtain ⟨atMost, restSorted⟩ := List.pairwise_cons.mp sorted
    rw [withoutRepeats_cons, head?_withoutRepeats]
    split
    · exact inductionHypothesis restSorted
    · next notHead =>
      refine List.nodup_cons.mpr ⟨fun isKept => notHead ?_, inductionHypothesis restSorted⟩
      -- A name that comes again comes next, as nothing stands between it and itself.
      have again := mem_withoutRepeats.mp isKept
      cases rest with
      | nil => cases again
      | cons second further =>
        have below : second ≤ first := by
          rcases List.mem_cons.mp again with rfl | later
          · exact String.le_refl first
          · exact (List.pairwise_cons.mp restSorted).1 first later
        have same : second = first := String.le_antisymm below (atMost second List.mem_cons_self)
        simp [same]

theorem mem_distinctSorted {names : List String} {name : String} :
    name ∈ distinctSorted names ↔ name ∈ names :=
  mem_withoutRepeats.trans List.mem_mergeSort

theorem nodup_distinctSorted (names : List String) : (distinctSorted names).Nodup :=
  nodup_withoutRepeats (pairwise_mergeSort_key id names)

theorem pairwise_distinctSorted (names : List String) : (distinctSorted names).Pairwise (· < ·) := by
  have sorted : (sortStrings names).Pairwise (· ≤ ·) := pairwise_mergeSort_key id names
  refine ((sorted.sublist (withoutRepeats_sublist _)).and (nodup_distinctSorted names)).imp ?_
  rintro a b ⟨atMost, different⟩
  exact String.not_le.mp fun atLeast => different (String.le_antisymm atMost atLeast)

end Text

end Surveyor
