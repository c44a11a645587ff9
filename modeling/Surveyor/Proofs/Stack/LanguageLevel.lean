import Mathlib.Data.Nat.Basic
import Mathlib.Order.Basic
import Surveyor.Stack.LanguageLevel

/-! # The highest levels that sources need

The search for the level of a project goes down from the last level to the best one found so far, source
by source. What it finds is known by its upper bounds: a number is at least that of the level found iff it
is at least the number of every level whose syntax occurs in any source (`highestLevel_le_iff`). So leaving
out the levels that are too low to count, and the sources behind one that needs the last level, changes
nothing, and the version is that of the highest of all levels needed (`versions_are_highest_needed`).
-/

namespace Surveyor

variable {levels : Array LanguageLevel} {sources : List Text}

/-! ## Levels needed -/

/-- There is a level at the place, and its syntax occurs in the source. -/
def NeedsPlace (levels : Array LanguageLevel) (s : Subject) (place : Nat) : Prop :=
  ∃ level, levels[place]? = some level ∧ level.occursIn s = true

/-- The places of the levels that sources need, one for every feature that occurs in a source. -/
def placesNeeded (levels : Array LanguageLevel) (sources : List Text) : List Nat :=
  sources.flatMap fun source =>
    levels.toList.zipIdx.flatMap fun (level, place) =>
      (level.features.filter (·.occursIn (Subject.ofText source))).map fun _ => place

def highestNeeded? (levels : Array LanguageLevel) (sources : List Text) : Option LanguageLevel :=
  (placesNeeded levels sources).max?.bind (levels[·]?)

theorem mem_placesNeeded {place : Nat} :
    place ∈ placesNeeded levels sources ↔
      ∃ source ∈ sources, NeedsPlace levels (Subject.ofText source) place := by
  simp only [placesNeeded, NeedsPlace, List.mem_flatMap, List.mem_map, List.mem_filter,
    LanguageLevel.occursIn, List.any_eq_true, Prod.exists, List.mem_zipIdx_iff_getElem?,
    Array.getElem?_toList]
  constructor
  · rintro ⟨source, given, level, _, isLevel, feature, occurs, rfl⟩
    exact ⟨source, given, level, isLevel, feature, occurs⟩
  · rintro ⟨source, given, level, isLevel, feature, occurs⟩
    exact ⟨source, given, level, place, isLevel, feature, occurs, rfl⟩

theorem NeedsPlace.lt_size {s : Subject} {place : Nat} (needs : NeedsPlace levels s place) :
    place < levels.size := by
  obtain ⟨_, isLevel, _⟩ := needs
  exact (Array.getElem?_eq_some_iff.mp isLevel).1

/-! ## Upper bounds of what is found -/

variable {best bound : Nat}

theorem highestAbove_le_iff {s : Subject} {count : Nat} :
    highestAbove levels s best count ≤ bound ↔
      best ≤ bound ∧ ∀ place < count, NeedsPlace levels s place → place < bound := by
  induction count with
  | zero => simp [highestAbove]
  | succ count inductionHypothesis =>
    rw [Nat.forall_lt_succ_right, highestAbove]
    split
    · next low =>
      -- None of the levels that are left is above the best one.
      refine ⟨fun atMost => ⟨atMost, fun place _ _ => ?_, fun _ => ?_⟩, And.left⟩ <;> omega
    · next high =>
      split
      · next level isLevel =>
        split
        · next occurs =>
          have needs : NeedsPlace levels s count := ⟨level, isLevel, occurs⟩
          refine ⟨fun atMost => ⟨?_, fun place _ _ => ?_, fun _ => ?_⟩, fun all => all.2.2 needs⟩
            <;> omega
        · next absent => simp [inductionHypothesis, NeedsPlace, isLevel, absent]
      · next noLevel => simp [inductionHypothesis, NeedsPlace, noLevel]

theorem raiseLevel_le_iff {source : Text} :
    raiseLevel levels best source ≤ bound ↔
      best ≤ bound ∧ ∀ place, NeedsPlace levels (Subject.ofText source) place → place < bound := by
  rw [raiseLevel, highestAbove_le_iff]
  constructor
  · exact fun ⟨atMost, all⟩ => ⟨atMost, fun place needs => all place needs.lt_size needs⟩
  · exact fun ⟨atMost, all⟩ => ⟨atMost, fun place _ needs => all place needs⟩

/-- The first source raises the level, and the other sources raise the raised one. -/
theorem foldl_raiseLevel_le_iff :
    sources.foldl (raiseLevel levels) best ≤ bound ↔
      best ≤ bound ∧ ∀ source ∈ sources, ∀ place,
        NeedsPlace levels (Subject.ofText source) place → place < bound := by
  induction sources generalizing best with
  | nil => simp
  | cons source rest inductionHypothesis =>
    rw [List.foldl_cons, inductionHypothesis, raiseLevel_le_iff, List.forall_mem_cons, and_assoc]

theorem highestLevel_le_iff :
    highestLevel levels sources ≤ bound ↔ ∀ place ∈ placesNeeded levels sources, place < bound := by
  rw [highestLevel, foldl_raiseLevel_le_iff]
  simp only [Nat.zero_le, true_and, mem_placesNeeded]
  exact ⟨fun all place ⟨source, given, needs⟩ => all source given place needs,
    fun all source given place needs => all place ⟨source, given, needs⟩⟩

/-- Above the last level there is none to be raised to. -/
theorem foldl_raiseLevel_size :
    sources.foldl (raiseLevel levels) levels.size = levels.size := by
  refine Nat.le_antisymm ?_ (foldl_raiseLevel_le_iff.mp (Nat.le_refl _)).1
  exact foldl_raiseLevel_le_iff.mpr ⟨Nat.le_refl _, fun _ _ _ needs => needs.lt_size⟩

theorem highestLevelUntilLast_eq :
    highestLevelUntilLast levels best sources = sources.foldl (raiseLevel levels) best := by
  induction sources generalizing best with
  | nil => rfl
  | cons source rest inductionHypothesis =>
    rw [highestLevelUntilLast, List.foldl_cons]
    split
    · next isLast => rw [eq_of_beq isLast, foldl_raiseLevel_size]
    · exact inductionHypothesis

/-! ## The highest level -/

/-- The number that is found is one more than the place of the highest level needed. -/
theorem labelOf?_highestLevel :
    labelOf? levels (highestLevel levels sources)
      = (highestNeeded? levels sources).map LanguageLevel.label := by
  unfold highestNeeded?
  cases highest : (placesNeeded levels sources).max? with
  | none =>
    have nothing : placesNeeded levels sources = [] := List.max?_eq_none_iff.mp highest
    have number : highestLevel levels sources = 0 := by
      refine Nat.le_zero.mp (highestLevel_le_iff.mpr ?_)
      simp [nothing]
    rw [number]
    rfl
  | some place =>
    obtain ⟨needed, greatest⟩ := List.max?_eq_some_iff.mp highest
    have number : highestLevel levels sources = place + 1 := by
      refine Nat.le_antisymm (highestLevel_le_iff.mpr fun other also => ?_) ?_
      · exact Nat.lt_succ_of_le (greatest other also)
      · exact highestLevel_le_iff.mp (Nat.le_refl _) place needed
    rw [number]
    rfl

/-- What sources need together does not depend on their order, nor on how often each is given. -/
theorem highestLevel_congr {others : List Text} (same : ∀ source, source ∈ others ↔ source ∈ sources) :
    highestLevel levels others = highestLevel levels sources := by
  refine eq_of_forall_ge_iff fun bound => ?_
  simp only [highestLevel_le_iff, mem_placesNeeded, same]

/-- A version is that of the highest level needed by any source, whatever their order and however often
each is given. -/
theorem versions_are_highest_needed (sources : List Text) :
    ecmaScriptVersion sources = (highestNeeded? ecmaScriptLevels sources).map (·.label)
      ∧ phpVersion sources = (if sources = [] then none
          else some (">=" ++ ((highestNeeded? phpLevels sources).map (·.label)).getD "5.6"))
      ∧ ∀ others : List Text, (∀ source, source ∈ others ↔ source ∈ sources) →
          ecmaScriptVersion others = ecmaScriptVersion sources
            ∧ phpVersion others = phpVersion sources := by
  refine ⟨?_, ?_, fun others same => ⟨?_, ?_⟩⟩
  · rw [ecmaScriptVersion, highestLevelUntilLast_eq]
    exact labelOf?_highestLevel
  · simp only [phpVersion, List.isEmpty_iff, labelOf?_highestLevel, phpBaseline]
  · simp only [ecmaScriptVersion, highestLevelUntilLast_eq]
    rw [← highestLevel, ← highestLevel, highestLevel_congr same]
  · have noneGiven : others.isEmpty = sources.isEmpty := by
      rw [Bool.eq_iff_iff, List.isEmpty_iff, List.isEmpty_iff, List.eq_nil_iff_forall_not_mem,
        List.eq_nil_iff_forall_not_mem]
      exact forall_congr' fun source => not_congr (same source)
    rw [phpVersion, phpVersion, noneGiven, highestLevel_congr same]

/-- Two scripts, the later of which needs the newer edition. -/
def twoEditions : List Text := [Text.ofString "const a = 1", Text.ofString "await b"]

theorem twoEditions_reversed :
    (∀ source, source ∈ twoEditions.reverse ↔ source ∈ twoEditions)
      ∧ ecmaScriptVersion twoEditions.reverse = some "ES2017" := by
  have same : ∀ source, source ∈ twoEditions.reverse ↔ source ∈ twoEditions :=
    fun source => List.mem_reverse
  have found : ecmaScriptVersion twoEditions = some "ES2017" := by decide
  obtain ⟨-, -, sameForAll⟩ := versions_are_highest_needed twoEditions
  exact ⟨same, (sameForAll twoEditions.reverse same).1.trans found⟩

end Surveyor
