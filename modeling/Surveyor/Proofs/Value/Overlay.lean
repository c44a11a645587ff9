import Surveyor.Proofs.Value.Fault
import Surveyor.Value.Merge

/-! # Merging where nothing is at fault

Thawing and merging fail on a set whose members have no order, and for no other reason. So both come
apart: whether they succeed is told by the value that is thawed or merged alone (`hasOrderedSets`), and
what they then give is a total function of it, `Value.plainForm` and `Entries.overlay`. The theorems
`thaw_eq_ok_iff` and `Entries.merge_eq_ok_iff` put the two together again; later proofs work on the total
functions, whose laws hold whatever the sets are.
-/

namespace Surveyor

namespace Value

mutual

/-- The value that thawing gives. -/
def plainForm : Value → Value
  | .list items => .list (plainItems items)
  | .tuple items => .list (plainItems items)
  | .set items => .list (inOrder (plainItems items))
  | .map entries | .view entries => .map (plainEntries entries)
  | scalar => scalar

def plainItems : List Value → List Value
  | [] => []
  | item :: rest => plainForm item :: plainItems rest

def plainEntries : List (String × Value) → Entries
  | [] => []
  | (key, value) :: rest => (key, plainForm value) :: plainEntries rest

end

mutual

def overlayInto (present : Option Value) : Value → Value
  | .map delta | .view delta =>
    match present with
    | some (.map target) | some (.view target) => .map (overlayEntries target delta)
    | _ => .map (plainEntries delta)
  | other => plainForm other

def overlayEntries (target : Entries) : List (String × Value) → Entries
  | [] => target
  | (key, value) :: rest =>
    overlayEntries (target.insert key (overlayInto (target.lookup key) value)) rest

end

/-! ## When nothing is at fault -/

/-- Has each value an order with all that come after it? -/
def areOrdered : List Value → Bool
  | [] => true
  | item :: rest => rest.all (fun other => (isBefore? item other).isSome) && areOrdered rest

mutual

/-- Do the members of every set in a value have an order? -/
def hasOrderedSets : Value → Bool
  | .list items | .tuple items => haveOrderedSets items
  | .set items => haveOrderedSets items && areOrdered (plainItems items)
  | .map entries | .view entries => entriesHaveOrderedSets entries
  | _ => true

def haveOrderedSets : List Value → Bool
  | [] => true
  | item :: rest => hasOrderedSets item && haveOrderedSets rest

def entriesHaveOrderedSets : List (String × Value) → Bool
  | [] => true
  | (_, value) :: rest => hasOrderedSets value && entriesHaveOrderedSets rest

end

theorem haveOrderedSets_iff {items : List Value} :
    haveOrderedSets items = true ↔ ∀ item ∈ items, item.hasOrderedSets = true := by
  induction items with
  | nil => simp [haveOrderedSets]
  | cons item rest inductionHypothesis => simp [haveOrderedSets, inductionHypothesis]

theorem entriesHaveOrderedSets_iff {entries : Entries} :
    entriesHaveOrderedSets entries = true ↔ ∀ entry ∈ entries, entry.2.hasOrderedSets = true := by
  induction entries with
  | nil => simp [entriesHaveOrderedSets]
  | cons entry rest inductionHypothesis => simp [entriesHaveOrderedSets, inductionHypothesis]

theorem comesBefore_eq_ok_iff {a b : Value} {answer : Bool} :
    comesBefore a b = .ok answer ↔ isBefore? a b = some answer := by
  unfold comesBefore
  cases isBefore? a b <;> simp

theorem exists_comesBefore_all_iff {item : Value} {others : List Value} :
    (∃ answers, others.mapM (comesBefore item) = .ok answers)
      ↔ others.all (fun other => (isBefore? item other).isSome) = true := by
  simp only [List.all_eq_true, Option.isSome_iff_exists]
  constructor
  · rintro ⟨answers, compared⟩ other member
    obtain ⟨answer, -, here⟩ := exists_result_of_mem compared member
    exact ⟨answer, comesBefore_eq_ok_iff.mp here⟩
  · intro each
    refine exists_mapM_eq_ok fun other member => ?_
    obtain ⟨answer, here⟩ := each other member
    exact ⟨answer, comesBefore_eq_ok_iff.mpr here⟩

theorem compareAll_eq_ok_iff {items : List Value} :
    compareAll items = .ok () ↔ areOrdered items = true := by
  induction items with
  | nil => simp [compareAll, areOrdered]
  | cons item rest inductionHypothesis =>
    rw [compareAll, bind_eq_ok, areOrdered, Bool.and_eq_true, ← inductionHypothesis,
      ← exists_comesBefore_all_iff, exists_and_right]

theorem ascending_eq_ok_iff {items sorted : List Value} :
    ascending items = .ok sorted ↔ areOrdered items = true ∧ inOrder items = sorted := by
  simp only [ascending, bind_eq_ok, pure_eq_ok, ← compareAll_eq_ok_iff]
  exact ⟨fun ⟨_, compared⟩ => compared, fun compared => ⟨(), compared⟩⟩

mutual

theorem thaw_eq_ok_iff {v plain : Value} :
    v.thaw = .ok plain ↔ v.hasOrderedSets = true ∧ v.plainForm = plain := by
  cases v with
  | null | bool _ | int _ | float _ | str _ => simp [thaw, hasOrderedSets, plainForm]
  | list items | tuple items =>
    simp only [thaw, bind_eq_ok, pure_eq_ok, thawItems_eq_ok_iff, hasOrderedSets, plainForm]
    simp only [and_assoc, exists_and_left, exists_eq_left']
  | set items =>
    simp only [thaw, bind_eq_ok, pure_eq_ok, thawItems_eq_ok_iff, ascending_eq_ok_iff,
      hasOrderedSets, plainForm, Bool.and_eq_true]
    simp [and_assoc]
  | map entries | view entries =>
    simp only [thaw, bind_eq_ok, pure_eq_ok, thawEntries_eq_ok_iff, hasOrderedSets, plainForm]
    simp only [and_assoc, exists_and_left, exists_eq_left']
termination_by structural v

theorem thawItems_eq_ok_iff {items plain : List Value} :
    thawItems items = .ok plain ↔ haveOrderedSets items = true ∧ plainItems items = plain := by
  cases items with
  | nil => simp [thawItems, haveOrderedSets, plainItems]
  | cons item rest =>
    simp only [thawItems, bind_eq_ok, pure_eq_ok, thaw_eq_ok_iff, thawItems_eq_ok_iff,
      haveOrderedSets, plainItems, Bool.and_eq_true]
    simp [and_assoc]
termination_by structural items

theorem thawEntries_eq_ok_iff {entries : List (String × Value)} {plain : Entries} :
    thawEntries entries = .ok plain
      ↔ entriesHaveOrderedSets entries = true ∧ plainEntries entries = plain := by
  match entries with
  | [] => simp [thawEntries, entriesHaveOrderedSets, plainEntries]
  | (key, value) :: rest =>
    simp only [thawEntries, bind_eq_ok, pure_eq_ok, thaw_eq_ok_iff, thawEntries_eq_ok_iff,
      entriesHaveOrderedSets, plainEntries, Bool.and_eq_true]
    simp [and_assoc]
termination_by structural entries

end

mutual

theorem mergeInto_eq_ok_iff {present : Option Value} {v merged : Value} :
    mergeInto present v = .ok merged ↔ v.hasOrderedSets = true ∧ overlayInto present v = merged := by
  cases v with
  | null | bool _ | int _ | float _ | str _ | list _ | tuple _ | set _ => exact thaw_eq_ok_iff
  | map delta | view delta =>
    simp only [mergeInto, overlayInto, hasOrderedSets]
    -- A mapping is merged into a mapping; in the place of anything else it is thawed.
    split
    · simp only [bind_eq_ok, pure_eq_ok, mergeEntries_eq_ok_iff]
      simp only [and_assoc, exists_and_left, exists_eq_left']
    · simp only [bind_eq_ok, pure_eq_ok, mergeEntries_eq_ok_iff]
      simp only [and_assoc, exists_and_left, exists_eq_left']
    · simp only [bind_eq_ok, pure_eq_ok, thawEntries_eq_ok_iff]
      simp only [and_assoc, exists_and_left, exists_eq_left']
termination_by structural v

theorem mergeEntries_eq_ok_iff {target merged : Entries} {delta : List (String × Value)} :
    mergeEntries target delta = .ok merged
      ↔ entriesHaveOrderedSets delta = true ∧ overlayEntries target delta = merged := by
  match delta with
  | [] => simp [mergeEntries, entriesHaveOrderedSets, overlayEntries]
  | (key, value) :: rest =>
    simp only [mergeEntries, bind_eq_ok, mergeInto_eq_ok_iff, mergeEntries_eq_ok_iff,
      entriesHaveOrderedSets, overlayEntries, Bool.and_eq_true]
    simp [and_assoc]
termination_by structural delta

end

end Value

namespace Entries

/-- The mapping that merging a delta gives. -/
def overlay (target delta : Entries) : Entries := Value.overlayEntries target delta

variable {target delta merged : Entries}

theorem merge_eq_ok_iff :
    target.merge delta = .ok merged
      ↔ (Value.map delta).hasOrderedSets = true ∧ target.overlay delta = merged :=
  Value.mergeEntries_eq_ok_iff

theorem merge_of_ordered (ordered : (Value.map delta).hasOrderedSets = true) :
    target.merge delta = .ok (target.overlay delta) :=
  merge_eq_ok_iff.mpr ⟨ordered, rfl⟩

/-- Whether a delta can be merged does not depend on what it is merged into. -/
theorem exists_fault_of_merge (unordered : (Value.map delta).hasOrderedSets = false)
    (target : Entries) : ∃ fault, target.merge delta = .error fault := by
  cases found : target.merge delta with
  | error fault => exact ⟨fault, rfl⟩
  | ok merged =>
    rw [(merge_eq_ok_iff.mp found).1] at unordered
    cases unordered

/-- Deltas that can be merged are merged one after the other. -/
theorem foldlM_merge_of_ordered {deltas : List Entries}
    (ordered : ∀ delta ∈ deltas, (Value.map delta).hasOrderedSets = true) (base : Entries) :
    deltas.foldlM merge base = .ok (deltas.foldl overlay base) := by
  induction deltas generalizing base with
  | nil => rfl
  | cons delta rest inductionHypothesis =>
    rw [List.forall_mem_cons] at ordered
    rw [List.foldlM_cons, merge_of_ordered ordered.1, List.foldl_cons,
      ← inductionHypothesis ordered.2]
    rfl

end Entries

end Surveyor
