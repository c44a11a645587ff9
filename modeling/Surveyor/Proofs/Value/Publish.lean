import Surveyor.Proofs.Value.Merge

/-! # Publishing and merging

Publishing drops internal keys and everything below them. It commutes with merging
(`merge_publishEntries`): a value under an internal key can neither reach a published one nor hide it,
whether mappings are merged, replace something or are replaced. And it drops nothing else: what a path
leads to in a published value is what it led to before, published, unless the path passes an internal
key (`at?_publish`).

The one place where the two could part are sets, which merging turns into lists and publishing leaves
alone; they hold scalars, in which there is nothing to drop.
-/

namespace Surveyor

namespace Value

def isScalar : Value → Bool
  | .null | .bool _ | .int _ | .float _ | .str _ => true
  | _ => false

mutual

def hasScalarSets : Value → Bool
  | .set items => items.all isScalar
  | .list items | .tuple items => haveScalarSets items
  | .map entries | .view entries => entriesHaveScalarSets entries
  | _ => true

def haveScalarSets : List Value → Bool
  | [] => true
  | item :: rest => hasScalarSets item && haveScalarSets rest

def entriesHaveScalarSets : List (String × Value) → Bool
  | [] => true
  | (_, value) :: rest => hasScalarSets value && entriesHaveScalarSets rest

end

/-! ## Published fields and members -/

theorem publishItems_eq_map (items : List Value) : publishItems items = items.map publish := by
  induction items with
  | nil => rfl
  | cons item rest inductionHypothesis => rw [publishItems, inductionHypothesis, List.map_cons]

theorem lookup_publishEntries (entries : Entries) (key : String) :
    (publishEntries entries).lookup key =
      if isInternalKey key then none else (entries.lookup key).map publish := by
  induction entries with
  | nil => simp [publishEntries]
  | cons entry rest inductionHypothesis =>
    obtain ⟨name, value⟩ := entry
    rw [publishEntries, List.lookup_cons]
    by_cases same : key = name
    · subst same
      by_cases hidden : isInternalKey key = true
      · simpa [hidden] using inductionHypothesis
      · simp [hidden]
    · have different : (key == name) = false := by simpa using same
      split
      · rw [inductionHypothesis, different]
      · rw [List.lookup_cons, different, inductionHypothesis]

theorem publishEntries_insert_internal {key : String} (hidden : isInternalKey key = true)
    (value : Value) (entries : Entries) :
    publishEntries (entries.insert key value) = publishEntries entries := by
  induction entries with
  | nil => simp [Entries.insert, publishEntries, hidden]
  | cons entry rest inductionHypothesis =>
    obtain ⟨name, present⟩ := entry
    by_cases same : name = key
    · subst same
      simp [Entries.insert, publishEntries, hidden]
    · rw [Entries.insert_cons_of_ne same, publishEntries, publishEntries, inductionHypothesis]

theorem publishEntries_insert {key : String} (shown : isInternalKey key = false)
    (value : Value) (entries : Entries) :
    publishEntries (entries.insert key value)
      = (publishEntries entries).insert key value.publish := by
  induction entries with
  | nil => simp [Entries.insert, publishEntries, shown]
  | cons entry rest inductionHypothesis =>
    obtain ⟨name, present⟩ := entry
    by_cases same : name = key
    · subst same
      simp [Entries.insert, publishEntries, shown]
    · rw [Entries.insert_cons_of_ne same, publishEntries, publishEntries, inductionHypothesis]
      split
      · rfl
      · rw [Entries.insert_cons_of_ne same]

/-! ## Sets -/

theorem plainForm_of_isScalar {v : Value} (scalar : v.isScalar = true) : v.plainForm = v := by
  cases v <;> simp [isScalar] at scalar <;> rfl

theorem publish_of_isScalar {v : Value} (scalar : v.isScalar = true) : v.publish = v := by
  cases v <;> simp [isScalar] at scalar <;> rfl

theorem plainItems_eq_map (items : List Value) : plainItems items = items.map plainForm := by
  induction items with
  | nil => rfl
  | cons item rest inductionHypothesis => rw [plainItems, inductionHypothesis, List.map_cons]

theorem plainItems_of_scalars {items : List Value} (scalars : ∀ item ∈ items, item.isScalar = true) :
    plainItems items = items := by
  rw [plainItems_eq_map, List.map_congr_left fun item member => plainForm_of_isScalar (scalars item member),
    List.map_id']

/-- The list that a set of scalars turns into is published as it is. -/
theorem publishItems_inOrder {items : List Value} (scalars : items.all isScalar = true) :
    publishItems (inOrder (plainItems items)) = inOrder (plainItems items) := by
  rw [List.all_eq_true] at scalars
  have published : ∀ item ∈ inOrder items, item.publish = item := fun item member =>
    publish_of_isScalar (scalars item (List.mem_mergeSort.mp member))
  rw [publishItems_eq_map, plainItems_of_scalars scalars, List.map_congr_left published, List.map_id']

/-! ## Publishing commutes with merging -/

mutual

theorem publish_plainForm {v : Value} (sets : v.hasScalarSets = true) :
    v.plainForm.publish = v.publish.plainForm := by
  cases v with
  | null | bool _ | int _ | float _ | str _ => rfl
  | list items | tuple items =>
    simp only [hasScalarSets] at sets
    simp only [plainForm, publish, publishItems_plainItems sets]
  | set items =>
    simp only [hasScalarSets] at sets
    simp only [plainForm, publish, publishItems_inOrder sets]
  | map entries | view entries =>
    simp only [hasScalarSets] at sets
    simp only [plainForm, publish, publishEntries_plainEntries sets]
termination_by structural v

theorem publishItems_plainItems {items : List Value} (sets : haveScalarSets items = true) :
    publishItems (plainItems items) = plainItems (publishItems items) := by
  cases items with
  | nil => rfl
  | cons item rest =>
    simp only [haveScalarSets, Bool.and_eq_true] at sets
    simp only [plainItems, publishItems, publish_plainForm sets.1, publishItems_plainItems sets.2]
termination_by structural items

theorem publishEntries_plainEntries {entries : List (String × Value)}
    (sets : entriesHaveScalarSets entries = true) :
    publishEntries (plainEntries entries) = plainEntries (publishEntries entries) := by
  match entries with
  | [] => rfl
  | (key, value) :: rest =>
    simp only [entriesHaveScalarSets, Bool.and_eq_true] at sets
    simp only [plainEntries, publishEntries, publish_plainForm sets.1, publishEntries_plainEntries sets.2]
    split <;> rfl
termination_by structural entries

end

mutual

theorem publish_overlayInto (present : Option Value) {v : Value} (sets : v.hasScalarSets = true) :
    (overlayInto present v).publish = overlayInto (present.map publish) v.publish := by
  cases v with
  | map delta | view delta =>
    simp only [hasScalarSets] at sets
    simp only [overlayInto, publish]
    cases present with
    | none => simp only [publish, publishEntries_plainEntries sets, Option.map_none]
    | some target =>
      cases target with
      | map target | view target =>
        simp only [publish, publishEntries_overlayEntries target sets, Option.map_some]
      | null | bool _ | int _ | float _ | str _ | list _ | tuple _ | set _ =>
        simp only [publish, publishEntries_plainEntries sets, Option.map_some]
  | null | bool _ | int _ | float _ | str _ => rfl
  | list items | tuple items | set items =>
    simp only [overlayInto, publish_plainForm sets]
    rfl
termination_by structural v

theorem publishEntries_overlayEntries (target : Entries) {delta : List (String × Value)}
    (sets : entriesHaveScalarSets delta = true) :
    publishEntries (overlayEntries target delta)
      = overlayEntries (publishEntries target) (publishEntries delta) := by
  match delta with
  | [] => rfl
  | (key, value) :: rest =>
    simp only [entriesHaveScalarSets, Bool.and_eq_true] at sets
    rw [overlayEntries, publishEntries_overlayEntries _ sets.2, publishEntries]
    by_cases hidden : isInternalKey key = true
    · rw [publishEntries_insert_internal hidden, if_pos hidden]
    · rw [Bool.not_eq_true] at hidden
      rw [publishEntries_insert hidden, publish_overlayInto _ sets.1, if_neg (by simp [hidden]),
        overlayEntries, lookup_publishEntries, if_neg (by simp [hidden])]
termination_by structural delta

end

mutual

/-- Publishing leaves sets alone or drops them. -/
theorem hasOrderedSets_publish {v : Value} (ordered : v.hasOrderedSets = true) :
    v.publish.hasOrderedSets = true := by
  cases v with
  | null | bool _ | int _ | float _ | str _ | set _ => exact ordered
  | list items | tuple items => exact haveOrderedSets_publishItems ordered
  | map entries | view entries => exact entriesHaveOrderedSets_publishEntries ordered
termination_by structural v

theorem haveOrderedSets_publishItems {items : List Value} (ordered : haveOrderedSets items = true) :
    haveOrderedSets (publishItems items) = true := by
  cases items with
  | nil => rfl
  | cons item rest =>
    simp only [haveOrderedSets, Bool.and_eq_true] at ordered
    simp only [publishItems, haveOrderedSets, hasOrderedSets_publish ordered.1,
      haveOrderedSets_publishItems ordered.2, Bool.and_self]
termination_by structural items

theorem entriesHaveOrderedSets_publishEntries {entries : List (String × Value)}
    (ordered : entriesHaveOrderedSets entries = true) :
    entriesHaveOrderedSets (publishEntries entries) = true := by
  match entries with
  | [] => rfl
  | (key, value) :: rest =>
    simp only [entriesHaveOrderedSets, Bool.and_eq_true] at ordered
    have later := entriesHaveOrderedSets_publishEntries ordered.2
    rw [publishEntries]
    split
    · exact later
    · simp only [entriesHaveOrderedSets, hasOrderedSets_publish ordered.1, later, Bool.and_self]
termination_by structural entries

end

/-- What a delta can be merged into, it can be merged into before publishing and after. -/
theorem merge_publishEntries {target delta merged : Entries}
    (sets : (Value.map delta).hasScalarSets = true) (merges : target.merge delta = .ok merged) :
    Entries.merge (publishEntries target) (publishEntries delta) = .ok (publishEntries merged) := by
  obtain ⟨ordered, rfl⟩ := Entries.merge_eq_ok_iff.mp merges
  exact Entries.merge_eq_ok_iff.mpr ⟨entriesHaveOrderedSets_publishEntries ordered,
    (publishEntries_overlayEntries target sets).symm⟩

/-! ## Paths -/

/-- Where to go from a value: to the value of a key, or to a member of a sequence. -/
inductive Turn where
  | key (name : String)
  | member (index : Nat)
  deriving DecidableEq, Repr

def Turn.isInternal : Turn → Bool
  | .key name => isInternalKey name
  | .member _ => false

def turn? (v : Value) : Turn → Option Value
  | .key name => v.get? name
  | .member index => v.items[index]?

def at? (v : Value) : List Turn → Option Value
  | [] => some v
  | turn :: rest => (v.turn? turn).bind (at? · rest)

theorem turn?_publish (v : Value) (turn : Turn) :
    v.publish.turn? turn = if turn.isInternal then none else (v.turn? turn).map publish := by
  cases turn with
  | key name =>
    cases v with
    | map entries | view entries => exact lookup_publishEntries entries name
    | null | bool _ | int _ | float _ | str _ | list _ | tuple _ | set _ =>
      simp [turn?, get?, publish]
  | member index =>
    cases v with
    | list items | tuple items =>
      simp [turn?, publish, Value.items, publishItems_eq_map, Turn.isInternal]
    | null | bool _ | int _ | float _ | str _ | map _ | view _ | set _ =>
      simp [turn?, publish, Value.items, Turn.isInternal]

theorem at?_publish (v : Value) (path : List Turn) :
    v.publish.at? path = if path.any Turn.isInternal then none else (v.at? path).map publish := by
  induction path generalizing v with
  | nil => rfl
  | cons turn rest inductionHypothesis =>
    rw [at?, turn?_publish, List.any_cons]
    cases turn.isInternal with
    | true => rfl
    | false =>
      cases reached : v.turn? turn with
      | none => simp [at?, reached]
      | some next => simpa [at?, reached] using inductionHypothesis next

theorem at?_append (v : Value) (path further : List Turn) :
    v.at? (path ++ further) = (v.at? path).bind (at? · further) := by
  induction path generalizing v with
  | nil => rfl
  | cons turn rest inductionHypothesis =>
    simp only [List.cons_append, at?, Option.bind_assoc, inductionHypothesis]

/-- No mapping inside a published value has an internal key. -/
theorem shown_of_at?_publish {v found : Value} {path : List Turn} {key : String}
    (reached : v.publish.at? path = some found) (present : (found.get? key).isSome = true) :
    isInternalKey key = false := by
  cases shown : isInternalKey key with
  | false => rfl
  | true =>
    have further := at?_publish v (path ++ [Turn.key key])
    have hidden : (path ++ [Turn.key key]).any Turn.isInternal = true := by
      simp [Turn.isInternal, shown]
    rw [at?_append, reached, hidden] at further
    simp only [Option.bind_some, at?, turn?, ↓reduceIte, Option.bind_eq_none_iff, reduceCtorEq,
      imp_false] at further
    obtain ⟨field, here⟩ := Option.isSome_iff_exists.mp present
    exact absurd here (further field)

end Value

end Surveyor
