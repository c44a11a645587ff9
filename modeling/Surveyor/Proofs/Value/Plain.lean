import Surveyor.Proofs.Value.Publish

/-! # Values that leave as they are

A plain value has nothing frozen in it and no sets, so thawing does not change it. Publishing does not
change a plain value exactly if no mapping in it, at any depth, has an internal key
(`publish_eq_self_iff`). Whatever is merged into a plain mapping, it stays plain
(`isPlain_overlayEntries`).
-/

namespace Surveyor

namespace Value

mutual

/-- Made of scalars, lists and mappings, none of them frozen. -/
def isPlain : Value → Bool
  | .list items => arePlain items
  | .map entries => entriesArePlain entries
  | .tuple _ | .set _ | .view _ => false
  | _ => true

def arePlain : List Value → Bool
  | [] => true
  | item :: rest => isPlain item && arePlain rest

def entriesArePlain : List (String × Value) → Bool
  | [] => true
  | (_, value) :: rest => isPlain value && entriesArePlain rest

end

mutual

/-- No mapping in it has an internal key. -/
def isShown : Value → Bool
  | .list items | .tuple items => areShown items
  | .map entries | .view entries => entriesAreShown entries
  | _ => true

def areShown : List Value → Bool
  | [] => true
  | item :: rest => isShown item && areShown rest

def entriesAreShown : List (String × Value) → Bool
  | [] => true
  | (key, value) :: rest => !isInternalKey key && isShown value && entriesAreShown rest

end

/-! ## Lists and mappings -/

theorem isPlain_list {items : List Value} :
    (Value.list items).isPlain = true ↔ ∀ item ∈ items, item.isPlain = true := by
  rw [isPlain]
  induction items with
  | nil => simp [arePlain]
  | cons item rest inductionHypothesis => simp [arePlain, inductionHypothesis]

theorem isPlain_map {entries : Entries} :
    (Value.map entries).isPlain = true ↔ ∀ entry ∈ entries, entry.2.isPlain = true := by
  rw [isPlain]
  induction entries with
  | nil => simp [entriesArePlain]
  | cons entry rest inductionHypothesis => simp [entriesArePlain, inductionHypothesis]

theorem isShown_list {items : List Value} :
    (Value.list items).isShown = true ↔ ∀ item ∈ items, item.isShown = true := by
  rw [isShown]
  induction items with
  | nil => simp [areShown]
  | cons item rest inductionHypothesis => simp [areShown, inductionHypothesis]

theorem isShown_map {entries : Entries} :
    (Value.map entries).isShown = true
      ↔ ∀ entry ∈ entries, isInternalKey entry.1 = false ∧ entry.2.isShown = true := by
  rw [isShown]
  induction entries with
  | nil => simp [entriesAreShown]
  | cons entry rest inductionHypothesis => simp [entriesAreShown, inductionHypothesis]

/-! ## Fields of plain mappings -/

theorem isPlain_of_lookup {entries : Entries} (plain : (Value.map entries).isPlain = true)
    {key : String} {v : Value} (here : entries.lookup key = some v) : v.isPlain = true := by
  rw [isPlain_map] at plain
  obtain ⟨_, _, rfl, -⟩ := List.lookup_eq_some_iff.mp here
  exact plain (key, v) (by simp)

theorem isPlain_insert (key : String) {v : Value} {found : Entries} (plain : v.isPlain = true)
    (plainFound : (Value.map found).isPlain = true) :
    (Value.map (found.insert key v)).isPlain = true := by
  induction found with
  | nil => simpa [Entries.insert, isPlain_map] using plain
  | cons entry rest inductionHypothesis =>
    obtain ⟨name, present⟩ := entry
    have both := isPlain_map.mp plainFound
    simp only [List.forall_mem_cons] at both
    have plainRest := inductionHypothesis (isPlain_map.mpr both.2)
    rw [isPlain_map] at plainRest ⊢
    unfold Entries.insert
    split
    · simp only [List.forall_mem_cons]
      exact ⟨plain, both.2⟩
    · simp only [List.forall_mem_cons]
      exact ⟨both.1, plainRest⟩

/-! ## Thawing and publishing -/

mutual

theorem plainForm_of_isPlain {v : Value} (plain : v.isPlain = true) : v.plainForm = v := by
  cases v with
  | null | bool _ | int _ | float _ | str _ => rfl
  | list items => rw [plainForm, plainItems_of_arePlain plain]
  | map entries => rw [plainForm, plainEntries_of_arePlain plain]
  | tuple _ | set _ | view _ => cases plain
termination_by structural v

theorem plainItems_of_arePlain {items : List Value} (plain : arePlain items = true) :
    plainItems items = items := by
  cases items with
  | nil => rfl
  | cons item rest =>
    simp only [arePlain, Bool.and_eq_true] at plain
    rw [plainItems, plainForm_of_isPlain plain.1, plainItems_of_arePlain plain.2]
termination_by structural items

theorem plainEntries_of_arePlain {entries : List (String × Value)}
    (plain : entriesArePlain entries = true) : plainEntries entries = entries := by
  match entries with
  | [] => rfl
  | (key, value) :: rest =>
    simp only [entriesArePlain, Bool.and_eq_true] at plain
    rw [plainEntries, plainForm_of_isPlain plain.1, plainEntries_of_arePlain plain.2]
termination_by structural entries

end

mutual

/-- Plain values have no sets. -/
theorem hasOrderedSets_of_isPlain {v : Value} (plain : v.isPlain = true) : v.hasOrderedSets = true := by
  cases v with
  | null | bool _ | int _ | float _ | str _ => rfl
  | list items => exact haveOrderedSets_of_arePlain plain
  | map entries => exact entriesHaveOrderedSets_of_arePlain plain
  | tuple _ | set _ | view _ => cases plain
termination_by structural v

theorem haveOrderedSets_of_arePlain {items : List Value} (plain : arePlain items = true) :
    haveOrderedSets items = true := by
  cases items with
  | nil => rfl
  | cons item rest =>
    simp only [arePlain, Bool.and_eq_true] at plain
    rw [haveOrderedSets, hasOrderedSets_of_isPlain plain.1, haveOrderedSets_of_arePlain plain.2]
    rfl
termination_by structural items

theorem entriesHaveOrderedSets_of_arePlain {entries : List (String × Value)}
    (plain : entriesArePlain entries = true) : entriesHaveOrderedSets entries = true := by
  match entries with
  | [] => rfl
  | (key, value) :: rest =>
    simp only [entriesArePlain, Bool.and_eq_true] at plain
    rw [entriesHaveOrderedSets, hasOrderedSets_of_isPlain plain.1,
      entriesHaveOrderedSets_of_arePlain plain.2]
    rfl
termination_by structural entries

end

mutual

/-- Nor has the frozen form of a plain value. -/
theorem hasOrderedSets_freeze {v : Value} (plain : v.isPlain = true) :
    v.freeze.hasOrderedSets = true := by
  cases v with
  | null | bool _ | int _ | float _ | str _ => rfl
  | list items => exact haveOrderedSets_freezeItems plain
  | map entries => exact entriesHaveOrderedSets_freezeEntries plain
  | tuple _ | set _ | view _ => cases plain
termination_by structural v

theorem haveOrderedSets_freezeItems {items : List Value} (plain : arePlain items = true) :
    haveOrderedSets (freezeItems items) = true := by
  cases items with
  | nil => rfl
  | cons item rest =>
    simp only [arePlain, Bool.and_eq_true] at plain
    rw [freezeItems, haveOrderedSets, hasOrderedSets_freeze plain.1,
      haveOrderedSets_freezeItems plain.2]
    rfl
termination_by structural items

theorem entriesHaveOrderedSets_freezeEntries {entries : List (String × Value)}
    (plain : entriesArePlain entries = true) :
    entriesHaveOrderedSets (freezeEntries entries) = true := by
  match entries with
  | [] => rfl
  | (key, value) :: rest =>
    simp only [entriesArePlain, Bool.and_eq_true] at plain
    rw [freezeEntries, entriesHaveOrderedSets, hasOrderedSets_freeze plain.1,
      entriesHaveOrderedSets_freezeEntries plain.2]
    rfl
termination_by structural entries

end

mutual

theorem publish_of_isShown {v : Value} (plain : v.isPlain = true) (shown : v.isShown = true) :
    v.publish = v := by
  cases v with
  | null | bool _ | int _ | float _ | str _ => rfl
  | list items => rw [publish, publishItems_of_areShown plain shown]
  | map entries => rw [publish, publishEntries_of_areShown plain shown]
  | tuple _ | set _ | view _ => cases plain
termination_by structural v

theorem publishItems_of_areShown {items : List Value} (plain : arePlain items = true)
    (shown : areShown items = true) : publishItems items = items := by
  cases items with
  | nil => rfl
  | cons item rest =>
    simp only [arePlain, areShown, Bool.and_eq_true] at plain shown
    rw [publishItems, publish_of_isShown plain.1 shown.1, publishItems_of_areShown plain.2 shown.2]
termination_by structural items

theorem publishEntries_of_areShown {entries : List (String × Value)}
    (plain : entriesArePlain entries = true) (shown : entriesAreShown entries = true) :
    publishEntries entries = entries := by
  match entries with
  | [] => rfl
  | (key, value) :: rest =>
    simp only [entriesArePlain, entriesAreShown, Bool.and_eq_true, Bool.not_eq_true'] at plain shown
    obtain ⟨⟨shownKey, shownValue⟩, shownRest⟩ := shown
    rw [publishEntries, if_neg (by simp [shownKey]), publish_of_isShown plain.1 shownValue,
      publishEntries_of_areShown plain.2 shownRest]
termination_by structural entries

end

mutual

theorem isShown_publish (v : Value) : v.publish.isShown = true := by
  cases v with
  | null | bool _ | int _ | float _ | str _ | set _ => rfl
  | list items | tuple items => exact areShown_publishItems items
  | map entries | view entries => exact entriesAreShown_publishEntries entries
termination_by structural v

theorem areShown_publishItems (items : List Value) : areShown (publishItems items) = true := by
  cases items with
  | nil => rfl
  | cons item rest =>
    simp only [publishItems, areShown, Bool.and_eq_true]
    exact ⟨isShown_publish item, areShown_publishItems rest⟩
termination_by structural items

theorem entriesAreShown_publishEntries (entries : List (String × Value)) :
    entriesAreShown (publishEntries entries) = true := by
  match entries with
  | [] => rfl
  | (key, value) :: rest =>
    rw [publishEntries]
    split
    · exact entriesAreShown_publishEntries rest
    · next shownKey =>
      simp only [entriesAreShown, Bool.and_eq_true, Bool.not_eq_true']
      exact ⟨⟨by simpa using shownKey, isShown_publish value⟩, entriesAreShown_publishEntries rest⟩
termination_by structural entries

end

/-- Publishing keeps a plain value exactly if there is nothing to hide in it. -/
theorem publish_eq_self_iff {v : Value} (plain : v.isPlain = true) :
    v.publish = v ↔ v.isShown = true := by
  constructor
  · intro same
    rw [← same]
    exact isShown_publish v
  · exact publish_of_isShown plain

mutual

theorem isPlain_plainForm (v : Value) : v.plainForm.isPlain = true := by
  cases v with
  | null | bool _ | int _ | float _ | str _ => rfl
  | list items | tuple items => exact isPlain_list.mpr (isPlain_of_mem_plainItems items)
  | set items =>
    -- A set turns into the list of its members in order.
    apply isPlain_list.mpr
    intro item member
    exact isPlain_of_mem_plainItems items item (List.mem_mergeSort.mp member)
  | map entries | view entries => exact entriesArePlain_plainEntries entries
termination_by structural v

theorem isPlain_of_mem_plainItems (items : List Value) :
    ∀ item ∈ plainItems items, item.isPlain = true := by
  cases items with
  | nil =>
    intro item member
    cases member
  | cons item rest =>
    intro other member
    rw [plainItems] at member
    rcases List.mem_cons.mp member with rfl | later
    · exact isPlain_plainForm item
    · exact isPlain_of_mem_plainItems rest other later
termination_by structural items

theorem entriesArePlain_plainEntries (entries : List (String × Value)) :
    entriesArePlain (plainEntries entries) = true := by
  match entries with
  | [] => rfl
  | (key, value) :: rest =>
    simp only [plainEntries, entriesArePlain, Bool.and_eq_true]
    exact ⟨isPlain_plainForm value, entriesArePlain_plainEntries rest⟩
termination_by structural entries

end

/-! ## Merging -/

mutual

/-- Whatever a delta is made of, merging leaves nothing of it that is not plain. -/
theorem isPlain_overlayInto {present : Option Value}
    (plain : ∀ v, present = some v → v.isPlain = true) (v : Value) :
    (overlayInto present v).isPlain = true := by
  cases v with
  | null | bool _ | int _ | float _ | str _ => rfl
  | list items => exact isPlain_plainForm (.list items)
  | tuple items => exact isPlain_plainForm (.tuple items)
  | set items => exact isPlain_plainForm (.set items)
  | map delta | view delta =>
    unfold overlayInto
    split
    · exact isPlain_overlayEntries (plain _ rfl) delta
    · cases plain _ rfl
    · exact entriesArePlain_plainEntries delta
termination_by structural v

theorem isPlain_overlayEntries {target : Entries} (plain : (Value.map target).isPlain = true)
    (delta : List (String × Value)) : (Value.map (overlayEntries target delta)).isPlain = true := by
  match delta with
  | [] => exact plain
  | (key, value) :: rest =>
    have plainValue : (overlayInto (target.lookup key) value).isPlain = true :=
      isPlain_overlayInto (fun _ here => isPlain_of_lookup plain here) value
    rw [overlayEntries]
    exact isPlain_overlayEntries (isPlain_insert key plainValue plain) rest
termination_by structural delta

end

/-! ## Values that leave as they are -/

/-- Neither thawing nor publishing changes it. -/
structure LeavesAsIs (v : Value) : Prop where
  plain : v.isPlain = true
  shown : v.isShown = true

theorem LeavesAsIs.publish_plainForm {v : Value} (leaves : v.LeavesAsIs) : v.plainForm.publish = v := by
  rw [plainForm_of_isPlain leaves.plain, publish_of_isShown leaves.plain leaves.shown]

@[simp]
theorem leavesAsIs_null : Value.null.LeavesAsIs := ⟨rfl, rfl⟩

@[simp]
theorem leavesAsIs_bool (b : Bool) : (Value.bool b).LeavesAsIs := ⟨rfl, rfl⟩

@[simp]
theorem leavesAsIs_int (n : Int) : (Value.int n).LeavesAsIs := ⟨rfl, rfl⟩

@[simp]
theorem leavesAsIs_float (x : Float) : (Value.float x).LeavesAsIs := ⟨rfl, rfl⟩

@[simp]
theorem leavesAsIs_str (s : String) : (Value.str s).LeavesAsIs := ⟨rfl, rfl⟩

@[simp]
theorem leavesAsIs_ofNat (n : Nat) : (Value.ofNat n).LeavesAsIs := ⟨rfl, rfl⟩

@[simp]
theorem leavesAsIs_ofOption (s : Option String) : (Value.ofOption s).LeavesAsIs := by
  cases s with
  | none => exact leavesAsIs_null
  | some s => exact leavesAsIs_str s

@[simp]
theorem leavesAsIs_list {items : List Value} :
    (Value.list items).LeavesAsIs ↔ ∀ item ∈ items, item.LeavesAsIs := by
  constructor
  · intro leaves item member
    exact ⟨isPlain_list.mp leaves.plain item member, isShown_list.mp leaves.shown item member⟩
  · intro each
    exact ⟨isPlain_list.mpr fun item member => (each item member).plain,
      isShown_list.mpr fun item member => (each item member).shown⟩

@[simp]
theorem leavesAsIs_map {entries : Entries} :
    (Value.map entries).LeavesAsIs
      ↔ ∀ entry ∈ entries, isInternalKey entry.1 = false ∧ entry.2.LeavesAsIs := by
  constructor
  · intro leaves entry member
    have shown := isShown_map.mp leaves.shown entry member
    exact ⟨shown.1, isPlain_map.mp leaves.plain entry member, shown.2⟩
  · intro each
    exact ⟨isPlain_map.mpr fun entry member => (each entry member).2.plain,
      isShown_map.mpr fun entry member => ⟨(each entry member).1, (each entry member).2.shown⟩⟩

@[simp]
theorem leavesAsIs_strings (names : List String) : (Value.strings names).LeavesAsIs := by
  simp [strings]

end Value

end Surveyor
