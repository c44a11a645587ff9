import Surveyor.Proofs.Value.Overlay

/-! # Laws of mappings under insertion and merging

A mapping is a list of entries in the order of their keys, and a merge works through the entries of
its delta one by one. What a delta does not mention, it leaves alone: `overlay_cons_of_unmentioned`
takes an entry out of the way of a merge, and `mem_keys_overlay` bounds the keys of the outcome. What
is looked up in the outcome is told by `lookup_overlay_of_unmentioned` and `lookup_overlay_of_fresh`. A
second merge of a delta changes nothing, as long as this holds of its values (`overlay_overlay`).
-/

namespace Surveyor

namespace Entries

def keys (entries : Entries) : List String := entries.map (·.1)

@[simp]
theorem keys_nil : keys [] = [] := rfl

@[simp]
theorem keys_cons (key : String) (value : Value) (rest : Entries) :
    keys ((key, value) :: rest) = key :: keys rest := rfl

theorem insert_cons_self (key : String) (present value : Value) (rest : Entries) :
    insert key value ((key, present) :: rest) = (key, value) :: rest := by
  simp [insert]

theorem insert_cons_of_ne {other key : String} (different : other ≠ key) (present value : Value)
    (rest : Entries) :
    insert key value ((other, present) :: rest) = (other, present) :: insert key value rest := by
  simp [insert, different]

theorem mem_keys_insert {name key : String} {value : Value} {entries : Entries}
    (member : name ∈ keys (insert key value entries)) : name = key ∨ name ∈ keys entries := by
  induction entries with
  | nil => simpa [insert] using member
  | cons entry rest inductionHypothesis =>
    obtain ⟨other, present⟩ := entry
    simp only [insert] at member
    split at member
    · simp only [keys_cons, List.mem_cons] at member ⊢
      rcases member with equal | inRest
      · exact .inl equal
      · exact .inr (.inr inRest)
    · simp only [keys_cons, List.mem_cons] at member ⊢
      rcases member with equal | inRest
      · exact .inr (.inl equal)
      · rcases inductionHypothesis inRest with equal | inRest
        · exact .inl equal
        · exact .inr (.inr inRest)

theorem mem_keys_overlay {name : String} {target delta : Entries}
    (member : name ∈ keys (overlay target delta)) : name ∈ keys target ∨ name ∈ keys delta := by
  unfold overlay at member
  induction delta generalizing target with
  | nil => exact .inl (by simpa [Value.overlayEntries] using member)
  | cons entry rest inductionHypothesis =>
    obtain ⟨key, value⟩ := entry
    simp only [Value.overlayEntries] at member
    simp only [keys_cons, List.mem_cons]
    rcases inductionHypothesis member with inTarget | inRest
    · rcases mem_keys_insert inTarget with equal | inTarget
      · exact .inr (.inl equal)
      · exact .inl inTarget
    · exact .inr (.inr inRest)

/-- An entry whose key the delta does not mention stays in front of everything that is merged. -/
theorem overlay_cons_of_unmentioned {key : String} (present : Value) (target : Entries)
    {delta : Entries} (unmentioned : key ∉ keys delta) :
    overlay ((key, present) :: target) delta = (key, present) :: overlay target delta := by
  unfold overlay
  induction delta generalizing target with
  | nil => simp [Value.overlayEntries]
  | cons entry rest inductionHypothesis =>
    obtain ⟨name, value⟩ := entry
    simp only [keys_cons, List.mem_cons, not_or] at unmentioned
    obtain ⟨different, unmentionedRest⟩ := unmentioned
    have lookedUp : List.lookup name ((key, present) :: target) = List.lookup name target := by
      have unequal : (name == key) = false := by simpa using Ne.symm different
      simp [List.lookup_cons, unequal]
    simp only [Value.overlayEntries, lookedUp, insert_cons_of_ne different]
    exact inductionHypothesis _ unmentionedRest

/-! ## Looking up -/

theorem lookup_cons_of_ne {key other : String} (different : key ≠ other) (value : Value)
    (rest : Entries) : List.lookup key ((other, value) :: rest) = List.lookup key rest := by
  rw [List.lookup_cons, beq_false_of_ne different]

theorem lookup_filter (keeps : String → Bool) (entries : Entries) (key : String) :
    List.lookup key (entries.filter fun entry => keeps entry.1)
      = if keeps key then entries.lookup key else none := by
  induction entries with
  | nil => simp
  | cons entry rest inductionHypothesis =>
    obtain ⟨other, value⟩ := entry
    rw [List.filter_cons]
    by_cases same : key = other
    · subst same
      cases kept : keeps key with
      | true => simp
      | false => simpa [kept] using inductionHypothesis
    · rw [lookup_cons_of_ne same, ← inductionHypothesis]
      split
      · rw [lookup_cons_of_ne same]
      · rfl

theorem lookup_insert (key name : String) (value : Value) (entries : Entries) :
    (insert key value entries).lookup name = if name = key then some value else entries.lookup name := by
  induction entries with
  | nil =>
    by_cases same : name = key
    · simp [insert, same]
    · rw [insert, lookup_cons_of_ne same, if_neg same]
  | cons entry rest inductionHypothesis =>
    obtain ⟨other, present⟩ := entry
    by_cases here : other = key
    · subst here
      rw [insert_cons_self]
      by_cases same : name = other
      · simp [same]
      · rw [lookup_cons_of_ne same, lookup_cons_of_ne same, if_neg same]
    · rw [insert_cons_of_ne here]
      by_cases same : name = other
      · subst same
        simp [here]
      · rw [lookup_cons_of_ne same, lookup_cons_of_ne same, inductionHypothesis]

theorem lookup_overlay_of_unmentioned {key : String} (target : Entries) {delta : Entries}
    (unmentioned : key ∉ keys delta) : (overlay target delta).lookup key = target.lookup key := by
  unfold overlay
  induction delta generalizing target with
  | nil => rfl
  | cons entry rest inductionHypothesis =>
    obtain ⟨name, value⟩ := entry
    simp only [keys_cons, List.mem_cons, not_or] at unmentioned
    rw [Value.overlayEntries, inductionHypothesis _ unmentioned.2, lookup_insert,
      if_neg unmentioned.1]

theorem overlayInto_none (value : Value) : Value.overlayInto none value = value.plainForm := by
  cases value <;> rfl

/-- What a delta has under a key is merged into what is there, and nothing else touches it. -/
theorem lookup_overlay (key : String) (target : Entries) {delta : Entries} (once : (keys delta).Nodup) :
    (overlay target delta).lookup key = match delta.lookup key with
      | some value => some (Value.overlayInto (target.lookup key) value)
      | none => target.lookup key := by
  unfold overlay
  induction delta generalizing target with
  | nil => rfl
  | cons entry rest inductionHypothesis =>
    obtain ⟨name, value⟩ := entry
    rw [keys_cons, List.nodup_cons] at once
    rw [Value.overlayEntries]
    by_cases same : key = name
    · subst same
      have unmentioned := lookup_overlay_of_unmentioned
        (target.insert key (Value.overlayInto (target.lookup key) value)) once.1
      unfold overlay at unmentioned
      rw [unmentioned, lookup_insert]
      simp
    · rw [inductionHypothesis (target.insert name _) once.2, lookup_cons_of_ne same, lookup_insert,
        if_neg same]

/-- What stands under a key that is not there yet is entered in its plain form. -/
theorem lookup_overlay_of_fresh {key : String} {target delta : Entries}
    (fresh : target.lookup key = none) (once : (keys delta).Nodup) :
    (overlay target delta).lookup key = (delta.lookup key).map Value.plainForm := by
  rw [lookup_overlay key target once, fresh]
  cases delta.lookup key with
  | none => rfl
  | some value => exact congrArg some (overlayInto_none value)

/-! ## Merging twice -/

theorem insert_of_lookup {entries : Entries} {key : String} {value : Value}
    (here : entries.lookup key = some value) : entries.insert key value = entries := by
  induction entries with
  | nil => cases here
  | cons entry rest inductionHypothesis =>
    obtain ⟨name, present⟩ := entry
    by_cases same : name = key
    · subst same
      obtain rfl : present = value := by simpa using here
      exact insert_cons_self name present present rest
    · rw [lookup_cons_of_ne (Ne.symm same)] at here
      rw [insert_cons_of_ne same, inductionHypothesis here]

theorem insert_of_fresh {entries : Entries} {key : String} (fresh : key ∉ keys entries)
    (value : Value) : entries.insert key value = entries ++ [(key, value)] := by
  induction entries with
  | nil => rfl
  | cons entry rest inductionHypothesis =>
    obtain ⟨name, present⟩ := entry
    rw [keys_cons, List.mem_cons, not_or] at fresh
    rw [insert_cons_of_ne (Ne.symm fresh.1), inductionHypothesis fresh.2, List.cons_append]

theorem lookup_of_fresh {entries : Entries} {key : String} (fresh : key ∉ keys entries) :
    entries.lookup key = none := by
  refine List.lookup_eq_none_iff.mpr fun entry member => ?_
  rw [bne_iff_ne]
  rintro rfl
  exact fresh (List.mem_map.mpr ⟨entry, member, rfl⟩)

/-- Keys that are all new are entered behind what is there. -/
theorem overlay_of_fresh {target delta : Entries} (once : (keys delta).Nodup)
    (fresh : ∀ key ∈ keys delta, key ∉ keys target) :
    overlay target delta = target ++ Value.plainEntries delta := by
  unfold overlay
  induction delta generalizing target with
  | nil => rw [Value.overlayEntries, Value.plainEntries, List.append_nil]
  | cons entry rest inductionHypothesis =>
    obtain ⟨key, value⟩ := entry
    rw [keys_cons, List.nodup_cons] at once
    have freshKey := fresh key List.mem_cons_self
    rw [Value.overlayEntries, lookup_of_fresh freshKey, overlayInto_none, insert_of_fresh freshKey,
      inductionHypothesis once.2, Value.plainEntries, List.append_assoc, List.singleton_append]
    intro name inRest inLonger
    rw [keys, List.map_append, List.mem_append] at inLonger
    rcases inLonger with before | last
    · exact fresh name (List.mem_cons_of_mem _ inRest) before
    · obtain rfl : name = key := List.mem_singleton.mp last
      exact once.1 inRest

/-- A delta changes nothing if all of it has been merged into what is there. -/
theorem overlay_of_absorbed {target delta : Entries}
    (absorbed : ∀ key value, (key, value) ∈ delta → ∃ present, target.lookup key = some present
      ∧ Value.overlayInto (some present) value = present) : overlay target delta = target := by
  unfold overlay
  induction delta with
  | nil => rfl
  | cons entry rest inductionHypothesis =>
    obtain ⟨key, value⟩ := entry
    obtain ⟨present, here, unchanged⟩ := absorbed key value List.mem_cons_self
    rw [Value.overlayEntries, here, unchanged, insert_of_lookup here]
    exact inductionHypothesis fun name other member =>
      absorbed name other (List.mem_cons_of_mem _ member)

theorem lookup_of_mem {entries : Entries} (once : (keys entries).Nodup) {key : String}
    {value : Value} (member : (key, value) ∈ entries) : entries.lookup key = some value := by
  induction entries with
  | nil => cases member
  | cons entry rest inductionHypothesis =>
    obtain ⟨name, present⟩ := entry
    rw [keys_cons, List.nodup_cons] at once
    rcases List.mem_cons.mp member with same | later
    · cases same
      exact List.lookup_cons_self
    · have different : key ≠ name := by
        rintro rfl
        exact once.1 (List.mem_map.mpr ⟨_, later, rfl⟩)
      rw [lookup_cons_of_ne different, inductionHypothesis once.2 later]

/-- A second merge of a delta changes nothing if none of its values does. -/
theorem overlay_overlay {delta : Entries} (once : (keys delta).Nodup)
    (settles : ∀ entry ∈ delta, ∀ present,
      Value.overlayInto (some (Value.overlayInto present entry.2)) entry.2
        = Value.overlayInto present entry.2)
    (target : Entries) : overlay (overlay target delta) delta = overlay target delta := by
  refine overlay_of_absorbed fun key value member => ?_
  refine ⟨Value.overlayInto (target.lookup key) value, ?_, settles (key, value) member _⟩
  rw [lookup_overlay key target once, lookup_of_mem once member]

end Entries

end Surveyor
