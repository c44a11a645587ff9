import Surveyor.Proofs.Value.Frozen

/-! # Merging in place

A report is held in a store of lists and mappings that can be written to, and a merge writes to
them: it copies the mapping it starts from and then writes one field after the other. The copy is of
one level only: fields that the delta does not mention are shared with what was there. The delta is
only read.

A merge writes to no cell but those that it has made itself. So what was in the store is still there,
and the outcome holds the merged mapping (`overlayInto_makes`). The induction is over the delta; what
it carries is that nothing held so far is read from the cell that is being written to.
-/

namespace Surveyor

/-- What an item or a field refers to: a scalar, or a cell. -/
inductive Ref where
  | scalar (v : Value)
  | cell (address : Nat)

/-- A list or a mapping that can be written to. -/
inductive Cell where
  | list (items : List Ref)
  | map (fields : List (String × Ref))

abbrev Store := List Cell

namespace Store

/-- Replaces a field in place, or adds it at the end. -/
def setField (key : String) (ref : Ref) : List (String × Ref) → List (String × Ref)
  | [] => [(key, ref)]
  | (k, r) :: rest => if k == key then (key, ref) :: rest else (k, r) :: setField key ref rest

def fieldsAt (s : Store) (address : Nat) : List (String × Ref) :=
  match s[address]? with
  | some (.map fields) => fields
  | _ => []

def alloc (s : Store) (c : Cell) : Store × Ref := (s ++ [c], .cell s.length)

mutual

def build (s : Store) : Value → Store × Ref
  | .list items =>
    let (s, refs) := buildItems s items
    s.alloc (.list refs)
  | .map entries =>
    let (s, fields) := buildEntries s entries
    s.alloc (.map fields)
  | scalar => (s, .scalar scalar)

def buildItems (s : Store) : List Value → Store × List Ref
  | [] => (s, [])
  | item :: rest =>
    let (s, ref) := build s item
    let (s, refs) := buildItems s rest
    (s, ref :: refs)

def buildEntries (s : Store) : List (String × Value) → Store × List (String × Ref)
  | [] => (s, [])
  | (key, value) :: rest =>
    let (s, ref) := build s value
    let (s, fields) := buildEntries s rest
    (s, (key, ref) :: fields)

end

mutual

/-- What a value of a delta makes of what is present under its key. A mapping is merged into a copy
of the one that is there. -/
def overlayInto (s : Store) (present : Option Ref) : Value → Store × Ref
  | .map delta | .view delta =>
    match present with
    | some (.cell address) =>
      match s[address]? with
      | some (.map fields) => (writeEntries s.length (s ++ [.map fields]) delta, .cell s.length)
      | _ => s.build (.map (Value.plainEntries delta))
    | _ => s.build (.map (Value.plainEntries delta))
  | other => s.build other.plainForm

/-- Writes the entries of a delta to a mapping, one after the other. -/
def writeEntries (address : Nat) (s : Store) : List (String × Value) → Store
  | [] => s
  | (key, value) :: rest =>
    let (after, ref) := overlayInto s ((s.fieldsAt address).lookup key) value
    writeEntries address
      (after.set address (.map (setField key ref (after.fieldsAt address)))) rest

end

/-! ## Holding a value -/

section

variable (s : Store) (among : Nat → Prop)

mutual

/-- The value that a reference stands for, read from cells among the given ones. -/
inductive Holds : Ref → Value → Prop
  | scalar {v : Value} (isScalar : v.isScalar = true) : Holds (.scalar v) v
  | list {address : Nat} {refs : List Ref} {items : List Value} (own : among address)
      (there : s[address]? = some (.list refs)) (each : HoldsItems refs items) :
      Holds (.cell address) (.list items)
  | map {address : Nat} {fields : List (String × Ref)} {entries : Entries} (own : among address)
      (there : s[address]? = some (.map fields)) (each : HoldsEntries fields entries) :
      Holds (.cell address) (.map entries)

inductive HoldsItems : List Ref → List Value → Prop
  | nil : HoldsItems [] []
  | cons {ref : Ref} {item : Value} {refs : List Ref} {rest : List Value} (first : Holds ref item)
      (later : HoldsItems refs rest) : HoldsItems (ref :: refs) (item :: rest)

inductive HoldsEntries : List (String × Ref) → Entries → Prop
  | nil : HoldsEntries [] []
  | cons {key : String} {ref : Ref} {value : Value} {fields : List (String × Ref)} {rest : Entries}
      (first : Holds ref value) (later : HoldsEntries fields rest) :
      HoldsEntries ((key, ref) :: fields) ((key, value) :: rest)

end

end

/-- The cells that are read are in another store, unchanged and among others. -/
def Carries (s s' : Store) (among among' : Nat → Prop) : Prop :=
  ∀ address, among address → ∀ c, s[address]? = some c → among' address ∧ s'[address]? = some c

section

variable {s s' : Store} {among among' : Nat → Prop}

mutual

theorem Holds.carry {ref : Ref} {v : Value} (carries : Carries s s' among among')
    (holds : Holds s among ref v) : Holds s' among' ref v := by
  cases holds with
  | scalar isScalar => exact .scalar isScalar
  | list own there each =>
    obtain ⟨own', there'⟩ := carries _ own _ there
    exact .list own' there' (each.carry carries)
  | map own there each =>
    obtain ⟨own', there'⟩ := carries _ own _ there
    exact .map own' there' (each.carry carries)
termination_by structural v

theorem HoldsItems.carry {refs : List Ref} {items : List Value}
    (carries : Carries s s' among among') (holds : HoldsItems s among refs items) :
    HoldsItems s' among' refs items := by
  cases holds with
  | nil => exact .nil
  | cons first later => exact .cons (first.carry carries) (later.carry carries)
termination_by structural items

theorem HoldsEntries.carry {fields : List (String × Ref)} {entries : Entries}
    (carries : Carries s s' among among') (holds : HoldsEntries s among fields entries) :
    HoldsEntries s' among' fields entries := by
  cases holds with
  | nil => exact .nil
  | cons first later => exact .cons (first.carry carries) (later.carry carries)
termination_by structural entries

end

theorem carries_of_longer (extends_ : s <+: s') (wider : ∀ a, among a → among' a) :
    Carries s s' among among' := by
  intro address own c there
  refine ⟨wider address own, ?_⟩
  obtain ⟨more, rfl⟩ := extends_
  obtain ⟨inStore, -⟩ := List.getElem?_eq_some_iff.mp there
  rw [List.getElem?_append_left inStore, there]

theorem HoldsEntries.lookup {fields : List (String × Ref)} {entries : Entries}
    (holds : HoldsEntries s among fields entries) (key : String) :
    Option.Rel (Holds s among) (fields.lookup key) (entries.lookup key) := by
  induction entries generalizing fields with
  | nil =>
    cases holds
    exact .none
  | cons entry rest inductionHypothesis =>
    cases holds with
    | @cons name _ _ _ _ first later =>
      rw [List.lookup_cons, List.lookup_cons]
      cases key == name with
      | true => exact .some first
      | false => exact inductionHypothesis later

theorem HoldsEntries.setField {fields : List (String × Ref)} {entries : Entries}
    (holds : HoldsEntries s among fields entries) (key : String) {ref : Ref} {value : Value}
    (new : Holds s among ref value) :
    HoldsEntries s among (setField key ref fields) (entries.insert key value) := by
  induction entries generalizing fields with
  | nil =>
    cases holds
    exact .cons new .nil
  | cons entry rest inductionHypothesis =>
    cases holds with
    | @cons name _ _ _ _ first later =>
      rw [Store.setField, Entries.insert]
      split
      · exact .cons new later
      · exact .cons first (inductionHypothesis later)

end

/-! ## Building -/

mutual

/-- A value is built in new cells, behind those that are there. -/
theorem build_holds {v : Value} (plain : v.isPlain = true) (s : Store) :
    s <+: (s.build v).1 ∧ Holds (s.build v).1 (s.length ≤ ·) (s.build v).2 v := by
  cases v with
  | null | bool _ | int _ | float _ | str _ => exact ⟨List.prefix_rfl, .scalar rfl⟩
  | tuple _ | set _ | view _ => cases plain
  | list items =>
    obtain ⟨longer, each⟩ := buildItems_holds plain s
    exact ⟨longer.trans (List.prefix_append _ _),
      .list longer.length_le List.getElem?_concat_length
        (each.carry (carries_of_longer (List.prefix_append _ _) fun _ own => own))⟩
  | map entries =>
    obtain ⟨longer, each⟩ := buildEntries_holds plain s
    exact ⟨longer.trans (List.prefix_append _ _),
      .map longer.length_le List.getElem?_concat_length
        (each.carry (carries_of_longer (List.prefix_append _ _) fun _ own => own))⟩
termination_by structural v

theorem buildItems_holds {items : List Value} (plain : Value.arePlain items = true) (s : Store) :
    s <+: (s.buildItems items).1
      ∧ HoldsItems (s.buildItems items).1 (s.length ≤ ·) (s.buildItems items).2 items := by
  match items with
  | [] => exact ⟨List.prefix_rfl, .nil⟩
  | item :: rest =>
    simp only [Value.arePlain, Bool.and_eq_true] at plain
    obtain ⟨longer, first⟩ := build_holds plain.1 s
    obtain ⟨evenLonger, later⟩ := buildItems_holds plain.2 (s.build item).1
    exact ⟨longer.trans evenLonger,
      .cons (first.carry (carries_of_longer evenLonger fun _ own => own))
        (later.carry (carries_of_longer List.prefix_rfl fun _ => Nat.le_trans longer.length_le))⟩
termination_by structural items

theorem buildEntries_holds {entries : List (String × Value)}
    (plain : Value.entriesArePlain entries = true) (s : Store) :
    s <+: (s.buildEntries entries).1
      ∧ HoldsEntries (s.buildEntries entries).1 (s.length ≤ ·) (s.buildEntries entries).2
        entries := by
  match entries with
  | [] => exact ⟨List.prefix_rfl, .nil⟩
  | (key, value) :: rest =>
    simp only [Value.entriesArePlain, Bool.and_eq_true] at plain
    obtain ⟨longer, first⟩ := build_holds plain.1 s
    obtain ⟨evenLonger, later⟩ := buildEntries_holds plain.2 (s.build value).1
    exact ⟨longer.trans evenLonger,
      .cons (first.carry (carries_of_longer evenLonger fun _ own => own))
        (later.carry (carries_of_longer List.prefix_rfl fun _ => Nat.le_trans longer.length_le))⟩
termination_by structural entries

end

/-! ## Merging -/

/-- What a merge makes of a value is held by the store after it, next to everything that was there. -/
structure Makes (s : Store) (among : Nat → Prop) (outcome : Store × Ref) (v : Value) : Prop where
  kept : s <+: outcome.1
  holds : Holds outcome.1 (fun a => among a ∨ s.length ≤ a) outcome.2 v

theorem makes_build {v : Value} (plain : v.isPlain = true) (s : Store) (among : Nat → Prop) :
    Makes s among (s.build v) v := by
  obtain ⟨longer, holds⟩ := build_holds plain s
  exact ⟨longer, holds.carry (carries_of_longer List.prefix_rfl fun _ => .inr)⟩

/-- What writing to a cell leaves: the other cells are as they were, and the cell holds a mapping. -/
structure Writes (s : Store) (among : Nat → Prop) (address : Nat) (after : Store)
    (entries : Entries) : Prop where
  longer : s.length ≤ after.length
  others : ∀ a, a < s.length → a ≠ address → after[a]? = s[a]?
  holds : ∃ fields, after[address]? = some (.map fields)
    ∧ HoldsEntries after (fun a => among a ∨ s.length ≤ a) fields entries

section

variable {s after : Store} {among : Nat → Prop} {address : Nat} {entries : Entries}

/-- Writing a field to a cell that nothing is read from. -/
theorem writes_field {ref : Ref} {value : Value} (foreign : ¬ among address)
    {fields : List (String × Ref)} (there : s[address]? = some (.map fields))
    (holds : HoldsEntries s among fields entries) (makes : Makes s among (after, ref) value)
    (key : String) :
    Writes s among address
      (after.set address (.map (setField key ref (after.fieldsAt address))))
      (entries.insert key value) := by
  obtain ⟨inStore, -⟩ := List.getElem?_eq_some_iff.mp there
  have longer : s.length ≤ after.length := makes.kept.length_le
  have others (a : Nat) (old : a < s.length) : after[a]? = s[a]? := by
    obtain ⟨more, same⟩ : s <+: after := makes.kept
    rw [← same, List.getElem?_append_left old]
  have fieldsHere : after.fieldsAt address = fields := by
    rw [fieldsAt, others address inStore, there]
  -- What is held is read from other cells: old ones that are given, or ones behind all old ones.
  have unread : Carries after (after.set address (.map (setField key ref fields)))
      (fun a => among a ∨ s.length ≤ a) (fun a => among a ∨ s.length ≤ a) := by
    intro a own c present
    have elsewhere : address ≠ a := by
      rintro rfl
      exact own.elim foreign fun new => Nat.not_le.mpr inStore new
    exact ⟨own, by rw [List.getElem?_set_ne elsewhere, present]⟩
  rw [fieldsHere]
  refine ⟨by rwa [List.length_set], fun a old different => ?_, setField key ref fields, ?_, ?_⟩
  · rw [List.getElem?_set_ne (Ne.symm different), others a old]
  · exact List.getElem?_set_self (Nat.lt_of_lt_of_le inStore longer)
  · have held := holds.carry (carries_of_longer makes.kept fun a => Or.inl (b := s.length ≤ a))
    exact (held.setField key makes.holds).carry unread

theorem Writes.trans {final : Store} {merged : Entries}
    (first : Writes s among address after entries)
    (second : Writes after (fun a => among a ∨ s.length ≤ a) address final merged) :
    Writes s among address final merged := by
  refine ⟨Nat.le_trans first.longer second.longer, fun a old different => ?_, ?_⟩
  · rw [second.others a (Nat.lt_of_lt_of_le old first.longer) different,
      first.others a old different]
  · obtain ⟨fields, there, holds⟩ := second.holds
    refine ⟨fields, there, holds.carry (carries_of_longer List.prefix_rfl fun a own => ?_)⟩
    rcases own with own | new
    · exact own
    · exact .inr (Nat.le_trans first.longer new)

/-- What is written to a copy, which is a new cell, is made next to everything that is there. -/
theorem makes_of_writes {c : Cell}
    (writes : Writes (s ++ [c]) (fun a => among a ∧ a < s.length) s.length after entries) :
    Makes s among (after, .cell s.length) (.map entries) := by
  obtain ⟨fields, there, holds⟩ := writes.holds
  have longer : (s ++ [c]).length = s.length + 1 := by simp
  refine ⟨List.prefix_iff_getElem?.mpr fun a old => ?_,
    .map (.inr (Nat.le_refl _)) there
      (holds.carry (carries_of_longer List.prefix_rfl fun a own => ?_))⟩
  · rw [writes.others a (by omega) (by omega), List.getElem?_append_left old,
      List.getElem?_eq_getElem old]
  · rcases own with ⟨own, -⟩ | new
    · exact .inl own
    · exact .inr (by omega)

end

mutual

/-- A value of a delta is merged next to everything that is there. -/
theorem overlayInto_makes (v : Value) {s : Store} {among : Nat → Prop} {present : Option Ref}
    {there : Option Value} (holds : Option.Rel (Holds s among) present there) :
    Makes s among (s.overlayInto present v) (Value.overlayInto there v) := by
  cases v with
  | null | bool _ | int _ | float _ | str _ => exact ⟨List.prefix_rfl, .scalar rfl⟩
  | list items => exact makes_build (Value.isPlain_plainForm (.list items)) s among
  | tuple items => exact makes_build (Value.isPlain_plainForm (.tuple items)) s among
  | set items => exact makes_build (Value.isPlain_plainForm (.set items)) s among
  | map delta | view delta =>
    have fresh : Makes s among (s.build (.map (Value.plainEntries delta)))
        (.map (Value.plainEntries delta)) :=
      makes_build (v := .map _) (Value.entriesArePlain_plainEntries delta) s among
    cases holds with
    | none => exact fresh
    | @some _ value holds =>
      cases holds with
      | scalar isScalar => cases value <;> first | exact fresh | cases isScalar
      | list own there each =>
        simp only [overlayInto, there]
        exact fresh
      | @map address fields target own there each =>
        simp only [overlayInto, there]
        -- The copy is a new cell, so nothing that is held is read from it.
        have copied : HoldsEntries (s ++ [Cell.map fields]) (fun a => among a ∧ a < s.length) fields
            target := by
          refine each.carry fun a own c there => ?_
          obtain ⟨inStore, -⟩ := List.getElem?_eq_some_iff.mp there
          exact ⟨⟨own, inStore⟩, by rw [List.getElem?_append_left inStore, there]⟩
        exact makes_of_writes
          (writeEntries_writes delta (by simp) List.getElem?_concat_length copied)
termination_by structural v

theorem writeEntries_writes (delta : List (String × Value)) {s : Store} {among : Nat → Prop}
    {address : Nat} (foreign : ¬ among address) {fields : List (String × Ref)} {entries : Entries}
    (there : s[address]? = some (.map fields)) (holds : HoldsEntries s among fields entries) :
    Writes s among address (s.writeEntries address delta) (Value.overlayEntries entries delta) := by
  match delta with
  | [] => exact ⟨Nat.le_refl _, fun _ _ _ => rfl, fields, there,
      holds.carry (carries_of_longer List.prefix_rfl fun _ => .inl)⟩
  | (key, value) :: rest =>
    have fieldsHere : s.fieldsAt address = fields := by rw [fieldsAt, there]
    have makes := overlayInto_makes value (holds.lookup key)
    rw [writeEntries, Value.overlayEntries, fieldsHere]
    have step := writes_field foreign there holds makes key
    obtain ⟨inStore, -⟩ := List.getElem?_eq_some_iff.mp there
    obtain ⟨longerFields, thereNow, holdsNow⟩ := step.holds
    -- The cell was there before the merge, so it is none of those that the merge has made.
    have stillForeign : ¬ (among address ∨ s.length ≤ address) := by
      rintro (own | new)
      · exact foreign own
      · omega
    exact step.trans (writeEntries_writes rest stillForeign thereNow holdsNow)
termination_by structural delta

end

def Has (s : Store) (ref : Ref) (v : Value) : Prop := Holds s (fun _ => True) ref v

/-- Merges a delta into a copy of a mapping. -/
def overlay (s : Store) (target : Ref) (delta : Entries) : Store × Ref :=
  s.overlayInto (some target) (.map delta)

theorem Has.of_longer {s s' : Store} {ref : Ref} {v : Value} (has : s.Has ref v)
    (longer : s <+: s') : s'.Has ref v :=
  Holds.carry (carries_of_longer longer fun _ own => own) has

theorem has_overlay {s : Store} {ref : Ref} {target : Entries} (has : s.Has ref (.map target))
    (delta : Entries) :
    s <+: (s.overlay ref delta).1
      ∧ (s.overlay ref delta).1.Has (s.overlay ref delta).2 (.map (target.overlay delta)) := by
  obtain ⟨kept, holds⟩ := overlayInto_makes (.map delta) (Option.Rel.some has)
  exact ⟨kept, holds.carry (carries_of_longer List.prefix_rfl fun _ _ => trivial)⟩

theorem has_build {v : Value} (plain : v.isPlain = true) (s : Store) :
    (s.build v).1.Has (s.build v).2 v :=
  (build_holds plain s).2.carry (carries_of_longer List.prefix_rfl fun _ _ => trivial)

end Store

/-- Thawing undoes freezing, and leaves plain values alone. Merging does not see whether a delta was
frozen; into a plain mapping it gives a plain one, a second time it changes nothing, and it never
writes to what it started from. -/
theorem merging_ignores_freezing :
    (∀ v : Value, v.Regular → v.FreezesTo v.freeze ∧ ∃ plain, v.thaw = .ok plain ∧ plain.isPlain = true
      ∧ ∀ frozen, v.FreezesTo frozen → frozen.thaw = .ok plain)
    ∧ (∀ v : Value, v.isPlain = true → v.thaw = .ok v)
    ∧ ∀ target delta : Entries, (Value.map target).isPlain = true → (Value.map delta).Regular →
      ∃ merged, target.merge delta = .ok merged
        ∧ (∀ frozen : Entries, (Value.map delta).FreezesTo (.view frozen) →
          target.merge frozen = .ok merged)
        ∧ (Value.map merged).isPlain = true
        ∧ merged.merge delta = .ok merged
        ∧ ∀ (store : Store) (ref : Ref), store.Has ref (.map target) →
          store <+: (store.overlay ref delta).1
          ∧ (store.overlay ref delta).1.Has ref (.map target)
          ∧ (store.overlay ref delta).1.Has (store.overlay ref delta).2 (.map merged) := by
  refine ⟨fun v regular => ⟨Value.freezesTo_freeze regular, v.plainForm, ?_, Value.isPlain_plainForm v,
      fun frozen freezes => ?_⟩, fun v plain => ?_, fun target delta plain regular => ?_⟩
  · exact Value.thaw_eq_ok_iff.mpr ⟨regular.hasOrderedSets, rfl⟩
  · exact Value.thaw_eq_ok_iff.mpr
      ⟨(regular.of_freezesTo freezes).hasOrderedSets, Value.plainForm_of_freezesTo regular freezes⟩
  · exact Value.thaw_eq_ok_iff.mpr ⟨Value.hasOrderedSets_of_isPlain plain, Value.plainForm_of_isPlain plain⟩
  · refine ⟨target.overlay delta, Entries.merge_of_ordered regular.hasOrderedSets,
      fun frozen freezes => ?_, Value.isPlain_overlayEntries plain delta, ?_, fun store ref has => ?_⟩
    · exact Entries.merge_eq_ok_iff.mpr ⟨(regular.of_freezesTo freezes).hasOrderedSets,
        Value.overlay_of_freezesTo regular freezes target⟩
    · exact Entries.merge_eq_ok_iff.mpr
        ⟨regular.hasOrderedSets, Value.overlay_overlay_of_regular regular target⟩
    · obtain ⟨kept, holds⟩ := Store.has_overlay has delta
      exact ⟨kept, has.of_longer kept, holds⟩

def sharedPart : Entries :=
  [("a", .map [("x", .int 1), ("y", .list [.int 1])]), ("b", .int 1)]

/-- What a stage adds to it, and the same frozen, with the sets in another order. -/
def addition : Entries :=
  [("a", .map [("y", .tuple [.int 2]), ("s", .set [.int 2, .int 1])]),
    ("n", .set [.str "q", .str "p"])]

def frozenAddition : Entries :=
  [("a", .view [("y", .tuple [.int 2]), ("s", .set [.int 1, .int 2])]),
    ("n", .set [.str "p", .str "q"])]

theorem addition_regular : (Value.map addition).Regular := by
  have numbers : (Value.set [.int 2, .int 1]).Regular :=
    .set (Value.comparable_ints (by decide : ([2, 1] : List Int).Nodup))
  have names : (Value.set [.str "q", .str "p"]).Regular :=
    .set (Value.comparable_strings (by decide : ["q", "p"].Nodup))
  have single : (Value.tuple [.int 2]).Regular :=
    .tuple (List.forall_mem_singleton.mpr (.scalar rfl))
  have inner : (Value.map [("y", .tuple [.int 2]), ("s", .set [.int 2, .int 1])]).Regular :=
    .map (by decide) (by simp [single, numbers])
  exact .map (by decide) (by simp [addition, inner, names])

theorem addition_freezesTo : (Value.map addition).FreezesTo (.view frozenAddition) :=
  .map (.cons (.map (.cons (.tuple (.cons (.scalar rfl) .nil)) (.cons (.set (.swap _ _ _)) .nil)))
    (.cons (.set (.swap _ _ _)) .nil))

theorem addition_merges_frozen :
    (Value.view frozenAddition).thaw = (Value.map addition).thaw
    ∧ (Value.map sharedPart).thaw = .ok (.map sharedPart)
    ∧ ∃ merged, sharedPart.merge addition = .ok merged
      ∧ sharedPart.merge frozenAddition = .ok merged
      ∧ merged.merge addition = .ok merged
      ∧ ((Store.build [] (.map sharedPart)).1.overlay (Store.build [] (.map sharedPart)).2 addition).1.Has
        (Store.build [] (.map sharedPart)).2 (.map sharedPart) := by
  obtain ⟨thaws, plainThaws, merges⟩ := merging_ignores_freezing
  have plain : (Value.map sharedPart).isPlain = true := by decide
  obtain ⟨-, _, thawed, -, alike⟩ := thaws _ addition_regular
  obtain ⟨merged, mergesPlain, mergesFrozen, -, again, inStore⟩ :=
    merges sharedPart addition plain addition_regular
  exact ⟨(alike _ addition_freezesTo).trans thawed.symm, plainThaws _ plain, merged, mergesPlain,
    mergesFrozen _ addition_freezesTo, again, (inStore _ _ (Store.has_build plain [])).2.1⟩

end Surveyor
