import Surveyor.Proofs.Value.Fault
import Surveyor.Proofs.Value.Plain
import Surveyor.Proofs.Value.Sorting
import Surveyor.Value.Merge

/-! # Frozen values

A field of a frozen mapping is the frozen field, and the members of a frozen sequence are its frozen
members; so what a stage reads off a snapshot is what was published, frozen.

Thawing undoes freezing (`plainForm_of_freezesTo`). The members of a frozen set come in any order, but
scalars that can be compared have one ascending order. Of a delta, merging only sees the plain form, so
it does not see whether the delta was frozen (`overlay_of_freezesTo`); and what a delta has made of a
value, it leaves as it is, so merging it again changes nothing (`overlay_overlay_of_regular`).
-/

namespace Surveyor

namespace Value

theorem freezeItems_eq_map (items : List Value) : freezeItems items = items.map freeze := by
  induction items with
  | nil => rfl
  | cons item rest inductionHypothesis => rw [freezeItems, inductionHypothesis, List.map_cons]

theorem lookup_freezeEntries (entries : Entries) (key : String) :
    (freezeEntries entries).lookup key = (entries.lookup key).map freeze := by
  induction entries with
  | nil => rfl
  | cons entry rest inductionHypothesis =>
    obtain ⟨name, value⟩ := entry
    rw [freezeEntries, List.lookup_cons, List.lookup_cons]
    cases key == name with
    | true => rfl
    | false => exact inductionHypothesis

variable {entries : Entries} {key : String}

theorem field_freeze {found : Value} (here : entries.lookup key = some found) :
    (Value.map entries).freeze.field key = .ok found.freeze := by
  simp only [freeze, field, fieldOr, lookup_freezeEntries, here, Option.map_some, Option.getD_some]

theorem membersUnder_freeze {items : List Value} (here : entries.lookup key = some (.list items)) :
    (Value.map entries).freeze.membersUnder key = .ok (items.map freeze) := by
  rw [membersUnder, field_freeze here, freeze, freezeItems_eq_map]
  cases items with
  | nil => rfl
  | cons item rest => rfl

/-! ## Values of stages -/

/-- Members of a set, which are scalars with one ascending order. -/
structure Comparable (items : List Value) : Prop where
  scalars : ∀ item ∈ items, item.isScalar = true
  transitive : ∀ a ∈ items, ∀ b ∈ items, ∀ c ∈ items,
    atMost a b = true → atMost b c = true → atMost a c = true
  /-- Of two members, exactly one comes before the other. -/
  apart : items.Pairwise fun a b => atMost a b ≠ atMost b a

/-- Made of scalars, sequences, sets of comparable scalars, and mappings that have every key once. -/
inductive Regular : Value → Prop
  | scalar {v : Value} (isScalar : v.isScalar = true) : Regular v
  | list {items : List Value} (each : ∀ item ∈ items, Regular item) : Regular (.list items)
  | tuple {items : List Value} (each : ∀ item ∈ items, Regular item) : Regular (.tuple items)
  | set {items : List Value} (comparable : Comparable items) : Regular (.set items)
  | map {entries : Entries} (once : entries.keys.Nodup)
      (each : ∀ entry ∈ entries, Regular entry.2) : Regular (.map entries)
  | view {entries : Entries} (once : entries.keys.Nodup)
      (each : ∀ entry ∈ entries, Regular entry.2) : Regular (.view entries)

/-- Scalars that are ordered like different values of a linear order can be compared. -/
theorem comparable_map {α : Type} [LE α] [DecidableLE α] [Std.IsLinearOrder α] {scalar : α → Value}
    (areScalars : ∀ a, (scalar a).isScalar = true)
    (ordered : ∀ a b, atMost (scalar a) (scalar b) = decide (a ≤ b)) {keys : List α}
    (distinct : keys.Nodup) : Comparable (keys.map scalar) where
  scalars := List.forall_mem_map.mpr fun a _ => areScalars a
  transitive := by
    simp only [List.forall_mem_map, ordered, decide_eq_true_eq]
    exact fun _ _ _ _ _ _ => Std.le_trans
  apart := by
    refine List.pairwise_map.mpr (distinct.imp fun {a b} different alike => different ?_)
    simp only [ordered, decide_eq_decide] at alike
    rcases Std.le_total (a := a) (b := b) with before | after
    · exact Std.le_antisymm before (alike.mp before)
    · exact Std.le_antisymm (alike.mpr after) after

theorem atMost_str (s t : String) : atMost (.str s) (.str t) = decide (s ≤ t) := by
  rw [Bool.eq_iff_iff, decide_eq_true_eq]
  simp only [atMost, isBefore?, Option.some_beq_some, Bool.or_eq_true, beq_iff_eq, bne_iff_ne, ne_eq,
    Option.some.injEq, decide_eq_true_eq, String.not_lt]
  exact ⟨fun either => either.elim Std.le_of_lt id, .inr⟩

theorem comparable_strings {names : List String} (distinct : names.Nodup) :
    Comparable (names.map .str) :=
  comparable_map (fun _ => rfl) atMost_str distinct

theorem atMost_int (a b : Int) : atMost (.int a) (.int b) = decide (a ≤ b) := by
  rw [Bool.eq_iff_iff, decide_eq_true_eq]
  simp only [atMost, isBefore?, isNumber, compareNumbers?, Bool.and_self, ↓reduceIte, Bool.or_eq_true,
    beq_iff_eq, bne_iff_ne, ne_eq, Option.some.injEq, Int.compare_eq_lt, Int.not_lt]
  omega

theorem comparable_ints {numbers : List Int} (distinct : numbers.Nodup) :
    Comparable (numbers.map .int) :=
  comparable_map (fun _ => rfl) atMost_int distinct

theorem atMost_total (a b : Value) : (atMost a b || atMost b a) = true := by
  unfold atMost bne
  cases isBefore? a b == some true with
  | true => rfl
  | false => exact Bool.or_eq_true_iff.mpr (.inr (Bool.or_true _))

/-- Comparable scalars are sorted in the same way in whatever order they come. -/
theorem Comparable.inOrder_eq {items others : List Value} (comparable : Comparable items)
    (reordered : items.Perm others) : inOrder items = inOrder others := by
  -- Which of two members stands first in the set says nothing of which is the lesser.
  have apart : ∀ a ∈ items, ∀ b ∈ items, a = b ∨ atMost a b ≠ atMost b a :=
    List.Pairwise.forall_of_forall_of_flip (fun _ _ => .inl rfl)
      (comparable.apart.imp fun different => .inr different)
      (comparable.apart.imp fun different => .inr (Ne.symm different))
  refine mergeSort_eq_of_perm_of_mem comparable.transitive (fun a _ b _ => atMost_total a b) ?_ reordered
  intro a inItems b alsoInItems first second
  rcases apart a inItems b alsoInItems with same | different
  · exact same
  · exact absurd (first.trans second.symm) different

/-- Two scalars of which one comes before the other have an order from either side. -/
theorem isSome_isBefore?_of_apart {a b : Value} (scalar : a.isScalar = true) (other : b.isScalar = true)
    (apart : atMost a b ≠ atMost b a) : (isBefore? a b).isSome = true := by
  cases a <;> cases other_ : b <;> subst other_ <;>
    simp_all [isScalar, atMost, isBefore?, isNumber]

theorem Comparable.areOrdered {items : List Value} (comparable : Comparable items) :
    areOrdered items = true := by
  have scalars := comparable.scalars
  have apart := comparable.apart
  induction items with
  | nil => rfl
  | cons item rest inductionHypothesis =>
    rw [List.forall_mem_cons] at scalars
    rw [List.pairwise_cons] at apart
    rw [Value.areOrdered, Bool.and_eq_true, List.all_eq_true]
    refine ⟨fun other member => isSome_isBefore?_of_apart scalars.1 (scalars.2 other member)
      (apart.1 other member), inductionHypothesis ?_ scalars.2 apart.2⟩
    exact ⟨scalars.2, fun a inA b inB c inC => comparable.transitive a (.tail _ inA) b (.tail _ inB) c
      (.tail _ inC), apart.2⟩

/-! ## Frozen values -/

mutual

/-- A value and a frozen form of it. The members of a frozen set may come in another order. -/
inductive FreezesTo : Value → Value → Prop
  | scalar {v : Value} (isScalar : v.isScalar = true) : FreezesTo v v
  | list {items frozen : List Value} (each : ItemsFreezeTo items frozen) :
      FreezesTo (.list items) (.tuple frozen)
  | tuple {items frozen : List Value} (each : ItemsFreezeTo items frozen) :
      FreezesTo (.tuple items) (.tuple frozen)
  | set {items frozen : List Value} (reordered : items.Perm frozen) :
      FreezesTo (.set items) (.set frozen)
  | map {entries frozen : Entries} (each : EntriesFreezeTo entries frozen) :
      FreezesTo (.map entries) (.view frozen)
  | view {entries frozen : Entries} (each : EntriesFreezeTo entries frozen) :
      FreezesTo (.view entries) (.view frozen)

inductive ItemsFreezeTo : List Value → List Value → Prop
  | nil : ItemsFreezeTo [] []
  | cons {item frozen : Value} {rest others : List Value} (first : FreezesTo item frozen)
      (later : ItemsFreezeTo rest others) : ItemsFreezeTo (item :: rest) (frozen :: others)

inductive EntriesFreezeTo : Entries → Entries → Prop
  | nil : EntriesFreezeTo [] []
  | cons {key : String} {value frozen : Value} {rest others : Entries}
      (first : FreezesTo value frozen) (later : EntriesFreezeTo rest others) :
      EntriesFreezeTo ((key, value) :: rest) ((key, frozen) :: others)

end

theorem freeze_of_isScalar {v : Value} (scalar : v.isScalar = true) : v.freeze = v := by
  cases v <;> first | rfl | cases scalar

theorem itemsFreezeTo_freezeItems {items : List Value}
    (each : ∀ item ∈ items, item.FreezesTo item.freeze) :
    ItemsFreezeTo items (freezeItems items) := by
  induction items with
  | nil => exact .nil
  | cons item rest inductionHypothesis =>
    rw [List.forall_mem_cons] at each
    exact .cons each.1 (inductionHypothesis each.2)

theorem entriesFreezeTo_freezeEntries {entries : Entries}
    (each : ∀ entry ∈ entries, entry.2.FreezesTo entry.2.freeze) :
    EntriesFreezeTo entries (freezeEntries entries) := by
  induction entries with
  | nil => exact .nil
  | cons entry rest inductionHypothesis =>
    rw [List.forall_mem_cons] at each
    exact .cons each.1 (inductionHypothesis each.2)

theorem freezesTo_freeze {v : Value} (regular : v.Regular) : v.FreezesTo v.freeze := by
  induction regular with
  | scalar isScalar =>
    rw [freeze_of_isScalar isScalar]
    exact .scalar isScalar
  | list _ inductionHypothesis => exact .list (itemsFreezeTo_freezeItems inductionHypothesis)
  | tuple _ inductionHypothesis => exact .tuple (itemsFreezeTo_freezeItems inductionHypothesis)
  | @set items comparable =>
    have unchanged : freezeItems items = items := by
      rw [freezeItems_eq_map, List.map_congr_left fun item member =>
        freeze_of_isScalar (comparable.scalars item member), List.map_id']
    rw [freeze, unchanged]
    exact .set (.refl items)
  | map _ _ inductionHypothesis => exact .map (entriesFreezeTo_freezeEntries inductionHypothesis)
  | view _ _ inductionHypothesis => exact .view (entriesFreezeTo_freezeEntries inductionHypothesis)

theorem Comparable.of_perm {items others : List Value} (comparable : Comparable items)
    (reordered : items.Perm others) : Comparable others where
  scalars := fun item member => comparable.scalars item (reordered.mem_iff.mpr member)
  transitive := fun a inA b inB c inC => comparable.transitive a (reordered.mem_iff.mpr inA) b
    (reordered.mem_iff.mpr inB) c (reordered.mem_iff.mpr inC)
  apart := (reordered.pairwise_iff fun different => Ne.symm different).mp comparable.apart

theorem regular_of_itemsFreezeTo {items frozen : List Value}
    (each : ∀ item ∈ items, ∀ w, item.FreezesTo w → w.Regular) (freezes : ItemsFreezeTo items frozen) :
    ∀ w ∈ frozen, w.Regular := by
  induction items generalizing frozen with
  | nil =>
    cases freezes
    simp
  | cons item rest inductionHypothesis =>
    cases freezes with
    | cons first later =>
      rw [List.forall_mem_cons] at each
      exact List.forall_mem_cons.mpr ⟨each.1 _ first, inductionHypothesis each.2 later⟩

theorem regular_of_entriesFreezeTo {entries frozen : Entries}
    (each : ∀ entry ∈ entries, ∀ w, entry.2.FreezesTo w → w.Regular)
    (freezes : EntriesFreezeTo entries frozen) :
    frozen.keys = entries.keys ∧ ∀ entry ∈ frozen, entry.2.Regular := by
  induction entries generalizing frozen with
  | nil =>
    cases freezes
    simp
  | cons entry rest inductionHypothesis =>
    cases freezes with
    | cons first later =>
      rw [List.forall_mem_cons] at each
      obtain ⟨sameKeys, regular⟩ := inductionHypothesis each.2 later
      exact ⟨congrArg (_ :: ·) sameKeys, List.forall_mem_cons.mpr ⟨each.1 _ first, regular⟩⟩

/-- What is frozen is as regular as it was. -/
theorem Regular.of_freezesTo {v frozen : Value} (regular : v.Regular) (freezes : v.FreezesTo frozen) :
    frozen.Regular := by
  induction regular generalizing frozen with
  | scalar isScalar =>
    cases freezes with
    | scalar => exact .scalar isScalar
    | list | tuple | set | map | view => cases isScalar
  | list _ inductionHypothesis =>
    cases freezes with
    | scalar isScalar => cases isScalar
    | list each => exact .tuple (regular_of_itemsFreezeTo inductionHypothesis each)
  | tuple _ inductionHypothesis =>
    cases freezes with
    | scalar isScalar => cases isScalar
    | tuple each => exact .tuple (regular_of_itemsFreezeTo inductionHypothesis each)
  | set comparable =>
    cases freezes with
    | scalar isScalar => cases isScalar
    | set reordered => exact .set (comparable.of_perm reordered)
  | map once _ inductionHypothesis =>
    cases freezes with
    | scalar isScalar => cases isScalar
    | map each =>
      obtain ⟨sameKeys, regular⟩ := regular_of_entriesFreezeTo inductionHypothesis each
      exact .view (sameKeys ▸ once) regular
  | view once _ inductionHypothesis =>
    cases freezes with
    | scalar isScalar => cases isScalar
    | view each =>
      obtain ⟨sameKeys, regular⟩ := regular_of_entriesFreezeTo inductionHypothesis each
      exact .view (sameKeys ▸ once) regular

/-- Regular values have a plain form. -/
theorem Regular.hasOrderedSets {v : Value} (regular : v.Regular) : v.hasOrderedSets = true := by
  induction regular with
  | @scalar v isScalar => cases v <;> first | rfl | cases isScalar
  | list _ inductionHypothesis | tuple _ inductionHypothesis =>
    exact haveOrderedSets_iff.mpr inductionHypothesis
  | @set items comparable =>
    have scalarsOnly : ∀ item ∈ items, item.hasOrderedSets = true := by
      intro item member
      have isScalar := comparable.scalars item member
      cases item <;> first | rfl | cases isScalar
    rw [Value.hasOrderedSets, plainItems_of_scalars comparable.scalars, comparable.areOrdered,
      haveOrderedSets_iff.mpr scalarsOnly]
    rfl
  | map _ _ inductionHypothesis | view _ _ inductionHypothesis =>
    exact entriesHaveOrderedSets_iff.mpr inductionHypothesis

/-! ## Thawing what was frozen -/

theorem plainItems_of_freezeTo {items frozen : List Value}
    (each : ∀ item ∈ items, ∀ w, item.FreezesTo w → w.plainForm = item.plainForm)
    (freezes : ItemsFreezeTo items frozen) : plainItems frozen = plainItems items := by
  induction items generalizing frozen with
  | nil =>
    cases freezes
    rfl
  | cons item rest inductionHypothesis =>
    cases freezes with
    | cons first later =>
      rw [List.forall_mem_cons] at each
      rw [plainItems, plainItems, each.1 _ first, inductionHypothesis each.2 later]

theorem plainEntries_of_freezeTo {entries frozen : Entries}
    (each : ∀ entry ∈ entries, ∀ w, entry.2.FreezesTo w → w.plainForm = entry.2.plainForm)
    (freezes : EntriesFreezeTo entries frozen) : plainEntries frozen = plainEntries entries := by
  induction entries generalizing frozen with
  | nil =>
    cases freezes
    rfl
  | cons entry rest inductionHypothesis =>
    cases freezes with
    | cons first later =>
      rw [List.forall_mem_cons] at each
      rw [plainEntries, plainEntries, each.1 _ first, inductionHypothesis each.2 later]

/-- Thawing undoes freezing, whatever order the members of frozen sets come in. -/
theorem plainForm_of_freezesTo {v frozen : Value} (regular : v.Regular) (freezes : v.FreezesTo frozen) :
    frozen.plainForm = v.plainForm := by
  induction regular generalizing frozen with
  | scalar isScalar =>
    cases freezes with
    | scalar => rfl
    | list | tuple | set | map | view => cases isScalar
  | list _ inductionHypothesis =>
    cases freezes with
    | scalar isScalar => cases isScalar
    | list freezes => rw [plainForm, plainForm, plainItems_of_freezeTo inductionHypothesis freezes]
  | tuple _ inductionHypothesis =>
    cases freezes with
    | scalar isScalar => cases isScalar
    | tuple freezes => rw [plainForm, plainForm, plainItems_of_freezeTo inductionHypothesis freezes]
  | set comparable =>
    cases freezes with
    | scalar isScalar => cases isScalar
    | @set items others reordered =>
      -- A set is thawed in sorted order, so the order that freezing chose is forgotten.
      have scalarsToo : ∀ item ∈ others, item.isScalar = true := fun item member =>
        comparable.scalars item (reordered.mem_iff.mpr member)
      rw [plainForm, plainForm, plainItems_of_scalars scalarsToo, plainItems_of_scalars comparable.scalars,
        comparable.inOrder_eq reordered]
  | map _ _ inductionHypothesis =>
    cases freezes with
    | scalar isScalar => cases isScalar
    | map freezes => rw [plainForm, plainForm, plainEntries_of_freezeTo inductionHypothesis freezes]
  | view _ _ inductionHypothesis =>
    cases freezes with
    | scalar isScalar => cases isScalar
    | view freezes => rw [plainForm, plainForm, plainEntries_of_freezeTo inductionHypothesis freezes]

/-! ## Merging what was frozen -/

theorem plainForm_plainForm (v : Value) : v.plainForm.plainForm = v.plainForm :=
  plainForm_of_isPlain (isPlain_plainForm v)

mutual

/-- Only the plain form of a delta matters. -/
theorem overlayInto_plainForm (present : Option Value) (v : Value) :
    overlayInto present v.plainForm = overlayInto present v := by
  cases v with
  | null | bool _ | int _ | float _ | str _ => rfl
  | list items => exact plainForm_plainForm (.list items)
  | tuple items => exact plainForm_plainForm (.tuple items)
  | set items => exact plainForm_plainForm (.set items)
  | map delta | view delta =>
    have again : plainEntries (plainEntries delta) = plainEntries delta :=
      plainEntries_of_arePlain (entriesArePlain_plainEntries delta)
    have merged (target : Entries) := overlayEntries_plainEntries target delta
    simp only [plainForm, overlayInto, again, merged]
termination_by structural v

theorem overlayEntries_plainEntries (target : Entries) (delta : List (String × Value)) :
    overlayEntries target (plainEntries delta) = overlayEntries target delta := by
  match delta with
  | [] => rfl
  | (key, value) :: rest =>
    rw [plainEntries, overlayEntries, overlayEntries, overlayInto_plainForm, overlayEntries_plainEntries]
termination_by structural delta

end

theorem overlay_of_freezesTo {delta frozen : Entries} (regular : (Value.map delta).Regular)
    (freezes : (Value.map delta).FreezesTo (.view frozen)) (target : Entries) :
    target.overlay frozen = target.overlay delta := by
  have sameDelta : plainEntries frozen = plainEntries delta := by
    simpa only [plainForm, Value.map.injEq] using plainForm_of_freezesTo regular freezes
  calc target.overlay frozen
    _ = overlayEntries target (plainEntries frozen) := (overlayEntries_plainEntries target frozen).symm
    _ = overlayEntries target (plainEntries delta) := by rw [sameDelta]
    _ = target.overlay delta := overlayEntries_plainEntries target delta

/-! ## Merging twice -/

/-- A delta that replaces what is no mapping is one that is merged into nothing. -/
theorem exists_overlayInto_map {delta : Entries} (once : delta.keys.Nodup) (present : Option Value) :
    ∃ target : Entries, overlayInto present (.map delta) = .map (target.overlay delta) := by
  unfold overlayInto
  split
  · exact ⟨_, rfl⟩
  · exact ⟨_, rfl⟩
  · refine ⟨[], congrArg Value.map ?_⟩
    rw [Entries.overlay_of_fresh once (by simp), List.nil_append]

/-- What a delta has made of a value, it leaves as it is. -/
theorem overlayInto_overlayInto {v : Value} (regular : v.Regular) (present : Option Value) :
    overlayInto (some (overlayInto present v)) v = overlayInto present v := by
  have settled {delta : Entries} (once : delta.keys.Nodup)
      (settles : ∀ entry ∈ delta, ∀ present,
        overlayInto (some (overlayInto present entry.2)) entry.2 = overlayInto present entry.2)
      (present : Option Value) :
      overlayInto (some (overlayInto present (.map delta))) (.map delta)
        = overlayInto present (.map delta) := by
    obtain ⟨target, merged⟩ := exists_overlayInto_map once present
    rw [merged]
    exact congrArg Value.map (Entries.overlay_overlay once settles target)
  induction regular generalizing present with
  | @scalar v isScalar => cases v <;> first | rfl | cases isScalar
  | list | tuple | set => rfl
  | map once _ inductionHypothesis => exact settled once inductionHypothesis present
  | view once _ inductionHypothesis => exact settled once inductionHypothesis present

theorem overlay_overlay_of_regular {delta : Entries} (regular : (Value.map delta).Regular)
    (target : Entries) : (target.overlay delta).overlay delta = target.overlay delta := by
  cases regular with
  | scalar isScalar => cases isScalar
  | map once each =>
    exact Entries.overlay_overlay once
      (fun entry member => overlayInto_overlayInto (each entry member)) target

end Value

end Surveyor
