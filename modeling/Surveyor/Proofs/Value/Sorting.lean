import Mathlib.Data.List.InsertIdx
import Mathlib.Data.List.Perm.Basic
import Surveyor.Proofs.Value.Fault
import Surveyor.Value.Sorting

/-! # What sorting by values gives

Whatever the keys are, the sorted items are the given ones in some order (`sortedBy_perm`). If the keys
are strings that tell the items apart, the order in which the items were given does not matter
(`sortedBy_eq_of_perm`).
-/

namespace Surveyor

namespace Value

variable {α : Type}

theorem append_of_runFrom {descending : Bool} {last : Value × α} {items run rest : List (Value × α)}
    (cut : runFrom descending last items = .ok (run, rest)) : run ++ rest = last :: items := by
  induction items generalizing last run with
  | nil =>
    cases cut
    rfl
  | cons item others inductionHypothesis =>
    simp only [runFrom, bind_eq_ok] at cut
    obtain ⟨before, -, cut⟩ := cut
    split at cut
    · simp only [bind_eq_ok, pure_eq_ok, Prod.mk.injEq] at cut
      obtain ⟨⟨further, _⟩, cutFurther, rfl, rfl⟩ := cut
      rw [List.cons_append, inductionHypothesis cutFurther]
    · cases cut
      rfl

theorem perm_of_leadingRun {items run rest : List (Value × α)}
    (cut : leadingRun items = .ok (run, rest)) : (run ++ rest).Perm items := by
  unfold leadingRun at cut
  split at cut
  · simp only [bind_eq_ok, pure_eq_ok, Prod.mk.injEq] at cut
    obtain ⟨descending, -, ⟨found, _⟩, cutRun, rfl, rfl⟩ := cut
    rw [← append_of_runFrom cutRun]
    refine List.Perm.append_right _ ?_
    split
    · exact List.reverse_perm found
    · exact .refl found
  · cases cut
    simp

/-- A place is never behind the last item. -/
theorem le_of_placeBetween {sorted : Array (Value × α)} {key : Value} {low high place : Nat}
    (found : placeBetween sorted key low high = .ok place) (ordered : low ≤ high) : place ≤ high := by
  fun_induction placeBetween sorted key low high with
  | case1 low high _ _ =>
    cases found
    exact ordered
  | case2 low high further middle _ _ lowerHypothesis upperHypothesis =>
    rw [bind_eq_ok] at found
    obtain ⟨before, -, found⟩ := found
    split at found
    · have below : place ≤ (low + high) / 2 := lowerHypothesis found (by omega)
      omega
    · exact upperHypothesis found (by omega)
  | case3 low high _ =>
    cases found
    exact ordered

theorem perm_of_insertSorted {sorted longer : Array (Value × α)} {item : Value × α}
    (inserted : insertSorted sorted item = .ok longer) :
    longer.toList.Perm (item :: sorted.toList) := by
  simp only [insertSorted, bind_eq_ok, pure_eq_ok] at inserted
  obtain ⟨place, found, rfl⟩ := inserted
  have inBounds : place ≤ sorted.size := le_of_placeBetween found (Nat.zero_le _)
  rw [Array.insertIdxIfInBounds, dif_pos inBounds, Array.toList_insertIdx]
  exact List.perm_insertIdx item sorted.toList (by simpa using inBounds)

theorem perm_of_insertAll {items : List (Value × α)} {sorted longer : Array (Value × α)}
    (inserted : items.foldlM insertSorted sorted = .ok longer) :
    longer.toList.Perm (sorted.toList ++ items) := by
  induction items generalizing sorted with
  | nil =>
    cases inserted
    simp
  | cons item rest inductionHypothesis =>
    rw [List.foldlM_cons, bind_eq_ok] at inserted
    obtain ⟨next, insertedFirst, insertedRest⟩ := inserted
    calc longer.toList
      _ |>.Perm (next.toList ++ rest) := inductionHypothesis insertedRest
      _ |>.Perm (item :: sorted.toList ++ rest) :=
        (perm_of_insertSorted insertedFirst).append_right rest
      _ |>.Perm (sorted.toList ++ item :: rest) := List.perm_middle.symm

theorem perm_of_sortKeyed {items sorted : List (Value × α)} (found : sortKeyed items = .ok sorted) :
    sorted.Perm items := by
  simp only [sortKeyed, bind_eq_ok, pure_eq_ok] at found
  obtain ⟨⟨run, rest⟩, cut, all, inserted, rfl⟩ := found
  exact (perm_of_insertAll inserted).trans (perm_of_leadingRun cut)

theorem sortedBy_perm {key : α → Value} {items sorted : List α}
    (found : sortedBy key items = .ok sorted) : sorted.Perm items := by
  unfold sortedBy at found
  split at found
  · cases found
    exact List.mergeSort_perm items _
  · simp only [bind_eq_ok, pure_eq_ok] at found
    obtain ⟨keyed, foundKeyed, rfl⟩ := found
    simpa [Function.comp_def] using (perm_of_sortKeyed foundKeyed).map (·.2)

/-! ## One sorted order -/

/-- Where no two items are of one rank, the order in which they are given does not matter. -/
theorem mergeSort_eq_of_perm {atMost : α → α → Bool} {items others : List α}
    (transitive : ∀ a b c, atMost a b = true → atMost b c = true → atMost a c = true)
    (total : ∀ a b, (atMost a b || atMost b a) = true) (reordered : items.Perm others)
    (apart : ∀ a ∈ items, ∀ b ∈ items, atMost a b = true → atMost b a = true → a = b) :
    items.mergeSort atMost = others.mergeSort atMost := by
  have sortedPerm : (items.mergeSort atMost).Perm (others.mergeSort atMost) :=
    (List.mergeSort_perm items _).trans (reordered.trans (List.mergeSort_perm others _).symm)
  refine List.Perm.eq_of_pairwise ?_ (List.pairwise_mergeSort transitive total items)
    (List.pairwise_mergeSort transitive total others) sortedPerm
  intro a b inItems inOthers
  exact apart a (List.mem_mergeSort.mp inItems) b
    (reordered.mem_iff.mpr (List.mem_mergeSort.mp inOthers))

/-- The same where only the given items are known to be in order. -/
theorem mergeSort_eq_of_perm_of_mem {atMost : α → α → Bool} {items others : List α}
    (transitive : ∀ a ∈ items, ∀ b ∈ items, ∀ c ∈ items,
      atMost a b = true → atMost b c = true → atMost a c = true)
    (total : ∀ a ∈ items, ∀ b ∈ items, (atMost a b || atMost b a) = true)
    (apart : ∀ a ∈ items, ∀ b ∈ items, atMost a b = true → atMost b a = true → a = b)
    (reordered : items.Perm others) : items.mergeSort atMost = others.mergeSort atMost := by
  -- Among the items themselves the order is one of all that there is.
  let amongItems (a b : { item // item ∈ items }) : Bool := atMost a.1 b.1
  have sorted (xs : List { item // item ∈ items }) :
      (xs.mergeSort amongItems).map Subtype.val = (xs.map Subtype.val).mergeSort atMost :=
    List.map_mergeSort fun _ _ _ _ => rfl
  let othersAmong := others.attachWith (· ∈ items) fun _ member => reordered.mem_iff.mpr member
  have alike : items.attach.Perm othersAmong := by
    refine (List.map_perm_map_iff Subtype.val_injective).mp ?_
    rw [List.attach_map_subtype_val, List.attachWith_map_subtype_val]
    exact reordered
  have same : items.attach.mergeSort amongItems = othersAmong.mergeSort amongItems :=
    mergeSort_eq_of_perm
      (fun a b c => transitive a a.2 b b.2 c c.2) (fun a b => total a a.2 b b.2) alike
      fun a _ b _ first second => Subtype.ext (apart a a.2 b b.2 first second)
  have mapped := congrArg (List.map Subtype.val) same
  rwa [sorted, sorted, List.attach_map_subtype_val, List.attachWith_map_subtype_val] at mapped

/-- Items with names of their own, put in the order of the names. -/
theorem mergeSort_name_eq_of_perm {name : α → String} {items others : List α}
    (reordered : items.Perm others)
    (apart : ∀ a ∈ items, ∀ b ∈ items, name a = name b → a = b) :
    (items.mergeSort fun a b => decide (name a ≤ name b))
      = others.mergeSort fun a b => decide (name a ≤ name b) := by
  refine mergeSort_eq_of_perm ?_ ?_ reordered ?_
  · intro a b c first second
    exact decide_eq_true (String.le_trans (of_decide_eq_true first) (of_decide_eq_true second))
  · intro a b
    simpa using String.le_total (name a) (name b)
  · intro a inItems b alsoInItems first second
    exact apart a inItems b alsoInItems
      (String.le_antisymm (of_decide_eq_true first) (of_decide_eq_true second))

theorem sortedBy_eq_mergeSort {key : α → Value} {items : List α}
    (named : ∀ item ∈ items, ∃ name, key item = .str name) :
    sortedBy key items
      = .ok (items.mergeSort fun a b => decide ((key a).asStr ≤ (key b).asStr)) := by
  have areNamed : (items.all fun item => (key item).str?.isSome) = true := by
    refine List.all_eq_true.mpr fun item member => ?_
    obtain ⟨name, isName⟩ := named item member
    rw [isName]
    rfl
  have sameOrder : ∀ a ∈ items, ∀ b ∈ items,
      scalarAtMost (key a) (key b) = decide ((key a).asStr ≤ (key b).asStr) := by
    intro a inItems b alsoInItems
    obtain ⟨name, isName⟩ := named a inItems
    obtain ⟨other, isOther⟩ := named b alsoInItems
    rw [isName, isOther]
    rfl
  have sameSorted : (items.mergeSort fun a b => scalarAtMost (key a) (key b))
      = items.mergeSort fun a b => decide ((key a).asStr ≤ (key b).asStr) := by
    simpa using List.map_mergeSort (f := id) sameOrder
  rw [sortedBy, if_pos areNamed, sameSorted]

/-- Items whose keys are strings of their own have one sorted order. -/
theorem sortedBy_eq_of_perm {key : α → Value} {items others : List α} (reordered : items.Perm others)
    (named : ∀ item ∈ items, ∃ name, key item = .str name)
    (apart : ∀ a ∈ items, ∀ b ∈ items, key a = key b → a = b) :
    sortedBy key items = sortedBy key others := by
  rw [sortedBy_eq_mergeSort named,
    sortedBy_eq_mergeSort fun item member => named item (reordered.mem_iff.mpr member)]
  refine congrArg Except.ok (mergeSort_name_eq_of_perm reordered ?_)
  intro a inItems b alsoInItems sameText
  obtain ⟨name, isName⟩ := named a inItems
  obtain ⟨other, isOther⟩ := named b alsoInItems
  rw [isName, isOther] at sameText
  exact apart a inItems b alsoInItems (by rw [isName, isOther]; exact congrArg Value.str sameText)

end Value

end Surveyor
