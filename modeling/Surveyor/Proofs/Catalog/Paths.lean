import Mathlib.Data.List.Induction
import Surveyor.Catalog.Survey
import Surveyor.Proofs.FileTree.Descendants

/-! # Relative paths

A relative path is the names that lead to an entry, with slashes between them. As names are not empty
and hold no slash, a path tells its names (`pathOf_injective`); and everything that occurs in the path
of a directory occurs in the paths of all that lies below it (`pathOf_prefix_append`).
-/

namespace Surveyor

def pathOf (names : List String) : String := Text.join "/" names

theorem pathOf_nil : pathOf [] = "" := rfl

theorem pathOf_cons_cons (first second : String) (rest : List String) :
    pathOf (first :: second :: rest) = first ++ "/" ++ pathOf (second :: rest) :=
  String.intercalate_cons_cons

theorem pathOf_singleton (name : String) : pathOf [name] = name := by
  simp [pathOf, Text.join]

theorem toList_pathOf (names : List String) :
    (pathOf names).toList = ['/'].intercalate (names.map String.toList) :=
  String.toList_intercalate

theorem pathOf_append_singleton {front : List String} (nonempty : front ≠ []) (name : String) :
    pathOf (front ++ [name]) = pathOf front ++ "/" ++ name := by
  induction front with
  | nil => exact absurd rfl nonempty
  | cons first rest inductionHypothesis =>
    cases rest with
    | nil => rw [List.singleton_append, pathOf_cons_cons, pathOf_singleton, pathOf_singleton]
    | cons second later =>
      rw [List.cons_append, List.cons_append, pathOf_cons_cons, ← List.cons_append,
        inductionHypothesis (by simp), pathOf_cons_cons]
      simp only [String.append_assoc]

theorem pathOf_eq_empty_iff {names : List String} (named : ∀ name ∈ names, name ≠ "") :
    pathOf names = "" ↔ names = [] := by
  constructor
  · intro empty
    rcases names with _ | ⟨first, _ | ⟨second, rest⟩⟩
    · rfl
    · rw [pathOf_singleton] at empty
      exact absurd empty (named first (by simp))
    · rw [pathOf_cons_cons] at empty
      simp at empty
  · rintro rfl
    rfl

theorem childPath_pathOf {above : List String} (named : ∀ name ∈ above, name ≠ "") (name : String) :
    childPath (pathOf above) name = pathOf (above ++ [name]) := by
  unfold childPath
  split
  · next empty =>
    rw [(pathOf_eq_empty_iff named).mp (by simpa using empty), List.nil_append, pathOf_singleton]
  · next nonempty =>
    rw [pathOf_append_singleton]
    rintro rfl
    exact nonempty rfl

/-- A path tells its names. -/
theorem pathOf_injective {names others : List String} (nonempty : names ≠ [])
    (nonemptyOthers : others ≠ []) (named : ∀ name ∈ names, isEntryName name = true)
    (namedOthers : ∀ name ∈ others, isEntryName name = true) (same : pathOf names = pathOf others) :
    names = others := by
  have splits : ∀ parts : List String, parts ≠ [] → (∀ name ∈ parts, isEntryName name = true) →
      (pathOf parts).toList.splitOn '/' = parts.map String.toList := by
    intro parts some allNamed
    rw [toList_pathOf]
    refine List.splitOn_intercalate '/' ?_ (by simpa using some)
    simp only [List.mem_map]
    rintro _ ⟨name, member, rfl⟩
    exact (isEntryName_iff.mp (allNamed name member)).2
  have sameChars : names.map String.toList = others.map String.toList := by
    rw [← splits names nonempty named, ← splits others nonemptyOthers namedOthers, same]
  exact (List.map_inj_right fun _ _ equal => String.toList_injective equal).mp sameChars

/-! ## What occurs in a path -/

theorem Text.containsChars_iff {part chars : List Char} :
    Text.containsChars part chars = true ↔ part <:+: chars := by
  induction chars with
  | nil => simp [Text.containsChars]
  | cons c rest inductionHypothesis =>
    rw [Text.containsChars, Bool.or_eq_true, List.isPrefixOf_iff_prefix, inductionHypothesis,
      List.infix_cons_iff]

theorem Text.contains_iff {s part : String} :
    Text.contains s part = true ↔ part.toList <:+: s.toList :=
  Text.containsChars_iff

theorem pathOf_prefix_append (front back : List String) :
    (pathOf front).toList <+: (pathOf (front ++ back)).toList := by
  induction back using List.reverseRecOn with
  | nil => simp
  | append_singleton back name inductionHypothesis =>
    refine inductionHypothesis.trans ?_
    rw [← List.append_assoc]
    by_cases empty : front ++ back = []
    · rw [empty, pathOf_nil]
      exact List.nil_prefix
    · rw [pathOf_append_singleton empty]
      simp [String.toList_append]

theorem name_suffix_pathOf (front : List String) (name : String) :
    name.toList <:+ (pathOf (front ++ [name])).toList := by
  by_cases empty : front = []
  · simp [empty, pathOf_singleton]
  · rw [pathOf_append_singleton empty, String.toList_append]
    exact List.suffix_append _ _

end Surveyor
