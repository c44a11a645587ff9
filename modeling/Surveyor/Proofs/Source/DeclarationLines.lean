import Surveyor.Proofs.Quality.Declared
import Surveyor.Proofs.Source.LineNumbers

/-! # The lines of an outline

Every line in an outline is the line of some offset, so it is a line of the file; and a function or
method is listed with the line on which its name stands (`placed_outline`). The patterns never pass
over a newline inside a name. Components are outlined block by block, with the lines of a block counted
from the line where it starts.
-/

namespace Surveyor

open Pattern

/-- The lines of an outline are lines of a text, and names of functions and methods stand on
theirs. -/
structure Outline.Placed (o : Outline) (t : Text) : Prop where
  functions : ∀ f ∈ o.functions, OnLine t f.line f.name
  methods : ∀ c ∈ o.classes, ∀ m ∈ c.methods, OnLine t m.line m.name
  classes : ∀ c ∈ o.classes, IsLine t c.line
  imports : ∀ i ∈ o.imports, IsLine t i.line

section

variable {part t : Text} {first : Int}

/-- What a group matches stands on the line of its start, if it cannot pass over a newline. -/
theorem NumberedIn.onLine_group (numbered : NumberedIn part t first) {lead body rest : Pattern}
    {index stop : Nat} {m : Match}
    (matched : (lead ++ (.group index body ++ rest)).IsMatch (.upTo part stop) m)
    (own : index ∉ rest.groups) (flat : body.passes '\n' = false) :
    OnLine t ((LineIndex.ofText part first).lineOf (m.groupStart index)) (m.groupText part index) := by
  obtain ⟨j, _, _, recorded, -, bodyWay, -⟩ := matched.group own
  have written : m.groupText part index = part.slice (m.groupStart index) j := by
    rw [Match.groupText, Match.group?, recorded]
    rfl
  rw [written]
  apply numbered.onLine
  intro newline
  rw [toList_slice, Array.toList_extract, List.extract_eq_take_drop] at newline
  obtain ⟨k, inStretch, here⟩ := List.mem_iff_getElem?.mp newline |>.imp fun k here =>
    (⟨(List.getElem?_eq_some_iff.mp here).1, here⟩ : _ ∧ _)
  rw [List.length_take] at inStretch
  rw [List.getElem?_take_of_lt (by omega), List.getElem?_drop, Array.getElem?_toList] at here
  obtain ⟨c, there, other⟩ := ne_of_not_passes flat bodyWay (m.groupStart index + k) (by omega)
    (by omega)
  exact other (Option.some.inj (there.symm.trans here))

theorem findAll_ofText {p : Pattern} {m : Match} (found : m ∈ p.findAll (.ofText t)) :
    p.IsMatch (.upTo t t.size) m := by
  have matched := isMatch_of_mem_findAll found
  rwa [Subject.ofText, ← Nat.min_self t.size] at matched

/-! ## PHP -/

namespace Php

theorem placed (t : Text) (path : String) : (outline t path).Placed t where
  functions := by
    intro f member
    obtain ⟨m, found, rfl⟩ := List.mem_map.mp (List.mem_filter.mp member).1
    have matched := findAll_ofText found
    rw [functionPattern_eq] at matched
    exact (NumberedIn.refl t).onLine_group matched (by decide) (by decide)
  methods := by
    intro c inClasses method member
    rw [methods_of_mem_classes inClasses] at member
    obtain ⟨m, found, rfl⟩ := List.mem_map.mp member
    have matched := (isMatch_of_mem_findAllFrom (List.mem_filter.mp found).1).2
    rw [methodPattern_eq] at matched
    exact (NumberedIn.refl t).onLine_group matched (by decide) (by decide)
  classes := by
    intro c member
    obtain ⟨m, -, rfl⟩ := List.mem_map.mp member
    exact (NumberedIn.refl t).isLine _
  imports := by
    intro i member
    rcases List.mem_append.mp member with isUse | isRequire
    · obtain ⟨m, -, rfl⟩ := List.mem_map.mp isUse
      exact (NumberedIn.refl t).isLine _
    · obtain ⟨m, -, rfl⟩ := List.mem_map.mp isRequire
      exact (NumberedIn.refl t).isLine _

end Php

/-! ## Scripts -/

namespace Script

theorem onLine_of_mem_methodsOf (numbered : NumberedIn part t first) {opening : Nat} {method : Method}
    (member : method ∈ methodsOf part (.ofText part first) opening) :
    OnLine t method.line method.name := by
  obtain ⟨m, -, matched, header⟩ := exists_header_of_mem_methodsOf member
  rw [Reference.methodPattern_eq] at matched
  rw [header.line, header.name]
  -- The mark of privacy is no part of the name.
  apply (numbered.onLine_group matched (by decide) (by decide)).part
  simp only [Text.stripLeft, String.toList_ofList]
  exact (List.dropWhile_suffix _).isInfix

theorem line_importOf (t : Text) (index : LineIndex) (m : Match) :
    (importOf t index m).line = index.lineOf m.start := by
  unfold importOf
  generalize clauseBindings (m.groupText t 1) = bindings
  rfl

theorem start_importOf (t : Text) (index : LineIndex) (m : Match) :
    (importOf t index m).start = m.start := by
  unfold importOf
  generalize clauseBindings (m.groupText t 1) = bindings
  rfl

theorem placed (numbered : NumberedIn part t first) (path language : String) :
    (outline part path language first).Placed t where
  functions := by
    intro f member
    obtain ⟨m, found, rfl⟩ | ⟨m, found, rfl⟩ := header_of_mem_functions member
    · have matched := findAll_ofText found
      rw [functionPattern_eq] at matched
      exact numbered.onLine_group matched (by decide) (by decide)
    · have matched := findAll_ofText found
      rw [arrowPattern_eq] at matched
      exact numbered.onLine_group matched (by decide) (by decide)
  methods := by
    intro c inClasses method member
    obtain ⟨header, -, rfl⟩ := List.mem_map.mp inClasses
    exact onLine_of_mem_methodsOf numbered member
  classes := by
    intro c member
    obtain ⟨m, -, rfl⟩ := List.mem_map.mp member
    exact numbered.isLine _
  imports := by
    intro i member
    simp only [outline, imports, List.mem_mergeSort, List.mem_append, List.mem_map] at member
    obtain (⟨m, -, rfl⟩ | ⟨m, -, rfl⟩) | ⟨m, -, rfl⟩ := member
    · rw [line_importOf]
      exact numbered.isLine _
    · exact numbered.isLine _
    · exact numbered.isLine _

end Script

/-! ## Components -/

namespace Component

theorem numberedIn_block (t : Text) (m : Match) :
    NumberedIn (Text.ofString (m.groupText t 2)) t ((LineIndex.ofText t 1).lineOf (m.groupStart 2)) := by
  rw [Match.groupText, Match.group?, Match.groupStart]
  cases m.span? 2 with
  | none =>
    -- A block that takes no part is empty.
    refine ⟨t.toList.take m.start, t.toList.drop m.start, ?_, LineIndex.lineOf_ofText t 1 m.start⟩
    exact (List.take_append_drop m.start t.toList).symm
  | some span => exact .slice t span.1 span.2

theorem placed_block (t : Text) (path : String) (m : Match) :
    (blockOutline t path (.ofText t 1) m).Placed t :=
  Script.placed (numberedIn_block t m) path _

theorem placed (t : Text) (path : String) : (outline t path).Placed t where
  functions := by
    intro f member
    simp only [outline, List.flatMap_map, List.mem_flatMap] at member
    obtain ⟨m, -, inBlock⟩ := member
    exact (placed_block t path m).functions f inBlock
  methods := by
    intro c inClasses
    simp only [outline, List.flatMap_map, List.mem_flatMap] at inClasses
    obtain ⟨m, -, inBlock⟩ := inClasses
    exact (placed_block t path m).methods c inBlock
  classes := by
    intro c member
    simp only [outline, List.flatMap_map, List.mem_flatMap] at member
    obtain ⟨m, -, inBlock⟩ := member
    exact (placed_block t path m).classes c inBlock
  imports := by
    intro i member
    simp only [outline, List.flatMap_map, List.mem_flatMap] at member
    obtain ⟨m, -, inBlock⟩ := member
    exact (placed_block t path m).imports i inBlock

end Component

end

theorem placed_outline (kind : SourceKind) (t : Text) (path : String) :
    (kind.outline t path).Placed t := by
  cases kind with
  | php => exact Php.placed t path
  | script => exact Script.placed (.refl t) path _
  | component => exact Component.placed t path

/-- The outline of a file is one of this file. -/
theorem path_outline (kind : SourceKind) (t : Text) (path : String) :
    (kind.outline t path).path = path := by
  cases kind with
  | php | script | component => rfl

end Surveyor
