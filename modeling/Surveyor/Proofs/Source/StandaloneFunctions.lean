import Surveyor.Proofs.Quality.Declared

/-! # Functions outside of classes

A function is standalone if the braces since the last class header before it are balanced. The count
does not stop at the end of the class, so a function outside of every class is missed if it stands in
a block that was opened after that end; `standalone_reported_iff` says that no other one is missed.

What a class header has to offer for this is little (`Headed`): it opens no brace before the one of
the block. Up to the block the depth is then never positive, and past the block it is the depth of
what follows.
-/

namespace Surveyor

open Pattern

variable {t : Text}

/-! ## Positions after a class -/

/-- A class whose header opens the block and no brace before it. -/
structure ClassDeclaration.Headed (t : Text) (c : ClassDeclaration) : Prop where
  before : c.offset ≤ c.body
  opens : t[c.body]? = some '{'
  noneOpened : ∀ k, c.offset ≤ k → k < c.body → ∃ char, t[k]? = some char ∧ char ≠ '{'

/-- The class with the last header at or before a position. -/
structure IsLastClass (classes : List ClassDeclaration) (position : Nat) (c : ClassDeclaration) :
    Prop where
  member : c ∈ classes
  reached : c.offset ≤ position
  latest : ∀ other ∈ classes, other.offset ≤ position → other.offset ≤ c.offset

def OutsideBlocks (t : Text) (classes : List ClassDeclaration) (position : Nat) : Prop :=
  ∀ c ∈ classes, ¬ (c.body ≤ position ∧ position < blockEnd t c.body)

/-- The closing braces that a class header passes over. -/
def ClassDeclaration.strayClosings (t : Text) (c : ClassDeclaration) : Int :=
  -depthBetween t c.offset c.body

/-- After the block of the last class more braces are opened up to the position than are closed there
or in the header of the class. -/
def ReopenedAt (t : Text) (classes : List ClassDeclaration) (position : Nat) : Prop :=
  ∃ c, IsLastClass classes position c
    ∧ c.strayClosings t < depthBetween t (blockEnd t c.body) position

instance (classes : List ClassDeclaration) (position : Nat) :
    Decidable (OutsideBlocks t classes position) :=
  inferInstanceAs (Decidable (∀ c ∈ classes, ¬ (c.body ≤ position ∧ position < blockEnd t c.body)))

theorem reopenedAt_iff {classes : List ClassDeclaration} {position : Nat} :
    ReopenedAt t classes position ↔ ∃ c ∈ classes, c.offset ≤ position
      ∧ (∀ other ∈ classes, other.offset ≤ position → other.offset ≤ c.offset)
      ∧ c.strayClosings t < depthBetween t (blockEnd t c.body) position := by
  constructor
  · rintro ⟨c, ⟨member, reached, latest⟩, opened⟩
    exact ⟨c, member, reached, latest, opened⟩
  · rintro ⟨c, member, reached, latest, opened⟩
    exact ⟨c, ⟨member, reached, latest⟩, opened⟩

instance (classes : List ClassDeclaration) (position : Nat) :
    Decidable (ReopenedAt t classes position) :=
  decidable_of_iff _ reopenedAt_iff.symm

theorem strayClosings_nonneg {c : ClassDeclaration} (headed : c.Headed t) :
    0 ≤ c.strayClosings t := by
  have flat := depthBetween_nonpos headed.noneOpened
  unfold ClassDeclaration.strayClosings
  omega

/-- From the header of a class on, the depth at a position outside of its block is positive exactly
if braces opened after the block are left. -/
theorem depth_since_header {c : ClassDeclaration} (headed : c.Headed t) {position : Nat}
    (inText : position < t.size)
    (outside : ¬ (c.body ≤ position ∧ position < blockEnd t c.body)) :
    0 < depthBetween t c.offset position ↔
      c.strayClosings t < depthBetween t (blockEnd t c.body) position := by
  rcases Nat.lt_or_ge position c.body with inHeader | afterHeader
  · -- Before the block nothing is opened, neither by the header nor since the block.
    have flat : depthBetween t c.offset position ≤ 0 :=
      depthBetween_nonpos fun k from_ inside => headed.noneOpened k from_ (by omega)
    have none_ : depthBetween t (blockEnd t c.body) position ≤ 0 := by
      rcases Nat.lt_or_ge (blockEnd t c.body) t.size with closed | unclosed
      · have := (depth_blockEnd closed).1
        exact depthBetween_nonpos fun k from_ inside => by omega
      · exact depthBetween_nonpos fun k from_ inside => by omega
    have := strayClosings_nonneg headed
    omega
  · -- The block is closed, or it would reach to the end of the text.
    have beyond : blockEnd t c.body ≤ position := by omega
    obtain ⟨from_, balanced⟩ := depth_blockEnd (Nat.lt_of_le_of_lt beyond inText)
    rw [depthBetween_add t headed.before afterHeader, depthBetween_add t from_ beyond, balanced]
    unfold ClassDeclaration.strayClosings
    omega

theorem contains_iff {classes : List ClassDeclaration} {position : Nat} :
    (ClassScope.ofHeaders t (classes.map fun c => (c.offset : Int))).contains position = true ↔
      ∃ c, IsLastClass classes position c ∧ 0 < depthBetween t c.offset position := by
  -- The headers are the offsets of the classes, so the last header before a position is that of the
  -- last class.
  have isLast_iff : ∀ header : Int,
      (ClassScope.ofHeaders t (classes.map fun c => (c.offset : Int))).lastHeader? position
          = some header ↔ ∃ c, IsLastClass classes position c ∧ (c.offset : Int) = header := by
    intro header
    simp only [ClassScope.lastHeader?_eq_some_iff, List.mem_map, forall_exists_index, and_imp,
      forall_apply_eq_imp_iff₂]
    constructor
    · rintro ⟨⟨c, member, rfl⟩, reached, latest⟩
      exact ⟨c, ⟨member, by omega, fun other known upTo =>
        by have := latest other known (by omega); omega⟩, rfl⟩
    · rintro ⟨c, ⟨member, reached, latest⟩, rfl⟩
      exact ⟨⟨c, member, rfl⟩, by omega, fun other known upTo =>
        by have := latest other known (by omega); omega⟩
  rw [ClassScope.contains]
  cases found : (ClassScope.ofHeaders t (classes.map fun c => (c.offset : Int))).lastHeader?
      position with
  | none =>
    simp only [Bool.false_eq_true, false_iff]
    rintro ⟨c, isLast, -⟩
    rw [(isLast_iff c.offset).mpr ⟨c, isLast, rfl⟩] at found
    cases found
  | some header =>
    simp only [ClassScope.ofHeaders, gt_iff_lt, decide_eq_true_eq]
    constructor
    · intro opened
      obtain ⟨c, isLast, rfl⟩ := (isLast_iff header).mp found
      exact ⟨c, isLast, opened⟩
    · rintro ⟨c, isLast, opened⟩
      rw [(isLast_iff c.offset).mpr ⟨c, isLast, rfl⟩] at found
      cases found
      exact opened

theorem contains_outside_iff {classes : List ClassDeclaration}
    (headed : ∀ c ∈ classes, c.Headed t) {position : Nat} (inText : position < t.size)
    (outside : OutsideBlocks t classes position) :
    (ClassScope.ofHeaders t (classes.map fun c => (c.offset : Int))).contains position = true ↔
      ReopenedAt t classes position := by
  rw [contains_iff]
  constructor
  · rintro ⟨c, isLast, opened⟩
    exact ⟨c, isLast, (depth_since_header (headed c isLast.member) inText
      (outside c isLast.member)).mp opened⟩
  · rintro ⟨c, isLast, opened⟩
    exact ⟨c, isLast, (depth_since_header (headed c isLast.member) inText
      (outside c isLast.member)).mpr opened⟩

/-! ## Headers -/

/-- A match that ends with the first opening brace after the start of one of its groups. -/
theorem headed_of_isMatch {lead body rest : Pattern} {index : Nat} {m : Match}
    (matched : (lead ++ (.group index body ++ (rest ++ char '{'))).IsMatch (.ofText t) m)
    (own : index ∉ (rest ++ char '{').groups) (flatBody : body.passes '{' = false)
    (flatRest : rest.passes '{' = false) {c : ClassDeclaration}
    (offset : c.offset = m.groupStart index) (body_ : c.body = m.stop - 1) : c.Headed t := by
  obtain ⟨bodyEnd, _, _, -, -, bodyWay, tail⟩ := matched.group own
  obtain ⟨brace, _, restWay, braceWay⟩ := mem_ways_append.mp tail
  obtain ⟨opens, stops⟩ := getElem?_of_mem_char braceWay
  have isBrace : c.body = brace := by omega
  have bodyOrder := (le_of_mem_ways bodyWay).1
  have restOrder := (le_of_mem_ways restWay).1
  refine ⟨by omega, by rw [isBrace]; exact opens, ?_⟩
  intro k from_ inside
  rcases Nat.lt_or_ge k bodyEnd with inBody | inRest
  · exact ne_of_not_passes flatBody bodyWay k (by omega) inBody
  · exact ne_of_not_passes flatRest restWay k inRest (by omega)

/-- A name that a match records stands in the text. -/
theorem inText_of_isMatch {lead rest : Pattern} {class_ : Char → Bool} {index : Nat} {m : Match}
    (matched : (lead ++ (.group index (.greedy class_ 1) ++ rest)).IsMatch (.ofText t) m)
    (own : index ∉ rest.groups) : m.groupStart index < t.size := by
  obtain ⟨_, _, _, -, -, nameWay, -⟩ := matched.group own
  obtain ⟨nonempty, letters, -⟩ := mem_ways_greedy.mp nameWay
  exact Subject.has_lt_stop (letters _ (Nat.le_refl _) nonempty)

/-! ## PHP -/

namespace Php

theorem headed_of_mem_classes {index : LineIndex} {c : ClassDeclaration}
    (member : c ∈ classes t index) : c.Headed t := by
  obtain ⟨m, found, rfl⟩ := mem_classes.mp member
  have matched := isMatch_of_mem_findAll found
  rw [classPattern_eq] at matched
  exact headed_of_isMatch matched (by decide) (by decide) (by decide +kernel) rfl rfl

theorem function_reported_iff {index : LineIndex} {header : Match}
    (found : header ∈ functionPattern.findAll (.ofText t))
    (outside : OutsideBlocks t (classes t index) (header.groupStart 1)) :
    functionOf t index header ∈ functions t index (classes t index) ↔
      ¬ ReopenedAt t (classes t index) (header.groupStart 1) := by
  have matched := isMatch_of_mem_findAll found
  rw [functionPattern_eq] at matched
  rw [← contains_outside_iff (fun c member => headed_of_mem_classes member)
    (inText_of_isMatch matched (by decide)) outside]
  simp only [functions, List.mem_filter, functionOf, Bool.not_eq_true', Bool.not_eq_true,
    and_iff_right_iff_imp]
  exact fun _ => List.mem_map_of_mem found

end Php

/-! ## Scripts -/

namespace Script

def classRest : Pattern :=
  classTypeArguments
    ++ opt (blanks1 ++ lit "extends" ++ blanks1
      ++ .group 3 (.greedy (fun c => isNameChar c || c == '.') 1) ++ classTypeArguments)
    ++ opt (blanks1 ++ lit "implements" ++ blanks1
      ++ .group 4 (.lazy (fun c => isNameChar c || c == '.' || c == ',' || c == '<' || c == '>'
        || isBlank c) 1))
    ++ blanks

theorem classPattern_eq :
    classPattern =
      (freshName ++ opt (.group 1 (lit "export" ++ blanks1 ++ opt (lit "default" ++ blanks1)))
        ++ opt (lit "abstract" ++ blanks1) ++ lit "class" ++ blanks1)
      ++ (.group 2 name ++ (classRest ++ char '{')) :=
  rfl

theorem headed_of_mem_classes {index : LineIndex} {c : ClassDeclaration}
    (member : c ∈ classes t index) : c.Headed t := by
  simp only [classes, List.mem_map] at member
  obtain ⟨m, found, rfl⟩ := member
  have matched := isMatch_of_mem_findAll found
  rw [classPattern_eq] at matched
  exact headed_of_isMatch matched (by decide) (by decide +kernel) (by decide +kernel) rfl rfl

/-- What a scan finds of functions outside of blocks, whatever form they have. -/
theorem mem_functions_iff {index : LineIndex} {f : FunctionDeclaration}
    (found : f ∈ (functionPattern.findAll (.ofText t)).map (functionOf t index)
      ++ (arrowPattern.findAll (.ofText t)).map (arrowOf t index))
    (inText : f.offset < t.size) (outside : OutsideBlocks t (classes t index) f.offset) :
    f ∈ functions t index (classes t index) ↔ ¬ ReopenedAt t (classes t index) f.offset := by
  rw [← contains_outside_iff (fun c member => headed_of_mem_classes member) inText outside]
  simp only [functions, List.mem_mergeSort, List.mem_filter, Bool.not_eq_true', Bool.not_eq_true,
    and_iff_right_iff_imp]
  exact fun _ => found

end Script

/-- A function outside of the blocks of all classes is reported exactly if no brace that was opened
after the block of the last class before it is still open there. -/
theorem standalone_reported_iff (t : Text) (path language : String) (firstLine : Int) :
    (∀ header ∈ Php.functionPattern.findAll (.ofText t),
      OutsideBlocks t (Php.outline t path).classes (header.groupStart 1) →
      (Php.functionOf t (.ofText t 1) header ∈ (Php.outline t path).functions ↔
        ¬ ReopenedAt t (Php.outline t path).classes (header.groupStart 1)))
    ∧ (∀ header ∈ Script.functionPattern.findAll (.ofText t),
      OutsideBlocks t (Script.outline t path language firstLine).classes (header.groupStart 3) →
      (Script.functionOf t (.ofText t firstLine) header
          ∈ (Script.outline t path language firstLine).functions ↔
        ¬ ReopenedAt t (Script.outline t path language firstLine).classes (header.groupStart 3)))
    ∧ ∀ header ∈ Script.arrowPattern.findAll (.ofText t),
      OutsideBlocks t (Script.outline t path language firstLine).classes (header.groupStart 2) →
      (Script.arrowOf t (.ofText t firstLine) header
          ∈ (Script.outline t path language firstLine).functions ↔
        ¬ ReopenedAt t (Script.outline t path language firstLine).classes (header.groupStart 2)) := by
  refine ⟨?_, ?_, ?_⟩
  · intro header found outside
    exact Php.function_reported_iff found outside
  · intro header found outside
    have matched := isMatch_of_mem_findAll found
    rw [Script.functionPattern_eq] at matched
    exact Script.mem_functions_iff
      (List.mem_append_left _ (List.mem_map_of_mem found))
      (inText_of_isMatch matched (by decide)) outside
  · intro header found outside
    have matched := isMatch_of_mem_findAll found
    rw [Script.arrowPattern_eq] at matched
    exact Script.mem_functions_iff
      (List.mem_append_right _ (List.mem_map_of_mem found))
      (inText_of_isMatch matched (by decide)) outside

/-- A class, then a function in the block of a condition and one after it. -/
def behindClass : Text :=
  Text.ofString
    "<?php\nclass A \x7b\x7d\nif (true) \x7b\nfunction foo() \x7b\x7d\n\x7d\nfunction bar() \x7b\x7d\n"

/-- The same in a script, with an arrow function in the block. -/
def scriptBehindClass : Text :=
  Text.ofString
    "class A \x7b\x7d\nif (x) \x7b const foo = () => 1; \x7d\nfunction bar() \x7b\x7d\n"

theorem behindClass_reopened :
    ∃ header ∈ Php.functionPattern.findAll (.ofText behindClass),
      header.groupText behindClass 1 = "foo"
        ∧ OutsideBlocks behindClass (Php.outline behindClass "a.php").classes (header.groupStart 1)
        ∧ ReopenedAt behindClass (Php.outline behindClass "a.php").classes (header.groupStart 1) := by
  decide +kernel

theorem behindClass_standalone :
    (∃ header ∈ Php.functionPattern.findAll (.ofText behindClass),
      header.groupText behindClass 1 = "bar"
        ∧ Php.functionOf behindClass (.ofText behindClass 1) header
          ∈ (Php.outline behindClass "a.php").functions)
    ∧ (∃ header ∈ Script.functionPattern.findAll (.ofText scriptBehindClass),
      header.groupText scriptBehindClass 3 = "bar"
        ∧ Script.functionOf scriptBehindClass (.ofText scriptBehindClass 1) header
          ∈ (Script.outline scriptBehindClass "a.js" "javascript" 1).functions)
    ∧ ∃ header ∈ Script.arrowPattern.findAll (.ofText scriptBehindClass),
      header.groupText scriptBehindClass 2 = "foo"
        ∧ Script.arrowOf scriptBehindClass (.ofText scriptBehindClass 1) header
          ∉ (Script.outline scriptBehindClass "a.js" "javascript" 1).functions := by
  have inPhp := (standalone_reported_iff behindClass "a.php" "" 1).1
  have inScript := (standalone_reported_iff scriptBehindClass "a.js" "javascript" 1).2
  refine ⟨?_, ?_, ?_⟩
  · obtain ⟨header, found, named, outside, balanced⟩ :
        ∃ header ∈ Php.functionPattern.findAll (.ofText behindClass),
          header.groupText behindClass 1 = "bar"
            ∧ OutsideBlocks behindClass (Php.outline behindClass "a.php").classes (header.groupStart 1)
            ∧ ¬ ReopenedAt behindClass (Php.outline behindClass "a.php").classes
              (header.groupStart 1) := by
      decide +kernel
    exact ⟨header, found, named, (inPhp header found outside).mpr balanced⟩
  · obtain ⟨header, found, named, outside, balanced⟩ :
        ∃ header ∈ Script.functionPattern.findAll (.ofText scriptBehindClass),
          header.groupText scriptBehindClass 3 = "bar"
            ∧ OutsideBlocks scriptBehindClass
              (Script.outline scriptBehindClass "a.js" "javascript" 1).classes (header.groupStart 3)
            ∧ ¬ ReopenedAt scriptBehindClass
              (Script.outline scriptBehindClass "a.js" "javascript" 1).classes
              (header.groupStart 3) := by
      decide +kernel
    exact ⟨header, found, named, (inScript.1 header found outside).mpr balanced⟩
  · obtain ⟨header, found, named, outside, reopened⟩ :
        ∃ header ∈ Script.arrowPattern.findAll (.ofText scriptBehindClass),
          header.groupText scriptBehindClass 2 = "foo"
            ∧ OutsideBlocks scriptBehindClass
              (Script.outline scriptBehindClass "a.js" "javascript" 1).classes (header.groupStart 2)
            ∧ ReopenedAt scriptBehindClass
              (Script.outline scriptBehindClass "a.js" "javascript" 1).classes
              (header.groupStart 2) := by
      decide +kernel
    exact ⟨header, found, named, fun reported =>
      (inScript.2 header found outside).mp reported reopened⟩

/-- Not every function outside of the blocks of all classes is reported. -/
theorem standalone_function_missed :
    ¬ ∀ (t : Text) (path language : String) (firstLine : Int),
      (∀ header ∈ Php.functionPattern.findAll (.ofText t),
        OutsideBlocks t (Php.outline t path).classes (header.groupStart 1) →
        Php.functionOf t (.ofText t 1) header ∈ (Php.outline t path).functions)
      ∧ (∀ header ∈ Script.functionPattern.findAll (.ofText t),
        OutsideBlocks t (Script.outline t path language firstLine).classes (header.groupStart 3) →
        Script.functionOf t (.ofText t firstLine) header
          ∈ (Script.outline t path language firstLine).functions)
      ∧ ∀ header ∈ Script.arrowPattern.findAll (.ofText t),
        OutsideBlocks t (Script.outline t path language firstLine).classes (header.groupStart 2) →
        Script.arrowOf t (.ofText t firstLine) header
          ∈ (Script.outline t path language firstLine).functions := by
  intro allReported
  obtain ⟨header, found, -, outside, reopened⟩ := behindClass_reopened
  have reported := (allReported behindClass "a.php" "" 1).1 header found outside
  exact (Php.function_reported_iff found outside).mp reported reopened

end Surveyor
