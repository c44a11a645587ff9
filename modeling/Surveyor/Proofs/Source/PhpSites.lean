import Surveyor.Proofs.Source.Braces
import Surveyor.Source.Php

/-! # Sites of PHP declarations

A function is kept out of the classes by the braces since the last class header, a method is found
in the block of its class. The two agree as long as the last header before the site is the one of
the class itself; `reported_twice_iff` says that they disagree on exactly the sites with a further
class header between the opening brace of the class and the site.
-/

namespace Surveyor

namespace Php

open Pattern

variable {t : Text}

/-! ## Class headers -/

def classRest : Pattern :=
  blanks1 ++ .group 2 word
    ++ opt (blanks1 ++ lit "extends" ++ blanks1 ++ .group 3 qualifiedNames)
    ++ opt (blanks1 ++ lit "implements" ++ blanks1 ++ .group 4 qualifiedNames)
    ++ blanks

theorem classPattern_eq :
    classPattern = (statementStart ++ modifiers ["abstract", "final", "readonly"])
      ++ (.group 1 (words ["class", "interface", "trait"]) ++ (classRest ++ char '{')) :=
  rfl

/-- The parts of a class header that decide what belongs to the class. -/
structure ClassHeader (t : Text) (m : Match) : Prop where
  kindWithin : m.start ≤ m.groupStart 1
  kindFirst : m.groupStart 1 < m.stop
  opens : t[m.stop - 1]? = some '{'
  /-- There are no braces between the kind and the opening brace. -/
  flat : depthBetween t (m.groupStart 1) (m.stop - 1 : Nat) = 0

theorem classHeader_of_mem {m : Match} (member : m ∈ classPattern.findAll (.ofText t)) :
    ClassHeader t m := by
  have matched := isMatch_of_mem_findAll member
  rw [classPattern_eq] at matched
  obtain ⟨kindEnd, _, _, -, leading, keyword, tail⟩ := matched.group (by decide)
  obtain ⟨brace, _, restWay, braceWay⟩ := mem_ways_append.mp tail
  obtain ⟨present, stops, -⟩ := mem_ways_one.mp braceWay
  have bracedAt : m.stop - 1 = brace := by omega
  have leadingEnd := (le_of_mem_ways leading).1
  have keywordEnd := (le_of_mem_ways keyword).1
  have restEnd := (le_of_mem_ways restWay).1
  refine ⟨by omega, by omega, ?_, ?_⟩
  · obtain ⟨c, here, isBrace⟩ := Subject.getElem?_of_has present
    rw [bracedAt, beq_iff_eq.mp isBrace]
    exact here
  · -- Neither the kind nor what follows it can pass over a brace.
    rw [bracedAt, depthBetween_add t keywordEnd restEnd]
    have flatKeyword := depthBetween_of_flat (by decide) (by decide) keyword
    have flatRest := depthBetween_of_flat (by decide) (by decide) restWay
    simp only [Subject.ofText] at flatKeyword flatRest
    rw [flatKeyword, flatRest]
    rfl

theorem mem_classes {index : LineIndex} {c : ClassDeclaration} :
    c ∈ classes t index ↔
      ∃ m ∈ classPattern.findAll (.ofText t), classOf t index m = c := by
  simp [classes]

theorem methods_of_mem_classes {index : LineIndex} {c : ClassDeclaration}
    (member : c ∈ classes t index) : c.methods = methodsOf t index c.body := by
  obtain ⟨m, -, rfl⟩ := mem_classes.mp member
  rfl

theorem header_of_mem_classes {index : LineIndex} {c : ClassDeclaration}
    (member : c ∈ classes t index) :
    c.offset ≤ c.body ∧ t[c.body]? = some '{' ∧ depthBetween t c.offset c.body = 0 := by
  obtain ⟨m, found, rfl⟩ := mem_classes.mp member
  have header := classHeader_of_mem found
  have first := header.kindFirst
  exact ⟨by simp only [classOf]; omega, header.opens, header.flat⟩

/-- Class headers do not overlap: of two classes, the kind of one comes after the opening brace of
the other, unless they start together. -/
theorem classes_apart {index : LineIndex} {c c' : ClassDeclaration} (member : c ∈ classes t index)
    (member' : c' ∈ classes t index) :
    c.offset = c'.offset ∨ c.body < c'.offset ∨ c'.body < c.offset := by
  obtain ⟨m, found, rfl⟩ := mem_classes.mp member
  obtain ⟨m', found', rfl⟩ := mem_classes.mp member'
  have header := classHeader_of_mem found
  have header' := classHeader_of_mem found'
  have first := header.kindFirst
  have within := header.kindWithin
  have first' := header'.kindFirst
  have within' := header'.kindWithin
  simp only [classOf]
  rcases findAll_apart found found' with rfl | before | behind
  · exact .inl rfl
  · omega
  · omega

/-! ## Methods and functions -/

def methodRest : Pattern :=
  blanks ++ char '(' ++ .group 3 parameters ++ char ')'
    ++ opt (blanks ++ char ':' ++ blanks ++ .group 4 typeName) ++ blanks
    ++ .one fun c => c == '{' || c == ';'

theorem methodPattern_eq :
    methodPattern =
      (.group 1 (modifiers ["public", "protected", "private", "static", "abstract", "final"])
        ++ lit "function" ++ blanks1 ++ opt (char '&')) ++ (.group 2 word ++ methodRest) :=
  rfl

/-- The name of a method stands directly in the block of its class. -/
theorem method_name_site {index : LineIndex} {opening : Nat} {method : Method}
    (member : method ∈ methodsOf t index opening) {offset : Nat} (after : method.offset ≤ offset)
    (upTo : offset ≤ method.offset + method.name.length) : OneBraceDeep t opening offset := by
  simp only [methodsOf, List.mem_map, List.mem_filter, inBody, beq_iff_eq] at member
  obtain ⟨m, ⟨found, directly⟩, rfl⟩ := member
  obtain ⟨from_, matched⟩ := isMatch_of_mem_findAllFrom found
  rw [methodPattern_eq] at matched
  exact oneBraceDeep_of_isMatch matched (by decide) (by decide) (by decide) (by decide) from_ directly
    after upTo

theorem method_site {index : LineIndex} {opening : Nat} {method : Method}
    (member : method ∈ methodsOf t index opening) :
    opening < method.offset ∧ method.offset < blockEnd t opening
      ∧ depthBetween t opening method.offset = 1 :=
  method_name_site member (Nat.le_refl _) (Nat.le_add_right _ _)

theorem function_site_iff {index : LineIndex} {declared : List ClassDeclaration} {offset : Nat} :
    (∃ f ∈ functions t index declared, f.offset = offset) ↔
      (∃ header ∈ functionPattern.findAll (.ofText t), header.groupStart 1 = offset)
        ∧ (ClassScope.ofHeaders t (declared.map fun c => (c.offset : Int))).contains offset
            = false := by
  simp only [functions, List.mem_filter, List.mem_map]
  constructor
  · rintro ⟨f, ⟨⟨header, found, rfl⟩, outside⟩, rfl⟩
    exact ⟨⟨header, found, rfl⟩, by simpa using outside⟩
  · rintro ⟨⟨header, found, rfl⟩, outside⟩
    exact ⟨functionOf t index header, ⟨⟨header, found, rfl⟩, by simpa [functionOf] using outside⟩, rfl⟩

/-! ## Where the two disagree -/

/-- A site directly in the block of a class is taken to be inside of a class exactly if no further
class header comes between. -/
theorem contains_site_iff {index : LineIndex} {c : ClassDeclaration} (member : c ∈ classes t index)
    {offset : Nat} (after : c.body < offset) (inside : offset < blockEnd t c.body)
    (directly : depthBetween t c.body offset = 1) :
    (ClassScope.ofHeaders t ((classes t index).map fun c => (c.offset : Int))).contains offset
        = false ↔
      ∃ c' ∈ classes t index, c.body < c'.offset ∧ c'.offset ≤ offset := by
  have header := header_of_mem_classes member
  have known : ∀ c ∈ classes t index,
      (c.offset : Int) ∈ (classes t index).map fun c => (c.offset : Int) :=
    fun c member => List.mem_map.mpr ⟨c, member, rfl⟩
  have ownReached : (c.offset : Int) ≤ offset := by omega
  obtain ⟨last, isLast, lastKnown, reached, greatest⟩ :=
    ClassScope.exists_lastHeader? t (known c member) ownReached
  -- The scope counts from the last header before the site. That is the one of `c`, or a later one.
  obtain ⟨inner, innerMember, rfl⟩ := List.mem_map.mp lastKnown
  have innerReached : inner.offset ≤ offset := by omega
  have atLeastOwn : c.offset ≤ inner.offset := by
    have := greatest c.offset (known c member) ownReached
    omega
  have decided : (ClassScope.ofHeaders t ((classes t index).map fun c => (c.offset : Int))).contains
      offset = false ↔ depthBetween t inner.offset offset ≤ 0 := by
    rw [ClassScope.contains, isLast]
    simp [ClassScope.ofHeaders]
  rw [decided]
  constructor
  · intro closed
    refine ⟨inner, innerMember, ?_, innerReached⟩
    rcases classes_apart member innerMember with same | nested | outside
    · rw [← same, depthBetween_add t header.1 (Nat.le_of_lt after), header.2.2, directly] at closed
      omega
    · exact nested
    · have := (header_of_mem_classes innerMember).1
      omega
  · rintro ⟨further, furtherMember, nested, furtherReached⟩
    have atLeastFurther := greatest further.offset (known further furtherMember) (by omega)
    have nestedLast : c.body < inner.offset := by omega
    -- At the last header the block of `c` is still open, so nothing of the one level at the site is
    -- left to be counted from there.
    have stillOpen : 0 < depthBetween t c.body inner.offset :=
      depth_pos_of_lt_blockEnd header.2.1 nestedLast (by omega)
    have parts := depthBetween_add t (Nat.le_of_lt nestedLast) innerReached
    omega

/-- A site is reported both as a function and as a method exactly if its header has the form of a
function and another class header stands between the opening brace of its class and the site. -/
theorem reported_twice_iff (t : Text) (path : String) (offset : Nat) :
    ((∃ f ∈ (outline t path).functions, f.offset = offset)
        ∧ ∃ c ∈ (outline t path).classes, ∃ method ∈ c.methods, method.offset = offset) ↔
      (∃ header ∈ functionPattern.findAll (.ofText t), header.groupStart 1 = offset)
        ∧ ∃ c ∈ (outline t path).classes, (∃ method ∈ c.methods, method.offset = offset)
          ∧ ∃ c' ∈ (outline t path).classes, c.body < c'.offset ∧ c'.offset ≤ offset := by
  simp only [outline, function_site_iff]
  constructor
  · rintro ⟨⟨header, outside⟩, c, member, method, inClass, rfl⟩
    obtain ⟨after, inside, directly⟩ := method_site (methods_of_mem_classes member ▸ inClass)
    exact ⟨header, c, member, ⟨method, inClass, rfl⟩,
      (contains_site_iff member after inside directly).mp outside⟩
  · rintro ⟨header, c, member, ⟨method, inClass, rfl⟩, nested⟩
    obtain ⟨after, inside, directly⟩ := method_site (methods_of_mem_classes member ▸ inClass)
    exact ⟨⟨header, (contains_site_iff member after inside directly).mpr nested⟩, c, member, method,
      inClass, rfl⟩

/-- A class with the header of another one in a comment before its only method. -/
def besideComment : Text :=
  Text.ofString "<?php\nclass A \x7b\n/*\nclass Old \x7b \x7d\n*/\nfunction foo() \x7b\x7d\n\x7d\n"

theorem besideComment_nested :
    ∀ c ∈ (outline besideComment "a.php").classes,
      (∃ method ∈ c.methods, method.offset = 45) →
        ∃ c' ∈ (outline besideComment "a.php").classes, c.body < c'.offset ∧ c'.offset ≤ 45 := by
  decide +kernel

theorem method_and_function_overlap :
    ¬∀ (t : Text) (path : String) (offset : Nat),
      ¬((∃ f ∈ (outline t path).functions, f.offset = offset)
        ∧ ∃ c ∈ (outline t path).classes, ∃ method ∈ c.methods, method.offset = offset) := by
  intro disjoint
  have asMethod : ∃ c ∈ (outline besideComment "a.php").classes,
      ∃ method ∈ c.methods, method.offset = 45 := by
    decide +kernel
  refine disjoint besideComment "a.php" 45 ⟨function_site_iff.mpr ⟨by decide +kernel, ?_⟩, asMethod⟩
  obtain ⟨c, member, method, inClass, site⟩ := asMethod
  obtain ⟨after, inside, directly⟩ := method_site (methods_of_mem_classes member ▸ inClass)
  rw [site] at after inside directly
  exact (contains_site_iff member after inside directly).mpr
    (besideComment_nested c member ⟨method, inClass, site⟩)

end Php

end Surveyor
