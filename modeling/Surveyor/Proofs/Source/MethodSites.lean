import Surveyor.Proofs.Source.StandaloneFunctions

/-! # Sites of methods

A method is found in the block of its class, one brace below the opening brace. Blocks may nest and
need not be closed, and each class is searched on its own; still no site is one brace deep in the
blocks of two classes (`OneBraceDeep.unique`): from the outer of two opening braces on, the depth is
positive as far as its block reaches, so what is one brace below the inner one lies deeper in the outer
block. Class headers follow one another, so no two of them open the same block
(`methods_have_one_class`).
-/

namespace Surveyor

open Pattern

section

variable {t : Text}

/-- Matches that consume something end one after the other. -/
theorem findAll_stops_increase {p : Pattern} (consuming : p.consumes = true) (s : Subject) :
    (p.findAll s).Pairwise fun m later => m.stop < later.stop := by
  refine (List.Pairwise.and_mem.mp (findAllFrom_pairwise p s 0)).imp ?_
  rintro m later ⟨known, knownLater, follows⟩
  have order := stop_le_resumeAt (isMatch_of_mem_findAll known)
  have advances := lt_of_consumes consuming (isMatch_of_mem_findAll knownLater)
  omega

/-- What an outline promises of its methods: they stand one brace deep in the blocks of their classes,
and the classes are listed in the order in which their blocks open. -/
structure Outline.Encloses (o : Outline) (t : Text) : Prop where
  opens : ∀ c ∈ o.classes, t[c.body]? = some '{'
  inBlock : ∀ c ∈ o.classes, ∀ m ∈ c.methods, ∀ offset, m.offset ≤ offset →
    offset ≤ m.offset + m.name.length → OneBraceDeep t c.body offset
  ordered : o.classes.Pairwise fun c later => c.body < later.body

/-! ## PHP -/

namespace Php

theorem encloses (t : Text) (path : String) : (outline t path).Encloses t where
  opens := fun c member => (headed_of_mem_classes member).opens
  inBlock := by
    intro c inClasses method member offset after upTo
    rw [methods_of_mem_classes inClasses] at member
    exact method_name_site member after upTo
  ordered := by
    have increase := findAll_stops_increase (p := classPattern) (by decide) (.ofText t)
    refine List.pairwise_map.mpr ((List.Pairwise.and_mem.mp increase).imp ?_)
    rintro m later ⟨known, -, before⟩
    have opened := (classHeader_of_mem known).kindFirst
    simp only [classOf]
    omega

end Php

/-! ## Scripts -/

namespace Script

theorem encloses (t : Text) (path language : String) (firstLine : Int) :
    (outline t path language firstLine).Encloses t where
  opens := fun c member => (headed_of_mem_classes member).opens
  inBlock := by
    intro c inClasses method member offset after upTo
    obtain ⟨header, -, rfl⟩ := List.mem_map.mp inClasses
    obtain ⟨m, from_, matched, isHeader⟩ := exists_header_of_mem_methodsOf member
    rw [Reference.methodPattern_eq] at matched
    rw [isHeader.offset] at after upTo
    apply oneBraceDeep_of_isMatch matched (by decide) (by decide) (by decide) (by decide)
      (Nat.le_trans (Nat.le_succ _) from_) isHeader.atDepth after
    -- The mark of privacy is no part of the name.
    have shorter := (List.dropWhile_suffix (· == '#') (l := (m.groupText t 2).toList)).length_le
    rw [isHeader.name, Text.stripLeft, String.length_ofList] at upTo
    rw [← String.length_toList (s := m.groupText t 2)]
    omega
  ordered := by
    have increase := findAll_stops_increase (p := classPattern) (by decide) (.ofText t)
    refine List.pairwise_map.mpr ((List.Pairwise.and_mem.mp increase).imp ?_)
    rintro m later ⟨known, -, before⟩
    have opened : m.start < m.stop :=
      lt_of_consumes (p := classPattern) (by decide) (isMatch_of_mem_findAll known)
    simp only [classOf]
    omega

end Script

end

/-- Every site of a method belongs to one class: class headers that report methods whose names start at
the same offset are the same. And from its start to its end, the name of every method lies in the
block of its class, at a depth of one brace. -/
theorem methods_have_one_class (t : Text) (path language : String) (firstLine : Int) (o : Outline)
    (outlined : o = Php.outline t path ∨ o = Script.outline t path language firstLine) :
    (∀ (i j : Nat) (c c' : ClassDeclaration), o.classes[i]? = some c → o.classes[j]? = some c' →
      ∀ m ∈ c.methods, ∀ m' ∈ c'.methods, m.offset = m'.offset → i = j)
    ∧ ∀ c ∈ o.classes, t[c.body]? = some '{' ∧ ∀ m ∈ c.methods, ∀ offset, m.offset ≤ offset →
      offset ≤ m.offset + m.name.length → OneBraceDeep t c.body offset := by
  have encloses : o.Encloses t := by
    rcases outlined with rfl | rfl
    · exact Php.encloses t path
    · exact Script.encloses t path language firstLine
  refine ⟨?_, fun c member => ⟨encloses.opens c member, encloses.inBlock c member⟩⟩
  intro i j c c' here there m inFirst m' inSecond sameSite
  obtain ⟨inList, rfl⟩ := List.getElem?_eq_some_iff.mp here
  obtain ⟨alsoInList, rfl⟩ := List.getElem?_eq_some_iff.mp there
  have member := List.getElem_mem inList
  have alsoMember := List.getElem_mem alsoInList
  have sameBlock : o.classes[i].body = o.classes[j].body :=
    OneBraceDeep.unique (encloses.opens _ member) (encloses.opens _ alsoMember)
      (encloses.inBlock _ member m inFirst m.offset (Nat.le_refl _) (by omega))
      (encloses.inBlock _ alsoMember m' inSecond m.offset (by omega) (by omega))
  rcases Nat.lt_trichotomy i j with before | same | behind
  · have := List.pairwise_iff_getElem.mp encloses.ordered i j inList alsoInList before
    omega
  · exact same
  · have := List.pairwise_iff_getElem.mp encloses.ordered j i alsoInList inList behind
    omega

/-- A class in the block of another one, which is never closed. -/
def nestedClasses : Text :=
  Text.ofString "class A \x7b\nfunction f()\x7b\x7d\nclass B \x7b\nfunction g()\x7b\x7d"

/-- The same in a script, where the inner class stands in a method. -/
def nestedScript : Text :=
  Text.ofString "class A \x7b\nf()\x7b\nclass B \x7b\n#g()\x7b\x7d"

theorem nestedClasses_keep_their_methods :
    ((∃ c, (Php.outline nestedClasses "a.php").classes[0]? = some c
        ∧ ∃ m ∈ c.methods, m.name = "f" ∧ OneBraceDeep nestedClasses c.body (m.offset + 1))
      ∧ ∀ (i : Nat) c, (Php.outline nestedClasses "a.php").classes[i]? = some c →
        ∀ m ∈ c.methods, m.offset = 44 → i = 1)
    ∧ ∃ c, (Script.outline nestedScript "a.js" "javascript" 1).classes[1]? = some c
      ∧ ∃ m ∈ c.methods, m.name = "g" ∧ OneBraceDeep nestedScript c.body (m.offset + 1) := by
  obtain ⟨apart, inBlock⟩ := methods_have_one_class nestedClasses "a.php" "php" 1 _ (.inl rfl)
  obtain ⟨-, inScript⟩ := methods_have_one_class nestedScript "a.js" "javascript" 1 _ (.inr rfl)
  have found : (∃ c, (Php.outline nestedClasses "a.php").classes[0]? = some c
        ∧ ∃ m ∈ c.methods, m.name = "f")
      ∧ ∃ c, (Php.outline nestedClasses "a.php").classes[1]? = some c
        ∧ ∃ m ∈ c.methods, m.offset = 44 := by
    decide +kernel
  have marked : ∃ c, (Script.outline nestedScript "a.js" "javascript" 1).classes[1]? = some c
      ∧ ∃ m ∈ c.methods, m.name = "g" := by
    decide +kernel
  obtain ⟨outer, inner⟩ := found
  refine ⟨⟨?_, ?_⟩, ?_⟩
  · obtain ⟨c, here, m, member, named⟩ := outer
    refine ⟨c, here, m, member, named, ?_⟩
    refine (inBlock c (List.mem_of_getElem? here)).2 m member _ (by omega) ?_
    rw [named]
    exact Nat.le_refl _
  · intro i c here m member site
    obtain ⟨c', there, m', member', site'⟩ := inner
    exact apart i 1 c c' here there m member m' member' (site.trans site'.symm)
  · obtain ⟨c, here, m, member, named⟩ := marked
    refine ⟨c, here, m, member, named, ?_⟩
    refine (inScript c (List.mem_of_getElem? here)).2 m member _ (by omega) ?_
    rw [named]
    exact Nat.le_refl _

end Surveyor
