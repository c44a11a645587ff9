import Surveyor.Proofs.Pattern.Shift
import Surveyor.Proofs.Quality.Mentions
import Surveyor.Proofs.Quality.Reported
import Surveyor.Proofs.Source.PhpSites

/-! # Where a declared name stands

Every name that an outline lists stands in its file in one of three ways (`declaredAt_of_mem_sites`):
after the keyword `function`, before the equals sign or the type of a variable, or in the header of a
method. The script blocks of a component are outlined on their own; what holds in a block holds in the
component, with all offsets shifted to the start of the block.
-/

namespace Surveyor

open Pattern Reference

/-! ## Sites -/

/-- The offset of a method's name without its privacy mark. -/
def bareOffset (t : Text) (offset : Nat) : Nat := if t[offset]? = some '#' then offset + 1 else offset

/-- The functions, and the methods that are not called implicitly, of an outline of the text: where
their names stand, and the names. -/
def Outline.sitesIn (o : Outline) (t : Text) : List (Nat × String) :=
  o.functions.map (fun f => (f.offset, f.name))
    ++ ((o.classes.flatMap (·.methods)).filter (!isImplicitMethod ·.name)).map
      fun m => (bareOffset t m.offset, m.name)

abbrev SourceFile.text (f : SourceFile) : Text := Text.ofString f.content

def SourceFile.sites (f : SourceFile) : List (Nat × String) :=
  match f.kind with
  | .php => (Php.outline f.text f.path).sitesIn f.text
  | .script => (Script.outline f.text f.path (Script.languageOf f.path) 1).sitesIn f.text
  | .component =>
    (Component.scriptPattern.findAll (.ofText f.text)).flatMap fun m =>
      ((Component.blockOutline f.text f.path (LineIndex.ofText f.text 1) m).sitesIn
          (Text.ofString (m.groupText f.text 2))).map
        fun site => (m.groupStart 2 + site.1, site.2)

theorem Outline.map_sitesIn (o : Outline) (t : Text) : (o.sitesIn t).map (·.2) = o.declaredNames := by
  simp [sitesIn, declaredNames, List.filter_map, Function.comp_def]

/-- The names of the sites are those that the outline lists, each as often. -/
theorem SourceFile.map_sites_perm (f : SourceFile) :
    (f.sites.map (·.2)).Perm (f.kind.outline f.text f.path).declaredNames := by
  unfold sites
  cases f.kind with
  | php | script => rw [Outline.map_sitesIn]; exact .refl _
  | component =>
    -- The outline has the functions of all blocks before the methods of all blocks.
    simp only [List.map_flatMap, List.map_map, Function.comp_def, Outline.map_sitesIn]
    simp only [SourceKind.outline, Component.outline, Outline.declaredNames, List.flatMap_map,
      List.flatMap_assoc, List.map_flatMap, List.filter_flatMap]
    exact (List.flatMap_append_perm _ _ _).symm

theorem SourceFile.mem_declaredNames_of_sites {f : SourceFile} {site : Nat × String}
    (member : site ∈ f.sites) :
    site.2 ∈ (f.kind.outline f.text f.path).declaredNames :=
  f.map_sites_perm.subset (List.mem_map_of_mem member)

/-! ## Declarations -/

/-- The ways in which a name is declared at an offset. -/
inductive DeclaredAt (t : Text) (i : Nat) : Prop where
  /-- After the keyword. -/
  | keyword {k : Nat} (word : FunctionWord t k i)
  /-- As a variable that a type or a value follows. -/
  | variable_ {j r : Nat} {c : Char} (order : i ≤ j) (name : Stands t isNameChar i j) (gap : j ≤ r)
      (blanks : Stands t isBlank j r) (here : t[r]? = some c) (sign : c = ':' ∨ c = '=')
  /-- In the header of a method, which starts at an earlier offset. -/
  | header {start : Nat} (before : start ≤ i)
      (noBrace : ∀ k, start ≤ k → k < i → t[k]? ≠ some '{')
      (matches_ : Script.methodPattern.ways (.ofText t) start [] ≠ [])

/-- Every character of one text stands in another one, shifted by an offset. -/
def StandsIn (part whole : Text) (shift : Nat) : Prop :=
  ∀ (i : Nat) (c : Char), part[i]? = some c → whole[shift + i]? = some c

variable {part t : Text} {shift i : Nat}

theorem StandsIn.refl (t : Text) : StandsIn t t 0 := by
  intro i c here
  rwa [Nat.zero_add]

theorem standsIn_slice (t : Text) (a b : Nat) : StandsIn (Text.ofString (t.slice a b)) t a := by
  intro i c here
  rw [Text.ofString, toList_slice, List.getElem?_toArray, Array.getElem?_toList,
    Array.getElem?_extract] at here
  split at here
  · exact here
  · cases here

theorem StandsIn.stands (inside : StandsIn part t shift) {p : Char → Bool} {j : Nat}
    (stands : Stands part p i j) : Stands t p (shift + i) (shift + j) := by
  intro k from_ below
  obtain ⟨c, here, inClass⟩ := stands (k - shift) (by omega) (by omega)
  have there := inside _ c here
  rw [Nat.add_sub_cancel' (by omega)] at there
  exact ⟨c, there, inClass⟩

theorem StandsIn.carries (inside : StandsIn part t shift) (stop : Nat) :
    Carries (.upTo part stop) (.ofText t) shift := by
  intro p i present
  obtain ⟨-, c, here, inClass⟩ := Subject.has_upTo.mp present
  exact Subject.has_ofText.mpr ⟨c, inside i c here, inClass⟩

theorem StandsIn.functionWord (inside : StandsIn part t shift) {k : Nat}
    (word : FunctionWord part k i) : FunctionWord t (shift + k) (shift + i) := by
  obtain ⟨spelled, a, firstOrder, firstStand, a', star, b, secondOrder, secondStand, b', ampersand,
    thirdOrder, thirdStand⟩ := word
  refine ⟨?_, shift + a, by omega, ?_, shift + a', ?_, shift + b, by omega, inside.stands secondStand,
    shift + b', ?_, by omega, inside.stands thirdStand⟩
  · intro l inWord
    have letter : l < "function".toList.length := inWord
    have here := spelled l inWord
    rw [List.getElem?_eq_getElem letter] at here ⊢
    rw [Nat.add_assoc]
    exact inside _ _ here
  · rw [Nat.add_assoc]
    exact inside.stands firstStand
  · rcases star with rfl | ⟨here, rfl⟩
    · exact .inl rfl
    · exact .inr ⟨inside _ _ here, by omega⟩
  · rcases ampersand with rfl | ⟨here, rfl⟩
    · exact .inl rfl
    · exact .inr ⟨inside _ _ here, by omega⟩

/-! ## After the keyword -/

theorem spelled_of_mem_lit {s : Subject} {word : String} {j : Nat} {caps after : Captures}
    (member : (j, after) ∈ (lit word).ways s i caps) :
    (∀ l, l < word.toList.length → s.text[i + l]? = word.toList[l]?) ∧ j = i + word.toList.length := by
  obtain ⟨⟨ends, letters⟩, -⟩ := mem_ways_literal.mp member
  refine ⟨fun l inWord => ?_, ends⟩
  obtain ⟨c, here, same⟩ := Subject.getElem?_of_has (letters l inWord)
  rw [List.getElem?_eq_getElem inWord, beq_iff_eq.mp same]
  exact here

/-- The keyword as it stands before the name of a PHP function. -/
theorem functionWord_of_reference {s : Subject} {k : Nat} {caps after : Captures}
    (member : (i, after) ∈ (lit "function" ++ blanks1 ++ opt (char '&')).ways s k caps) :
    FunctionWord s.text k i := by
  simp only [mem_ways_append, mem_ways_opt] at member
  obtain ⟨a, _, ⟨_, _, wordWay, blanksWay⟩, ampersandWay⟩ := member
  obtain ⟨spelled, rfl⟩ := spelled_of_mem_lit wordWay
  obtain ⟨order, stands, -⟩ := stands_of_mem_greedy blanksWay
  refine ⟨spelled, a, Nat.le_of_succ_le order, stands, a, .inl rfl, a, Nat.le_refl a, .empty, i, ?_,
    Nat.le_refl i, .empty⟩
  rcases ampersandWay with way | ⟨same, -⟩
  · obtain ⟨here, ends, -⟩ := getElem?_of_mem_char way
    exact .inr ⟨here, ends⟩
  · exact .inl same

/-- The keyword as it stands before the name of a script's function. -/
theorem functionWord_of_generator {s : Subject} {k : Nat} {caps after : Captures}
    (member : (i, after) ∈ (lit "function" ++ blanks ++ opt (char '*') ++ blanks).ways s k caps) :
    FunctionWord s.text k i := by
  simp only [mem_ways_append, mem_ways_opt] at member
  obtain ⟨a', _, ⟨a, _, ⟨_, _, wordWay, firstWay⟩, starWay⟩, secondWay⟩ := member
  obtain ⟨spelled, rfl⟩ := spelled_of_mem_lit wordWay
  obtain ⟨firstOrder, firstStand, -⟩ := stands_of_mem_greedy firstWay
  obtain ⟨secondOrder, secondStand, -⟩ := stands_of_mem_greedy secondWay
  refine ⟨spelled, a, firstOrder, firstStand, a', ?_, i, secondOrder, secondStand, i, .inl rfl,
    Nat.le_refl i, .empty⟩
  rcases starWay with way | ⟨same, -⟩
  · obtain ⟨here, ends, -⟩ := getElem?_of_mem_char way
    exact .inr ⟨here, ends⟩
  · exact .inl same

namespace Php

def functionRest : Pattern :=
  blanks ++ char '(' ++ .group 2 parameters ++ char ')'
    ++ opt (blanks ++ char ':' ++ blanks ++ .group 3 typeName) ++ blanks ++ char '{'

theorem functionPattern_eq :
    functionPattern = (statementStart ++ (lit "function" ++ blanks1 ++ opt (char '&')))
      ++ (.group 1 word ++ functionRest) :=
  rfl

theorem declaredAt_of_function {index : LineIndex} {declared : List ClassDeclaration}
    {f : FunctionDeclaration} (member : f ∈ functions t index declared) : DeclaredAt t f.offset := by
  simp only [functions, List.mem_filter, List.mem_map] at member
  obtain ⟨⟨m, found, rfl⟩, -⟩ := member
  have matched := isMatch_of_mem_findAll found
  rw [functionPattern_eq] at matched
  obtain ⟨_, _, _, -, leadWay, -⟩ := matched.group (by decide)
  obtain ⟨_, _, -, keywordWay⟩ := mem_ways_append.mp leadWay
  exact .keyword (functionWord_of_reference keywordWay)

theorem declaredAt_of_method {index : LineIndex} {opening : Nat} {method : Method}
    (member : method ∈ methodsOf t index opening) : DeclaredAt t (bareOffset t method.offset) := by
  simp only [methodsOf, List.mem_map, List.mem_filter] at member
  obtain ⟨m, ⟨found, -⟩, rfl⟩ := member
  have matched := (isMatch_of_mem_findAllFrom found).2
  have split : methodPattern =
      (.group 1 (modifiers ["public", "protected", "private", "static", "abstract", "final"])
        ++ (lit "function" ++ blanks1 ++ opt (char '&'))) ++ (.group 2 word ++ methodRest) := rfl
  rw [split] at matched
  obtain ⟨_, _, _, -, leadWay, bodyWay, -⟩ := matched.group (by decide)
  obtain ⟨_, _, -, keywordWay⟩ := mem_ways_append.mp leadWay
  obtain ⟨nonempty, letters, -⟩ := mem_ways_greedy.mp bodyWay
  obtain ⟨c, here, inWord⟩ := Subject.getElem?_of_has (letters _ (Nat.le_refl _) nonempty)
  -- The name is a word, which does not start with the mark of privacy.
  have unmarked : bareOffset t (m.groupStart 2) = m.groupStart 2 := by
    refine if_neg fun marked => ?_
    cases here.symm.trans marked
    revert inWord
    decide
  change DeclaredAt t (bareOffset t (m.groupStart 2))
  rw [unmarked]
  exact .keyword (functionWord_of_reference keywordWay)

theorem declaredAt_of_mem_sitesIn {path : String} {site : Nat × String}
    (member : site ∈ (outline t path).sitesIn t) : DeclaredAt t site.1 := by
  simp only [Outline.sitesIn, outline, List.mem_append, List.mem_map, List.mem_filter,
    List.mem_flatMap] at member
  rcases member with ⟨f, known, rfl⟩ | ⟨m, ⟨⟨c, inClasses, known⟩, -⟩, rfl⟩
  · exact declaredAt_of_function known
  · rw [methods_of_mem_classes inClasses] at known
    exact declaredAt_of_method known

end Php

namespace Script

def functionRest : Pattern :=
  blanks ++ opt (char '<' ++ .greedy (fun c => c != '>' && c != '(') 0 ++ char '>')
    ++ blanks ++ char '(' ++ .group 4 parameters ++ char ')'
    ++ opt (blanks ++ char ':' ++ blanks ++ .group 5 (.lazy (fun c => c != '{' && c != ';') 1))
    ++ blanks ++ char '{'

theorem functionPattern_eq :
    functionPattern =
      ((freshName ++ opt (.group 1 (lit "export" ++ blanks1 ++ opt (lit "default" ++ blanks1)))
          ++ opt (.group 2 (lit "async" ++ blanks1)))
        ++ (lit "function" ++ blanks ++ opt (char '*') ++ blanks)) ++ (.group 3 name ++ functionRest) :=
  rfl

/-- Every function was found by its own header or by that of an arrow function. -/
theorem header_of_mem_functions {index : LineIndex} {declared : List ClassDeclaration}
    {f : FunctionDeclaration} (member : f ∈ functions t index declared) :
    (∃ m ∈ functionPattern.findAll (.ofText t), functionOf t index m = f)
      ∨ ∃ m ∈ arrowPattern.findAll (.ofText t), arrowOf t index m = f := by
  simp only [functions, List.mem_mergeSort, List.mem_filter, List.mem_append, List.mem_map] at member
  exact member.1

theorem declaredAt_of_function (inside : StandsIn part t shift) {m : Match}
    (found : m ∈ functionPattern.findAll (.ofText part)) : DeclaredAt t (shift + m.groupStart 3) := by
  have matched := isMatch_of_mem_findAll found
  rw [functionPattern_eq] at matched
  obtain ⟨_, _, _, -, leadWay, -⟩ := matched.group (by decide)
  obtain ⟨_, _, -, keywordWay⟩ := mem_ways_append.mp leadWay
  exact .keyword (inside.functionWord (functionWord_of_generator keywordWay))

/-! ## Before a type or a value -/

def arrowRest : Pattern :=
  blanks ++ opt (char ':' ++ blanks ++ .lazy (fun c => c != '=' && c != ';' && c != '\n') 1)
    ++ char '=' ++ (blanks ++ opt (.group 3 (lit "async" ++ blanks1))
    ++ (char '(' ++ .group 4 parameters ++ char ')'
        ++ opt (blanks ++ char ':' ++ blanks
          ++ .group 5 (.lazy (fun c => c != '=' && c != ';' && c != '{' && c != '\n') 1))
      <|> .group 6 name)
    ++ blanks ++ lit "=>")

theorem arrowPattern_eq :
    arrowPattern =
      (freshName ++ opt (.group 1 (lit "export" ++ blanks1)) ++ words ["const", "let", "var"] ++ blanks1)
        ++ (.group 2 name ++ arrowRest) :=
  rfl

theorem declaredAt_of_arrow (inside : StandsIn part t shift) {m : Match}
    (found : m ∈ arrowPattern.findAll (.ofText part)) : DeclaredAt t (shift + m.groupStart 2) := by
  have matched := isMatch_of_mem_findAll found
  rw [arrowPattern_eq] at matched
  obtain ⟨_, _, _, -, -, nameWay, restWay⟩ := matched.group (by decide)
  obtain ⟨nonempty, name, -⟩ := stands_of_mem_greedy nameWay
  obtain ⟨_, _, typedWay, -⟩ := mem_ways_append.mp restWay
  obtain ⟨_, _, annotatedWay, equalsWay⟩ := mem_ways_append.mp typedWay
  obtain ⟨_, _, blanksWay, annotationWay⟩ := mem_ways_append.mp annotatedWay
  obtain ⟨order, blanks, -⟩ := stands_of_mem_greedy blanksWay
  rcases mem_ways_opt.mp annotationWay with annotated | ⟨rfl, -⟩
  · obtain ⟨_, _, markedWay, -⟩ := mem_ways_append.mp annotated
    obtain ⟨_, _, colonWay, -⟩ := mem_ways_append.mp markedWay
    exact .variable_ (by omega) (inside.stands name) (by omega) (inside.stands blanks)
      (inside _ _ (getElem?_of_mem_char colonWay).1) (.inl rfl)
  · exact .variable_ (by omega) (inside.stands name) (by omega) (inside.stands blanks)
      (inside _ _ (getElem?_of_mem_char equalsWay).1) (.inr rfl)

/-! ## In a method header -/

def headerPattern : Pattern :=
  indent ++ .group 1 (modifiers methodModifiers) ++ opt (char '*' ++ blanks)
    ++ .group 2 (opt (char '#') ++ .group 5 name) ++ Reference.headerRest

theorem methodPattern_eq_header : methodPattern = statementStart ++ headerPattern := rfl

theorem unconditional_headerPattern : headerPattern.unconditional = true := by decide

/-- The name of a method without its privacy mark, and nothing but the mark before it. -/
theorem bareOffset_of_marked {s : Subject} {j : Nat} {caps after : Captures}
    (member : (j, after) ∈ (opt (char '#') ++ .group 5 name).ways s i caps) :
    i ≤ bareOffset s.text i
      ∧ ∀ k, i ≤ k → k < bareOffset s.text i → ∃ c, s.text[k]? = some c ∧ c ≠ '{' := by
  obtain ⟨_, _, markWay, bareWay⟩ := mem_ways_append.mp member
  rcases mem_ways_opt.mp markWay with marked | ⟨same, -⟩
  · obtain ⟨here, -⟩ := getElem?_of_mem_char marked
    rw [bareOffset, if_pos here]
    refine ⟨Nat.le_succ i, fun k from_ below => ?_⟩
    obtain rfl : k = i := by omega
    exact ⟨'#', here, by decide⟩
  · rw [same] at bareWay
    obtain ⟨_, nameWay, -⟩ := mem_ways_group.mp bareWay
    obtain ⟨nonempty, letters, -⟩ := mem_ways_greedy.mp nameWay
    obtain ⟨c, here, inName⟩ := Subject.getElem?_of_has (letters _ (Nat.le_refl _) nonempty)
    have unmarked : s.text[i]? ≠ some '#' := by
      intro marked
      cases here.symm.trans marked
      revert inName
      decide
    rw [bareOffset, if_neg unmarked]
    exact ⟨Nat.le_refl i, fun k from_ below => by omega⟩

/-- The header of a method, and what the method takes from it. -/
structure IsHeaderOf (t : Text) (index : LineIndex) (opening : Nat) (m : Match) (method : Method) :
    Prop where
  atDepth : depthBetween t opening m.start = 1
  name : method.name = Text.stripLeft (· == '#') (m.groupText t 2)
  offset : method.offset = m.groupStart 2
  line : method.line = index.lineOf (m.groupStart 2)
  body : method.body = some (m.stop - 1)

theorem isHeaderOf {index : LineIndex} {opening : Nat} {m : Match} {method : Method}
    (isMethod : methodOf? t index opening m = some method) : IsHeaderOf t index opening m method := by
  simp only [methodOf?] at isMethod
  split at isMethod
  · cases isMethod
  · next excluded =>
    cases isMethod
    simp only [Bool.or_eq_true, bne_iff_ne, ne_eq, not_or, Decidable.not_not] at excluded
    exact ⟨excluded.2, rfl, rfl, rfl, rfl⟩

/-- Every method of a class was found by its header in the block of the class. -/
theorem exists_header_of_mem_methodsOf {index : LineIndex} {opening : Nat} {method : Method}
    (member : method ∈ methodsOf t index opening) :
    ∃ m, opening + 1 ≤ m.start ∧ methodPattern.IsMatch (.upTo t (blockEnd t opening)) m
      ∧ IsHeaderOf t index opening m method := by
  obtain ⟨m, found, isMethod⟩ := List.mem_filterMap.mp member
  obtain ⟨from_, matched⟩ := isMatch_of_mem_findAllFrom found
  exact ⟨m, from_, matched, isHeaderOf isMethod⟩

theorem declaredAt_of_method (inside : StandsIn part t shift) {index : LineIndex} {opening : Nat}
    {method : Method} (member : method ∈ methodsOf part index opening) :
    DeclaredAt t (shift + bareOffset part method.offset) := by
  obtain ⟨m, from_, matched, header⟩ := exists_header_of_mem_methodsOf member
  rw [header.offset]
  have split : methodPattern =
      (statementStart ++ (indent ++ .group 1 (modifiers methodModifiers) ++ opt (char '*' ++ blanks)))
        ++ (.group 2 (opt (char '#') ++ .group 5 name) ++ Reference.headerRest) := rfl
  have whole := matched
  rw [IsMatch, methodPattern_eq_header, mem_ways_append] at whole
  obtain ⟨_, _, startWay, headerWay⟩ := whole
  obtain ⟨starts, rfl, -⟩ := mem_ways_where.mp startWay
  rw [split] at matched
  obtain ⟨_, _, _, -, leadWay, nameWay, -⟩ := matched.group (by decide)
  have order := (le_of_mem_ways leadWay).1
  obtain ⟨bare, noMark⟩ := bareOffset_of_marked nameWay
  change m.groupStart 2 ≤ bareOffset part (m.groupStart 2) at bare
  change ∀ k, m.groupStart 2 ≤ k → k < bareOffset part (m.groupStart 2) → _ at noMark
  have before : shift + m.start ≤ shift + bareOffset part (m.groupStart 2) := by omega
  refine .header before ?_ ?_
  · intro k after_ below there
    -- Nothing up to the name, its mark included, passes over a brace.
    have here : ∃ c, part[k - shift]? = some c ∧ c ≠ '{' := by
      rcases Nat.lt_or_ge (k - shift) (m.groupStart 2) with early | late
      · exact ne_of_not_passes (by decide) leadWay (k - shift) (by omega) early
      · exact noMark (k - shift) late (by omega)
    obtain ⟨c, here, other⟩ := here
    have same := inside _ c here
    rw [Nat.add_sub_cancel' (by omega)] at same
    cases same.symm.trans there
    exact other rfl
  · obtain ⟨_, shifted⟩ := ways_shift (inside.carries _) unconditional_headerPattern headerWay []
    apply List.ne_nil_of_mem
    rw [methodPattern_eq_header]
    refine mem_ways_append.mpr ⟨_, _, mem_ways_where.mpr ⟨?_, rfl, rfl⟩, shifted⟩
    -- A class opens before its methods, so the start of the part does not count.
    simp only [Bool.or_eq_true, beq_iff_eq, Subject.hasBefore_iff] at starts ⊢
    rcases starts with atStart | ⟨positive, previous⟩
    · omega
    · have there := inside.carries _ _ _ previous
      refine .inr ⟨by omega, ?_⟩
      rwa [show shift + m.start - 1 = shift + (m.start - 1) by omega]

theorem declaredAt_of_mem_sitesIn (inside : StandsIn part t shift) {path language : String}
    {firstLine : Int} {site : Nat × String}
    (member : site ∈ (outline part path language firstLine).sitesIn part) :
    DeclaredAt t (shift + site.1) := by
  simp only [Outline.sitesIn, outline, List.mem_append, List.mem_map, List.mem_filter,
    List.mem_flatMap] at member
  rcases member with ⟨f, known, rfl⟩ | ⟨m, ⟨⟨c, inClasses, known⟩, -⟩, rfl⟩
  · obtain ⟨m, found, rfl⟩ | ⟨m, found, rfl⟩ := header_of_mem_functions known
    · exact declaredAt_of_function inside found
    · exact declaredAt_of_arrow inside found
  · obtain ⟨header, -, rfl⟩ := List.mem_map.mp inClasses
    exact declaredAt_of_method inside known

end Script

/-- Every name that a source declares stands in it as a declaration. -/
theorem declaredAt_of_mem_sites {f : SourceFile} {site : Nat × String} (member : site ∈ f.sites) :
    DeclaredAt f.text site.1 := by
  unfold SourceFile.sites at member
  cases kind : f.kind with
  | php =>
    rw [kind] at member
    exact Php.declaredAt_of_mem_sitesIn member
  | script =>
    rw [kind] at member
    have here := Script.declaredAt_of_mem_sitesIn (.refl _) member
    rwa [Nat.zero_add] at here
  | component =>
    rw [kind] at member
    simp only [List.mem_flatMap, List.mem_map] at member
    obtain ⟨m, -, inner, inBlock, rfl⟩ := member
    -- A component declares in its blocks of script, each of which is read on its own.
    refine Script.declaredAt_of_mem_sitesIn ?_ inBlock
    rw [Match.groupText, Match.group?, Match.groupStart]
    cases m.span? 2 with
    | none =>
      intro i c here
      cases here
    | some span => exact standsIn_slice _ span.1 span.2

end Surveyor
