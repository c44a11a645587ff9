import Surveyor.Proofs.Quality.Unused
import Surveyor.Proofs.Value.Frozen
import Surveyor.Source.Outline

/-! # Outlines in their published form

The later stages read outlines as frozen values. Which symbols are found in outlines does not depend on
whether they are frozen (`ofOutlines_form`), and the findings that are drawn from outlines are always
given.
-/

namespace Surveyor

/-! ## Symbols of an outline -/

namespace Outline

def languageValue (o : Outline) : Value := (Value.str o.language).orElse (.str "unknown")

def functionSymbol (o : Outline) (f : FunctionDeclaration) : DeclaredSymbol where
  name := .str f.name
  kind := .function
  file := .str o.path
  line := .int f.line
  language := o.languageValue

def methodSymbol? (o : Outline) (c : ClassDeclaration) (m : Method) : Option DeclaredSymbol :=
  if isImplicitMethod m.name then none
  else some {
    name := .str m.name
    kind := .method
    file := .str o.path
    line := .int m.line
    language := o.languageValue
    className := .str c.name
    visibility := .str m.visibility }

def classSymbol (o : Outline) (c : ClassDeclaration) : DeclaredSymbol where
  name := .str c.name
  kind := .class_
  file := .str o.path
  line := .int c.line
  language := o.languageValue

def symbols (o : Outline) : DeclaredSymbols where
  functions := o.functions.map o.functionSymbol
  methods := o.classes.flatMap fun c => c.methods.filterMap (o.methodSymbol? c)
  classes := o.classes.map o.classSymbol

end Outline

/-! ## Published fields -/

/-- How outlines are handed on: as they were made, or frozen for the later stages. -/
inductive IsForm : (Value → Value) → Prop
  | plain : IsForm id
  | frozen : IsForm Value.freeze

section

variable {form : Value → Value} (isForm : IsForm form)

include isForm

theorem IsForm.membersUnder {entries : Entries} {key : String} {items : List Value}
    (here : entries.lookup key = some (.list items)) :
    (form (.map entries)).membersUnder key = .ok (items.map form) := by
  cases isForm with
  | plain =>
    rw [List.map_id, id, Value.membersUnder, Value.field, Value.fieldOr, here]
    -- An empty list is not given, and what stands for it is empty too.
    cases items with
    | nil => rfl
    | cons item rest => rfl
  | frozen => exact Value.membersUnder_freeze here

theorem ofFunction_form (o : Outline) (f : FunctionDeclaration) :
    DeclaredSymbols.ofFunction (.str o.path) o.languageValue (form f.toValue)
      = .ok (o.functionSymbol f) := by
  cases isForm with
  | plain | frozen => rfl

theorem entry_line_method (m : Method) : (form m.toValue).entry "line" = .ok (.int m.line) := by
  unfold Method.toValue
  cases isForm with
  | plain | frozen =>
    cases m.accessor with
    | none => rfl
    | some modes => rfl

theorem ofMethod?_form (o : Outline) (c : ClassDeclaration) (m : Method) :
    DeclaredSymbols.ofMethod? (.str o.path) o.languageValue (form c.toValue) (form m.toValue)
      = .ok (o.methodSymbol? c m) := by
  have name : (form m.toValue).entry "name" = .ok (.str m.name) := by cases isForm <;> rfl
  have visibility : (form m.toValue).field "visibility" = .ok (.str m.visibility) := by
    cases isForm <;> rfl
  have owner : (form c.toValue).entry "name" = .ok (.str c.name) := by cases isForm <;> rfl
  rw [DeclaredSymbols.ofMethod?, name, entry_line_method isForm, owner, visibility,
    Outline.methodSymbol?]
  by_cases implicit : isImplicitMethod m.name = true
  · simp [implicit, Value.textFor, bind, Except.bind, pure, Except.pure]
  · simp [implicit, Value.textFor, bind, Except.bind, pure, Except.pure]

theorem membersUnder_methods (c : ClassDeclaration) :
    (form c.toValue).membersUnder "methods" = .ok (c.methods.map fun m => form m.toValue) := by
  have here : (form c.toValue).membersUnder "methods" = .ok ((c.methods.map Method.toValue).map form) :=
    isForm.membersUnder rfl
  rw [here, List.map_map]
  rfl

theorem ofClass_form (o : Outline) (c : ClassDeclaration) :
    DeclaredSymbols.ofClass (.str o.path) o.languageValue (form c.toValue)
      = .ok (o.classSymbol c, c.methods.filterMap (o.methodSymbol? c)) := by
  have name : (form c.toValue).entry "name" = .ok (.str c.name) := by cases isForm <;> rfl
  have line : (form c.toValue).entry "line" = .ok (.int c.line) := by
    unfold ClassDeclaration.toValue
    cases isForm with
    | plain | frozen =>
      cases c.properties with
      | none => rfl
      | some properties => rfl
  have methods : (c.methods.map fun m => form m.toValue).mapM
      (DeclaredSymbols.ofMethod? (.str o.path) o.languageValue (form c.toValue))
      = .ok (c.methods.map (o.methodSymbol? c)) := by
    rw [List.mapM_map]
    exact mapM_eq_ok_map fun m _ => ofMethod?_form isForm o c m
  rw [DeclaredSymbols.ofClass, name, line, membersUnder_methods isForm]
  simp only [bind, Except.bind, pure, Except.pure] at methods ⊢
  rw [methods]
  simp only [Except.ok.injEq, Prod.mk.injEq]
  exact ⟨rfl, by rw [List.filterMap_map]; rfl⟩

theorem ofOutline_form (o : Outline) :
    DeclaredSymbols.ofOutline (.str o.path) (form o.toValue) = .ok o.symbols := by
  have language : (form o.toValue).field "language" = .ok (.str o.language) := by
    cases isForm <;> rfl
  have functions : (form o.toValue).membersUnder "functions"
      = .ok ((o.functions.map FunctionDeclaration.toValue).map form) := isForm.membersUnder rfl
  have classes : (form o.toValue).membersUnder "classes"
      = .ok ((o.classes.map ClassDeclaration.toValue).map form) := isForm.membersUnder rfl
  have functionSymbols : ((o.functions.map FunctionDeclaration.toValue).map form).mapM
      (DeclaredSymbols.ofFunction (.str o.path) o.languageValue)
      = .ok (o.functions.map o.functionSymbol) := by
    rw [List.mapM_map, List.mapM_map]
    exact mapM_eq_ok_map fun f _ => ofFunction_form isForm o f
  have classSymbols : ((o.classes.map ClassDeclaration.toValue).map form).mapM
      (DeclaredSymbols.ofClass (.str o.path) o.languageValue)
      = .ok (o.classes.map fun c => (o.classSymbol c, c.methods.filterMap (o.methodSymbol? c))) := by
    rw [List.mapM_map, List.mapM_map]
    exact mapM_eq_ok_map fun c _ => ofClass_form isForm o c
  rw [DeclaredSymbols.ofOutline, language, functions, classes]
  simp only [bind, Except.bind, pure, Except.pure, Outline.languageValue]
    at functionSymbols classSymbols ⊢
  rw [functionSymbols, classSymbols]
  simp [Outline.symbols, List.flatMap_map, Function.comp_def]

end

/-! ## All outlines of a project -/

def frozenOutlines (outlines : List Outline) : Value :=
  (Value.list (outlines.map Outline.toValue)).freeze

def byPath (outlines : List Outline) : List Outline :=
  outlines.mergeSort fun a b => Value.scalarAtMost (.str a.path) (.str b.path)

theorem members_form {form : Value → Value} (isForm : IsForm form) (outlines : List Outline) :
    (form (.list (outlines.map Outline.toValue))).members
      = .ok ((outlines.map Outline.toValue).map form) := by
  cases isForm with
  | plain =>
    rw [List.map_id]
    rfl
  | frozen =>
    rw [Value.freeze, Value.freezeItems_eq_map]
    rfl

theorem outlinesByPath_form {form : Value → Value} (isForm : IsForm form) (outlines : List Outline) :
    outlinesByPath (form (.list (outlines.map Outline.toValue)))
      = .ok ((byPath outlines).map fun o => (Value.str o.path, form o.toValue)) := by
  have keyed : ((outlines.map Outline.toValue).map form).mapM
      (fun o => do return (← o.entry "path", o))
      = .ok (outlines.map fun o => (Value.str o.path, form o.toValue)) := by
    rw [List.mapM_map, List.mapM_map]
    refine mapM_eq_ok_map fun o _ => ?_
    cases isForm with
    | plain | frozen => rfl
  rw [outlinesByPath, members_form isForm]
  simp only [bind, Except.bind, pure, Except.pure] at keyed ⊢
  rw [keyed]
  simp only [Value.sortedBy]
  -- The paths are texts, so they can be compared.
  rw [if_pos (by simp [Value.str?])]
  rw [byPath, List.map_mergeSort]
  intro a _ b _
  rfl

theorem outlinesByPath_frozen (outlines : List Outline) :
    outlinesByPath (frozenOutlines outlines)
      = .ok ((byPath outlines).map fun o => (Value.str o.path, o.toValue.freeze)) :=
  outlinesByPath_form .frozen outlines

theorem ofOutlines_form {form : Value → Value} (isForm : IsForm form) (outlines : List Outline) :
    DeclaredSymbols.ofOutlines (form (.list (outlines.map Outline.toValue)))
      = .ok ⟨(byPath outlines).flatMap (·.symbols.functions),
          (byPath outlines).flatMap (·.symbols.methods),
          (byPath outlines).flatMap (·.symbols.classes)⟩ := by
  have parts : ((byPath outlines).map fun o => (Value.str o.path, form o.toValue)).mapM
      (fun part => DeclaredSymbols.ofOutline part.1 part.2)
      = .ok ((byPath outlines).map (·.symbols)) := by
    rw [List.mapM_map]
    exact mapM_eq_ok_map fun o _ => ofOutline_form isForm o
  rw [DeclaredSymbols.ofOutlines, outlinesByPath_form isForm]
  simp only [bind, Except.bind, pure, Except.pure] at parts ⊢
  rw [parts]
  simp [List.flatMap_map]

theorem ofOutlines_frozen (outlines : List Outline) :
    DeclaredSymbols.ofOutlines (frozenOutlines outlines)
      = .ok ⟨(byPath outlines).flatMap (·.symbols.functions),
          (byPath outlines).flatMap (·.symbols.methods),
          (byPath outlines).flatMap (·.symbols.classes)⟩ :=
  ofOutlines_form .frozen outlines

/-! ## Findings drawn from outlines -/

theorem exists_filledAt? (contents : Contents) (path : String) :
    ∃ content, contents.filledAt? (.str path) = .ok content :=
  ⟨_, rfl⟩

theorem exists_checkedName? (name : String) : ∃ checked, checkedName? (.str name) = .ok checked := by
  unfold checkedName?
  split
  · exact ⟨_, rfl⟩
  · exact ⟨_, rfl⟩

theorem boundNames_frozen (i : Import) :
    ∃ names : List String, boundNames i.toValue.freeze = .ok (names.map Value.str) := by
  have specifiers : i.toValue.freeze.membersUnder "specifiers"
      = .ok ((i.specifiers.map Value.str).map Value.freeze) :=
    Value.membersUnder_freeze rfl
  have alternative : i.toValue.freeze.field "alias" = .ok (Value.ofOption i.localName).freeze := rfl
  rw [boundNames, specifiers, alternative]
  simp only [bind, Except.bind, pure, Except.pure, List.map_map]
  split
  · next isAlternative =>
    cases bound : i.localName with
    | none => simp [bound, Value.ofOption, Value.freeze, Value.isGiven] at isAlternative
    | some name => exact ⟨[name], rfl⟩
  · exact ⟨i.specifiers, rfl⟩

theorem exists_unusedImportsIn (s : Subject) (path : Value) (i : Import) :
    ∃ issues, unusedImportsIn s path i.toValue.freeze = .ok issues := by
  obtain ⟨names, bound⟩ := boundNames_frozen i
  obtain ⟨checked, checkedAll⟩ : ∃ checked, (names.map Value.str).mapM checkedName? = .ok checked := by
    rw [List.mapM_map]
    exact exists_mapM_eq_ok fun name _ => exists_checkedName? name
  have line : i.toValue.freeze.field "line" = .ok (.int i.line) := rfl
  have source : i.toValue.freeze.field "source" = .ok (.str i.source) := rfl
  rw [unusedImportsIn, bound, line, source]
  simp only [bind, Except.bind, pure, Except.pure] at checkedAll ⊢
  rw [checkedAll]
  exact ⟨_, rfl⟩

theorem exists_unusedImportsOf (contents : Contents) (o : Outline) :
    ∃ issues, unusedImportsOf contents (.str o.path) o.toValue.freeze = .ok issues := by
  obtain ⟨content, filled⟩ := exists_filledAt? contents o.path
  rw [unusedImportsOf, filled]
  cases content with
  | none => exact ⟨[], rfl⟩
  | some content =>
    have imports : o.toValue.freeze.membersUnder "imports"
        = .ok ((o.imports.map Import.toValue).map Value.freeze) :=
      Value.membersUnder_freeze rfl
    obtain ⟨issues, found⟩ : ∃ issues, ((o.imports.map Import.toValue).map Value.freeze).mapM
        (unusedImportsIn (Subject.ofString content) (.str o.path)) = .ok issues := by
      rw [List.mapM_map, List.mapM_map]
      exact exists_mapM_eq_ok fun i _ => exists_unusedImportsIn _ _ i
    refine ⟨issues.flatten, ?_⟩
    rw [imports]
    simp only [bind, Except.bind, pure, Except.pure] at found ⊢
    rw [found]

theorem exists_unusedImports (outlines : List Outline) (contents : Contents) :
    ∃ issues, unusedImports (frozenOutlines outlines) contents = .ok issues := by
  obtain ⟨issues, found⟩ : ∃ issues,
      ((byPath outlines).map fun o => (Value.str o.path, o.toValue.freeze)).mapM
        (fun part => unusedImportsOf contents part.1 part.2) = .ok issues := by
    rw [List.mapM_map]
    exact exists_mapM_eq_ok fun o _ => exists_unusedImportsOf contents o
  refine ⟨issues.flatten, ?_⟩
  rw [unusedImports, outlinesByPath_frozen]
  simp only [bind, Except.bind, pure, Except.pure] at found ⊢
  rw [found]

def functionSize (f : FunctionDeclaration) : SizeCandidate where
  name := .str f.name
  line := .int f.line
  label := "Function"

def methodSize (c : ClassDeclaration) (m : Method) : SizeCandidate where
  name := .str ((Value.str c.name).display ++ "." ++ (Value.str m.name).display)
  line := .int m.line
  label := "Method"

theorem methodCandidate_frozen (c : ClassDeclaration) (m : Method) :
    methodCandidate c.toValue.freeze m.toValue.freeze = .ok (methodSize c m) := by
  have owner : c.toValue.freeze.entry "name" = .ok (.str c.name) := rfl
  have name : m.toValue.freeze.entry "name" = .ok (.str m.name) := rfl
  rw [methodCandidate, owner, name, entry_line_method .frozen]
  rfl

theorem sizeCandidates_frozen (o : Outline) :
    sizeCandidates o.toValue.freeze
      = .ok (o.functions.map functionSize
        ++ (o.classes.map fun c => c.methods.map (methodSize c)).flatten) := by
  have functions : o.toValue.freeze.membersUnder "functions"
      = .ok ((o.functions.map FunctionDeclaration.toValue).map Value.freeze) :=
    Value.membersUnder_freeze rfl
  have classes : o.toValue.freeze.membersUnder "classes"
      = .ok ((o.classes.map ClassDeclaration.toValue).map Value.freeze) :=
    Value.membersUnder_freeze rfl
  have ofFunctions : ((o.functions.map FunctionDeclaration.toValue).map Value.freeze).mapM
      functionCandidate = .ok (o.functions.map functionSize) := by
    rw [List.mapM_map, List.mapM_map]
    exact mapM_eq_ok_map fun f _ => rfl
  have ofClasses : ((o.classes.map ClassDeclaration.toValue).map Value.freeze).mapM
      (fun c => do (← c.membersUnder "methods").mapM (methodCandidate c))
      = .ok (o.classes.map fun c => c.methods.map (methodSize c)) := by
    rw [List.mapM_map, List.mapM_map]
    refine mapM_eq_ok_map fun c _ => ?_
    simp only [Function.comp_def]
    rw [membersUnder_methods .frozen]
    simp only [bind, Except.bind, List.mapM_map]
    exact mapM_eq_ok_map fun m _ => methodCandidate_frozen c m
  rw [sizeCandidates, functions, classes]
  simp only [bind, Except.bind, pure, Except.pure] at ofFunctions ofClasses ⊢
  rw [ofFunctions, ofClasses]

/-- The functions and methods whose sizes are looked at have numbers as their lines. -/
theorem exists_sizeCandidates (o : Outline) :
    ∃ candidates, sizeCandidates o.toValue.freeze = .ok candidates
      ∧ ∀ candidate ∈ candidates, ∃ line, candidate.line = .int line := by
  refine ⟨_, sizeCandidates_frozen o, ?_⟩
  intro candidate member
  simp only [List.mem_append, List.mem_map, List.mem_flatten] at member
  rcases member with ⟨f, -, rfl⟩ | ⟨_, ⟨c, -, rfl⟩, inClass⟩
  · exact ⟨f.line, rfl⟩
  · obtain ⟨m, -, rfl⟩ := List.mem_map.mp inClass
    exact ⟨m.line, rfl⟩

theorem exists_largeFunctionsOf (contents : Contents) (o : Outline) :
    ∃ issues, largeFunctionsOf contents (.str o.path) o.toValue.freeze = .ok issues := by
  obtain ⟨content, filled⟩ := exists_filledAt? contents o.path
  rw [largeFunctionsOf, filled]
  cases content with
  | none => exact ⟨[], rfl⟩
  | some content =>
    have language : o.toValue.freeze.field "language" = .ok (.str o.language) := rfl
    -- Without a language the limits are those under a key of their own.
    have asKey : ((Value.str o.language).orElse (.str "default")).asKey
        = .ok ((Value.str o.language).orElse (.str "default")) := by
      unfold Value.orElse
      split <;> rfl
    obtain ⟨candidates, found, numbered⟩ := exists_sizeCandidates o
    obtain ⟨sized, sizedAll⟩ : ∃ sized, candidates.mapM
        (fun c => do return (c, ← c.size (textLines (Text.ofString content)))) = .ok sized := by
      refine exists_mapM_eq_ok fun candidate member => ?_
      obtain ⟨line, hasLine⟩ := numbered candidate member
      simp only [SizeCandidate.size, hasLine]
      exact ⟨_, rfl⟩
    rw [language]
    simp only [bind, Except.bind, pure, Except.pure] at sizedAll ⊢
    rw [asKey, found]
    simp only [sizedAll]
    exact ⟨_, rfl⟩

theorem exists_largeFunctions (outlines : List Outline) (contents : Contents) :
    ∃ issues, largeFunctions (frozenOutlines outlines) contents = .ok issues := by
  obtain ⟨issues, found⟩ : ∃ issues,
      ((byPath outlines).map fun o => (Value.str o.path, o.toValue.freeze)).mapM
        (fun part => largeFunctionsOf contents part.1 part.2) = .ok issues := by
    rw [List.mapM_map]
    exact exists_mapM_eq_ok fun o _ => exists_largeFunctionsOf contents o
  refine ⟨issues.flatten, ?_⟩
  rw [largeFunctions, outlinesByPath_frozen]
  simp only [bind, Except.bind, pure, Except.pure] at found ⊢
  rw [found]

end Surveyor
