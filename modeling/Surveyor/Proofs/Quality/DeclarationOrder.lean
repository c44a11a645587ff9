import Surveyor.Proofs.Quality.Published
import Surveyor.Proofs.Source.FirstLine
import Surveyor.Proofs.Source.MethodSites

/-! # The order of declared symbols

The symbols of a project are listed file by file. In a file, functions and classes come in the order of
their offsets, and so do the methods of one class; but the methods of a class come before all those of a
class that opens inside of it. So functions and classes are in order of file and line, and the methods
are exactly if no class has a method on a later line than a class inside of it
(`symbols_in_order_iff`). The script blocks of a component are outlined one by one, and no line of a
block is before the last line of an earlier one.
-/

namespace Surveyor

open Pattern

/-! ## Texts in files -/

/-- A text with its outline, and the number that its first line has in the file. -/
structure ScannedText where
  text : Text
  firstLine : Int
  outline : Outline

namespace ScannedText

def lastLine (p : ScannedText) : Int := p.firstLine + (p.text.toList.count '\n' : Nat)

def HasLine (p : ScannedText) (line : Int) : Prop := p.firstLine ≤ line ∧ line ≤ p.lastLine

/-- Declarations are listed in the order of their offsets in a text, with the lines of these. -/
structure Lists {α : Type} (p : ScannedText) (offset : α → Nat) (line : α → Int) (items : List α) :
    Prop where
  order : items.Pairwise fun item later => offset item ≤ offset later
  line_eq : ∀ item ∈ items, line item = (LineIndex.ofText p.text p.firstLine).lineOf (offset item)

/-- What an outline promises of the declarations of its text. -/
structure Follows (p : ScannedText) : Prop where
  encloses : p.outline.Encloses p.text
  functions : p.Lists FunctionDeclaration.offset FunctionDeclaration.line p.outline.functions
  classes : p.Lists ClassDeclaration.offset ClassDeclaration.line p.outline.classes
  methods : ∀ c ∈ p.outline.classes, p.Lists Method.offset Method.line c.methods

namespace Lists

variable {α : Type} {p : ScannedText} {offset : α → Nat} {line : α → Int} {items : List α}
  (lists : p.Lists offset line items)

include lists

theorem filter (wanted : α → Bool) : p.Lists offset line (items.filter wanted) where
  order := lists.order.filter wanted
  line_eq := fun item member => lists.line_eq item (List.mem_filter.mp member).1

theorem hasLine {item : α} (member : item ∈ items) : p.HasLine (line item) := by
  rw [lists.line_eq item member]
  exact LineIndex.lineOf_bounds p.text p.firstLine (offset item)

theorem ascend : (items.map line).Pairwise (· ≤ ·) := by
  apply List.pairwise_map.mpr
  apply (List.Pairwise.and_mem.mp lists.order).imp
  rintro item later ⟨member, laterMember, order⟩
  rw [lists.line_eq item member, lists.line_eq later laterMember]
  exact LineIndex.lineOf_mono p.text p.firstLine order

end Lists

end ScannedText

theorem Php.follows (t : Text) (path : String) : ScannedText.Follows ⟨t, 1, outline t path⟩ where
  encloses := encloses t path
  functions := by
    apply ScannedText.Lists.filter
    constructor
    · exact List.pairwise_map.mpr (groupStarts_ascend functionPattern (.ofText t) 0 1)
    · intro f member
      obtain ⟨m, -, rfl⟩ := List.mem_map.mp member
      rfl
  classes := by
    constructor
    · exact List.pairwise_map.mpr (groupStarts_ascend classPattern (.ofText t) 0 1)
    · intro c member
      obtain ⟨m, -, rfl⟩ := List.mem_map.mp member
      rfl
  methods := by
    intro c inClasses
    rw [methods_of_mem_classes inClasses]
    constructor
    · apply List.pairwise_map.mpr
      exact (groupStarts_ascend methodPattern (.upTo t (blockEnd t c.body)) c.body 2).filter _
    · intro method member
      obtain ⟨m, -, rfl⟩ := List.mem_map.mp member
      rfl

namespace Script

theorem follows (t : Text) (path language : String) (first : Int) :
    ScannedText.Follows ⟨t, first, outline t path language first⟩ where
  encloses := encloses t path language first
  functions := by
    constructor
    · exact pairwise_mergeSort_key FunctionDeclaration.offset _
    · intro f member
      obtain ⟨m, -, rfl⟩ | ⟨m, -, rfl⟩ := header_of_mem_functions member
      · rfl
      · rfl
  classes := by
    constructor
    · exact List.pairwise_map.mpr (groupStarts_ascend classPattern (.ofText t) 0 2)
    · intro c member
      obtain ⟨m, -, rfl⟩ := List.mem_map.mp member
      rfl
  methods := by
    intro c inClasses
    obtain ⟨header, -, rfl⟩ := List.mem_map.mp inClasses
    constructor
    · apply (groupStarts_ascend methodPattern _ _ 2).filterMap
      intro m later order method isMethod laterMethod isLater
      rw [(isHeaderOf isMethod).offset, (isHeaderOf isLater).offset]
      exact order
    · intro method member
      obtain ⟨m, -, -, isHeader⟩ := exists_header_of_mem_methodsOf member
      rw [isHeader.line, isHeader.offset]

end Script

/-! ## Lines of methods -/

def ClassDeclaration.explicitMethods (c : ClassDeclaration) : List Method :=
  c.methods.filter fun m => !isImplicitMethod m.name

namespace Outline

def functionLines (o : Outline) : List Int := o.functions.map (·.line)

def classLines (o : Outline) : List Int := o.classes.map (·.line)

def methodLines (o : Outline) : List Int := o.classes.flatMap fun c => c.explicitMethods.map (·.line)

end Outline

/-- Of classes that are listed by their blocks, the one that opens first is listed first. -/
theorem rel_of_body_lt {classes : List ClassDeclaration}
    {related : ClassDeclaration → ClassDeclaration → Prop}
    (ordered : classes.Pairwise fun c later => c.body < later.body) (pairs : classes.Pairwise related)
    {c later : ClassDeclaration} (member : c ∈ classes) (laterMember : later ∈ classes)
    (opensLater : c.body < later.body) : related c later := by
  induction classes with
  | nil => cases member
  | cons first rest inductionHypothesis =>
    rw [List.pairwise_cons] at ordered pairs
    cases member with
    | head =>
      cases laterMember with
      | head => omega
      | tail _ inRest => exact pairs.1 later inRest
    | tail _ inRest =>
      cases laterMember with
      | head =>
        have := ordered.1 c inRest
        omega
      | tail _ laterInRest =>
        exact inductionHypothesis ordered.2 pairs.2 inRest laterInRest

namespace ScannedText

/-- A class has a method on a later line than a class that opens in its block. -/
def Interleaves (p : ScannedText) : Prop :=
  ∃ c ∈ p.outline.classes, ∃ inner ∈ p.outline.classes,
    c.body < inner.body ∧ inner.body < blockEnd p.text c.body ∧
    ∃ m ∈ c.explicitMethods, ∃ innerMethod ∈ inner.explicitMethods, innerMethod.line < m.line

instance (p : ScannedText) : Decidable p.Interleaves :=
  inferInstanceAs (Decidable (∃ c ∈ p.outline.classes, ∃ inner ∈ p.outline.classes,
    c.body < inner.body ∧ inner.body < blockEnd p.text c.body ∧
    ∃ m ∈ c.explicitMethods, ∃ innerMethod ∈ inner.explicitMethods, innerMethod.line < m.line))

namespace Follows

variable {p : ScannedText} (follows : p.Follows)

include follows

theorem explicitMethods {c : ClassDeclaration} (inClasses : c ∈ p.outline.classes) :
    p.Lists Method.offset Method.line c.explicitMethods :=
  (follows.methods c inClasses).filter _

/-- Blocks that follow each other have their methods one after the other. -/
theorem line_le_of_apart {c later : ClassDeclaration} (member : c ∈ p.outline.classes)
    (laterMember : later ∈ p.outline.classes) (apart : blockEnd p.text c.body ≤ later.body)
    {m laterMethod : Method} (inClass : m ∈ c.methods) (inLater : laterMethod ∈ later.methods) :
    m.line ≤ laterMethod.line := by
  have inBlock := follows.encloses.inBlock c member m inClass m.offset (Nat.le_refl _) (by omega)
  have inLaterBlock := follows.encloses.inBlock later laterMember laterMethod inLater
    laterMethod.offset (Nat.le_refl _) (by omega)
  have order : m.offset ≤ laterMethod.offset := by
    have before := inBlock.2.1
    have after := inLaterBlock.1
    omega
  rw [(follows.methods c member).line_eq m inClass,
    (follows.methods later laterMember).line_eq laterMethod inLater]
  exact LineIndex.lineOf_mono p.text p.firstLine order

/-- In order, the methods of two classes do not interleave; and only classes one in the other can be
out of order. -/
theorem methodLines_ascend_iff : p.outline.methodLines.Pairwise (· ≤ ·) ↔ ¬ p.Interleaves := by
  rw [Outline.methodLines, List.pairwise_flatMap]
  constructor
  · rintro ⟨-, across⟩ interleaves
    obtain ⟨c, member, inner, innerMember, opensLater, -, m, inClass, innerMethod, inInner, before⟩ :=
      interleaves
    -- The class that opens first is listed first, and all of its methods with it.
    have order := rel_of_body_lt follows.encloses.ordered across member innerMember opensLater
      m.line (List.mem_map_of_mem inClass) innerMethod.line (List.mem_map_of_mem inInner)
    omega
  · intro apart
    refine ⟨fun c inClasses => (follows.explicitMethods inClasses).ascend, ?_⟩
    apply (List.Pairwise.and_mem.mp follows.encloses.ordered).imp
    rintro c later ⟨member, laterMember, opensLater⟩ line isLine laterLine isLaterLine
    obtain ⟨m, inClass, rfl⟩ := List.mem_map.mp isLine
    obtain ⟨laterMethod, inLater, rfl⟩ := List.mem_map.mp isLaterLine
    by_cases nested : later.body < blockEnd p.text c.body
    · by_contra notBefore
      exact apart ⟨c, member, later, laterMember, opensLater, nested, m, inClass, laterMethod, inLater,
        by omega⟩
    · -- The block of the first class ends before that of the later one begins.
      exact follows.line_le_of_apart member laterMember (by omega) (List.mem_filter.mp inClass).1
        (List.mem_filter.mp inLater).1

end Follows

end ScannedText

/-! ## Files -/

inductive ScannedFile where
  | php (t : Text) (path : String)
  | script (t : Text) (path language : String) (firstLine : Int)
  | component (t : Text) (path : String)

namespace ScannedFile

def path : ScannedFile → String
  | .php _ path | .script _ path _ _ | .component _ path => path

def outline : ScannedFile → Outline
  | .php t path => Php.outline t path
  | .script t path language firstLine => Script.outline t path language firstLine
  | .component t path => Component.outline t path

/-- The file itself, or the script blocks of a component. -/
def texts : ScannedFile → List ScannedText
  | .php t path => [⟨t, 1, Php.outline t path⟩]
  | .script t path language firstLine => [⟨t, firstLine, Script.outline t path language firstLine⟩]
  | .component t path => (Component.scriptPattern.findAll (.ofText t)).map fun m =>
    ⟨Text.ofString (m.groupText t 2), (LineIndex.ofText t 1).lineOf (m.groupStart 2),
      Component.blockOutline t path (.ofText t 1) m⟩

variable (s : ScannedFile)

theorem path_outline : s.outline.path = s.path := by
  cases s with
  | php | script | component => rfl

theorem functions_outline : s.outline.functions = s.texts.flatMap (·.outline.functions) := by
  cases s with
  | php | script => exact (List.append_nil _).symm
  | component t path => simp only [outline, texts, Component.outline, List.flatMap_map]

theorem classes_outline : s.outline.classes = s.texts.flatMap (·.outline.classes) := by
  cases s with
  | php | script => exact (List.append_nil _).symm
  | component t path => simp only [outline, texts, Component.outline, List.flatMap_map]

theorem follows_of_mem_texts {p : ScannedText} (member : p ∈ s.texts) : p.Follows := by
  cases s with
  | php t path =>
    obtain rfl := List.mem_singleton.mp member
    exact Php.follows t path
  | script t path language firstLine =>
    obtain rfl := List.mem_singleton.mp member
    exact Script.follows t path language firstLine
  | component t path =>
    obtain ⟨m, -, rfl⟩ := List.mem_map.mp member
    exact Script.follows _ path _ _

/-- A block ends on the line where what follows it starts, or before. -/
theorem texts_apart : s.texts.Pairwise fun p later => p.lastLine ≤ later.firstLine := by
  cases s with
  | php | script => exact List.pairwise_singleton _ _
  | component t path =>
    apply List.pairwise_map.mpr
    apply (List.Pairwise.and_mem.mp (findAllFrom_pairwise Component.scriptPattern (.ofText t) 0)).imp
    rintro m later ⟨found, foundLater, follows⟩
    -- The body of a block ends in the block, and the later block begins behind that.
    obtain ⟨stop, body, order, inBlock, upTo⟩ := Component.body_of_mem_findAll found
    have matched := isMatch_of_mem_findAll found
    have matchedLater := isMatch_of_mem_findAll foundLater
    have behind : stop ≤ later.groupStart 2 := calc
      stop ≤ m.stop := inBlock
      _ ≤ resumeAt m := stop_le_resumeAt matched
      _ ≤ later.start := follows
      _ ≤ later.groupStart 2 := (matchedLater.groupStart_within 2).1
    rw [ScannedText.lastLine, body, Text.ofString, List.toList_toArray,
      LineIndex.lineOf_end_slice order (Nat.le_trans inBlock upTo)]
    exact LineIndex.lineOf_mono t 1 behind

/-! ## Lines of a file -/

/-- Lines are in order in a file if they are in each of its texts. -/
theorem ascend_iff_in_texts (lines : Outline → List Int)
    (hasLine : ∀ p ∈ s.texts, ∀ line ∈ lines p.outline, p.HasLine line) :
    (s.texts.flatMap fun p => lines p.outline).Pairwise (· ≤ ·) ↔
      ∀ p ∈ s.texts, (lines p.outline).Pairwise (· ≤ ·) := by
  rw [List.pairwise_flatMap]
  apply and_iff_left
  apply (List.Pairwise.and_mem.mp s.texts_apart).imp
  rintro p later ⟨member, laterMember, apart⟩ line listed laterLine laterListed
  calc
    line ≤ p.lastLine := (hasLine p member line listed).2
    _ ≤ later.firstLine := apart
    _ ≤ laterLine := (hasLine later laterMember laterLine laterListed).1

theorem functionLines_ascend : s.outline.functionLines.Pairwise (· ≤ ·) := by
  rw [Outline.functionLines, functions_outline, List.map_flatMap]
  apply (s.ascend_iff_in_texts Outline.functionLines ?_).mpr
  · exact fun p member => (s.follows_of_mem_texts member).functions.ascend
  · intro p member line listed
    obtain ⟨f, inFunctions, rfl⟩ := List.mem_map.mp listed
    exact (s.follows_of_mem_texts member).functions.hasLine inFunctions

theorem classLines_ascend : s.outline.classLines.Pairwise (· ≤ ·) := by
  rw [Outline.classLines, classes_outline, List.map_flatMap]
  apply (s.ascend_iff_in_texts Outline.classLines ?_).mpr
  · exact fun p member => (s.follows_of_mem_texts member).classes.ascend
  · intro p member line listed
    obtain ⟨c, inClasses, rfl⟩ := List.mem_map.mp listed
    exact (s.follows_of_mem_texts member).classes.hasLine inClasses

theorem methodLines_ascend_iff :
    s.outline.methodLines.Pairwise (· ≤ ·) ↔ ∀ p ∈ s.texts, ¬ p.Interleaves := by
  rw [Outline.methodLines, classes_outline, List.flatMap_assoc]
  apply (s.ascend_iff_in_texts Outline.methodLines ?_).trans
  · apply forall₂_congr
    exact fun p member => (s.follows_of_mem_texts member).methodLines_ascend_iff
  · intro p member line listed
    obtain ⟨c, inClasses, inClass⟩ := List.mem_flatMap.mp listed
    obtain ⟨m, explicit, rfl⟩ := List.mem_map.mp inClass
    exact ((s.follows_of_mem_texts member).explicitMethods inClasses).hasLine explicit

end ScannedFile

/-! ## Symbols by file and line -/

def DeclaredSymbol.place (symbol : DeclaredSymbol) : Value × Value := (symbol.file, symbol.line)

/-- One place is up to another one: in a file before that one's, or on a line up to that one in the
same file. -/
inductive IsUpTo : Value × Value → Value × Value → Prop
  | earlierFile {path laterPath : String} (order : path < laterPath) (line laterLine : Value) :
    IsUpTo (.str path, line) (.str laterPath, laterLine)
  | sameFile (path : String) {line laterLine : Int} (order : line ≤ laterLine) :
    IsUpTo (.str path, .int line) (.str path, .int laterLine)

def InReadingOrder (symbols : List DeclaredSymbol) : Prop :=
  symbols.Pairwise fun symbol later => IsUpTo symbol.place later.place

theorem isUpTo_same_iff {path : String} {line laterLine : Int} :
    IsUpTo (.str path, .int line) (.str path, .int laterLine) ↔ line ≤ laterLine := by
  constructor
  · intro upTo
    cases upTo with
    | earlierFile order => exact absurd order (String.lt_irrefl path)
    | sameFile _ order => exact order
  · exact .sameFile path

theorem byPath_ascend {outlines : List Outline} (distinct : (outlines.map (·.path)).Nodup) :
    (byPath outlines).Pairwise fun o later => o.path < later.path := by
  have sorted : (byPath outlines).Pairwise fun o later => o.path ≤ later.path :=
    pairwise_mergeSort_key Outline.path outlines
  have apart : ((byPath outlines).map Outline.path).Nodup :=
    ((List.mergeSort_perm outlines _).map Outline.path).nodup_iff.mpr distinct
  apply (sorted.and (List.pairwise_map.mp apart)).imp
  rintro o later ⟨upTo, different⟩
  exact String.not_le.mp fun atLeast => different (String.le_antisymm upTo atLeast)

/-- Symbols of a kind are in order if their lines are in each file. -/
theorem inReadingOrder_iff {symbols : Outline → List DeclaredSymbol} {lines : Outline → List Int}
    (placed : ∀ o, (symbols o).map DeclaredSymbol.place
      = (lines o).map fun line => (Value.str o.path, Value.int line))
    {outlines : List Outline} (distinct : (outlines.map (·.path)).Nodup) :
    InReadingOrder ((byPath outlines).flatMap symbols) ↔ ∀ o ∈ outlines, (lines o).Pairwise (· ≤ ·) := by
  have inFile (o : Outline) : (symbols o).Pairwise (fun symbol later => IsUpTo symbol.place later.place)
      ↔ (lines o).Pairwise (· ≤ ·) := by
    rw [← List.pairwise_map (f := DeclaredSymbol.place) (R := IsUpTo), placed, List.pairwise_map]
    simp only [isUpTo_same_iff]
  have place_of_mem {o : Outline} {symbol : DeclaredSymbol} (member : symbol ∈ symbols o) :
      ∃ line, symbol.place = (.str o.path, line) := by
    have listed := List.mem_map_of_mem (f := DeclaredSymbol.place) member
    rw [placed] at listed
    obtain ⟨line, -, same⟩ := List.mem_map.mp listed
    exact ⟨.int line, same.symm⟩
  -- Across files the paths decide, whatever the lines are.
  have across : (byPath outlines).Pairwise fun o later =>
      ∀ symbol ∈ symbols o, ∀ laterSymbol ∈ symbols later, IsUpTo symbol.place laterSymbol.place := by
    apply (byPath_ascend distinct).imp
    intro o later order symbol member laterSymbol laterMember
    obtain ⟨line, place⟩ := place_of_mem member
    obtain ⟨laterLine, laterPlace⟩ := place_of_mem laterMember
    rw [place, laterPlace]
    exact .earlierFile order line laterLine
  rw [InReadingOrder, List.pairwise_flatMap, and_iff_left across]
  simp only [inFile, byPath, List.mem_mergeSort]

theorem places_of_functions (o : Outline) : o.symbols.functions.map DeclaredSymbol.place
    = o.functionLines.map fun line => (Value.str o.path, Value.int line) := by
  simp only [Outline.symbols, Outline.functionLines, List.map_map]
  rfl

theorem places_of_classes (o : Outline) : o.symbols.classes.map DeclaredSymbol.place
    = o.classLines.map fun line => (Value.str o.path, Value.int line) := by
  simp only [Outline.symbols, Outline.classLines, List.map_map]
  rfl

theorem places_of_class (o : Outline) (c : ClassDeclaration) :
    (c.methods.filterMap (o.methodSymbol? c)).map DeclaredSymbol.place
      = (c.explicitMethods.map (·.line)).map fun line => (Value.str o.path, Value.int line) := by
  rw [ClassDeclaration.explicitMethods]
  induction c.methods with
  | nil => rfl
  | cons m rest inductionHypothesis =>
    by_cases implicit : isImplicitMethod m.name = true
    · rw [List.filterMap_cons_none (by rw [Outline.methodSymbol?, if_pos implicit]),
        List.filter_cons_of_neg (by simpa using implicit)]
      exact inductionHypothesis
    · rw [List.filterMap_cons_some (by rw [Outline.methodSymbol?, if_neg implicit]),
        List.filter_cons_of_pos (by simpa using implicit), List.map_cons, List.map_cons, List.map_cons,
        inductionHypothesis]
      rfl

theorem places_of_methods (o : Outline) : o.symbols.methods.map DeclaredSymbol.place
    = o.methodLines.map fun line => (Value.str o.path, Value.int line) := by
  simp only [Outline.symbols, Outline.methodLines, List.map_flatMap, places_of_class]

/-- From whatever files, outlined and handed on as they are or frozen, functions and classes are listed
by file and line; and so are methods, exactly if in no text a class has one on a later line than a class
inside of it. -/
theorem symbols_in_order_iff (scans : List ScannedFile) (distinct : (scans.map ScannedFile.path).Nodup) :
    ∃ declared : DeclaredSymbols,
      (∀ form, IsForm form → DeclaredSymbols.ofOutlines
        (form (.list (scans.map fun s => s.outline.toValue))) = .ok declared)
      ∧ InReadingOrder declared.functions ∧ InReadingOrder declared.classes
      ∧ (InReadingOrder declared.methods ↔ ∀ s ∈ scans, ∀ p ∈ s.texts, ¬ p.Interleaves) := by
  have distinctPaths : ((scans.map ScannedFile.outline).map (·.path)).Nodup := by
    have paths : scans.map (Outline.path ∘ ScannedFile.outline) = scans.map ScannedFile.path :=
      List.map_congr_left fun s _ => s.path_outline
    rw [List.map_map, paths]
    exact distinct
  refine ⟨⟨(byPath (scans.map ScannedFile.outline)).flatMap (·.symbols.functions),
    (byPath (scans.map ScannedFile.outline)).flatMap (·.symbols.methods),
    (byPath (scans.map ScannedFile.outline)).flatMap (·.symbols.classes)⟩, ?_, ?_, ?_, ?_⟩
  · intro form isForm
    have found := ofOutlines_form isForm (scans.map ScannedFile.outline)
    rw [List.map_map] at found
    exact found
  · rw [inReadingOrder_iff places_of_functions distinctPaths, List.forall_mem_map]
    exact fun s _ => s.functionLines_ascend
  · rw [inReadingOrder_iff places_of_classes distinctPaths, List.forall_mem_map]
    exact fun s _ => s.classLines_ascend
  · rw [inReadingOrder_iff places_of_methods distinctPaths, List.forall_mem_map]
    apply forall₂_congr
    exact fun s _ => s.methodLines_ascend_iff

def classInMethod : Text :=
  Text.ofString
    "class A \x7b\nfoo() \x7b\nclass B \x7b\nbar() \x7b\x7d\n\x7d\n\x7d\nbaz() \x7b\x7d\n\x7d\n"

/-- A method after a class inside of a class is out of order; a class inside of a class alone does not
disturb the order. -/
theorem classInMethod_out_of_order :
    (∃ declared, DeclaredSymbols.ofOutlines
        (.list [(Script.outline classInMethod "a.js" "javascript" 1).toValue]) = .ok declared
      ∧ InReadingOrder declared.functions ∧ ¬ InReadingOrder declared.methods)
    ∧ ∃ declared, DeclaredSymbols.ofOutlines (.list [(Component.outline twoScripts "b.vue").toValue,
        (Php.outline nestedClasses "a.php").toValue]) = .ok declared
      ∧ InReadingOrder declared.methods := by
  obtain ⟨declared, given, functions, -, methods⟩ :=
    symbols_in_order_iff [.script classInMethod "a.js" "javascript" 1] (by decide)
  obtain ⟨declaredInOrder, alsoGiven, -, -, methodsInOrder⟩ :=
    symbols_in_order_iff [.component twoScripts "b.vue", .php nestedClasses "a.php"] (by decide)
  refine ⟨⟨declared, given id .plain, functions, fun ordered => ?_⟩,
    ⟨declaredInOrder, alsoGiven id .plain, methodsInOrder.mpr ?_⟩⟩
  · have apart := methods.mp ordered _ (List.mem_singleton_self _) _ (List.mem_singleton_self _)
    exact apart (by decide +kernel)
  · decide +kernel

end Surveyor
