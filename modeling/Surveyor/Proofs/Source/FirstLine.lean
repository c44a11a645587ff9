import Surveyor.Proofs.Source.DeclarationLines
import Surveyor.Source.Numbering

/-! # Lines counted from another number

Lines only enter an outline as the lines of offsets, and the number of the first line is only added
to them. So it adds to every line of an outline (`Script.outline_moved`), which is the same as
renumbering the published record (`Outline.renumber_toValue`). A record in the body of a script block
was found at an offset of the body; counted from the line of the block, its line is that of the offset
in the whole file (`lines_follow_first_line`).
-/

namespace Surveyor

open Pattern

/-! ## Moving the lines of an outline -/

def Method.moveLine (d : Int) (m : Method) : Method := { m with line := m.line + d }

def ClassDeclaration.moveLines (d : Int) (c : ClassDeclaration) : ClassDeclaration :=
  { c with line := c.line + d, methods := c.methods.map (Method.moveLine d) }

def FunctionDeclaration.moveLine (d : Int) (f : FunctionDeclaration) : FunctionDeclaration :=
  { f with line := f.line + d }

def Import.moveLine (d : Int) (i : Import) : Import := { i with line := i.line + d }

def Export.moveLine (d : Int) (e : Export) : Export := { e with line := e.line + d }

def Comment.moveLine (d : Int) (c : Comment) : Comment := { c with line := c.line + d }

def Outline.moveLines (d : Int) (o : Outline) : Outline :=
  { o with
    classes := o.classes.map (ClassDeclaration.moveLines d)
    functions := o.functions.map (FunctionDeclaration.moveLine d)
    imports := o.imports.map (Import.moveLine d)
    exports := o.exports.map (Export.moveLine d)
    comments := o.comments.map (Comment.moveLine d) }

/-- Sorting by keys that a change leaves alone commutes with the change. -/
theorem map_mergeSort_of_keys {α : Type} (key : α → Nat) (change : α → α)
    (kept : ∀ a, key (change a) = key a) (xs : List α) :
    (xs.mergeSort fun a b => decide (key a ≤ key b)).map change
      = (xs.map change).mergeSort fun a b => decide (key a ≤ key b) :=
  List.map_mergeSort fun a _ b _ => by rw [kept, kept]

section

variable (t : Text) (first d : Int)

theorem Comment.findAll_moved (hashComments : Bool) :
    Comment.findAll t (.ofText t (first + d)) hashComments
      = (Comment.findAll t (.ofText t first) hashComments).map (Comment.moveLine d) := by
  have block (m : Match) : Comment.ofBlock t (.ofText t (first + d)) m
      = (Comment.ofBlock t (.ofText t first) m).moveLine d := by
    simp only [Comment.ofBlock, LineIndex.lineOf_moved, Comment.moveLine]
  have line (m : Match) : Comment.ofLine? t (.ofText t (first + d)) m
      = (Comment.ofLine? t (.ofText t first) m).map (Comment.moveLine d) := by
    simp only [Comment.ofLine?, LineIndex.lineOf_moved]
    split <;> rfl
  unfold Comment.findAll
  simp only [map_mergeSort_of_keys Comment.start (Comment.moveLine d) (fun _ => rfl),
    List.map_append, List.map_map, List.map_flatMap, List.map_filterMap, funext line, funext block,
    List.any_map, Function.comp_def]
  rfl

namespace Script

theorem imports_moved :
    imports t (.ofText t (first + d)) = (imports t (.ofText t first)).map (Import.moveLine d) := by
  have clause (m : Match) : importOf t (.ofText t (first + d)) m
      = (importOf t (.ofText t first) m).moveLine d := by
    simp only [importOf, LineIndex.lineOf_moved, Import.moveLine]
  have binding (m : Match) : requireBindingOf t (.ofText t (first + d)) m
      = (requireBindingOf t (.ofText t first) m).moveLine d := by
    simp only [requireBindingOf, LineIndex.lineOf_moved, Import.moveLine]
  have bare (m : Match) : bareRequireOf t (.ofText t (first + d)) m
      = (bareRequireOf t (.ofText t first) m).moveLine d := by
    simp only [bareRequireOf, LineIndex.lineOf_moved, Import.moveLine]
  simp only [imports, map_mergeSort_of_keys Import.start (Import.moveLine d) (fun _ => rfl),
    List.map_append, List.map_map, funext clause, funext binding, funext bare, Function.comp_def]

theorem exports_moved :
    exports t (.ofText t (first + d)) = (exports t (.ofText t first)).map (Export.moveLine d) := by
  have at_ (form : ExportForm) (m : Match) (names : List String) :
      exportsAt (.ofText t (first + d)) form m names
        = (exportsAt (.ofText t first) form m names).map (Export.moveLine d) := by
    simp only [exportsAt, LineIndex.lineOf_moved, List.map_map, Function.comp_def, Export.moveLine]
  simp only [exports, map_mergeSort_of_keys Export.offset (Export.moveLine d) (fun _ => rfl),
    List.map_append, List.map_flatMap, at_]

theorem methodsOf_moved (opening : Nat) :
    methodsOf t (.ofText t (first + d)) opening
      = (methodsOf t (.ofText t first) opening).map (Method.moveLine d) := by
  have method (m : Match) : methodOf? t (.ofText t (first + d)) opening m
      = (methodOf? t (.ofText t first) opening m).map (Method.moveLine d) := by
    simp only [methodOf?, LineIndex.lineOf_moved]
    split <;> rfl
  simp only [methodsOf, List.map_filterMap, funext method]

theorem classes_moved :
    classes t (.ofText t (first + d))
      = (classes t (.ofText t first)).map (ClassDeclaration.moveLines d) := by
  have header (m : Match) : classOf t (.ofText t (first + d)) m
      = (classOf t (.ofText t first) m).moveLines d := by
    simp only [classOf, methodsOf_moved, LineIndex.lineOf_moved, ClassDeclaration.moveLines]
  simp only [classes, List.map_map, Function.comp_def, funext header]

theorem functions_moved (declared : List ClassDeclaration) :
    functions t (.ofText t (first + d)) (declared.map (ClassDeclaration.moveLines d))
      = (functions t (.ofText t first) declared).map (FunctionDeclaration.moveLine d) := by
  have function (m : Match) : functionOf t (.ofText t (first + d)) m
      = (functionOf t (.ofText t first) m).moveLine d := by
    simp only [functionOf, LineIndex.lineOf_moved, FunctionDeclaration.moveLine]
  have arrow (m : Match) : arrowOf t (.ofText t (first + d)) m
      = (arrowOf t (.ofText t first) m).moveLine d := by
    simp only [arrowOf, LineIndex.lineOf_moved, FunctionDeclaration.moveLine]
  -- Which functions are left out depends on the offsets of the class headers only.
  have scope : (declared.map (ClassDeclaration.moveLines d)).map (fun c => (c.offset : Int))
      = declared.map fun c => (c.offset : Int) := by
    rw [List.map_map]
    rfl
  simp only [functions, scope, map_mergeSort_of_keys FunctionDeclaration.offset
    (FunctionDeclaration.moveLine d) (fun _ => rfl), List.map_append, List.map_map,
    funext function, funext arrow, Function.comp_def, List.filter_append, List.filter_map]
  rfl

theorem outline_moved (path language : String) :
    outline t path language (first + d) = (outline t path language first).moveLines d := by
  simp only [outline, Outline.moveLines, classes_moved, functions_moved, imports_moved,
    exports_moved, Comment.findAll_moved]

end Script

end

/-! ## Moving the lines of a published record -/

@[simp]
theorem renumber_str (first : Quantity) (s : String) : renumber first (.str s) = .ok (.str s) :=
  rfl

@[simp]
theorem renumber_bool (first : Quantity) (b : Bool) :
    renumber first (.bool b) = .ok (.bool b) :=
  rfl

@[simp]
theorem renumber_ofOption (first : Quantity) (s : Option String) :
    renumber first (.ofOption s) = .ok (.ofOption s) := by
  cases s with
  | none | some s => rfl

/-- Items that are renumbered one by one. -/
theorem renumber_list {α : Type} {first : Quantity} (change : α → α) {publish : α → Value}
    (each : ∀ a, renumber first (publish a) = .ok (publish (change a))) (xs : List α) :
    renumber first (.list (xs.map publish)) = .ok (.list ((xs.map change).map publish)) := by
  have items : renumberItems first (xs.map publish) = .ok ((xs.map change).map publish) := by
    induction xs with
    | nil => rfl
    | cons x rest inductionHypothesis =>
      rw [List.map_cons, renumberItems, each, inductionHypothesis]
      rfl
  rw [renumber, items]
  rfl

@[simp]
theorem renumber_strings (first : Quantity) (names : List String) :
    renumber first (.strings names) = .ok (.strings names) := by
  have unchanged := renumber_list id (renumber_str first) names
  rwa [List.map_id] at unchanged

@[simp]
theorem renumber_map (first : Quantity) (entries : List (String × Value)) :
    renumber first (.map entries) = (renumberEntries first entries).map .map := by
  rw [renumber]
  cases renumberEntries first entries with
  | ok _ | error _ => rfl

@[simp]
theorem renumberEntries_nil (first : Quantity) : renumberEntries first [] = .ok [] :=
  rfl

/-- The line of a record moves as it does in the outline. -/
@[simp]
theorem renumberEntries_line (k line : Int) (rest : List (String × Value)) :
    renumberEntries (.whole k) (("line", .int line) :: rest)
      = (renumberEntries (.whole k) rest).map (("line", .int (line + (k - 1))) :: ·) := by
  rw [renumberEntries]
  cases renumberEntries (.whole k) rest with
  | ok _ | error _ => rfl

@[simp]
theorem renumberEntries_cons {first : Quantity} {key : String} (other : key ≠ "line")
    {value renumbered : Value} (done : renumber first value = .ok renumbered)
    (rest : List (String × Value)) :
    renumberEntries first ((key, value) :: rest)
      = (renumberEntries first rest).map ((key, renumbered) :: ·) := by
  rw [renumberEntries, if_neg (by simpa using other), done]
  cases renumberEntries first rest with
  | ok _ | error _ => rfl

theorem Method.renumber_toValue (k : Int) (m : Method) :
    renumber (.whole k) m.toValue = .ok (m.moveLine (k - 1)).toValue := by
  rw [toValue]
  cases accessor : m.accessor with
  | none =>
    simp [Except.map, moveLine, toValue, accessor]
  | some flags =>
    simp [Except.map, moveLine, toValue, accessor]

theorem Property.renumber_toValue (k : Int) (p : Property) :
    renumber (.whole k) p.toValue = .ok p.toValue := by
  simp [toValue, Except.map]

theorem ClassDeclaration.renumber_toValue (k : Int) (c : ClassDeclaration) :
    renumber (.whole k) c.toValue = .ok (c.moveLines (k - 1)).toValue := by
  have methods := renumber_list _ (Method.renumber_toValue k) c.methods
  have properties (declared : List Property) := renumber_list id (Property.renumber_toValue k) declared
  simp only [List.map_id] at properties
  rw [toValue]
  cases declared : c.properties with
  | none =>
    cases exported : c.isExported with
    | none | some _ =>
      simp [Except.map, moveLines, toValue, declared, exported, renumberEntries_cons _ methods]
  | some listed =>
    cases exported : c.isExported with
    | none | some _ =>
      simp [Except.map, moveLines, toValue, declared, exported, renumberEntries_cons _ methods,
        renumberEntries_cons _ (properties listed)]

theorem FunctionDeclaration.renumber_toValue (k : Int) (f : FunctionDeclaration) :
    renumber (.whole k) f.toValue = .ok (f.moveLine (k - 1)).toValue := by
  simp [toValue, Except.map, moveLine]

theorem Import.renumber_toValue (k : Int) (i : Import) :
    renumber (.whole k) i.toValue = .ok (i.moveLine (k - 1)).toValue := by
  simp [toValue, Except.map, moveLine]

theorem Export.renumber_toValue (k : Int) (e : Export) :
    renumber (.whole k) e.toValue = .ok (e.moveLine (k - 1)).toValue := by
  simp [toValue, Except.map, moveLine]

theorem Comment.renumber_toValue (k : Int) (c : Comment) :
    renumber (.whole k) c.toValue = .ok (c.moveLine (k - 1)).toValue := by
  simp [toValue, Except.map, moveLine]

theorem Outline.renumber_toValue (k : Int) (o : Outline) :
    renumber (.whole k) o.toValue = .ok (o.moveLines (k - 1)).toValue := by
  rw [toValue]
  cases setup : o.isScriptSetup with
  | none | some _ =>
    simp [Except.map, moveLines, toValue, setup,
      renumberEntries_cons _ (renumber_list _ (ClassDeclaration.renumber_toValue k) o.classes),
      renumberEntries_cons _ (renumber_list _ (FunctionDeclaration.renumber_toValue k) o.functions),
      renumberEntries_cons _ (renumber_list _ (Import.renumber_toValue k) o.imports),
      renumberEntries_cons _ (renumber_list _ (Export.renumber_toValue k) o.exports),
      renumberEntries_cons _ (renumber_list _ (Comment.renumber_toValue k) o.comments)]

/-! ## Sites -/

/-- Where the records of an outline were found, each with the line that it is listed with. -/
def Outline.recordSites (o : Outline) : List (Nat × Int) :=
  o.classes.flatMap (fun c => (c.offset, c.line) :: c.methods.map fun m => (m.offset, m.line))
    ++ o.functions.map (fun f => (f.offset, f.line))
    ++ o.imports.map (fun i => (i.start, i.line))
    ++ o.exports.map (fun e => (e.offset, e.line))
    ++ o.comments.map (fun c => (c.start, c.line))

/-- The site is an offset of the text with the number of its line. -/
def LocatedIn (t : Text) (first : Int) (site : Nat × Int) : Prop :=
  site.1 ≤ t.size ∧ site.2 = (LineIndex.ofText t first).lineOf site.1

section

variable {t : Text} {first : Int} {p : Pattern} {m : Match}

theorem locatedIn_start (consuming : p.consumes = true) (found : m ∈ p.findAll (.ofText t)) :
    LocatedIn t first (m.start, (LineIndex.ofText t first).lineOf m.start) :=
  ⟨Nat.le_trans (isMatch_of_mem_findAll found).start_le_stop
    (stop_le_size_of_mem_findAll consuming found), rfl⟩

theorem locatedIn_groupStart (consuming : p.consumes = true) (found : m ∈ p.findAll (.ofText t))
    (index : Nat) :
    LocatedIn t first (m.groupStart index, (LineIndex.ofText t first).lineOf (m.groupStart index)) :=
  ⟨Nat.le_trans ((isMatch_of_mem_findAll found).groupStart_le index)
    (stop_le_size_of_mem_findAll consuming found), rfl⟩

theorem locatedIn_of_mem_comments {hashComments : Bool} {c : Comment}
    (member : c ∈ Comment.findAll t (.ofText t first) hashComments) :
    LocatedIn t first (c.start, c.line) := by
  simp only [Comment.findAll, List.mem_mergeSort, List.mem_append, List.mem_map, List.mem_flatMap,
    List.mem_filterMap, List.mem_filter] at member
  rcases member with ⟨m, found, rfl⟩ | ⟨p, listed, m, ⟨found, -⟩, isComment⟩
  · exact locatedIn_start (by decide) found
  · have consuming : p.consumes = true := by
      cases hashComments with
      | true =>
        rcases List.mem_cons.mp listed with rfl | listed
        · decide
        · obtain rfl := List.mem_singleton.mp listed
          decide
      | false =>
        obtain rfl := List.mem_singleton.mp listed
        decide
    simp only [Comment.ofLine?] at isComment
    split at isComment
    · cases isComment
    · cases isComment
      exact locatedIn_start consuming found

namespace Script

theorem locatedIn_of_mem_methodsOf {opening : Nat} {method : Method}
    (member : method ∈ methodsOf t (.ofText t first) opening) :
    LocatedIn t first (method.offset, method.line) := by
  obtain ⟨m, -, matched, header⟩ := exists_header_of_mem_methodsOf member
  have upTo := matched.stop_le (lt_of_consumes (p := methodPattern) (by decide) matched)
  have inText : m.groupStart 2 ≤ t.size :=
    Nat.le_trans (matched.groupStart_le 2) (Nat.le_trans upTo (Nat.min_le_right _ _))
  rw [header.offset, header.line]
  exact ⟨inText, rfl⟩

theorem locatedIn_of_mem_imports {i : Import} (member : i ∈ imports t (.ofText t first)) :
    LocatedIn t first (i.start, i.line) := by
  simp only [imports, List.mem_mergeSort, List.mem_append, List.mem_map] at member
  obtain (⟨m, found, rfl⟩ | ⟨m, found, rfl⟩) | ⟨m, found, rfl⟩ := member
  · rw [line_importOf, start_importOf]
    exact locatedIn_start (by decide) found
  · exact locatedIn_start (by decide) found
  · exact locatedIn_start (by decide) found

theorem locatedIn_of_mem_exports {e : Export} (member : e ∈ exports t (.ofText t first)) :
    LocatedIn t first (e.offset, e.line) := by
  have exported {p : Pattern} (consuming : p.consumes = true) {form : ExportForm}
      {names : Match → List String}
      (listed : ∃ m ∈ p.findAll (.ofText t), e ∈ exportsAt (.ofText t first) form m (names m)) :
      LocatedIn t first (e.offset, e.line) := by
    obtain ⟨m, found, inMatch⟩ := listed
    obtain ⟨name, -, rfl⟩ := List.mem_map.mp inMatch
    exact locatedIn_start consuming found
  simp only [exports, List.mem_mergeSort, List.mem_append, List.mem_flatMap] at member
  rcases member with (((listed | listed) | listed) | listed) | listed
  · exact exported (by decide) listed
  · exact exported (by decide) listed
  · exact exported (by decide) listed
  · exact exported (by decide) listed
  · exact exported (by decide) listed

theorem locatedIn_of_mem_functions {declared : List ClassDeclaration} {f : FunctionDeclaration}
    (member : f ∈ functions t (.ofText t first) declared) :
    LocatedIn t first (f.offset, f.line) := by
  obtain ⟨m, found, rfl⟩ | ⟨m, found, rfl⟩ := header_of_mem_functions member
  · exact locatedIn_groupStart (by decide) found 3
  · exact locatedIn_groupStart (by decide) found 2

theorem locatedIn_of_mem_recordSites {path language : String} {site : Nat × Int}
    (member : site ∈ (outline t path language first).recordSites) : LocatedIn t first site := by
  simp only [Outline.recordSites, List.mem_append, List.mem_flatMap, List.mem_cons,
    List.mem_map] at member
  rcases member with (((⟨c, inClasses, site⟩ | ⟨f, isFunction, rfl⟩) | ⟨i, isImport, rfl⟩)
    | ⟨e, isExport, rfl⟩) | ⟨c, isComment, rfl⟩
  · obtain ⟨header, found, rfl⟩ := List.mem_map.mp inClasses
    rcases site with rfl | ⟨method, inClass, rfl⟩
    · exact locatedIn_groupStart (by decide) found 2
    · exact locatedIn_of_mem_methodsOf inClass
  · exact locatedIn_of_mem_functions isFunction
  · exact locatedIn_of_mem_imports isImport
  · exact locatedIn_of_mem_exports isExport
  · exact locatedIn_of_mem_comments isComment

end Script

namespace Component

theorem scriptPattern_eq :
    scriptPattern =
      (caseless "<script" ++ wordEdge ++ .group 1 (.greedy (· != '>') 0) ++ char '>')
        ++ (.group 2 (.lazy (fun _ => true) 0) ++ (caseless "</script" ++ blanks ++ char '>')) :=
  rfl

/-- The body of a script block lies in the block. -/
theorem body_of_mem_findAll (found : m ∈ scriptPattern.findAll (.ofText t)) :
    ∃ stop, m.groupText t 2 = t.slice (m.groupStart 2) stop ∧ m.groupStart 2 ≤ stop
      ∧ stop ≤ m.stop ∧ m.stop ≤ t.size := by
  have upTo := stop_le_size_of_mem_findAll (by decide) found
  have matched := isMatch_of_mem_findAll found
  rw [scriptPattern_eq] at matched
  obtain ⟨stop, _, _, recorded, -, bodyWay, restWay⟩ := matched.group (by decide)
  refine ⟨stop, ?_, (le_of_mem_ways bodyWay).1, (le_of_mem_ways restWay).1, upTo⟩
  rw [Match.groupText, Match.group?, recorded]
  rfl

theorem mem_recordSites {path : String} {site : Nat × Int} :
    site ∈ (outline t path).recordSites ↔
      ∃ m ∈ scriptPattern.findAll (.ofText t),
        site ∈ (blockOutline t path (.ofText t 1) m).recordSites := by
  simp only [outline, Outline.recordSites, List.flatMap_map, List.mem_append, List.mem_flatMap,
    List.mem_map]
  grind

theorem line_of_mem_block {path : String} (found : m ∈ scriptPattern.findAll (.ofText t))
    {site : Nat × Int} (member : site ∈ (blockOutline t path (.ofText t 1) m).recordSites) :
    m.groupStart 2 + site.1 ≤ t.size
      ∧ site.2 = 1 + ((t.toList.take (m.groupStart 2 + site.1)).count '\n' : Nat) := by
  obtain ⟨stop, body, order, inBlock, upTo⟩ := body_of_mem_findAll found
  have inFile := Nat.le_trans inBlock upTo
  obtain ⟨inBody, line⟩ := Script.locatedIn_of_mem_recordSites member
  rw [body] at inBody line
  have size : (Text.ofString (t.slice (m.groupStart 2) stop)).size = stop - m.groupStart 2 := by
    rw [Text.ofString, List.size_toArray, length_slice inFile]
  rw [size] at inBody
  rw [LineIndex.lineOf_slice (by omega), LineIndex.lineOf_ofText] at line
  exact ⟨by omega, line⟩

end Component

end

/-- If the first line of a script has another number, the difference is added to every line and nothing
else changes, in the outline and in its published form. So every record of a component, found in the
body of one of its script blocks, is listed with its line in the file. -/
theorem lines_follow_first_line :
    (∀ (t : Text) (path language : String) (k : Int),
      Script.outline t path language k = (Script.outline t path language 1).moveLines (k - 1)
      ∧ renumber (.whole k) (Script.outline t path language 1).toValue
          = .ok (Script.outline t path language k).toValue)
    ∧ ∀ (t : Text) (path : String),
      (∀ site, site ∈ (Component.outline t path).recordSites ↔
        ∃ block ∈ Component.scriptPattern.findAll (.ofText t),
          site ∈ (Component.blockOutline t path (.ofText t 1) block).recordSites)
      ∧ ∀ block ∈ Component.scriptPattern.findAll (.ofText t),
        ∀ site ∈ (Component.blockOutline t path (.ofText t 1) block).recordSites,
          block.groupStart 2 + site.1 ≤ t.size
          ∧ site.2 = 1 + ((t.toList.take (block.groupStart 2 + site.1)).count '\n' : Nat) := by
  refine ⟨fun t path language k => ?_, fun t path =>
    ⟨fun site => Component.mem_recordSites, fun block found site member =>
      Component.line_of_mem_block found member⟩⟩
  have moved : Script.outline t path language k
      = (Script.outline t path language 1).moveLines (k - 1) := by
    have parts : 1 + (k - 1) = k := by omega
    rw [← Script.outline_moved, parts]
  exact ⟨moved, by rw [moved, Outline.renumber_toValue]⟩

/-- A component with two script blocks, the second one after a template. -/
def twoScripts : Text :=
  Text.ofString
    "<script>\nimport a from 'a'\n</script>\n<p>\n</p>\n<script setup>\n\nf(// b\n)</script>\n"

theorem twoScripts_count_lines :
    ∃ block ∈ Component.scriptPattern.findAll (.ofText twoScripts),
      block.groupStart 2 = 60 ∧
      ∃ site ∈
          (Component.blockOutline twoScripts "a.vue" (.ofText twoScripts 1) block).recordSites,
        site = (4, 8) := by
  have found : ∃ block ∈ Component.scriptPattern.findAll (.ofText twoScripts),
      block.groupStart 2 = 60 ∧
      ∃ site ∈
          (Component.blockOutline twoScripts "a.vue" (.ofText twoScripts 1) block).recordSites,
        site.1 = 4 := by
    decide +kernel
  obtain ⟨block, member, body, site, inBlock, offset⟩ := found
  refine ⟨block, member, body, site, inBlock, Prod.ext offset ?_⟩
  obtain ⟨-, line⟩ := (lines_follow_first_line.2 twoScripts "a.vue").2 block member site inBlock
  rw [line, body, offset]
  decide +kernel

end Surveyor
