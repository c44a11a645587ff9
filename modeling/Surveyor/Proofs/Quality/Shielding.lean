import Mathlib
import Surveyor.Proofs.Inspection.Readings
import Surveyor.Proofs.Quality.DeadCode
import Surveyor.Proofs.Quality.Footprint

/-! # Texts that findings do not depend on

A file that is catalogued as obfuscated is left out where names in use, comments and branches are looked
for. Its text is still read in three places: PHP files are searched for computed names, outlined files
for imports and sizes, and all files for the packages they import. So the text of an obfuscated file
that is neither PHP nor outlined (`Snapshot.IsShielded`) shows in no finding but those about
dependencies. PHP files are recognised by their extension in any letter case, so the condition has to
be read in that way too (`shouted_extension_shows`).
-/

namespace Surveyor

/-! ## Texts that differ -/

/-- The same entries in the same order, apart from what is under keys of a kind. -/
inductive DifferUnder {α : Type} (hidden : String → Prop) :
    List (String × α) → List (String × α) → Prop
  | nil : DifferUnder hidden [] []
  | shown (entry : String × α) {entries others : List (String × α)}
      (rest : DifferUnder hidden entries others) : DifferUnder hidden (entry :: entries) (entry :: others)
  | hidden {key : String} (isHidden : hidden key) (value other : α) {entries others : List (String × α)}
      (rest : DifferUnder hidden entries others) :
      DifferUnder hidden ((key, value) :: entries) ((key, other) :: others)

namespace DifferUnder

variable {α : Type} {hidden : String → Prop}

theorem refl (entries : List (String × α)) : DifferUnder hidden entries entries := by
  induction entries with
  | nil => exact .nil
  | cons entry rest inductionHypothesis => exact .shown entry inductionHypothesis

theorem lookup_eq {entries others : List (String × α)} (differ : DifferUnder hidden entries others)
    {key : String} (isShown : ¬ hidden key) : entries.lookup key = others.lookup key := by
  induction differ with
  | nil => rfl
  | shown entry _ inductionHypothesis =>
    rw [List.lookup_cons, List.lookup_cons, inductionHypothesis]
  | @hidden name isHidden _ _ _ _ _ inductionHypothesis =>
    have different : key ≠ name := fun same => isShown (same ▸ isHidden)
    rw [List.lookup_cons, List.lookup_cons, beq_eq_false_iff_ne.mpr different, inductionHypothesis]

theorem mapValues {β : Type} {entries others : List (String × α)}
    (differ : DifferUnder hidden entries others) (f : α → β) :
    DifferUnder hidden (entries.map fun (key, value) => (key, f value))
      (others.map fun (key, value) => (key, f value)) := by
  induction differ with
  | nil => exact .nil
  | shown _ _ inductionHypothesis => exact .shown _ inductionHypothesis
  | hidden isHidden _ _ _ inductionHypothesis => exact .hidden isHidden _ _ inductionHypothesis

variable {contents others : Contents}

/-- A test that hidden files fail keeps the same files on both sides. -/
theorem filter_eq (differ : DifferUnder hidden contents others) {keep : String × String → Bool}
    (dropped : ∀ path text, hidden path → keep (path, text) = false) :
    contents.filter keep = others.filter keep := by
  induction differ with
  | nil => rfl
  | shown file _ inductionHypothesis => rw [List.filter_cons, List.filter_cons, inductionHypothesis]
  | hidden isHidden text other _ inductionHypothesis =>
    rw [List.filter_cons_of_neg (by simp [dropped _ text isHidden]),
      List.filter_cons_of_neg (by simp [dropped _ other isHidden]), inductionHypothesis]

theorem hasDynamicLoading_eq (differ : DifferUnder hidden contents others)
    (notPhp : ∀ path, hidden path → isPhpPath path = false) :
    hasDynamicLoading contents = hasDynamicLoading others := by
  unfold hasDynamicLoading
  induction differ with
  | nil => rfl
  | shown file _ inductionHypothesis => rw [List.any_cons, List.any_cons, inductionHypothesis]
  | hidden isHidden _ _ _ inductionHypothesis =>
    simp only [List.any_cons, notPhp _ isHidden, Bool.false_and, inductionHypothesis]

/-- Both sides at once: the keys, each with its two values. -/
theorem exists_pairs (differ : DifferUnder hidden contents others) :
    ∃ pairs : List (String × String × String),
      contents = pairs.map (fun p => (p.1, p.2.1)) ∧ others = pairs.map (fun p => (p.1, p.2.2))
        ∧ ∀ p ∈ pairs, hidden p.1 ∨ p.2.1 = p.2.2 := by
  induction differ with
  | nil => exact ⟨[], rfl, rfl, by simp⟩
  | shown file _ inductionHypothesis =>
    obtain ⟨pairs, rfl, rfl, related⟩ := inductionHypothesis
    exact ⟨(file.1, file.2, file.2) :: pairs, rfl, rfl, List.forall_mem_cons.mpr ⟨.inr rfl, related⟩⟩
  | hidden isHidden text other _ inductionHypothesis =>
    obtain ⟨pairs, rfl, rfl, related⟩ := inductionHypothesis
    exact ⟨(_, text, other) :: pairs, rfl, rfl,
      List.forall_mem_cons.mpr ⟨.inl isHidden, related⟩⟩

theorem of_pairs {pairs : List (String × String × String)}
    (related : ∀ p ∈ pairs, hidden p.1 ∨ p.2.1 = p.2.2) :
    DifferUnder hidden (pairs.map fun p => (p.1, p.2.1)) (pairs.map fun p => (p.1, p.2.2)) := by
  induction pairs with
  | nil => exact .nil
  | cons p rest inductionHypothesis =>
    obtain ⟨here, there⟩ := List.forall_mem_cons.mp related
    obtain ⟨path, text, other⟩ := p
    rcases here with isHidden | same
    · exact .hidden isHidden text other (inductionHypothesis there)
    · obtain rfl : text = other := same
      exact .shown _ (inductionHypothesis there)

/-- Sorting by path puts both sides in the same order. -/
theorem sorted (differ : DifferUnder hidden contents others) :
    DifferUnder hidden contents.sorted others.sorted := by
  obtain ⟨pairs, rfl, rfl, related⟩ := differ.exists_pairs
  -- The order is one of paths, so both sides are read off the pairs in the order of their paths.
  let ordered := pairs.mergeSort fun p q => decide (p.1 ≤ q.1)
  have first : Contents.sorted (pairs.map fun p => (p.1, p.2.1))
      = ordered.map fun p => (p.1, p.2.1) :=
    (List.map_mergeSort (f := fun p : String × String × String => (p.1, p.2.1))
      fun _ _ _ _ => rfl).symm
  have second : Contents.sorted (pairs.map fun p => (p.1, p.2.2))
      = ordered.map fun p => (p.1, p.2.2) :=
    (List.map_mergeSort (f := fun p : String × String × String => (p.1, p.2.2))
      fun _ _ _ _ => rfl).symm
  rw [first, second]
  exact of_pairs fun p inOrdered => related p (List.mem_mergeSort.mp inOrdered)

/-- Hidden files that are skipped are not gone through, whatever their texts are. -/
theorem filled_eq (differ : DifferUnder hidden contents others) {skip : List String}
    (skipped : ∀ path, hidden path → path ∈ skip) : contents.filled skip = others.filled skip :=
  differ.sorted.filter_eq fun path text isHidden => by simp [skipped path isHidden]

end DifferUnder

namespace Value

/-- The same value, or mappings that differ at most in what is under hidden keys. -/
inductive DifferWithin (hidden : String → Prop) : Value → Value → Prop
  | same (v : Value) : DifferWithin hidden v v
  | map {entries others : Entries} (differ : DifferUnder hidden entries others) :
      DifferWithin hidden (.map entries) (.map others)
  | view {entries others : Entries} (differ : DifferUnder hidden entries others) :
      DifferWithin hidden (.view entries) (.view others)

end Value

namespace Snapshot

/-- The snapshots differ at most in the texts of hidden files. -/
structure DifferWithin (hidden : String → Prop) (a b : Value) : Prop where
  elsewhere : a.AgreeBut ["_file_contents"] b
  texts : (a.get "_file_contents").DifferWithin hidden (b.get "_file_contents")

/-- The file is obfuscated, and neither PHP nor outlined. -/
structure IsShielded (snapshot : Value) (path : String) : Prop where
  flagged : IsFlagged snapshot path
  notPhp : isPhpPath path = false
  notOutlined : ¬ IsOutlined snapshot path

variable {a b : Value} {hidden : String → Prop}

theorem DifferWithin.contents_alike (differ : DifferWithin hidden a b) :
    EndAlike (DifferUnder hidden) (contents a) (contents b) := by
  rw [contents_eq, contents_eq]
  refine (differ.elsewhere.field_alike differ.texts).bind fun v w related => ?_
  cases related with
  | same => exact (EndAlike.refl _).mono fun same => same ▸ .refl _
  | map differ =>
    rw [readTexts_map, readTexts_map]
    exact .succeed (differ.mapValues Value.asStr)
  | view differ =>
    rw [readTexts_view, readTexts_view]
    exact .succeed (differ.mapValues Value.asStr)

end Snapshot

/-! ## Findings from shielded texts -/

namespace QualityInput

/-- What shielded texts leave as it is: all that findings are drawn from, apart from the packages that
are imported. -/
theorem alike_of_shielded {a b : Value} (differ : Snapshot.DifferWithin (Snapshot.IsShielded a) a b) :
    EndAlike (Alike fun _ _ => True) (ofSnapshot a) (ofSnapshot b) := by
  have sameField : ∀ part, part ≠ "_file_contents" → a.field part = b.field part := fun part other =>
    differ.elsewhere.field_eq (by simpa using other)
  rw [ofSnapshot, ofSnapshot]
  refine differ.contents_alike.bind fun (contents others : Contents) textsDiffer => ?_
  refine (EndAlike.of_eq (Snapshot.partField_congr (sameField "file_system" (by decide))
    "files")).remember.bind fun files _ filesRead => ?_
  obtain ⟨rfl, readFiles, -⟩ := filesRead
  refine (EndAlike.of_eq (Snapshot.partField_congr (sameField "code_structure" (by decide))
    "files")).remember.bind fun outlines _ outlinesRead => ?_
  obtain ⟨rfl, readOutlines, -⟩ := outlinesRead
  refine (EndAlike.of_eq (Snapshot.partField_congr (sameField "tech_stack" (by decide))
    "dependencies")).bind_eq fun dependencies => ?_
  refine (EndAlike.refl (Snapshot.obfuscated files)).remember.bind fun skip _ skipRead => ?_
  obtain ⟨rfl, readSkip, -⟩ := skipRead
  refine (EndAlike.refl _).bind_eq fun declared => .succeed ?_
  -- A shielded file is not outlined, so its text is not looked up for imports and sizes.
  have sameTexts : ∀ files, outlinesByPath outlines = .ok files → ∀ file ∈ files,
      contents.filledAt? file.1 = others.filledAt? file.1 := by
    intro byPath read file member
    refine Contents.filledAt?_congr fun name isName => textsDiffer.lookup_eq fun isShielded => ?_
    obtain ⟨path, o⟩ := file
    obtain rfl : path = .str name := isName
    exact isShielded.notOutlined (Snapshot.isOutlined_of_mem_outlinesByPath readOutlines read member)
  exact {
    files := textsDiffer.filled_eq fun path isShielded =>
      (Snapshot.mem_obfuscated_iff readFiles readSkip).mpr isShielded.flagged
    declared := rfl
    dynamic := textsDiffer.hasDynamicLoading_eq fun _ isShielded => isShielded.notPhp
    imports := unusedImports_alike (.refl _) sameTexts
    sizes := largeFunctions_alike (.refl _) sameTexts
    dependencies := (EndAlike.refl _).bind_eq fun entries =>
      (EndAlike.refl _).bind_eq fun visible => .succeed trivial }

end QualityInput

namespace QualityFindings

def shieldedLists : List String :=
  ["unused_functions", "unused_methods", "unused_classes", "unused_imports", "large_functions",
    "commented_code", "complexity"]

theorem Alike.get?_eq {R : List Issue → List Issue → Prop} {f g : QualityFindings} (alike : Alike R f g)
    {key : String} (member : key ∈ shieldedLists) : f.toValue.get? key = g.toValue.get? key := by
  simp only [shieldedLists, List.mem_cons, List.not_mem_nil, or_false] at member
  have published : ∀ {found others : List Issue}, found = others →
      some (Value.list (found.map Issue.toValue)) = some (Value.list (others.map Issue.toValue)) := by
    intro found others same
    rw [same]
  rcases member with rfl | rfl | rfl | rfl | rfl | rfl | rfl
  · exact published alike.unusedFunctions
  · exact published alike.unusedMethods
  · exact published alike.unusedClasses
  · exact published alike.unusedImports
  · exact published alike.largeFunctions
  · exact published alike.commentedCode
  · show some (Value.list (f.complexity.map _)) = some (Value.list (g.complexity.map _))
    rw [alike.complexity]

theorem RunsAlike.published?_eq {R : List Issue → List Issue → Prop} {x y : StageRun}
    (alike : RunsAlike (Alike R) x y) :
    x.steps = y.steps ∧ ∀ key ∈ shieldedLists,
      x.published? "code_quality" key = y.published? "code_quality" key := by
  cases alike with
  | fail => exact ⟨rfl, fun _ _ => rfl⟩
  | publish related => exact ⟨rfl, fun key member => related.get?_eq member⟩

/-- Snapshots that differ only in the texts of obfuscated files, which are neither PHP nor outlined,
give the same findings and steps. -/
theorem shielded_texts_do_not_show {a b : Value}
    (differ : Snapshot.DifferWithin (Snapshot.IsShielded a) a b) (context : StageContext) :
    (Stage.qualityScan.run context a).steps = (Stage.qualityScan.run context b).steps
      ∧ ∀ key ∈ shieldedLists,
        (Stage.qualityScan.run context a).published? "code_quality" key
          = (Stage.qualityScan.run context b).published? "code_quality" key :=
  (run_alike (QualityInput.alike_of_shielded differ) context).published?_eq

/-! ## An obfuscated file beside a class -/

/-- A snapshot with the text of one obfuscated file, and the outline of another file. -/
def besideClass (path text : String) : Value :=
  .map [("_file_contents", .map [(path, .str text)]),
    ("file_system", .map [("files", .list [.map [("path", .str path), ("obfuscated", .bool true)]])]),
    ("code_structure", .map [("files", .list [.map [("path", .str "a.php"), ("language", .str "php"),
      ("classes", .list [.map [("name", .str "Shop"), ("line", .int 1)]])]])])]

theorem isFlagged_besideClass (path text : String) :
    Snapshot.IsFlagged (besideClass path text) path :=
  ⟨_, List.mem_singleton.mpr rfl, rfl, rfl⟩

theorem not_isOutlined_besideClass {path : String} (other : path ≠ "a.php") (text : String) :
    ¬ Snapshot.IsOutlined (besideClass path text) path := by
  rintro ⟨o, member, hasPath⟩
  obtain rfl := List.mem_singleton.mp member
  cases hasPath
  exact other rfl

theorem differ_besideClass {hidden : String → Prop} {path : String} (isHidden : hidden path)
    (text other : String) :
    Snapshot.DifferWithin hidden (besideClass path text) (besideClass path other) where
  elsewhere := .mappings rfl rfl fun key outside => by
    have notTexts : (key == "_file_contents") = false := by simpa using outside
    simp [besideClass, Value.get?, List.lookup_cons, notTexts]
  texts := .map (.hidden isHidden _ _ .nil)

theorem minified_call_does_not_show :
    Snapshot.IsShielded (besideClass "old.js" "new Shop()") "old.js"
      ∧ ∀ key ∈ shieldedLists,
        (Stage.qualityScan.run plainContext (besideClass "old.js" "new Shop()")).published?
            "code_quality" key
          = (Stage.qualityScan.run plainContext (besideClass "old.js" "")).published?
            "code_quality" key := by
  have shielded : Snapshot.IsShielded (besideClass "old.js" "new Shop()") "old.js" :=
    ⟨isFlagged_besideClass _ _, by decide +kernel, not_isOutlined_besideClass (by decide) _⟩
  exact ⟨shielded, (shielded_texts_do_not_show (differ_besideClass shielded _ _) plainContext).2⟩

/-- With an extension in capitals the path does not end in `.php`, but the file counts as PHP: its text
makes a class that nothing refers to one that may be loaded by a computed name. -/
theorem shouted_extension_shows :
    Snapshot.DifferWithin
        (fun path => Snapshot.IsFlagged (besideClass "Old.PHP" "new $x") path
          ∧ Text.hasSuffix path ".php" = false
          ∧ ¬ Snapshot.IsOutlined (besideClass "Old.PHP" "new $x") path)
        (besideClass "Old.PHP" "new $x") (besideClass "Old.PHP" "")
      ∧ (Stage.qualityScan.run plainContext (besideClass "Old.PHP" "new $x")).published?
          "code_quality" "unused_classes"
        ≠ (Stage.qualityScan.run plainContext (besideClass "Old.PHP" "")).published?
          "code_quality" "unused_classes" := by
  refine ⟨differ_besideClass ⟨isFlagged_besideClass _ _, by decide +kernel,
    not_isOutlined_besideClass (by decide) _⟩ _ _, ?_⟩
  cbv
  simp

end QualityFindings

end Surveyor
