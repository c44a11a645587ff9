import Surveyor.Inspection.Builtin
import Surveyor.Proofs.Catalog.Records
import Surveyor.Proofs.Text.Sorted
import Surveyor.Proofs.Value.Fault
import Surveyor.Proofs.Value.Plain

/-! # Published forms with nothing to hide

Catalogues, structures, locations and assessments are built from scalars, lists and mappings whose
keys are fixed names or extensions, which start with a dot; so they leave an analysis as they are.
-/

namespace Surveyor

/-! ## Catalogues -/

theorem FileRecord.leavesAsIs_toValue (r : FileRecord) : r.toValue.LeavesAsIs := by
  simp +decide [toValue]

theorem isInternalKey_ofList (c : Char) (rest : List Char) :
    isInternalKey (String.ofList (c :: rest)) = ('_' == c) := by
  show ['_'].isPrefixOf (String.ofList (c :: rest)).toList = ('_' == c)
  rw [String.toList_ofList]
  exact Bool.and_true _

/-- The lower case of a text that starts with a dot starts with a dot. -/
theorem isInternalKey_extensionOf (name : String) : isInternalKey (extensionOf name) = false := by
  have noLetter : lowerChar '.' = '.' := by decide
  have dotted : ∀ rest : List Char,
      lower (String.ofList ('.' :: rest)) = String.ofList ('.' :: lowerChars ['.'] rest) := by
    intro rest
    have dot : lowerInContext [] '.' rest = ['.'] := by
      simp [lowerInContext, noLetter]
    rw [lower, String.toList_ofList, lowerChars, dot]
    rfl
  simp only [extensionOf]
  split
  · decide
  · rw [dotted, isInternalKey_ofList]
    decide

namespace Catalog

theorem FolderStats.leavesAsIs_toValue (s : FolderStats) : s.toValue.LeavesAsIs := by
  simp +decide [toValue]

theorem shown_of_mem_byExtension {catalog : Catalog}
    (ofFiles : ∀ record ∈ catalog.files, record.IsOfFile) {label : String} {count : Nat}
    (member : (label, count) ∈ catalog.byExtension) : isInternalKey label = false := by
  obtain ⟨_, inLabels, same⟩ := List.mem_map.mp member
  cases same
  obtain ⟨record, inFiles, rfl⟩ := List.mem_map.mp (Text.mem_distinctSorted.mp inLabels)
  obtain ⟨name, hasExtension⟩ := (ofFiles record inFiles).extension
  unfold extensionLabel
  split
  · decide
  · rw [hasExtension]
    exact isInternalKey_extensionOf name

theorem leavesAsIs_toValue {catalog : Catalog}
    (ofFiles : ∀ record ∈ catalog.files, record.IsOfFile) : catalog.toValue.LeavesAsIs := by
  have extensions : (Value.map (catalog.byExtension.map fun row =>
      (row.1, .ofNat row.2))).LeavesAsIs := by
    rw [Value.leavesAsIs_map]
    intro entry member
    obtain ⟨⟨label, count⟩, inTable, rfl⟩ := List.mem_map.mp member
    exact ⟨shown_of_mem_byExtension ofFiles inTable, Value.leavesAsIs_ofNat count⟩
  have folders : (Value.list (catalog.folderStats.map FolderStats.toValue)).LeavesAsIs := by
    simp [FolderStats.leavesAsIs_toValue]
  have files : (Value.list (catalog.files.map FileRecord.toValue)).LeavesAsIs := by
    simp [FileRecord.leavesAsIs_toValue]
  rw [toValue, Value.leavesAsIs_map]
  simp only [List.forall_mem_cons]
  exact ⟨⟨by decide, Value.leavesAsIs_str _⟩, ⟨by decide, Value.leavesAsIs_ofNat _⟩,
    ⟨by decide, Value.leavesAsIs_ofNat _⟩, ⟨by decide, Value.leavesAsIs_ofNat _⟩,
    ⟨by decide, extensions⟩, ⟨by decide, folders⟩, ⟨by decide, files⟩,
    ⟨by decide, Value.leavesAsIs_str _⟩, ⟨by decide, Value.leavesAsIs_ofNat _⟩, by simp⟩

end Catalog

/-! ## Structures -/

theorem Method.leavesAsIs_toValue (m : Method) : m.toValue.LeavesAsIs := by
  unfold toValue
  cases m.accessor with
  | none => simp +decide
  | some modes => simp +decide

theorem ClassDeclaration.leavesAsIs_toValue (c : ClassDeclaration) : c.toValue.LeavesAsIs := by
  have property : ∀ p : Property, p.toValue.LeavesAsIs := by
    intro p
    simp +decide [Property.toValue]
  unfold toValue
  cases c.properties with
  | none => cases c.isExported <;> simp +decide [Method.leavesAsIs_toValue]
  | some properties => cases c.isExported <;> simp +decide [Method.leavesAsIs_toValue, property]

theorem Outline.leavesAsIs_toValue (o : Outline) : o.toValue.LeavesAsIs := by
  have function : ∀ f : FunctionDeclaration, f.toValue.LeavesAsIs := by
    intro f
    simp +decide [FunctionDeclaration.toValue]
  have import_ : ∀ i : Import, i.toValue.LeavesAsIs := by
    intro i
    simp +decide [Import.toValue]
  have export_ : ∀ e : Export, e.toValue.LeavesAsIs := by
    intro e
    simp +decide [Export.toValue]
  have comment : ∀ c : Comment, c.toValue.LeavesAsIs := by
    intro c
    simp +decide [Comment.toValue]
  unfold toValue
  cases o.isScriptSetup with
  | none => simp +decide [ClassDeclaration.leavesAsIs_toValue, function, import_, export_, comment]
  | some setup =>
    simp +decide [ClassDeclaration.leavesAsIs_toValue, function, import_, export_, comment]

theorem ProjectStructure.leavesAsIs_toValue (s : ProjectStructure) : s.toValue.LeavesAsIs := by
  simp +decide [toValue, total, Outline.leavesAsIs_toValue]

/-! ## Locations and assessments -/

theorem Locations.leavesAsIs_toValue (l : Locations) : l.toValue.LeavesAsIs := by
  simp +decide [toValue, EntryPoint.toValue, LogFolder.toValue]

theorem leavesAsIs_of_quantity {q : Quantity} {v : Value} (told : q.toValue = .ok v) :
    v.LeavesAsIs := by
  cases q with
  | whole n =>
    cases told
    exact Value.leavesAsIs_int n
  | double x =>
    cases told
    exact Value.leavesAsIs_float x
  | odd | failed _ => cases told

theorem Assessment.leavesAsIs_of_toValue {a : Assessment} {v : Value} (told : a.toValue = .ok v) :
    v.LeavesAsIs := by
  have counted : ∀ (key : String) (n : Nat), ∀ item ∈
      (if n == 0 then [] else [Value.map [("key", .str key), ("count", .ofNat n)]]), item.LeavesAsIs := by
    intro key n item member
    split at member
    · cases member
    · rw [List.mem_singleton.mp member]
      simp +decide
  have unsafeQueries : ∀ item ∈ (if Scale.isZero a.sqlPenalty then []
      else [Value.map [("key", .str "unsafe_sql")]]), item.LeavesAsIs := by
    intro item member
    split at member
    · cases member
    · rw [List.mem_singleton.mp member]
      simp +decide
  simp only [toValue, bind_eq_ok, pure_eq_ok] at told
  obtain ⟨score, toldScore, penalty, toldPenalty, bonus, toldBonus, rfl⟩ := told
  have deductions := List.forall_mem_append.mpr ⟨List.forall_mem_append.mpr ⟨List.forall_mem_append.mpr
    ⟨counted "commented_code" a.counts.commented, counted "large_huge" a.counts.huge⟩,
    counted "large_big" a.counts.big⟩, unsafeQueries⟩
  have factors : (Value.map [("commented_code", .ofNat a.counts.commented),
      ("large_files", .ofNat (a.counts.huge + a.counts.big)), ("unsafe_sql_penalty", penalty),
      ("bonus_applied", bonus)]).LeavesAsIs := by
    simp +decide [leavesAsIs_of_quantity toldPenalty, leavesAsIs_of_quantity toldBonus]
  rw [Value.leavesAsIs_map]
  simp only [List.forall_mem_cons]
  exact ⟨⟨by decide, leavesAsIs_of_quantity toldScore⟩, ⟨by decide, Value.leavesAsIs_str _⟩,
    ⟨by decide, Value.leavesAsIs_list.mpr deductions⟩, ⟨by decide, factors⟩, by simp⟩

theorem Assessment.leavesAsIs_of_ofSnapshot {card : Scorecard Quantity} {snapshot v : Value}
    (assessed : ofSnapshot card snapshot = .ok v) : v.LeavesAsIs := by
  simp only [ofSnapshot, evaluate, bind_eq_ok] at assessed
  obtain ⟨_, -, _, -, _, -, _, -, _, -, _, -, _, -, _, -, _, -, _, -, _, -, told⟩ := assessed
  exact leavesAsIs_of_toValue told

end Surveyor
