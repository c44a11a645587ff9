import Surveyor.Inspection.Snapshot
import Surveyor.Proofs.Value.Agreement
import Surveyor.Proofs.Value.Sorting
import Surveyor.Quality.Declarations

/-! # What a snapshot shows

A stage reads three things off a snapshot: the texts, the records of the catalogued files and the
outlines. This module names them without regard to how they are read, says when two snapshots agree
outside some of their keys, and derives what the readings have in common then.
-/

namespace Surveyor

namespace Value

theorem field_eq_get {v : Value} (isMapping : v.isMap = true) (key : String) :
    v.field key = .ok (v.get key) := by
  cases v with
  | map entries => rfl
  | view entries => rfl
  | _ => cases isMapping

theorem isMap_of_field {v found : Value} {key : String} (read : v.field key = .ok found) :
    v.isMap = true ∧ v.get key = found := by
  cases v with
  | map entries => exact ⟨rfl, Except.ok.inj read⟩
  | view entries => exact ⟨rfl, Except.ok.inj read⟩
  | _ => cases read

theorem entry_eq_ok_iff {v found : Value} {key : String} :
    v.entry key = .ok found ↔ v.get? key = some found := by
  cases v with
  | map entries | view entries =>
    simp only [entry, get?]
    cases entries.lookup key with
    | none => simp
    | some present => simp
  | _ => simp [entry, get?]

theorem str?_eq_some_iff {v : Value} {text : String} : v.str? = some text ↔ v = .str text := by
  cases v <;> simp [str?]

theorem str?_get_eq_some_iff {v : Value} {key text : String} :
    (v.get key).str? = some text ↔ v.get? key = some (.str text) := by
  rw [get, str?_eq_some_iff]
  cases v.get? key with
  | none => simp
  | some found => simp

def gathered (v : Value) : List Value := v.members.toOption.getD []

theorem gathered_eq_of_orElse {v : Value} {found : List Value}
    (read : (v.orElse (.list [])).members = .ok found) : v.gathered = found := by
  unfold orElse at read
  split at read
  · rw [gathered, read]
    rfl
  · next absent =>
    cases read
    -- Null and zero are no collections, and the others have no members.
    cases v <;> simp_all [gathered, members, isGiven, Except.toOption]

/-- What is not given has nothing under any key, as the empty mapping that stands in for it. -/
theorem get?_orElse (v : Value) (key : String) : (v.orElse (.map [])).get? key = v.get? key := by
  unfold orElse
  split
  · rfl
  · next absent => cases v <;> simp_all [get?, isGiven]

theorem get_orElse (v : Value) (key : String) : (v.orElse (.map [])).get key = v.get key := by
  rw [get, get, get?_orElse]

/-! ## Mappings that differ under some keys -/

/-- The same value, or mappings that differ at most under the given keys. -/
inductive AgreeBut (keys : List String) : Value → Value → Prop
  | same (v : Value) : AgreeBut keys v v
  | mappings {a b : Value} (first : a.isMap = true) (second : b.isMap = true)
      (elsewhere : ∀ key, key ∉ keys → a.get? key = b.get? key) : AgreeBut keys a b

namespace AgreeBut

variable {keys : List String} {a b : Value}

theorem get?_eq (agree : AgreeBut keys a b) {key : String} (elsewhere : key ∉ keys) :
    a.get? key = b.get? key := by
  cases agree with
  | same => rfl
  | mappings _ _ agreeElsewhere => exact agreeElsewhere key elsewhere

theorem field_eq (agree : AgreeBut keys a b) {key : String} (elsewhere : key ∉ keys) :
    a.field key = b.field key := by
  cases agree with
  | same => rfl
  | mappings first second agreeElsewhere =>
    rw [field_eq_get first, field_eq_get second, get, get, agreeElsewhere key elsewhere]

/-- Under one of the keys, both fields are there or neither is. -/
theorem field_alike {R : Value → Value → Prop} (agree : AgreeBut keys a b) {key : String}
    (related : R (a.get key) (b.get key)) : EndAlike R (a.field key) (b.field key) := by
  cases agree with
  | same =>
    cases read : a.field key with
    | error fault => exact .fail
    | ok found =>
      obtain ⟨-, rfl⟩ := isMap_of_field read
      exact .succeed related
  | mappings first second _ =>
    rw [field_eq_get first, field_eq_get second]
    exact .succeed related

theorem orElse (agree : AgreeBut keys a b) :
    AgreeBut keys (a.orElse (.map [])) (b.orElse (.map [])) := by
  cases agree with
  | same => exact .same _
  | mappings first second elsewhere =>
    have staysMapping : ∀ {v : Value}, v.isMap = true → (v.orElse (.map [])).isMap = true := by
      intro v isMapping
      unfold Value.orElse
      split
      · exact isMapping
      · rfl
    refine .mappings (staysMapping first) (staysMapping second) fun key outside => ?_
    rw [get?_orElse, get?_orElse, elsewhere key outside]

end AgreeBut

end Value

namespace Snapshot

def listed (snapshot : Value) (part : String) : List Value :=
  ((snapshot.get part).get "files").gathered

def IsOutlined (snapshot : Value) (path : String) : Prop :=
  ∃ o ∈ listed snapshot "code_structure", o.get? "path" = some (.str path)

def IsFlagged (snapshot : Value) (path : String) : Prop :=
  ∃ file ∈ listed snapshot "file_system",
    (file.get "obfuscated").isGiven = true ∧ file.get? "path" = some (.str path)

theorem partField_congr {a b : Value} {part : String} (same : a.field part = b.field part)
    (key : String) : partField a part key = partField b part key := by
  rw [partField, partField, same]

theorem listed_eq_of_members {snapshot found : Value} {part : String} {records : List Value}
    (read : partField snapshot part "files" = .ok found) (members : found.members = .ok records) :
    listed snapshot part = records := by
  simp only [partField, bind_eq_ok, pure_eq_ok] at read
  obtain ⟨whole, readPart, files, readFiles, rfl⟩ := read
  obtain ⟨-, rfl⟩ := Value.isMap_of_field readPart
  refine Value.gathered_eq_of_orElse ?_
  have sameFiles : (snapshot.get part).get "files" = files := by
    rw [← (Value.isMap_of_field readFiles).2, Value.get_orElse]
  rw [sameFiles]
  exact members

theorem obfuscatedPath?_eq_ok_iff {file : Value} {path : String} :
    obfuscatedPath? file = .ok (some (.str path)) ↔
      (file.get "obfuscated").isGiven = true ∧ file.get? "path" = some (.str path) := by
  constructor
  · intro marked
    simp only [obfuscatedPath?, bind_eq_ok] at marked
    obtain ⟨mark, readMark, marked⟩ := marked
    obtain ⟨-, rfl⟩ := Value.isMap_of_field readMark
    split at marked
    · next given =>
      simp only [bind_eq_ok, pure_eq_ok, Option.some.injEq] at marked
      obtain ⟨found, readPath, _, isKey, rfl⟩ := marked
      unfold Value.asKey at isKey
      split at isKey
      · cases isKey
        exact ⟨given, Value.entry_eq_ok_iff.mp readPath⟩
      · cases isKey
    · cases marked
  · intro ⟨given, hasPath⟩
    have isMapping : file.isMap = true := by
      cases file with
      | map entries | view entries => rfl
      | _ => cases hasPath
    simp only [obfuscatedPath?, Value.field_eq_get isMapping, Value.entry_eq_ok_iff.mpr hasPath,
      bind, Except.bind, given, if_true]
    rfl

theorem mem_obfuscated_iff {snapshot found : Value} {paths : List String}
    (read : files snapshot = .ok found) (flagged : obfuscated found = .ok paths) {path : String} :
    path ∈ paths ↔ IsFlagged snapshot path := by
  simp only [obfuscated, bind_eq_ok, pure_eq_ok] at flagged
  obtain ⟨records, members, marked, markedAll, rfl⟩ := flagged
  rw [IsFlagged, listed_eq_of_members read members]
  have inMarked : path ∈ (marked.filterMap id).filterMap Value.str? ↔ some (.str path) ∈ marked := by
    simp only [List.mem_filterMap, id_eq, exists_eq_right, Value.str?_eq_some_iff]
  rw [inMarked]
  constructor
  · intro member
    obtain ⟨file, inRecords, mark⟩ := exists_of_mem_mapM markedAll member
    exact ⟨file, inRecords, obfuscatedPath?_eq_ok_iff.mp mark⟩
  · intro ⟨file, inRecords, mark⟩
    obtain ⟨result, member, same⟩ := exists_result_of_mem markedAll inRecords
    rw [obfuscatedPath?_eq_ok_iff.mpr mark] at same
    cases same
    exact member

/-! ## Outlines by path -/

theorem get?_path_of_mem_outlinesByPath {outlines : Value} {files : List (Value × Value)}
    (read : outlinesByPath outlines = .ok files) {path o : Value} (member : (path, o) ∈ files) :
    ∃ records, outlines.members = .ok records ∧ o ∈ records ∧ o.get? "path" = some path := by
  simp only [outlinesByPath, bind_eq_ok] at read
  obtain ⟨records, members, keyed, keyedAll, sorted⟩ := read
  have inKeyed := (Value.sortedBy_perm sorted).mem_iff.mp member
  obtain ⟨o, inRecords, same⟩ := exists_of_mem_mapM keyedAll inKeyed
  simp only [bind_eq_ok, pure_eq_ok, Prod.mk.injEq] at same
  obtain ⟨_, hasPath, rfl, rfl⟩ := same
  exact ⟨records, members, inRecords, Value.entry_eq_ok_iff.mp hasPath⟩

theorem isOutlined_of_mem_outlinesByPath {snapshot found : Value} {files : List (Value × Value)}
    (readOutlines : outlines snapshot = .ok found) (read : outlinesByPath found = .ok files)
    {path : String} {o : Value} (member : (.str path, o) ∈ files) : IsOutlined snapshot path := by
  obtain ⟨records, members, inRecords, hasPath⟩ := get?_path_of_mem_outlinesByPath read member
  exact ⟨o, listed_eq_of_members readOutlines members ▸ inRecords, hasPath⟩

/-! ## Texts -/

def textsOf (entries : Entries) : Contents := entries.map fun (path, content) => (path, content.asStr)

def readTexts (v : Value) : Except ValueFault Contents :=
  match v.orElse (.map []) with
  | .map entries | .view entries => .ok (textsOf entries)
  | other => .error (.noOperation other.kindName "items")

theorem contents_eq (snapshot : Value) :
    contents snapshot = snapshot.field "_file_contents" >>= readTexts := rfl

theorem readTexts_map (entries : Entries) : readTexts (.map entries) = .ok (textsOf entries) := by
  cases entries with
  | nil => rfl
  | cons first rest => rfl

theorem readTexts_view (entries : Entries) : readTexts (.view entries) = .ok (textsOf entries) := by
  cases entries with
  | nil => rfl
  | cons first rest => rfl

theorem readTexts_absent {v : Value} (absent : v.isGiven = false) : readTexts v = .ok [] := by
  rw [readTexts, Value.orElse, if_neg (by simp [absent])]
  rfl

end Snapshot

end Surveyor
