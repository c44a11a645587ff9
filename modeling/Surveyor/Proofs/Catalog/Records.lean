import Surveyor.Catalog.Survey

/-! # The records of a survey

Whatever tree is surveyed, every record is the record of a file (`isOfFile_of_survey`), with the
number of lines of the content that was read.
-/

namespace Surveyor

namespace FileRecord

section

variable (maxSize : Int) (path name : String) (bytes : ByteArray) (modified : Int)

@[simp]
theorem name_ofFile : (ofFile maxSize path name bytes modified).name = name := by
  simp only [ofFile, apply_ite FileRecord.name, ite_self]

@[simp]
theorem path_ofFile : (ofFile maxSize path name bytes modified).path = path := by
  simp only [ofFile, apply_ite FileRecord.path, ite_self]

@[simp]
theorem extension_ofFile : (ofFile maxSize path name bytes modified).extension = extensionOf name := by
  simp only [ofFile, apply_ite FileRecord.extension, ite_self]

end

def IsOfFile (record : FileRecord) : Prop :=
  ∃ maxSize path name bytes modified, record = .ofFile maxSize path name bytes modified

theorem IsOfFile.lines {record : FileRecord} (ofFile : record.IsOfFile) {content : String}
    (read : record.content = some content) : record.lines = countLines content := by
  obtain ⟨maxSize, path, name, bytes, modified, rfl⟩ := ofFile
  simp only [FileRecord.ofFile] at read ⊢
  split at read
  · cases read
  · next isRead =>
    rw [if_neg isRead]
    cases read
    rfl

theorem IsOfFile.extension {record : FileRecord} (ofFile : record.IsOfFile) :
    ∃ name, record.extension = extensionOf name := by
  obtain ⟨maxSize, path, name, bytes, modified, rfl⟩ := ofFile
  exact ⟨name, extension_ofFile ..⟩

end FileRecord

def FolderEntry.records : FolderEntry → List FileRecord
  | .folder f => f.records
  | .file r => [r]
  | .minified => []

namespace Folder

theorem mem_recordsOfAll {folders : List Folder} {record : FileRecord}
    (member : record ∈ recordsOfAll folders) : ∃ f ∈ folders, record ∈ f.records := by
  induction folders with
  | nil => cases member
  | cons f rest inductionHypothesis =>
    rw [recordsOfAll] at member
    rcases List.mem_append.mp member with here | later
    · exact ⟨f, by simp, here⟩
    · obtain ⟨other, inRest, inFolder⟩ := inductionHypothesis later
      exact ⟨other, List.mem_cons_of_mem f inRest, inFolder⟩

theorem mem_records_ofEntries {name : String} {entries : List (String × FolderEntry)}
    {record : FileRecord} (member : record ∈ (ofEntries name entries).records) :
    ∃ entry ∈ entries, record ∈ entry.2.records := by
  have ofSorted : ∀ contributed ∈ (sortEntries entries).map (·.2),
      record ∈ contributed.records → ∃ entry ∈ entries, record ∈ entry.2.records := by
    intro contributed inSorted inRecords
    obtain ⟨entry, inEntries, rfl⟩ := List.mem_map.mp inSorted
    exact ⟨entry, List.mem_mergeSort.mp inEntries, inRecords⟩
  simp only [ofEntries, records, List.mem_append, List.mem_filterMap] at member
  -- The records of a folder are those of its own files, then those of the folders below.
  rcases member with ⟨contributed, inSorted, isFile⟩ | below
  · refine ofSorted contributed inSorted ?_
    cases contributed with
    | file r =>
      cases isFile
      exact List.mem_singleton_self record
    | folder _ | minified => cases isFile
  · obtain ⟨f, isFolder, inFolder⟩ := mem_recordsOfAll below
    obtain ⟨contributed, inSorted, same⟩ := List.mem_filterMap.mp isFolder
    refine ofSorted contributed inSorted ?_
    cases contributed with
    | folder other =>
      cases same
      exact inFolder
    | file _ | minified => cases same

theorem isOfFile_entryOfFile {rules : SurveyRules} {path name : String} {bytes : ByteArray}
    {modified : Int} :
    ∀ record ∈ (entryOfFile rules path name bytes modified).records, record.IsOfFile := by
  intro record member
  unfold entryOfFile at member
  split at member
  · cases member
  · obtain rfl := List.mem_singleton.mp member
    exact ⟨_, _, _, _, _, rfl⟩

variable {tree : FileTree} {rules : SurveyRules}

mutual

theorem isOfFile_entryOf? (node : FileNode) (place : List String) (path name : String)
    {entry : FolderEntry} (found : entryOf? tree rules place path name node = some entry) :
    ∀ record ∈ entry.records, record.IsOfFile := by
  cases node with
  | directory entries =>
    cases found
    intro record (member : record ∈ (ofEntries name _).records)
    obtain ⟨below, inEntries, inRecords⟩ := mem_records_ofEntries member
    exact isOfFile_prune entries (place ++ [name]) path below inEntries record inRecords
  | file bytes modified =>
    cases found
    exact isOfFile_entryOfFile
  | link target =>
    rw [entryOf?] at found
    split at found
    · -- A link to a file is taken for the file; one to a directory is not followed.
      cases found
      exact isOfFile_entryOfFile
    · cases found
termination_by structural node

theorem isOfFile_prune (entries : List (String × FileNode)) (place : List String) (parent : String) :
    ∀ entry ∈ prune tree rules place parent entries, ∀ record ∈ entry.2.records, record.IsOfFile := by
  match entries with
  | [] =>
    intro entry member
    cases member
  | (name, node) :: rest =>
    have others := isOfFile_prune rest place parent
    intro entry member
    rw [prune] at member
    split at member
    · exact others entry member
    · split at member
      · next contributed found =>
        rcases List.mem_cons.mp member with rfl | later
        · exact isOfFile_entryOf? node place _ name found
        · exact others entry later
      · exact others entry member
termination_by structural entries

end

end Folder

namespace Catalog

theorem isOfFile_of_survey {tree : FileTree} {here : List String} {path : String}
    {rules : SurveyRules} {recentDays : Value} {now : Int} {catalog : Catalog}
    (surveyed : survey tree here path rules recentDays now = .ok catalog) :
    ∀ record ∈ catalog.files, record.IsOfFile := by
  unfold survey at surveyed
  split at surveyed
  · cases surveyed
  · next place entries _ =>
    split at surveyed
    · cases surveyed
    · next recent _ =>
      simp only at surveyed
      split at surveyed
      · cases surveyed
      · cases surveyed
        intro record member
        have visited : record ∈ (Folder.ofDirectory tree rules place entries).records :=
          List.mem_mergeSort.mp member
        obtain ⟨entry, inEntries, inRecords⟩ := Folder.mem_records_ofEntries visited
        exact Folder.isOfFile_prune entries place "" entry inEntries record inRecords
  · cases surveyed

end Catalog

end Surveyor
