import Surveyor.Proofs.Catalog.Inventory

/-! # Excluding more

A pattern hides every path that it occurs in. A survey that is given further patterns catalogues what it
would have catalogued without them, less the paths that one of them hides
(`Catalog.survey_excluding_more`).
-/

namespace Surveyor

/-- Does a pattern, without the blanks around it, occur in a path? A blank one hides nothing. -/
def hidesPath (pattern path : String) : Bool :=
  !(Text.strip pattern).isEmpty && Text.contains path (Text.strip pattern)

theorem hidesPath_eq_false_iff {pattern path : String} :
    hidesPath pattern path = false
      ↔ (Text.strip pattern ≠ "" → ¬ (Text.strip pattern).toList <:+: path.toList) := by
  rw [hidesPath, Bool.and_eq_false_imp, ← Text.contains_iff]
  simp

section

variable {excluded more extra : List String}
  (adds : ∀ pattern, pattern ∈ more ↔ pattern ∈ excluded ∨ pattern ∈ extra)

include adds

theorem isVisible_more_iff {names : List String} :
    IsVisible more names
      ↔ IsVisible excluded names ∧ extra.any (hidesPath · (pathOf names)) = false := by
  simp only [List.any_eq_false, Bool.not_eq_true, hidesPath_eq_false_iff]
  constructor
  · intro visible
    refine ⟨⟨visible.notHidden, fun pattern member => ?_⟩, fun pattern member => ?_⟩
    · exact visible.notExcluded pattern ((adds pattern).mpr (.inl member))
    · exact visible.notExcluded pattern ((adds pattern).mpr (.inr member))
  · rintro ⟨visible, notHidden⟩
    refine ⟨visible.notHidden, fun pattern member => ?_⟩
    rcases (adds pattern).mp member with before | further
    · exact visible.notExcluded pattern before
    · exact notHidden pattern further

namespace Catalog

variable {tree : FileTree} {place : List String} {maxFileSize : Int} {catalog fewer : Catalog}

theorem KeepsVisible.mem_files_more_iff (keeps : catalog.KeepsVisible tree place excluded maxFileSize)
    (keepsFewer : fewer.KeepsVisible tree place more maxFileSize) (record : FileRecord) :
    record ∈ fewer.files ↔ record ∈ catalog.files ∧ extra.any (hidesPath · record.path) = false := by
  rw [keepsFewer.recorded, keeps.recorded]
  constructor
  · rintro ⟨names, name, bytes, modified, last, visible, isFile, notMinified, rfl⟩
    obtain ⟨visibleBefore, notHidden⟩ := (isVisible_more_iff adds).mp visible
    refine ⟨⟨names, name, bytes, modified, last, visibleBefore, isFile, notMinified, rfl⟩, ?_⟩
    rw [FileRecord.path_ofFile]
    exact notHidden
  · rintro ⟨⟨names, name, bytes, modified, last, visible, isFile, notMinified, rfl⟩, notHidden⟩
    rw [FileRecord.path_ofFile] at notHidden
    exact ⟨names, name, bytes, modified, last, (isVisible_more_iff adds).mpr ⟨visible, notHidden⟩,
      isFile, notMinified, rfl⟩

theorem KeepsVisible.files_more (keeps : catalog.KeepsVisible tree place excluded maxFileSize)
    (keepsFewer : fewer.KeepsVisible tree place more maxFileSize) :
    fewer.files = catalog.files.filter fun record => !extra.any (hidesPath · record.path) := by
  have sorted := keeps.sorted.filter fun record => !extra.any (hidesPath · record.path)
  -- Both lists ascend strictly by path, so that they are equal if they have the same members.
  have different : ∀ {files : List FileRecord}, (files.Pairwise fun a b => a.path < b.path) →
      files.Nodup := by
    intro files ascending
    refine ascending.imp ?_
    rintro a b less rfl
    exact String.lt_irrefl _ less
  have sameMembers :
      fewer.files.Perm (catalog.files.filter fun record => !extra.any (hidesPath · record.path)) := by
    rw [List.perm_ext_iff_of_nodup (different keepsFewer.sorted) (different sorted)]
    intro record
    rw [keeps.mem_files_more_iff adds keepsFewer, List.mem_filter, Bool.not_eq_true']
  refine sameMembers.eq_of_pairwise ?_ keepsFewer.sorted sorted
  intro a b _ _ less greater
  exact absurd (String.lt_trans less greater) (String.lt_irrefl _)

/-- Further patterns take the paths that they hide out of a catalogue, and do nothing else to it. -/
theorem survey_excluding_more {here : List String} {path : String} {recentDays : Value} {now : Int}
    (named : tree.root.isWellNamed = true)
    (surveyed : survey tree here path (.excluding excluded maxFileSize) recentDays now = .ok catalog) :
    ∃ fewer, survey tree here path (.excluding more maxFileSize) recentDays now = .ok fewer
      ∧ fewer.files = catalog.files.filter fun record => !extra.any (hidesPath · record.path) := by
  cases isDirectory : (tree.names? here path).bind tree.find? with
  | none => simp [survey, isDirectory] at surveyed
  | some found =>
    obtain ⟨place, node⟩ := found
    cases node with
    | file _ _ | link _ => simp [survey, isDirectory] at surveyed
    | directory entries =>
      cases span : recentSince now recentDays with
      | error fault => simp [survey, isDirectory, span] at surveyed
      | ok recent =>
        obtain ⟨names, -, there⟩ := Option.bind_eq_some_iff.mp isDirectory
        have plainThere : tree.plain? place = some (.directory entries) := FileTree.plain?_of_walk there
        have namedThere := FileNode.isWellNamed_of_at? named plainThere
        have keeps : ∀ given, KeepsVisible tree place given maxFileSize
            (ofDirectory tree (.excluding given maxFileSize) recent place entries) :=
          fun given => keepsVisible_ofDirectory namedThere plainThere recent
        have files := (keeps excluded).files_more adds (keeps more)
        have outcome := fun rules : SurveyRules =>
          @survey_of_isDirectory tree here place path rules recentDays now entries recent isDirectory span
        rcases outcome (.excluding excluded maxFileSize) with ⟨dated, same⟩ | ⟨_, _, _, _, failed⟩
        · obtain rfl := Except.ok.inj (surveyed.symm.trans same)
          rcases outcome (.excluding more maxFileSize) with
            ⟨-, surveyedMore⟩ | ⟨record, listed, undated, -⟩
          · exact ⟨_, surveyedMore, files⟩
          · -- What is listed with the further pattern was listed without it, and so has a date.
            rw [files] at listed
            rw [dated record (List.mem_filter.mp listed).1] at undated
            cases undated
        · rw [surveyed] at failed
          cases failed

end Catalog

end

end Surveyor
