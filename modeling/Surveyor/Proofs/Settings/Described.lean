import Surveyor.Proofs.FileTree.Canonical
import Surveyor.Proofs.Inspection.Completing
import Surveyor.Proofs.Settings.Readable

/-! # Projects that are described by texts

Stages can do with settings of any kind, but only those that a file gives, or the standard ones, are
sure to be of use to them (`Settings.IsDescribed`). With such settings and a project that is described by
texts, everything that a stage is handed is of use to it.
-/

namespace Surveyor

namespace Settings

open Yaml

variable {readYaml : Loader}

/-- The numbers are given, and everything else consists of texts. -/
structure IsDescribed (settings : Settings) : Prop where
  numbers : settings.NumbersGiven
  recentDays : 0 < settings.recentDays
  excludePaths : ∃ names, settings.excludePaths = .strings names
  projectType : ∃ type, settings.projectType = .ofOption type
  framework : ∃ name, settings.framework = .ofOption name

theorem isDescribed_standard (root : String) : IsDescribed { root := root } where
  numbers := ⟨⟨_, rfl⟩, ⟨_, rfl⟩, ⟨_, rfl⟩, ⟨_, rfl⟩⟩
  recentDays := by simp
  excludePaths := ⟨[], rfl⟩
  projectType := ⟨none, rfl⟩
  framework := ⟨none, rfl⟩

theorem exists_givenOr {ε α : Type} (datum : Datum) (standard : α) (ofInt : Int → α) :
    ∃ n : α, (givenOr datum (.ok standard) fun n => .ok (ofInt n) : Except ε α) = .ok n := by
  unfold givenOr
  split
  · exact ⟨_, rfl⟩
  · exact ⟨standard, rfl⟩

theorem givenOr_pos (datum : Datum) {standard : Int} (positive : 0 < standard) :
    0 < givenOr datum standard id := by
  unfold givenOr
  split
  · next n given => simpa using (Option.filter_eq_some_iff.mp given).2
  · exact positive

theorem isDescribed_of_ofDocument {root : String} {d : Document} {settings : Settings}
    (read : ofDocument root d = .ok settings) : settings.IsDescribed := by
  simp only [ofDocument, bind_eq_ok, pure_eq_ok] at read
  obtain ⟨paths, -, type, -, framework, -, stages, -, rfl⟩ := read
  exact ⟨⟨exists_givenOr _ _ some, exists_givenOr _ _ id, exists_givenOr _ _ id, exists_givenOr _ _ id⟩,
    givenOr_pos _ (by decide), ⟨paths, rfl⟩, ⟨type, rfl⟩, ⟨framework, rfl⟩⟩

theorem isDescribed_of_ofReading {root file : String} {reading : Except YamlError (Option Document)}
    {settings : Settings} (read : ofReading root file reading = .ok settings) : settings.IsDescribed := by
  unfold ofReading at read
  split at read
  · cases read
  · cases read
  · cases read
    exact isDescribed_standard root
  · -- Of the values that a document can be, only mappings are looked into.
    split at read
    · cases read
      exact isDescribed_standard root
    · exact isDescribed_of_ofDocument read
    · cases read

theorem isDescribed_of_ofBytes {root file : String} {bytes : ByteArray} {settings : Settings}
    (read : ofBytes readYaml root file bytes = .ok settings) : settings.IsDescribed := by
  rw [ofBytes_eq] at read
  split at read
  · cases read
  · split at read
    · cases read
      exact isDescribed_standard root
    · exact isDescribed_of_ofReading read

theorem IsDescribed.withOverride {settings : Settings} (described : settings.IsDescribed)
    (override? : Option String) : (settings.withOverride override?).IsDescribed := by
  unfold Settings.withOverride
  split
  · split
    · exact described
    · next value _ =>
      obtain ⟨limit, interval, commentLines, threshold⟩ := described.numbers
      exact ⟨⟨limit, interval, commentLines, threshold⟩, described.recentDays, described.excludePaths,
        ⟨some (Text.strip value), rfl⟩, described.framework⟩
  · exact described

theorem isDescribed_of_ofFile {tree : FileTree} {place : List String} {settings : Settings}
    (read : ofFile readYaml tree place = .ok settings) : settings.IsDescribed := by
  simp only [ofFile] at read
  split at read
  · cases read
    exact isDescribed_standard _
  · exact isDescribed_of_ofBytes read
  · cases read

theorem isDescribed_of_load {tree : FileTree} {names : List String} {override? : Option String}
    {settings : Settings} (loaded : load readYaml tree names override? = .ok settings) :
    settings.IsDescribed := by
  unfold load at loaded
  split at loaded
  · cases loaded
  · simp only at loaded
    split at loaded
    · cases loaded
    · next place _ =>
      cases read : ofFile readYaml tree place with
      | error fault => simp [read, Except.map] at loaded
      | ok found =>
        simp only [read, Except.map, Except.ok.injEq] at loaded
        rw [← loaded]
        exact (isDescribed_of_ofFile read).withOverride override?

end Settings

section

variable {around : Surroundings} {place : List String} {s : Session}

theorem chooseSettings_of_load {settings : Settings}
    (loaded : Settings.load around.readYaml around.tree place around.projectType = .ok settings) :
    chooseSettings around place none s = (s, .ok settings) := by
  simp [chooseSettings, loaded]

/-- Where a settings file is rejected, the standard settings take its place, with a warning. -/
theorem chooseSettings_of_rejected {fault : SettingsError}
    (rejected : Settings.load around.readYaml around.tree place around.projectType = .error fault)
    (tolerated : fault.isTolerated = true) :
    chooseSettings around place none s
      = (s.log .warning ("Ignoring invalid configuration: " ++ fault.message),
        .ok { root := around.tree.absolute place }) := by
  simp [chooseSettings, rejected, tolerated]

end

theorem isDescribed_of_chooseSettings {around : Surroundings} {place : List String} {s opened : Session}
    {settings : Settings} (chosen : chooseSettings around place none s = (opened, .ok settings)) :
    settings.IsDescribed := by
  unfold chooseSettings at chosen
  simp only at chosen
  split at chosen
  · next loaded =>
    cases chosen
    exact Settings.isDescribed_of_load loaded
  · split at chosen
    · cases chosen
      exact Settings.isDescribed_standard _
    · cases chosen

/-! ## Projects -/

structure Project.IsDescribed (project : Project) : Prop where
  excludedFolders : ∃ names, project.excludedFolders = .strings names
  projectType : ∃ type, project.projectType = .str type
  framework : ∃ name, project.framework = .ofOption name

theorem orElse_str (type standIn : String) :
    ∃ chosen, (Value.str type).orElse (.str standIn) = .str chosen := by
  unfold Value.orElse
  split
  · exact ⟨type, rfl⟩
  · exact ⟨standIn, rfl⟩

theorem Project.IsDescribed.described {project : Project} (described : project.IsDescribed)
    {settings : Settings} (settingsDescribed : settings.IsDescribed) (root : String) (tree : FileTree)
    (now : Int) : StageContext.Described ⟨project.effective root settings, settings, tree, now⟩ where
  numbers := settingsDescribed.numbers
  excludePaths := settingsDescribed.excludePaths
  excludedFolders := described.excludedFolders
  projectType := by
    obtain ⟨type, isType⟩ := described.projectType
    obtain ⟨own, isOwn⟩ := orElse_str type "auto"
    obtain ⟨ofSettings, isOfSettings⟩ := settingsDescribed.projectType
    simp only [Project.effective, isType, isOwn, isOfSettings]
    split
    · cases ofSettings with
      | none => exact ⟨own, rfl⟩
      | some given => exact orElse_str given own
    · exact ⟨own, rfl⟩
  framework := by
    obtain ⟨name, isName⟩ := described.framework
    obtain ⟨ofSettings, isOfSettings⟩ := settingsDescribed.framework
    simp only [Project.effective, isName, isOfSettings, Value.orElse]
    split
    · exact ⟨name, rfl⟩
    · exact ⟨ofSettings, rfl⟩

/-! ## Roots -/

theorem exists_directory_of_checkRoot {around : Surroundings} {path : String} {place : List String}
    (root : checkRoot around path = .ok place) :
    ∃ expanded entries, expandHome around.home path = .ok expanded
      ∧ (around.tree.names? around.here expanded).bind around.tree.find?
        = some (place, .directory entries) := by
  unfold checkRoot at root
  split at root
  · cases root
  · obtain ⟨expanded, isExpanded, root⟩ := bind_eq_ok.mp root
    split at root
    · split at root <;> cases root
    · next found =>
      cases root
      exact ⟨expanded, _, isExpanded, found⟩
    · cases root

/-- The canonical place of a root leads to the same directory as the root. -/
theorem hasRoot_of_checkRoot {around : Surroundings} {path : String} {place : List String}
    (named : around.tree.root.isWellNamed = true) (root : checkRoot around path = .ok place)
    {context : StageContext} (sameTree : context.tree = around.tree)
    (canonical : context.project.rootPath = around.tree.absolute place) : context.HasRoot := by
  obtain ⟨_, entries, -, found⟩ := exists_directory_of_checkRoot root
  obtain ⟨names, -, there⟩ := Option.bind_eq_some_iff.mp found
  refine ⟨place, entries, ?_⟩
  rw [sameTree, canonical]
  exact FileTree.find?_absolute named there

end Surveyor
