import Surveyor.Proofs.Pipeline.Returned

/-! # Settings files that do not stop an analysis

The bytes of a settings file are decoded, read as YAML, and turned into settings. Each of these can
fail. An analysis only tolerates that the text is no YAML or no mapping; then it goes on with the
standard settings. `Settings.Readable` says which bytes lead to settings or to such a fault. Bytes
that are no UTF-8 do not, and nor do whole numbers that are too long to be written out where a text is
asked for.

Nothing is assumed of the reader of YAML but that a text it does not read is malformed
(`Settings.IsLawful`).
-/

namespace Surveyor

namespace Settings

open Yaml

/-! ## Texts in a document -/

/-- A text can be made of the value: it is no whole number of too many digits. -/
def IsWritable : Datum → Prop
  | .int n => n.natAbs < pow10 Json.maxDigits
  | _ => True

def AreWritable (d : Document) : Datum → Prop
  | .list items => ∀ item ∈ items, IsWritable (d.value item)
  | _ => True

/-- What settings take from a document as texts can be written. -/
structure Spelled (d : Document) : Prop where
  excludePaths : AreWritable d (d.get d.top "exclude_paths")
  projectType : IsWritable (d.get d.top "project_type")
  framework : IsWritable (d.get d.top "framework")
  enabledStages : AreWritable d (d.get (d.get d.top "stages") "enabled")

theorem exists_decimalText_iff (n : Int) :
    (∃ text, Numeral.decimalText n = .ok text) ↔ n.natAbs < pow10 Json.maxDigits := by
  unfold Numeral.decimalText
  -- The bound is too large to be computed.
  generalize pow10 Json.maxDigits = bound
  by_cases tooLong : bound ≤ n.natAbs
  · simp [tooLong]
  · simp [tooLong, Nat.lt_of_not_le tooLong]

theorem exists_scalarText?_iff (datum : Datum) :
    (∃ text, scalarText? datum = .ok text) ↔ IsWritable datum := by
  delta scalarText?
  cases datum with
  | int n =>
    rw [IsWritable, ← exists_decimalText_iff]
    dsimp only
    generalize Numeral.decimalText n = written
    cases written with
    | ok text => simp
    | error fault => simp
  | null | bool _ | float _ | str _ | bytes _ | timestamp | list _ | map _ | set | pairs =>
    simp [IsWritable]

theorem exists_texts_iff (d : Document) (datum : Datum) :
    (∃ found, texts d datum = .ok found) ↔ AreWritable d datum := by
  cases datum with
  | list items =>
    simp only [texts, AreWritable, bind_eq_ok, pure_eq_ok]
    constructor
    · rintro ⟨_, results, written, -⟩ item member
      obtain ⟨text, -, here⟩ := exists_result_of_mem written member
      exact (exists_scalarText?_iff _).mp ⟨text, here⟩
    · intro writable
      obtain ⟨results, written⟩ := exists_mapM_eq_ok fun item member =>
        (exists_scalarText?_iff (d.value item)).mpr (writable item member)
      exact ⟨_, results, written, rfl⟩
  | null | bool _ | int _ | float _ | str _ | bytes _ | timestamp | map _ | set | pairs =>
    simp [texts, AreWritable]

/-- A mapping gives settings exactly if all its texts can be written. -/
theorem exists_ofDocument_iff (root : String) (d : Document) :
    (∃ settings, ofDocument root d = .ok settings) ↔ Spelled d := by
  simp only [ofDocument, bind_eq_ok, pure_eq_ok]
  constructor
  · rintro ⟨_, paths, pathsWritten, type, typeWritten, framework, frameworkWritten, stages,
      stagesWritten, -⟩
    exact ⟨(exists_texts_iff _ _).mp ⟨paths, pathsWritten⟩,
      (exists_scalarText?_iff _).mp ⟨type, typeWritten⟩,
      (exists_scalarText?_iff _).mp ⟨framework, frameworkWritten⟩,
      (exists_texts_iff _ _).mp ⟨stages, stagesWritten⟩⟩
  · intro spelled
    obtain ⟨paths, pathsWritten⟩ := (exists_texts_iff _ _).mpr spelled.excludePaths
    obtain ⟨type, typeWritten⟩ := (exists_scalarText?_iff _).mpr spelled.projectType
    obtain ⟨framework, frameworkWritten⟩ := (exists_scalarText?_iff _).mpr spelled.framework
    obtain ⟨stages, stagesWritten⟩ := (exists_texts_iff _ _).mpr spelled.enabledStages
    exact ⟨_, paths, pathsWritten, type, typeWritten, framework, frameworkWritten, stages,
      stagesWritten, rfl⟩

/-! ## Faults -/

theorem intolerable_of_scalarText? {datum : Datum} {fault : SettingsError}
    (failed : scalarText? datum = .error fault) : fault.isTolerated = false := by
  delta scalarText? at failed
  cases datum with
  | int n =>
    dsimp only at failed
    generalize Numeral.decimalText n = written at failed
    cases written with
    | ok text => simp at failed
    | error _ =>
      simp only [Except.error.injEq] at failed
      simp [← failed, SettingsError.isTolerated]
  | null | bool _ | float _ | str _ | bytes _ | timestamp | list _ | map _ | set | pairs =>
    simp at failed

theorem intolerable_of_texts {d : Document} {datum : Datum} {fault : SettingsError}
    (failed : texts d datum = .error fault) : fault.isTolerated = false := by
  cases datum with
  | list items =>
    simp only [texts, bind_eq_error, pure_ne_error, and_false, exists_false, or_false] at failed
    obtain ⟨item, -, here⟩ := exists_of_mapM_eq_error failed
    exact intolerable_of_scalarText? here
  | null | bool _ | int _ | float _ | str _ | bytes _ | timestamp | map _ | set | pairs =>
    simp [texts] at failed

/-- Whatever is wrong with the texts of a mapping, it is not tolerated. -/
theorem intolerable_of_ofDocument {root : String} {d : Document} {fault : SettingsError}
    (failed : ofDocument root d = .error fault) : fault.isTolerated = false := by
  simp only [ofDocument, bind_eq_error, pure_ne_error, and_false, exists_false, or_false] at failed
  rcases failed with paths | ⟨_, -, type | ⟨_, -, framework | ⟨_, -, stages⟩⟩⟩
  · exact intolerable_of_texts paths
  · exact intolerable_of_scalarText? type
  · exact intolerable_of_scalarText? framework
  · exact intolerable_of_texts stages

/-- Reading ends in a way that an analysis can go on from: with settings, or with a fault that it
tolerates. -/
def IsTolerable (read : Except SettingsError Settings) : Prop :=
  ∀ fault, read = .error fault → fault.isTolerated = true

/-! ## Documents -/

def ofReading (root file : String) : Except YamlError (Option Document) → Except SettingsError Settings
  | .error .malformed => .error (.malformed file)
  | .error fault => .error (.impossible fault)
  | .ok none => .ok { root := root }
  | .ok (some document) =>
    match document.top with
    | .null => .ok { root := root }
    | .map _ => ofDocument root document
    | _ => .error .notAMapping

/-- Of every text the reader makes a value, or it finds that the text is no YAML. -/
def IsLawful (readYaml : Loader) : Prop :=
  ∀ text fault, readYaml text = .error fault → fault = .malformed

/-- If what was read is a mapping, its texts can be written. -/
def Spells (reading : Except YamlError (Option Document)) : Prop :=
  ∀ d entries, reading = .ok (some d) → d.top = .map entries → Spelled d

theorem isTolerable_ofDocument_iff (root : String) (d : Document) :
    IsTolerable (ofDocument root d) ↔ Spelled d := by
  rw [← exists_ofDocument_iff root]
  cases outcome : ofDocument root d with
  | ok settings => simp [IsTolerable]
  | error fault =>
    have intolerable := intolerable_of_ofDocument outcome
    simp [IsTolerable, intolerable]

theorem isTolerable_ofReading_iff (root file : String) {reading : Except YamlError (Option Document)}
    (lawful : ∀ fault, reading = .error fault → fault = .malformed) :
    IsTolerable (ofReading root file reading) ↔ Spells reading := by
  cases reading with
  | error fault =>
    rw [lawful fault rfl]
    exact iff_of_true (by simp [ofReading, IsTolerable, SettingsError.isTolerated]) (by simp [Spells])
  | ok document =>
    cases document with
    | none => exact iff_of_true (by simp [ofReading, IsTolerable]) (by simp [Spells])
    | some d =>
      have spells_iff : Spells (.ok (some d)) ↔ ∀ entries, d.top = .map entries → Spelled d := by
        constructor
        · exact fun spells entries => spells d entries rfl
        · rintro spelled _ entries ⟨rfl⟩
          exact spelled entries
      rw [spells_iff]
      -- Of the values that a document can be, only mappings are looked into.
      cases top : d.top with
      | map entries => simpa [ofReading, top] using isTolerable_ofDocument_iff root d
      | null => simp [ofReading, top, IsTolerable]
      | bool _ | int _ | float _ | str _ | bytes _ | timestamp | list _ | set | pairs =>
        simp [ofReading, top, IsTolerable, SettingsError.isTolerated]

/-! ## Bytes -/

/-- The characters that bytes stand for, with plain newlines. -/
def charsOf (bytes : ByteArray) : List Char := plainNewlines (Utf8.decode bytes).toList

theorem ofBytes_eq (readYaml : Loader) (root file : String) (bytes : ByteArray) :
    ofBytes readYaml root file bytes =
      match Utf8.fault? bytes with
      | some fault => .error (.undecodable fault)
      | none =>
        if (charsOf bytes).all isBlank then .ok { root := root }
        else ofReading root file (readYaml (charsOf bytes).toArray) := by
  unfold ofBytes charsOf ofReading
  rfl

/-- Bytes that stand for a text, which is blank, or spells what settings take from it. -/
structure Readable (readYaml : Loader) (bytes : ByteArray) : Prop where
  decoded : Utf8.fault? bytes = none
  spells : (charsOf bytes).all isBlank = true ∨ Spells (readYaml (charsOf bytes).toArray)

section

variable {readYaml : Loader} (lawful : IsLawful readYaml)

include lawful

/-- Exactly readable bytes end reading in settings or in a fault that is tolerated. -/
theorem isTolerable_ofBytes_iff (root file : String) (bytes : ByteArray) :
    IsTolerable (ofBytes readYaml root file bytes) ↔ Readable readYaml bytes := by
  rw [ofBytes_eq]
  cases decoded : Utf8.fault? bytes with
  | some fault =>
    refine ⟨fun tolerated => absurd (tolerated _ rfl) Bool.false_ne_true, fun readable => ?_⟩
    rw [readable.decoded] at decoded
    cases decoded
  | none =>
    by_cases blank : (charsOf bytes).all isBlank = true
    · simp only [blank, ↓reduceIte]
      exact ⟨fun _ => ⟨decoded, .inl blank⟩, fun _ => by simp [IsTolerable]⟩
    · simp only [blank]
      rw [if_neg Bool.false_ne_true, isTolerable_ofReading_iff _ _ (lawful _)]
      refine ⟨fun spells => ⟨decoded, .inr spells⟩, fun readable => ?_⟩
      exact readable.spells.resolve_left blank

end

/-! ## Files -/

def FileHolds (tree : FileTree) (place : List String) (bytes : ByteArray) : Prop :=
  tree.asksTooLong place = false
    ∧ ∃ file found modified, tree.realPath? (fileFor tree place) = some file
      ∧ tree.find? file = some (found, .file bytes modified)

theorem isTolerable_load_iff {readYaml : Loader} (lawful : IsLawful readYaml) {tree : FileTree}
    {place : List String} {bytes : ByteArray} (holds : FileHolds tree place bytes)
    (override? : Option String) :
    IsTolerable (load readYaml tree place override?) ↔ Readable readYaml bytes := by
  obtain ⟨short, file, found, modified, real, here⟩ := holds
  have loaded : load readYaml tree place override?
      = (ofBytes readYaml (tree.absolute file.dropLast) (file.getLast?.getD "") bytes).map
        (withOverride override?) := by
    simp only [load, short, Bool.false_eq_true, ↓reduceIte, real, ofFile, here]
  rw [loaded, ← isTolerable_ofBytes_iff lawful (tree.absolute file.dropLast) (file.getLast?.getD "")]
  -- The variable of the environment has no say in what is wrong with a file.
  cases ofBytes readYaml (tree.absolute file.dropLast) (file.getLast?.getD "") bytes with
  | ok settings => simp [IsTolerable, Except.map]
  | error fault => simp [IsTolerable, Except.map]

end Settings

/-! ## Analyses -/

/-- An analysis that is given no settings goes on exactly if the bytes of the settings file can be
read: with the settings in them or, with a warning, with the standard settings. Otherwise it ends
before it has begun. -/
theorem analyze_goes_on_iff_readable (around : Surroundings) (overrides : Overrides)
    (project : Project) (s : Session) (place : List String) (bytes : ByteArray)
    (lawful : Settings.IsLawful around.readYaml) (notGiven : overrides.settings = none)
    (root : checkRoot around project.rootPath = .ok place)
    (holds : Settings.FileHolds around.tree place bytes) :
    (Settings.Readable around.readYaml bytes →
      (∃ settings,
        Settings.load around.readYaml around.tree place around.projectType = .ok settings
        ∧ analyze around overrides project s
          = analyze around { overrides with settings := some settings } project s)
      ∨ ∃ fault, Settings.load around.readYaml around.tree place around.projectType = .error fault
        ∧ fault.isTolerated = true
        ∧ analyze around overrides project s
          = analyze around { overrides with settings := some { root := around.tree.absolute place } }
            project (s.log .warning ("Ignoring invalid configuration: " ++ fault.message)))
    ∧ (¬ Settings.Readable around.readYaml bytes →
      ∃ fault, Settings.load around.readYaml around.tree place around.projectType = .error fault
        ∧ fault.isTolerated = false
        ∧ analyze around overrides project s = ⟨s.journal, .error (.settings fault)⟩) := by
  have tolerable_iff := Settings.isTolerable_load_iff lawful holds around.projectType
  rw [← tolerable_iff]
  cases loaded : Settings.load around.readYaml around.tree place around.projectType with
  | ok settings =>
    refine ⟨fun _ => .inl ⟨settings, rfl, ?_⟩, fun intolerable => ?_⟩
    · simp [analyze, root, notGiven, chooseSettings, loaded]
    · simp [Settings.IsTolerable] at intolerable
  | error fault =>
    cases tolerated : fault.isTolerated with
    | true =>
      refine ⟨fun _ => .inr ⟨fault, rfl, tolerated, ?_⟩, fun intolerable => ?_⟩
      · simp [analyze, root, notGiven, chooseSettings, loaded, tolerated]
      · simp [Settings.IsTolerable, tolerated] at intolerable
    | false =>
      refine ⟨fun tolerable => ?_, fun _ => ⟨fault, rfl, tolerated, ?_⟩⟩
      · simp [Settings.IsTolerable, tolerated] at tolerable
      · simp [analyze, root, notGiven, chooseSettings, loaded, tolerated]

/-- A reader to which every text that it does not read is malformed. -/
def strictLoader : Yaml.Loader := fun text => (Yaml.Document.ofText text).mapError fun _ => .malformed

theorem isLawful_strictLoader : Settings.IsLawful strictLoader := by
  intro text fault failed
  unfold strictLoader at failed
  cases read : Yaml.Document.ofText text with
  | ok document => simp [read, Except.mapError] at failed
  | error fault => simpa [read, Except.mapError, eq_comm] using failed

def strictlyBeside (bytes : ByteArray) : Surroundings :=
  { besideSettings bytes with readYaml := strictLoader }

theorem fileHolds_strictlyBeside (bytes : ByteArray) :
    Settings.FileHolds (strictlyBeside bytes).tree ["app"] bytes :=
  ⟨by rfl, ["app", settingsFileName], ["app", settingsFileName], 0, by rfl, by rfl⟩

/-- An opening bracket is no YAML. -/
theorem ofText_bracket : Yaml.Document.ofText #['['] = .error .malformed := by
  -- Documents cannot be compared; whether there is one can be computed.
  have outcome : (Yaml.Document.ofText #['[']).map (fun _ => ()) = .error .malformed := by decide +kernel
  cases read : Yaml.Document.ofText #['['] with
  | ok document => simp [read, Except.map] at outcome
  | error fault => simpa [read, Except.map] using outcome

theorem ofBytes_bracket {readYaml : Yaml.Loader} (malformed : readYaml #['['] = .error .malformed)
    (root file : String) : Settings.ofBytes readYaml root file ⟨#[91]⟩ = .error (.malformed file) := by
  have chars : Settings.charsOf ⟨#[91]⟩ = ['['] := by rfl
  have decoded : Utf8.fault? ⟨#[91]⟩ = none := by rfl
  have notBlank : ['['].all isBlank = false := by rfl
  simp only [Settings.ofBytes_eq, decoded, chars, notBlank, Bool.false_eq_true, ↓reduceIte,
    malformed, Settings.ofReading]

theorem strictLoader_bracket : strictLoader #['['] = .error .malformed := by
  rw [strictLoader, ofText_bracket]
  rfl

theorem readable_bracket : Settings.Readable strictLoader ⟨#[91]⟩ := by
  rw [← Settings.isTolerable_ofBytes_iff isLawful_strictLoader "" "", ofBytes_bracket strictLoader_bracket]
  simp [Settings.IsTolerable, SettingsError.isTolerated]

theorem not_readable_stray (readYaml : Yaml.Loader) : ¬ Settings.Readable readYaml ⟨#[255]⟩ := by
  intro readable
  have stray : Utf8.fault? ⟨#[255]⟩ = some ⟨0, [255], .start⟩ := by rfl
  rw [readable.decoded] at stray
  cases stray

theorem load_bracket {readYaml : Yaml.Loader} (malformed : readYaml #['['] = .error .malformed) :
    Settings.load readYaml (besideSettings ⟨#[91]⟩).tree ["app"] none
      = .error (.malformed settingsFileName) := by
  have reads : Settings.load readYaml (besideSettings ⟨#[91]⟩).tree ["app"] none
      = (Settings.ofBytes readYaml "/srv/app" settingsFileName ⟨#[91]⟩).map (Settings.withOverride none) := by
    rfl
  rw [reads, ofBytes_bracket malformed]
  rfl

theorem bracket_ignored_stray_stops :
    analyze (strictlyBeside ⟨#[91]⟩) {} { rootPath := "/srv/app" } (.start none false [])
      = analyze (strictlyBeside ⟨#[91]⟩) { settings := some { root := "/srv/app" } }
        { rootPath := "/srv/app" } ((Session.start none false []).log .warning
          "Ignoring invalid configuration: Failed to parse .codeinspector.yml")
    ∧ ∃ fault, analyze (strictlyBeside ⟨#[255]⟩) {} { rootPath := "/srv/app" } (.start none false [])
      = ⟨[], .error (.settings fault)⟩ := by
  have rootOfBracket : checkRoot (strictlyBeside ⟨#[91]⟩) "/srv/app" = .ok ["app"] :=
    checkRoot_directory (by decide) (by rfl) (by rfl)
  have rootOfStray : checkRoot (strictlyBeside ⟨#[255]⟩) "/srv/app" = .ok ["app"] :=
    checkRoot_directory (by decide) (by rfl) (by rfl)
  have rejected : Settings.load (strictlyBeside ⟨#[91]⟩).readYaml (strictlyBeside ⟨#[91]⟩).tree ["app"]
      (strictlyBeside ⟨#[91]⟩).projectType = .error (.malformed settingsFileName) :=
    load_bracket strictLoader_bracket
  constructor
  · have goesOn := (analyze_goes_on_iff_readable (strictlyBeside ⟨#[91]⟩) {}
      { rootPath := "/srv/app" } (.start none false []) ["app"] ⟨#[91]⟩ isLawful_strictLoader rfl
      rootOfBracket (fileHolds_strictlyBeside _)).1 readable_bracket
    simp only [rejected, reduceCtorEq, false_and, exists_false, Except.error.injEq, exists_eq_left',
      false_or] at goesOn
    exact goesOn.2
  · obtain ⟨fault, -, -, ends⟩ := (analyze_goes_on_iff_readable (strictlyBeside ⟨#[255]⟩) {}
      { rootPath := "/srv/app" } (.start none false []) ["app"] ⟨#[255]⟩ isLawful_strictLoader rfl
      rootOfStray (fileHolds_strictlyBeside _)).2 (not_readable_stray _)
    exact ⟨fault, ends⟩

end Surveyor
