import Surveyor.Proofs.Inspection.ReportedSites
import Surveyor.Proofs.Inspection.Standard

/-! # The type of a project

A project that leaves its type open takes it from the settings, and a variable of the environment
overrides what the settings say. The override is part of loading the settings: where a settings file is
rejected and the standard settings take its place, the environment is not asked again
(`environment_sets_type_unless_rejected`).
-/

namespace Surveyor

/-! ## Overriding -/

theorem strip_ne_empty {value : String} (notBlank : Text.isBlankString value = false) :
    Text.strip value ≠ "" := by
  intro empty
  have allBlank : ∀ c ∈ value.toList.dropWhile isBlank, isBlank c = true := by
    simpa [Text.strip, Text.stripWhere, Text.stripChars, Text.dropRightWhile] using empty
  -- What is left from the first character on that is no blank begins with this character.
  cases rest : value.toList.dropWhile isBlank with
  | nil =>
    have blank : Text.isBlankString value = true :=
      List.all_eq_true.mpr (List.dropWhile_eq_nil_iff.mp rest)
    rw [blank] at notBlank
    cases notBlank
  | cons c others =>
    have first := List.head?_dropWhile_not isBlank value.toList
    rw [rest] at first allBlank
    simp [allBlank c] at first

/-- A file is read or rejected whatever the environment asks for. -/
theorem Settings.load_eq_map (readYaml : Yaml.Loader) (tree : FileTree) (names : List String)
    (override? : Option String) :
    load readYaml tree names override? = (load readYaml tree names none).map (withOverride override?) := by
  unfold load
  split
  · rfl
  · simp only
    split
    · rfl
    · next place _ => cases ofFile readYaml tree place <;> rfl

theorem Settings.projectType_of_load {readYaml : Yaml.Loader} {tree : FileTree} {names : List String}
    {value : String} (notBlank : Text.isBlankString value = false) {settings : Settings}
    (loaded : load readYaml tree names (some value) = .ok settings) :
    settings.projectType = .str (Text.strip value) := by
  rw [load_eq_map] at loaded
  cases read : load readYaml tree names none with
  | error fault => simp [read, Except.map] at loaded
  | ok found =>
    simp only [read, Except.map, withOverride, notBlank, Bool.false_eq_true, ↓reduceIte,
      Except.ok.injEq] at loaded
    rw [← loaded]

/-- A project that leaves its type open takes it from the settings, if these name one. -/
theorem Project.projectType_effective {project : Project} (isOpen : project.projectType = .str "auto")
    (root : String) (settings : Settings) :
    (project.effective root settings).projectType = settings.projectType.orElse (.str "auto") := by
  have own : (Value.str "auto").orElse (.str "auto") = .str "auto" := rfl
  simp [Project.effective, isOpen, own, Value.str?]

/-! ## Reports -/

/-- The report shows the type of the project in lower case. -/
theorem Analysis.Inspects.projectType_eq {a : Analysis} {context : StageContext} {stages : List Stage}
    {report : Entries} (inspects : a.Inspects context stages report) (ran : .locations ∈ stages)
    {type : String} (typed : context.project.projectType = .str type) :
    (Value.map report).at? [.key "key_locations", .key "project_type"]
      = some (.str (lower (if type.isEmpty then "auto" else type))) := by
  obtain ⟨state, settled, published⟩ := inspects.exists_settled
  obtain ⟨records, catalogued⟩ := settled.exists_catalogued inspects.builtin
  obtain ⟨snapshot, took⟩ := settled.took .locations ran
  have shows_ := took.showsRecords catalogued (by simp [Stage.locations]) (by simp [Stage.locations])
  obtain ⟨found, places, isType⟩ := Locations.exists_ofSnapshot shows_ type
  have returned : (Stage.locations.run context snapshot).result.delta?
      = some [("key_locations", found.toValue)] := by
    refine StageRun.delta?_ofResult.mpr ?_
    rw [typed, places]
    rfl
  have shown : report.lookup "key_locations" = some found.toValue.leaving := by
    rw [published "key_locations" (by decide) (by decide),
      took.left "key_locations" (by simp [Stage.locations]), returned]
    rfl
  have named : found.toValue.leaving.get? "project_type" = some (.str found.projectType) := by
    rw [get?_leaving _ (by decide)]
    rfl
  rw [← isType, ← named]
  simp [Value.at?, Value.turn?, Value.get?, shown]

/-! ## Analyses -/

section

variable {a : Analysis} {place : List String} {value : String}

/-- What stages are handed comes from the settings that were chosen. -/
theorem Analysis.ComesTo.projectType_eq {context : StageContext} {stages : List Stage} {opened : Session}
    (begins : a.ComesTo context stages opened) (ofItself : a.overrides.settings = none)
    (root : checkRoot a.around a.project.rootPath = .ok place)
    (isOpen : a.project.projectType = .str "auto") {settings : Settings}
    (chosen : (chooseSettings a.around place none a.session).2 = .ok settings) :
    context.project.projectType = settings.projectType.orElse (.str "auto") := by
  obtain ⟨_, _, sameRoot, chosenToo, -, rfl⟩ := begins
  obtain rfl := Except.ok.inj (root.symm.trans sameRoot)
  rw [ofItself] at chosenToo
  rw [chosenToo] at chosen
  obtain rfl := Except.ok.inj chosen
  exact Project.projectType_effective isOpen _ _

/-- A variable of the environment sets the type of a project that leaves it open, whether there is a
settings file or not and whatever it says, unless the file is rejected: then the type stays open. The
report shows the type in lower case. -/
theorem environment_sets_type_unless_rejected (ofItself : a.overrides.settings = none)
    (root : checkRoot a.around a.project.rootPath = .ok place)
    (isOpen : a.project.projectType = .str "auto") (asked : a.around.projectType = some value)
    (notBlank : Text.isBlankString value = false) :
    (∀ settings, Settings.load a.around.readYaml a.around.tree place a.around.projectType = .ok settings →
      (∀ context stages opened, a.ComesTo context stages opened →
        context.project.projectType = .str (Text.strip value))
      ∧ (a.Standard place → settings.KnowsStages → ∃ report, a.run.result = .ok report
        ∧ (.locations ∈ settings.enabledBuiltin →
          (Value.map report).at? [.key "key_locations", .key "project_type"]
            = some (.str (lower (Text.strip value))))))
    ∧ ∀ fault, Settings.load a.around.readYaml a.around.tree place a.around.projectType = .error fault →
      fault.isTolerated = true →
        (∀ context stages opened, a.ComesTo context stages opened →
          context.project.projectType = .str "auto")
        ∧ (a.Standard place → ∃ report, a.run.result = .ok report
          ∧ (Value.map report).at? [.key "key_locations", .key "project_type"]
            = some (.str "auto")) := by
  constructor
  · intro settings loaded
    have chosen : chooseSettings a.around place none a.session = (a.session, .ok settings) :=
      chooseSettings_of_load loaded
    rw [asked] at loaded
    have notEmpty : (Text.strip value).isEmpty = false := by simpa using strip_ne_empty notBlank
    have given : settings.projectType.orElse (.str "auto") = .str (Text.strip value) := by
      simp [Settings.projectType_of_load notBlank loaded, Value.orElse, Value.isGiven, notEmpty]
    have handed : ∀ context stages opened, a.ComesTo context stages opened →
        context.project.projectType = .str (Text.strip value) := by
      intro context stages opened begins
      rw [begins.projectType_eq ofItself root isOpen (by rw [chosen]), given]
    refine ⟨handed, fun standard known => ?_⟩
    obtain ⟨report, inspects, -⟩ := standard.exists_report chosen known
    refine ⟨report, inspects.returned, fun enabled => ?_⟩
    obtain ⟨opened, begins⟩ := inspects.begins
    rw [inspects.projectType_eq enabled (handed _ _ opened begins), notEmpty]
    rfl
  · intro fault rejected tolerated
    have chosen := @chooseSettings_of_rejected a.around place a.session fault rejected tolerated
    have handed : ∀ context stages opened, a.ComesTo context stages opened →
        context.project.projectType = .str "auto" := by
      intro context stages opened begins
      rw [begins.projectType_eq ofItself root isOpen (by rw [chosen])]
      rfl
    refine ⟨handed, fun standard => ?_⟩
    have known : Settings.KnowsStages { root := a.around.tree.absolute place } := by
      simp [Settings.KnowsStages]
    obtain ⟨report, inspects, -⟩ := standard.exists_report chosen known
    refine ⟨report, inspects.returned, ?_⟩
    -- The standard settings enable all stages.
    have enabled : .locations ∈ Settings.enabledBuiltin { root := a.around.tree.absolute place } := by
      simp [Settings.enabledBuiltin, Settings.enabledKeys, builtinStages, isEnabled]
    obtain ⟨opened, begins⟩ := inspects.begins
    rw [inspects.projectType_eq enabled (handed _ _ opened begins)]
    rfl

end

theorem nodejs_when_empty_auto_when_rejected :
    (∃ report, (Analysis.ofSettings ⟨#[]⟩ (some " NodeJS ")).run.result = .ok report
      ∧ (Value.map report).at? [.key "key_locations", .key "project_type"] = some (.str "nodejs"))
    ∧ ∃ report, (Analysis.ofSettings ⟨#[91]⟩ (some " NodeJS ")).run.result = .ok report
      ∧ (Value.map report).at? [.key "key_locations", .key "project_type"] = some (.str "auto") := by
  have notBlank : Text.isBlankString " NodeJS " = false := by decide +kernel
  have lowered : lower (Text.strip " NodeJS ") = "nodejs" := by decide +kernel
  constructor
  · let settings : Settings := { root := "/srv/app", projectType := .str (Text.strip " NodeJS ") }
    have loaded : Settings.load Yaml.Document.ofText
        (Analysis.ofSettings ⟨#[]⟩ (some " NodeJS ")).around.tree ["app"]
        (Analysis.ofSettings ⟨#[]⟩ (some " NodeJS ")).around.projectType = .ok settings := by
      rfl
    have known : settings.KnowsStages := by simp [Settings.KnowsStages, settings]
    have standard := Analysis.ofSettings_standard ⟨#[]⟩ (some " NodeJS ")
    obtain ⟨report, returned, typed⟩ := ((environment_sets_type_unless_rejected rfl standard.root rfl rfl
      notBlank).1 settings loaded).2 standard known
    rw [lowered] at typed
    refine ⟨report, returned, typed ?_⟩
    simp [settings, Settings.enabledBuiltin, Settings.enabledKeys, builtinStages, isEnabled]
  · have rejected : Settings.load Yaml.Document.ofText
        (Analysis.ofSettings ⟨#[91]⟩ (some " NodeJS ")).around.tree ["app"]
        (Analysis.ofSettings ⟨#[91]⟩ (some " NodeJS ")).around.projectType
        = .error (.malformed settingsFileName) := by
      rw [Settings.load_eq_map, show Settings.load Yaml.Document.ofText
        (Analysis.ofSettings ⟨#[91]⟩ (some " NodeJS ")).around.tree ["app"] none = _ from
          load_bracket ofText_bracket]
      rfl
    have standard := Analysis.ofSettings_standard ⟨#[91]⟩ (some " NodeJS ")
    exact ((environment_sets_type_unless_rejected rfl standard.root rfl rfl notBlank).2 _ rejected rfl).2
      standard

end Surveyor
