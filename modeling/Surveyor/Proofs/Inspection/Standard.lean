import Mathlib.Data.List.Sublists
import Surveyor.Proofs.Inspection.Mergeable
import Surveyor.Proofs.Pipeline.Discovery
import Surveyor.Proofs.Settings.Described

/-! # Analyses with the built-in stages

Of the built-in stages, those run that the settings enable, in their order (`chooseStages_builtin_iff`).
Where a project is described by texts and its root is a directory, each of them returns or fails, and
none ends the analysis; so an analysis that nobody disturbs returns a report
(`Analysis.Standard.exists_report`).
-/

namespace Surveyor

/-! ## Stages that are enabled -/

/-- The names of the stages that settings enable, in lower case; none is named if all are enabled. -/
def Settings.enabledKeys (settings : Settings) : Option (List String) :=
  if settings.enabledStages.isEmpty then none else some (settings.enabledStages.map lower)

def Settings.enabledBuiltin (settings : Settings) : List Stage :=
  builtinStages.filter fun stage => isEnabled settings.enabledKeys stage.name

def Settings.KnowsStages (settings : Settings) : Prop :=
  ∀ name ∈ settings.enabledStages, lower name ∈ builtinStages.map (·.name)

/-- Each built-in stage is found under its name. -/
theorem collectStages_builtin :
    collectStages none [] builtinRegistrations
      = .ok (builtinStages.map fun stage => (stage.name, stage)) := rfl

theorem nodup_builtin : (builtinStages.map (·.name)).Nodup := by decide

/-- Some of the built-in stages, in their order, are in an order that holds. -/
theorem orderError?_builtin {stages : List Stage} (taken : stages.Sublist builtinStages) :
    orderError? stages = none := by
  have all : ∀ stages ∈ builtinStages.sublists, orderError? stages = none := by decide +kernel
  exact all stages (List.mem_sublists.mpr taken)

/-- The enabled ones of the built-in stages are found, provided that all names are known. -/
theorem discoverStages_builtin_iff {settings : Settings} {stages : List Stage} :
    discoverStages builtinRegistrations
        (if settings.enabledStages.isEmpty then none else some settings.enabledStages) = .ok stages
      ↔ settings.KnowsStages ∧ stages = settings.enabledBuiltin := by
  by_cases all : settings.enabledStages.isEmpty = true
  · have noneNamed := List.isEmpty_iff.mp all
    have everyStage : discoverStages builtinRegistrations none = .ok builtinStages := rfl
    simp [everyStage, Settings.KnowsStages, Settings.enabledBuiltin, Settings.enabledKeys, isEnabled,
      noneNamed, eq_comm]
  · have names : (builtinStages.map fun stage => (stage.name, stage)).map (·.1)
        = builtinStages.map (·.name) := List.map_map
    have enabled : ((builtinStages.map fun stage => (stage.name, stage)).filter fun entry =>
        (settings.enabledStages.map lower).contains entry.1).map (·.2) = settings.enabledBuiltin := by
      rw [Settings.enabledBuiltin, Settings.enabledKeys, if_neg all, List.filter_map, List.map_map]
      exact List.map_id _
    rw [if_neg all, discoverStages_enabled collectStages_builtin, names, enabled, Settings.KnowsStages]
    split
    · next known => rw [and_iff_right known, Except.ok.injEq, eq_comm]
    · next unknown =>
      constructor
      · intro found
        cases found
      · exact fun known => absurd known.1 unknown

/-- The enabled ones of the built-in stages are chosen, provided that all names are known. -/
theorem chooseStages_builtin_iff {around : Surroundings}
    (registered : around.registrations = builtinRegistrations) {settings : Settings}
    {stages : List Stage} :
    chooseStages around settings none = .ok stages
      ↔ settings.KnowsStages ∧ stages = settings.enabledBuiltin := by
  have ordered : orderError? settings.enabledBuiltin = none := orderError?_builtin List.filter_sublist
  rw [← discoverStages_builtin_iff]
  cases discovered : discoverStages builtinRegistrations
      (if settings.enabledStages.isEmpty then none else some settings.enabledStages) with
  | error e =>
    simp only [chooseStages, registered, discovered, Except.mapError, bind, Except.bind, reduceCtorEq]
  | ok found =>
    obtain ⟨-, rfl⟩ := discoverStages_builtin_iff.mp discovered
    simp only [chooseStages, registered, discovered, ordered, Except.mapError, bind, Except.bind, pure,
      Except.pure, Except.ok.injEq]

/-! ## Analyses -/

/-- An analysis of a project that is described by texts. It chooses from the built-in stages, it uses
the settings that it finds, its root is a directory at a canonical place, and nobody disturbs it. -/
structure Analysis.Standard (a : Analysis) (place : List String) : Prop where
  ofItself : a.overrides = {}
  registered : a.around.registrations = builtinRegistrations
  described : a.project.IsDescribed
  named : a.around.tree.root.isWellNamed = true
  root : checkRoot a.around a.project.rootPath = .ok place
  notCancelled : a.isCancelled = false
  neverCancels : ∀ listener, a.listener = some listener →
    ∀ earlier event, (listener.react earlier event).cancels = false
  tells : Session.TellsTime a.session.times

namespace Analysis

def contextWith (a : Analysis) (place : List String) (settings : Settings) : StageContext :=
  ⟨a.project.effective (a.around.tree.absolute place) settings, settings, a.around.tree, a.around.now⟩

variable {a : Analysis} {place : List String} {opened : Session} {settings : Settings}

theorem Standard.comesTo (standard : a.Standard place)
    (chosen : chooseSettings a.around place none a.session = (opened, .ok settings))
    (known : settings.KnowsStages) :
    a.ComesTo (a.contextWith place settings) settings.enabledBuiltin opened := by
  refine ⟨place, settings, standard.root, ?_, ?_, rfl⟩
  · rw [standard.ofItself]
    exact chosen
  · rw [standard.ofItself]
    exact (chooseStages_builtin_iff standard.registered).mpr ⟨known, rfl⟩

theorem Standard.describes (standard : a.Standard place)
    (chosen : chooseSettings a.around place none a.session = (opened, .ok settings)) :
    (a.contextWith place settings).Described ∧ (a.contextWith place settings).HasRoot := by
  constructor
  · exact standard.described.described (isDescribed_of_chooseSettings chosen) _ _ _
  · exact hasRoot_of_checkRoot standard.named standard.root rfl rfl

/-- An analysis returns a report of the enabled stages, which tells how each of them ended. -/
theorem Standard.exists_report (standard : a.Standard place)
    (chosen : chooseSettings a.around place none a.session = (opened, .ok settings))
    (known : settings.KnowsStages) :
    ∃ report, a.Inspects (a.contextWith place settings) settings.enabledBuiltin report
      ∧ (∀ stage ∈ settings.enabledBuiltin, ∀ snapshot,
        (stage.name, snapshot) ∈ invocations a.run.journal →
          statusOf? report stage.name
            = some (.str (stage.run (a.contextWith place settings) snapshot).result.status))
      ∧ ∀ name, name ∉ settings.enabledBuiltin.map (·.name) → statusOf? report name = none := by
  have begins := standard.comesTo chosen known
  obtain ⟨described, root⟩ := standard.describes chosen
  have taken : settings.enabledBuiltin.Sublist builtinStages := List.filter_sublist
  have undisturbed : a.Undisturbed (a.contextWith place settings) settings.enabledBuiltin :=
    undisturbed_of_builtin described root taken.subset standard.notCancelled standard.neverCancels
      standard.tells
  obtain ⟨report, returned, ended, others⟩ := undisturbed.exists_statuses begins
    (nodup_builtin.sublist (taken.map _))
  exact ⟨report, ⟨⟨opened, begins⟩, fun stage member => taken.subset member, returned⟩, ended, others⟩

/-! ## Settings files -/

/-- The analysis of a directory that holds a settings file, with the type of project that the environment
asks for. -/
def ofSettings (bytes : ByteArray) (projectType : Option String) : Analysis where
  around := { besideSettings bytes with
    projectType := projectType
    registrations := builtinRegistrations }
  overrides := {}
  project := { rootPath := "/srv/app" }
  listener := none
  isCancelled := false
  readings := [.whole 0]

theorem ofSettings_standard (bytes : ByteArray) (projectType : Option String) :
    (ofSettings bytes projectType).Standard ["app"] where
  ofItself := rfl
  registered := rfl
  described := ⟨⟨[], rfl⟩, ⟨"auto", rfl⟩, ⟨none, rfl⟩⟩
  named := by
    have appNamed : isEntryName "app" = true := by decide
    have settingsNamed : isEntryName settingsFileName = true := by decide
    simp [ofSettings, besideSettings, FileNode.isWellNamed, FileNode.areWellNamed, appNamed, settingsNamed]
  root := checkRoot_app rfl
  notCancelled := rfl
  neverCancels := by simp [ofSettings]
  tells := by
    simp only [Session.TellsTime, session, ofSettings, Session.times, Session.start,
      List.isEmpty_cons, Bool.false_eq_true, ↓reduceIte, List.mem_singleton, forall_eq]
    exact ⟨0, rfl⟩

end Analysis

end Surveyor
