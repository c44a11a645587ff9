import Surveyor.Command.Analyze
import Surveyor.Proofs.Catalog.Excluding
import Surveyor.Proofs.Inspection.ReportedSites
import Surveyor.Proofs.Inspection.Standard

/-! # Reports that are written into the project

A report that goes to a file inside the project is kept out of the analysis: the way from the root down to
the file is excluded like a folder that the user excludes. Exclusion goes by what a path contains, so this
hides the file itself, and with it every other file whose path contains that of the report. The root is
taken as it is spelt here, while the analysis replaces a tilde that it starts with by a home directory.
-/

namespace Surveyor

/-! ## Catalogues in reports -/

section

variable {context : StageContext} {stages : List Stage}

theorem Cataloguing.preparation_eq {interval : Int}
    (given : context.settings.progressInterval = .ok interval) {folders paths : List String}
    (ofProject : context.project.excludedFolders = .strings folders)
    (ofSettings : context.settings.excludePaths = .strings paths) :
    preparation context = .ok (interval, exclusionPatterns (folders ++ paths)) := by
  have texts : ∀ names : List String, (names.map Value.str).map Value.display = names := by
    intro names
    rw [List.map_map]
    exact List.map_id'' (fun _ => rfl) names
  simp only [preparation, given, ofProject, ofSettings, Value.strings, Value.members, bind, Except.bind,
    pure, Except.pure, List.map_append, texts]

/-- The report of an analysis with a survey holds the catalogue of the survey. -/
theorem Analysis.Inspects.lookup_catalog {a : Analysis} {report : Entries}
    (inspects : a.Inspects context stages report) (ran : .cataloguing ∈ stages) {catalog : Catalog}
    (surveyed : Surveyed context catalog) : report.lookup "file_system" = some catalog.toValue := by
  obtain ⟨state, settled, published⟩ := inspects.exists_settled
  obtain ⟨snapshot, took⟩ := settled.took .cataloguing ran
  have leaves := Catalog.leavesAsIs_toValue surveyed.isOfFile
  have returned : (Stage.cataloguing.run context snapshot).result = .delta (Cataloguing.delta catalog) := by
    obtain ⟨interval, patterns, prepared, found⟩ := surveyed
    show (Cataloguing.run context).result = _
    simp only [Cataloguing.run, prepared, found]
  rw [published "file_system" (by decide) (by decide),
    took.left "file_system" (by simp [Stage.cataloguing]), returned]
  show some catalog.toValue.plainForm.publish = _
  rw [Value.plainForm_of_isPlain leaves.plain, Value.publish_of_isShown leaves.plain leaves.shown]

theorem Analysis.Inspects.cataloguing_mem {a : Analysis} {report : Entries}
    (inspects : a.Inspects context stages report)
    (catalogued : (report.lookup "file_system").isSome = true) : .cataloguing ∈ stages := by
  obtain ⟨state, settled, published⟩ := inspects.exists_settled
  rw [published "file_system" (by decide) (by decide), Option.isSome_map] at catalogued
  obtain ⟨stage, ran, provides⟩ := settled.provided "file_system" (by
    intro missing
    simp [missing] at catalogued)
  have same : stage = .cataloguing := eq_of_provides (inspects.builtin stage ran)
    (by simp [builtinStages]) provides (by simp [Stage.cataloguing])
  rwa [same] at ran

end

namespace Command

/-! ## Requests -/

def reserving (around : Surroundings) (readings : List Quantity) (request : AnalyzeRequest)
    (reserved : List String) : Analysis :=
  ⟨around, {}, requestedProject request reserved, some quietListener, false, readings⟩

def requestedAnalysis (around : Surroundings) (readings : List Quantity) (request : AnalyzeRequest) :
    Except CommandError Analysis := do
  let logFile ← request.logFile.path?
  let output ← request.output.path?
  let around ← writeAll around (logFile.toList.map fun path => logText around path [])
  let reserved ← reservedPaths around request.path output
  return reserving around readings request reserved

/-- The text of a report is put out where the request asks for it. -/
def PutsOut (request : AnalyzeRequest) (report : Entries) (outcome : Outcome) : Prop :=
  ∃ text, request.format.render (.map report) = .ok text
    ∧ (request.output = .notAsked → outcome.stdout = text)
    ∧ ∀ path, request.output = .path path → ⟨path, text, false⟩ ∈ outcome.written

/-- A command that is carried out puts out the report of the requested analysis. -/
theorem putsOut_of_analyze {around : Surroundings} {readings : List Quantity} {request : AnalyzeRequest}
    {a : Analysis} {report : Entries} {outcome : Outcome}
    (requested : requestedAnalysis around readings request = .ok a) (returned : a.run.result = .ok report)
    (carriedOut : analyze around readings request = .ok outcome) : PutsOut request report outcome := by
  simp only [requestedAnalysis, bind_eq_ok, pure_eq_ok] at requested
  obtain ⟨logFile, logAsked, output, outputAsked, opened, isOpened, reserved, isReserved, rfl⟩ := requested
  have result : (Surveyor.analyze opened {} (requestedProject request reserved)
      (.start (some quietListener) false readings)).result = .ok report := returned
  simp only [analyze, logAsked, outputAsked, isOpened, isReserved, bind, Except.bind, result] at carriedOut
  -- A command that stops earlier ends with an error, so only the last branch of each split is left.
  split at carriedOut
  · cases carriedOut
  · split at carriedOut
    · cases carriedOut
    · next text rendered =>
      split at carriedOut
      · cases carriedOut
      · next delivered puts =>
        split at carriedOut
        · cases carriedOut
        · obtain rfl := pure_eq_ok.mp carriedOut
          refine ⟨text, mapError_eq_ok.mp rendered, ?_, ?_⟩
          · intro notAsked
            rw [notAsked] at outputAsked
            cases outputAsked
            obtain rfl := pure_eq_ok.mp puts
            rfl
          · intro path asked
            rw [asked] at outputAsked
            cases outputAsked
            simp only [deliver, bind_eq_ok, pure_eq_ok] at puts
            obtain ⟨told, -, rfl⟩ := puts
            simp

/-! ## Places -/

section

variable {around : Surroundings} {path : String} {place : List String}

theorem expandHome_of_not_homeStart {home : String → Option String} (noTilde : homeStart? path = none) :
    expandHome home path = .ok path := by
  simp [expandHome, noTilde]

theorem placeOf_root (plainHere : "." ∉ around.here) (noTilde : homeStart? path = none)
    (root : checkRoot around path = .ok place) : placeOf around path = .ok (some place) := by
  obtain ⟨_, entries, expanded, found⟩ := exists_directory_of_checkRoot root
  rw [expandHome_of_not_homeStart noTilde] at expanded
  cases expanded
  obtain ⟨names, leads, there⟩ := Option.bind_eq_some_iff.mp found
  simp [placeOf, leads, FileTree.realPath?_of_find? plainHere leads there]

/-- What is left out for a file inside the root is the way down to it. -/
theorem reservedPaths_inside (plainHere : "." ∉ around.here) (noTilde : homeStart? path = none)
    (root : checkRoot around path = .ok place) {out : String} {names : List String}
    (inside : placeOf around out = .ok (some (place ++ names))) (below : names ≠ []) :
    reservedPaths around path (some out) = .ok [Text.join "/" names] := by
  have down : wayDown? place (place ++ names) = some names := by simp [wayDown?]
  simp only [reservedPaths, inside, placeOf_root plainHere noTilde root, down, bind, Except.bind]
  cases names with
  | nil => exact absurd rfl below
  | cons name rest => rfl

end

/-! ## Analyses -/

/-- Beside what it leaves out, a request for a report in a file leads to the same analysis. -/
theorem requestedAnalysis_eq_ok {around : Surroundings} {readings : List Quantity}
    {request : AnalyzeRequest} {a : Analysis} (notAsked : request.output = .notAsked)
    (requested : requestedAnalysis around readings request = .ok a) :
    ∃ opened, a = reserving opened readings request []
      ∧ ∀ out reserved, reservedPaths opened request.path (some out) = .ok reserved →
        requestedAnalysis around readings { request with output := .path out }
          = .ok (reserving opened readings request reserved) := by
  simp only [requestedAnalysis, notAsked, PathChoice.path?, bind_eq_ok, pure_eq_ok] at requested
  obtain ⟨logFile, logAsked, _, ⟨⟩, opened, isOpened, _, isReserved, rfl⟩ := requested
  obtain rfl := pure_eq_ok.mp isReserved
  refine ⟨opened, rfl, fun out reserved isReserved => ?_⟩
  simp only [requestedAnalysis, logAsked, PathChoice.path?, isOpened, bind, Except.bind] at isReserved ⊢
  rw [isReserved]
  rfl

section

variable {around : Surroundings} {readings : List Quantity} {request : AnalyzeRequest}
  {place : List String}

theorem reserving_standard (registered : around.registrations = builtinRegistrations)
    (named : around.tree.root.isWellNamed = true)
    (root : checkRoot around request.path = .ok place)
    (tells : Session.TellsTime (Session.start (some quietListener) false readings).times)
    (reserved : List String) : (reserving around readings request reserved).Standard place where
  ofItself := rfl
  registered := registered
  described := ⟨⟨_, rfl⟩, ⟨_, rfl⟩, ⟨_, rfl⟩⟩
  named := named
  root := root
  notCancelled := rfl
  neverCancels := by
    rintro listener ⟨rfl⟩ earlier event
    rfl
  tells := tells

/-- Reserving paths takes the files that they hide out of the catalogue. -/
theorem surveyed_reserving {settings : Settings} (described : settings.IsDescribed)
    (named : around.tree.root.isWellNamed = true) {catalog : Catalog}
    (surveyed : Surveyed ((reserving around readings request []).contextWith place settings) catalog)
    (reserved : List String) :
    ∃ fewer, Surveyed ((reserving around readings request reserved).contextWith place settings) fewer
      ∧ fewer.files = catalog.files.filter fun record => !reserved.any (hidesPath · record.path) := by
  obtain ⟨interval, given⟩ := described.numbers.interval
  obtain ⟨paths, ofSettings⟩ := described.excludePaths
  have prepared : ∀ reserved,
      Cataloguing.preparation ((reserving around readings request reserved).contextWith place settings)
        = .ok (interval, exclusionPatterns ((request.excluded ++ reserved) ++ paths)) :=
    fun reserved => Cataloguing.preparation_eq given rfl ofSettings
  obtain ⟨_, _, preparedNow, found⟩ := surveyed
  rw [prepared] at preparedNow
  cases preparedNow
  have adds : ∀ pattern, pattern ∈ (request.excluded ++ reserved) ++ paths
      ↔ pattern ∈ (request.excluded ++ []) ++ paths ∨ pattern ∈ reserved := by
    intro pattern
    simp only [List.append_nil, List.mem_append]
    tauto
  obtain ⟨fewer, foundFewer, files⟩ := Catalog.survey_excluding_more adds named found
  exact ⟨fewer, ⟨interval, _, prepared reserved, foundFewer⟩, files⟩

end

/-- For a report inside a root that starts with no tilde, the way down to the report is reserved. Whatever
is reserved, a request with a report in a file catalogues what the request without it does, less the files
whose path contains what is reserved, and both put out what they report. -/
theorem output_hides_paths_containing_it {around : Surroundings} {readings : List Quantity}
    {request : AnalyzeRequest} {a : Analysis} {report : Entries} {out : String} {place : List String}
    (notAsked : request.output = .notAsked)
    (requested : requestedAnalysis around readings request = .ok a)
    (registered : a.around.registrations = builtinRegistrations)
    (named : a.around.tree.root.isWellNamed = true) (plainHere : "." ∉ a.around.here)
    (tells : Session.TellsTime a.session.times) (root : checkRoot a.around request.path = .ok place)
    (returned : a.run.result = .ok report) (catalogued : (report.lookup "file_system").isSome = true) :
    (∀ names, homeStart? request.path = none → placeOf a.around out = .ok (some (place ++ names)) →
      names ≠ [] → reservedPaths a.around request.path (some out) = .ok [Text.join "/" names])
    ∧ ∀ reserved, reservedPaths a.around request.path (some out) = .ok reserved →
      ∃ (b : Analysis) (reportOf : Entries) (catalog fewer : Catalog),
        requestedAnalysis around readings { request with output := .path out } = .ok b
        ∧ b.run.result = .ok reportOf
        ∧ report.lookup "file_system" = some catalog.toValue
        ∧ reportOf.lookup "file_system" = some fewer.toValue
        ∧ fewer.files
          = catalog.files.filter (fun record => !reserved.any (hidesPath · record.path))
        ∧ (∀ outcome, analyze around readings request = .ok outcome → PutsOut request report outcome)
        ∧ ∀ outcome, analyze around readings { request with output := .path out } = .ok outcome →
          PutsOut { request with output := .path out } reportOf outcome := by
  refine ⟨fun names noTilde inside below => reservedPaths_inside plainHere noTilde root inside below,
    fun reserved isReserved => ?_⟩
  have putsOut := fun outcome => @putsOut_of_analyze _ _ _ _ _ outcome requested returned
  obtain ⟨opened, rfl, withOutput⟩ := requestedAnalysis_eq_ok notAsked requested
  have requestedToo := withOutput out reserved isReserved
  -- What the first analysis has come to, the second one comes to as well.
  obtain ⟨context, stages, session, begins⟩ := Analysis.exists_comesTo_of_ok returned
  obtain ⟨_, settings, sameRoot, chosen, chosenStages, isContext⟩ := id begins
  obtain rfl := Except.ok.inj (root.symm.trans sameRoot)
  obtain ⟨known, rfl⟩ := (chooseStages_builtin_iff registered).mp chosenStages
  have described := isDescribed_of_chooseSettings chosen
  have inspects : (reserving opened readings request []).Inspects context settings.enabledBuiltin report :=
    ⟨⟨session, begins⟩, fun stage member => (List.mem_filter.mp member).1, returned⟩
  obtain ⟨records, issues, recorded, -⟩ := inspects.exists_issues
  cases recorded with
  | missing noFiles => simp [noFiles] at catalogued
  | @surveyed catalog surveyed files =>
    subst isContext
    obtain ⟨fewer, surveyedFewer, filtered⟩ :=
      surveyed_reserving described named surveyed reserved
    have standard := reserving_standard registered named root tells reserved
    obtain ⟨reportOf, inspectsToo, -⟩ := standard.exists_report chosen known
    refine ⟨_, reportOf, catalog, fewer, requestedToo, inspectsToo.returned, files, ?_, filtered, putsOut,
      ?_⟩
    · exact inspectsToo.lookup_catalog (inspects.cataloguing_mem catalogued) surveyedFewer
    · exact fun outcome carriedOut => putsOut_of_analyze requestedToo inspectsToo.returned carriedOut

def besideReport : Surroundings where
  tree := ⟨"/srv", .directory [("app",
    .directory [("docs", .directory [("report.json", .file ⟨#[123, 125]⟩ 0)])])]⟩
  here := []
  home := fun _ => none
  projectType := none
  now := 0
  analyzedAt := "now"
  registrations := builtinRegistrations
  readYaml := Yaml.Document.ofText

theorem report_above_hides_report_in_folder :
    ∃ (a b : Analysis) (report reportOf : Entries) (catalog fewer : Catalog),
      requestedAnalysis besideReport [.whole 0] { path := "/srv/app" } = .ok a
      ∧ a.run.result = .ok report
      ∧ requestedAnalysis besideReport [.whole 0]
          { path := "/srv/app", output := .path "/srv/app/report.json" } = .ok b
      ∧ b.run.result = .ok reportOf
      ∧ report.lookup "file_system" = some catalog.toValue
      ∧ reportOf.lookup "file_system" = some fewer.toValue
      ∧ fewer.files = catalog.files.filter fun record => !hidesPath "report.json" record.path := by
  let request : AnalyzeRequest := { path := "/srv/app" }
  have requested : requestedAnalysis besideReport [.whole 0] request
      = .ok (reserving besideReport [.whole 0] request []) := rfl
  have shown : ((reserving besideReport [.whole 0] request []).shown [.key "file_system"]).isSome = true := by
    decide +kernel
  obtain ⟨report, returned⟩ := Analysis.exists_report_of_shown shown
  have catalogued : (report.lookup "file_system").isSome = true := by
    rw [Analysis.shown_of_ok returned] at shown
    simpa [Value.at?, Value.turn?, Value.get?] using shown
  have tells : Session.TellsTime (reserving besideReport [.whole 0] request []).session.times := by
    simp only [Session.TellsTime, Analysis.session, reserving, Session.times, Session.start,
      List.isEmpty_cons, Bool.false_eq_true, ↓reduceIte, List.mem_singleton, forall_eq]
    exact ⟨0, rfl⟩
  have inside : placeOf besideReport "/srv/app/report.json" = .ok (some (["app"] ++ ["report.json"])) := by
    decide +kernel
  obtain ⟨reserves, hides⟩ := output_hides_paths_containing_it rfl requested rfl (by decide +kernel)
    (by simp [besideReport, reserving]) tells (checkRoot_app rfl) returned catalogued
  have reserved := reserves ["report.json"] (by decide +kernel) inside (by simp)
  obtain ⟨b, reportOf, catalog, fewer, requestedToo, returnedToo, files, filesOf, filtered, -⟩ :=
    hides _ reserved
  exact ⟨_, b, report, reportOf, catalog, fewer, requested, returned, requestedToo, returnedToo, files,
    filesOf, by simpa [Text.join] using filtered⟩

def cataloguedPaths (around : Surroundings) (readings : List Quantity) (request : AnalyzeRequest) :
    Option (List String) := do
  let a ← (requestedAnalysis around readings request).toOption
  match ← a.shown [.key "file_system", .key "files"] with
  | .list files => return files.filterMap fun file => (file.get? "path").bind Value.str?
  | _ => none

/-- The report of a folder is not the one that is written, and yet it is hidden. -/
theorem written_report_is_not_all_that_is_hidden :
    cataloguedPaths besideReport [.whole 0] { path := "/srv/app", output := .path "/srv/app/report.json" }
      ≠ (cataloguedPaths besideReport [.whole 0] { path := "/srv/app" }).map
        fun paths => paths.filter (· != "report.json") := by
  decide +kernel

end Command

end Surveyor
