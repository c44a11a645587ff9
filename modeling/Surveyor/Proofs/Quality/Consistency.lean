import Mathlib.Algebra.GroupWithZero.Nat
import Surveyor.Proofs.Quality.DeadCode
import Surveyor.Proofs.Quality.Origins
import Surveyor.Proofs.Value.Publish

/-! # Published findings agree with each other

The findings are published several times: by category, all together by severity, and as numbers in a
summary. Sorting by severity is stable, every finding bears the kind of its category, and no search
gives a severity that is not listed; so each of the three can be told from the other two.
-/

namespace Surveyor

/-! ## Sorting by severity -/

namespace Issue

/-- Is the one finding listed before the other, or either way? -/
def ranksUpTo (a b : Issue) : Bool := decide (severityRank a.severity ≤ severityRank b.severity)

theorem ranksUpTo_trans (a b c : Issue) (first : a.ranksUpTo b = true) (second : b.ranksUpTo c = true) :
    a.ranksUpTo c = true := by
  simp only [ranksUpTo, decide_eq_true_eq] at first second ⊢
  exact Nat.le_trans first second

theorem ranksUpTo_total (a b : Issue) : (a.ranksUpTo b || b.ranksUpTo a) = true := by
  simp only [ranksUpTo, Bool.or_eq_true, decide_eq_true_eq]
  exact Nat.le_total _ _

theorem pairwise_sortBySeverity (issues : List Issue) :
    (sortBySeverity issues).Pairwise fun a b => severityRank a.severity ≤ severityRank b.severity := by
  have sorted : (issues.mergeSort ranksUpTo).Pairwise fun a b => a.ranksUpTo b = true :=
    List.pairwise_mergeSort ranksUpTo_trans ranksUpTo_total issues
  exact sorted.imp of_decide_eq_true

theorem filter_sortBySeverity (issues : List Issue) (severity : String) :
    (sortBySeverity issues).filter (·.severity == severity)
      = issues.filter (·.severity == severity) := by
  -- The findings of one severity are a sorted part of the list, and a stable sort keeps those.
  have sorted : (issues.filter (·.severity == severity)).Pairwise fun a b => a.ranksUpTo b = true := by
    rw [List.pairwise_filter]
    apply List.pairwise_of_forall
    intro a b hasFirst hasSecond
    simp [ranksUpTo, eq_of_beq hasFirst, eq_of_beq hasSecond]
  have kept : (issues.filter (·.severity == severity)).Sublist (sortBySeverity issues) :=
    List.sublist_mergeSort ranksUpTo_trans ranksUpTo_total sorted List.filter_sublist
  have inFilter := kept.filter (·.severity == severity)
  rw [List.filter_filter] at inFilter
  simp only [Bool.and_self] at inFilter
  exact (inFilter.eq_of_length ((List.mergeSort_perm _ _).symm.filter _).length_eq).symm

end Issue

/-! ## Categories -/

def categoryKinds : List (String × String) :=
  [("unused_functions", "unused_function"), ("unused_methods", "unused_method"),
    ("unused_classes", "unused_class"), ("unused_imports", "unused_import"),
    ("unused_dependencies", "unused_dependency"), ("large_functions", "large_function"),
    ("commented_code", "commented_code")]

namespace QualityFindings

def foundAs (f : QualityFindings) (category : String) : List Issue :=
  (f.categories.lookup category).getD []

/-- The findings of each category are of its kind and of a listed severity. -/
structure Sorted (f : QualityFindings) : Prop where
  kind : ∀ c ∈ categoryKinds, ∀ issue ∈ f.foundAs c.1, issue.kind = c.2
  severity : ∀ c ∈ categoryKinds, ∀ issue ∈ f.foundAs c.1, issue.severity ∈ Issue.severities

/-- A category is well sorted if its findings are of one kind and of listed severities. -/
theorem sorted_of_forall {f : QualityFindings}
    (each : ∀ c ∈ categoryKinds, ∀ issue ∈ f.foundAs c.1,
      issue.kind = c.2 ∧ issue.severity ∈ Issue.severities) : f.Sorted :=
  ⟨fun c inKinds issue member => (each c inKinds issue member).1,
    fun c inKinds issue member => (each c inKinds issue member).2⟩

theorem sorted_of_ofInput {snapshot : Value} {i : QualityInput} {references : References}
    {settings : Settings} {findings : QualityFindings}
    (read : QualityInput.ofSnapshot snapshot = .ok i)
    (found : ofInput i references settings = .ok findings) : findings.Sorted := by
  have kinds : (∀ symbol ∈ i.declared.functions, symbol.kind = .function)
      ∧ ∀ symbol ∈ i.declared.methods, symbol.kind = .method := by
    simp only [QualityInput.ofSnapshot, bind_eq_ok, pure_eq_ok] at read
    obtain ⟨_, -, _, -, outlines, -, _, -, _, -, declared, ofOutlines, rfl⟩ := read
    exact DeclaredSymbols.kind_of_ofOutlines ofOutlines
  simp only [ofInput, bind_eq_ok, pure_eq_ok] at found
  obtain ⟨functions, foundFunctions, methods, foundMethods, classes, foundClasses, imports,
    foundImports, dependencies, foundDependencies, large, foundLarge, comments, foundComments,
    complexity, -, rfl⟩ := found
  -- Every category makes its findings of one kind, functions and methods by that of the symbol.
  apply sorted_of_forall
  simp only [categoryKinds, List.mem_cons, List.not_mem_nil, or_false]
  rintro c (rfl | rfl | rfl | rfl | rfl | rfl | rfl) issue member
  · obtain ⟨symbol, inSymbols, rfl, -⟩ := mem_unusedSymbols foundFunctions member
    have isFunction := kinds.1 symbol inSymbols
    exact ⟨by rw [unusedSymbol, isFunction]; rfl, by simp [unusedSymbol, Issue.severities]⟩
  · obtain ⟨symbol, inSymbols, rfl, -⟩ := mem_unusedSymbols foundMethods member
    have isMethod := kinds.2 symbol inSymbols
    exact ⟨by rw [unusedSymbol, isMethod]; rfl, by simp [unusedSymbol, Issue.severities]⟩
  · obtain ⟨symbol, -, rfl⟩ := exists_of_mem_unusedClasses foundClasses member
    refine ⟨rfl, ?_⟩
    simp only [unusedClass, Issue.severities]
    split <;> simp
  · cases importFinding_of_mem foundImports member
    exact ⟨rfl, by simp [unusedImport, Issue.severities]⟩
  · obtain ⟨_, _, d, -, -, -, rfl⟩ := exists_of_mem_unusedDependencies foundDependencies member
    exact ⟨rfl, by simp [unusedDependency, Issue.severities]⟩
  · cases sizeFinding_of_mem foundLarge member
    refine ⟨rfl, ?_⟩
    simp only [largeFunction, Issue.severities]
    split <;> simp
  · obtain ⟨_, -, _, foundHere, inFile⟩ := exists_of_mem_flatten foundComments member
    obtain ⟨run, -, rfl⟩ := exists_of_mem_commentedCode foundHere inFile
    exact ⟨rfl, by simp [CommentRun.issue, Issue.severities]⟩

theorem issues_perm_found (f : QualityFindings) :
    f.issues.Perm (categoryKinds.flatMap fun c => f.foundAs c.1) :=
  List.mergeSort_perm _ _

namespace Sorted

variable {f : QualityFindings}

/-- The kind of a finding tells its category. -/
theorem filter_kind (sorted : f.Sorted) {category kind : String}
    (listed : (category, kind) ∈ categoryKinds) :
    (categoryKinds.flatMap fun c => f.foundAs c.1).filter (·.kind == kind) = f.foundAs category := by
  have each : ∀ c ∈ categoryKinds,
      (f.foundAs c.1).filter (·.kind == kind) = if c.2 == kind then f.foundAs c.1 else [] := by
    intro c inKinds
    split
    · next same =>
      rw [List.filter_eq_self]
      intro issue member
      rw [sorted.kind c inKinds issue member]
      exact same
    · next different =>
      rw [List.filter_eq_nil_iff]
      intro issue member
      rw [sorted.kind c inKinds issue member]
      exact different
  have parts : categoryKinds.flatMap (fun c => (f.foundAs c.1).filter (·.kind == kind))
      = categoryKinds.flatMap fun c => if c.2 == kind then f.foundAs c.1 else [] := by
    rw [List.flatMap_def, List.flatMap_def, List.map_congr_left each]
  rw [List.filter_flatMap, parts]
  -- No two categories have findings of one kind.
  simp only [categoryKinds, List.mem_cons, Prod.mk.injEq, List.not_mem_nil, or_false] at listed
  rcases listed with ⟨rfl, rfl⟩ | ⟨rfl, rfl⟩ | ⟨rfl, rfl⟩ | ⟨rfl, rfl⟩ | ⟨rfl, rfl⟩ | ⟨rfl, rfl⟩ | ⟨rfl, rfl⟩
  all_goals simp [categoryKinds]

theorem filter_issues (sorted : f.Sorted) {category kind : String}
    (listed : (category, kind) ∈ categoryKinds) (severity : String) :
    f.issues.filter (fun issue => issue.kind == kind && issue.severity == severity)
      = (f.foundAs category).filter (·.severity == severity) := by
  have bySeverity : f.issues.filter (·.severity == severity)
      = (categoryKinds.flatMap fun c => f.foundAs c.1).filter (·.severity == severity) :=
    Issue.filter_sortBySeverity _ severity
  rw [← List.filter_filter, bySeverity, List.filter_filter, ← sorted.filter_kind listed,
    List.filter_filter]
  simp only [Bool.and_comm]

theorem severity_of_mem_issues (sorted : f.Sorted) {issue : Issue} (member : issue ∈ f.issues) :
    issue.severity ∈ Issue.severities := by
  obtain ⟨c, inKinds, inCategory⟩ := List.mem_flatMap.mp (f.issues_perm_found.mem_iff.mp member)
  exact sorted.severity c inKinds issue inCategory

end Sorted

end QualityFindings

/-- Every member of the list is counted under one of the severities. -/
theorem sum_countP_severity {issues : List Issue}
    (listed : ∀ issue ∈ issues, issue.severity ∈ Issue.severities) :
    (Issue.severities.map fun severity => issues.countP (·.severity == severity)).sum
      = issues.length := by
  induction issues with
  | nil => rfl
  | cons issue rest inductionHypothesis =>
    have rest_ := inductionHypothesis fun later inRest => listed later (by simp [inRest])
    have here := listed issue (by simp)
    simp only [Issue.severities, List.mem_cons, List.not_mem_nil, or_false] at here
    simp only [Issue.severities, List.map_cons, List.map_nil, List.sum_cons, List.sum_nil,
      List.countP_cons, List.length_cons] at rest_ ⊢
    rcases here with isCritical | isWarning | isInfo
    · simp only [isCritical]
      simp
      omega
    · simp only [isWarning]
      simp
      omega
    · simp only [isInfo]
      simp
      omega

/-! ## The published form -/

def Value.hasText (key text : String) (v : Value) : Bool := (v.get? key).bind Value.str? == some text

def Value.severityRank (v : Value) : Nat :=
  Issue.severityRank (((v.get? "severity").bind Value.str?).getD "")

namespace Issue

theorem get?_toValue (issue : Issue) {key : String} {field : Value}
    (here : List.lookup key [("name", issue.name), ("kind", .str issue.kind),
      ("severity", .str issue.severity), ("file", issue.file), ("line", issue.line),
      ("tag", .str issue.tag), ("description", .str issue.description)] = some field) :
    issue.toValue.get? key = some field := by
  obtain ⟨entries, published, kept⟩ := exists_publish
    [("name", issue.name), ("kind", .str issue.kind), ("severity", .str issue.severity),
      ("file", issue.file), ("line", issue.line), ("tag", .str issue.tag),
      ("description", .str issue.description)] issue.extra
  rw [toValue, published]
  exact kept key field here

@[simp]
theorem hasText_kind_toValue (issue : Issue) (kind : String) :
    issue.toValue.hasText "kind" kind = (issue.kind == kind) := by
  rw [Value.hasText, issue.get?_toValue rfl]
  rfl

@[simp]
theorem hasText_severity_toValue (issue : Issue) (severity : String) :
    issue.toValue.hasText "severity" severity = (issue.severity == severity) := by
  rw [Value.hasText, issue.get?_toValue rfl]
  rfl

@[simp]
theorem severityRank_toValue (issue : Issue) :
    issue.toValue.severityRank = severityRank issue.severity := by
  rw [Value.severityRank, issue.get?_toValue rfl]
  rfl

end Issue

/-- Published findings that agree with each other: `issues` are all of them, and `found` gives those
of each category. -/
structure Agrees (quality : Value) (issues : List Value) (found : String → List Value) : Prop where
  issuesListed : quality.at? [.key "issues"] = some (.list issues)
  categoriesListed : ∀ c ∈ categoryKinds, quality.at? [.key c.1] = some (.list (found c.1))
  /-- All findings together are those of the categories. -/
  gathered : issues.Perm (categoryKinds.flatMap fun c => found c.1)
  /-- The critical ones come first, then the warnings, then the notes, and there are no others. -/
  ranked : issues.Pairwise fun a b => a.severityRank ≤ b.severityRank
  severities : ∀ issue ∈ issues, ∃ severity ∈ Issue.severities, issue.hasText "severity" severity
  /-- The findings of a category with one severity are listed in the order of the category. -/
  inOrder : ∀ c ∈ categoryKinds, ∀ severity,
    issues.filter (fun issue => issue.hasText "kind" c.2 && issue.hasText "severity" severity)
      = (found c.1).filter (·.hasText "severity" severity)
  total : quality.at? [.key "summary", .key "total_issues"] = some (.ofNat issues.length)
  counts : ∀ c ∈ categoryKinds,
    quality.at? [.key "summary", .key c.1] = some (.ofNat (found c.1).length)
  sumOfCounts : (categoryKinds.map fun c => (found c.1).length).sum = issues.length
  bySeverity : quality.at? [.key "summary", .key "by_severity"]
    = some (.map (Issue.severities.map fun severity =>
        (severity, .ofNat (issues.countP (·.hasText "severity" severity)))))
  sumBySeverity : (Issue.severities.map fun severity =>
    issues.countP (·.hasText "severity" severity)).sum = issues.length

namespace QualityFindings

theorem Sorted.agrees {f : QualityFindings} (sorted : f.Sorted) :
    Agrees f.toValue (f.issues.map Issue.toValue)
      (fun category => (f.foundAs category).map Issue.toValue) where
  issuesListed := rfl
  categoriesListed := by
    simp only [categoryKinds, List.forall_mem_cons]
    exact ⟨rfl, rfl, rfl, rfl, rfl, rfl, rfl, by simp⟩
  gathered := by
    have all := f.issues_perm_found.map Issue.toValue
    rwa [List.map_flatMap] at all
  ranked := by
    rw [List.pairwise_map]
    simp only [Issue.severityRank_toValue]
    exact Issue.pairwise_sortBySeverity _
  severities := by
    intro published member
    obtain ⟨issue, inIssues, rfl⟩ := List.mem_map.mp member
    exact ⟨issue.severity, sorted.severity_of_mem_issues inIssues, by simp⟩
  inOrder := by
    intro c inKinds severity
    rw [List.filter_map, List.filter_map]
    simp only [Function.comp_def, Issue.hasText_kind_toValue, Issue.hasText_severity_toValue]
    rw [sorted.filter_issues inKinds severity]
  total := by
    rw [List.length_map]
    rfl
  counts := by
    simp only [List.length_map, categoryKinds, List.forall_mem_cons]
    exact ⟨rfl, rfl, rfl, rfl, rfl, rfl, rfl, by simp⟩
  sumOfCounts := by
    simp only [List.length_map]
    rw [f.issues_perm_found.length_eq, List.length_flatMap]
  bySeverity := by
    simp only [List.countP_map, Function.comp_def, Issue.hasText_severity_toValue]
    rfl
  sumBySeverity := by
    simp only [List.countP_map, Function.comp_def, Issue.hasText_severity_toValue, List.length_map]
    exact sum_countP_severity fun issue member => sorted.severity_of_mem_issues member

/-- For every snapshot the stage fails or publishes findings that agree with each other; for one that
shows a project it does publish them. -/
theorem run_agrees (context : StageContext) (snapshot : Value) :
    ((∃ failure, (run context snapshot).result = .failed failure)
        ∨ ∃ quality issues found, (run context snapshot).result = .delta [("code_quality", quality)]
          ∧ Agrees quality issues found)
      ∧ ∀ sources, Shows snapshot sources → context.settings.NumbersGiven →
        ∃ delta, (run context snapshot).result = .delta delta := by
  constructor
  · rcases run_cases context snapshot with failed | ⟨i, references, findings, read, found, result⟩
    · exact .inl failed
    · exact .inr ⟨_, _, _, result, (sorted_of_ofInput read found).agrees⟩
  · intro sources shows_ numbers
    obtain ⟨cut, -, reports⟩ := run_reports shows_ numbers
    obtain ⟨fields, _, result, -⟩ := reports ""
    exact ⟨_, result⟩

theorem deadFunction_agrees :
    ∃ quality issues found,
      (run plainContext (snapshotOf [deadFunction])).result = .delta [("code_quality", quality)]
        ∧ Agrees quality issues found := by
  obtain ⟨agrees, published⟩ := run_agrees plainContext (snapshotOf [deadFunction])
  obtain ⟨delta, result⟩ := published [deadFunction]
    (shows_snapshotOf (by simp) (by simp [deadFunction])) ⟨⟨_, rfl⟩, ⟨_, rfl⟩, ⟨_, rfl⟩, ⟨_, rfl⟩⟩
  rcases agrees with ⟨failure, failed⟩ | agrees
  · cases result.symm.trans failed
  · exact agrees

end QualityFindings

end Surveyor
