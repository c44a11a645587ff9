import Mathlib.Data.List.Nodup
import Surveyor.Inspection.StackProfile

/-! # The frameworks of a profile

Frameworks come from the packages of two manifests, from the names of files and from the user. Those
that are found are added one by one, and only under a new name, so every list on the way is a
`IsListing` of unmarked frameworks with names of their own out of the tables. No two names of the tables
differ by case alone, and so a hint meets at most one of them (`markFirst_eq`).

`frameworks_listed_once` says what this means for a profile, and that without one the stage fails.
-/

namespace Surveyor

namespace Framework

/-- Adds a framework unless one of its name is known. -/
def addNew (found : List Framework) (f : Framework) : List Framework :=
  if found.any (·.name == f.name) then found else found ++ [f]

def declared? (dependencies : Entries) (source : String) (entry : String × String) : Option Framework :=
  ((dependencies.lookup entry.1).filter Value.isGiven).map fun version =>
    ⟨entry.2, some version, source, false⟩

def indicated? (fileNames : List String) (entry : String × String) : Option Framework :=
  if fileNames.contains entry.1 && frameworkIndicators.contains entry.2 then
    some ⟨entry.2, none, entry.1, false⟩
  else none

theorem ofDependencies_eq (table : List (String × String)) (dependencies : Entries) (source : String) :
    ofDependencies table dependencies source
      = (table.filterMap (declared? dependencies source)).foldl addNew [] := by
  rw [ofDependencies, List.foldl_filterMap]
  congr 1
  funext found entry
  cases under : dependencies.lookup entry.1 with
  | none => simp only [declared?, under, Option.filter_none, Option.map_none]
  | some version =>
    cases given : version.isGiven with
    | false => simp [declared?, under, Option.filter_some, given]
    | true =>
      simp only [declared?, under, Option.filter_some, given, Bool.true_and, ↓reduceIte, Option.map_some,
        addNew]
      cases found.any (·.name == entry.2) <;> rfl

theorem addIndicated_eq (fileNames : List String) (known : List Framework) :
    addIndicated fileNames known
      = (configIndicators.filterMap (indicated? fileNames)).foldl addNew known := by
  rw [addIndicated, List.foldl_filterMap]
  congr 1
  funext found entry
  cases shows_ : fileNames.contains entry.1 && frameworkIndicators.contains entry.2 with
  | false => simp only [indicated?, shows_, Bool.false_and, Bool.false_eq_true, ↓reduceIte]
  | true =>
    simp only [indicated?, shows_, Bool.true_and, ↓reduceIte, addNew]
    cases found.any (·.name == entry.2) <;> rfl

/-! ## Lists of frameworks that are found -/

/-- Unmarked frameworks with distinct names, all among the given ones. -/
structure IsListing (names : List String) (frameworks : List Framework) : Prop where
  distinct : (frameworks.map (·.name)).Nodup
  named : ∀ f ∈ frameworks, f.name ∈ names
  unmarked : ∀ f ∈ frameworks, f.isPrimary = false

namespace IsListing

variable {names others : List String} {found frameworks : List Framework}

theorem nil : IsListing names [] := ⟨List.nodup_nil, by simp, by simp⟩

theorem widen (listing : IsListing names found) (within : names ⊆ others) : IsListing others found :=
  ⟨listing.distinct, fun f member => within (listing.named f member), listing.unmarked⟩

theorem append (listing : IsListing names found) (listingToo : IsListing others frameworks)
    (apart : ∀ name ∈ names, name ∉ others) : IsListing (names ++ others) (found ++ frameworks) where
  distinct := by
    rw [List.map_append, List.nodup_append]
    refine ⟨listing.distinct, listingToo.distinct, ?_⟩
    rintro a inFound b inFrameworks rfl
    obtain ⟨f, member, rfl⟩ := List.mem_map.mp inFound
    obtain ⟨g, memberToo, same⟩ := List.mem_map.mp inFrameworks
    exact apart f.name (listing.named f member) (same ▸ listingToo.named g memberToo)
  named := by
    simp only [List.mem_append]
    exact fun f member => member.imp (listing.named f) (listingToo.named f)
  unmarked := by
    simp only [List.mem_append]
    exact fun f member => member.elim (listing.unmarked f) (listingToo.unmarked f)

theorem addNew (listing : IsListing names found) {f : Framework} (named : f.name ∈ names)
    (unmarked : f.isPrimary = false) : IsListing names (addNew found f) := by
  unfold Framework.addNew
  split
  · exact listing
  · next new =>
    refine ⟨?_, ?_, ?_⟩
    · rw [List.map_append, List.map_singleton, List.nodup_append]
      refine ⟨listing.distinct, List.nodup_singleton _, ?_⟩
      rintro a inFound b isName rfl
      obtain ⟨g, member, rfl⟩ := List.mem_map.mp inFound
      exact new (List.any_eq_true.mpr ⟨g, member, by simpa using isName⟩)
    · simpa [or_imp, forall_and] using ⟨listing.named, named⟩
    · simpa [or_imp, forall_and] using ⟨listing.unmarked, unmarked⟩

/-- Adding any number of frameworks keeps a listing, by induction on them. -/
theorem foldl_addNew (listing : IsListing names found)
    (each : ∀ f ∈ frameworks, f.name ∈ names ∧ f.isPrimary = false) :
    IsListing names (frameworks.foldl Framework.addNew found) := by
  induction frameworks generalizing found with
  | nil => exact listing
  | cons f rest inductionHypothesis =>
    obtain ⟨⟨named, unmarked⟩, eachLater⟩ := List.forall_mem_cons.mp each
    exact inductionHypothesis (listing.addNew named unmarked) eachLater

end IsListing

theorem isListing_ofDependencies (table : List (String × String)) (dependencies : Entries)
    (source : String) : IsListing (table.map (·.2)) (ofDependencies table dependencies source) := by
  rw [ofDependencies_eq]
  refine IsListing.nil.foldl_addNew fun f member => ?_
  obtain ⟨entry, inTable, isDeclared⟩ := List.mem_filterMap.mp member
  obtain ⟨_, -, rfl⟩ := Option.map_eq_some_iff.mp isDeclared
  exact ⟨List.mem_map_of_mem inTable, rfl⟩

theorem IsListing.addIndicated {names : List String} {known : List Framework}
    (listing : IsListing names known) (fileNames : List String) :
    IsListing (names ++ frameworkIndicators) (addIndicated fileNames known) := by
  rw [addIndicated_eq]
  refine (listing.widen (List.subset_append_left _ _)).foldl_addNew fun f member => ?_
  obtain ⟨entry, -, isIndicated⟩ := List.mem_filterMap.mp member
  unfold indicated? at isIndicated
  split at isIndicated
  · next shows_ =>
    cases isIndicated
    simp only [Bool.and_eq_true, List.contains_iff_mem] at shows_
    exact ⟨List.mem_append_right _ shows_.2, rfl⟩
  · cases isIndicated

/-! ## Names -/

def tableNames : List String :=
  scriptFrameworks.map (·.2) ++ phpFrameworks.map (·.2) ++ frameworkIndicators

theorem tables_apart : ∀ name ∈ scriptFrameworks.map (·.2), name ∉ phpFrameworks.map (·.2) := by
  decide +kernel

/-- No two names of the tables differ by case alone. -/
theorem eq_of_lower_eq {a b : String} (inTables : a ∈ tableNames) (inTablesToo : b ∈ tableNames)
    (same : lower a = lower b) : a = b := by
  have distinct : (tableNames.eraseDups.map lower).Nodup := by decide +kernel
  exact List.inj_on_of_nodup_map distinct (List.mem_eraseDups.mpr inTables)
    (List.mem_eraseDups.mpr inTablesToo) same

theorem IsListing.nodup_lower {frameworks : List Framework} (listing : IsListing tableNames frameworks) :
    (frameworks.map fun f => lower f.name).Nodup := by
  have lowered := listing.distinct.map_on fun a inNames b inNamesToo => by
    obtain ⟨f, member, rfl⟩ := List.mem_map.mp inNames
    obtain ⟨g, memberToo, rfl⟩ := List.mem_map.mp inNamesToo
    exact eq_of_lower_eq (listing.named f member) (listing.named g memberToo)
  rwa [List.map_map] at lowered

/-! ## Hints -/

/-- The name of the framework that a hint asks for. An empty hint asks for none, and so does the word
`none` in any case. -/
def hintedName? : Value → Option String
  | .str name => if name.isEmpty || lower name == "none" then none else some name
  | _ => none

def marked (name : String) (f : Framework) : Framework :=
  if lower f.name = lower name then { f with isPrimary := true } else f

theorem name_marked (name : String) (f : Framework) : (f.marked name).name = f.name := by
  unfold marked
  split <;> rfl

theorem isPrimary_marked {f : Framework} (unmarked : f.isPrimary = false) (name : String) :
    (f.marked name).isPrimary = decide (lower f.name = lower name) := by
  by_cases same : lower f.name = lower name
  · simp [marked, same]
  · simp [marked, same, unmarked]

theorem marked_eq_self {name : String} {f : Framework} (different : lower f.name ≠ lower name) :
    f.marked name = f :=
  if_neg different

theorem markFirst_eq_none {name : String} {frameworks : List Framework}
    (noneNamed : ∀ f ∈ frameworks, lower f.name ≠ lower name) : markFirst name frameworks = none := by
  induction frameworks with
  | nil => rfl
  | cons f rest inductionHypothesis =>
    obtain ⟨different, noneLater⟩ := List.forall_mem_cons.mp noneNamed
    have passesOver : ¬ (lower f.name == lower name) = true := by simpa using different
    rw [markFirst, if_neg passesOver, inductionHypothesis noneLater, Option.map_none]

/-- Where names differ up to case, marking the first framework of a name is marking all of them. -/
theorem markFirst_eq {name : String} {frameworks : List Framework}
    (distinct : (frameworks.map fun f => lower f.name).Nodup)
    (isNamed : ∃ f ∈ frameworks, lower f.name = lower name) :
    markFirst name frameworks = some (frameworks.map (marked name)) := by
  induction frameworks with
  | nil => simp at isNamed
  | cons f rest inductionHypothesis =>
    obtain ⟨new, distinctRest⟩ := List.nodup_cons.mp distinct
    by_cases same : lower f.name = lower name
    · -- The others have other names, so that they are left as they are.
      have others : rest.map (marked name) = rest := by
        refine (List.map_congr_left fun g member => marked_eq_self ?_).trans (List.map_id rest)
        intro sameToo
        exact new (List.mem_map.mpr ⟨g, member, sameToo.trans same.symm⟩)
      rw [markFirst, if_pos (by simpa using same), List.map_cons, others, marked, if_pos same]
    · have isNamedLater : ∃ g ∈ rest, lower g.name = lower name := by
        obtain ⟨g, member, sameToo⟩ := isNamed
        rcases List.mem_cons.mp member with rfl | inRest
        · exact absurd sameToo same
        · exact ⟨g, inRest, sameToo⟩
      rw [markFirst, if_neg (by simpa using same), inductionHypothesis distinctRest isNamedLater,
        Option.map_some, List.map_cons, marked_eq_self same]

/-- Where names differ up to case, marking a name marks one framework. -/
theorem exists_filter_isPrimary {name : String} {frameworks : List Framework}
    (distinct : (frameworks.map fun f => lower f.name).Nodup)
    (unmarked : ∀ f ∈ frameworks, f.isPrimary = false)
    (isNamed : ∃ f ∈ frameworks, lower f.name = lower name) :
    ∃ f, (frameworks.map (marked name)).filter (·.isPrimary) = [f] ∧ lower f.name = lower name := by
  obtain ⟨f, member, same⟩ := isNamed
  obtain ⟨before, after, rfl⟩ := List.append_of_mem member
  rw [List.map_append, List.map_cons, List.nodup_middle, List.nodup_cons, List.mem_append, not_or] at distinct
  have noneMarked : ∀ others : List Framework, (∀ g ∈ others, g.isPrimary = false) →
      lower f.name ∉ others.map (fun g => lower g.name) →
        (others.map (marked name)).filter (·.isPrimary) = [] := by
    intro others unmarkedOthers otherNames
    rw [List.filter_eq_nil_iff, List.forall_mem_map]
    intro g inOthers isMarked
    rw [isPrimary_marked (unmarkedOthers g inOthers), decide_eq_true_eq] at isMarked
    exact otherNames (List.mem_map.mpr ⟨g, inOthers, isMarked.trans same.symm⟩)
  have isMarked : (f.marked name).isPrimary = true := by
    rw [isPrimary_marked (unmarked f member), decide_eq_true_eq]
    exact same
  refine ⟨f.marked name, ?_, by rw [name_marked, same]⟩
  rw [List.map_append, List.map_cons, List.filter_append, List.filter_cons_of_pos isMarked,
    noneMarked before (fun g inBefore => unmarked g (by simp [inBefore])) distinct.1.1,
    noneMarked after (fun g inAfter => unmarked g (by simp [inAfter])) distinct.1.2, List.nil_append]

/-- The frameworks after a hint: the one of its name is marked, or a new one comes first. -/
inductive FollowsHint (name : String) (plain : List Framework) : List Framework → Prop
  | known (isNamed : ∃ f ∈ plain, lower f.name = lower name) :
      FollowsHint name plain (plain.map (marked name))
  | new (noneNamed : ∀ f ∈ plain, lower f.name ≠ lower name) :
      FollowsHint name plain (⟨name, none, "user-specified", true⟩ :: plain)

theorem followsHint_markFirst {plain : List Framework} (listing : IsListing tableNames plain)
    (name : String) :
    FollowsHint name plain
      ((markFirst name plain).getD (⟨name, none, "user-specified", true⟩ :: plain)) := by
  by_cases isNamed : ∃ f ∈ plain, lower f.name = lower name
  · rw [markFirst_eq listing.nodup_lower isNamed, Option.getD_some]
    exact .known isNamed
  · push Not at isNamed
    rw [markFirst_eq_none isNamed, Option.getD_none]
    exact .new isNamed

namespace FollowsHint

variable {name : String} {plain frameworks : List Framework}

theorem nodup_lower (follows : FollowsHint name plain frameworks) (listing : IsListing tableNames plain) :
    (frameworks.map fun f => lower f.name).Nodup := by
  cases follows with
  | known _ => simpa [Function.comp_def, name_marked] using listing.nodup_lower
  | new noneNamed =>
    refine List.nodup_cons.mpr ⟨fun again => ?_, listing.nodup_lower⟩
    obtain ⟨f, member, same⟩ := List.mem_map.mp again
    exact noneNamed f member same

/-- A hint marks exactly one framework, which has its name up to case. -/
theorem exists_primary (follows : FollowsHint name plain frameworks)
    (listing : IsListing tableNames plain) :
    ∃ f, frameworks.filter (·.isPrimary) = [f] ∧ lower f.name = lower name := by
  cases follows with
  | known isNamed => exact exists_filter_isPrimary listing.nodup_lower listing.unmarked isNamed
  | new _ =>
    have noneMarked : plain.filter (·.isPrimary) = [] := by
      rw [List.filter_eq_nil_iff]
      intro f member
      simp [listing.unmarked f member]
    refine ⟨⟨name, none, "user-specified", true⟩, ?_, rfl⟩
    rw [List.filter_cons_of_pos rfl, noneMarked]

end FollowsHint

end Framework

/-! ## Profiles -/

def StageContext.withoutHint (context : StageContext) : StageContext :=
  { context with project := { context.project with framework := .null } }

namespace StackProfile

variable {context : StageContext} {snapshot : Value} {files : FileSummary} {contents : Contents}

theorem isListing_frameworksOf (m : Manifests) (fileNames : List String) :
    Framework.IsListing Framework.tableNames (frameworksOf m fileNames none) := by
  have script := Framework.isListing_ofDependencies scriptFrameworks
    ((sectionOf m.package "dependencies").update (sectionOf m.package "devDependencies")) "package.json"
  have php := Framework.isListing_ofDependencies phpFrameworks
    ((sectionOf m.composer "require").update (sectionOf m.composer "require-dev")) "composer.json"
  simp only [frameworksOf, Framework.applyHint]
  exact (script.append php Framework.tables_apart).addIndicated fileNames

/-- The manifests that were read stand in front of the files that show a tool, and are not repeated. -/
theorem nodup_configFilesOf (m : Manifests) (fileNames : List String) :
    (configFilesOf m fileNames).Nodup := by
  have indicators : (configIndicators.map (·.1)).Nodup := by decide
  rw [configFilesOf, List.nodup_append]
  refine ⟨?_, indicators.filter _, ?_⟩
  · cases m.package.isSome <;> cases m.composer.isSome <;> cases m.tsconfig.isSome <;> decide
  · rintro a inManifests b indicated rfl
    simp only [List.mem_filter, Bool.and_eq_true, Bool.not_eq_true', List.contains_eq_mem,
      decide_eq_false_iff_not] at indicated
    exact indicated.2.2 inManifests

def Unreadable (snapshot : Value) : Prop := ∃ fault, readSnapshot snapshot = .error fault

theorem failed_of_unreadable (unreadable : Unreadable snapshot) (context : StageContext) :
    ∃ failure, (run context snapshot).result = .failed failure := by
  obtain ⟨fault, read⟩ := unreadable
  simp only [run, read]
  exact ⟨_, rfl⟩

section

variable (read : readSnapshot snapshot = .ok (files, contents))

include read

theorem result_of_readSnapshot {hint : Option String}
    (hinted : hintOf context.project.framework = .ok hint) : (run context snapshot).result
      = .delta [("tech_stack", (ofProject files contents (.ofContents contents) hint).toValue)] := by
  simp only [run, read, runWith, hinted]

theorem failed_of_hint {fault : ValueFault}
    (refused : hintOf context.project.framework = .error fault) :
    ∃ failure, (run context snapshot).result = .failed failure := by
  simp only [run, read, runWith, refused]
  exact ⟨_, rfl⟩

end

/-- A hint that is given and no text serves for nothing; any other one is read. -/
theorem hintOf_cases (hint : Value) :
    (∃ fault, hintOf hint = .error fault ∧ hint.isGiven = true ∧ hint.str? = none)
      ∨ ∃ name, hintOf hint = .ok name ∧ ∀ plain, Framework.applyHint name plain =
        match Framework.hintedName? hint with
        | none => plain
        | some name => (Framework.markFirst name plain).getD
            (⟨name, none, "user-specified", true⟩ :: plain) := by
  cases given : hint.isGiven with
  | false =>
    refine .inr ⟨none, by simp [hintOf, given, pure, Except.pure], fun plain => ?_⟩
    cases hint with
    | str name =>
      have empty : name.isEmpty = true := by simpa [Value.isGiven] using given
      simp [Framework.hintedName?, empty, Framework.applyHint]
    | _ => rfl
  | true =>
    cases hint with
    | str name =>
      have notEmpty : name.isEmpty = false := by simpa [Value.isGiven] using given
      refine .inr ⟨some name, by rw [hintOf, if_pos given]; rfl, fun plain => ?_⟩
      cases isNone : lower name == "none" with
      | true => simp [Framework.hintedName?, Framework.applyHint, isNone]
      | false => simp [Framework.hintedName?, Framework.applyHint, notEmpty, isNone]
    | _ => exact .inl ⟨_, by rw [hintOf, if_pos given]; rfl, rfl, rfl⟩

/-- Whatever a snapshot shows and the user hints at, the stage fails only for want of a readable
snapshot or hint. Otherwise the frameworks of its profile have distinct names, also up to case, and its
configuration files are distinct. A hint that names a framework marks exactly one: the one that has
this name up to case in the profile without the hint, or else a new one in front. Every other hint
changes nothing, and none is marked. -/
theorem frameworks_listed_once (context : StageContext) (snapshot : Value) :
    let hint := context.project.framework
    (∃ failure, (run context snapshot).result = .failed failure
        ∧ (Unreadable snapshot ∨ hint.isGiven = true ∧ hint.str? = none))
      ∨ ∃ profile plain : StackProfile,
        (run context snapshot).result = .delta [("tech_stack", profile.toValue)]
        ∧ (run context.withoutHint snapshot).result = .delta [("tech_stack", plain.toValue)]
        ∧ (profile.frameworks.map (·.name)).Nodup
        ∧ (profile.frameworks.map fun f => lower f.name).Nodup
        ∧ profile.configFiles.Nodup
        ∧ match Framework.hintedName? hint with
          | none => profile.frameworks = plain.frameworks ∧ ∀ f ∈ profile.frameworks, f.isPrimary = false
          | some name => (∃ f, profile.frameworks.filter (·.isPrimary) = [f] ∧ lower f.name = lower name)
            ∧ Framework.FollowsHint name plain.frameworks profile.frameworks := by
  intro hint
  cases read : readSnapshot snapshot with
  | error fault =>
    obtain ⟨failure, failed⟩ := failed_of_unreadable ⟨fault, read⟩ context
    exact .inl ⟨failure, failed, .inl ⟨fault, read⟩⟩
  | ok shown =>
    obtain ⟨files, contents⟩ := shown
    rcases hintOf_cases hint with ⟨fault, refused, given, noText⟩ | ⟨name, hinted, applied⟩
    · obtain ⟨failure, failed⟩ := failed_of_hint read refused
      exact .inl ⟨failure, failed, .inr ⟨given, noText⟩⟩
    let m := Manifests.ofContents contents
    have listing := isListing_frameworksOf m files.names
    have frameworks : (ofProject files contents m name).frameworks = _ :=
      applied (frameworksOf m files.names none)
    refine .inr ⟨_, ofProject files contents m none, result_of_readSnapshot read hinted,
      result_of_readSnapshot read rfl, ?_⟩
    rw [frameworks]
    cases Framework.hintedName? hint with
    | none =>
      exact ⟨listing.distinct, listing.nodup_lower, nodup_configFilesOf m files.names, rfl,
        listing.unmarked⟩
    | some name =>
      have follows := Framework.followsHint_markFirst listing name
      have distinct := follows.nodup_lower listing
      refine ⟨?_, distinct, nodup_configFilesOf m files.names, follows.exists_primary listing, follows⟩
      rw [← Function.comp_def lower, ← List.map_map] at distinct
      exact distinct.of_map

end StackProfile

end Surveyor
