import Surveyor.Inspection.Quality
import Surveyor.Proofs.Pipeline.StageFold
import Surveyor.Proofs.Value.Agreement

/-! # What the findings depend on

The findings of a project are drawn from a part of what the stage is handed: the texts that are looked
through, the declarations, whether a class is loaded by a computed name, and what the imports, the
sizes of functions and the dependencies come to. Inputs that agree on this (`QualityInput.Alike`) take
the stage through the same steps to the same lists (`run_alike`). Which changes of a snapshot leave
this part alone is then a question about the readings only.
-/

namespace Surveyor

/-- The same steps, and the same delta or none. -/
def StageRun.LooksLike (x y : StageRun) : Prop :=
  x.steps = y.steps ∧ x.result.delta? = y.result.delta?

def StageRun.published? (run : StageRun) (part key : String) : Option Value := do
  (← (← run.result.delta?).lookup part).get? key

/-! ## Imports and sizes -/

/-- Only a path that is a string is looked up. -/
theorem Contents.filledAt?_congr {contents others : Contents} {path : Value}
    (same : ∀ name, path = .str name → contents.lookup name = others.lookup name) :
    contents.filledAt? path = others.filledAt? path := by
  unfold filledAt? Value.asKey
  split
  · cases path with
    | str name => simp only [bind, Except.bind, filled?, same name rfl]
    | _ => rfl
  · rfl

section

variable {v w : Value} {contents others : Contents}

/-- Imports are looked up in the texts of outlined files only. -/
theorem unusedImports_alike (outlines : EndAlike Eq (outlinesByPath v) (outlinesByPath w))
    (sameTexts : ∀ files, outlinesByPath v = .ok files → ∀ file ∈ files,
      contents.filledAt? file.1 = others.filledAt? file.1) :
    EndAlike Eq (unusedImports v contents) (unusedImports w others) := by
  rw [unusedImports, unusedImports]
  refine outlines.remember.bind fun files _ related => ?_
  obtain ⟨rfl, read, -⟩ := related
  refine EndAlike.bind_eq (.of_eq (mapM_eq_of_forall fun file member => ?_)) fun _ => .refl _
  simp only [unusedImportsOf, sameTexts files read file member]

/-- Sizes are measured in the texts of outlined files only. -/
theorem largeFunctions_alike (outlines : EndAlike Eq (outlinesByPath v) (outlinesByPath w))
    (sameTexts : ∀ files, outlinesByPath v = .ok files → ∀ file ∈ files,
      contents.filledAt? file.1 = others.filledAt? file.1) :
    EndAlike Eq (largeFunctions v contents) (largeFunctions w others) := by
  rw [largeFunctions, largeFunctions]
  refine outlines.remember.bind fun files _ related => ?_
  obtain ⟨rfl, read, -⟩ := related
  refine EndAlike.bind_eq (.of_eq (mapM_eq_of_forall fun file member => ?_)) fun _ => .refl _
  simp only [largeFunctionsOf, sameTexts files read file member]

end

namespace QualityInput

/-! ## Complexity -/

/-- The files that are measured are those that are looked through for comments. -/
theorem filter_isMeasured (i : QualityInput) :
    (i.contents.sorted.filter fun (path, content) =>
      ComplexityRecord.isMeasured i.obfuscated path content) = i.commentFiles := by
  simp only [commentFiles, referenceFiles, Contents.filled, List.filter_filter]
  apply List.filter_congr
  intro (path, content) _
  simp only [ComplexityRecord.isMeasured]
  cases hasExtension path sourceExtensions <;> cases i.obfuscated.contains path <;> simp

theorem any_isMeasured (i : QualityInput) :
    (i.contents.any fun (path, content) =>
      ComplexityRecord.isMeasured i.obfuscated path content) = !i.commentFiles.isEmpty := by
  have sortedPerm : i.contents.sorted.Perm i.contents := List.mergeSort_perm _ _
  rw [← i.filter_isMeasured, ← sortedPerm.any_eq, Bool.eq_iff_iff]
  simp [List.filter_eq_nil_iff]

theorem findAll_congr {i j : QualityInput} (sameFiles : i.commentFiles = j.commentFiles)
    (threshold : Except ValueFault Int) (limit : Except ValueFault (Option Int)) :
    ComplexityRecord.findAll i.contents threshold i.obfuscated limit
      = ComplexityRecord.findAll j.contents threshold j.obfuscated limit := by
  simp only [ComplexityRecord.findAll, any_isMeasured, ComplexityRecord.aboveThreshold,
    filter_isMeasured, sameFiles]

/-! ## Inputs -/

/-- The inputs agree on what findings are drawn from; what the dependencies come to is related. -/
structure Alike (R : List Issue → List Issue → Prop) (i j : QualityInput) : Prop where
  files : i.referenceFiles = j.referenceFiles
  declared : i.declared = j.declared
  dynamic : hasDynamicLoading i.contents = hasDynamicLoading j.contents
  imports : EndAlike Eq (unusedImports i.outlines i.contents) (unusedImports j.outlines j.contents)
  sizes : EndAlike Eq (largeFunctions i.outlines i.contents) (largeFunctions j.outlines j.contents)
  dependencies : EndAlike R (unusedDependencies i.dependencies i.contents)
    (unusedDependencies j.dependencies j.contents)

theorem Alike.commentFiles_eq {R : List Issue → List Issue → Prop} {i j : QualityInput}
    (alike : Alike R i j) : i.commentFiles = j.commentFiles := by
  rw [commentFiles, commentFiles, alike.files]

end QualityInput

namespace QualityFindings

variable {R : List Issue → List Issue → Prop}

/-- The findings are the same, apart from the dependencies, which are related. -/
structure Alike (R : List Issue → List Issue → Prop) (f g : QualityFindings) : Prop where
  unusedFunctions : f.unusedFunctions = g.unusedFunctions
  unusedMethods : f.unusedMethods = g.unusedMethods
  unusedClasses : f.unusedClasses = g.unusedClasses
  unusedImports : f.unusedImports = g.unusedImports
  unusedDependencies : R f.unusedDependencies g.unusedDependencies
  largeFunctions : f.largeFunctions = g.largeFunctions
  commentedCode : f.commentedCode = g.commentedCode
  complexity : f.complexity = g.complexity
  hasDynamicLoading : f.hasDynamicLoading = g.hasDynamicLoading

theorem Alike.eq {f g : QualityFindings} (alike : Alike Eq f g) : f = g := by
  cases f
  cases g
  cases alike
  simp_all

theorem lookUp_eq_of_alike {i j : QualityInput} (alike : i.Alike R j) (settings : Settings) :
    lookUp i settings = lookUp j settings := by
  simp only [lookUp, QualityInput.references, referenceSteps, alike.files]

theorem ofInput_alike {i j : QualityInput} (alike : i.Alike R j) (references : References)
    (settings : Settings) :
    EndAlike (Alike R) (ofInput i references settings) (ofInput j references settings) := by
  simp only [ofInput, alike.declared, alike.dynamic, alike.commentFiles_eq]
  rw [QualityInput.findAll_congr alike.commentFiles_eq]
  -- One step for each list; the three that are not the same computation are premises.
  refine (EndAlike.refl _).bind_eq fun functions => ?_
  refine (EndAlike.refl _).bind_eq fun methods => ?_
  refine (EndAlike.refl _).bind_eq fun classes => ?_
  refine alike.imports.bind_eq fun imports => ?_
  refine alike.dependencies.bind fun dependencies others related => ?_
  refine alike.sizes.bind_eq fun sizes => ?_
  refine (EndAlike.refl _).bind_eq fun comments => ?_
  refine (EndAlike.refl _).bind_eq fun complexity => ?_
  exact .succeed ⟨rfl, rfl, rfl, rfl, related, rfl, rfl, rfl, rfl⟩

theorem find_alike {i j : QualityInput} (alike : i.Alike R j) (references : References)
    (settings : Settings) :
    EndAlike (fun x y => Alike R x.1 y.1 ∧ x.2 = y.2) (find i references settings)
      (find j references settings) := by
  simp only [find, commentSteps, alike.commentFiles_eq]
  refine (ofInput_alike alike references settings).bind fun f g related => ?_
  exact (EndAlike.refl _).bind_eq fun interval => .succeed ⟨related, rfl⟩

/-! ## Runs -/

/-- Both runs take the same steps, and both fail or both publish findings, which are related. -/
inductive RunsAlike (R : QualityFindings → QualityFindings → Prop) : StageRun → StageRun → Prop
  | fail {steps : List Step} {failure other : StageFailure} :
      RunsAlike R ⟨steps, .failed failure⟩ ⟨steps, .failed other⟩
  | publish {steps : List Step} {f g : QualityFindings} (related : R f g) :
      RunsAlike R ⟨steps, .delta [("code_quality", f.toValue)]⟩
        ⟨steps, .delta [("code_quality", g.toValue)]⟩

/-- Snapshots with inputs that are alike give runs that are alike. -/
theorem run_alike {a b : Value}
    (alike : EndAlike (QualityInput.Alike R) (QualityInput.ofSnapshot a) (QualityInput.ofSnapshot b))
    (context : StageContext) : RunsAlike (Alike R) (run context a) (run context b) := by
  unfold run
  generalize QualityInput.ofSnapshot a = first at alike ⊢
  generalize QualityInput.ofSnapshot b = second at alike ⊢
  cases alike with
  | fail => exact .fail
  | @succeed i j inputs =>
    simp only [bind, Except.bind, lookUp_eq_of_alike inputs]
    cases lookUp j context.settings with
    | error fault => exact .fail
    | ok started =>
      have found := find_alike inputs started.1 context.settings
      simp only [pure, Except.pure]
      generalize find i started.1 context.settings = ofFirst at found ⊢
      generalize find j started.1 context.settings = ofSecond at found ⊢
      cases found with
      | fail => exact .fail
      | @succeed x y related =>
        obtain ⟨findings, later⟩ := x
        obtain ⟨others, _⟩ := y
        obtain ⟨sameFindings, rfl⟩ := related
        exact .publish sameFindings

theorem RunsAlike.mono {R S : QualityFindings → QualityFindings → Prop}
    (weaker : ∀ {f g}, R f g → S f g) {x y : StageRun} (alike : RunsAlike R x y) :
    RunsAlike S x y := by
  cases alike with
  | fail => exact .fail
  | publish related => exact .publish (weaker related)

theorem RunsAlike.looksLike {x y : StageRun} (alike : RunsAlike Eq x y) : x.LooksLike y := by
  cases alike with
  | fail => exact ⟨rfl, rfl⟩
  | publish same =>
    cases same
    exact ⟨rfl, rfl⟩

end QualityFindings

end Surveyor
