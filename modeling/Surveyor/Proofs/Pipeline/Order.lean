import Surveyor.Proofs.Pipeline.Returned
import Surveyor.Proofs.Text.Sorted

/-! # Which orders of stages hold

An order of stages is checked by the first provider of each part: `orderError?_eq_none_iff` says that
it is refused exactly if a name is empty or comes twice, or a stage reads a part that is provided, but
not before it. So a part may be read between two of its providers (`stage_order_accepted_iff`); where
none is, the check refuses every stage that reads what it or a later stage provides. A refused order
ends an analysis before its first stage.
-/

namespace Surveyor

/-! ## Readers and providers -/

def ReadAt (stages : List Stage) (part : String) (position : Nat) : Prop :=
  ∃ stage, stages[position]? = some stage ∧ part ∈ stage.reads

def ProvidedAt (stages : List Stage) (part : String) (position : Nat) : Prop :=
  ∃ stage, stages[position]? = some stage ∧ part ∈ stage.provides

/-- What is provided at all is provided before it is read. -/
def ReadsBehindFirst (stages : List Stage) : Prop :=
  ∀ part position, ReadAt stages part position → (∃ origin, ProvidedAt stages part origin) →
    ∃ origin < position, ProvidedAt stages part origin

/-- No stage reads what it or a later stage provides. -/
def ReadsBehindAll (stages : List Stage) : Prop :=
  ∀ part position, ReadAt stages part position →
    ∀ later, position ≤ later → ¬ ProvidedAt stages part later

/-- The part is provided before the position, and again at it or after it. -/
def ProvidedAround (stages : List Stage) (part : String) (position : Nat) : Prop :=
  (∃ origin < position, ProvidedAt stages part origin)
    ∧ ∃ later, position ≤ later ∧ ProvidedAt stages part later

section

variable {stages : List Stage} {part : String}

theorem providedAt_iff_getElem {position : Nat} (inStages : position < stages.length) :
    ProvidedAt stages part position ↔ part ∈ stages[position].provides := by
  rw [ProvidedAt, List.getElem?_eq_getElem inStages]
  simp

theorem ProvidedAt.lt_length {position : Nat} (provided : ProvidedAt stages part position) :
    position < stages.length := by
  obtain ⟨stage, here, -⟩ := provided
  exact (List.getElem?_eq_some_iff.mp here).1

/-- Reading behind all providers is reading behind the first one, apart from parts that are read
between two of their providers. -/
theorem readsBehindAll_iff :
    ReadsBehindAll stages ↔ ReadsBehindFirst stages
      ∧ ∀ part position, ReadAt stages part position → ¬ ProvidedAround stages part position := by
  constructor
  · intro behind
    refine ⟨?_, ?_⟩
    · rintro part position read ⟨origin, provided⟩
      rcases Nat.lt_or_ge origin position with before | late
      · exact ⟨origin, before, provided⟩
      · exact absurd provided (behind part position read origin late)
    · rintro part position read ⟨-, later, late, provided⟩
      exact behind part position read later late provided
  · rintro ⟨behind, notAround⟩ part position read later late provided
    exact notAround part position read
      ⟨behind part position read ⟨later, provided⟩, later, late, provided⟩

/-! ## The first provider -/

theorem firstProvider?_eq_none_iff :
    firstProvider? stages part = none ↔ ∀ position, ¬ ProvidedAt stages part position := by
  rw [firstProvider?, List.findIdx?_eq_none_iff]
  constructor
  · rintro never position ⟨stage, here, provides⟩
    simpa [provides] using never stage (List.mem_of_getElem? here)
  · intro never stage member
    obtain ⟨position, inStages, rfl⟩ := List.mem_iff_getElem.mp member
    simpa using fun provides => never position ((providedAt_iff_getElem inStages).mpr provides)

theorem firstProvider?_eq_some_iff {origin : Nat} :
    firstProvider? stages part = some origin ↔
      ProvidedAt stages part origin ∧ ∀ earlier < origin, ¬ ProvidedAt stages part earlier := by
  rw [firstProvider?, List.findIdx?_eq_some_iff_getElem]
  constructor
  · rintro ⟨inStages, provides, first⟩
    refine ⟨(providedAt_iff_getElem inStages).mpr (by simpa using provides), ?_⟩
    intro earlier before provided
    have alsoProvides := (providedAt_iff_getElem (Nat.lt_trans before inStages)).mp provided
    exact first earlier before (by simpa using alsoProvides)
  · rintro ⟨provided, first⟩
    refine ⟨provided.lt_length, ?_, ?_⟩
    · simpa using (providedAt_iff_getElem provided.lt_length).mp provided
    · intro earlier before alsoProvides
      exact first earlier before ((providedAt_iff_getElem _).mpr (by simpa using alsoProvides))

/-- A stage reads a part too early exactly if the first provider does not stand before it. -/
theorem readsAhead?_eq_none_iff {stage : Stage} {position : Nat} :
    readsAhead? stages stage position = none ↔
      ∀ part ∈ stage.reads, (∃ origin, ProvidedAt stages part origin) →
        ∃ origin < position, ProvidedAt stages part origin := by
  rw [readsAhead?, List.findSome?_eq_none_iff]
  refine forall₂_congr fun part reads => ?_
  cases first : firstProvider? stages part with
  | none =>
    have never := firstProvider?_eq_none_iff.mp first
    simp only [true_iff]
    rintro ⟨origin, provided⟩
    exact absurd provided (never origin)
  | some origin =>
    obtain ⟨provided, isFirst⟩ := firstProvider?_eq_some_iff.mp first
    simp only [ite_eq_right_iff, reduceCtorEq, imp_false, Nat.not_le]
    constructor
    · intro before _
      exact ⟨origin, before, provided⟩
    · intro behind
      obtain ⟨earlier, before, alsoProvided⟩ := behind ⟨origin, provided⟩
      have notEarlier : ¬ earlier < origin := fun earlierYet => isFirst earlier earlierYet alsoProvided
      omega

theorem eq_of_readsAhead? {stage : Stage} {position : Nat} {fault : OrderError}
    (refused : readsAhead? stages stage position = some fault) :
    ∃ part ∈ stage.reads, ∃ origin provider, position ≤ origin ∧ stages[origin]? = some provider
      ∧ part ∈ provider.provides ∧ (∀ earlier < origin, ¬ ProvidedAt stages part earlier)
      ∧ fault = .readsAhead stage.name part provider.name := by
  obtain ⟨part, reads, refuses⟩ := List.exists_of_findSome?_eq_some refused
  refine ⟨part, reads, ?_⟩
  cases first : firstProvider? stages part with
  | none => simp [first] at refuses
  | some origin =>
    obtain ⟨⟨provider, here, provides⟩, isFirst⟩ := firstProvider?_eq_some_iff.mp first
    simp only [first, here, Option.map_some, Option.getD_some, Option.ite_none_right_eq_some,
      Option.some.injEq] at refuses
    obtain ⟨late, rfl⟩ := refuses
    exact ⟨origin, provider, late, here, provides, isFirst, rfl⟩

end

/-! ## Names -/

theorem mem_duplicateNames {names : List String} {name : String} :
    name ∈ duplicateNames names ↔ 1 < names.count name := by
  rw [duplicateNames, Text.mem_distinctSorted, List.mem_filter, decide_eq_true_eq,
    and_iff_right_iff_imp]
  exact fun several => List.count_pos_iff.mp (by omega)

theorem duplicateNames_eq_nil_iff {names : List String} : duplicateNames names = [] ↔ names.Nodup := by
  rw [List.eq_nil_iff_forall_not_mem, List.nodup_iff_count]
  refine forall_congr' fun name => ?_
  rw [mem_duplicateNames, Nat.not_lt]

/-! ## Orders that hold -/

theorem orderError?_eq_none_iff {stages : List Stage} :
    orderError? stages = none ↔ (∀ stage ∈ stages, stage.name ≠ "")
      ∧ (stages.map (·.name)).Nodup ∧ ReadsBehindFirst stages := by
  have named : (stages.map (·.name)).contains "" = false ↔ ∀ stage ∈ stages, stage.name ≠ "" := by
    simp
  have behind : stages.zipIdx.findSome? (fun entry => readsAhead? stages entry.1 entry.2) = none
      ↔ ReadsBehindFirst stages := by
    simp only [List.findSome?_eq_none_iff, Prod.forall, List.mk_mem_zipIdx_iff_getElem?,
      readsAhead?_eq_none_iff]
    constructor
    · rintro each part position ⟨stage, here, reads⟩
      exact each stage position here part reads
    · intro each stage position here part reads
      exact each part position ⟨stage, here, reads⟩
  rw [← named, ← duplicateNames_eq_nil_iff, ← behind, orderError?]
  cases (stages.map (·.name)).contains "" with
  | true => simp
  | false =>
    cases duplicateNames (stages.map (·.name)) with
    | nil => simp
    | cons name rest => simp

def OrderError.Describes (stages : List Stage) : OrderError → Prop
  | .unnamed => ∃ stage ∈ stages, stage.name = ""
  | .duplicates names => names ≠ [] ∧ names.Nodup
      ∧ ∀ name, name ∈ names ↔ 1 < (stages.map (·.name)).count name
  | .readsAhead reader part provider => ∃ position stage origin first,
      stages[position]? = some stage ∧ stage.name = reader ∧ part ∈ stage.reads
        ∧ stages[origin]? = some first ∧ first.name = provider ∧ part ∈ first.provides
        ∧ position ≤ origin ∧ ∀ earlier < origin, ¬ ProvidedAt stages part earlier

theorem describes_of_orderError? {stages : List Stage} {fault : OrderError}
    (refused : orderError? stages = some fault) : fault.Describes stages := by
  simp only [orderError?] at refused
  split at refused
  · next unnamed =>
    cases refused
    simpa [OrderError.Describes] using unnamed
  · split at refused
    · next several =>
      cases refused
      exact ⟨by simpa using several, Text.nodup_distinctSorted _, fun name => mem_duplicateNames⟩
    · obtain ⟨⟨stage, position⟩, member, ahead⟩ := List.exists_of_findSome?_eq_some refused
      obtain ⟨part, reads, origin, first, late, there, provides, isFirst, rfl⟩ :=
        eq_of_readsAhead? ahead
      exact ⟨position, stage, origin, first, List.mk_mem_zipIdx_iff_getElem?.mp member, rfl, reads,
        there, rfl, provides, late, isFirst⟩

/-! ## Analyses with given stages -/

theorem invoked_of_chooseSettings {around : Surroundings} {place : List String}
    {given : Option Settings} {s opened : Session} {settings : Settings}
    (chosen : chooseSettings around place given s = (opened, .ok settings)) :
    opened.invoked = s.invoked := by
  unfold chooseSettings at chosen
  split at chosen
  · cases chosen
    rfl
  · split at chosen
    · cases chosen
      rfl
    · split at chosen
      · cases chosen
        exact s.invoked_log _ _
      · cases chosen

/-- An order of stages holds exactly if the names are given and distinct, and what is provided at all
is provided before it is read. Apart from parts that are read between two of their providers, this is
to say that no stage reads what it or a later stage provides. Every other order is refused with a fault
that is there, and an analysis then ends with it before a stage is invoked. -/
theorem stage_order_accepted_iff (stages : List Stage) :
    (orderError? stages = none ↔ (∀ stage ∈ stages, stage.name ≠ "")
      ∧ (stages.map (·.name)).Nodup ∧ ReadsBehindFirst stages)
    ∧ ((∀ part position, ReadAt stages part position → ¬ ProvidedAround stages part position) →
      (orderError? stages = none ↔ (∀ stage ∈ stages, stage.name ≠ "")
        ∧ (stages.map (·.name)).Nodup ∧ ReadsBehindAll stages))
    ∧ (∀ fault, orderError? stages = some fault → fault.Describes stages)
    ∧ ∀ (a : Analysis) place settings opened, a.overrides.stages = some stages →
      checkRoot a.around a.project.rootPath = .ok place →
      chooseSettings a.around place a.overrides.settings a.session = (opened, .ok settings) →
      (orderError? stages = none → ∃ context, a.ComesTo context stages opened)
      ∧ ∀ fault, orderError? stages = some fault →
        a.run.result = .error (.order fault) ∧ invocations a.run.journal = [] := by
  refine ⟨orderError?_eq_none_iff, ?_, fun fault => describes_of_orderError?, ?_⟩
  · intro notAround
    rw [orderError?_eq_none_iff, readsBehindAll_iff, and_iff_left notAround]
  · intro a place settings opened given root chosen
    constructor
    · intro accepted
      refine ⟨_, place, settings, root, chosen, ?_, rfl⟩
      simp [chooseStages, given, accepted, bind, Except.bind, pure, Except.pure]
    · intro fault refused
      have stops : chooseStages a.around settings a.overrides.stages = .error (.order fault) := by
        simp [chooseStages, given, refused, bind, Except.bind, pure, Except.pure]
      have ends : a.run = ⟨opened.journal, .error (.order fault)⟩ := by
        simp only [Analysis.run, analyze, root, chosen, stops]
      rw [ends]
      exact ⟨rfl, invoked_of_chooseSettings chosen⟩

def Stage.idle (name : String) (reads provides : List String) : Stage :=
  ⟨name, reads, provides, fun _ _ => ⟨[], .noDelta⟩⟩

def readBetween : List Stage :=
  [.idle "first" [] ["part"], .idle "reader" ["part"] [], .idle "second" [] ["part"]]

def readAhead : List Stage := [.idle "reader" ["part"] [], .idle "first" [] ["part"]]

def analysisOf (stages : List Stage) : Analysis :=
  ⟨besideSettings ⟨#[]⟩, ⟨some { root := "/srv/app" }, some stages⟩, { rootPath := "/srv/app" }, none,
    false, [.whole 0]⟩

theorem readBetween_accepted_readAhead_refused :
    (orderError? readBetween = none ∧ ¬ ReadsBehindAll readBetween)
    ∧ ∃ fault, orderError? readAhead = some fault ∧ fault.Describes readAhead
      ∧ (analysisOf readAhead).run.result = .error (.order fault)
      ∧ invocations (analysisOf readAhead).run.journal = [] := by
  obtain ⟨accepted, -, -, -⟩ := stage_order_accepted_iff readBetween
  obtain ⟨-, behindAll, describes, ends⟩ := stage_order_accepted_iff readAhead
  have notAround : ∀ part position, ReadAt readAhead part position →
      ¬ ProvidedAround readAhead part position := by
    rintro part position - ⟨⟨origin, before, provided⟩, later, late, providedLater⟩
    -- Only the second stage provides anything.
    have onlySecond : ∀ {place}, ProvidedAt readAhead part place → place = 1 := by
      rintro place ⟨stage, here, provides⟩
      match place with
      | 0 =>
        cases here
        cases provides
      | 1 => rfl
      | _ + 2 => cases here
    have := onlySecond provided
    have := onlySecond providedLater
    omega
  have readsAhead : ¬ ReadsBehindAll readAhead := fun behind =>
    behind "part" 0 ⟨_, rfl, by decide⟩ 1 (by decide) ⟨_, rfl, by decide⟩
  refine ⟨⟨accepted.mpr ⟨by decide, by decide, ?_⟩, ?_⟩, ?_⟩
  · rintro part position ⟨stage, here, reads⟩ -
    match position with
    | 0 =>
      cases here
      cases reads
    | 1 =>
      cases here
      obtain rfl : part = "part" := by simpa [Stage.idle] using reads
      exact ⟨0, by decide, _, rfl, by decide⟩
    | 2 =>
      cases here
      cases reads
    | _ + 3 => cases here
  · intro behind
    exact behind "part" 1 ⟨_, rfl, by decide⟩ 2 (by decide) ⟨_, rfl, by decide⟩
  · cases refused : orderError? readAhead with
    | none => exact absurd ((behindAll notAround).mp refused).2.2 readsAhead
    | some fault =>
      obtain ⟨ended, nothingInvoked⟩ :=
        (ends (analysisOf readAhead) ["app"] _ _ rfl checkRoot_besideSettings rfl).2 fault refused
      exact ⟨fault, rfl, describes fault refused, ended, nothingInvoked⟩

end Surveyor
