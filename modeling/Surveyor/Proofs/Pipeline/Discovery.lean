import Mathlib.Data.List.Forall2
import Surveyor.Inspection.Builtin
import Surveyor.Proofs.Pipeline.Order
import Surveyor.Proofs.Text.Sorted

/-! # Discovery by name

Without a choice of names, every name finds the stage that is registered under it first, and a stage
that cannot be loaded or is none ends the discovery. With a choice, the stages found are those of the
chosen names, in the same order (`enabled_stages_discovered`).

Both discoveries go through the same registrations, but remember different names: one all names so far,
the other only the chosen ones. What carries the induction is that the two agree on every chosen name
(`collectStages_enabled`).
-/

namespace Surveyor

/-- The names in lower case under which something is registered, each where it comes first. -/
def entryNames (registrations : List Registration) : List String :=
  (registrations.map fun r => lower r.name).eraseDups

/-- The stage is what is registered first under a name. -/
def IsFirstUnder (registrations : List Registration) (key : String) (stage : Stage) : Prop :=
  (registrations.find? fun r => lower r.name == key).map (·.provision) = some (.stage stage)

/-! ## One registration -/

section

variable {enabled : Option (List String)} {seen : List String} {r : Registration}
  {rest registrations : List Registration} {found : List (String × Stage)}

/-- A registration adds its stage if its name is enabled and new; otherwise it only has to load. -/
theorem collectStages_cons_eq_ok :
    collectStages enabled seen (r :: rest) = .ok found ↔
      (∃ stage later, r.provision = .stage stage
        ∧ (isEnabled enabled (lower r.name) = true ∧ lower r.name ∉ seen)
        ∧ collectStages enabled (lower r.name :: seen) rest = .ok later
        ∧ found = (lower r.name, stage) :: later)
      ∨ ((∀ reason, r.provision ≠ .broken reason)
        ∧ ¬ (isEnabled enabled (lower r.name) = true ∧ lower r.name ∉ seen)
        ∧ collectStages enabled seen rest = .ok found) := by
  have wanted_iff : (isEnabled enabled (lower r.name) && !seen.contains (lower r.name)) = true
      ↔ isEnabled enabled (lower r.name) = true ∧ lower r.name ∉ seen := by simp
  rw [← wanted_iff]
  simp only [collectStages]
  cases r.provision with
  | broken reason => simp
  | notAStage => cases isEnabled enabled (lower r.name) && !seen.contains (lower r.name) <;> simp
  | stage s =>
    cases isEnabled enabled (lower r.name) && !seen.contains (lower r.name) with
    | false => simp
    | true => cases collectStages enabled (lower r.name :: seen) rest <;> simp [Except.map, eq_comm]

/-! ## All registrations -/

/-- No name is found that was seen before, and none is found twice. -/
theorem nodup_of_collectStages (collected : collectStages enabled seen registrations = .ok found) :
    (found.map (·.1)).Nodup ∧ ∀ entry ∈ found, entry.1 ∉ seen := by
  induction registrations generalizing seen found with
  | nil =>
    cases collected
    simp
  | cons r rest inductionHypothesis =>
    rcases collectStages_cons_eq_ok.mp collected with
      ⟨stage, later, -, ⟨-, new⟩, collectedRest, rfl⟩ | ⟨-, -, collectedRest⟩
    · obtain ⟨distinct, unseen⟩ := inductionHypothesis collectedRest
      have newToLater : lower r.name ∉ later.map (·.1) := by
        intro again
        obtain ⟨entry, member, same⟩ := List.mem_map.mp again
        exact unseen entry member (same ▸ List.mem_cons_self)
      refine ⟨List.nodup_cons.mpr ⟨newToLater, distinct⟩, List.forall_mem_cons.mpr ⟨new, ?_⟩⟩
      exact fun entry member inSeen => unseen entry member (List.mem_cons_of_mem _ inSeen)
    · exact inductionHypothesis collectedRest

/-- Without a choice, the names found are all those that were not seen before. -/
theorem names_of_collectStages (collected : collectStages none seen registrations = .ok found) :
    found.map (·.1)
      = ((registrations.map fun r => lower r.name).filter fun key => !seen.contains key).eraseDups := by
  induction registrations generalizing seen found with
  | nil =>
    cases collected
    rfl
  | cons r rest inductionHypothesis =>
    rcases collectStages_cons_eq_ok.mp collected with
      ⟨stage, later, -, ⟨-, new⟩, collectedRest, rfl⟩ | ⟨-, old, collectedRest⟩
    · -- From here on the name counts as seen, which is to say that its repeats are erased.
      have kept : (!seen.contains (lower r.name)) = true := by simpa using new
      rw [List.map_cons, List.map_cons, inductionHypothesis collectedRest, List.filter_cons, if_pos kept,
        List.eraseDups_cons, List.filter_filter]
      simp only [List.contains_cons, Bool.not_or]
    · have dropped : ¬ (!seen.contains (lower r.name)) = true := by simpa [isEnabled] using old
      rw [List.map_cons, List.filter_cons, if_neg dropped]
      exact inductionHypothesis collectedRest

/-- Without a choice, a stage is found under a name if it is registered first under it. -/
theorem isFirstUnder_of_collectStages (collected : collectStages none seen registrations = .ok found)
    {key : String} {stage : Stage} (member : (key, stage) ∈ found) :
    IsFirstUnder registrations key stage := by
  induction registrations generalizing seen found with
  | nil =>
    cases collected
    cases member
  | cons r rest inductionHypothesis =>
    have unseen := (nodup_of_collectStages collected).2 _ member
    -- A name that is found later differs from the first one, which was seen by then.
    have passesOver : lower r.name ≠ key → IsFirstUnder rest key stage →
        IsFirstUnder (r :: rest) key stage := by
      intro different isFirst
      rw [IsFirstUnder, List.find?_cons_of_neg (by simpa using different)]
      exact isFirst
    rcases collectStages_cons_eq_ok.mp collected with
      ⟨first, later, provides, -, collectedRest, rfl⟩ | ⟨-, old, collectedRest⟩
    · rcases List.mem_cons.mp member with same | inLater
      · cases same
        rw [IsFirstUnder, List.find?_cons_of_pos (by simp), Option.map_some, provides]
      · have notSeenThen := (nodup_of_collectStages collectedRest).2 _ inLater
        refine passesOver (fun same => notSeenThen ?_) (inductionHypothesis collectedRest inLater)
        exact same ▸ List.mem_cons_self
    · have seenBefore : lower r.name ∈ seen := by simpa [isEnabled] using old
      exact passesOver (fun same => unseen (same ▸ seenBefore)) (inductionHypothesis collectedRest member)

/-- With a choice of names, of what is found without it the entries under these names are found. -/
theorem collectStages_enabled (collected : collectStages none seen registrations = .ok found)
    {keys seenToo : List String} (agree : ∀ key ∈ keys, key ∈ seenToo ↔ key ∈ seen) :
    collectStages (some keys) seenToo registrations
      = .ok (found.filter fun entry => keys.contains entry.1) := by
  induction registrations generalizing seen seenToo found with
  | nil =>
    cases collected
    rfl
  | cons r rest inductionHypothesis =>
    rcases collectStages_cons_eq_ok.mp collected with
      ⟨stage, later, provides, ⟨-, new⟩, collectedRest, rfl⟩ | ⟨loads, old, collectedRest⟩
    · by_cases chosen : lower r.name ∈ keys
      · have agreeNow : ∀ key ∈ keys, key ∈ lower r.name :: seenToo ↔ key ∈ lower r.name :: seen := by
          intro key inKeys
          rw [List.mem_cons, List.mem_cons, agree key inKeys]
        have newToo : lower r.name ∉ seenToo := fun inSeen => new ((agree _ chosen).mp inSeen)
        rw [List.filter_cons_of_pos (by simpa using chosen)]
        refine collectStages_cons_eq_ok.mpr (.inl ⟨stage, _, provides, ⟨?_, newToo⟩, ?_, rfl⟩)
        · simpa [isEnabled] using chosen
        · exact inductionHypothesis collectedRest agreeNow
      · -- The name is seen on one side only, but it is not among the chosen ones.
        have agreeNow : ∀ key ∈ keys, key ∈ seenToo ↔ key ∈ lower r.name :: seen := by
          intro key inKeys
          have different : key ≠ lower r.name := fun same => chosen (same ▸ inKeys)
          rw [List.mem_cons, agree key inKeys, or_iff_right different]
        rw [List.filter_cons_of_neg (by simpa using chosen)]
        refine collectStages_cons_eq_ok.mpr (.inr ⟨by simp [provides], ?_, ?_⟩)
        · simp [isEnabled, chosen]
        · exact inductionHypothesis collectedRest agreeNow
    · have seenBefore : lower r.name ∈ seen := by simpa [isEnabled] using old
      refine collectStages_cons_eq_ok.mpr (.inr ⟨loads, ?_, inductionHypothesis collectedRest agree⟩)
      rintro ⟨chosen, newToo⟩
      exact newToo ((agree _ (by simpa [isEnabled] using chosen)).mpr seenBefore)

end

/-! ## Discovery -/

section

variable {registrations : List Registration} {stages : List Stage}

theorem exists_collected (discovered : discoverStages registrations none = .ok stages) :
    ∃ found, collectStages none [] registrations = .ok found ∧ found.map (·.1) = entryNames registrations
      ∧ found.map (·.2) = stages := by
  simp only [discoverStages, Option.map_none] at discovered
  split at discovered
  · cases discovered
  · next found collected =>
    simp only [Option.getD_none, List.filter_nil, List.isEmpty_nil, ↓reduceIte, Except.ok.injEq]
      at discovered
    refine ⟨found, collected, ?_, discovered⟩
    simpa [entryNames] using names_of_collectStages collected

/-- With a choice of names, those that find nothing are an error, and without such names the stages of
the others are given. -/
theorem discoverStages_enabled {found : List (String × Stage)}
    (collected : collectStages none [] registrations = .ok found) (enabled : List String) :
    discoverStages registrations (some enabled) =
      if ∀ name ∈ enabled, lower name ∈ found.map (·.1) then
        .ok ((found.filter fun entry => (enabled.map lower).contains entry.1).map (·.2))
      else
        .error (.unknown (Text.distinctSorted
          ((enabled.map lower).filter fun key => decide (key ∉ found.map (·.1))))) := by
  -- What a chosen name finds at all, it finds among the chosen ones.
  have unknown : ((enabled.map lower).filter fun key =>
      !(found.filter fun entry => (enabled.map lower).contains entry.1).any (·.1 == key))
        = (enabled.map lower).filter fun key => decide (key ∉ found.map (·.1)) := by
    refine List.filter_congr fun key chosen => ?_
    rw [Bool.eq_iff_iff, decide_eq_true_eq, Bool.not_eq_true', ← Bool.not_eq_true, List.any_eq_true,
      List.mem_map, not_iff_not]
    constructor
    · rintro ⟨entry, member, same⟩
      exact ⟨entry, (List.mem_filter.mp member).1, by simpa using same⟩
    · rintro ⟨entry, member, rfl⟩
      exact ⟨entry, List.mem_filter.mpr ⟨member, List.contains_iff_mem.mpr chosen⟩, by simp⟩
  have noneUnknown : ((enabled.map lower).filter fun key => decide (key ∉ found.map (·.1))).isEmpty = true
      ↔ ∀ name ∈ enabled, lower name ∈ found.map (·.1) := by
    rw [List.isEmpty_iff, List.filter_eq_nil_iff, List.forall_mem_map]
    refine forall₂_congr fun name _ => ?_
    rw [decide_eq_true_eq, not_not]
  simp only [discoverStages, Option.map_some, collectStages_enabled collected (fun _ _ => Iff.rfl),
    Option.getD_some, unknown, noneUnknown]

/-- If discovery succeeds without a choice of names, the names it goes by are distinct, the built-in
ones come first, and each finds what is registered first under it. Any choice of these names, in any
case, then gives their stages in the same order. A choice with other names is refused, with all of the
others in ascending order. -/
theorem enabled_stages_discovered {plugins : List Registration}
    (discovered : discoverStages (builtinRegistrations ++ plugins) none = .ok stages)
    (enabled : List String) :
    let registrations := builtinRegistrations ++ plugins
    let keys := entryNames registrations
    keys.Nodup ∧ builtinStages.map (·.name) <+: keys
      ∧ List.Forall₂ (IsFirstUnder registrations) keys stages
      ∧ ((∀ name ∈ enabled, lower name ∈ keys) →
        discoverStages registrations (some enabled)
          = .ok (((keys.zip stages).filter fun entry => (enabled.map lower).contains entry.1).map (·.2)))
      ∧ ((∃ name ∈ enabled, lower name ∉ keys) → ∃ unknown : List String,
        discoverStages registrations (some enabled) = .error (.unknown unknown)
          ∧ (DiscoveryError.unknown unknown).message
            = "Unknown stages requested: " ++ Text.join ", " unknown
          ∧ unknown.Pairwise (· < ·)
          ∧ ∀ key, key ∈ unknown ↔ (∃ name ∈ enabled, lower name = key) ∧ key ∉ keys) := by
  intro registrations keys
  obtain ⟨found, collected, (named : found.map (·.1) = keys), rfl⟩ := exists_collected discovered
  obtain ⟨distinct, -⟩ := nodup_of_collectStages collected
  have entries : keys.zip (found.map (·.2)) = found := by
    rw [← named]
    exact (List.zip_of_prod rfl rfl).symm
  have withNames := discoverStages_enabled collected enabled
  rw [named] at distinct withNames
  refine ⟨distinct, ?_, ?_, ?_, ?_⟩
  · have builtinFirst : entryNames builtinRegistrations = builtinStages.map (·.name) := by decide +kernel
    rw [← builtinFirst]
    simp only [keys, registrations, entryNames, List.map_append, List.eraseDups_append]
    exact List.prefix_append _ _
  · rw [← named, List.forall₂_map_left_iff, List.forall₂_map_right_iff, List.forall₂_same]
    exact fun entry member => isFirstUnder_of_collectStages collected member
  · intro known
    rw [entries, withNames, if_pos known]
  · rintro ⟨name, member, notKnown⟩
    rw [if_neg fun known => notKnown (known name member)] at withNames
    refine ⟨_, withNames, rfl, Text.pairwise_distinctSorted _, fun key => ?_⟩
    rw [Text.mem_distinctSorted, List.mem_filter, List.mem_map, decide_eq_true_eq]

end

/-- A plug-in with a name of its own, one that a built-in stage hides, and one that the first hides. -/
def hiddenPlugins : List Registration :=
  [⟨"Docs", .stage (.idle "docs" [] [])⟩, ⟨"CODE-SCORE", .notAStage⟩,
    ⟨"docs", .stage (.idle "other-docs" [] [])⟩]

theorem hiddenPlugins_discovered :
    discoverStages (builtinRegistrations ++ hiddenPlugins) none
        = .ok (builtinStages ++ [.idle "docs" [] []])
      ∧ discoverStages (builtinRegistrations ++ hiddenPlugins) (some ["DOCS", "Tech-Stack", "docs"])
        = .ok [.stackProfile, .idle "docs" [] []]
      ∧ ∃ unknown, discoverStages (builtinRegistrations ++ hiddenPlugins) (some ["Tests", "docs", "API"])
        = .error (.unknown unknown) ∧ unknown.Pairwise (· < ·) ∧ "api" ∈ unknown ∧ "docs" ∉ unknown := by
  have discovered : discoverStages (builtinRegistrations ++ hiddenPlugins) none
      = .ok (builtinStages ++ [.idle "docs" [] []]) := rfl
  obtain ⟨-, -, -, found, -⟩ :=
    enabled_stages_discovered discovered ["DOCS", "Tech-Stack", "docs"]
  obtain ⟨-, -, -, -, refused⟩ := enabled_stages_discovered discovered ["Tests", "docs", "API"]
  refine ⟨discovered, found (by decide +kernel), ?_⟩
  obtain ⟨unknown, ends, -, ascending, members⟩ := refused ⟨"API", by decide, by decide +kernel⟩
  refine ⟨unknown, ends, ascending, (members "api").mpr ?_, fun inUnknown => ?_⟩
  · decide +kernel
  · exact ((members "docs").mp inUnknown).2 (by decide +kernel)

end Surveyor
