import Surveyor.Proofs.Quality.Declared

/-! # Dead code is reported

A function or method whose name occurs nowhere but in its own declaration is reported, as often as the
outlines list it (`declaration_without_use_reported`), which is once unless a site is listed twice
(`OccursOnce.listed_once`). The declaration must not be taken for a call of itself. The reference scan
tells the two apart by the keyword within its reach or by the header of a method, and
`not_called_of_declaredAt` says that this agrees with the outlines, which look for declarations with
patterns of their own.
-/

namespace Surveyor

open Pattern Reference

variable {t : Text} {n : String} {i : Nat}

/-! ## A declaration is no call -/

/-- A recorded call stands at its offset as a name in call position. -/
theorem Reference.nameAt_of_callSites (called : (i, n) ∈ callSites t) :
    NameAt t n i ∧ OpensAt t (i + n.length) := by
  obtain ⟨⟨m, found, rfl, rfl⟩, -⟩ := mem_callSites.mp called
  have isMatch := isMatch_of_mem_findAll found
  obtain ⟨nameEnd, paren, call⟩ := callAt_of_isMatch isMatch
  have text : m.groupText t 1 = t.slice m.start nameEnd := by
    rw [Match.groupText, Match.group?, call.recorded]
    rfl
  rw [call.groupStart, text]
  have inText : nameEnd ≤ t.size := by
    obtain ⟨bound, -⟩ := Array.getElem?_eq_some_iff.mp call.opens
    have := call.order
    omega
  have nonempty := call.nonempty
  have length : (t.slice m.start nameEnd).length = nameEnd - m.start := by
    rw [← String.length_toList, length_slice inText]
  have ends : m.start + (t.slice m.start nameEnd).length = nameEnd := by omega
  -- Behind the name stands a blank or the bracket, which is no part of a name.
  obtain ⟨c, next, other⟩ := exists_not_name call.order call.blanks call.opens (by decide)
  refine ⟨⟨by omega, ?_, ?_, call.startsFresh, ?_⟩, ?_⟩
  · intro d inName
    obtain ⟨k, inSlice, rfl⟩ := List.getElem_of_mem inName
    have inRun : k < nameEnd - m.start := by rwa [← length_slice inText]
    obtain ⟨e, here, isName⟩ := call.run (m.start + k) (by omega) (by omega)
    have same := getElem?_slice (t := t) inText (show m.start + k < nameEnd by omega)
    rw [here, List.getElem?_eq_getElem inSlice] at same
    rw [Option.some.inj same]
    exact isName
  · intro k inName
    exact (getElem?_slice inText (by omega)).symm
  · intro d here
    rw [ends] at here
    cases next.symm.trans here
    exact other
  · rw [ends]
    exact ⟨paren, call.order, call.blanks, call.opens⟩

/-- The reference scan knows the declaration of a name in call position: its keyword is a word of its
own and stands within reach; without a keyword, the only header of a method around it that a scan of
the whole text finds is its own. -/
structure Recognised (t : Text) (n : String) (i : Nat) : Prop where
  keyword : OpensAt t (i + n.length) → ∀ k, FunctionWord t k i →
    i ≤ k + keywordReach ∧ ∀ c, 0 < k → t[k - 1]? = some c → isWordChar c = false
  header : OpensAt t (i + n.length) → (∀ k, ¬FunctionWord t k i) →
    ∀ m ∈ Script.methodPattern.findAll (.ofText t), m.start ≤ i → i < m.stop → m.groupStart 5 = i

/-- A match of a method header ends on its brace. -/
theorem brace_of_methodPattern {m : Match} (found : m ∈ Script.methodPattern.findAll (.ofText t)) :
    m.start < m.stop ∧ t[m.stop - 1]? = some '{' := by
  have matched := isMatch_of_mem_findAll found
  have advances := lt_of_consumes (by decide) matched
  have ends : Script.methodPattern.EndsOn (· == '{') := by
    refine endsOn_append.mpr ⟨?_, .inl rfl⟩
    intro c same
    rw [beq_iff_eq.mp same]
    exact beq_self_eq_true c
  obtain ⟨c, here, isBrace⟩ := last_of_endsOn ends matched advances
  rw [beq_iff_eq.mp isBrace] at here
  exact ⟨advances, here⟩

/-- A method header that starts before an offset, without a brace up to there, lies in a header that
the scan of the whole text finds and that goes on beyond the offset. -/
theorem exists_header_around {start : Nat} (before : start ≤ i) (inText : i ≤ t.size)
    (noBrace : ∀ k, start ≤ k → k < i → t[k]? ≠ some '{')
    (matches_ : Script.methodPattern.ways (.ofText t) start [] ≠ []) :
    ∃ m ∈ Script.methodPattern.findAll (.ofText t), m.start ≤ i ∧ i < m.stop := by
  obtain ⟨⟨last, captured⟩, way⟩ := List.exists_mem_of_ne_nil _ matches_
  obtain ⟨m, matched⟩ := exists_matchAt? way
  obtain ⟨starts, -⟩ := isMatch_of_matchAt? matched
  have around : ∃ m ∈ Script.methodPattern.findAll (.ofText t), m.start ≤ start ∧ start < m.stop := by
    rcases covered_of_matchAt? (Nat.le_trans before inText) matched with
      found | ⟨earlier, found, early, covers⟩
    · exact ⟨m, found, Nat.le_of_eq starts, by have := (brace_of_methodPattern found).1; omega⟩
    · exact ⟨earlier, found, Nat.le_of_lt early, covers⟩
  obtain ⟨m, found, early, covers⟩ := around
  refine ⟨m, found, Nat.le_trans early before, ?_⟩
  -- The header around the start goes on up to a brace, and there is none before the offset.
  rcases Nat.lt_or_ge i m.stop with inside | short
  · exact inside
  · exact absurd (brace_of_methodPattern found).2 (noBrace (m.stop - 1) (by omega) (by omega))

/-- A declaration that the reference scan knows is no call. -/
theorem not_called_of_declaredAt (declared : DeclaredAt t i) (recognised : Recognised t n i) :
    (i, n) ∉ callSites t := by
  intro called
  obtain ⟨occurs, opens⟩ := nameAt_of_callSites called
  obtain ⟨-, unlisted, unkeyed⟩ := mem_callSites.mp called
  -- A keyword within reach would have kept the call from being recorded.
  have noWord : ∀ k, ¬FunctionWord t k i := by
    intro k word
    obtain ⟨near, fresh⟩ := recognised.keyword opens k word
    have follows : followsKeyword t i = true :=
      (followsKeyword_iff (Nat.le_of_lt occurs.inText)).mpr ⟨k, word, fresh, near⟩
    rw [unkeyed] at follows
    cases follows
  cases declared with
  | keyword word => exact noWord _ word
  | @variable_ j r c order name gap blanks here sign =>
    -- A type or a value follows the name, where a call has its parenthesis.
    have outside : isNameChar c = false ∧ isBlank c = false ∧ c ≠ '(' := by
      rcases sign with rfl | rfl
      · decide
      · decide
    obtain ⟨d, next, other⟩ := exists_not_name gap blanks here outside.1
    have ends := occurs.end_eq order name next other
    rw [← ends] at opens
    exact outside.2.2 (opens.eq_paren gap blanks here outside.2.1)
  | header before noBrace matches_ =>
    obtain ⟨m, found, early, beyond⟩ :=
      exists_header_around before (Nat.le_of_lt occurs.inText) noBrace matches_
    have own := recognised.header opens noWord m found early beyond
    exact unlisted (List.mem_map.mpr ⟨m, found, own⟩)

/-! ## A name without a use -/

/-- One source declares the name, and the name occurs in no other place as an identifier. -/
structure OccursOnce (before : List SourceFile) (source : SourceFile) (after : List SourceFile)
    (n : String) (i : Nat) : Prop where
  declared : (i, n) ∈ source.sites
  here : ∀ k, NameAt source.text n k ↔ k = i
  elsewhere : ∀ f ∈ before ++ after, ∀ k, ¬NameAt f.text n k

/-- No tag of several words has the name, the declaration stands in no position of use, and what
stands in such a position elsewhere is no piece of a longer identifier. -/
structure NotNamed (before : List SourceFile) (source : SourceFile) (after : List SourceFile)
    (n : String) (i : Nat) : Prop where
  tags : ∀ f ∈ before ++ source :: after, ∀ tag ∈ namesOf f.text kebabTagPattern, componentName tag ≠ n
  here : ∀ stretch ∈ useStretches source.text, stretch.1 ≤ i → stretch.2 < i + n.length
  pieces : ∀ f ∈ before ++ source :: after, ∀ k, StandsInUse f.text n k → NameAt f.text n k

variable {before after : List SourceFile} {source : SourceFile}

theorem OccursOnce.eq_source (once : OccursOnce before source after n i) {f : SourceFile}
    (member : f ∈ before ++ source :: after) {k : Nat} (occurs : NameAt f.text n k) :
    f = source ∧ k = i := by
  simp only [List.mem_append, List.mem_cons] at member
  rcases member with early | rfl | late
  · exact absurd occurs (once.elsewhere f (List.mem_append.mpr (.inl early)) k)
  · exact ⟨rfl, (once.here k).mp occurs⟩
  · exact absurd occurs (once.elsewhere f (List.mem_append.mpr (.inr late)) k)

theorem not_mem_fileReferences (once : OccursOnce before source after n i)
    (notNamed : NotNamed before source after n i) (recognised : Recognised source.text n i)
    {f : SourceFile} (member : f ∈ before ++ source :: after) : n ∉ fileReferences f.text := by
  intro used
  have occurs := (once.here i).mpr rfl
  rcases fileReferences_cases occurs.chars occurs.nonempty used with
    called | ⟨tag, inTags, named⟩ | ⟨k, inUse⟩
  · rw [calledNames_eq] at called
    obtain ⟨site, inSites, rfl⟩ := List.mem_map.mp called
    obtain ⟨rfl, same⟩ := once.eq_source member (nameAt_of_callSites inSites).1
    refine not_called_of_declaredAt (declaredAt_of_mem_sites once.declared) recognised ?_
    rw [← same]
    exact inSites
  · exact notNamed.tags f member tag inTags named
  · -- The only place of the name is its declaration, and that is in no position of use.
    obtain ⟨rfl, rfl⟩ := once.eq_source member (notNamed.pieces f member k inUse)
    obtain ⟨-, stretch, inStretches, starts, ends⟩ := inUse
    have := notNamed.here stretch inStretches starts
    omega

def NoneLonger (settings : Settings) (sources : List SourceFile) : Prop :=
  ∀ f ∈ sources, ∀ limit, settings.scanCharLimit = .ok (some limit) → (f.content.length : Int) ≤ limit

theorem scannedText_eq {content : String} {cut : Option Int}
    (short : ∀ limit, cut = some limit → (content.length : Int) ≤ limit) :
    scannedText content cut = Text.ofString content := by
  cases cut with
  | none => rfl
  | some limit =>
    have enough := short limit rfl
    have size : (Text.ofString content).size = content.length := by
      rw [Text.ofString, List.size_toArray, String.length_toList]
    have clamped : Text.clampIndex (Text.ofString content).size limit = (Text.ofString content).size := by
      unfold Text.clampIndex
      split
      · omega
      · omega
    rw [scannedText, Text.takeTo, clamped, Array.extract_size]

theorem mem_declaredNames {sources : List SourceFile} {f : SourceFile} (member : f ∈ sources)
    (plain : f.isObfuscated = false) (filled : f.content.isEmpty = false)
    (declared : n ∈ (f.kind.outline f.text f.path).declaredNames) : n ∈ declaredNames sources := by
  refine List.mem_flatMap.mpr ⟨_, List.mem_filterMap.mpr ⟨f, member, ?_⟩, declared⟩
  rw [SourceFile.outline?, plain, filled]
  rfl

theorem sites_eq_nil_of_isEmpty {f : SourceFile} (empty : f.content.isEmpty = true) :
    f.sites = [] := by
  have noText : f.text = #[] := by
    rw [SourceFile.text, String.isEmpty_iff.mp empty]
    rfl
  refine List.eq_nil_iff_forall_not_mem.mpr fun site member => ?_
  have declared := declaredAt_of_mem_sites member
  rw [noText] at declared
  cases declared with
  | keyword word => cases word.1 0 (by decide)
  | variable_ _ _ _ _ here _ => cases here
  | header _ _ matches_ =>
    obtain ⟨⟨stop, _⟩, way⟩ := List.exists_mem_of_ne_nil _ matches_
    have advances := lt_of_consumes (by decide) way
    have bounded : stop = _ ∨ stop ≤ 0 := (le_of_mem_ways way).2
    omega

/-- The outlines list a name as often as the sources have sites for it. -/
theorem count_declaredNames {sources : List SourceFile}
    (plain : ∀ f ∈ sources, f.isObfuscated = false) (n : String) :
    (declaredNames sources).count n = (sources.flatMap (·.sites)).countP (·.2 == n) := by
  induction sources with
  | nil => rfl
  | cons f rest inductionHypothesis =>
    have ofRest := inductionHypothesis fun g member => plain g (List.mem_cons_of_mem f member)
    have clear := plain f (by simp)
    rw [List.flatMap_cons, List.countP_append, ← ofRest]
    simp only [declaredNames, ProjectStructure.ofSources]
    -- An empty source has no outline, and no sites either.
    cases filled : f.content.isEmpty with
    | true =>
      rw [List.filterMap_cons_none (by simp [SourceFile.outline?, filled]),
        sites_eq_nil_of_isEmpty filled, List.countP_nil, Nat.zero_add]
    | false =>
      rw [List.filterMap_cons_some (by simp [SourceFile.outline?, clear, filled]; rfl),
        List.flatMap_cons, List.count_append, ← f.map_sites_perm.count_eq, List.count,
        List.countP_map]
      rfl

/-- A name that occurs once is listed once, if it is listed only where it occurs and no site of its
source is listed twice. -/
theorem OccursOnce.listed_once (once : OccursOnce before source after n i)
    (plain : ∀ f ∈ before ++ source :: after, f.isObfuscated = false)
    (listed : ∀ f ∈ before ++ source :: after, ∀ k, (k, n) ∈ f.sites → NameAt f.text n k)
    (distinct : source.sites.Nodup) : (declaredNames (before ++ source :: after)).count n = 1 := by
  have none_ : ∀ sources : List SourceFile, (∀ f ∈ sources, f ∈ before ++ after) →
      (sources.flatMap (·.sites)).countP (·.2 == n) = 0 := by
    intro sources among
    simp only [List.countP_eq_zero, List.mem_flatMap, beq_iff_eq]
    rintro ⟨k, _⟩ ⟨f, member, inSites⟩ rfl
    have elsewhere := among f member
    have inAll : f ∈ before ++ source :: after := by
      simp only [List.mem_append, List.mem_cons] at elsewhere ⊢
      exact elsewhere.imp_right .inr
    exact once.elsewhere f elsewhere k (listed f inAll k inSites)
  -- The name occurs once in its source, so all its sites there are the same one.
  have own : source.sites.countP (·.2 == n) = source.sites.count (i, n) := by
    refine List.countP_congr fun site inSites => ?_
    simp only [beq_iff_eq]
    constructor
    · rintro rfl
      have here := (once.here site.1).mp (listed source (by simp) site.1 inSites)
      exact Prod.ext here rfl
    · rintro rfl
      rfl
  rw [count_declaredNames plain, List.flatMap_append, List.flatMap_cons,
    List.countP_append, List.countP_append, none_ before (by simp +contextual),
    none_ after (by simp +contextual), own, distinct.count, if_pos once.declared]

namespace QualityFindings

/-- A function or method is reported as often as the outlines list its name, if the name is no entry
point, occurs once, and is named in no position of use. -/
theorem declaration_without_use_reported {snapshot : Value} {context : StageContext}
    (shows_ : Shows snapshot (before ++ source :: after)) (numbers : context.settings.NumbersGiven)
    (short : NoneLonger context.settings (before ++ source :: after))
    (notEntry : isEntryPoint n = false) (once : OccursOnce before source after n i)
    (notNamed : NotNamed before source after n i) (recognised : Recognised source.text n i) :
    n ∈ declaredNames (before ++ source :: after)
      ∧ ReportsUnused (run context snapshot) n ((declaredNames (before ++ source :: after)).count n) := by
  have inSources : source ∈ before ++ source :: after := by simp
  have occurs := (once.here i).mpr rfl
  constructor
  · refine mem_declaredNames inSources (shows_.plain source inSources) ?_
      (SourceFile.mem_declaredNames_of_sites once.declared)
    have inText := occurs.inText
    rw [← Bool.not_eq_true, String.isEmpty_iff]
    intro empty
    rw [SourceFile.text, empty] at inText
    exact absurd inText (by simp [Text.ofString])
  · -- The limit cuts nothing off, so the texts that are looked through are those of the outlines.
    obtain ⟨cut, limited, reports⟩ := run_reports shows_ numbers
    have dead : isDead (References.ofFiles (Contents.filled
        ((before ++ source :: after).map fun f => (f.path, f.content)) []) cut) n = true := by
      rw [isDead, notEntry, Bool.not_false, Bool.true_and, Bool.not_eq_true', ← Bool.not_eq_true,
        Std.HashSet.contains_iff_mem, References.mem_ofFiles]
      rintro ⟨file, inFiles, used⟩
      simp only [Contents.filled, Contents.sorted, List.mem_filter, List.mem_mergeSort,
        List.mem_map] at inFiles
      obtain ⟨⟨f, member, rfl⟩, -⟩ := inFiles
      rw [scannedText_eq fun limit isLimit => short f member limit (by rw [limited, isLimit])] at used
      exact not_mem_fileReferences once notNamed recognised member used
    have reported := reports n
    rwa [if_pos dead] at reported

/-! ## Two projects -/

def snapshotOf (sources : List SourceFile) : Value :=
  .map [("_file_contents", .map (sources.map fun f => (f.path, .str f.content))),
    ("code_structure", .map [("files", frozenOutlines (ProjectStructure.ofSources sources).outlines)])]

theorem shows_snapshotOf {sources : List SourceFile} (filled : sources ≠ [])
    (plain : ∀ f ∈ sources, f.isObfuscated = false ∧ f.content.isEmpty = false) :
    Shows (snapshotOf sources) sources where
  plain := fun f member => (plain f member).1
  contents := by
    obtain ⟨first, rest, rfl⟩ := List.exists_cons_of_ne_nil filled
    simp [Snapshot.contents, snapshotOf, Value.field, Value.fieldOr, Value.orElse, Value.isGiven,
      Value.asStr, Value.str?, bind, Except.bind, pure, Except.pure]
  files := ⟨.list [], rfl, rfl⟩
  outlines := by
    obtain ⟨first, rest, rfl⟩ := List.exists_cons_of_ne_nil filled
    have outlined : first.outline? = some (first.kind.outline first.text first.path) := by
      obtain ⟨clear, nonempty⟩ := plain first (by simp)
      rw [SourceFile.outline?, clear, nonempty]
      rfl
    have published : Snapshot.outlines (snapshotOf (first :: rest))
        = .ok ((frozenOutlines (ProjectStructure.ofSources (first :: rest)).outlines).orElse
          (.list [])) := rfl
    rw [published]
    simp [Value.orElse, Value.isGiven, ProjectStructure.ofSources, outlined, frozenOutlines,
      Value.freeze, Value.freezeItems]
  dependencies := ⟨.list [], [], rfl, rfl⟩

/-- A name occurs where the offsets within the text say so. -/
theorem nameAt_iff_of_forall {t : Text} {n : String} {i : Nat}
    (all : ∀ k, k < t.size → (NameAt t n k ↔ k = i)) (inText : i < t.size) (k : Nat) :
    NameAt t n k ↔ k = i := by
  rcases Nat.lt_or_ge k t.size with inside | outside
  · exact all k inside
  · constructor
    · intro occurs
      have := occurs.inText
      omega
    · rintro rfl
      omega

/-- A function that nothing refers to. -/
def deadFunction : SourceFile := ⟨"a.js", .script, "function foo() \x7b\x7d", false⟩

def plainContext : StageContext where
  project := { rootPath := "project" }
  settings := { root := "project" }
  tree := ⟨"project", .directory []⟩
  now := 0

theorem functionWord_deadFunction : FunctionWord deadFunction.text 0 9 := by
  refine ⟨by decide +kernel, 9, by decide, ?_, 9, .inl rfl, 9, Nat.le_refl 9, .empty, 9, .inl rfl,
    Nat.le_refl 9, .empty⟩
  exact .one (c := ' ') (by decide +kernel) (by decide)

theorem occursOnce_deadFunction : OccursOnce [] deadFunction [] "foo" 9 where
  declared := by decide +kernel
  here := nameAt_iff_of_forall (by decide +kernel) (by decide +kernel)
  elsewhere := by simp

theorem notNamed_deadFunction : NotNamed [] deadFunction [] "foo" 9 := by
  have noStretch : useStretches deadFunction.text = [] := by decide +kernel
  have noTag : namesOf deadFunction.text kebabTagPattern = [] := by decide +kernel
  refine ⟨?_, ?_, ?_⟩
  · intro f member tag inTags
    obtain rfl : f = deadFunction := by simpa using member
    rw [noTag] at inTags
    cases inTags
  · intro stretch member
    rw [noStretch] at member
    cases member
  · rintro f member k ⟨-, stretch, inStretches, -⟩
    obtain rfl : f = deadFunction := by simpa using member
    rw [noStretch] at inStretches
    cases inStretches

theorem recognised_deadFunction : Recognised deadFunction.text "foo" 9 where
  keyword := by
    rintro - k ⟨spelled, a, order, -, a', _, b, _, -, b', _, _, -⟩
    have first : ∀ k, k < 2 → deadFunction.text[k]? = some 'f' → k = 0 := by decide +kernel
    obtain rfl : k = 0 := first k (by omega) (spelled 0 (by decide))
    exact ⟨by decide, fun c positive => absurd positive (Nat.lt_irrefl 0)⟩
  header := fun _ noWord => absurd functionWord_deadFunction (noWord 0)

theorem deadFunction_reported :
    "foo" ∈ declaredNames [deadFunction]
      ∧ ReportsUnused (run plainContext (snapshotOf [deadFunction])) "foo" 1 := by
  have shows_ : Shows (snapshotOf [deadFunction]) ([] ++ deadFunction :: []) :=
    shows_snapshotOf (by simp) (by simp [deadFunction])
  have short : NoneLonger plainContext.settings ([] ++ deadFunction :: []) := by
    intro f member limit isLimit
    obtain rfl : f = deadFunction := by simpa using member
    cases isLimit
    decide
  obtain ⟨declared, reports⟩ := declaration_without_use_reported shows_
    ⟨⟨_, rfl⟩, ⟨_, rfl⟩, ⟨_, rfl⟩, ⟨_, rfl⟩⟩ short (by decide) occursOnce_deadFunction
    notNamed_deadFunction recognised_deadFunction
  have listed : (declaredNames ([] ++ deadFunction :: [])).count "foo" = 1 := by decide +kernel
  rw [listed] at reports
  exact ⟨declared, reports⟩

/-- A component whose name occurs once in the scripts, and a template that has its tag. -/
def panelFunction : SourceFile := ⟨"a.js", .script, "function MyPanel() \x7b\x7d", false⟩

def panelTemplate : SourceFile :=
  ⟨"b.vue", .component, "<template><my-panel></my-panel></template>", false⟩

theorem occursOnce_panelFunction : OccursOnce [] panelFunction [panelTemplate] "MyPanel" 9 where
  declared := by decide +kernel
  here := nameAt_iff_of_forall (by decide +kernel) (by decide +kernel)
  elsewhere := by
    intro f member k occurs
    obtain rfl : f = panelTemplate := by simpa using member
    have none_ : ∀ k, k < panelTemplate.text.size → ¬NameAt panelTemplate.text "MyPanel" k := by
      decide +kernel
    exact none_ k occurs.inText occurs

theorem panelTemplate_uses : "MyPanel" ∈ fileReferences panelTemplate.text := by
  have tag : "MyPanel" ∈ (namesOf panelTemplate.text kebabTagPattern).map componentName := by
    decide +kernel
  simp only [fileReferences, List.mem_filter, List.mem_append]
  exact ⟨.inl (.inl (.inr tag)), by decide⟩

theorem occurs_once_and_not_reported :
    ¬∀ (before after : List SourceFile) (source : SourceFile) (n : String) (i : Nat)
        (snapshot : Value) (context : StageContext),
      Shows snapshot (before ++ source :: after) → context.settings.NumbersGiven →
      NoneLonger context.settings (before ++ source :: after) → isEntryPoint n = false →
      OccursOnce before source after n i → ReportsUnused (run context snapshot) n 1 := by
  intro claimed
  have shows_ : Shows (snapshotOf [panelFunction, panelTemplate])
      ([] ++ panelFunction :: [panelTemplate]) :=
    shows_snapshotOf (by simp) (by simp [panelFunction, panelTemplate])
  have short : NoneLonger plainContext.settings ([] ++ panelFunction :: [panelTemplate]) := by
    intro f member limit isLimit
    cases isLimit
    simp only [List.nil_append, List.mem_cons, List.not_mem_nil, or_false] at member
    rcases member with rfl | rfl
    · decide
    · decide
  have numbers : plainContext.settings.NumbersGiven := ⟨⟨_, rfl⟩, ⟨_, rfl⟩, ⟨_, rfl⟩, ⟨_, rfl⟩⟩
  have once := claimed _ _ _ _ _ _ plainContext shows_ numbers short (by decide)
    occursOnce_panelFunction
  obtain ⟨cut, limited, reports⟩ := run_reports shows_ numbers
  have alive : isDead (References.ofFiles (Contents.filled
      (([] ++ panelFunction :: [panelTemplate]).map fun f : SourceFile => (f.path, f.content)) [])
        cut) "MyPanel" = false := by
    rw [isDead, Bool.and_eq_false_iff, Bool.not_eq_false', Bool.not_eq_false',
      Std.HashSet.contains_iff_mem, References.mem_ofFiles]
    refine .inr ⟨(panelTemplate.path, panelTemplate.content), ?_, ?_⟩
    · simp [Contents.filled, Contents.sorted, panelFunction, panelTemplate]
    · cases limited
      rw [scannedText_eq (by rintro limit isLimit; cases isLimit; decide)]
      exact panelTemplate_uses
  have never := reports "MyPanel"
  rw [alive] at never
  exact absurd (once.unique never) (by decide)

end QualityFindings

end Surveyor
