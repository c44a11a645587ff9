import Surveyor.Proofs.Pattern.Spelling
import Surveyor.Proofs.Quality.Calls
import Surveyor.Proofs.Source.DeclarationLines
import Surveyor.Proofs.Source.ImportNames
import Surveyor.Source.Language

/-! # Which imports are reported

An imported name is reported if it occurs at most once in its file. Occurrences of a name do not
overlap, so the search that counts them finds each one (`length_occurrences_le_one_iff`). The count
takes in the import itself with everything that stands there, so a name that its own path repeats is
not reported.
-/

namespace Surveyor

open Pattern Reference

variable {t : Text} {n : String} {i j k : Nat} {m : Match}

theorem Reference.NameAt.end_le (occurs : NameAt t n i) : i + n.length ≤ t.size := by
  have nonempty := occurs.nonempty
  obtain ⟨_, last, -⟩ := occurs.stands (i + n.length - 1) (by omega) (by omega)
  obtain ⟨inText, -⟩ := Array.getElem?_eq_some_iff.mp last
  omega

/-! ## Counting a name -/

/-- At most one occurrence of the name starts in the stretch. -/
def OccursAtMostOnce (t : Text) (n : String) (a b : Nat) : Prop :=
  ∀ k l, a ≤ k → k < b → a ≤ l → l < b → NameAt t n k → NameAt t n l → k = l

section

variable (nonempty : 0 < n.length) (chars : ∀ c ∈ n.toList, isNameChar c = true)

include nonempty chars

theorem mem_ways_wholeName {after : Captures} :
    (j, after) ∈ (wholeName n).ways (.ofText t) i [] ↔
      NameAt t n i ∧ j = i + n.length ∧ after = [] := by
  simp only [wholeName, notAfter, notNext, mem_ways_append, mem_ways_where, mem_ways_lit_ofText,
    Bool.not_eq_true', ← Bool.not_eq_true, Subject.hasBefore_iff, Subject.has_ofText]
  constructor
  · rintro ⟨_, _, ⟨_, _, ⟨fresh, rfl, rfl⟩, spelled, rfl, rfl⟩, ended, rfl, rfl⟩
    refine ⟨⟨nonempty, chars, spelled, ?_, ?_⟩, rfl, rfl⟩
    · intro c positive before
      rw [← Bool.not_eq_true]
      exact fun inName => fresh ⟨positive, c, before, inName⟩
    · intro c next
      rw [← Bool.not_eq_true]
      exact fun inName => ended ⟨c, next, inName⟩
  · rintro ⟨occurs, rfl, rfl⟩
    refine ⟨_, _, ⟨i, [], ⟨?_, rfl, rfl⟩, occurs.here, rfl, rfl⟩, ?_, rfl, rfl⟩
    · rintro ⟨positive, c, before, inName⟩
      rw [occurs.startsFresh c positive before] at inName
      cases inName
    · rintro ⟨c, next, inName⟩
      rw [occurs.endsHere c next] at inName
      cases inName

theorem nameAt_of_mem_wholeName (found : m ∈ (wholeName n).findAll (.ofText t)) :
    NameAt t n m.start ∧ m.stop = m.start + n.length := by
  obtain ⟨occurs, stops, -⟩ := (mem_ways_wholeName nonempty chars).mp (isMatch_of_mem_findAll found)
  exact ⟨occurs, stops⟩

theorem exists_match_of_nameAt (occurs : NameAt t n k) :
    ∃ m ∈ (wholeName n).findAll (.ofText t), m.start = k := by
  obtain ⟨m, matched⟩ :=
    exists_matchAt? ((mem_ways_wholeName nonempty chars).mpr ⟨occurs, rfl, rfl⟩)
  rcases covered_of_matchAt? (Nat.le_of_lt occurs.inText) matched with
    found | ⟨earlier, found, after, before⟩
  · exact ⟨m, found, (isMatch_of_matchAt? matched).1⟩
  · -- Within another occurrence a name character precedes, so no occurrence starts there.
    obtain ⟨around, stops⟩ := nameAt_of_mem_wholeName nonempty chars found
    obtain ⟨c, previous, inName⟩ := around.stands (k - 1) (by omega) (by omega)
    rw [occurs.startsFresh c (by omega) previous] at inName
    cases inName

theorem length_occurrences_le_one_iff :
    ((wholeName n).findAll (.ofText t)).length ≤ 1 ↔ OccursAtMostOnce t n 0 t.size := by
  constructor
  · intro few k l _ _ _ _ first second
    obtain ⟨m, found, rfl⟩ := exists_match_of_nameAt nonempty chars first
    obtain ⟨m', found', rfl⟩ := exists_match_of_nameAt nonempty chars second
    match listed : (wholeName n).findAll (.ofText t), few with
    | [], _ =>
      rw [listed] at found
      cases found
    | [only], _ =>
      rw [listed] at found found'
      rw [List.mem_singleton.mp found, List.mem_singleton.mp found']
  · intro once
    have ordered := findAllFrom_pairwise (wholeName n) (.ofText t) 0
    have each := fun (m : Match) (found : m ∈ (wholeName n).findAll (.ofText t)) =>
      nameAt_of_mem_wholeName nonempty chars found
    match listed : (wholeName n).findAll (.ofText t) with
    | [] => exact Nat.zero_le 1
    | [only] => exact Nat.le_refl 1
    | first :: second :: rest =>
      -- The search goes on behind the first match, so the second one starts elsewhere.
      rw [findAll] at listed
      rw [listed, List.pairwise_cons] at ordered
      have later := ordered.1 second (by simp)
      have here := (each first (by rw [findAll, listed]; simp)).1
      have there := (each second (by rw [findAll, listed]; simp)).1
      have same := once _ _ (Nat.zero_le _) here.inText (Nat.zero_le _) there.inText here there
      unfold resumeAt at later
      split at later <;> omega

end

/-! ## The names of an import -/

/-- The names that an import binds and that are no variables. -/
def Import.checkedNames (i : Import) : List String :=
  (if i.specifiers.isEmpty then i.localName.toList else i.specifiers).filter fun name =>
    !name.isEmpty && !Text.hasPrefix name "$"

theorem checkedName?_str (name : String) :
    checkedName? (.str name)
      = .ok (if !name.isEmpty && !Text.hasPrefix name "$" then some name else none) := by
  unfold checkedName?
  cases empty : name.isEmpty <;> cases variable_ : Text.hasPrefix name "$" <;>
    simp [Value.isGiven, empty, variable_, Value.textFor, bind, Except.bind, pure, Except.pure]

theorem membersUnder_of_field {v : Value} {key : String} {items : List Value}
    (here : v.field key = .ok (.list items)) : v.membersUnder key = .ok items := by
  rw [Value.membersUnder, here]
  cases items with
  | nil => rfl
  | cons item rest => rfl

theorem boundNames_toValue (i : Import) :
    ∃ names : List String, boundNames i.toValue = .ok (names.map Value.str)
      ∧ names.filter (fun name => !name.isEmpty && !Text.hasPrefix name "$") = i.checkedNames := by
  have specifiers : i.toValue.membersUnder "specifiers" = .ok (i.specifiers.map Value.str) :=
    membersUnder_of_field rfl
  have alternative : i.toValue.field "alias" = .ok (Value.ofOption i.localName) := rfl
  rw [boundNames, specifiers, alternative, Import.checkedNames]
  simp only [bind, Except.bind, pure, Except.pure, List.isEmpty_map]
  cases none_ : i.specifiers.isEmpty with
  | false => exact ⟨i.specifiers, by simp, by simp⟩
  | true =>
    -- Without specifiers the alias stands in, unless it is missing or empty.
    rw [List.isEmpty_iff.mp none_]
    cases i.localName with
    | none => exact ⟨[], by simp [Value.ofOption, Value.isGiven], by simp⟩
    | some name =>
      cases empty : name.isEmpty with
      | true => exact ⟨[], by simp [Value.ofOption, Value.isGiven, empty], by simp [empty]⟩
      | false => exact ⟨[name], by simp [Value.ofOption, Value.isGiven, empty], by simp⟩

theorem unusedImportsIn_toValue (s : Subject) (path : Value) (i : Import) :
    unusedImportsIn s path i.toValue
      = .ok ((i.checkedNames.filter (occursAtMostOnce s)).map
          (unusedImport path (.int i.line) (.str i.source))) := by
  obtain ⟨names, bound, checked⟩ := boundNames_toValue i
  have checkedAll : (names.map Value.str).mapM checkedName? = .ok (names.map fun name =>
      if !name.isEmpty && !Text.hasPrefix name "$" then some name else none) := by
    rw [List.mapM_map]
    exact mapM_eq_ok_map fun name _ => checkedName?_str name
  have kept : (names.map fun name =>
      if !name.isEmpty && !Text.hasPrefix name "$" then some name else none).filterMap id
        = i.checkedNames := by
    rw [← checked, List.filterMap_map, ← List.filterMap_eq_filter]
    rfl
  have line : i.toValue.field "line" = .ok (.int i.line) := rfl
  have source : i.toValue.field "source" = .ok (.str i.source) := rfl
  rw [unusedImportsIn, bound, line, source]
  simp only [bind, Except.bind, pure, Except.pure] at checkedAll ⊢
  rw [checkedAll]
  simp only [kept]

theorem unusedImports_toValue {content : String} (filled : content ≠ "") (o : Outline) :
    unusedImports (.list [o.toValue]) [(o.path, content)]
      = .ok (o.imports.flatMap fun i =>
          (i.checkedNames.filter (occursAtMostOnce (.ofString content))).map
            (unusedImport (.str o.path) (.int i.line) (.str i.source))) := by
  have outlines : outlinesByPath (.list [o.toValue]) = .ok [(.str o.path, o.toValue)] := by
    have path : o.toValue.entry "path" = .ok (.str o.path) := rfl
    simp [outlinesByPath, Value.members, Value.sortedBy, path, Value.str?, bind, Except.bind, pure,
      Except.pure]
  have there : Contents.filledAt? [(o.path, content)] (.str o.path) = .ok (some content) := by
    simp [Contents.filledAt?, Contents.filled?, Value.asKey, Value.isKey, filled, bind, Except.bind,
      pure, Except.pure]
  have imports : o.toValue.membersUnder "imports" = .ok (o.imports.map Import.toValue) :=
    membersUnder_of_field rfl
  have each : (o.imports.map Import.toValue).mapM (unusedImportsIn (.ofString content) (.str o.path))
      = .ok (o.imports.map fun i =>
          (i.checkedNames.filter (occursAtMostOnce (.ofString content))).map
            (unusedImport (.str o.path) (.int i.line) (.str i.source))) := by
    rw [List.mapM_map]
    exact mapM_eq_ok_map fun i _ => unusedImportsIn_toValue _ _ i
  have here : unusedImportsOf [(o.path, content)] (.str o.path) o.toValue
      = .ok (o.imports.map fun i =>
          (i.checkedNames.filter (occursAtMostOnce (.ofString content))).map
            (unusedImport (.str o.path) (.int i.line) (.str i.source))).flatten := by
    rw [unusedImportsOf, there]
    simp only [imports, bind, Except.bind, pure, Except.pure] at each ⊢
    rw [each]
  rw [unusedImports, outlines]
  simp only [List.mapM_cons, List.mapM_nil, here, bind, Except.bind, pure, Except.pure,
    List.flatten_cons, List.flatten_nil, List.append_nil, List.flatMap_def]

/-! ## What is reported -/

theorem unusedImport_name {path line source : Value} {path' line' source' : Value} {n n' : String}
    (same : unusedImport path line source n = unusedImport path' line' source' n') : n = n' := by
  have names := congrArg Issue.name same
  exact Value.str.inj names

theorem mem_unusedImports_iff {content : String} (filled : content ≠ "") {o : Outline} {i : Import}
    (imported : i ∈ o.imports) (bound : n ∈ i.checkedNames) :
    ∃ issues, unusedImports (.list [o.toValue]) [(o.path, content)] = .ok issues
      ∧ (unusedImport (.str o.path) (.int i.line) (.str i.source) n ∈ issues ↔
        occursAtMostOnce (.ofString content) n = true) := by
  refine ⟨_, unusedImports_toValue filled o, ?_⟩
  simp only [List.mem_flatMap, List.mem_map, List.mem_filter]
  constructor
  · rintro ⟨_, -, n', ⟨-, once⟩, same⟩
    rwa [← unusedImport_name same]
  · intro once
    exact ⟨i, imported, n, ⟨bound, once⟩, rfl⟩

theorem hasPrefix_dollar (plain : n.toList.head? ≠ some '$') : Text.hasPrefix n "$" = false := by
  rw [Text.hasPrefix]
  cases chars : n.toList with
  | nil => rfl
  | cons c rest =>
    rw [chars, List.head?_cons] at plain
    have other : ('$' == c) = false := beq_eq_false_iff_ne.mpr fun same => plain (by rw [same])
    simp [List.isPrefixOf, other]

/-- The outlines of the empty text import nothing. -/
theorem imports_empty (kind : SourceKind) (path : String) :
    (kind.outline (Text.ofString "") path).imports = [] := by
  cases kind with
  | php => rfl
  | script => exact List.mergeSort_nil
  | component => rfl

/-- A name that a script or PHP file imports and that occurs nowhere outside of the import is reported
exactly if it occurs there at most once. -/
theorem import_reported_iff {kind : SourceKind} {content path : String} {i : Import}
    (imported : i ∈ (kind.outline (Text.ofString content) path).imports) {n : String}
    (bound : n ∈ i.specifiers) (nonempty : 0 < n.length) (chars : ∀ c ∈ n.toList, isNameChar c = true)
    (plain : n.toList.head? ≠ some '$')
    (own : ∀ k, NameAt (Text.ofString content) n k → i.start ≤ k ∧ k + n.length ≤ i.stop) :
    ∃ issues,
      unusedImports (.list [(kind.outline (Text.ofString content) path).toValue]) [(path, content)]
        = .ok issues
      ∧ (unusedImport (.str path) (.int i.line) (.str i.source) n ∈ issues ↔
        OccursAtMostOnce (Text.ofString content) n i.start i.stop) := by
  have filled : content ≠ "" := by
    rintro rfl
    rw [imports_empty] at imported
    cases imported
  have checked : n ∈ i.checkedNames := by
    have some_ : i.specifiers.isEmpty = false := by
      rw [← Bool.not_eq_true, List.isEmpty_iff]
      exact List.ne_nil_of_mem bound
    rw [Import.checkedNames, some_, if_neg Bool.false_ne_true, List.mem_filter]
    refine ⟨bound, ?_⟩
    have some_ : n ≠ "" := by
      rintro rfl
      exact absurd nonempty (by decide)
    simp [some_, hasPrefix_dollar plain]
  obtain ⟨issues, found, reported⟩ := mem_unusedImports_iff filled imported checked
  rw [path_outline] at found reported
  refine ⟨issues, found, reported.trans ?_⟩
  rw [occursAtMostOnce, decide_eq_true_eq, Subject.ofString,
    length_occurrences_le_one_iff nonempty chars]
  constructor
  · intro once k l _ _ _ _ first second
    exact once k l (Nat.zero_le k) first.inText (Nat.zero_le l) second.inText first second
  · intro once k l _ _ _ _ first second
    have := own k first
    have := own l second
    exact once k l (by omega) (by omega) (by omega) (by omega) first second

def unusedFoo : String := "import foo from './bar'"

/-- A script that imports a name from a file of the same name, and does not use it. -/
def namesakeFoo : String := "import foo from './foo'"

theorem foo_isName : ∀ c ∈ "foo".toList, isNameChar c = true := List.all_eq_true.mp (by decide)

theorem importOf_mem_imports (found : m ∈ Script.importPattern.findAll (.ofText t)) (path : String) :
    Script.importOf t (LineIndex.ofText t 1) m ∈ (SourceKind.script.outline t path).imports := by
  refine List.mem_mergeSort.mpr (List.mem_append_left _ (List.mem_append_left _ ?_))
  exact List.mem_map.mpr ⟨m, found, rfl⟩

theorem exists_import_foo {content : String} (listed : content = unusedFoo ∨ content = namesakeFoo) :
    ∃ i ∈ (SourceKind.script.outline (Text.ofString content) "a.js").imports,
      "foo" ∈ i.specifiers ∧ ∀ k, NameAt (Text.ofString content) "foo" k →
        i.start ≤ k ∧ k + "foo".length ≤ i.stop := by
  have found : ∃ m ∈ Script.importPattern.findAll (.ofText (Text.ofString content)),
      "foo" ∈ (Script.importOf (Text.ofString content) (LineIndex.ofText (Text.ofString content) 1)
          m).specifiers
        ∧ m.start = 0 ∧ m.stop = (Text.ofString content).size := by
    rcases listed with rfl | rfl <;> decide +kernel
  obtain ⟨m, found, bound, starts, stops⟩ := found
  have imported := importOf_mem_imports found "a.js"
  rw [importOf_eq] at bound imported
  refine ⟨_, imported, bound, fun k occurs => ?_⟩
  -- The import is the whole text.
  have whole : k + "foo".length ≤ (Text.ofString content).size := occurs.end_le
  exact ⟨Nat.le_trans (Nat.le_of_eq starts) (Nat.zero_le k),
    Nat.le_trans whole (Nat.le_of_eq stops.symm)⟩

theorem unused_foo_reported :
    ∃ i ∈ (SourceKind.script.outline (Text.ofString unusedFoo) "a.js").imports,
      ∃ issues, unusedImports
          (.list [(SourceKind.script.outline (Text.ofString unusedFoo) "a.js").toValue])
          [("a.js", unusedFoo)] = .ok issues
        ∧ unusedImport (.str "a.js") (.int i.line) (.str i.source) "foo" ∈ issues := by
  obtain ⟨i, imported, bound, own⟩ := exists_import_foo (.inl rfl)
  obtain ⟨issues, found, reported⟩ :=
    import_reported_iff imported bound (by decide) foo_isName (by decide) own
  refine ⟨i, imported, issues, found, reported.mpr ?_⟩
  have only : ∀ k, k < (Text.ofString unusedFoo).size →
      NameAt (Text.ofString unusedFoo) "foo" k → k = 7 := by decide
  intro k l _ _ _ _ first second
  rw [only k first.inText first, only l second.inText second]

theorem namesake_foo_not_reported :
    ¬∀ (kind : SourceKind) (content path : String) (i : Import) (n : String),
      kind ≠ .component → i ∈ (kind.outline (Text.ofString content) path).imports → n ∈ i.specifiers →
      0 < n.length → (∀ c ∈ n.toList, isNameChar c = true) → n.toList.head? ≠ some '$' →
      (∀ k, NameAt (Text.ofString content) n k → i.start ≤ k ∧ k + n.length ≤ i.stop) →
      ∃ issues,
        unusedImports (.list [(kind.outline (Text.ofString content) path).toValue]) [(path, content)]
          = .ok issues
        ∧ unusedImport (.str path) (.int i.line) (.str i.source) n ∈ issues := by
  intro claimed
  obtain ⟨i, imported, bound, own⟩ := exists_import_foo (.inr rfl)
  obtain ⟨issues, found, reported⟩ := claimed .script namesakeFoo "a.js" i "foo" (by simp) imported
    bound (by decide) foo_isName (by decide) own
  obtain ⟨_, foundToo, onlyIf⟩ :=
    import_reported_iff imported bound (by decide) foo_isName (by decide) own
  cases found.symm.trans foundToo
  have first : NameAt (Text.ofString namesakeFoo) "foo" 7 := by decide
  have second : NameAt (Text.ofString namesakeFoo) "foo" 19 := by decide
  obtain ⟨fromFirst, toFirst⟩ := own 7 first
  obtain ⟨fromSecond, toSecond⟩ := own 19 second
  have length : "foo".length = 3 := by decide
  have same := onlyIf.mp reported 7 19 fromFirst (by omega) fromSecond (by omega) first second
  cases same

end Surveyor
