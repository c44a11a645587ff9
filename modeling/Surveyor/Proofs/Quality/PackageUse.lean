import Mathlib.Data.List.TakeDrop
import Mathlib.Data.List.TakeWhile
import Surveyor.Proofs.Pattern.Spelling
import Surveyor.Proofs.Quality.Origins

/-! # Which packages count as used

A package without a vendor is used where its name stands between a quotation mark and a quotation mark
or slash. It is used as well where an import opens a quotation that starts with its name, whatever
follows: there a package also counts as used when only another one is imported whose name is longer.
-/

namespace Surveyor

open Pattern

namespace Dependency

variable {t : Text} {n : String} {i j k : Nat}

/-! ## Imports -/

/-- A quotation mark, and behind it the name and a quotation mark or slash. -/
structure QuotedAt (t : Text) (n : String) (i : Nat) : Prop where
  opens : Holds t isAnyQuote i
  name : Spelled t n (i + 1)
  closes : Holds t (fun c => isAnyQuote c || c == '/') (i + 1 + n.length)

theorem quotedAt_iff :
    QuotedAt t n i ↔ Holds t isAnyQuote i ∧ Spelled t n (i + 1)
      ∧ Holds t (fun c => isAnyQuote c || c == '/') (i + 1 + n.length) :=
  ⟨fun ⟨opens, name, closes⟩ => ⟨opens, name, closes⟩, fun ⟨opens, name, closes⟩ => ⟨opens, name, closes⟩⟩

instance : Decidable (QuotedAt t n i) := decidable_of_iff _ quotedAt_iff.symm

/-- What an import has before the quoted name of its package, as words of their own: `from` and
blanks, or `require` or `import` and a parenthesis with blanks on both sides. -/
inductive ImportWords (t : Text) (i : Nat) : Nat → Prop where
  | call {word : String} {j paren : Nat} (calls : word ∈ ["require", "import"]) (fresh : Fresh t i)
      (spelled : Spelled t word i) (order : i + word.length ≤ paren)
      (before : Stands t isBlank (i + word.length) paren) (opens : t[paren]? = some '(')
      (within : paren + 1 ≤ j) (behind : Stands t isBlank (paren + 1) j) : ImportWords t i j
  | clause {j : Nat} (fresh : Fresh t i) (spelled : Spelled t "from" i)
      (separated : i + "from".length + 1 ≤ j) (blank : Stands t isBlank (i + "from".length) j) :
      ImportWords t i j

/-- An import opens a quotation that starts with the name. -/
structure ImportOpens (t : Text) (n : String) (i j : Nat) : Prop where
  words : ImportWords t i j
  opens : Holds t isAnyQuote j
  name : Spelled t n (j + 1)

/-- The text imports the package, or one whose name starts with its name. -/
def Imports (t : Text) (n : String) : Prop :=
  (∃ i, QuotedAt t n i) ∨ ∃ i j, ImportOpens t n i j

/-! ## The patterns of a package -/

theorem mem_ways_quoted {after : Captures} :
    (j, after) ∈ (Pattern.one isAnyQuote ++ lit n ++ .one fun c => isAnyQuote c || c == '/').ways
        (.ofText t) i [] ↔
      QuotedAt t n i ∧ j = i + 1 + n.length + 1 ∧ after = [] := by
  simp only [mem_ways_append, mem_ways_one_ofText, mem_ways_lit_ofText]
  constructor
  · rintro ⟨_, _, ⟨_, _, ⟨opens, rfl, rfl⟩, name, rfl, rfl⟩, closes, rfl, rfl⟩
    exact ⟨⟨opens, name, closes⟩, rfl, rfl⟩
  · rintro ⟨⟨opens, name, closes⟩, rfl, rfl⟩
    exact ⟨_, _, ⟨_, _, ⟨opens, rfl, rfl⟩, name, rfl, rfl⟩, closes, rfl, rfl⟩

theorem mem_ways_call {lead : Pattern} {after : Captures} :
    (k, after) ∈ (lead ++ blanks ++ char '(' ++ blanks ++ Pattern.one isAnyQuote ++ lit n).ways
        (.ofText t) i [] ↔
      ∃ wordEnd paren j, (wordEnd, after) ∈ lead.ways (.ofText t) i [] ∧ wordEnd ≤ paren
        ∧ Stands t isBlank wordEnd paren ∧ t[paren]? = some '(' ∧ paren + 1 ≤ j
        ∧ Stands t isBlank (paren + 1) j ∧ Holds t isAnyQuote j ∧ Spelled t n (j + 1)
        ∧ k = j + 1 + n.length := by
  simp only [mem_ways_append, mem_ways_one_ofText, mem_ways_lit_ofText, mem_ways_char_ofText, blanks,
    mem_ways_greedy_ofText, Nat.add_zero]
  constructor
  · rintro ⟨_, _, ⟨j, _, ⟨_, _, ⟨paren, _, ⟨wordEnd, _, leadWay, order, before, rfl⟩, opens, rfl, rfl⟩,
      within, behind, rfl⟩, quoted, rfl, rfl⟩, name, rfl, rfl⟩
    exact ⟨wordEnd, paren, j, leadWay, order, before, opens, within, behind, quoted, name, rfl⟩
  · rintro ⟨wordEnd, paren, j, leadWay, order, before, opens, within, behind, quoted, name, rfl⟩
    exact ⟨_, _, ⟨j, _, ⟨_, _, ⟨paren, _, ⟨wordEnd, _, leadWay, order, before, rfl⟩, opens, rfl, rfl⟩,
      within, behind, rfl⟩, quoted, rfl, rfl⟩, name, rfl, rfl⟩

theorem mem_ways_clause {lead : Pattern} {after : Captures} :
    (k, after) ∈ (lead ++ blanks1 ++ Pattern.one isAnyQuote ++ lit n).ways (.ofText t) i [] ↔
      ∃ wordEnd j, (wordEnd, after) ∈ lead.ways (.ofText t) i [] ∧ wordEnd + 1 ≤ j
        ∧ Stands t isBlank wordEnd j ∧ Holds t isAnyQuote j ∧ Spelled t n (j + 1)
        ∧ k = j + 1 + n.length := by
  simp only [mem_ways_append, mem_ways_one_ofText, mem_ways_lit_ofText, blanks1,
    mem_ways_greedy_ofText]
  constructor
  · rintro ⟨_, _, ⟨j, _, ⟨wordEnd, _, leadWay, separated, blank, rfl⟩, quoted, rfl, rfl⟩, name, rfl,
      rfl⟩
    exact ⟨wordEnd, j, leadWay, separated, blank, quoted, name, rfl⟩
  · rintro ⟨wordEnd, j, leadWay, separated, blank, quoted, name, rfl⟩
    exact ⟨_, _, ⟨j, _, ⟨wordEnd, _, leadWay, separated, blank, rfl⟩, quoted, rfl, rfl⟩, name, rfl,
      rfl⟩

/-- A name that no vendor stands before has no patterns but those of imports. -/
theorem namespacePatterns_of_no_slash (noSlash : '/' ∉ n.toList) : namespacePatterns n = [] := by
  have plain : ∀ c ∈ n.toList, (c != '/') = true := by
    intro c inName
    rw [bne_iff_ne]
    rintro rfl
    exact noSlash inName
  have rest : n.toList.dropWhile (· != '/') = [] := List.dropWhile_eq_nil_iff.mpr plain
  rw [namespacePatterns, Text.splitOnce, List.span_eq_takeWhile_dropWhile, rest]

theorem anyOccurs_importPatterns_iff :
    anyOccurs (importPatterns n) (.ofText t) = true ↔ Imports t n := by
  simp only [anyOccurs, importPatterns, List.any_cons, List.any_nil, Bool.or_false, Bool.or_eq_true,
    occursIn_ofText_iff]
  constructor
  · rintro (⟨i, _, _, -, way⟩ | ⟨i, _, _, -, way⟩ | ⟨i, _, _, -, way⟩ | ⟨i, _, _, -, way⟩)
    · exact .inl ⟨i, (mem_ways_quoted.mp way).1⟩
    · obtain ⟨_, paren, j, leadWay, order, before, opens, within, behind, quoted, name, -⟩ :=
        mem_ways_call.mp way
      obtain ⟨fresh, spelled, rfl, -⟩ :=
        (mem_ways_edgedLit_ofText (c := 'r') (by decide) (by decide)).mp leadWay
      exact .inr ⟨i, j, .call (by simp) fresh spelled order before opens within behind, quoted, name⟩
    · obtain ⟨_, j, leadWay, separated, blank, quoted, name, -⟩ := mem_ways_clause.mp way
      obtain ⟨fresh, spelled, rfl, -⟩ :=
        (mem_ways_edgedLit_ofText (c := 'f') (by decide) (by decide)).mp leadWay
      exact .inr ⟨i, j, .clause fresh spelled separated blank, quoted, name⟩
    · obtain ⟨_, paren, j, leadWay, order, before, opens, within, behind, quoted, name, -⟩ :=
        mem_ways_call.mp way
      obtain ⟨fresh, spelled, rfl, -⟩ :=
        (mem_ways_edgedLit_ofText (c := 'i') (by decide) (by decide)).mp leadWay
      exact .inr ⟨i, j, .call (by simp) fresh spelled order before opens within behind, quoted, name⟩
  · -- The converse goes by the words before the quotation: each kind has a pattern of its own.
    rintro (⟨i, quoted⟩ | ⟨i, j, words, quoted, name⟩)
    · exact .inl ⟨i, _, _, Nat.le_of_lt quoted.opens.lt_size, mem_ways_quoted.mpr ⟨quoted, rfl, rfl⟩⟩
    · have inText : j ≤ t.size := Nat.le_of_lt quoted.lt_size
      cases words with
      | @call word _ paren calls fresh spelled order before opens within behind =>
        have way : ∀ {c : Char}, word.toList.head? = some c → isWordChar c = true →
            (j + 1 + n.length, []) ∈ (wordEdge ++ lit word ++ blanks ++ char '(' ++ blanks
              ++ Pattern.one isAnyQuote ++ lit n).ways (.ofText t) i [] := fun first inWord =>
          mem_ways_call.mpr ⟨_, paren, j,
            (mem_ways_edgedLit_ofText first inWord).mpr ⟨fresh, spelled, rfl, rfl⟩, order, before,
            opens, within, behind, quoted, name, rfl⟩
        simp only [List.mem_cons, List.not_mem_nil, or_false] at calls
        rcases calls with rfl | rfl
        · exact .inr (.inl ⟨i, _, _, by omega, way (c := 'r') (by decide) (by decide)⟩)
        · exact .inr (.inr (.inr
            ⟨i, _, _, by omega, way (c := 'i') (by decide) (by decide)⟩))
      | clause fresh spelled separated blank =>
        refine .inr (.inr (.inl ⟨i, _, _, by omega, mem_ways_clause.mpr ⟨_, j,
          (mem_ways_edgedLit_ofText (c := 'f') (by decide) (by decide)).mpr
            ⟨fresh, spelled, rfl, rfl⟩, separated, blank, quoted, name, rfl⟩⟩))

/-! ## What is reported -/

/-- The entry declares a production dependency of the name, version and source. -/
structure IsProduction (entry : Value) (n : String) (version source : Value) : Prop where
  name : entry.field "name" = .ok (.str n)
  type : entry.fieldOr "type" (.str "production") = .ok (.str "production")
  version : entry.field "version" = .ok version
  source : entry.field "source" = .ok source

theorem ofEntry?_of_isProduction {entry version source : Value}
    (production : IsProduction entry n version source) (nonempty : n ≠ "")
    (seen : isImplicitDependency n = false) : ofEntry? entry = .ok (some ⟨n, version, source⟩) := by
  have given : (Value.str n).isGiven = true := by simpa [Value.isGiven] using nonempty
  simp only [production.name, ofEntry?, production.type, production.version, production.source, given,
    seen, Value.textFor, Value.str?, bind, Except.bind, pure, Except.pure]
  rfl

theorem mem_importingSources {contents : Contents} {s : Subject} :
    s ∈ importingSources contents ↔
      ∃ path content, (path, content) ∈ contents ∧ Text.baseName path ∉ manifestNames ∧ content ≠ ""
        ∧ s = .ofString content := by
  simp only [importingSources, Contents.filled, Contents.sorted, List.mem_map, List.mem_filter,
    List.mem_mergeSort, Prod.exists]
  constructor
  · rintro ⟨path, content, ⟨⟨listed, filled⟩, other⟩, rfl⟩
    exact ⟨path, content, listed, by simpa using other, by simpa using filled, rfl⟩
  · rintro ⟨path, content, listed, other, filled, rfl⟩
    exact ⟨path, content, ⟨⟨listed, by simpa using filled⟩, by simpa using other⟩, rfl⟩

theorem Imports.filled {content : String} (imports : Imports (Text.ofString content) n) :
    content ≠ "" := by
  rintro rfl
  have none_ : ∀ {p : Char → Bool} {i : Nat}, ¬Holds (Text.ofString "") p i := by
    intro p i holds
    exact absurd holds.lt_size (by simp [Text.ofString])
  rcases imports with ⟨i, quoted⟩ | ⟨i, j, imported⟩
  · exact none_ quoted.opens
  · exact none_ imported.opens

theorem isImported_iff {contents : Contents} {d : Dependency} (noSlash : '/' ∉ d.name.toList) :
    isImported (importingSources contents) d = true ↔
      ∃ path content, (path, content) ∈ contents ∧ Text.baseName path ∉ manifestNames
        ∧ Imports (Text.ofString content) d.name := by
  have patterns : dependencyPatterns d.name = importPatterns d.name := by
    rw [dependencyPatterns, namespacePatterns_of_no_slash noSlash, List.append_nil]
  simp only [isImported, patterns, List.any_eq_true, mem_importingSources]
  constructor
  · rintro ⟨_, ⟨path, content, listed, other, -, rfl⟩, occurs⟩
    exact ⟨path, content, listed, other, anyOccurs_importPatterns_iff.mp occurs⟩
  · rintro ⟨path, content, listed, other, imports⟩
    exact ⟨_, ⟨path, content, listed, other, imports.filled, rfl⟩,
      anyOccurs_importPatterns_iff.mpr imports⟩

theorem unusedDependency_injective {d d' : Dependency} (same : unusedDependency d = unusedDependency d') :
    d = d' := by
  simp only [unusedDependency, Issue.mk.injEq, Value.str.injEq, List.cons.injEq, Prod.mk.injEq] at same
  obtain ⟨name, -, -, source, -, -, -, ⟨-, version⟩, -⟩ := same
  obtain ⟨_, _, _⟩ := d
  obtain ⟨_, _, _⟩ := d'
  cases name
  cases source
  cases version
  rfl

/-- A production dependency without a vendor that is not used implicitly is reported exactly if no text
but those of manifests quotes its name, alone or before a slash, and none has an import that opens a
quotation with its name. -/
theorem dependency_reported_iff {dependencies : Value} {entries : List Value}
    (listed : dependencies.members = .ok entries)
    (readable : ∀ entry ∈ entries, ∃ d, ofEntry? entry = .ok d) {entry version source : Value}
    (member : entry ∈ entries) {n : String} (production : IsProduction entry n version source)
    (nonempty : n ≠ "") (seen : isImplicitDependency n = false) (noSlash : '/' ∉ n.toList)
    (contents : Contents) :
    ∃ issues, unusedDependencies dependencies contents = .ok issues
      ∧ (unusedDependency ⟨n, version, source⟩ ∈ issues ↔
        ∀ path content, (path, content) ∈ contents → Text.baseName path ∉ manifestNames →
          (∀ i, ¬QuotedAt (Text.ofString content) n i)
            ∧ ∀ i j, ¬ImportOpens (Text.ofString content) n i j) := by
  obtain ⟨visible, readAll⟩ := exists_mapM_eq_ok readable
  have read := ofEntry?_of_isProduction production nonempty seen
  obtain ⟨_, inVisible, readHere⟩ := exists_result_of_mem readAll member
  cases read.symm.trans readHere
  refine ⟨_, by simp only [unusedDependencies, listed, readAll, bind, Except.bind]; rfl, ?_⟩
  have reported : unusedDependency ⟨n, version, source⟩
        ∈ ((visible.filterMap id).filter fun d => !isImported (importingSources contents) d).map
          unusedDependency ↔
      isImported (importingSources contents) ⟨n, version, source⟩ = false := by
    simp only [List.mem_map, List.mem_filter, List.mem_filterMap, id, exists_eq_right,
      Bool.not_eq_true']
    constructor
    · rintro ⟨d, ⟨-, unused⟩, same⟩
      rwa [← unusedDependency_injective same]
    · intro unused
      exact ⟨_, ⟨inVisible, unused⟩, rfl⟩
  rw [reported, ← Bool.not_eq_true, isImported_iff noSlash]
  constructor
  · intro noImport path content inContents other
    exact ⟨fun i quoted => noImport ⟨path, content, inContents, other, .inl ⟨i, quoted⟩⟩,
      fun i j opens => noImport ⟨path, content, inContents, other, .inr ⟨i, j, opens⟩⟩⟩
  · rintro none_ ⟨path, content, inContents, other, ⟨i, quoted⟩ | ⟨i, j, opens⟩⟩
    · exact (none_ path content inContents other).1 i quoted
    · exact (none_ path content inContents other).2 i j opens

/-- A package and a script that imports another one whose name is longer. -/
def lodashEntry : Value :=
  .map [("name", .str "lodash"), ("version", .str "1"), ("source", .str "package.json")]

def lodashNamesake : Contents := [("a.js", "require('lodash-es')")]

theorem lodash_used_by_namesake :
    (∀ i, ¬QuotedAt (Text.ofString "require('lodash-es')") "lodash" i)
      ∧ ∃ issues, unusedDependencies (.list [lodashEntry]) lodashNamesake = .ok issues
        ∧ unusedDependency ⟨"lodash", .str "1", .str "package.json"⟩ ∉ issues := by
  constructor
  · intro i quoted
    have none_ : ∀ i, i < (Text.ofString "require('lodash-es')").size →
        ¬QuotedAt (Text.ofString "require('lodash-es')") "lodash" i := by decide
    exact none_ i quoted.opens.lt_size quoted
  · have production : IsProduction lodashEntry "lodash" (.str "1") (.str "package.json") :=
      ⟨rfl, rfl, rfl, rfl⟩
    have listed : (Value.list [lodashEntry]).members = .ok [lodashEntry] := rfl
    have readable : ∀ entry ∈ [lodashEntry], ∃ d, ofEntry? entry = .ok d := by
      intro entry member
      obtain rfl : entry = lodashEntry := by simpa using member
      exact ⟨_, ofEntry?_of_isProduction production (by decide) (by decide)⟩
    obtain ⟨issues, found, reported⟩ := dependency_reported_iff listed readable (by simp) production
      (by decide) (by decide) (by decide) lodashNamesake
    refine ⟨issues, found, fun inIssues => ?_⟩
    have words : ImportWords (Text.ofString "require('lodash-es')") 0 8 := by
      refine .call (show "require" ∈ _ by simp) ?_ (by decide) (Nat.le_refl 7) .empty
        (by decide) (Nat.le_refl 8) .empty
      intro _ positive
      omega
    exact (reported.mp inIssues "a.js" _ (by simp [lodashNamesake]) (by decide)).2 0 8
      ⟨words, by decide, by decide⟩

end Dependency

end Surveyor
