import Surveyor.Proofs.Pattern.Spelling
import Surveyor.Proofs.Quality.Growth

/-! # Member calls are never missed

A search lists matches that do not overlap, so a match can hide those that start inside of it. For
member calls it hides nothing: a match consists of a separator, a name, blanks and a parenthesis, so
a separator that starts inside of it lies in the match's own separator and ends where that one ends
(`Separates.end_eq`). What follows is then the same name.
-/

namespace Surveyor

namespace Reference

open Pattern

open QualityFindings

variable {t : Text} {n : String} {i j a b e f paren : Nat}

/-! ## Separators -/

/-- What stands between an object or class and its member, from one offset up to another. -/
inductive Separates (t : Text) : Nat → Nat → Prop where
  | arrow {a : Nat} (dash : t[a]? = some '-') (head : t[a + 1]? = some '>') : Separates t a (a + 2)
  | optionalArrow {a : Nat} (mark : t[a]? = some '?') (dash : t[a + 1]? = some '-')
      (head : t[a + 2]? = some '>') : Separates t a (a + 3)
  | dot {a : Nat} (here : t[a]? = some '.') : Separates t a (a + 1)
  | colons {a : Nat} (first : t[a]? = some ':') (second : t[a + 1]? = some ':') :
      Separates t a (a + 2)

theorem Separates.lt (separates : Separates t a e) : a < e := by
  cases separates <;> omega

/-- The character that a separator starts with is neither blank nor part of a name nor a
parenthesis. -/
theorem Separates.exists_first (separates : Separates t a e) :
    ∃ c, t[a]? = some c ∧ isBlank c = false ∧ isNameChar c = false ∧ c ≠ '(' := by
  cases separates with
  | arrow dash _ => exact ⟨_, dash, by decide, by decide, by decide⟩
  | optionalArrow mark _ _ => exact ⟨_, mark, by decide, by decide, by decide⟩
  | dot here => exact ⟨_, here, by decide, by decide, by decide⟩
  | colons first _ => exact ⟨_, first, by decide, by decide, by decide⟩

/-- A separator that starts inside of another one ends with it, unless a third colon follows. -/
theorem Separates.end_eq (outer : Separates t a e) (inner : Separates t b f) (from_ : a ≤ b)
    (inside : b < e) (last : t[e]? ≠ some ':') : e = f := by
  obtain ⟨k, rfl⟩ := Nat.exists_eq_add_of_le from_
  cases outer <;> cases inner <;> grind

theorem Separates.exists_spelled (separates : Separates t a e) :
    ∃ separator ∈ ["->", "?->", ".", "::"], Spelled t separator a ∧ e = a + separator.length := by
  cases separates with
  | arrow dash head =>
    refine ⟨"->", by simp, fun k inWord => ?_, rfl⟩
    match k with
    | 0 => exact dash
    | 1 => exact head
  | optionalArrow mark dash head =>
    refine ⟨"?->", by simp, fun k inWord => ?_, rfl⟩
    match k with
    | 0 => exact mark
    | 1 => exact dash
    | 2 => exact head
  | dot here =>
    refine ⟨".", by simp, fun k inWord => ?_, rfl⟩
    match k with
    | 0 => exact here
  | colons first second =>
    refine ⟨"::", by simp, fun k inWord => ?_, rfl⟩
    match k with
    | 0 => exact first
    | 1 => exact second

theorem mem_ways_separator {caps after : Captures} :
    (e, after) ∈ (words ["->", "?->", ".", "::"]).ways (.ofText t) a caps ↔
      Separates t a e ∧ after = caps := by
  rw [mem_ways_words_ofText]
  constructor
  · rintro ⟨separator, listed, spelled, rfl, same⟩
    simp only [List.mem_cons, List.not_mem_nil, or_false] at listed
    refine ⟨?_, same⟩
    rcases listed with rfl | rfl | rfl | rfl
    · exact .arrow (spelled 0 (by decide)) (spelled 1 (by decide))
    · exact .optionalArrow (spelled 0 (by decide)) (spelled 1 (by decide)) (spelled 2 (by decide))
    · exact .dot (spelled 0 (by decide))
    · exact .colons (spelled 0 (by decide)) (spelled 1 (by decide))
  · rintro ⟨separates, same⟩
    obtain ⟨separator, listed, spelled, ends⟩ := separates.exists_spelled
    exact ⟨separator, listed, spelled, ends, same⟩

/-! ## Calls of members -/

/-- A separator from `a` up to `e`, a run of name characters from `i` up to `k` and an opening
parenthesis, with blanks between them. -/
structure MemberCall (t : Text) (a e i k paren : Nat) : Prop where
  separates : Separates t a e
  gap : e ≤ i
  margin : Stands t isBlank e i
  nonempty : i < k
  run : Stands t isNameChar i k
  order : k ≤ paren
  blanks : Stands t isBlank k paren
  opens : t[paren]? = some '('

theorem mem_ways_memberCall {after : Captures} :
    (j, after) ∈ memberCallPattern.ways (.ofText t) a [] ↔
      ∃ e i k paren, MemberCall t a e i k paren ∧ j = paren + 1 ∧ after = [(1, i, k)] := by
  simp only [memberCallPattern, mem_ways_append, mem_ways_separator, mem_ways_group, blanks, name,
    mem_ways_greedy_ofText, mem_ways_char_ofText, Nat.add_zero]
  constructor
  · rintro ⟨paren, _, ⟨k, _, ⟨i, _, ⟨e, _, ⟨separates, rfl⟩, gap, margin, rfl⟩, _,
      ⟨nonempty, run, rfl⟩, rfl⟩, order, blanks, rfl⟩, opens, ends, captured⟩
    exact ⟨e, i, k, paren, ⟨separates, gap, margin, nonempty, run, order, blanks, opens⟩, ends,
      captured⟩
  · rintro ⟨e, i, k, paren, call, ends, captured⟩
    exact ⟨paren, _, ⟨k, _, ⟨i, _, ⟨e, _, ⟨call.separates, rfl⟩, call.gap, call.margin, rfl⟩, _,
      ⟨call.nonempty, call.run, rfl⟩, rfl⟩, call.order, call.blanks, rfl⟩, call.opens, ends, captured⟩

namespace MemberCall

variable {k : Nat}

/-- Behind the separator stands a blank or the name. -/
theorem not_colon (call : MemberCall t a e i k paren) : t[e]? ≠ some ':' := by
  intro colon
  rcases Nat.eq_or_lt_of_le call.gap with rfl | later
  · obtain ⟨c, here, inName⟩ := call.run e (Nat.le_refl e) call.nonempty
    cases colon.symm.trans here
    exact absurd inName (by decide)
  · obtain ⟨c, here, blank⟩ := call.margin e (Nat.le_refl e) later
    cases colon.symm.trans here
    exact absurd blank (by decide)

/-- A separator that starts within a call starts within the separator of the call. -/
theorem lt_of_separates (call : MemberCall t a e i k paren) (inner : Separates t b f)
    (inside : b ≤ paren) : b < e := by
  obtain ⟨c, here, solid, outside, noParen⟩ := inner.exists_first
  rcases Nat.lt_or_ge b e with first | behind
  · exact first
  have fromName : i ≤ b := call.margin.le_of_not behind here solid
  have fromBlanks : k ≤ b := call.run.le_of_not fromName here outside
  obtain rfl : paren = b := Nat.le_antisymm (call.blanks.le_of_not fromBlanks here solid) inside
  cases call.opens.symm.trans here
  exact absurd rfl noParen

/-- A call that starts within another one calls the same name. -/
theorem eq_of_inside {a' e' i' paren' : Nat} (outer : MemberCall t a' e' i' k paren')
    (occurs : NameAt t n i) (inner : MemberCall t a e i (i + n.length) paren) (from_ : a' ≤ a)
    (inside : a ≤ paren') : i' = i ∧ k = i + n.length := by
  obtain rfl : e' = e :=
    outer.separates.end_eq inner.separates from_ (outer.lt_of_separates inner.separates inside)
      outer.not_colon
  -- From the end of the separator on, both calls have the same blanks before the name.
  obtain ⟨c, here, inName⟩ := inner.run i (Nat.le_refl i) inner.nonempty
  obtain ⟨d, there, alsoInName⟩ := outer.run i' (Nat.le_refl i') outer.nonempty
  have solid : ∀ {c : Char}, isNameChar c = true → isBlank c = false := by
    intro c inName
    rw [← Bool.not_eq_true]
    intro blank
    rw [not_isNameChar_of_isBlank blank] at inName
    cases inName
  obtain rfl : i' = i := Nat.le_antisymm (outer.margin.le_of_not inner.gap here (solid inName))
    (inner.margin.le_of_not outer.gap there (solid alsoInName))
  obtain ⟨_, next, other⟩ := exists_not_name outer.order outer.blanks outer.opens (by decide)
  exact ⟨rfl, occurs.end_eq (Nat.le_of_lt outer.nonempty) outer.run next other⟩

theorem mem_fileReferences (call : MemberCall t a e i (i + n.length) paren) (occurs : NameAt t n i) :
    n ∈ fileReferences t := by
  obtain ⟨m, matched⟩ := exists_matchAt? (mem_ways_memberCall.mpr ⟨e, i, _, paren, call, rfl, rfl⟩)
  have inText : a ≤ t.size := by
    obtain ⟨_, here, -⟩ := call.separates.exists_first
    exact Nat.le_of_lt (Array.getElem?_eq_some_iff.mp here).1
  -- The search may come upon the call from an earlier start, but what it finds there covers it.
  have around : ∃ m ∈ memberCallPattern.findAll (.ofText t), m.start ≤ a ∧ a < m.stop := by
    rcases covered_of_matchAt? inText matched with found | ⟨earlier, found, before, covers⟩
    · obtain ⟨rfl, isMatch⟩ := isMatch_of_matchAt? matched
      exact ⟨m, found, Nat.le_refl _, lt_of_consumes (by decide) isMatch⟩
    · exact ⟨earlier, found, Nat.le_of_lt before, covers⟩
  obtain ⟨m, found, from_, covers⟩ := around
  obtain ⟨e', i', k, paren', outer, stops, captured⟩ :=
    mem_ways_memberCall.mp (isMatch_of_mem_findAll found)
  obtain ⟨rfl, rfl⟩ := outer.eq_of_inside occurs call from_ (by omega)
  have recorded : m.groupText t 1 = n := by
    rw [Match.groupText_of_lookup (by rw [captured]; rfl)]
    exact occurs.slice_eq
  have inNames : n ∈ namesOf t memberCallPattern := List.mem_map.mpr ⟨m, found, recorded⟩
  have filled : n ≠ "" := by
    rintro rfl
    exact absurd occurs.nonempty (by decide)
  simp only [fileReferences, List.mem_filter, List.mem_append, List.flatMap_cons]
  exact ⟨.inl (.inl (.inl (.inl (.inl (.inr (.inl inNames)))))), by simpa using filled⟩

end MemberCall

/-! ## Projects -/

theorem Separates.congr {t' : Text} (separates : Separates t a e)
    (same : ∀ k, k < e → t'[k]? = t[k]?) : Separates t' a e := by
  cases separates with
  | arrow dash head =>
    exact .arrow ((same _ (by omega)).trans dash) ((same _ (by omega)).trans head)
  | optionalArrow mark dash head =>
    exact .optionalArrow ((same _ (by omega)).trans mark) ((same _ (by omega)).trans dash)
      ((same _ (by omega)).trans head)
  | dot here => exact .dot ((same _ (by omega)).trans here)
  | colons first second =>
    exact .colons ((same _ (by omega)).trans first) ((same _ (by omega)).trans second)

theorem MemberCall.congr {t' : Text} {k : Nat} (call : MemberCall t a e i k paren)
    (same : ∀ k, k ≤ paren → t'[k]? = t[k]?) : MemberCall t' a e i k paren := by
  have := call.gap
  have := call.nonempty
  have := call.order
  exact {
    call with
    separates := call.separates.congr fun k inside => same k (by omega)
    margin := call.margin.congr fun k inside => same k (by omega)
    run := call.run.congr fun k inside => same k (by omega)
    blanks := call.blanks.congr fun k inside => same k (by omega)
    opens := (same paren (Nat.le_refl paren)).trans call.opens }

theorem NameAt.congr {t' : Text} (occurs : NameAt t n i)
    (same : ∀ k, k ≤ i + n.length → t'[k]? = t[k]?) : NameAt t' n i where
  nonempty := occurs.nonempty
  chars := occurs.chars
  here := fun k inName => (same _ (by omega)).trans (occurs.here k inName)
  startsFresh := fun c positive before =>
    occurs.startsFresh c positive ((same _ (by omega)).symm.trans before)
  endsHere := fun c next => occurs.endsHere c ((same _ (Nat.le_refl _)).symm.trans next)

theorem getElem?_scannedText {content : String} {cut : Option Int} {offset : Nat}
    (inside : offset < (scannedText content cut).size) :
    (scannedText content cut)[offset]? = (Text.ofString content)[offset]? := by
  cases cut with
  | none => rfl
  | some limit =>
    simp only [scannedText, Text.takeTo, Array.size_extract] at inside ⊢
    rw [Array.getElem?_extract, if_pos (by omega), Nat.zero_add]

/-- A file that is not skipped has the text, and the offset is within what is looked at of it. -/
def ScansUpTo (input : QualityInput) (settings : Settings) (t : Text) (offset : Nat) : Prop :=
  ∃ path content, (path, content) ∈ input.contents ∧ path ∉ input.obfuscated
    ∧ Text.ofString content = t
    ∧ ∀ cut, settings.scanCharLimit = .ok cut → offset < (scannedText content cut).size

theorem MemberCall.mem_references {input : QualityInput} {settings : Settings}
    (call : MemberCall t a e i (i + n.length) paren) (occurs : NameAt t n i)
    (scans : ScansUpTo input settings t paren) {references : References}
    (collected : input.references settings = .ok references) : n ∈ references := by
  obtain ⟨path, content, listed, kept, rfl, reached⟩ := scans
  have filled : content ≠ "" := by
    rintro rfl
    exact absurd occurs.inText (by simp [Text.ofString])
  have inFiles : (path, content) ∈ input.referenceFiles := by
    simp only [QualityInput.referenceFiles, Contents.filled, Contents.sorted, List.mem_filter,
      List.mem_mergeSort]
    exact ⟨listed, by simpa [kept] using filled⟩
  obtain ⟨cut, limited, rfl⟩ :=
    References.eq_ofFiles_of_collect collected (List.ne_nil_of_mem inFiles)
  have within := reached cut limited
  have same : ∀ k, k ≤ paren → (scannedText content cut)[k]? = (Text.ofString content)[k]? :=
    fun k inside => getElem?_scannedText (Nat.lt_of_le_of_lt inside within)
  refine References.mem_ofFiles.mpr ⟨(path, content), inFiles, ?_⟩
  exact (call.congr same).mem_fileReferences
    (occurs.congr fun k inside => same k (Nat.le_trans inside call.order))

/-- How often the stage reports a name is told by the findings it is returned with. -/
theorem exists_findings_of_reportsUnused {context : StageContext} {snapshot : Value} {times : Nat}
    (reports : ReportsUnused (QualityFindings.run context snapshot) n times) :
    ∃ input references findings, QualityInput.ofSnapshot snapshot = .ok input
      ∧ input.references context.settings = .ok references
      ∧ QualityFindings.ofInput input references context.settings = .ok findings
      ∧ times = findings.issues.countP (Issue.reportsUnused n) := by
  obtain ⟨fields, issues, result, listed, rfl⟩ := reports
  have returned : (QualityFindings.run context snapshot).result.delta?
      = some [("code_quality", .map fields)] := by
    rw [result]
    rfl
  obtain ⟨input, references, findings, read, collected, -, found, -, same⟩ :=
    QualityFindings.delta?_run_eq_some_iff.mp returned
  have reported : ReportsUnused ⟨[], .delta [("code_quality", findings.toValue)]⟩ n
      (issues.countP (Value.reportsUnused n)) := ⟨fields, issues, by rw [same], listed, rfl⟩
  exact ⟨input, references, findings, read, collected, found,
    reported.unique (QualityFindings.reportsUnused_toValue findings [] n)⟩

/-- A name that is called as a member is in use. No project in which a file that is not skipped has
the call, up to its parenthesis, within what is looked at reports an unused function or method of that
name. -/
theorem member_calls_never_missed {t : Text} {n : String} {a e i paren : Nat} (occurs : NameAt t n i)
    (call : MemberCall t a e i (i + n.length) paren) :
    n ∈ fileReferences t
      ∧ ∀ context snapshot input, QualityInput.ofSnapshot snapshot = .ok input →
        ScansUpTo input context.settings t paren →
        ∀ times, ReportsUnused (QualityFindings.run context snapshot) n times → times = 0 := by
  refine ⟨call.mem_fileReferences occurs, ?_⟩
  intro context snapshot input read scans times reports
  obtain ⟨_, references, findings, readToo, collected, found, rfl⟩ :=
    exists_findings_of_reportsUnused reports
  cases read.symm.trans readToo
  have used := call.mem_references occurs scans collected
  rw [List.countP_eq_zero]
  intro issue member reported
  simp only [Issue.reportsUnused, Bool.and_eq_true, Bool.or_eq_true, beq_iff_eq] at reported
  obtain ⟨kind, named⟩ := reported
  refine QualityFindings.not_reported_of_used found used member kind ?_
  cases name : issue.name with
  | str text =>
    rw [name] at named
    cases named
    rfl
  | _ =>
    rw [name] at named
    cases named

def memberCaller : SourceFile := ⟨"b.js", .script, "a . foo ()", false⟩

theorem memberCaller_keeps_foo :
    "foo" ∈ fileReferences memberCaller.text
      ∧ ReportsUnused (run plainContext (snapshotOf [deadFunction, memberCaller])) "foo" 0 := by
  have occurs : NameAt memberCaller.text "foo" 4 := by decide
  have call : MemberCall memberCaller.text 2 3 4 (4 + "foo".length) 8 :=
    { separates := .dot (by decide)
      gap := by decide
      margin := .one (c := ' ') (by decide) (by decide)
      nonempty := by decide
      run := occurs.stands
      order := by decide
      blanks := .one (c := ' ') (by decide) (by decide)
      opens := by decide }
  obtain ⟨used, unreported⟩ := member_calls_never_missed occurs call
  have shows_ : Shows (snapshotOf [deadFunction, memberCaller]) [deadFunction, memberCaller] :=
    shows_snapshotOf (by simp) (by simp [deadFunction, memberCaller])
  obtain ⟨dependencies, _, read, -⟩ := ofSnapshot_eq shows_
  have numbers : plainContext.settings.NumbersGiven := ⟨⟨_, rfl⟩, ⟨_, rfl⟩, ⟨_, rfl⟩, ⟨_, rfl⟩⟩
  obtain ⟨_, -, reports⟩ := run_reports shows_ numbers
  have scans : ScansUpTo (inputOf [deadFunction, memberCaller] dependencies) plainContext.settings
      memberCaller.text 8 := by
    refine ⟨"b.js", memberCaller.content, by simp [inputOf, memberCaller], by simp [inputOf], rfl, ?_⟩
    intro cut limited
    cases limited
    decide
  have never := unreported plainContext _ _ read scans _ (reports "foo")
  have reported := reports "foo"
  rw [never] at reported
  exact ⟨used, reported⟩

end Reference

end Surveyor
