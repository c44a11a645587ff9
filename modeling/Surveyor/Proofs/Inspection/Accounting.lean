import Surveyor.Proofs.Inspection.Reordering
import Surveyor.Proofs.Number.Whole
import Surveyor.Proofs.Source.DeclarationLines

/-! # Every source is accounted for

The scan for outlines goes through the catalogued files in a supported language whose text is at hand.
Each of them is skipped as obfuscated, outlined, or empty, and never two of these. This module says so
of the published structure, in terms of the records alone (`candidates_accounted_once`): what is read
off a record is `SourceFile.shownBy?`, and both published lists are filters of the same candidates.
-/

namespace Surveyor

/-! ## Candidates -/

namespace Snapshot

def texts (snapshot : Value) : Contents := textsOf (snapshot.get "_file_contents").entries

def textOf? (snapshot record : Value) : Option String :=
  (record.get "path").str?.bind fun path => (texts snapshot).lookup path

/-- Is the record that of a file in a supported language whose text is at hand? -/
def isCandidate (snapshot record : Value) : Bool :=
  (SourceKind.ofExtension? (record.get "extension").asStr).isSome && (textOf? snapshot record).isSome

def candidates (snapshot : Value) : List Value :=
  (listed snapshot "file_system").filter (isCandidate snapshot)

def isObfuscated (record : Value) : Bool := (record.get "obfuscated").isGiven

def isFilled (snapshot record : Value) : Bool := (textOf? snapshot record).any (!·.isEmpty)

theorem contents_eq_texts {snapshot : Value} {contents : Contents}
    (read : Snapshot.contents snapshot = .ok contents) : contents = texts snapshot := by
  rw [contents_eq, bind_eq_ok] at read
  obtain ⟨v, field, read⟩ := read
  obtain ⟨-, rfl⟩ := Value.isMap_of_field field
  rw [texts, ← Value.entries_orElse]
  unfold readTexts at read
  split at read
  · next same => rw [same]; exact (Except.ok.inj read).symm
  · next same => rw [same]; exact (Except.ok.inj read).symm
  · cases read

end Snapshot

open Snapshot

def SourceFile.shownBy? (snapshot record : Value) : Option SourceFile :=
  (SourceKind.ofExtension? (record.get "extension").asStr).bind fun kind =>
    (record.get "path").str?.bind fun path => ((texts snapshot).lookup path).map fun content =>
      ⟨path, kind, content, Snapshot.isObfuscated record⟩

namespace SourceFile

variable {snapshot record : Value}

theorem isSome_shownBy? (snapshot record : Value) :
    (shownBy? snapshot record).isSome = Snapshot.isCandidate snapshot record := by
  unfold shownBy? Snapshot.isCandidate textOf?
  cases SourceKind.ofExtension? (record.get "extension").asStr with
  | none => rfl
  | some kind =>
    cases (record.get "path").str? with
    | none => rfl
    | some path => simp

theorem shownBy?_eq_some {f : SourceFile} (shown : shownBy? snapshot record = some f) :
    record.get "path" = .str f.path ∧ f.isObfuscated = Snapshot.isObfuscated record
      ∧ textOf? snapshot record = some f.content := by
  simp only [shownBy?, Option.bind_eq_some_iff, Option.map_eq_some_iff] at shown
  obtain ⟨kind, -, path, isPath, content, here, rfl⟩ := shown
  refine ⟨Value.str?_eq_some_iff.mp isPath, rfl, ?_⟩
  simp [textOf?, isPath, here]

/-- The text of a value that counts as empty unless it is given. -/
theorem eq_asStr_of_textFor {v : Value} {operation text : String}
    (read : (v.orElse (.str "")).textFor operation = .ok text) : text = v.asStr := by
  unfold Value.orElse at read
  split at read
  · cases v <;> cases read
    rfl
  · next absent =>
    cases read
    cases v with
    | str s =>
      have empty : s.isEmpty = true := by simpa [Value.isGiven] using absent
      exact (String.isEmpty_iff.mp empty).symm
    | _ => rfl

theorem eq_shownBy? {contents : Contents} (isTexts : contents = texts snapshot) {found : Option SourceFile}
    (read : ofFile? contents record = .ok found) : found = shownBy? snapshot record := by
  simp only [ofFile?, bind_eq_ok] at read
  obtain ⟨_, hasField, extension, text, read⟩ := read
  obtain ⟨-, rfl⟩ := Value.isMap_of_field hasField
  rw [eq_asStr_of_textFor text] at read
  unfold shownBy?
  cases kind : SourceKind.ofExtension? (record.get "extension").asStr with
  | none =>
    rw [kind] at read
    cases read
    rfl
  | some kind' =>
    simp only [kind, bind_eq_ok] at read
    obtain ⟨path, hasPath, key, isKey, read⟩ := read
    have same : record.get "path" = path := by
      rw [Value.get, Value.entry_eq_ok_iff.mp hasPath, Option.getD_some]
    have sameKey : key = path := by
      unfold Value.asKey at isKey
      split at isKey
      · exact (Except.ok.inj isKey).symm
      · cases isKey
    rw [Option.bind_some, same]
    subst sameKey isTexts
    -- Only under a text can there be contents; any other key finds none.
    cases key with
    | str name =>
      simp only [Value.str?, Option.bind_some]
      cases here : (texts snapshot).lookup name with
      | none =>
        simp only [here, pure_eq_ok] at read
        rw [← read, Option.map_none]
      | some content =>
        simp only [here, bind_eq_ok, pure_eq_ok] at read
        obtain ⟨mark, hasMark, rfl⟩ := read
        obtain ⟨-, rfl⟩ := Value.isMap_of_field hasMark
        rfl
    | _ =>
      cases read
      rfl

end SourceFile

theorem ProjectStructure.sources_eq {snapshot : Value} {sources : List SourceFile}
    (read : sourcesOf snapshot = .ok sources) :
    sources = (listed snapshot "file_system").filterMap (SourceFile.shownBy? snapshot) := by
  simp only [sourcesOf, SourceFile.ofFiles, bind_eq_ok, pure_eq_ok] at read
  obtain ⟨files, filesRead, contents, contentsRead, records, members, found, readAll, rfl⟩ := read
  rw [eq_map_of_mapM_eq_ok (fun record result => SourceFile.eq_shownBy? (contents_eq_texts contentsRead))
      readAll, listed_eq_of_members filesRead members, List.filterMap_map]
  rfl

/-- What is kept of the sources and read off them is kept of the candidates and read off these. -/
theorem map_filter_shownBy? {α : Type} {snapshot : Value} {keeps : SourceFile → Bool}
    {keepsRecord : Value → Bool} {view : SourceFile → α} {viewRecord : Value → α}
    (same : ∀ record f, SourceFile.shownBy? snapshot record = some f →
      keeps f = keepsRecord record ∧ view f = viewRecord record) :
    (((listed snapshot "file_system").filterMap (SourceFile.shownBy? snapshot)).filter keeps).map view
      = ((candidates snapshot).filter keepsRecord).map viewRecord := by
  unfold candidates
  induction listed snapshot "file_system" with
  | nil => rfl
  | cons record rest inductionHypothesis =>
    cases shown : SourceFile.shownBy? snapshot record with
    | none =>
      have noCandidate : Snapshot.isCandidate snapshot record = false := by
        rw [← SourceFile.isSome_shownBy?, shown, Option.isSome_none]
      rw [List.filterMap_cons_none shown, List.filter_cons_of_neg (by simp [noCandidate]),
        inductionHypothesis]
    | some f =>
      obtain ⟨sameKept, sameView⟩ := same record f shown
      have isCandidate : Snapshot.isCandidate snapshot record = true := by
        rw [← SourceFile.isSome_shownBy?, shown, Option.isSome_some]
      rw [List.filterMap_cons_some shown, List.filter_cons_of_pos isCandidate, List.filter_cons,
        List.filter_cons, sameKept]
      cases keepsRecord record with
      | false => simpa using inductionHypothesis
      | true => simpa [sameView] using inductionHypothesis

/-! ## Paths -/

theorem nodup_paths {snapshot : Value} (distinct : HasDistinctPaths (listed snapshot "file_system")) :
    ((candidates snapshot).map (·.get "path")).Nodup := by
  obtain ⟨paths, named, nodup⟩ := distinct
  have hasPath : ∀ record ∈ candidates snapshot, record.get? "path" = some (record.get "path") := by
    intro record member
    have isCandidate := (List.mem_filter.mp member).2
    -- A record without a path names no text, and so it is no candidate.
    cases found : record.get? "path" with
    | none =>
      have noPath : record.get "path" = .null := by rw [Value.get, found, Option.getD_none]
      simp [Snapshot.isCandidate, textOf?, noPath, Value.str?] at isCandidate
    | some path => rw [Value.get, found, Option.getD_some]
  have asFound : (candidates snapshot).map (·.get "path")
      = (candidates snapshot).filterMap (·.get? "path") := by
    rw [← List.filterMap_eq_map]
    exact (List.filterMap_congr hasPath).symm
  have within : ((candidates snapshot).filterMap (·.get? "path")).Sublist (paths.map Value.str) := by
    rw [← named]
    exact List.filter_sublist.filterMap _
  rw [asFound]
  refine within.nodup (nodup.map fun a b same => ?_)
  exact Value.str.inj same

/-- Where paths are distinct, a path is that of a kept record exactly if its own record is kept. -/
theorem mem_map_filter_iff {α β : Type} {path : α → β} {records : List α}
    (distinct : (records.map path).Nodup) {record : α} (member : record ∈ records) (keeps : α → Bool) :
    path record ∈ (records.filter keeps).map path ↔ keeps record = true := by
  constructor
  · intro isPath
    obtain ⟨other, kept, same⟩ := List.mem_map.mp isPath
    obtain ⟨inRecords, keptToo⟩ := List.mem_filter.mp kept
    rwa [← List.inj_on_of_nodup_map distinct inRecords member same]
  · exact fun kept => List.mem_map_of_mem (List.mem_filter.mpr ⟨member, kept⟩)

/-! ## The published structure -/

def skippedPaths (published : Value) : List Value := (published.get "skipped_files").items

def outlinedFiles (published : Value) : List Value := (published.get "files").items

def outlinedPaths (published : Value) : List Value := (outlinedFiles published).map (·.get "path")

/-- How much an outline lists under a key. -/
def listedUnder (part : String) (outline : Value) : Nat := (outline.get part).items.length

/-- A published structure accounts for the candidates of a snapshot: it skips those that are obfuscated
and outlines the others with something in them, both in their order, and its totals are those of its
outlines. -/
structure Accounts (snapshot published : Value) : Prop where
  skipped : skippedPaths published
    = ((candidates snapshot).filter Snapshot.isObfuscated).map (·.get "path")
  outlined : outlinedPaths published = ((candidates snapshot).filter fun record =>
    !Snapshot.isObfuscated record && isFilled snapshot record).map (·.get "path")
  totals : ∀ part ∈ ["classes", "functions", "imports", "exports"], published.get ("total_" ++ part)
    = .ofNat ((outlinedFiles published).map (listedUnder part)).sum
  methods : published.get "total_methods" = .ofNat ((outlinedFiles published).map fun outline =>
    ((outline.get "classes").items.map (listedUnder "methods")).sum).sum

/-- The lists of an outline stand under their keys in its published form. -/
theorem listedUnder_toValue (o : Outline) :
    listedUnder "classes" o.toValue = o.classes.length
      ∧ listedUnder "functions" o.toValue = o.functions.length
      ∧ listedUnder "imports" o.toValue = o.imports.length
      ∧ listedUnder "exports" o.toValue = o.exports.length :=
  ⟨List.length_map _, List.length_map _, List.length_map _, List.length_map _⟩

theorem listedUnder_methods (o : Outline) :
    ((o.toValue.get "classes").items.map (listedUnder "methods")).sum
      = sumOf (·.methods.length) o.classes := by
  have classes : (o.toValue.get "classes").items = o.classes.map ClassDeclaration.toValue := rfl
  have methods : ∀ c : ClassDeclaration, listedUnder "methods" c.toValue = c.methods.length :=
    fun c => List.length_map _
  rw [classes, List.map_map, sumOf_eq_sum]
  simp only [Function.comp_def, methods]

/-- The sources that are outlined are those with something in them that are not obfuscated. -/
theorem paths_outlines (sources : List SourceFile) :
    (sources.filterMap SourceFile.outline?).map (fun o => o.toValue.get "path")
      = (sources.filter fun f => !f.isObfuscated && !f.content.isEmpty).map fun f => .str f.path := by
  induction sources with
  | nil => rfl
  | cons f rest inductionHypothesis =>
    rw [List.filter_cons, ← Bool.not_or]
    cases left : f.isObfuscated || f.content.isEmpty with
    | true =>
      have noOutline : f.outline? = none := by rw [SourceFile.outline?, if_pos left]
      rw [List.filterMap_cons_none noOutline, inductionHypothesis]
      rfl
    | false =>
      have outlined : f.outline? = some (f.kind.outline (Text.ofString f.content) f.path) := by
        rw [SourceFile.outline?, if_neg (by simp [left])]
      have path : (f.kind.outline (Text.ofString f.content) f.path).toValue.get "path" = .str f.path :=
        congrArg Value.str (path_outline _ _ _)
      rw [List.filterMap_cons_some outlined, List.map_cons, path, inductionHypothesis]
      rfl

/-- A total counts in the outlines what is counted in their published form. -/
theorem total_eq {s : ProjectStructure} {count : Outline → Nat} {measure : Value → Nat}
    (same : ∀ o : Outline, measure o.toValue = count o) :
    s.total count = .ofNat ((outlinedFiles s.toValue).map measure).sum := by
  have files : outlinedFiles s.toValue = s.outlines.map Outline.toValue := rfl
  rw [files, List.map_map, ProjectStructure.total, sumOf_eq_sum]
  simp only [Function.comp_def, same]

theorem accounts_ofSources {snapshot : Value} {sources : List SourceFile}
    (read : ProjectStructure.sourcesOf snapshot = .ok sources) :
    Accounts snapshot (ProjectStructure.ofSources sources).toValue := by
  obtain rfl := ProjectStructure.sources_eq read
  refine ⟨?_, ?_, ?_, ?_⟩
  · have skipped : ∀ sources, skippedPaths (ProjectStructure.ofSources sources).toValue
        = (sources.filter (·.isObfuscated)).map fun f => .str f.path := fun sources => List.map_map
    rw [skipped]
    refine map_filter_shownBy? fun record f shown => ?_
    obtain ⟨path, marked, -⟩ := SourceFile.shownBy?_eq_some shown
    exact ⟨marked, path.symm⟩
  · have outlined : ∀ sources, outlinedPaths (ProjectStructure.ofSources sources).toValue
        = (sources.filterMap SourceFile.outline?).map fun o => o.toValue.get "path" :=
      fun sources => List.map_map
    rw [outlined, paths_outlines]
    refine (map_filter_shownBy? fun record f shown => ?_)
    obtain ⟨path, marked, text⟩ := SourceFile.shownBy?_eq_some shown
    simp only [marked, isFilled, text, Option.any_some, path, and_self]
  · simp only [List.forall_mem_cons, List.not_mem_nil, false_imp_iff, implies_true, and_true]
    exact ⟨total_eq fun o => (listedUnder_toValue o).1, total_eq fun o => (listedUnder_toValue o).2.1,
      total_eq fun o => (listedUnder_toValue o).2.2.1, total_eq fun o => (listedUnder_toValue o).2.2.2⟩
  · exact total_eq listedUnder_methods

/-- If the paths of the catalogued files are distinct, a published structure accounts for each candidate
at most once: it is skipped exactly if it is obfuscated, and outlined exactly if it is not and there is
something in it. All totals are sums over the outlines. Without a structure, the stage fails on a value
of the wrong kind. -/
theorem candidates_accounted_once (context : StageContext) {snapshot : Value}
    (distinct : HasDistinctPaths (listed snapshot "file_system")) :
    (∃ failure, (ProjectStructure.run context snapshot).result = .failed failure
        ∧ ((∃ fault, ProjectStructure.sourcesOf snapshot = .error fault)
          ∨ ∃ fault, context.settings.progressInterval = .error fault))
      ∨ ∃ published, (ProjectStructure.run context snapshot).result
          = .delta [("code_structure", published)]
        ∧ Accounts snapshot published
        ∧ (skippedPaths published ++ outlinedPaths published).Nodup
        ∧ ∀ record ∈ candidates snapshot,
          (record.get "path" ∈ skippedPaths published ↔ Snapshot.isObfuscated record = true)
          ∧ (record.get "path" ∈ outlinedPaths published
            ↔ Snapshot.isObfuscated record = false ∧ isFilled snapshot record = true) := by
  cases read : ProjectStructure.sourcesOf snapshot with
  | error fault =>
    left
    rw [ProjectStructure.run_of_unread read]
    exact ⟨_, rfl, .inl ⟨fault, rfl⟩⟩
  | ok sources =>
    cases chosen : context.settings.intervalFor sources.length with
    | error fault =>
      have notGiven : context.settings.progressInterval = .error fault := by
        unfold Settings.intervalFor at chosen
        split at chosen
        · cases chosen
        · exact chosen
      left
      rw [ProjectStructure.run_of_unpaced read chosen]
      exact ⟨_, rfl, .inr ⟨fault, notGiven⟩⟩
    | ok every =>
      have accounts := accounts_ofSources read
      have paths := nodup_paths distinct
      rw [ProjectStructure.run_of_read read chosen]
      refine .inr ⟨(ProjectStructure.ofSources sources).toValue, rfl, accounts, ?_, ?_⟩
      · rw [accounts.skipped, accounts.outlined, List.nodup_append]
        refine ⟨paths.sublist (List.filter_sublist.map _), paths.sublist (List.filter_sublist.map _), ?_⟩
        rintro a skipped b outlined rfl
        obtain ⟨record, kept, rfl⟩ := List.mem_map.mp skipped
        obtain ⟨inCandidates, marked⟩ := List.mem_filter.mp kept
        have notMarked := (mem_map_filter_iff paths inCandidates _).mp outlined
        simp [marked] at notMarked
      · intro record member
        rw [accounts.skipped, accounts.outlined, mem_map_filter_iff paths member,
          mem_map_filter_iff paths member, Bool.and_eq_true, Bool.not_eq_true']
        exact ⟨Iff.rfl, Iff.rfl⟩

/-- A class, a minified script, an empty script, a text in no supported language, and a component that
was not read. -/
def mixedListing : Value :=
  let record := fun (path extension : String) (obfuscated : Bool) =>
    Value.map [("path", .str path), ("extension", .str extension), ("obfuscated", .bool obfuscated)]
  .map [("file_system", .map [("files", .list [record "A.php" ".php" false, record "b.js" ".js" true,
      record "c.ts" ".TS" false, record "notes.md" ".md" false, record "d.vue" ".vue" false])]),
    ("_file_contents", .map [("A.php", .str "<?php class A \x7b function f() \x7b\x7d \x7d"),
      ("b.js", .str "var a=1"), ("c.ts", .str ""), ("notes.md", .str "# Notes")])]

theorem mixedListing_accounted :
    HasDistinctPaths (listed mixedListing "file_system")
      ∧ ∃ published, (ProjectStructure.run QualityFindings.plainContext mixedListing).result
          = .delta [("code_structure", published)]
        ∧ Accounts mixedListing published
        ∧ skippedPaths published = [.str "b.js"] ∧ outlinedPaths published = [.str "A.php"] := by
  have distinct : HasDistinctPaths (listed mixedListing "file_system") :=
    ⟨["A.php", "b.js", "c.ts", "notes.md", "d.vue"], rfl, by decide⟩
  refine ⟨distinct, ?_⟩
  rcases candidates_accounted_once QualityFindings.plainContext distinct with
    ⟨failure, failed, -⟩ | ⟨published, returned, accounts, -, -⟩
  · cases failed
  · exact ⟨published, returned, accounts, accounts.skipped, accounts.outlined⟩

end Surveyor
