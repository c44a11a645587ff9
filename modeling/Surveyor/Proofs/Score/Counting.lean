import Surveyor.Proofs.Inspection.ReportedSites
import Surveyor.Proofs.Number.Whole

/-! # Scores of what is counted

A score is counted in doubles. What is counted is turned into a double first, and this fails for a
number beyond all doubles (`Quantity.IsFinite`), which has more than a thousand bits; nothing else of a
score can fail. Files that earn a bonus are too few for that, so a score is given exactly if the findings
of commented code, the huge files and the big files can be counted (`Assessment.exists_evaluate_iff`).
-/

namespace Surveyor

/-! ## Doubles -/

namespace Quantity

/-- A number that is turned into a double without a fault. -/
def IsFinite (n : Nat) : Prop := (Binary64.ofInt n).isInf = false

theorem isFinite_of_lt {n bits : Nat} (small : n < 2 ^ bits) (inRange : bits ≤ 1023) : IsFinite n :=
  Binary64.isInf_ofInt small inRange

def IsDouble (q : Quantity) : Prop := ∃ x, q = .double x

/-- A quantity that is a double if nothing was too large for one, and a fault otherwise. -/
def IsDoubleIf (condition : Prop) (q : Quantity) : Prop :=
  (condition → q.IsDouble) ∧ (¬ condition → q = .failed tooLarge)

variable {P Q : Prop} {a b : Quantity}

theorem isDouble_double (x : Float) : IsDouble (.double x) := ⟨x, rfl⟩

/-- An operation that gives a double on doubles, and a fault on a fault. -/
structure IsStrict (operation : Quantity → Quantity → Quantity) : Prop where
  onDoubles : ∀ x y, (operation (.double x) (.double y)).IsDouble
  onLeft : ∀ fault b, operation (.failed fault) b = .failed fault
  onRight : ∀ x fault, operation (.double x) (.failed fault) = .failed fault

theorem IsDoubleIf.apply {operation : Quantity → Quantity → Quantity} (strict : IsStrict operation)
    (left : a.IsDoubleIf P) (right : b.IsDoubleIf Q) : (operation a b).IsDoubleIf (P ∧ Q) := by
  by_cases inLeft : P
  · obtain ⟨x, rfl⟩ := left.1 inLeft
    by_cases inRight : Q
    · obtain ⟨y, rfl⟩ := right.1 inRight
      exact ⟨fun _ => strict.onDoubles x y, fun outside => absurd ⟨inLeft, inRight⟩ outside⟩
    · rw [right.2 inRight]
      exact ⟨fun inside => absurd inside.2 inRight, fun _ => strict.onRight x tooLarge⟩
  · rw [left.2 inLeft]
    exact ⟨fun inside => absurd inside.1 inLeft, fun _ => strict.onLeft tooLarge b⟩

theorem IsDoubleIf.withDouble {operation : Quantity → Quantity → Quantity} (strict : IsStrict operation)
    (left : a.IsDoubleIf P) (right : b.IsDouble) : (operation a b).IsDoubleIf P := by
  obtain ⟨y, rfl⟩ := right
  constructor
  · intro inLeft
    obtain ⟨x, rfl⟩ := left.1 inLeft
    exact strict.onDoubles x y
  · intro outside
    rw [left.2 outside]
    exact strict.onLeft tooLarge _

theorem isStrict_combine (onInts : Int → Int → Int) (onFloats : Float → Float → Float) :
    IsStrict (combine onInts onFloats) where
  onDoubles _ _ := isDouble_double _
  onLeft _ _ := rfl
  onRight _ _ := rfl

theorem isStrict_least : IsStrict (Scale.least : Quantity → Quantity → Quantity) where
  onDoubles x y := by
    show (if isBelow (.double y) (.double x) then .double y else .double x : Quantity).IsDouble
    split
    · exact isDouble_double y
    · exact isDouble_double x
  onLeft _ _ := rfl
  onRight _ _ := rfl

theorem isStrict_greatest : IsStrict (Scale.greatest : Quantity → Quantity → Quantity) where
  onDoubles x y := by
    show (if isBelow (.double x) (.double y) then .double y else .double x : Quantity).IsDouble
    split
    · exact isDouble_double y
    · exact isDouble_double x
  onLeft _ _ := rfl
  onRight _ _ := rfl

theorem IsStrict.isDouble {operation : Quantity → Quantity → Quantity} (strict : IsStrict operation)
    (left : a.IsDouble) (right : b.IsDouble) : (operation a b).IsDouble := by
  obtain ⟨x, rfl⟩ := left
  obtain ⟨y, rfl⟩ := right
  exact strict.onDoubles x y

theorem isDoubleIf_mul (n : Nat) (x : Float) :
    (mul (.whole n) (.double x)).IsDoubleIf (IsFinite n) := by
  unfold IsDoubleIf IsFinite mul combine onNumbers toFloat
  cases infinite : (Binary64.ofInt n).isInf with
  | true => simp [infinite]
  | false =>
    simp [infinite]
    exact isDouble_double _

end Quantity

/-! ## Weighing -/

namespace Scorecard

open Quantity

/-- The numbers of what costs points by volume can be weighed. -/
structure Counts.AreFinite (c : Counts) : Prop where
  commented : IsFinite c.commented
  huge : IsFinite c.huge
  big : IsFinite c.big

theorem isDoubleIf_volumeDeduction (c : Counts) :
    ((standard : Scorecard Quantity).volumeDeduction c).IsDoubleIf c.AreFinite := by
  let card : Scorecard Quantity := standard
  have commented : (Scale.least (mul (.whole c.commented) card.commentedWeight) card.commentedCap).IsDoubleIf
      (IsFinite c.commented) :=
    (isDoubleIf_mul _ _).withDouble isStrict_least (isDouble_double _)
  have files : (add (mul (.whole c.huge) card.hugeFileWeight)
      (mul (.whole c.big) card.bigFileWeight)).IsDoubleIf (IsFinite c.huge ∧ IsFinite c.big) :=
    (isDoubleIf_mul _ _).apply (isStrict_combine _ _) (isDoubleIf_mul _ _)
  have both : (card.volumeDeduction c).IsDoubleIf
      (IsFinite c.commented ∧ IsFinite c.huge ∧ IsFinite c.big) :=
    (commented.apply (isStrict_combine (· + ·) (· + ·)) files).withDouble isStrict_least
      (isDouble_double _)
  exact ⟨fun finite => both.1 ⟨finite.commented, finite.huge, finite.big⟩,
    fun infinite => both.2 fun ⟨commented, huge, big⟩ => infinite ⟨commented, huge, big⟩⟩

theorem isDouble_addTimes (weight : Float) (n : Nat) {total : Quantity} (double : total.IsDouble) :
    (addTimes (.double weight) n total).IsDouble := by
  induction n generalizing total with
  | zero => exact double
  | succ n inductionHypothesis =>
    apply inductionHypothesis
    exact (isStrict_combine (· + ·) (· + ·)).isDouble double (isDouble_double weight)

theorem isDouble_sqlPenalty (c : Counts) :
    ((standard : Scorecard Quantity).sqlPenalty c).IsDouble :=
  isStrict_least.isDouble (isDouble_addTimes _ _ (isDouble_double _)) (isDouble_double _)

theorem isDoubleIf_deduction (c : Counts) :
    ((standard : Scorecard Quantity).deduction c).IsDoubleIf c.AreFinite :=
  ((isDoubleIf_volumeDeduction c).withDouble (isStrict_combine (· + ·) (· + ·))
    (isDouble_sqlPenalty c)).withDouble isStrict_least (isDouble_double _)

theorem isDouble_bonus {c : Counts} (fewPhp : IsFinite c.typedPhp) (fewScripts : IsFinite c.modernScript) :
    ((standard : Scorecard Quantity).bonus c).IsDouble :=
  (isStrict_combine (· + ·) (· + ·)).isDouble
    (isStrict_least.isDouble (isDouble_double _) ((isDoubleIf_mul _ _).1 fewPhp))
    (isStrict_least.isDouble (isDouble_double _) ((isDoubleIf_mul _ _).1 fewScripts))

theorem isDouble_score {c : Counts} (finite : c.AreFinite) (fewPhp : IsFinite c.typedPhp)
    (fewScripts : IsFinite c.modernScript) : ((standard : Scorecard Quantity).score c).IsDouble := by
  have deducted := (isStrict_combine (· - ·) (· - ·)).isDouble
    (isDouble_double (Binary64.nearest 100 (pow10 1))) ((isDoubleIf_deduction c).1 finite)
  have kept := isStrict_greatest.isDouble (isDouble_double (Binary64.nearest 0 (pow10 1))) deducted
  have earned := (isStrict_combine (· + ·) (· + ·)).isDouble kept (isDouble_bonus fewPhp fewScripts)
  obtain ⟨x, total⟩ := isStrict_least.isDouble (isDouble_double (Binary64.nearest 100 (pow10 1))) earned
  refine ⟨Binary64.roundPlaces 1 x, ?_⟩
  have rounded := congrArg (Scale.round 1) total
  exact rounded

/-! ## Counting -/

def sample (chars : Int) (content : String) : Subject :=
  Subject.ofText (scannedText content (some chars))

def unsafeSqlFiles (contents : Contents) : Nat :=
  contents.countP fun (path, content) =>
    isPhpPath path && !content.isEmpty && hasUnsafeSql (sample 150000 content)

def earningFiles (earns : String → Subject → Bool) (paths : List String) (contents : Contents) : Nat :=
  (paths.take 30).countP fun path =>
    (contents.filled? path).any fun content => earns path (sample 8000 content)

/-- Files that are looked at for a bonus are few. -/
theorem earningFiles_le (earns : String → Subject → Bool) (paths : List String) (contents : Contents) :
    earningFiles earns paths contents ≤ 30 := by
  refine List.countP_le_length.trans ?_
  rw [List.length_take]
  exact min_le_left 30 paths.length

theorem isFinite_earningFiles (earns : String → Subject → Bool) (paths : List String)
    (contents : Contents) : IsFinite (earningFiles earns paths contents) :=
  isFinite_of_lt (show earningFiles earns paths contents < 2 ^ 5 from
    lt_of_le_of_lt (earningFiles_le earns paths contents) (by decide)) (by decide)

def sizeOfCode? (record : Value) : Option Int :=
  if codePattern.occursIn (Subject.ofString (record.get "path").asStr) then
    ((record.get "size").orElse (.int 0)).whole.toOption
  else none

theorem isCommentedCode_eq {finding : Value} (isMapping : finding.isMap = true) :
    isCommentedCode finding = .ok ((finding.get "kind").str? == some "commented_code") := by
  rw [isCommentedCode, Value.field_eq_get isMapping]
  rfl

theorem codeSize?_eq {record : Value} {path : String} (named : record.get? "path" = some (.str path))
    (readable : codePattern.occursIn (Subject.ofString path) = true →
      ∃ size, ((record.get "size").orElse (.int 0)).whole = .ok size) :
    codeSize? record = .ok (sizeOfCode? record) := by
  have isMapping : record.isMap = true := by
    cases record with
    | map _ | view _ => rfl
    | _ => cases named
  have isPath : (record.get "path").asStr = path := by rw [Value.get, named]; rfl
  simp only [codeSize?, sizeOfCode?, Value.entry_eq_ok_iff.mpr named, isPath,
    Value.field_eq_get isMapping, bind, Except.bind, pure, Except.pure]
  cases isCode : codePattern.occursIn (Subject.ofString path) with
  | false => rfl
  | true =>
    obtain ⟨size, read⟩ := readable isCode
    rw [read]
    rfl

/-- Findings are mappings, and records of code have sizes that stand for whole numbers. -/
theorem countVolume_eq {issues files : Value} {findings records : List Value}
    (issuesListed : issues.members = .ok findings)
    (mappings : ∀ finding ∈ findings, finding.isMap = true) (filesListed : files.members = .ok records)
    (sizes : ∀ record ∈ records, ∃ path, record.get? "path" = some (.str path)
      ∧ (codePattern.occursIn (Subject.ofString path) = true →
        ∃ size, ((record.get "size").orElse (.int 0)).whole = .ok size)) :
    countVolume issues files = .ok
      { commented := findings.countP fun finding => (finding.get "kind").str? == some "commented_code"
        huge := (records.filterMap sizeOfCode?).countP (hugeFileBytes < ·)
        big := (records.filterMap sizeOfCode?).countP fun size =>
          bigFileBytes < size && size ≤ hugeFileBytes } := by
  have marked := mapM_eq_ok_map fun finding member => isCommentedCode_eq (mappings finding member)
  have sized : records.mapM codeSize? = .ok (records.map sizeOfCode?) :=
    mapM_eq_ok_map fun record member => by
      obtain ⟨path, named, readable⟩ := sizes record member
      exact codeSize?_eq named readable
  simp only [countVolume, issuesListed, filesListed, bind, Except.bind, pure, Except.pure]
    at marked sized ⊢
  simp only [marked, sized, List.countP_map, List.filterMap_map]
  rfl

section

variable {α : Type} [Scale α] {outlined : Value} {paths : List String} {contents : Contents}

theorem countUnsafe_eq (c : Counts) :
    (standard : Scorecard α).countUnsafe contents c
      = .ok { c with unsafeSql := unsafeSqlFiles contents } := by
  let scripts := (contents.filled []).filter fun file => isPhpPath file.1
  have sampled : (standard : Scorecard α).phpBeginnings contents
      = .ok (scripts.map fun file => sample 150000 file.2) :=
    mapM_eq_ok_map fun file _ => rfl
  have sortedPerm : contents.sorted.Perm contents := List.mergeSort_perm _ _
  have counted : (scripts.map fun file => sample 150000 file.2).countP hasUnsafeSql
      = unsafeSqlFiles contents := by
    rw [List.countP_map, List.countP_filter, Contents.filled, List.countP_filter, sortedPerm.countP_eq]
    refine List.countP_congr fun file _ => ?_
    simp [and_assoc, and_comm]
  rw [countUnsafe, sampled]
  simp only [bind, Except.bind, pure, Except.pure, counted]

theorem bonusSource?_eq (path : String) :
    (standard : Scorecard α).bonusSource? contents (.str path)
      = .ok ((contents.filled? path).map fun content => (path, sample 8000 content)) := by
  have named : contents.filledAt? (.str path) = .ok (contents.filled? path) := rfl
  rw [bonusSource?, named]
  cases contents.filled? path with
  | none => rfl
  | some content => rfl

theorem bonusSources_eq (listed : outlined = .list (paths.map .str) ∨ outlined = .tuple (paths.map .str)) :
    (standard : Scorecard α).bonusSources outlined contents
      = .ok ((paths.take 30).filterMap fun path =>
          (contents.filled? path).map fun content => (path, sample 8000 content)) := by
  have cut : (paths.map Value.str).take (Text.clampIndex (paths.map Value.str).length 30)
      = (paths.take 30).map .str := by
    have clamped : Text.clampIndex (paths.map Value.str).length 30
        = min 30 (paths.map Value.str).length := by
      simp [Text.clampIndex]
    rw [clamped, ← List.take_eq_take_min, List.map_take]
  have first : firstMembers outlined (standard : Scorecard α).bonusFiles
      = .ok ((paths.take 30).map .str) := by
    rcases listed with rfl | rfl
    · exact congrArg Except.ok cut
    · exact congrArg Except.ok cut
  have sampled : ((paths.take 30).map Value.str).mapM ((standard : Scorecard α).bonusSource? contents)
      = .ok ((paths.take 30).map fun path =>
          (contents.filled? path).map fun content => (path, sample 8000 content)) := by
    rw [List.mapM_map]
    exact mapM_eq_ok_map fun path _ => bonusSource?_eq path
  rw [bonusSources, first]
  simp only [bind, Except.bind, pure, Except.pure] at sampled ⊢
  rw [sampled]
  simp only [List.filterMap_map]
  rfl

theorem countBonus_eq (listed : outlined = .list (paths.map .str) ∨ outlined = .tuple (paths.map .str))
    (c : Counts) :
    (standard : Scorecard α).countBonus outlined contents c = .ok { c with
      typedPhp := earningFiles isTypedPhp paths contents,
      modernScript := earningFiles isModernScript paths contents } := by
  let sources := (paths.take 30).filterMap fun path =>
    (contents.filled? path).map fun content => (path, sample 8000 content)
  have counted : ∀ earns : String → Subject → Bool,
      (sources.countP fun source => earns source.1 source.2) = earningFiles earns paths contents := by
    intro earns
    rw [List.countP_filterMap, earningFiles]
    refine List.countP_congr fun path _ => ?_
    cases contents.filled? path <;> simp
  rw [countBonus, bonusSources_eq listed, ← counted isTypedPhp, ← counted isModernScript]
  rfl

end

end Scorecard

/-- The assessment of doubles can be published. -/
theorem Assessment.exists_toValue {a : Assessment} (score : a.score.IsDouble)
    (penalty : a.sqlPenalty.IsDouble) (bonus : a.bonus.IsDouble) : ∃ v, a.toValue = .ok v := by
  obtain ⟨points, isScore⟩ := score
  obtain ⟨deducted, isPenalty⟩ := penalty
  obtain ⟨earned, isBonus⟩ := bonus
  rw [toValue, isScore, isPenalty, isBonus]
  exact ⟨_, rfl⟩

/-- A score is given exactly if what costs points by volume can be counted. -/
theorem Assessment.exists_evaluate_iff {issues files : Value} {volume : Scorecard.Counts}
    (counted : Scorecard.countVolume issues files = .ok volume) (paths : List String)
    (contents : Contents) :
    (∃ v, evaluate Scorecard.standard issues files (.list (paths.map .str)) contents = .ok v)
      ↔ volume.AreFinite := by
  have volumeDeducted := Scorecard.isDoubleIf_volumeDeduction volume
  have listed : Value.list (paths.map .str) = .list (paths.map .str)
      ∨ Value.list (paths.map .str) = .tuple (paths.map .str) := .inl rfl
  simp only [evaluate, counted, Scorecard.countUnsafe_eq, Scorecard.countBonus_eq listed, bind, Except.bind]
  by_cases finite : volume.AreFinite
  · obtain ⟨x, isDouble⟩ := volumeDeducted.1 finite
    -- The counts that are added later leave those that were checked as they are.
    have still : Scorecard.Counts.AreFinite { volume with unsafeSql := Scorecard.unsafeSqlFiles contents } :=
      ⟨finite.commented, finite.huge, finite.big⟩
    obtain ⟨y, isDoubleToo⟩ := (Scorecard.isDoubleIf_deduction _).1 still
    have typedPhp := Scorecard.isFinite_earningFiles Scorecard.isTypedPhp paths contents
    have modernScript := Scorecard.isFinite_earningFiles Scorecard.isModernScript paths contents
    rw [isDouble, isDoubleToo]
    simp only [Quantity.check, finite, iff_true]
    exact exists_toValue
      (Scorecard.isDouble_score ⟨finite.commented, finite.huge, finite.big⟩ typedPhp modernScript)
      (Scorecard.isDouble_sqlPenalty _) (Scorecard.isDouble_bonus typedPhp modernScript)
  · rw [volumeDeducted.2 finite]
    simp [Quantity.check, finite]

/-! ## What a snapshot shows -/

namespace Scorecard

def volumeOf (issues : List Issue) (records : List FileRecord) : Counts :=
  let code := records.filter fun r => codePattern.occursIn (Subject.ofString r.path)
  { commented := issues.countP (·.kind == "commented_code")
    huge := code.countP fun r => hugeFileBytes < r.size
    big := code.countP fun r => bigFileBytes < r.size && (r.size : Int) ≤ hugeFileBytes }

theorem kind_frozen (issue : Issue) :
    issue.toValue.plainForm.freeze.get "kind" = .str issue.kind := by
  have kind : issue.toValue.plainForm.freeze.get? "kind" = some (.str issue.kind) := by
    rw [get?_freeze]
    show ((Value.plainEntries _).lookup "kind").map Value.freeze = _
    rw [lookup_plainEntries, show List.lookup "kind" _ = _ from issue.get?_toValue_eq "kind"]
    rfl
  rw [Value.get, kind]
  rfl

/-- A size of zero does not count as given, but stands for itself. -/
theorem size_frozen (r : FileRecord) :
    ((r.toValue.freeze.get "size").orElse (.int 0)).whole = .ok (r.size : Int) := by
  show ((Value.int r.size).orElse (.int 0)).whole = _
  by_cases empty : r.size = 0
  · simp [Value.orElse, Value.isGiven, empty, Value.whole]
  · simp [Value.orElse, Value.isGiven, empty, Value.whole]

theorem sizeOfCode?_frozen (r : FileRecord) :
    sizeOfCode? r.toValue.freeze
      = if codePattern.occursIn (Subject.ofString r.path) then some (r.size : Int) else none := by
  have path : (r.toValue.freeze.get "path").asStr = r.path := rfl
  rw [sizeOfCode?, path, size_frozen]
  rfl

theorem countVolume_frozen {listed files : Value} {issues : List Issue} {records : List FileRecord}
    (issuesListed : listed.members = .ok (issues.map fun issue => issue.toValue.plainForm.freeze))
    (filesListed : files.members = .ok (records.map fun r => r.toValue.freeze)) :
    countVolume listed files = .ok (volumeOf issues records) := by
  have ofCode : (records.map fun r => r.toValue.freeze).filterMap sizeOfCode?
      = (records.filter fun r => codePattern.occursIn (Subject.ofString r.path)).map
        fun r => (r.size : Int) := by
    rw [List.filterMap_map, ← List.filterMap_eq_map, List.filterMap_filter]
    exact List.filterMap_congr fun r _ => sizeOfCode?_frozen r
  have mappings : ∀ finding ∈ issues.map fun issue => issue.toValue.plainForm.freeze,
      finding.isMap = true := by
    intro finding member
    obtain ⟨issue, -, rfl⟩ := List.mem_map.mp member
    rfl
  have sizes : ∀ record ∈ records.map fun r => r.toValue.freeze,
      ∃ path, record.get? "path" = some (.str path)
        ∧ (codePattern.occursIn (Subject.ofString path) = true →
          ∃ size, ((record.get "size").orElse (.int 0)).whole = .ok size) := by
    intro record member
    obtain ⟨r, -, rfl⟩ := List.mem_map.mp member
    exact ⟨r.path, rfl, fun _ => ⟨r.size, size_frozen r⟩⟩
  rw [countVolume_eq issuesListed mappings filesListed sizes]
  simp only [ofCode, List.countP_map, Function.comp_def, kind_frozen]
  rfl

end Scorecard

end Surveyor
