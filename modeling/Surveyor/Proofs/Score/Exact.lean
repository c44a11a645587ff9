import Surveyor.Proofs.Score.Counting

/-! # Scores counted in fractions

With fractions for doubles, the usual weights are the decimals they are written as, and nothing is rounded
but the score itself. Such a score is that of six counts; it is monotone in each of them, and the caps of
the deductions keep it from falling below four (`Scorecard.four_le_score`). A bonus is added after the
deductions are cut, so that only the last minimum keeps it from passing ten.
-/

namespace Surveyor

/-! ## Fractions -/

/-- The whole number closest to a fraction, a tie going to the even one. -/
def nearestEven (x : ℚ) : ℤ :=
  if Int.fract x < 1 / 2 then ⌊x⌋
  else if 1 / 2 < Int.fract x then ⌊x⌋ + 1
  else if ⌊x⌋ % 2 = 0 then ⌊x⌋
  else ⌊x⌋ + 1

theorem abs_nearestEven_sub_le (x : ℚ) : |(nearestEven x : ℚ) - x| ≤ 1 / 2 := by
  have parts : (⌊x⌋ : ℚ) + Int.fract x = x := Int.floor_add_fract x
  have nonneg := Int.fract_nonneg x
  have ltOne := Int.fract_lt_one x
  rw [abs_le]
  unfold nearestEven
  split_ifs <;> push_cast <;> constructor <;> linarith

/-- Fractions whose closest whole numbers lie the other way round than they do are the same. -/
theorem nearestEven_mono {x y : ℚ} (ordered : x ≤ y) : nearestEven x ≤ nearestEven y := by
  by_contra! crossed
  have apart : (nearestEven y : ℚ) + 1 ≤ nearestEven x := by exact_mod_cast crossed
  have closeToX := abs_le.mp (abs_nearestEven_sub_le x)
  have closeToY := abs_le.mp (abs_nearestEven_sub_le y)
  obtain rfl : x = y := by linarith
  exact lt_irrefl _ crossed

theorem nearestEven_intCast (n : ℤ) : nearestEven n = n := by
  simp [nearestEven]

instance : Scale ℚ where
  ofNat n := n
  decimal digits places := digits / 10 ^ places
  add a b := a + b
  sub a b := a - b
  mul a b := a * b
  least := min
  greatest := max
  atLeast a b := decide (b ≤ a)
  isZero x := x == 0
  round places x := nearestEven (x * 10 ^ places) / 10 ^ places

namespace Scorecard

open Scale

variable {c d : Counts}

/-- The usual weights, read as exact decimals. -/
abbrev exact : Scorecard ℚ := standard

theorem round_mono {x y : ℚ} (ordered : x ≤ y) : (round 1 x : ℚ) ≤ round 1 y := by
  have scaled : nearestEven (x * 10 ^ 1) ≤ nearestEven (y * 10 ^ 1) :=
    nearestEven_mono (by linarith)
  have asFractions : (nearestEven (x * 10 ^ 1) : ℚ) ≤ nearestEven (y * 10 ^ 1) := by
    exact_mod_cast scaled
  exact div_le_div_of_nonneg_right asFractions (by norm_num)

theorem round_natCast (n : ℕ) : (round 1 (n : ℚ) : ℚ) = n := by
  have scaled : (n : ℚ) * 10 ^ 1 = ((n * 10 : ℤ) : ℚ) := by push_cast; ring
  show (nearestEven ((n : ℚ) * 10 ^ 1) : ℚ) / 10 ^ 1 = n
  rw [scaled, nearestEven_intCast]
  push_cast
  ring

theorem atLeast_iff {x y : ℚ} : atLeast x y = true ↔ y ≤ x := decide_eq_true_iff

theorem addTimes_eq (weight total : ℚ) (n : ℕ) : addTimes weight n total = total + n * weight := by
  induction n generalizing total with
  | zero => simp [addTimes]
  | succ n inductionHypothesis =>
    have added : (add total weight : ℚ) = total + weight := rfl
    rw [addTimes, inductionHypothesis, added]
    push_cast
    ring

theorem sqlPenalty_eq (c : Counts) : exact.sqlPenalty c = min (c.unsafeSql * (4 / 5) : ℚ) 2 := by
  rw [sqlPenalty, addTimes_eq]
  show min (((0 : ℕ) : ℚ) / 10 ^ 1 + c.unsafeSql * (((8 : ℕ) : ℚ) / 10 ^ 1))
    (((20 : ℕ) : ℚ) / 10 ^ 1) = _
  norm_num

theorem volumeDeduction_eq (c : Counts) :
    exact.volumeDeduction c
      = min (min (c.commented * (3 / 20) : ℚ) 2 + (c.huge * (3 / 2) + c.big * (1 / 2))) 4 := by
  show min (min (c.commented * (((15 : ℕ) : ℚ) / 10 ^ 2)) (((20 : ℕ) : ℚ) / 10 ^ 1)
      + (c.huge * (((15 : ℕ) : ℚ) / 10 ^ 1) + c.big * (((5 : ℕ) : ℚ) / 10 ^ 1)))
    (((40 : ℕ) : ℚ) / 10 ^ 1) = _
  norm_num

theorem bonus_eq (c : Counts) :
    exact.bonus c
      = min (2 / 5) (c.typedPhp * (2 / 25) : ℚ) + min (3 / 10) (c.modernScript * (1 / 20) : ℚ) := by
  show min (((4 : ℕ) : ℚ) / 10 ^ 1) (c.typedPhp * (((8 : ℕ) : ℚ) / 10 ^ 2))
      + min (((3 : ℕ) : ℚ) / 10 ^ 1) (c.modernScript * (((5 : ℕ) : ℚ) / 10 ^ 2)) = _
  norm_num

theorem deduction_eq (c : Counts) :
    exact.deduction c = min (exact.volumeDeduction c + exact.sqlPenalty c) 10 := by
  show min (exact.volumeDeduction c + exact.sqlPenalty c) (((100 : ℕ) : ℚ) / 10 ^ 1) = _
  norm_num

theorem score_eq (c : Counts) :
    exact.score c = round 1 (min 10 (max 0 (10 - exact.deduction c) + exact.bonus c)) := by
  have ten : (decimal 100 1 : ℚ) = 10 := by
    show ((100 : ℕ) : ℚ) / 10 ^ 1 = 10
    norm_num
  have zero : (decimal 0 1 : ℚ) = 0 := by
    show ((0 : ℕ) : ℚ) / 10 ^ 1 = 0
    norm_num
  rw [score, ten, zero]
  rfl

/-! ## Bounds -/

theorem sqlPenalty_le (c : Counts) : exact.sqlPenalty c ≤ 2 := by
  rw [sqlPenalty_eq]
  exact min_le_right _ _

theorem volumeDeduction_le (c : Counts) : exact.volumeDeduction c ≤ 4 := by
  rw [volumeDeduction_eq]
  exact min_le_right _ _

theorem bonus_nonneg (c : Counts) : 0 ≤ exact.bonus c := by
  rw [bonus_eq]
  positivity

theorem four_le_score (c : Counts) : 4 ≤ exact.score c := by
  have deducted : exact.deduction c ≤ 6 := by
    rw [deduction_eq]
    linarith [min_le_left (exact.volumeDeduction c + exact.sqlPenalty c) 10, volumeDeduction_le c,
      sqlPenalty_le c]
  have points : (4 : ℚ) ≤ min 10 (max 0 (10 - exact.deduction c) + exact.bonus c) := by
    refine le_min (by norm_num) ?_
    linarith [le_max_right 0 (10 - exact.deduction c), bonus_nonneg c]
  calc (4 : ℚ) = round 1 ((4 : ℕ) : ℚ) := by rw [round_natCast]; norm_num
    _ ≤ exact.score c := by
      rw [score_eq]
      exact round_mono (by exact_mod_cast points)

theorem score_le_ten (c : Counts) : exact.score c ≤ 10 := by
  calc exact.score c ≤ round 1 ((10 : ℕ) : ℚ) := by
        rw [score_eq]
        exact round_mono (by exact_mod_cast min_le_left _ _)
    _ = 10 := by rw [round_natCast]; norm_num

/-! ## Order -/

/-- What costs points is at least as frequent, and what earns some at most. -/
structure Counts.CostAtLeast (c d : Counts) : Prop where
  commented : d.commented ≤ c.commented
  huge : d.huge ≤ c.huge
  big : d.big ≤ c.big
  unsafeSql : d.unsafeSql ≤ c.unsafeSql
  typedPhp : c.typedPhp ≤ d.typedPhp
  modernScript : c.modernScript ≤ d.modernScript

theorem sqlPenalty_mono (costs : c.CostAtLeast d) : exact.sqlPenalty d ≤ exact.sqlPenalty c := by
  have fewer := costs.unsafeSql
  rw [sqlPenalty_eq, sqlPenalty_eq]
  gcongr

theorem volumeDeduction_mono (costs : c.CostAtLeast d) :
    exact.volumeDeduction d ≤ exact.volumeDeduction c := by
  obtain ⟨commented, huge, big, -, -, -⟩ := costs
  rw [volumeDeduction_eq, volumeDeduction_eq]
  gcongr

theorem bonus_mono (costs : c.CostAtLeast d) : exact.bonus c ≤ exact.bonus d := by
  obtain ⟨-, -, -, -, typedPhp, modernScript⟩ := costs
  rw [bonus_eq, bonus_eq]
  gcongr

theorem score_mono (costs : c.CostAtLeast d) : exact.score c ≤ exact.score d := by
  have deducted : exact.deduction d ≤ exact.deduction c := by
    rw [deduction_eq, deduction_eq]
    exact min_le_min_right 10 (add_le_add (volumeDeduction_mono costs) (sqlPenalty_mono costs))
  have earned := bonus_mono costs
  rw [score_eq, score_eq]
  refine round_mono ?_
  gcongr

/-- The marks are told from the highest to the lowest, so that of four points comes before all lower ones. -/
theorem message_of_four_le {s : ℚ} (enough : 4 ≤ s) :
    message s ∈ (messages.filter fun (tenths, _) => 40 ≤ tenths).map (·.2) := by
  have mark40 : (decimal 40 1 : ℚ) = 4 := by
    show ((40 : ℕ) : ℚ) / 10 ^ 1 = 4
    norm_num
  have reached : atLeast s (decimal 40 1) = true := by
    rw [mark40, atLeast_iff]
    exact enough
  unfold message
  cases found : messages.find? fun (tenths, _) => atLeast s (decimal tenths 1) with
  | none =>
    have missed := List.find?_eq_none.mp found (40, "Needs attention") (by decide)
    exact absurd reached missed
  | some mark =>
    obtain ⟨-, before, behind, split, missed⟩ := List.find?_eq_some_iff_append.mp found
    have listed : (40, "Needs attention") ∈ before ++ mark :: behind := by
      rw [← split]
      decide
    have descending : (before ++ mark :: behind).Pairwise fun a b => b.1 < a.1 := by
      rw [← split]
      decide
    have atLeast40 : 40 ≤ mark.1 := by
      -- The mark told is not behind that of four points, since that one is reached.
      rcases List.mem_append.mp listed with early | late
      · have unreached : (!atLeast s (decimal 40 1)) = true := missed (40, "Needs attention") early
        rw [reached] at unreached
        cases unreached
      · rcases List.mem_cons.mp late with rfl | lower
        · exact Nat.le_refl 40
        · exact Nat.le_of_lt ((List.pairwise_cons.mp (List.pairwise_append.mp descending).2.1).1 _ lower)
    refine List.mem_map.mpr ⟨mark, List.mem_filter.mpr ⟨?_, decide_eq_true atLeast40⟩, rfl⟩
    rw [split]
    exact List.mem_append_right before List.mem_cons_self

/-! ## What is counted -/

def scoreOf {α : Type} [Scale α] (card : Scorecard α) (issues files outlined : Value)
    (contents : Contents) : Except ValueFault α := do
  return card.score (← card.count issues files outlined contents)

/-- What is given to be scored, each of its kind: findings and records of files are mappings, a record has a
path and, if it is one of code, a size that stands for a whole number, and outlined files are given by their
paths. -/
structure IsScored (issues files outlined : Value) (findings records : List Value)
    (paths : List String) : Prop where
  issues : issues.members = .ok findings
  findings : ∀ finding ∈ findings, finding.isMap = true
  files : files.members = .ok records
  records : ∀ record ∈ records, ∃ path, record.get? "path" = some (.str path)
    ∧ (codePattern.occursIn (Subject.ofString path) = true →
      ∃ size, ((record.get "size").orElse (.int 0)).whole = .ok size)
  outlined : outlined = .list (paths.map .str) ∨ outlined = .tuple (paths.map .str)

/-- The six numbers that a score depends on: findings of commented code, huge and big files of code, PHP files
with unsafe queries, and typed PHP files and modern scripts among the first outlined files. -/
def countsOf (findings records : List Value) (paths : List String) (contents : Contents) : Counts where
  commented := findings.countP fun finding => (finding.get "kind").str? == some "commented_code"
  huge := (records.filterMap sizeOfCode?).countP (hugeFileBytes < ·)
  big := (records.filterMap sizeOfCode?).countP fun size => bigFileBytes < size && size ≤ hugeFileBytes
  unsafeSql := unsafeSqlFiles contents
  typedPhp := earningFiles isTypedPhp paths contents
  modernScript := earningFiles isModernScript paths contents

section

variable {issues files outlined : Value} {findings records : List Value} {paths : List String}
  {α : Type} [Scale α]

theorem count_eq (scored : IsScored issues files outlined findings records paths)
    (contents : Contents) :
    (standard : Scorecard α).count issues files outlined contents
      = .ok (countsOf findings records paths contents) := by
  rw [count, countVolume_eq scored.issues scored.findings scored.files scored.records]
  simp only [bind, Except.bind, countUnsafe_eq, countBonus_eq scored.outlined]
  rfl

end

/-- What is published is the score and the message of what is counted. -/
theorem published_of_count {issues files outlined v : Value} {contents : Contents} {c : Counts}
    (counted : (standard : Scorecard Quantity).count issues files outlined contents = .ok c)
    (published : Assessment.evaluate standard issues files outlined contents = .ok v) :
    ∃ points, ((standard : Scorecard Quantity).score c).toValue = .ok points
      ∧ v.get? "score" = some points
      ∧ v.get? "message" = some (.str (message ((standard : Scorecard Quantity).score c))) := by
  simp only [Assessment.evaluate, bind_eq_ok] at published
  obtain ⟨volume, countedVolume, -, -, deducted, countedUnsafe, -, -, counts, countedBonus, shown⟩ :=
    published
  have same : c = counts := by
    simp only [count, countedVolume, countedUnsafe, countedBonus, bind, Except.bind] at counted
    exact (Except.ok.inj counted).symm
  subst same
  simp only [Assessment.toValue, bind_eq_ok, pure_eq_ok] at shown
  obtain ⟨points, isScore, -, -, -, -, rfl⟩ := shown
  exact ⟨points, isScore, rfl, rfl⟩

def lowMessages : List String := ["Many problems, time to clean up", "Make it work first"]

/-- Counted in fractions, a score is that of six numbers, falls with four of them and rises with two, and lies
between four and ten. Published scores are those of the same six numbers, counted in doubles. -/
theorem exact_score_of_counts {issues files outlined : Value} {findings records : List Value}
    {paths : List String} (scored : IsScored issues files outlined findings records paths)
    (contents : Contents) :
    let c := countsOf findings records paths contents
    exact.scoreOf issues files outlined contents = .ok (exact.score c)
      ∧ (∀ d : Counts, c.CostAtLeast d → exact.score c ≤ exact.score d)
      ∧ (∀ d : Counts, d.CostAtLeast c → exact.score d ≤ exact.score c)
      ∧ 4 ≤ exact.score c ∧ exact.score c ≤ 10 ∧ message (exact.score c) ∉ lowMessages
      ∧ ∀ v, Assessment.evaluate standard issues files outlined contents = .ok v →
        ∃ points, ((standard : Scorecard Quantity).score c).toValue = .ok points
          ∧ v.get? "score" = some points
          ∧ v.get? "message" = some (.str (message ((standard : Scorecard Quantity).score c))) := by
  intro c
  have counted : exact.count issues files outlined contents = .ok c := count_eq scored contents
  have countedInDoubles : (standard : Scorecard Quantity).count issues files outlined contents = .ok c :=
    count_eq scored contents
  have higherMarks : ∀ text ∈ (messages.filter fun (tenths, _) => 40 ≤ tenths).map (·.2),
      text ∉ lowMessages := by
    decide
  have scoredExactly : exact.scoreOf issues files outlined contents = .ok (exact.score c) := by
    rw [scoreOf, counted]
    rfl
  clear_value c
  exact ⟨scoredExactly, fun d costs => score_mono costs, fun d costs => score_mono costs, four_le_score c,
    score_le_ten c, higherMarks _ (message_of_four_le (four_le_score c)), fun v published =>
      published_of_count countedInDoubles published⟩

/-- Fourteen pieces of commented code, three huge scripts and three unsafe queries leave four points, and
more of any of them leave no less. -/
theorem worstProject_exact :
    exact.scoreOf (.list (List.replicate 14 (.map [("kind", .str "commented_code")])))
        (.list (List.replicate 3 (.map [("path", .str "app.js"), ("size", .int 600000)]))) (.list [])
        [("a.php", "mysql_query($a)"), ("b.php", "mysql_query($b)"), ("c.php", "mysql_query($c)")]
      = .ok 4 := by
  let finding : Value := .map [("kind", .str "commented_code")]
  let script : Value := .map [("path", .str "app.js"), ("size", .int 600000)]
  have scored : IsScored (.list (List.replicate 14 finding)) (.list (List.replicate 3 script)) (.list [])
      (List.replicate 14 finding) (List.replicate 3 script) [] :=
    { issues := rfl
      findings := fun member isMember => List.eq_of_mem_replicate isMember ▸ rfl
      files := rfl
      records := fun member isMember => by
        rw [List.eq_of_mem_replicate isMember]
        exact ⟨"app.js", rfl, fun _ => ⟨600000, rfl⟩⟩
      outlined := .inl rfl }
  have counts : countsOf (List.replicate 14 finding) (List.replicate 3 script) []
      [("a.php", "mysql_query($a)"), ("b.php", "mysql_query($b)"), ("c.php", "mysql_query($c)")]
      = ⟨14, 3, 0, 3, 0, 0⟩ := by
    decide +kernel
  have points := (exact_score_of_counts scored [("a.php", "mysql_query($a)"), ("b.php", "mysql_query($b)"),
    ("c.php", "mysql_query($c)")]).1
  rw [counts] at points
  have four : exact.score ⟨14, 3, 0, 3, 0, 0⟩ = 4 := by
    decide +kernel
  exact four ▸ points

end Scorecard

end Surveyor
