import Surveyor.Proofs.Number.Whole
import Surveyor.Quality.Complexity

/-! # The table of complex files

The rank of a measured file is its complexity, the greatest first, and then its path; files of one mapping
have ranks of their own. So there is one way to list files by rank, and raising the threshold drops the
files at the end of the list (`aboveThreshold_prefix`).
-/

namespace Surveyor

/-- What holds of a member as soon as it holds of a later one holds of a beginning of the list. -/
theorem filter_isPrefix_of_pairwise {α : Type} {p : α → Bool} {items : List α}
    (closed : items.Pairwise fun a b => p b = true → p a = true) : items.filter p <+: items := by
  induction items with
  | nil => exact List.prefix_refl []
  | cons first rest inductionHypothesis =>
    obtain ⟨ofFirst, ofRest⟩ := List.pairwise_cons.mp closed
    cases holds : p first with
    | true =>
      rw [List.filter_cons_of_pos holds]
      exact (List.prefix_cons_inj first).mpr (inductionHypothesis ofRest)
    | false =>
      have nothing : rest.filter p = [] := by
        refine List.filter_eq_nil_iff.mpr fun later member holdsToo => ?_
        rw [ofFirst later member holdsToo] at holds
        cases holds
      rw [List.filter_cons_of_neg (by simp [holds]), nothing]
      exact List.nil_prefix

namespace ComplexityRecord

variable {contents : Contents} {skip : List String} {limit : Option Int} {threshold : Int}

/-! ## Ranks -/

/-- The place of a file among others: the more complex first, those of one complexity by path. -/
def rank (r : ComplexityRecord) : ℤ ×ₗ String := toLex (-(r.complexity : ℤ), r.file)

theorem comesBefore_iff {a b : ComplexityRecord} : comesBefore a b = true ↔ a.rank ≤ b.rank := by
  simp only [comesBefore, rank, Prod.Lex.toLex_le_toLex, Int.neg_lt_neg_iff, Int.neg_inj,
    Int.ofNat_lt, Int.ofNat_inj, Bool.or_eq_true, Bool.and_eq_true, decide_eq_true_eq, beq_iff_eq]

theorem file_eq_of_rank_eq {a b : ComplexityRecord} (same : a.rank = b.rank) : a.file = b.file :=
  congrArg (fun place => (ofLex place).2) same

theorem complexity_le_of_rank_lt {a b : ComplexityRecord} (before : a.rank < b.rank) :
    b.complexity ≤ a.complexity := by
  rcases Prod.Lex.toLex_lt_toLex.mp before with less | ⟨same, -⟩ <;> simp only at * <;> omega

theorem pairwise_mergeSort_rank (records : List ComplexityRecord) :
    (records.mergeSort comesBefore).Pairwise fun a b => a.rank ≤ b.rank := by
  have transitive : ∀ a b c, comesBefore a b = true → comesBefore b c = true →
      comesBefore a c = true := by
    simp only [comesBefore_iff]
    exact fun a b c => le_trans
  have total : ∀ a b, (comesBefore a b || comesBefore b a) = true := by
    simp only [Bool.or_eq_true, comesBefore_iff]
    exact fun a b => le_total a.rank b.rank
  exact (List.pairwise_mergeSort transitive total records).imp comesBefore_iff.mp

/-! ## Tables -/

def measured (contents : Contents) (skip : List String) (limit : Option Int) :
    List ComplexityRecord :=
  (contents.sorted.filter fun (path, content) => isMeasured skip path content).map
    fun (path, content) => measure path content limit

theorem mem_measured {r : ComplexityRecord} :
    r ∈ measured contents skip limit ↔
      ∃ path content, (path, content) ∈ contents ∧ isMeasured skip path content = true
        ∧ r = measure path content limit := by
  simp only [measured, Contents.sorted, List.mem_map, List.mem_filter, List.mem_mergeSort, Prod.exists]
  constructor
  · rintro ⟨path, content, ⟨given, counts⟩, rfl⟩
    exact ⟨path, content, given, counts, rfl⟩
  · rintro ⟨path, content, given, counts, rfl⟩
    exact ⟨path, content, ⟨given, counts⟩, rfl⟩

theorem nodup_measured (distinct : (contents.map (·.1)).Nodup) :
    ((measured contents skip limit).map (·.file)).Nodup := by
  have sortedPerm : contents.sorted.Perm contents := List.mergeSort_perm _ _
  have files : (measured contents skip limit).map (·.file)
      = (contents.sorted.filter fun (path, content) => isMeasured skip path content).map (·.1) := by
    rw [measured, List.map_map]
    rfl
  rw [files]
  exact ((sortedPerm.map (·.1)).nodup_iff.mpr distinct).sublist (List.filter_sublist.map _)

theorem aboveThreshold_eq :
    aboveThreshold contents threshold skip limit
      = ((measured contents skip limit).filter fun r => threshold < r.complexity).mergeSort
          comesBefore := rfl

theorem perm_aboveThreshold :
    (aboveThreshold contents threshold skip limit).Perm
      ((measured contents skip limit).filter fun r => threshold < r.complexity) :=
  List.mergeSort_perm _ _

theorem mem_aboveThreshold {r : ComplexityRecord} :
    r ∈ aboveThreshold contents threshold skip limit ↔
      r ∈ measured contents skip limit ∧ threshold < r.complexity := by
  simp [perm_aboveThreshold.mem_iff]

/-- Files of one mapping differ in their paths, and so in their ranks. -/
theorem pairwise_aboveThreshold (distinct : (contents.map (·.1)).Nodup) :
    (aboveThreshold contents threshold skip limit).Pairwise fun a b => a.rank < b.rank := by
  have apart : ((aboveThreshold contents threshold skip limit).map (·.file)).Nodup :=
    ((perm_aboveThreshold.map _).nodup_iff).mpr
      ((nodup_measured distinct).sublist (List.filter_sublist.map _))
  have inOrder := pairwise_mergeSort_rank
    ((measured contents skip limit).filter fun r => threshold < r.complexity)
  refine (inOrder.and (List.pairwise_map.mp apart)).imp ?_
  exact fun ⟨atMost, differ⟩ => lt_of_le_of_ne atMost fun same => differ (file_eq_of_rank_eq same)

/-- A higher threshold picks out of the table for a lower one. -/
theorem aboveThreshold_eq_filter (distinct : (contents.map (·.1)).Nodup) {higher : Int}
    (raised : threshold ≤ higher) :
    aboveThreshold contents higher skip limit
      = (aboveThreshold contents threshold skip limit).filter fun r => higher < r.complexity := by
  refine List.Perm.eq_of_pairwise ?_ (pairwise_aboveThreshold distinct)
    ((pairwise_aboveThreshold distinct).filter _) ?_
  · exact fun a b _ _ before behind => absurd before behind.not_gt
  · calc aboveThreshold contents higher skip limit
      _ |>.Perm ((measured contents skip limit).filter fun r => higher < r.complexity) :=
        perm_aboveThreshold
      _ |>.Perm (((measured contents skip limit).filter fun r => threshold < r.complexity).filter
          fun r => higher < r.complexity) := by
        rw [List.filter_filter]
        refine .of_eq (List.filter_congr fun r _ => ?_)
        rw [Bool.eq_iff_iff, Bool.and_eq_true, decide_eq_true_eq, decide_eq_true_eq]
        omega
      _ |>.Perm ((aboveThreshold contents threshold skip limit).filter fun r => higher < r.complexity) :=
        perm_aboveThreshold.symm.filter _

theorem aboveThreshold_prefix (distinct : (contents.map (·.1)).Nodup) {higher : Int}
    (raised : threshold ≤ higher) :
    aboveThreshold contents higher skip limit <+: aboveThreshold contents threshold skip limit := by
  rw [aboveThreshold_eq_filter distinct raised]
  refine filter_isPrefix_of_pairwise ((pairwise_aboveThreshold distinct).imp fun {a b} before => ?_)
  simp only [decide_eq_true_eq]
  have notLess : b.complexity ≤ a.complexity := complexity_le_of_rank_lt before
  omega

/-- Where nothing is measured, there is nothing in the table either. -/
theorem findAll_eq :
    findAll contents (.ok threshold) skip (.ok limit)
      = .ok (aboveThreshold contents threshold skip limit) := by
  unfold findAll
  split
  · rfl
  · next nothing =>
    have unmeasured : measured contents skip limit = [] := by
      refine List.eq_nil_iff_forall_not_mem.mpr fun r member => nothing ?_
      obtain ⟨path, content, given, counts, -⟩ := mem_measured.mp member
      exact List.any_eq_true.mpr ⟨(path, content), given, counts⟩
    rw [aboveThreshold_eq, unmeasured, List.filter_nil, List.mergeSort_nil]
    rfl

theorem isMeasured_iff {path content : String} :
    isMeasured skip path content = true ↔
      content ≠ "" ∧ path ∉ skip ∧ hasExtension path sourceExtensions = true := by
  simp [isMeasured, and_assoc]

theorem complexity_of_mem_measured {r : ComplexityRecord} (member : r ∈ measured contents skip limit) :
    r.complexity = 1 + (r.breakdown.map (·.2)).sum := by
  obtain ⟨path, content, -, -, rfl⟩ := mem_measured.mp member
  rw [← sumOf_eq_sum]
  rfl

/-- The table lists the measured files above the threshold by strictly increasing rank, and a higher
threshold leaves a beginning of it. -/
theorem table_of_complex_files (contents : Contents) (distinct : (contents.map (·.1)).Nodup)
    (skip : List String) (limit : Option Int) (threshold : Int) :
    ∃ records, findAll contents (.ok threshold) skip (.ok limit) = .ok records
      ∧ (∀ r, r ∈ records ↔ ∃ path content, (path, content) ∈ contents ∧ content ≠ "" ∧ path ∉ skip
          ∧ hasExtension path sourceExtensions = true ∧ r = measure path content limit
          ∧ threshold < r.complexity)
      ∧ records.Pairwise (fun a b => a.rank < b.rank)
      ∧ (∀ r ∈ records, r.complexity = 1 + (r.breakdown.map (·.2)).sum)
      ∧ ∀ higher, threshold ≤ higher → ∃ fewer,
          findAll contents (.ok higher) skip (.ok limit) = .ok fewer ∧ fewer <+: records := by
  refine ⟨_, findAll_eq, fun r => ?_, pairwise_aboveThreshold distinct, fun r member => ?_,
    fun higher raised => ⟨_, findAll_eq, aboveThreshold_prefix distinct raised⟩⟩
  · simp only [mem_aboveThreshold, mem_measured, isMeasured_iff]
    constructor
    · rintro ⟨⟨path, content, given, ⟨filled, kept, source⟩, isRecord⟩, above⟩
      exact ⟨path, content, given, filled, kept, source, isRecord, above⟩
    · rintro ⟨path, content, given, filled, kept, source, isRecord, above⟩
      exact ⟨⟨path, content, given, ⟨filled, kept, source⟩, isRecord⟩, above⟩
  · exact complexity_of_mem_measured (mem_aboveThreshold.mp member).1

/-- Two scripts, the second of which has one more branch. -/
def branchingScripts : Contents := [("a.js", "if (a) b()"), ("b.js", "if (a && b) c()")]

theorem branchingScripts_table :
    (branchingScripts.map (·.1)).Nodup
      ∧ ∃ records fewer, findAll branchingScripts (.ok 1) [] (.ok none) = .ok records
        ∧ findAll branchingScripts (.ok 2) [] (.ok none) = .ok fewer ∧ fewer <+: records
        ∧ measure "a.js" "if (a) b()" none ∈ records ∧ measure "a.js" "if (a) b()" none ∉ fewer
        ∧ measure "b.js" "if (a && b) c()" none ∈ fewer := by
  have distinct : (branchingScripts.map (·.1)).Nodup := by decide
  obtain ⟨records, found, listed, -, -, raised⟩ :=
    table_of_complex_files branchingScripts distinct [] none 1
  obtain ⟨fewer, foundFewer, isPrefix⟩ := raised 2 (by decide)
  obtain ⟨_, foundToo, listedFewer, -⟩ := table_of_complex_files branchingScripts distinct [] none 2
  obtain rfl := Except.ok.inj (foundFewer.symm.trans foundToo)
  refine ⟨distinct, records, fewer, found, foundFewer, isPrefix, ?_, fun member => ?_, ?_⟩
  · exact (listed _).mpr ⟨_, _, .head _, by decide, by decide, by decide, rfl, by decide⟩
  · obtain ⟨-, -, -, -, -, -, -, above⟩ := (listedFewer _).mp member
    exact absurd above (by decide)
  · exact (listedFewer _).mpr ⟨_, _, .tail _ (.head _), by decide, by decide, by decide, rfl, by decide⟩

end ComplexityRecord

end Surveyor
