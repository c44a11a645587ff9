import Surveyor.Proofs.Pattern.Stretch
import Surveyor.Pattern.Search

/-! # The matches that a search finds

A search goes from left to right and continues after each match. So its matches are ways of the
pattern (`isMatch_of_mem_findAllFrom`), they follow one another without overlap
(`findAllFrom_pairwise`), and an offset where the pattern matches is the start of one of them unless
an earlier match covers it (`covered_of_matchAt?`).
-/

namespace Surveyor

theorem Match.group?_of_lookup {t : Text} {m : Match} {index a b : Nat}
    (recorded : m.captures.lookup index = some (a, b)) : m.group? t index = some (t.slice a b) := by
  rw [Match.group?, Match.span?, recorded]
  rfl

theorem Match.group?_of_missing {t : Text} {m : Match} {index : Nat}
    (missing : m.captures.lookup index = none) : m.group? t index = none := by
  rw [Match.group?, Match.span?, missing]
  rfl

theorem Match.groupText_of_lookup {t : Text} {m : Match} {index a b : Nat}
    (recorded : m.captures.lookup index = some (a, b)) : m.groupText t index = t.slice a b := by
  rw [Match.groupText, Match.group?_of_lookup recorded]
  rfl

namespace Pattern

variable {p : Pattern} {s : Subject}

/-- A way of a pattern, taken as a match. -/
def IsMatch (p : Pattern) (s : Subject) (m : Match) : Prop :=
  (m.stop, m.captures) ∈ p.ways s m.start []

theorem matchAt?_eq_head? (p : Pattern) (s : Subject) (i : Nat) :
    p.matchAt? s i = (p.ways s i []).head?.map fun way => ⟨i, way.1, way.2⟩ := by
  unfold matchAt?
  rw [run_eq_findSome?]
  cases p.ways s i [] <;> rfl

theorem isMatch_of_matchAt? {i : Nat} {m : Match} (found : p.matchAt? s i = some m) :
    m.start = i ∧ p.IsMatch s m := by
  rw [matchAt?_eq_head?] at found
  obtain ⟨way, first, rfl⟩ := Option.map_eq_some_iff.mp found
  exact ⟨rfl, List.mem_of_head? first⟩

theorem matchAt?_eq_none {i : Nat} : p.matchAt? s i = none ↔ p.ways s i [] = [] := by
  rw [matchAt?_eq_head?, Option.map_eq_none_iff, List.head?_eq_none_iff]

theorem exists_matchAt? {i j : Nat} {after : Captures} (member : (j, after) ∈ p.ways s i []) :
    ∃ m, p.matchAt? s i = some m := by
  cases found : p.matchAt? s i with
  | some m => exact ⟨m, rfl⟩
  | none =>
    rw [matchAt?_eq_none.mp found] at member
    simp at member

theorem IsMatch.start_le_stop {m : Match} (matched : p.IsMatch s m) : m.start ≤ m.stop :=
  (le_of_mem_ways matched).1

theorem IsMatch.stop_le {m : Match} (matched : p.IsMatch s m) (nonempty : m.start < m.stop) :
    m.stop ≤ s.stop := by
  rcases (le_of_mem_ways matched).2 with same | within
  · omega
  · exact within

/-- Groups lie in the stretch of their match. -/
theorem IsMatch.groupStart_within {m : Match} (matched : p.IsMatch s m) (index : Nat) :
    m.start ≤ m.groupStart index ∧ m.groupStart index ≤ m.stop := by
  obtain ⟨new, recorded, records⟩ := records_of_mem_ways matched
  rw [List.append_nil] at recorded
  rw [Match.groupStart, Match.span?]
  cases found : m.captures.lookup index with
  | none => exact ⟨Nat.le_refl _, matched.start_le_stop⟩
  | some span =>
    obtain ⟨_, _, split, -⟩ := List.lookup_eq_some_iff.mp found
    obtain ⟨-, from_, order, upTo⟩ := records (index, span) (by simp [← recorded, split])
    exact ⟨from_, Nat.le_trans order upTo⟩

theorem IsMatch.groupStart_le {m : Match} (matched : p.IsMatch s m)
    (index : Nat) : m.groupStart index ≤ m.stop :=
  (matched.groupStart_within index).2

/-- A match whose pattern records a group once, taken apart at this group. -/
theorem IsMatch.group {lead body rest : Pattern} {index : Nat} {m : Match}
    (matched : (lead ++ (.group index body ++ rest)).IsMatch s m) (own : index ∉ rest.groups) :
    ∃ j between inner, m.span? index = some (m.groupStart index, j)
      ∧ (m.groupStart index, between) ∈ lead.ways s m.start []
      ∧ (j, inner) ∈ body.ways s (m.groupStart index) between
      ∧ (m.stop, m.captures) ∈ rest.ways s j ((index, m.groupStart index, j) :: inner) := by
  rw [IsMatch, mem_ways_append] at matched
  obtain ⟨i, between, leadWay, inside⟩ := matched
  rw [mem_ways_append] at inside
  obtain ⟨j, _, groupWay, restWay⟩ := inside
  obtain ⟨inner, bodyWay, rfl⟩ := mem_ways_group.mp groupWay
  have recorded : m.span? index = some (i, j) := by
    rw [Match.span?, lookup_of_not_mem_groups own restWay, List.lookup_cons_self]
  have starts : m.groupStart index = i := by
    rw [Match.groupStart, recorded]
    rfl
  rw [starts]
  exact ⟨j, between, inner, recorded, leadWay, bodyWay, restWay⟩

/-! ## From left to right -/

def resumeAt (m : Match) : Nat := if m.start < m.stop then m.stop else m.start + 1

/-- The matches that a search gathers, without those gathered before. -/
def laterMatches (p : Pattern) (s : Subject) (fuel i : Nat) : List Match :=
  (p.gather s fuel i #[]).toList

theorem gather_eq_append (p : Pattern) (s : Subject) (fuel i : Nat) (found : Array Match) :
    p.gather s fuel i found = found ++ p.gather s fuel i #[] := by
  induction fuel generalizing i found with
  | zero => simp [gather]
  | succ fuel inductionHypothesis =>
    unfold gather
    split
    · simp
    · split
      · next m matched =>
        rw [inductionHypothesis _ (found.push m), inductionHypothesis _ (#[].push m)]
        simp
      · exact inductionHypothesis _ found

theorem laterMatches_succ (fuel i : Nat) :
    p.laterMatches s (fuel + 1) i =
      if s.stop < i then []
      else
        match p.matchAt? s i with
        | some m => m :: p.laterMatches s fuel (resumeAt m)
        | none => p.laterMatches s fuel (i + 1) := by
  rw [laterMatches, gather]
  split
  · rfl
  · cases found : p.matchAt? s i with
    | none => rfl
    | some m =>
      obtain ⟨rfl, -⟩ := isMatch_of_matchAt? found
      simp only [laterMatches, resumeAt]
      rw [gather_eq_append]
      simp

theorem laterMatches_sound {fuel i : Nat} {m : Match} (member : m ∈ p.laterMatches s fuel i) :
    i ≤ m.start ∧ p.matchAt? s m.start = some m := by
  induction fuel generalizing i with
  | zero => simp [laterMatches, gather] at member
  | succ fuel inductionHypothesis =>
    rw [laterMatches_succ] at member
    split at member
    · simp at member
    · split at member
      · next found matched =>
        obtain ⟨starts, -⟩ := isMatch_of_matchAt? matched
        rcases List.mem_cons.mp member with rfl | later
        · exact ⟨by omega, by rw [starts]; exact matched⟩
        · obtain ⟨from_, sound⟩ := inductionHypothesis later
          refine ⟨?_, sound⟩
          unfold resumeAt at from_
          split at from_ <;> omega
      · obtain ⟨from_, sound⟩ := inductionHypothesis member
        exact ⟨by omega, sound⟩

theorem laterMatches_pairwise (fuel i : Nat) :
    (p.laterMatches s fuel i).Pairwise fun m later => resumeAt m ≤ later.start := by
  induction fuel generalizing i with
  | zero => simp [laterMatches, gather]
  | succ fuel inductionHypothesis =>
    rw [laterMatches_succ]
    split
    · exact .nil
    · split
      · refine .cons ?_ (inductionHypothesis _)
        intro later member
        exact (laterMatches_sound member).1
      · exact inductionHypothesis _

/-- A search passes over the offsets where the pattern does not match. -/
theorem laterMatches_skip {fuel i j : Nat} (from_ : i ≤ j) (upTo : j ≤ s.stop + 1)
    (enough : j ≤ i + fuel) (none_ : ∀ k, i ≤ k → k < j → p.matchAt? s k = none) :
    p.laterMatches s fuel i = p.laterMatches s (fuel - (j - i)) j := by
  induction fuel generalizing i with
  | zero =>
    obtain rfl : i = j := by omega
    rw [Nat.sub_self]
  | succ fuel inductionHypothesis =>
    rcases Nat.eq_or_lt_of_le from_ with rfl | later
    · rw [Nat.sub_self, Nat.sub_zero]
    · rw [laterMatches_succ, if_neg (by omega), none_ i (Nat.le_refl i) later]
      rw [show fuel + 1 - (j - i) = fuel - (j - (i + 1)) by omega]
      exact inductionHypothesis later (by omega) fun k after inside => none_ k (by omega) inside

/-- With enough fuel, an offset where the pattern matches starts a match or lies within one. -/
theorem laterMatches_complete {fuel i offset : Nat} (enough : s.stop < i + fuel) (from_ : i ≤ offset)
    (upTo : offset ≤ s.stop) {m : Match} (matched : p.matchAt? s offset = some m) :
    m ∈ p.laterMatches s fuel i
      ∨ ∃ earlier ∈ p.laterMatches s fuel i, earlier.start < offset ∧ offset < earlier.stop := by
  induction fuel generalizing i with
  | zero => omega
  | succ fuel inductionHypothesis =>
    rw [laterMatches_succ, if_neg (by omega)]
    cases found : p.matchAt? s i with
    | none =>
      simp only
      rcases Nat.eq_or_lt_of_le from_ with rfl | later
      · rw [matched] at found
        cases found
      · exact inductionHypothesis (by omega) later
    | some first =>
      simp only
      obtain ⟨starts, -⟩ := isMatch_of_matchAt? found
      rcases Nat.eq_or_lt_of_le from_ with rfl | later
      · rw [matched] at found
        cases found
        exact .inl (by simp)
      · -- The offset is passed over only if the first match covers it: behind an empty match the search
        -- resumes one further.
        rcases Nat.lt_or_ge offset (resumeAt first) with covered | beyond
        · refine .inr ⟨first, by simp, by omega, ?_⟩
          unfold resumeAt at covered
          split at covered <;> omega
        · have advances : i < resumeAt first := by
            unfold resumeAt
            split <;> omega
          rcases inductionHypothesis (by omega) beyond with here | ⟨earlier, member, covers⟩
          · exact .inl (List.mem_cons_of_mem first here)
          · exact .inr ⟨earlier, List.mem_cons_of_mem first member, covers⟩

/-! ## Searches -/

theorem isMatch_of_mem_findAllFrom {start : Nat} {m : Match} (member : m ∈ p.findAllFrom s start) :
    start ≤ m.start ∧ p.IsMatch s m := by
  obtain ⟨from_, matched⟩ := laterMatches_sound member
  exact ⟨from_, (isMatch_of_matchAt? matched).2⟩

theorem isMatch_of_mem_findAll {m : Match} (member : m ∈ p.findAll s) : p.IsMatch s m :=
  (isMatch_of_mem_findAllFrom member).2

theorem findAllFrom_pairwise (p : Pattern) (s : Subject) (start : Nat) :
    (p.findAllFrom s start).Pairwise fun m later => resumeAt m ≤ later.start :=
  laterMatches_pairwise _ _

theorem stop_le_resumeAt {m : Match} (matched : p.IsMatch s m) : m.stop ≤ resumeAt m := by
  have := matched.start_le_stop
  unfold resumeAt
  split <;> omega

/-- The groups of what a search finds behind a match start behind those of the match. -/
theorem groupStarts_ascend (p : Pattern) (s : Subject) (start index : Nat) :
    (p.findAllFrom s start).Pairwise fun m later => m.groupStart index ≤ later.groupStart index := by
  apply (List.Pairwise.and_mem.mp (findAllFrom_pairwise p s start)).imp
  rintro m later ⟨known, knownLater, follows⟩
  have matched := (isMatch_of_mem_findAllFrom known).2
  have matchedLater := (isMatch_of_mem_findAllFrom knownLater).2
  calc m.groupStart index
    _ ≤ m.stop := matched.groupStart_le index
    _ ≤ resumeAt m := stop_le_resumeAt matched
    _ ≤ later.start := follows
    _ ≤ later.groupStart index := (matchedLater.groupStart_within index).1

/-- Two matches of a search are the same or do not overlap. -/
theorem findAll_apart {m m' : Match} (member : m ∈ p.findAll s) (member' : m' ∈ p.findAll s) :
    m = m' ∨ m.stop ≤ m'.start ∨ m'.stop ≤ m.start := by
  have ordered := List.Pairwise.and_mem.mp (findAllFrom_pairwise p s 0)
  have apart : (p.findAll s).Pairwise fun m m' => m.stop ≤ m'.start := by
    refine ordered.imp ?_
    rintro first later ⟨known, -, follows⟩
    exact Nat.le_trans (stop_le_resumeAt (isMatch_of_mem_findAll known)) follows
  exact List.Pairwise.forall_of_forall_of_flip
    (R := fun m m' => m = m' ∨ m.stop ≤ m'.start ∨ m'.stop ≤ m.start) (fun _ _ => .inl rfl)
    (apart.imp fun before => .inr (.inl before)) (apart.imp fun before => .inr (.inr before))
    member member'

theorem covered_of_matchAt? {offset : Nat} (upTo : offset ≤ s.stop) {m : Match}
    (matched : p.matchAt? s offset = some m) :
    m ∈ p.findAll s ∨ ∃ earlier ∈ p.findAll s, earlier.start < offset ∧ offset < earlier.stop :=
  laterMatches_complete (by omega) (Nat.zero_le offset) upTo matched

/-- The first of the offsets in a range where the pattern matches. -/
theorem findFrom?_isSome {fuel i : Nat} :
    (p.findFrom? s fuel i).isSome = true ↔
      ∃ offset, i ≤ offset ∧ offset < i + fuel ∧ p.ways s offset [] ≠ [] := by
  induction fuel generalizing i with
  | zero =>
    simp only [findFrom?, Option.isSome_none, Bool.false_eq_true, false_iff]
    rintro ⟨offset, from_, upTo, -⟩
    omega
  | succ fuel inductionHypothesis =>
    unfold findFrom?
    cases found : p.matchAt? s i with
    | some m =>
      simp only [Option.isSome_some, true_iff]
      refine ⟨i, Nat.le_refl i, by omega, ?_⟩
      rw [ne_eq, ← matchAt?_eq_none, found]
      simp
    | none =>
      simp only [inductionHypothesis]
      constructor
      · rintro ⟨offset, from_, upTo, matches_⟩
        exact ⟨offset, by omega, by omega, matches_⟩
      · rintro ⟨offset, from_, upTo, matches_⟩
        rcases Nat.eq_or_lt_of_le from_ with rfl | later
        · exact absurd (matchAt?_eq_none.mp found) matches_
        · exact ⟨offset, later, by omega, matches_⟩

/-- What is found is the match at the first offset where there is one. -/
theorem findFrom?_eq_some {fuel i : Nat} {m : Match} :
    p.findFrom? s fuel i = some m ↔
      i ≤ m.start ∧ m.start < i + fuel ∧ p.matchAt? s m.start = some m
        ∧ ∀ k, i ≤ k → k < m.start → p.matchAt? s k = none := by
  induction fuel generalizing i with
  | zero =>
    simp only [findFrom?, reduceCtorEq, false_iff]
    rintro ⟨from_, upTo, -⟩
    omega
  | succ fuel inductionHypothesis =>
    unfold findFrom?
    cases found : p.matchAt? s i with
    | some first =>
      obtain ⟨starts, -⟩ := isMatch_of_matchAt? found
      simp only [Option.some.injEq]
      constructor
      · rintro rfl
        rw [starts]
        exact ⟨Nat.le_refl i, by omega, found, fun k from_ inside => by omega⟩
      · rintro ⟨from_, upTo, matched, none_⟩
        rcases Nat.eq_or_lt_of_le from_ with same | later
        · rw [← same, found] at matched
          exact Option.some.inj matched
        · rw [none_ i (Nat.le_refl i) later] at found
          cases found
    | none =>
      simp only [inductionHypothesis]
      constructor
      · rintro ⟨from_, upTo, matched, none_⟩
        refine ⟨by omega, by omega, matched, fun k after inside => ?_⟩
        rcases Nat.eq_or_lt_of_le after with rfl | later
        · exact found
        · exact none_ k later inside
      · rintro ⟨from_, upTo, matched, none_⟩
        have later : i ≠ m.start := by
          rintro rfl
          rw [found] at matched
          cases matched
        exact ⟨by omega, by omega, matched, fun k after inside => none_ k (by omega) inside⟩

/-- The last part behind the matches starts where the last match ends. -/
theorem getLast?_splitBy (p : Pattern) (t : Text) :
    (p.splitBy t).getLast?
      = some (t.slice (((p.findAll (.ofText t)).getLast?.map (·.stop)).getD 0) t.size) := by
  rw [splitBy]
  rcases List.eq_nil_or_concat (p.findAll (.ofText t)) with none_ | ⟨before, last, split⟩
  · rw [none_]
    rfl
  · have starts : 0 :: (before ++ [last]).map (·.stop) = (0 :: before.map (·.stop)) ++ [last.stop] := by
      simp
    rw [split, List.concat_eq_append, starts, List.zip_append (by simp)]
    simp

end Pattern

end Surveyor
