import Surveyor.Proofs.Pattern.Preferred

/-! # What stands beside a stretch

The stretch before a group ends on the last character of the pieces that lead to it, the stretch after
it starts on the first character of those that follow (`last_of_endsOn`, `first_of_startsOn`). A
search that starts a match right after an offset where the pattern matches as well has just finished
another one (`ends_before`).
-/

namespace Surveyor

namespace Pattern

variable {s : Subject} {i j : Nat} {caps after : Captures} {class_ : Char → Bool}

/-! ## Patterns that consume something -/

/-- Does the pattern pass over at least one character? -/
def consumes : Pattern → Bool
  | .one _ => true
  | .greedy _ least | .lazy _ least => decide (0 < least)
  | .literal _ chars => !chars.isEmpty
  | .seq first second => consumes first || consumes second
  | .alt preferred other => consumes preferred && consumes other
  | .group _ p => consumes p
  | .empty | .arguments _ | .where_ _ | .absent _ | .star _ => false

theorem lt_of_consumes {p : Pattern} (consuming : p.consumes = true)
    (member : (j, after) ∈ p.ways s i caps) : i < j := by
  induction p generalizing i j caps after with
  | empty | arguments _ | where_ _ | absent _ _ | star _ _ => cases consuming
  | one p =>
    obtain ⟨-, rfl, -⟩ := mem_ways_one.mp member
    exact Nat.lt_succ_self i
  | greedy p least =>
    obtain ⟨enough, -⟩ := mem_ways_greedy.mp member
    have positive : 0 < least := of_decide_eq_true consuming
    omega
  | «lazy» p least =>
    obtain ⟨enough, -⟩ := mem_ways_lazy.mp member
    have positive : 0 < least := of_decide_eq_true consuming
    omega
  | literal same chars =>
    obtain ⟨⟨rfl, -⟩, -⟩ := mem_ways_literal.mp member
    have positive : 0 < chars.length := by
      rw [List.length_pos_iff]
      rintro rfl
      cases consuming
    omega
  | seq first second firstHypothesis secondHypothesis =>
    obtain ⟨k, between, before, behind⟩ := mem_ways_seq.mp member
    have beforeOrder := (le_of_mem_ways before).1
    have behindOrder := (le_of_mem_ways behind).1
    rw [consumes, Bool.or_eq_true] at consuming
    rcases consuming with first | second
    · have := firstHypothesis first before
      omega
    · have := secondHypothesis second behind
      omega
  | alt preferred other preferredHypothesis otherHypothesis =>
    rw [consumes, Bool.and_eq_true] at consuming
    rcases mem_ways_alt.mp member with left | right
    · exact preferredHypothesis consuming.1 left
    · exact otherHypothesis consuming.2 right
  | group index p inductionHypothesis =>
    obtain ⟨inner, matched, -⟩ := mem_ways_group.mp member
    exact inductionHypothesis consuming matched

theorem consumes_followedBy (first last : Pattern) :
    (followedBy first last).consumes = (first.consumes || last.consumes) := by
  induction first with
  | seq start rest _ restHypothesis => simp only [followedBy, consumes, restHypothesis, Bool.or_assoc]
  | _ => rfl

/-- A search of a whole text finds matches in it. -/
theorem stop_le_size_of_mem_findAll {p : Pattern} {t : Text} {m : Match}
    (consuming : p.consumes = true) (found : m ∈ p.findAll (.ofText t)) : m.stop ≤ t.size := by
  have matched := isMatch_of_mem_findAll found
  exact matched.stop_le (lt_of_consumes consuming matched)

/-! ## The first character -/

/-- The first character that the pattern passes over is in the class. -/
def StartsOn (class_ : Char → Bool) : Pattern → Prop
  | .one p | .greedy p _ | .lazy p _ => ∀ c, p c = true → class_ c = true
  | .literal same chars => ∀ c, chars.head? = some c → ∀ d, same c d = true → class_ d = true
  | .seq first second => StartsOn class_ first ∧ (first.consumes = true ∨ StartsOn class_ second)
  | .alt preferred other => StartsOn class_ preferred ∧ StartsOn class_ other
  | .star p | .group _ p => StartsOn class_ p
  | .arguments _ => False
  | .empty | .where_ _ | .absent _ => True

theorem startsOn_followedBy {first last : Pattern} :
    (followedBy first last).StartsOn class_ ↔
      first.StartsOn class_ ∧ (first.consumes = true ∨ last.StartsOn class_) := by
  induction first with
  | seq start rest _ restHypothesis =>
    simp only [followedBy, StartsOn, restHypothesis, consumes, Bool.or_eq_true]
    grind
  | _ => rfl

@[simp]
theorem startsOn_append {first last : Pattern} :
    (first ++ last).StartsOn class_ ↔
      first.StartsOn class_ ∧ (first.consumes = true ∨ last.StartsOn class_) :=
  startsOn_followedBy

theorem first_of_startsOn {p : Pattern} (starts : p.StartsOn class_)
    (member : (j, after) ∈ p.ways s i caps) (nonempty : i < j) :
    ∃ c, s.text[i]? = some c ∧ class_ c = true := by
  induction p generalizing i j caps after with
  | empty | where_ _ | absent _ _ =>
    simp only [mem_ways_empty, mem_ways_where, mem_ways_absent] at member
    omega
  | arguments _ => cases starts
  | one p =>
    obtain ⟨c, here, inClass⟩ := Subject.getElem?_of_has (mem_ways_one.mp member).1
    exact ⟨c, here, starts c inClass⟩
  | greedy p least =>
    obtain ⟨-, all, -⟩ := mem_ways_greedy.mp member
    obtain ⟨c, here, inClass⟩ := Subject.getElem?_of_has (all i (Nat.le_refl i) nonempty)
    exact ⟨c, here, starts c inClass⟩
  | «lazy» p least =>
    obtain ⟨-, all, -⟩ := mem_ways_lazy.mp member
    obtain ⟨c, here, inClass⟩ := Subject.getElem?_of_has (all i (Nat.le_refl i) nonempty)
    exact ⟨c, here, starts c inClass⟩
  | literal same chars =>
    obtain ⟨⟨rfl, all⟩, -⟩ := mem_ways_literal.mp member
    obtain ⟨c, here, alike⟩ := Subject.getElem?_of_has (all 0 (by omega))
    exact ⟨c, here, starts _ (by rw [List.head?_eq_getElem?, List.getElem?_eq_getElem]) c alike⟩
  | seq first second firstHypothesis secondHypothesis =>
    obtain ⟨k, between, before, behind⟩ := mem_ways_seq.mp member
    -- If the first part passes over nothing, the character is the first one of the second part.
    rcases Nat.eq_or_lt_of_le (le_of_mem_ways before).1 with rfl | advances
    · rcases starts.2 with consuming | startsSecond
      · exact absurd (lt_of_consumes consuming before) (Nat.lt_irrefl _)
      · exact secondHypothesis startsSecond behind nonempty
    · exact firstHypothesis starts.1 before advances
  | alt preferred other preferredHypothesis otherHypothesis =>
    rcases mem_ways_alt.mp member with left | right
    · exact preferredHypothesis starts.1 left nonempty
    · exact otherHypothesis starts.2 right nonempty
  | star p inductionHypothesis =>
    cases mem_ways_star.mp member with
    | done => omega
    | more once advances _ => exact inductionHypothesis starts once advances
  | group index p inductionHypothesis =>
    obtain ⟨inner, matched, -⟩ := mem_ways_group.mp member
    exact inductionHypothesis starts matched nonempty

/-! ## The last character -/

/-- The last character that the pattern passes over is in the class. -/
def EndsOn (class_ : Char → Bool) : Pattern → Prop
  | .one p | .greedy p _ | .lazy p _ => ∀ c, p c = true → class_ c = true
  | .literal same chars => ∀ c, chars.getLast? = some c → ∀ d, same c d = true → class_ d = true
  | .seq first second => EndsOn class_ second ∧ (second.consumes = true ∨ EndsOn class_ first)
  | .alt preferred other => EndsOn class_ preferred ∧ EndsOn class_ other
  | .star p | .group _ p => EndsOn class_ p
  | .arguments _ => False
  | .empty | .where_ _ | .absent _ => True

theorem endsOn_followedBy {first last : Pattern} :
    (followedBy first last).EndsOn class_ ↔
      last.EndsOn class_ ∧ (last.consumes = true ∨ first.EndsOn class_) := by
  induction first with
  | seq start rest _ restHypothesis =>
    simp only [followedBy, EndsOn, restHypothesis, consumes_followedBy, Bool.or_eq_true]
    grind
  | _ => rfl

@[simp]
theorem endsOn_append {first last : Pattern} :
    (first ++ last).EndsOn class_ ↔
      last.EndsOn class_ ∧ (last.consumes = true ∨ first.EndsOn class_) :=
  endsOn_followedBy

theorem last_of_endsOn {p : Pattern} (ends : p.EndsOn class_)
    (member : (j, after) ∈ p.ways s i caps) (nonempty : i < j) :
    ∃ c, s.text[j - 1]? = some c ∧ class_ c = true := by
  induction p generalizing i j caps after with
  | empty | where_ _ | absent _ _ =>
    simp only [mem_ways_empty, mem_ways_where, mem_ways_absent] at member
    omega
  | arguments _ => cases ends
  | one p =>
    obtain ⟨present, rfl, -⟩ := mem_ways_one.mp member
    obtain ⟨c, here, inClass⟩ := Subject.getElem?_of_has present
    exact ⟨c, here, ends c inClass⟩
  | greedy p least =>
    obtain ⟨-, all, -⟩ := mem_ways_greedy.mp member
    obtain ⟨c, here, inClass⟩ := Subject.getElem?_of_has (all (j - 1) (by omega) (by omega))
    exact ⟨c, here, ends c inClass⟩
  | «lazy» p least =>
    obtain ⟨-, all, -⟩ := mem_ways_lazy.mp member
    obtain ⟨c, here, inClass⟩ := Subject.getElem?_of_has (all (j - 1) (by omega) (by omega))
    exact ⟨c, here, ends c inClass⟩
  | literal same chars =>
    obtain ⟨⟨rfl, all⟩, -⟩ := mem_ways_literal.mp member
    have inChars : chars.length - 1 < chars.length := by omega
    obtain ⟨c, here, alike⟩ := Subject.getElem?_of_has (all (chars.length - 1) inChars)
    refine ⟨c, ?_, ends _ (by rw [List.getLast?_eq_getElem?, List.getElem?_eq_getElem]) c alike⟩
    rw [← here]
    congr 1
    omega
  | seq first second firstHypothesis secondHypothesis =>
    obtain ⟨k, between, before, behind⟩ := mem_ways_seq.mp member
    rcases Nat.eq_or_lt_of_le (le_of_mem_ways behind).1 with rfl | advances
    · rcases ends.2 with consuming | endsFirst
      · exact absurd (lt_of_consumes consuming behind) (Nat.lt_irrefl _)
      · exact firstHypothesis endsFirst before nonempty
    · exact secondHypothesis ends.1 behind advances
  | alt preferred other preferredHypothesis otherHypothesis =>
    rcases mem_ways_alt.mp member with left | right
    · exact preferredHypothesis ends.1 left nonempty
    · exact otherHypothesis ends.2 right nonempty
  | star p inductionHypothesis =>
    have repeats := mem_ways_star.mp member
    clear member
    induction repeats with
    | done => omega
    | @more start next last _ _ _ once advances rest restHypothesis =>
      have restOrder : next ≤ last ∧ (last = next ∨ last ≤ s.stop) := repeats_le le_of_mem_ways rest
      -- The last repetition has the last character, since each of them consumes something.
      rcases Nat.eq_or_lt_of_le restOrder.1 with rfl | further
      · exact inductionHypothesis ends once nonempty
      · exact restHypothesis further
  | group index p inductionHypothesis =>
    obtain ⟨inner, matched, -⟩ := mem_ways_group.mp member
    exact inductionHypothesis ends matched nonempty

/-! ## Matches side by side -/

/-- A match that could have started one character earlier follows right after another one. -/
theorem ends_before {p : Pattern} (consuming : p.consumes = true) {m : Match}
    (found : m ∈ p.findAll s) (positive : 0 < m.start) (inText : m.start ≤ s.stop)
    (earlierWays : p.ways s (m.start - 1) [] ≠ []) :
    ∃ earlier ∈ p.findAll s, earlier.stop = m.start := by
  obtain ⟨⟨last, captured⟩, way⟩ := List.exists_mem_of_ne_nil _ earlierWays
  obtain ⟨first, matched⟩ := exists_matchAt? way
  have order := (isMatch_of_mem_findAll found).start_le_stop
  -- A match starts at the offset before or covers it. It cannot reach into `m`.
  rcases covered_of_matchAt? (by omega) matched with here | ⟨earlier, here, before, covers⟩
  · obtain ⟨starts, isMatch⟩ := isMatch_of_matchAt? matched
    have advances := lt_of_consumes consuming isMatch
    refine ⟨first, here, ?_⟩
    rcases findAll_apart here found with rfl | left | right
    · omega
    · omega
    · omega
  · refine ⟨earlier, here, ?_⟩
    rcases findAll_apart here found with rfl | left | right
    · omega
    · omega
    · omega

end Pattern

end Surveyor
