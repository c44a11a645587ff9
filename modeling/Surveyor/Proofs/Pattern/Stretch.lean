import Surveyor.Proofs.Pattern.Ways
import Surveyor.Pattern.Vocabulary

/-! # What a pattern passes over and what it records

* `Pattern.Within` bounds the characters of the stretch that a pattern matches.
* `Pattern.groups` lists the groups that a pattern can record: it leaves the captures of all other
  groups alone, and what it records lies within its stretch.
-/

namespace Surveyor

namespace Pattern

variable {s : Subject} {i j : Nat} {caps after : Captures}

/-! ## Characters of the stretch -/

/-- Every character that the pattern passes over is in a class. -/
def Within (class_ : Char → Bool) : Pattern → Prop
  | .one p | .greedy p _ | .lazy p _ => ∀ c, p c = true → class_ c = true
  | .literal same chars => ∀ c ∈ chars, ∀ d, same c d = true → class_ d = true
  | .arguments p =>
    (∀ c, p c = true → class_ c = true) ∧ class_ '(' = true ∧ class_ ')' = true
  | .seq first second => Within class_ first ∧ Within class_ second
  | .alt preferred other => Within class_ preferred ∧ Within class_ other
  | .star p | .group _ p => Within class_ p
  | .empty | .where_ _ | .absent _ => True

theorem arguments_within {p class_ : Char → Bool} (weaker : ∀ c, p c = true → class_ c = true)
    (opens : class_ '(' = true) (closes : class_ ')' = true) (spans : s.Arguments p i j) :
    ∀ k, i ≤ k → k < j → s.has class_ k = true := by
  induction spans with
  | nil => intro k from_ inside; omega
  | plain present _ inductionHypothesis =>
    intro k from_ inside
    rcases Nat.eq_or_lt_of_le from_ with rfl | later
    · exact Subject.has_mono weaker present
    · exact inductionHypothesis k later inside
  | nested isOpen _ between isClose _ inductionHypothesis =>
    intro k from_ inside
    rcases Nat.eq_or_lt_of_le from_ with rfl | later
    · exact Subject.has_mono (by rintro c same; simpa [beq_iff_eq.mp same] using opens) isOpen
    · rename_i close _ _ _
      rcases Nat.lt_trichotomy k close with before | rfl | behind
      · exact Subject.has_mono weaker (between k later before)
      · exact Subject.has_mono (by rintro c same; simpa [beq_iff_eq.mp same] using closes) isClose
      · exact inductionHypothesis k behind inside

theorem has_of_within {class_ : Char → Bool} {p : Pattern} (within : p.Within class_)
    (member : (j, after) ∈ p.ways s i caps) : ∀ k, i ≤ k → k < j → s.has class_ k = true := by
  induction p generalizing i j caps after with
  | empty | where_ _ | absent _ _ =>
    simp only [mem_ways_empty, mem_ways_where, mem_ways_absent] at member
    intro k from_ inside
    omega
  | one p =>
    obtain ⟨present, rfl, -⟩ := mem_ways_one.mp member
    intro k from_ inside
    obtain rfl : k = i := by omega
    exact Subject.has_mono within present
  | greedy p least =>
    obtain ⟨-, all, -⟩ := mem_ways_greedy.mp member
    exact fun k from_ inside => Subject.has_mono within (all k from_ inside)
  | «lazy» p least =>
    obtain ⟨-, all, -⟩ := mem_ways_lazy.mp member
    exact fun k from_ inside => Subject.has_mono within (all k from_ inside)
  | literal same chars =>
    obtain ⟨⟨rfl, all⟩, -⟩ := mem_ways_literal.mp member
    intro k from_ inside
    have present := all (k - i) (by omega)
    rw [Nat.add_sub_cancel' from_] at present
    exact Subject.has_mono (within _ (List.getElem_mem _)) present
  | arguments p =>
    exact arguments_within within.1 within.2.1 within.2.2 (mem_ways_arguments member).1
  | seq first second firstHypothesis secondHypothesis =>
    obtain ⟨k, between, before, behind⟩ := mem_ways_seq.mp member
    intro l from_ inside
    rcases Nat.lt_or_ge l k with early | late
    · exact firstHypothesis within.1 before l from_ early
    · exact secondHypothesis within.2 behind l late inside
  | alt preferred other preferredHypothesis otherHypothesis =>
    rcases mem_ways_alt.mp member with left | right
    · exact preferredHypothesis within.1 left
    · exact otherHypothesis within.2 right
  | star p inductionHypothesis =>
    have repeats := mem_ways_star.mp member
    clear member
    -- A second induction, on the repetitions, each of which is a way of the body.
    induction repeats with
    | done => intro k from_ inside; omega
    | more once advances _ restHypothesis =>
      rename_i start next _ _ _ _ _
      intro l from_ inside
      rcases Nat.lt_or_ge l next with early | late
      · exact inductionHypothesis within once l from_ early
      · exact restHypothesis l late inside
  | group index p inductionHypothesis =>
    obtain ⟨inner, matched, -⟩ := mem_ways_group.mp member
    exact inductionHypothesis within matched

def passes (d : Char) : Pattern → Bool
  | .one p | .greedy p _ | .lazy p _ => p d
  | .literal same chars => chars.any (same · d)
  | .arguments p => p d || d == '(' || d == ')'
  | .seq first second => passes d first || passes d second
  | .alt preferred other => passes d preferred || passes d other
  | .star p | .group _ p => passes d p
  | .empty | .where_ _ | .absent _ => false

theorem within_of_not_passes {d : Char} {p : Pattern} (excluded : p.passes d = false) :
    p.Within (· != d) := by
  induction p with
  | empty | where_ _ | absent _ _ => trivial
  | one p | greedy p _ | «lazy» p _ =>
    intro c inClass
    simp only [bne_iff_ne]
    rintro rfl
    rw [passes, inClass] at excluded
    cases excluded
  | literal same chars =>
    intro c member d' alike
    simp only [bne_iff_ne]
    rintro rfl
    simp only [passes, List.any_eq_false] at excluded
    exact excluded c member alike
  | arguments p =>
    simp only [passes, Bool.or_eq_false_iff, beq_eq_false_iff_ne] at excluded
    refine ⟨?_, bne_iff_ne.mpr (Ne.symm excluded.1.2), bne_iff_ne.mpr (Ne.symm excluded.2)⟩
    intro c inClass
    simp only [bne_iff_ne]
    rintro rfl
    rw [excluded.1.1] at inClass
    cases inClass
  | seq first second firstHypothesis secondHypothesis =>
    simp only [passes, Bool.or_eq_false_iff] at excluded
    exact ⟨firstHypothesis excluded.1, secondHypothesis excluded.2⟩
  | alt preferred other preferredHypothesis otherHypothesis =>
    simp only [passes, Bool.or_eq_false_iff] at excluded
    exact ⟨preferredHypothesis excluded.1, otherHypothesis excluded.2⟩
  | star p inductionHypothesis => exact inductionHypothesis excluded
  | group index p inductionHypothesis => exact inductionHypothesis excluded

/-- A character that the pattern cannot pass over stands nowhere in its stretch. -/
theorem ne_of_not_passes {d : Char} {p : Pattern} (excluded : p.passes d = false)
    (member : (j, after) ∈ p.ways s i caps) :
    ∀ k, i ≤ k → k < j → ∃ c, s.text[k]? = some c ∧ c ≠ d := by
  intro k from_ inside
  have present := has_of_within (within_of_not_passes excluded) member k from_ inside
  obtain ⟨c, here, other⟩ := Subject.getElem?_of_has present
  exact ⟨c, here, bne_iff_ne.mp other⟩

/-! ## Groups -/

def groups : Pattern → List Nat
  | .seq first second => groups first ++ groups second
  | .alt preferred other => groups preferred ++ groups other
  | .star p => groups p
  | .group index p => index :: groups p
  | .empty | .one _ | .greedy _ _ | .lazy _ _ | .literal _ _ | .arguments _ | .where_ _
  | .absent _ => []

/-- What is recorded between two offsets: entries of some groups whose stretches lie there. -/
def Records (indices : List Nat) (i j : Nat) (new : Captures) : Prop :=
  ∀ entry ∈ new, entry.1 ∈ indices ∧ i ≤ entry.2.1 ∧ entry.2.1 ≤ entry.2.2 ∧ entry.2.2 ≤ j

theorem Records.widen {indices wider : List Nat} {i j low high : Nat} {new : Captures}
    (records : Records indices i j new) (more : ∀ index ∈ indices, index ∈ wider) (below : low ≤ i)
    (above : j ≤ high) : Records wider low high new := by
  intro entry member
  obtain ⟨known, start, order, stop⟩ := records entry member
  exact ⟨more _ known, by omega, order, by omega⟩

theorem Records.append {indices : List Nat} {i j : Nat} {later earlier : Captures}
    (laterRecords : Records indices i j later) (earlierRecords : Records indices i j earlier) :
    Records indices i j (later ++ earlier) := by
  intro entry member
  rcases List.mem_append.mp member with inLater | inEarlier
  · exact laterRecords entry inLater
  · exact earlierRecords entry inEarlier

/-- The captures after a way are those before it with new ones of the pattern's groups in front. -/
theorem records_of_mem_ways {p : Pattern} (member : (j, after) ∈ p.ways s i caps) :
    ∃ new, after = new ++ caps ∧ Records p.groups i j new := by
  induction p generalizing i j caps after with
  | empty | one _ | greedy _ _ | «lazy» _ _ | literal _ _ | where_ _ | absent _ _ =>
    simp only [mem_ways_empty, mem_ways_one, mem_ways_greedy, mem_ways_lazy, mem_ways_literal,
      mem_ways_where, mem_ways_absent] at member
    exact ⟨[], by simp [member], by simp [Records]⟩
  | arguments p => exact ⟨[], by simp [(mem_ways_arguments member).2], by simp [Records]⟩
  | seq first second firstHypothesis secondHypothesis =>
    obtain ⟨k, between, before, behind⟩ := mem_ways_seq.mp member
    obtain ⟨early, rfl, earlyRecords⟩ := firstHypothesis before
    obtain ⟨late, rfl, lateRecords⟩ := secondHypothesis behind
    have firstEnd := (le_of_mem_ways before).1
    have secondEnd := (le_of_mem_ways behind).1
    -- Later captures stand in front of earlier ones.
    refine ⟨late ++ early, by simp, Records.append ?_ ?_⟩
    · exact lateRecords.widen (by simp +contextual [groups]) firstEnd (Nat.le_refl j)
    · exact earlyRecords.widen (by simp +contextual [groups]) (Nat.le_refl i) secondEnd
  | alt preferred other preferredHypothesis otherHypothesis =>
    rcases mem_ways_alt.mp member with left | right
    · obtain ⟨new, rfl, records⟩ := preferredHypothesis left
      exact ⟨new, rfl,
        records.widen (by simp +contextual [groups]) (Nat.le_refl i) (Nat.le_refl j)⟩
    · obtain ⟨new, rfl, records⟩ := otherHypothesis right
      exact ⟨new, rfl,
        records.widen (by simp +contextual [groups]) (Nat.le_refl i) (Nat.le_refl j)⟩
  | star p inductionHypothesis =>
    have repeats := mem_ways_star.mp member
    clear member
    induction repeats with
    | done => exact ⟨[], rfl, by simp [Records]⟩
    | @more start next last _ _ _ once advances rest restHypothesis =>
      obtain ⟨early, rfl, earlyRecords⟩ := inductionHypothesis once
      obtain ⟨late, rfl, lateRecords⟩ := restHypothesis
      have restEnd : next ≤ last ∧ (last = next ∨ last ≤ s.stop) := repeats_le le_of_mem_ways rest
      refine ⟨late ++ early, by simp, Records.append ?_ ?_⟩
      · exact lateRecords.widen (fun _ known => known) (Nat.le_of_lt advances) (Nat.le_refl last)
      · exact earlyRecords.widen (fun _ known => known) (Nat.le_refl start) restEnd.1
  | group index p inductionHypothesis =>
    obtain ⟨inner, matched, rfl⟩ := mem_ways_group.mp member
    obtain ⟨new, rfl, records⟩ := inductionHypothesis matched
    have ends := (le_of_mem_ways matched).1
    refine ⟨(index, i, j) :: new, by simp, ?_⟩
    intro entry inNew
    rcases List.mem_cons.mp inNew with rfl | inner
    · exact ⟨by simp [groups], Nat.le_refl i, ends, Nat.le_refl j⟩
    · obtain ⟨known, bounds⟩ := records entry inner
      exact ⟨by simp [groups, known], bounds⟩

/-- A pattern without groups leaves the captures as they are. -/
theorem captures_of_plain {p : Pattern} (plain : p.groups = [])
    (member : (j, after) ∈ p.ways s i caps) : after = caps := by
  obtain ⟨new, rfl, records⟩ := records_of_mem_ways member
  rw [plain] at records
  cases new with
  | nil => rfl
  | cons entry rest => simpa using (records entry (by simp)).1

/-- A pattern does not touch a group that is none of its own. -/
theorem lookup_of_not_mem_groups {p : Pattern} {index : Nat} (foreign_ : index ∉ p.groups)
    (member : (j, after) ∈ p.ways s i caps) : after.lookup index = caps.lookup index := by
  obtain ⟨new, rfl, records⟩ := records_of_mem_ways member
  clear member
  induction new with
  | nil => rfl
  | cons entry rest inductionHypothesis =>
    obtain ⟨known, -⟩ := records entry (by simp)
    have unequal : (index == entry.1) = false := by
      simp only [beq_eq_false_iff_ne]
      rintro rfl
      exact foreign_ known
    rw [List.cons_append, List.lookup_cons, unequal]
    exact inductionHypothesis fun later inRest => records later (by simp [inRest])

end Pattern

end Surveyor
