import Surveyor.Proofs.Pattern.Edges

/-! # The same pattern in a larger text

A pattern without conditions on its surroundings that matches in a part of a text matches in the whole
text as well (`ways_shift`), with every offset shifted by the start of the part.
-/

namespace Surveyor

/-! ## Parameter lists are followed to their end -/

namespace Subject

variable {s : Subject} {p : Char → Bool} {i j : Nat}

theorem mem_argumentEnds_of_mem {fuel : Nat} {ends : List Nat} (member : j ∈ i :: ends) :
    j ∈ s.argumentEnds p fuel i ends := by
  induction fuel generalizing i ends with
  | zero => exact member
  | succ fuel inductionHypothesis =>
    unfold argumentEnds
    split
    · exact inductionHypothesis (List.mem_cons_of_mem _ member)
    · split
      · simp only
        split
        · exact inductionHypothesis (List.mem_cons_of_mem _ member)
        · exact member
      · exact member

theorem mem_argumentEnds_of_arguments {fuel : Nat} {ends : List Nat} (noOpening : p '(' = false)
    (noClosing : p ')' = false) (spans : s.Arguments p i j) (enough : s.stop ≤ i + fuel) :
    j ∈ s.argumentEnds p fuel i ends := by
  have not_has : ∀ {c : Char} {k : Nat}, p c = false → s.has (· == c) k = true → s.has p k = false := by
    intro c k outside present
    cases inClass : s.has p k with
    | false => rfl
    | true =>
      obtain ⟨d, same, inside⟩ := has_and_has present inClass
      rw [beq_iff_eq.mp same, outside] at inside
      cases inside
  induction spans generalizing fuel ends with
  | nil => exact mem_argumentEnds_of_mem (by simp)
  | plain present rest inductionHypothesis =>
    have inside := has_lt_stop present
    cases fuel with
    | zero => omega
    | succ fuel =>
      unfold argumentEnds
      rw [if_pos present]
      exact inductionHypothesis (by omega)
  | @nested i close j opens later between closes rest inductionHypothesis =>
    have closeInside := has_lt_stop closes
    cases fuel with
    | zero => omega
    | succ fuel =>
      -- The closing parenthesis is not of the class, so the run ends right before it.
      have sameEnd : s.runEnd p fuel (i + 1) = close := by
        rcases Nat.lt_trichotomy (s.runEnd p fuel (i + 1)) close with short | same | long
        · have inRun : close ≤ i + 1 + fuel := by omega
          rcases le_runEnd_of_has inRun (fun k from_ inside => between k from_ inside) with
            reached | empty
          · omega
          · have := le_runEnd s p fuel (i + 1)
            omega
        · exact same
        · have := has_of_lt_runEnd later long
          rw [not_has noClosing closes] at this
          cases this
      unfold argumentEnds
      rw [if_neg (by rw [not_has noOpening opens]; exact Bool.false_ne_true), if_pos opens]
      simp only [sameEnd, closes, ↓reduceIte]
      exact inductionHypothesis (by omega)

end Subject

/-! ## Shifted matches -/

/-- Every character of one subject stands in another one, shifted by an offset. -/
def Carries (s s' : Subject) (shift : Nat) : Prop :=
  ∀ (p : Char → Bool) (i : Nat), s.has p i = true → s'.has p (shift + i) = true

namespace Pattern

/-- Has the pattern no conditions on what surrounds it? -/
def unconditional : Pattern → Bool
  | .where_ _ | .absent _ => false
  | .arguments p => !p '(' && !p ')'
  | .seq first second => unconditional first && unconditional second
  | .alt preferred other => unconditional preferred && unconditional other
  | .star p | .group _ p => unconditional p
  | .empty | .one _ | .greedy _ _ | .lazy _ _ | .literal _ _ => true

variable {s s' : Subject} {shift : Nat}

theorem arguments_shift (carries : Carries s s' shift) {p : Char → Bool} {i j : Nat}
    (spans : s.Arguments p i j) : s'.Arguments p (shift + i) (shift + j) := by
  induction spans with
  | nil => exact .nil
  | plain present _ inductionHypothesis => exact .plain (carries _ _ present) inductionHypothesis
  | nested opens later between closes _ inductionHypothesis =>
    refine .nested (carries _ _ opens) (by omega) ?_ (carries _ _ closes) inductionHypothesis
    intro k from_ inside
    have there := carries _ _ (between (k - shift) (by omega) (by omega))
    rwa [Nat.add_sub_cancel' (by omega)] at there

theorem has_shift (carries : Carries s s' shift) {p : Char → Bool} {i j : Nat}
    (all : ∀ k, i ≤ k → k < j → s.has p k = true) :
    ∀ k, shift + i ≤ k → k < shift + j → s'.has p k = true := by
  intro k from_ inside
  have there := carries p _ (all (k - shift) (by omega) (by omega))
  rwa [Nat.add_sub_cancel' (by omega)] at there

theorem ways_shift (carries : Carries s s' shift) {p : Pattern} (plain : p.unconditional = true)
    {i j : Nat} {caps after : Captures} (member : (j, after) ∈ p.ways s i caps) (caps' : Captures) :
    ∃ after', (shift + j, after') ∈ p.ways s' (shift + i) caps' := by
  induction p generalizing i j caps after caps' with
  -- Conditions depend on what surrounds the part, which is not the same in the whole text.
  | where_ _ | absent _ _ => cases plain
  | empty =>
    obtain ⟨rfl, -⟩ := mem_ways_empty.mp member
    exact ⟨caps', mem_ways_empty.mpr ⟨rfl, rfl⟩⟩
  | one p =>
    obtain ⟨present, rfl, -⟩ := mem_ways_one.mp member
    exact ⟨caps', mem_ways_one.mpr ⟨carries p i present, by omega, rfl⟩⟩
  | greedy p least =>
    obtain ⟨enough, all, -⟩ := mem_ways_greedy.mp member
    exact ⟨caps', mem_ways_greedy.mpr ⟨by omega, has_shift carries all, rfl⟩⟩
  | «lazy» p least =>
    obtain ⟨enough, all, -⟩ := mem_ways_lazy.mp member
    exact ⟨caps', mem_ways_lazy.mpr ⟨by omega, has_shift carries all, rfl⟩⟩
  | literal same chars =>
    obtain ⟨⟨rfl, all⟩, -⟩ := mem_ways_literal.mp member
    refine ⟨caps', mem_ways_literal.mpr ⟨⟨by omega, ?_⟩, rfl⟩⟩
    intro k inRange
    rw [Nat.add_assoc]
    exact carries _ _ (all k inRange)
  | arguments p =>
    simp only [unconditional, Bool.and_eq_true, Bool.not_eq_true'] at plain
    have spans := arguments_shift carries (mem_ways_arguments member).1
    refine ⟨caps', ?_⟩
    simp only [ways, List.mem_map, Prod.mk.injEq, and_true, exists_eq_right]
    exact Subject.mem_argumentEnds_of_arguments plain.1 plain.2 spans (by omega)
  | seq first second firstHypothesis secondHypothesis =>
    simp only [unconditional, Bool.and_eq_true] at plain
    obtain ⟨k, between, before, behind⟩ := mem_ways_seq.mp member
    obtain ⟨between', before'⟩ := firstHypothesis plain.1 before caps'
    obtain ⟨after', behind'⟩ := secondHypothesis plain.2 behind between'
    exact ⟨after', mem_ways_seq.mpr ⟨_, _, before', behind'⟩⟩
  | alt preferred other preferredHypothesis otherHypothesis =>
    simp only [unconditional, Bool.and_eq_true] at plain
    rcases mem_ways_alt.mp member with left | right
    · obtain ⟨after', way⟩ := preferredHypothesis plain.1 left caps'
      exact ⟨after', mem_ways_alt.mpr (.inl way)⟩
    · obtain ⟨after', way⟩ := otherHypothesis plain.2 right caps'
      exact ⟨after', mem_ways_alt.mpr (.inr way)⟩
  | star p inductionHypothesis =>
    have repeats := mem_ways_star.mp member
    clear member
    -- The captures of the two texts differ, so the repetitions are followed by their offsets alone.
    suffices shifted : ∃ after', Repeats (fun i caps j after => (j, after) ∈ p.ways s' i caps)
        (shift + i) caps' (shift + j) after' by
      obtain ⟨after', way⟩ := shifted
      exact ⟨after', mem_ways_star.mpr way⟩
    induction repeats generalizing caps' with
    | done => exact ⟨caps', .done⟩
    | more once advances _ restHypothesis =>
      obtain ⟨between', way⟩ := inductionHypothesis plain once caps'
      obtain ⟨after', rest⟩ := restHypothesis between'
      exact ⟨after', .more way (by omega) rest⟩
  | group index p inductionHypothesis =>
    obtain ⟨inner, matched, -⟩ := mem_ways_group.mp member
    obtain ⟨inner', way⟩ := inductionHypothesis plain matched caps'
    exact ⟨_, mem_ways_group.mpr ⟨inner', way, rfl⟩⟩

end Pattern

end Surveyor
