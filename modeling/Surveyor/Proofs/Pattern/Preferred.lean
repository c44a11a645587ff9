import Surveyor.Proofs.Pattern.Vocabulary

/-! # The way that a search takes

Of the ways of a pattern a search takes the first one. The end of a pattern is therefore decided by
its last piece alone: a greedy run at the end stops only where its class stops
(`Prefers.greedy`), and an optional or repeated piece at the end is left out only where it does not
match.
-/

namespace Surveyor

theorem exists_of_head?_flatMap {α β : Type} {items : List α} {f : α → List β} {x : β}
    (first : (items.flatMap f).head? = some x) : ∃ item ∈ items, (f item).head? = some x := by
  induction items with
  | nil => simp at first
  | cons item rest inductionHypothesis =>
    rw [List.flatMap_cons, List.head?_append] at first
    cases here : (f item).head? with
    | none =>
      rw [here, Option.none_or] at first
      obtain ⟨later, member, found⟩ := inductionHypothesis first
      exact ⟨later, List.mem_cons_of_mem item member, found⟩
    | some y =>
      rw [here, Option.some_or] at first
      exact ⟨item, by simp, here.trans first⟩

/-- The end of a run is no character of the class, if the run may go on up to the end. -/
theorem Subject.has_runEnd {s : Subject} {p : Char → Bool} {fuel i : Nat} (enough : s.stop ≤ i + fuel) :
    s.has p (s.runEnd p fuel i) = false := by
  induction fuel generalizing i with
  | zero =>
    cases present : s.has p (s.runEnd p 0 i) with
    | false => rfl
    | true =>
      have inside : i < s.stop := has_lt_stop present
      omega
  | succ fuel inductionHypothesis =>
    unfold runEnd
    split
    · exact inductionHypothesis (by omega)
    · next missing => simpa using missing

namespace Pattern

variable {s : Subject} {i j : Nat} {caps after : Captures}

/-- The first way of a pattern. -/
def Prefers (p : Pattern) (s : Subject) (i : Nat) (caps : Captures) (j : Nat) (after : Captures) :
    Prop :=
  (p.ways s i caps).head? = some (j, after)

theorem prefers_of_matchAt? {p : Pattern} {m : Match} (matched : p.matchAt? s i = some m) :
    p.Prefers s i [] m.stop m.captures := by
  rw [matchAt?_eq_head?] at matched
  obtain ⟨way, first, same⟩ := Option.map_eq_some_iff.mp matched
  rw [Prefers, first, ← same]

theorem prefers_of_mem_findAll {p : Pattern} {m : Match} (member : m ∈ p.findAll s) :
    p.Prefers s m.start [] m.stop m.captures :=
  prefers_of_matchAt? (laterMatches_sound member).2

namespace Prefers

theorem mem {p : Pattern} (first : p.Prefers s i caps j after) : (j, after) ∈ p.ways s i caps :=
  List.mem_of_head? first

theorem ways_followedBy (first last : Pattern) (s : Subject) (i : Nat) (caps : Captures) :
    (followedBy first last).ways s i caps
      = (first.ways s i caps).flatMap fun way => last.ways s way.1 way.2 := by
  induction first generalizing i caps with
  | seq start rest _ restHypothesis =>
    simp only [followedBy, ways, restHypothesis, List.flatMap_assoc]
  | _ => simp only [followedBy, ways]

theorem append {first last : Pattern} (taken : (first ++ last).Prefers s i caps j after) :
    ∃ k between, (k, between) ∈ first.ways s i caps ∧ last.Prefers s k between j after := by
  have split : (first ++ last).ways s i caps
      = (first.ways s i caps).flatMap fun way => last.ways s way.1 way.2 :=
    ways_followedBy first last s i caps
  rw [Prefers, split] at taken
  obtain ⟨way, member, rest⟩ := exists_of_head?_flatMap taken
  exact ⟨way.1, way.2, member, rest⟩

/-- The first piece is taken its first way as well, if the last piece always matches. -/
theorem append_of_total {first last : Pattern} (total : ∀ k between, last.ways s k between ≠ [])
    (taken : (first ++ last).Prefers s i caps j after) :
    ∃ k between, first.Prefers s i caps k between ∧ last.Prefers s k between j after := by
  have split : (first ++ last).ways s i caps
      = (first.ways s i caps).flatMap fun way => last.ways s way.1 way.2 :=
    ways_followedBy first last s i caps
  rw [Prefers, split] at taken
  cases firstWays : first.ways s i caps with
  | nil =>
    rw [firstWays] at taken
    cases taken
  | cons way others =>
    cases rest : (last.ways s way.1 way.2).head? with
    | none => exact absurd (List.head?_eq_none_iff.mp rest) (total way.1 way.2)
    | some final =>
      rw [firstWays, List.flatMap_cons, List.head?_append, rest, Option.some_or] at taken
      exact ⟨way.1, way.2, by rw [Prefers, firstWays]; rfl, rest.trans taken⟩

theorem group {index : Nat} {p : Pattern} (taken : (Pattern.group index p).Prefers s i caps j after) :
    ∃ inner, p.Prefers s i caps j inner ∧ after = (index, i, j) :: inner := by
  simp only [Prefers, ways, List.head?_map] at taken
  obtain ⟨way, first, same⟩ := Option.map_eq_some_iff.mp taken
  cases same
  exact ⟨way.2, first, rfl⟩

/-- A greedy run goes as far as its class. -/
theorem greedy {p : Char → Bool} {least : Nat}
    (taken : (Pattern.greedy p least).Prefers s i caps j after) : s.has p j = false := by
  simp only [Prefers, ways] at taken
  split at taken
  · next reached =>
    rw [List.range'_concat, List.reverse_append] at taken
    simp only [List.reverse_singleton, List.singleton_append, List.map_cons, List.head?_cons,
      Option.some.injEq, Prod.mk.injEq, Nat.one_mul] at taken
    have top : j = s.runEnd p (s.stop - i) i := by omega
    rw [top]
    exact Subject.has_runEnd (by omega)
  · cases taken

theorem alt {preferred other : Pattern} (taken : (Pattern.alt preferred other).Prefers s i caps j after) :
    preferred.Prefers s i caps j after ∨ other.Prefers s i caps j after := by
  rw [Prefers, ways, List.head?_append] at taken
  cases here : (preferred.ways s i caps).head? with
  | none =>
    rw [here, Option.none_or] at taken
    exact .inr taken
  | some way =>
    rw [here, Option.some_or] at taken
    exact .inl (here.trans taken)

theorem opt {p : Pattern} (taken : (Pattern.opt p).Prefers s i caps j after) :
    p.Prefers s i caps j after ∨ (j = i ∧ after = caps) := by
  rcases alt taken with some_ | none_
  · exact .inl some_
  · exact .inr (mem_ways_empty.mp none_.mem)

/-- A repetition takes the first way each time, if the repeated pattern consumes something. -/
theorem star {p : Pattern} (consumes : ∀ {i j caps after}, (j, after) ∈ p.ways s i caps → i < j)
    (taken : (Pattern.star p).Prefers s i caps j after) :
    Repeats (fun i caps j after => p.Prefers s i caps j after) i caps j after := by
  -- More repetitions come before fewer, so the first way of each step is followed while there is one.
  have repeats : ∀ fuel i caps, (repeatedWays (fun j after => p.ways s j after) fuel i caps).head?
        = some (j, after) →
      Repeats (fun i caps j after => p.Prefers s i caps j after) i caps j after := by
    intro fuel
    induction fuel with
    | zero =>
      intro i caps first
      simp only [repeatedWays, List.head?_cons, Option.some.injEq, Prod.mk.injEq] at first
      obtain ⟨rfl, rfl⟩ := first
      exact .done
    | succ fuel inductionHypothesis =>
      intro i caps first
      simp only [repeatedWays, List.head?_append] at first
      cases once : p.ways s i caps with
      | nil =>
        rw [once] at first
        simp only [List.flatMap_nil, List.head?_nil, List.head?_cons, Option.none_or,
          Option.some.injEq, Prod.mk.injEq] at first
        obtain ⟨rfl, rfl⟩ := first
        exact .done
      | cons way others =>
        have isWay : (way.1, way.2) ∈ p.ways s i caps := by
          rw [once]
          exact List.mem_cons_self
        have advances : i < way.1 := consumes isWay
        rw [once, List.flatMap_cons, if_pos advances] at first
        -- To stop is always a way, so the ways of going on are not exhausted.
        cases more : (repeatedWays (fun j after => p.ways s j after) fuel way.1 way.2).head? with
        | none => cases fuel <;> simp [repeatedWays] at more
        | some final =>
          rw [List.head?_append, more, Option.some_or, Option.some_or] at first
          exact .more (by rw [Prefers, once]; rfl) advances (inductionHypothesis _ _ (more.trans first))
  exact repeats _ _ _ taken

end Prefers

end Pattern

end Surveyor
