import Surveyor.Pattern.Basic

/-! # The ways in which a pattern matches

`Pattern.ways` lists the ends of all the stretches that a pattern matches from an offset, best first,
with the captures made on the way. `run_eq_findSome?` says that a pattern is run by trying these ways
in order, so that nothing else need be known about its continuations.

The lemmas `mem_ways_…` say for each form of pattern which ways it has; they are the only facts
about `ways` that later modules use.
-/

namespace Surveyor

namespace Subject

def charAt? (s : Subject) (i : Nat) : Option Char := if i < s.stop then s.text[i]? else none

theorem has_iff {s : Subject} {p : Char → Bool} {i : Nat} :
    s.has p i = true ↔ ∃ c, s.charAt? i = some c ∧ p c = true := by
  unfold has charAt?
  by_cases inStop : i < s.stop
  · by_cases inText : i < s.text.size
    · simp [inStop, inText]
    · simp [inStop, inText]
  · simp [inStop]

theorem has_lt_stop {s : Subject} {p : Char → Bool} {i : Nat} (present : s.has p i = true) :
    i < s.stop := by
  unfold has at present
  split at present
  · assumption
  · cases present

theorem hasBefore_iff {s : Subject} {p : Char → Bool} {i : Nat} :
    s.hasBefore p i = true ↔ 0 < i ∧ s.has p (i - 1) = true := by
  cases i with
  | zero => simp [hasBefore]
  | succ i => simp [hasBefore]

theorem getElem?_of_has {s : Subject} {p : Char → Bool} {i : Nat} (present : s.has p i = true) :
    ∃ c, s.text[i]? = some c ∧ p c = true := by
  obtain ⟨c, here, inClass⟩ := has_iff.mp present
  rw [charAt?, if_pos (has_lt_stop present)] at here
  exact ⟨c, here, inClass⟩

/-- One character cannot be in two classes that have nothing in common. -/
theorem has_and_has {s : Subject} {p q : Char → Bool} {i : Nat} (first : s.has p i = true)
    (second : s.has q i = true) : ∃ c, p c = true ∧ q c = true := by
  obtain ⟨c, atOffset, inFirst⟩ := has_iff.mp first
  obtain ⟨d, sameOffset, inSecond⟩ := has_iff.mp second
  rw [atOffset] at sameOffset
  cases sameOffset
  exact ⟨c, inFirst, inSecond⟩

theorem has_mono {s : Subject} {p q : Char → Bool} {i : Nat} (weaker : ∀ c, p c = true → q c = true)
    (present : s.has p i = true) : s.has q i = true := by
  obtain ⟨c, atOffset, inClass⟩ := has_iff.mp present
  exact has_iff.mpr ⟨c, atOffset, weaker c inClass⟩

/-! ## Runs of a class -/

theorem le_runEnd (s : Subject) (p : Char → Bool) (fuel i : Nat) : i ≤ s.runEnd p fuel i := by
  induction fuel generalizing i with
  | zero => exact Nat.le_refl i
  | succ fuel inductionHypothesis =>
    unfold runEnd
    split
    · exact Nat.le_of_succ_le (inductionHypothesis (i + 1))
    · exact Nat.le_refl i

theorem has_of_lt_runEnd {s : Subject} {p : Char → Bool} {fuel i k : Nat} (from_ : i ≤ k)
    (inside : k < s.runEnd p fuel i) : s.has p k = true := by
  induction fuel generalizing i with
  | zero => exact absurd inside (Nat.not_lt.mpr from_)
  | succ fuel inductionHypothesis =>
    unfold runEnd at inside
    split at inside
    · next present =>
      rcases Nat.eq_or_lt_of_le from_ with rfl | later
      · exact present
      · exact inductionHypothesis later inside
    · exact absurd inside (Nat.not_lt.mpr from_)

theorem runEnd_le_add (s : Subject) (p : Char → Bool) (fuel i : Nat) :
    s.runEnd p fuel i ≤ i + fuel := by
  induction fuel generalizing i with
  | zero => exact Nat.le_refl i
  | succ fuel inductionHypothesis =>
    unfold runEnd
    split
    · have := inductionHypothesis (i + 1)
      omega
    · omega

/-- A stretch of the class is no longer than the run, if the run may be as long. -/
theorem le_runEnd_of_has {s : Subject} {p : Char → Bool} {fuel i j : Nat} (enough : j ≤ i + fuel)
    (all : ∀ k, i ≤ k → k < j → s.has p k = true) : j ≤ s.runEnd p fuel i ∨ j ≤ i := by
  induction fuel generalizing i with
  | zero => exact .inr (by omega)
  | succ fuel inductionHypothesis =>
    by_cases nonempty : i < j
    · have present := all i (Nat.le_refl i) nonempty
      rcases inductionHypothesis (i := i + 1) (by omega) fun k from_ => all k (by omega) with
        reached | short
      · exact .inl (by simpa [runEnd, present] using reached)
      · have := le_runEnd s p fuel (i + 1)
        exact .inl (by simp only [runEnd, present, ↓reduceIte]; omega)
    · exact .inr (by omega)

end Subject

/-! ## The ways of a pattern -/

/-- The offsets from `i` on that are reached by passing characters of a class, at most `fuel`. -/
def moreEnds (s : Subject) (p : Char → Bool) : Nat → Nat → List Nat
  | 0, i => [i]
  | fuel + 1, i => i :: if s.has p i then moreEnds s p fuel (i + 1) else []

/-- The ways of repeating steps that consume something, more repetitions before fewer. -/
def repeatedWays (step : Nat → Captures → List (Nat × Captures)) :
    Nat → Nat → Captures → List (Nat × Captures)
  | 0, i, caps => [(i, caps)]
  | fuel + 1, i, caps =>
    (step i caps).flatMap (fun (j, after) => if i < j then repeatedWays step fuel j after else [])
      ++ [(i, caps)]

namespace Pattern

/-- The ends of the stretches that a pattern matches from an offset, best first, each with the
captures after it. -/
def ways (s : Subject) : Pattern → Nat → Captures → List (Nat × Captures)
  | .empty, i, caps => [(i, caps)]
  | .one p, i, caps => if s.has p i then [(i + 1, caps)] else []
  | .greedy p least, i, caps =>
    let top := s.runEnd p (s.stop - i) i
    if i + least ≤ top then
      (List.range' (i + least) (top - (i + least) + 1)).reverse.map fun j => (j, caps)
    else []
  | .lazy p least, i, caps =>
    if i + least ≤ s.runEnd p least i then
      (moreEnds s p (s.stop - (i + least)) (i + least)).map fun j => (j, caps)
    else []
  | .literal same chars, i, caps =>
    match s.literalEnd? same chars i with
    | some j => [(j, caps)]
    | none => []
  | .arguments p, i, caps => (s.argumentEnds p (s.stop - i) i []).map fun j => (j, caps)
  | .where_ holds, i, caps => if holds s i then [(i, caps)] else []
  | .absent p, i, caps => if (ways s p i caps).isEmpty then [(i, caps)] else []
  | .seq first second, i, caps =>
    (ways s first i caps).flatMap fun (j, after) => ways s second j after
  | .alt preferred other, i, caps => ways s preferred i caps ++ ways s other i caps
  | .star p, i, caps => repeatedWays (fun j after => ways s p j after) (s.stop - i) i caps
  | .group index p, i, caps => (ways s p i caps).map fun (j, after) => (j, (index, i, j) :: after)

end Pattern

/-! ## Running a pattern -/

section

variable {α : Type}

theorem giveBack_eq_findSome? (k : Nat → Option α) (low n : Nat) :
    giveBack k low n = (List.range' low (n + 1)).reverse.findSome? k := by
  induction n with
  | zero => simp [giveBack]
  | succ n inductionHypothesis =>
    rw [List.range'_concat, List.reverse_append]
    simp only [giveBack, List.reverse_singleton, List.singleton_append, List.findSome?_cons,
      Nat.one_mul]
    rw [inductionHypothesis]
    cases k (low + (n + 1)) <;> rfl

theorem takeMore_eq_findSome? (s : Subject) (p : Char → Bool) (k : Nat → Option α) (fuel i : Nat) :
    takeMore s p k fuel i = (moreEnds s p fuel i).findSome? k := by
  induction fuel generalizing i with
  | zero => simp [takeMore, moreEnds]
  | succ fuel inductionHypothesis =>
    simp only [takeMore, moreEnds, List.findSome?_cons]
    cases k i with
    | some answer => rfl
    | none =>
      by_cases present : s.has p i = true
      · simp only [present, ↓reduceIte, inductionHypothesis]
      · simp [present]

theorem findSome?_flatMap {β γ : Type} (items : List β) (f : β → List γ) (k : γ → Option α) :
    (items.flatMap f).findSome? k = items.findSome? fun item => (f item).findSome? k := by
  induction items with
  | nil => rfl
  | cons item rest inductionHypothesis =>
    rw [List.flatMap_cons, List.findSome?_append, List.findSome?_cons, inductionHypothesis]
    cases (f item).findSome? k <;> rfl

theorem repeatBody_eq_findSome? {body : Nat → Captures → (Nat → Captures → Option α) → Option α}
    {step : Nat → Captures → List (Nat × Captures)}
    (runs : ∀ i caps k, body i caps k = (step i caps).findSome? fun way => k way.1 way.2)
    (k : Nat → Captures → Option α) (fuel i : Nat) (caps : Captures) :
    repeatBody body k fuel i caps
      = (repeatedWays step fuel i caps).findSome? fun way => k way.1 way.2 := by
  induction fuel generalizing i caps with
  | zero => simp [repeatBody, repeatedWays]
  | succ fuel inductionHypothesis =>
    simp only [repeatBody, repeatedWays, List.findSome?_append, findSome?_flatMap, runs]
    -- A step that consumes nothing is dropped on both sides.
    have sameStep : (fun way : Nat × Captures =>
          if i < way.1 then repeatBody body k fuel way.1 way.2 else none)
        = fun way => (if i < way.1 then repeatedWays step fuel way.1 way.2 else []).findSome?
          fun way => k way.1 way.2 := by
      funext way
      split
      · exact inductionHypothesis way.1 way.2
      · rfl
    rw [sameStep]
    cases (step i caps).findSome? _ <;> simp

namespace Pattern

/-- A pattern is run by handing its ways to the continuation, best first. -/
theorem run_eq_findSome? (s : Subject) (p : Pattern) (i : Nat) (caps : Captures)
    (k : Nat → Captures → Option α) :
    p.run s i caps k = (p.ways s i caps).findSome? fun way => k way.1 way.2 := by
  induction p generalizing α i caps with
  | empty => simp [run, ways]
  | one p =>
    simp only [run, ways]
    split <;> simp
  | greedy p least =>
    simp only [run, ways]
    split
    · rw [giveBack_eq_findSome?, List.findSome?_map, Function.comp_def]
    · rfl
  | «lazy» p least =>
    simp only [run, ways]
    split
    · rw [takeMore_eq_findSome?, List.findSome?_map, Function.comp_def]
    · rfl
  | literal same chars =>
    simp only [run, ways]
    cases s.literalEnd? same chars i <;> simp
  | arguments p => simp only [run, ways, List.findSome?_map, Function.comp_def]
  | where_ holds =>
    simp only [run, ways]
    split <;> simp
  | absent p inductionHypothesis =>
    simp only [run, ways, inductionHypothesis]
    cases p.ways s i caps <;> simp
  | seq first second firstHypothesis secondHypothesis =>
    simp only [run, ways, firstHypothesis, secondHypothesis, findSome?_flatMap]
  | alt preferred other preferredHypothesis otherHypothesis =>
    simp only [run, ways, preferredHypothesis, otherHypothesis, List.findSome?_append]
    cases (preferred.ways s i caps).findSome? _ <;> rfl
  | star p inductionHypothesis =>
    simp only [run, ways]
    exact repeatBody_eq_findSome? (fun i caps k => inductionHypothesis i caps k) k _ i caps
  | group index p inductionHypothesis =>
    simp only [run, ways, inductionHypothesis, List.findSome?_map, Function.comp_def]

end Pattern

end

/-! ## Which ways a pattern has -/

namespace Subject

theorem literalEnd?_eq_some {s : Subject} {same : Char → Char → Bool} {chars : List Char} {i j : Nat} :
    s.literalEnd? same chars i = some j ↔
      j = i + chars.length ∧ ∀ n (inRange : n < chars.length), s.has (same chars[n]) (i + n) = true := by
  induction chars generalizing i with
  | nil =>
    simp only [literalEnd?, Option.some.injEq]
    constructor
    · rintro rfl
      exact ⟨rfl, by simp⟩
    · rintro ⟨rfl, -⟩
      rfl
  | cons c rest inductionHypothesis =>
    unfold literalEnd?
    split
    · next present =>
      rw [inductionHypothesis]
      constructor
      · rintro ⟨rfl, later⟩
        refine ⟨by simp only [List.length_cons]; omega, ?_⟩
        intro n inRange
        cases n with
        | zero => exact present
        | succ n =>
          have shifted : i + (n + 1) = i + 1 + n := by omega
          rw [shifted]
          exact later n (by simpa using inRange)
      · rintro ⟨rfl, all⟩
        refine ⟨by simp only [List.length_cons]; omega, ?_⟩
        intro n inRange
        have shifted : i + 1 + n = i + (n + 1) := by omega
        rw [shifted]
        exact all (n + 1) (by simpa using inRange)
    · next missing =>
      constructor
      · intro impossible
        cases impossible
      · rintro ⟨-, all⟩
        exact absurd (all 0 (by simp)) missing

/-- Characters of a class, and parenthesised runs of such characters, from one offset to another. -/
inductive Arguments (s : Subject) (p : Char → Bool) : Nat → Nat → Prop where
  | nil {i : Nat} : Arguments s p i i
  | plain {i j : Nat} (present : s.has p i = true) (rest : Arguments s p (i + 1) j) :
      Arguments s p i j
  | nested {i close j : Nat} (opens : s.has (· == '(') i = true) (after : i < close)
      (inside : ∀ k, i < k → k < close → s.has p k = true)
      (closes : s.has (· == ')') close = true) (rest : Arguments s p (close + 1) j) :
      Arguments s p i j

theorem mem_argumentEnds {s : Subject} {p : Char → Bool} {fuel i j : Nat} {ends : List Nat}
    (member : j ∈ s.argumentEnds p fuel i ends) : j ∈ ends ∨ Arguments s p i j := by
  induction fuel generalizing i ends with
  | zero =>
    simp only [argumentEnds, List.mem_cons] at member
    rcases member with rfl | earlier
    · exact .inr .nil
    · exact .inl earlier
  | succ fuel inductionHypothesis =>
    have atHere : j ∈ i :: ends → j ∈ ends ∨ Arguments s p i j := by
      intro here
      rcases List.mem_cons.mp here with rfl | earlier
      · exact .inr .nil
      · exact .inl earlier
    unfold argumentEnds at member
    split at member
    · next present =>
      rcases inductionHypothesis member with here | further
      · exact atHere here
      · exact .inr (.plain present further)
    · split at member
      · next opens =>
        simp only at member
        split at member
        · -- The nested brackets are passed as one, and the search goes on behind them.
          next closes =>
          rcases inductionHypothesis member with here | further
          · exact atHere here
          · refine .inr (.nested opens (le_runEnd s p fuel (i + 1)) ?_ closes further)
            intro k from_ inside
            exact has_of_lt_runEnd from_ inside
        · exact atHere member
      · exact atHere member

end Subject

/-- Steps that consume something, one after the other. -/
inductive Repeats (step : Nat → Captures → Nat → Captures → Prop) :
    Nat → Captures → Nat → Captures → Prop where
  | done {i : Nat} {caps : Captures} : Repeats step i caps i caps
  | more {i k j : Nat} {caps between after : Captures} (once : step i caps k between)
      (advances : i < k) (rest : Repeats step k between j after) : Repeats step i caps j after

namespace Pattern

variable {s : Subject} {i j : Nat} {caps after : Captures}

@[simp]
theorem mem_ways_empty : (j, after) ∈ empty.ways s i caps ↔ j = i ∧ after = caps := by
  simp [ways]

@[simp]
theorem mem_ways_one {p : Char → Bool} :
    (j, after) ∈ (one p).ways s i caps ↔ s.has p i = true ∧ j = i + 1 ∧ after = caps := by
  unfold ways
  split
  · next present => simp [present]
  · next missing => simp [missing]

@[simp]
theorem mem_ways_greedy {p : Char → Bool} {least : Nat} :
    (j, after) ∈ (greedy p least).ways s i caps ↔
      i + least ≤ j ∧ (∀ k, i ≤ k → k < j → s.has p k = true) ∧ after = caps := by
  have top := Subject.runEnd_le_add s p (s.stop - i) i
  simp only [ways]
  constructor
  · intro member
    split at member
    · next reached =>
      simp only [List.mem_map, List.mem_reverse, List.mem_range'_1, Prod.mk.injEq] at member
      obtain ⟨end_, bounds, rfl, rfl⟩ := member
      refine ⟨bounds.1, ?_, rfl⟩
      intro k from_ inside
      have belowTop : k < s.runEnd p (s.stop - i) i := by omega
      exact Subject.has_of_lt_runEnd from_ belowTop
    · simp at member
  · rintro ⟨enough, all, rfl⟩
    -- The fuel is what is left of the text, and the stretch ends within that.
    have inside : j ≤ s.runEnd p (s.stop - i) i ∨ j ≤ i := by
      rcases Nat.lt_or_ge i j with nonempty | short
      · refine Subject.le_runEnd_of_has ?_ all
        have last := Subject.has_lt_stop (all (j - 1) (by omega) (by omega))
        omega
      · exact .inr short
    have start := Subject.le_runEnd s p (s.stop - i) i
    have reached : i + least ≤ s.runEnd p (s.stop - i) i := by omega
    rw [if_pos reached]
    refine List.mem_map.mpr ⟨j, ?_, rfl⟩
    rw [List.mem_reverse, List.mem_range'_1]
    omega

theorem mem_moreEnds {p : Char → Bool} {fuel : Nat} :
    j ∈ moreEnds s p fuel i ↔ i ≤ j ∧ j ≤ i + fuel ∧ ∀ k, i ≤ k → k < j → s.has p k = true := by
  induction fuel generalizing i with
  | zero =>
    simp only [moreEnds, List.mem_singleton]
    constructor
    · rintro rfl
      exact ⟨Nat.le_refl _, Nat.le_refl _, fun k from_ inside => by omega⟩
    · rintro ⟨from_, upTo, -⟩
      omega
  | succ fuel inductionHypothesis =>
    simp only [moreEnds, List.mem_cons]
    constructor
    · rintro (rfl | member)
      · exact ⟨Nat.le_refl _, by omega, fun k from_ inside => by omega⟩
      · split at member
        · next present =>
          obtain ⟨from_, upTo, all⟩ := inductionHypothesis.mp member
          refine ⟨by omega, by omega, ?_⟩
          intro k later inside
          rcases Nat.eq_or_lt_of_le later with rfl | strictly
          · exact present
          · exact all k strictly inside
        · simp at member
    · rintro ⟨from_, upTo, all⟩
      rcases Nat.eq_or_lt_of_le from_ with rfl | strictly
      · exact .inl rfl
      · have present := all i (Nat.le_refl i) strictly
        simp only [present, ↓reduceIte]
        exact .inr (inductionHypothesis.mpr
          ⟨strictly, by omega, fun k later => all k (by omega)⟩)

@[simp]
theorem mem_ways_lazy {p : Char → Bool} {least : Nat} :
    (j, after) ∈ (Pattern.lazy p least).ways s i caps ↔
      i + least ≤ j ∧ (∀ k, i ≤ k → k < j → s.has p k = true) ∧ after = caps := by
  simp only [ways]
  constructor
  · intro member
    split at member
    · next reached =>
      simp only [List.mem_map, Prod.mk.injEq] at member
      obtain ⟨end_, further, rfl, rfl⟩ := member
      obtain ⟨from_, -, all⟩ := mem_moreEnds.mp further
      refine ⟨from_, ?_, rfl⟩
      intro k later inside
      -- The characters that are required are passed in a run, the others one by one.
      rcases Nat.lt_or_ge k (i + least) with early | late
      · have belowTop : k < s.runEnd p least i := by omega
        exact Subject.has_of_lt_runEnd later belowTop
      · exact all k late inside
    · simp at member
  · rintro ⟨enough, all, rfl⟩
    have reached : i + least ≤ s.runEnd p least i := by
      rcases Subject.le_runEnd_of_has (Nat.le_refl (i + least))
        (fun k from_ inside => all k from_ (by omega)) with done | short
      · exact done
      · have := Subject.le_runEnd s p least i
        omega
    rw [if_pos reached]
    refine List.mem_map.mpr ⟨j, mem_moreEnds.mpr ⟨enough, ?_, fun k later => all k (by omega)⟩, rfl⟩
    rcases Nat.eq_or_lt_of_le enough with rfl | strictly
    · omega
    · have last := Subject.has_lt_stop (all (j - 1) (by omega) (by omega))
      omega

@[simp]
theorem mem_ways_literal {same : Char → Char → Bool} {chars : List Char} :
    (j, after) ∈ (literal same chars).ways s i caps ↔
      (j = i + chars.length ∧ ∀ n (inRange : n < chars.length),
        s.has (same chars[n]) (i + n) = true) ∧ after = caps := by
  rw [← Subject.literalEnd?_eq_some]
  simp only [ways]
  cases s.literalEnd? same chars i with
  | none => simp
  | some end_ => simp [eq_comm]

theorem mem_ways_arguments {p : Char → Bool}
    (member : (j, after) ∈ (arguments p).ways s i caps) : s.Arguments p i j ∧ after = caps := by
  simp only [ways, List.mem_map, Prod.mk.injEq] at member
  obtain ⟨end_, reached, rfl, rfl⟩ := member
  rcases Subject.mem_argumentEnds reached with impossible | spans
  · simp at impossible
  · exact ⟨spans, rfl⟩

@[simp]
theorem mem_ways_where {holds : Subject → Nat → Bool} :
    (j, after) ∈ (where_ holds).ways s i caps ↔ holds s i = true ∧ j = i ∧ after = caps := by
  unfold ways
  split
  · next true_ => simp [true_]
  · next false_ => simp [false_]

@[simp]
theorem mem_ways_absent {p : Pattern} :
    (j, after) ∈ (absent p).ways s i caps ↔ p.ways s i caps = [] ∧ j = i ∧ after = caps := by
  simp only [ways, List.isEmpty_iff]
  split
  · next none_ => simp [none_]
  · next some_ => simp [some_]

@[simp]
theorem mem_ways_seq {first second : Pattern} :
    (j, after) ∈ (seq first second).ways s i caps ↔
      ∃ k between, (k, between) ∈ first.ways s i caps ∧ (j, after) ∈ second.ways s k between := by
  simp [ways]

@[simp]
theorem mem_ways_alt {preferred other : Pattern} :
    (j, after) ∈ (alt preferred other).ways s i caps ↔
      (j, after) ∈ preferred.ways s i caps ∨ (j, after) ∈ other.ways s i caps := by
  simp [ways]

@[simp]
theorem mem_ways_group {index : Nat} {p : Pattern} :
    (j, after) ∈ (group index p).ways s i caps ↔
      ∃ inner, (j, inner) ∈ p.ways s i caps ∧ after = (index, i, j) :: inner := by
  simp only [ways, List.mem_map, Prod.exists, Prod.mk.injEq]
  constructor
  · rintro ⟨end_, inner, member, rfl, rfl⟩
    exact ⟨inner, member, rfl⟩
  · rintro ⟨inner, member, rfl⟩
    exact ⟨j, inner, member, rfl, rfl⟩

/-! ## Where the ways end -/

theorem arguments_le {p : Char → Bool} (spans : s.Arguments p i j) : i ≤ j ∧ (j = i ∨ j ≤ s.stop) := by
  induction spans with
  | nil => exact ⟨Nat.le_refl _, .inl rfl⟩
  | plain present _ inductionHypothesis =>
    have := Subject.has_lt_stop present
    omega
  | nested _ after _ closes _ inductionHypothesis =>
    have := Subject.has_lt_stop closes
    omega

theorem mem_repeatedWays {step : Nat → Captures → List (Nat × Captures)} {fuel : Nat}
    (member : (j, after) ∈ repeatedWays step fuel i caps) :
    Repeats (fun i caps j after => (j, after) ∈ step i caps) i caps j after := by
  induction fuel generalizing i caps with
  | zero =>
    simp only [repeatedWays, List.mem_singleton, Prod.mk.injEq] at member
    obtain ⟨rfl, rfl⟩ := member
    exact .done
  | succ fuel inductionHypothesis =>
    simp only [repeatedWays, List.mem_append, List.mem_flatMap, Prod.exists, List.mem_singleton,
      Prod.mk.injEq] at member
    rcases member with ⟨k, between, once, later⟩ | ⟨rfl, rfl⟩
    · split at later
      · next advances => exact .more once advances (inductionHypothesis later)
      · simp at later
    · exact .done

theorem repeats_le {step : Nat → Captures → Nat → Captures → Prop} {stop : Nat}
    (bounded : ∀ {i caps j after}, step i caps j after → i ≤ j ∧ (j = i ∨ j ≤ stop))
    (repeats : Repeats step i caps j after) : i ≤ j ∧ (j = i ∨ j ≤ stop) := by
  induction repeats with
  | done => exact ⟨Nat.le_refl _, .inl rfl⟩
  | more once advances _ inductionHypothesis =>
    have := bounded once
    omega

/-- A way does not go back, and ends within the text unless it is empty. -/
theorem le_of_mem_ways {p : Pattern} (member : (j, after) ∈ p.ways s i caps) :
    i ≤ j ∧ (j = i ∨ j ≤ s.stop) := by
  induction p generalizing i j caps after with
  | empty | where_ _ | absent _ _ =>
    simp only [mem_ways_empty, mem_ways_where, mem_ways_absent] at member
    omega
  | one p =>
    obtain ⟨present, rfl, -⟩ := mem_ways_one.mp member
    have := Subject.has_lt_stop present
    omega
  | greedy p least =>
    obtain ⟨enough, all, -⟩ := mem_ways_greedy.mp member
    rcases Nat.lt_or_ge i j with nonempty | short
    · have := Subject.has_lt_stop (all (j - 1) (by omega) (by omega))
      omega
    · omega
  | «lazy» p least =>
    obtain ⟨enough, all, -⟩ := mem_ways_lazy.mp member
    rcases Nat.lt_or_ge i j with nonempty | short
    · have := Subject.has_lt_stop (all (j - 1) (by omega) (by omega))
      omega
    · omega
  | literal same chars =>
    obtain ⟨⟨rfl, all⟩, -⟩ := mem_ways_literal.mp member
    rcases Nat.eq_zero_or_pos chars.length with none_ | some_
    · omega
    · have := Subject.has_lt_stop (all (chars.length - 1) (by omega))
      omega
  | arguments p => exact arguments_le (mem_ways_arguments member).1
  | seq first second firstHypothesis secondHypothesis =>
    obtain ⟨k, between, before, behind⟩ := mem_ways_seq.mp member
    have := firstHypothesis before
    have := secondHypothesis behind
    omega
  | alt preferred other preferredHypothesis otherHypothesis =>
    rcases mem_ways_alt.mp member with left | right
    · exact preferredHypothesis left
    · exact otherHypothesis right
  | star p inductionHypothesis =>
    have repeats : Repeats (fun i caps j after => (j, after) ∈ p.ways s i caps) i caps j after :=
      mem_repeatedWays member
    exact repeats_le inductionHypothesis repeats
  | group index p inductionHypothesis =>
    obtain ⟨inner, matched, -⟩ := mem_ways_group.mp member
    exact inductionHypothesis matched

theorem mem_repeatedWays_of_repeats {step : Nat → Captures → List (Nat × Captures)} {fuel stop : Nat}
    (bounded : ∀ {i caps j after}, (j, after) ∈ step i caps → i ≤ j ∧ (j = i ∨ j ≤ stop))
    (repeats : Repeats (fun i caps j after => (j, after) ∈ step i caps) i caps j after)
    (enough : stop ≤ i + fuel) : (j, after) ∈ repeatedWays step fuel i caps := by
  induction repeats generalizing fuel with
  | done => cases fuel <;> simp [repeatedWays]
  | @more i k j caps between after once advances rest inductionHypothesis =>
    have within := bounded once
    -- Every repetition consumes something, so the fuel lasts up to the end of the text.
    cases fuel with
    | zero => omega
    | succ fuel =>
      simp only [repeatedWays, List.mem_append, List.mem_flatMap, Prod.exists]
      refine .inl ⟨k, between, once, ?_⟩
      rw [if_pos advances]
      exact inductionHypothesis (by omega)

@[simp]
theorem mem_ways_star {p : Pattern} :
    (j, after) ∈ (star p).ways s i caps ↔
      Repeats (fun i caps j after => (j, after) ∈ p.ways s i caps) i caps j after :=
  ⟨mem_repeatedWays, fun repeats => mem_repeatedWays_of_repeats le_of_mem_ways repeats (by omega)⟩

/-! ## Patterns put together -/

theorem mem_ways_followedBy {first last : Pattern} :
    (j, after) ∈ (followedBy first last).ways s i caps ↔
      ∃ k between, (k, between) ∈ first.ways s i caps ∧ (j, after) ∈ last.ways s k between := by
  induction first generalizing i caps with
  -- A sequence takes the last piece in at its end; anything else becomes the start of a sequence.
  | seq start rest _ restHypothesis =>
    simp only [followedBy, mem_ways_seq, restHypothesis]
    constructor
    · rintro ⟨k, between, before, l, behind, middle, final⟩
      exact ⟨l, behind, ⟨k, between, before, middle⟩, final⟩
    · rintro ⟨l, behind, ⟨k, between, before, middle⟩, final⟩
      exact ⟨k, between, before, l, behind, middle, final⟩
  | _ => simp only [followedBy, mem_ways_seq]

@[simp]
theorem mem_ways_append {first last : Pattern} :
    (j, after) ∈ (first ++ last).ways s i caps ↔
      ∃ k between, (k, between) ∈ first.ways s i caps ∧ (j, after) ∈ last.ways s k between :=
  mem_ways_followedBy

@[simp]
theorem mem_ways_orElse {preferred other : Pattern} :
    (j, after) ∈ (preferred <|> other).ways s i caps ↔
      (j, after) ∈ preferred.ways s i caps ∨ (j, after) ∈ other.ways s i caps :=
  mem_ways_alt

@[simp]
theorem mem_ways_opt {p : Pattern} :
    (j, after) ∈ (opt p).ways s i caps ↔
      (j, after) ∈ p.ways s i caps ∨ (j = i ∧ after = caps) := by
  simp [opt]

@[simp]
theorem mem_ways_anyOf {patterns : List Pattern} :
    (j, after) ∈ (anyOf patterns).ways s i caps ↔
      ∃ p ∈ patterns, (j, after) ∈ p.ways s i caps := by
  match patterns with
  | [] => simp [anyOf, ways]
  | [p] => simp [anyOf]
  | p :: q :: rest =>
    rw [anyOf, mem_ways_alt, mem_ways_anyOf]
    · simp
    · simp

end Pattern

end Surveyor
