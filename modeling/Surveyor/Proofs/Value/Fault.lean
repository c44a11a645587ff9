import Surveyor.Value.Access

/-! # Computations that may fail

What is known once a computation has succeeded, and when going through a list succeeds.
-/

namespace Surveyor

variable {ε α β : Type}

theorem bind_eq_ok {x : Except ε α} {f : α → Except ε β} {b : β} :
    (x >>= f) = .ok b ↔ ∃ a, x = .ok a ∧ f a = .ok b := by
  cases x with
  | error fault => simp [bind, Except.bind]
  | ok a => simp [bind, Except.bind]

theorem pure_eq_ok {a b : α} : (pure a : Except ε α) = .ok b ↔ a = b := by
  simp [pure, Except.pure]

theorem bind_eq_error {x : Except ε α} {f : α → Except ε β} {fault : ε} :
    (x >>= f) = .error fault ↔ x = .error fault ∨ ∃ a, x = .ok a ∧ f a = .error fault := by
  cases x with
  | error _ => simp [bind, Except.bind]
  | ok a => simp [bind, Except.bind]

theorem pure_ne_error {a : α} {fault : ε} : (pure a : Except ε α) = .error fault ↔ False := by
  simp [pure, Except.pure]

/-- Each result comes from an element on which the function succeeds. -/
theorem exists_of_mem_mapM {f : α → Except ε β} {items : List α} {results : List β}
    (succeeds : items.mapM f = .ok results) {result : β} (member : result ∈ results) :
    ∃ item ∈ items, f item = .ok result := by
  induction items generalizing results with
  | nil =>
    simp only [List.mapM_nil, pure_eq_ok] at succeeds
    subst succeeds
    cases member
  | cons item rest inductionHypothesis =>
    simp only [List.mapM_cons, bind_eq_ok, pure_eq_ok] at succeeds
    obtain ⟨first, here, others, there, rfl⟩ := succeeds
    rcases List.mem_cons.mp member with rfl | later
    · exact ⟨item, by simp, here⟩
    · obtain ⟨source, inRest, same⟩ := inductionHypothesis there later
      exact ⟨source, List.mem_cons_of_mem item inRest, same⟩

/-- Where all succeed, each element has its result. -/
theorem exists_result_of_mem {f : α → Except ε β} {items : List α} {results : List β}
    (succeeds : items.mapM f = .ok results) {item : α} (member : item ∈ items) :
    ∃ result ∈ results, f item = .ok result := by
  induction items generalizing results with
  | nil => cases member
  | cons first rest inductionHypothesis =>
    simp only [List.mapM_cons, bind_eq_ok, pure_eq_ok] at succeeds
    obtain ⟨result, here, others, there, rfl⟩ := succeeds
    rcases List.mem_cons.mp member with rfl | later
    · exact ⟨result, by simp, here⟩
    · obtain ⟨found, inOthers, same⟩ := inductionHypothesis there later
      exact ⟨found, List.mem_cons_of_mem result inOthers, same⟩

/-- A failure is that of one of the elements. -/
theorem exists_of_mapM_eq_error {f : α → Except ε β} {items : List α} {fault : ε}
    (failed : items.mapM f = .error fault) : ∃ item ∈ items, f item = .error fault := by
  induction items with
  | nil => cases failed
  | cons first rest inductionHypothesis =>
    simp only [List.mapM_cons, bind_eq_error, pure_ne_error, and_false, exists_false, or_false]
      at failed
    rcases failed with here | ⟨_, -, there⟩
    · exact ⟨first, by simp, here⟩
    · obtain ⟨item, inRest, same⟩ := inductionHypothesis there
      exact ⟨item, by simp [inRest], same⟩

/-- What is found in all items together is found in one of them. -/
theorem exists_of_mem_flatten {f : α → Except ε (List β)} {items : List α} {results : List (List β)}
    (succeeds : items.mapM f = .ok results) {result : β} (member : result ∈ results.flatten) :
    ∃ item ∈ items, ∃ found, f item = .ok found ∧ result ∈ found := by
  obtain ⟨found, inResults, inFound⟩ := List.mem_flatten.mp member
  obtain ⟨item, inItems, same⟩ := exists_of_mem_mapM succeeds inResults
  exact ⟨item, inItems, found, same, inFound⟩

theorem mapM_eq_of_forall {f g : α → Except ε β} {items : List α}
    (same : ∀ item ∈ items, f item = g item) : items.mapM f = items.mapM g := by
  induction items with
  | nil => rfl
  | cons item rest inductionHypothesis =>
    obtain ⟨here, there⟩ := List.forall_mem_cons.mp same
    rw [List.mapM_cons, List.mapM_cons, here, inductionHypothesis there]

theorem mapM_eq_ok_map {f : α → Except ε β} {g : α → β} {items : List α}
    (each : ∀ item ∈ items, f item = .ok (g item)) : items.mapM f = .ok (items.map g) := by
  induction items with
  | nil => rfl
  | cons item rest inductionHypothesis =>
    rw [List.mapM_cons, each item (by simp),
      inductionHypothesis fun later inRest => each later (by simp [inRest])]
    rfl

/-- If a function gives what another one gives wherever it succeeds, so it is for a list. -/
theorem eq_map_of_mapM_eq_ok {f : α → Except ε β} {g : α → β} {items : List α} {results : List β}
    (each : ∀ item result, f item = .ok result → result = g item)
    (succeeds : items.mapM f = .ok results) : results = items.map g := by
  induction items generalizing results with
  | nil =>
    cases succeeds
    rfl
  | cons item rest inductionHypothesis =>
    simp only [List.mapM_cons, bind_eq_ok, pure_eq_ok] at succeeds
    obtain ⟨first, here, others, there, rfl⟩ := succeeds
    rw [List.map_cons, each item first here, inductionHypothesis there]

theorem exists_mapM_eq_ok {f : α → Except ε β} {items : List α}
    (each : ∀ item ∈ items, ∃ result, f item = .ok result) :
    ∃ results, items.mapM f = .ok results := by
  induction items with
  | nil => exact ⟨[], rfl⟩
  | cons item rest inductionHypothesis =>
    obtain ⟨first, here⟩ := each item (by simp)
    obtain ⟨others, there⟩ := inductionHypothesis fun later inRest => each later (by simp [inRest])
    exact ⟨first :: others, by rw [List.mapM_cons, here, there]; rfl⟩

end Surveyor
