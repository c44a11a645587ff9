import Mathlib.Data.List.Forall2
import Surveyor.Proofs.Value.Fault

/-! # Computations that end alike

Two runs on inputs that differ only in an order need not fail with the same fault: the first item that
fails is another one. What stays is that both fail or both succeed, with results that are related.
`EndAlike` says this, and is kept by the steps that a reading is made of.
-/

namespace Surveyor

variable {ε α β γ δ : Type}

/-- Both computations succeed, with related results, or both fail. -/
inductive EndAlike (R : α → β → Prop) : Except ε α → Except ε β → Prop
  | succeed {a : α} {b : β} (related : R a b) : EndAlike R (.ok a) (.ok b)
  | fail {fault other : ε} : EndAlike R (.error fault) (.error other)

namespace EndAlike

theorem refl (x : Except ε α) : EndAlike Eq x x := by
  cases x with
  | error fault => exact .fail
  | ok a => exact .succeed rfl

theorem of_eq {x y : Except ε α} (same : x = y) : EndAlike Eq x y := same ▸ refl x

theorem mono {R S : α → β → Prop} (weaker : ∀ {a b}, R a b → S a b) {x : Except ε α}
    {y : Except ε β} (alike : EndAlike R x y) : EndAlike S x y := by
  cases alike with
  | succeed related => exact .succeed (weaker related)
  | fail => exact .fail

theorem bind {R : α → β → Prop} {S : γ → δ → Prop} {x : Except ε α} {y : Except ε β}
    {f : α → Except ε γ} {g : β → Except ε δ} (alike : EndAlike R x y)
    (next : ∀ a b, R a b → EndAlike S (f a) (g b)) : EndAlike S (x >>= f) (y >>= g) := by
  cases alike with
  | succeed related => exact next _ _ related
  | fail => exact .fail

theorem pure {R : α → β → Prop} {a : α} {b : β} (related : R a b) :
    EndAlike R (Pure.pure a : Except ε α) (Pure.pure b) := .succeed related

/-- Two steps that both runs take in the same place. -/
theorem bind_eq {S : γ → δ → Prop} {x y : Except ε α} {f : α → Except ε γ} {g : α → Except ε δ}
    (alike : EndAlike Eq x y) (next : ∀ a, EndAlike S (f a) (g a)) :
    EndAlike S (x >>= f) (y >>= g) :=
  alike.bind fun a _ same => same ▸ next a

theorem trans {R : α → β → Prop} {S : β → γ → Prop} {T : α → γ → Prop} {x : Except ε α}
    {y : Except ε β} {z : Except ε γ} (first : EndAlike R x y)
    (compose : ∀ {a b c}, R a b → S b c → T a c) (second : EndAlike S y z) : EndAlike T x z := by
  cases first with
  | succeed related =>
    cases second with
    | succeed further => exact .succeed (compose related further)
  | fail =>
    cases second with
    | fail => exact .fail

/-- The results with where they come from. -/
theorem remember {R : α → β → Prop} {x : Except ε α} {y : Except ε β} (alike : EndAlike R x y) :
    EndAlike (fun a b => R a b ∧ x = .ok a ∧ y = .ok b) x y := by
  cases alike with
  | succeed related => exact .succeed ⟨related, rfl, rfl⟩
  | fail => exact .fail

theorem of_ok_iff {x y : Except ε α} (same : ∀ a, x = .ok a ↔ y = .ok a) : EndAlike Eq x y := by
  cases x with
  | error fault =>
    cases y with
    | error other => exact .fail
    | ok b => cases (same b).mpr rfl
  | ok a =>
    rw [(same a).mp rfl]
    exact .succeed rfl

theorem exists_ok {R : α → β → Prop} {x : Except ε α} {y : Except ε β} (alike : EndAlike R x y)
    {a : α} (succeeds : x = .ok a) : ∃ b, y = .ok b ∧ R a b := by
  cases alike with
  | succeed related =>
    cases succeeds
    exact ⟨_, rfl, related⟩
  | fail => cases succeeds

theorem related {R : α → β → Prop} {x : Except ε α} {y : Except ε β} (alike : EndAlike R x y)
    {a : α} {b : β} (first : x = .ok a) (second : y = .ok b) : R a b := by
  obtain ⟨other, same, holds⟩ := alike.exists_ok first
  rw [second] at same
  cases same
  exact holds

theorem isOk_iff {R : α → β → Prop} {x : Except ε α} {y : Except ε β} (alike : EndAlike R x y) :
    (∃ a, x = .ok a) ↔ ∃ b, y = .ok b := by
  cases alike with
  | succeed => simp
  | fail => simp

/-- Going through a list with calls that end alike. -/
theorem mapM {R : β → γ → Prop} {f : α → Except ε β} {g : α → Except ε γ} {items : List α}
    (each : ∀ item ∈ items, EndAlike R (f item) (g item)) :
    EndAlike (List.Forall₂ R) (items.mapM f) (items.mapM g) := by
  induction items with
  | nil => exact .succeed .nil
  | cons item rest inductionHypothesis =>
    obtain ⟨here, there⟩ := List.forall_mem_cons.mp each
    rw [List.mapM_cons, List.mapM_cons]
    exact here.bind fun _ _ first =>
      (inductionHypothesis there).bind fun _ _ others => .succeed (.cons first others)

/-- Going through a list in another order gives the results in another order. -/
theorem mapM_perm {items others : List α} (reordered : items.Perm others) (f : α → Except ε β) :
    EndAlike List.Perm (items.mapM f) (others.mapM f) := by
  induction reordered with
  | nil => exact .succeed .nil
  | cons item _ inductionHypothesis =>
    rw [List.mapM_cons, List.mapM_cons]
    exact (refl (f item)).bind_eq fun result =>
      inductionHypothesis.bind fun _ _ rest => .succeed (rest.cons result)
  | swap first second rest =>
    simp only [List.mapM_cons]
    -- The two calls in front are made in either order, so all ways they can end are looked at.
    cases f first with
    | error fault =>
      cases f second with
      | error other => exact .fail
      | ok b => exact .fail
    | ok a =>
      cases f second with
      | error other => exact .fail
      | ok b =>
        cases rest.mapM f with
        | error fault => exact .fail
        | ok results => exact .succeed (.swap a b results)
  | trans _ _ firstHypothesis secondHypothesis =>
    exact firstHypothesis.trans List.Perm.trans secondHypothesis

end EndAlike

end Surveyor
