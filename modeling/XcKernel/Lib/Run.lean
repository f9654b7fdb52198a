import Mathlib.Data.List.Range
import Mathlib.Logic.Relation

/-!
# Invariants of runs
-/

namespace XcKernel

theorem invariant_of_run {α : Type*} {step : α → α → Prop} (Inv : α → Prop)
    (keep : ∀ a b, Inv a → step a b → Inv b) {a b : α} (start : Inv a)
    (run : Relation.ReflTransGen step a b) : Inv b := by
  induction run with
  | refl => exact start
  | tail _ next ih => exact keep _ _ ih next

/-- Where every step is matched by steps of another system between related states,
so is every run. -/
theorem simulation_of_run {α β : Type*} {step : α → α → Prop} {step' : β → β → Prop}
    (abs : α → β) (Inv : α → Prop)
    (sim : ∀ a a', Inv a → step a a' → Inv a' ∧ Relation.ReflTransGen step' (abs a) (abs a'))
    {a a' : α} (start : Inv a) (run : Relation.ReflTransGen step a a') :
    Inv a' ∧ Relation.ReflTransGen step' (abs a) (abs a') := by
  induction run with
  | refl => exact ⟨start, .refl⟩
  | tail _ next ih =>
    obtain ⟨inv, done⟩ := ih
    obtain ⟨inv', more⟩ := sim _ _ inv next
    exact ⟨inv', done.trans more⟩

theorem matched_of_run {α β : Type*} {step : α → α → Prop} {step' : β → β → Prop} (R : α → β → Prop)
    (sim : ∀ a b a', R a b → step a a' → ∃ b', step' b b' ∧ R a' b') {a a' : α} {b : β} (start : R a b)
    (run : Relation.ReflTransGen step a a') : ∃ b', Relation.ReflTransGen step' b b' ∧ R a' b' := by
  induction run with
  | refl => exact ⟨b, .refl, start⟩
  | tail _ next ih =>
    obtain ⟨b', done, related⟩ := ih
    obtain ⟨b'', more, related'⟩ := sim _ _ _ related next
    exact ⟨b'', done.tail more, related'⟩

/-- What holds before a loop over the first numbers and survives every round, with
the number of the round, holds after it. -/
theorem invariant_of_range {β : Type*} {round : β → Nat → β} (Inv : Nat → β → Prop) {n : Nat}
    (keep : ∀ k < n, ∀ b, Inv k b → Inv (k + 1) (round b k)) {b : β} (start : Inv 0 b) :
    Inv n ((List.range n).foldl round b) := by
  induction n with
  | zero => exact start
  | succ n ih =>
    rw [List.range_succ, List.foldl_append]
    exact keep n (Nat.lt_succ_self n) _ (ih fun k lt => keep k (Nat.lt_succ_of_lt lt))

end XcKernel
