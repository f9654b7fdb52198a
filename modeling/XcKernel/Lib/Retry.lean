import Mathlib.Data.List.Basic

/-!
# Retried rounds

A loop that goes round until a round succeeds.  Each round meets the next of the
events `es`, which stand for what others do while it runs; a loop that has met
all of them without success has not ended.
-/

namespace XcKernel

variable {ε σ : Type*}

/-- The loop, with the state its last round leaves and the events that are left. -/
def retry (round : ε → σ → Bool × σ) : List ε → σ → Option (σ × List ε)
  | [], _ => none
  | e :: es, s =>
    match round e s with
    | (true, s') => some (s', es)
    | (false, s') => retry round es s'

/-- The states in which the rounds start. -/
def retryStates (round : ε → σ → Bool × σ) : List ε → σ → List σ
  | [], _ => []
  | e :: es, s =>
    match round e s with
    | (true, _) => [s]
    | (false, s') => s :: retryStates round es s'

/-- What every round keeps, together with the states met so far, holds in the end. -/
theorem retry_trace {round : ε → σ → Bool × σ} {P : List σ → σ → Prop}
    (keep : ∀ e met s, P met s → P (met ++ [s]) (round e s).2) {es rest : List ε} {s s' : σ}
    (ends : retry round es s = some (s', rest)) {m : List σ} (start : P m s) :
    P (m ++ retryStates round es s) s' := by
  induction es generalizing s m with
  | nil => simp [retry] at ends
  | cons e es ih =>
    have next := keep e m s start
    simp only [retry] at ends
    simp only [retryStates]
    split at ends
    · rename_i s₁ success
      obtain ⟨rfl, -⟩ := Prod.mk.inj (Option.some.inj ends)
      rw [success] at next
      simpa [success] using next
    · rename_i s₁ failure
      rw [failure] at next
      simpa [failure] using ih ends next

theorem retry_inv {round : ε → σ → Bool × σ} {P : σ → Prop}
    (keep : ∀ e s, P s → P (round e s).2) {es rest : List ε} {s s' : σ}
    (ends : retry round es s = some (s', rest)) (start : P s) : P s' :=
  retry_trace (fun e _ s => keep e s) ends (m := []) start

theorem retry_cons {round : ε → σ → Bool × σ} {e : ε} {s s' : σ} (success : round e s = (true, s'))
    (es : List ε) : retry round (e :: es) s = some (s', es) := by
  simp [retry, success]

end XcKernel
