import Mathlib.Data.Set.Lattice
import Mathlib.Data.List.Pairwise

/-!
# Lists of half-open spans

A span is an interval `[lo, hi)` of numbers.  A list of spans denotes the set
of numbers it covers; it is `Separated` when its spans stand in ascending
order with at least one number between two consecutive ones.
-/

namespace XcKernel

/-- The numbers `x` with `lo ≤ x < hi`. -/
structure Span where
  lo : Nat
  hi : Nat
  deriving DecidableEq, Repr

namespace Span

def Contains (s : Span) (x : Nat) : Prop := s.lo ≤ x ∧ x < s.hi

instance (s : Span) (x : Nat) : Decidable (s.Contains x) :=
  inferInstanceAs (Decidable (_ ∧ _))

/-- Two spans share a number, or one begins where the other ends. -/
def Touches (s t : Span) : Prop := s.lo ≤ t.hi ∧ t.lo ≤ s.hi

instance (s t : Span) : Decidable (s.Touches t) := inferInstanceAs (Decidable (_ ∧ _))

/-- No number lies in both spans. -/
def Apart (s t : Span) : Prop := ∀ x, s.Contains x → ¬ t.Contains x

theorem Apart.symm {s t : Span} (h : s.Apart t) : t.Apart s :=
  fun x ht hs => h x hs ht

/-- The set of numbers covered by a list of spans. -/
def Covers (l : List Span) (x : Nat) : Prop := ∃ s ∈ l, s.Contains x

@[simp] theorem covers_nil (x : Nat) : ¬ Covers [] x := by simp [Covers]

@[simp] theorem covers_cons (s : Span) (l : List Span) (x : Nat) :
    Covers (s :: l) x ↔ s.Contains x ∨ Covers l x := by simp [Covers]

@[simp] theorem covers_append (l₁ l₂ : List Span) (x : Nat) :
    Covers (l₁ ++ l₂) x ↔ Covers l₁ x ∨ Covers l₂ x := by
  simp [Covers, or_and_right, exists_or]

/-- Ascending order with a gap between any two spans. -/
def Separated (l : List Span) : Prop := l.Pairwise (fun s t => s.hi < t.lo)

instance (l : List Span) : Decidable (Separated l) :=
  inferInstanceAs (Decidable (l.Pairwise _))

end Span

end XcKernel
