import Mathlib.Data.BitVec
import Mathlib.Tactic.Common

/-!
# Words of flags

A mask names some bits of a word.  Masks without a common bit do not disturb
each other.
-/

namespace XcKernel.Flags

variable {w : Nat}

/-- Some bit of the mask is set. -/
def test (x mask : BitVec w) : Bool := x &&& mask != 0

/-- The word with the bits of the mask set. -/
def set (x mask : BitVec w) : BitVec w := x ||| mask

/-- The word with the bits of the mask cleared. -/
def clear (x mask : BitVec w) : BitVec w := x &&& ~~~mask

variable (x : BitVec w) {m k : BitVec w}

theorem test_eq_true_iff : test x k = true ↔ x &&& k ≠ 0 := by simp [test]

theorem and_set (x m k : BitVec w) : set x m &&& k = (x &&& k) ||| (m &&& k) := by
  ext i
  simp only [set, BitVec.getElem_and, BitVec.getElem_or]
  cases x[i] <;> cases m[i] <;> cases k[i] <;> rfl

theorem and_clear (x m k : BitVec w) : clear x m &&& k = (x &&& k) &&& ~~~(m &&& k) := by
  ext i
  simp only [clear, BitVec.getElem_and, BitVec.getElem_not]
  cases x[i] <;> cases m[i] <;> cases k[i] <;> rfl

theorem test_set_self (nonzero : k ≠ 0) : test (set x k) k = true := by
  rw [test_eq_true_iff, and_set, BitVec.and_self]
  intro zero
  apply nonzero
  have : x &&& k ||| k = k := by
    ext i
    simp only [BitVec.getElem_and, BitVec.getElem_or]
    cases x[i] <;> cases k[i] <;> rfl
  rw [← this, zero]

theorem test_set_of_disjoint (disjoint : m &&& k = 0) : test (set x m) k = test x k := by
  rw [test, test, and_set, disjoint]
  simp

theorem test_clear_of_disjoint (disjoint : m &&& k = 0) : test (clear x m) k = test x k := by
  rw [test, test, and_clear, disjoint]
  simp

theorem test_clear_of_subset (subset : m &&& k = k) : test (clear x m) k = false := by
  rw [test, and_clear, subset, bne_eq_false_iff_eq, BitVec.and_assoc]
  simp

theorem test_clear_self : test (clear x k) k = false := test_clear_of_subset x (BitVec.and_self)

variable {x}

theorem test_and {y : BitVec w} (both : test (x &&& y) k = true) :
    test x k = true ∧ test y k = true := by
  rw [test_eq_true_iff] at both
  constructor <;> rw [test_eq_true_iff] <;> intro none <;> apply both
  · rw [BitVec.and_comm x y, BitVec.and_assoc, none]
    exact BitVec.and_zero
  · rw [BitVec.and_assoc, none]
    exact BitVec.and_zero

theorem and_eq_of_test_xor {y : BitVec w} (same : test (x ^^^ y) k = false) : x &&& k = y &&& k := by
  rw [test, bne_eq_false_iff_eq] at same
  ext i hi
  have bit : ((x ^^^ y) &&& k)[i] = false := by
    rw [same]
    exact BitVec.getElem_zero hi
  simp only [BitVec.getElem_and, BitVec.getElem_xor] at bit ⊢
  revert bit
  cases x[i] <;> cases y[i] <;> cases k[i] <;> decide

end XcKernel.Flags
