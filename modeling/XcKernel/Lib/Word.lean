import Mathlib.Data.Nat.Bitwise
import Mathlib.Tactic.Ring

/-!
# Fixed-width unsigned and signed arithmetic on numbers

Machine words are numbers; the C operators that can wrap are written with the
functions below.  An operation that provably stays in range is turned back
into ordinary arithmetic by the `_of_lt` and `_of_le` lemmas.
-/

namespace XcKernel.Word

/-- Reduce to an unsigned word of `w` bits. -/
def wrap (w n : Nat) : Nat := n % 2 ^ w

/-- Unsigned subtraction of two words of `w` bits. -/
def wrapSub (w a b : Nat) : Nat := (a + 2 ^ w - b) % 2 ^ w

/-- Read an integer as a two's complement word of `w` bits. -/
def signed (w : Nat) (n : Int) : Int := n.bmod (2 ^ w)

/-- Read an integer as an unsigned word of `w` bits. -/
def unsigned (w : Nat) (n : Int) : Nat := (n % 2 ^ w).toNat

theorem wrap_of_lt {w n : Nat} (h : n < 2 ^ w) : wrap w n = n := Nat.mod_eq_of_lt h

theorem wrap_lt (w n : Nat) : wrap w n < 2 ^ w := Nat.mod_lt _ (Nat.two_pow_pos w)

theorem wrapSub_of_le {w a b : Nat} (hb : b ≤ a) (ha : a < 2 ^ w) : wrapSub w a b = a - b := by
  have shifted : a + 2 ^ w - b = (a - b) + 2 ^ w := by omega
  rw [wrapSub, shifted, Nat.add_mod_right]
  exact Nat.mod_eq_of_lt (by omega)

theorem wrapSub_wrap_succ {w n : Nat} (h : n + 1 ≤ 2 ^ w) : wrapSub w (wrap w (n + 1)) 1 = n := by
  rcases Nat.eq_or_lt_of_le h with last | inside
  · rw [wrap, last, Nat.mod_self, wrapSub, Nat.zero_add, Nat.mod_eq_of_lt (by omega)]
    omega
  · rw [wrap_of_lt inside, wrapSub_of_le (Nat.le_add_left 1 n) inside, Nat.add_sub_cancel]

theorem signed_of_mem {w : Nat} {n : Int} (low : -2 ^ w ≤ n) (high : n < 2 ^ w) :
    signed (w + 1) n = n := by
  have double : ((2 ^ (w + 1) : Nat) : Int) = 2 * 2 ^ w := by push_cast; rw [pow_succ]; ring
  apply Int.bmod_eq_of_le_mul_two <;> rw [double] <;> omega

theorem unsigned_of_nonneg {w : Nat} {n : Int} (low : 0 ≤ n) (high : n < 2 ^ w) :
    (unsigned w n : Int) = n := by
  rw [unsigned, Int.emod_eq_of_lt low high, Int.toNat_of_nonneg low]

theorem unsigned_of_neg {w : Nat} {n : Int} (low : -2 ^ w ≤ n) (high : n < 0) :
    (unsigned w n : Int) = n + 2 ^ w := by
  rw [unsigned, ← Int.add_emod_right, Int.emod_eq_of_lt (by omega) (by omega)]
  exact Int.toNat_of_nonneg (by omega)

theorem wrap_le (w n : Nat) : wrap w n ≤ n := Nat.mod_le _ _

/-- `n & ~(m - 1)` on words of `w` bits. -/
def alignDown (w n m : Nat) : Nat := n &&& (2 ^ w - 1 - wrapSub w m 1)

theorem alignDown_le (w n m : Nat) : alignDown w n m ≤ n := Nat.and_le_left

theorem alignDown_two_pow {w k n : Nat} (hk : k < w) (hn : n < 2 ^ w) :
    alignDown w n (2 ^ k) = n / 2 ^ k * 2 ^ k := by
  have mask : 2 ^ w - 1 - wrapSub w (2 ^ k) 1 = 2 ^ w - (2 ^ k - 1 + 1) := by
    rw [wrapSub_of_le Nat.one_le_two_pow (Nat.pow_lt_pow_right (by omega) hk)]
    have := Nat.one_le_two_pow (n := k)
    omega
  have low : 2 ^ k - 1 < 2 ^ w := by
    have := Nat.pow_lt_pow_right (a := 2) (by omega) hk
    omega
  rw [alignDown, mask]
  apply Nat.eq_of_testBit_eq
  intro i
  rw [Nat.testBit_and, Nat.testBit_two_pow_sub_succ low, Nat.testBit_two_pow_sub_one,
    Nat.testBit_mul_two_pow, Nat.testBit_div_two_pow]
  by_cases hi : k ≤ i
  · rw [Nat.sub_add_cancel hi]
    by_cases hw : i < w
    · simp [hi, hw]
    · have high : n.testBit i = false :=
        Nat.testBit_lt_two_pow (hn.trans_le (Nat.pow_le_pow_right (by omega) (by omega)))
      simp [high]
  · simp [hi, Nat.not_le.mp hi]

/-- `((n - 1) | (m - 1)) + 1` on words of `w` bits. -/
def alignUp (w n m : Nat) : Nat := wrap w ((wrapSub w n 1 ||| wrapSub w m 1) + 1)

theorem or_two_pow_sub_one (n k : Nat) : n ||| (2 ^ k - 1) = n / 2 ^ k * 2 ^ k + (2 ^ k - 1) := by
  have low : 2 ^ k - 1 < 2 ^ k := Nat.sub_lt (Nat.two_pow_pos k) one_pos
  rw [← Nat.shiftLeft_eq, Nat.shiftLeft_add_eq_or_of_lt low]
  apply Nat.eq_of_testBit_eq
  intro i
  rw [Nat.testBit_or, Nat.testBit_or, Nat.testBit_two_pow_sub_one, Nat.testBit_shiftLeft,
    Nat.testBit_div_two_pow]
  by_cases hi : k ≤ i
  · rw [Nat.sub_add_cancel hi]
    simp [hi]
  · simp [Nat.not_le.mp hi]

theorem alignUp_two_pow {w k n : Nat} (hk : k < w) (hn : n + (2 ^ k - 1) < 2 ^ w) :
    alignUp w n (2 ^ k) = (n + (2 ^ k - 1)) / 2 ^ k * 2 ^ k := by
  have one : 1 ≤ 2 ^ k := Nat.one_le_two_pow
  have mask : wrapSub w (2 ^ k) 1 = 2 ^ k - 1 :=
    wrapSub_of_le one (Nat.pow_lt_pow_right (by omega) hk)
  rw [alignUp, mask]
  cases n with
  | zero =>
    have all : wrapSub w 0 1 = 2 ^ w - 1 := by
      rw [wrapSub, Nat.zero_add]
      exact Nat.mod_eq_of_lt (Nat.sub_lt (Nat.two_pow_pos w) one_pos)
    have absorbed : (2 ^ w - 1) ||| (2 ^ k - 1) = 2 ^ w - 1 := by
      apply Nat.eq_of_testBit_eq
      intro i
      rw [Nat.testBit_or, Nat.testBit_two_pow_sub_one, Nat.testBit_two_pow_sub_one]
      by_cases hi : i < k
      · simp [hi, hi.trans hk]
      · simp [hi]
    rw [all, absorbed, Nat.sub_add_cancel Nat.one_le_two_pow, wrap, Nat.mod_self, Nat.zero_add,
      Nat.div_eq_of_lt (Nat.sub_lt (Nat.two_pow_pos k) one_pos), Nat.zero_mul]
  | succ n =>
    have before : wrapSub w (n + 1) 1 = n := wrapSub_of_le (by omega) (by omega)
    have quotient : (n + 1 + (2 ^ k - 1)) / 2 ^ k = n / 2 ^ k + 1 := by
      rw [show n + 1 + (2 ^ k - 1) = n + 2 ^ k by omega]
      exact Nat.add_div_right n (Nat.two_pow_pos k)
    have under : n / 2 ^ k * 2 ^ k ≤ n := Nat.div_mul_le_self n (2 ^ k)
    rw [before, or_two_pow_sub_one, quotient, Nat.succ_mul, wrap_of_lt (by omega)]
    omega

end XcKernel.Word
