import Mathlib.Data.List.Basic
import Mathlib.Tactic.SplitIfs

/-!
# Byte memory

Memory is a byte at each address.  A 32-bit word is stored with its low byte
first.  `Within region m m'` is the frame condition of a store: only bytes of
the region differ.
-/

namespace XcKernel

abbrev Bytes := Nat → BitVec 8

namespace Bytes

variable {m m' m'' : Bytes} {region : Nat → Prop} {a b x : Nat} {w : BitVec 32}

/-- Store one byte. -/
def store (m : Bytes) (a : Nat) (b : BitVec 8) : Bytes := fun x => if x = a then b else m x

/-- The word at an address. -/
def loadWord (m : Bytes) (a : Nat) : BitVec 32 :=
  m (a + 3) ++ m (a + 2) ++ m (a + 1) ++ m a

/-- Store a word. -/
def storeWord (m : Bytes) (a : Nat) (w : BitVec 32) : Bytes :=
  (((m.store a (w.extractLsb' 0 8)).store (a + 1) (w.extractLsb' 8 8)).store (a + 2)
    (w.extractLsb' 16 8)).store (a + 3) (w.extractLsb' 24 8)

/-- Store the same byte `count` times, from an address on. -/
def fill (m : Bytes) (s : Nat) (c : BitVec 8) : (count : Nat) → Bytes
  | 0 => m
  | count + 1 => (m.store s c).fill (s + 1) c count

theorem store_self (c : BitVec 8) : m.store a c a = c := if_pos rfl

theorem store_of_ne (h : x ≠ a) (c : BitVec 8) : m.store a c x = m x := if_neg h

theorem storeWord_of_not (h : x < a ∨ a + 4 ≤ x) : m.storeWord a w x = m x := by
  rw [storeWord, store_of_ne (by omega), store_of_ne (by omega), store_of_ne (by omega),
    store_of_ne (by omega)]

theorem loadWord_congr (same : ∀ x, a ≤ x → x < a + 4 → m x = m' x) :
    m.loadWord a = m'.loadWord a := by
  rw [loadWord, loadWord, same a (by omega) (by omega), same (a + 1) (by omega) (by omega),
    same (a + 2) (by omega) (by omega), same (a + 3) (by omega) (by omega)]

theorem loadWord_storeWord_of_not (h : b + 4 ≤ a ∨ a + 4 ≤ b) :
    (m.storeWord a w).loadWord b = m.loadWord b :=
  loadWord_congr fun _ low high => storeWord_of_not (by omega)

theorem storeWord_byte {k : Nat} (hk : k < 4) :
    m.storeWord a w (a + k) = w.extractLsb' (8 * k) 8 := by
  have which : k = 0 ∨ k = 1 ∨ k = 2 ∨ k = 3 := by omega
  rcases which with rfl | rfl | rfl | rfl
  · rw [storeWord, store_of_ne (by omega), store_of_ne (by omega), store_of_ne (by omega)]
    exact store_self _
  · rw [storeWord, store_of_ne (by omega), store_of_ne (by omega)]
    exact store_self _
  · rw [storeWord, store_of_ne (by omega)]
    exact store_self _
  · rw [storeWord]
    exact store_self _

@[simp] theorem loadWord_storeWord : (m.storeWord a w).loadWord a = w := by
  have byte₀ : m.storeWord a w a = w.extractLsb' 0 8 := storeWord_byte (k := 0) (by decide)
  rw [loadWord, byte₀, storeWord_byte (by decide), storeWord_byte (by decide),
    storeWord_byte (by decide)]
  ext i hi
  simp only [BitVec.getElem_append, BitVec.getElem_extractLsb']
  split_ifs with h₁ h₂ h₃
  · simp [BitVec.getLsbD_eq_getElem hi]
  · rw [show 8 * 1 + (i - 8) = i by omega, BitVec.getLsbD_eq_getElem hi]
  · rw [show 8 * 2 + (i - 8 - 8) = i by omega, BitVec.getLsbD_eq_getElem hi]
  · rw [show 8 * 3 + (i - 8 - 8 - 8) = i by omega, BitVec.getLsbD_eq_getElem hi]

theorem loadWord_byte {k : Nat} (hk : k < 4) : (m.loadWord a).extractLsb' (8 * k) 8 = m (a + k) := by
  have which : k = 0 ∨ k = 1 ∨ k = 2 ∨ k = 3 := by omega
  ext i hi
  rw [BitVec.getElem_extractLsb', ← BitVec.getLsbD_eq_getElem hi]
  simp only [loadWord, BitVec.getLsbD_append]
  rcases which with rfl | rfl | rfl | rfl
  all_goals
    split_ifs
    all_goals first | omega | (congr 1; omega)

theorem fill_apply (c : BitVec 8) (count : Nat) :
    m.fill a c count x = if a ≤ x ∧ x < a + count then c else m x := by
  induction count generalizing m a with
  | zero => rw [if_neg (by omega)]; rfl
  | succ count ih =>
    rw [fill, ih]
    by_cases here : x = a
    · subst here
      rw [if_neg (by omega), if_pos (by omega), store_self]
    · rw [store_of_ne here]
      exact if_congr (by omega) rfl rfl

/-- The word that holds a bit of the string at an address. -/
def bitWord (a n : Nat) : Nat := a + 4 * (n / 32)

def testBit (m : Bytes) (a n : Nat) : Bool := (m.loadWord (bitWord a n)).getLsbD (n % 32)

def setBit (m : Bytes) (a n : Nat) : Bytes :=
  m.storeWord (bitWord a n) (m.loadWord (bitWord a n) ||| 1#32 <<< (n % 32))

def clearBit (m : Bytes) (a n : Nat) : Bytes :=
  m.storeWord (bitWord a n) (m.loadWord (bitWord a n) &&& ~~~(1#32 <<< (n % 32)))

/-- Set or clear a bit. -/
def putBit (m : Bytes) (a n : Nat) (b : Bool) : Bytes := if b then m.setBit a n else m.clearBit a n

variable {n k : Nat}

theorem getLsbD_one_shiftLeft (hk : k < 32) : (1#32 <<< n).getLsbD k = decide (k = n) := by
  rw [BitVec.getLsbD_shiftLeft, BitVec.getLsbD_one, Bool.eq_iff_iff]
  simp only [Bool.and_eq_true, decide_eq_true_eq, Bool.not_eq_true', decide_eq_false_iff_not]
  omega

theorem testBit_storeWord_of_ne (h : k / 32 ≠ n / 32) :
    (m.storeWord (bitWord a n) w).testBit a k = m.testBit a k := by
  rw [testBit, testBit, loadWord_storeWord_of_not]
  simp only [bitWord]
  omega

theorem testBit_putBit (b : Bool) :
    (m.putBit a n b).testBit a k = if k = n then b else m.testBit a k := by
  by_cases word : k / 32 = n / 32
  · have same : bitWord a k = bitWord a n := by rw [bitWord, bitWord, word]
    have here : k % 32 = n % 32 ↔ k = n := by omega
    have low : k % 32 < 32 := Nat.mod_lt k (by decide)
    cases b with
    | true =>
      rw [putBit, if_pos rfl, setBit, testBit, same, loadWord_storeWord, BitVec.getLsbD_or,
        getLsbD_one_shiftLeft low, testBit, same]
      by_cases eq : k = n <;> simp [here, eq]
    | false =>
      rw [putBit, if_neg (by decide), clearBit, testBit, same, loadWord_storeWord,
        BitVec.getLsbD_and, BitVec.getLsbD_not, getLsbD_one_shiftLeft low, testBit, same]
      by_cases eq : k = n <;> simp [here, eq, low]
  · have ne : k ≠ n := fun eq => word (by rw [eq])
    rw [if_neg ne, putBit]
    split
    · exact testBit_storeWord_of_ne word
    · exact testBit_storeWord_of_ne word

/-- Only bytes of the region differ. -/
def Within (region : Nat → Prop) (m m' : Bytes) : Prop := ∀ x, ¬ region x → m' x = m x

theorem Within.refl (region : Nat → Prop) (m : Bytes) : Within region m m := fun _ _ => rfl

theorem Within.trans (first : Within region m m') (second : Within region m' m'') :
    Within region m m'' := fun x out => (second x out).trans (first x out)

theorem Within.storeWord (first : Within region m m') (inside : ∀ x, a ≤ x → x < a + 4 → region x) :
    Within region m (m'.storeWord a w) := by
  intro x out
  by_cases h : a ≤ x ∧ x < a + 4
  · exact absurd (inside x h.1 h.2) out
  · rw [storeWord_of_not (by omega), first x out]

theorem Within.putBit (first : Within region m m') (b : Bool)
    (inside : ∀ x, bitWord a n ≤ x → x < bitWord a n + 4 → region x) :
    Within region m (m'.putBit a n b) := by
  rw [Bytes.putBit]
  split
  · exact first.storeWord inside
  · exact first.storeWord inside

theorem Within.foldl {α : Type} {f : Bytes → α → Bytes} {l : List α} (first : Within region m m')
    (step : ∀ i ∈ l, ∀ m', Within region m m' → Within region m (f m' i)) :
    Within region m (l.foldl f m') := by
  induction l generalizing m' with
  | nil => exact first
  | cons i l ih =>
    exact ih (step i List.mem_cons_self m' first) fun j mem =>
      step j (List.mem_cons_of_mem i mem)

end Bytes

end XcKernel
