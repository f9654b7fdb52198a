import XcKernel.Lib.Bytes
import XcKernel.Lib.Word
import XcKernel.Range.Sorted

/-!
# `sort` in the bytes of memory

The array is `num` elements of `size` bytes at the address `base`.  The indices
of the source are offsets in bytes, in `int`.  The comparison is given the
memory and the addresses of two elements.  `none` is an access that is not to an
element of the array, or a loop that does not end.
-/

namespace XcKernel.Range

open Word

def u32Swap (m : Bytes) (a b : Nat) : Bytes :=
  let t := m.loadWord a
  let m := m.storeWord a (m.loadWord b)
  m.storeWord b t

/-- The body of the loop of `generic_swap` -/
def swapByte (m : Bytes) (a b : Nat) : Bytes :=
  let t := m a
  let m := m.store a (m b)
  m.store b t

def genericSwap (m : Bytes) (a b : Nat) : (size : Nat) → Bytes
  | 0 | 1 => swapByte m a b
  | size + 2 => genericSwap (swapByte m a b) (a + 1) (b + 1) (size + 1)

/-- The `swap_func` that `sort` takes when it is given none -/
def swapFunc (size : Nat) (m : Bytes) (a b : Nat) : Bytes :=
  if size = 4 then u32Swap m a b else genericSwap m a b size

/-- The arguments of `sort` -/
structure SortArray where
  base : Nat
  num : Nat
  size : Nat
  cmpFunc : Bytes → Nat → Nat → Int

namespace SortArray

/-- An element of the array stands at the offset. -/
def HasElement (A : SortArray) (offset : Int) : Prop :=
  0 ≤ offset ∧ (A.size : Int) ∣ offset ∧ offset + A.size ≤ A.num * A.size

instance (A : SortArray) (offset : Int) : Decidable (A.HasElement offset) :=
  inferInstanceAs (Decidable (_ ∧ _ ∧ _))

/-- `base + offset` -/
def address (A : SortArray) (offset : Int) : Nat := A.base + offset.toNat

/-- `cmp_func(base + a, base + b)` -/
def compare (A : SortArray) (m : Bytes) (a b : Int) : Option Int :=
  if A.HasElement a ∧ A.HasElement b then some (A.cmpFunc m (A.address a) (A.address b)) else none

/-- `swap_func(base + a, base + b, size)` -/
def exchange (A : SortArray) (m : Bytes) (a b : Int) : Option Bytes :=
  if A.HasElement a ∧ A.HasElement b then
    some (swapFunc A.size m (A.address a) (A.address b))
  else none

/-- The greater child: `c`, or the element behind it. -/
def greaterChild (A : SortArray) (m : Bytes) (n c : Int) : Option Int :=
  if c < signed 32 (n - A.size) then
    (A.compare m c (signed 32 (c + A.size))).map fun v =>
      if v < 0 then signed 32 (c + A.size) else c
  else some c

/-- The inner loop of both phases -/
def siftDown (A : SortArray) (n : Int) (m : Bytes) (r : Int) : (fuel : Nat) → Option Bytes
  | 0 => none
  | fuel + 1 =>
    if signed 32 (signed 32 (r * 2) + A.size) < n then
      (A.greaterChild m n (signed 32 (signed 32 (r * 2) + A.size))).bind fun c =>
        (A.compare m r c).bind fun v =>
          if v ≥ 0 then some m else (A.exchange m r c).bind fun m => A.siftDown n m c fuel
    else some m

/-- The first phase -/
def heapify (A : SortArray) (n : Int) (m : Bytes) (i : Int) : (fuel : Nat) → Option Bytes
  | 0 => none
  | fuel + 1 =>
    if i ≥ 0 then
      (A.siftDown n m i (A.num + 1)).bind fun m => A.heapify n m (signed 32 (i - A.size)) fuel
    else some m

/-- The second phase -/
def sortHeap (A : SortArray) (m : Bytes) (i : Int) : (fuel : Nat) → Option Bytes
  | 0 => none
  | fuel + 1 =>
    if i > 0 then
      (A.exchange m 0 i).bind fun m =>
        (A.siftDown i m 0 (A.num + 1)).bind fun m => A.sortHeap m (signed 32 (i - A.size)) fuel
    else some m

def sort (A : SortArray) (m : Bytes) : Option Bytes :=
  let i := signed 32 (((A.num / 2 : Nat) - 1) * A.size)
  let n := signed 32 (A.num * A.size)
  (A.heapify n m i (A.num + 1)).bind fun m => A.sortHeap m (signed 32 (n - A.size)) (A.num + 1)

end SortArray

section Swap

variable {m : Bytes} {a b size : Nat}

theorem swapByte_apply (ne : a ≠ b) (x : Nat) :
    swapByte m a b x = if x = a then m b else if x = b then m a else m x := by
  unfold swapByte
  by_cases atB : x = b
  · subst atB
    rw [Bytes.store_self, if_neg (Ne.symm ne), if_pos rfl]
  · rw [Bytes.store_of_ne atB, if_neg atB]
    rfl

/-- Two blocks of bytes change places. -/
def Exchanged (m : Bytes) (a b size : Nat) (m' : Bytes) : Prop :=
  (∀ k < size, m' (a + k) = m (b + k) ∧ m' (b + k) = m (a + k)) ∧
    ∀ x, ¬ (a ≤ x ∧ x < a + size) → ¬ (b ≤ x ∧ x < b + size) → m' x = m x

theorem genericSwap_exchanged (positive : 0 < size) (apart : a + size ≤ b ∨ b + size ≤ a) :
    Exchanged m a b size (genericSwap m a b size) := by
  induction size generalizing m a b with
  | zero => omega
  | succ size ih =>
    have byte := swapByte_apply (m := m) (show a ≠ b by omega)
    cases size with
    | zero =>
      refine ⟨?_, ?_⟩
      · intro k hk
        obtain rfl : k = 0 := by omega
        simp only [Nat.add_zero]
        refine ⟨?_, ?_⟩
        · rw [genericSwap, byte, if_pos rfl]
        · rw [genericSwap, byte, if_neg (by omega), if_pos rfl]
      · intro x outA outB
        rw [genericSwap, byte, if_neg (by omega), if_neg (by omega)]
    | succ size =>
      rw [genericSwap]
      obtain ⟨swapped, others⟩ := ih (m := swapByte m a b) (a := a + 1) (b := b + 1) (by omega)
        (by omega)
      refine ⟨?_, ?_⟩
      · intro k hk
        cases k with
        | zero =>
          simp only [Nat.add_zero]
          rw [others a (by omega) (by omega), others b (by omega) (by omega), byte, byte,
            if_pos rfl, if_neg (by omega), if_pos rfl]
          exact ⟨rfl, rfl⟩
        | succ k =>
          have later := swapped k (by omega)
          rw [byte, byte, if_neg (by omega), if_neg (by omega), if_neg (by omega),
            if_neg (by omega)] at later
          rw [show a + (k + 1) = a + 1 + k by omega, show b + (k + 1) = b + 1 + k by omega]
          exact later
      · intro x outA outB
        rw [others x (by omega) (by omega), byte, if_neg (by omega), if_neg (by omega)]

theorem u32Swap_exchanged (apart : a + 4 ≤ b ∨ b + 4 ≤ a) : Exchanged m a b 4 (u32Swap m a b) := by
  unfold u32Swap
  refine ⟨?_, ?_⟩
  · intro k hk
    refine ⟨?_, ?_⟩
    · rw [Bytes.storeWord_of_not (by omega), Bytes.storeWord_byte hk, Bytes.loadWord_byte hk]
    · rw [Bytes.storeWord_byte hk, Bytes.loadWord_byte hk]
  · intro x outA outB
    rw [Bytes.storeWord_of_not (by omega), Bytes.storeWord_of_not (by omega)]

theorem swapFunc_exchanged (positive : 0 < size) (apart : a + size ≤ b ∨ b + size ≤ a) :
    Exchanged m a b size (swapFunc size m a b) := by
  unfold swapFunc
  split
  · rename_i four
    subst four
    exact u32Swap_exchanged apart
  · exact genericSwap_exchanged positive apart

end Swap

namespace SortArray

/-- The offset of an element, from its place in the array. -/
def offset (A : SortArray) (k : Nat) : Int := (k * A.size : Nat)

/-- The comparison of two places. -/
def compareAt (A : SortArray) (m : Bytes) (i j : Nat) : Int :=
  A.cmpFunc m (A.base + i * A.size) (A.base + j * A.size)

/-- The memory after two places have been swapped. -/
def swapAt (A : SortArray) (m : Bytes) (i j : Nat) : Bytes :=
  swapFunc A.size m (A.base + i * A.size) (A.base + j * A.size)

/-- The greater of the children of `k`, by the comparison. -/
def childAt (A : SortArray) (m : Bytes) (n k : Nat) : Nat :=
  if 2 * k + 2 < n ∧ A.compareAt m (2 * k + 1) (2 * k + 2) < 0 then 2 * k + 2 else 2 * k + 1

/-- The array fits in an `int`, with room to double an offset. -/
structure Fits (A : SortArray) : Prop where
  positive : 0 < A.size
  size : A.size < 2 ^ 31
  bytes : A.num * A.size < 2 ^ 30

variable {A : SortArray} {m : Bytes} {n k i j fuel : Nat}

theorem offset_succ (A : SortArray) (k : Nat) : A.offset (k + 1) = A.offset k + A.size := by
  simp only [offset, Nat.succ_mul, Nat.cast_add]

theorem offset_double (A : SortArray) (k : Nat) : A.offset k * 2 + A.size = A.offset (2 * k + 1) := by
  have twice : A.offset k * 2 = A.offset (2 * k) := by
    rw [offset, offset, show 2 * k * A.size = k * A.size * 2 by ring]
    push_cast
    ring
  rw [offset_succ, twice]

theorem Fits.offset_lt_iff (fits : A.Fits) : A.offset i < A.offset j ↔ i < j := by
  rw [offset, offset, Nat.cast_lt]
  exact Nat.mul_lt_mul_right fits.positive

theorem offset_le (h : i ≤ j) : A.offset i ≤ A.offset j := by
  rw [offset, offset, Nat.cast_le]
  exact Nat.mul_le_mul_right A.size h

theorem Fits.offset_num (fits : A.Fits) : A.offset A.num < 2 ^ 30 := by
  have := fits.bytes
  rw [offset]
  omega

theorem offset_zero (A : SortArray) : A.offset 0 = 0 := by simp [offset]

theorem Fits.offset_bound (fits : A.Fits) (h : i ≤ 2 * A.num) : A.offset i < 2 ^ 31 := by
  have double : A.offset (2 * A.num) < 2 ^ 31 := by
    have := fits.offset_num
    rw [offset] at this ⊢
    rw [show 2 * A.num * A.size = A.num * A.size * 2 by ring]
    push_cast at this ⊢
    omega
  exact (offset_le h).trans_lt double

theorem offset_nonneg (A : SortArray) (k : Nat) : 0 ≤ A.offset k := Int.natCast_nonneg _

theorem Fits.signed_offset (fits : A.Fits) (h : i ≤ 2 * A.num) :
    signed 32 (A.offset i) = A.offset i := by
  have := A.offset_nonneg i
  exact signed_of_mem (by omega) (by have := fits.offset_bound h; omega)

theorem Fits.hasElement_iff (fits : A.Fits) : A.HasElement (A.offset k) ↔ k < A.num := by
  have num : (A.num * A.size : Int) = A.offset A.num := by
    rw [offset]
    push_cast
    rfl
  rw [HasElement, num, ← offset_succ]
  constructor
  · rintro ⟨-, -, le⟩
    by_contra above
    have := (fits.offset_lt_iff).mpr (show A.num < k + 1 by omega)
    omega
  · intro inside
    exact ⟨A.offset_nonneg k, ⟨k, by rw [offset]; push_cast; ring⟩, offset_le inside⟩

theorem address_offset (A : SortArray) (k : Nat) : A.address (A.offset k) = A.base + k * A.size := by
  rw [address, offset, Int.toNat_natCast]

theorem Fits.compare_offset (fits : A.Fits) (hi : i < A.num) (hj : j < A.num) :
    A.compare m (A.offset i) (A.offset j) = some (A.compareAt m i j) := by
  rw [compare, if_pos ⟨fits.hasElement_iff.mpr hi, fits.hasElement_iff.mpr hj⟩, address_offset,
    address_offset]
  rfl

theorem Fits.exchange_offset (fits : A.Fits) (hi : i < A.num) (hj : j < A.num) :
    A.exchange m (A.offset i) (A.offset j) = some (A.swapAt m i j) := by
  rw [exchange, if_pos ⟨fits.hasElement_iff.mpr hi, fits.hasElement_iff.mpr hj⟩, address_offset,
    address_offset]
  rfl

theorem Fits.signed_back (fits : A.Fits) (h : k ≤ A.num) :
    signed 32 (A.offset k - A.size) = A.offset k - A.size := by
  have low := A.offset_nonneg k
  have high := fits.offset_bound (show k ≤ 2 * A.num by omega)
  have size := fits.size
  exact signed_of_mem (by omega) (by omega)

theorem Fits.greaterChild_offset (fits : A.Fits) (small : n ≤ A.num) (inside : 2 * k + 1 < n) :
    A.greaterChild m (A.offset n) (A.offset (2 * k + 1)) = some (A.offset (A.childAt m n k)) := by
  have last : (A.offset (2 * k + 1) < signed 32 (A.offset n - A.size)) ↔ 2 * k + 2 < n := by
    rw [fits.signed_back small, ← fits.offset_lt_iff (i := 2 * k + 2), A.offset_succ (2 * k + 1)]
    omega
  rw [greaterChild, if_congr last rfl rfl, ← offset_succ, fits.signed_offset (by omega), childAt]
  by_cases two : 2 * k + 2 < n
  · rw [if_pos two, fits.compare_offset (by omega) (by omega), Option.map_some]
    by_cases less : A.compareAt m (2 * k + 1) (2 * k + 1 + 1) < 0
    · rw [if_pos less, if_pos ⟨two, less⟩]
    · rw [if_neg less, if_neg fun both => less both.2]
  · rw [if_neg two, if_neg fun both => two both.1]

theorem childAt_lt (inside : 2 * k + 1 < n) : k < A.childAt m n k ∧ A.childAt m n k < n := by
  unfold childAt
  split
  · omega
  · omega

/-- One round of the inner loop, at a place of the array. -/
theorem Fits.siftDown_succ (fits : A.Fits) (small : n ≤ A.num) (inside : k < A.num) :
    A.siftDown (A.offset n) m (A.offset k) (fuel + 1) =
      if 2 * k + 1 < n then
        if A.compareAt m k (A.childAt m n k) ≥ 0 then some m
        else A.siftDown (A.offset n) (A.swapAt m k (A.childAt m n k))
          (A.offset (A.childAt m n k)) fuel
      else some m := by
  have doubled : signed 32 (signed 32 (A.offset k * 2) + A.size) = A.offset (2 * k + 1) := by
    have bound := fits.offset_bound (show 2 * k + 1 ≤ 2 * A.num by omega)
    have low := A.offset_nonneg k
    rw [← offset_double] at bound
    rw [signed_of_mem (n := A.offset k * 2) (by omega) (by omega), offset_double,
      fits.signed_offset (by omega)]
  rw [siftDown, doubled, if_congr fits.offset_lt_iff rfl rfl]
  by_cases go : 2 * k + 1 < n
  · have child := childAt_lt (A := A) (m := m) go
    rw [if_pos go, if_pos go, fits.greaterChild_offset small go, Option.bind_some,
      fits.compare_offset inside (by omega), Option.bind_some,
      fits.exchange_offset inside (by omega), Option.bind_some]
  · rw [if_neg go, if_neg go]

/-- The bytes of the element at a place. -/
def element (A : SortArray) (m : Bytes) (k : Nat) : List (BitVec 8) :=
  (List.range A.size).map fun j => m (A.base + k * A.size + j)

def elements (A : SortArray) (m : Bytes) : List (List (BitVec 8)) :=
  (List.range A.num).map (A.element m)

/-- The bytes of the array. -/
def Holds (A : SortArray) (x : Nat) : Prop := A.base ≤ x ∧ x < A.base + A.num * A.size

theorem elements_length (A : SortArray) (m : Bytes) : (A.elements m).length = A.num := by
  simp [elements]

theorem elements_getElem? (h : k < A.num) : (A.elements m)[k]? = some (A.element m k) := by
  simp [elements, h]

theorem mul_size_le (h : i < j) : i * A.size + A.size ≤ j * A.size := by
  rw [← Nat.succ_mul]
  exact Nat.mul_le_mul_right A.size h

theorem Fits.swapAt_exchanged (fits : A.Fits) (ne : i ≠ j) :
    Exchanged m (A.base + i * A.size) (A.base + j * A.size) A.size (A.swapAt m i j) := by
  apply swapFunc_exchanged fits.positive
  rcases Nat.lt_or_gt_of_ne ne with below | above
  · have := mul_size_le (A := A) below
    omega
  · have := mul_size_le (A := A) above
    omega

theorem Fits.element_swapAt (fits : A.Fits) (ne : i ≠ j) (k : Nat) :
    A.element (A.swapAt m i j) k =
      if k = j then A.element m i else if k = i then A.element m j else A.element m k := by
  obtain ⟨swapped, others⟩ := fits.swapAt_exchanged (m := m) ne
  split
  · rename_i atJ
    subst atJ
    apply List.map_congr_left
    intro x hx
    exact (swapped x (List.mem_range.mp hx)).2
  · rename_i notJ
    split
    · rename_i atI
      subst atI
      apply List.map_congr_left
      intro x hx
      exact (swapped x (List.mem_range.mp hx)).1
    · rename_i notI
      apply List.map_congr_left
      intro x hx
      have inside := List.mem_range.mp hx
      have apart : ∀ l, k ≠ l → ¬ (A.base + l * A.size ≤ A.base + k * A.size + x ∧
          A.base + k * A.size + x < A.base + l * A.size + A.size) := by
        intro l away
        rcases Nat.lt_or_gt_of_ne away with below | above
        · have := mul_size_le (A := A) below
          omega
        · have := mul_size_le (A := A) above
          omega
      exact others _ (apart i notI) (apart j notJ)

theorem Fits.swap_elements (fits : A.Fits) (hi : i < A.num) (hj : j < A.num) (ne : i ≠ j) :
    swap (A.elements m) i j = some (A.elements (A.swapAt m i j)) := by
  rw [swap, elements_getElem? hi, elements_getElem? hj]
  dsimp only
  congr 1
  apply List.ext_getElem?
  intro k
  by_cases inside : k < A.num
  · rw [elements_getElem? inside, fits.element_swapAt ne, List.getElem?_set, List.getElem?_set,
      List.length_set, elements_length, elements_getElem? inside]
    by_cases atJ : k = j
    · subst atJ
      rw [if_pos rfl, if_pos inside, if_pos rfl]
    · rw [if_neg (Ne.symm atJ), if_neg atJ]
      by_cases atI : k = i
      · subst atI
        rw [if_pos rfl, if_pos inside, if_pos rfl]
      · rw [if_neg (Ne.symm atI), if_neg atI]
  · have outside : A.num ≤ k := not_lt.mp inside
    rw [List.getElem?_eq_none (by
        rw [List.length_set, List.length_set, elements_length]
        exact outside),
      List.getElem?_eq_none (by rw [elements_length]; exact outside)]

/-- The elements of the array have been permuted, and the other memory is as it was. -/
structure Rearranged (A : SortArray) (m m' : Bytes) : Prop where
  perm : (A.elements m').Perm (A.elements m)
  others : Bytes.Within A.Holds m m'

theorem Rearranged.refl (A : SortArray) (m : Bytes) : A.Rearranged m m := ⟨.refl _, .refl _ m⟩

theorem Rearranged.trans {m₁ m₂ : Bytes} (first : A.Rearranged m m₁) (second : A.Rearranged m₁ m₂) :
    A.Rearranged m m₂ := ⟨second.perm.trans first.perm, first.others.trans second.others⟩

theorem Fits.swapAt_rearranged (fits : A.Fits) (hi : i < A.num) (hj : j < A.num) (ne : i ≠ j) :
    A.Rearranged m (A.swapAt m i j) := by
  constructor
  · have first : i < (A.elements m).length := by rwa [elements_length]
    have second : j < (A.elements m).length := by rwa [elements_length]
    obtain ⟨swapped, eq, perm⟩ := swap_perm first second
    rw [fits.swap_elements hi hj ne] at eq
    rw [Option.some.inj eq]
    exact perm
  · intro x out
    have first := mul_size_le (A := A) hi
    have second := mul_size_le (A := A) hj
    unfold Holds at out
    exact (fits.swapAt_exchanged ne).2 x (by omega) (by omega)

theorem Fits.siftDown_rearranges (fits : A.Fits) (small : n ≤ A.num) (inside : k < A.num)
    (enough : n < k + fuel) (some_ : 0 < fuel) :
    ∃ m', A.siftDown (A.offset n) m (A.offset k) fuel = some m' ∧ A.Rearranged m m' := by
  induction fuel generalizing m k with
  | zero => omega
  | succ fuel ih =>
    rw [fits.siftDown_succ small inside]
    by_cases go : 2 * k + 1 < n
    · rw [if_pos go]
      have child := childAt_lt (A := A) (m := m) go
      by_cases settled : A.compareAt m k (A.childAt m n k) ≥ 0
      · rw [if_pos settled]
        exact ⟨m, rfl, .refl A m⟩
      · rw [if_neg settled]
        obtain ⟨m', eq, rearranged⟩ := ih (m := A.swapAt m k (A.childAt m n k))
          (k := A.childAt m n k) (by omega) (by omega) (by omega)
        exact ⟨m', eq, (fits.swapAt_rearranged inside (by omega) (by omega)).trans rearranged⟩
    · rw [if_neg go]
      exact ⟨m, rfl, .refl A m⟩

theorem Fits.heapify_succ (fits : A.Fits) (le : k + 1 ≤ A.num) :
    A.heapify (A.offset A.num) m (A.offset (k + 1) - A.size) (fuel + 1) =
      (A.siftDown (A.offset A.num) m (A.offset k) (A.num + 1)).bind fun m =>
        A.heapify (A.offset A.num) m (A.offset k - A.size) fuel := by
  have here : A.offset (k + 1) - A.size = A.offset k := by
    rw [offset_succ]
    omega
  rw [heapify, here, if_pos (A.offset_nonneg k), fits.signed_back (by omega)]

theorem Fits.heapify_zero (fits : A.Fits) :
    A.heapify (A.offset A.num) m (A.offset 0 - A.size) (fuel + 1) = some m := by
  have positive := fits.positive
  rw [heapify, offset_zero, if_neg (by omega)]

theorem Fits.heapify_rearranges (fits : A.Fits) (le : k ≤ A.num) (enough : k < fuel) :
    ∃ m', A.heapify (A.offset A.num) m (A.offset k - A.size) fuel = some m' ∧
      A.Rearranged m m' := by
  induction k generalizing m fuel with
  | zero =>
    obtain ⟨fuel, rfl⟩ := Nat.exists_eq_succ_of_ne_zero (Nat.ne_of_gt enough)
    exact ⟨m, fits.heapify_zero, .refl A m⟩
  | succ k ih =>
    obtain ⟨fuel, rfl⟩ := Nat.exists_eq_succ_of_ne_zero (Nat.ne_zero_of_lt enough)
    obtain ⟨m₁, sifted, first⟩ := fits.siftDown_rearranges (m := m) (n := A.num) (k := k) le_rfl
      (by omega) (show A.num < k + (A.num + 1) by omega) (by omega)
    obtain ⟨m₂, rest, second⟩ := ih (m := m₁) (by omega) (show k < fuel by omega)
    refine ⟨m₂, ?_, first.trans second⟩
    rw [fits.heapify_succ le, sifted, Option.bind_some, rest]

/-- One round of the second phase, with the places `k + 1, …, 1` left. -/
theorem Fits.sortHeap_succ (fits : A.Fits) (inside : k + 1 < A.num) :
    A.sortHeap m (A.offset (k + 1)) (fuel + 1) =
      (A.siftDown (A.offset (k + 1)) (A.swapAt m 0 (k + 1)) (A.offset 0) (A.num + 1)).bind fun m =>
        A.sortHeap m (A.offset k) fuel := by
  have positive : A.offset (k + 1) > 0 := by
    rw [← A.offset_zero]
    exact fits.offset_lt_iff.mpr (by omega)
  have back : A.offset (k + 1) - A.size = A.offset k := by
    rw [offset_succ]
    omega
  have swaps := fits.exchange_offset (m := m) (show 0 < A.num by omega) inside
  rw [offset_zero] at swaps
  rw [sortHeap, if_pos positive, swaps, Option.bind_some, fits.signed_back (by omega), back,
    offset_zero]

theorem sortHeap_zero (A : SortArray) (m : Bytes) : A.sortHeap m (A.offset 0) (fuel + 1) = some m := by
  rw [sortHeap, offset_zero, if_neg (by omega)]

theorem Fits.sortHeap_rearranges (fits : A.Fits) (inside : k < A.num) (enough : k < fuel) :
    ∃ m', A.sortHeap m (A.offset k) fuel = some m' ∧ A.Rearranged m m' := by
  induction k generalizing m fuel with
  | zero =>
    obtain ⟨fuel, rfl⟩ := Nat.exists_eq_succ_of_ne_zero (Nat.ne_of_gt enough)
    exact ⟨m, A.sortHeap_zero m, .refl A m⟩
  | succ k ih =>
    obtain ⟨fuel, rfl⟩ := Nat.exists_eq_succ_of_ne_zero (Nat.ne_zero_of_lt enough)
    have swaps := fits.swapAt_rearranged (m := m) (show 0 < A.num by omega) inside (by omega)
    obtain ⟨m₁, sifted, first⟩ := fits.siftDown_rearranges (m := A.swapAt m 0 (k + 1)) (n := k + 1)
      (k := 0) (by omega) (by omega) (show k + 1 < 0 + (A.num + 1) by omega) (by omega)
    obtain ⟨m₂, rest, second⟩ := ih (m := m₁) (by omega) (show k < fuel by omega)
    refine ⟨m₂, ?_, (swaps.trans first).trans second⟩
    rw [fits.sortHeap_succ inside, sifted, Option.bind_some, rest]

theorem Fits.sort_eq (fits : A.Fits) :
    A.sort m = (A.heapify (A.offset A.num) m (A.offset (A.num / 2) - A.size) (A.num + 1)).bind
      fun m => A.sortHeap m (A.offset A.num - A.size) (A.num + 1) := by
  have half : (((A.num / 2 : Nat) : Int) - 1) * A.size = A.offset (A.num / 2) - A.size := by
    rw [offset]
    push_cast
    ring
  have whole : (A.num * A.size : Int) = A.offset A.num := by
    rw [offset]
    push_cast
    rfl
  rw [sort, half, whole, fits.signed_back (by omega), fits.signed_offset (by omega),
    fits.signed_back le_rfl]

theorem Fits.sortHeap_empty (fits : A.Fits) :
    A.sortHeap m (A.offset 0 - A.size) (fuel + 1) = some m := by
  have positive := fits.positive
  rw [sortHeap, offset_zero, if_neg (by omega)]

theorem Fits.sort_rearranges (fits : A.Fits) (m : Bytes) :
    ∃ m', A.sort m = some m' ∧ A.Rearranged m m' := by
  obtain ⟨m₁, heaped, first⟩ := fits.heapify_rearranges (m := m) (k := A.num / 2) (by omega)
    (show A.num / 2 < A.num + 1 by omega)
  rw [fits.sort_eq, heaped, Option.bind_some]
  cases number : A.num with
  | zero => exact ⟨m₁, by rw [fits.sortHeap_empty], first⟩
  | succ k =>
    have back : A.offset (k + 1) - A.size = A.offset k := by
      rw [offset_succ]
      omega
    rw [back]
    obtain ⟨m₂, sorted, second⟩ := fits.sortHeap_rearranges (m := m₁) (k := k) (by omega)
      (show k < k + 1 + 1 by omega)
    exact ⟨m₂, sorted, first.trans second⟩

/-! With a comparison that only looks at the bytes of the two elements, the loops on
the memory are the loops of `Range.Sort` on the list of the elements. -/

/-- The sign of the comparison of two elements is that of `cmp` on their bytes. -/
def LooksAt (A : SortArray) (cmp : List (BitVec 8) → List (BitVec 8) → Int) : Prop :=
  ∀ m, ∀ i < A.num, ∀ j < A.num, A.compareAt m i j < 0 ↔ cmp (A.element m i) (A.element m j) < 0

variable {cmp : List (BitVec 8) → List (BitVec 8) → Int}

theorem LooksAt.child_elements (looks : A.LooksAt cmp) (small : n ≤ A.num) :
    child cmp (A.elements m) n (k * 2 + 1) = some (A.childAt m n k) := by
  have double : k * 2 + 1 = 2 * k + 1 := by omega
  rw [child, childAt, double]
  by_cases two : 2 * k + 1 + 1 < n
  · rw [if_pos two, elements_getElem? (by omega), elements_getElem? (by omega)]
    dsimp only
    rw [if_congr (looks m (2 * k + 1) (by omega) (2 * k + 2) (by omega)).symm rfl rfl]
    congr 1
    exact if_congr (and_iff_right two).symm rfl rfl
  · rw [if_neg two, if_neg fun both => two both.1]

theorem Fits.siftDown_elements (fits : A.Fits) (looks : A.LooksAt cmp) (small : n ≤ A.num)
    (inside : k < A.num) :
    (A.siftDown (A.offset n) m (A.offset k) fuel).map A.elements =
      Range.siftDown cmp n (A.elements m) k fuel := by
  induction fuel generalizing m k with
  | zero => rfl
  | succ fuel ih =>
    rw [fits.siftDown_succ small inside, Range.siftDown, show k * 2 + 1 = 2 * k + 1 by omega]
    by_cases go : 2 * k + 1 < n
    · have child := childAt_lt (A := A) (m := m) go
      have found := looks.child_elements (m := m) (k := k) small
      rw [show k * 2 + 1 = 2 * k + 1 by omega] at found
      rw [if_pos go, if_pos go, found]
      dsimp only
      rw [elements_getElem? inside, elements_getElem? (by omega)]
      dsimp only
      have sign := looks m k inside (A.childAt m n k) (by omega)
      by_cases settled : A.compareAt m k (A.childAt m n k) ≥ 0
      · rw [if_pos settled, if_pos (by omega)]
        rfl
      · rw [if_neg settled, if_neg (by omega), fits.swap_elements inside (by omega) (by omega),
          Option.bind_some]
        exact ih (by omega)
    · rw [if_neg go, if_neg go]
      rfl

theorem Fits.heapify_elements (fits : A.Fits) (looks : A.LooksAt cmp) (le : k ≤ A.num)
    (enough : k < fuel) :
    (A.heapify (A.offset A.num) m (A.offset k - A.size) fuel).map A.elements =
      Range.heapify cmp (A.elements m) k := by
  induction k generalizing m fuel with
  | zero =>
    obtain ⟨fuel, rfl⟩ := Nat.exists_eq_succ_of_ne_zero (Nat.ne_of_gt enough)
    rw [fits.heapify_zero]
    rfl
  | succ k ih =>
    obtain ⟨fuel, rfl⟩ := Nat.exists_eq_succ_of_ne_zero (Nat.ne_zero_of_lt enough)
    have sifts : (A.siftDown (A.offset A.num) m (A.offset k) (A.num + 1)).map A.elements =
        Range.siftDown cmp A.num (A.elements m) k (A.num + 1) :=
      fits.siftDown_elements looks le_rfl (by omega)
    rw [fits.heapify_succ le, Range.heapify, elements_length, ← sifts]
    cases A.siftDown (A.offset A.num) m (A.offset k) (A.num + 1) with
    | none => rfl
    | some m₁ => exact ih (by omega) (by omega)

theorem Fits.sortHeap_elements (fits : A.Fits) (looks : A.LooksAt cmp) (inside : k < A.num)
    (enough : k < fuel) :
    (A.sortHeap m (A.offset k) fuel).map A.elements = Range.sortHeap cmp (A.elements m) k := by
  induction k generalizing m fuel with
  | zero =>
    obtain ⟨fuel, rfl⟩ := Nat.exists_eq_succ_of_ne_zero (Nat.ne_of_gt enough)
    rw [A.sortHeap_zero]
    rfl
  | succ k ih =>
    obtain ⟨fuel, rfl⟩ := Nat.exists_eq_succ_of_ne_zero (Nat.ne_zero_of_lt enough)
    have sifts : (A.siftDown (A.offset (k + 1)) (A.swapAt m 0 (k + 1)) (A.offset 0)
        (A.num + 1)).map A.elements =
        Range.siftDown cmp (k + 1) (A.elements (A.swapAt m 0 (k + 1))) 0 (A.num + 1) :=
      fits.siftDown_elements looks (by omega) (by omega)
    rw [fits.sortHeap_succ inside, Range.sortHeap, fits.swap_elements (by omega) inside (by omega),
      Option.bind_some, elements_length, ← sifts]
    cases A.siftDown (A.offset (k + 1)) (A.swapAt m 0 (k + 1)) (A.offset 0) (A.num + 1) with
    | none => rfl
    | some m₁ => exact ih (by omega) (by omega)

theorem Fits.sort_elements (fits : A.Fits) (looks : A.LooksAt cmp) (m : Bytes) :
    (A.sort m).map A.elements = Range.sort cmp (A.elements m) := by
  have heaps := fits.heapify_elements (m := m) looks (k := A.num / 2) (by omega)
    (show A.num / 2 < A.num + 1 by omega)
  rw [fits.sort_eq, Range.sort, elements_length, ← heaps]
  cases A.heapify (A.offset A.num) m (A.offset (A.num / 2) - A.size) (A.num + 1) with
  | none => rfl
  | some m₁ =>
    dsimp only [Option.map_some, Option.bind_some]
    rw [elements_length]
    cases number : A.num with
    | zero =>
      rw [fits.sortHeap_empty]
      rfl
    | succ k =>
      have back : A.offset (k + 1) - A.size = A.offset k := by
        rw [offset_succ]
        omega
      rw [back]
      exact fits.sortHeap_elements looks (by omega) (by omega)

/-- On the elements of the size the comparison is the sign of the total preorder `le`. -/
structure Orders (A : SortArray) (le : List (BitVec 8) → List (BitVec 8) → Prop) : Prop where
  total : ∀ x y, x.length = A.size → y.length = A.size → le x y ∨ le y x
  trans : ∀ x y z, x.length = A.size → y.length = A.size → z.length = A.size → le x y → le y z →
    le x z
  sign : ∀ m, ∀ i < A.num, ∀ j < A.num,
    A.compareAt m i j < 0 ↔ ¬ le (A.element m j) (A.element m i)

/-- `sort` ends, with every access to an element of the array; it permutes the
elements and touches nothing else, and an order of the elements is the order they
come out in. -/
theorem sort_heapsort (fits : A.Fits) (m : Bytes) :
    ∃ m', A.sort m = some m' ∧ (A.elements m').Perm (A.elements m) ∧
      (∀ x, ¬ A.Holds x → m' x = m x) ∧
      ∀ le, A.Orders le → (A.elements m').Pairwise le := by
  obtain ⟨m', sorts, rearranged⟩ := fits.sort_rearranges m
  refine ⟨m', sorts, rearranged.perm, rearranged.others, ?_⟩
  intro le orders
  classical
  have sign : ∀ x y, (if le y x then (0 : Int) else -1) < 0 ↔ ¬ le y x := by
    intro x y
    by_cases below : le y x
    · simp [below]
    · simp [below]
  have looks : A.LooksAt fun x y => if le y x then 0 else -1 :=
    fun m i hi j hj => (orders.sign m i hi j hj).trans (sign _ _).symm
  have compares : ComparesOn (fun x => x.length = A.size) (fun x y => if le y x then (0 : Int) else -1)
      le := ⟨orders.total, orders.trans, fun x y _ _ => sign x y⟩
  have members : ∀ x ∈ A.elements m, x.length = A.size := by
    intro x member
    obtain ⟨k, -, rfl⟩ := List.mem_map.mp member
    simp [element]
  obtain ⟨sorted, eq, -, ascending⟩ := sort_sorted_on compares (A.elements m) members
  have same := fits.sort_elements looks m
  rw [sorts, eq, Option.map_some, Option.some.injEq] at same
  rw [same]
  exact ascending

/-- Three bytes, compared as numbers. -/
def threeBytes : SortArray := ⟨0x1000, 3, 1, fun m a b => ((m a).toNat : Int) - (m b).toNat⟩

theorem sort_heapsort_threeBytes :
    ∃ m', threeBytes.sort (fun x => BitVec.ofNat 8 (5 * x)) = some m' ∧
      (threeBytes.elements m').Pairwise fun x y => (x.headD 0).toNat ≤ (y.headD 0).toNat := by
  have fits : threeBytes.Fits := ⟨by decide, by decide, by decide⟩
  obtain ⟨m', sorts, -, -, sorted⟩ := sort_heapsort fits fun x => BitVec.ofNat 8 (5 * x)
  refine ⟨m', sorts, sorted _ ⟨?_, ?_, ?_⟩⟩
  · exact fun x y _ _ => Nat.le_total _ _
  · exact fun x y z _ _ _ => Nat.le_trans
  · intro m i _ j _
    simp [compareAt, threeBytes, element]

end SortArray

end XcKernel.Range
