import XcKernel.PageAlloc.Pcp
import XcKernel.Slub.Kmalloc
import XcKernel.Slub.Owned

/-!
# The geometry of a slab

`calculate_sizes` lays out an object, picks the order of the slabs of a cache and
packs order and number of objects in one word.  The words are those of the
machine: `int` and `unsigned long` are 32 bits, and a signed word is compared as
an unsigned one where the other side is unsigned.  `none` is a loop that goes
round for ever.
-/

namespace XcKernel.Slub

open PageAlloc (maxOrder gfpComp)

/-- `struct kmem_cache`, as far as `calculate_sizes` goes -/
structure KmemCache where
  flags : BitVec 32
  size : BitVec 32
  objsize : BitVec 32
  offset : BitVec 32
  oo : BitVec 32
  max : BitVec 32
  min : BitVec 32
  allocflags : BitVec 32
  ctor : BitVec 32
  inuse : BitVec 32
  align : BitVec 32
  reserved : BitVec 32
  deriving DecidableEq, Repr

def slabPoison : BitVec 32 := 0x00000800

def slabHwcacheAlign : BitVec 32 := 0x00002000

def slabCacheDma : BitVec 32 := 0x00004000

def slabReclaimAccount : BitVec 32 := 0x00020000

def slabDestroyByRcu : BitVec 32 := 0x00080000

/-- `__GFP_RECLAIMABLE` -/
def gfpReclaimable : BitVec 32 := 0x80000

def cacheLineSize : BitVec 32 := 32

def archSlabMinalign : BitVec 32 := 8

def ooShift : Nat := 16

def ooMask : BitVec 32 := (1 : BitVec 32) <<< ooShift - 1

def maxObjsPerPage : BitVec 32 := 0x7fff

def slubMinOrder : Nat := 0

/-- `slub_max_order`, which is `PAGE_ALLOC_COSTLY_ORDER` -/
def slubMaxOrder : Nat := 3

def slubMinObjects : Int := 0

def nrCpuIds : BitVec 32 := 1

/-- `-ENOSYS` -/
def enosys : Int := -38

def align (x a : BitVec 32) : BitVec 32 := (x + (a - 1)) &&& ~~~(a - 1)

def ooOrder (x : BitVec 32) : BitVec 32 := x >>> ooShift

def ooObjects (x : BitVec 32) : BitVec 32 := x &&& ooMask

/-- `PAGE_SIZE << order` -/
def slabSize (order : Nat) : BitVec 32 := (4096 : BitVec 32) <<< order

def orderObjects (order : Nat) (size reserved : BitVec 32) : BitVec 32 :=
  (slabSize order - reserved) / size

def ooMake (order : Nat) (size reserved : BitVec 32) : BitVec 32 :=
  BitVec.ofNat 32 order <<< ooShift + orderObjects order size reserved

/-- The loop of `calculate_alignment`.  It makes no progress from 0. -/
def halveLoop (size ralign : BitVec 32) : Option (BitVec 32) :=
  if size ≤ ralign >>> 1 then
    if ralign = 0 then none else halveLoop size (ralign >>> 1)
  else some ralign
termination_by ralign.toNat
decreasing_by
  rename_i _ nonzero
  have : ralign.toNat ≠ 0 := fun zero => nonzero (BitVec.eq_of_toNat_eq zero)
  rw [BitVec.toNat_ushiftRight, Nat.shiftRight_one]
  omega

def calculateAlignment (flags align' size : BitVec 32) : Option (BitVec 32) :=
  let start := if flags &&& slabHwcacheAlign ≠ 0 then
      (halveLoop size cacheLineSize).map fun ralign => if align' > ralign then align' else ralign
    else some align'
  start.map fun a => align (if a < archSlabMinalign then archSlabMinalign else a) 4

/-- The loop of `slab_order`, with `rest` orders up to `max_order` left -/
def slabOrderLoop (size minObjects fractLeftover reserved : BitVec 32) (order : Nat) :
    (rest : Nat) → Nat
  | 0 => order
  | rest + 1 =>
    if slabSize order < minObjects * size + reserved then
      slabOrderLoop size minObjects fractLeftover reserved (order + 1) rest
    else if (slabSize order - reserved) % size ≤ slabSize order / fractLeftover then order
    else slabOrderLoop size minObjects fractLeftover reserved (order + 1) rest

def slabOrder (size minObjects : BitVec 32) (maxOrder : Nat) (fractLeftover reserved : BitVec 32) :
    Int :=
  if (orderObjects slubMinOrder size reserved).toInt > maxObjsPerPage.toInt then
    getOrder (size * maxObjsPerPage) - 1
  else
    let order := max slubMinOrder (fls (minObjects * size - 1) - 12)
    slabOrderLoop size minObjects fractLeftover reserved order (maxOrder + 1 - order)

/-- The inner loop of `calculate_order` -/
def fractionLoop (size minObjects reserved : BitVec 32) (fraction : Nat) : Option Int :=
  if fraction ≥ 4 then
    let order := slabOrder size minObjects slubMaxOrder (BitVec.ofNat 32 fraction) reserved
    if order ≤ slubMaxOrder then some order
    else fractionLoop size minObjects reserved (fraction >>> 1)
  else none
termination_by fraction
decreasing_by
  rw [Nat.shiftRight_one]
  omega

/-- The outer loop of `calculate_order` -/
def objectsLoop (size reserved : BitVec 32) : (minObjects : Nat) → Option Int
  | 0 => none
  | minObjects + 1 =>
    if minObjects + 1 > 1 then
      match fractionLoop size (BitVec.ofNat 32 (minObjects + 1)) reserved 16 with
      | some order => some order
      | none => objectsLoop size reserved minObjects
    else none

def calculateOrder (size reserved : BitVec 32) : Int :=
  let minObjects := if slubMinObjects = 0 then 4 * ((fls nrCpuIds : Int) + 1) else slubMinObjects
  let minObjects := min minObjects (orderObjects slubMaxOrder size reserved).toInt
  match objectsLoop size reserved minObjects.toNat with
  | some order => order
  | none =>
    let order := slabOrder size 1 slubMaxOrder 1 reserved
    if order ≤ slubMaxOrder then order
    else
      let order := slabOrder size 1 maxOrder 1 reserved
      if order < maxOrder then order else enosys

/-- The end of `calculate_sizes`, once the order is known. -/
def setOrder (s : KmemCache) (order : Nat) : Nat × KmemCache :=
  let allocflags := if order ≠ 0 then gfpComp else 0
  let allocflags := if s.flags &&& slabCacheDma ≠ 0 then allocflags ||| slubDma else allocflags
  let allocflags :=
    if s.flags &&& slabReclaimAccount ≠ 0 then allocflags ||| gfpReclaimable else allocflags
  let oo := ooMake order s.size s.reserved
  let max := if (ooObjects oo).toInt > (ooObjects s.max).toInt then oo else s.max
  (if ooObjects oo ≠ 0 then 1 else 0,
    { s with allocflags, oo, min := ooMake (getOrder s.size).toNat s.size s.reserved, max })

/-- Whether the free pointer goes behind the object. -/
def keepsObject (s : KmemCache) : Bool :=
  s.flags &&& (slabDestroyByRcu ||| slabPoison) ≠ 0 ∨ s.ctor ≠ 0

def calculateSizes (s : KmemCache) (forcedOrder : Int) : Option (Nat × KmemCache) :=
  let size := align s.objsize 4
  let s := { s with inuse := size }
  let r := if keepsObject s then ({ s with offset := size }, size + 4) else (s, size)
  (calculateAlignment s.flags s.align s.objsize).map fun align' =>
    let s := { r.1 with align := align', size := align r.2 align' }
    let order := if forcedOrder ≥ 0 then forcedOrder else calculateOrder s.size s.reserved
    if order < 0 then (0, s) else setOrder s order.toNat

/-- The descriptor that `kmem_cache_open` passes on. -/
def openedCache (objsize align flags ctor : BitVec 32) : KmemCache where
  flags := flags
  size := 0
  objsize := objsize
  offset := 0
  oo := 0
  max := 0
  min := 0
  allocflags := 0
  ctor := ctor
  inuse := 0
  align := align
  reserved := 0

variable {size minObjects : BitVec 32} {order : Nat}

theorem align_toNat {x a : BitVec 32} {k : Nat} (power : a.toNat = 2 ^ k) (hk : k < 32)
    (room : x.toNat + (2 ^ k - 1) < 2 ^ 32) :
    (align x a).toNat = (x.toNat + (2 ^ k - 1)) / 2 ^ k * 2 ^ k := by
  have one : 1 ≤ 2 ^ k := Nat.one_le_two_pow
  have nonzero : a ≠ 0 := by
    rintro rfl
    rw [← power] at one
    exact absurd one (by decide)
  have low : (a - 1).toNat = 2 ^ k - 1 := by
    rw [toNat_sub_one nonzero, power]
  have mask : (~~~(a - 1)).toNat = 2 ^ 32 - 1 - Word.wrapSub 32 (2 ^ k) 1 := by
    rw [BitVec.toNat_not, low, Word.wrapSub_of_le one (Nat.pow_lt_pow_right (by omega) hk)]
  rw [align, BitVec.toNat_and, mask, BitVec.toNat_add, low, Nat.mod_eq_of_lt room]
  exact Word.alignDown_two_pow hk room

theorem align_bounds {x a : BitVec 32} {k : Nat} (power : a.toNat = 2 ^ k) (hk : k < 32)
    (room : x.toNat + (2 ^ k - 1) < 2 ^ 32) :
    x.toNat ≤ (align x a).toNat ∧ (align x a).toNat ≤ x.toNat + (2 ^ k - 1) ∧
      a.toNat ∣ (align x a).toNat := by
  have positive : 0 < 2 ^ k := Nat.two_pow_pos k
  have split := Nat.div_add_mod (x.toNat + (2 ^ k - 1)) (2 ^ k)
  have rest := Nat.mod_lt (x.toNat + (2 ^ k - 1)) positive
  rw [Nat.mul_comm] at split
  rw [align_toNat power hk room]
  refine ⟨by omega, by omega, ?_⟩
  rw [power]
  exact Nat.dvd_mul_left _ _

theorem halveLoop_some (nonzero : size ≠ 0) {ralign : BitVec 32} {k : Nat}
    (power : ralign.toNat = 2 ^ k) :
    ∃ r j, halveLoop size ralign = some r ∧ r.toNat = 2 ^ j ∧ j ≤ k := by
  induction k generalizing ralign with
  | zero =>
    have stop : ¬ size ≤ ralign >>> 1 := by
      intro le
      apply nonzero
      apply BitVec.eq_of_toNat_eq
      rw [BitVec.le_def, BitVec.toNat_ushiftRight, power] at le
      exact Nat.le_zero.mp le
    rw [halveLoop, if_neg stop]
    exact ⟨ralign, 0, rfl, power, le_rfl⟩
  | succ k ih =>
    have half : (ralign >>> 1).toNat = 2 ^ k := by
      rw [BitVec.toNat_ushiftRight, power, Nat.shiftRight_one, Nat.pow_succ, Nat.mul_div_cancel]
      decide
    have live : ralign ≠ 0 := by
      rintro rfl
      exact absurd power.symm (Nat.two_pow_pos (k + 1)).ne'
    rw [halveLoop]
    by_cases more : size ≤ ralign >>> 1
    · rw [if_pos more, if_neg live]
      obtain ⟨r, j, returns, value, le⟩ := ih half
      exact ⟨r, j, returns, value, le.trans (Nat.le_succ k)⟩
    · rw [if_neg more]
      exact ⟨ralign, k + 1, rfl, power, le_rfl⟩

/-- Zero, or a power of two up to the page size. -/
def AlignOk (a : BitVec 32) : Prop := a = 0 ∨ ∃ k, a.toNat = 2 ^ k ∧ 2 ^ k ≤ pageSize

theorem calculateAlignment_some (nonzero : size ≠ 0) {a : BitVec 32} (ok : AlignOk a)
    (flags : BitVec 32) :
    ∃ r j, calculateAlignment flags a size = some r ∧ r.toNat = 2 ^ j ∧ 3 ≤ j ∧ j ≤ 12 := by
  have small : ∀ {k : Nat}, 2 ^ k ≤ pageSize → k ≤ 12 := fun h =>
    (Nat.pow_le_pow_iff_right (by decide : 1 < 2)).mp (h : _ ≤ 2 ^ 12)
  obtain ⟨line, j, returns, value, le⟩ := halveLoop_some nonzero (show cacheLineSize.toNat = 2 ^ 5 by decide)
  have narrow : AlignOk line :=
    .inr ⟨j, value, (Nat.pow_le_pow_right (by decide) le).trans (by decide)⟩
  obtain ⟨b, start, okb⟩ : ∃ b, (if flags &&& slabHwcacheAlign ≠ 0 then
      (halveLoop size cacheLineSize).map fun ralign => if a > ralign then a else ralign
      else some a) = some b ∧ AlignOk b := by
    split
    · refine ⟨if a > line then a else line, by rw [returns]; rfl, ?_⟩
      split
      · exact ok
      · exact narrow
    · exact ⟨a, rfl, ok⟩
  -- at least `ARCH_SLAB_MINALIGN`, so that the last rounding changes nothing
  obtain ⟨j, power, low, high⟩ : ∃ j,
      (if b < archSlabMinalign then archSlabMinalign else b).toNat = 2 ^ j ∧ 3 ≤ j ∧ j ≤ 12 := by
    split
    · exact ⟨3, by decide, le_rfl, by decide⟩
    · rename_i large
      rw [BitVec.lt_def] at large
      rcases okb with rfl | ⟨k, value, le⟩
      · exact absurd (by decide : (0 : BitVec 32).toNat < archSlabMinalign.toNat) large
      · refine ⟨k, value, ?_, small le⟩
        rw [value] at large
        exact (Nat.pow_le_pow_iff_right (by decide : 1 < 2)).mp (Nat.not_lt.mp large)
  have top : 2 ^ j ≤ 2 ^ 12 := Nat.pow_le_pow_right (by decide) high
  refine ⟨align (if b < archSlabMinalign then archSlabMinalign else b) 4, j, ?_, ?_, low, high⟩
  · unfold calculateAlignment
    dsimp only
    rw [start]
    rfl
  · rw [align_toNat (show (4 : BitVec 32).toNat = 2 ^ 2 by decide) (by decide) (by omega), power]
    obtain ⟨i, rfl⟩ := Nat.exists_eq_add_of_le low
    rw [Nat.pow_add]
    omega

theorem slabSize_toNat (small : order < 20) : (slabSize order).toNat = pageSize * 2 ^ order := by
  have bound : pageSize * 2 ^ order < 2 ^ 32 := by
    have : 2 ^ order ≤ 2 ^ 19 := Nat.pow_le_pow_right (by decide) (by omega)
    rw [pageSize]
    omega
  rw [slabSize, BitVec.toNat_shiftLeft, Nat.shiftLeft_eq]
  exact Nat.mod_eq_of_lt bound

/-- The size of an object is not so small that a page holds too many, and no
negative `int`. -/
structure SizeOk (size : BitVec 32) : Prop where
  low : 8 ≤ size.toNat
  high : size.toNat < 2 ^ 31

theorem size_ne_zero (ok : 8 ≤ size.toNat) : size ≠ 0 := by
  rintro rfl
  exact absurd ok (by decide)

theorem orderObjects_toNat (small : order < 20) :
    (orderObjects order size 0).toNat = pageSize * 2 ^ order / size.toNat := by
  rw [orderObjects, BitVec.toNat_udiv, BitVec.ofNat_eq_ofNat, BitVec.sub_zero, slabSize_toNat small]

/-- The pages of the order hold the object, and half of them do not. -/
structure LeastOrder (size : BitVec 32) (order : Nat) : Prop where
  holds : size.toNat ≤ pageSize * 2 ^ order
  least : order = 0 ∨ pageSize * 2 ^ order < 2 * size.toNat

theorem leastOrder_fls (ok : 8 ≤ size.toNat) : LeastOrder size (fls (size - 1) - 12) := by
  have low := ok
  have between : 2 ^ (size.toNat - 1).log2 ≤ size.toNat - 1 := Nat.log2_self_le (by omega)
  have below : size.toNat - 1 < 2 ^ ((size.toNat - 1).log2 + 1) := Nat.lt_log2_self
  have nonzero : size - 1 ≠ 0 := by
    intro zero
    have := congrArg BitVec.toNat zero
    rw [toNat_sub_one (size_ne_zero ok)] at this
    exact absurd this (by simp; omega)
  rw [fls, if_neg nonzero, toNat_sub_one (size_ne_zero ok)]
  generalize (size.toNat - 1).log2 = k at between below
  by_cases page : k + 1 ≤ 12
  · rw [Nat.sub_eq_zero_of_le page]
    refine ⟨?_, .inl rfl⟩
    have : 2 ^ (k + 1) ≤ 2 ^ 12 := Nat.pow_le_pow_right (by decide) page
    rw [pageSize]
    omega
  · obtain ⟨j, rfl⟩ : ∃ j, k = j + 12 := ⟨k - 12, by omega⟩
    have order : j + 12 + 1 - 12 = j + 1 := by omega
    have scale : 2 ^ (j + 12) = pageSize * 2 ^ j := by
      rw [Nat.pow_add, Nat.mul_comm]
      rfl
    rw [Nat.pow_succ, scale] at below
    rw [scale] at between
    rw [order]
    refine ⟨?_, .inr ?_⟩
    · rw [Nat.pow_succ, ← Nat.mul_assoc]
      omega
    · rw [Nat.pow_succ, ← Nat.mul_assoc]
      omega

theorem getOrder_least (ok : 8 ≤ size.toNat) : ∃ order : Nat, getOrder size = order ∧ LeastOrder size order := by
  have low := ok
  have holds := le_getOrder (size_ne_zero ok)
  have value : getOrder size = ((size.toNat - 1) / 2 ^ 11).log2 := by
    rw [getOrder, getOrderLoop_eq, toNat_sub_one (size_ne_zero ok), Nat.shiftRight_eq_div_pow]
    simp
  rw [value, Int.toNat_natCast, Nat.shiftLeft_eq] at holds
  refine ⟨_, value, holds, ?_⟩
  by_cases zero : (size.toNat - 1) / 2 ^ 11 = 0
  · rw [zero]
    exact .inl rfl
  · right
    have between := Nat.log2_self_le zero
    generalize ((size.toNat - 1) / 2 ^ 11).log2 = k at between
    rw [Nat.le_div_iff_mul_le (by decide)] at between
    rw [pageSize]
    omega

theorem LeastOrder.le {o o' : Nat} (least : LeastOrder size o) (holds : size.toNat ≤ pageSize * 2 ^ o') :
    o ≤ o' := by
  rcases least.least with rfl | small
  · exact Nat.zero_le o'
  · have double : pageSize * 2 ^ o < pageSize * 2 ^ (o' + 1) := by
      rw [Nat.pow_succ, ← Nat.mul_assoc]
      omega
    have := (Nat.pow_lt_pow_iff_right (by decide : 1 < 2)).mp (Nat.lt_of_mul_lt_mul_left double)
    omega

theorem slabOrder_eq (ok : 8 ≤ size.toNat) (maxOrder : Nat) (fractLeftover : BitVec 32) :
    slabOrder size minObjects maxOrder fractLeftover 0 =
      (slabOrderLoop size minObjects fractLeftover 0 (fls (minObjects * size - 1) - 12)
        (maxOrder + 1 - (fls (minObjects * size - 1) - 12)) : Nat) := by
  have few : (orderObjects slubMinOrder size 0).toNat ≤ 512 := by
    rw [orderObjects_toNat (by decide), slubMinOrder]
    exact Nat.div_le_of_le_mul (by rw [pageSize]; have := ok; omega)
  have value : (orderObjects slubMinOrder size 0).toInt = (orderObjects slubMinOrder size 0).toNat :=
    BitVec.toInt_eq_toNat_of_lt (by omega)
  have most : maxObjsPerPage.toInt = 32767 := by decide
  unfold slabOrder
  rw [if_neg (by omega)]
  simp only [slubMinOrder, Nat.zero_max]

theorem slabOrderLoop_bounds (fractLeftover : BitVec 32) (order rest : Nat) :
    order ≤ slabOrderLoop size minObjects fractLeftover 0 order rest ∧
      slabOrderLoop size minObjects fractLeftover 0 order rest ≤ order + rest := by
  induction rest generalizing order with
  | zero => exact ⟨le_rfl, le_rfl⟩
  | succ rest ih =>
    have next := ih (order + 1)
    rw [slabOrderLoop]
    split_ifs
    · omega
    · omega
    · omega

theorem slabOrderLoop_holds (fractLeftover : BitVec 32) {order rest : Nat}
    (found : slabOrderLoop size minObjects fractLeftover 0 order rest < order + rest) :
    (minObjects * size).toNat ≤
      (slabSize (slabOrderLoop size minObjects fractLeftover 0 order rest)).toNat := by
  induction rest generalizing order with
  | zero => exact absurd found (lt_irrefl order)
  | succ rest ih =>
    have unreserved : minObjects * size + 0 = minObjects * size := BitVec.add_zero _
    rw [slabOrderLoop, unreserved] at found ⊢
    split_ifs at found ⊢ with short wasteful
    · exact ih (by omega)
    · exact Nat.not_lt.mp short
    · exact ih (by omega)

theorem slabOrderLoop_first {order rest : Nat} (holds : rest = 0 ∨ size.toNat ≤ (slabSize order).toNat) :
    slabOrderLoop size 1 1 0 order rest = order := by
  cases rest with
  | zero => rfl
  | succ rest =>
    have fits : ¬ slabSize order < 1 * size + 0 := by
      have one : 1 * size + 0 = size := by simp
      rw [one]
      exact Nat.not_lt.mpr (holds.resolve_left (Nat.succ_ne_zero rest))
    have waste : (slabSize order - 0) % size ≤ slabSize order / 1 := by
      have all : slabSize order / 1 = slabSize order := BitVec.udiv_one
      have unreserved : slabSize order - 0 = slabSize order := BitVec.sub_zero _
      rw [all, unreserved, BitVec.le_def, BitVec.toNat_umod]
      exact Nat.mod_le _ _
    rw [slabOrderLoop, if_neg fits, if_pos waste]

theorem slabOrder_one (ok : 8 ≤ size.toNat) {maxOrder : Nat} (small : maxOrder < 20) :
    slabOrder size 1 maxOrder 1 0 = (fls (size - 1) - 12 : Nat) := by
  have one : 1 * size = size := BitVec.one_mul _
  rw [slabOrder_eq ok, one]
  have first : slabOrderLoop size 1 1 0 (fls (size - 1) - 12)
      (maxOrder + 1 - (fls (size - 1) - 12)) = fls (size - 1) - 12 := by
    apply slabOrderLoop_first
    by_cases above : maxOrder + 1 ≤ fls (size - 1) - 12
    · exact .inl (Nat.sub_eq_zero_of_le above)
    · right
      rw [slabSize_toNat (by omega)]
      exact (leastOrder_fls ok).holds
  rw [first]

/-- An order that `slab_order` finds within the limit holds the objects. -/
theorem slabOrder_holds (ok : 8 ≤ size.toNat) (room : minObjects.toNat * size.toNat < 2 ^ 32)
    (fractLeftover : BitVec 32)
    (found : slabOrder size minObjects slubMaxOrder fractLeftover 0 ≤ slubMaxOrder) :
    ∃ order : Nat, slabOrder size minObjects slubMaxOrder fractLeftover 0 = order ∧
      order ≤ slubMaxOrder ∧ minObjects.toNat * size.toNat ≤ pageSize * 2 ^ order := by
  have product : (minObjects * size).toNat = minObjects.toNat * size.toNat := by
    rw [BitVec.toNat_mul, Nat.mod_eq_of_lt room]
  rw [slabOrder_eq ok] at found ⊢
  generalize fls (minObjects * size - 1) - 12 = start at found ⊢
  have bounds := @slabOrderLoop_bounds size minObjects fractLeftover start (slubMaxOrder + 1 - start)
  have holds := @slabOrderLoop_holds size minObjects fractLeftover start (slubMaxOrder + 1 - start)
  generalize slabOrderLoop size minObjects fractLeftover 0 start (slubMaxOrder + 1 - start) = order
    at found bounds holds ⊢
  have within : order ≤ slubMaxOrder := by exact_mod_cast found
  refine ⟨order, rfl, within, ?_⟩
  have limit : slubMaxOrder = 3 := rfl
  rw [← product, ← slabSize_toNat (by omega)]
  exact holds (by omega)

theorem fractionLoop_holds (ok : 8 ≤ size.toNat) (room : minObjects.toNat * size.toNat < 2 ^ 32)
    {fraction : Nat} {r : Int} (found : fractionLoop size minObjects 0 fraction = some r) :
    ∃ order : Nat, r = order ∧ order ≤ slubMaxOrder ∧
      minObjects.toNat * size.toNat ≤ pageSize * 2 ^ order := by
  induction fraction using Nat.strong_induction_on with
  | _ fraction ih =>
    rw [fractionLoop] at found
    split at found
    · rename_i large
      dsimp only at found
      split at found
      · rename_i within
        cases found
        exact slabOrder_holds ok room _ within
      · refine ih (fraction >>> 1) ?_ found
        rw [Nat.shiftRight_one]
        omega
    · cases found

theorem objectsLoop_holds (ok : 8 ≤ size.toNat) {n : Nat} (room : n * size.toNat ≤ pageSize * 2 ^ 3)
    {r : Int} (found : objectsLoop size 0 n = some r) :
    ∃ order : Nat, r = order ∧ order ≤ slubMaxOrder ∧ 2 * size.toNat ≤ pageSize * 2 ^ order := by
  induction n with
  | zero => cases found
  | succ n ih =>
    have low := ok
    have page : pageSize * 2 ^ 3 = 32768 := rfl
    have few : (n + 1) * 8 ≤ pageSize * 2 ^ 3 := (Nat.mul_le_mul_left (n + 1) low).trans room
    have value : (BitVec.ofNat 32 (n + 1)).toNat = n + 1 := by
      rw [BitVec.toNat_ofNat, Nat.mod_eq_of_lt (by omega)]
    rw [objectsLoop] at found
    split at found
    · rename_i several
      split at found
      · rename_i order fraction
        cases found
        obtain ⟨order, same, within, holds⟩ := fractionLoop_holds ok (by rw [value]; omega) fraction
        refine ⟨order, same, within, le_trans ?_ holds⟩
        rw [value]
        exact Nat.mul_le_mul_right _ several
      · apply ih _ found
        rw [Nat.succ_mul] at room
        omega
    · cases found

/-- The order of the slabs: one that holds an object and is at most
`slub_max_order` or the least one; there is none for an object of more than the
largest block. -/
theorem calculateOrder_cases (ok : 8 ≤ size.toNat) :
    (∃ order : Nat, calculateOrder size 0 = order ∧ order < maxOrder ∧
      size.toNat ≤ pageSize * 2 ^ order ∧ (order ≤ slubMaxOrder ∨ LeastOrder size order)) ∨
    calculateOrder size 0 = enosys ∧ pageSize * 2 ^ (maxOrder - 1) < size.toNat := by
  have low := ok
  have limits : slubMaxOrder = 3 ∧ maxOrder = 11 := ⟨rfl, rfl⟩
  have objects := @orderObjects_toNat size slubMaxOrder (by decide)
  have few : (orderObjects slubMaxOrder size 0).toNat * size.toNat ≤ pageSize * 2 ^ 3 := by
    rw [objects]
    exact Nat.div_mul_le_self _ _
  have page : pageSize * 2 ^ 3 = 32768 := rfl
  have eight : (orderObjects slubMaxOrder size 0).toNat * 8 ≤ pageSize * 2 ^ 3 :=
    (Nat.mul_le_mul_left _ low).trans few
  have value : (orderObjects slubMaxOrder size 0).toInt = (orderObjects slubMaxOrder size 0).toNat :=
    BitVec.toInt_eq_toNat_of_lt (by omega)
  have least := leastOrder_fls ok
  unfold calculateOrder
  dsimp only
  rw [value, slabOrder_one ok (by decide), slabOrder_one ok (by decide)]
  generalize hn : (min (if slubMinObjects = 0 then 4 * ((fls nrCpuIds : Int) + 1) else slubMinObjects)
    ((orderObjects slubMaxOrder size 0).toNat : Int)).toNat = n
  have room : n * size.toNat ≤ pageSize * 2 ^ 3 := by
    refine le_trans (Nat.mul_le_mul_right _ ?_) few
    omega
  split
  · rename_i r found
    obtain ⟨order, rfl, within, holds⟩ := objectsLoop_holds ok room found
    exact .inl ⟨order, rfl, by omega, by omega, .inl within⟩
  · generalize fls (size - 1) - 12 = order at least ⊢
    split_ifs with within below
    · have within' : order ≤ slubMaxOrder := by exact_mod_cast within
      exact .inl ⟨order, rfl, by omega, least.holds, .inl within'⟩
    · exact .inl ⟨order, rfl, by exact_mod_cast below, least.holds, .inr least⟩
    · right
      refine ⟨rfl, ?_⟩
      by_contra holds
      have := least.le (Nat.not_lt.mp holds)
      omega

/-- The word unpacks to the order and the number of objects of that order, and
these fit in a slab and in the fields of its page. -/
structure Packed (x : BitVec 32) (order : Nat) (size : BitVec 32) : Prop where
  unpacked : (ooOrder x).toNat = order
  objects : ooObjects x = orderObjects order size 0
  order_lt : order < maxOrder
  one_le : 1 ≤ (ooObjects x).toNat
  le_max : (ooObjects x).toNat ≤ maxObjsPerPage.toNat
  fits : (ooObjects x).toNat * size.toNat ≤ pageSize <<< order

theorem unpack_word {high low : BitVec 32} (hh : high.toNat < 2 ^ 16) (hl : low.toNat < 2 ^ 16) :
    (ooOrder (high <<< ooShift + low)).toNat = high.toNat ∧
      ooObjects (high <<< ooShift + low) = low := by
  have word : (high <<< ooShift + low).toNat = high.toNat * 2 ^ 16 + low.toNat := by
    rw [BitVec.toNat_add, BitVec.toNat_shiftLeft, ooShift, Nat.shiftLeft_eq]
    omega
  constructor
  · rw [ooOrder, BitVec.toNat_ushiftRight, word, ooShift, Nat.shiftRight_eq_div_pow]
    omega
  · have mask : ooMask.toNat = 2 ^ 16 - 1 := by decide
    apply BitVec.eq_of_toNat_eq
    rw [ooObjects, BitVec.toNat_and, mask, Nat.and_two_pow_sub_one_eq_mod, word]
    omega

/-- A slab of at most `slub_max_order`, or of the least order, has few enough objects. -/
theorem ooMake_packed (ok : 8 ≤ size.toNat) (small : order < maxOrder)
    (holds : size.toNat ≤ pageSize * 2 ^ order)
    (modest : order ≤ slubMaxOrder ∨ LeastOrder size order) :
    Packed (ooMake order size 0) order size := by
  have limits : slubMaxOrder = 3 ∧ maxOrder = 11 := ⟨rfl, rfl⟩
  have low := ok
  have value := @orderObjects_toNat size order (by omega)
  have few : (orderObjects order size 0).toNat ≤ 4096 := by
    rw [value]
    apply Nat.div_le_of_le_mul
    have bound : pageSize * 2 ^ order ≤ 4096 * 8 ∨ pageSize * 2 ^ order < 2 * size.toNat := by
      rcases modest with within | least
      · left
        exact Nat.mul_le_mul_left pageSize (Nat.pow_le_pow_right (by decide) (by omega : order ≤ 3))
      · rcases least.least with rfl | less
        · exact .inl (by decide)
        · exact .inr less
    omega
  have word : (BitVec.ofNat 32 order).toNat = order := by
    rw [BitVec.toNat_ofNat, Nat.mod_eq_of_lt (by omega)]
  obtain ⟨high, low'⟩ := @unpack_word (BitVec.ofNat 32 order) (orderObjects order size 0)
    (by omega) (by omega)
  have most : maxObjsPerPage.toNat = 32767 := by decide
  refine ⟨by rw [ooMake, high, word], low', small, ?_, ?_, ?_⟩
  · rw [ooMake, low', value]
    exact Nat.div_pos holds (by omega)
  · rw [ooMake, low']
    omega
  · rw [ooMake, low', value, Nat.shiftLeft_eq]
    exact Nat.div_mul_le_self _ _

theorem packed_of_order (ok : 8 ≤ size.toNat) (value : calculateOrder size 0 = order) :
    Packed (ooMake order size 0) order size ∧
      ∃ least : Nat, getOrder size = least ∧ Packed (ooMake least size 0) least size := by
  rcases calculateOrder_cases ok with ⟨order', value', small, holds, modest⟩ | ⟨none, -⟩
  · obtain rfl : order' = order := by exact_mod_cast value'.symm.trans value
    obtain ⟨least, minimum, smallest⟩ := getOrder_least ok
    have below : least < maxOrder := (smallest.le holds).trans_lt small
    exact ⟨ooMake_packed ok small holds modest, least, minimum,
      ooMake_packed ok below smallest.holds (.inr smallest)⟩
  · rw [none, enosys] at value
    omega

/-- What `calculate_sizes` makes of the descriptor `s` when it succeeds. -/
structure Geometry (s s' : KmemCache) : Prop where
  positive : s'.size.toNat < 2 ^ 31
  object : s.objsize.toNat ≤ s'.size.toNat
  aligned : s'.align.toNat ∣ s'.size.toNat
  pointer : s'.offset.toNat + 4 ≤ s'.size.toNat
  behind : s.ctor ≠ 0 ∨ s.flags &&& slabPoison ≠ 0 ∨ s.flags &&& slabDestroyByRcu ≠ 0 →
    s.objsize.toNat ≤ s'.offset.toNat
  oo : ∃ order : Nat, calculateOrder s'.size 0 = order ∧ Packed s'.oo order s'.size
  min : ∃ order : Nat, getOrder s'.size = order ∧ Packed s'.min order s'.size

theorem keepsObject_iff (s : KmemCache) : keepsObject s = true ↔
    s.ctor ≠ 0 ∨ s.flags &&& slabPoison ≠ 0 ∨ s.flags &&& slabDestroyByRcu ≠ 0 := by
  have either : s.flags &&& (slabDestroyByRcu ||| slabPoison) = 0 ↔
      s.flags &&& slabDestroyByRcu = 0 ∧ s.flags &&& slabPoison = 0 := by
    rw [BitVec.and_or_distrib_left]
    exact BitVec.or_eq_zero_iff
  rw [keepsObject, decide_eq_true_eq, ne_eq, either]
  tauto

/-- Where the free pointer goes and how many bytes the object takes, before they
are rounded to the alignment. -/
structure ObjectLayout (s : KmemCache) (offset size : BitVec 32) : Prop where
  object : s.objsize.toNat ≤ size.toNat
  high : size.toNat ≤ s.objsize.toNat + 7
  pointer : offset.toNat + 4 ≤ size.toNat
  behind : keepsObject s = true → s.objsize.toNat ≤ offset.toNat

theorem align_word {s : KmemCache} (low : 1 ≤ s.objsize.toNat) (high : s.objsize.toNat ≤ 2 ^ 30) :
    s.objsize.toNat ≤ (align s.objsize 4).toNat ∧
      (align s.objsize 4).toNat ≤ s.objsize.toNat + 3 ∧ 4 ≤ (align s.objsize 4).toNat := by
  obtain ⟨above, below, dvd⟩ := align_bounds (x := s.objsize)
    (show (4 : BitVec 32).toNat = 2 ^ 2 by decide) (by decide) (by omega)
  refine ⟨above, below, ?_⟩
  exact Nat.le_of_dvd (by omega) dvd

/-- The object is laid out and rounded up. -/
theorem calculateSizes_eq (s : KmemCache) (low : 1 ≤ s.objsize.toNat) (high : s.objsize.toNat ≤ 2 ^ 30)
    (ok : AlignOk s.align) (cleared : s.offset = 0) :
    ∃ offset size align', ObjectLayout s offset size ∧ SizeOk (align size align') ∧
      size.toNat ≤ (align size align').toNat ∧ align'.toNat ∣ (align size align').toNat ∧
      calculateSizes s (-1) = some (
        let s' := { s with inuse := align s.objsize 4, offset, align := align',
                           size := align size align' }
        let order := calculateOrder s'.size s'.reserved
        if order < 0 then (0, s') else setOrder s' order.toNat) := by
  obtain ⟨above, below, four⟩ := align_word low high
  have nonzero : s.objsize ≠ 0 := by
    intro zero
    rw [zero] at low
    exact absurd low (by decide)
  obtain ⟨align', j, returns, power, three, twelve⟩ := calculateAlignment_some nonzero ok s.flags
  have top : 2 ^ j ≤ 2 ^ 12 := Nat.pow_le_pow_right (by decide) twelve
  have bottom : 2 ^ 3 ≤ 2 ^ j := Nat.pow_le_pow_right (by decide) three
  have rounds : ∀ size : BitVec 32, s.objsize.toNat ≤ size.toNat →
      size.toNat ≤ s.objsize.toNat + 7 → SizeOk (align size align') ∧
      size.toNat ≤ (align size align').toNat ∧ align'.toNat ∣ (align size align').toNat := by
    intro size object bound
    obtain ⟨up, next, dvd⟩ := align_bounds (x := size) power (by omega) (by omega)
    have least := Nat.le_of_dvd (by omega) dvd
    exact ⟨⟨by omega, by omega⟩, up, dvd⟩
  have free : ¬ (-1 : Int) ≥ 0 := by decide
  by_cases keeps : keepsObject s = true
  · have sum : (align s.objsize 4 + 4).toNat = (align s.objsize 4).toNat + 4 := by
      rw [BitVec.toNat_add]
      exact Nat.mod_eq_of_lt (show _ + 4 < _ by omega)
    refine ⟨align s.objsize 4, align s.objsize 4 + 4, align', ⟨by omega, by omega, by omega,
      fun _ => above⟩, ?_⟩
    obtain ⟨size, up, dvd⟩ := rounds (align s.objsize 4 + 4) (by omega) (by omega)
    refine ⟨size, up, dvd, ?_⟩
    have keeps' : keepsObject { s with inuse := align s.objsize 4 } = true := keeps
    unfold calculateSizes
    dsimp only
    rw [returns, if_pos keeps', Option.map_some]
    dsimp only
    rw [if_neg free]
  · have none : (0 : BitVec 32).toNat = 0 := rfl
    refine ⟨0, align s.objsize 4, align', ⟨above, by omega, by omega, fun h => absurd h keeps⟩, ?_⟩
    obtain ⟨size, up, dvd⟩ := rounds (align s.objsize 4) above (by omega)
    refine ⟨size, up, dvd, ?_⟩
    have keeps' : ¬ keepsObject { s with inuse := align s.objsize 4 } = true := keeps
    unfold calculateSizes
    dsimp only
    rw [returns, if_neg keeps', Option.map_some, ← cleared]
    dsimp only
    rw [if_neg free]

/-- For every size, alignment, set of flags and constructor the sizes are
calculated, and they are those of slabs that hold objects unless the object is
larger than the largest block. -/
theorem calculate_sizes_geometry {objsize align' : BitVec 32} (flags ctor : BitVec 32)
    (low : 1 ≤ objsize.toNat) (high : objsize.toNat ≤ 2 ^ 30) (ok : AlignOk align') :
    ∃ ret s, calculateSizes (openedCache objsize align' flags ctor) (-1) = some (ret, s) ∧
      (ret ≠ 0 → Geometry (openedCache objsize align' flags ctor) s) ∧
      (ret = 0 ↔ pageSize <<< (maxOrder - 1) < s.size.toNat) := by
  obtain ⟨offset, size, a, layout, sized, up, dvd, returns⟩ :=
    calculateSizes_eq (openedCache objsize align' flags ctor) low high ok rfl
  have largest : pageSize <<< (maxOrder - 1) = pageSize * 2 ^ (maxOrder - 1) := by
    rw [Nat.shiftLeft_eq]
  rw [returns, largest]
  have reserved : (openedCache objsize align' flags ctor).reserved = 0 := rfl
  dsimp only
  rw [reserved]
  rcases calculateOrder_cases sized.low with ⟨order, value, small, holds, modest⟩ | ⟨value, large⟩
  · obtain ⟨packed, least, minimum, minPacked⟩ := packed_of_order sized.low value
    have some' : ooObjects (ooMake order (align size a) 0) ≠ 0 := by
      intro zero
      have one := packed.one_le
      rw [zero] at one
      exact absurd one (by decide)
    have fits : (align size a).toNat ≤ pageSize * 2 ^ (maxOrder - 1) :=
      holds.trans (Nat.mul_le_mul_left _ (Nat.pow_le_pow_right (by decide) (by omega)))
    rw [value, if_neg (by omega), Int.toNat_natCast, setOrder]
    dsimp only
    rw [if_pos some']
    refine ⟨_, _, rfl, fun _ => ⟨sized.high, layout.object.trans up, dvd, layout.pointer.trans up,
      fun h => layout.behind ((keepsObject_iff _).mpr h), ⟨order, value, packed⟩, least, minimum, ?_⟩,
      fun zero => absurd zero one_ne_zero, fun above => absurd fits (Nat.not_le.mpr above)⟩
    dsimp only
    rw [minimum, Int.toNat_natCast]
    exact minPacked
  · rw [value, if_pos (by decide)]
    exact ⟨_, _, rfl, fun nonzero => absurd rfl nonzero, fun _ => large, fun _ => rfl⟩

/-- Objects of 100 bytes that are poisoned and on cache lines of their own. -/
theorem calculate_sizes_geometry_poisoned :
    ∃ ret s, calculateSizes (openedCache 100 64 0x2800 0) (-1) = some (ret, s) ∧ ret = 1 ∧
      s.size = 128 ∧ s.offset = 100 ∧ Geometry (openedCache 100 64 0x2800 0) s := by
  obtain ⟨ret, s, returns, geometry, -⟩ := @calculate_sizes_geometry 100 64 0x2800 0 (by decide)
    (by decide) (.inr ⟨6, by decide, by decide⟩)
  have values : (calculateSizes (openedCache 100 64 0x2800 0) (-1)).map
      (fun r => (r.1, r.2.size, r.2.offset)) = some (1, 128, 100) := by decide +kernel
  rw [returns, Option.map_some, Option.some_inj, Prod.mk.injEq, Prod.mk.injEq] at values
  obtain ⟨one, size, offset⟩ := values
  refine ⟨ret, s, returns, one, size, offset, geometry ?_⟩
  dsimp only at one
  rw [one]
  exact one_ne_zero

/-- The cache as the rest of `mm/slub.c` reads it. -/
def KmemCache.cache (s : KmemCache) (minPartial : Nat) : Cache where
  size := s.size.toNat
  objsize := s.objsize.toNat
  offset := s.offset.toNat
  minPartial := minPartial
  oo := ⟨(ooOrder s.oo).toNat, (ooObjects s.oo).toNat⟩
  min := ⟨(ooOrder s.min).toNat, (ooObjects s.min).toNat⟩
  destroyByRcu := s.flags &&& slabDestroyByRcu ≠ 0

theorem Packed.valid {x : BitVec 32} (packed : Packed x order size) :
    0 < (ooObjects x).toNat ∧ (ooObjects x).toNat < 2 ^ 15 ∧
      (ooObjects x).toNat * size.toNat ≤ pageSize * 2 ^ (ooOrder x).toNat := by
  have most : maxObjsPerPage.toNat = 2 ^ 15 - 1 := by decide
  have le := packed.le_max
  have fits := packed.fits
  rw [Nat.shiftLeft_eq] at fits
  refine ⟨packed.one_le, by omega, ?_⟩
  rw [packed.unpacked]
  exact fits

theorem Geometry.valid {s s' : KmemCache} (geometry : Geometry s s') (minPartial : Nat) :
    (s'.cache minPartial).Valid := by
  obtain ⟨_, -, oo⟩ := geometry.oo
  obtain ⟨_, -, min⟩ := geometry.min
  refine ⟨?_, oo.valid, min.valid⟩
  exact Nat.lt_of_lt_of_le (Nat.lt_add_left _ (by decide : 0 < 4)) geometry.pointer

/-- What the loop of `new_slab` needs of a descriptor. -/
structure Layout (s : KmemCache) : Prop where
  stride : s.size.toNat % 4 = 0
  word : s.offset.toNat % 4 = 0
  oo : ∃ order, Packed s.oo order s.size
  min : ∃ order, Packed s.min order s.size

theorem Packed.size_pos {oo : BitVec 32} (packed : Packed oo order size) : 0 < size.toNat := by
  apply Nat.pos_of_ne_zero
  intro zero
  have none : ooObjects oo = 0 := by
    rw [packed.objects, orderObjects, show size = 0 from BitVec.eq_of_toNat_eq zero]
    exact BitVec.udiv_zero
  have one := packed.one_le
  rw [none] at one
  exact absurd one (by decide)

theorem Layout.valid {s : KmemCache} (layout : Layout s) (minPartial : Nat) : (s.cache minPartial).Valid := by
  obtain ⟨_, oo⟩ := layout.oo
  obtain ⟨_, min⟩ := layout.min
  exact ⟨oo.size_pos, oo.valid, min.valid⟩

theorem align_mod_four (x : BitVec 32) {a : BitVec 32} (four : a.toNat % 4 = 0) :
    (align x a).toNat % 4 = 0 := by
  have mask : (~~~(a - 1)).toNat % 4 = 0 := by
    rw [BitVec.toNat_not]
    by_cases zero : a = 0
    · rw [zero]
      decide
    · have bound := a.isLt
      have positive : a.toNat ≠ 0 := fun h => zero (BitVec.eq_of_toNat_eq h)
      rw [toNat_sub_one zero]
      omega
  rw [align, BitVec.toNat_and]
  have split := @Nat.and_mod_two_pow (x + (a - 1)).toNat (~~~(a - 1)).toNat 2
  rw [show 2 ^ 2 = 4 from rfl, mask, Nat.and_zero] at split
  exact split

theorem calculateAlignment_mod_four {flags a objsize align' : BitVec 32}
    (returns : calculateAlignment flags a objsize = some align') : align'.toNat % 4 = 0 := by
  unfold calculateAlignment at returns
  obtain ⟨b, -, rfl⟩ := Option.map_eq_some_iff.mp returns
  exact align_mod_four _ (by decide)

theorem packed_of_four (value : calculateOrder 4 0 = order) :
    Packed (ooMake order 4 0) order 4 ∧
      ∃ least : Nat, getOrder 4 = least ∧ Packed (ooMake least 4 0) least 4 := by
  have orders : calculateOrder 4 0 = 0 ∧ getOrder 4 = 0 := by decide +kernel
  obtain rfl : order = 0 := by exact_mod_cast value.symm.trans orders.1
  have packed : Packed (ooMake 0 4 0) 0 4 :=
    ⟨by decide, by decide, by decide, by decide, by decide, by decide⟩
  exact ⟨packed, 0, orders.2, packed⟩

theorem setOrder_layout {s : KmemCache} (reserved : s.reserved = 0) (stride : s.size.toNat % 4 = 0)
    (word : s.offset.toNat % 4 = 0) (value : calculateOrder s.size s.reserved = order) :
    Layout (setOrder s order).2 := by
  rw [reserved] at value
  have words : Packed (ooMake order s.size 0) order s.size ∧
      ∃ least : Nat, getOrder s.size = least ∧ Packed (ooMake least s.size 0) least s.size := by
    by_cases zero : s.size.toNat = 0
    · have none : calculateOrder 0 0 = enosys := by decide +kernel
      rw [show s.size = 0 from BitVec.eq_of_toNat_eq zero, none, enosys] at value
      omega
    by_cases one : s.size.toNat = 4
    · have four : s.size = 4 := BitVec.eq_of_toNat_eq one
      rw [four] at value ⊢
      exact packed_of_four value
    · exact packed_of_order (by omega) value
  obtain ⟨packed, least, minimum, minPacked⟩ := words
  refine ⟨stride, word, ⟨order, ?_⟩, least, ?_⟩
  · rw [← reserved] at packed
    exact packed
  · rw [← reserved] at minPacked
    unfold setOrder
    dsimp only
    rw [minimum]
    exact minPacked

/-- Any descriptor that `calculate_sizes` accepts has objects a whole number of words
apart, and slabs that hold them. -/
theorem calculateSizes_layout {objsize align' flags ctor : BitVec 32} {ret : Nat} {s : KmemCache}
    (accepted : calculateSizes (openedCache objsize align' flags ctor) (-1) = some (ret, s))
    (succeeded : ret ≠ 0) : Layout s := by
  unfold calculateSizes at accepted
  obtain ⟨a, aligned, eq⟩ := Option.map_eq_some_iff.mp accepted
  have four := calculateAlignment_mod_four aligned
  have free : ¬ (-1 : Int) ≥ 0 := by decide
  dsimp only at eq
  rw [if_neg free] at eq
  generalize laid : (if keepsObject _ then (_, _) else (_, _) : KmemCache × BitVec 32) = r at eq
  have kept : r.1.offset.toNat % 4 = 0 ∧ r.1.reserved = 0 := by
    rw [← laid]
    split
    · exact ⟨align_mod_four _ (by decide), rfl⟩
    · exact ⟨rfl, rfl⟩
  split at eq
  · cases eq
    exact absurd rfl succeeded
  · rename_i nonneg
    obtain ⟨order, value⟩ := Int.eq_ofNat_of_zero_le (Int.not_lt.mp nonneg)
    rw [value, Int.toNat_natCast] at eq
    have layout := @setOrder_layout order { r.1 with align := a, size := align r.2 a } kept.2
      (align_mod_four _ four) kept.1 value
    have result : (setOrder { r.1 with align := a, size := align r.2 a } order).2 = s :=
      congrArg Prod.snd eq
    rw [result] at layout
    exact layout

end XcKernel.Slub
