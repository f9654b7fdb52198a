import XcKernel.PageAlloc.Basic
import Mathlib.Algebra.Order.BigOperators.Group.Finset
import Mathlib.Algebra.Order.Ring.Int

/-!
# Zone watermarks

`__zone_watermark_ok` compares a signed number of pages with an unsigned bound
before the loop, and signed numbers inside it.  A negative number of pages
therefore passes the first comparison and is caught by the loop, except where
the loop has no round to run.
-/

namespace XcKernel.PageAlloc

open Word

def allocHarder : BitVec 32 := 0x10

def allocHigh : BitVec 32 := 0x20

/-- `zone_page_state`: the `long` counter as an `unsigned long` -/
def zonePageState (z : Zone) (item : ZoneStatItem) : Nat := unsigned 32 (z.vmStat item)

/-- `z->free_area[o].nr_free`, where there is such an entry. -/
def Zone.readNrFree (z : Zone) (o : Nat) : Option Nat :=
  if o < maxOrder then some (z.nrFree o) else none

/-- The mark as the allocation flags lower it. -/
def adjustMin (mark : Nat) (allocFlags : BitVec 32) : Int :=
  let min := signed 32 mark
  let min := if allocFlags &&& allocHigh ≠ 0 then min - min.tdiv 2 else min
  if allocFlags &&& allocHarder ≠ 0 then min - min.tdiv 4 else min

/-- The loop of `__zone_watermark_ok`, with `rounds` rounds left. -/
def watermarkLoop (z : Zone) : (rounds o : Nat) → (freePages min : Int) → Option Bool
  | 0, _, _, _ => some true
  | rounds + 1, o, freePages, min =>
    (z.readNrFree o).bind fun nrFree =>
      let freePages := signed 32 (freePages - wrap 32 (nrFree <<< o))
      let min := min >>> (1 : Nat)
      if freePages ≤ min then some false else watermarkLoop z rounds (o + 1) freePages min

/-- `__zone_watermark_ok` -/
def zoneWatermarkOkWith (z : Zone) (order mark classzoneIdx : Nat) (allocFlags : BitVec 32)
    (freePages : Int) : Option Bool :=
  let freePages := signed 32 (freePages - (1 <<< order + 1 : Nat))
  let min := adjustMin mark allocFlags
  -- the reserve is unsigned, and so are the sum and the comparison
  if unsigned 32 freePages ≤ wrap 32 (unsigned 32 min + z.lowmemReserve classzoneIdx) then
    some false
  else watermarkLoop z order 0 freePages min

def zoneWatermarkOk (z : Zone) (order mark classzoneIdx : Nat) (allocFlags : BitVec 32) :
    Option Bool :=
  zoneWatermarkOkWith z order mark classzoneIdx allocFlags
    (signed 32 (zonePageState z .nrFreePages))

/-- The counter agrees with the free lists and is a `long`. -/
structure Zone.Accounted (z : Zone) : Prop where
  sum : z.vmStat .nrFreePages = z.pagesBelow maxOrder
  long : z.pagesBelow maxOrder < 2 ^ 31

theorem Zone.pagesBelow_succ (z : Zone) (n : Nat) :
    z.pagesBelow (n + 1) = z.pagesBelow n + z.nrFree n * 2 ^ n := Finset.sum_range_succ _ n

theorem Zone.pagesBelow_mono (z : Zone) {n m : Nat} (h : n ≤ m) :
    z.pagesBelow n ≤ z.pagesBelow m :=
  Finset.sum_le_sum_of_subset (Finset.range_subset_range.mpr h)

theorem Zone.exists_nrFree_pos (z : Zone) {n m : Nat} (h : z.pagesBelow n < z.pagesBelow m) :
    ∃ o, n ≤ o ∧ o < m ∧ 0 < z.nrFree o := by
  by_contra none
  push Not at none
  have same : ∀ k, n ≤ k → k ≤ m → z.pagesBelow k = z.pagesBelow n := by
    intro k nk
    induction k, nk using Nat.le_induction with
    | base => intro _; rfl
    | succ k nk ih =>
      intro km
      have empty : z.nrFree k = 0 := by have := none k nk (by omega); omega
      rw [z.pagesBelow_succ, ih (by omega), empty]
      omega
  rcases Nat.le_total n m with nm | mn
  · have := same m nm le_rfl
    omega
  · have := z.pagesBelow_mono mn
    omega

theorem sub_tdiv_bounds {n : Int} (h : 0 ≤ n) (k : Int) (hk : 0 ≤ k) :
    0 ≤ n - n.tdiv k ∧ n - n.tdiv k ≤ n := by
  have upper := Int.tdiv_le_self k h
  have lower := Int.tdiv_nonneg h hk
  omega

theorem adjustMin_bounds {mark : Nat} (h : mark < 2 ^ 30) (allocFlags : BitVec 32) :
    0 ≤ adjustMin mark allocFlags ∧ adjustMin mark allocFlags ≤ mark := by
  have small : signed 32 (mark : Int) = mark := signed_of_mem (w := 31) (by omega) (by omega)
  have half := sub_tdiv_bounds (Int.natCast_nonneg mark) 2 (by omega)
  have quarter := sub_tdiv_bounds (Int.natCast_nonneg mark) 4 (by omega)
  have both := sub_tdiv_bounds half.1 4 (by omega)
  unfold adjustMin
  dsimp only
  rw [small]
  split_ifs <;> omega

/-- What the loop has left of the pages when it enters round `o`, if it gets
there at all. -/
def Remaining (z : Zone) (freePages : Int) (o : Nat) : Int := freePages - z.pagesBelow o

section Loop

variable {z : Zone} {freePages : Int}

/-- One round subtracts the pages of one order. -/
theorem remaining_step (accounted : z.Accounted)
    (low : z.pagesBelow maxOrder - 2 ^ 30 ≤ freePages) (high : freePages < 2 ^ 31)
    {o : Nat} (ho : o < maxOrder)
    (first : 0 ≤ Remaining z freePages o ∨ o = 0) :
    signed 32 (Remaining z freePages o - wrap 32 (z.nrFree o <<< o)) =
      Remaining z freePages (o + 1) := by
  have part := z.pagesBelow_mono (show o + 1 ≤ maxOrder from ho)
  have long := accounted.long
  have expand := z.pagesBelow_succ o
  rw [Nat.shiftLeft_eq, wrap_of_lt (by omega)]
  have next : Remaining z freePages o - (z.nrFree o * 2 ^ o : Nat) =
      Remaining z freePages (o + 1) := by
    simp only [Remaining, expand]
    push_cast
    ring
  rw [next]
  refine signed_of_mem (w := 31) ?_ ?_
  · simp only [Remaining] at first ⊢
    rcases first with nonneg | rfl
    · omega
    · have zero : z.pagesBelow 0 = 0 := rfl
      omega
  · simp only [Remaining]
    omega

/-- The loop reads no entry beyond the last order, and ends with success only
if pages are left. -/
theorem watermarkLoop_spec (accounted : z.Accounted)
    (low : z.pagesBelow maxOrder - 2 ^ 30 ≤ freePages) (high : freePages < z.pagesBelow maxOrder)
    (rounds o : Nat) {min : Int} (hmin : 0 ≤ min)
    (first : 0 ≤ Remaining z freePages o ∨ o = 0) :
    ∃ b, watermarkLoop z rounds o (Remaining z freePages o) min = some b ∧
      (b = true → rounds ≠ 0 → 0 < Remaining z freePages (o + rounds)) := by
  induction rounds generalizing o min with
  | zero => exact ⟨true, rfl, by simp⟩
  | succ rounds ih =>
    have long := accounted.long
    -- nothing is left once every order has been subtracted
    have ho : o < maxOrder := by
      by_contra beyond
      have all := z.pagesBelow_mono (Nat.not_lt.mp beyond)
      simp only [Remaining, maxOrder] at first high all beyond
      omega
    have shift : (0 : Int) ≤ min >>> (1 : Nat) := Int.le_shiftRight_of_nonneg hmin
    rw [watermarkLoop, Zone.readNrFree, if_pos ho, Option.bind_some]
    dsimp only
    rw [remaining_step accounted low (by omega) ho first]
    split_ifs with stop
    · exact ⟨false, rfl, by simp⟩
    · have positive : 0 < Remaining z freePages (o + 1) := by omega
      obtain ⟨b, returns, spec⟩ := ih (o + 1) shift (.inl positive.le)
      refine ⟨b, returns, fun success _ => ?_⟩
      by_cases last : rounds = 0
      · subst last
        exact positive
      · have := spec success last
        rwa [Nat.add_assoc, Nat.add_comm 1 rounds] at this

end Loop

/-- The test does not read past the table, and when it succeeds enough pages
remain and there is a block to serve the request from. -/
def WatermarkSound (z : Zone) (order mark classzoneIdx : Nat) (allocFlags : BitVec 32) : Prop :=
  ∃ b, zoneWatermarkOk z order mark classzoneIdx allocFlags = some b ∧
    (b = true →
      adjustMin mark allocFlags + z.lowmemReserve classzoneIdx <
        z.vmStat .nrFreePages - 2 ^ order ∧
      ∃ o, order ≤ o ∧ o < maxOrder ∧ 0 < z.nrFree o)

section Test

variable {z : Zone} {order mark classzoneIdx : Nat} {allocFlags : BitVec 32}

/-- The test in unbounded arithmetic: the first comparison is skipped by a negative number. -/
theorem zoneWatermarkOk_eq (accounted : z.Accounted) (horder : order ≤ 20) (hmark : mark < 2 ^ 30)
    (hreserve : z.lowmemReserve classzoneIdx < 2 ^ 30) :
    zoneWatermarkOk z order mark classzoneIdx allocFlags =
      let freePages : Int := z.pagesBelow maxOrder - (2 ^ order + 1)
      if 0 ≤ freePages ∧ freePages ≤ adjustMin mark allocFlags + z.lowmemReserve classzoneIdx then
        some false
      else watermarkLoop z order 0 freePages (adjustMin mark allocFlags) := by
  have long := accounted.long
  obtain ⟨nonneg, le⟩ := adjustMin_bounds hmark allocFlags
  have power : (2 : Int) ^ order ≤ 2 ^ 20 := pow_le_pow_right₀ (by omega) horder
  have one : (1 : Int) ≤ 2 ^ order := one_le_pow₀ (by omega)
  have counter : signed 32 (zonePageState z .nrFreePages : Int) = z.pagesBelow maxOrder := by
    rw [zonePageState, accounted.sum, unsigned_of_nonneg (by omega) (by omega)]
    exact signed_of_mem (w := 31) (by omega) (by omega)
  have left : signed 32 ((z.pagesBelow maxOrder : Int) - (1 <<< order + 1 : Nat)) =
      z.pagesBelow maxOrder - (2 ^ order + 1) := by
    rw [Nat.one_shiftLeft]
    push_cast
    exact signed_of_mem (w := 31) (by omega) (by omega)
  have bound : (wrap 32 (unsigned 32 (adjustMin mark allocFlags) + z.lowmemReserve classzoneIdx) :
      Int) = adjustMin mark allocFlags + z.lowmemReserve classzoneIdx := by
    have same := unsigned_of_nonneg (w := 32) nonneg (by omega)
    rw [wrap_of_lt (by omega)]
    push_cast
    rw [same]
  unfold zoneWatermarkOk zoneWatermarkOkWith
  dsimp only
  simp only [counter, left, ← Int.ofNat_le, bound]
  rcases Int.lt_or_le (z.pagesBelow maxOrder - (2 ^ order + 1)) 0 with neg | pos
  · rw [unsigned_of_neg (by omega) neg, if_neg (by omega), if_neg (by omega)]
  · rw [unsigned_of_nonneg pos (by omega)]
    simp only [pos, true_and]

/-- The test is sound exactly when it is not asked for one page of a zone that
has at most one. -/
theorem zone_watermark_ok_sound_iff (accounted : z.Accounted) (horder : order ≤ 20)
    (hmark : mark < 2 ^ 30) (hreserve : z.lowmemReserve classzoneIdx < 2 ^ 30) :
    WatermarkSound z order mark classzoneIdx allocFlags ↔
      ¬ (order = 0 ∧ z.vmStat .nrFreePages ≤ 1) := by
  have long := accounted.long
  obtain ⟨nonneg, le⟩ := adjustMin_bounds hmark allocFlags
  have power : (2 : Int) ^ order ≤ 2 ^ 20 := pow_le_pow_right₀ (by omega) horder
  have one : (1 : Int) ≤ 2 ^ order := one_le_pow₀ (by omega)
  rw [WatermarkSound, zoneWatermarkOk_eq accounted horder hmark hreserve, accounted.sum]
  dsimp only
  constructor
  · rintro ⟨b, returns, sound⟩ ⟨rfl, few⟩
    rw [if_neg (by omega)] at returns
    have success : b = true := (Option.some.inj returns).symm
    have := (sound success).1
    omega
  · intro enough
    split_ifs with stop
    · exact ⟨false, rfl, by simp⟩
    · have start : (z.pagesBelow maxOrder : Int) - (2 ^ order + 1) =
          Remaining z (z.pagesBelow maxOrder - (2 ^ order + 1)) 0 := by
        simp [Remaining, Zone.pagesBelow]
      have low : (z.pagesBelow maxOrder : Int) - 2 ^ 30 ≤
          z.pagesBelow maxOrder - (2 ^ order + 1) := by omega
      obtain ⟨b, returns, spec⟩ := watermarkLoop_spec accounted low (by omega) order 0 nonneg
        (.inr rfl)
      rw [← start] at returns
      refine ⟨b, returns, fun success => ?_⟩
      rw [Nat.zero_add, Remaining] at spec
      by_cases single : order = 0
      · subst single
        refine ⟨by omega, z.exists_nrFree_pos ?_⟩
        have zero : z.pagesBelow 0 = 0 := rfl
        omega
      · have left := spec success single
        exact ⟨by omega, z.exists_nrFree_pos (by omega)⟩

end Test

/-- A zone without a free page, and reserves as given. -/
def emptyZone : Zone where
  idx := 0
  lowmemReserve := fun _ => 64
  pageset := ⟨0, 0, 1, fun _ => []⟩
  freeList := fun _ _ => []
  nrFree := fun _ => 0
  pageblockFlags := fun _ => false
  vmStat := fun _ => 0
  zoneStartPfn := 0
  spannedPages := 4096

/-- The test accepts a request for one page of the empty zone. -/
theorem zone_watermark_ok_empty :
    emptyZone.Accounted ∧ zoneWatermarkOk emptyZone 0 128 0 0 = some true ∧
      ¬ WatermarkSound emptyZone 0 128 0 0 := by
  have accepts : zoneWatermarkOk emptyZone 0 128 0 0 = some true := by decide +kernel
  refine ⟨⟨by decide +kernel, by decide +kernel⟩, accepts, ?_⟩
  rintro ⟨b, returns, sound⟩
  rw [accepts] at returns
  have := (sound (Option.some.inj returns).symm).1
  revert this
  decide +kernel

/-- The zone with 128 free blocks of eight pages. -/
def stockedZone : Zone :=
  { emptyZone with nrFree := fun o => if o = 3 then 128 else 0, vmStat := fun _ => 1024 }

/-- A request for one page and one for two pages of it are granted. -/
theorem zone_watermark_ok_stocked :
    (zoneWatermarkOk stockedZone 0 128 0 0 = some true ∧ WatermarkSound stockedZone 0 128 0 0) ∧
      zoneWatermarkOk stockedZone 1 128 0 0 = some true ∧ WatermarkSound stockedZone 1 128 0 0 := by
  have accounted : stockedZone.Accounted := ⟨by decide +kernel, by decide +kernel⟩
  refine ⟨⟨by decide +kernel, ?_⟩, by decide +kernel, ?_⟩
  · exact (zone_watermark_ok_sound_iff accounted (by decide) (by decide) (by decide)).mpr
      (by decide +kernel)
  · exact (zone_watermark_ok_sound_iff accounted (by decide) (by decide) (by decide)).mpr
      (by decide +kernel)

end XcKernel.PageAlloc
