import XcKernel.Lib.Bytes
import XcKernel.Lib.Run
import XcKernel.PageAlloc.Basic

/-!
# The bitmap of the pageblocks

`set_pageblock_flags_group` and `get_pageblock_flags_group` on the words of
memory where a zone keeps its bitmap, and `usemap_size`, which says how many bytes
these words take.  Bits are numbered from the start of the zone, three for a
block of 1024 pages.  On the bits the two functions are `writeGroup` and
`readGroup`.
-/

namespace XcKernel.PageAlloc.Usemap

open Word

def pageblockNrPages : Nat := 1 <<< pageblockOrder

/-- `PB_migrate` and `PB_migrate_end` of `enum pageblock_bits` -/
def pbMigrate : Nat := 0
def pbMigrateEnd : Nat := pbMigrate + 3 - 1

/-- What the functions read of `struct zone`. -/
structure ZoneBits where
  zoneStartPfn : Nat
  spannedPages : Nat
  pageblockFlags : Nat

def roundup (x y : Nat) : Nat := wrap 32 (wrap 32 (x + (y - 1)) / y * y)

def usemapSize (zonesize : Nat) : Nat :=
  let usemapsize := roundup zonesize pageblockNrPages
  let usemapsize := usemapsize >>> pageblockOrder
  let usemapsize := wrap 32 (usemapsize * nrPageblockBits)
  let usemapsize := roundup usemapsize (8 * 4)
  usemapsize / 8

/-- `pfn_to_bitidx` -/
def bitidx (zone : ZoneBits) (pfn : Nat) : Nat :=
  wrap 32 ((wrapSub 32 pfn zone.zoneStartPfn >>> pageblockOrder) * nrPageblockBits)

def setPageblockFlagsGroup (zone : ZoneBits) (m : Bytes) (pfn flags startBitidx endBitidx : Nat) :
    Bytes :=
  (List.range (endBitidx + 1 - startBitidx)).foldl (fun m i =>
    let nr := wrap 32 (bitidx zone pfn + (startBitidx + i))
    if flags &&& wrap 32 (1 <<< i) ≠ 0 then m.setBit zone.pageblockFlags nr
    else m.clearBit zone.pageblockFlags nr) m

def getPageblockFlagsGroup (zone : ZoneBits) (m : Bytes) (pfn startBitidx endBitidx : Nat) : Nat :=
  (List.range (endBitidx + 1 - startBitidx)).foldl (fun flags i =>
    let nr := wrap 32 (bitidx zone pfn + (startBitidx + i))
    if m.testBit zone.pageblockFlags nr then flags ||| wrap 32 (1 <<< i) else flags) 0

namespace ZoneBits

/-- The frame lies in the zone. -/
def Spanned (zone : ZoneBits) (pfn : Nat) : Prop :=
  zone.zoneStartPfn ≤ pfn ∧ pfn < zone.zoneStartPfn + zone.spannedPages

/-- The bytes of the bitmap. -/
def InBitmap (zone : ZoneBits) (a : Nat) : Prop :=
  zone.pageblockFlags ≤ a ∧ a < zone.pageblockFlags + usemapSize zone.spannedPages

/-- A zone of page frames.  Their numbers stay far below the limit, which is that
of the sums made with them. -/
structure Ok (zone : ZoneBits) : Prop where
  nonempty : 1 ≤ zone.spannedPages
  limit : zone.zoneStartPfn + zone.spannedPages + pageblockNrPages ≤ 2 ^ 32

end ZoneBits

variable {zone : ZoneBits} {m : Bytes} {pfn : Nat}

theorem bitidx_eq (ok : zone.Ok) (spanned : zone.Spanned pfn) :
    bitidx zone pfn = pfnToBitidx zone.zoneStartPfn pfn := by
  have limit := ok.limit
  have below : pfn < 2 ^ 32 := by
    have := spanned.2
    omega
  have small : (pfn - zone.zoneStartPfn) >>> pageblockOrder * nrPageblockBits < 2 ^ 32 := by
    rw [Nat.shiftRight_eq_div_pow]
    simp only [pageblockOrder, nrPageblockBits]
    omega
  rw [bitidx, wrapSub_of_le spanned.1 below, wrap_of_lt small, pfnToBitidx]

theorem roundup_eq {x y : Nat} (room : x + y ≤ 2 ^ 32) (positive : 0 < y) :
    roundup x y = (x + (y - 1)) / y * y := by
  have le : (x + (y - 1)) / y * y ≤ x + (y - 1) := Nat.div_mul_le_self _ _
  rw [roundup, wrap_of_lt (n := x + (y - 1)) (by omega), wrap_of_lt (by omega)]

theorem usemapSize_eq {n : Nat} (room : n + pageblockNrPages ≤ 2 ^ 32) :
    usemapSize n = ((n + 1023) / 1024 * 3 + 31) / 32 * 4 := by
  have blocks : roundup n pageblockNrPages >>> pageblockOrder = (n + 1023) / 1024 := by
    rw [roundup_eq room (by decide), Nat.shiftRight_eq_div_pow]
    exact Nat.mul_div_cancel _ (by decide)
  simp only [pageblockNrPages, pageblockOrder] at room
  have bits : wrap 32 ((n + 1023) / 1024 * nrPageblockBits) = (n + 1023) / 1024 * 3 :=
    wrap_of_lt (by simp only [nrPageblockBits]; omega)
  unfold usemapSize
  dsimp only
  rw [blocks, bits, roundup_eq (by omega) (by decide)]
  omega

theorem bitidx_lt (ok : zone.Ok) (spanned : zone.Spanned pfn) :
    bitidx zone pfn + nrPageblockBits ≤ 8 * usemapSize zone.spannedPages := by
  have limit := ok.limit
  have spanned' := spanned
  rw [bitidx_eq ok spanned, usemapSize_eq (by omega), pfnToBitidx, Nat.shiftRight_eq_div_pow]
  simp only [pageblockOrder, nrPageblockBits, ZoneBits.Spanned] at *
  omega

theorem small_bitidx (ok : zone.Ok) (spanned : zone.Spanned pfn) :
    bitidx zone pfn + nrPageblockBits < 2 ^ 32 := by
  have inside := bitidx_lt ok spanned
  have limit := ok.limit
  rw [usemapSize_eq (by omega)] at inside
  simp only [pageblockNrPages, pageblockOrder] at limit
  omega

theorem inBitmap_of_lt (ok : zone.Ok) {nr a : Nat} (lt : nr < 8 * usemapSize zone.spannedPages)
    (low : Bytes.bitWord zone.pageblockFlags nr ≤ a)
    (high : a < Bytes.bitWord zone.pageblockFlags nr + 4) : zone.InBitmap a := by
  have limit := ok.limit
  have words := usemapSize_eq (n := zone.spannedPages) (by omega)
  simp only [Bytes.bitWord, ZoneBits.InBitmap] at *
  omega

theorem and_one_shiftLeft (flags : Nat) {i : Nat} (hi : i < 32) :
    flags &&& wrap 32 (1 <<< i) ≠ 0 ↔ flags.testBit i = true := by
  have small : 1 <<< i < 2 ^ 32 := by
    rw [Nat.one_shiftLeft]
    exact Nat.pow_lt_pow_right (by decide) hi
  rw [wrap_of_lt small, Nat.one_shiftLeft, Nat.and_two_pow]
  cases flags.testBit i <;> simp

/-- A round of the loop of `set_pageblock_flags_group` puts one bit. -/
def putFlag (zone : ZoneBits) (pfn flags : Nat) (m : Bytes) (i : Nat) : Bytes :=
  m.putBit zone.pageblockFlags (bitidx zone pfn + i) (flags.testBit i)

theorem setPageblockFlagsGroup_eq (ok : zone.Ok) (spanned : zone.Spanned pfn) (m : Bytes)
    (flags : Nat) : setPageblockFlagsGroup zone m pfn flags pbMigrate pbMigrateEnd =
      (List.range nrPageblockBits).foldl (putFlag zone pfn flags) m := by
  have small := small_bitidx ok spanned
  apply List.foldl_ext
  intro m i mem
  have hi : i < nrPageblockBits := List.mem_range.mp mem
  have index : wrap 32 (bitidx zone pfn + (pbMigrate + i)) = bitidx zone pfn + i := by
    simp only [pbMigrate, Nat.zero_add]
    exact wrap_of_lt (by omega)
  dsimp only
  rw [index, putFlag, Bytes.putBit]
  exact if_congr (and_one_shiftLeft flags (hi.trans (by decide))) rfl rfl

theorem testBit_setPageblockFlagsGroup (ok : zone.Ok) (spanned : zone.Spanned pfn) (m : Bytes)
    (flags b : Nat) :
    (setPageblockFlagsGroup zone m pfn flags pbMigrate pbMigrateEnd).testBit zone.pageblockFlags b =
      writeGroup (m.testBit zone.pageblockFlags) (bitidx zone pfn) flags b := by
  rw [setPageblockFlagsGroup_eq ok spanned, writeGroup]
  refine invariant_of_range (fun n (m' : Bytes) => m'.testBit zone.pageblockFlags b =
    if bitidx zone pfn ≤ b ∧ b < bitidx zone pfn + n then flags.testBit (b - bitidx zone pfn)
    else m.testBit zone.pageblockFlags b) (fun k _ m' ih => ?_) ?_
  · rw [putFlag, Bytes.testBit_putBit, ih]
    by_cases here : b = bitidx zone pfn + k
    · subst here
      rw [if_pos rfl, if_pos (by omega), Nat.add_sub_cancel_left]
    · rw [if_neg here]
      exact if_congr (by omega) rfl rfl
  · rw [if_neg (by omega)]

theorem getPageblockFlagsGroup_eq (ok : zone.Ok) (spanned : zone.Spanned pfn) (m : Bytes) :
    getPageblockFlagsGroup zone m pfn pbMigrate pbMigrateEnd =
      readGroup (m.testBit zone.pageblockFlags) (bitidx zone pfn) := by
  have small := small_bitidx ok spanned
  apply List.foldl_ext
  intro flags i mem
  have hi : i < nrPageblockBits := List.mem_range.mp mem
  have index : wrap 32 (bitidx zone pfn + (pbMigrate + i)) = bitidx zone pfn + i := by
    simp only [pbMigrate, Nat.zero_add]
    exact wrap_of_lt (by omega)
  have bit : wrap 32 (1 <<< i) = 1 <<< i := by
    apply wrap_of_lt
    rw [Nat.one_shiftLeft]
    exact Nat.pow_lt_pow_right (by decide) (hi.trans (by decide))
  dsimp only
  rw [index, bit]

/-- The zone of the page map has the bits of the bitmap in memory. -/
structure Shows (zone : ZoneBits) (m : Bytes) (s : State) : Prop where
  start : s.zone.zoneStartPfn = zone.zoneStartPfn
  pages : s.zone.spannedPages = zone.spannedPages
  bits : s.zone.pageblockFlags = m.testBit zone.pageblockFlags

theorem Shows.set {s : State} (shows' : Shows zone m s) (ok : zone.Ok) (spanned : zone.Spanned pfn)
    (flags : Nat) : Shows zone (setPageblockFlagsGroup zone m pfn flags pbMigrate pbMigrateEnd)
      (PageAlloc.setPageblockFlagsGroup s pfn flags) := by
  refine ⟨shows'.start, shows'.pages, ?_⟩
  funext b
  rw [testBit_setPageblockFlagsGroup ok spanned, bitidx_eq ok spanned, ← shows'.bits, ← shows'.start]
  rfl

theorem Shows.get {s : State} (shows' : Shows zone m s) (ok : zone.Ok)
    (spanned : zone.Spanned pfn) : getPageblockFlagsGroup zone m pfn pbMigrate pbMigrateEnd =
      PageAlloc.getPageblockFlagsGroup s pfn := by
  rw [getPageblockFlagsGroup_eq ok spanned, bitidx_eq ok spanned, ← shows'.bits, ← shows'.start]
  rfl

theorem setPageblockFlagsGroup_within (ok : zone.Ok) (spanned : zone.Spanned pfn) (m : Bytes)
    (flags : Nat) : Bytes.Within zone.InBitmap m
      (setPageblockFlagsGroup zone m pfn flags pbMigrate pbMigrateEnd) := by
  rw [setPageblockFlagsGroup_eq ok spanned]
  refine (Bytes.Within.refl _ m).foldl fun i mem m' within => ?_
  have hi : i < nrPageblockBits := List.mem_range.mp mem
  have inside := bitidx_lt ok spanned
  exact within.putBit _ fun a => inBitmap_of_lt ok (by omega)

theorem bitidx_mod (ok : zone.Ok) (spanned : zone.Spanned pfn) :
    bitidx zone pfn % nrPageblockBits = 0 := by
  rw [bitidx_eq ok spanned]
  exact pfnToBitidx_mod zone.zoneStartPfn pfn

/-- Whatever the zone, the value set for a page is the one read for every page of
its block, the other blocks keep theirs, and nothing is touched but the bitmap. -/
theorem pageblock_bitmap_round_trip (ok : zone.Ok) (spanned : zone.Spanned pfn) (m : Bytes) {v : Nat}
    (small : v < 8) :
    bitidx zone pfn + nrPageblockBits ≤ 8 * usemapSize zone.spannedPages ∧
      Bytes.Within zone.InBitmap m (setPageblockFlagsGroup zone m pfn v pbMigrate pbMigrateEnd) ∧
      (∀ q, zone.Spanned q → bitidx zone q = bitidx zone pfn →
        getPageblockFlagsGroup zone (setPageblockFlagsGroup zone m pfn v pbMigrate pbMigrateEnd) q
          pbMigrate pbMigrateEnd = v) ∧
      ∀ q, zone.Spanned q → bitidx zone q ≠ bitidx zone pfn →
        getPageblockFlagsGroup zone (setPageblockFlagsGroup zone m pfn v pbMigrate pbMigrateEnd) q
          pbMigrate pbMigrateEnd = getPageblockFlagsGroup zone m q pbMigrate pbMigrateEnd := by
  have written : (setPageblockFlagsGroup zone m pfn v pbMigrate pbMigrateEnd).testBit
      zone.pageblockFlags = writeGroup (m.testBit zone.pageblockFlags) (bitidx zone pfn) v :=
    funext (testBit_setPageblockFlagsGroup ok spanned m v)
  refine ⟨bitidx_lt ok spanned, setPageblockFlagsGroup_within ok spanned m v,
    fun q inside same => ?_, fun q inside other => ?_⟩
  · rw [getPageblockFlagsGroup_eq ok inside, written, same]
    exact readGroup_writeGroup_self _ _ small
  · rw [getPageblockFlagsGroup_eq ok inside, getPageblockFlagsGroup_eq ok inside, written]
    exact readGroup_writeGroup_of_ne _ v (bitidx_mod ok spanned) (bitidx_mod ok inside) other

/-- The last block of a zone that starts and ends inside a block. -/
theorem pageblock_bitmap_round_trip_ragged :
    usemapSize 32000 = 12 ∧ bitidx ⟨100, 32000, 0xc1000000⟩ 32099 = 93 ∧
      getPageblockFlagsGroup ⟨100, 32000, 0xc1000000⟩
        (setPageblockFlagsGroup ⟨100, 32000, 0xc1000000⟩ (fun _ => 0) 32099 4 pbMigrate pbMigrateEnd)
        31844 pbMigrate pbMigrateEnd = 4 := by
  have ok : ZoneBits.Ok ⟨100, 32000, 0xc1000000⟩ := ⟨by decide, by decide⟩
  have round := @pageblock_bitmap_round_trip _ 32099 ok ⟨by decide, by decide⟩ (fun _ => 0) 4
    (by decide)
  exact ⟨by decide, by decide, round.2.2.1 31844 ⟨by decide, by decide⟩ (by decide)⟩

end XcKernel.PageAlloc.Usemap
