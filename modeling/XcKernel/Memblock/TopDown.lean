import Mathlib.Order.Bounds.Basic
import XcKernel.Memblock.Bootmem

/-!
# The search finds the highest range

Below a reserved region that it meets, the inner loop skips only ranges that
meet the same region.  The outer loop goes down through ascending regions, so
the first range found is above every other one.
-/

namespace XcKernel.Mm

open Word XcKernel.Span

/-- Where the inner loop stops: page 0 is never handed out. -/
def regionStart (start : Nat) : Nat := if start = 0 then pageSize else start

theorem regionStart_pos (start : Nat) : 0 < regionStart start := by
  unfold regionStart
  split
  · decide
  · omega

/-- The search returns the greatest of the ranges, or `MEMBLOCK_ERROR` for none. -/
structure FindsGreatest (ranges : Set Nat) (found : Nat) : Prop where
  sound : found ≠ memblockError → found ∈ ranges
  top : ∀ b ∈ ranges, found ≠ memblockError ∧ b ≤ found

theorem FindsGreatest.none {ranges : Set Nat} (empty : ∀ b, b ∉ ranges) :
    FindsGreatest ranges memblockError :=
  ⟨fun ne => (ne rfl).elim, fun b mem => (empty b mem).elim⟩

theorem FindsGreatest.isGreatest {ranges : Set Nat} {found : Nat}
    (finds : FindsGreatest ranges found) :
    (found ≠ memblockError → IsGreatest ranges found) ∧
      (found = memblockError ↔ ∀ b, b ∉ ranges) := by
  refine ⟨fun ne => ⟨finds.sound ne, fun b mem => (finds.top b mem).2⟩, ?_, ?_⟩
  · intro error b mem
    exact (finds.top b mem).1 error
  · intro empty
    by_contra ne
    exact empty found (finds.sound ne)

section Region

variable {reserved : MemblockType} {live : List MemblockRegion}
  {start end_ size k : Nat}

theorem overlap_pos (h : reserved.Live live) {r : MemblockRegion} (mem : r ∈ reserved.regions)
    {base : Nat} (overlap : memblockAddrsOverlap base size r.base r.size) : 0 < r.size := by
  rw [h.shown] at mem
  rcases (orPlaceholder_length live).2 with same | ⟨-, placeholder⟩
  · rw [same] at mem
    exact h.ok.pos r mem
  · rw [placeholder, List.mem_singleton] at mem
    subst mem
    simp [memblockAddrsOverlap, u64, wrap] at overlap

theorem below_overlap {r : MemblockRegion} {b base : Nat} (pos : 0 < r.size)
    (apart : r.span.Apart ⟨b, b + size⟩) (positive : 0 < size) (le : b ≤ base)
    (overlap : base < r.base + r.size) : b + size ≤ r.base := by
  by_contra above
  have shared := apart (max b r.base)
  simp only [MemblockRegion.span, Contains] at shared
  omega

theorem le_memblockAlignDown {b addr : Nat} (hk : k < 64) (bound : addr < 2 ^ 64)
    (aligned : 2 ^ k ∣ b) (le : b ≤ addr) : b ≤ memblockAlignDown addr (2 ^ k) := by
  rw [memblockAlignDown, alignDown_two_pow hk bound]
  obtain ⟨q, rfl⟩ := aligned
  rw [mul_comm]
  apply Nat.mul_le_mul_right
  rw [Nat.le_div_iff_mul_le (Nat.two_pow_pos k), mul_comm]
  exact le

theorem findRegionLoop_top (h : reserved.Live live) (hk : k < 64) (positive : 0 < size)
    {b : Nat} (fits : Fits reserved start end_ size (2 ^ k) b) (base : Nat) (le : b ≤ base)
    (bound : base + size < 2 ^ 64) :
    b ≤ findRegionLoop reserved start size (2 ^ k) base := by
  induction base using Nat.strong_induction_on with
  | _ base ih =>
    rw [findRegionLoop, if_pos (fits.above.trans le)]
    split
    · exact le
    · rename_i resBase found
      obtain ⟨r, mem, rfl, overlap⟩ := overlapBase_some found
      have pos := overlap_pos h mem overlap
      have regionFits := h.fits r mem
      simp only [memblockAddrsOverlap, decide_eq_true_eq, u64] at overlap
      rw [wrap_of_lt regionFits, wrap_of_lt bound] at overlap
      have under := below_overlap pos (fits.clear r mem) positive le overlap.1
      rw [if_neg (by omega)]
      have down : memblockAlignDown (r.base - size) (2 ^ k) ≤ r.base - size := alignDown_le _ _ _
      apply ih
      · omega
      · exact le_memblockAlignDown hk (by omega) fits.aligned (by omega)
      · omega

theorem memblockFindRegion_greatest (h : reserved.Live live) (hk : k < 64) (positive : 0 < size)
    (bound : end_ < 2 ^ 64) :
    FindsGreatest (Fits reserved (regionStart start) end_ size (2 ^ k))
      (memblockFindRegion reserved start end_ size (2 ^ k)) := by
  unfold memblockFindRegion
  by_cases small : end_ < size
  · rw [if_pos small]
    apply FindsGreatest.none
    intro b fits
    have := fits.below
    omega
  · rw [if_neg small]
    have down : memblockAlignDown (end_ - size) (2 ^ k) ≤ end_ - size := alignDown_le _ _ _
    constructor
    · intro found
      exact findRegionLoop_fits hk bound h.fits _ (memblockAlignDown_dvd hk (by omega)) (by omega)
        found
    · intro b fits
      have below := fits.below
      have reached : b ≤ findRegionLoop reserved (regionStart start) size (2 ^ k)
          (memblockAlignDown (end_ - size) (2 ^ k)) :=
        findRegionLoop_top h hk positive fits _
          (le_memblockAlignDown hk (by omega) fits.aligned (by omega)) (by omega)
      have above := fits.above
      have low := regionStart_pos start
      refine ⟨?_, reached⟩
      intro error
      have zero : findRegionLoop reserved (regionStart start) size (2 ^ k)
          (memblockAlignDown (end_ - size) (2 ^ k)) = 0 := error
      omega

end Region

section Base

variable {memblock : Memblock} {memory reserved : List MemblockRegion}
  {start end_ size k : Nat}

/-- The ranges in the first `i` memory regions. -/
def rangesBelow (memblock : Memblock) (size align start end_ i : Nat) : Set Nat :=
  { b | ∃ j < i, ∃ r, memblock.memory.regions[j]? = some r ∧
    Fits memblock.reserved (regionStart (max r.base start)) (min (r.base + r.size) end_) size
      align b }

theorem rangesBelow_succ {align i b : Nat} {r : MemblockRegion}
    (slot : memblock.memory.regions[i]? = some r) :
    b ∈ rangesBelow memblock size align start end_ (i + 1) ↔
      Fits memblock.reserved (regionStart (max r.base start)) (min (r.base + r.size) end_) size
        align b ∨ b ∈ rangesBelow memblock size align start end_ i := by
  constructor
  · rintro ⟨j, hj, t, read, fits⟩
    by_cases last : j = i
    · subst last
      rw [slot, Option.some.injEq] at read
      subst read
      exact .inl fits
    · exact .inr ⟨j, by omega, t, read, fits⟩
  · rintro (fits | ⟨j, hj, here⟩)
    · exact ⟨i, by omega, r, slot, fits⟩
    · exact ⟨j, by omega, here⟩

/-- A search of the regions below `i`, when region `i` has no range. -/
theorem FindsGreatest.skip {align i found : Nat} {r : MemblockRegion}
    (slot : memblock.memory.regions[i]? = some r)
    (none : ∀ b, ¬ Fits memblock.reserved (regionStart (max r.base start))
      (min (r.base + r.size) end_) size align b)
    (finds : FindsGreatest (rangesBelow memblock size align start end_ i) found) :
    FindsGreatest (rangesBelow memblock size align start end_ (i + 1)) found := by
  constructor
  · intro ne
    exact (rangesBelow_succ slot).mpr (.inr (finds.sound ne))
  · intro b member
    rcases (rangesBelow_succ slot).mp member with fits | lower
    · exact (none b fits).elim
    · exact finds.top b lower

theorem regionStart_ge (start : Nat) : start ≤ regionStart start := by
  unfold regionStart
  split <;> omega

theorem rangesBelow_lt (hmem : memblock.memory.Live memory) {align i b : Nat} {r : MemblockRegion}
    (slot : memblock.memory.regions[i]? = some r)
    (lower : b ∈ rangesBelow memblock size align start end_ i) : b + size < r.base := by
  obtain ⟨j, hj, t, read, fits⟩ := lower
  rw [List.getElem?_eq_some_iff] at read slot
  obtain ⟨_, rfl⟩ := read
  obtain ⟨inside, rfl⟩ := slot
  have order := (List.pairwise_iff_getElem.mp hmem.ascending) j i (by omega) inside hj
  have := fits.below
  omega

theorem findBaseLoop_greatest (hmem : memblock.memory.Live memory)
    (hres : memblock.reserved.Live reserved) (hk : k < 64) (positive : 0 < size) (i : Nat)
    (count : i ≤ memblock.memory.cnt) :
    FindsGreatest (rangesBelow memblock size (2 ^ k) start end_ i)
      (findBaseLoop memblock size (2 ^ k) start end_ i) := by
  induction i with
  | zero =>
    apply FindsGreatest.none
    rintro b ⟨j, hj, -⟩
    omega
  | succ i ih =>
    have below := ih (by omega)
    have inside : i < memblock.memory.regions.length := count
    have slot := List.getElem?_eq_getElem inside
    generalize memblock.memory.regions[i] = r at slot
    have regionFits := hmem.fits r (List.mem_of_getElem? slot)
    rw [findBaseLoop]
    simp only [slot]
    rw [show u64 (r.base + r.size) = r.base + r.size from wrap_of_lt regionFits]
    -- the bounds that every range of region `i` has to meet
    have bounds : ∀ b, Fits memblock.reserved (regionStart (max r.base start))
        (min (r.base + r.size) end_) size (2 ^ k) b →
        max r.base start ≤ b ∧ b + size ≤ min (r.base + r.size) end_ := by
      intro b fits
      exact ⟨(regionStart_ge _).trans fits.above, fits.below⟩
    have here : FindsGreatest (Fits memblock.reserved (regionStart (max r.base start))
        (min (r.base + r.size) end_) size (2 ^ k))
        (memblockFindRegion memblock.reserved (max r.base start) (min (r.base + r.size) end_) size
          (2 ^ k)) := memblockFindRegion_greatest hres hk positive (by omega)
    split_ifs with small low empty missed
    · apply below.skip slot
      intro b fits
      have := bounds b fits
      omega
    · apply FindsGreatest.none
      intro b member
      rcases (rangesBelow_succ slot).mp member with fits | lower
      · have := bounds b fits
        omega
      · have under := rangesBelow_lt hmem slot lower
        obtain ⟨j, hj, t, read, fits⟩ := lower
        have above := (regionStart_ge _).trans fits.above
        omega
    · apply below.skip slot
      intro b fits
      have := bounds b fits
      omega
    · have sound := here.sound missed
      constructor
      · intro _
        exact (rangesBelow_succ slot).mpr (.inl sound)
      · intro b member
        refine ⟨missed, ?_⟩
        rcases (rangesBelow_succ slot).mp member with fits | lower
        · exact (here.top b fits).2
        · have under := rangesBelow_lt hmem slot lower
          have above := (bounds _ sound).1
          omega
    · apply below.skip slot
      intro b fits
      exact (here.top b fits).1 (not_not.mp missed)

/-- A range that `memblock_find_in_range` may return. -/
structure Candidate (memblock : Memblock) (start end_ size align b : Nat) : Prop where
  aligned : align ∣ b
  inMemory : ∃ r ∈ memblock.memory.regions, r.base ≤ b ∧ b + size ≤ r.base + r.size ∧
    (max r.base start = 0 → pageSize ≤ b)
  above : start ≤ b
  below : b + size ≤ end_
  clear : ∀ r ∈ memblock.reserved.regions, r.span.Apart ⟨b, b + size⟩

theorem rangesBelow_cnt {align b : Nat} :
    b ∈ rangesBelow memblock size align start end_ memblock.memory.cnt ↔
      Candidate memblock start end_ size align b := by
  constructor
  · rintro ⟨j, -, r, read, fits⟩
    have above := fits.above
    have low := (regionStart_ge _).trans above
    have below := fits.below
    refine ⟨fits.aligned, ⟨r, List.mem_of_getElem? read, by omega, by omega, ?_⟩, by omega,
      by omega, fits.clear⟩
    intro zero
    rwa [zero] at above
  · intro candidate
    obtain ⟨r, mem, low, high, first⟩ := candidate.inMemory
    obtain ⟨j, hj, rfl⟩ := List.getElem_of_mem mem
    refine ⟨j, hj, _, List.getElem?_eq_getElem hj, ?_, ?_, candidate.aligned, candidate.clear⟩
    · unfold regionStart
      split
      · rename_i zero
        exact first zero
      · exact max_le low candidate.above
    · exact le_min high candidate.below

/-- `memblock_find_in_range` returns the greatest range there is, and fails only
when there is none. -/
theorem memblock_find_in_range_top_down (hmem : memblock.memory.Live memory)
    (hres : memblock.reserved.Live reserved) {align : Nat} (power : ∃ k < 64, align = 2 ^ k)
    (positive : 0 < size) :
    (memblockFindInRange memblock start end_ size align ≠ memblockError →
      IsGreatest { b | Candidate memblock start
          (if end_ = 0 then memblock.currentLimit else end_) size align b }
        (memblockFindInRange memblock start end_ size align)) ∧
    (memblockFindInRange memblock start end_ size align = memblockError ↔
      ∀ b, ¬ Candidate memblock start
        (if end_ = 0 then memblock.currentLimit else end_) size align b) := by
  obtain ⟨k, hk, rfl⟩ := power
  have finds : FindsGreatest _ (memblockFindInRange memblock start end_ size (2 ^ k)) :=
    findBaseLoop_greatest hmem hres hk positive memblock.memory.cnt le_rfl
  have same : rangesBelow memblock size (2 ^ k) start
      (if end_ = 0 then memblock.currentLimit else end_) memblock.memory.cnt =
      { b | Candidate memblock start (if end_ = 0 then memblock.currentLimit else end_) size
        (2 ^ k) b } := by
    ext b
    exact rangesBelow_cnt
  rw [same] at finds
  exact finds.isGreatest

/-- 36 KB of memory from address 0, with two pages reserved. -/
def lowMemory : Memblock where
  currentLimit := 0x10000
  memorySize := 0x9000
  memory := ⟨128, [⟨0, 0x9000⟩]⟩
  reserved := ⟨128, [⟨0x6000, 0x2000⟩]⟩

theorem lowMemory_memory : lowMemory.memory.Live [⟨0, 0x9000⟩] :=
  ⟨rfl, ⟨by simp, by simp, by simp⟩, by decide, by decide⟩

theorem lowMemory_reserved : lowMemory.reserved.Live [⟨0x6000, 0x2000⟩] :=
  ⟨rfl, ⟨by simp, by simp, by simp⟩, by decide, by decide⟩

theorem memblock_find_in_range_low :
    memblockFindInRange lowMemory 0 0 0x2000 0x1000 = 0x4000 := by
  have spec := @memblock_find_in_range_top_down lowMemory _ _ 0 0 0x2000 lowMemory_memory
    lowMemory_reserved 0x1000 ⟨12, by decide, rfl⟩ (by decide)
  rw [if_pos rfl] at spec
  have candidate : Candidate lowMemory 0 lowMemory.currentLimit 0x2000 0x1000 0x4000 := by
    refine ⟨by decide, ⟨⟨0, 0x9000⟩, by simp [lowMemory], by decide, by decide, by decide⟩,
      by decide, by decide, ?_⟩
    intro r mem x inRegion inRange
    obtain rfl : r = ⟨0x6000, 0x2000⟩ := List.mem_singleton.mp mem
    simp only [MemblockRegion.span, Contains] at inRegion inRange
    omega
  have found := spec.1 fun error => spec.2.mp error _ candidate
  have least := found.2 candidate
  obtain ⟨aligned, ⟨r, mem, -, high, -⟩, -, -, clear⟩ := found.1
  generalize memblockFindInRange lowMemory 0 0 0x2000 0x1000 = b at *
  obtain rfl : r = ⟨0, 0x9000⟩ := List.mem_singleton.mp mem
  have apart := clear ⟨0x6000, 0x2000⟩ (by simp [lowMemory]) (max b 0x6000)
  simp only [MemblockRegion.span, Contains] at apart high
  omega

end Base

end XcKernel.Mm
