import XcKernel.Memblock.Invariant

/-!
# Searching the region lists

`memblock_find_in_range` walks the memory regions from the top and looks in
each of them for the highest aligned range that no reserved region meets.
`MEMBLOCK_ERROR` is the address 0.
-/

namespace XcKernel.Mm

open Word XcKernel.Span

def memblockError : Nat := 0

def memblockAddrsOverlap (base1 size1 base2 size2 : Nat) : Bool :=
  base1 < u64 (base2 + size2) ∧ base2 < u64 (base1 + size1)

def memblockAlignDown (addr size : Nat) : Nat := alignDown 64 addr size

/-- `memblock_overlaps_region`: the index of the first region met, `none` for -1. -/
def memblockOverlapsRegion (type : MemblockType) (base size : Nat) : Option Nat :=
  type.regions.findIdx? fun r => memblockAddrsOverlap base size r.base r.size

/-- The base of the first region met, which is all that the caller reads. -/
def overlapBase (type : MemblockType) (base size : Nat) : Option Nat :=
  (memblockOverlapsRegion type base size).bind fun j => type.regions[j]?.map (·.base)

theorem overlapBase_some {type : MemblockType} {base size resBase : Nat}
    (h : overlapBase type base size = some resBase) :
    ∃ r ∈ type.regions, r.base = resBase ∧ memblockAddrsOverlap base size r.base r.size := by
  simp only [overlapBase, memblockOverlapsRegion, Option.bind_eq_some_iff] at h
  obtain ⟨j, found, read⟩ := h
  obtain ⟨inside, overlap, -⟩ := List.findIdx?_eq_some_iff_getElem.mp found
  rw [List.getElem?_eq_getElem inside, Option.map_some, Option.some.injEq] at read
  exact ⟨type.regions[j], List.getElem_mem inside, read, overlap⟩

theorem overlapBase_none {type : MemblockType} {base size : Nat}
    (h : overlapBase type base size = none) :
    ∀ r ∈ type.regions, memblockAddrsOverlap base size r.base r.size = false := by
  simp only [overlapBase, memblockOverlapsRegion, Option.bind_eq_none_iff] at h
  intro r hr
  by_contra overlap
  rw [Bool.not_eq_false] at overlap
  cases found : type.regions.findIdx? fun r => memblockAddrsOverlap base size r.base r.size with
  | none => simp [List.findIdx?_eq_none_iff.mp found r hr] at overlap
  | some j =>
    obtain ⟨inside, -, -⟩ := List.findIdx?_eq_some_iff_getElem.mp found
    simpa [List.getElem?_eq_getElem inside] using h j found

/-- The `while` loop of `memblock_find_region`. -/
def findRegionLoop (reserved : MemblockType) (start size align base : Nat) : Nat :=
  if start ≤ base then
    match _found : overlapBase reserved base size with
    | none => base
    | some resBase =>
      if resBase < size then memblockError
      else findRegionLoop reserved start size align (memblockAlignDown (resBase - size) align)
  else memblockError
termination_by base
decreasing_by
  obtain ⟨r, -, rfl, overlap⟩ := overlapBase_some _found
  simp only [memblockAddrsOverlap, decide_eq_true_eq] at overlap
  have upper := wrap_le 64 (base + size)
  have aligned : memblockAlignDown (r.base - size) align ≤ r.base - size := alignDown_le _ _ _
  simp only [u64] at overlap
  omega

def memblockFindRegion (reserved : MemblockType) (start end_ size align : Nat) : Nat :=
  if end_ < size then memblockError
  else
    let base := memblockAlignDown (end_ - size) align
    let start := if start = 0 then pageSize else start
    findRegionLoop reserved start size align base

/-- The loop of `memblock_find_base`, with `i` regions left to look at. -/
def findBaseLoop (memblock : Memblock) (size align start end_ : Nat) : Nat → Nat
  | 0 => memblockError
  | i + 1 =>
    match memblock.memory.regions[i]? with
    | none => memblockError
    | some r =>
      if r.size < size then findBaseLoop memblock size align start end_ i
      else if u64 (r.base + r.size) ≤ start then memblockError
      else
        let bottom := max r.base start
        let top := min (u64 (r.base + r.size)) end_
        if bottom ≥ top then findBaseLoop memblock size align start end_ i
        else
          let found := memblockFindRegion memblock.reserved bottom top size align
          if found ≠ memblockError then found
          else findBaseLoop memblock size align start end_ i

/-- `memblock_find_base`; `end = MEMBLOCK_ALLOC_ACCESSIBLE` stands for the current limit. -/
def memblockFindBase (memblock : Memblock) (size align start end_ : Nat) : Nat :=
  let end_ := if end_ = 0 then memblock.currentLimit else end_
  findBaseLoop memblock size align start end_ memblock.memory.cnt

def memblockFindInRange (memblock : Memblock) (start end_ size align : Nat) : Nat :=
  memblockFindBase memblock size align start end_

/-- A range the search may return: aligned, inside `[start, end)`, clear of
every reserved region. -/
structure Fits (reserved : MemblockType) (start end_ size align b : Nat) : Prop where
  above : start ≤ b
  below : b + size ≤ end_
  aligned : align ∣ b
  clear : ∀ r ∈ reserved.regions, r.span.Apart ⟨b, b + size⟩

theorem Fits.mono {reserved : MemblockType} {start start' end_ end' size align b : Nat}
    (h : Fits reserved start end_ size align b) (hs : start' ≤ start) (he : end_ ≤ end') :
    Fits reserved start' end' size align b :=
  ⟨hs.trans h.above, h.below.trans he, h.aligned, h.clear⟩

theorem memblockAlignDown_dvd {addr k : Nat} (hk : k < 64) (h : addr < 2 ^ 64) :
    2 ^ k ∣ memblockAlignDown addr (2 ^ k) := by
  rw [memblockAlignDown, alignDown_two_pow hk h]
  exact Dvd.intro_left _ rfl

/-- Two byte ranges that fit in 64 bits overlap as `memblock_addrs_overlap` says. -/
theorem apart_of_not_overlap {r : MemblockRegion} {base size : Nat}
    (hr : r.base + r.size < 2 ^ 64) (h : base + size < 2 ^ 64)
    (no : memblockAddrsOverlap base size r.base r.size = false) :
    r.span.Apart ⟨base, base + size⟩ := by
  rw [memblockAddrsOverlap, u64, u64, wrap_of_lt hr, wrap_of_lt h, decide_eq_false_iff_not] at no
  intro x inRegion inRange
  simp only [MemblockRegion.span, Contains] at inRegion inRange
  omega

theorem findRegionLoop_fits {reserved : MemblockType} {start size k end_ : Nat} (hk : k < 64)
    (hend : end_ < 2 ^ 64) (hres : ∀ r ∈ reserved.regions, r.base + r.size < 2 ^ 64)
    (base : Nat) (aligned : 2 ^ k ∣ base) (below : base + size ≤ end_)
    (found : findRegionLoop reserved start size (2 ^ k) base ≠ memblockError) :
    Fits reserved start end_ size (2 ^ k) (findRegionLoop reserved start size (2 ^ k) base) := by
  induction base using Nat.strong_induction_on with
  | _ base ih =>
    rw [findRegionLoop] at found ⊢
    by_cases inside : start ≤ base
    · rw [if_pos inside] at found ⊢
      split at found
      · rename_i none
        exact ⟨inside, below, aligned, fun r hr =>
          apart_of_not_overlap (hres r hr) (by omega) (overlapBase_none none r hr)⟩
      · rename_i resBase some
        obtain ⟨r, hr, rfl, overlap⟩ := overlapBase_some some
        simp only [memblockAddrsOverlap, decide_eq_true_eq, u64] at overlap
        rw [wrap_of_lt (hres r hr), wrap_of_lt (by omega)] at overlap
        by_cases low : r.base < size
        · rw [if_pos low] at found
          exact (found rfl).elim
        · rw [if_neg low] at found
          simp only [low, if_false]
          have down : memblockAlignDown (r.base - size) (2 ^ k) ≤ r.base - size :=
            alignDown_le _ _ _
          have bound := hres r hr
          exact ih _ (by omega) (memblockAlignDown_dvd hk (by omega)) (by omega) found
    · rw [if_neg inside] at found
      exact (found rfl).elim

theorem memblockFindRegion_fits {reserved : MemblockType} {start end_ size k : Nat} (hk : k < 64)
    (hend : end_ < 2 ^ 64) (hres : ∀ r ∈ reserved.regions, r.base + r.size < 2 ^ 64)
    (found : memblockFindRegion reserved start end_ size (2 ^ k) ≠ memblockError) :
    Fits reserved start end_ size (2 ^ k)
      (memblockFindRegion reserved start end_ size (2 ^ k)) := by
  unfold memblockFindRegion at found ⊢
  by_cases small : end_ < size
  · rw [if_pos small] at found
    exact (found rfl).elim
  · rw [if_neg small] at found ⊢
    have down : memblockAlignDown (end_ - size) (2 ^ k) ≤ end_ - size := alignDown_le _ _ _
    refine (findRegionLoop_fits hk hend hres _ (memblockAlignDown_dvd hk (by omega)) (by omega)
      found).mono ?_ le_rfl
    split <;> omega

theorem findBaseLoop_fits {memblock : Memblock} {size k start end_ : Nat} (hk : k < 64)
    (hmem : ∀ r ∈ memblock.memory.regions, r.base + r.size < 2 ^ 64)
    (hres : ∀ r ∈ memblock.reserved.regions, r.base + r.size < 2 ^ 64) (i : Nat)
    (found : findBaseLoop memblock size (2 ^ k) start end_ i ≠ memblockError) :
    ∃ r ∈ memblock.memory.regions,
      Fits memblock.reserved (max r.base start) (min (r.base + r.size) end_) size (2 ^ k)
        (findBaseLoop memblock size (2 ^ k) start end_ i) := by
  induction i with
  | zero => exact (found rfl).elim
  | succ i ih =>
    rw [findBaseLoop] at found ⊢
    cases slot : memblock.memory.regions[i]? with
    | none => simp [slot] at found
    | some r =>
      simp only [slot] at found ⊢
      have hr : r ∈ memblock.memory.regions := List.mem_of_getElem? slot
      have bound := hmem r hr
      rw [show u64 (r.base + r.size) = r.base + r.size from wrap_of_lt bound] at found ⊢
      split_ifs at found ⊢ with small low empty here
      · exact ih found
      · exact (found rfl).elim
      · exact ih found
      · exact ⟨r, hr, memblockFindRegion_fits hk (by omega) hres here⟩
      · exact ih found

/-- A successful search returns a range of one memory region. -/
theorem memblockFindInRange_fits {memblock : Memblock} {size k start end_ : Nat} (hk : k < 64)
    (hmem : ∀ r ∈ memblock.memory.regions, r.base + r.size < 2 ^ 64)
    (hres : ∀ r ∈ memblock.reserved.regions, r.base + r.size < 2 ^ 64) (hend : end_ ≠ 0)
    (found : memblockFindInRange memblock start end_ size (2 ^ k) ≠ memblockError) :
    ∃ r ∈ memblock.memory.regions,
      Fits memblock.reserved (max r.base start) (min (r.base + r.size) end_) size (2 ^ k)
        (memblockFindInRange memblock start end_ size (2 ^ k)) := by
  simp only [memblockFindInRange, memblockFindBase, hend, if_false] at found ⊢
  exact findBaseLoop_fits hk hmem hres _ found

end XcKernel.Mm
