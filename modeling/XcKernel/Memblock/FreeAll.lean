import XcKernel.Memblock.Bootmem
import XcKernel.PageAlloc.FreeMemory
import XcKernel.Range.Spec
import Mathlib.Algebra.BigOperators.Group.Finset.Piecewise
import Mathlib.Order.Interval.Finset.Nat

/-!
# Releasing boot memory

`free_all_bootmem`: the active ranges of the node map are put in an array, what
lies above the low memory and the reserved regions are cut out, and what is left
is handed to the page allocator.
-/

namespace XcKernel.Mm

open Word Range PageAlloc

/-- The size of the array, `count` in `__get_free_all_memory_range` -/
def rangeSlots (memblock : Memblock) (earlyNodeMap : List NodeActiveRegion) (nid : Nat) : Nat :=
  (memblock.reserved.cnt + (activeRanges earlyNodeMap nid).length) * 2

/-- `find_range_array`; `none` is its panic.  The array is cleared. -/
def findRangeArray (memblock : Memblock) (count : Nat) : Option (List Slot) :=
  let size := wrap 32 (16 * count)
  let mem := memblockFindInRange memblock 0 memblock.currentLimit size 16
  if mem = memblockError then none else some (List.replicate count ⟨0, 0⟩)

def addFromEarlyNodeMap (earlyNodeMap : List NodeActiveRegion) (range : List Slot) (nrRange nid : Nat) :
    List Slot × Nat :=
  (activeRanges earlyNodeMap nid).foldl (fun r e => addRange r.1 r.2 e.startPfn e.endPfn)
    (range, nrRange)

def pfnUp (x : Nat) : Nat := u64 (x + pageSize - 1) >>> pageShift

/-- `memblock_x86_subtract_reserved`, with the regions still to be subtracted -/
def memblockX86SubtractReserved (regions : List MemblockRegion) (range : List Slot) : List Slot :=
  regions.foldl (fun range r =>
    let finalStart := pfnDown r.base
    let finalEnd := pfnUp (u64 (r.base + r.size))
    if finalStart ≥ finalEnd then range else subtractRange range finalStart finalEnd) range

/-- The array of `__get_free_all_memory_range` before the reserved regions are cut out -/
def lowRanges (earlyNodeMap : List NodeActiveRegion) (range : List Slot) (nid startPfn endPfn : Nat) :
    List Slot :=
  let range := (addFromEarlyNodeMap earlyNodeMap range 0 nid).1
  let range := subtractRange range 0 startPfn
  subtractRange range endPfn (2 ^ 64 - 1)

/-- `__get_free_all_memory_range` -/
def getFreeMemoryRangeBetween (memblock : Memblock) (earlyNodeMap : List NodeActiveRegion)
    (nid startPfn endPfn : Nat) : Option (List Slot × Nat) :=
  match findRangeArray memblock (rangeSlots memblock earlyNodeMap nid) with
  | none => none
  | some range =>
    cleanSortRange (memblockX86SubtractReserved memblock.reserved.regions
      (lowRanges earlyNodeMap range nid startPfn endPfn))

def getFreeAllMemoryRange (memblock : Memblock) (earlyNodeMap : List NodeActiveRegion)
    (maxLowPfn nid : Nat) : Option (List Slot × Nat) :=
  getFreeMemoryRangeBetween memblock earlyNodeMap nid 0 maxLowPfn

/-- The loop of `free_all_memory_core_early`: the calls made and the count -/
def freeRanges (ranges : List Slot) : List BootmemCall × Nat :=
  ranges.foldl (fun r range => (r.1 ++ freePagesMemory (wrap 32 range.start) (wrap 32 range.end_),
    wrap 32 (r.2 + u64Sub range.end_ range.start))) ([], 0)

def freeAllMemoryCoreEarly (memblock : Memblock) (earlyNodeMap : List NodeActiveRegion)
    (maxLowPfn nid : Nat) : Option (List BootmemCall × Nat) :=
  (getFreeAllMemoryRange memblock earlyNodeMap maxLowPfn nid).map fun (range, nrRange) =>
    freeRanges (range.take nrRange)

def freeAllBootmem (memblock : Memblock) (earlyNodeMap : List NodeActiveRegion) (maxLowPfn : Nat) :
    Option (List BootmemCall × Nat) :=
  freeAllMemoryCoreEarly memblock earlyNodeMap maxLowPfn maxNumnodes

/-- The bytes of the page meet the region, as `memblock_addrs_overlap` tests it. -/
def MemblockRegion.Meets (r : MemblockRegion) (pfn : Nat) : Prop :=
  pfn * pageSize < r.base + r.size ∧ r.base < (pfn + 1) * pageSize

instance (r : MemblockRegion) (pfn : Nat) : Decidable (r.Meets pfn) :=
  inferInstanceAs (Decidable (_ ∧ _))

/-- The page lies in low memory, in an active range, and meets no reserved region. -/
def Releasable (memblock : Memblock) (earlyNodeMap : List NodeActiveRegion) (maxLowPfn pfn : Nat) :
    Prop :=
  pfn < maxLowPfn ∧ (∃ e ∈ earlyNodeMap, e.startPfn ≤ pfn ∧ pfn < e.endPfn) ∧
    ∀ r ∈ memblock.reserved.regions, ¬ r.Meets pfn

instance (memblock : Memblock) (earlyNodeMap : List NodeActiveRegion) (maxLowPfn pfn : Nat) :
    Decidable (Releasable memblock earlyNodeMap maxLowPfn pfn) :=
  inferInstanceAs (Decidable (_ ∧ _ ∧ _))

/-- An entry of the node map as a slot. -/
def NodeActiveRegion.slot (e : NodeActiveRegion) : Slot := ⟨e.startPfn, e.endPfn⟩

theorem addRange_foldl {es : List NodeActiveRegion} (nonempty : ∀ e ∈ es, e.startPfn < e.endPfn)
    (before : List Slot) {empties : Nat} (room : es.length ≤ empties) :
    es.foldl (fun r e => addRange r.1 r.2 e.startPfn e.endPfn)
        (before ++ List.replicate empties ⟨0, 0⟩, before.length) =
      (before ++ es.map (·.slot) ++ List.replicate (empties - es.length) ⟨0, 0⟩,
        before.length + es.length) := by
  induction es generalizing before empties with
  | nil => simp
  | cons e es ih =>
    obtain ⟨empties, rfl⟩ := Nat.exists_eq_add_of_lt (Nat.lt_of_lt_of_le (Nat.succ_pos es.length) room)
    rw [Nat.zero_add, List.foldl_cons, addRange, if_neg (not_le.mpr (nonempty e List.mem_cons_self)),
      if_neg (by simp)]
    have placed : (before ++ List.replicate (empties + 1) (⟨0, 0⟩ : Slot)).set before.length e.slot =
        (before ++ [e.slot]) ++ List.replicate empties ⟨0, 0⟩ := by
      rw [List.replicate_succ, List.set_append_right _ _ le_rfl]
      simp
    have next := ih (fun f hf => nonempty f (List.mem_cons_of_mem e hf)) (before ++ [e.slot])
      (by simpa using room : es.length ≤ empties)
    rw [List.length_append, List.length_singleton] at next
    dsimp only
    rw [← NodeActiveRegion.slot, placed, next]
    simp [Nat.add_comm, Nat.add_left_comm]

/-- Slots that cover each page at most once. -/
structure Stage (range : List Slot) (length slots : Nat) (P : Nat → Prop) [DecidablePred P] : Prop where
  length : range.length = length
  ok : ∀ r ∈ range, r.Ok
  used : used range ≤ slots
  cover : ∀ x, cover range x = if P x then 1 else 0

theorem Stage.congr {range : List Slot} {length slots : Nat} {P Q : Nat → Prop} [DecidablePred P]
    [DecidablePred Q] (h : Stage range length slots P) (same : ∀ x, P x ↔ Q x) :
    Stage range length slots Q := by
  refine ⟨h.length, h.ok, h.used, fun x => ?_⟩
  rw [h.cover x]
  exact if_congr (same x) rfl rfl

theorem Stage.subtract {range : List Slot} {length slots : Nat} {P : Nat → Prop} [DecidablePred P]
    (h : Stage range length slots P) (start end_ : Nat) (room : slots + 1 ≤ length) :
    Stage (subtractRange range start end_) length (slots + 1)
      (fun x => P x ∧ ¬ (start ≤ x ∧ x < end_)) := by
  have diff := subtractRange_difference h.ok start end_
  have once : Range.cover range start ≤ 1 := by
    rw [h.cover start]
    split <;> omega
  have used := h.used
  refine ⟨diff.length.trans h.length, diff.ok, diff.used.trans (by omega), fun x => ?_⟩
  by_cases inside : start ≤ x ∧ x < end_
  · rw [diff.inside x inside.1 inside.2, if_neg fun both => both.2 inside]
  · rw [diff.outside (by rw [h.length]; omega) x (by omega), h.cover x]
    exact if_congr (by simp [inside]) rfl rfl

theorem cover_slots {es : List NodeActiveRegion}
    (disjoint : es.Pairwise fun e f => e.endPfn ≤ f.startPfn ∨ f.endPfn ≤ e.startPfn) (x : Nat) :
    cover (es.map (·.slot)) x = if ∃ e ∈ es, e.startPfn ≤ x ∧ x < e.endPfn then 1 else 0 := by
  induction es with
  | nil => rfl
  | cons e es ih =>
    obtain ⟨first, rest⟩ := List.pairwise_cons.mp disjoint
    have ih := ih rest
    rw [cover] at ih ⊢
    rw [List.map_cons, List.countP_cons, ih]
    by_cases here : e.startPfn ≤ x ∧ x < e.endPfn
    · have others : ¬ ∃ f ∈ es, f.startPfn ≤ x ∧ x < f.endPfn := by
        rintro ⟨f, member, inside⟩
        have := first f member
        omega
      have contains : e.slot.Contains x := here
      rw [if_neg others, if_pos (decide_eq_true contains), if_pos]
      exact ⟨e, List.mem_cons_self, here⟩
    · have outside : ¬ e.slot.Contains x := here
      rw [if_neg (c := decide (e.slot.Contains x) = true) (by simpa using outside), Nat.add_zero]
      refine if_congr ⟨?_, ?_⟩ rfl rfl
      · rintro ⟨f, member, inside⟩
        exact ⟨f, List.mem_cons_of_mem e member, inside⟩
      · rintro ⟨f, member, inside⟩
        rcases List.mem_cons.mp member with rfl | later
        · exact absurd inside here
        · exact ⟨f, later, inside⟩

variable {memblock : Memblock} {earlyNodeMap : List NodeActiveRegion} {maxLowPfn : Nat}

/-- The regions of the node map are not empty, fit in words and share no page. -/
structure NodeMapOk (earlyNodeMap : List NodeActiveRegion) : Prop where
  nonempty : ∀ e ∈ earlyNodeMap, e.startPfn < e.endPfn
  words : ∀ e ∈ earlyNodeMap, e.endPfn < 2 ^ 32
  disjoint : earlyNodeMap.Pairwise fun e f => e.endPfn ≤ f.startPfn ∨ f.endPfn ≤ e.startPfn

theorem activeRanges_all : activeRanges earlyNodeMap maxNumnodes = earlyNodeMap := by
  simp [activeRanges]

/-- The active ranges below the limit. -/
theorem lowRanges_stage (ok : NodeMapOk earlyNodeMap) (maxLowPfn : Nat) {count : Nat}
    (room : earlyNodeMap.length + 1 ≤ count) :
    Stage (lowRanges earlyNodeMap (List.replicate count ⟨0, 0⟩) maxNumnodes 0 maxLowPfn) count
      (earlyNodeMap.length + 1)
      (fun x => x < maxLowPfn ∧ ∃ e ∈ earlyNodeMap, e.startPfn ≤ x ∧ x < e.endPfn) := by
  have added := addRange_foldl ok.nonempty [] (by omega : earlyNodeMap.length ≤ count)
  simp only [List.nil_append, List.length_nil, Nat.zero_add] at added
  unfold lowRanges addFromEarlyNodeMap
  rw [activeRanges_all, added]
  have empties : ∀ p : Slot → Bool, p ⟨0, 0⟩ = false →
      (List.replicate (count - earlyNodeMap.length) (⟨0, 0⟩ : Slot)).countP p = 0 := fun p hp => by
    rw [List.countP_replicate, hp]
    rfl
  have first : Stage (earlyNodeMap.map (·.slot) ++ List.replicate (count - earlyNodeMap.length) ⟨0, 0⟩)
      count earlyNodeMap.length (fun x => ∃ e ∈ earlyNodeMap, e.startPfn ≤ x ∧ x < e.endPfn) := by
    refine ⟨?_, fun r member => ?_, ?_, fun x => ?_⟩
    · rw [List.length_append, List.length_map, List.length_replicate]
      omega
    · rcases List.mem_append.mp member with entry | empty
      · obtain ⟨e, he, rfl⟩ := List.mem_map.mp entry
        exact .inr (ok.nonempty e he)
      · rw [List.eq_of_mem_replicate empty]
        exact .inl rfl
    · rw [used, List.countP_append, empties _ rfl, Nat.add_zero]
      exact List.countP_le_length.trans (by simp)
    · rw [← cover_slots ok.disjoint x, cover, cover, List.countP_append, empties _ (by simp [Slot.Contains])]
      rfl
  have nothing : ∀ range : List Slot, subtractRange range 0 0 = range := fun range => if_pos le_rfl
  dsimp only
  rw [nothing]
  refine (first.subtract maxLowPfn (2 ^ 64 - 1) room).congr fun x => ?_
  constructor
  · rintro ⟨⟨e, he, inside⟩, outside⟩
    have := ok.words e he
    exact ⟨by omega, e, he, inside⟩
  · rintro ⟨below, active⟩
    exact ⟨active, by omega⟩

theorem pfn_bounds {r : MemblockRegion} (end_ : r.base + r.size ≤ 2 ^ 64 - pageSize) (x : Nat) :
    (pfnDown r.base ≤ x ∧ x < pfnUp (u64 (r.base + r.size))) ↔ r.Meets x := by
  have small : r.base + r.size + pageSize - 1 < 2 ^ 64 := by
    simp only [pageSize] at end_ ⊢
    omega
  have sum : u64 (r.base + r.size) = r.base + r.size := wrap_of_lt (by
    simp only [pageSize] at end_
    omega)
  simp only [pfnDown, pfnUp, MemblockRegion.Meets, sum, pageShift, Nat.shiftRight_eq_div_pow]
  rw [u64, wrap_of_lt small]
  simp only [pageSize]
  omega

/-- Each region needs one slot at most. -/
theorem subtractReserved_stage {regions : List MemblockRegion}
    (ends : ∀ r ∈ regions, r.base + r.size ≤ 2 ^ 64 - pageSize) {range : List Slot}
    {length slots : Nat} {P : Nat → Prop} [DecidablePred P] (h : Stage range length slots P)
    (room : slots + regions.length ≤ length) :
    Stage (memblockX86SubtractReserved regions range) length (slots + regions.length)
      (fun x => P x ∧ ∀ r ∈ regions, ¬ r.Meets x) := by
  induction regions generalizing range slots P with
  | nil => exact h.congr fun x => by simp
  | cons r regions ih =>
    have bounds := pfn_bounds (ends r List.mem_cons_self)
    rw [List.length_cons] at room ⊢
    have next : Stage (if pfnDown r.base ≥ pfnUp (u64 (r.base + r.size)) then range
        else subtractRange range (pfnDown r.base) (pfnUp (u64 (r.base + r.size)))) length (slots + 1)
        (fun x => P x ∧ ¬ r.Meets x) := by
      split
      · rename_i none
        refine ⟨h.length, h.ok, h.used.trans (Nat.le_succ _), fun x => ?_⟩
        rw [h.cover x]
        refine if_congr ⟨fun p => ⟨p, fun meets => ?_⟩, fun p => p.1⟩ rfl rfl
        have := (bounds x).mpr meets
        omega
      · exact (h.subtract _ _ (by omega)).congr fun x => by rw [bounds x]
    have rest := ih (fun q hq => ends q (List.mem_cons_of_mem r hq)) next (by omega)
    have total : slots + 1 + regions.length = slots + (regions.length + 1) := by omega
    rw [total] at rest
    exact rest.congr fun x => by simp [and_assoc]

theorem freeRanges_eq {ranges : List Slot} (small : ∀ r ∈ ranges, r.start < r.end_ ∧ r.end_ < 2 ^ 31)
    (total : (ranges.map fun r => r.end_ - r.start).sum < 2 ^ 32) :
    freeRanges ranges = (ranges.flatMap fun r => freePagesMemory r.start r.end_,
      (ranges.map fun r => r.end_ - r.start).sum) := by
  have general : ∀ (ranges : List Slot) (calls : List BootmemCall) (count : Nat),
      (∀ r ∈ ranges, r.start < r.end_ ∧ r.end_ < 2 ^ 31) →
      count + (ranges.map fun r => r.end_ - r.start).sum < 2 ^ 32 →
      ranges.foldl (fun r range => (r.1 ++ freePagesMemory (wrap 32 range.start) (wrap 32 range.end_),
        wrap 32 (r.2 + u64Sub range.end_ range.start))) (calls, count) =
      (calls ++ ranges.flatMap fun r => freePagesMemory r.start r.end_,
        count + (ranges.map fun r => r.end_ - r.start).sum) := by
    intro ranges
    induction ranges with
    | nil => simp
    | cons r ranges ih =>
      intro calls count small total
      obtain ⟨lt, bound⟩ := small r List.mem_cons_self
      rw [List.map_cons, List.sum_cons] at total
      have size : u64Sub r.end_ r.start = r.end_ - r.start := wrapSub_of_le lt.le (by omega)
      rw [List.foldl_cons]
      dsimp only
      rw [wrap_of_lt (by omega : r.start < 2 ^ 32), wrap_of_lt (by omega : r.end_ < 2 ^ 32), size,
        wrap_of_lt (by omega : count + (r.end_ - r.start) < 2 ^ 32),
        ih _ _ (fun q hq => small q (List.mem_cons_of_mem r hq)) (by omega)]
      simp [Nat.add_assoc]
  rw [freeRanges, general ranges [] 0 small (by omega), List.nil_append, Nat.zero_add]

theorem countP_freePagesMemory {ranges : List Slot}
    (small : ∀ r ∈ ranges, r.start < r.end_ ∧ r.end_ < 2 ^ 31) (x : Nat) :
    (ranges.flatMap fun r => freePagesMemory r.start r.end_).countP (·.Covers x) = cover ranges x := by
  induction ranges with
  | nil => rfl
  | cons r ranges ih =>
    obtain ⟨lt, bound⟩ := small r List.mem_cons_self
    have tiles := (freePagesMemory_tiles lt.le bound).countP x
    rw [List.flatMap_cons, List.countP_append, tiles,
      ih fun q hq => small q (List.mem_cons_of_mem r hq), cover, cover, List.countP_cons, Nat.add_comm]
    simp only [decide_eq_true_eq]
    rfl

theorem sum_lengths {ranges : List Slot} {bound : Nat} (below : ∀ r ∈ ranges, r.end_ ≤ bound) :
    (ranges.map fun r => r.end_ - r.start).sum = ∑ x ∈ Finset.range bound, cover ranges x := by
  induction ranges with
  | nil => simp [cover]
  | cons r ranges ih =>
    have here := below r List.mem_cons_self
    have one : ∑ x ∈ Finset.range bound, (if r.Contains x then 1 else 0) = r.end_ - r.start := by
      rw [← Finset.card_filter]
      have same : (Finset.range bound).filter r.Contains = Finset.Ico r.start r.end_ := by
        ext x
        simp only [Finset.mem_filter, Finset.mem_range, Finset.mem_Ico, Slot.Contains]
        omega
      rw [same, Nat.card_Ico]
    rw [List.map_cons, List.sum_cons, ih fun q hq => below q (List.mem_cons_of_mem r hq), ← one,
      ← Finset.sum_add_distrib]
    refine Finset.sum_congr rfl fun x _ => ?_
    rw [cover, cover, List.countP_cons, Nat.add_comm]
    simp

/-- The calls release each page that may be released once, and no other page. -/
structure Releases (memblock : Memblock) (earlyNodeMap : List NodeActiveRegion) (maxLowPfn : Nat)
    (r : List BootmemCall × Nat) : Prop where
  covers : ∀ pfn, r.1.countP (·.Covers pfn) =
    if Releasable memblock earlyNodeMap maxLowPfn pfn then 1 else 0
  orders : ∀ c ∈ r.1, c.order = 0 ∨ c.order = 5 ∧ 32 ∣ c.page
  count : r.2 = ((Finset.range maxLowPfn).filter (Releasable memblock earlyNodeMap maxLowPfn)).card

theorem freeRanges_releases {ranges : List Slot} (low : maxLowPfn < 2 ^ 31)
    (ok : ∀ r ∈ ranges, r.start < r.end_)
    (covers : ∀ x, cover ranges x = if Releasable memblock earlyNodeMap maxLowPfn x then 1 else 0) :
    Releases memblock earlyNodeMap maxLowPfn (freeRanges ranges) := by
  have below : ∀ r ∈ ranges, r.end_ ≤ maxLowPfn := fun r member => by
    have lt := ok r member
    have pos : 0 < cover ranges (r.end_ - 1) :=
      List.countP_pos_iff.mpr ⟨r, member, decide_eq_true ⟨by omega, by omega⟩⟩
    rw [covers] at pos
    split at pos
    · rename_i releasable
      have := releasable.1
      omega
    · omega
  have small : ∀ r ∈ ranges, r.start < r.end_ ∧ r.end_ < 2 ^ 31 := fun r member =>
    ⟨ok r member, (below r member).trans_lt low⟩
  have count : (ranges.map fun r => r.end_ - r.start).sum =
      ((Finset.range maxLowPfn).filter (Releasable memblock earlyNodeMap maxLowPfn)).card := by
    rw [sum_lengths below, Finset.card_filter]
    exact Finset.sum_congr rfl fun x _ => covers x
  have card : ((Finset.range maxLowPfn).filter (Releasable memblock earlyNodeMap maxLowPfn)).card ≤
      maxLowPfn := (Finset.card_filter_le _ _).trans_eq (Finset.card_range maxLowPfn)
  rw [freeRanges_eq small (by rw [count]; omega)]
  refine ⟨fun pfn => ?_, fun c member => ?_, count⟩
  · rw [countP_freePagesMemory small, covers]
  · obtain ⟨r, hr, call⟩ := List.mem_flatMap.mp member
    exact (freePagesMemory_order (ok r hr).le (small r hr).2 call).imp And.left id

/-- The array after the first regions have been cut out. -/
def rangesAfter (memblock : Memblock) (earlyNodeMap : List NodeActiveRegion) (maxLowPfn n : Nat) :
    List Slot :=
  memblockX86SubtractReserved (memblock.reserved.regions.take n)
    (lowRanges earlyNodeMap
      (List.replicate (rangeSlots memblock earlyNodeMap maxNumnodes) ⟨0, 0⟩) maxNumnodes 0 maxLowPfn)

theorem rangesAfter_stage (ends : ∀ r ∈ memblock.reserved.regions, r.base + r.size ≤ 2 ^ 64 - pageSize)
    (map : NodeMapOk earlyNodeMap) (maxLowPfn : Nat)
    (some_slot : 0 < rangeSlots memblock earlyNodeMap maxNumnodes) {n : Nat}
    (le : n ≤ memblock.reserved.cnt) :
    Stage (rangesAfter memblock earlyNodeMap maxLowPfn n) (rangeSlots memblock earlyNodeMap maxNumnodes)
      (earlyNodeMap.length + 1 + n)
      (fun x => (x < maxLowPfn ∧ ∃ e ∈ earlyNodeMap, e.startPfn ≤ x ∧ x < e.endPfn) ∧
        ∀ r ∈ memblock.reserved.regions.take n, ¬ r.Meets x) := by
  have slots : rangeSlots memblock earlyNodeMap maxNumnodes =
      (memblock.reserved.cnt + earlyNodeMap.length) * 2 := by
    rw [rangeSlots, activeRanges_all]
  have taken : (memblock.reserved.regions.take n).length = n := List.length_take_of_le le
  have room : earlyNodeMap.length + 1 ≤ rangeSlots memblock earlyNodeMap maxNumnodes := by omega
  have stage := subtractReserved_stage (fun r hr => ends r (List.mem_of_mem_take hr))
    (lowRanges_stage map maxLowPfn room) (by rw [taken]; omega)
  rwa [taken] at stage

theorem findRangeArray_eq {count : Nat} (found : (findRangeArray memblock count).isSome) :
    findRangeArray memblock count = some (List.replicate count ⟨0, 0⟩) := by
  unfold findRangeArray at found ⊢
  dsimp only at found ⊢
  split at found
  · cases found
  · rename_i some
    rw [if_neg some]

theorem freeAllBootmem_noSlots (found : findRangeArray memblock 0 = some [])
    (noSlots : rangeSlots memblock earlyNodeMap maxNumnodes = 0) :
    ∃ r, freeAllBootmem memblock earlyNodeMap maxLowPfn = some r ∧
      Releases memblock earlyNodeMap maxLowPfn r := by
  rw [rangeSlots, activeRanges_all] at noSlots
  have regions : memblock.reserved.regions = [] := List.eq_nil_of_length_eq_zero (by
    rw [← MemblockType.cnt]
    omega)
  obtain rfl : earlyNodeMap = [] := List.eq_nil_of_length_eq_zero (by omega)
  have nothing : ∀ pfn, ¬ Releasable memblock [] maxLowPfn pfn := by simp [Releasable]
  refine ⟨([], 0), ?_, fun pfn => by simp [nothing], by simp, by simp [nothing]⟩
  have slots : rangeSlots memblock [] maxNumnodes = 0 := by
    rw [rangeSlots, MemblockType.cnt, regions]
    rfl
  have low : lowRanges [] [] maxNumnodes 0 maxLowPfn = [] := by
    simp [lowRanges, addFromEarlyNodeMap, activeRanges, subtractRange]
  rw [freeAllBootmem, freeAllMemoryCoreEarly, getFreeAllMemoryRange, getFreeMemoryRangeBetween, slots, found]
  dsimp only
  rw [low, regions]
  rfl

/-- Once the array is found, `free_all_bootmem` releases what there is to release,
and there is an empty slot for every region it cuts out. -/
theorem free_all_bootmem_exact
    (ends : ∀ r ∈ memblock.reserved.regions, r.base + r.size ≤ 2 ^ 64 - pageSize)
    (map : NodeMapOk earlyNodeMap) (low : maxLowPfn < 2 ^ 31)
    (found : (findRangeArray memblock (rangeSlots memblock earlyNodeMap maxNumnodes)).isSome) :
    (∃ r, freeAllBootmem memblock earlyNodeMap maxLowPfn = some r ∧
      Releases memblock earlyNodeMap maxLowPfn r) ∧
    ∀ n < memblock.reserved.cnt, (emptySlot (rangesAfter memblock earlyNodeMap maxLowPfn n)).isSome := by
  have array := findRangeArray_eq found
  rcases Nat.eq_zero_or_pos (rangeSlots memblock earlyNodeMap maxNumnodes) with none | some_slot
  · rw [none] at array
    refine ⟨freeAllBootmem_noSlots array none, fun n hn => ?_⟩
    rw [rangeSlots] at none
    omega
  · refine ⟨?_, fun n hn => ?_⟩
    · have stage := rangesAfter_stage ends map maxLowPfn some_slot le_rfl
      rw [MemblockType.cnt, List.take_length] at stage
      obtain ⟨sorted, rest, sorts, perm⟩ :=
        cleanSortRange_perm (rangesAfter memblock earlyNodeMap maxLowPfn memblock.reserved.regions.length)
      refine ⟨freeRanges sorted, ?_, freeRanges_releases low (fun r member => ?_) fun x => ?_⟩
      · rw [rangesAfter, List.take_length] at sorts
        rw [freeAllBootmem, freeAllMemoryCoreEarly, getFreeAllMemoryRange, getFreeMemoryRangeBetween, array]
        dsimp only
        rw [sorts, Option.map_some, List.take_left]
      · have filtered := List.mem_filter.mp (perm.mem_iff.mp member)
        exact (stage.ok r filtered.1).resolve_left (by simpa using filtered.2)
      · rw [cover, perm.countP_eq, List.countP_filter]
        have same : (rangesAfter memblock earlyNodeMap maxLowPfn memblock.reserved.regions.length).countP
            (fun r => decide (r.Contains x) && decide (r.end_ ≠ 0)) =
            cover (rangesAfter memblock earlyNodeMap maxLowPfn memblock.reserved.regions.length) x := by
          refine List.countP_congr fun r _ => ?_
          simp only [Bool.and_eq_true, decide_eq_true_eq, and_iff_left_iff_imp]
          exact fun contains => by have := contains.2; omega
        rw [same, stage.cover x]
        exact if_congr (by rw [Releasable, and_assoc]) rfl rfl
    · have stage := rangesAfter_stage ends map maxLowPfn some_slot hn.le
      rw [Option.isSome_iff_ne_none]
      intro full
      have := emptySlot_none full
      have := stage.used
      have := stage.length
      have slots : rangeSlots memblock earlyNodeMap maxNumnodes =
          (memblock.reserved.cnt + earlyNodeMap.length) * 2 := by
        rw [rangeSlots, activeRanges_all]
      omega

/-- Low memory of 70 pages with one reserved region that starts and ends inside a page. -/
def seventyPages : Memblock :=
  ⟨2 ^ 32, 0, ⟨128, [⟨0, 0x46000⟩]⟩, ⟨128, [⟨0x2800, 0x1000⟩]⟩⟩

/-- Pages 2 and 3 are kept. -/
theorem free_all_bootmem_exact_seventy :
    ∃ r, freeAllBootmem seventyPages [⟨0, 70, 0⟩] 70 = some r ∧
      Releases seventyPages [⟨0, 70, 0⟩] 70 r ∧ r.2 = 68 := by
  obtain ⟨⟨r, returns, releases⟩, -⟩ := @free_all_bootmem_exact seventyPages [⟨0, 70, 0⟩] 70 (by decide)
    ⟨by decide, by decide, by decide⟩ (by decide) (by decide +kernel)
  exact ⟨r, returns, releases, releases.count.trans (by decide +kernel)⟩

end XcKernel.Mm
