import XcKernel.Range.Compared
import XcKernel.Range.Spec

/-!
# `clean_sort_range` and its comparison

`cmp_range` cuts a difference of 64 bits to an `int`, so the order that `sort`
sees is the order of the starts only for some pairs of ranges.  What comes out is
decided by the pairs that the heap sort compares.
-/

namespace XcKernel.Range

/-- The used slots come first, in ascending order, and the rest is empty. -/
structure CleanSorted (range : List Slot) (result : List Slot × Nat) : Prop where
  number : result.2 = used range
  length : result.1.length = range.length
  perm : (result.1.take result.2).Perm (range.filter (·.end_ ≠ 0))
  ascending : (result.1.take result.2).Pairwise fun r t => r.start ≤ t.start
  rest : ∀ r ∈ result.1.drop result.2, r.end_ = 0

/-- `clean_sort_range` does what it is for. -/
def Cleans (range : List Slot) : Prop :=
  ∃ result, cleanSortRange range = some result ∧ CleanSorted range result

/-- The true order of the starts, without a cut. -/
def startOrder (r1 r2 : Slot) : Int := r1.start - r2.start

/-- The low 32 bits of the difference of the starts have their sign bit set exactly if
the first one starts below the second. -/
def NarrowAgrees (r t : Slot) : Prop :=
  2 ^ 31 ≤ ((r.start : Int) - t.start) % 2 ^ 32 ↔ r.start < t.start

instance (r t : Slot) : Decidable (NarrowAgrees r t) := inferInstanceAs (Decidable (_ ↔ _))

/-- Sorting the used slots by their true order compares only pairs of starts whose
difference keeps its sign in 32 bits. -/
def NarrowsWell (range : List Slot) : Prop :=
  ∀ p ∈ sortPairs startOrder (gathered range), NarrowAgrees p.1 p.2

instance (range : List Slot) : Decidable (NarrowsWell range) := List.decidableBAll _ _

/-- The pairs that `clean_sort_range` gives to `cmp_range`. -/
def cleanSortRangePairs (range : List Slot) : List (Slot × Slot) :=
  let range := compact range 0 (range.length - 1) range.length
  let nrRange := (emptySlot range).getD range.length
  sortPairs cmpRange (range.take nrRange)

theorem cmpRange_neg_iff (r t : Slot) :
    cmpRange r t < 0 ↔ 2 ^ 31 ≤ ((r.start : Int) - t.start) % 2 ^ 32 := by
  simp only [cmpRange, Word.signed, Int.bmod_def]
  split <;> split <;> split <;> split <;> omega

theorem startOrder_neg_iff (r t : Slot) : startOrder r t < 0 ↔ r.start < t.start := by
  rw [startOrder]
  omega

theorem startOrder_compares : Compares startOrder fun r t => r.start ≤ t.start where
  total r t := Nat.le_total _ _
  trans := Nat.le_trans
  sign r t := by
    rw [startOrder_neg_iff]
    exact not_le.symm

theorem narrowAgrees_iff (pairs : List (Slot × Slot)) :
    (∀ p ∈ pairs, NarrowAgrees p.1 p.2) ↔ DecideAlike startOrder cmpRange pairs := by
  refine forall₂_congr fun p _ => ?_
  rw [NarrowAgrees, cmpRange_neg_iff, startOrder_neg_iff]
  exact ⟨Iff.symm, Iff.symm⟩

theorem cleanSortRangePairs_eq (range : List Slot) :
    cleanSortRangePairs range = sortPairs cmpRange (gathered range) := by
  obtain ⟨packed, -, -, same⟩ := compact_packed range
  rw [← same, packed.gathered_eq]
  rfl

theorem narrowsWell_iff (range : List Slot) :
    NarrowsWell range ↔ ∀ p ∈ cleanSortRangePairs range, NarrowAgrees p.1 p.2 := by
  rw [NarrowsWell, cleanSortRangePairs_eq, narrowAgrees_iff, narrowAgrees_iff]
  exact decideAlike_sortPairs_iff

theorem cleans_of_narrowsWell {range : List Slot} (narrows : NarrowsWell range) : Cleans range := by
  obtain ⟨rest, usedFirst, empty, length, eq⟩ := cleanSortRange_packed range
  have same := (sort_congr ((narrowAgrees_iff _).mp narrows)).1
  obtain ⟨sorted, sorts, perm, ascending⟩ := sort_sorted startOrder_compares (gathered range)
  have number := perm.length_eq
  refine ⟨(sorted ++ rest, (gathered range).length), by rw [eq, same, sorts]; rfl, ?_⟩
  have taken : (sorted ++ rest).take (gathered range).length = sorted := by
    rw [← number, List.take_left]
  have dropped : (sorted ++ rest).drop (gathered range).length = rest := by
    rw [← number, List.drop_left]
  constructor
  · rw [used, List.countP_eq_length_filter]
    exact usedFirst.length_eq
  · rw [List.length_append, number, length]
  · rw [taken]
    exact perm.trans usedFirst
  · rw [taken]
    exact ascending
  · rw [dropped]
    exact empty

theorem sort_pair (cmpFunc : Slot → Slot → Int) (r t : Slot) :
    sort cmpFunc [r, t] = some (if cmpFunc r t < 0 then [r, t] else [t, r]) ∧
      sortPairs cmpFunc [r, t] = [(r, t)] := by
  by_cases neg : cmpFunc r t < 0
  · simp [sort, heapify, siftDown, child, swap, sortHeap, sortPairs, heapifyPairs, siftDownPairs,
      childPairs, sortHeapPairs, neg, not_le.mpr neg]
  · simp [sort, heapify, siftDown, child, swap, sortHeap, sortPairs, heapifyPairs, siftDownPairs,
      childPairs, sortHeapPairs, neg, not_lt.mp neg]

theorem narrowsWell_of_cleans {range : List Slot} (few : used range ≤ 2) (cleans : Cleans range) :
    NarrowsWell range := by
  obtain ⟨rest, usedFirst, -, -, eq⟩ := cleanSortRange_packed range
  obtain ⟨result, eq', sorted⟩ := cleans
  have ascending := sorted.ascending
  rw [used, List.countP_eq_length_filter, ← usedFirst.length_eq] at few
  unfold NarrowsWell
  rcases slots : gathered range with _ | ⟨r, _ | ⟨t, _ | ⟨q, more⟩⟩⟩
  · exact fun p member => absurd member (by simp [sortPairs, heapifyPairs, heapify, sortHeapPairs])
  · exact fun p member => absurd member (by simp [sortPairs, heapifyPairs, heapify, sortHeapPairs])
  · rw [slots, (sort_pair cmpRange r t).1, eq'] at eq
    obtain rfl := Option.some.inj eq
    rw [(sort_pair startOrder r t).2, List.forall_mem_singleton, NarrowAgrees, ← cmpRange_neg_iff]
    by_cases neg : cmpRange r t < 0
    · have le : r.start ≤ t.start := by simpa [neg] using ascending
      refine iff_of_true neg (lt_of_le_of_ne le fun equal => ?_)
      rw [cmpRange_neg_iff, equal, sub_self] at neg
      omega
    · have le : t.start ≤ r.start := by simpa [neg] using ascending
      exact iff_of_false neg (not_lt.mpr le)
  · rw [slots] at few
    simp at few

theorem gathered_pair {r t : Slot} (hr : r.end_ ≠ 0) (ht : t.end_ ≠ 0) : gathered [r, t] = [r, t] := by
  simp [gathered, used, fill, hr, ht]

/-- For all arrays of some ranges: none is missorted exactly if none compares a pair
whose difference loses its sign. -/
theorem cleans_over_iff (S : Set Slot) :
    (∀ range : List Slot, (∀ r ∈ range, r.end_ ≠ 0 → r ∈ S) → Cleans range) ↔
      ∀ range : List Slot, (∀ r ∈ range, r.end_ ≠ 0 → r ∈ S) → NarrowsWell range := by
  refine ⟨fun cleans range among p member => ?_, fun narrows range among =>
    cleans_of_narrowsWell (narrows range among)⟩
  obtain ⟨rest, usedFirst, -⟩ := cleanSortRange_packed range
  have from_range : ∀ r ∈ gathered range, r ∈ range ∧ r.end_ ≠ 0 := by
    intro r inside
    have filtered := List.mem_filter.mp (usedFirst.subset inside)
    exact ⟨filtered.1, by simpa using filtered.2⟩
  obtain ⟨first, second⟩ := sortPairs_in startOrder _ p member
  have usedOne := from_range p.1 first
  have usedTwo := from_range p.2 second
  have pair : NarrowsWell [p.1, p.2] := by
    refine narrowsWell_of_cleans List.countP_le_length (cleans _ fun r inside _ => ?_)
    rcases List.mem_pair.mp inside with rfl | rfl
    · exact among _ usedOne.1 usedOne.2
    · exact among _ usedTwo.1 usedTwo.2
  rw [NarrowsWell, gathered_pair usedOne.2 usedTwo.2, (sort_pair startOrder p.1 p.2).2] at pair
  exact pair p (List.mem_singleton_self p)

/-- `clean_sort_range` cleans and sorts every array whose true order compares only
pairs that `cmp_range` decides rightly.  On every other array it has itself decided a
pair wrongly, and with at most two used slots the array then comes out wrong; no
condition on the slots that may occur is weaker. -/
theorem clean_sort_range_compared (range : List Slot) :
    (NarrowsWell range → Cleans range) ∧
    (NarrowsWell range ↔ ∀ p ∈ cleanSortRangePairs range, NarrowAgrees p.1 p.2) ∧
    (used range ≤ 2 → (Cleans range ↔ NarrowsWell range)) ∧
    ∀ S : Set Slot,
      (∀ range : List Slot, (∀ r ∈ range, r.end_ ≠ 0 → r ∈ S) → Cleans range) ↔
        ∀ range : List Slot, (∀ r ∈ range, r.end_ ≠ 0 → r ∈ S) → NarrowsWell range :=
  ⟨cleans_of_narrowsWell, narrowsWell_iff range, fun few =>
    ⟨narrowsWell_of_cleans few, cleans_of_narrowsWell⟩, cleans_over_iff⟩

/-- The starts `2 ^ 31` and 0 would be decided wrongly, but are never compared. -/
example : NarrowsWell [⟨0x80000000, 0x80000001⟩, ⟨0, 1⟩, ⟨0x40000000, 0x40000001⟩] ∧
    ¬ NarrowAgrees ⟨0x80000000, 0x80000001⟩ ⟨0, 1⟩ := by decide +kernel

/-- Two ranges 2 GB apart come out in descending order. -/
theorem clean_sort_range_far_apart :
    cleanSortRange [⟨0x80000001, 0x80000002⟩, ⟨0, 1⟩] =
        some ([⟨0x80000001, 0x80000002⟩, ⟨0, 1⟩], 2) ∧
      ¬ Cleans [⟨0x80000001, 0x80000002⟩, ⟨0, 1⟩] := by
  have result : cleanSortRange [⟨0x80000001, 0x80000002⟩, ⟨0, 1⟩] =
      some ([⟨0x80000001, 0x80000002⟩, ⟨0, 1⟩], 2) := by decide +kernel
  refine ⟨result, ?_⟩
  rintro ⟨_, eq, sorted⟩
  obtain rfl := Option.some.inj (result.symm.trans eq)
  have ascending := sorted.ascending
  simp at ascending

end XcKernel.Range
