import XcKernel.Lib.Run
import XcKernel.Zones.Holes
import XcKernel.Range.Sorted
import Mathlib.Data.Set.Card
import Mathlib.Order.Bounds.Basic
import Mathlib.Tactic.IntervalCases

/-!
# The zones partition the node

`zone_spanned_pages_in_node` clips the limits of a zone after the movable zone
has been cut off, `zone_absent_pages_in_node` before.  Both work on the same
cuts of the node, whatever the rounded start of the movable zone is.
-/

namespace XcKernel.Zones

open Word Mm

theorem compares_startPfn : Range.Compares cmpNodeActiveRegion fun r r' => r.startPfn ≤ r'.startPfn where
  total := fun r r' => Nat.le_total _ _
  trans := Nat.le_trans
  sign := fun r r' => by
    unfold cmpNodeActiveRegion
    split_ifs <;> omega

theorem sortNodeMap_eq {map : List NodeActiveRegion} (h : Ordered map) : sortNodeMap map = some map := by
  obtain ⟨map', sorts, perm, sorted⟩ := Range.sort_sorted compares_startPfn map
  have strict : map.Pairwise fun r r' => r.startPfn < r'.startPfn := by
    refine h.sorted.imp_of_mem fun hr _ le => ?_
    have := h.proper _ hr
    omega
  have inj := List.inj_on_of_nodup_map
    (List.pairwise_map.mpr (strict.imp fun lt => Nat.ne_of_lt lt) : (map.map (·.startPfn)).Nodup)
  have same : map' = map := perm.eq_of_pairwise
    (fun r r' hr hr' le ge => inj (perm.mem_iff.mp hr) hr' (Nat.le_antisymm le ge))
    sorted (strict.imp Nat.le_of_lt)
  rw [sortNodeMap, sorts, same]

/-- The regions of the node: in order, all of them of node 0, from `low` to `high`. -/
structure NodeMap (map : List NodeActiveRegion) (low high : Nat) : Prop extends Ordered map where
  node : ∀ r ∈ map, r.nid = 0
  least : IsLeast {pfn | ∃ r ∈ map, r.startPfn = pfn} low
  greatest : IsGreatest {pfn | ∃ r ∈ map, r.endPfn = pfn} high
  small : high ≤ 2 ^ 20

variable {map : List NodeActiveRegion} {low high : Nat}

theorem NodeMap.low_lt_high (h : NodeMap map low high) : low < high := by
  obtain ⟨r, hr, rfl⟩ := h.least.1
  have := h.proper r hr
  have := h.greatest.2 ⟨r, hr, rfl⟩
  omega

theorem isLeast_foldl_min (l : List NodeActiveRegion) (start : Nat) :
    IsLeast {pfn | pfn = start ∨ ∃ r ∈ l, r.startPfn = pfn}
      (l.foldl (fun pfn r => min pfn r.startPfn) start) := by
  induction l generalizing start with
  | nil => exact ⟨.inl rfl, by rintro pfn (rfl | ⟨r, hr, -⟩); exacts [Nat.le_refl _, (by cases hr)]⟩
  | cons r l ih =>
    obtain ⟨attained, bound⟩ := ih (min start r.startPfn)
    have first := bound (.inl rfl)
    rw [List.foldl_cons]
    constructor
    · rcases attained with same | ⟨r', hr', same⟩
      · rw [same]
        rcases Nat.le_total start r.startPfn with le | le
        · exact .inl (min_eq_left le)
        · exact .inr ⟨r, List.mem_cons_self, (min_eq_right le).symm⟩
      · exact .inr ⟨r', List.mem_cons_of_mem r hr', same⟩
    · rintro pfn (rfl | ⟨r', hr', rfl⟩)
      · exact first.trans (min_le_left _ _)
      · rcases List.mem_cons.mp hr' with rfl | later
        · exact first.trans (min_le_right _ _)
        · exact bound (.inr ⟨r', later, rfl⟩)

theorem isGreatest_foldl_max (l : List NodeActiveRegion) (end_ : Nat) :
    IsGreatest {pfn | pfn = end_ ∨ ∃ r ∈ l, r.endPfn = pfn}
      (l.foldl (fun pfn r => max pfn r.endPfn) end_) := by
  induction l generalizing end_ with
  | nil => exact ⟨.inl rfl, by rintro pfn (rfl | ⟨r, hr, -⟩); exacts [Nat.le_refl _, (by cases hr)]⟩
  | cons r l ih =>
    obtain ⟨attained, bound⟩ := ih (max end_ r.endPfn)
    have first := bound (.inl rfl)
    rw [List.foldl_cons]
    constructor
    · rcases attained with same | ⟨r', hr', same⟩
      · rw [same]
        rcases Nat.le_total r.endPfn end_ with le | le
        · exact .inl (max_eq_left le)
        · exact .inr ⟨r, List.mem_cons_self, (max_eq_right le).symm⟩
      · exact .inr ⟨r', List.mem_cons_of_mem r hr', same⟩
    · rintro pfn (rfl | ⟨r', hr', rfl⟩)
      · exact (le_max_left _ _).trans first
      · rcases List.mem_cons.mp hr' with rfl | later
        · exact (le_max_right _ _).trans first
        · exact bound (.inr ⟨r', later, rfl⟩)

theorem NodeMap.foldl_min (h : NodeMap map low high) :
    map.foldl (fun pfn r => min pfn r.startPfn) ulongMax = low := by
  obtain ⟨attained, bound⟩ := isLeast_foldl_min map ulongMax
  have below := bound (.inr h.least.1)
  have := h.low_lt_high
  have := h.small
  rcases attained with same | other
  · rw [same, ulongMax] at below
    omega
  · exact Nat.le_antisymm below (h.least.2 other)

theorem NodeMap.foldl_max (h : NodeMap map low high) :
    map.foldl (fun pfn r => max pfn r.endPfn) 0 = high := by
  obtain ⟨attained, bound⟩ := isGreatest_foldl_max map 0
  have above := bound (.inr h.greatest.1)
  have := h.low_lt_high
  rcases attained with same | other
  · omega
  · exact Nat.le_antisymm (h.greatest.2 other) above

theorem foldl_pair (l : List NodeActiveRegion) (start end_ : Nat) :
    l.foldl (fun (start, end_) r => (min start r.startPfn, max end_ r.endPfn)) (start, end_) =
      (l.foldl (fun pfn r => min pfn r.startPfn) start, l.foldl (fun pfn r => max pfn r.endPfn) end_) := by
  induction l generalizing start end_ with
  | nil => rfl
  | cons r l ih =>
    rw [List.foldl_cons, List.foldl_cons, List.foldl_cons]
    exact ih _ _

theorem NodeMap.findMin (h : NodeMap map low high) {nid : Nat} (ranges : activeRanges map nid = map) :
    findMinPfnForNode map nid = low := by
  have := h.low_lt_high
  have := h.small
  rw [findMinPfnForNode, ranges, h.foldl_min]
  exact if_neg (by rw [ulongMax]; omega)

theorem NodeMap.getPfnRange (h : NodeMap map low high) : getPfnRangeForNid map 0 = (low, high) := by
  have := h.low_lt_high
  have := h.small
  rw [getPfnRangeForNid, activeRanges_zero h.node, foldl_pair, h.foldl_min, h.foldl_max]
  simp only [Prod.mk.injEq, and_true]
  exact if_neg (by rw [ulongMax]; omega)

theorem le_roundUp {x : Nat} (small : x ≤ 2 ^ 20) :
    x ≤ roundUp x maxOrderNrPages ∧ roundUp x maxOrderNrPages < 2 ^ 32 := by
  refine ⟨?_, wrap_lt 32 _⟩
  have mask : wrapSub 32 maxOrderNrPages 1 = 1023 := by decide
  rw [roundUp, mask]
  by_cases zero : x = 0
  · omega
  · have sub : wrapSub 32 x 1 = x - 1 := wrapSub_of_le (by omega) (by omega)
    have above : x - 1 ≤ (x - 1) ||| 1023 := Nat.left_le_or
    have below : (x - 1) ||| 1023 < 2 ^ 21 := Nat.or_lt_two_pow (by omega) (by omega)
    rw [sub, wrap_of_lt (by omega)]
    omega

/-- The limits for a map that starts at `low`, a DMA zone up to `dma` and a normal
zone up to `normal`; the movable zone starts at `movable`. -/
structure LimitsOk (a : ArchZones) (low dma normal : Nat) : Prop where
  lowest0 : a.lowest 0 = low
  highest0 : a.highest 0 = dma
  lowest1 : a.lowest 1 = dma
  highest1 : a.highest 1 = max normal dma
  lowest2 : a.lowest 2 = 0
  highest2 : a.highest 2 = 0
  movableZone : a.movableZone = if dma < normal then 1 else 0
  movable : (if dma < normal then dma else low) ≤ a.zoneMovablePfn
  word : a.zoneMovablePfn < 2 ^ 32

theorem LimitsOk.highest_movableZone {a : ArchZones} {low dma normal : Nat} (h : LimitsOk a low dma normal) :
    a.highest a.movableZone = max normal dma := by
  rw [h.movableZone]
  split_ifs with more
  · exact h.highest1
  · rw [h.highest0]
    omega

/-- Where the zones begin; the last one ends at the end of the node. -/
def cut (low high dma normal movable : Nat) : Nat → Nat
  | 0 => low
  | 1 => if dma < normal then min dma high else if movable = 0 then high else min movable high
  | 2 => if movable = 0 then high else min movable high
  | _ => high

/-- What the results on the cuts rest on. -/
structure Setting (map : List NodeActiveRegion) (a : ArchZones) (low high dma normal : Nat) : Prop where
  node : NodeMap map low high
  limits : LimitsOk a low dma normal
  first : low < dma
  fits : high ≤ normal ∨ high ≤ dma

variable {a : ArchZones} {dma normal : Nat}

theorem Setting.cut_mono (h : Setting map a low high dma normal) (j : Nat) :
    cut low high dma normal a.zoneMovablePfn j ≤ cut low high dma normal a.zoneMovablePfn (j + 1) := by
  have := h.node.low_lt_high
  have := h.first
  have := h.limits.movable
  match j with
  | 0 =>
    simp only [cut]
    split_ifs at * <;> omega
  | 1 =>
    simp only [cut]
    split_ifs at * <;> omega
  | 2 =>
    simp only [cut]
    split_ifs at * <;> omega
  | _ + 3 => exact Nat.le_refl _

theorem Setting.cut_le (h : Setting map a low high dma normal) (j : Nat) :
    cut low high dma normal a.zoneMovablePfn j ≤ high := by
  have := h.node.low_lt_high
  match j with
  | 0 => exact Nat.le_of_lt this
  | 1 =>
    simp only [cut]
    split_ifs <;> omega
  | 2 =>
    simp only [cut]
    split_ifs <;> omega
  | _ + 3 => exact Nat.le_refl _

/-! What `adjust_zone_range_for_zone_movable` does to a range: nothing without a
movable zone, and otherwise it cuts the other zones off where that begins. -/

section Adjust

variable {j nodeEnd start end_ : Nat}

theorem adjust_of_none (none : a.zoneMovablePfn = 0) :
    adjustZoneRangeForZoneMovable a j nodeEnd start end_ = (start, end_) := by
  rw [adjustZoneRangeForZoneMovable, if_neg (not_not.mpr none)]

theorem adjust_below (some : a.zoneMovablePfn ≠ 0) (other : j ≠ zoneMovable) :
    adjustZoneRangeForZoneMovable a j nodeEnd start end_ =
      if start < a.zoneMovablePfn then (start, min end_ a.zoneMovablePfn) else (end_, end_) := by
  rw [adjustZoneRangeForZoneMovable, if_pos some, if_neg other]
  by_cases before : start < a.zoneMovablePfn
  · rw [if_pos before]
    by_cases beyond : end_ > a.zoneMovablePfn
    · rw [if_pos ⟨before, beyond⟩, min_eq_right (Nat.le_of_lt beyond)]
    · rw [if_neg (fun both => beyond both.2), if_neg (Nat.not_le.mpr before),
        min_eq_left (Nat.le_of_not_lt beyond)]
  · rw [if_neg before, if_neg (fun both => before both.1), if_pos (Nat.le_of_not_lt before)]

theorem adjust_movable (some : a.zoneMovablePfn ≠ 0) (movable : j = zoneMovable) :
    adjustZoneRangeForZoneMovable a j nodeEnd start end_ =
      (a.zoneMovablePfn, min nodeEnd (a.highest a.movableZone)) := by
  rw [adjustZoneRangeForZoneMovable, if_pos some, if_pos movable]

end Adjust

/-- The part of the node in the limits of a zone goes from one cut to the next,
or there is none and neither is there between the cuts. -/
theorem Setting.limited (h : Setting map a low high dma normal) {j : Nat} (zone : j < maxNrZones)
    {r : Nat × Nat} (range : adjustZoneRangeForZoneMovable a j high (a.lowest j) (a.highest j) = r) :
    (r.2 < low ∨ r.1 > high →
      cut low high dma normal a.zoneMovablePfn (j + 1) ≤ cut low high dma normal a.zoneMovablePfn j) ∧
    (¬ (r.2 < low ∨ r.1 > high) → max r.1 low ≤ min r.2 high ∧ min r.2 high - max r.1 low =
      cut low high dma normal a.zoneMovablePfn (j + 1) - cut low high dma normal a.zoneMovablePfn j) := by
  have lt := h.node.low_lt_high
  have first := h.first
  have fits := h.fits
  have movable := h.limits.movable
  subst range
  simp only [maxNrZones] at zone
  by_cases none : a.zoneMovablePfn = 0
  · rw [adjust_of_none none]
    rw [none] at movable ⊢
    interval_cases j <;>
      simp only [h.limits.lowest0, h.limits.highest0, h.limits.lowest1, h.limits.highest1,
        h.limits.lowest2, h.limits.highest2, cut, if_true] <;>
      split_ifs at * <;> omega
  · interval_cases j
    · rw [adjust_below none (by decide), h.limits.lowest0, h.limits.highest0]
      simp only [cut, if_neg none]
      generalize a.zoneMovablePfn = m at *
      split_ifs at * <;> dsimp only <;> omega
    · rw [adjust_below none (by decide), h.limits.lowest1, h.limits.highest1]
      simp only [cut, if_neg none]
      generalize a.zoneMovablePfn = m at *
      split_ifs at * <;> dsimp only <;> omega
    · rw [adjust_movable none (show 2 = zoneMovable from rfl), h.limits.highest_movableZone]
      simp only [cut, if_neg none]
      generalize a.zoneMovablePfn = m at *
      split_ifs at * <;> omega

theorem Setting.spanned (h : Setting map a low high dma normal) {j : Nat} (zone : j < maxNrZones) :
    zoneSpannedPagesInNode map a 0 j =
      cut low high dma normal a.zoneMovablePfn (j + 1) - cut low high dma normal a.zoneMovablePfn j := by
  have small := h.node.small
  obtain ⟨outside, inside⟩ := h.limited zone rfl
  rw [zoneSpannedPagesInNode, h.node.getPfnRange]
  dsimp only
  split_ifs with out
  · exact (Nat.sub_eq_zero_of_le (outside out)).symm
  · obtain ⟨le, length⟩ := inside out
    rw [wrapSub_of_le le (by omega)]
    exact length

/-- The range in which holes are counted goes from one cut to the next, or the
zone is empty and the range is inverted. -/
theorem Setting.absentRange (h : Setting map a low high dma normal) {j : Nat} (zone : j < maxNrZones)
    {r : Nat × Nat} (range : adjustZoneRangeForZoneMovable a j high (max (a.lowest j) low)
      (min (a.highest j) high) = r) :
    (r.1 = cut low high dma normal a.zoneMovablePfn j ∧
        r.2 = cut low high dma normal a.zoneMovablePfn (j + 1)) ∨
      cut low high dma normal a.zoneMovablePfn j = cut low high dma normal a.zoneMovablePfn (j + 1) ∧
        r.2 ≤ r.1 ∧ r.2 ≤ high := by
  have lt := h.node.low_lt_high
  have first := h.first
  have fits := h.fits
  have movable := h.limits.movable
  subst range
  simp only [maxNrZones] at zone
  by_cases none : a.zoneMovablePfn = 0
  · rw [adjust_of_none none]
    rw [none] at movable ⊢
    interval_cases j <;>
      simp only [h.limits.lowest0, h.limits.highest0, h.limits.lowest1, h.limits.highest1,
        h.limits.lowest2, h.limits.highest2, cut, if_true, true_and] <;>
      split_ifs at * <;> omega
  · interval_cases j
    · rw [adjust_below none (by decide), h.limits.lowest0, h.limits.highest0]
      simp only [cut, if_neg none]
      generalize a.zoneMovablePfn = m at *
      split_ifs at * <;> dsimp only <;> omega
    · rw [adjust_below none (by decide), h.limits.lowest1, h.limits.highest1]
      simp only [cut, if_neg none]
      generalize a.zoneMovablePfn = m at *
      split_ifs at * <;> dsimp only <;> omega
    · rw [adjust_movable none (show 2 = zoneMovable from rfl), h.limits.highest_movableZone]
      simp only [cut, if_neg none]
      generalize a.zoneMovablePfn = m at *
      split_ifs at * <;> omega

theorem Setting.absent (h : Setting map a low high dma normal) {j : Nat} (zone : j < maxNrZones) :
    zoneAbsentPagesInNode map a 0 j =
      cut low high dma normal a.zoneMovablePfn (j + 1) - cut low high dma normal a.zoneMovablePfn j -
        activePages map (cut low high dma normal a.zoneMovablePfn j)
          (cut low high dma normal a.zoneMovablePfn (j + 1)) := by
  have mono := h.cut_mono j
  have small := h.node.small
  rw [zoneAbsentPagesInNode, h.node.getPfnRange]
  dsimp only
  rcases h.absentRange zone rfl with ⟨start, end_⟩ | ⟨empty, inverted, inside⟩
  · rw [start, end_]
    exact absentPagesInNidRange_eq h.node.toOrdered h.node.node mono (by have := h.cut_le (j + 1); omega)
  · obtain ⟨r, hr, last⟩ := h.node.greatest.1
    rw [absentPagesInNidRange_inverted h.node.node inverted hr (by omega), empty]
    omega

theorem limitsOk (node : NodeMap map low high) (maxZonePfn : Nat → Nat) (first : low < maxZonePfn 0)
    (dmaSmall : maxZonePfn 0 ≤ 2 ^ 20) (normalSmall : maxZonePfn 1 ≤ 2 ^ 20) :
    ∃ movableZone, findUsableZoneForMovable (zoneLimits map maxZonePfn) maxNrZones = some movableZone ∧
      LimitsOk ⟨zoneLimits map maxZonePfn, movableZone,
        findZoneMovablePfn (zoneLimits map maxZonePfn) movableZone⟩ low (maxZonePfn 0) (maxZonePfn 1) := by
  set l := zoneLimits map maxZonePfn with hl
  have lowest0 : l.lowest 0 = low := node.findMin (activeRanges_all map)
  have highest0 : l.highest 0 = maxZonePfn 0 := rfl
  have lowest1 : l.lowest 1 = maxZonePfn 0 := rfl
  have highest1 : l.highest 1 = max (maxZonePfn 1) (maxZonePfn 0) := rfl
  have movable {z : Nat} (less : l.lowest z ≤ l.highest z) (small : l.highest z ≤ 2 ^ 20) :
      l.lowest z ≤ findZoneMovablePfn l z ∧ findZoneMovablePfn l z < 2 ^ 32 := by
    have sub : wrapSub 32 (l.highest z) (l.lowest z) = l.highest z - l.lowest z :=
      wrapSub_of_le less (by omega)
    have rounded := le_roundUp (x := l.lowest z + (l.highest z - l.lowest z) / 10 * 9) (by omega)
    rw [findZoneMovablePfn, sub, wrap_of_lt (by omega : (l.highest z - l.lowest z) / 10 * 9 < 2 ^ 32),
      wrap_of_lt (by omega)]
    exact ⟨by omega, rounded.2⟩
  have usable : findUsableZoneForMovable l maxNrZones =
      some (if maxZonePfn 0 < maxZonePfn 1 then 1 else 0) := by
    simp only [findUsableZoneForMovable, maxNrZones, zoneMovable, if_true]
    rw [lowest0, highest0, lowest1, highest1]
    by_cases more : maxZonePfn 0 < maxZonePfn 1
    · simp [more]
    · simp [more, first]
  refine ⟨_, usable, lowest0, highest0, lowest1, highest1, rfl, rfl, rfl, ?_, ?_⟩
  · dsimp only
    split_ifs with more
    · exact (movable (z := 1) (by omega) (by omega)).1
    · have bound := (movable (z := 0) (by omega) (by omega)).1
      omega
  · dsimp only
    split_ifs with more
    · exact (movable (z := 1) (by omega) (by omega)).2
    · exact (movable (z := 0) (by omega) (by omega)).2

/-- A zone that goes from `start` to `end_`: what `free_area_init_core` has found
and recorded, and the two counts it rests on. -/
structure ZoneSpan (map : List NodeActiveRegion) (a : ArchZones) (waitTable : Nat → Bool) (c : Core)
    (j start end_ : Nat) : Prop where
  le : start ≤ end_
  span : c.spans[j]? = some (start, end_ - start)
  spannedPages : (c.zones j).spannedPages = end_ - start
  zoneStartPfn : start < end_ → waitTable j = true → (c.zones j).zoneStartPfn = start
  spanned : zoneSpannedPagesInNode map a 0 j = end_ - start
  noUnderflow : zoneAbsentPagesInNode map a 0 j ≤ zoneSpannedPagesInNode map a 0 j
  present : zoneSpannedPagesInNode map a 0 j - zoneAbsentPagesInNode map a 0 j =
    activePages map start end_

/-- The zones are consecutive from the start of the node to its end, and the
pages of the node are counted. -/
structure ZonesPartition (map : List NodeActiveRegion) (a : ArchZones) (waitTable : Nat → Bool)
    (pgdat : PglistData) (low high : Nat) : Prop where
  nodeStartPfn : pgdat.nodeStartPfn = low
  zones : ∃ bound : Nat → Nat, bound 0 = low ∧ bound maxNrZones = high ∧
    ∀ j < maxNrZones, ZoneSpan map a waitTable pgdat.core j (bound j) (bound (j + 1))
  sum : ∑ j ∈ Finset.range maxNrZones, (pgdat.core.zones j).spannedPages = pgdat.nodeSpannedPages
  nodeSpannedPages : pgdat.nodeSpannedPages = high - low
  nodePresentPages : pgdat.nodePresentPages = {pfn | Active map pfn}.ncard

theorem NodeMap.activePages_eq (h : NodeMap map low high) :
    activePages map low high = {pfn | Active map pfn}.ncard := by
  have all : {pfn | Active map pfn} = ((Finset.Ico low high).filter (Active map) : Finset Nat) := by
    ext pfn
    simp only [Set.mem_ofPred_eq, Finset.coe_filter, Finset.mem_Ico]
    refine ⟨fun active => ⟨?_, active⟩, And.right⟩
    obtain ⟨r, hr, start, end_⟩ := active
    have := h.least.2 ⟨r, hr, rfl⟩
    have := h.greatest.2 ⟨r, hr, rfl⟩
    omega
  rw [all, Set.ncard_coe_finset, activePages]

/-- The zones lie between the cuts `b`. -/
structure Cuts (map : List NodeActiveRegion) (a : ArchZones) (low high : Nat) (b : Nat → Nat) : Prop where
  zero : b 0 = low
  last : b maxNrZones = high
  mono : ∀ j, b j ≤ b (j + 1)
  spanned : ∀ j < maxNrZones, zoneSpannedPagesInNode map a 0 j = b (j + 1) - b j
  absent : ∀ j < maxNrZones, zoneAbsentPagesInNode map a 0 j =
    b (j + 1) - b j - activePages map (b j) (b (j + 1))

theorem Setting.cuts (h : Setting map a low high dma normal) :
    Cuts map a low high (cut low high dma normal a.zoneMovablePfn) :=
  ⟨rfl, rfl, h.cut_mono, fun _ => h.spanned, fun _ => h.absent⟩

variable {b : Nat → Nat}

theorem Cuts.le (h : Cuts map a low high b) {j k : Nat} (le : j ≤ k) : b j ≤ b k := by
  induction le with
  | refl => exact Nat.le_refl _
  | step _ ih => exact ih.trans (h.mono _)

theorem Cuts.le_high (h : Cuts map a low high b) {j : Nat} (zone : j ≤ maxNrZones) : b j ≤ high :=
  (h.le zone).trans (Nat.le_of_eq h.last)

/-- What `free_area_init_core` has written after `k` zones. -/
structure CoreUpTo (waitTable : Nat → Bool) (b : Nat → Nat) (k : Nat) (c : Core) : Prop where
  start : c.zoneStartPfn = b k
  spans : c.spans = (List.range k).map fun j => (b j, b (j + 1) - b j)
  spannedPages : ∀ j < k, (c.zones j).spannedPages = b (j + 1) - b j
  zoneStartPfn : ∀ j < k, b j < b (j + 1) → waitTable j = true → (c.zones j).zoneStartPfn = b j

theorem Cuts.initZone (h : Cuts map a low high b) (small : high ≤ 2 ^ 20) (dmaReserve : Nat)
    {waitTable : Nat → Bool} {k : Nat} (zone : k < maxNrZones) {c : Core}
    (done : CoreUpTo waitTable b k c) :
    CoreUpTo waitTable b (k + 1) (initZone map a dmaReserve waitTable 0 c k) := by
  have mono := h.mono k
  have bound : b (k + 1) ≤ high := h.le_high zone
  have size := h.spanned k zone
  refine ⟨?_, ?_, fun j lt => ?_, fun j lt => ?_⟩
  · simp only [Zones.initZone, size, done.start]
    split_ifs with positive
    · rw [wrap_of_lt (by omega)]
      omega
    · omega
  · simp only [Zones.initZone, size, done.start, done.spans, List.range_succ, List.map_append,
      List.map_cons, List.map_nil]
  · simp only [Zones.initZone, size]
    rcases Nat.lt_succ_iff_lt_or_eq.mp lt with old | rfl
    · rw [Function.update_of_ne (Nat.ne_of_lt old)]
      exact done.spannedPages j old
    · rw [Function.update_self]
  · simp only [Zones.initZone, size]
    rcases Nat.lt_succ_iff_lt_or_eq.mp lt with old | rfl
    · rw [Function.update_of_ne (Nat.ne_of_lt old)]
      exact done.zoneStartPfn j old
    · intro positive table
      rw [Function.update_self]
      dsimp only
      rw [if_pos ⟨by omega, table⟩, done.start]

theorem Cuts.core (h : Cuts map a low high b) (small : high ≤ 2 ^ 20) (dmaReserve : Nat)
    (waitTable : Nat → Bool) (c : Core) :
    CoreUpTo waitTable b maxNrZones ((List.range maxNrZones).foldl
      (Zones.initZone map a dmaReserve waitTable 0) { c with zoneStartPfn := low, spans := [] }) :=
  invariant_of_range (CoreUpTo waitTable b) (fun _ zone _ => h.initZone small dmaReserve zone)
    ⟨h.zero.symm, rfl, fun _ no => absurd no (Nat.not_lt_zero _), fun _ no => absurd no (Nat.not_lt_zero _)⟩

theorem Cuts.totalpages (h : Cuts map a low high b) (small : high ≤ 2 ^ 20) :
    calculateNodeTotalpages map a 0 = (high - low, activePages map low high) := by
  have total : (List.range maxNrZones).foldl
      (fun total i => wrap 32 (total + zoneSpannedPagesInNode map a 0 i)) 0 = b maxNrZones - low := by
    refine invariant_of_range (fun k total => total = b k - low) (fun k zone total sum => ?_)
      (by rw [h.zero]; omega)
    have above : low ≤ b k := h.zero ▸ h.le (Nat.zero_le k)
    have mono := h.mono k
    have bound : b (k + 1) ≤ high := h.le_high zone
    rw [sum, h.spanned k zone, wrap_of_lt (by omega)]
    omega
  have present : (List.range maxNrZones).foldl
      (fun total i => wrapSub 32 total (zoneAbsentPagesInNode map a 0 i)) (high - low) =
        high - b maxNrZones + activePages map low (b maxNrZones) := by
    refine invariant_of_range (fun k total => total = high - b k + activePages map low (b k))
      (fun k zone total sum => ?_) (by rw [h.zero, activePages_of_le (Nat.le_refl low), Nat.add_zero])
    have above : low ≤ b k := h.zero ▸ h.le (Nat.zero_le k)
    have mono := h.mono k
    have bound : b (k + 1) ≤ high := h.le_high zone
    have fewer := activePages_le map (b k) (b (k + 1))
    have counted := activePages_le map low (b k)
    rw [sum, h.absent k zone, wrapSub_of_le (by omega) (by omega), activePages_split map above mono]
    omega
  rw [h.last] at total present
  rw [calculateNodeTotalpages, total, present]
  simp

theorem Cuts.zoneSpan (h : Cuts map a low high b) {waitTable : Nat → Bool} {c : Core}
    (done : CoreUpTo waitTable b maxNrZones c) {j : Nat} (zone : j < maxNrZones) :
    ZoneSpan map a waitTable c j (b j) (b (j + 1)) := by
  have fewer := activePages_le map (b j) (b (j + 1))
  refine ⟨h.mono j, ?_, done.spannedPages j zone, done.zoneStartPfn j zone, h.spanned j zone, ?_, ?_⟩
  · rw [done.spans, List.getElem?_map, List.getElem?_range zone]
    rfl
  · rw [h.spanned j zone, h.absent j zone]
    omega
  · rw [h.spanned j zone, h.absent j zone]
    omega

/-- Every map in order, with its pages in the DMA zone and at most one zone above
it, is partitioned by the zones. -/
theorem zones_partition (node : NodeMap map low high) (maxZonePfn : Nat → Nat)
    (first : low < maxZonePfn 0) (fits : high ≤ maxZonePfn 1 ∨ high ≤ maxZonePfn 0)
    (dmaSmall : maxZonePfn 0 ≤ 2 ^ 20) (normalSmall : maxZonePfn 1 ≤ 2 ^ 20) (dmaReserve : Nat)
    (waitTable : Nat → Bool) (core : Core) :
    ∃ a pgdat, freeAreaInitNodes map maxZonePfn dmaReserve waitTable core = some (map, a, pgdat) ∧
      ZonesPartition map a waitTable pgdat low high := by
  obtain ⟨movableZone, usable, limits⟩ := limitsOk node maxZonePfn first dmaSmall normalSmall
  have cuts := (Setting.mk node limits first fits).cuts
  have done := cuts.core node.small dmaReserve waitTable core
  have total := cuts.totalpages node.small
  have start : findMinPfnForNode map 0 = low := node.findMin (activeRanges_zero node.node)
  refine ⟨_, _, by rw [freeAreaInitNodes, sortNodeMap_eq node.toOrdered]; simp only [usable, start]; rfl,
    rfl, ⟨_, cuts.zero, cuts.last, fun j zone => cuts.zoneSpan done zone⟩, ?_, ?_, ?_⟩
  · simp only [freeAreaInitNode, total]
    rw [Finset.sum_congr rfl fun j zone => done.spannedPages j (Finset.mem_range.mp zone),
      Finset.sum_range_tsub (monotone_nat_of_le_succ cuts.mono), cuts.last, cuts.zero]
  · simp only [freeAreaInitNode, total]
  · simp only [freeAreaInitNode, total]
    exact node.activePages_eq

/-- Low memory up to 636 KiB and from 1 MiB to 32 MiB. -/
def lowMemory : List NodeActiveRegion := [⟨1, 159, 0⟩, ⟨256, 8192, 0⟩]

theorem lowMemory_map : NodeMap lowMemory 1 8192 := by
  refine ⟨⟨by decide, by decide⟩, by decide, ⟨⟨_, List.mem_cons_self, rfl⟩, ?_⟩,
    ⟨⟨⟨256, 8192, 0⟩, by decide, rfl⟩, ?_⟩, by decide⟩
  · rintro pfn ⟨r, hr, rfl⟩
    revert r
    decide
  · rintro pfn ⟨r, hr, rfl⟩
    revert r
    decide

/-- With 16 MiB of DMA memory the zones of that map are 4095, 4096 and 0 pages. -/
theorem zones_partition_lowMemory :
    ∃ a pgdat, freeAreaInitNodes lowMemory (fun k => if k = 0 then 4096 else 8192) 0 (fun _ => true)
        ⟨fun _ => ⟨0, 0, 0⟩, 0, 0, 0, []⟩ = some (lowMemory, a, pgdat) ∧
      pgdat.core.spans = [(1, 4095), (4096, 4096), (8192, 0)] ∧
      ZonesPartition lowMemory a (fun _ => true) pgdat 1 8192 := by
  obtain ⟨a, pgdat, returns, partition⟩ := zones_partition lowMemory_map
    (fun k => if k = 0 then 4096 else 8192) (by decide) (by decide) (by decide) (by decide) 0
    (fun _ => true) ⟨fun _ => ⟨0, 0, 0⟩, 0, 0, 0, []⟩
  refine ⟨a, pgdat, returns, ?_, partition⟩
  have spans : (freeAreaInitNodes lowMemory (fun k => if k = 0 then 4096 else 8192) 0 (fun _ => true)
      ⟨fun _ => ⟨0, 0, 0⟩, 0, 0, 0, []⟩).map (·.2.2.core.spans) =
        some [(1, 4095), (4096, 4096), (8192, 0)] := by
    decide +kernel
  rw [returns] at spans
  exact Option.some.inj spans

end XcKernel.Zones
