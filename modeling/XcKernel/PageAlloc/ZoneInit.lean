import XcKernel.PageAlloc.Movable
import XcKernel.Zones.Spans

/-!
# Setting up the zones of a node

`free_area_init_core` gives each zone the next pages of the node, with the sizes
that `zone_spanned_pages_in_node` computes, empties its lists and initialises its
part of the page map.  What it leaves is where the runs of the page allocator
start: every zone is empty, and the pages of the node wait for boot memory to be
handed over.
-/

namespace XcKernel.PageAlloc

open Blocks Word Mm
open Zones (ArchZones zoneSpannedPagesInNode NodeMap Setting Cuts)

/-- One round of the loop of `free_area_init_core`.  `waitTable` says whether the
wait table could be allocated; the bitmap of the pageblocks is, and is zero. -/
def Node.initZone (n : Node) (waitTable : Bool) (size startPfn j : Nat) : Node :=
  let s := n.view j
  let s := { s with zone := { s.zone with spannedPages := size, vmStat := fun _ => 0 } }
  if size = 0 then n.put j s
  else
    let s := { s with zone := { s.zone with pageblockFlags := fun _ => false } }
    n.put j (memmapInitZone (initCurrentlyEmptyZone waitTable s startPfn).2 size j startPfn)

/-- The loop of `free_area_init_core`: the node, and where the next zone would start -/
def Node.freeAreaInitCore (map : List NodeActiveRegion) (a : ArchZones) (waitTable : Nat → Bool)
    (n : Node) (nodeStartPfn : Nat) : Node × Nat :=
  (List.range maxNrZones).foldl (fun r j =>
    let size := zoneSpannedPagesInNode map a 0 j
    (r.1.initZone (waitTable j) size r.2 j, if size ≠ 0 then wrap 32 (r.2 + size) else r.2))
    (n, nodeStartPfn)

/-- What `build_all_zonelists` does beside building the zonelist. -/
def Node.buildAllZonelists (n : Node) : Node :=
  { n with pageset := setupPageset 0, pageGroupByMobilityDisabled := false }

/-- The node before it is set up: the variables are in the BSS section and the page
map comes from the boot memory allocator, which clears it. -/
structure ZeroNode (n : Node) : Prop where
  memMap : ∀ p, n.memMap p = zeroedPage
  idx : ∀ j, (n.zones j).idx = j
  lists : ∀ j o t, (n.zones j).freeList o t = []
  nrFree : ∀ j o, (n.zones j).nrFree o = 0
  pageblockFlags : ∀ j b, (n.zones j).pageblockFlags b = false
  enabled : n.pageGroupByMobilityDisabled = false

variable {s : State} {n n₀ : Node} {start size k : Nat}

theorem memmapInitRound_memMap (zone pfn p : Nat) : (memmapInitRound zone s pfn).memMap p =
    if p = pfn then memmapInitPage (s.memMap p) zone else s.memMap p := by
  have page : ∀ s' : State, (setPageblockMigratetype s' pfn migrateMovable).memMap = s'.memMap :=
    fun _ => rfl
  rw [memmapInitRound]
  split_ifs with marks here here <;> simp [page, State.modifyPage, here]

theorem memmapInitZone_memMap (zone p : Nat) : (memmapInitZone s size zone start).memMap p =
    if start ≤ p ∧ p < start + size then memmapInitPage (s.memMap p) zone else s.memMap p := by
  induction size with
  | zero => simp [memmapInitZone]
  | succ size ih =>
    rw [memmapInitZone] at ih ⊢
    rw [List.range'_1_concat, List.foldl_append, List.foldl_cons, List.foldl_nil,
      memmapInitRound_memMap]
    split_ifs with last inside inside
    · rw [ih, if_neg (by omega)]
    · omega
    · rw [ih, if_pos (by omega)]
    · rw [ih, if_neg (by omega)]

/-- A zone that spans the pages from `start` to `end_` and has nothing in its lists. -/
structure EmptySpan (z : Zone) (start end_ : Nat) : Prop where
  spannedPages : z.spannedPages = end_ - start
  zoneStartPfn : start < end_ → z.zoneStartPfn = start
  lists : ∀ o t, z.freeList o t = []
  nrFree : ∀ o, z.nrFree o = 0
  stat : z.vmStat .nrFreePages = 0
  types : ∀ j, readGroup z.pageblockFlags (j * nrPageblockBits) < migrateTypes

/-- The zone of a range of pages that are initialised for the first time. -/
theorem memmapInitZone_emptySpan (zone : Nat) (enabled : s.pageGroupByMobilityDisabled = false)
    (empty : EmptySpan s.zone start (start + size)) (positive : size ≠ 0) :
    EmptySpan (memmapInitZone s size zone start).zone start (start + size) ∧
      (memmapInitZone s size zone start).zone.idx = s.zone.idx ∧
      (memmapInitZone s size zone start).pageGroupByMobilityDisabled = false := by
  have first : s.zone.zoneStartPfn = start := empty.zoneStartPfn (by omega)
  have span : s.zone.spannedPages = size := by rw [empty.spannedPages, Nat.add_sub_cancel_left]
  have marked := memmapInitZone_marked (k := size) zone enabled first span.ge
  refine ⟨?_, by rw [marked.zone], marked.disabled.trans enabled⟩
  rw [marked.zone]
  refine ⟨empty.spannedPages, empty.zoneStartPfn, empty.lists, empty.nrFree, empty.stat, fun j => ?_⟩
  by_cases marks : MarksBlock start size j
  · rw [marked.marked j marks]
    decide
  · rw [marked.other j marks]
    exact empty.types j

theorem readGroup_zero (j : Nat) : readGroup (fun _ => false) j < migrateTypes := by
  have zero : readGroup (fun _ => false) j = readGroup (fun _ => false) 0 :=
    readGroup_congr fun _ _ => rfl
  rw [zero]
  decide

variable {b : Nat → Nat}

/-- The node after the first `k` zones, which lie between the cuts `b`. -/
structure InitUpTo (b : Nat → Nat) (n₀ : Node) (k : Nat) (n : Node) : Prop where
  idx : ∀ j, (n.zones j).idx = j
  enabled : n.pageGroupByMobilityDisabled = false
  later : ∀ j, k ≤ j → n.zones j = n₀.zones j
  zones : ∀ j < k, EmptySpan (n.zones j) (b j) (b (j + 1))
  inside : ∀ j < k, ∀ p, b j ≤ p → p < b (j + 1) → n.memMap p = memmapInitPage zeroedPage j
  outside : ∀ p, (∀ j < k, ¬ (b j ≤ p ∧ p < b (j + 1))) → n.memMap p = zeroedPage

theorem ZeroNode.initUpTo (zero : ZeroNode n₀) (b : Nat → Nat) : InitUpTo b n₀ 0 n₀ :=
  ⟨zero.idx, zero.enabled, fun _ _ => rfl, fun _ no => absurd no (Nat.not_lt_zero _),
    fun _ no => absurd no (Nat.not_lt_zero _), fun p _ => zero.memMap p⟩

theorem InitUpTo.skip (zero : ZeroNode n₀) (done : InitUpTo b n₀ k n) (empty : b (k + 1) = b k)
    (waitTable : Bool) (start : Nat) : InitUpTo b n₀ (k + 1) (n.initZone waitTable 0 start k) := by
  have zones : ∀ j, (n.initZone waitTable 0 start k).zones j = if j = k then
      { n.zones k with spannedPages := 0, vmStat := fun _ => 0, pageset := n.pageset }
      else n.zones j := by
    intro j
    rfl
  have old := done.later k le_rfl
  refine ⟨fun j => ?_, done.enabled, fun j later => ?_, fun j lt => ?_, fun j lt p low high => ?_,
    fun p out => ?_⟩
  · rw [zones]
    split_ifs with here
    · rw [here]
      exact done.idx k
    · exact done.idx j
  · rw [zones, if_neg (by omega), done.later j (by omega)]
  · rw [zones]
    split_ifs with here
    · subst here
      rw [old]
      refine ⟨by rw [empty]; simp, by omega, zero.lists j, zero.nrFree j, rfl, fun i => ?_⟩
      have flags : (n₀.zones j).pageblockFlags = fun _ => false := funext (zero.pageblockFlags j)
      dsimp only
      rw [flags]
      exact readGroup_zero _
    · exact done.zones j (by omega)
  · refine done.inside j ?_ p low high
    by_contra last
    obtain rfl : j = k := by omega
    omega
  · exact done.outside p fun j lt => out j (by omega)

/-- The zone before its pages are initialised. -/
def Node.newZone (n : Node) (size startPfn j : Nat) : State :=
  (initCurrentlyEmptyZone true { n.view j with zone := { (n.view j).zone with
    spannedPages := size, vmStat := fun _ => 0, pageblockFlags := fun _ => false } } startPfn).2

theorem Node.newZone_emptySpan (n : Node) (size startPfn j : Nat) :
    EmptySpan (n.newZone size startPfn j).zone startPfn (startPfn + size) :=
  ⟨(Nat.add_sub_cancel_left _ _).symm, fun _ => rfl, fun _ _ => rfl, fun _ => rfl, rfl,
    fun _ => readGroup_zero _⟩

theorem InitUpTo.zone (mono : Monotone b) (done : InitUpTo b n₀ k n) (positive : b k < b (k + 1)) :
    InitUpTo b n₀ (k + 1) (n.initZone true (b (k + 1) - b k) (b k) k) := by
  set size := b (k + 1) - b k with hsize
  have end_ : b k + size = b (k + 1) := by omega
  obtain ⟨empty, idx, enabled⟩ := memmapInitZone_emptySpan k done.enabled
    (n.newZone_emptySpan size (b k) k) (by omega)
  have result : n.initZone true size (b k) k =
      n.put k (memmapInitZone (n.newZone size (b k) k) size k (b k)) := by
    rw [Node.initZone]
    exact if_neg (by omega)
  have memMap : ∀ p, (n.initZone true size (b k) k).memMap p =
      if b k ≤ p ∧ p < b (k + 1) then memmapInitPage (n.memMap p) k else n.memMap p := by
    intro p
    rw [result, ← end_]
    exact memmapInitZone_memMap k p
  have zones : ∀ j, j ≠ k → (n.initZone true size (b k) k).zones j = n.zones j := by
    intro j other
    rw [result]
    exact if_neg other
  have here : (n.initZone true size (b k) k).zones k =
      (memmapInitZone (n.newZone size (b k) k) size k (b k)).zone := by
    rw [result]
    exact if_pos rfl
  refine ⟨fun j => ?_, by rw [result]; exact enabled, fun j later => ?_, fun j lt => ?_,
    fun j lt p low high => ?_, fun p out => ?_⟩
  · by_cases other : j = k
    · rw [other, here, idx]
      exact done.idx k
    · rw [zones j other]
      exact done.idx j
  · rw [zones j (by omega), done.later j (by omega)]
  · by_cases other : j = k
    · rw [other, here, ← end_]
      exact empty
    · rw [zones j other]
      exact done.zones j (by omega)
  · rw [memMap]
    by_cases other : j = k
    · subst other
      -- no earlier zone has the page
      have fresh : n.memMap p = zeroedPage := done.outside p fun i lt inside => by
        have below := mono (show i + 1 ≤ j from lt)
        omega
      rw [if_pos ⟨low, high⟩, fresh]
    · have below := mono (show j + 1 ≤ k by omega)
      rw [if_neg (by omega)]
      exact done.inside j (by omega) p low high
  · rw [memMap, if_neg (out k (Nat.lt_succ_self k))]
    exact done.outside p fun j lt => out j (by omega)

theorem initUpTo_freeAreaInitCore {map : List NodeActiveRegion} {a : ArchZones} {low high : Nat}
    (cuts : Cuts map a low high b) (small : high ≤ 2 ^ 20) (zero : ZeroNode n₀)
    {waitTable : Nat → Bool} (tables : ∀ j, waitTable j = true) :
    InitUpTo b n₀ maxNrZones (n₀.freeAreaInitCore map a waitTable low).1 := by
  have mono : Monotone b := monotone_nat_of_le_succ cuts.mono
  refine (invariant_of_range (fun k (r : Node × Nat) => InitUpTo b n₀ k r.1 ∧ r.2 = b k)
    (fun k zone r done => ?_) ⟨zero.initUpTo b, cuts.zero.symm⟩).1
  obtain ⟨done, start⟩ := done
  have bound : b (k + 1) ≤ high := cuts.le_high zone
  have step := cuts.mono k
  dsimp only
  rw [cuts.spanned k zone, tables k, start]
  by_cases positive : b k < b (k + 1)
  · refine ⟨done.zone mono positive, ?_⟩
    rw [if_pos (by omega), wrap_of_lt (by omega)]
    omega
  · have none : b (k + 1) - b k = 0 := by omega
    have same : b k = b (k + 1) := by omega
    rw [none]
    exact ⟨done.skip zero same.symm true (b k), by simpa using same⟩

theorem InitUpTo.spanned (done : InitUpTo b n₀ maxNrZones n) {j : Nat} (zone : j < maxNrZones) (p : Nat) :
    n.buildAllZonelists.Spanned j p ↔ b j ≤ p ∧ p < b (j + 1) := by
  have empty := done.zones j zone
  rw [Node.Spanned, State.Spanned]
  show (n.zones j).zoneStartPfn ≤ p ∧ p < (n.zones j).zoneStartPfn + (n.zones j).spannedPages ↔ _
  rw [empty.spannedPages]
  by_cases positive : b j < b (j + 1)
  · rw [empty.zoneStartPfn positive]
    omega
  · omega

theorem InitUpTo.page (done : InitUpTo b n₀ maxNrZones n) (p : Nat) :
    n.memMap p = zeroedPage ∨ ∃ j < maxNrZones, n.memMap p = memmapInitPage zeroedPage j := by
  by_cases inside : ∃ j < maxNrZones, b j ≤ p ∧ p < b (j + 1)
  · obtain ⟨j, zone, low, high⟩ := inside
    exact .inr ⟨j, zone, done.inside j zone p low high⟩
  · push Not at inside
    exact .inl (done.outside p fun j zone both => absurd both.2 (inside j zone both.1).not_gt)

theorem zonenum_memmapInitPage {zone : Nat} (small : zone < maxNrZones) :
    (memmapInitPage zeroedPage zone).zonenum = zone := by
  simp only [maxNrZones] at small
  interval_cases zone <;> decide

theorem InitUpTo.fresh (done : InitUpTo b n₀ maxNrZones n) : FreshNode n.buildAllZonelists := by
  refine ⟨fun k zone => ?_, fun k _ => done.idx k, rfl⟩
  have empty := done.zones k zone
  refine ⟨⟨empty.lists, empty.nrFree, fun p _ => ?_, fun p spanned => ?_⟩, ⟨0, rfl⟩, empty.stat,
    fun pfn => ?_⟩
  · show (n.memMap p).buddy = false
    rcases done.page p with unused | ⟨j, -, used⟩
    · rw [unused]
      rfl
    · rw [used]
      rfl
  · show (n.memMap p).zonenum = (n.zones k).idx
    obtain ⟨low, high⟩ := (done.spanned zone p).mp spanned
    rw [done.inside k zone p low high, done.idx, zonenum_memmapInitPage zone]
  · rw [getPageblockMigratetype, getPageblockFlagsGroup, pfnToBitidx_eq]
    exact empty.types _

theorem InitUpTo.waiting (done : InitUpTo b n₀ maxNrZones n) :
    RangeWaiting n.buildAllZonelists (b 0) (b maxNrZones) := by
  intro x low high
  obtain ⟨j, zone, here, below⟩ : ∃ j < maxNrZones, b j ≤ x ∧ x < b (j + 1) := by
    by_contra none
    push Not at none
    have beyond : ∀ j, j ≤ maxNrZones → b j ≤ x := by
      intro j le
      induction j with
      | zero => exact low
      | succ j ih => exact none j le (ih (by omega))
    have := beyond maxNrZones le_rfl
    omega
  refine ⟨⟨j, zone, (done.spanned zone x).mpr ⟨here, below⟩⟩, ?_⟩
  show Initialised (n.memMap x)
  rw [done.inside j zone x here below]
  exact initialised_memmapInitPage zone

theorem InitUpTo.aligned (done : InitUpTo b n₀ maxNrZones n) (mono : Monotone b)
    (cuts : ∀ j, 0 < j → 32 ∣ b j ∨ b j = b maxNrZones) : ZonesAligned n.buildAllZonelists := by
  have apart : ∀ j k, j < k → k < maxNrZones → ∀ x y, b j ≤ x ∧ x < b (j + 1) →
      b k ≤ y ∧ y < b (k + 1) → head 5 x ≠ head 5 y := by
    intro j k lt zone x y hx hy same
    have le := mono (show j + 1 ≤ k from lt)
    have last := mono (show k + 1 ≤ maxNrZones from zone)
    rcases cuts k (by omega) with dvd | end_
    · rw [head, head] at same
      omega
    · omega
  intro j zone k zone' x y spanned spanned' same
  rw [done.spanned zone] at spanned
  rw [done.spanned zone'] at spanned'
  rcases Nat.lt_trichotomy j k with lt | eq | gt
  · exact absurd same (apart j k lt zone' x y spanned spanned')
  · exact eq
  · exact absurd same.symm (apart k j gt zone y x spanned' spanned)

end XcKernel.PageAlloc
