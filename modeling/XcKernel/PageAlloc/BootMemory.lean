import Mathlib.Algebra.BigOperators.Ring.Finset
import XcKernel.Memblock.FreeAll
import XcKernel.PageAlloc.Conserved
import XcKernel.PageAlloc.ZoneInit

/-!
# From the boot tables to the page allocator

`zone_sizes_init`, `build_all_zonelists` and `mem_init` in a row.  They start from
the active ranges and the reserved regions of `memblock`, and leave a page
allocator that has the active pages of low memory without the reserved ones.  No
run of it hands out another page.
-/

namespace XcKernel.PageAlloc

open Blocks Word Mm
open Zones (ArchZones NodeMap Setting Cuts cut freeAreaInitNodes)

/-- `MAX_DMA_ADDRESS` as a frame number: 16 MiB -/
def maxDmaPfn : Nat := 0x1000000 >>> 12

/-- The array that `zone_sizes_init` passes to `free_area_init_nodes` -/
def maxZonePfns (maxLowPfn : Nat) : Nat → Nat
  | 0 => maxDmaPfn
  | 1 => maxLowPfn
  | _ => 0

/-- The calls of `__free_pages_bootmem`, one after another. -/
def Node.freeAll (n : Node) (calls : List BootmemCall) : Option Node :=
  calls.foldlM (fun n c => n.freePagesBootmem c.page c.order) n

/-- `mem_init`: the node, and what is added to `totalram_pages` -/
def Node.memInit (memblock : Memblock) (map : List NodeActiveRegion) (maxLowPfn : Nat) (n : Node) :
    Option (Node × Nat) :=
  (freeAllBootmem memblock map maxLowPfn).bind fun r => (n.freeAll r.1).map fun n => (n, r.2)

/-- The three functions in the order of `start_kernel`, with `memblock` as the last
of them finds it.  Watermarks are not set. -/
def Node.bootMemory (memblock : Memblock) (map : List NodeActiveRegion) (maxLowPfn dmaReserve : Nat)
    (waitTable : Nat → Bool) (core : Zones.Core) (zonelist : Zonelist) (n : Node) :
    Option (Node × Pgdat × Nat) :=
  (freeAreaInitNodes map (maxZonePfns maxLowPfn) dmaReserve waitTable core).bind fun r =>
    let n := (n.freeAreaInitCore r.1 r.2.1 waitTable r.2.2.nodeStartPfn).1
    let presentPages := fun k => (r.2.2.core.zones k).presentPages
    let d : Pgdat := ⟨presentPages, fun _ _ => 0, buildZonelists presentPages zonelist⟩
    (n.buildAllZonelists.memInit memblock r.1 maxLowPfn).map fun r => (r.1, d, r.2)

theorem dvd_roundUp (x : Nat) : 1024 ∣ Zones.roundUp x Zones.maxOrderNrPages := by
  have mask : wrapSub 32 Zones.maxOrderNrPages 1 = 1023 := by decide
  have ones : (wrapSub 32 x 1 ||| 1023) % 2 ^ 10 = 1023 := by
    have below : wrapSub 32 x 1 % 2 ^ 10 ||| 1023 % 2 ^ 10 < 2 ^ 10 :=
      Nat.or_lt_two_pow (Nat.mod_lt _ (by decide)) (Nat.mod_lt _ (by decide))
    have above : 1023 % 2 ^ 10 ≤ wrapSub 32 x 1 % 2 ^ 10 ||| 1023 % 2 ^ 10 := Nat.right_le_or
    rw [Nat.or_mod_two_pow]
    omega
  rw [Zones.roundUp, mask, wrap]
  omega

theorem cut_aligned {low high normal movable : Nat} (dvd : 1024 ∣ movable) {j : Nat} (positive : 0 < j) :
    32 ∣ cut low high maxDmaPfn normal movable j ∨ cut low high maxDmaPfn normal movable j = high := by
  have dma : maxDmaPfn = 4096 := rfl
  match j with
  | 1 =>
    simp only [cut, dma]
    split_ifs <;> omega
  | 2 =>
    simp only [cut]
    split_ifs <;> omega
  | _ + 3 => exact .inr rfl

variable {memblock : Memblock} {map : List NodeActiveRegion} {low high maxLowPfn : Nat} {n n₀ : Node}

theorem nodeMapOk (node : NodeMap map low high) : NodeMapOk map := by
  refine ⟨node.proper, fun e member => ?_, node.sorted.imp fun le => .inl le⟩
  have last := node.greatest.2 ⟨e, member, rfl⟩
  have small := node.small
  omega

theorem freeAllBootmem_releases
    (ends : ∀ r ∈ memblock.reserved.regions, r.base + r.size ≤ 2 ^ 64 - pageSize)
    (ok : NodeMapOk map) (bound : maxLowPfn < 2 ^ 31)
    (found : (findRangeArray memblock (rangeSlots memblock map maxNumnodes)).isSome) :
    ∃ r, freeAllBootmem memblock map maxLowPfn = some r ∧ Releases memblock map maxLowPfn r := by
  have array := findRangeArray_eq found
  rcases Nat.eq_zero_or_pos (rangeSlots memblock map maxNumnodes) with none | positive
  · rw [none] at array
    exact freeAllBootmem_noSlots array none
  · have stage := rangesAfter_stage ends ok maxLowPfn positive le_rfl
    rw [MemblockType.cnt, List.take_length] at stage
    obtain ⟨sorted, rest, sorts, perm⟩ :=
      Range.cleanSortRange_perm (rangesAfter memblock map maxLowPfn memblock.reserved.regions.length)
    have member : ∀ r ∈ sorted, r.start < r.end_ := fun r inside => by
      have filtered := List.mem_filter.mp (perm.mem_iff.mp inside)
      exact (stage.ok r filtered.1).resolve_left (by simpa using filtered.2)
    refine ⟨freeRanges sorted, ?_, freeRanges_releases bound member fun x => ?_⟩
    · rw [rangesAfter, List.take_length] at sorts
      rw [freeAllBootmem, freeAllMemoryCoreEarly, getFreeAllMemoryRange, getFreeMemoryRangeBetween, array]
      dsimp only
      rw [sorts, Option.map_some, List.take_left]
    · -- a slot without an end contains nothing
      have same : Range.cover sorted x =
          Range.cover (rangesAfter memblock map maxLowPfn memblock.reserved.regions.length) x := by
        rw [Range.cover, perm.countP_eq, List.countP_filter]
        refine List.countP_congr fun r _ => ?_
        simp only [Bool.and_eq_true, decide_eq_true_eq, and_iff_left_iff_imp]
        exact fun contains => by have := contains.2; omega
      rw [same, stage.cover x]
      exact if_congr (by rw [Releasable, and_assoc]) rfl rfl

theorem aligned_of_releases {r : List BootmemCall × Nat} (releases : Releases memblock map maxLowPfn r)
    {c : BootmemCall} (member : c ∈ r.1) : (c.order = 0 ∨ c.order = 5) ∧ 2 ^ c.order ∣ c.page := by
  rcases releases.orders c member with zero | ⟨five, dvd⟩
  · rw [zero]
    exact ⟨.inl rfl, one_dvd _⟩
  · rw [five]
    exact ⟨.inr rfl, dvd⟩

theorem callsApart_of_countP {calls : List BootmemCall} (aligned : ∀ c ∈ calls, 2 ^ c.order ∣ c.page)
    (once : ∀ x, calls.countP (·.Covers x) ≤ 1) : CallsApart calls := by
  induction calls with
  | nil => exact .nil
  | cons c calls ih =>
    have rest : ∀ x, calls.countP (·.Covers x) ≤ 1 := fun x =>
      ((List.sublist_cons_self c calls).countP_le).trans (once x)
    refine List.pairwise_cons.mpr ⟨fun d hd x inside same => ?_,
      ih (fun d hd => aligned d (List.mem_cons_of_mem c hd)) rest⟩
    rw [head_eq_iff (aligned d (List.mem_cons_of_mem c hd))] at inside
    rw [head_eq_iff (aligned c List.mem_cons_self)] at same
    have twice := once x
    have second : 0 < calls.countP (·.Covers x) :=
      List.countP_pos_iff.mpr ⟨d, hd, decide_eq_true inside⟩
    have first : c.Covers x := same
    rw [List.countP_cons, if_pos (decide_eq_true first)] at twice
    omega

theorem covered_iff_releasable {r : List BootmemCall × Nat} (releases : Releases memblock map maxLowPfn r)
    (x : Nat) : (∃ c ∈ r.1, head c.order x = c.page) ↔ Releasable memblock map maxLowPfn x := by
  have count := releases.covers x
  constructor
  · rintro ⟨c, member, inside⟩
    rw [head_eq_iff (aligned_of_releases releases member).2] at inside
    have pos : 0 < r.1.countP (·.Covers x) :=
      List.countP_pos_iff.mpr ⟨c, member, decide_eq_true inside⟩
    by_contra not
    rw [if_neg not] at count
    omega
  · intro releasable
    rw [if_pos releasable] at count
    have pos : 0 < r.1.countP (·.Covers x) := by omega
    obtain ⟨c, member, inside⟩ := List.countP_pos_iff.mp pos
    exact ⟨c, member, (head_eq_iff (aligned_of_releases releases member).2).mpr (of_decide_eq_true inside)⟩

theorem releasable_bounds (node : NodeMap map low high) {x : Nat}
    (releasable : Releasable memblock map maxLowPfn x) : low ≤ x ∧ x < high := by
  obtain ⟨-, ⟨e, member, start, end_⟩, -⟩ := releasable
  have first := node.least.2 ⟨e, member, rfl⟩
  have last := node.greatest.2 ⟨e, member, rfl⟩
  omega

theorem NodeInv.sum_nrFreePages {P : Nat → Page → Prop} (inv : NodeInv P n) {pages : Finset Nat}
    (avail : ∀ x, x ∈ pages ↔ n.Avail x) :
    ∑ k ∈ Finset.range maxNrZones, (n.zones k).vmStat .nrFreePages = pages.card := by
  have zone : ∀ k ∈ Finset.range maxNrZones,
      (n.zones k).vmStat .nrFreePages = ((n.view k).availPages.card : Int) := by
    intro k member
    have zone := inv.zone k (Finset.mem_range.mp member)
    rw [zone.toPcpInv.card_availPages, State.supply, (inv.boot k).pages]
    exact zone.stat
  have union : pages = (Finset.range maxNrZones).biUnion fun k => (n.view k).availPages := by
    ext x
    rw [avail, Finset.mem_biUnion]
    constructor
    · rintro ⟨k, small, here⟩
      exact ⟨k, Finset.mem_range.mpr small, ((inv.zone k small).toPcpInv.mem_availPages x).mpr here⟩
    · rintro ⟨k, member, here⟩
      have small := Finset.mem_range.mp member
      exact ⟨k, small, ((inv.zone k small).toPcpInv.mem_availPages x).mp here⟩
  rw [Finset.sum_congr rfl zone, union, Finset.card_biUnion, Nat.cast_sum]
  intro j hj k hk ne
  refine Finset.disjoint_left.mpr fun x first second => ?_
  have small := Finset.mem_range.mp hj
  have small' := Finset.mem_range.mp hk
  have zonenum := inv.avail_zonenum small (((inv.zone j small).toPcpInv.mem_availPages x).mp first)
  have zonenum' := inv.avail_zonenum small' (((inv.zone k small').toPcpInv.mem_availPages x).mp second)
  exact ne (zonenum.symm.trans zonenum')

/-- The page allocator owns the pages that `memblock` lets go, its counters say how
many, and whatever is allocated later are such pages. -/
structure Booted (memblock : Memblock) (map : List NodeActiveRegion) (maxLowPfn : Nat)
    (r : Node × Pgdat × Nat) : Prop where
  avail : ∀ x, r.1.Avail x ↔ Releasable memblock map maxLowPfn x
  count : ∑ k ∈ Finset.range maxNrZones, (r.1.zones k).vmStat .nrFreePages = r.2.2
  runs : ∀ h, Relation.ReflTransGen (HolderStep r.2.1) ⟨r.1, ∅⟩ h →
    HeldApart {x | Releasable memblock map maxLowPfn x} h

theorem not_avail_of_fresh (fresh : FreshNode n) (x : Nat) : ¬ n.Avail x := by
  rintro ⟨k, small, ⟨o, free⟩ | pcp⟩
  · have lists := (fresh.zone k small).empty.lists
    simp [State.Free, State.free, lists] at free
  · have pageset : (n.view k).zone.pageset = setupPageset 0 := fresh.pageset
    rw [State.pcpPages, pageset] at pcp
    cases pcp

/-- The hand-over to a node that has just been set up. -/
theorem memInit_booted
    (ends : ∀ r ∈ memblock.reserved.regions, r.base + r.size ≤ 2 ^ 64 - pageSize)
    (node : NodeMap map low high) (bound : maxLowPfn < 2 ^ 31)
    (found : (findRangeArray memblock (rangeSlots memblock map maxNumnodes)).isSome)
    (fresh : FreshNode n) (waiting : RangeWaiting n low high) (aligned : ZonesAligned n) {d : Pgdat}
    (built : d.Built) : ∃ r, n.memInit memblock map maxLowPfn = some r ∧
      Booted memblock map maxLowPfn (r.1, d, r.2) := by
  obtain ⟨r, calls, releases⟩ := freeAllBootmem_releases ends (nodeMapOk node) bound found
  have order := fun c (member : c ∈ r.1) => aligned_of_releases releases member
  have within : ∀ c ∈ r.1, ∀ x, head c.order x = c.page → low ≤ x ∧ x < high := fun c member x inside =>
    releasable_bounds node ((covered_iff_releasable releases x).mp ⟨c, member, inside⟩)
  have apart : CallsApart r.1 := by
    refine callsApart_of_countP (fun c member => (order c member).2) fun x => ?_
    rw [releases.covers x]
    split <;> omega
  obtain ⟨n', handed, all⟩ := handedAll_of_apart bootRules_keep (fun _ => id) apart
    (fresh.inv (CleanIn 0 0))
    (fun c member => ⟨bootOrder_of_order (order c member).1, (order c member).2⟩)
    (fun c member => waiting.block aligned (order c member).1 (order c member).2 (within c member))
    (fun _ _ _ _ _ => trivial)
  have avail : ∀ x, n'.Avail x ↔ Releasable memblock map maxLowPfn x := fun x => by
    rw [all.avail, covered_iff_releasable releases, or_iff_right (not_avail_of_fresh fresh x)]
  refine ⟨(n', r.2), ?_, avail, ?_, fun h run => ?_⟩
  · rw [Node.memInit, calls, Option.bind_some, Node.freeAll, handed]
    rfl
  · rw [releases.count]
    refine all.inv.sum_nrFreePages fun x => ?_
    rw [Finset.mem_filter, Finset.mem_range, avail]
    exact and_iff_right_of_imp fun releasable => releasable.1
  · have held := (all.inv.holders built run).1
    simpa only [avail] using held

/-- The node as the boot loader leaves it. -/
def bssNode : Node where
  memMap := fun _ => zeroedPage
  zones := fun k => { (freshState 0).zone with idx := k }
  pageset := setupPageset 0
  pageGroupByMobilityDisabled := false

theorem bssNode_zero : ZeroNode bssNode :=
  ⟨fun _ => rfl, fun _ => rfl, fun _ _ _ => rfl, fun _ _ => rfl, fun _ _ => rfl, rfl⟩

theorem seventy_nodeMap : NodeMap [⟨0, 70, 0⟩] 0 70 := by
  refine ⟨⟨by decide, by decide⟩, by decide, ⟨⟨⟨0, 70, 0⟩, by decide, rfl⟩, ?_⟩,
    ⟨⟨⟨0, 70, 0⟩, by decide, rfl⟩, ?_⟩, by decide⟩
  · rintro pfn ⟨r, hr, rfl⟩
    exact Nat.zero_le _
  · rintro pfn ⟨r, hr, rfl⟩
    rw [List.mem_singleton.mp hr]

end XcKernel.PageAlloc
