import XcKernel.Memblock.Bootmem
import XcKernel.Range.Sort
import Mathlib.Logic.Function.Basic

/-!
# Zones of the node

`free_area_init_nodes` of `mm/page_alloc.c` with what it calls, up to the spans
of the zones and the numbers of pages.  There is one node.  `unsigned long` is a
word of 32 bits.
-/

namespace XcKernel.Zones

open Word Mm

def ulongMax : Nat := 2 ^ 32 - 1

def zoneMovable : Nat := 2

def maxNrZones : Nat := 3

def maxOrderNrPages : Nat := 1024

def cmpNodeActiveRegion (a b : NodeActiveRegion) : Int :=
  if a.startPfn > b.startPfn then 1 else if a.startPfn < b.startPfn then -1 else 0

def sortNodeMap (map : List NodeActiveRegion) : Option (List NodeActiveRegion) :=
  Range.sort cmpNodeActiveRegion map

def findMinPfnForNode (map : List NodeActiveRegion) (nid : Nat) : Nat :=
  let minPfn := (activeRanges map nid).foldl (fun pfn r => min pfn r.startPfn) ulongMax
  if minPfn = ulongMax then 0 else minPfn

def findMinPfnWithActiveRegions (map : List NodeActiveRegion) : Nat :=
  findMinPfnForNode map maxNumnodes

def getPfnRangeForNid (map : List NodeActiveRegion) (nid : Nat) : Nat × Nat :=
  let range := (activeRanges map nid).foldl
    (fun (start, end_) r => (min start r.startPfn, max end_ r.endPfn)) (ulongMax, 0)
  (if range.1 = ulongMax then 0 else range.1, range.2)

/-- `arch_zone_lowest_possible_pfn` and `arch_zone_highest_possible_pfn` -/
structure Limits where
  lowest : Nat → Nat
  highest : Nat → Nat

/-- One round of the loop of `free_area_init_nodes` over the zones. -/
def nextLimits (maxZonePfn : Nat → Nat) (l : Limits) (i : Nat) : Limits :=
  if i = zoneMovable then l
  else
    ⟨Function.update l.lowest i (l.highest (i - 1)),
      Function.update l.highest i (max (maxZonePfn i) (l.highest (i - 1)))⟩

/-- The limits as `free_area_init_nodes` sets them. -/
def zoneLimits (map : List NodeActiveRegion) (maxZonePfn : Nat → Nat) : Limits :=
  let first : Limits :=
    ⟨Function.update (fun _ => 0) 0 (findMinPfnWithActiveRegions map),
      Function.update (fun _ => 0) 0 (maxZonePfn 0)⟩
  let l := (List.range' 1 (maxNrZones - 1)).foldl (nextLimits maxZonePfn) first
  ⟨Function.update l.lowest zoneMovable 0, Function.update l.highest zoneMovable 0⟩

/-- The loop of `find_usable_zone_for_movable`, with the zones below `zoneIndex`
left; `none` is a `movable_zone` of -1. -/
def findUsableZoneForMovable (l : Limits) : (zoneIndex : Nat) → Option Nat
  | 0 => none
  | zoneIndex + 1 =>
    if zoneIndex = zoneMovable then findUsableZoneForMovable l zoneIndex
    else if l.highest zoneIndex > l.lowest zoneIndex then some zoneIndex
    else findUsableZoneForMovable l zoneIndex

/-- `round_up` on an `unsigned long` -/
def roundUp (x y : Nat) : Nat := wrap 32 ((wrapSub 32 x 1 ||| wrapSub 32 y 1) + 1)

/-- `zone_movable_pfn[0]`, as `find_zone_movable_pfns_for_nodes` computes it -/
def findZoneMovablePfn (l : Limits) (movableZone : Nat) : Nat :=
  let tenths := wrapSub 32 (l.highest movableZone) (l.lowest movableZone) / 10
  roundUp (wrap 32 (l.lowest movableZone + wrap 32 (tenths * 9))) maxOrderNrPages

/-- The variables that describe the zones. -/
structure ArchZones extends Limits where
  movableZone : Nat
  zoneMovablePfn : Nat

def adjustZoneRangeForZoneMovable (a : ArchZones) (zoneType nodeEndPfn zoneStartPfn zoneEndPfn : Nat) :
    Nat × Nat :=
  if a.zoneMovablePfn ≠ 0 then
    if zoneType = zoneMovable then (a.zoneMovablePfn, min nodeEndPfn (a.highest a.movableZone))
    else if zoneStartPfn < a.zoneMovablePfn ∧ zoneEndPfn > a.zoneMovablePfn then
      (zoneStartPfn, a.zoneMovablePfn)
    else if zoneStartPfn ≥ a.zoneMovablePfn then (zoneEndPfn, zoneEndPfn)
    else (zoneStartPfn, zoneEndPfn)
  else (zoneStartPfn, zoneEndPfn)

def zoneSpannedPagesInNode (map : List NodeActiveRegion) (a : ArchZones) (nid zoneType : Nat) : Nat :=
  let node := getPfnRangeForNid map nid
  let zone := adjustZoneRangeForZoneMovable a zoneType node.2 (a.lowest zoneType) (a.highest zoneType)
  if zone.2 < node.1 ∨ zone.1 > node.2 then 0
  else wrapSub 32 (min zone.2 node.2) (max zone.1 node.1)

/-- The loop of `__absent_pages_in_range`: `prev_end_pfn` and `hole_pages` when it ends -/
def absentLoop (rangeStartPfn rangeEndPfn : Nat) :
    List NodeActiveRegion → (prevEndPfn holePages : Nat) → Nat × Nat
  | [], prevEndPfn, holePages => (prevEndPfn, holePages)
  | r :: rest, prevEndPfn, holePages =>
    if prevEndPfn ≥ rangeEndPfn then (prevEndPfn, holePages)
    else
      let startPfn := min r.startPfn rangeEndPfn
      let prevEndPfn := max prevEndPfn rangeStartPfn
      let holePages :=
        if startPfn > rangeStartPfn then wrap 32 (holePages + wrapSub 32 startPfn prevEndPfn)
        else holePages
      absentLoop rangeStartPfn rangeEndPfn rest r.endPfn holePages

/-- `__absent_pages_in_range` -/
def absentPagesInNidRange (map : List NodeActiveRegion) (nid rangeStartPfn rangeEndPfn : Nat) : Nat :=
  let r := absentLoop rangeStartPfn rangeEndPfn (activeRanges map nid) 0 0
  if rangeEndPfn > r.1 then wrap 32 (r.2 + wrapSub 32 rangeEndPfn (max r.1 rangeStartPfn)) else r.2

def zoneAbsentPagesInNode (map : List NodeActiveRegion) (a : ArchZones) (nid zoneType : Nat) : Nat :=
  let node := getPfnRangeForNid map nid
  let zone := adjustZoneRangeForZoneMovable a zoneType node.2 (max (a.lowest zoneType) node.1)
    (min (a.highest zoneType) node.2)
  absentPagesInNidRange map nid zone.1 zone.2

/-- `struct zone` -/
structure Zone where
  zoneStartPfn : Nat
  spannedPages : Nat
  presentPages : Nat
  deriving DecidableEq, Repr

/-- What `free_area_init_core` has written after some of the zones: the zones,
the start of the next one, `nr_kernel_pages`, `nr_all_pages`, and the start and
the size of each zone as it has found them. -/
structure Core where
  zones : Nat → Zone
  zoneStartPfn : Nat
  nrKernelPages : Nat
  nrAllPages : Nat
  spans : List (Nat × Nat)

/-- The pages of the zone's part of the page map: a `struct page` has 32 bytes. -/
def memmapPages (size : Nat) : Nat :=
  alignDown 32 (wrap 32 (wrap 32 (size * 32) + (pageSize - 1))) pageSize >>> pageShift

/-- One round of the loop of `free_area_init_core`.  `waitTable` says whether
`zone_wait_table_init` gets memory; `init_currently_empty_zone` records the start
of the zone only then. -/
def initZone (map : List NodeActiveRegion) (a : ArchZones) (dmaReserve : Nat) (waitTable : Nat → Bool)
    (nid : Nat) (c : Core) (j : Nat) : Core :=
  let size := zoneSpannedPagesInNode map a nid j
  let realsize := wrapSub 32 size (zoneAbsentPagesInNode map a nid j)
  let realsize := if realsize ≥ memmapPages size then realsize - memmapPages size else realsize
  let realsize := if j = 0 ∧ realsize > dmaReserve then realsize - dmaReserve else realsize
  let start := if size ≠ 0 ∧ waitTable j then c.zoneStartPfn else (c.zones j).zoneStartPfn
  { zones := Function.update c.zones j ⟨start, size, realsize⟩
    zoneStartPfn := if size ≠ 0 then wrap 32 (c.zoneStartPfn + size) else c.zoneStartPfn
    nrKernelPages := wrap 32 (c.nrKernelPages + realsize)
    nrAllPages := wrap 32 (c.nrAllPages + realsize)
    spans := c.spans ++ [(c.zoneStartPfn, size)] }

/-- `struct pglist_data`, and what `free_area_init_core` leaves. -/
structure PglistData where
  nodeStartPfn : Nat
  nodeSpannedPages : Nat
  nodePresentPages : Nat
  core : Core

/-- `calculate_node_totalpages`: `node_spanned_pages` and `node_present_pages` -/
def calculateNodeTotalpages (map : List NodeActiveRegion) (a : ArchZones) (nid : Nat) : Nat × Nat :=
  let totalpages := (List.range maxNrZones).foldl
    (fun total i => wrap 32 (total + zoneSpannedPagesInNode map a nid i)) 0
  (totalpages, (List.range maxNrZones).foldl
    (fun total i => wrapSub 32 total (zoneAbsentPagesInNode map a nid i)) totalpages)

def freeAreaInitNode (map : List NodeActiveRegion) (a : ArchZones) (dmaReserve : Nat)
    (waitTable : Nat → Bool) (core : Core) (nid nodeStartPfn : Nat) : PglistData :=
  let total := calculateNodeTotalpages map a nid
  { nodeStartPfn := nodeStartPfn
    nodeSpannedPages := total.1
    nodePresentPages := total.2
    core := (List.range maxNrZones).foldl (initZone map a dmaReserve waitTable nid)
      { core with zoneStartPfn := nodeStartPfn, spans := [] } }

/-- `free_area_init_nodes`: the sorted map, the variables it sets and the node.
`none` is an access outside the arrays. -/
def freeAreaInitNodes (map : List NodeActiveRegion) (maxZonePfn : Nat → Nat) (dmaReserve : Nat)
    (waitTable : Nat → Bool) (core : Core) :
    Option (List NodeActiveRegion × ArchZones × PglistData) :=
  match sortNodeMap map with
  | none => none
  | some map =>
    let limits := zoneLimits map maxZonePfn
    match findUsableZoneForMovable limits maxNrZones with
    | none => none
    | some movableZone =>
      let a : ArchZones := ⟨limits, movableZone, findZoneMovablePfn limits movableZone⟩
      some (map, a, freeAreaInitNode map a dmaReserve waitTable core 0 (findMinPfnForNode map 0))

end XcKernel.Zones
