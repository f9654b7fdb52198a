import XcKernel.PageAlloc.Basic

/-!
# The buddy allocator

`__free_one_page` and `__rmqueue` of `mm/page_alloc.c` with what they call.  A
`struct page *` is the frame number of the page, so that `page + n` is a sum of
frame numbers.  `pfn_valid_within` is 1 in this configuration.
-/

namespace XcKernel.PageAlloc

open Blocks

def compoundOrder (s : State) (page : Nat) : Nat :=
  if (s.memMap page).test .head then (s.memMap (page + 1)).lruPrev else 0

/-- `destroy_compound_page`: the number of faults found.  The loop clears the
tail flag of the head page each time. -/
def destroyCompoundPage (s : State) (page order : Nat) : Nat × State :=
  let bad := if compoundOrder s page ≠ order ∨ ¬ (s.memMap page).test .head then 1 else 0
  let s := s.modifyPage page (·.clear .head)
  (List.range' 1 (1 <<< order - 1)).foldl (fun (bad, s) i =>
    let p := s.memMap (page + i)
    (if ¬ p.test .tail ∨ p.priv ≠ page then bad + 1 else bad, s.modifyPage page (·.clear .tail)))
    (bad, s)

/-- `__find_buddy_index` -/
def findBuddyIndex (pageIdx order : Nat) : Nat := pageIdx ^^^ 1 <<< order

def pageIsBuddy (s : State) (page buddy order : Nat) : Bool :=
  (s.memMap page).zonenum = (s.memMap buddy).zonenum &&
    ((s.memMap buddy).buddy && (s.memMap buddy).order = order)

/-- The variables of `__free_one_page` when its loop ends. -/
structure Merged where
  s : State
  page : Nat
  pageIdx : Nat
  buddyIdx : Nat
  order : Nat

/-- The loop of `__free_one_page`: join the block with its buddy while that is free. -/
def mergeLoop (s : State) (page pageIdx buddyIdx order : Nat) : Merged :=
  if order < maxOrder - 1 then
    let buddyIdx := findBuddyIndex pageIdx order
    let buddy := page + buddyIdx - pageIdx
    if pageIsBuddy s page buddy order then
      let s := ((s.listDel buddy).decNrFree order).modifyPage buddy Page.rmvOrder
      let combinedIdx := buddyIdx &&& pageIdx
      mergeLoop s (page + combinedIdx - pageIdx) combinedIdx buddyIdx (order + 1)
    else ⟨s, page, pageIdx, buddyIdx, order⟩
  else ⟨s, page, pageIdx, buddyIdx, order⟩
termination_by maxOrder - order

/-- The test by which `__free_one_page` puts a block at the end of its list:
it looks like half of a pair that may merge soon. -/
def higherBuddyFree (m : Merged) : Bool :=
  m.order < maxOrder - 2 &&
    let combinedIdx := m.buddyIdx &&& m.pageIdx
    let higherPage := m.page + combinedIdx - m.pageIdx
    let buddyIdx := findBuddyIndex combinedIdx (m.order + 1)
    let higherBuddy := m.page + buddyIdx - combinedIdx
    pageIsBuddy m.s higherPage higherBuddy (m.order + 1)

/-- The end of `__free_one_page`: mark the block and link it. -/
def insertMerged (m : Merged) (migratetype : Nat) : State :=
  let s := m.s.modifyPage m.page (·.setOrder m.order)
  let s := if higherBuddyFree { m with s := s } then s.listAddTail m.order migratetype m.page
    else s.listAdd m.order migratetype m.page
  s.incNrFree m.order

/-- `__free_one_page` -/
def freeOnePageLocked (s : State) (page order migratetype : Nat) : State :=
  let r := if (s.memMap page).compound then destroyCompoundPage s page order else (0, s)
  if r.1 ≠ 0 then r.2
  else insertMerged (mergeLoop r.2 page (page &&& (1 <<< maxOrder - 1)) 0 order) migratetype

/-- `expand`: give back the upper half until the block has the order `low`. -/
def expand (s : State) (page low migratetype : Nat) : (high : Nat) → State
  | 0 => s
  | high + 1 =>
    if high + 1 > low then
      let upper := page + 1 <<< high
      let s := ((s.listAdd high migratetype upper).incNrFree high).modifyPage upper (·.setOrder high)
      expand s page low migratetype high
    else s

/-- `move_freepages`, with `moved` pages moved so far -/
def moveFreepages (s : State) (page endPage migratetype moved : Nat) : Nat × State :=
  if page ≤ endPage then
    if (s.memMap page).buddy then
      let order := (s.memMap page).order
      moveFreepages (s.listMove order migratetype page) (page + 2 ^ order) endPage migratetype
        (moved + 2 ^ order)
    else moveFreepages s (page + 1) endPage migratetype moved
  else (moved, s)
termination_by endPage + 1 - page
decreasing_by
  · have := Nat.two_pow_pos (s.memMap page).order
    omega
  · omega

def moveFreepagesBlock (s : State) (page migratetype : Nat) : Nat × State :=
  let startPfn := head pageblockOrder page
  let endPfn := startPfn + 1 <<< pageblockOrder - 1
  let startPage := if startPfn < s.zone.zoneStartPfn then page else startPfn
  if endPfn ≥ s.zone.zoneStartPfn + s.zone.spannedPages then (0, s)
  else moveFreepages s startPage endPfn migratetype 0

def changePageblockRange (s : State) (page startOrder migratetype : Nat) : State :=
  (List.range (1 <<< (startOrder - pageblockOrder))).foldl
    (fun s i => setPageblockMigratetype s (page + i * 1 <<< pageblockOrder) migratetype) s

/-- `fallbacks`; what the initialiser leaves out is 0. -/
def fallbacks : Nat → List Nat
  | 0 => [migrateReclaimable, migrateMovable, migrateReserve, 0, 0]
  | 1 => [migrateUnmovable, migrateMovable, migrateReserve, 0, 0]
  | 2 => [migrateReclaimable, migrateUnmovable, migrateReserve, 0, 0]
  | 3 => [migrateReserve, migrateReserve, migrateReserve, 0, 0]
  | _ => [0, 0, 0, 0, 0]

/-- `__rmqueue_smallest` -/
def rmqueueSmallest (s : State) (order migratetype : Nat) : Option Nat × State :=
  let found := (List.range' order (maxOrder - order)).findSome? fun currentOrder =>
    (s.zone.freeList currentOrder migratetype).head?.map fun page => (currentOrder, page)
  match found with
  | none => (none, s)
  | some (currentOrder, page) =>
    let s := ((s.listDel page).modifyPage page Page.rmvOrder).decNrFree currentOrder
    (some page, expand s page order migratetype currentOrder)

/-- The block `__rmqueue_fallback` takes: the first of the largest, with its migratetype. -/
def findFallback (s : State) (order startMigratetype : Nat) : Option (Nat × Nat × Nat) :=
  (List.range' order (maxOrder - order)).reverse.findSome? fun currentOrder =>
    (fallbacks startMigratetype).findSome? fun migratetype =>
      if migratetype = migrateReserve then none
      else (s.zone.freeList currentOrder migratetype).head?.map fun page =>
        (currentOrder, migratetype, page)

/-- The part of `__rmqueue_fallback` that takes over the pageblock of a block of
some size.  The result has the migratetype for the rest of the block. -/
def stealPageblock (s : State) (page currentOrder startMigratetype migratetype : Nat) :
    Nat × State :=
  if currentOrder ≥ pageblockOrder >>> 1 ∨ startMigratetype = migrateReclaimable ∨
      s.pageGroupByMobilityDisabled then
    let r := moveFreepagesBlock s page startMigratetype
    let s := if r.1 ≥ 1 <<< (pageblockOrder - 1) ∨ s.pageGroupByMobilityDisabled then
        setPageblockMigratetype r.2 page startMigratetype
      else r.2
    (startMigratetype, s)
  else (migratetype, s)

/-- `__rmqueue_fallback` -/
def rmqueueFallback (s : State) (order startMigratetype : Nat) : Option Nat × State :=
  match findFallback s order startMigratetype with
  | none => (none, s)
  | some (currentOrder, migratetype, page) =>
    let s := s.decNrFree currentOrder
    let r := stealPageblock s page currentOrder startMigratetype migratetype
    let s := (r.2.listDel page).modifyPage page Page.rmvOrder
    let s := if currentOrder ≥ pageblockOrder then
        changePageblockRange s page currentOrder startMigratetype
      else s
    (some page, expand s page order r.1 currentOrder)

/-- `__rmqueue`: the reserve is tried last. -/
def rmqueue (s : State) (order migratetype : Nat) : Option Nat × State :=
  let r := rmqueueSmallest s order migratetype
  if r.1 = none ∧ migratetype ≠ migrateReserve then
    let r := rmqueueFallback r.2 order migratetype
    if r.1 = none then rmqueueSmallest r.2 order migrateReserve else r
  else r

end XcKernel.PageAlloc
