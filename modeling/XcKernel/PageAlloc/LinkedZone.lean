import XcKernel.ListHead
import XcKernel.PageAlloc.BuddySpec

/-!
# The buddy allocator on linked lists

The free lists of a zone as they are in memory: heads in `free_area`, linked with the
`lru` members of the pages.  The functions are those of `PageAlloc.Buddy`, with the
calls into `list.h` that the source makes; a page is taken from the link that follows
a head.  Each of them does to the links what the function of the same name does to
lists of page frame numbers.
-/

namespace XcKernel.PageAlloc

open Blocks Rings ListHead

/-- A pointer to a `list_head`. -/
inductive Lru where
  | freeList (order migratetype : Nat)
  | page (pfn : Nat)
  | poison1
  | poison2
  deriving DecidableEq, Repr

/-- `list_entry(ptr, struct page, lru)`, for a pointer to the member of a page -/
def listEntry : Lru → Nat
  | .page pfn => pfn
  | _ => 0

/-- The zone with the links instead of lists; the lists in `rest` are not used. -/
structure LinkedZone where
  lru : Links Lru
  rest : State

/-- The variables of `__free_one_page` when its loop ends. -/
structure LinkedMerged where
  z : LinkedZone
  page : Nat
  pageIdx : Nat
  buddyIdx : Nat
  order : Nat

namespace LinkedZone

def modifyPage (z : LinkedZone) (pfn : Nat) (f : Page → Page) : LinkedZone :=
  { z with rest := z.rest.modifyPage pfn f }

def incNrFree (z : LinkedZone) (order : Nat) : LinkedZone := { z with rest := z.rest.incNrFree order }

def decNrFree (z : LinkedZone) (order : Nat) : LinkedZone := { z with rest := z.rest.decNrFree order }

def listAdd (z : LinkedZone) (order migratetype pfn : Nat) : LinkedZone :=
  { z with lru := ListHead.listAdd z.lru (.page pfn) (.freeList order migratetype) }

def listAddTail (z : LinkedZone) (order migratetype pfn : Nat) : LinkedZone :=
  { z with lru := ListHead.listAddTail z.lru (.page pfn) (.freeList order migratetype) }

def listDel (z : LinkedZone) (pfn : Nat) : LinkedZone :=
  { z with lru := ListHead.listDel .poison1 .poison2 z.lru (.page pfn) }

def listMove (z : LinkedZone) (order migratetype pfn : Nat) : LinkedZone :=
  { z with lru := ListHead.listMove z.lru (.page pfn) (.freeList order migratetype) }

/-- `zone_init_free_lists` -/
def zoneInitFreeLists (z : LinkedZone) : LinkedZone where
  lru := ((List.range maxOrder).flatMap fun order =>
    (List.range migrateTypes).map fun t => .freeList order t).foldl initListHead z.lru
  rest := { z.rest with zone := { z.rest.zone with freeList := fun _ _ => [], nrFree := fun _ => 0 } }

/-- The first page of a list that `list_empty` does not find empty. -/
def first (z : LinkedZone) (order migratetype : Nat) : Option Nat :=
  if listEmpty z.lru (.freeList order migratetype) then none
  else some (listEntry (z.lru.next (.freeList order migratetype)))

def mergeLoop (z : LinkedZone) (page pageIdx buddyIdx order : Nat) : LinkedMerged :=
  if order < maxOrder - 1 then
    let buddyIdx := findBuddyIndex pageIdx order
    let buddy := page + buddyIdx - pageIdx
    if pageIsBuddy z.rest page buddy order then
      let z := ((z.listDel buddy).decNrFree order).modifyPage buddy Page.rmvOrder
      let combinedIdx := buddyIdx &&& pageIdx
      mergeLoop z (page + combinedIdx - pageIdx) combinedIdx buddyIdx (order + 1)
    else ⟨z, page, pageIdx, buddyIdx, order⟩
  else ⟨z, page, pageIdx, buddyIdx, order⟩
termination_by maxOrder - order

def insertMerged (m : LinkedMerged) (migratetype : Nat) : LinkedZone :=
  let z := m.z.modifyPage m.page (·.setOrder m.order)
  let z := if higherBuddyFree ⟨z.rest, m.page, m.pageIdx, m.buddyIdx, m.order⟩ then
      z.listAddTail m.order migratetype m.page
    else z.listAdd m.order migratetype m.page
  z.incNrFree m.order

/-- `__free_one_page` -/
def freeOnePageLocked (z : LinkedZone) (page order migratetype : Nat) : LinkedZone :=
  let r := if (z.rest.memMap page).compound then destroyCompoundPage z.rest page order else (0, z.rest)
  if r.1 ≠ 0 then { z with rest := r.2 }
  else
    insertMerged (mergeLoop { z with rest := r.2 } page (page &&& (1 <<< maxOrder - 1)) 0 order) migratetype

def expand (z : LinkedZone) (page low migratetype : Nat) : (high : Nat) → LinkedZone
  | 0 => z
  | high + 1 =>
    if high + 1 > low then
      let upper := page + 1 <<< high
      let z := ((z.listAdd high migratetype upper).incNrFree high).modifyPage upper (·.setOrder high)
      expand z page low migratetype high
    else z

def moveFreepages (z : LinkedZone) (page endPage migratetype moved : Nat) : Nat × LinkedZone :=
  if page ≤ endPage then
    if (z.rest.memMap page).buddy then
      let order := (z.rest.memMap page).order
      moveFreepages (z.listMove order migratetype page) (page + 2 ^ order) endPage migratetype
        (moved + 2 ^ order)
    else moveFreepages z (page + 1) endPage migratetype moved
  else (moved, z)
termination_by endPage + 1 - page
decreasing_by
  · have := Nat.two_pow_pos (z.rest.memMap page).order
    omega
  · omega

def moveFreepagesBlock (z : LinkedZone) (page migratetype : Nat) : Nat × LinkedZone :=
  let startPfn := head pageblockOrder page
  let endPfn := startPfn + 1 <<< pageblockOrder - 1
  let startPage := if startPfn < z.rest.zone.zoneStartPfn then page else startPfn
  if endPfn ≥ z.rest.zone.zoneStartPfn + z.rest.zone.spannedPages then (0, z)
  else moveFreepages z startPage endPfn migratetype 0

/-- `__rmqueue_smallest` -/
def rmqueueSmallest (z : LinkedZone) (order migratetype : Nat) : Option Nat × LinkedZone :=
  let found := (List.range' order (maxOrder - order)).findSome? fun currentOrder =>
    (z.first currentOrder migratetype).map fun page => (currentOrder, page)
  match found with
  | none => (none, z)
  | some (currentOrder, page) =>
    let z := ((z.listDel page).modifyPage page Page.rmvOrder).decNrFree currentOrder
    (some page, z.expand page order migratetype currentOrder)

def findFallback (z : LinkedZone) (order startMigratetype : Nat) : Option (Nat × Nat × Nat) :=
  (List.range' order (maxOrder - order)).reverse.findSome? fun currentOrder =>
    (fallbacks startMigratetype).findSome? fun migratetype =>
      if migratetype = migrateReserve then none
      else (z.first currentOrder migratetype).map fun page => (currentOrder, migratetype, page)

def stealPageblock (z : LinkedZone) (page currentOrder startMigratetype migratetype : Nat) :
    Nat × LinkedZone :=
  if currentOrder ≥ pageblockOrder >>> 1 ∨ startMigratetype = migrateReclaimable ∨
      z.rest.pageGroupByMobilityDisabled then
    let r := z.moveFreepagesBlock page startMigratetype
    let z := if r.1 ≥ 1 <<< (pageblockOrder - 1) ∨ z.rest.pageGroupByMobilityDisabled then
        { r.2 with rest := setPageblockMigratetype r.2.rest page startMigratetype }
      else r.2
    (startMigratetype, z)
  else (migratetype, z)

/-- `__rmqueue_fallback` -/
def rmqueueFallback (z : LinkedZone) (order startMigratetype : Nat) : Option Nat × LinkedZone :=
  match z.findFallback order startMigratetype with
  | none => (none, z)
  | some (currentOrder, migratetype, page) =>
    let z := z.decNrFree currentOrder
    let r := z.stealPageblock page currentOrder startMigratetype migratetype
    let z := (r.2.listDel page).modifyPage page Page.rmvOrder
    let z := if currentOrder ≥ pageblockOrder then
        { z with rest := changePageblockRange z.rest page currentOrder startMigratetype }
      else z
    (some page, z.expand page order r.1 currentOrder)

/-- `__rmqueue` -/
def rmqueue (z : LinkedZone) (order migratetype : Nat) : Option Nat × LinkedZone :=
  let r := z.rmqueueSmallest order migratetype
  if r.1 = none ∧ migratetype ≠ migrateReserve then
    let r := r.2.rmqueueFallback order migratetype
    if r.1 = none then r.2.rmqueueSmallest order migrateReserve else r
  else r

end LinkedZone

/-- The state without its lists. -/
def State.unlisted (s : State) : State := { s with zone := { s.zone with freeList := fun _ _ => [] } }

/-- The heads in `free_area`. -/
def freeListHead (i : Fin maxOrder × Fin migrateTypes) : Lru := .freeList i.1 i.2

def State.lru (s : State) (i : Fin maxOrder × Fin migrateTypes) : List Lru :=
  (s.zone.freeList i.1 i.2).map .page

/-- The links make rings of the lists, and all else is the same. -/
structure Holds (z : LinkedZone) (s : State) : Prop where
  rest : z.rest = s.unlisted
  rings : Family z.lru freeListHead s.lru

variable {z : LinkedZone} {s : State} {o t p : Nat}

namespace Holds

theorem memMap (holds : Holds z s) : z.rest.memMap = s.memMap := by
  rw [holds.rest]
  rfl

theorem isBuddy (holds : Holds z s) (page buddy order : Nat) :
    pageIsBuddy z.rest page buddy order = pageIsBuddy s page buddy order := by
  rw [holds.rest]
  rfl

theorem zoneInitFreeLists (z : LinkedZone) : Holds z.zoneInitFreeLists z.zoneInitFreeLists.rest := by
  refine ⟨rfl, initListHead_family ?_ (fun i => ?_) z.lru⟩
  · intro i j same
    obtain ⟨order, type⟩ := Lru.freeList.inj same
    exact Prod.ext (Fin.ext order) (Fin.ext type)
  · rw [List.mem_flatMap]
    exact ⟨i.1, List.mem_range.2 i.1.2, List.mem_map.2 ⟨i.2, List.mem_range.2 i.2.2, rfl⟩⟩

theorem modifyRest (holds : Holds z s) {f : State → State}
    (outside : ∀ s : State, f s.unlisted = (f s).unlisted) (lists : (f s).zone.freeList = s.zone.freeList) :
    Holds { z with rest := f z.rest } (f s) := by
  refine ⟨?_, ?_⟩
  · rw [holds.rest, outside]
  · have same : (f s).lru = s.lru := by
      funext i
      rw [State.lru, State.lru, lists]
    rw [same]
    exact holds.rings

theorem modifyPage (holds : Holds z s) (pfn : Nat) (f : Page → Page) :
    Holds (z.modifyPage pfn f) (s.modifyPage pfn f) :=
  holds.modifyRest (f := fun s => s.modifyPage pfn f) (fun _ => rfl) rfl

theorem incNrFree (holds : Holds z s) (order : Nat) : Holds (z.incNrFree order) (s.incNrFree order) :=
  holds.modifyRest (f := fun s => s.incNrFree order) (fun _ => rfl) rfl

theorem decNrFree (holds : Holds z s) (order : Nat) : Holds (z.decNrFree order) (s.decNrFree order) :=
  holds.modifyRest (f := fun s => s.decNrFree order) (fun _ => rfl) rfl

theorem first_eq (holds : Holds z s) (small : o < maxOrder) (range : t < migrateTypes) :
    z.first o t = (s.zone.freeList o t).head? := by
  have ring := holds.rings.ring (⟨o, small⟩, ⟨t, range⟩)
  have empty := listEmpty_iff holds.rings (⟨o, small⟩, ⟨t, range⟩)
  have next := ring.next_head
  simp only [State.lru, freeListHead, List.map_eq_nil_iff] at empty next
  rw [LinkedZone.first]
  cases list : s.zone.freeList o t with
  | nil => rw [if_pos (empty.2 list), List.head?_nil]
  | cons p rest =>
    rw [if_neg (fun h => by rw [empty.1 h] at list; cases list), next, list]
    rfl

theorem fresh (off : ∀ o, ¬ s.Free o p) (j : Fin maxOrder × Fin migrateTypes) :
    Lru.page p ∉ freeListHead j :: s.lru j := by
  intro mem
  obtain same | mem := List.mem_cons.1 mem
  · cases same
  · obtain ⟨q, onList, same⟩ := List.mem_map.1 mem
    obtain rfl := Lru.page.inj same
    exact off j.1 ((s.free_def j.1 q).2 ⟨j.2, j.2.2, onList⟩)

theorem lru_modifyList (small : o < maxOrder) (range : t < migrateTypes) (f : List Nat → List Nat) :
    (s.modifyList o t f).lru = Function.update s.lru (⟨o, small⟩, ⟨t, range⟩)
      ((f (s.zone.freeList o t)).map .page) := by
  funext j
  by_cases here : j = (⟨o, small⟩, ⟨t, range⟩)
  · subst here
    simp [State.lru, State.modifyList]
  · have other : ¬ (j.1.val = o ∧ j.2.val = t) := by
      rintro ⟨rfl, rfl⟩
      exact here rfl
    simp [State.lru, State.modifyList, here, other]

theorem listAdd (holds : Holds z s) (small : o < maxOrder) (range : t < migrateTypes)
    (off : ∀ o, ¬ s.Free o p) : Holds (z.listAdd o t p) (s.listAdd o t p) := by
  refine ⟨holds.rest, ?_⟩
  rw [State.listAdd, lru_modifyList small range]
  exact listAdd_family holds.rings (⟨o, small⟩, ⟨t, range⟩) (fresh off)

theorem listAddTail (holds : Holds z s) (small : o < maxOrder) (range : t < migrateTypes)
    (off : ∀ o, ¬ s.Free o p) : Holds (z.listAddTail o t p) (s.listAddTail o t p) := by
  refine ⟨holds.rest, ?_⟩
  rw [State.listAddTail, lru_modifyList small range, List.map_append]
  exact listAddTail_family holds.rings (⟨o, small⟩, ⟨t, range⟩) (fresh off)

theorem lru_listDel (s : State) (p : Nat) : (s.listDel p).lru = fun j => (s.lru j).filter (· != .page p) := by
  funext j
  rw [State.lru, State.lru, State.listDel, List.filter_map]
  refine congrArg (List.map _) (List.filter_congr fun q _ => ?_)
  rw [Bool.eq_iff_iff]
  simp

theorem listDel (holds : Holds z s) (small : o < maxOrder) (free : s.Free o p) :
    Holds (z.listDel p) (s.listDel p) := by
  obtain ⟨t, range, mem⟩ := (s.free_def o p).1 free
  refine ⟨holds.rest, ?_⟩
  rw [lru_listDel]
  exact listDel_family holds.rings (i := (⟨o, small⟩, ⟨t, range⟩)) (List.mem_map_of_mem mem)
    (fun j => by simp [freeListHead]) _ _

theorem listMove (holds : Holds z s) (small : o < maxOrder) (range : t < migrateTypes) (free : s.Free o p) :
    Holds (z.listMove o t p) (s.listMove o t p) := by
  obtain ⟨t', range', mem⟩ := (s.free_def o p).1 free
  refine ⟨holds.rest, ?_⟩
  have moved := listMove_family holds.rings (i := (⟨o, small⟩, ⟨t', range'⟩)) (List.mem_map_of_mem mem)
    (fun j => by simp [freeListHead]) (⟨o, small⟩, ⟨t, range⟩)
  rw [State.listMove, State.listAdd, lru_modifyList small range, List.map_cons]
  have deleted : (s.lru (⟨o, small⟩, ⟨t, range⟩)).filter (· != .page p) =
      (s.listDel p).lru (⟨o, small⟩, ⟨t, range⟩) :=
    (congrFun (lru_listDel s p) _).symm
  rw [← lru_listDel, deleted] at moved
  exact moved

end Holds

end XcKernel.PageAlloc
