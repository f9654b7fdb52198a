import Mathlib.Data.List.Basic
import Mathlib.Data.List.Nodup
import Mathlib.Tactic.IntervalCases
import XcKernel.Lib.Blocks
import XcKernel.Lib.Flags
import XcKernel.Lib.Word

/-!
# Pages and zones

The data of `mm/page_alloc.c`: `struct page` by page frame number, and one
zone with its buddy lists, its per-cpu lists and its counters.

An intrusive list is the list of the frame numbers on it.  A page is linked
into at most one list, so `list_del` removes it from whichever list it is on.
-/

namespace XcKernel.PageAlloc

/-- `enum pageflags`, in the order of the source. -/
inductive PageFlag where
  | locked | error | referenced | uptodate | dirty | lru | active | slab
  | ownerPriv1 | arch1 | reserved | priv | priv2 | writeback | head | tail
  | swapcache | mappedtodisk | reclaim | swapbacked | unevictable | mlocked
  deriving DecidableEq, Repr

def PageFlag.mask (flag : PageFlag) : BitVec 32 := 1#32 <<< flag.ctorIdx

/-- `struct page`.  `priv` is `private`, which is also `first_page`; `lruPrev` is `lru.prev`
where it holds the order of a compound page. -/
structure Page where
  flags : BitVec 32
  mapping : Nat
  mapcount : Int
  count : Int
  priv : Nat
  lruPrev : Nat
  deriving DecidableEq, Repr

def pageFlagsCheckAtFree : BitVec 32 :=
  PageFlag.lru.mask ||| PageFlag.locked.mask ||| PageFlag.priv.mask ||| PageFlag.priv2.mask |||
  PageFlag.writeback.mask ||| PageFlag.reserved.mask ||| PageFlag.slab.mask |||
  PageFlag.swapcache.mask ||| PageFlag.active.mask ||| PageFlag.unevictable.mask |||
  PageFlag.mlocked.mask

/-- `PAGE_FLAGS_CHECK_AT_PREP`: all of the 22 flags -/
def pageFlagsCheckAtPrep : BitVec 32 := (1#32 <<< 22) - 1

def pageBuddyMapcountValue : Int := -128

namespace Page

/-- `test_bit` -/
def test (page : Page) (flag : PageFlag) : Bool := page.flags &&& flag.mask ≠ 0

/-- `__set_bit` -/
def set (page : Page) (flag : PageFlag) : Page := { page with flags := page.flags ||| flag.mask }

/-- `__clear_bit` -/
def clear (page : Page) (flag : PageFlag) : Page :=
  { page with flags := page.flags &&& ~~~flag.mask }

/-- `PageCompound` -/
def compound (page : Page) : Bool :=
  page.flags &&& (PageFlag.head.mask ||| PageFlag.tail.mask) ≠ 0

/-- `page_zonenum`, and with a single node `page_zone_id` too -/
def zonenum (page : Page) : Nat := ((page.flags >>> 30) &&& 3#32).toNat

/-- `PageBuddy` -/
def buddy (page : Page) : Bool := page.mapcount = pageBuddyMapcountValue

/-- `page_order` -/
def order (page : Page) : Nat := page.priv

/-- `set_page_order` -/
def setOrder (page : Page) (order : Nat) : Page :=
  { page with priv := order, mapcount := pageBuddyMapcountValue }

/-- `rmv_page_order` -/
def rmvOrder (page : Page) : Page := { page with mapcount := -1, priv := 0 }

@[simp] theorem setOrder_buddy (page : Page) (order : Nat) : (page.setOrder order).buddy = true := by
  simp [setOrder, buddy]

@[simp] theorem rmvOrder_buddy (page : Page) : page.rmvOrder.buddy = false := by
  simp [rmvOrder, buddy, pageBuddyMapcountValue]

theorem test_eq (page : Page) (flag : PageFlag) :
    page.test flag = Flags.test page.flags flag.mask := by
  rw [Bool.eq_iff_iff, Flags.test_eq_true_iff]
  exact decide_eq_true_iff

theorem test_set (page : Page) (flag : PageFlag) : (page.set flag).test flag = true := by
  rw [test_eq]
  apply Flags.test_set_self
  cases flag <;> decide

theorem test_set_of_disjoint (page : Page) {flag other : PageFlag}
    (disjoint : flag.mask &&& other.mask = 0) : (page.set flag).test other = page.test other := by
  rw [test_eq, test_eq]
  exact Flags.test_set_of_disjoint page.flags disjoint

theorem test_clear_of_disjoint (page : Page) {flag other : PageFlag}
    (disjoint : flag.mask &&& other.mask = 0) : (page.clear flag).test other = page.test other := by
  rw [test_eq, test_eq]
  exact Flags.test_clear_of_disjoint page.flags disjoint

end Page

def maxOrder : Nat := 11

def pageblockOrder : Nat := 10

/-- `MIGRATE_RECLAIMABLE`, and so on -/
def migrateUnmovable : Nat := 0
def migrateReclaimable : Nat := 1
def migrateMovable : Nat := 2
def migratePcptypes : Nat := 3
def migrateReserve : Nat := 3
def migrateIsolate : Nat := 4
def migrateTypes : Nat := 5

/-- The items of `enum zone_stat_item` that this part of the source adjusts. -/
inductive ZoneStatItem where
  | nrFreePages
  | nrMlock
  deriving DecidableEq, Repr

/-- `struct per_cpu_pages` -/
structure PerCpuPages where
  count : Int
  high : Int
  batch : Int
  lists : Nat → List Nat

/-- `struct zone`, with `free_area` as two tables by order. -/
structure Zone where
  /-- `zone_idx` -/
  idx : Nat
  lowmemReserve : Nat → Nat
  pageset : PerCpuPages
  freeList : Nat → Nat → List Nat
  nrFree : Nat → Nat
  pageblockFlags : Nat → Bool
  vmStat : ZoneStatItem → Int
  zoneStartPfn : Nat
  spannedPages : Nat

/-- The pages of the free blocks of order below `n`. -/
def Zone.pagesBelow (z : Zone) (n : Nat) : Nat := ∑ o ∈ Finset.range n, z.nrFree o * 2 ^ o

/-- The page map, the zone, and `page_group_by_mobility_disabled`. -/
structure State where
  memMap : Nat → Page
  zone : Zone
  pageGroupByMobilityDisabled : Bool

theorem flatMap_perm_append {g g' : Nat → List Nat} {k : Nat} (xs : List Nat)
    (here : (g' k).Perm (xs ++ g k)) (other : ∀ t, t ≠ k → g' t = g t) {ks : List Nat}
    (nodup : ks.Nodup) (member : k ∈ ks) : (ks.flatMap g').Perm (xs ++ ks.flatMap g) := by
  induction ks with
  | nil => cases member
  | cons t ks ih =>
    rw [List.nodup_cons] at nodup
    rw [List.flatMap_cons, List.flatMap_cons]
    by_cases first : t = k
    · subst first
      have rest : ks.flatMap g' = ks.flatMap g := by
        apply List.flatMap_congr
        intro u hu
        exact other u fun same => nodup.1 (same ▸ hu)
      rw [rest, ← List.append_assoc]
      exact here.append_right _
    · rw [other t first]
      have later := ih nodup.2 ((List.mem_cons.mp member).resolve_left (Ne.symm first))
      refine (later.append_left _).trans ?_
      rw [← List.append_assoc, ← List.append_assoc]
      exact List.perm_append_comm.append_right _

namespace State

/-- Change the page structure of one frame. -/
def modifyPage (s : State) (pfn : Nat) (f : Page → Page) : State :=
  { s with memMap := fun i => if i = pfn then f (s.memMap i) else s.memMap i }

theorem modifyPage_self (s : State) (pfn : Nat) (f : Page → Page) :
    (s.modifyPage pfn f).memMap pfn = f (s.memMap pfn) := if_pos rfl

theorem modifyPage_of_ne (s : State) {pfn i : Nat} (ne : i ≠ pfn) (f : Page → Page) :
    (s.modifyPage pfn f).memMap i = s.memMap i := if_neg ne

/-- Change one free list. -/
def modifyList (s : State) (order migratetype : Nat) (f : List Nat → List Nat) : State :=
  { s with zone := { s.zone with freeList := fun o t =>
      if o = order ∧ t = migratetype then f (s.zone.freeList o t) else s.zone.freeList o t } }

/-- `list_add(&page->lru, &zone->free_area[order].free_list[migratetype])` -/
def listAdd (s : State) (order migratetype pfn : Nat) : State :=
  s.modifyList order migratetype (pfn :: ·)

/-- `list_add_tail`, likewise -/
def listAddTail (s : State) (order migratetype pfn : Nat) : State :=
  s.modifyList order migratetype (· ++ [pfn])

/-- `list_del(&page->lru)` of a page on a free list -/
def listDel (s : State) (pfn : Nat) : State :=
  { s with zone := { s.zone with freeList := fun o t => (s.zone.freeList o t).filter (· != pfn) } }

def listMove (s : State) (order migratetype pfn : Nat) : State :=
  (s.listDel pfn).listAdd order migratetype pfn

/-- `zone->free_area[order].nr_free++` -/
def incNrFree (s : State) (order : Nat) : State :=
  { s with zone := { s.zone with nrFree := fun o =>
      if o = order then s.zone.nrFree o + 1 else s.zone.nrFree o } }

/-- `zone->free_area[order].nr_free--` -/
def decNrFree (s : State) (order : Nat) : State :=
  { s with zone := { s.zone with nrFree := fun o =>
      if o = order then s.zone.nrFree o - 1 else s.zone.nrFree o } }

/-- `__mod_zone_page_state` -/
def modZonePageState (s : State) (item : ZoneStatItem) (delta : Int) : State :=
  { s with zone := { s.zone with vmStat := fun i =>
      if i = item then s.zone.vmStat i + delta else s.zone.vmStat i } }

/-- The pages that head a free block of the given order, over all lists. -/
def free (s : State) (order : Nat) : List Nat :=
  (List.range migrateTypes).flatMap (s.zone.freeList order)

/-- The frame lies in the zone's span. -/
def Spanned (s : State) (pfn : Nat) : Prop :=
  s.zone.zoneStartPfn ≤ pfn ∧ pfn < s.zone.zoneStartPfn + s.zone.spannedPages

instance (s : State) (pfn : Nat) : Decidable (s.Spanned pfn) :=
  inferInstanceAs (Decidable (_ ∧ _))

/-- A free block of the given order starts at the frame. -/
def Free (s : State) (order pfn : Nat) : Prop := pfn ∈ s.free order

instance (s : State) (order pfn : Nat) : Decidable (s.Free order pfn) :=
  inferInstanceAs (Decidable (_ ∈ _))

theorem free_def (s : State) (order pfn : Nat) :
    s.Free order pfn ↔ ∃ t < migrateTypes, pfn ∈ s.zone.freeList order t := by
  simp [Free, free]

@[simp] theorem free_modifyPage (s : State) (pfn : Nat) (f : Page → Page) (o : Nat) :
    (s.modifyPage pfn f).free o = s.free o := rfl

@[simp] theorem free_incNrFree (s : State) (order o : Nat) :
    (s.incNrFree order).free o = s.free o := rfl

@[simp] theorem free_decNrFree (s : State) (order o : Nat) :
    (s.decNrFree order).free o = s.free o := rfl

theorem free_listDel (s : State) (pfn o : Nat) :
    (s.listDel pfn).free o = (s.free o).filter (· != pfn) := by
  rw [free, free, List.filter_flatMap]
  rfl

theorem free_modifyList_of_ne {order o : Nat} (h : o ≠ order) (s : State) (migratetype : Nat)
    (f : List Nat → List Nat) : (s.modifyList order migratetype f).free o = s.free o := by
  simp [free, modifyList, h]

theorem free_modifyList_perm {migratetype pfn : Nat} {f : List Nat → List Nat} (s : State)
    (order : Nat) (range : migratetype < migrateTypes) (adds : ∀ l, (f l).Perm (pfn :: l)) :
    ((s.modifyList order migratetype f).free order).Perm (pfn :: s.free order) := by
  refine flatMap_perm_append [pfn] (k := migratetype) ?_ (fun t ne => ?_)
    List.nodup_range (List.mem_range.mpr range)
  · simpa [modifyList] using adds _
  · simp [modifyList, ne]

end State

def nrPageblockBits : Nat := 3

/-- `pfn_to_bitidx`, which reads only the start of the zone; the frame is one of the zone. -/
def pfnToBitidx (zoneStartPfn pfn : Nat) : Nat :=
  ((pfn - zoneStartPfn) >>> pageblockOrder) * nrPageblockBits

/-- The bitmap with the group at `bitidx` set to the low bits of `flags`. -/
def writeGroup (bitmap : Nat → Bool) (bitidx flags : Nat) : Nat → Bool := fun b =>
  if bitidx ≤ b ∧ b < bitidx + nrPageblockBits then flags.testBit (b - bitidx) else bitmap b

/-- The group at `bitidx` as a number. -/
def readGroup (bitmap : Nat → Bool) (bitidx : Nat) : Nat :=
  (List.range nrPageblockBits).foldl (fun flags i =>
    if bitmap (bitidx + i) then flags ||| 1 <<< i else flags) 0

/-- `set_pageblock_flags_group(page, flags, PB_migrate, PB_migrate_end)`, for a
page of the zone -/
def setPageblockFlagsGroup (s : State) (pfn flags : Nat) : State :=
  let bitidx := pfnToBitidx s.zone.zoneStartPfn pfn
  { s with zone := { s.zone with
      pageblockFlags := writeGroup s.zone.pageblockFlags bitidx flags } }

/-- `get_pageblock_flags_group`, likewise -/
def getPageblockFlagsGroup (s : State) (pfn : Nat) : Nat :=
  readGroup s.zone.pageblockFlags (pfnToBitidx s.zone.zoneStartPfn pfn)

def getPageblockMigratetype (s : State) (pfn : Nat) : Nat := getPageblockFlagsGroup s pfn

def setPageblockMigratetype (s : State) (pfn migratetype : Nat) : State :=
  let migratetype := if s.pageGroupByMobilityDisabled then migrateUnmovable else migratetype
  setPageblockFlagsGroup s pfn migratetype

theorem pfnToBitidx_mod (zoneStartPfn pfn : Nat) :
    pfnToBitidx zoneStartPfn pfn % nrPageblockBits = 0 := Nat.mul_mod_left _ _

theorem readGroup_congr {bitmap bitmap' : Nat → Bool} {j j' : Nat}
    (h : ∀ k < nrPageblockBits, bitmap (j + k) = bitmap' (j' + k)) :
    readGroup bitmap j = readGroup bitmap' j' := by
  apply List.foldl_ext
  intro flags k hk
  rw [h k (List.mem_range.mp hk)]

theorem readGroup_writeGroup_self (bitmap : Nat → Bool) (i : Nat) {flags : Nat}
    (value : flags < 2 ^ nrPageblockBits) : readGroup (writeGroup bitmap i flags) i = flags := by
  have written : readGroup (writeGroup bitmap i flags) i = readGroup flags.testBit 0 := by
    apply readGroup_congr
    intro k hk
    simp [writeGroup, hk]
  rw [written]
  simp only [nrPageblockBits] at value
  interval_cases flags <;> decide

theorem readGroup_writeGroup_of_ne (bitmap : Nat → Bool) {i j : Nat} (flags : Nat)
    (hi : i % nrPageblockBits = 0) (hj : j % nrPageblockBits = 0) (ne : j ≠ i) :
    readGroup (writeGroup bitmap i flags) j = readGroup bitmap j := by
  simp only [nrPageblockBits] at hi hj
  apply readGroup_congr
  intro k hk
  simp only [nrPageblockBits] at hk
  rw [writeGroup, if_neg (by simp only [nrPageblockBits]; omega)]

/-- Writing a migratetype into one group leaves a migratetype in every group. -/
theorem readGroup_writeGroup_lt {bitmap : Nat → Bool} {i j flags : Nat}
    (hi : i % nrPageblockBits = 0) (hj : j % nrPageblockBits = 0) (value : flags < migrateTypes)
    (old : readGroup bitmap j < migrateTypes) :
    readGroup (writeGroup bitmap i flags) j < migrateTypes := by
  by_cases same : j = i
  · subst same
    rwa [readGroup_writeGroup_self bitmap j (value.trans (by decide))]
  · rwa [readGroup_writeGroup_of_ne bitmap flags hi hj same]

end XcKernel.PageAlloc
