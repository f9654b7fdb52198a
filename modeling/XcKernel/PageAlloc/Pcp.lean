import XcKernel.PageAlloc.Buddy

/-!
# Per-cpu lists, checks and the functions around the buddy allocator

`free_hot_cold_page`, `__free_pages_ok`, `__free_pages_bootmem` and
`buffered_rmqueue` with what they call.  Interrupts, locks and event counters
are left out.  A loop that may not end returns an option; `none` is a call that
does not return.
-/

namespace XcKernel.PageAlloc

/-- `free_pages_check`: 1 for a page that must not be freed, or 0 with the flags cleared.
`bad_page` does nothing. -/
def freePagesCheck (page : Page) : Nat × Page :=
  if page.mapcount + 1 ≠ 0 ∨ page.mapping ≠ 0 ∨ page.flags &&& pageFlagsCheckAtFree ≠ 0 then
    (1, page)
  else if page.flags &&& pageFlagsCheckAtPrep ≠ 0 then
    (0, { page with flags := page.flags &&& ~~~pageFlagsCheckAtPrep })
  else (0, page)

/-- `PageAnon` -/
def Page.anon (page : Page) : Bool := page.mapping &&& 1 ≠ 0

/-- The loop of `free_pages_prepare` over the pages that remain, with `bad` faults so far. -/
def prepareLoop (s : State) (page : Nat) : (rest : List Nat) → (bad : Nat) → Nat × State
  | [], bad => (bad, s)
  | i :: rest, bad =>
    let r := freePagesCheck (s.memMap (page + i))
    prepareLoop (s.modifyPage (page + i) fun _ => r.2) page rest (bad + r.1)

def freePagesPrepare (s : State) (page order : Nat) : Bool × State :=
  let s := if (s.memMap page).anon then s.modifyPage page fun p => { p with mapping := 0 } else s
  let r := prepareLoop s page (List.range (1 <<< order)) 0
  (r.1 = 0, r.2)

def freeOnePage (s : State) (page order migratetype : Nat) : State :=
  (freeOnePageLocked s page order migratetype).modZonePageState .nrFreePages (1 <<< order : Nat)

def freePageMlock (s : State) : State := s.modZonePageState .nrMlock (-1)

/-- Change one of the per-cpu lists. -/
def State.modifyPcpList (s : State) (migratetype : Nat) (f : List Nat → List Nat) : State :=
  let lists t := if t = migratetype then f (s.zone.pageset.lists t) else s.zone.pageset.lists t
  { s with zone := { s.zone with pageset := { s.zone.pageset with lists := lists } } }

/-- `pcp->count += delta` -/
def State.addPcpCount (s : State) (delta : Int) : State :=
  { s with zone := { s.zone with pageset := { s.zone.pageset with
      count := s.zone.pageset.count + delta } } }

/-- The loop of `free_pcppages_bulk` that looks for the next list with a page.
After three empty lists it would go round for ever. -/
def nextPcpList (lists : Nat → List Nat) : (tries migratetype batchFree : Nat) → Option (Nat × Nat)
  | 0, _, _ => none
  | tries + 1, migratetype, batchFree =>
    let migratetype := if migratetype + 1 = migratePcptypes then 0 else migratetype + 1
    if lists migratetype = [] then nextPcpList lists tries migratetype (batchFree + 1)
    else some (migratetype, batchFree + 1)

/-- The inner loop of `free_pcppages_bulk`: the state and `to_free` and
`batch_free` when it ends. -/
def drainList (s : State) (migratetype : Nat) : (toFree batchFree : Nat) → State × Nat × Nat
  | 0, batchFree => (s, 0, batchFree)
  | toFree + 1, batchFree =>
    match (s.zone.pageset.lists migratetype).getLast? with
    | none => (s, toFree + 1, batchFree)
    | some page =>
      let s := s.modifyPcpList migratetype List.dropLast
      let s := freeOnePageLocked s page 0 (s.memMap page).priv
      if toFree = 0 then (s, 0, batchFree)
      else if batchFree - 1 = 0 then (s, toFree, 0)
      else if s.zone.pageset.lists migratetype = [] then (s, toFree, batchFree - 1)
      else drainList s migratetype toFree (batchFree - 1)

theorem drainList_lt (s : State) (migratetype : Nat) (toFree batchFree : Nat)
    (page : s.zone.pageset.lists migratetype ≠ []) :
    (drainList s migratetype (toFree + 1) batchFree).2.1 < toFree + 1 := by
  induction toFree generalizing s batchFree with
  | zero =>
    simp [drainList, List.getLast?_eq_some_getLast page]
  | succ toFree ih =>
    rw [drainList, List.getLast?_eq_some_getLast page]
    dsimp only
    rw [if_neg (Nat.succ_ne_zero toFree)]
    split_ifs with stop drained
    · simp
    · simp
    · exact (ih _ _ drained).trans (Nat.lt_succ_self _)

theorem nextPcpList_ne_nil {lists : Nat → List Nat} {tries migratetype batchFree : Nat}
    {r : Nat × Nat} (h : nextPcpList lists tries migratetype batchFree = some r) :
    lists r.1 ≠ [] := by
  induction tries generalizing migratetype batchFree with
  | zero => cases h
  | succ tries ih =>
    rw [nextPcpList] at h
    generalize (if migratetype + 1 = migratePcptypes then 0 else migratetype + 1) = next at h
    split_ifs at h with empty
    · exact ih h
    · cases h
      exact empty

/-- The outer loop of `free_pcppages_bulk` -/
def bulkLoop (s : State) (migratetype toFree batchFree : Nat) : Option State :=
  if toFree = 0 then some s
  else
    match _found : nextPcpList s.zone.pageset.lists migratePcptypes migratetype batchFree with
    | none => none
    | some (migratetype, batchFree) =>
      let batchFree := if batchFree = migratePcptypes then toFree else batchFree
      let r := drainList s migratetype toFree batchFree
      bulkLoop r.1 migratetype r.2.1 r.2.2
termination_by toFree
decreasing_by
  obtain ⟨n, rfl⟩ := Nat.exists_eq_succ_of_ne_zero ‹_›
  exact drainList_lt s _ n _ (nextPcpList_ne_nil _found)

def freePcppagesBulk (s : State) (count : Int) : Option State :=
  (bulkLoop s 0 count.toNat 0).map (·.modZonePageState .nrFreePages count)

/-- The end of `free_hot_cold_page`: the page goes on a per-cpu list, and a
batch goes back to the zone when there are too many. -/
def addToPcp (s : State) (page migratetype : Nat) (cold : Bool) : Option State :=
  let s := s.modifyPcpList migratetype fun l => if cold then l ++ [page] else page :: l
  let s := s.addPcpCount 1
  if s.zone.pageset.count ≥ s.zone.pageset.high then
    (freePcppagesBulk s s.zone.pageset.batch).map fun s => s.addPcpCount (-s.zone.pageset.batch)
  else some s

def freeHotColdPage (s : State) (page : Nat) (cold : Bool) : Option State :=
  let wasMlocked := (s.memMap page).test .mlocked
  let s := s.modifyPage page (·.clear .mlocked)
  let r := freePagesPrepare s page 0
  if ¬ r.1 then some r.2
  else
    let migratetype := getPageblockMigratetype r.2 page
    let s := r.2.modifyPage page fun p => { p with priv := migratetype }
    let s := if wasMlocked then freePageMlock s else s
    if migratetype ≥ migratePcptypes then
      if migratetype = migrateIsolate then some (freeOnePage s page 0 migratetype)
      else addToPcp s page migrateMovable cold
    else addToPcp s page migratetype cold

/-- `__free_pages_ok` -/
def freePagesOk (s : State) (page order : Nat) : State :=
  let wasMlocked := (s.memMap page).test .mlocked
  let s := s.modifyPage page (·.clear .mlocked)
  let r := freePagesPrepare s page order
  if ¬ r.1 then r.2
  else
    let s := if wasMlocked then freePageMlock r.2 else r.2
    freeOnePage s page order (getPageblockMigratetype s page)

/-- `__free_pages`: `put_page_testzero` first -/
def freePages (s : State) (page order : Nat) : Option State :=
  let s := s.modifyPage page fun p => { p with count := p.count - 1 }
  if (s.memMap page).count = 0 then
    if order = 0 then freeHotColdPage s page false else some (freePagesOk s page order)
  else some s

def bitsPerLong : Nat := 32

/-- `set_page_count` -/
def Page.setCount (page : Page) (count : Int) : Page := { page with count := count }

/-- One round of the loop of `__free_pages_bootmem`, whose second statement
names the first page. -/
def bootmemRound (page : Nat) (s : State) (loop : Nat) : State :=
  (s.modifyPage (page + loop) (·.clear .reserved)).modifyPage page (·.setCount 0)

/-- The loop of `__free_pages_bootmem` -/
def bootmemLoop (s : State) (page : Nat) : State :=
  (List.range bitsPerLong).foldl (bootmemRound page) s

/-- `__free_pages_bootmem` -/
def freePagesBootmem (s : State) (page order : Nat) : Option State :=
  if order = 0 then
    let s := s.modifyPage page (·.clear .reserved)
    let s := s.modifyPage page (·.setCount 0)
    freePages (s.modifyPage page (·.setCount 1)) page 0
  else freePages ((bootmemLoop s page).modifyPage page (·.setCount 1)) page order

/-- `__GFP_COLD` -/
def gfpCold : BitVec 32 := 0x100

/-- `__GFP_COMP` -/
def gfpComp : BitVec 32 := 0x4000

/-- `__GFP_ZERO` -/
def gfpZero : BitVec 32 := 0x8000

/-- `check_new_page`: whether the page is refused -/
def checkNewPage (page : Page) : Bool :=
  page.mapcount + 1 ≠ 0 ∨ page.mapping ≠ 0 ∨ page.count ≠ 0 ∨
    page.flags &&& pageFlagsCheckAtPrep ≠ 0

/-- A `struct page` of zero bytes. -/
def zeroedPage : Page := ⟨0, 0, 0, 0, 0, 0⟩

/-- `clear_page` on the address of a `struct page`: the 4096 bytes hold 128 of them. -/
def clearPage (s : State) (page : Nat) : State :=
  { s with memMap := fun i => if page ≤ i ∧ i < page + 128 then zeroedPage else s.memMap i }

/-- `prep_zero_page`, which passes the page structures themselves to `clear_page` -/
def prepZeroPage (s : State) (page order : Nat) : State :=
  (List.range (1 <<< order)).foldl (fun s i => clearPage s (page + i)) s

/-- `prep_compound_page`; the destructor is not modelled. -/
def prepCompoundPage (s : State) (page order : Nat) : State :=
  let s := s.modifyPage (page + 1) fun p => { p with lruPrev := order }
  let s := s.modifyPage page (·.set .head)
  (List.range' 1 (1 <<< order - 1)).foldl (fun s i =>
    s.modifyPage (page + i) fun p => { p.set .tail with priv := page }) s

/-- `prep_new_page`: `none` when a page of the block is refused -/
def prepNewPage (s : State) (page order : Nat) (gfpFlags : BitVec 32) : Option State :=
  if (List.range (1 <<< order)).any fun i => checkNewPage (s.memMap (page + i)) then none
  else
    let s := s.modifyPage page fun p => { p with priv := 0, count := 1 }
    let s := if gfpFlags &&& gfpZero ≠ 0 then prepZeroPage s page order else s
    some (if order ≠ 0 ∧ gfpFlags &&& gfpComp ≠ 0 then prepCompoundPage s page order else s)

/-- The loop of `rmqueue_bulk`: the pages taken, in order. -/
def rmqueueLoop (s : State) (order migratetype : Nat) :
    (count : Nat) → (taken : List Nat) → List Nat × State
  | 0, taken => (taken, s)
  | count + 1, taken =>
    let r := rmqueue s order migratetype
    match r.1 with
    | none => (taken, r.2)
    | some page =>
      rmqueueLoop (r.2.modifyPage page fun p => { p with priv := migratetype }) order migratetype
        count (taken ++ [page])

/-- `rmqueue_bulk`: each page is linked behind the one before it, or before it
when the pages are to be cold. -/
def rmqueueBulk (s : State) (order count migratetype : Nat) (cold : Bool) : Nat × State :=
  let r := rmqueueLoop s order migratetype count []
  let s := r.2.modifyPcpList migratetype fun l => if cold then l ++ r.1.reverse else r.1 ++ l
  (r.1.length, s.modZonePageState .nrFreePages (-(r.1.length <<< order : Nat)))

/-- The order 0 part of `buffered_rmqueue` -/
def pcpRmqueue (s : State) (migratetype : Nat) (cold : Bool) : Option Nat × State :=
  let s := if s.zone.pageset.lists migratetype = [] then
      let r := rmqueueBulk s 0 s.zone.pageset.batch.toNat migratetype cold
      r.2.addPcpCount r.1
    else s
  let list := s.zone.pageset.lists migratetype
  match if cold then list.getLast? else list.head? with
  | none => (none, s)
  | some page =>
    let s := s.modifyPcpList migratetype fun l => if cold then l.dropLast else l.tail
    (some page, s.addPcpCount (-1))

/-- The other part of `buffered_rmqueue` -/
def zoneRmqueue (s : State) (order migratetype : Nat) : Option Nat × State :=
  let r := rmqueue s order migratetype
  match r.1 with
  | none => (none, r.2)
  | some page => (some page, r.2.modZonePageState .nrFreePages (-(1 <<< order : Nat)))

/-- The block one round of `buffered_rmqueue` comes up with. -/
def rmqueueRound (s : State) (order : Nat) (gfpFlags : BitVec 32) (migratetype : Nat) :
    Option Nat × State :=
  if order = 0 then pcpRmqueue s migratetype (gfpFlags &&& gfpCold ≠ 0)
  else zoneRmqueue s order migratetype

/-- `buffered_rmqueue`.  A block that `prep_new_page` refuses is dropped and the
search starts again; `fuel` bounds the number of rounds. -/
def bufferedRmqueue (s : State) (order : Nat) (gfpFlags : BitVec 32) (migratetype : Nat) :
    (fuel : Nat) → Option (Option Nat × State)
  | 0 => none
  | fuel + 1 =>
    let r := rmqueueRound s order gfpFlags migratetype
    match r.1 with
    | none => some (none, r.2)
    | some page =>
      match prepNewPage r.2 page order gfpFlags with
      | none => bufferedRmqueue r.2 order gfpFlags migratetype fuel
      | some s => some (some page, s)

def setupPageset (batch : Nat) : PerCpuPages where
  count := 0
  high := 6 * batch
  batch := max 1 batch
  lists := fun _ => []

end XcKernel.PageAlloc
