import XcKernel.Lib.Chain
import XcKernel.Page
import Mathlib.Data.BitVec
import Mathlib.Tactic.Common

/-!
# Slab caches

The functions of `mm/slub.c` on one cache of a machine with one processor and
one node, when nothing interrupts them.  An address that is 0 is `NULL`, a page
is its frame number, and the free pointer of an object is kept by the address
of the object.  `none` is a call that does not return: a loop that goes round
again with the same values, or an access through `NULL` or a poisoned link.
Locks, interrupt flags, statistics and debugging are left out.
-/

namespace XcKernel.Slub

/-- The bit fields over `page->counters`: `inuse:16`, `objects:15`, `frozen:1` -/
structure Counters where
  inuse : BitVec 16
  objects : BitVec 15
  frozen : Bool
  deriving DecidableEq, Repr

/-- The word they share, which is also `page->_mapcount`. -/
def Counters.word (c : Counters) : BitVec 32 := BitVec.ofBool c.frozen ++ c.objects ++ c.inuse

/-- `struct page` of a slab.  `order` is the compound order; `live` holds from
`new_slab` to `discard_slab`. -/
structure SlabPage where
  freelist : Nat
  counters : Counters
  order : Nat
  live : Bool
  deriving DecidableEq, Repr

/-- `struct kmem_cache_order_objects`, unpacked -/
structure OrderObjects where
  order : Nat
  objects : Nat
  deriving DecidableEq, Repr

/-- `struct kmem_cache` -/
structure Cache where
  size : Nat
  objsize : Nat
  offset : Nat
  minPartial : Nat
  oo : OrderObjects
  min : OrderObjects
  destroyByRcu : Bool
  deriving DecidableEq, Repr

/-- A cache with two objects in a page. -/
def pairCache : Cache := ⟨2048, 2048, 0, 5, ⟨0, 2⟩, ⟨0, 2⟩, false⟩

/-- `struct kmem_cache_cpu` -/
structure CacheCpu where
  freelist : Nat
  tid : BitVec 32
  page : Option Nat
  deriving DecidableEq, Repr

/-- `struct kmem_cache_node` -/
structure CacheNode where
  nrPartial : Int
  slabs : List Nat
  deriving DecidableEq, Repr

/-- Everything the functions write. -/
structure State where
  freePointer : Nat → Nat
  pages : Nat → SlabPage
  cpu : CacheCpu
  node : CacheNode

def pageAddress (page : Nat) : Nat := pageOffset + page * pageSize

namespace State

def getFreepointer (st : State) (object : Nat) : Nat := st.freePointer object

def setFreepointer (st : State) (object fp : Nat) : State :=
  { st with freePointer := Function.update st.freePointer object fp }

/-- Change the structure of one page. -/
def modifyPage (st : State) (page : Nat) (f : SlabPage → SlabPage) : State :=
  { st with pages := fun p => if p = page then f (st.pages p) else st.pages p }

def addPartial (st : State) (page : Nat) (tail : Bool) : State :=
  { st with node := ⟨st.node.nrPartial + 1,
      if tail then st.node.slabs ++ [page] else page :: st.node.slabs⟩ }

def removePartial (st : State) (page : Nat) : State :=
  { st with node := ⟨st.node.nrPartial - 1, st.node.slabs.erase page⟩ }

/-- `next_tid`, with a `TID_STEP` of 1 -/
def nextTid (tid : BitVec 32) : BitVec 32 := tid + 1

/-- `__cmpxchg_double_slab` and `cmpxchg_double_slab`, as the branch under the
slab lock performs them -/
def cmpxchgDoubleSlab (st : State) (page freelistOld : Nat) (countersOld : Counters)
    (freelistNew : Nat) (countersNew : Counters) : Bool × State :=
  if (st.pages page).freelist = freelistOld ∧ (st.pages page).counters = countersOld then
    (true, st.modifyPage page fun p => { p with freelist := freelistNew, counters := countersNew })
  else (false, st)

/-- `irqsafe_cpu_cmpxchg_double` on the free list and the transaction id of the processor -/
def cpuCmpxchgDouble (st : State) (freelistOld : Nat) (tidOld : BitVec 32) (freelistNew : Nat)
    (tidNew : BitVec 32) : Bool × State :=
  if st.cpu.freelist = freelistOld ∧ st.cpu.tid = tidOld then
    (true, { st with cpu := { st.cpu with freelist := freelistNew, tid := tidNew } })
  else (false, st)

@[simp] theorem setFreepointer_pages (st : State) (object fp : Nat) :
    (st.setFreepointer object fp).pages = st.pages := rfl

@[simp] theorem setFreepointer_node (st : State) (object fp : Nat) :
    (st.setFreepointer object fp).node = st.node := rfl

theorem modifyPage_pages (st : State) (page : Nat) (f : SlabPage → SlabPage) :
    (st.modifyPage page f).pages = Function.update st.pages page (f (st.pages page)) := by
  funext p
  by_cases eq : p = page
  · simp [modifyPage, eq]
  · simp [modifyPage, eq]

/-- With the pair it has just read, a compare-and-swap does not fail. -/
theorem cmpxchgDoubleSlab_self {st old : State} (same : st.pages = old.pages) (page freelistNew : Nat)
    (countersNew : Counters) :
    st.cmpxchgDoubleSlab page (old.pages page).freelist (old.pages page).counters freelistNew
        countersNew =
      (true, st.modifyPage page fun p => { p with freelist := freelistNew, counters := countersNew }) :=
  if_pos (by rw [same]; exact ⟨rfl, rfl⟩)

theorem cpuCmpxchgDouble_self (st : State) (freelistNew : Nat) (tidNew : BitVec 32) :
    st.cpuCmpxchgDouble st.cpu.freelist st.cpu.tid freelistNew tidNew =
      (true, { st with cpu := { st.cpu with freelist := freelistNew, tid := tidNew } }) :=
  if_pos ⟨rfl, rfl⟩

end State

open State

def acquireSlab (st : State) (page : Nat) : Option (Bool × State) :=
  let freelist := (st.pages page).freelist
  let counters := (st.pages page).counters
  let new := { counters with inuse := counters.objects.setWidth 16, frozen := true }
  match st.cmpxchgDoubleSlab page freelist counters 0 new with
  | (false, _) => none
  | (true, st) =>
    let st := st.removePartial page
    if freelist ≠ 0 then
      some (true, { st with cpu := { st.cpu with freelist := freelist, page := some page } })
    else some (false, st)

/-- `get_partial_node`, which `get_partial` calls.  `acquire_slab` takes the slab
off the list that is being walked, so that the walk ends with the first slab one
way or the other. -/
def getPartialNode (st : State) : Option (Option Nat × State) :=
  if st.node.nrPartial = 0 then some (none, st)
  else
    match st.node.slabs with
    | [] => some (none, st)
    | page :: _ =>
      match acquireSlab st page with
      | some (true, st) => some (some page, st)
      | _ => none

/-- `allocate_slab`: the results of the two calls of `alloc_pages` are given. -/
def allocateSlab (s : Cache) (st : State) (first second : Option Nat) : Option Nat × State :=
  let got := match first with
    | some page => some (page, s.oo)
    | none => second.map (·, s.min)
  match got with
  | none => (none, st)
  | some (page, oo) =>
    (some page, st.modifyPage page fun p =>
      { p with order := oo.order, counters := { p.counters with
          objects := BitVec.ofNat 15 oo.objects } })

/-- The loop of `new_slab` over the objects, with the last one it has linked.
Constructors leave the free pointers alone. -/
def linkObjects (s : Cache) (start : Nat) (r : State × Nat) (i : Nat) : State × Nat :=
  let p := start + i * s.size
  (r.1.setFreepointer r.2 p, p)

def newSlab (s : Cache) (st : State) (first second : Option Nat) : Option Nat × State :=
  match allocateSlab s st first second with
  | (none, st) => (none, st)
  | (some page, st) =>
    let start := pageAddress page
    let objects := (st.pages page).counters.objects
    let r := (List.range objects.toNat).foldl (linkObjects s start) (st, start)
    let st := r.1.setFreepointer r.2 0
    (some page, st.modifyPage page fun p =>
      { p with freelist := start, live := true, counters := ⟨0, p.counters.objects, true⟩ })

/-- `discard_slab`.  The page goes back to the page allocator, unless the cache
is one of `SLAB_DESTROY_BY_RCU`: these keep it for good. -/
def discardSlab (s : Cache) (st : State) (page : Nat) : State :=
  st.modifyPage page fun p =>
    { p with
      live := false
      counters := if s.destroyByRcu then p.counters else ⟨BitVec.allOnes 16, BitVec.allOnes 15, true⟩ }

/-- The loop of `deactivate_slab` that drains the free list of the processor: the
last object is left.  `fuel` bounds the number of rounds. -/
def drainLoop (st : State) (page freelist : Nat) : (fuel : Nat) → Option (Nat × State)
  | 0 => none
  | fuel + 1 =>
    if freelist ≠ 0 ∧ st.getFreepointer freelist ≠ 0 then
      let nextfree := st.getFreepointer freelist
      let prior := (st.pages page).freelist
      let counters := (st.pages page).counters
      let st := st.setFreepointer freelist prior
      match st.cmpxchgDoubleSlab page prior counters freelist
          { counters with inuse := counters.inuse - 1 } with
      | (false, _) => none
      | (true, st) => drainLoop st page nextfree fuel
    else some (freelist, st)

/-- The rest of `deactivate_slab`: the last object goes to the page, the page is
unfrozen, and goes on the partial list or back to the page allocator. -/
def unfreezeSlab (s : Cache) (st : State) (page freelist : Nat) (tail : Bool) : Option State :=
  let old := st.pages page
  let inuse := if freelist ≠ 0 then old.counters.inuse - 1 else old.counters.inuse
  let new : Counters := { old.counters with inuse := inuse, frozen := false }
  let newFreelist := if freelist ≠ 0 then freelist else old.freelist
  let st := if freelist ≠ 0 then st.setFreepointer freelist old.freelist else st
  let free := inuse = 0 ∧ st.node.nrPartial > s.minPartial
  let st := if ¬ free ∧ newFreelist ≠ 0 then st.addPartial page tail else st
  match st.cmpxchgDoubleSlab page old.freelist old.counters newFreelist new with
  | (false, _) => none
  | (true, st) => some (if free then discardSlab s st page else st)

/-- `deactivate_slab`, which is also `flush_slab` -/
def deactivateSlab (s : Cache) (st : State) (fuel : Nat) : Option State :=
  match st.cpu.page with
  | none => none
  | some page =>
    let tail : Bool := (st.pages page).freelist ≠ 0
    let freelist := st.cpu.freelist
    let st := { st with cpu := ⟨0, nextTid st.cpu.tid, none⟩ }
    match drainLoop st page freelist fuel with
    | none => none
    | some (freelist, st) => unfreezeSlab s st page freelist tail

/-- The label `load_freelist` of `__slab_alloc` -/
def loadFreelist (st : State) (object : Nat) : Nat × State :=
  (object, { st with cpu := { st.cpu with
    freelist := st.getFreepointer object, tid := nextTid st.cpu.tid } })

/-- The label `new_slab` of `__slab_alloc` -/
def slabAllocNew (s : Cache) (st : State) (first second : Option Nat) (fuel : Nat) :
    Option (Nat × State) :=
  match getPartialNode st with
  | none => none
  | some (some _, st) => some (loadFreelist st st.cpu.freelist)
  | some (none, st) =>
    match newSlab s st first second with
    | (none, st) => some (0, st)
    | (some page, st) =>
      match if st.cpu.page.isSome then deactivateSlab s st fuel else some st with
      | none => none
      | some st =>
        let object := (st.pages page).freelist
        let st := st.modifyPage page fun p => { p with
          freelist := 0, counters := { p.counters with inuse := p.counters.objects.setWidth 16 } }
        let st := { st with cpu := { st.cpu with page := some page } }
        some (loadFreelist st object)

/-- `__slab_alloc`: the address of the object, or 0 -/
def slabAllocSlow (s : Cache) (st : State) (first second : Option Nat) (fuel : Nat) :
    Option (Nat × State) :=
  match st.cpu.page with
  | none => slabAllocNew s st first second fuel
  | some page =>
    let object := (st.pages page).freelist
    let counters := (st.pages page).counters
    let new := { counters with inuse := counters.objects.setWidth 16, frozen := object ≠ 0 }
    match st.cmpxchgDoubleSlab page object counters 0 new with
    | (false, _) => none
    | (true, st) =>
      if object = 0 then
        slabAllocNew s { st with cpu := { st.cpu with page := none } } first second fuel
      else some (loadFreelist st object)

/-- A word whose first bytes are cleared. -/
def clearBytes (n v : Nat) : Nat := v / 2 ^ (8 * n) * 2 ^ (8 * n)

/-- `memset(object, 0, s->objsize)`, as far as it meets the free pointer -/
def zeroObject (s : Cache) (st : State) (object : Nat) : State :=
  st.setFreepointer object (clearBytes (Nat.min 4 (s.objsize - s.offset)) (st.getFreepointer object))

/-- `slab_alloc` up to the clearing of the object -/
def takeObject (s : Cache) (st : State) (first second : Option Nat) (fuel : Nat) :
    Option (Nat × State) :=
  let object := st.cpu.freelist
  if object = 0 then slabAllocSlow s st first second fuel
  else
    match st.cpuCmpxchgDouble object st.cpu.tid (st.getFreepointer object) (nextTid st.cpu.tid) with
    | (false, _) => none
    | (true, st) => some (object, st)

/-- `slab_alloc`; `zero` says whether the flags have `__GFP_ZERO` -/
def slabAlloc (s : Cache) (st : State) (zero : Bool) (first second : Option Nat) (fuel : Nat) :
    Option (Nat × State) :=
  (takeObject s st first second fuel).map fun (object, st) =>
    (object, if zero ∧ object ≠ 0 then zeroObject s st object else st)

/-- `__slab_free` -/
def slabFreeSlow (s : Cache) (st : State) (page object : Nat) : Option State :=
  let prior := (st.pages page).freelist
  let counters := (st.pages page).counters
  let st := st.setFreepointer object prior
  let inuse := counters.inuse - 1
  let wasFrozen := counters.frozen
  -- the node is looked up only then
  let node := (inuse = 0 ∨ prior = 0) ∧ ¬ wasFrozen
  match st.cmpxchgDoubleSlab page prior counters object { counters with inuse := inuse } with
  | (false, _) => none
  | (true, st) =>
    if ¬ node then some st
    else if inuse = 0 ∧ st.node.nrPartial > s.minPartial then
      some (discardSlab s (if prior ≠ 0 then st.removePartial page else st) page)
    else if prior = 0 then some (st.addPartial page true)
    else some st

def slabFree (s : Cache) (st : State) (page object : Nat) : Option State :=
  if st.cpu.page = some page then
    let st := st.setFreepointer object st.cpu.freelist
    match st.cpuCmpxchgDouble st.cpu.freelist st.cpu.tid object (nextTid st.cpu.tid) with
    | (false, _) => none
    | (true, st) => some st
  else slabFreeSlow s st page object

/-- `early_kmem_cache_node_alloc`: the node of the cache of nodes is an object of
its own first slab. -/
def earlyKmemCacheNodeAlloc (s : Cache) (st : State) (first second : Option Nat) :
    Option (Nat × State) :=
  match newSlab s st first second with
  | (none, _) => none
  | (some page, st) =>
    let n := (st.pages page).freelist
    let st := st.modifyPage page fun p => { p with
      freelist := st.getFreepointer n
      counters := { p.counters with inuse := p.counters.inuse + 1, frozen := false } }
    let st := { st with node := ⟨0, []⟩ }
    some (n, st.addPartial page false)

end XcKernel.Slub
