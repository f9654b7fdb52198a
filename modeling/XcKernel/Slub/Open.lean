import XcKernel.Slub.Geometry
import XcKernel.Slub.Frame

/-!
# Opening a cache

The caches of a machine in one state.  A descriptor is 76 bytes of memory, and its
`struct kmem_cache_cpu` lies behind it, at the next multiple of 8; memory is
given by words, at the addresses that are multiples of 4, and what the memory of a
descriptor held before is arbitrary.  The pages and the free pointers, which are
kept by the objects as in `XcKernel.Slub.Basic`, are shared by all caches, and
`page->slab` tells whose a slab is.
-/

namespace XcKernel.Slub

open State

/-- `slab_state` -/
inductive SlabState where
  | slabDown
  | slabPartial
  | slabUp
  | slabSysfs
  deriving DecidableEq, Repr

/-- Everything that the slab functions read and write, for all caches.  `nodes` holds
the structures `kmem_cache_node` by their addresses. -/
structure Allocator where
  mem : Nat → Nat
  freePointer : Nat → Nat
  pages : Nat → SlabPage
  slab : Nat → Nat
  nodes : Nat → CacheNode
  memMap : Nat
  kmemCacheNode : Nat
  slabState : SlabState

/-- `sizeof(struct kmem_cache)` -/
def kmemSize : Nat := 76

/-- The offset of `node` in a descriptor -/
def nodeOffset : Nat := 72

/-- `ALIGN(size, 2 * sizeof(void *))` -/
def cpuOffset : Nat := (nodeOffset + 4 + 7) / 8 * 8

/-- A descriptor with its per-cpu part -/
def descriptorSize : Nat := cpuOffset + 16

def slabPanic : BitVec 32 := 0x00040000

def slabDebugFlags : BitVec 32 := 0x00000400 ||| slabPoison ||| 0x00010000 ||| 0x00200000 ||| 0x00000100

/-- `__CMPXCHG_DOUBLE` -/
def cmpxchgDoubleFlag : BitVec 32 := 0x40000000

/-- `system_has_cmpxchg_double()` is 1. -/
def KmemCache.setDouble (s : KmemCache) : KmemCache :=
  if s.flags &&& slabDebugFlags = 0 then { s with flags := s.flags ||| cmpxchgDoubleFlag } else s

/-- The words of a descriptor that `calculate_sizes` is about -/
def loadCache (m : Nat → Nat) (d : Nat) : KmemCache where
  flags := BitVec.ofNat 32 (m (d + 4))
  size := BitVec.ofNat 32 (m (d + 12))
  objsize := BitVec.ofNat 32 (m (d + 16))
  offset := BitVec.ofNat 32 (m (d + 20))
  oo := BitVec.ofNat 32 (m (d + 24))
  max := BitVec.ofNat 32 (m (d + 28))
  min := BitVec.ofNat 32 (m (d + 32))
  allocflags := BitVec.ofNat 32 (m (d + 36))
  ctor := BitVec.ofNat 32 (m (d + 44))
  inuse := BitVec.ofNat 32 (m (d + 48))
  align := BitVec.ofNat 32 (m (d + 52))
  reserved := BitVec.ofNat 32 (m (d + 56))

def storeCache (m : Nat → Nat) (d : Nat) (s : KmemCache) (a : Nat) : Nat :=
  if a = d + 4 then s.flags.toNat
  else if a = d + 12 then s.size.toNat
  else if a = d + 16 then s.objsize.toNat
  else if a = d + 20 then s.offset.toNat
  else if a = d + 24 then s.oo.toNat
  else if a = d + 28 then s.max.toNat
  else if a = d + 32 then s.min.toNat
  else if a = d + 36 then s.allocflags.toNat
  else if a = d + 44 then s.ctor.toNat
  else if a = d + 48 then s.inuse.toNat
  else if a = d + 52 then s.align.toNat
  else if a = d + 56 then s.reserved.toNat
  else m a

namespace Allocator

def store (k : Allocator) (a w : Nat) : Allocator := { k with mem := Function.update k.mem a w }

/-- `memset(s, 0, count)`, for a whole number of words -/
def memset (k : Allocator) (s count : Nat) : Allocator :=
  { k with mem := fun a => if s ≤ a ∧ a < s + count then 0 else k.mem a }

/-- The pointer to a `struct page`, of 32 bytes -/
def pageWord (k : Allocator) : Option Nat → Nat
  | none => 0
  | some p => k.memMap + 32 * p

def pageOf (k : Allocator) (w : Nat) : Option Nat :=
  if w = 0 then none else some ((w - k.memMap) / 32)

/-- The `struct kmem_cache_cpu` at an address -/
def loadCpu (k : Allocator) (c : Nat) : CacheCpu :=
  ⟨k.mem c, BitVec.ofNat 32 (k.mem (c + 4)), k.pageOf (k.mem (c + 8))⟩

def storeCpu (k : Allocator) (c : Nat) (cpu : CacheCpu) : Allocator :=
  ((k.store c cpu.freelist).store (c + 4) cpu.tid.toNat).store (c + 8) (k.pageWord cpu.page)

/-- `s->cpu_slab` and what it points to -/
def cpuSlab (k : Allocator) (d : Nat) : CacheCpu := k.loadCpu (k.mem d)

/-- The descriptor as the rest of `mm/slub.c` reads it. -/
def cache (k : Allocator) (d : Nat) : Cache := (loadCache k.mem d).cache (k.mem (d + 8))

/-- The part of one cache in it all -/
def view (k : Allocator) (d : Nat) : State where
  freePointer := k.freePointer
  pages p := { k.pages p with live := (k.pages p).live && decide (k.slab p = d) }
  cpu := k.cpuSlab d
  node := k.nodes (k.mem (d + nodeOffset))

/-- What a call for the cache at `d` has made of the pages and free pointers.  `new_slab`
sets `page->slab`. -/
def putSlabs (k : Allocator) (d : Nat) (st : State) : Allocator :=
  { k with
    freePointer := st.freePointer
    pages := fun p => { st.pages p with
      live := (st.pages p).live || (k.pages p).live && decide (k.slab p ≠ d) }
    slab := fun p => if (st.pages p).live then d else k.slab p }

/-- What a call for the cache at `d` has made of its part. -/
def put (k : Allocator) (d : Nat) (st : State) : Allocator :=
  let k := { k.putSlabs d st with nodes := Function.update k.nodes (k.mem (d + nodeOffset)) st.node }
  k.storeCpu (k.mem d) st.cpu

/-- `slab_alloc` without `__GFP_ZERO`, with what the page allocator gives for the two requests
of an order -/
def allocObject (k : Allocator) (d : Nat) (first second : Nat → Option Nat) (fuel : Nat) :
    Option (Nat × State) :=
  let s := k.cache d
  slabAlloc s (k.view d) false (first s.oo.order) (second s.min.order) fuel

def kmemCacheAlloc (k : Allocator) (d : Nat) (first second : Nat → Option Nat) (fuel : Nat) :
    Option (Nat × Allocator) :=
  (k.allocObject d first second fuel).map fun r => (r.1, k.put d r.2)

def initKmemCacheNode (k : Allocator) (n : Nat) : Allocator :=
  { k with nodes := Function.update k.nodes n ⟨0, []⟩ }

/-- `early_kmem_cache_node_alloc`.  It looks at neither the per-cpu part nor a node. -/
def earlyNodeAlloc (k : Allocator) (first second : Nat → Option Nat) : Option Allocator :=
  let d := k.kmemCacheNode
  let s := k.cache d
  let st := { k.view d with cpu := ⟨0, 0, none⟩, node := ⟨0, []⟩ }
  (earlyKmemCacheNodeAlloc s st (first s.oo.order) (second s.min.order)).map fun r =>
    let k := (k.putSlabs d r.2).store (d + nodeOffset) r.1
    { k with nodes := Function.update k.nodes r.1 r.2.node }

/-- There is one node.  After a failure `free_kmem_cache_nodes` finds the `NULL` that `memset`
has left. -/
def initKmemCacheNodes (k : Allocator) (s : Nat) (first second : Nat → Option Nat) (fuel : Nat) :
    Option (Nat × Allocator) :=
  if k.slabState = .slabDown then (k.earlyNodeAlloc first second).map (1, ·)
  else
    (k.kmemCacheAlloc k.kmemCacheNode first second fuel).map fun (n, k) =>
      if n = 0 then (0, k.store (s + nodeOffset) 0)
      else (1, (k.store (s + nodeOffset) n).initKmemCacheNode n)

def initTid (cpu : Nat) : Nat := cpu

/-- There is one processor. -/
def initKmemCacheCpus (k : Allocator) : Allocator := k.store (k.mem k.kmemCacheNode + 4) (initTid 0)

/-- The pointer is not `NULL`, and 1 is returned. -/
def allocKmemCacheCpus (k : Allocator) (s : Nat) : Allocator :=
  (k.store s (s + cpuOffset)).initKmemCacheCpus

def setMinPartial (k : Allocator) (s : Nat) (min : BitVec 32) : Allocator :=
  k.store (s + 8) (if min < 5 then 5 else if min > 10 then 10 else min.toNat)

/-- The label `error` of `kmem_cache_open` -/
def openError (k : Allocator) (flags : BitVec 32) : Option (Nat × Allocator) :=
  if flags &&& slabPanic ≠ 0 then none else some (0, k)

/-- `kmem_cache_open`; `none` is a panic or a loop without an end.  Nothing is reserved and
`disable_higher_order_debug` is 0. -/
def kmemCacheOpen (k : Allocator) (s name : Nat) (size align flags ctor : BitVec 32)
    (first second : Nat → Option Nat) (fuel : Nat) : Option (Nat × Allocator) :=
  let k := (k.memset s kmemSize).store (s + 60) name
  let c := { loadCache k.mem s with ctor, objsize := size, align, flags, reserved := 0 }
  match calculateSizes c (-1) with
  | none => none
  | some (0, c) => openError { k with mem := storeCache k.mem s c } flags
  | some (_, c) =>
    let c := c.setDouble
    let k := { k with mem := storeCache k.mem s c }
    let k := (k.setMinPartial s (BitVec.ofInt 32 (fls c.size - 1))).store (s + 40) 1
    match k.initKmemCacheNodes s first second fuel with
    | none => none
    | some (0, k) => openError k flags
    | some (_, k) => some (1, k.allocKmemCacheCpus s)

variable {k : Allocator} {d e s : Nat} {st : State}

theorem loadCache_congr {m m' : Nat → Nat} (same : ∀ i < 60, i ≠ 0 → m' (d + i) = m (d + i)) :
    loadCache m' d = loadCache m d := by
  simp (disch := decide) only [loadCache, same]

theorem loadCache_storeCache (m : Nat → Nat) (d : Nat) (c : KmemCache) :
    loadCache (storeCache m d c) d = c := by
  simp [loadCache, storeCache]

theorem storeCache_outside {m : Nat → Nat} {c : KmemCache} {a : Nat} (h : a < d ∨ d + 60 ≤ a) :
    storeCache m d c a = m a := by
  unfold storeCache
  repeat rw [if_neg (by omega)]

theorem loadCache_memset (k : Allocator) (s name : Nat) (size align flags ctor : BitVec 32) :
    { loadCache ((k.memset s kmemSize).store (s + 60) name).mem s with
      ctor, objsize := size, align, flags, reserved := 0 } = openedCache size align flags ctor := by
  simp [loadCache, store, memset, kmemSize, openedCache]

/-- What `kmem_cache_open` has written when it comes to the node -/
def described (k : Allocator) (s name : Nat) (c : KmemCache) : Allocator :=
  let k := (k.memset s kmemSize).store (s + 60) name
  let k := { k with mem := storeCache k.mem s c }
  (k.setMinPartial s (BitVec.ofInt 32 (fls c.size - 1))).store (s + 40) 1

theorem described_outside {name : Nat} {c : KmemCache} {a : Nat} (h : a < s ∨ s + kmemSize ≤ a) :
    (k.described s name c).mem a = k.mem a := by
  have range : kmemSize = 76 := rfl
  simp only [described, setMinPartial, store, memset]
  rw [Function.update_of_ne (by omega), Function.update_of_ne (by omega), storeCache_outside (by omega),
    Function.update_of_ne (by omega), if_neg (by omega)]

theorem loadCache_described {name : Nat} {c : KmemCache} :
    loadCache (k.described s name c).mem s = c := by
  have same : ∀ a, a ≠ s + 8 → a ≠ s + 40 → (k.described s name c).mem a =
      storeCache ((k.memset s kmemSize).store (s + 60) name).mem s c a := by
    intro a h₁ h₂
    simp only [described, setMinPartial, store]
    rw [Function.update_of_ne h₂, Function.update_of_ne h₁]
  have word : ∀ i, i ≠ 8 → i ≠ 40 → (k.described s name c).mem (s + i) =
      storeCache ((k.memset s kmemSize).store (s + 60) name).mem s c (s + i) := fun i h₁ h₂ =>
    same _ (by omega) (by omega)
  have eq : loadCache (k.described s name c).mem s =
      loadCache (storeCache ((k.memset s kmemSize).store (s + 60) name).mem s c) s := by
    simp (disch := decide) only [loadCache, word]
  rw [eq, loadCache_storeCache]

/-- The way to a return of 1 -/
theorem kmemCacheOpen_one {name : Nat} {size align flags ctor : BitVec 32}
    {first second : Nat → Option Nat} {fuel : Nat} {k' : Allocator}
    (returns : k.kmemCacheOpen s name size align flags ctor first second fuel = some (1, k')) :
    ∃ ret c n k₂, calculateSizes (openedCache size align flags ctor) (-1) = some (ret, c) ∧ ret ≠ 0 ∧
      (k.described s name c.setDouble).initKmemCacheNodes s first second fuel = some (n, k₂) ∧ n ≠ 0 ∧
      k' = k₂.allocKmemCacheCpus s := by
  unfold kmemCacheOpen at returns
  dsimp only at returns
  rw [loadCache_memset] at returns
  have failed : ∀ {k₁ : Allocator}, openError k₁ flags ≠ some (1, k') := by
    intro k₁ eq
    unfold openError at eq
    split at eq
    · cases eq
    · cases eq
  split at returns
  · cases returns
  · exact absurd returns failed
  · rename_i ret c nonzero sizes
    split at returns
    · cases returns
    · exact absurd returns failed
    · rename_i n k₂ succeeded nodes
      obtain ⟨-, rfl⟩ := Prod.mk.inj (Option.some.inj returns)
      exact ⟨ret, c, n, k₂, sizes, nonzero, nodes, succeeded, rfl⟩

theorem pageOf_pageWord (map : k.memMap ≠ 0) (p : Option Nat) : k.pageOf (k.pageWord p) = p := by
  cases p with
  | none => rfl
  | some p =>
    have notNull : k.memMap + 32 * p ≠ 0 := by omega
    rw [pageWord, pageOf, if_neg notNull, Nat.add_sub_cancel_left, Nat.mul_div_cancel_left p (by decide)]

theorem view_live {p : Nat} : ((k.view d).pages p).live = true ↔
    (k.pages p).live = true ∧ k.slab p = d := by
  simp [view]

theorem putSlabs_self (k : Allocator) (d : Nat) (st : State) :
    ((k.putSlabs d st).view d).pages = st.pages := by
  funext p
  rcases eq : st.pages p with ⟨freelist, counters, order, live⟩
  cases live with
  | true => simp [view, putSlabs, eq]
  | false =>
    simp only [view, putSlabs, eq]
    by_cases own : k.slab p = d
    · simp [own]
    · simp [own]

theorem putSlabs_other (ne : e ≠ d) {p : Nat} (kept : st.pages p = (k.view d).pages p) :
    ((k.putSlabs d st).view e).pages p = (k.view e).pages p := by
  simp only [view, putSlabs, kept]
  by_cases own : k.slab p = d
  · simp [own, ne.symm]
  · simp [own]

theorem putSlabs_live (ne : e ≠ d)
    (kept : ∀ p, ((k.view e).pages p).live = true → st.pages p = (k.view d).pages p) (p : Nat) :
    (((k.putSlabs d st).view e).pages p).live = ((k.view e).pages p).live := by
  by_cases live : ((k.view e).pages p).live = true
  · rw [putSlabs_other ne (kept p live)]
  · rw [Bool.eq_iff_iff]
    refine iff_of_false (fun now => live ?_) live
    obtain ⟨here, owner⟩ := view_live.mp now
    have dead : ¬ (st.pages p).live = true := by
      intro taken
      rw [putSlabs] at owner
      dsimp only at owner
      rw [if_pos taken] at owner
      exact ne owner.symm
    simp only [putSlabs, if_neg dead] at owner
    simp only [putSlabs, Bool.or_eq_true, Bool.and_eq_true] at here
    exact view_live.mpr ⟨(here.resolve_left dead).1, owner⟩

/-- The open caches, with the objects of each that callers have. -/
structure Sound (k : Allocator) (caches : List Nat) (out : Nat → List Nat) : Prop where
  memMap : k.memMap ≠ 0
  valid : ∀ d ∈ caches, (k.cache d).Valid
  inv : ∀ d ∈ caches, SlabInv (k.cache d) (k.view d) (out d)
  apart : ∀ d ∈ caches, ∀ e ∈ caches, d ≠ e → d + descriptorSize ≤ e ∨ e + descriptorSize ≤ d
  cpuSlab : ∀ d ∈ caches, k.mem d = d + cpuOffset
  node : ∀ d ∈ caches, k.mem (d + nodeOffset) ∈ out k.kmemCacheNode
  nodes : ∀ d ∈ caches, ∀ e ∈ caches, d ≠ e → k.mem (d + nodeOffset) ≠ k.mem (e + nodeOffset)

/-- Where a cache may be opened.  The first one is that of the nodes, as in `kmem_cache_init`. -/
structure Openable (k : Allocator) (caches : List Nat) (s : Nat) : Prop where
  apart : ∀ d ∈ caches, s + descriptorSize ≤ d ∨ d + descriptorSize ≤ s
  unused : ∀ p, (k.pages p).live = true → k.slab p ≠ s
  boot : k.slabState = .slabDown → caches = [] ∧ s = k.kmemCacheNode
  running : k.slabState ≠ .slabDown → k.kmemCacheNode ∈ caches

/-- What `kmem_cache_open` does to everything, when the node of the new cache is the object
`n` and the call for it has left the state `st` to the cache of nodes. -/
structure Opens (k k' : Allocator) (s n : Nat) (c : KmemCache) (st : State) : Prop where
  outside : ∀ a, a < s ∨ s + kmemSize ≤ a →
    a < k.kmemCacheNode + cpuOffset ∨ k.kmemCacheNode + descriptorSize ≤ a → k'.mem a = k.mem a
  cpuSlab : k'.mem s = s + cpuOffset
  node : k'.mem (s + nodeOffset) = n
  cache : loadCache k'.mem s = c
  freelist : k'.mem (k.kmemCacheNode + cpuOffset) = st.cpu.freelist
  page : k'.mem (k.kmemCacheNode + cpuOffset + 8) = k.pageWord st.cpu.page
  pages : k'.pages = (k.putSlabs k.kmemCacheNode st).pages
  slab : k'.slab = (k.putSlabs k.kmemCacheNode st).slab
  freePointer : k'.freePointer = st.freePointer
  nodes : k'.nodes = Function.update
    (Function.update k.nodes (k.mem (k.kmemCacheNode + nodeOffset)) st.node) n ⟨0, []⟩
  memMap : k'.memMap = k.memMap
  kmemCacheNode : k'.kmemCacheNode = k.kmemCacheNode

theorem cpuSlab_congr {k' : Allocator} (pointer : k'.mem d = k.mem d) (map : k'.memMap = k.memMap)
    (same : ∀ a, k.mem d ≤ a → a < k.mem d + 12 → k'.mem a = k.mem a) :
    k'.cpuSlab d = k.cpuSlab d := by
  unfold cpuSlab loadCpu
  rw [pointer, same _ (by omega) (by omega), same _ (by omega) (by omega), same _ (by omega) (by omega)]
  simp only [pageOf, map]

theorem described_cache (apart : s + descriptorSize ≤ d ∨ d + descriptorSize ≤ s) (name : Nat)
    (c : KmemCache) : (k.described s name c).cache d = k.cache d := by
  have sizes : kmemSize = 76 ∧ descriptorSize = 96 := ⟨rfl, rfl⟩
  unfold cache
  rw [loadCache_congr fun i small _ => described_outside (by omega), described_outside (by omega)]

theorem described_view (apart : s + descriptorSize ≤ d ∨ d + descriptorSize ≤ s)
    (cpuSlab : k.mem d = d + cpuOffset) (name : Nat) (c : KmemCache) :
    (k.described s name c).view d = k.view d := by
  have sizes : kmemSize = 76 ∧ descriptorSize = 96 ∧ cpuOffset = 80 ∧ nodeOffset = 72 :=
    ⟨rfl, rfl, rfl, rfl⟩
  have pointer : (k.described s name c).mem d = k.mem d := described_outside (by omega)
  have cpu : (k.described s name c).cpuSlab d = k.cpuSlab d :=
    cpuSlab_congr pointer rfl fun a low high => described_outside (by omega)
  unfold view
  rw [cpu, described_outside (a := d + nodeOffset) (by omega)]
  rfl

theorem store_mem (k : Allocator) (a w x : Nat) :
    (k.store a w).mem x = if x = a then w else k.mem x := Function.update_apply ..

theorem put_mem (k : Allocator) (d : Nat) (st : State) (x : Nat) :
    (k.put d st).mem x =
      if x = k.mem d + 8 then k.pageWord st.cpu.page
      else if x = k.mem d + 4 then st.cpu.tid.toNat
      else if x = k.mem d then st.cpu.freelist
      else k.mem x := by
  unfold put
  dsimp only
  rw [storeCpu, store_mem, store_mem, store_mem]
  rfl

/-- The per-cpu part that is written to is that of the cache of nodes. -/
theorem allocKmemCacheCpus_mem (k : Allocator) (s x : Nat) :
    (k.allocKmemCacheCpus s).mem x =
      if x = (if k.kmemCacheNode = s then s + cpuOffset else k.mem k.kmemCacheNode) + 4 then 0
      else if x = s then s + cpuOffset else k.mem x := by
  have global : (k.store s (s + cpuOffset)).kmemCacheNode = k.kmemCacheNode := rfl
  rw [allocKmemCacheCpus, initKmemCacheCpus, global, store_mem, store_mem, store_mem]
  rfl

theorem initKmemCacheNodes_running {n fuel : Nat} {first second : Nat → Option Nat} {k₂ : Allocator}
    (running : k.slabState ≠ .slabDown)
    (nodes : k.initKmemCacheNodes s first second fuel = some (n, k₂)) (one : n ≠ 0) :
    ∃ r, k.allocObject k.kmemCacheNode first second fuel = some r ∧ r.1 ≠ 0 ∧
      k₂ = ((k.put k.kmemCacheNode r.2).store (s + nodeOffset) r.1).initKmemCacheNode r.1 := by
  unfold initKmemCacheNodes kmemCacheAlloc at nodes
  rw [if_neg running] at nodes
  obtain ⟨⟨n', k₁⟩, allocated, eq⟩ := Option.map_eq_some_iff.mp nodes
  obtain ⟨r, returns, put⟩ := Option.map_eq_some_iff.mp allocated
  obtain ⟨rfl, rfl⟩ := Prod.mk.inj put
  dsimp only at eq
  by_cases null : r.1 = 0
  · rw [if_pos null] at eq
    exact absurd (Prod.mk.inj eq).1.symm one
  · rw [if_neg null] at eq
    exact ⟨r, returns, null, (Prod.mk.inj eq).2.symm⟩

/-- The words that are written from the call for the node on -/
theorem opened_mem {n : Nat} (pointer : k.mem k.kmemCacheNode = k.kmemCacheNode + cpuOffset)
    (apart : s + descriptorSize ≤ k.kmemCacheNode ∨ k.kmemCacheNode + descriptorSize ≤ s) (x : Nat) :
    ((((k.put k.kmemCacheNode st).store (s + nodeOffset) n).initKmemCacheNode n).allocKmemCacheCpus s).mem
        x =
      if x = k.kmemCacheNode + cpuOffset + 4 then 0 else if x = s then s + cpuOffset
      else if x = s + nodeOffset then n
      else if x = k.kmemCacheNode + cpuOffset + 8 then k.pageWord st.cpu.page
      else if x = k.kmemCacheNode + cpuOffset then st.cpu.freelist else k.mem x := by
  have sizes : descriptorSize = 96 ∧ cpuOffset = 80 ∧ nodeOffset = 72 := ⟨rfl, rfl, rfl⟩
  set k₂ := ((k.put k.kmemCacheNode st).store (s + nodeOffset) n).initKmemCacheNode n
  have inner : ∀ y, k₂.mem y = if y = s + nodeOffset then n
      else if y = k.kmemCacheNode + cpuOffset + 8 then k.pageWord st.cpu.page
      else if y = k.kmemCacheNode + cpuOffset + 4 then st.cpu.tid.toNat
      else if y = k.kmemCacheNode + cpuOffset then st.cpu.freelist else k.mem y := by
    intro y
    show ((k.put k.kmemCacheNode st).store (s + nodeOffset) n).mem y = _
    rw [store_mem, put_mem, pointer]
  have same : k₂.kmemCacheNode = k.kmemCacheNode := rfl
  have other : k₂.mem k.kmemCacheNode = k.kmemCacheNode + cpuOffset := by
    rw [inner, if_neg (by omega), if_neg (by omega), if_neg (by omega), if_neg (by omega), pointer]
  rw [allocKmemCacheCpus_mem, same, if_neg (show ¬ k.kmemCacheNode = s by omega), other, inner]
  by_cases tid : x = k.kmemCacheNode + cpuOffset + 4
  · rw [if_pos tid, if_pos tid]
  · rw [if_neg tid, if_neg tid, if_neg tid]

theorem opens_of_running {name n : Nat} {c : KmemCache} {first second : Nat → Option Nat} {fuel : Nat}
    {k₂ : Allocator}
    (apart : s + descriptorSize ≤ k.kmemCacheNode ∨ k.kmemCacheNode + descriptorSize ≤ s)
    (running : k.slabState ≠ .slabDown) (cpuSlab : k.mem k.kmemCacheNode = k.kmemCacheNode + cpuOffset)
    (nodes : (k.described s name c).initKmemCacheNodes s first second fuel = some (n, k₂)) (one : n ≠ 0) :
    ∃ r, k.allocObject k.kmemCacheNode first second fuel = some r ∧ r.1 ≠ 0 ∧
      Opens k (k₂.allocKmemCacheCpus s) s r.1 c r.2 := by
  have sizes : kmemSize = 76 ∧ descriptorSize = 96 ∧ cpuOffset = 80 ∧ nodeOffset = 72 :=
    ⟨rfl, rfl, rfl, rfl⟩
  have same : (k.described s name c).allocObject k.kmemCacheNode first second fuel =
      k.allocObject k.kmemCacheNode first second fuel := by
    rw [allocObject, allocObject, described_cache apart, described_view apart cpuSlab]
  have here : (k.described s name c).kmemCacheNode = k.kmemCacheNode := rfl
  obtain ⟨r, returns, null, made⟩ := initKmemCacheNodes_running
    (show (k.described s name c).slabState ≠ .slabDown from running) nodes one
  rw [here] at made
  subst made
  have pointer : (k.described s name c).mem k.kmemCacheNode = k.kmemCacheNode + cpuOffset := by
    rw [described_outside (by omega), cpuSlab]
  refine ⟨r, same.symm.trans returns, null, ?_⟩
  have mem := @opened_mem (k.described s name c) s r.2 r.1 pointer apart
  rw [here] at mem
  refine ⟨fun a off off' => ?_, ?_, ?_, ?_, ?_, ?_, rfl, rfl, rfl, ?_, rfl, rfl⟩
  · rw [mem, if_neg (by omega), if_neg (by omega), if_neg (by omega), if_neg (by omega),
      if_neg (by omega), described_outside off]
  · rw [mem, if_neg (by omega), if_pos rfl]
  · rw [mem, if_neg (by omega), if_neg (by omega), if_pos rfl]
  · refine (loadCache_congr fun i small positive => ?_).trans (@loadCache_described k s name c)
    rw [mem, if_neg (by omega), if_neg (by omega), if_neg (by omega), if_neg (by omega),
      if_neg (by omega)]
  · rw [mem, if_neg (by omega), if_neg (by omega), if_neg (by omega), if_neg (by omega), if_pos rfl]
  · rw [mem, if_neg (by omega), if_neg (by omega), if_neg (by omega), if_pos rfl]
    rfl
  · show Function.update (Function.update k.nodes
      ((k.described s name c).mem (k.kmemCacheNode + nodeOffset)) r.2.node) r.1 ⟨0, []⟩ = _
    rw [described_outside (by omega)]

variable {k' : Allocator} {n : Nat} {c : KmemCache} {caches : List Nat} {out : Nat → List Nat}
  {first second : Nat → Option Nat}

/-- The descriptors of the others are as they were, up to the per-cpu part of the cache of nodes. -/
theorem Opens.descriptor (opens : Opens k k' s n c st)
    (apart : s + descriptorSize ≤ d ∨ d + descriptorSize ≤ s)
    (distinct : d = k.kmemCacheNode ∨ d + descriptorSize ≤ k.kmemCacheNode ∨
      k.kmemCacheNode + descriptorSize ≤ d) {a : Nat} (low : d ≤ a) (high : a < d + cpuOffset) :
    k'.mem a = k.mem a := by
  have sizes : kmemSize = 76 ∧ descriptorSize = 96 ∧ cpuOffset = 80 := ⟨rfl, rfl, rfl⟩
  exact opens.outside a (by omega) (by omega)

theorem Opens.cache_eq (opens : Opens k k' s n c st)
    (apart : s + descriptorSize ≤ d ∨ d + descriptorSize ≤ s)
    (distinct : d = k.kmemCacheNode ∨ d + descriptorSize ≤ k.kmemCacheNode ∨
      k.kmemCacheNode + descriptorSize ≤ d) : k'.cache d = k.cache d := by
  have sizes : cpuOffset = 80 := rfl
  unfold Allocator.cache
  rw [loadCache_congr fun i small _ => opens.descriptor apart distinct (by omega) (by omega),
    opens.descriptor apart distinct (by omega) (by omega)]

theorem Opens.cpuSlab_other (opens : Opens k k' s n c st) (cpuSlab : k.mem e = e + cpuOffset)
    (apart : s + descriptorSize ≤ e ∨ e + descriptorSize ≤ s)
    (distinct : e + descriptorSize ≤ k.kmemCacheNode ∨ k.kmemCacheNode + descriptorSize ≤ e) :
    k'.cpuSlab e = k.cpuSlab e := by
  have sizes : kmemSize = 76 ∧ descriptorSize = 96 ∧ cpuOffset = 80 := ⟨rfl, rfl, rfl⟩
  exact cpuSlab_congr (opens.descriptor apart (.inr distinct) le_rfl (by omega)) opens.memMap
    fun a low high => opens.outside a (by omega) (by omega)

/-- The page allocator hands out pages that are no slabs, of the order that is asked for. -/
def FreshOrders (k : Allocator) (first second : Nat → Option Nat) : Prop :=
  ∀ order page, first order = some page ∨ second order = some page → Fresh k.pages page order

theorem FreshOrders.view (fresh : k.FreshOrders first second) (d : Nat) (s : Cache) :
    FreshPages s (k.view d) (first s.oo.order) (second s.min.order) := by
  have keep : ∀ {page order}, Fresh k.pages page order → Fresh (k.view d).pages page order := by
    intro page order fresh
    refine ⟨?_, fun {q} live => fresh.apart (view_live.mp live).1⟩
    simp [Allocator.view, fresh.dead]
  exact ⟨fun page eq => keep (fresh _ page (.inl eq)), fun page eq => keep (fresh _ page (.inr eq))⟩

/-- To another cache the call for the node is a call of another user. -/
theorem Opens.uses_other (opens : Opens k k' s n c st) (sound : Sound k caches out)
    (fresh : k.FreshOrders first second) {N : Cache} 
    (elsewhere : Elsewhere N (first N.oo.order) (second N.min.order) (k.view k.kmemCacheNode) st)
    (new : n ∉ out k.kmemCacheNode) (member : e ∈ caches) (nodeCache : k.kmemCacheNode ∈ caches)
    (ne : e ≠ k.kmemCacheNode) (apart : s + descriptorSize ≤ e ∨ e + descriptorSize ≤ s) :
    Uses (k.cache e) (out e) (k.view e) (k'.view e) := by
  have distinct := sound.apart e member _ nodeCache ne
  have sizes : cpuOffset = 80 ∧ nodeOffset = 72 := ⟨rfl, rfl⟩
  have kept : ∀ p, ((k.view e).pages p).live = true → st.pages p = (k.view k.kmemCacheNode).pages p := by
    intro p live
    obtain ⟨here, owner⟩ := view_live.mp live
    have busy : ∀ {order page}, first order = some page ∨ second order = some page → page ≠ p := by
      rintro order page given rfl
      rw [(fresh order page given).dead] at here
      cases here
    apply elsewhere.pages
    · simp [view, owner, ne]
    · exact fun eq => busy (.inl eq) rfl
    · exact fun eq => busy (.inr eq) rfl
  have pages : (k'.view e).pages = ((k.putSlabs k.kmemCacheNode st).view e).pages := by
    simp only [view, opens.pages, opens.slab]
  refine ⟨?_, ?_, ?_, ?_, ?_⟩
  · exact opens.cpuSlab_other (sound.cpuSlab e member) apart distinct
  · show k'.nodes (k'.mem (e + nodeOffset)) = k.nodes (k.mem (e + nodeOffset))
    have here := sound.node e member
    rw [opens.descriptor apart (.inr distinct) (by omega) (by omega), opens.nodes,
      Function.update_of_ne, Function.update_of_ne (sound.nodes e member _ nodeCache ne)]
    intro eq
    rw [eq] at here
    exact new here
  · intro p
    rw [pages]
    exact putSlabs_live ne kept p
  · intro p live
    rw [pages]
    exact putSlabs_other ne (kept p live)
  · intro p live o inside _
    obtain ⟨loose, held, owned, -⟩ := sound.inv e member
    obtain ⟨low, high⟩ := mem_objectsOf_bounds (sound.valid e member) (owned.room live) inside
    obtain ⟨here, -⟩ := view_live.mp live
    show k'.freePointer o = k.freePointer o
    rw [opens.freePointer]
    exact elsewhere.links o ⟨fun page eq => (fresh _ page (.inl eq)).outside here low high,
      fun page eq => (fresh _ page (.inr eq)).outside here low high⟩

/-- The free list and the page of the cache of nodes are those that the call for the node leaves. -/
theorem Opens.cpuSlab_node (opens : Opens k k' s n c st) (map : k.memMap ≠ 0)
    (cpuSlab : k.mem k.kmemCacheNode = k.kmemCacheNode + cpuOffset)
    (apart : s + descriptorSize ≤ k.kmemCacheNode ∨ k.kmemCacheNode + descriptorSize ≤ s) :
    (k'.cpuSlab k.kmemCacheNode).freelist = st.cpu.freelist ∧
      (k'.cpuSlab k.kmemCacheNode).page = st.cpu.page := by
  have sizes : cpuOffset = 80 := rfl
  have pointer : k'.mem k.kmemCacheNode = k.kmemCacheNode + cpuOffset := by
    rw [opens.descriptor apart (.inl rfl) le_rfl (by omega), cpuSlab]
  have pages : k'.pageOf = k.pageOf := by
    funext w
    rw [pageOf, pageOf, opens.memMap]
  unfold Allocator.cpuSlab loadCpu
  rw [pointer, pages, opens.freelist, opens.page, pageOf_pageWord map]
  exact ⟨rfl, rfl⟩

/-- The cache of nodes has given an object. -/
theorem Opens.inv_node (opens : Opens k k' s n c st) (map : k.memMap ≠ 0)
    (cpuSlab : k.mem k.kmemCacheNode = k.kmemCacheNode + cpuOffset)
    (apart : s + descriptorSize ≤ k.kmemCacheNode ∨ k.kmemCacheNode + descriptorSize ≤ s)
    (other : k.mem (k.kmemCacheNode + nodeOffset) ≠ n) {N : Cache} {allocated : List Nat}
    (inv : SlabInv N st allocated) : SlabInv N (k'.view k.kmemCacheNode) allocated := by
  have sizes : cpuOffset = 80 ∧ nodeOffset = 72 := ⟨rfl, rfl⟩
  obtain ⟨freelist, page⟩ := opens.cpuSlab_node map cpuSlab apart
  have pages : (k'.view k.kmemCacheNode).pages = st.pages := by
    rw [← putSlabs_self k k.kmemCacheNode st]
    simp only [view, opens.pages, opens.slab]
  have node : (k'.view k.kmemCacheNode).node = st.node := by
    show k'.nodes (k'.mem (k.kmemCacheNode + nodeOffset)) = _
    rw [opens.descriptor apart (.inl rfl) (by omega) (by omega), opens.nodes,
      Function.update_of_ne other, Function.update_self]
  have links : (k'.view k.kmemCacheNode).freePointer = st.freePointer := opens.freePointer
  have cpu : (k'.view k.kmemCacheNode).cpu = k'.cpuSlab k.kmemCacheNode := rfl
  unfold SlabInv
  rw [pages, cpu, freelist, page, node, links]
  exact inv

/-- The new cache has no slab. -/
theorem Opens.empty (opens : Opens k k' s n c st) (ne : s ≠ k.kmemCacheNode)
    (apart : s + descriptorSize ≤ k.kmemCacheNode ∨ k.kmemCacheNode + descriptorSize ≤ s)
    (unused : ∀ p, (k.pages p).live = true → k.slab p ≠ s)
    (clear : k.loadCpu (s + cpuOffset) = ⟨0, 0, none⟩) :
    k'.cpuSlab s = ⟨0, 0, none⟩ ∧ EmptyCache (k'.view s) := by
  have sizes : kmemSize = 76 ∧ descriptorSize = 96 ∧ cpuOffset = 80 ∧ nodeOffset = 72 :=
    ⟨rfl, rfl, rfl, rfl⟩
  have cpu : k'.cpuSlab s = ⟨0, 0, none⟩ := by
    rw [← clear]
    have same : ∀ a, s + cpuOffset ≤ a → a < s + descriptorSize → k'.mem a = k.mem a := fun a low high =>
      opens.outside a (by omega) (by omega)
    unfold Allocator.cpuSlab loadCpu
    rw [opens.cpuSlab, same _ (by omega) (by omega), same _ (by omega) (by omega),
      same _ (by omega) (by omega)]
    simp only [pageOf, opens.memMap]
  refine ⟨cpu, fun p => ?_, ?_, ?_, ?_⟩
  · have none : ∀ p, ¬ ((k.view s).pages p).live = true := fun p live =>
      unused p (view_live.mp live).1 (view_live.mp live).2
    have pages : (k'.view s).pages = ((k.putSlabs k.kmemCacheNode st).view s).pages := by
      simp only [view, opens.pages, opens.slab]
    rw [pages, putSlabs_live ne (fun p live => absurd live (none p))]
    simpa using none p
  · exact congrArg CacheCpu.freelist cpu
  · exact congrArg CacheCpu.page cpu
  · show k'.nodes (k'.mem (s + nodeOffset)) = _
    rw [opens.node, opens.nodes, Function.update_self]

theorem setDouble_layout {c : KmemCache} (layout : Layout c) : Layout c.setDouble := by
  unfold KmemCache.setDouble
  split
  · exact ⟨layout.stride, layout.word, layout.oo, layout.min⟩
  · exact layout

/-- The objects that callers have, once the cache at `s` has got its node. -/
def withNode (out : Nat → List Nat) (node s n d : Nat) : List Nat :=
  if d = node then n :: (if s = node then [] else out node) else if d = s then [] else out d

theorem Openable.ne (openable : Openable k caches s) (member : d ∈ caches) : d ≠ s := by
  have size : descriptorSize = 96 := rfl
  have := openable.apart d member
  omega

/-- One more cache: all have the invariant, and the node is out. -/
theorem Opens.sound (opens : Opens k k' s n c st) (sound : Sound k caches out)
    (openable : Openable k caches s) (node : k.kmemCacheNode ∈ caches)
    (fresh : k.FreshOrders first second) (layout : Layout c) {fuel : Nat}
    (returns : k.allocObject k.kmemCacheNode first second fuel = some (n, st)) (notNull : n ≠ 0)
    (clear : k.loadCpu (s + cpuOffset) = ⟨0, 0, none⟩) :
    Sound k' (s :: caches) (withNode out k.kmemCacheNode s n) := by
  have sizes : cpuOffset = 80 ∧ nodeOffset = 72 := ⟨rfl, rfl⟩
  have valid := sound.valid _ node
  have before := sound.inv _ node
  have offered := fresh.view k.kmemCacheNode (k.cache k.kmemCacheNode)
  obtain ⟨r, returns', allocates⟩ := slabAlloc_spec valid before false offered fuel
  obtain rfl := Option.some.inj (returns'.symm.trans returns)
  obtain ⟨-, new, outcome⟩ := allocates.resolve_left fun h => notNull h.1
  have elsewhere := slabAlloc_elsewhere valid before offered returns
  have ne := openable.ne node
  have distinct : ∀ d ∈ caches, d = k.kmemCacheNode ∨ d + descriptorSize ≤ k.kmemCacheNode ∨
      k.kmemCacheNode + descriptorSize ≤ d := fun d member => by
    by_cases eq : d = k.kmemCacheNode
    · exact .inl eq
    · exact .inr (sound.apart d member _ node eq)
  have kept : ∀ d ∈ caches, ∀ a, d ≤ a → a < d + cpuOffset → k'.mem a = k.mem a := fun d member a =>
    opens.descriptor (openable.apart d member) (distinct d member)
  have caches' : ∀ d ∈ caches, k'.cache d = k.cache d := fun d member =>
    opens.cache_eq (openable.apart d member) (distinct d member)
  have nodes : ∀ d ∈ caches, k'.mem (d + nodeOffset) = k.mem (d + nodeOffset) := fun d member =>
    kept d member _ (by omega) (by omega)
  have out' : withNode out k.kmemCacheNode s n k.kmemCacheNode = n :: out k.kmemCacheNode := by
    rw [withNode, if_pos rfl, if_neg ne.symm]
  have free : ∀ d ∈ caches, k.mem (d + nodeOffset) ≠ n := by
    intro d member eq
    have taken := sound.node d member
    rw [eq] at taken
    exact new taken
  refine ⟨?_, ?_, ?_, ?_, ?_, ?_, ?_⟩
  · rw [opens.memMap]
    exact sound.memMap
  · intro d member
    rcases List.mem_cons.mp member with rfl | member
    · unfold Allocator.cache
      rw [opens.cache]
      exact layout.valid _
    · rw [caches' d member]
      exact sound.valid d member
  · intro d member
    rcases List.mem_cons.mp member with rfl | member
    · rw [withNode, if_neg ne.symm, if_pos rfl]
      exact (opens.empty ne.symm (openable.apart _ node) openable.unused clear).2.inv
    · rw [caches' d member]
      by_cases eq : d = k.kmemCacheNode
      · rw [eq, out']
        exact opens.inv_node sound.memMap (sound.cpuSlab _ node) (openable.apart _ node) (free _ node)
          outcome.inv
      · rw [withNode, if_neg eq, if_neg (openable.ne member)]
        exact (sound.inv d member).uses (opens.uses_other sound fresh elsewhere new member node eq
          (openable.apart d member))
  · intro d here e there different
    rcases List.mem_cons.mp here with rfl | member
    · rcases List.mem_cons.mp there with rfl | member'
      · exact absurd rfl different
      · exact openable.apart e member'
    · rcases List.mem_cons.mp there with rfl | member'
      · exact (openable.apart d member).symm
      · exact sound.apart d member e member' different
  · intro d member
    rcases List.mem_cons.mp member with rfl | member
    · exact opens.cpuSlab
    · rw [kept d member d le_rfl (by omega)]
      exact sound.cpuSlab d member
  · intro d member
    rw [opens.kmemCacheNode, out']
    rcases List.mem_cons.mp member with rfl | member
    · rw [opens.node]
      exact List.mem_cons_self
    · rw [nodes d member]
      exact List.mem_cons_of_mem n (sound.node d member)
  · intro d here e there different
    rcases List.mem_cons.mp here with rfl | member
    · rcases List.mem_cons.mp there with rfl | member'
      · exact absurd rfl different
      · rw [opens.node, nodes e member']
        exact (free e member').symm
    · rcases List.mem_cons.mp there with rfl | member'
      · rw [opens.node, nodes d member]
        exact free d member
      · rw [nodes d member, nodes e member']
        exact sound.nodes d member e member' different

/-- What `kmem_cache_open` does for the cache of nodes, whose node is in its first slab. -/
structure Boots (k k' : Allocator) (s n : Nat) (c : KmemCache) (st : State) : Prop where
  outside : ∀ a, a < s ∨ s + kmemSize ≤ a → a ≠ s + cpuOffset + 4 → k'.mem a = k.mem a
  tid : k'.mem (s + cpuOffset + 4) = 0
  cpuSlab : k'.mem s = s + cpuOffset
  node : k'.mem (s + nodeOffset) = n
  cache : loadCache k'.mem s = c
  pages : k'.pages = (k.putSlabs s st).pages
  slab : k'.slab = (k.putSlabs s st).slab
  freePointer : k'.freePointer = st.freePointer
  nodes : k'.nodes = Function.update k.nodes n st.node
  memMap : k'.memMap = k.memMap
  kmemCacheNode : k'.kmemCacheNode = s

/-- The slabs of the first cache, before there is a per-cpu part or a node -/
def bare (k : Allocator) (d : Nat) : State := { k.view d with cpu := ⟨0, 0, none⟩, node := ⟨0, []⟩ }

theorem boots_of_down {name i fuel : Nat} {k₂ : Allocator} (down : k.slabState = .slabDown)
    (first_cache : s = k.kmemCacheNode)
    (nodes : (k.described s name c).initKmemCacheNodes s first second fuel = some (i, k₂)) :
    ∃ N r, N = c.cache ((k.described s name c).mem (s + 8)) ∧
      earlyKmemCacheNodeAlloc N (k.bare s) (first N.oo.order) (second N.min.order) = some r ∧
      Boots k (k₂.allocKmemCacheCpus s) s r.1 c r.2 ∧ (k₂.allocKmemCacheCpus s).cache s = N := by
  have sizes : kmemSize = 76 ∧ cpuOffset = 80 ∧ nodeOffset = 72 := ⟨rfl, rfl, rfl⟩
  unfold initKmemCacheNodes at nodes
  rw [if_pos (show (k.described s name c).slabState = .slabDown from down)] at nodes
  obtain ⟨k₁, early, eq⟩ := Option.map_eq_some_iff.mp nodes
  obtain rfl : k₁ = k₂ := (Prod.mk.inj eq).2
  have here : (k.described s name c).kmemCacheNode = s := first_cache.symm
  unfold earlyNodeAlloc at early
  dsimp only at early
  rw [here] at early
  obtain ⟨r, returns, made⟩ := Option.map_eq_some_iff.mp early
  have shape : (k.described s name c).cache s = c.cache ((k.described s name c).mem (s + 8)) := by
    rw [Allocator.cache, loadCache_described]
  rw [shape] at returns
  have mem : ∀ x, (k₁.allocKmemCacheCpus s).mem x = if x = s + cpuOffset + 4 then 0
      else if x = s then s + cpuOffset else if x = s + nodeOffset then r.1
      else (k.described s name c).mem x := by
    intro x
    have global : k₁.kmemCacheNode = s := by
      rw [← made]
      exact here
    have inner : k₁.mem x = if x = s + nodeOffset then r.1 else (k.described s name c).mem x := by
      rw [← made]
      exact store_mem ..
    rw [allocKmemCacheCpus_mem, if_pos global, inner]
  have inside : ∀ i < 60, i ≠ 0 → (k₁.allocKmemCacheCpus s).mem (s + i) =
      (k.described s name c).mem (s + i) := by
    intro i small positive
    rw [mem, if_neg (by omega), if_neg (by omega), if_neg (by omega)]
  have loaded : loadCache (k₁.allocKmemCacheCpus s).mem s = c := by
    rw [loadCache_congr inside, loadCache_described]
  refine ⟨_, r, rfl, returns, ?_, ?_⟩
  · refine ⟨fun a off notTid => ?_, ?_, ?_, ?_, loaded, ?_, ?_, ?_, ?_, ?_, ?_⟩
    · rw [mem, if_neg notTid, if_neg (by omega), if_neg (by omega), described_outside off]
    · rw [mem, if_pos rfl]
    · rw [mem, if_neg (by omega), if_pos rfl]
    · rw [mem, if_neg (by omega), if_neg (by omega), if_pos rfl]
    all_goals
      rw [← made]
      first | rfl | exact here
  · rw [Allocator.cache, loaded, inside 8 (by decide) (by decide)]

theorem Boots.cpuSlab_clear (boots : Boots k k' s n c st)
    (clear : k.loadCpu (s + cpuOffset) = ⟨0, 0, none⟩) : k'.cpuSlab s = ⟨0, 0, none⟩ := by
  have sizes : kmemSize = 76 ∧ cpuOffset = 80 := ⟨rfl, rfl⟩
  have freelist : k.mem (s + cpuOffset) = 0 := congrArg CacheCpu.freelist clear
  have page : k.pageOf (k.mem (s + cpuOffset + 8)) = none := congrArg CacheCpu.page clear
  have pages : k'.pageOf = k.pageOf := by
    funext w
    rw [pageOf, pageOf, boots.memMap]
  unfold Allocator.cpuSlab loadCpu
  rw [boots.cpuSlab, boots.tid, boots.outside _ (by omega) (by omega),
    boots.outside _ (by omega) (by omega), freelist, pages, page]
  rfl

theorem Boots.cpuSlab_tid (boots : Boots k k' s n c st) : (k'.cpuSlab s).tid = 0 := by
  rw [Allocator.cpuSlab, loadCpu, boots.cpuSlab, boots.tid]
  rfl

theorem early_cpu {N : Cache} (valid : N.Valid) {first second : Option Nat}
    (fresh : FreshPages N st first second) {r : Nat × State}
    (returns : earlyKmemCacheNodeAlloc N st first second = some r) : r.2.cpu = st.cpu := by
  unfold earlyKmemCacheNodeAlloc at returns
  rcases newSlab_spec valid fresh with failed | ⟨page, st', made, new⟩
  · rw [failed] at returns
    cases returns
  · rw [made] at returns
    obtain rfl := Option.some.inj returns
    exact new.cpu

theorem Boots.sound (boots : Boots k k' s n c st) (map : k.memMap ≠ 0)
    (unused : ∀ p, (k.pages p).live = true → k.slab p ≠ s) (fresh : k.FreshOrders first second)
    (valid : (k'.cache s).Valid) (several : 2 ≤ (k'.cache s).oo.objects ∧ 2 ≤ (k'.cache s).min.objects)
    (early : earlyKmemCacheNodeAlloc (k'.cache s) (k.bare s) (first (k'.cache s).oo.order)
      (second (k'.cache s).min.order) = some (n, st))
    (clear : k.loadCpu (s + cpuOffset) = ⟨0, 0, none⟩) : Sound k' [s] (withNode out s s n) := by
  have none : EmptyCache (k.bare s) := by
    refine ⟨fun p => ?_, rfl, rfl, rfl⟩
    have dead : ¬ ((k.view s).pages p).live = true := fun live =>
      unused p (view_live.mp live).1 (view_live.mp live).2
    exact Bool.eq_false_iff.mpr dead
  have offered : FreshPages (k'.cache s) (k.bare s) (first (k'.cache s).oo.order)
      (second (k'.cache s).min.order) := by
    obtain ⟨oo, min⟩ := fresh.view s (k'.cache s)
    exact ⟨oo, min⟩
  have inv := (Opened.early (k.bare s) none _ _ (n, st) offered several early).inv valid
  have cpu : st.cpu = ⟨0, 0, Option.none⟩ := early_cpu valid offered early
  have out' : withNode out s s n s = [n] := by
    rw [withNode, if_pos rfl, if_pos rfl]
  refine ⟨?_, ?_, ?_, ?_, ?_, ?_, ?_⟩
  · rw [boots.memMap]
    exact map
  · simpa using valid
  · intro d member
    obtain rfl := List.mem_singleton.mp member
    have pages : (k'.view d).pages = st.pages := by
      rw [← putSlabs_self k d st]
      simp only [view, boots.pages, boots.slab]
    have node : (k'.view d).node = st.node := by
      show k'.nodes (k'.mem (d + nodeOffset)) = _
      rw [boots.node, boots.nodes, Function.update_self]
    have links : (k'.view d).freePointer = st.freePointer := boots.freePointer
    have same : (k'.view d).cpu = st.cpu := (boots.cpuSlab_clear clear).trans cpu.symm
    rw [out']
    unfold SlabInv
    rw [pages, same, node, links]
    exact inv
  · intro d here e there different
    rw [List.mem_singleton] at here there
    exact absurd (here.trans there.symm) different
  · intro d member
    obtain rfl := List.mem_singleton.mp member
    exact boots.cpuSlab
  · intro d member
    obtain rfl := List.mem_singleton.mp member
    rw [boots.node, boots.kmemCacheNode, out']
    exact List.mem_singleton_self n
  · intro d here e there different
    rw [List.mem_singleton] at here there
    exact absurd (here.trans there.symm) different

/-- What `kmem_cache_open` leaves when it returns 1. -/
structure Result (k k' : Allocator) (caches : List Nat) (out : Nat → List Nat) (s : Nat)
    (first second : Nat → Option Nat) (fuel : Nat) : Prop where
  pointer : k'.mem s = s + cpuOffset
  others : ∀ d ∈ caches, d ≠ k.kmemCacheNode → k'.cpuSlab d = k.cpuSlab d
  /-- The cache of nodes has given one object. -/
  node : k.slabState ≠ .slabDown → ∃ r, k.allocObject k.kmemCacheNode first second fuel = some r ∧
    r.1 ≠ 0 ∧ (k'.cpuSlab k.kmemCacheNode).freelist = r.2.cpu.freelist ∧
    (k'.cpuSlab k.kmemCacheNode).page = r.2.cpu.page
  empty : k.loadCpu (s + cpuOffset) = ⟨0, 0, none⟩ → k'.cpuSlab s = ⟨0, 0, none⟩
  /-- The first cache has the number of the cpu, whatever the memory held. -/
  tid : k.slabState = .slabDown → (k'.cpuSlab s).tid = 0
  /-- The first slab of the first cache has to have an object left. -/
  sound : k.loadCpu (s + cpuOffset) = ⟨0, 0, none⟩ →
    (k.slabState = .slabDown → 2 ≤ (k'.cache s).oo.objects ∧ 2 ≤ (k'.cache s).min.objects) →
    ∃ n, Sound k' (s :: caches) (withNode out k.kmemCacheNode s n)

theorem result_of_down (sound : Sound k [] out) (unused : ∀ p, (k.pages p).live = true → k.slab p ≠ s)
    (fresh : k.FreshOrders first second) (down : k.slabState = .slabDown) (boot : s = k.kmemCacheNode)
    {name fuel i : Nat} {k₂ : Allocator} (layout : Layout c)
    (nodes : (k.described s name c).initKmemCacheNodes s first second fuel = some (i, k₂)) :
    Result k (k₂.allocKmemCacheCpus s) [] out s first second fuel := by
  obtain ⟨N, r, shape, early, boots, eq⟩ := boots_of_down down boot nodes
  have valid : N.Valid := by
    rw [shape]
    exact layout.valid _
  subst eq
  refine ⟨boots.cpuSlab, by simp, absurd down, boots.cpuSlab_clear, fun _ => boots.cpuSlab_tid,
    fun clear several => ⟨r.1, ?_⟩⟩
  rw [← boot]
  exact boots.sound sound.memMap unused fresh valid (several down) early clear

theorem result_of_running (sound : Sound k caches out) (openable : Openable k caches s)
    (fresh : k.FreshOrders first second) (running : k.slabState ≠ .slabDown)
    {name fuel i : Nat} {k₂ : Allocator} (layout : Layout c)
    (nodes : (k.described s name c).initKmemCacheNodes s first second fuel = some (i, k₂)) (one : i ≠ 0) :
    Result k (k₂.allocKmemCacheCpus s) caches out s first second fuel := by
  have node := openable.running running
  have apart := openable.apart _ node
  obtain ⟨r, given, notNull, opens⟩ :=
    opens_of_running apart running (sound.cpuSlab _ node) nodes one
  obtain ⟨freelist, page⟩ := opens.cpuSlab_node sound.memMap (sound.cpuSlab _ node) apart
  refine ⟨opens.cpuSlab, fun d member ne => ?_, fun _ => ⟨r, given, notNull, freelist, page⟩,
    fun clear => ?_, fun down => absurd down running, fun clear _ => ⟨r.1, ?_⟩⟩
  · exact opens.cpuSlab_other (sound.cpuSlab d member) (openable.apart d member)
      (sound.apart d member _ node ne)
  · exact (opens.empty (openable.ne node).symm apart openable.unused clear).1
  · exact opens.sound sound openable node fresh layout given notNull clear

/-- The per-cpu part of the new cache is behind its descriptor, and empty if it was empty before;
of the others only the cache of nodes has a new free list or page, those after the call for one
object.  Then all caches have the invariant. -/
theorem kmem_cache_open_one (sound : Sound k caches out) (openable : Openable k caches s)
    (fresh : k.FreshOrders first second) {name fuel : Nat} {size align flags ctor : BitVec 32}
    (returns : k.kmemCacheOpen s name size align flags ctor first second fuel = some (1, k')) :
    Result k k' caches out s first second fuel := by
  obtain ⟨ret, c, i, k₂, sizes, accepted, nodes, succeeded, rfl⟩ := kmemCacheOpen_one returns
  have layout := setDouble_layout (calculateSizes_layout sizes accepted)
  by_cases down : k.slabState = .slabDown
  · obtain ⟨rfl, boot⟩ := openable.boot down
    exact result_of_down sound openable.unused fresh down boot layout nodes
  · exact result_of_running sound openable fresh down layout nodes succeeded

end Allocator

open Allocator

/-- Before `kmem_cache_init`, with the descriptors at frame 4. -/
def bootAllocator : Allocator where
  mem _ := 0
  freePointer _ := 0
  pages _ := ⟨0, ⟨0, 0, false⟩, 0, false⟩
  slab _ := 0
  nodes _ := ⟨0, []⟩
  memMap := 0xc1000000
  kmemCacheNode := pageAddress 4 + 96
  slabState := .slabDown

def bootPages (order : Nat) : Option Nat := if order = 0 then some 5 else none

/-- `kmem_cache_init` once the cache of nodes is open -/
def nodesOpened : Option Allocator :=
  (bootAllocator.kmemCacheOpen (pageAddress 4 + 96) 0 28 0 (slabHwcacheAlign ||| slabPanic) 0 bootPages
    (fun _ => none) 0).map fun r => { r.2 with slabState := .slabPartial }

/-- The cache of descriptors is opened. -/
def descriptorsOpened (k : Allocator) : Option (Nat × Allocator) :=
  k.kmemCacheOpen (pageAddress 4) 0 96 0 (slabHwcacheAlign ||| slabPanic) 0 (fun _ => none)
    (fun _ => none) 0

theorem nodesOpened_sound : ∃ k out, nodesOpened = some k ∧ k.kmemCacheNode = pageAddress 4 + 96 ∧
    Sound k [pageAddress 4 + 96] out ∧ Openable k [pageAddress 4 + 96] (pageAddress 4) := by
  obtain ⟨k, opened⟩ : ∃ k, nodesOpened = some k := ⟨_, Option.eq_some_of_isSome (by decide +kernel)⟩
  have several : nodesOpened.all fun k => decide (2 ≤ (k.cache (pageAddress 4 + 96)).oo.objects) &&
      decide (2 ≤ (k.cache (pageAddress 4 + 96)).min.objects) := by decide +kernel
  rw [opened, Option.all_some, Bool.and_eq_true, decide_eq_true_eq, decide_eq_true_eq] at several
  obtain ⟨⟨one, k'⟩, returns, rfl⟩ := Option.map_eq_some_iff.mp opened
  obtain rfl : one = 1 := by
    have ones : (bootAllocator.kmemCacheOpen (pageAddress 4 + 96) 0 28 0 (slabHwcacheAlign ||| slabPanic)
      0 bootPages (fun _ => none) 0).all fun r => decide (r.1 = 1) := by decide +kernel
    rw [returns] at ones
    simpa using ones
  have start : Sound bootAllocator [] fun _ => [] := ⟨by decide, nofun, nofun, nofun, nofun, nofun, nofun⟩
  have fresh : bootAllocator.FreshOrders bootPages fun _ => none := fun _ _ _ => ⟨rfl, nofun⟩
  obtain ⟨ret, c, i, k₂, sizes, accepted, nodes, -, rfl⟩ := kmemCacheOpen_one returns
  have layout := setDouble_layout (calculateSizes_layout sizes accepted)
  have result := result_of_down start nofun fresh rfl rfl layout nodes
  obtain ⟨n, sound⟩ := result.sound (by decide) fun _ => several
  obtain ⟨_, _, -, -, boots, -⟩ := boots_of_down rfl rfl nodes
  refine ⟨_, _, opened, boots.kmemCacheNode,
    ⟨sound.memMap, sound.valid, sound.inv, sound.apart, sound.cpuSlab, sound.node, sound.nodes⟩,
    ⟨fun d member => ?_, fun p _ => ?_, nofun, fun _ => ?_⟩⟩
  · obtain rfl := List.mem_singleton.mp member
    exact .inl (by decide)
  · have owner : (k₂.allocKmemCacheCpus (pageAddress 4 + 96)).slab p = _ := congrFun boots.slab p
    show (k₂.allocKmemCacheCpus (pageAddress 4 + 96)).slab p ≠ pageAddress 4
    rw [owner, putSlabs]
    dsimp only
    split
    · decide
    · exact (by decide : 0 ≠ pageAddress 4)
  · exact List.mem_singleton.mpr boots.kmemCacheNode

theorem descriptorsOpened_one : ∃ k k', nodesOpened = some k ∧ descriptorsOpened k = some (1, k') ∧
    k.loadCpu (pageAddress 4 + cpuOffset) = ⟨0, 0, none⟩ ∧
    (k.cpuSlab (pageAddress 4 + 96)).page = none ∧ (k'.cpuSlab (pageAddress 4 + 96)).page = some 5 := by
  obtain ⟨k, opened, clear, before⟩ : ∃ k, nodesOpened = some k ∧
      k.loadCpu (pageAddress 4 + cpuOffset) = ⟨0, 0, none⟩ ∧
      (k.cpuSlab (pageAddress 4 + 96)).page = none :=
    ⟨_, Option.eq_some_of_isSome (by decide +kernel), by decide +kernel, by decide +kernel⟩
  obtain ⟨⟨one, k'⟩, returns, rfl, page⟩ : ∃ r, nodesOpened.bind descriptorsOpened = some r ∧ r.1 = 1 ∧
      (r.2.cpuSlab (pageAddress 4 + 96)).page = some 5 :=
    ⟨_, Option.eq_some_of_isSome (by decide +kernel), by decide +kernel, by decide +kernel⟩
  rw [opened, Option.bind_some] at returns
  exact ⟨k, k', opened, returns, clear, before, page⟩

theorem freshOrders_none (k : Allocator) : k.FreshOrders (fun _ => none) fun _ => none := by
  rintro order page (given | given)
  · cases given
  · cases given

/-- The cache of descriptors in `kmem_cache_init` -/
theorem kmem_cache_open_one_second : ∃ k k' out, nodesOpened = some k ∧
    descriptorsOpened k = some (1, k') ∧ k'.cpuSlab (pageAddress 4) = ⟨0, 0, none⟩ ∧
    ∃ n, Sound k' [pageAddress 4, pageAddress 4 + 96]
      (withNode out (pageAddress 4 + 96) (pageAddress 4) n) := by
  obtain ⟨k, out, opened, node, sound, openable⟩ := nodesOpened_sound
  obtain ⟨k₁, k', opened', returns, clear, -⟩ := descriptorsOpened_one
  obtain rfl := Option.some.inj (opened.symm.trans opened')
  have result := kmem_cache_open_one sound openable (freshOrders_none k) returns
  obtain ⟨n, sound'⟩ := result.sound clear fun down =>
    (List.cons_ne_nil _ _ (openable.boot down).1).elim
  rw [node] at sound'
  exact ⟨k, k', out, opened, returns, result.empty clear, n, sound'⟩

/-- There the cache of nodes gets a page. -/
theorem kmem_cache_open_changes_nodes : ∃ k k' out, Sound k [pageAddress 4 + 96] out ∧
    Openable k [pageAddress 4 + 96] (pageAddress 4) ∧
    k.FreshOrders (fun _ => none) (fun _ => none) ∧
    k.loadCpu (pageAddress 4 + cpuOffset) = ⟨0, 0, none⟩ ∧
    descriptorsOpened k = some (1, k') ∧
    k'.cpuSlab (pageAddress 4 + 96) ≠ k.cpuSlab (pageAddress 4 + 96) := by
  obtain ⟨k, out, opened, -, sound, openable⟩ := nodesOpened_sound
  obtain ⟨k₁, k', opened', returns, clear, before, page⟩ := descriptorsOpened_one
  obtain rfl := Option.some.inj (opened.symm.trans opened')
  refine ⟨k, k', out, sound, openable, freshOrders_none k, clear, returns, fun same => ?_⟩
  rw [same, before] at page
  cases page

end XcKernel.Slub
