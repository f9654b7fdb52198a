import XcKernel.Memblock.Find

/-!
# Allocating before the page allocator is up

`mm/nobootmem.c`: a range is found by a search of the region lists and then
added to the reserved list.  The result of that addition is never looked at,
so everything rests on the fixed-size table having a slot left.

The functions are the ones of the source while `slab_is_available()` is false.
-/

namespace XcKernel.Mm

open Word XcKernel.Span

/-- An entry of `early_node_map`, in page frame numbers. -/
structure NodeActiveRegion where
  startPfn : Nat
  endPfn : Nat
  nid : Nat
  deriving DecidableEq, Repr

/-- `MAX_NUMNODES`; as a node id it stands for every node. -/
def maxNumnodes : Nat := 1

/-- The entries `for_each_active_range_index_in_nid` visits, in order. -/
def activeRanges (earlyNodeMap : List NodeActiveRegion) (nid : Nat) : List NodeActiveRegion :=
  earlyNodeMap.filter fun r => nid = maxNumnodes ∨ r.nid = nid

/-- The loop of `find_memory_core_early` over the entries still to be visited. -/
def findMemoryLoop (memblock : Memblock) (size align goal limit : Nat) :
    List NodeActiveRegion → Nat
  | [] => memblockError
  | r :: rs =>
    let eiLast := u64 (r.endPfn <<< pageShift)
    let eiStart := u64 (r.startPfn <<< pageShift)
    let finalStart := max eiStart goal
    let finalEnd := min eiLast limit
    if finalStart ≥ finalEnd then findMemoryLoop memblock size align goal limit rs
    else
      let addr := memblockFindInRange memblock finalStart finalEnd size align
      if addr = memblockError then findMemoryLoop memblock size align goal limit rs
      else addr

/-- `find_memory_core_early`: the entries are visited from the last one down. -/
def findMemoryCoreEarly (memblock : Memblock) (earlyNodeMap : List NodeActiveRegion)
    (nid size align goal limit : Nat) : Nat :=
  findMemoryLoop memblock size align goal limit (activeRanges earlyNodeMap nid).reverse

def null : Nat := 0

/-- `__alloc_memory_core_early` -/
def allocMemoryCoreEarly (memblock : Memblock) (earlyNodeMap : List NodeActiveRegion)
    (nid size align goal limit : Nat) : Nat × Memblock :=
  let limit := if limit > memblock.currentLimit then memblock.currentLimit else limit
  let addr := findMemoryCoreEarly memblock earlyNodeMap nid size align goal limit
  if addr = memblockError then (null, memblock)
  else (va addr, memblockX86ReserveRange memblock addr (u64 (addr + size)))

/-- `___alloc_bootmem_nopanic`: a second try without the goal. -/
def allocBootmemNopanicLimit (memblock : Memblock) (earlyNodeMap : List NodeActiveRegion)
    (size align goal limit : Nat) : Nat × Memblock :=
  let r := allocMemoryCoreEarly memblock earlyNodeMap maxNumnodes size align goal limit
  if r.1 ≠ null then r
  else if goal ≠ 0 then allocMemoryCoreEarly r.2 earlyNodeMap maxNumnodes size align 0 limit
  else r

/-- `__alloc_bootmem_nopanic`: the limit is `-1UL`. -/
def allocBootmemNopanic (memblock : Memblock) (earlyNodeMap : List NodeActiveRegion)
    (size align goal : Nat) : Nat × Memblock :=
  allocBootmemNopanicLimit memblock earlyNodeMap size align goal (2 ^ 32 - 1)

/-- `__alloc_bootmem_node_nopanic`: the limit is `-1ULL`; the only node has id 0. -/
def allocBootmemNodeNopanic (memblock : Memblock) (earlyNodeMap : List NodeActiveRegion)
    (size align goal : Nat) : Nat × Memblock :=
  let r := allocMemoryCoreEarly memblock earlyNodeMap 0 size align goal (2 ^ 64 - 1)
  if r.1 ≠ null then r else allocBootmemNopanic r.2 earlyNodeMap size align goal

/-- The lists are well formed and the direct mapping reaches the current limit:
`start_kernel` sets it to the end of the mapped low memory. -/
structure Bootable (memblock : Memblock) : Prop where
  memory : ∃ live, memblock.memory.Live live
  reserved : ∃ live, memblock.reserved.Live live
  mapped : memblock.currentLimit ≤ 2 ^ 32 - pageOffset

theorem MemblockType.Live.fits {type : MemblockType} {live : List MemblockRegion}
    (h : type.Live live) : ∀ r ∈ type.regions, r.base + r.size < 2 ^ 64 := by
  rw [h.shown]
  rcases (orPlaceholder_length live).2 with same | ⟨-, placeholder⟩
  · rw [same]
    exact h.ok.fits
  · simp [placeholder]

theorem MemblockType.Live.ascending {type : MemblockType} {live : List MemblockRegion}
    (h : type.Live live) : type.regions.Pairwise fun r t => r.base + r.size < t.base := by
  rw [h.shown]
  rcases (orPlaceholder_length live).2 with same | ⟨-, placeholder⟩
  · rw [same]
    exact h.ok.separated
  · rw [placeholder]
    exact List.pairwise_singleton _ _

/-- What the search promises about the address it returns. -/
structure Found (memblock : Memblock) (size align addr : Nat) : Prop where
  nonzero : addr ≠ memblockError
  inMemory : ∃ r ∈ memblock.memory.regions, r.base ≤ addr ∧ addr + size ≤ r.base + r.size
  limit : addr + size ≤ memblock.currentLimit
  aligned : align ∣ addr
  clear : ∀ r ∈ memblock.reserved.regions, r.span.Apart ⟨addr, addr + size⟩

theorem findMemoryLoop_found {memblock : Memblock} (h : Bootable memblock) {size k goal limit : Nat}
    (hk : k < 64) (hlimit : limit ≤ memblock.currentLimit) (ranges : List NodeActiveRegion)
    (found : findMemoryLoop memblock size (2 ^ k) goal limit ranges ≠ memblockError) :
    Found memblock size (2 ^ k) (findMemoryLoop memblock size (2 ^ k) goal limit ranges) := by
  induction ranges with
  | nil => exact (found rfl).elim
  | cons r rs ih =>
    rw [findMemoryLoop] at found ⊢
    dsimp only at found ⊢
    split_ifs at found ⊢ with empty missed
    · exact ih found
    · exact ih found
    · obtain ⟨_, memory⟩ := h.memory
      obtain ⟨_, reserved⟩ := h.reserved
      obtain ⟨r', hr, fits⟩ := memblockFindInRange_fits hk memory.fits reserved.fits
        (by omega) missed
      have below := fits.below
      have above := fits.above
      exact ⟨missed, ⟨r', hr, by omega, by omega⟩, by omega, fits.aligned, fits.clear⟩

theorem va_of_lt {addr : Nat} (h : addr < 2 ^ 32 - pageOffset) : va addr = addr + pageOffset := by
  simp only [pageOffset] at h
  rw [va, pageOffset, wrap_of_lt (show addr < 2 ^ 32 by omega), wrap_of_lt (by omega)]

theorem pa_va {addr : Nat} (h : addr < 2 ^ 32 - pageOffset) : pa (va addr) = addr := by
  rw [va_of_lt h]
  simp only [pageOffset] at h
  rw [pa, pageOffset, wrapSub_of_le (by omega) (by omega)]
  omega

theorem va_ne_null {addr : Nat} (h : addr < 2 ^ 32 - pageOffset) : va addr ≠ null := by
  rw [va_of_lt h]
  simp [pageOffset, null]

/-- An allocation fails and changes nothing, or finds a range and tries to record it. -/
def Allocates (memblock : Memblock) (size align : Nat) (r : Nat × Memblock) : Prop :=
  r = (null, memblock) ∨ ∃ addr, Found memblock size align addr ∧ r.1 = va addr ∧
    r.2 = (memblockReserve memblock addr size).2

theorem allocMemoryCoreEarly_allocates {memblock : Memblock} (h : Bootable memblock)
    (earlyNodeMap : List NodeActiveRegion) {nid size k goal limit : Nat} (hk : k < 64)
    (pos : 0 < size) : Allocates memblock size (2 ^ k)
      (allocMemoryCoreEarly memblock earlyNodeMap nid size (2 ^ k) goal limit) := by
  have clamped : (if limit > memblock.currentLimit then memblock.currentLimit else limit) ≤
      memblock.currentLimit := by split <;> omega
  unfold allocMemoryCoreEarly
  dsimp only
  generalize (if limit > memblock.currentLimit then memblock.currentLimit else limit) = clamp
    at clamped ⊢
  split_ifs with missed
  · exact .inl rfl
  · right
    have found := findMemoryLoop_found h hk clamped _ missed
    refine ⟨_, found, rfl, ?_⟩
    have mapped := h.mapped
    have below := found.limit
    simp only [pageOffset, findMemoryCoreEarly] at mapped below ⊢
    rw [memblockX86ReserveRange, u64, wrap_of_lt (by omega), if_neg (by omega), u64Sub,
      wrapSub_of_le (by omega) (by omega), Nat.add_sub_cancel_left]

theorem Found.lt_mapped {memblock : Memblock} {size align addr : Nat} (h : Bootable memblock)
    (found : Found memblock size align addr) (pos : 0 < size) : addr < 2 ^ 32 - pageOffset := by
  have mapped := h.mapped
  have limit := found.limit
  omega

/-- A first try that fails leaves the second one the state it had. -/
theorem Allocates.orElse {memblock : Memblock} {size align : Nat} {first : Nat × Memblock}
    (h₁ : Allocates memblock size align first) (h : Bootable memblock) (pos : 0 < size)
    (second : Memblock → Nat × Memblock)
    (h₂ : Allocates memblock size align (second memblock)) :
    Allocates memblock size align (if first.1 ≠ null then first else second first.2) := by
  rcases h₁ with rfl | ⟨addr, found, ptr, rest⟩
  · simpa using h₂
  · have success : first.1 ≠ null := ptr ▸ va_ne_null (found.lt_mapped h pos)
    rw [if_pos success]
    exact .inr ⟨addr, found, ptr, rest⟩

/-- A call of one of the two allocation functions. -/
inductive BootCall where
  /-- `__alloc_bootmem_nopanic` -/
  | bootmem (size align goal : Nat)
  /-- `__alloc_bootmem_node_nopanic` -/
  | node (size align goal : Nat)
  deriving DecidableEq

namespace BootCall

def size : BootCall → Nat
  | bootmem size _ _ => size
  | node size _ _ => size

def align : BootCall → Nat
  | bootmem _ align _ => align
  | node _ align _ => align

/-- A positive size and an alignment that is a power of two of an `unsigned long`. -/
def Valid (c : BootCall) : Prop := 0 < c.size ∧ ∃ k < 32, c.align = 2 ^ k

instance (c : BootCall) : Decidable c.Valid := inferInstanceAs (Decidable (_ ∧ _))

def exec (c : BootCall) (earlyNodeMap : List NodeActiveRegion) (memblock : Memblock) :
    Nat × Memblock :=
  match c with
  | bootmem size align goal => allocBootmemNopanic memblock earlyNodeMap size align goal
  | node size align goal => allocBootmemNodeNopanic memblock earlyNodeMap size align goal

end BootCall

theorem allocBootmemNopanic_allocates {memblock : Memblock} (h : Bootable memblock)
    (earlyNodeMap : List NodeActiveRegion) {size k goal : Nat} (hk : k < 64) (pos : 0 < size) :
    Allocates memblock size (2 ^ k)
      (allocBootmemNopanic memblock earlyNodeMap size (2 ^ k) goal) := by
  unfold allocBootmemNopanic allocBootmemNopanicLimit
  dsimp only
  have first : Allocates memblock size (2 ^ k)
      (allocMemoryCoreEarly memblock earlyNodeMap maxNumnodes size (2 ^ k) goal (2 ^ 32 - 1)) :=
    allocMemoryCoreEarly_allocates h earlyNodeMap hk pos
  by_cases goal0 : goal = 0
  · simpa [goal0] using first
  · simp only [goal0, ne_eq, not_false_eq_true, if_true]
    exact first.orElse h pos
      (fun m => allocMemoryCoreEarly m earlyNodeMap maxNumnodes size (2 ^ k) 0 (2 ^ 32 - 1))
      (allocMemoryCoreEarly_allocates h earlyNodeMap hk pos)

theorem BootCall.exec_allocates {memblock : Memblock} (h : Bootable memblock)
    (earlyNodeMap : List NodeActiveRegion) {c : BootCall} (valid : c.Valid) :
    Allocates memblock c.size c.align (c.exec earlyNodeMap memblock) := by
  obtain ⟨pos, k, hk, align⟩ := valid
  cases c with
  | bootmem size align' goal =>
    obtain rfl : align' = 2 ^ k := align
    exact allocBootmemNopanic_allocates h earlyNodeMap (by omega) pos
  | node size align' goal =>
    obtain rfl : align' = 2 ^ k := align
    exact (allocMemoryCoreEarly_allocates h earlyNodeMap (by omega) pos).orElse h pos
      (fun m => allocBootmemNopanic m earlyNodeMap size (2 ^ k) goal)
      (allocBootmemNopanic_allocates h earlyNodeMap (by omega) pos)

/-- A state with the successful calls so far and the byte range of each. -/
structure BootState where
  memblock : Memblock
  allocs : List (BootCall × Span)

def BootState.after (s : BootState) (earlyNodeMap : List NodeActiveRegion) (c : BootCall) :
    BootState :=
  let r := c.exec earlyNodeMap s.memblock
  if r.1 = null then ⟨r.2, s.allocs⟩
  else ⟨r.2, s.allocs ++ [(c, ⟨pa r.1, pa r.1 + c.size⟩)]⟩

/-- One more call, made in a state that meets `cond`. -/
inductive BootStep (cond : Memblock → Prop) (earlyNodeMap : List NodeActiveRegion) :
    BootState → BootState → Prop where
  | call (s : BootState) (c : BootCall) (valid : c.Valid) (ready : cond s.memblock) :
      BootStep cond earlyNodeMap s (s.after earlyNodeMap c)

/-- The reserved table has a free slot. -/
def HasSlot (memblock : Memblock) : Prop := memblock.reserved.cnt < memblock.reserved.max

instance (memblock : Memblock) : Decidable (HasSlot memblock) :=
  inferInstanceAs (Decidable (_ < _))

/-- The ranges handed out since `start` are pairwise disjoint, clear of what was
reserved there, aligned, and inside the memory below the limit. -/
structure Disjointly (start : Memblock) (allocs : List (BootCall × Span)) : Prop where
  pairwise : (allocs.map Prod.snd).Pairwise Apart
  clear : ∀ a ∈ allocs, ∀ r ∈ start.reserved.regions, r.span.Apart a.2
  aligned : ∀ a ∈ allocs, a.1.align ∣ a.2.lo
  sized : ∀ a ∈ allocs, a.2.hi = a.2.lo + a.1.size
  inMemory : ∀ a ∈ allocs, ∃ r ∈ start.memory.regions,
    r.base ≤ a.2.lo ∧ a.2.hi ≤ r.base + r.size
  limit : ∀ a ∈ allocs, a.2.hi ≤ start.currentLimit

/-- The run invariant: besides the promise, every range handed out and every
range reserved at the start is still covered by the reserved list. -/
structure BootInv (start : Memblock) (s : BootState) : Prop where
  bootable : Bootable s.memblock
  memory : s.memblock.memory = start.memory
  currentLimit : s.memblock.currentLimit = start.currentLimit
  held : ∀ a ∈ s.allocs, ∀ x, a.2.Contains x → Covers (spans s.memblock.reserved.regions) x
  kept : ∀ x, Covers (spans start.reserved.regions) x → Covers (spans s.memblock.reserved.regions) x
  disjointly : Disjointly start s.allocs

/-- With a free slot the reservation succeeds. -/
theorem memblockReserve_spec {memblock : Memblock} (h : Bootable memblock) (room : HasSlot memblock)
    {addr size : Nat} (pos : 0 < size) (fits : addr + size < 2 ^ 64) :
    Bootable (memblockReserve memblock addr size).2 ∧
    ∀ x, Covers (spans (memblockReserve memblock addr size).2.reserved.regions) x ↔
      Covers (spans memblock.reserved.regions) x ∨ (addr ≤ x ∧ x < addr + size) := by
  obtain ⟨live, reserved⟩ := h.reserved
  rcases memblockAddRegion_spec reserved pos fits with ⟨live', -, list, len, rec, -⟩ | ⟨-, full, -⟩
  · have shown : (memblockReserve memblock addr size).2.reserved.regions = live' := by
      simp [memblockReserve, list]
    refine ⟨⟨h.memory, ⟨live', ?_⟩, h.mapped⟩, fun x => ?_⟩
    · refine ⟨by rw [shown, orPlaceholder_of_ne_nil rec.nonempty], rec.ok, ?_, ?_⟩
      · simpa [memblockReserve, list] using len
      · simpa [memblockReserve, list] using reserved.slot
    · rw [shown, rec.covers x, reserved.shown, covers_orPlaceholder]
  · have cnt : memblock.reserved.cnt = memblock.reserved.max := by
      have slot := reserved.slot
      rw [MemblockType.cnt, reserved.shown, orPlaceholder_of_ne_nil (by rintro rfl; simp at full; omega)]
      exact full
    exact absurd room (by rw [HasSlot]; omega)

theorem BootInv.step {start : Memblock} {earlyNodeMap : List NodeActiveRegion} {s s' : BootState}
    (inv : BootInv start s) (step : BootStep HasSlot earlyNodeMap s s') : BootInv start s' := by
  obtain ⟨c, valid, room⟩ := step
  unfold BootState.after
  rcases c.exec_allocates inv.bootable earlyNodeMap valid with failed | ⟨addr, found, ptr, rest⟩
  · simpa [failed] using inv
  · have mapped := found.lt_mapped inv.bootable valid.1
    have success : (c.exec earlyNodeMap s.memblock).1 ≠ null := ptr ▸ va_ne_null mapped
    have fits : addr + c.size < 2 ^ 64 := by
      have := found.limit
      have := inv.bootable.mapped
      simp only [pageOffset] at this
      omega
    obtain ⟨bootable, covers⟩ := memblockReserve_spec inv.bootable room valid.1 fits
    dsimp only
    rw [if_neg success, ptr, pa_va mapped, rest]
    have fresh : ∀ x, Covers (spans s.memblock.reserved.regions) x →
        ¬ Contains ⟨addr, addr + c.size⟩ x := by
      rintro x ⟨t, ht, inside⟩
      obtain ⟨r, hr, rfl⟩ := List.mem_map.mp ht
      exact found.clear r hr x inside
    refine ⟨bootable, inv.memory, inv.currentLimit, ?_, fun x hx => (covers x).mpr (.inl (inv.kept x hx)), ?_⟩
    · intro a ha x hx
      rcases List.mem_append.mp ha with old | new
      · exact (covers x).mpr (.inl (inv.held a old x hx))
      · obtain rfl := List.mem_singleton.mp new
        exact (covers x).mpr (.inr hx)
    · have old := inv.disjointly
      constructor
      · rw [List.map_append, List.pairwise_append]
        refine ⟨old.pairwise, by simp, ?_⟩
        intro t ht u hu x inT inU
        obtain ⟨a, ha, rfl⟩ := List.mem_map.mp ht
        simp only [List.map_cons, List.map_nil, List.mem_singleton] at hu
        subst hu
        exact fresh x (inv.held a ha x inT) inU
      all_goals
        intro a ha
        rcases List.mem_append.mp ha with before | new
      · exact old.clear a before
      · obtain rfl := List.mem_singleton.mp new
        intro r hr x inR inA
        exact fresh x (inv.kept x ⟨r.span, List.mem_map_of_mem hr, inR⟩) inA
      · exact old.aligned a before
      · obtain rfl := List.mem_singleton.mp new
        exact found.aligned
      · exact old.sized a before
      · obtain rfl := List.mem_singleton.mp new
        rfl
      · exact old.inMemory a before
      · obtain rfl := List.mem_singleton.mp new
        simpa [inv.memory] using found.inMemory
      · exact old.limit a before
      · obtain rfl := List.mem_singleton.mp new
        simpa [inv.currentLimit] using found.limit

/-- The state in which allocations begin: the lists as the calls of a log left
them, and the limit `start_kernel` has set. -/
def BootState.start (s : Logged) (limit : Nat) : BootState :=
  ⟨{ s.memblock with currentLimit := limit }, []⟩

theorem bootInv_start {s : Logged} (reachable : Relation.ReflTransGen AddStep .init s)
    {limit : Nat} (mapped : limit ≤ 2 ^ 32 - pageOffset) :
    BootInv (BootState.start s limit).memblock (.start s limit) := by
  have lists := runInv_of_reachable reachable
  refine ⟨⟨?_, ?_, mapped⟩, rfl, rfl, by simp [BootState.start], fun _ h => h, ?_⟩
  · exact (lists false).imp fun _ inv => inv.list
  · exact (lists true).imp fun _ inv => inv.list
  · constructor <;> simp [BootState.start]

/-- In every run whose calls all find a free slot in the reserved table, the
ranges handed out are disjoint, aligned, clear of what was reserved before and
inside the memory below the limit. -/
theorem bootmem_runs {s₀ : Logged} (reachable : Relation.ReflTransGen AddStep .init s₀)
    {limit : Nat} (mapped : limit ≤ 2 ^ 32 - pageOffset) {earlyNodeMap : List NodeActiveRegion}
    {s : BootState}
    (run : Relation.ReflTransGen (BootStep HasSlot earlyNodeMap) (.start s₀ limit) s) :
    Disjointly (BootState.start s₀ limit).memblock s.allocs := by
  suffices inv : BootInv (BootState.start s₀ limit).memblock s from inv.disjointly
  induction run with
  | refl => exact bootInv_start reachable mapped
  | tail _ step ih => exact ih.step step

/-- A full table forgets a range that touches no reserved region: the call
leaves the state as it was, so that the next call finds the same range. -/
theorem exec_of_full {memblock : Memblock} (h : Bootable memblock)
    (slots : 1 < memblock.reserved.max) (full : ¬ HasSlot memblock)
    {earlyNodeMap : List NodeActiveRegion} {c : BootCall} (valid : c.Valid)
    (clear : ∀ r ∈ memblock.reserved.regions,
      ¬ r.span.Touches ⟨pa (c.exec earlyNodeMap memblock).1,
        pa (c.exec earlyNodeMap memblock).1 + c.size⟩) :
    (c.exec earlyNodeMap memblock).2 = memblock := by
  rcases c.exec_allocates h earlyNodeMap valid with failed | ⟨addr, found, ptr, rest⟩
  · rw [failed]
  · have mapped := found.lt_mapped h valid.1
    have bound := found.limit
    have limit := h.mapped
    simp only [pageOffset] at limit
    obtain ⟨live, reserved⟩ := h.reserved
    rw [ptr, pa_va mapped] at clear
    rw [rest]
    have fits : addr + c.size < 2 ^ 64 := by omega
    rcases memblockAddRegion_spec reserved valid.1 fits with
      ⟨-, -, -, -, -, room⟩ | ⟨fail, -, -⟩
    · -- a range is recorded only in a free slot or next to a region it meets
      exfalso
      have shown := reserved.shown
      rcases (orPlaceholder_length live).2 with same | ⟨rfl, placeholder⟩
      · rw [same] at shown
        rcases room with free | ⟨r, hr, touch⟩
        · exact full (by rw [HasSlot, MemblockType.cnt, shown]; exact free)
        · exact clear r (shown ▸ hr) touch
      · exact full (by rw [HasSlot, MemblockType.cnt, shown, placeholder]; exact slots)
    · simp [memblockReserve, fail]

/-- The `i`-th of a row of reserved pages, no two of them adjacent. -/
def oddPage (i : Nat) : MemblockRegion := ⟨0x100000 + i * 0x2000, 0x1000⟩

/-- 16 MiB of memory with the first `n` pages of the row reserved. -/
def oddPages (n : Nat) : Logged :=
  (List.range n).foldl (fun s i => s.after (.reserve (oddPage i).base (oddPage i).size))
    (Logged.init.after (.add 0 0x1000000))

theorem oddPages_succ (n : Nat) :
    oddPages (n + 1) = (oddPages n).after (.reserve (oddPage n).base (oddPage n).size) := by
  simp [oddPages, List.range_succ]

theorem oddPages_reachable (n : Nat) (small : n ≤ 128) :
    Relation.ReflTransGen AddStep .init (oddPages n) := by
  induction n with
  | zero => exact .single (.call .init _ (by decide))
  | succ n ih =>
    rw [oddPages_succ]
    refine (ih (by omega)).tail (.call _ _ ⟨?_, ?_⟩) <;>
      simp only [AddCall.size, AddCall.base, oddPage] <;> omega

theorem oddPage_regionsOk (n : Nat) (small : n ≤ 128) :
    RegionsOk ((List.range n).map oddPage) := by
  refine ⟨by simp [oddPage], ?_, ?_⟩
  · intro r hr
    obtain ⟨i, hi, rfl⟩ := List.mem_map.mp hr
    have := List.mem_range.mp hi
    simp only [oddPage]
    omega
  · rw [List.pairwise_map]
    refine List.pairwise_lt_range.imp ?_
    intro i j lt
    simp only [oddPage]
    omega

theorem oddPages_memblock (n : Nat) (pos : 1 ≤ n) (small : n ≤ 128) :
    (oddPages n).memblock = { memblockInit with
      memory := ⟨128, [⟨0, 0x1000000⟩]⟩, reserved := ⟨128, (List.range n).map oddPage⟩ } := by
  induction n, pos using Nat.le_induction with
  | base => decide +kernel
  | succ n pos ih =>
    have live : MemblockType.Live ⟨128, (List.range n).map oddPage⟩ ((List.range n).map oddPage) :=
      ⟨(orPlaceholder_of_ne_nil (by simp; omega)).symm, oddPage_regionsOk n (by omega),
        by simp; omega, by simp⟩
    have appended := memblockAddRegion_append live (by simp; omega) (by simp; omega)
      (oddPage n).base (oddPage n).size (by simp [oddPage])
      (by simp [oddPage]; omega) (by
        intro r hr
        obtain ⟨i, hi, rfl⟩ := List.mem_map.mp hr
        have := List.mem_range.mp hi
        simp only [oddPage]
        omega)
    rw [oddPages_succ, Logged.after, AddCall.exec, memblockReserve, ih (by omega), appended]
    simp [List.range_succ, oddPage]

/-- All 128 slots of the reserved table are taken. -/
def fullTable : Logged := oddPages 128

theorem fullTable_reachable : Relation.ReflTransGen AddStep .init fullTable :=
  oddPages_reachable 128 le_rfl

def wholeNode : List NodeActiveRegion := [⟨0, 0x1000, 0⟩]

/-- The two calls of the run below. -/
def pageCall : BootCall := .bootmem 0x1000 0x1000 0

theorem not_disjointly_of_twice {start : Memblock} {allocs : List (BootCall × Span)} {t : Span}
    (twice : allocs.map Prod.snd = [t, t]) (nonempty : t.lo < t.hi) :
    ¬ Disjointly start allocs := by
  intro h
  have apart := h.pairwise
  rw [twice, List.pairwise_cons] at apart
  exact apart.1 t (by simp) t.lo ⟨le_rfl, nonempty⟩ ⟨le_rfl, nonempty⟩

/-- A call that succeeds and leaves the lists alone returns the same range again. -/
theorem after_twice_of_repeat {s : BootState} {earlyNodeMap : List NodeActiveRegion} {c : BootCall}
    {p : Nat} (none : s.allocs = []) (ptr : (c.exec earlyNodeMap s.memblock).1 = p) (hp : p ≠ null)
    (same : (c.exec earlyNodeMap s.memblock).2 = s.memblock) :
    ((s.after earlyNodeMap c).after earlyNodeMap c).allocs.map Prod.snd =
      [⟨pa p, pa p + c.size⟩, ⟨pa p, pa p + c.size⟩] := by
  simp [BootState.after, ptr, same, hp, none]

/-- The state after two calls on the full table. -/
def afterTwo : BootState :=
  ((BootState.start fullTable 0x1000000).after wholeNode pageCall).after wholeNode pageCall

theorem afterTwo_allocs :
    afterTwo.allocs.map Prod.snd = [⟨0xfff000, 0x1000000⟩, ⟨0xfff000, 0x1000000⟩] := by
  have mapped : 0x1000000 ≤ 2 ^ 32 - pageOffset := by decide
  have inv := bootInv_start fullTable_reachable mapped
  have memblock : (BootState.start fullTable 0x1000000).memblock =
      ⟨0x1000000, 0, ⟨128, [⟨0, 0x1000000⟩]⟩, ⟨128, (List.range 128).map oddPage⟩⟩ := by
    rw [BootState.start, fullTable, oddPages_memblock 128 (by decide) le_rfl]
    rfl
  have ptr : (pageCall.exec wholeNode (BootState.start fullTable 0x1000000).memblock).1 =
      0xc0fff000 := by
    rw [memblock]
    decide +kernel
  have same : (pageCall.exec wholeNode (BootState.start fullTable 0x1000000).memblock).2 =
      (BootState.start fullTable 0x1000000).memblock := by
    refine exec_of_full inv.bootable ?_ ?_ (by decide) ?_
    · rw [memblock]
      decide
    · rw [memblock]
      decide +kernel
    · rw [ptr, memblock]
      decide +kernel
  exact (after_twice_of_repeat rfl ptr (by decide) same).trans (by decide +kernel)

/-- Two calls on a full table return the same page. -/
theorem bootmem_full_table :
    Relation.ReflTransGen AddStep .init fullTable ∧
    Relation.ReflTransGen (BootStep (fun _ => True) wholeNode) (.start fullTable 0x1000000)
      afterTwo ∧
    ¬ Disjointly (BootState.start fullTable 0x1000000).memblock afterTwo.allocs :=
  ⟨fullTable_reachable,
    .tail (.single (.call _ pageCall (by decide) trivial)) (.call _ pageCall (by decide) trivial),
    not_disjointly_of_twice afterTwo_allocs (by decide)⟩

/-- With room in the table the same two calls return two different pages. -/
theorem bootmem_runs_two :
    let s₀ := Logged.init.after (.add 0 0x1000000)
    let s := ((BootState.start s₀ 0x1000000).after wholeNode pageCall).after wholeNode pageCall
    s.allocs.map Prod.snd = [⟨0xfff000, 0x1000000⟩, ⟨0xffe000, 0xfff000⟩] ∧
      Disjointly (BootState.start s₀ 0x1000000).memblock s.allocs :=
  ⟨by decide +kernel, bootmem_runs (.single (.call .init _ (by decide))) (by decide)
    (.tail (.single (.call _ pageCall (by decide) (by decide +kernel)))
      (.call _ pageCall (by decide) (by decide +kernel)))⟩

end XcKernel.Mm
