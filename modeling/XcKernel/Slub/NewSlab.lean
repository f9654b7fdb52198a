import XcKernel.Lib.Bytes
import XcKernel.Paging.Basic
import XcKernel.Slub.AllocSpec
import XcKernel.Slub.Geometry

/-!
# New slabs in memory

`new_slab` on the bytes of memory: the free pointer of an object is the word at
`s->offset` in it, so that the list it builds is stored in the objects themselves.
Addresses are words of the machine.  A constructor is a function on memory.
-/

namespace XcKernel.Slub

namespace KmemCache

variable (s : KmemCache)

def getFreepointer (m : Bytes) (object : BitVec 32) : BitVec 32 := m.loadWord (object + s.offset).toNat

def setFreepointer (m : Bytes) (object fp : BitVec 32) : Bytes :=
  m.storeWord (object + s.offset).toNat fp

/-- `allocate_slab`: the results of the two calls of `alloc_pages` are given, and the
word that the number of objects comes from is returned with the page. -/
def allocateSlab (first second : Option Nat) : Option (Nat × BitVec 32) :=
  match first with
  | some page => some (page, s.oo)
  | none => second.map (·, s.min)

variable (ctor : Bytes → BitVec 32 → Bytes)

def setupObject (m : Bytes) (object : BitVec 32) : Bytes := if s.ctor ≠ 0 then ctor m object else m

/-- The loop of `new_slab`.  `bound` is the end of `for_each_object`, and `fuel` bounds
the number of rounds. -/
def linkLoop (bound : BitVec 32) (m : Bytes) (last p : BitVec 32) :
    (fuel : Nat) → Option (Bytes × BitVec 32)
  | 0 => none
  | fuel + 1 =>
    if p < bound then
      let m := s.setupObject ctor m last
      let m := s.setFreepointer m last p
      linkLoop bound m p (p + s.size) fuel
    else some (m, last)

end KmemCache

/-- What `new_slab` writes to `struct page`, the cache and the flag aside. -/
structure SlabHead where
  freelist : BitVec 32
  counters : Counters
  deriving DecidableEq, Repr

def poisonInuse : BitVec 8 := 0x5a

/-- `new_slab`; `compoundOrder` is `compound_order(page)`. -/
def KmemCache.newSlab (s : KmemCache) (ctor : Bytes → BitVec 32 → Bytes) (compoundOrder : Nat) (m : Bytes)
    (first second : Option Nat) (fuel : Nat) : Option (Option (Nat × SlabHead) × Bytes) :=
  match s.allocateSlab first second with
  | none => some (none, m)
  | some (page, oo) =>
    let objects : BitVec 15 := (ooObjects oo).setWidth 15
    let start := BitVec.ofNat 32 (pageAddress page)
    let m := if s.flags &&& slabPoison ≠ 0 then
        m.fill start.toNat poisonInuse (pageSize <<< compoundOrder)
      else m
    match s.linkLoop ctor (start + objects.setWidth 32 * s.size) m start start fuel with
    | none => none
    | some (m, last) =>
      let m := s.setupObject ctor m last
      let m := s.setFreepointer m last 0
      some (some (page, ⟨start, ⟨0, objects, true⟩⟩), m)

/-- The address of an object of the slab at a page. -/
def KmemCache.object (s : KmemCache) (page i : Nat) : BitVec 32 :=
  BitVec.ofNat 32 (pageAddress page + i * s.size.toNat)

/-- A constructor leaves the free pointers of the `n` objects alone. -/
def CtorKeeps (s : KmemCache) (ctor : Bytes → BitVec 32 → Bytes) (page n : Nat) : Prop :=
  ∀ m, ∀ i < n, ∀ j < n,
    s.getFreepointer (ctor m (s.object page i)) (s.object page j) = s.getFreepointer m (s.object page j)

/-- The objects lie below the end of the address space, on words. -/
structure Placed (s : KmemCache) (page n : Nat) : Prop where
  stride : s.size.toNat % 4 = 0
  word : s.offset.toNat % 4 = 0
  positive : 0 < s.size.toNat
  room : pageAddress page + n * s.size.toNat < 2 ^ 32

namespace Placed

variable {s : KmemCache} {page n i j : Nat} {m : Bytes} {v : BitVec 32}

theorem toNat_object (placed : Placed s page n) (le : i ≤ n) :
    (s.object page i).toNat = pageAddress page + i * s.size.toNat := by
  have below : i * s.size.toNat ≤ n * s.size.toNat := Nat.mul_le_mul_right _ le
  have room := placed.room
  rw [KmemCache.object, BitVec.toNat_ofNat]
  exact Nat.mod_eq_of_lt (by omega)

theorem object_inj (placed : Placed s page n) (hi : i ≤ n) (hj : j ≤ n)
    (same : s.object page i = s.object page j) : i = j := by
  have address := congrArg BitVec.toNat same
  rw [placed.toNat_object hi, placed.toNat_object hj] at address
  exact Nat.eq_of_mul_eq_mul_right placed.positive (Nat.add_left_cancel address)

theorem object_ne_zero (placed : Placed s page n) (le : i ≤ n) : s.object page i ≠ 0 := by
  intro zero
  have address := congrArg BitVec.toNat zero
  rw [placed.toNat_object le, pageAddress, pageOffset] at address
  exact absurd address (by simp)

theorem object_succ : s.object page i + s.size = s.object page (i + 1) := by
  apply BitVec.eq_of_toNat_eq
  rw [KmemCache.object, KmemCache.object, BitVec.toNat_add, BitVec.toNat_ofNat, BitVec.toNat_ofNat,
    Nat.mod_add_mod, Nat.succ_mul, Nat.add_assoc]

theorem link_mod_four (placed : Placed s page n) (le : i ≤ n) :
    (s.object page i + s.offset).toNat % 4 = 0 := by
  have aligned : i * s.size.toNat % 4 = 0 := by
    rw [Nat.mul_mod, placed.stride, Nat.mul_zero]
  have word := placed.word
  rw [BitVec.toNat_add, placed.toNat_object le, pageAddress, pageOffset, pageSize]
  omega

theorem getFreepointer_set_self : s.getFreepointer (s.setFreepointer m (s.object page i) v)
    (s.object page i) = v := Bytes.loadWord_storeWord

theorem getFreepointer_set_of_ne (placed : Placed s page n) (hi : i ≤ n) (hj : j ≤ n) (ne : i ≠ j) :
    s.getFreepointer (s.setFreepointer m (s.object page i) v) (s.object page j) =
      s.getFreepointer m (s.object page j) := by
  have apart : (s.object page i + s.offset).toNat ≠ (s.object page j + s.offset).toNat := by
    intro same
    have same' := BitVec.eq_of_toNat_eq same
    exact ne (placed.object_inj hi hj (add_right_cancel same'))
  have mod_i := placed.link_mod_four hi
  have mod_j := placed.link_mod_four hj
  exact Bytes.loadWord_storeWord_of_not (by omega)

end Placed

section Loop

variable {s : KmemCache} {ctor : Bytes → BitVec 32 → Bytes} {page n : Nat} {m : Bytes}

theorem getFreepointer_setupObject (keeps : CtorKeeps s ctor page n) {i j : Nat} (hi : i < n)
    (hj : j < n) : s.getFreepointer (s.setupObject ctor m (s.object page i)) (s.object page j) =
      s.getFreepointer m (s.object page j) := by
  unfold KmemCache.setupObject
  split
  · exact keeps m i hi j hj
  · rfl

/-- The first `k` objects are linked to the ones behind them. -/
def LinkedTo (s : KmemCache) (m : Bytes) (page k : Nat) : Prop :=
  ∀ i < k, s.getFreepointer m (s.object page i) = s.object page (i + 1)

theorem LinkedTo.round (placed : Placed s page n) (keeps : CtorKeeps s ctor page n) {k : Nat}
    (lt : k < n) (linked : LinkedTo s m page k) :
    LinkedTo s (s.setFreepointer (s.setupObject ctor m (s.object page k)) (s.object page k)
      (s.object page (k + 1))) page (k + 1) := by
  intro i hi
  by_cases here : i = k
  · subst here
    exact Placed.getFreepointer_set_self
  · rw [placed.getFreepointer_set_of_ne lt.le (by omega) (Ne.symm here),
      getFreepointer_setupObject keeps lt (by omega)]
    exact linked i (by omega)

theorem linkLoop_linked (placed : Placed s page n) (keeps : CtorKeeps s ctor page n) (k d fuel : Nat)
    (count : n = k + d + 1) (enough : d < fuel) (linked : LinkedTo s m page k) :
    ∃ m', s.linkLoop ctor (s.object page n) m (s.object page k) (s.object page (k + 1)) fuel =
      some (m', s.object page (k + d)) ∧ LinkedTo s m' page (k + d) := by
  induction d generalizing k m fuel with
  | zero =>
    obtain ⟨fuel, rfl⟩ := Nat.exists_eq_add_of_lt enough
    have done : ¬ s.object page (k + 1) < s.object page n := by
      rw [count, BitVec.lt_def]
      exact Nat.lt_irrefl _
    refine ⟨m, ?_, linked⟩
    rw [KmemCache.linkLoop, if_neg done, Nat.add_zero]
  | succ d ih =>
    obtain ⟨fuel, rfl⟩ : ∃ rest, fuel = rest + 1 := ⟨fuel - 1, by omega⟩
    have more : s.object page (k + 1) < s.object page n := by
      rw [BitVec.lt_def, placed.toNat_object (by omega), placed.toNat_object (Nat.le_refl n)]
      exact Nat.add_lt_add_left (Nat.mul_lt_mul_of_pos_right (by omega) placed.positive) _
    have next := linked.round placed keeps (by omega)
    obtain ⟨m', returns, linked'⟩ := ih (k + 1) fuel (by omega) (by omega) next
    refine ⟨m', ?_, ?_⟩
    · rw [KmemCache.linkLoop, if_pos more]
      dsimp only
      rw [Placed.object_succ, returns, show k + 1 + d = k + (d + 1) by omega]
    · rw [show k + (d + 1) = k + 1 + d by omega]
      exact linked'

/-- The first round links the first object to itself, which the second one undoes. -/
theorem linkLoop_start (placed : Placed s page n) (keeps : CtorKeeps s ctor page n) (some' : 0 < n)
    {fuel : Nat} (enough : n < fuel) :
    ∃ m', s.linkLoop ctor (s.object page n) m (s.object page 0) (s.object page 0) fuel =
      some (m', s.object page (n - 1)) ∧ LinkedTo s m' page (n - 1) := by
  obtain ⟨fuel, rfl⟩ : ∃ rest, fuel = rest + 1 := ⟨fuel - 1, by omega⟩
  have more : s.object page 0 < s.object page n := by
    rw [BitVec.lt_def, placed.toNat_object (Nat.zero_le n), placed.toNat_object (Nat.le_refl n)]
    exact Nat.add_lt_add_left (Nat.mul_lt_mul_of_pos_right some' placed.positive) _
  have nothing : ∀ m', LinkedTo s m' page 0 := fun m' i hi => absurd hi (Nat.not_lt_zero i)
  obtain ⟨m', returns, linked⟩ := linkLoop_linked placed keeps 0 (n - 1) fuel
    (by omega) (by omega) (nothing (s.setFreepointer (s.setupObject ctor m (s.object page 0))
      (s.object page 0) (s.object page 0)))
  have last : 0 + (n - 1) = n - 1 := Nat.zero_add _
  rw [last] at returns linked
  refine ⟨m', ?_, linked⟩
  rw [KmemCache.linkLoop, if_pos more]
  dsimp only
  rw [Placed.object_succ, returns]

end Loop

/-- A slab of `n` objects whose free list has all of them. -/
structure CompleteSlab (s : KmemCache) (m : Bytes) (page order n : Nat) (head : SlabHead) : Prop where
  start : head.freelist.toNat = pageAddress page
  counters : head.counters.inuse = 0 ∧ head.counters.frozen = true ∧ head.counters.objects.toNat = n
  objects : 1 ≤ n
  address : ∀ i < n, (s.object page i).toNat = pageAddress page + i * s.size.toNat
  chain : Chain 0 (s.getFreepointer m) head.freelist ((List.range n).map (s.object page))
  disjoint : ∀ i < n, ∀ j < n, i ≠ j →
    (s.object page i).toNat + s.size.toNat ≤ (s.object page j).toNat ∨
      (s.object page j).toNat + s.size.toNat ≤ (s.object page i).toNat
  inside : ∀ i < n, pageAddress page ≤ (s.object page i).toNat ∧
    (s.object page i).toNat + s.size.toNat ≤ pageAddress page + pageSize <<< order

section Slab

variable {s : KmemCache} {page order n : Nat} {oo : BitVec 32}

theorem allocateSlab_cases {first second : Option Nat}
    (obtained : s.allocateSlab first second = some (page, oo)) :
    first = some page ∧ oo = s.oo ∨ first = none ∧ second = some page ∧ oo = s.min := by
  unfold KmemCache.allocateSlab at obtained
  cases first with
  | some page' =>
    cases obtained
    exact .inl ⟨rfl, rfl⟩
  | none =>
    obtain ⟨page', here, eq⟩ := Option.map_eq_some_iff.mp obtained
    cases eq
    exact .inr ⟨rfl, here, rfl⟩

theorem Layout.packed (layout : Layout s) {first second : Option Nat}
    (obtained : s.allocateSlab first second = some (page, oo)) : ∃ order, Packed oo order s.size := by
  rcases allocateSlab_cases obtained with ⟨-, rfl⟩ | ⟨-, -, rfl⟩
  · exact layout.oo
  · exact layout.min

theorem Packed.placed (packed : Packed oo order s.size) (layout : Layout s)
    (low : (page + 2 ^ order) * pageSize ≤ Mm.maxmem) : Placed s page (ooObjects oo).toNat := by
  refine ⟨layout.stride, layout.word, packed.size_pos, ?_⟩
  have limit : pageOffset + Mm.maxmem < 2 ^ 32 := by decide
  have fits := packed.fits
  rw [Nat.shiftLeft_eq, Nat.mul_comm pageSize] at fits
  rw [Nat.add_mul] at low
  rw [pageAddress]
  omega

theorem bound_eq {objects : BitVec 15} (count : objects.toNat = n) :
    BitVec.ofNat 32 (pageAddress page) + objects.setWidth 32 * s.size = s.object page n := by
  have number : (objects.setWidth 32).toNat = n := by
    rw [BitVec.toNat_setWidth, ← count]
    exact Nat.mod_eq_of_lt (objects.isLt.trans (by decide))
  apply BitVec.eq_of_toNat_eq
  rw [KmemCache.object, BitVec.toNat_add, BitVec.toNat_mul, number, BitVec.toNat_ofNat,
    BitVec.toNat_ofNat, ← Nat.add_mod]

theorem object_zero : s.object page 0 = BitVec.ofNat 32 (pageAddress page) := by
  rw [KmemCache.object, Nat.zero_mul, Nat.add_zero]

/-- The rest of `new_slab` ends the list. -/
theorem complete_of_linked {ctor : Bytes → BitVec 32 → Bytes} {m : Bytes} {objects : BitVec 15}
    (placed : Placed s page n) (keeps : CtorKeeps s ctor page n) (some' : 1 ≤ n)
    (count : objects.toNat = n) (fits : n * s.size.toNat ≤ pageSize <<< order)
    (linked : LinkedTo s m page (n - 1)) :
    CompleteSlab s (s.setFreepointer (s.setupObject ctor m (s.object page (n - 1)))
      (s.object page (n - 1)) 0) page order n ⟨s.object page 0, ⟨0, objects, true⟩⟩ := by
  have address : ∀ i < n, (s.object page i).toNat = pageAddress page + i * s.size.toNat :=
    fun i lt => placed.toNat_object lt.le
  have below : ∀ {i j : Nat}, i < j → (i + 1) * s.size.toNat ≤ j * s.size.toNat := fun lt =>
    Nat.mul_le_mul_right _ lt
  refine ⟨?_, ⟨rfl, rfl, count⟩, some', address, ?_, fun i hi j hj ne => ?_, fun i hi => ?_⟩
  · rw [placed.toNat_object (Nat.zero_le n), Nat.zero_mul, Nat.add_zero]
  · have chain := @Chain.of_links _ 0 (s.getFreepointer (s.setFreepointer
        (s.setupObject ctor m (s.object page (n - 1))) (s.object page (n - 1)) 0))
      (s.object page) (n - 1) 0 (fun i _ hi => ?_) ?_ (fun i _ hi => placed.object_ne_zero (by omega))
    · rw [Nat.sub_add_cancel some', ← List.range_eq_range'] at chain
      exact chain
    · rw [placed.getFreepointer_set_of_ne (by omega) (by omega) (by omega),
        getFreepointer_setupObject keeps (by omega) (by omega)]
      exact linked i (by omega)
    · rw [Nat.zero_add]
      exact Placed.getFreepointer_set_self
  · rw [address i hi, address j hj]
    rcases Nat.lt_or_gt_of_ne ne with lt | lt
    · have := below lt
      rw [Nat.succ_mul] at this
      omega
    · have := below lt
      rw [Nat.succ_mul] at this
      omega
  · have := below hi
    rw [Nat.succ_mul] at this
    rw [address i hi]
    omega

end Slab

/-- For every descriptor that `calculate_sizes` accepts and every page of low memory that
`allocate_slab` comes up with, `new_slab` returns, and the free list of the slab has each of
its objects once, in order of their addresses. -/
theorem new_slab_complete {objsize align' flags ctorPtr : BitVec 32} {ret : Nat} {s : KmemCache}
    (accepted : calculateSizes (openedCache objsize align' flags ctorPtr) (-1) = some (ret, s))
    (succeeded : ret ≠ 0) {first second : Option Nat} {page : Nat} {oo : BitVec 32}
    (obtained : s.allocateSlab first second = some (page, oo))
    (low : (page + 2 ^ (ooOrder oo).toNat) * pageSize ≤ Mm.maxmem)
    (ctor : Bytes → BitVec 32 → Bytes) (keeps : CtorKeeps s ctor page (ooObjects oo).toNat)
    (compoundOrder : Nat) (m : Bytes) {fuel : Nat} (enough : (ooObjects oo).toNat < fuel) :
    (oo = s.oo ∨ oo = s.min) ∧ ∃ head m',
      s.newSlab ctor compoundOrder m first second fuel = some (some (page, head), m') ∧
      CompleteSlab s m' page (ooOrder oo).toNat (ooObjects oo).toNat head := by
  have layout := calculateSizes_layout accepted succeeded
  obtain ⟨order, packed⟩ := layout.packed obtained
  have which : oo = s.oo ∨ oo = s.min :=
    (allocateSlab_cases obtained).imp And.right fun h => h.2.2
  rw [packed.unpacked] at low ⊢
  have placed := packed.placed layout low
  have count : ((ooObjects oo).setWidth 15).toNat = (ooObjects oo).toNat := by
    rw [BitVec.toNat_setWidth]
    exact Nat.mod_eq_of_lt packed.valid.2.1
  refine ⟨which, ?_⟩
  unfold KmemCache.newSlab
  rw [obtained]
  dsimp only
  rw [bound_eq count, ← object_zero (s := s)]
  obtain ⟨m₁, returns, linked⟩ := linkLoop_start
    (m := if s.flags &&& slabPoison ≠ 0 then
      m.fill (s.object page 0).toNat poisonInuse (pageSize <<< compoundOrder) else m)
    placed keeps packed.one_le enough
  rw [returns]
  exact ⟨_, _, rfl, complete_of_linked placed keeps packed.one_le count packed.fits linked⟩

/-- A slab of objects that are poisoned and on cache lines of their own. -/
theorem new_slab_complete_poisoned : ∃ s head m',
    calculateSizes (openedCache 100 64 0x2800 0) (-1) = some (1, s) ∧
      s.newSlab (fun m _ => m) 0 (fun _ => 0) (some 5) none 4096 = some (some (5, head), m') ∧
      CompleteSlab s m' 5 0 32 head := by
  have values : (calculateSizes (openedCache 100 64 0x2800 0) (-1)).map
      (fun r => (r.1, (ooOrder r.2.oo).toNat, (ooObjects r.2.oo).toNat)) = some (1, 0, 32) := by
    decide +kernel
  obtain ⟨⟨ret, s⟩, returns, eq⟩ := Option.map_eq_some_iff.mp values
  rw [Prod.mk.injEq, Prod.mk.injEq] at eq
  obtain ⟨one, order, objects⟩ := eq
  dsimp only at one order objects
  rw [one] at returns
  obtain ⟨-, head, m', made, complete⟩ := @new_slab_complete 100 64 0x2800 0 1 s returns one_ne_zero
    (some 5) none 5 s.oo rfl (by rw [order]; decide) (fun m _ => m) (fun _ _ _ _ _ => rfl) 0
    (fun _ => 0) 4096 (by rw [objects]; decide)
  rw [order, objects] at complete
  exact ⟨s, head, m', returns, made, complete⟩

section Refines

variable {s : KmemCache} {first second : Option Nat} {page order n : Nat} {oo : BitVec 32} {m : Bytes}
  {head : SlabHead}

theorem CompleteSlab.links (complete : CompleteSlab s m page order n head) {i : Nat} (lt : i < n) :
    (s.getFreepointer m (s.object page i)).toNat =
      if i + 1 < n then pageAddress page + (i + 1) * s.size.toNat else 0 := by
  have next := complete.chain.next_getElem (i := i) (by simpa using lt)
  rw [List.getElem_map, List.getElem_range] at next
  rw [next]
  by_cases more : i + 1 < n
  · rw [if_pos more, List.getElem?_map, List.getElem?_range more]
    exact complete.address (i + 1) more
  · rw [if_neg more, List.getElem?_eq_none (by simpa using more)]
    rfl

/-- `new_slab` in memory does what `newSlab` does to the free pointers of a state. -/
theorem CompleteSlab.refines (layout : Layout s) (minPartial : Nat) (st : State)
    (obtained : s.allocateSlab first second = some (page, oo))
    (complete : CompleteSlab s m page order (ooObjects oo).toNat head) :
    ∃ st', newSlab (s.cache minPartial) st first second = (some page, st') ∧
      (st'.pages page).freelist = head.freelist.toNat ∧ (st'.pages page).counters = head.counters ∧
      ∀ i < (ooObjects oo).toNat, st'.freePointer (s.object page i).toNat =
        (s.getFreepointer m (s.object page i)).toNat := by
  have valid := layout.valid minPartial
  obtain ⟨order', packed⟩ := layout.packed obtained
  set start := pageAddress page with hstart
  set st₀ := st.modifyPage page fun p => { p with
    order := (ooOrder oo).toNat
    counters := { p.counters with objects := BitVec.ofNat 15 (ooObjects oo).toNat } } with hst₀
  set r := (List.range (st₀.pages page).counters.objects.toNat).foldl
    (linkObjects (s.cache minPartial) start) (st₀, start) with hr
  have made : newSlab (s.cache minPartial) st first second = (some page,
      (r.1.setFreepointer r.2 0).modifyPage page fun p =>
        { p with freelist := start, live := true, counters := ⟨0, p.counters.objects, true⟩ }) := by
    rcases allocateSlab_cases obtained with ⟨rfl, rfl⟩ | ⟨rfl, rfl, rfl⟩
    · rfl
    · rfl
  have number : (st₀.pages page).counters.objects = BitVec.ofNat 15 (ooObjects oo).toNat := by
    simp [hst₀, State.modifyPage]
  have count : (BitVec.ofNat 15 (ooObjects oo).toNat).toNat = (ooObjects oo).toNat := by
    rw [BitVec.toNat_ofNat]
    exact Nat.mod_eq_of_lt packed.valid.2.1
  obtain ⟨k, hk⟩ := Nat.exists_eq_succ_of_ne_zero (Nat.ne_of_gt packed.one_le)
  have linked := linkObjects_linked valid st₀ start k
  rw [number, count, hk] at hr
  rw [← hr] at linked
  obtain ⟨last, links, -, same⟩ := linked
  have pages : r.1.pages = st₀.pages := by
    rw [← same]
  refine ⟨_, made, ?_, ?_, fun i lt => ?_⟩
  · rw [State.modifyPage_pages, Function.update_self, complete.start]
  · obtain ⟨inuse, frozen, objects⟩ := complete.counters
    rw [State.modifyPage_pages, Function.update_self, State.setFreepointer_pages, pages, number]
    rw [← count] at objects
    rw [← BitVec.eq_of_toNat_eq objects, ← inuse, ← frozen]
  · rw [complete.links lt, complete.address i lt]
    change Function.update r.1.freePointer r.2 0 (start + i * (s.cache minPartial).size) = _
    rw [last]
    by_cases more : i + 1 < (ooObjects oo).toNat
    · have ne : start + i * (s.cache minPartial).size ≠ start + k * (s.cache minPartial).size := by
        intro eq
        have := Nat.eq_of_mul_eq_mul_right valid.size (Nat.add_left_cancel eq)
        omega
      rw [if_pos more, Function.update_of_ne ne, links i (by omega)]
      rfl
    · obtain rfl : i = k := by omega
      rw [if_neg more, Function.update_self]

end Refines

end XcKernel.Slub
