import XcKernel.Page
import Mathlib.Data.BitVec
import Mathlib.Tactic.Common

/-!
# Size classes of `kmalloc`

Which store a request of `size` bytes is served from.  A `size` that the compiler
knows goes through the tests of `kmalloc_index`, any other through the table and
the bit scan of `get_slab`.  `size_t` is a signed word here, but `PAGE_SIZE` is
not, so that a request is compared with `SLUB_MAX_SIZE` as an unsigned word and
with the sizes of `kmalloc_index` as a signed one.
-/

namespace XcKernel.Slub

/-- The loop of `get_order` -/
def getOrderLoop (size : Nat) (order : Int) : Int :=
  if size >>> 1 ≠ 0 then getOrderLoop (size >>> 1) (order + 1) else order + 1
termination_by size
decreasing_by
  rename_i more
  rw [Nat.shiftRight_one] at more ⊢
  omega

def getOrder (size : BitVec 32) : Int := getOrderLoop ((size - 1).toNat >>> (12 - 1)) (-1)

theorem getOrderLoop_eq (size : Nat) (order : Int) :
    getOrderLoop size order = order + 1 + Nat.log2 size := by
  fun_induction getOrderLoop size order with
  | case1 size order more ih =>
    rw [Nat.shiftRight_one] at more
    rw [ih, Nat.shiftRight_one, Nat.log2_def size, if_pos (by omega)]
    push_cast
    omega
  | case2 size order done =>
    rw [Nat.shiftRight_one, ne_eq, not_not] at done
    rw [Nat.log2_def, if_neg (by omega)]
    simp

theorem toNat_sub_one {size : BitVec 32} (pos : size ≠ 0) : (size - 1).toNat = size.toNat - 1 := by
  have : size.toNat ≠ 0 := fun h => pos (BitVec.eq_of_toNat_eq h)
  have := size.isLt
  rw [BitVec.toNat_sub]
  change (2 ^ 32 - 1 + size.toNat) % 2 ^ 32 = size.toNat - 1
  omega

theorem le_getOrder {size : BitVec 32} (pos : size ≠ 0) :
    size.toNat ≤ pageSize <<< (getOrder size).toNat := by
  have one := toNat_sub_one pos
  have order : (getOrder size).toNat = Nat.log2 ((size.toNat - 1) / 2 ^ 11) := by
    rw [getOrder, getOrderLoop_eq, one, Nat.shiftRight_eq_div_pow]
    simp
  have below : (size.toNat - 1) / 2 ^ 11 < 2 ^ ((size.toNat - 1) / 2 ^ 11).log2.succ :=
    Nat.lt_log2_self
  rw [Nat.div_lt_iff_lt_mul (by decide), Nat.pow_succ] at below
  rw [order, Nat.shiftLeft_eq, pageSize]
  omega

/-- What is read of a `struct kmem_cache`. -/
structure KmallocCache where
  objsize : Nat
  deriving DecidableEq, Repr

def kmallocMinSize : Nat := 8

def kmallocShiftLow : Nat := 3

def slubMaxSize : Nat := 2 * pageSize

def slubPageShift : Nat := 12 + 2

def slubDma : BitVec 32 := 0x01

def sizeIndexElem (bytes : Int) : Int := (bytes - 1).tdiv 8

/-- `size_index`, `kmalloc_caches` and `kmalloc_dma_caches` -/
structure KmallocTables where
  sizeIndex : List Nat
  kmallocCaches : List (Option KmallocCache)
  kmallocDmaCaches : List (Option KmallocCache)
  deriving DecidableEq, Repr

/-- The tables before `kmem_cache_init`. -/
def staticTables : KmallocTables where
  sizeIndex := [3, 4, 5, 5, 6, 6, 6, 6, 1, 1, 1, 1, 7, 7, 7, 7, 2, 2, 2, 2, 2, 2, 2, 2]
  kmallocCaches := List.replicate slubPageShift none
  kmallocDmaCaches := List.replicate slubPageShift none

/-- The loops of `kmem_cache_init` over `size_index`. -/
def adjustSizeIndex (sizeIndex : List Nat) : List Nat :=
  let set (value : Nat) (t : List Nat) (i : Nat) := t.set (sizeIndexElem i).toNat value
  let low := (List.range' 8 ((kmallocMinSize - 8 + 7) / 8) 8).takeWhile
    fun i : Nat => (sizeIndexElem i).toNat < sizeIndex.length
  let sizeIndex := low.foldl (set kmallocShiftLow) sizeIndex
  if kmallocMinSize = 64 then (List.range' (64 + 8) 4 8).foldl (set 7) sizeIndex
  else if kmallocMinSize = 128 then (List.range' (128 + 8) 8 8).foldl (set 8) sizeIndex
  else sizeIndex

/-- `create_kmalloc_cache`: `opens` says whether `kmem_cache_open` succeeds for the
size, and `none` is the panic when it does not. -/
def createKmallocCache (opens : Nat → Bool) (size : Nat) : Option KmallocCache :=
  if opens size then some ⟨size⟩ else none

/-- `kmalloc_caches[i] = create_kmalloc_cache(.., size, 0)` -/
def fillCaches (opens : Nat → Bool) (caches : List (Option KmallocCache)) (i size : Nat) :
    Option (List (Option KmallocCache)) :=
  (createKmallocCache opens size).map fun s => caches.set i (some s)

/-- The part of `kmem_cache_init` that makes the caches of `kmalloc`; the loop over
`kmalloc_dma_caches` is commented out. -/
def kmemCacheInit (opens : Nat → Bool) : Option KmallocTables := do
  let sizeIndex := adjustSizeIndex staticTables.sizeIndex
  let caches := staticTables.kmallocCaches
  let caches ← if kmallocMinSize ≤ 32 then fillCaches opens caches 1 96 else pure caches
  let caches ← if kmallocMinSize ≤ 64 then fillCaches opens caches 2 192 else pure caches
  let caches ← (List.range' kmallocShiftLow (slubPageShift - kmallocShiftLow)).foldlM
    (fun caches i => fillCaches opens caches i (1 <<< i)) caches
  return { staticTables with sizeIndex := sizeIndex, kmallocCaches := caches }

/-- The tables that `kmem_cache_init` leaves. -/
def createdTables : KmallocTables :=
  { staticTables with
    kmallocCaches := [none, some ⟨96⟩, some ⟨192⟩, some ⟨8⟩, some ⟨16⟩, some ⟨32⟩, some ⟨64⟩,
      some ⟨128⟩, some ⟨256⟩, some ⟨512⟩, some ⟨1024⟩, some ⟨2048⟩, some ⟨4096⟩, some ⟨8192⟩] }

/-- What a request is served from. -/
inductive Store where
  | zeroSizePtr
  | null
  | cache (index : Nat) (s : KmallocCache)
  | dmaCache (index : Nat) (s : KmallocCache)
  | pages (order : Nat)
  /-- the array is read at an index it does not have -/
  | outside (index : Int)
  deriving DecidableEq, Repr

/-- `caches[index]` -/
def readCaches (store : Nat → KmallocCache → Store) (caches : List (Option KmallocCache))
    (index : Int) : Store :=
  if index < 0 then .outside index
  else match caches[index.toNat]? with
    | none => .outside index
    | some none => .null
    | some (some s) => store index.toNat s

def kmallocLarge (size : BitVec 32) : Store := .pages (getOrder size).toNat

def kmallocIndex (size : Int) : Int :=
  if size = 0 then 0
  else if size ≤ kmallocMinSize then kmallocShiftLow
  else if kmallocMinSize ≤ 32 ∧ size > 64 ∧ size ≤ 96 then 1
  else if kmallocMinSize ≤ 64 ∧ size > 128 ∧ size ≤ 192 then 2
  else if size ≤ 8 then 3
  else if size ≤ 16 then 4
  else if size ≤ 32 then 5
  else if size ≤ 64 then 6
  else if size ≤ 128 then 7
  else if size ≤ 256 then 8
  else if size ≤ 512 then 9
  else if size ≤ 1024 then 10
  else if size ≤ 2 * 1024 then 11
  else if size ≤ 4 * 1024 then 12
  else -1

def kmallocSlab (t : KmallocTables) (size : BitVec 32) : Store :=
  let index := kmallocIndex size.toInt
  if index = 0 then .null else readCaches .cache t.kmallocCaches index

def fls (x : BitVec 32) : Nat := if x = 0 then 0 else x.toNat.log2 + 1

/-- The cache of `get_slab` at an index. -/
def pickCache (t : KmallocTables) (flags : BitVec 32) (index : Int) : Store :=
  if flags &&& slubDma ≠ 0 then readCaches .dmaCache t.kmallocDmaCaches index
  else readCaches .cache t.kmallocCaches index

def getSlab (t : KmallocTables) (size flags : BitVec 32) : Store :=
  if size.toInt ≤ 192 then
    if size = 0 then .zeroSizePtr
    else match t.sizeIndex[(sizeIndexElem size.toInt).toNat]? with
      | none => .outside (sizeIndexElem size.toInt)
      | some index => pickCache t flags index
  else pickCache t flags (fls (size - 1))

/-- `__kmalloc`; what is `ZERO_OR_NULL_PTR` is returned as it is. -/
def kmallocOutOfLine (t : KmallocTables) (size flags : BitVec 32) : Store :=
  if size.toNat > slubMaxSize then kmallocLarge size else getSlab t size flags

/-- `kmalloc`; `constant` is `__builtin_constant_p(size)`. -/
def kmalloc (constant : Bool) (t : KmallocTables) (size flags : BitVec 32) : Store :=
  if constant ∧ size.toNat > slubMaxSize then kmallocLarge size
  else if constant ∧ flags &&& slubDma = 0 then
    match kmallocSlab t size with
    | .null => .zeroSizePtr
    | store => store
  else kmallocOutOfLine t size flags

/-- The store was made by `kmem_cache_init` or comes from the page allocator, and
the request fits. -/
def Store.Serves (t : KmallocTables) (size : Nat) : Store → Prop
  | zeroSizePtr => size = 0
  | cache index s => t.kmallocCaches[index]? = some (some s) ∧ size ≤ s.objsize
  | dmaCache index s => t.kmallocDmaCaches[index]? = some (some s) ∧ size ≤ s.objsize
  | pages order => size ≤ pageSize <<< order
  | null | outside _ => False

/-- Both paths take the same store, and it serves the request. -/
structure PathsAgree (t : KmallocTables) (size flags : BitVec 32) : Prop where
  same : kmalloc true t size flags = kmallocOutOfLine t size flags
  serves : (kmallocOutOfLine t size flags).Serves t size.toNat

variable {opens : Nat → Bool} {t : KmallocTables} {caches caches' : List (Option KmallocCache)}

theorem fillCaches_eq {i size : Nat} (h : fillCaches opens caches i size = some caches') :
    caches' = caches.set i (some ⟨size⟩) := by
  obtain ⟨s, created, rfl⟩ := Option.map_eq_some_iff.mp h
  unfold createKmallocCache at created
  split at created
  · rw [← Option.some.inj created]
  · cases created

theorem fillAll_eq (is : List Nat)
    (h : is.foldlM (fun caches i => fillCaches opens caches i (1 <<< i)) caches = some caches') :
    caches' = is.foldl (fun caches i => caches.set i (some ⟨1 <<< i⟩)) caches := by
  induction is generalizing caches with
  | nil => exact (Option.some.inj h).symm
  | cons i is ih =>
    rw [List.foldlM_cons, Option.bind_eq_bind, Option.bind_eq_some_iff] at h
    obtain ⟨caches₁, first, rest⟩ := h
    rw [List.foldl_cons, ← fillCaches_eq first]
    exact ih rest

theorem kmemCacheInit_eq (init : kmemCacheInit opens = some t) : t = createdTables := by
  have small : kmallocMinSize ≤ 32 := by decide
  simp only [kmemCacheInit, small, (show kmallocMinSize ≤ 64 by decide), if_true,
    Option.bind_eq_bind, Option.bind_eq_some_iff] at init
  obtain ⟨caches₁, h₁, caches₂, h₂, caches₃, h₃, result⟩ := init
  rw [← Option.some.inj result, fillAll_eq _ h₃, fillCaches_eq h₂, fillCaches_eq h₁]
  decide

theorem fls_sub_one {size : BitVec 32} {k : Nat} (low : 2 ^ k < size.toNat)
    (high : size.toNat ≤ 2 ^ (k + 1)) : fls (size - 1) = k + 1 := by
  have pos : size ≠ 0 := by
    rintro rfl
    exact Nat.not_lt_zero _ low
  have one := toNat_sub_one pos
  have two := Nat.two_pow_pos k
  have nonzero : size - 1 ≠ 0 := by
    intro zero
    rw [zero] at one
    change 0 = size.toNat - 1 at one
    omega
  have log : (size.toNat - 1).log2 = k :=
    (Nat.log2_eq_iff (by omega)).mpr ⟨by omega, by omega⟩
  rw [fls, if_neg nonzero, one, log]

theorem sizeIndex_eq : ∀ n < 193, 0 < n →
    (createdTables.sizeIndex[(sizeIndexElem (n : Nat)).toNat]?).map Int.ofNat =
      some (kmallocIndex n) := by
  decide +kernel

theorem exists_class {n : Nat} (low : 192 < n) (high : n ≤ 4096) :
    ∃ k : Nat, 2 ^ k < n ∧ n ≤ 2 ^ (k + 1) ∧ kmallocIndex n = (k + 1 : Nat) := by
  have min : kmallocMinSize = 8 := rfl
  fun_cases kmallocIndex n
  case case10 => exact ⟨7, by omega, by omega, rfl⟩
  case case11 => exact ⟨8, by omega, by omega, rfl⟩
  case case12 => exact ⟨9, by omega, by omega, rfl⟩
  case case13 => exact ⟨10, by omega, by omega, rfl⟩
  case case14 => exact ⟨11, by omega, by omega, rfl⟩
  all_goals omega

variable {size flags : BitVec 32}

theorem toInt_eq (small : size.toNat ≤ slubMaxSize) : size.toInt = size.toNat :=
  BitVec.toInt_eq_toNat_of_lt (by simp only [slubMaxSize, pageSize] at small; omega)

theorem getSlab_eq (pos : size ≠ 0) (small : size.toNat ≤ pageSize) :
    getSlab createdTables size flags =
      pickCache createdTables flags (kmallocIndex size.toNat) := by
  have nonzero : size.toNat ≠ 0 := fun h => pos (BitVec.eq_of_toNat_eq h)
  rw [pageSize] at small
  rw [getSlab, toInt_eq (by simp only [slubMaxSize, pageSize]; omega)]
  by_cases table : size.toNat ≤ 192
  · rw [if_pos (by omega), if_neg pos]
    obtain ⟨index, read, same⟩ := Option.map_eq_some_iff.mp
      (sizeIndex_eq size.toNat (by omega) (by omega))
    rw [read, ← same]
    rfl
  · obtain ⟨k, low, high, index⟩ := exists_class (by omega) small
    rw [if_neg (by omega), fls_sub_one low high, index]

theorem kmallocIndex_cache {n : Nat} (pos : n ≠ 0) (small : n ≤ pageSize) :
    ∃ index objsize, kmallocIndex n = (index : Nat) ∧ index ≠ 0 ∧
      createdTables.kmallocCaches[index]? = some (some ⟨objsize⟩) ∧ n ≤ objsize := by
  rw [pageSize] at small
  have min : kmallocMinSize = 8 := rfl
  fun_cases kmallocIndex n
  case case2 => exact ⟨3, 8, rfl, by decide, rfl, by omega⟩
  case case3 => exact ⟨1, 96, rfl, by decide, rfl, by omega⟩
  case case4 => exact ⟨2, 192, rfl, by decide, rfl, by omega⟩
  case case5 => exact ⟨3, 8, rfl, by decide, rfl, by omega⟩
  case case6 => exact ⟨4, 16, rfl, by decide, rfl, by omega⟩
  case case7 => exact ⟨5, 32, rfl, by decide, rfl, by omega⟩
  case case8 => exact ⟨6, 64, rfl, by decide, rfl, by omega⟩
  case case9 => exact ⟨7, 128, rfl, by decide, rfl, by omega⟩
  case case10 => exact ⟨8, 256, rfl, by decide, rfl, by omega⟩
  case case11 => exact ⟨9, 512, rfl, by decide, rfl, by omega⟩
  case case12 => exact ⟨10, 1024, rfl, by decide, rfl, by omega⟩
  case case13 => exact ⟨11, 2048, rfl, by decide, rfl, by omega⟩
  case case14 => exact ⟨12, 4096, rfl, by decide, rfl, by omega⟩
  all_goals omega

theorem kmallocIndex_above {n : Nat} (large : pageSize < n) : kmallocIndex n = -1 := by
  rw [pageSize] at large
  have min : kmallocMinSize = 8 := rfl
  fun_cases kmallocIndex n
  case case15 => rfl
  all_goals omega

theorem readCaches_of_some {store : Nat → KmallocCache → Store} {index : Nat} {s : KmallocCache}
    (read : caches[index]? = some (some s)) : readCaches store caches index = store index s := by
  rw [readCaches, if_neg (by omega), Int.toNat_natCast, read]

theorem kmalloc_of_small (small : size.toNat ≤ slubMaxSize) (normal : flags &&& slubDma = 0) :
    kmalloc true t size flags = match kmallocSlab t size with
      | .null => .zeroSizePtr
      | store => store := by
  rw [kmalloc, if_neg (by simp only [not_and]; omega), if_pos ⟨rfl, normal⟩]

theorem pathsAgree_zero : PathsAgree createdTables 0 flags := by
  have table : kmallocOutOfLine createdTables 0 flags = .zeroSizePtr := rfl
  refine ⟨?_, by rw [table]; rfl⟩
  rw [table]
  by_cases normal : flags &&& slubDma = 0
  · rw [kmalloc_of_small (by decide) normal]
    rfl
  · rw [kmalloc, if_neg (by decide), if_neg (fun h => normal h.2), table]

theorem pathsAgree_large (large : slubMaxSize < size.toNat) : PathsAgree t size flags := by
  have pos : size ≠ 0 := by
    rintro rfl
    exact Nat.not_lt_zero _ large
  have pages : kmallocOutOfLine t size flags = kmallocLarge size := if_pos large
  refine ⟨?_, ?_⟩
  · rw [pages, kmalloc, if_pos ⟨rfl, large⟩]
  · rw [pages]
    exact le_getOrder pos

theorem pathsAgree_small (pos : size ≠ 0) (small : size.toNat ≤ pageSize)
    (normal : flags &&& slubDma = 0) : PathsAgree createdTables size flags := by
  have nonzero : size.toNat ≠ 0 := fun h => pos (BitVec.eq_of_toNat_eq h)
  have below : size.toNat ≤ slubMaxSize := by simp only [slubMaxSize]; omega
  obtain ⟨index, objsize, chosen, used, created, fits⟩ := kmallocIndex_cache nonzero small
  have table : kmallocOutOfLine createdTables size flags = .cache index ⟨objsize⟩ := by
    rw [kmallocOutOfLine, if_neg (by omega), getSlab_eq pos small, chosen, pickCache,
      if_neg (by simp [normal]), readCaches_of_some created]
  have tests : kmallocSlab createdTables size = .cache index ⟨objsize⟩ := by
    rw [kmallocSlab, toInt_eq below, chosen, if_neg (by omega), readCaches_of_some created]
  refine ⟨?_, ?_⟩
  · rw [table, kmalloc_of_small below normal, tests]
  · rw [table]
    exact ⟨created, fits⟩

theorem pickCache_dma (dma : flags &&& slubDma ≠ 0) (index : Int) :
    pickCache createdTables flags index = .null ∨
      pickCache createdTables flags index = .outside index := by
  rw [pickCache, if_pos dma, readCaches]
  split_ifs
  · exact .inr rfl
  · have empty : createdTables.kmallocDmaCaches = List.replicate slubPageShift none := rfl
    rw [empty, List.getElem?_replicate]
    split_ifs
    · exact .inl rfl
    · exact .inr rfl

theorem not_serves_dma (pos : size ≠ 0) (small : size.toNat ≤ slubMaxSize)
    (dma : flags &&& slubDma ≠ 0) :
    ¬ (kmallocOutOfLine createdTables size flags).Serves createdTables size.toNat := by
  have none : ∀ index, ¬ (pickCache createdTables flags index).Serves createdTables size.toNat := by
    intro index
    rcases pickCache_dma dma index with h | h <;> rw [h] <;> exact id
  rw [kmallocOutOfLine, if_neg (by omega), getSlab, if_neg pos]
  split_ifs
  · split
    · exact id
    · exact none _
  · exact none _

theorem kmalloc_above_page (large : pageSize < size.toNat) (small : size.toNat ≤ slubMaxSize)
    (normal : flags &&& slubDma = 0) :
    kmalloc true createdTables size flags = .outside (-1) := by
  rw [kmalloc_of_small small normal, kmallocSlab, toInt_eq small, kmallocIndex_above large]
  rfl

/-- The paths of `kmalloc` agree on a store that serves the request exactly when
the request is empty, is for more than two pages, or is for at most one page and
not for DMA. -/
theorem kmalloc_paths_agree_iff (init : kmemCacheInit opens = some t) (size flags : BitVec 32) :
    PathsAgree t size flags ↔
      size = 0 ∨ slubMaxSize < size.toNat ∨ size.toNat ≤ pageSize ∧ flags &&& slubDma = 0 := by
  obtain rfl := kmemCacheInit_eq init
  constructor
  · intro agree
    by_contra! other
    obtain ⟨pos, small, page⟩ := other
    by_cases normal : flags &&& slubDma = 0
    · have large : pageSize < size.toNat := by
        by_contra! le
        exact page le normal
      have serves := agree.serves
      rw [← agree.same, kmalloc_above_page large small normal] at serves
      exact serves
    · exact not_serves_dma pos small normal agree.serves
  · rintro (rfl | large | ⟨small, normal⟩)
    · exact pathsAgree_zero
    · exact pathsAgree_large large
    · by_cases pos : size = 0
      · rw [pos]
        exact pathsAgree_zero
      · exact pathsAgree_small pos small normal

/-- A request of 100 bytes goes to the cache of 128 on both paths. -/
theorem kmalloc_paths_agree_hundred :
    kmemCacheInit (fun _ => true) = some createdTables ∧
      kmalloc true createdTables 100 0 = .cache 7 ⟨128⟩ ∧ PathsAgree createdTables 100 0 := by
  have init : kmemCacheInit (fun _ => true) = some createdTables := by decide
  refine ⟨init, by decide, (kmalloc_paths_agree_iff init 100 0).mpr (.inr (.inr ?_))⟩
  decide

/-- A request of 5000 bytes: the tests read `kmalloc_caches[-1]`, the table takes the
cache of 8192. -/
theorem kmalloc_paths_differ :
    kmemCacheInit (fun _ => true) = some createdTables ∧
      kmalloc true createdTables 5000 0 = .outside (-1) ∧
      kmallocOutOfLine createdTables 5000 0 = .cache 13 ⟨8192⟩ ∧ ¬ PathsAgree createdTables 5000 0 := by
  refine ⟨by decide, by decide, by decide +kernel, fun agree => ?_⟩
  have same := agree.same
  revert same
  decide +kernel

end XcKernel.Slub
