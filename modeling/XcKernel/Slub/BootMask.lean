import XcKernel.Slub.Runs
import XcKernel.Slub.Kmalloc
import XcKernel.Lib.Flags

/-!
# Interrupts at boot

The flags of a request on their way to `allocate_slab`, which enables interrupts
when `__GFP_WAIT` is left of them after `gfp_allowed_mask`.  The functions here are
those of `XcKernel.Slub.Basic` with the number of calls of `local_irq_enable` beside
the result.  The page allocator makes none: its `might_sleep_if` comes to
`__schedule`, whose body is commented out.
-/

namespace XcKernel.Slub

open Flags State

def gfpDma : BitVec 32 := 0x01
def gfpWait : BitVec 32 := 0x10
def gfpHigh : BitVec 32 := 0x20
def gfpIo : BitVec 32 := 0x40
def gfpFs : BitVec 32 := 0x80
def gfpNowarn : BitVec 32 := 0x200
def gfpRepeat : BitVec 32 := 0x400
def gfpNofail : BitVec 32 := 0x800
def gfpNoretry : BitVec 32 := 0x1000
def gfpZero : BitVec 32 := 0x8000
def gfpNomemalloc : BitVec 32 := 0x10000
def gfpHardwall : BitVec 32 := 0x20000
def gfpThisnode : BitVec 32 := 0x40000

/-- `__GFP_BITS_MASK`, with a `__GFP_BITS_SHIFT` of 24 -/
def gfpBitsMask : BitVec 32 := (1 <<< 24) - 1

def gfpKernel : BitVec 32 := gfpWait ||| gfpIo ||| gfpFs

def gfpReclaimMask : BitVec 32 :=
  gfpWait ||| gfpHigh ||| gfpIo ||| gfpFs ||| gfpNowarn ||| gfpRepeat ||| gfpNofail ||| gfpNoretry |||
    gfpNomemalloc

def gfpConstraintMask : BitVec 32 := gfpHardwall ||| gfpThisnode

/-- The operator `||` of C -/
def logicalOr (x y : BitVec 32) : BitVec 32 := if x ≠ 0 ∨ y ≠ 0 then 1 else 0

/-- `GFP_BOOT_MASK`, with the `||` before `__GFP_FS` -/
def gfpBootMask : BitVec 32 := gfpBitsMask &&& ~~~(logicalOr (gfpWait ||| gfpIo) gfpFs)

namespace Gfp

variable (allowed : BitVec 32) (s : Cache) (flags : BitVec 32)

def allocateSlab (st : State) (first second : Option Nat) : Nat × Option Nat × State :=
  let flags := flags &&& allowed
  (if test flags gfpWait then 1 else 0, Slub.allocateSlab s st first second)

def newSlab (st : State) (first second : Option Nat) : Nat × Option Nat × State :=
  ((allocateSlab allowed s (flags &&& (gfpReclaimMask ||| gfpConstraintMask)) st first second).1,
    Slub.newSlab s st first second)

/-- The label `new_slab` of `__slab_alloc` -/
def slabAllocNew (st : State) (first second : Option Nat) (fuel : Nat) : Option (Nat × Nat × State) :=
  match getPartialNode st with
  | none => none
  | some (some _, st) => some (0, loadFreelist st st.cpu.freelist)
  | some (none, st) =>
    match newSlab allowed s flags st first second with
    | (enables, none, st) => some (enables, 0, st)
    | (enables, some page, st) =>
      match if st.cpu.page.isSome then deactivateSlab s st fuel else some st with
      | none => none
      | some st =>
        let object := (st.pages page).freelist
        let st := st.modifyPage page fun p => { p with
          freelist := 0, counters := { p.counters with inuse := p.counters.objects.setWidth 16 } }
        let st := { st with cpu := { st.cpu with page := some page } }
        some (enables, loadFreelist st object)

/-- `__slab_alloc` -/
def slabAllocSlow (st : State) (first second : Option Nat) (fuel : Nat) : Option (Nat × Nat × State) :=
  let flags := clear flags gfpZero
  match st.cpu.page with
  | none => slabAllocNew allowed s flags st first second fuel
  | some page =>
    let object := (st.pages page).freelist
    let counters := (st.pages page).counters
    let new := { counters with inuse := counters.objects.setWidth 16, frozen := object ≠ 0 }
    match st.cmpxchgDoubleSlab page object counters 0 new with
    | (false, _) => none
    | (true, st) =>
      if object = 0 then
        slabAllocNew allowed s flags { st with cpu := { st.cpu with page := none } } first second fuel
      else some (0, loadFreelist st object)

def slabAlloc (st : State) (first second : Option Nat) (fuel : Nat) : Option (Nat × Nat × State) :=
  let object := st.cpu.freelist
  let taken := if object = 0 then slabAllocSlow allowed s flags st first second fuel
    else match st.cpuCmpxchgDouble object st.cpu.tid (st.getFreepointer object) (nextTid st.cpu.tid) with
      | (false, _) => none
      | (true, st) => some (0, object, st)
  taken.map fun (enables, object, st) =>
    (enables, object, if test flags gfpZero ∧ object ≠ 0 then zeroObject s st object else st)

def kmemCacheAlloc (st : State) (first second : Option Nat) (fuel : Nat) :
    Option (Nat × Nat × State) :=
  slabAlloc allowed s flags st first second fuel

end Gfp

section Results

variable (allowed : BitVec 32) (s : Cache) (flags : BitVec 32) (st : State) (first second : Option Nat)
  (fuel : Nat)

theorem Gfp.slabAllocNew_result :
    (Gfp.slabAllocNew allowed s flags st first second fuel).map Prod.snd =
      Slub.slabAllocNew s st first second fuel := by
  unfold Gfp.slabAllocNew Slub.slabAllocNew
  rcases getPartialNode st with _ | ⟨_ | page, st⟩
  · rfl
  · dsimp only [Gfp.newSlab]
    rcases Slub.newSlab s st first second with ⟨_ | page, st⟩
    · rfl
    · dsimp only
      cases (if st.cpu.page.isSome then deactivateSlab s st fuel else some st) <;> rfl
  · rfl

theorem Gfp.slabAllocSlow_result :
    (Gfp.slabAllocSlow allowed s flags st first second fuel).map Prod.snd =
      Slub.slabAllocSlow s st first second fuel := by
  unfold Gfp.slabAllocSlow Slub.slabAllocSlow
  cases st.cpu.page with
  | none => exact Gfp.slabAllocNew_result ..
  | some page =>
    dsimp only
    rw [cmpxchgDoubleSlab_self rfl]
    dsimp only
    split
    · exact Gfp.slabAllocNew_result ..
    · rfl

theorem Gfp.slabAlloc_result :
    (Gfp.slabAlloc allowed s flags st first second fuel).map Prod.snd =
      Slub.slabAlloc s st (test flags gfpZero) first second fuel := by
  unfold Gfp.slabAlloc Slub.slabAlloc takeObject
  dsimp only
  by_cases empty : st.cpu.freelist = 0
  · rw [if_pos empty, if_pos empty, ← Gfp.slabAllocSlow_result allowed s flags, Option.map_map,
      Option.map_map]
    rfl
  · rw [if_neg empty, if_neg empty, cpuCmpxchgDouble_self]
    rfl

end Results

/-- `__slab_alloc` comes to `new_slab`: neither the processor nor the partial list has a
free object. -/
structure Refills (st : State) : Prop where
  cpu : st.cpu.freelist = 0
  page : ∀ page, st.cpu.page = some page → (st.pages page).freelist = 0
  node : st.node.slabs = []

/-- What is left of `__GFP_WAIT` in `allocate_slab`. -/
def waits (allowed flags : BitVec 32) : Bool :=
  test ((clear flags gfpZero &&& (gfpReclaimMask ||| gfpConstraintMask)) &&& allowed) gfpWait

theorem waits_gfpBootMask (flags : BitVec 32) : waits gfpBootMask flags = test flags gfpWait := by
  have kept : ~~~gfpZero &&& (gfpReclaimMask ||| gfpConstraintMask) &&& gfpBootMask &&& gfpWait =
      gfpWait := by decide
  rw [waits, test, test, clear]
  simp only [BitVec.and_assoc] at kept ⊢
  rw [kept]

variable {allowed flags : BitVec 32} {s : Cache} {st : State} {first second : Option Nat}
  {fuel enables : Nat} {r : Nat × State}

theorem Gfp.slabAllocNew_enables (count : st.node.nrPartial = st.node.slabs.length)
    (returns : Gfp.slabAllocNew allowed s (clear flags gfpZero) st first second fuel =
      some (enables, r)) :
    enables = 0 ↔ waits allowed flags = false ∨ st.node.slabs ≠ [] := by
  unfold Gfp.slabAllocNew at returns
  by_cases none : st.node.nrPartial = 0
  · have empty : st.node.slabs = [] := by
      rw [count] at none
      exact List.length_eq_zero_iff.mp (by exact_mod_cast none)
    have partial' : getPartialNode st = some (Option.none, st) := by rw [getPartialNode, if_pos none]
    have asked : (Gfp.newSlab allowed s (clear flags gfpZero) st first second).1 =
        if waits allowed flags then 1 else 0 := rfl
    have reached : enables = (Gfp.newSlab allowed s (clear flags gfpZero) st first second).1 := by
      rw [partial'] at returns
      dsimp only at returns
      split at returns
      · rename_i made
        rw [made]
        cases returns
        rfl
      · rename_i made
        rw [made]
        split at returns
        · cases returns
        · cases returns
          rfl
    rw [reached, asked, empty]
    cases waits allowed flags <;> simp
  · have listed : st.node.slabs ≠ [] := by
      intro empty
      rw [empty] at count
      exact none count
    have found : enables = 0 := by
      unfold getPartialNode at returns
      rw [if_neg none] at returns
      obtain ⟨page, rest, slabs⟩ := List.exists_cons_of_ne_nil listed
      rw [slabs] at returns
      dsimp only at returns
      split at returns
      · cases returns
      · cases returns
        rfl
      · rename_i acquired
        split at acquired <;> cases acquired
    exact iff_of_true found (.inr listed)

theorem Gfp.slabAllocSlow_enables (count : st.node.nrPartial = st.node.slabs.length)
    (empty : st.cpu.freelist = 0)
    (returns : Gfp.slabAllocSlow allowed s flags st first second fuel = some (enables, r)) :
    enables = 0 ↔ waits allowed flags = false ∨ ¬ Refills st := by
  unfold Gfp.slabAllocSlow at returns
  cases cpu : st.cpu.page with
  | none =>
    rw [cpu] at returns
    rw [Gfp.slabAllocNew_enables count returns]
    refine or_congr_right (not_congr ⟨fun node => ⟨empty, by simp [cpu], node⟩, Refills.node⟩)
  | some page =>
    rw [cpu] at returns
    dsimp only at returns
    rw [cmpxchgDoubleSlab_self rfl] at returns
    dsimp only at returns
    by_cases full : (st.pages page).freelist = 0
    · rw [if_pos full] at returns
      rw [Gfp.slabAllocNew_enables (by exact count) returns]
      refine or_congr_right (not_congr ⟨fun node => ⟨empty, ?_, node⟩, Refills.node⟩)
      intro other here
      rw [cpu] at here
      cases here
      exact full
    · rw [if_neg full] at returns
      cases returns
      exact iff_of_true rfl (.inr fun refills => full (refills.page page cpu))

theorem Gfp.slabAlloc_enables (count : st.node.nrPartial = st.node.slabs.length)
    (returns : Gfp.slabAlloc allowed s flags st first second fuel = some (enables, r)) :
    enables = 0 ↔ waits allowed flags = false ∨ ¬ Refills st := by
  unfold Gfp.slabAlloc at returns
  obtain ⟨⟨enables', object, st'⟩, taken, eq⟩ := Option.map_eq_some_iff.mp returns
  cases eq
  by_cases empty : st.cpu.freelist = 0
  · rw [if_pos empty] at taken
    exact Gfp.slabAllocSlow_enables count empty taken
  · rw [if_neg empty, cpuCmpxchgDouble_self] at taken
    cases taken
    exact iff_of_true rfl (.inr fun refills => empty refills.cpu)

/-- The caches: those of `kmalloc`, which are found by their index, and others. -/
inductive CacheId where
  | kmalloc (index : Nat)
  | kmallocDma (index : Nat)
  | other (id : Nat)
  deriving DecidableEq, Repr

/-- A call for an object. -/
inductive Request where
  | slabAlloc (c : CacheId)
  | kmemCacheAlloc (c : CacheId)
  | kmalloc (constant : Bool) (size : BitVec 32)

/-- What `alloc_pages` returns to the two calls of `allocate_slab`, and `__get_free_pages`
for an order. -/
structure PageAnswers where
  first : Option Nat
  second : Option Nat
  large : Nat → Nat

/-- The cache whose `slab_alloc` a request comes to. -/
def Request.target (tables : KmallocTables) (flags : BitVec 32) : Request → Option CacheId
  | .slabAlloc c => some c
  | .kmemCacheAlloc c => some c
  | .kmalloc constant size =>
    match Slub.kmalloc constant tables size flags with
    | .cache index _ => some (.kmalloc index)
    | .dmaCache index _ => some (.kmallocDma index)
    | _ => none

/-- The request reads no cache from outside the tables. -/
def Request.Inside (tables : KmallocTables) (flags : BitVec 32) : Request → Prop
  | .kmalloc constant size => ∀ index, Slub.kmalloc constant tables size flags ≠ .outside index
  | _ => True

section Calls

variable (allowed : BitVec 32) (caches : CacheId → Cache) (flags : BitVec 32) (states : CacheId → State)
  (answers : PageAnswers) (fuel : Nat)

/-- `slab_alloc` on one of the caches -/
def callCache (c : CacheId) : Option (Nat × Nat × (CacheId → State)) :=
  (Gfp.slabAlloc allowed (caches c) flags (states c) answers.first answers.second fuel).map
    fun (enables, object, st) => (enables, object, Function.update states c st)

/-- The calls of `local_irq_enable`, the address and the caches afterwards. -/
def Request.call (tables : KmallocTables) : Request → Option (Nat × Nat × (CacheId → State))
  | .slabAlloc c => callCache allowed caches flags states answers fuel c
  | .kmemCacheAlloc c => callCache allowed caches flags states answers fuel c
  | .kmalloc constant size =>
    match Slub.kmalloc constant tables size flags with
    | .zeroSizePtr => some (0, 16, states)
    | .null => some (0, 0, states)
    | .cache index _ => callCache allowed caches flags states answers fuel (.kmalloc index)
    | .dmaCache index _ => callCache allowed caches flags states answers fuel (.kmallocDma index)
    | .pages order => some (0, answers.large order, states)
    | .outside _ => none

end Calls

/-- A request makes no call of `local_irq_enable` unless it comes to a `slab_alloc`. -/
theorem Request.call_eq (tables : KmallocTables) (req : Request) (inside : req.Inside tables flags)
    (allowed : BitVec 32) (fuel : Nat) (caches : CacheId → Cache) (states : CacheId → State)
    (answers : PageAnswers) :
    (∃ c, req.target tables flags = some c ∧
        req.call allowed caches flags states answers fuel tables =
          callCache allowed caches flags states answers fuel c) ∨
      req.target tables flags = none ∧ ∃ address,
        req.call allowed caches flags states answers fuel tables = some (0, address, states) := by
  cases req with
  | slabAlloc c => exact .inl ⟨c, rfl, rfl⟩
  | kmemCacheAlloc c => exact .inl ⟨c, rfl, rfl⟩
  | kmalloc constant size =>
    unfold Request.target Request.call
    dsimp only
    cases store : Slub.kmalloc constant tables size flags with
    | zeroSizePtr => exact .inr ⟨rfl, 16, rfl⟩
    | null => exact .inr ⟨rfl, 0, rfl⟩
    | cache index c => exact .inl ⟨_, rfl, rfl⟩
    | dmaCache index c => exact .inl ⟨_, rfl, rfl⟩
    | pages order => exact .inr ⟨rfl, answers.large order, rfl⟩
    | outside index => exact absurd store (inside index)

/-- Masking changes none of the low bits but `__GFP_WAIT`, `__GFP_IO` and `__GFP_FS`. -/
def MaskKeeps (allowed flags : BitVec 32) : Prop :=
  (flags &&& allowed) &&& (gfpBitsMask &&& ~~~gfpKernel) = flags &&& (gfpBitsMask &&& ~~~gfpKernel)

theorem maskKeeps_gfpBootMask (flags : BitVec 32) :
    MaskKeeps gfpBootMask flags ↔ test flags gfpDma = false := by
  have split : gfpBitsMask &&& ~~~gfpKernel =
      (gfpBootMask &&& (gfpBitsMask &&& ~~~gfpKernel)) ||| gfpDma := by decide
  have apart : (gfpBootMask &&& (gfpBitsMask &&& ~~~gfpKernel)) &&& gfpDma = 0 := by decide
  rw [MaskKeeps, BitVec.and_assoc, test, bne_eq_false_iff_eq]
  generalize gfpBootMask &&& (gfpBitsMask &&& ~~~gfpKernel) = kept at split apart ⊢
  rw [split, BitVec.and_or_distrib_left]
  constructor
  · intro same
    calc flags &&& gfpDma = ((flags &&& kept) ||| (flags &&& gfpDma)) &&& gfpDma := by
          rw [BitVec.and_or_distrib_right, BitVec.and_assoc flags kept, apart, BitVec.and_assoc flags,
            BitVec.and_self]
          simp
      _ = (flags &&& kept) &&& gfpDma := by rw [← same]
      _ = 0 := by
          rw [BitVec.and_assoc, apart]
          exact BitVec.and_zero
  · intro clear
    rw [clear]
    simp

/-- The state of every cache has come about in a run of its own. -/
structure Reached (caches : CacheId → Cache) (t : CacheId → Tracked) : Prop where
  valid : ∀ c, (caches c).Valid
  run : ∀ c, ∃ t₀, Opened (caches c) t₀ ∧ Relation.ReflTransGen (SlabStep (caches c)) t₀ (t c)

/-- While `gfp_allowed_mask` is `GFP_BOOT_MASK`, a request makes no call of `local_irq_enable`
and its flags lose nothing but `__GFP_WAIT`, `__GFP_IO` and `__GFP_FS` to the mask, if and only
if the flags have no `__GFP_DMA`, and no `__GFP_WAIT` unless the cache has a free object. -/
theorem boot_alloc_irqs_off_iff {caches : CacheId → Cache} {t : CacheId → Tracked}
    (reached : Reached caches t) (tables : KmallocTables) (req : Request) (flags : BitVec 32)
    (inside : req.Inside tables flags) (answers : PageAnswers)
    (fresh : ∀ c, req.target tables flags = some c →
      FreshPages (caches c) (t c).st answers.first answers.second) (fuel : Nat) :
    ∃ enables address states,
      req.call gfpBootMask caches flags (fun c => (t c).st) answers fuel tables =
        some (enables, address, states) ∧
      ((enables = 0 ∧ MaskKeeps gfpBootMask flags) ↔
        test flags gfpDma = false ∧
          (test flags gfpWait = false ∨ ∀ c, req.target tables flags = some c → ¬ Refills (t c).st)) := by
  rw [maskKeeps_gfpBootMask]
  rcases req.call_eq tables inside gfpBootMask fuel caches (fun c => (t c).st) answers with
    ⟨c, target, called⟩ | ⟨target, address, called⟩
  · obtain ⟨t₀, opened, run⟩ := reached.run c
    have inv := slabInv_of_run (reached.valid c) opened run
    obtain ⟨r, returns, -⟩ := slabAlloc_spec (reached.valid c) inv (test flags gfpZero)
      (fresh c target) fuel
    rw [← Gfp.slabAlloc_result gfpBootMask] at returns
    obtain ⟨⟨enables, r'⟩, returns, -⟩ := Option.map_eq_some_iff.mp returns
    obtain ⟨-, -, -, listed⟩ := inv
    have quiet := Gfp.slabAlloc_enables listed.count returns
    rw [called, callCache, returns]
    refine ⟨enables, r'.1, Function.update (fun c => (t c).st) c r'.2, rfl, ?_⟩
    rw [quiet, waits_gfpBootMask, target, and_comm]
    simp
  · refine ⟨0, address, _, called, ?_⟩
    simp [target]

/-- A request without `__GFP_WAIT` leaves interrupts off, even for a cache without slabs. -/
theorem boot_alloc_irqs_off_atomic : ∃ enables address states,
    Request.call gfpBootMask (fun _ => pairCache) gfpHigh (fun _ => pairStart)
      ⟨some 5, none, fun _ => 0⟩ 0 createdTables (.kmalloc false 2048) = some (enables, address, states) ∧
      enables = 0 ∧ MaskKeeps gfpBootMask gfpHigh := by
  have reached : Reached (fun _ => pairCache) fun _ => ⟨pairStart, []⟩ :=
    ⟨fun _ => pairCache_valid, fun _ => ⟨_, .empty pairStart pairStart_empty, .refl⟩⟩
  have inside : Request.Inside createdTables gfpHigh (.kmalloc false 2048) := by
    have store : Slub.kmalloc false createdTables 2048 gfpHigh = .cache 11 ⟨2048⟩ := by decide +kernel
    intro index
    rw [store]
    exact nofun
  obtain ⟨enables, address, states, called, iff⟩ := boot_alloc_irqs_off_iff reached createdTables
    (.kmalloc false 2048) gfpHigh inside ⟨some 5, none, fun _ => 0⟩
    (fun _ _ => ⟨fun _ _ => ⟨rfl, nofun⟩, nofun⟩) 0
  exact ⟨enables, address, states, called, iff.mpr ⟨by decide, .inl (by decide)⟩⟩

/-- `GFP_KERNEL` enables interrupts, and `__GFP_DMA` is lost. -/
theorem boot_alloc_enables_irqs : Opened pairCache ⟨pairStart, []⟩ ∧
    (Gfp.slabAlloc gfpBootMask pairCache gfpKernel pairStart (some 5) none 0).map Prod.fst = some 1 ∧
      ¬ MaskKeeps gfpBootMask gfpDma := by
  refine ⟨.empty pairStart pairStart_empty, by decide +kernel, fun keeps => ?_⟩
  have lost := (maskKeeps_gfpBootMask gfpDma).mp keeps
  revert lost
  decide

end XcKernel.Slub
