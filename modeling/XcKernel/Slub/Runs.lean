import XcKernel.Slub.AllocSpec
import XcKernel.Lib.Run

/-!
# Runs of a cache

A run allocates objects, frees objects that are allocated and flushes the page
of the processor, in any order; the page allocator may fail at any call, and
what it comes up with lies apart from the slabs there are.  Between calls the
callers write to their objects, and the pages that are not slabs have other
users.
-/

namespace XcKernel.Slub

open State

/-- A cache with the objects that callers have. -/
structure Tracked where
  st : State
  allocated : List Nat

/-- What others may change: not the cache, not its slabs, not its free objects. -/
structure Uses (s : Cache) (allocated : List Nat) (st st' : State) : Prop where
  cpu : st'.cpu = st.cpu
  node : st'.node = st.node
  live : ∀ p, (st'.pages p).live = (st.pages p).live
  pages : ∀ p, (st.pages p).live = true → st'.pages p = st.pages p
  free : ∀ p, (st.pages p).live = true → ∀ o ∈ objectsOf s st.pages p, o ∉ allocated →
    st'.freePointer o = st.freePointer o

/-- One step of a run. -/
inductive SlabStep (s : Cache) : Tracked → Tracked → Prop where
  | alloc (t : Tracked) (zero : Bool) (first second : Option Nat) (fuel : Nat) (r : Nat × State)
      (fresh : FreshPages s t.st first second)
      (returns : slabAlloc s t.st zero first second fuel = some r) :
      SlabStep s t ⟨r.2, if r.1 = 0 then t.allocated else r.1 :: t.allocated⟩
  | free (t : Tracked) (page x : Nat) (st' : State) (live : (t.st.pages page).live = true)
      (inside : x ∈ objectsOf s t.st.pages page) (out : x ∈ t.allocated)
      (returns : slabFree s t.st page x = some st') : SlabStep s t ⟨st', t.allocated.erase x⟩
  | flush (t : Tracked) (fuel : Nat) (st' : State)
      (returns : deactivateSlab s t.st fuel = some st') : SlabStep s t ⟨st', t.allocated⟩
  | use (t : Tracked) (st' : State) (uses : Uses s t.allocated t.st st') :
      SlabStep s t ⟨st', t.allocated⟩

/-- A cache without slabs. -/
structure EmptyCache (st : State) : Prop where
  live : ∀ p, (st.pages p).live = false
  freelist : st.cpu.freelist = 0
  page : st.cpu.page = none
  node : st.node = ⟨0, []⟩

/-- How a cache may start: empty, or as the cache of nodes does, whose first slab
holds two objects at least. -/
inductive Opened (s : Cache) : Tracked → Prop where
  | empty (st : State) (empty : EmptyCache st) : Opened s ⟨st, []⟩
  | early (st : State) (empty : EmptyCache st) (first second : Option Nat) (r : Nat × State)
      (fresh : FreshPages s st first second) (several : 2 ≤ s.oo.objects ∧ 2 ≤ s.min.objects)
      (returns : earlyKmemCacheNodeAlloc s st first second = some r) : Opened s ⟨r.2, [r.1]⟩

variable {s : Cache} {st : State} {allocated : List Nat}

theorem EmptyCache.owned (empty : EmptyCache st) :
    Owned s st.freePointer st.pages [] none 0 [] fun _ => [] := by
  have dead : ∀ {p}, ¬ (st.pages p).live = true := fun {p} live => by
    rw [empty.live p] at live
    cases live
  exact ⟨rfl, fun live => (dead live).elim, fun live => (dead live).elim, fun live => (dead live).elim,
    by simp, by simp, by simp, fun live => (dead live).elim, fun live => (dead live).elim,
    fun live => (dead live).elim⟩

theorem EmptyCache.inv (empty : EmptyCache st) : SlabInv s st [] := by
  refine ⟨[], fun _ => [], ?_, ?_⟩
  · rw [empty.page, empty.freelist]
    exact empty.owned
  · rw [empty.page, empty.node]
    refine ⟨fun {p} live => ?_, fun p => by simp [empty.live p], .nil, rfl⟩
    rw [empty.live p] at live
    cases live

theorem NewSlab.early (valid : s.Valid) {page : Nat} {st' : State} (new : NewSlab s st st' page)
    (empty : EmptyCache st) (several : 2 ≤ s.oo.objects ∧ 2 ≤ s.min.objects) :
    SlabInv s (({ st'.modifyPage page fun p => { p with
        freelist := st'.getFreepointer (st'.pages page).freelist
        counters := { p.counters with inuse := p.counters.inuse + 1, frozen := false } } with
      node := ⟨0, []⟩ } : State).addPartial page false) [(st'.pages page).freelist] := by
  have owned := new.owned (empty.owned (s := s))
  set n := (st'.pages page).freelist with hn
  set objects := objectsOf s st'.pages page with hobjects
  have number : 2 ≤ objects.length := by
    rw [length_objectsOf]
    rcases new.objects with eq | eq
    · rw [eq]
      exact several.1
    · rw [eq]
      exact several.2
  have notNull : n ≠ 0 := by
    rw [hn, new.start, pageAddress, pageOffset]
    omega
  have chain := owned.chain new.live
  rw [Function.update_self, ← hn] at chain
  obtain ⟨rest, split, links⟩ := chain.eq_cons notNull
  have length := congrArg List.length split
  rw [List.length_cons] at length
  have inside : n ∈ objects := by
    rw [split]
    exact List.mem_cons_self
  have next : st'.freePointer n ≠ 0 := by
    rw [Ne, Chain.null_iff links]
    rintro rfl
    rw [List.length_nil] at length
    omega
  set last : SlabPage := { st'.pages page with
    freelist := st'.freePointer n
    counters := ⟨(st'.pages page).counters.inuse + 1, (st'.pages page).counters.objects, false⟩ } with hlast
  have moved : Owned s st'.freePointer (Function.update st'.pages page last) [n] none 0 []
      (Function.update (Function.update (fun _ => []) page objects) page rest) := by
    refine owned.setPage new.live new.live rfl rfl rfl links (fun _ _ _ _ => rfl) (fun o member => ?_)
      (fun o outside => ?_) (fun o on => ?_) (by simp) (fun o out => ?_) (by simp) ?_ valid
    · have once := owned.once new.live o member
      rw [Function.update_self, split, List.count_cons] at once
      simp only [List.count_nil, List.count_cons] at once ⊢
      omega
    · have ne : n ≠ o := by
        rintro rfl
        exact outside inside
      simp [ne]
    · rw [← hobjects, split]
      exact List.mem_cons_of_mem n on
    · rw [List.mem_singleton] at out
      exact ⟨page, new.live, out ▸ inside⟩
    · have inuse := owned.inuse new.live
      have one : (1 : BitVec 16).toNat = 1 := rfl
      rw [Function.update_self, ← length_objectsOf (s := s), ← hobjects] at inuse
      rw [hlast, ← length_objectsOf (s := s), ← hobjects, BitVec.toNat_add, one]
      omega
  have pages : (st'.modifyPage page fun p => { p with
      freelist := st'.getFreepointer n
      counters := { p.counters with inuse := p.counters.inuse + 1, frozen := false } }).pages =
      Function.update st'.pages page last := by
    rw [modifyPage_pages]
    rfl
  have whole : Function.update st'.pages page last = Function.update st.pages page last := by
    funext q
    by_cases eq : q = page
    · rw [eq, Function.update_self, Function.update_self]
    · rw [Function.update_of_ne eq, Function.update_of_ne eq, new.pages q eq]
  refine ⟨[], Function.update (Function.update (fun _ => []) page objects) page rest, ?_, ?_⟩
  · show Owned s st'.freePointer _ [n] st'.cpu.page st'.cpu.freelist [] _
    rw [new.cpu, empty.page, empty.freelist]
    rw [← pages] at moved
    exact moved
  · obtain ⟨-, -, -, listed⟩ := empty.inv (s := s)
    show Listed _ st'.cpu.page _
    rw [empty.page, empty.node] at listed
    rw [new.cpu, empty.page]
    have added : Listed (Function.update st.pages page last) none _ :=
      listed.addPage (fun _ _ => Iff.rfl) (by simp) false new.live rfl next (by simp)
    rw [← whole, ← pages] at added
    exact added

theorem Opened.inv (valid : s.Valid) {t : Tracked} (opened : Opened s t) :
    SlabInv s t.st t.allocated := by
  cases opened with
  | empty st empty => exact empty.inv
  | early st empty first second r fresh several returns =>
    unfold earlyKmemCacheNodeAlloc at returns
    rcases newSlab_spec valid fresh with failed | ⟨page, st', made, new⟩
    · rw [failed] at returns
      cases returns
    · rw [made] at returns
      obtain rfl := Option.some.inj returns
      exact new.early valid empty several

theorem SlabInv.uses (inv : SlabInv s st allocated) {st' : State} (uses : Uses s allocated st st') :
    SlabInv s st' allocated := by
  obtain ⟨loose, held, owned, listed⟩ := inv
  have live : ∀ {p}, (st'.pages p).live = true → (st.pages p).live = true := fun {p} here => by
    rwa [← uses.live p]
  have same : ∀ {p}, (st'.pages p).live = true → st'.pages p = st.pages p := fun here =>
    uses.pages _ (live here)
  have objects : ∀ {p}, (st.pages p).live = true → objectsOf s st'.pages p = objectsOf s st.pages p :=
    fun {p} here => objectsOf_congr (by rw [uses.pages p here])
  have lived : ∀ {p}, (st.pages p).live = true → (st'.pages p).live = true := fun {p} here => by
    rwa [uses.live p]
  refine ⟨loose, held, ⟨?_, fun {p} here => ?_, fun {p} here o inside => ?_, fun {p} here o on => ?_,
    fun o on => ?_, fun o out => ?_, fun {p} here => ?_, fun {p} here => ?_, fun {p} here => ?_,
    fun {p q} here there => ?_⟩, ⟨fun {p} here => ?_, fun p => ?_, ?_, ?_⟩⟩
  · rw [uses.cpu]
    refine owned.looseChain.congr fun o on => ?_
    obtain ⟨p, here, inside⟩ := owned.ofHome o on
    exact uses.free p (owned.homeLive here) o inside (owned.not_allocated_of_loose on)
  · rw [same here]
    refine (owned.chain (live here)).congr fun o on => ?_
    exact uses.free p (live here) o (owned.ofPage (live here) o on)
      (owned.not_allocated (live here) on).1
  · rw [objects (live here)] at inside
    exact owned.once (live here) o inside
  · rw [objects (live here)]
    exact owned.ofPage (live here) o on
  · obtain ⟨p, here, inside⟩ := owned.ofHome o on
    exact ⟨p, by rw [uses.cpu]; exact here, by rwa [objects (owned.homeLive here)]⟩
  · obtain ⟨p, here, inside⟩ := owned.ofLive o out
    exact ⟨p, lived here, by rwa [objects here]⟩
  · rw [uses.cpu] at here
    exact lived (owned.homeLive here)
  · rw [same here]
    exact owned.inuse (live here)
  · rw [same here]
    exact owned.room (live here)
  · rw [same here, same there]
    exact owned.apart (live here) (live there)
  · rw [same here, uses.cpu]
    exact listed.frozen (live here)
  · rw [uses.node, listed.member]
    by_cases here : (st.pages p).live = true
    · rw [uses.pages p here]
    · simp [here, uses.live p]
  · rw [uses.node]
    exact listed.nodup
  · rw [uses.node]
    exact listed.count

theorem SlabInv.step (valid : s.Valid) {t t' : Tracked} (inv : SlabInv s t.st t.allocated)
    (step : SlabStep s t t') : Outcome s t.st t'.st t'.allocated := by
  cases step with
  | alloc zero first second fuel r fresh returns =>
    obtain ⟨r', returns', allocates⟩ := slabAlloc_spec valid inv zero fresh fuel
    obtain rfl := Option.some.inj (returns'.symm.trans returns)
    rcases allocates with ⟨null, outcome⟩ | ⟨notNull, -, outcome⟩
    · rw [if_pos null]
      exact outcome
    · rw [if_neg notNull]
      exact outcome
  | free page x st' live inside out returns =>
    obtain ⟨st'', returns', outcome⟩ := slabFree_spec valid inv live inside out
    obtain rfl := Option.some.inj (returns'.symm.trans returns)
    exact outcome
  | flush fuel st' returns => exact deactivateSlab_outcome valid inv returns
  | use st' uses =>
    refine .of_live (inv.uses uses) fun q live => ?_
    rwa [uses.live q]

theorem slabInv_of_run (valid : s.Valid) {t₀ t : Tracked} (opened : Opened s t₀)
    (run : Relation.ReflTransGen (SlabStep s) t₀ t) : SlabInv s t.st t.allocated :=
  invariant_of_run (fun t => SlabInv s t.st t.allocated)
    (fun _ _ inv step => (inv.step valid step).inv) (opened.inv valid) run

/-- `PAGE_BUDDY_MAPCOUNT_VALUE`, as the word that `_mapcount` shares with the counters -/
def pageBuddyMapcountValue : BitVec 32 := -128

/-- What is always true of the objects and the slabs of a cache. -/
structure Conserved (s : Cache) (t : Tracked) : Prop where
  /-- Each object is in one place, and the use count of its page tells how many are away. -/
  objects : ∃ (loose : List Nat) (held : Nat → List Nat), Chain 0 t.st.freePointer t.st.cpu.freelist loose ∧
    ∀ p, (t.st.pages p).live = true →
      Chain 0 t.st.freePointer (t.st.pages p).freelist (held p) ∧
      (∀ o ∈ objectsOf s t.st.pages p, t.allocated.count o + loose.count o + (held p).count o = 1) ∧
      (t.st.pages p).counters.inuse.toNat =
        (t.st.pages p).counters.objects.toNat - (held p).length ∧
      (held p).length ≤ (t.st.pages p).counters.objects.toNat
  allocated : ∀ o ∈ t.allocated, ∃ p, (t.st.pages p).live = true ∧ o ∈ objectsOf s t.st.pages p
  frozen : ∀ p, (t.st.pages p).live = true →
    ((t.st.pages p).counters.frozen = true ↔ t.st.cpu.page = some p)
  listed : ∀ p, p ∈ t.st.node.slabs ↔ (t.st.pages p).live = true ∧
    (t.st.pages p).counters.frozen = false ∧ (t.st.pages p).freelist ≠ 0
  nodup : t.st.node.slabs.Nodup
  nrPartial : t.st.node.nrPartial = t.st.node.slabs.length
  notBuddy : ∀ p, (t.st.pages p).live = true →
    (t.st.pages p).counters.word ≠ pageBuddyMapcountValue

theorem Counters.word_ne {c : Counters} (le : c.inuse.toNat ≤ c.objects.toNat) :
    c.word ≠ pageBuddyMapcountValue := by
  intro eq
  have low : BitVec.setWidth 16 c.word = c.inuse :=
    BitVec.setWidth_append_eq_right (a := BitVec.ofBool c.frozen ++ c.objects) (b := c.inuse)
  rw [eq] at low
  have bound := c.objects.isLt
  have value : (BitVec.setWidth 16 pageBuddyMapcountValue).toNat = 65408 := by decide
  rw [← low, value] at le
  omega

theorem SlabInv.conserved {t : Tracked} (inv : SlabInv s t.st t.allocated) : Conserved s t := by
  obtain ⟨loose, held, owned, listed⟩ := inv
  refine ⟨⟨loose, held, owned.looseChain, fun p live => ⟨owned.chain live, owned.once live, ?_, ?_⟩⟩,
    owned.ofLive, fun p live => listed.frozen live, listed.member, listed.nodup, listed.count,
    fun p live => Counters.word_ne ?_⟩
  · have := owned.inuse live
    omega
  · have := owned.inuse live
    omega
  · have := owned.inuse live
    omega

/-- What the next call does. -/
structure NextCall (s : Cache) (t : Tracked) : Prop where
  /-- An allocation returns nothing or an object that no caller had. -/
  alloc : ∀ zero first second fuel, FreshPages s t.st first second →
    ∃ r, slabAlloc s t.st zero first second fuel = some r ∧
      (r.1 = 0 ∨ r.1 ∉ t.allocated ∧ ∃ p, (r.2.pages p).live = true ∧ r.1 ∈ objectsOf s r.2.pages p)
  free : ∀ page x, (t.st.pages page).live = true → x ∈ objectsOf s t.st.pages page →
    x ∈ t.allocated → ∃ st', slabFree s t.st page x = some st'
  flush : ∀ page, t.st.cpu.page = some page → ∃ fuel st', deactivateSlab s t.st fuel = some st'
  /-- A slab is given up only when all its objects are free. -/
  discard : ∀ t', SlabStep s t t' → ∀ p, (t.st.pages p).live = true →
    (t'.st.pages p).live = false → ∀ o ∈ objectsOf s t.st.pages p, o ∉ t'.allocated

theorem SlabInv.nextCall (valid : s.Valid) {t : Tracked} (inv : SlabInv s t.st t.allocated) :
    NextCall s t := by
  refine ⟨fun zero first second fuel fresh => ?_, fun page x live inside out => ?_, fun page here => ?_,
    fun t' step => (inv.step valid step).discarded⟩
  · obtain ⟨r, returns, allocates⟩ := slabAlloc_spec valid inv zero fresh fuel
    refine ⟨r, returns, ?_⟩
    rcases allocates with ⟨null, -⟩ | ⟨-, new, ⟨loose, held, owned, -⟩, -⟩
    · exact .inl null
    · exact .inr ⟨new, owned.ofLive r.1 List.mem_cons_self⟩
  · obtain ⟨st', returns, -⟩ := slabFree_spec valid inv live inside out
    exact ⟨st', returns⟩
  · obtain ⟨fuel, st', returns, -⟩ := deactivateSlab_spec valid inv here
    exact ⟨fuel, st', returns⟩

/-- In every state of every run each object is in one place, the counters, flags
and lists of the slabs are right, and the next call returns and hands out only
what is free. -/
theorem slab_runs (valid : s.Valid) {t₀ t : Tracked} (opened : Opened s t₀)
    (run : Relation.ReflTransGen (SlabStep s) t₀ t) : Conserved s t ∧ NextCall s t := by
  have inv := slabInv_of_run valid opened run
  exact ⟨inv.conserved, inv.nextCall valid⟩

theorem pairCache_valid : pairCache.Valid := ⟨by decide, by decide, by decide⟩

def pairStart : State :=
  ⟨fun _ => 0, fun _ => ⟨0, ⟨0, 0, false⟩, 0, false⟩, ⟨0, 0, none⟩, ⟨0, []⟩⟩

theorem pairStart_empty : EmptyCache pairStart := ⟨fun _ => rfl, rfl, rfl, rfl⟩

/-- Page 5 becomes a slab and one of its objects is taken. -/
def pairFirst : Option (Nat × State) := slabAlloc pairCache pairStart false (some 5) none 0

/-- The other one is taken. -/
def pairSecond : Option (Nat × State) :=
  pairFirst.bind fun r => slabAlloc pairCache r.2 true none none 0

theorem pair_taken : ∃ r, pairSecond = some r ∧ r.2.cpu = ⟨0, 2, some 5⟩ ∧
    (r.2.pages 5).live = true ∧ pageAddress 5 ∈ objectsOf pairCache r.2.pages 5 ∧
    Relation.ReflTransGen (SlabStep pairCache) ⟨pairStart, []⟩
      ⟨r.2, [pageAddress 5 + 2048, pageAddress 5]⟩ := by
  obtain ⟨r₁, h₁, o₁⟩ : ∃ r, pairFirst = some r ∧ r.1 = pageAddress 5 :=
    ⟨_, Option.eq_some_of_isSome (by decide +kernel), by decide +kernel⟩
  obtain ⟨r₂, h₂, o₂, cpu, live, inside⟩ : ∃ r, pairSecond = some r ∧
      r.1 = pageAddress 5 + 2048 ∧ r.2.cpu = ⟨0, 2, some 5⟩ ∧ (r.2.pages 5).live = true ∧
      pageAddress 5 ∈ objectsOf pairCache r.2.pages 5 :=
    ⟨_, Option.eq_some_of_isSome (by decide +kernel), by decide +kernel, by decide +kernel,
      by decide +kernel, by decide +kernel⟩
  have second := h₂
  rw [pairSecond, h₁, Option.bind_some] at second
  have first : SlabStep pairCache ⟨pairStart, []⟩ ⟨r₁.2, [pageAddress 5]⟩ := by
    have step := SlabStep.alloc ⟨pairStart, []⟩ false (some 5) none 0 r₁
      ⟨fun _ _ => ⟨rfl, nofun⟩, nofun⟩ h₁
    rwa [o₁, if_neg (by decide)] at step
  have next : SlabStep pairCache ⟨r₁.2, [pageAddress 5]⟩
      ⟨r₂.2, [pageAddress 5 + 2048, pageAddress 5]⟩ := by
    have step := SlabStep.alloc ⟨r₁.2, [pageAddress 5]⟩ true none none 0 r₂ ⟨nofun, nofun⟩ second
    rwa [o₂, if_neg (by decide)] at step
  exact ⟨r₂, h₂, cpu, live, inside, (Relation.ReflTransGen.single first).tail next⟩

/-- The first is freed. -/
def pairFreed : Option State := pairSecond.bind fun r => slabFree pairCache r.2 5 (pageAddress 5)

/-- The processor gives the page up. -/
def pairFlushed : Option State := pairFreed.bind fun st => deactivateSlab pairCache st 2

/-- After these calls the page is on the partial list. -/
theorem slab_runs_pair :
    ∃ t, Relation.ReflTransGen (SlabStep pairCache) ⟨pairStart, []⟩ t ∧
      t.allocated = [pageAddress 5 + 2048] ∧ t.st.node = ⟨1, [5]⟩ ∧ Conserved pairCache t := by
  obtain ⟨r₂, h₂, -, live, inside, taken⟩ := pair_taken
  obtain ⟨st₃, h₃⟩ : ∃ st, pairFreed = some st :=
    ⟨_, Option.eq_some_of_isSome (by decide +kernel)⟩
  obtain ⟨st₄, h₄, node⟩ : ∃ st, pairFlushed = some st ∧ st.node = ⟨1, [5]⟩ :=
    ⟨_, Option.eq_some_of_isSome (by decide +kernel), by decide +kernel⟩
  rw [pairFlushed, h₃, Option.bind_some] at h₄
  rw [pairFreed, h₂, Option.bind_some] at h₃
  have third := SlabStep.free ⟨r₂.2, [pageAddress 5 + 2048, pageAddress 5]⟩ 5 (pageAddress 5) st₃ live
    inside (by simp) h₃
  have fourth := SlabStep.flush ⟨st₃, [pageAddress 5 + 2048, pageAddress 5].erase (pageAddress 5)⟩ 2 st₄ h₄
  have run := (taken.tail third).tail fourth
  exact ⟨_, run, rfl, node, (slab_runs pairCache_valid (.empty pairStart pairStart_empty) run).1⟩

end XcKernel.Slub
