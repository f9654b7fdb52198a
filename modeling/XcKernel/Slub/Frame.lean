import XcKernel.Slub.Runs

/-!
# What a call leaves alone

A call keeps the number of objects of the slabs that stay, writes no free
pointer but that of its own object, and advances the transaction id, unless it
leaves the free list of the processor as it was.
-/

namespace XcKernel.Slub

open State

variable {s : Cache} {st : State} {allocated : List Nat} {p x : Nat}

/-- The transaction id and the free list are as they were; the page may be gone. -/
structure Quiet (st st' : State) : Prop where
  tid : st'.cpu.tid = st.cpu.tid
  freelist : st'.cpu.freelist = st.cpu.freelist
  page : st'.cpu.page = st.cpu.page ∨ st'.cpu.page = none

theorem Quiet.refl (st : State) : Quiet st st := ⟨rfl, rfl, .inl rfl⟩

theorem Quiet.trans {a b c : State} (h : Quiet a b) (h' : Quiet b c) : Quiet a c :=
  ⟨h'.tid.trans h.tid, h'.freelist.trans h.freelist, by
    rcases h'.page with same | gone
    · rw [same]
      exact h.page
    · exact .inr gone⟩

/-- What a call that takes or gives back `touched` leaves alone. -/
structure CallFrame (s : Cache) (st st' : State) (touched : Nat) : Prop where
  objects : ∀ {q}, (st.pages q).live = true → (st'.pages q).live = true →
    (st'.pages q).counters.objects = (st.pages q).counters.objects
  links : ∀ {q}, (st.pages q).live = true → ∀ o ∈ objectsOf s st.pages q, o ≠ touched →
    st'.freePointer o = st.freePointer o
  tid : st'.cpu.tid = nextTid st.cpu.tid ∨ Quiet st st'

theorem CallFrame.inside {st' : State} {touched o : Nat} (h : CallFrame s st st' touched)
    (live : (st.pages p).live = true) (live' : (st'.pages p).live = true)
    (inside : o ∈ objectsOf s st.pages p) : o ∈ objectsOf s st'.pages p := by
  rwa [objectsOf_congr (h.objects live live')]

theorem modifyPage_objects {f : SlabPage → SlabPage}
    (same : (f (st.pages p)).counters.objects = (st.pages p).counters.objects) (q : Nat) :
    ((st.modifyPage p f).pages q).counters.objects = (st.pages q).counters.objects := by
  rw [modifyPage_pages]
  by_cases eq : q = p
  · rw [eq, Function.update_self, same]
  · rw [Function.update_of_ne eq]

theorem discardSlab_of_live {q : Nat} (live : ((discardSlab s st p).pages q).live = true) :
    (discardSlab s st p).pages q = st.pages q := by
  rw [discardSlab, modifyPage_pages] at live ⊢
  by_cases eq : q = p
  · subst eq
    rw [Function.update_self] at live
    cases live
  · rw [Function.update_of_ne eq]

theorem slabFreeSlow_frame {st' : State} (returns : slabFreeSlow s st p x = some st') :
    CallFrame s st st' x := by
  unfold slabFreeSlow at returns
  dsimp only at returns
  rw [cmpxchgDoubleSlab_self (st.setFreepointer_pages x _)] at returns
  dsimp only at returns
  set st₁ := (st.setFreepointer x (st.pages p).freelist).modifyPage p fun q => { q with
    freelist := x
    counters := { (st.pages p).counters with inuse := (st.pages p).counters.inuse - 1 } } with hst₁
  have objects₁ : ∀ q, (st₁.pages q).counters.objects = (st.pages q).counters.objects :=
    @modifyPage_objects (st.setFreepointer x (st.pages p).freelist) p _ rfl
  -- the exits differ in the partial list and in whether the page stays
  have frame : ∀ st₂ : State, st₂.freePointer = st₁.freePointer → st₂.cpu = st₁.cpu →
      (∀ q, (st₂.pages q).live = true → st₂.pages q = st₁.pages q) → CallFrame s st st₂ x := by
    intro st₂ fp cpu pages
    refine ⟨fun {q} _ live => ?_, fun {q} _ o _ ne => ?_, .inr ⟨?_, ?_, ?_⟩⟩
    · rw [pages q live, objects₁ q]
    · rw [fp]
      exact Function.update_of_ne ne _ _
    · rw [cpu]
      rfl
    · rw [cpu]
      rfl
    · rw [cpu]
      exact .inl rfl
  split at returns
  · obtain rfl := Option.some.inj returns
    exact frame _ rfl rfl fun _ _ => rfl
  · split at returns
    · obtain rfl := Option.some.inj returns
      by_cases prior : (st.pages p).freelist = 0
      · rw [if_neg (by simpa using prior)]
        exact frame _ rfl rfl fun q live => discardSlab_of_live live
      · rw [if_pos prior]
        exact frame _ rfl rfl fun q live => discardSlab_of_live live
    · split at returns
      · obtain rfl := Option.some.inj returns
        exact frame _ rfl rfl fun _ _ => rfl
      · obtain rfl := Option.some.inj returns
        exact frame _ rfl rfl fun _ _ => rfl

theorem slabFree_frame {st' : State} (returns : slabFree s st p x = some st') :
    CallFrame s st st' x := by
  unfold slabFree at returns
  split at returns
  · dsimp only at returns
    rw [cpuCmpxchgDouble_self] at returns
    obtain rfl := Option.some.inj returns
    exact ⟨fun _ _ => rfl, fun _ o _ ne => Function.update_of_ne ne _ _, .inl rfl⟩
  · exact slabFreeSlow_frame returns

theorem links_outside (valid : s.Valid) {page : Nat} {oo : OrderObjects}
    (which : oo = s.oo ∨ oo = s.min) {st₀ : State}
    (set : st₀ = st.modifyPage page fun p => { p with
      order := oo.order, counters := { p.counters with objects := BitVec.ofNat 15 oo.objects } })
    {r : State × Nat} (loop : r = (List.range (st₀.pages page).counters.objects.toNat).foldl
      (linkObjects s (pageAddress page)) (st₀, pageAddress page)) {o : Nat}
    (off : o < pageAddress page ∨ pageAddress (page + 2 ^ oo.order) ≤ o) :
    (r.1.setFreepointer r.2 0).freePointer o = st.freePointer o := by
  obtain ⟨pos, small, roomNew⟩ : 0 < oo.objects ∧ oo.objects < 2 ^ 15 ∧
      oo.objects * s.size ≤ pageSize * 2 ^ oo.order := by
    rcases which with rfl | rfl
    · exact valid.oo
    · exact valid.min
  have number : (st₀.pages page).counters.objects.toNat = oo.objects := by
    rw [set, modifyPage_pages, Function.update_self]
    simp only [BitVec.toNat_ofNat]
    exact Nat.mod_eq_of_lt small
  have away : ∀ i < oo.objects, o ≠ pageAddress page + i * s.size := by
    intro i hi eq
    have inNew : o ∈ objectsOf s st₀.pages page := mem_objectsOf.mpr ⟨i, by omega, eq⟩
    have bounds := mem_objectsOf_bounds valid (by rw [number]; exact roomNew) inNew
    omega
  obtain ⟨n, hn⟩ := Nat.exists_eq_succ_of_ne_zero (Nat.ne_of_gt pos)
  rw [number, hn] at loop
  obtain ⟨last, -, other, -⟩ := loop ▸ linkObjects_linked valid st₀ (pageAddress page) n
  have notLast : o ≠ r.2 := by
    rw [last]
    exact away n (by omega)
  calc (r.1.setFreepointer r.2 0).freePointer o = r.1.freePointer o :=
        Function.update_of_ne notLast _ _
    _ = st₀.freePointer o := other o fun i hi => away i (by omega)
    _ = st.freePointer o := by rw [set]; rfl

/-- An address in neither of the pages that the page allocator may come up with. -/
structure Outside (s : Cache) (first second : Option Nat) (o : Nat) : Prop where
  oo : ∀ page, first = some page → o < pageAddress page ∨ pageAddress (page + 2 ^ s.oo.order) ≤ o
  min : ∀ page, second = some page → o < pageAddress page ∨ pageAddress (page + 2 ^ s.min.order) ≤ o

theorem newSlab_outside (valid : s.Valid) {first second : Option Nat} {page : Nat} {st' : State}
    (made : newSlab s st first second = (some page, st')) {o : Nat} (off : Outside s first second o) :
    st'.freePointer o = st.freePointer o := by
  unfold newSlab allocateSlab at made
  cases first with
  | some page =>
    obtain ⟨-, rfl⟩ := Prod.mk.inj made
    exact links_outside valid (.inl rfl) rfl rfl (off.oo page rfl)
  | none =>
    cases second with
    | some page =>
      obtain ⟨-, rfl⟩ := Prod.mk.inj made
      exact links_outside valid (.inr rfl) rfl rfl (off.min page rfl)
    | none => cases made

theorem newSlab_page {first second : Option Nat} {page : Nat} {st' : State}
    (made : newSlab s st first second = (some page, st')) : first = some page ∨ second = some page := by
  unfold newSlab allocateSlab at made
  cases first with
  | some page => exact .inl (Prod.mk.inj made).1
  | none =>
    cases second with
    | some page => exact .inr (Prod.mk.inj made).1
    | none => cases made

theorem Fresh.outside {pages : Nat → SlabPage} {page order q o : Nat} (fresh : Fresh pages page order)
    (live : (pages q).live = true) (low : pageAddress q ≤ o)
    (high : o < pageAddress (q + 2 ^ (pages q).order)) :
    o < pageAddress page ∨ pageAddress (page + 2 ^ order) ≤ o := by
  rcases fresh.apart live with before | after
  · have := pageAddress_le before
    omega
  · have := pageAddress_le after
    omega

theorem FreshPages.outside {first second : Option Nat} (fresh : FreshPages s st first second) {q o : Nat}
    (live : (st.pages q).live = true) (low : pageAddress q ≤ o)
    (high : o < pageAddress (q + 2 ^ (st.pages q).order)) : Outside s first second o :=
  ⟨fun page eq => (fresh.oo page eq).outside live low high,
    fun page eq => (fresh.min page eq).outside live low high⟩

/-- The objects of a new slab are linked, no others. -/
theorem newSlab_links (valid : s.Valid) {first second : Option Nat}
    (fresh : FreshPages s st first second) {page : Nat} {st' : State}
    (made : newSlab s st first second = (some page, st')) {q : Nat}
    (live : (st.pages q).live = true)
    (room : (st.pages q).counters.objects.toNat * s.size ≤ pageSize * 2 ^ (st.pages q).order)
    {o : Nat} (inside : o ∈ objectsOf s st.pages q) : st'.freePointer o = st.freePointer o := by
  obtain ⟨low, high⟩ := mem_objectsOf_bounds valid room inside
  exact newSlab_outside valid made (fresh.outside live low high)

/-- Each slab has room for its objects. -/
def Roomy (s : Cache) (st : State) : Prop :=
  ∀ q, (st.pages q).live = true →
    (st.pages q).counters.objects.toNat * s.size ≤ pageSize * 2 ^ (st.pages q).order

theorem acquireSlab_frame {st₁ : State} (acquired : acquireSlab st p = some (true, st₁)) :
    CallFrame s st (loadFreelist st₁ st₁.cpu.freelist).2 x := by
  unfold acquireSlab at acquired
  dsimp only at acquired
  rw [cmpxchgDoubleSlab_self rfl] at acquired
  dsimp only at acquired
  set st₂ := st.modifyPage p fun q => { q with
    freelist := 0
    counters := { (st.pages p).counters with
      inuse := (st.pages p).counters.objects.setWidth 16, frozen := true } }
  have objects : ∀ q, (st₂.pages q).counters.objects = (st.pages q).counters.objects :=
    modifyPage_objects rfl
  split at acquired
  · obtain rfl := (Prod.mk.inj (Option.some.inj acquired)).2
    exact ⟨fun {q} _ _ => objects q, fun _ _ _ _ => rfl, .inl rfl⟩
  · cases acquired

theorem getPartialNode_cases {page : Option Nat} {st₁ : State}
    (got : getPartialNode st = some (page, st₁)) : page = none ∧ st₁ = st ∨
      ∃ p ∈ st.node.slabs, page = some p ∧ acquireSlab st p = some (true, st₁) := by
  unfold getPartialNode at got
  split at got
  · obtain ⟨rfl, rfl⟩ := Prod.mk.inj (Option.some.inj got)
    exact .inl ⟨rfl, rfl⟩
  · split at got
    · obtain ⟨rfl, rfl⟩ := Prod.mk.inj (Option.some.inj got)
      exact .inl ⟨rfl, rfl⟩
    · rename_i p rest slabs
      split at got
      · rename_i acquired
        obtain ⟨rfl, rfl⟩ := Prod.mk.inj (Option.some.inj got)
        exact .inr ⟨p, by rw [slabs]; exact List.mem_cons_self, rfl, acquired⟩
      · cases got

/-- A page all of whose objects have gone to the processor. -/
def emptied (p : SlabPage) : SlabPage :=
  { p with freelist := 0, counters := { p.counters with inuse := p.counters.objects.setWidth 16 } }

/-- The state in which a new slab has become the page of the processor. -/
def installed (st : State) (page : Nat) : State :=
  { st.modifyPage page emptied with cpu := { st.cpu with page := some page } }

/-- Without a page of the processor a slab is taken from the partial list or made, or
nothing happens. -/
theorem slabAllocNew_cases (valid : s.Valid) (cpu : st.cpu.page = none) {first second : Option Nat}
    (fresh : FreshPages s st first second) {fuel : Nat} {r : Nat × State}
    (returns : slabAllocNew s st first second fuel = some r) :
    (∃ p ∈ st.node.slabs, ∃ st₁, acquireSlab st p = some (true, st₁) ∧
      r = loadFreelist st₁ st₁.cpu.freelist) ∨ r = (0, st) ∨
    ∃ page st', newSlab s st first second = (some page, st') ∧ NewSlab s st st' page ∧
      r = loadFreelist (installed st' page) (st'.pages page).freelist := by
  unfold slabAllocNew at returns
  cases got : getPartialNode st with
  | none =>
    rw [got] at returns
    cases returns
  | some found =>
    obtain ⟨page, st₁⟩ := found
    rw [got] at returns
    rcases getPartialNode_cases got with ⟨rfl, rfl⟩ | ⟨p, on, rfl, acquired⟩
    · dsimp only at returns
      rcases newSlab_spec valid fresh with failed | ⟨page, st', made, new⟩
      · rw [failed] at returns
        exact .inr (.inl (Option.some.inj returns).symm)
      · rw [made] at returns
        have away : st'.cpu.page.isSome = false := by
          rw [new.cpu, cpu]
          rfl
        dsimp only at returns
        rw [away] at returns
        simp only [Bool.false_eq_true, if_false] at returns
        exact .inr (.inr ⟨page, st', made, new, (Option.some.inj returns).symm⟩)
    · exact .inl ⟨p, on, st₁, acquired, (Option.some.inj returns).symm⟩

theorem slabAllocNew_frame (valid : s.Valid) (roomy : Roomy s st) (cpu : st.cpu.page = none)
    {first second : Option Nat} (fresh : FreshPages s st first second) {fuel : Nat}
    {r : Nat × State} (returns : slabAllocNew s st first second fuel = some r) :
    CallFrame s st r.2 x := by
  rcases slabAllocNew_cases valid cpu fresh returns with
    ⟨p, -, st₁, acquired, rfl⟩ | rfl | ⟨page, st', made, new, rfl⟩
  · exact acquireSlab_frame acquired
  · exact ⟨fun _ _ => rfl, fun _ _ _ _ => rfl, .inr (Quiet.refl _)⟩
  · have objects : ∀ q, ((installed st' page).pages q).counters.objects =
        (st'.pages q).counters.objects := modifyPage_objects (f := emptied) rfl
    refine ⟨fun {q} live _ => ?_, fun {q} live o inside _ => ?_, .inl ?_⟩
    · have ne : q ≠ page := by
        rintro rfl
        rw [new.dead] at live
        cases live
      refine (objects q).trans ?_
      rw [new.pages q ne]
    · exact newSlab_links valid fresh made live (roomy q live) inside
    · show nextTid st'.cpu.tid = _
      rw [new.cpu]

/-- What the compare-and-swap of `__slab_alloc` makes of a page that it has read as `old` -/
def refill (old p : SlabPage) : SlabPage :=
  { p with
    freelist := 0
    counters := { old.counters with
      inuse := old.counters.objects.setWidth 16, frozen := old.freelist ≠ 0 } }

def refilled (st : State) (p : Nat) : State := st.modifyPage p (refill (st.pages p))

/-- The page of the processor has objects, or is given up. -/
theorem slabAllocSlow_cases {first second : Option Nat} {fuel : Nat} {r : Nat × State}
    (returns : slabAllocSlow s st first second fuel = some r) :
    st.cpu.page = none ∧ slabAllocNew s st first second fuel = some r ∨
    ∃ p, st.cpu.page = some p ∧
      (slabAllocNew s { refilled st p with cpu := { st.cpu with page := none } } first second fuel =
          some r ∨
        r = loadFreelist (refilled st p) (st.pages p).freelist) := by
  unfold slabAllocSlow at returns
  cases cpu : st.cpu.page with
  | none =>
    rw [cpu] at returns
    exact .inl ⟨rfl, returns⟩
  | some p =>
    rw [cpu] at returns
    dsimp only at returns
    rw [cmpxchgDoubleSlab_self rfl] at returns
    dsimp only at returns
    refine .inr ⟨p, rfl, ?_⟩
    split at returns
    · exact .inl returns
    · exact .inr (Option.some.inj returns).symm

theorem refilled_objects (st : State) (p q : Nat) :
    ((refilled st p).pages q).counters.objects = (st.pages q).counters.objects :=
  modifyPage_objects (f := refill (st.pages p)) rfl q

theorem refilled_kept (st : State) (p q : Nat) : ((refilled st p).pages q).live = (st.pages q).live ∧
    ((refilled st p).pages q).order = (st.pages q).order := by
  rw [refilled, modifyPage_pages]
  by_cases eq : q = p
  · rw [eq, Function.update_self]
    exact ⟨rfl, rfl⟩
  · rw [Function.update_of_ne eq]
    exact ⟨rfl, rfl⟩

theorem FreshPages.refilled {first second : Option Nat} (fresh : FreshPages s st first second)
    (live : (st.pages p).live = true) (cpu : CacheCpu) :
    FreshPages s { Slub.refilled st p with cpu := cpu } first second :=
  fresh.setPage (st.modifyPage_pages p (refill (st.pages p))) live rfl

/-- `__slab_alloc`, whatever the free list of the processor is. -/
theorem slabAllocSlow_frame (valid : s.Valid) (roomy : Roomy s st) {first second : Option Nat}
    (fresh : FreshPages s st first second)
    (homeLive : ∀ {q}, st.cpu.page = some q → (st.pages q).live = true) {fuel : Nat}
    {r : Nat × State} (returns : slabAllocSlow s st first second fuel = some r) :
    CallFrame s st r.2 x := by
  rcases slabAllocSlow_cases returns with ⟨cpu, returns⟩ | ⟨p, cpu, returns | rfl⟩
  · exact slabAllocNew_frame valid roomy cpu fresh returns
  · have roomy' : Roomy s { refilled st p with cpu := { st.cpu with page := none } } := by
      intro q liveq
      obtain ⟨lives, orders⟩ := refilled_kept st p q
      show ((refilled st p).pages q).counters.objects.toNat * s.size ≤
        pageSize * 2 ^ ((refilled st p).pages q).order
      rw [refilled_objects, orders]
      exact roomy q (lives.symm.trans liveq)
    have frame := slabAllocNew_frame (x := x) valid roomy' rfl (fresh.refilled (homeLive cpu) _) returns
    have lives : ∀ {q}, (st.pages q).live = true → ((refilled st p).pages q).live = true := fun live =>
      (refilled_kept st p _).1.trans live
    refine ⟨fun {q} liveq gone => ?_, fun {q} liveq o inside ne => ?_, ?_⟩
    · rw [frame.objects (lives liveq) gone]
      exact refilled_objects st p q
    · exact frame.links (lives liveq) o (by rwa [objectsOf_congr (refilled_objects st p q)]) ne
    · rcases frame.tid with next | quiet
      · exact .inl next
      · refine .inr ⟨quiet.tid, quiet.freelist, .inr ?_⟩
        rcases quiet.page with same | gone
        · exact same
        · exact gone
  · exact ⟨fun {q} _ _ => refilled_objects st p q, fun _ _ _ _ => rfl, .inl rfl⟩

theorem takeObject_frame (valid : s.Valid) (inv : SlabInv s st allocated) {first second : Option Nat}
    (fresh : FreshPages s st first second) {fuel : Nat} {r : Nat × State}
    (returns : takeObject s st first second fuel = some r) : CallFrame s st r.2 x := by
  obtain ⟨loose, held, owned, -⟩ := inv
  unfold takeObject at returns
  dsimp only at returns
  split at returns
  · exact slabAllocSlow_frame valid (fun q live => owned.room live) fresh owned.homeLive returns
  · rw [cpuCmpxchgDouble_self] at returns
    obtain rfl := Option.some.inj returns
    exact ⟨fun _ _ => rfl, fun _ _ _ _ => rfl, .inl rfl⟩

theorem slabAlloc_frame (valid : s.Valid) (inv : SlabInv s st allocated) {zero : Bool}
    {first second : Option Nat} (fresh : FreshPages s st first second) {fuel : Nat}
    {r : Nat × State} (returns : slabAlloc s st zero first second fuel = some r) :
    CallFrame s st r.2 r.1 := by
  obtain ⟨⟨object, st₁⟩, taken, rfl⟩ := Option.map_eq_some_iff.mp returns
  have frame := takeObject_frame (x := object) valid inv fresh taken
  dsimp only
  split
  · refine ⟨frame.objects, fun {q} live o inside ne => ?_, ?_⟩
    · rw [← frame.links live o inside ne]
      exact Function.update_of_ne ne _ _
    · exact frame.tid.imp id fun quiet => ⟨quiet.tid, quiet.freelist, quiet.page⟩
  · exact frame

/-- What an allocation leaves to the users of other pages. -/
structure Elsewhere (s : Cache) (first second : Option Nat) (st st' : State) : Prop where
  pages : ∀ q, (st.pages q).live = false → first ≠ some q → second ≠ some q → st'.pages q = st.pages q
  links : ∀ o, Outside s first second o → st'.freePointer o = st.freePointer o

variable {first second : Option Nat} {fuel : Nat} {r : Nat × State}

theorem ne_of_dead (live : (st.pages p).live = true) {q : Nat} (dead : (st.pages q).live = false) :
    q ≠ p := by
  rintro rfl
  rw [live] at dead
  cases dead

theorem slabAllocNew_elsewhere (valid : s.Valid) (cpu : st.cpu.page = none)
    (listed : ∀ q ∈ st.node.slabs, (st.pages q).live = true) (fresh : FreshPages s st first second)
    (returns : slabAllocNew s st first second fuel = some r) : Elsewhere s first second st r.2 := by
  rcases slabAllocNew_cases valid cpu fresh returns with
    ⟨p, on, st₁, acquired, rfl⟩ | rfl | ⟨page, st', made, new, rfl⟩
  · have live := listed p on
    unfold acquireSlab at acquired
    dsimp only at acquired
    rw [cmpxchgDoubleSlab_self rfl] at acquired
    dsimp only at acquired
    split at acquired
    · obtain rfl := (Prod.mk.inj (Option.some.inj acquired)).2
      exact ⟨fun q dead _ _ => if_neg (ne_of_dead live dead), fun _ _ => rfl⟩
    · cases acquired
  · exact ⟨fun _ _ _ _ => rfl, fun _ _ => rfl⟩
  · refine ⟨fun q _ notFirst notSecond => ?_, fun o off => newSlab_outside valid made off⟩
    have ne : q ≠ page := by
      rintro rfl
      rcases newSlab_page made with eq | eq
      · exact notFirst eq
      · exact notSecond eq
    rw [← new.pages q ne]
    exact if_neg ne

theorem slabAlloc_elsewhere (valid : s.Valid) (inv : SlabInv s st allocated)
    (fresh : FreshPages s st first second)
    (returns : slabAlloc s st false first second fuel = some r) :
    Elsewhere s first second st r.2 := by
  obtain ⟨loose, held, owned, listed⟩ := inv
  have lists : ∀ q ∈ st.node.slabs, (st.pages q).live = true := fun q on => ((listed.member q).mp on).1
  obtain ⟨⟨object, st₁⟩, taken, rfl⟩ := Option.map_eq_some_iff.mp returns
  show Elsewhere s first second st st₁
  unfold takeObject at taken
  dsimp only at taken
  split at taken
  · rcases slabAllocSlow_cases taken with ⟨cpu, taken⟩ | ⟨p, cpu, taken | eq⟩
    · exact slabAllocNew_elsewhere valid cpu lists fresh taken
    · have live := owned.homeLive cpu
      have kept : ∀ q, ((refilled st p).pages q).live = (st.pages q).live := fun q =>
        (refilled_kept st p q).1
      have elsewhere : Elsewhere s first second
          { refilled st p with cpu := { st.cpu with page := none } } st₁ := by
        refine slabAllocNew_elsewhere valid rfl (fun q on => ?_) (fresh.refilled live _) taken
        exact (kept q).trans (lists q on)
      refine ⟨fun q dead notFirst notSecond => ?_, elsewhere.links⟩
      rw [elsewhere.pages q ((kept q).trans dead) notFirst notSecond]
      exact if_neg (ne_of_dead live dead)
    · obtain rfl := (Prod.mk.inj eq).2
      exact ⟨fun q dead _ _ => if_neg (ne_of_dead (owned.homeLive cpu) dead), fun _ _ => rfl⟩
  · rw [cpuCmpxchgDouble_self] at taken
    obtain rfl := (Prod.mk.inj (Option.some.inj taken)).2
    exact ⟨fun _ _ _ _ => rfl, fun _ _ => rfl⟩

end XcKernel.Slub
