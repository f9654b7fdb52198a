import XcKernel.Slub.Invariant

/-!
# Draining, refilling and new slabs
-/

namespace XcKernel.Slub

open State

variable {s : Cache} {st : State} {allocated loose : List Nat} {home : Option Nat} {head p x : Nat}
  {held : Nat → List Nat}

/-- The loose list has been drained to the page but for its last object. -/
structure Drains (s : Cache) (st st' : State) (p : Nat) (allocated : List Nat) (last : Nat) :
    Prop where
  owned : ∃ loose held, Owned s st'.freePointer st'.pages allocated (some p) last loose held ∧
    loose.length ≤ 1
  cpu : st'.cpu = st.cpu
  node : st'.node = st.node
  pages : ∀ q, q ≠ p → st'.pages q = st.pages q
  objects : (st'.pages p).counters.objects = (st.pages p).counters.objects

theorem drainLoop_spec (valid : s.Valid)
    (owned : Owned s st.freePointer st.pages allocated (some p) head loose held) {fuel : Nat}
    (enough : loose.length < fuel) :
    ∃ last st', drainLoop st p head fuel = some (last, st') ∧ Drains s st st' p allocated last := by
  induction loose generalizing st head held fuel with
  | nil =>
    obtain ⟨fuel, rfl⟩ := Nat.exists_eq_succ_of_ne_zero (Nat.ne_of_gt enough)
    have null : head = 0 := owned.looseChain
    refine ⟨head, st, by rw [drainLoop, if_neg (by simp [null])], ?_⟩
    exact ⟨⟨[], held, owned, by simp⟩, rfl, rfl, fun _ _ => rfl, rfl⟩
  | cons y rest ih =>
    obtain ⟨fuel, rfl⟩ := Nat.exists_eq_succ_of_ne_zero (Nat.ne_of_gt (Nat.zero_lt_of_lt enough))
    obtain ⟨rfl, notNull, chain⟩ := owned.looseChain
    rw [drainLoop]
    by_cases last : st.getFreepointer head = 0
    · rw [if_neg (by simp [last])]
      obtain rfl : rest = [] := Chain.null_iff chain |>.mp last
      exact ⟨head, st, rfl, ⟨[head], held, owned, by simp⟩, rfl, rfl, fun _ _ => rfl, rfl⟩
    · rw [if_pos ⟨notNull, last⟩]
      obtain ⟨q, here, inside⟩ := owned.ofHome head List.mem_cons_self
      obtain rfl := Option.some.inj here
      have live := owned.homeLive rfl
      have given := owned.take.givePage valid live inside List.mem_cons_self
        (st.pages p).counters.frozen
      rw [List.erase_cons_head] at given
      dsimp only
      rw [cmpxchgDoubleSlab_self (st.setFreepointer_pages head _)]
      dsimp only
      set st₁ := (st.setFreepointer head (st.pages p).freelist).modifyPage p fun q => { q with
        freelist := head
        counters := { (st.pages p).counters with inuse := (st.pages p).counters.inuse - 1 } } with hst₁
      have pages₁ : st₁.pages = Function.update st.pages p { st.pages p with
          freelist := head
          counters := ⟨(st.pages p).counters.inuse - 1, (st.pages p).counters.objects,
            (st.pages p).counters.frozen⟩ } := by
        rw [hst₁, modifyPage_pages, setFreepointer_pages]
      have owned₁ : Owned s st₁.freePointer st₁.pages allocated (some p) (st.freePointer head) rest
          (Function.update held p (head :: held p)) := by
        rw [pages₁]
        exact given
      have less : rest.length < fuel := by simpa using enough
      obtain ⟨last, st', returns, drains⟩ := ih owned₁ less
      refine ⟨last, st', returns, drains.owned, drains.cpu, drains.node, fun q ne => ?_, ?_⟩
      · rw [drains.pages q ne, pages₁, Function.update_of_ne ne]
      · rw [drains.objects, pages₁, Function.update_self]

theorem drainLoop_mono {fuel : Nat} {r : Nat × State} (returns : drainLoop st p head fuel = some r)
    (more : Nat) : drainLoop st p head (fuel + more) = some r := by
  induction fuel generalizing st head with
  | zero => cases returns
  | succ fuel ih =>
    rw [Nat.succ_add]
    rw [drainLoop] at returns ⊢
    split
    · rename_i go
      rw [if_pos go] at returns
      dsimp only at returns ⊢
      split
      · rename_i failed
        rw [failed] at returns
        cases returns
      · rename_i st₁ swapped
        rw [swapped] at returns
        exact ih returns
    · rename_i stop
      rwa [if_neg stop] at returns

/-- The last loose object goes to the page. -/
theorem Owned.giveLast (valid : s.Valid)
    (owned : Owned s st.freePointer st.pages allocated (some p) head loose held)
    (few : loose.length ≤ 1) :
    ∃ held', Owned s (if head ≠ 0 then st.setFreepointer head (st.pages p).freelist else st).freePointer
      (Function.update st.pages p { st.pages p with
        freelist := if head ≠ 0 then head else (st.pages p).freelist
        counters := ⟨if head ≠ 0 then (st.pages p).counters.inuse - 1 else (st.pages p).counters.inuse,
          (st.pages p).counters.objects, false⟩ }) allocated none 0 [] held' := by
  have live := owned.homeLive rfl
  by_cases null : head = 0
  · obtain rfl : loose = [] := (Chain.null_iff owned.looseChain).mp null
    simp only [null, ne_eq, not_true_eq_false, if_false]
    exact ⟨held, (owned.setFrozen valid live false).letGo⟩
  · obtain ⟨rest, rfl, -⟩ := owned.looseChain.eq_cons null
    obtain rfl : rest = [] := List.eq_nil_of_length_eq_zero (by simpa using few)
    obtain ⟨q, here, inside⟩ := owned.ofHome head List.mem_cons_self
    obtain rfl := Option.some.inj here
    have given := owned.take.givePage valid live inside List.mem_cons_self false
    rw [List.erase_cons_head] at given
    simp only [null, ne_eq, not_false_eq_true, if_true]
    exact ⟨_, given.letGo⟩

theorem unfreezeSlab_spec (valid : s.Valid) {st₀ : State} (listed : Listed st₀.pages (some p) st₀.node)
    (livep : (st₀.pages p).live = true) (drains : Drains s { st₀ with cpu := st.cpu } st p allocated head)
    (gone : st.cpu.page = none) (empty : st.cpu.freelist = 0) (tail : Bool) :
    ∃ st', unfreezeSlab s st p head tail = some st' ∧ Outcome s st₀ st' allocated := by
  obtain ⟨⟨loose, held, owned, few⟩, -, node, pages, objects⟩ := drains
  have live := owned.homeLive rfl
  obtain ⟨held', given⟩ := owned.giveLast valid few
  have off : p ∉ st.node.slabs := by
    rw [node]
    intro on
    have frozen := (listed.frozen livep).mpr rfl
    rw [((listed.member p).mp on).2.1] at frozen
    cases frozen
  unfold unfreezeSlab
  dsimp only
  set inuse := if head ≠ 0 then (st.pages p).counters.inuse - 1 else (st.pages p).counters.inuse
  set freelist := if head ≠ 0 then head else (st.pages p).freelist
  set st₁ := if head ≠ 0 then st.setFreepointer head (st.pages p).freelist else st with hst₁
  have pages₁ : st₁.pages = st.pages := by
    rw [hst₁]
    split <;> rfl
  have node₁ : st₁.node = st.node := by
    rw [hst₁]
    split <;> rfl
  have cpu₁ : st₁.cpu = st.cpu := by
    rw [hst₁]
    split <;> rfl
  -- the partial list and the page are changed in either order
  set st₃ := st₁.modifyPage p fun q => { q with
    freelist := freelist, counters := { (st.pages p).counters with inuse := inuse, frozen := false } }
    with hst₃
  have pages₃ : st₃.pages = Function.update st.pages p { st.pages p with
      freelist := freelist, counters := ⟨inuse, (st.pages p).counters.objects, false⟩ } := by
    rw [hst₃, modifyPage_pages, pages₁]
  have self : st₃.pages p = { st.pages p with
      freelist := freelist, counters := ⟨inuse, (st.pages p).counters.objects, false⟩ } := by
    rw [pages₃, Function.update_self]
  have moved : Unlisted s st₀ st₃ p allocated := by
    refine ⟨⟨[], held', ?_⟩, ⟨some p, ?_, fun q ne => ?_⟩, ?_, fun q ne => ?_, ?_, ?_, ?_⟩
    · rw [pages₃]
      show Owned s st₁.freePointer _ _ st₁.cpu.page st₁.cpu.freelist _ _
      rw [cpu₁, gone, empty]
      exact given
    · show Listed st₀.pages (some p) st₁.node
      rw [node₁, node]
      exact listed
    · show st₁.cpu.page = some q ↔ _
      rw [cpu₁, gone]
      simp [Ne.symm ne]
    · show st₁.cpu.page ≠ some p
      rw [cpu₁, gone]
      simp
    · rw [pages₃, Function.update_of_ne ne]
      exact pages q ne
    · rw [self]
      exact live
    · rw [self]
    · rw [self]
      exact objects
  have off₃ : p ∉ st₃.node.slabs := by
    show p ∉ st₁.node.slabs
    rw [node₁]
    exact off
  by_cases free : inuse = 0 ∧ st₁.node.nrPartial > s.minPartial
  · have unused : (st₃.pages p).counters.inuse = 0 := by
      rw [self]
      exact free.1
    have outcome := moved.discard unused (show p ∈ st₃.node.slabs ↔ 0 ≠ 0 by simp [off₃])
    rw [if_neg (by simp [free]), cmpxchgDoubleSlab_self pages₁]
    refine ⟨_, rfl, ?_⟩
    rw [if_pos free]
    simpa using outcome
  · by_cases full : freelist = 0
    · rw [if_neg (by simp [full]), cmpxchgDoubleSlab_self pages₁]
      refine ⟨_, rfl, ?_⟩
      rw [if_neg free]
      refine moved.stay (iff_of_false off₃ ?_)
      rw [self]
      simpa using full
    · have outcome := moved.add off₃ (by rw [self]; exact full) tail
      have same : (st₁.addPartial p tail).pages = st.pages := pages₁
      rw [if_pos ⟨free, full⟩, cmpxchgDoubleSlab_self same]
      refine ⟨_, rfl, ?_⟩
      rw [if_neg free]
      exact outcome

theorem deactivateSlab_spec (valid : s.Valid) (inv : SlabInv s st allocated)
    (here : st.cpu.page = some p) :
    ∃ fuel st', deactivateSlab s st fuel = some st' ∧ Outcome s st st' allocated := by
  obtain ⟨loose, held, owned, listed⟩ := inv
  rw [here] at owned listed
  obtain ⟨last, st₁, returns, drains⟩ :=
    @drainLoop_spec s { st with cpu := ⟨0, nextTid st.cpu.tid, none⟩ } _ _ _ _ _ valid owned _
      (Nat.lt_succ_self _)
  have cpu : st₁.cpu = ⟨0, nextTid st.cpu.tid, none⟩ := drains.cpu
  have drains' : Drains s { st with cpu := st₁.cpu } st₁ p allocated last := by
    rw [cpu]
    exact drains
  obtain ⟨st', done, outcome⟩ := unfreezeSlab_spec valid listed (owned.homeLive rfl) drains'
    (by rw [cpu]) (by rw [cpu]) ((st.pages p).freelist ≠ 0)
  refine ⟨loose.length + 1, st', ?_, outcome⟩
  rw [deactivateSlab, here]
  dsimp only
  rw [returns]
  exact done

theorem deactivateSlab_mono {fuel : Nat} {st' : State}
    (returns : deactivateSlab s st fuel = some st') (more : Nat) :
    deactivateSlab s st (fuel + more) = some st' := by
  unfold deactivateSlab at returns ⊢
  split at returns
  · cases returns
  · dsimp only at returns ⊢
    split at returns
    · cases returns
    · rename_i drained
      rw [drainLoop_mono drained more]
      exact returns

theorem deactivateSlab_outcome (valid : s.Valid) (inv : SlabInv s st allocated) {fuel : Nat}
    {st' : State} (returns : deactivateSlab s st fuel = some st') : Outcome s st st' allocated := by
  have here : ∃ p, st.cpu.page = some p := by
    rw [← Option.isSome_iff_exists, Option.isSome_iff_ne_none]
    intro none
    rw [deactivateSlab, none] at returns
    cases returns
  obtain ⟨p, here⟩ := here
  obtain ⟨fuel', st'', returns', outcome⟩ := deactivateSlab_spec valid inv here
  have same := (deactivateSlab_mono returns fuel').symm.trans
    (Nat.add_comm fuel fuel' ▸ deactivateSlab_mono returns' fuel)
  rwa [Option.some.inj same]

/-- The pages that the page allocator may come up with. -/
structure FreshPages (s : Cache) (st : State) (first second : Option Nat) : Prop where
  oo : ∀ page, first = some page → Fresh st.pages page s.oo.order
  min : ∀ page, second = some page → Fresh st.pages page s.min.order

/-- A fresh page has become a frozen slab with all its objects on its list. -/
structure NewSlab (s : Cache) (st st' : State) (page : Nat) : Prop where
  dead : (st.pages page).live = false
  cpu : st'.cpu = st.cpu
  node : st'.node = st.node
  pages : ∀ q, q ≠ page → st'.pages q = st.pages q
  live : (st'.pages page).live = true
  start : (st'.pages page).freelist = pageAddress page
  frozen : (st'.pages page).counters.frozen = true
  objects : (st'.pages page).counters.objects.toNat = s.oo.objects ∨
    (st'.pages page).counters.objects.toNat = s.min.objects
  owned : ∀ {allocated home head loose held},
    Owned s st.freePointer st.pages allocated home head loose held →
    Owned s st'.freePointer st'.pages allocated home head loose
      (Function.update held page (objectsOf s st'.pages page))

theorem newSlab_of_page (valid : s.Valid) {page : Nat} {oo : OrderObjects}
    (fresh : Fresh st.pages page oo.order) (which : oo = s.oo ∨ oo = s.min) {st₀ : State}
    (set : st₀ = st.modifyPage page fun p => { p with
      order := oo.order, counters := { p.counters with objects := BitVec.ofNat 15 oo.objects } })
    {r : State × Nat} (loop : r = (List.range (st₀.pages page).counters.objects.toNat).foldl
      (linkObjects s (pageAddress page)) (st₀, pageAddress page)) :
    NewSlab s st ((r.1.setFreepointer r.2 0).modifyPage page fun p =>
      { p with freelist := pageAddress page, live := true, counters := ⟨0, p.counters.objects, true⟩ })
      page := by
  obtain ⟨pos, small, room⟩ : 0 < oo.objects ∧ oo.objects < 2 ^ 15 ∧
      oo.objects * s.size ≤ pageSize * 2 ^ oo.order := by
    rcases which with rfl | rfl
    · exact valid.oo
    · exact valid.min
  set start := pageAddress page with hstart
  have pages₀ : st₀.pages = Function.update st.pages page { st.pages page with
      order := oo.order
      counters := { (st.pages page).counters with objects := BitVec.ofNat 15 oo.objects } } := by
    rw [set, modifyPage_pages]
  have number : (st₀.pages page).counters.objects.toNat = oo.objects := by
    rw [pages₀, Function.update_self]
    simp only [BitVec.toNat_ofNat]
    exact Nat.mod_eq_of_lt small
  obtain ⟨n, hn⟩ := Nat.exists_eq_succ_of_ne_zero (Nat.ne_of_gt pos)
  rw [number, hn] at loop
  have linked := linkObjects_linked valid st₀ start n
  rw [← loop] at linked
  obtain ⟨last, links, other, same⟩ := linked
  have keep : r.1.pages = st₀.pages ∧ r.1.cpu = st₀.cpu ∧ r.1.node = st₀.node := by
    rw [← same]
    exact ⟨rfl, rfl, rfl⟩
  set st' := (r.1.setFreepointer r.2 0).modifyPage page fun p =>
    { p with freelist := start, live := true, counters := ⟨0, p.counters.objects, true⟩ } with hst'
  have pages' : st'.pages = Function.update st.pages page
      ⟨start, ⟨0, BitVec.ofNat 15 oo.objects, true⟩, oo.order, true⟩ := by
    rw [hst', modifyPage_pages, setFreepointer_pages, keep.1, pages₀, Function.update_idem,
      Function.update_self]
  have objects : objectsOf s st'.pages page =
      (List.range' 0 (n + 1)).map fun i => start + i * s.size := by
    rw [objectsOf, pages', Function.update_self, ← List.range_eq_range']
    simp only [BitVec.toNat_ofNat]
    rw [Nat.mod_eq_of_lt small, hn]
  have inj : ∀ {i j}, start + i * s.size = start + j * s.size → i = j := fun eq =>
    Nat.eq_of_mul_eq_mul_right valid.size (Nat.add_left_cancel eq)
  have fp' : st'.freePointer = Function.update r.1.freePointer (start + n * s.size) 0 := by
    rw [← last]
    rfl
  have chain : Chain 0 st'.freePointer start (objectsOf s st'.pages page) := by
    rw [objects]
    have := @Chain.of_links _ 0 st'.freePointer (fun i => start + i * s.size) n 0
      (fun i _ high => ?_) ?_ (fun i _ _ => ?_)
    · rwa [Nat.zero_mul, Nat.add_zero] at this
    · rw [fp', Function.update_of_ne fun eq => by have := inj eq; omega]
      exact links i (by omega)
    · rw [fp', Nat.zero_add, Function.update_self]
    · simp only [hstart, pageAddress, pageOffset]
      omega
  refine ⟨fresh.dead, ?_, ?_, fun q ne => ?_, ?_, ?_, ?_, ?_, fun {_ _ _ _ _} owned => ?_⟩
  · exact keep.2.1.trans (by rw [set]; rfl)
  · exact keep.2.2.trans (by rw [set]; rfl)
  · rw [pages', Function.update_of_ne ne]
  · rw [pages', Function.update_self]
  · rw [pages', Function.update_self]
  · rw [pages', Function.update_self]
  · rw [pages', Function.update_self]
    simp only [BitVec.toNat_ofNat]
    rw [Nat.mod_eq_of_lt small]
    exact which.imp (congrArg OrderObjects.objects) (congrArg OrderObjects.objects)
  · rw [pages'] at chain ⊢
    refine owned.addSlab valid fresh rfl ?_ chain fun y off => ?_
    · simp only [BitVec.toNat_ofNat]
      rwa [Nat.mod_eq_of_lt small]
    · rw [← pages', objects, List.mem_map] at off
      push Not at off
      have notHere : ∀ i ≤ n, y ≠ start + i * s.size := fun i hi =>
        (off i (List.mem_range'_1.mpr (by omega))).symm
      rw [fp', Function.update_of_ne (notHere n le_rfl), other y notHere, set]
      rfl

theorem newSlab_spec (valid : s.Valid) {first second : Option Nat}
    (fresh : FreshPages s st first second) :
    newSlab s st first second = (none, st) ∨
      ∃ page st', newSlab s st first second = (some page, st') ∧ NewSlab s st st' page := by
  unfold newSlab allocateSlab
  cases first with
  | some page =>
    exact .inr ⟨page, _, rfl, newSlab_of_page valid (fresh.oo page rfl) (.inl rfl) rfl rfl⟩
  | none =>
    cases second with
    | some page =>
      exact .inr ⟨page, _, rfl, newSlab_of_page valid (fresh.min page rfl) (.inr rfl) rfl rfl⟩
    | none => exact .inl rfl

/-- Nothing, or an object that no caller had. -/
def Allocates (s : Cache) (st : State) (allocated : List Nat) (r : Nat × State) : Prop :=
  (r.1 = 0 ∧ Outcome s st r.2 allocated) ∨
    (r.1 ≠ 0 ∧ r.1 ∉ allocated ∧ Outcome s st r.2 (r.1 :: allocated))

/-- The first object of the loose list is handed out and the rest is the list of
the processor. -/
theorem loadFreelist_allocates {st₁ : State} {object : Nat}
    (owned : Owned s st₁.freePointer st₁.pages allocated (some p) object loose held)
    (listed : Listed st₁.pages (some p) st₁.node) (here : st₁.cpu.page = some p)
    (notNull : object ≠ 0) (live : ∀ q, (st.pages q).live = true → (st₁.pages q).live = true) :
    Allocates s st allocated (loadFreelist st₁ object) := by
  obtain ⟨rest, rfl, -⟩ := owned.looseChain.eq_cons notNull
  refine .inr ⟨notNull, owned.not_allocated_of_loose List.mem_cons_self, .of_live ⟨rest, held, ?_, ?_⟩ live⟩
  · show Owned s st₁.freePointer st₁.pages _ st₁.cpu.page (st₁.freePointer object) _ _
    rw [here]
    exact owned.take
  · show Listed st₁.pages st₁.cpu.page st₁.node
    rw [here]
    exact listed

/-- A slab of the partial list becomes the page of the processor. -/
theorem acquireSlab_spec (valid : s.Valid)
    (owned : Owned s st.freePointer st.pages allocated none 0 [] held)
    (listed : Listed st.pages none st.node) (on : p ∈ st.node.slabs) :
    ∃ st₁, acquireSlab st p = some (true, st₁) ∧
      Allocates s st allocated (loadFreelist st₁ st₁.cpu.freelist) := by
  obtain ⟨live, unfrozen, free⟩ := (listed.member p).mp on
  have filled := owned.refill valid live true
  unfold acquireSlab
  dsimp only
  rw [cmpxchgDoubleSlab_self rfl]
  dsimp only
  rw [if_pos free]
  refine ⟨_, rfl, ?_⟩
  set st₁ := st.modifyPage p fun q => { q with
    freelist := 0
    counters := { (st.pages p).counters with
      inuse := (st.pages p).counters.objects.setWidth 16, frozen := true } } with hst₁
  have pages₁ : st₁.pages = Function.update st.pages p { st.pages p with
      freelist := 0
      counters := ⟨(st.pages p).counters.objects.setWidth 16, (st.pages p).counters.objects, true⟩ } := by
    rw [hst₁, modifyPage_pages]
  have owned₁ : Owned s st.freePointer st₁.pages allocated (some p) (st.pages p).freelist (held p)
      (Function.update held p []) := by
    rw [pages₁]
    exact filled
  refine loadFreelist_allocates owned₁ ?_ rfl free fun q hq => ?_
  · show Listed st₁.pages (some p) ⟨st.node.nrPartial - 1, st.node.slabs.erase p⟩
    rw [pages₁]
    exact listed.removePage (fun q ne => by simp [Ne.symm ne]) on (by simp) (by simp)
  · show (st₁.pages q).live = true
    rw [pages₁]
    by_cases eq : q = p
    · rw [eq, Function.update_self]
      exact live
    · rw [Function.update_of_ne eq]
      exact hq

/-- The new slab becomes the page of the processor. -/
theorem NewSlab.allocates (valid : s.Valid) {st' : State} {page : Nat} (new : NewSlab s st st' page)
    (owned : Owned s st.freePointer st.pages allocated none 0 [] held)
    (listed : Listed st.pages none st.node) {st₁ : State}
    (set : st₁ = st'.modifyPage page fun p => { p with
      freelist := 0, counters := { p.counters with inuse := p.counters.objects.setWidth 16 } }) :
    Allocates s st allocated (loadFreelist { st₁ with cpu := { st₁.cpu with page := some page } }
      (st'.pages page).freelist) := by
  have filled := (new.owned owned).refill valid new.live true
  have pages₁ : st₁.pages = Function.update st'.pages page { st'.pages page with
      freelist := 0
      counters := ⟨(st'.pages page).counters.objects.setWidth 16, (st'.pages page).counters.objects,
        true⟩ } := by
    rw [set, modifyPage_pages]
    dsimp only
    rw [new.frozen]
  have others : ∀ q, q ≠ page → st₁.pages q = st.pages q := fun q ne => by
    rw [pages₁, Function.update_of_ne ne, new.pages q ne]
  have self : st₁.pages page = { st'.pages page with
      freelist := 0
      counters := ⟨(st'.pages page).counters.objects.setWidth 16, (st'.pages page).counters.objects,
        true⟩ } := by
    rw [pages₁, Function.update_self]
  have off : page ∉ st.node.slabs := by
    rw [listed.member, new.dead]
    simp
  have fp₁ : st₁.freePointer = st'.freePointer := by rw [set]; rfl
  rw [← pages₁, ← fp₁] at filled
  refine loadFreelist_allocates filled ?_ rfl ?_ fun q hq => ?_
  · have whole : st₁.pages = Function.update st.pages page (st₁.pages page) := by
      funext q
      by_cases eq : q = page
      · rw [eq, Function.update_self]
      · rw [Function.update_of_ne eq, others q eq]
    have node₁ : st₁.node = st.node := by
      rw [set]
      exact new.node
    show Listed st₁.pages (some page) st₁.node
    rw [whole, node₁]
    refine listed.keepPage (fun q ne => by simp [Ne.symm ne]) (fun _ => by simp [self]) ?_
    simp [self, off]
  · rw [new.start, pageAddress, pageOffset]
    omega
  · show (st₁.pages q).live = true
    by_cases eq : q = page
    · rw [eq, self]
      exact new.live
    · rw [others q eq]
      exact hq

theorem slabAllocNew_spec (valid : s.Valid)
    (owned : Owned s st.freePointer st.pages allocated none 0 [] held)
    (listed : Listed st.pages none st.node) (cpu : st.cpu.page = none) (empty : st.cpu.freelist = 0)
    {first second : Option Nat} (fresh : FreshPages s st first second) (fuel : Nat) :
    ∃ r, slabAllocNew s st first second fuel = some r ∧ Allocates s st allocated r := by
  unfold slabAllocNew
  by_cases none : st.node.nrPartial = 0
  · have partial' : getPartialNode st = some (Option.none, st) := by rw [getPartialNode, if_pos none]
    rw [partial']
    dsimp only
    rcases newSlab_spec valid fresh with failed | ⟨page, st', made, new⟩
    · rw [failed]
      refine ⟨_, rfl, .inl ⟨rfl, .of_live ⟨[], held, ?_, ?_⟩ fun _ h => h⟩⟩
      · dsimp only
        rw [cpu, empty]
        exact owned
      · dsimp only
        rw [cpu]
        exact listed
    · rw [made]
      dsimp only
      have away : st'.cpu.page.isSome = false := by
        rw [new.cpu, cpu]
        rfl
      rw [away]
      exact ⟨_, rfl, new.allocates valid owned listed rfl⟩
  · obtain ⟨p, rest, slabs⟩ : ∃ p rest, st.node.slabs = p :: rest := by
      refine List.exists_cons_of_ne_nil fun nil => none ?_
      rw [listed.count, nil]
      rfl
    obtain ⟨st₁, acquired, allocates⟩ := acquireSlab_spec valid owned listed (p := p)
      (by rw [slabs]; exact List.mem_cons_self)
    have partial' : getPartialNode st = some (some p, st₁) := by
      rw [getPartialNode, if_neg none, slabs]
      dsimp only
      rw [acquired]
    rw [partial']
    exact ⟨_, rfl, allocates⟩

/-- What follows from a state whose slabs and objects are those of another. -/
theorem Outcome.since {st₁ st' : State} {allocated' : List Nat}
    (live : ∀ q, (st.pages q).live = true → (st₁.pages q).live = true)
    (objects : ∀ q, objectsOf s st₁.pages q = objectsOf s st.pages q)
    (outcome : Outcome s st₁ st' allocated') : Outcome s st st' allocated' := by
  refine ⟨outcome.inv, fun q here gone o inside => outcome.discarded q (live q here) gone o ?_⟩
  rwa [objects]

theorem Allocates.since {st₁ : State} {r : Nat × State}
    (live : ∀ q, (st.pages q).live = true → (st₁.pages q).live = true)
    (objects : ∀ q, objectsOf s st₁.pages q = objectsOf s st.pages q)
    (allocates : Allocates s st₁ allocated r) : Allocates s st allocated r := by
  rcases allocates with ⟨null, outcome⟩ | ⟨notNull, new, outcome⟩
  · exact .inl ⟨null, outcome.since live objects⟩
  · exact .inr ⟨notNull, new, outcome.since live objects⟩

theorem FreshPages.setPage {first second : Option Nat} (fresh : FreshPages s st first second)
    {st₁ : State} {page : SlabPage} (pages : st₁.pages = Function.update st.pages p page)
    (live : (st.pages p).live = true) (order : page.order = (st.pages p).order) :
    FreshPages s st₁ first second := by
  have keep : ∀ {x o}, Fresh st.pages x o → Fresh st₁.pages x o := by
    rintro x o ⟨dead, apart⟩
    have ne : x ≠ p := by
      rintro rfl
      rw [dead] at live
      cases live
    refine ⟨by rw [pages, Function.update_of_ne ne, dead], fun {q} liveq => ?_⟩
    rw [pages] at liveq ⊢
    by_cases eq : q = p
    · rw [eq, Function.update_self, order]
      exact apart live
    · rw [Function.update_of_ne eq] at liveq ⊢
      exact apart liveq
  exact ⟨fun page is => keep (fresh.oo page is), fun page is => keep (fresh.min page is)⟩

theorem slabAllocSlow_spec (valid : s.Valid) (inv : SlabInv s st allocated) (empty : st.cpu.freelist = 0)
    {first second : Option Nat} (fresh : FreshPages s st first second) (fuel : Nat) :
    ∃ r, slabAllocSlow s st first second fuel = some r ∧ Allocates s st allocated r := by
  obtain ⟨loose, held, owned, listed⟩ := inv
  rw [empty] at owned
  obtain rfl : loose = [] := (Chain.null_iff owned.looseChain).mp rfl
  unfold slabAllocSlow
  cases cpu : st.cpu.page with
  | none =>
    rw [cpu] at owned listed
    exact slabAllocNew_spec valid owned listed cpu empty fresh fuel
  | some p =>
    rw [cpu] at owned listed
    have live := owned.homeLive rfl
    have filled := owned.refill valid live (decide ((st.pages p).freelist ≠ 0))
    have off : p ∉ st.node.slabs := fun on => by
      have frozen := (listed.frozen live).mpr rfl
      rw [((listed.member p).mp on).2.1] at frozen
      cases frozen
    dsimp only
    rw [cmpxchgDoubleSlab_self rfl]
    dsimp only
    set st₁ := st.modifyPage p fun q => { q with
      freelist := 0
      counters := { (st.pages p).counters with
        inuse := (st.pages p).counters.objects.setWidth 16
        frozen := decide ((st.pages p).freelist ≠ 0) } } with hst₁
    have pages₁ : st₁.pages = Function.update st.pages p { st.pages p with
        freelist := 0
        counters := ⟨(st.pages p).counters.objects.setWidth 16, (st.pages p).counters.objects,
          decide ((st.pages p).freelist ≠ 0)⟩ } := by
      rw [hst₁, modifyPage_pages]
    have keeps : ∀ q, (st.pages q).live = true → (st₁.pages q).live = true := fun q here => by
      rw [pages₁]
      exact live_update (by exact live) here
    rw [← pages₁] at filled
    by_cases full : (st.pages p).freelist = 0
    · -- the page has no free object: it is given up unfrozen, and not on the list
      rw [if_pos full]
      have nothing : held p = [] := (Chain.null_iff (owned.chain live)).mp full
      rw [nothing] at filled
      have listed₁ : Listed st₁.pages none st₁.node := by
        rw [pages₁]
        refine listed.keepPage (fun q ne => by simp [Ne.symm ne]) (fun _ => by simp [full]) ?_
        simp [off]
      have objects : ∀ q, objectsOf s st₁.pages q = objectsOf s st.pages q := fun q => by
        rw [pages₁]
        exact objects_setPage (by rfl) q
      set st₂ : State := { st₁ with cpu := { st₁.cpu with page := none } } with hst₂
      have owned₂ : Owned s st₂.freePointer st₂.pages allocated none 0 [] (Function.update held p []) :=
        filled.letGo
      have fresh₂ : FreshPages s st₂ first second := fresh.setPage pages₁ live rfl
      obtain ⟨r, returns, allocates⟩ := slabAllocNew_spec valid owned₂ listed₁ rfl empty fresh₂ fuel
      refine ⟨r, returns, allocates.since ?_ ?_⟩
      · exact keeps
      · exact objects
    · rw [if_neg full]
      have listed₁ : Listed st₁.pages (some p) st₁.node := by
        rw [pages₁]
        refine listed.keepPage (fun q ne => Iff.rfl) (fun _ => by simp [full]) ?_
        simp [off]
      exact ⟨_, rfl, loadFreelist_allocates filled listed₁ cpu full keeps⟩

theorem SlabInv.write (valid : s.Valid) (inv : SlabInv s st allocated) (out : x ∈ allocated) (v : Nat) :
    SlabInv s (st.setFreepointer x v) allocated := by
  obtain ⟨loose, held, owned, listed⟩ := inv
  obtain ⟨p, live, inside⟩ := owned.ofLive x out
  obtain ⟨offLoose, offHeld⟩ := owned.off_lists valid live inside out
  exact ⟨loose, held, ⟨owned.looseChain.update offLoose,
    fun {q} liveq => (owned.chain liveq).update (offHeld liveq), owned.once, owned.ofPage, owned.ofHome,
    owned.ofLive, owned.homeLive, owned.inuse, owned.room, owned.apart⟩, listed⟩

theorem takeObject_spec (valid : s.Valid) (inv : SlabInv s st allocated) {first second : Option Nat}
    (fresh : FreshPages s st first second) (fuel : Nat) :
    ∃ r, takeObject s st first second fuel = some r ∧ Allocates s st allocated r := by
  unfold takeObject
  by_cases empty : st.cpu.freelist = 0
  · rw [if_pos empty]
    exact slabAllocSlow_spec valid inv empty fresh fuel
  · rw [if_neg empty, cpuCmpxchgDouble_self]
    obtain ⟨loose, held, owned, listed⟩ := inv
    obtain ⟨rest, rfl, -⟩ := owned.looseChain.eq_cons empty
    exact ⟨_, rfl, .inr ⟨empty, owned.not_allocated_of_loose List.mem_cons_self,
      .of_live ⟨rest, held, owned.take, listed⟩ fun _ live => live⟩⟩

theorem slabAlloc_spec (valid : s.Valid) (inv : SlabInv s st allocated) (zero : Bool)
    {first second : Option Nat} (fresh : FreshPages s st first second) (fuel : Nat) :
    ∃ r, slabAlloc s st zero first second fuel = some r ∧ Allocates s st allocated r := by
  obtain ⟨⟨object, st'⟩, returns, allocates⟩ := takeObject_spec valid inv fresh fuel
  refine ⟨_, by rw [slabAlloc, returns]; rfl, ?_⟩
  rcases allocates with ⟨null, outcome⟩ | ⟨notNull, new, outcome⟩
  · dsimp only at null outcome ⊢
    exact .inl ⟨null, by rw [if_neg (by simp [null])]; exact outcome⟩
  · dsimp only at notNull new outcome ⊢
    refine .inr ⟨notNull, new, ?_⟩
    dsimp only
    split
    · exact ⟨outcome.inv.write valid List.mem_cons_self _, outcome.discarded⟩
    · exact outcome

end XcKernel.Slub
