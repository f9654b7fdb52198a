import XcKernel.Slub.Frame

/-!
# Calls that are interrupted

`slab_alloc` and `slab_free` read the transaction id, the free list and the page
of the processor with interrupts enabled.  At each of these points a handler may
run to its end; it allocates and frees objects of the same cache.  Interrupts are
off in the compare-and-swaps, in `__slab_alloc`, and in `__slab_free` from the
moment it has taken the lock of the node.

The transaction id does not tell everything.  `__slab_alloc` does not look again
whether the free list of the processor is still empty, and a `__slab_alloc` that
fails drops the page of the processor under the same transaction id.
-/

namespace XcKernel.Slub

open State

/-- A call of a handler.  The objects in `busy` are in the hands of the interrupted call. -/
inductive HandlerStep (s : Cache) (busy : List Nat) : Tracked → Tracked → Prop where
  | alloc (t : Tracked) (zero : Bool) (first second : Option Nat) (fuel : Nat) (r : Nat × State)
      (fresh : FreshPages s t.st first second)
      (returns : slabAlloc s t.st zero first second fuel = some r) :
      HandlerStep s busy t ⟨r.2, if r.1 = 0 then t.allocated else r.1 :: t.allocated⟩
  | free (t : Tracked) (page x : Nat) (st' : State) (live : (t.st.pages page).live = true)
      (inside : x ∈ objectsOf s t.st.pages page) (out : x ∈ t.allocated) (own : x ∉ busy)
      (returns : slabFree s t.st page x = some st') :
      HandlerStep s busy t ⟨st', t.allocated.erase x⟩

/-- How far a call advances the transaction id. -/
def ticks (t t' : Tracked) : Nat := (t'.st.cpu.tid - t.st.cpu.tid).toNat

/-- A handler that runs to its end and advances the transaction id `n` times. -/
inductive Handler (s : Cache) (busy : List Nat) : Nat → Tracked → Tracked → Prop where
  | done (t : Tracked) : Handler s busy 0 t t
  | call {n : Nat} {t t₁ t₂ : Tracked} (step : HandlerStep s busy t t₁)
      (rest : Handler s busy n t₁ t₂) : Handler s busy (ticks t t₁ + n) t t₂

/-- What the state has to be when interrupts go off: in `__slab_alloc`, and in the
compare-and-swap of `slab_free` for the page and the transaction id it has read. -/
structure Guard where
  alloc : State → Prop
  free : (page : Nat) → (tid : BitVec 32) → State → Prop

/-- Nothing is asked for. -/
def Guard.none : Guard := ⟨fun _ => True, fun _ _ _ => True⟩

/-- The free list of the processor is still empty; the page of the processor is still
the one of the object unless the transaction id has changed. -/
def Guard.steady : Guard :=
  ⟨fun st => st.cpu.freelist = 0, fun page tid st => st.cpu.tid = tid → st.cpu.page = some page⟩

/-- `slab_alloc` up to the clearing of the object, with what it returns.  The
transaction id is read in the first state, the free list after the first handler. -/
inductive Takes (s : Cache) (g : Guard) : Tracked → Nat → Tracked → Prop where
  | slow {n₁ n₂ : Nat} {t t₁ t₂ : Tracked} (h₁ : Handler s [] n₁ t t₁)
      (null : t₁.st.cpu.freelist = 0) (h₂ : Handler s [] n₂ t₁ t₂) (guard : g.alloc t₂.st)
      {first second : Option Nat} {fuel : Nat} {r : Nat × State}
      (fresh : FreshPages s t₂.st first second)
      (returns : slabAllocSlow s t₂.st first second fuel = some r) :
      Takes s g t r.1 ⟨r.2, if r.1 = 0 then t₂.allocated else r.1 :: t₂.allocated⟩
  | fast {n₁ n₂ : Nat} {t t₁ t₂ : Tracked} (h₁ : Handler s [] n₁ t t₁)
      (object : t₁.st.cpu.freelist ≠ 0) (h₂ : Handler s [] n₂ t₁ t₂) {st' : State}
      (swap : t₂.st.cpuCmpxchgDouble t₁.st.cpu.freelist t.st.cpu.tid
        (t₂.st.getFreepointer t₁.st.cpu.freelist) (nextTid t.st.cpu.tid) = (true, st')) :
      Takes s g t t₁.st.cpu.freelist ⟨st', t₁.st.cpu.freelist :: t₂.allocated⟩
  | redo {n₁ n₂ : Nat} {t t₁ t₂ t' : Tracked} (h₁ : Handler s [] n₁ t t₁)
      (object : t₁.st.cpu.freelist ≠ 0) (h₂ : Handler s [] n₂ t₁ t₂) {st' : State}
      (swap : t₂.st.cpuCmpxchgDouble t₁.st.cpu.freelist t.st.cpu.tid
        (t₂.st.getFreepointer t₁.st.cpu.freelist) (nextTid t.st.cpu.tid) = (false, st'))
      {x : Nat} (again : Takes s g t₂ x t') : Takes s g t x t'

/-- A point of `__slab_free`; with the lock of the node interrupts are off. -/
def Window (s : Cache) (x : Nat) (locked : Bool) (t t' : Tracked) : Prop :=
  if locked then t' = t else ∃ n, Handler s [x] n t t'

/-- Does a round of `__slab_free` need the lock of the node? -/
def needsNode (prior : Nat) (counters : Counters) : Bool :=
  (counters.inuse - 1 = 0 ∨ prior = 0) ∧ ¬ counters.frozen

/-- `__slab_free` after its compare-and-swap -/
def slabFreeRest (s : Cache) (st : State) (page prior : Nat) (counters : Counters)
    (locked : Bool) : State :=
  if ¬ locked then st
  else if counters.frozen then st
  else if counters.inuse - 1 = 0 ∧ st.node.nrPartial > s.minPartial then
    discardSlab s (if prior ≠ 0 then st.removePartial page else st) page
  else if prior = 0 then st.addPartial page true
  else st

/-- `__slab_free`: the free list and the counters of the page are read, the object is
linked, and the pair is put in place.  A lock once taken is kept for the next round. -/
inductive FreesSlow (s : Cache) (page x : Nat) : Bool → Tracked → Tracked → Prop where
  | done {locked : Bool} {t t₁ t₂ t₃ : Tracked} (h₁ : Window s x locked t t₁)
      (h₂ : Window s x locked t₁ t₂)
      (h₃ : Window s x locked
        ⟨t₂.st.setFreepointer x (t.st.pages page).freelist, t₂.allocated⟩ t₃) {st' : State}
      (swap : t₃.st.cmpxchgDoubleSlab page (t.st.pages page).freelist (t₁.st.pages page).counters x
        { (t₁.st.pages page).counters with inuse := (t₁.st.pages page).counters.inuse - 1 } =
          (true, st')) :
      FreesSlow s page x locked t
        ⟨slabFreeRest s st' page (t.st.pages page).freelist (t₁.st.pages page).counters
          (locked || needsNode (t.st.pages page).freelist (t₁.st.pages page).counters),
          t₃.allocated.erase x⟩
  | redo {locked : Bool} {t t₁ t₂ t₃ t' : Tracked} (h₁ : Window s x locked t t₁)
      (h₂ : Window s x locked t₁ t₂)
      (h₃ : Window s x locked
        ⟨t₂.st.setFreepointer x (t.st.pages page).freelist, t₂.allocated⟩ t₃) {st' : State}
      (swap : t₃.st.cmpxchgDoubleSlab page (t.st.pages page).freelist (t₁.st.pages page).counters x
        { (t₁.st.pages page).counters with inuse := (t₁.st.pages page).counters.inuse - 1 } =
          (false, st'))
      (again : FreesSlow s page x
        (locked || needsNode (t.st.pages page).freelist (t₁.st.pages page).counters) t₃ t') :
      FreesSlow s page x locked t t'

/-- `slab_free`.  The compare-and-swap reads the old free list itself, so that only the
transaction id is compared; it is taken not to come round in one try. -/
inductive Frees (s : Cache) (g : Guard) (page x : Nat) : Tracked → Tracked → Prop where
  | fast {n₁ n₂ n₃ n₄ : Nat} {t t₁ t₂ t₃ t₄ : Tracked} (h₁ : Handler s [x] n₁ t t₁)
      (here : t₁.st.cpu.page = some page) (h₂ : Handler s [x] n₂ t₁ t₂)
      (h₃ : Handler s [x] n₃ t₂ t₃)
      (h₄ : Handler s [x] n₄ ⟨t₃.st.setFreepointer x t₂.st.cpu.freelist, t₃.allocated⟩ t₄)
      (noWrap : n₁ + n₂ + n₃ + n₄ < 2 ^ 32) (guard : g.free page t.st.cpu.tid t₄.st) {st' : State}
      (swap : t₄.st.cpuCmpxchgDouble t₄.st.cpu.freelist t.st.cpu.tid x (nextTid t.st.cpu.tid) =
        (true, st')) : Frees s g page x t ⟨st', t₄.allocated.erase x⟩
  | redo {n₁ n₂ n₃ n₄ : Nat} {t t₁ t₂ t₃ t₄ t' : Tracked} (h₁ : Handler s [x] n₁ t t₁)
      (here : t₁.st.cpu.page = some page) (h₂ : Handler s [x] n₂ t₁ t₂)
      (h₃ : Handler s [x] n₃ t₂ t₃)
      (h₄ : Handler s [x] n₄ ⟨t₃.st.setFreepointer x t₂.st.cpu.freelist, t₃.allocated⟩ t₄)
      {st' : State}
      (swap : t₄.st.cpuCmpxchgDouble t₄.st.cpu.freelist t.st.cpu.tid x (nextTid t.st.cpu.tid) =
        (false, st')) (again : Frees s g page x t₄ t') : Frees s g page x t t'
  | slow {n₁ n₂ : Nat} {t t₁ t₂ t' : Tracked} (h₁ : Handler s [x] n₁ t t₁)
      (other : t₁.st.cpu.page ≠ some page) (h₂ : Handler s [x] n₂ t₁ t₂)
      (frees : FreesSlow s page x false t₂ t') : Frees s g page x t t'

/-- One step of a run whose calls may be interrupted. -/
inductive InterruptedStep (s : Cache) (g : Guard) : Tracked → Tracked → Prop where
  /-- `slab_alloc`; a handler may still run before the object is cleared. -/
  | alloc {t t₁ t₂ : Tracked} {object n : Nat} (takes : Takes s g t object t₁)
      (h : Handler s (if object = 0 then [] else [object]) n t₁ t₂) (zero : Bool) :
      InterruptedStep s g t
        ⟨if zero ∧ object ≠ 0 then zeroObject s t₂.st object else t₂.st, t₂.allocated⟩
  /-- `slab_free` of an object that is allocated -/
  | free {t t' : Tracked} {page x : Nat} (live : (t.st.pages page).live = true)
      (inside : x ∈ objectsOf s t.st.pages page) (out : x ∈ t.allocated)
      (frees : Frees s g page x t t') : InterruptedStep s g t t'
  /-- A call that nothing interrupts, or writes of others. -/
  | plain {t t' : Tracked} (step : SlabStep s t t') : InterruptedStep s g t t'

variable {s : Cache} {busy : List Nat} {t t' : Tracked} {x page : Nat}

/-- The interrupted call finds its objects as they were, and a transaction id that has
moved as often as the handler moved it. -/
structure Handled (s : Cache) (busy : List Nat) (n : Nat) (t t' : Tracked) : Prop where
  inv : SlabInv s t'.st t'.allocated
  allocated : ∀ x ∈ busy, x ∈ t'.allocated
  links : ∀ x ∈ busy, t'.st.freePointer x = t.st.freePointer x
  inside : ∀ x ∈ busy, ∀ {p}, (t.st.pages p).live = true → x ∈ objectsOf s t.st.pages p →
    (t'.st.pages p).live = true ∧ x ∈ objectsOf s t'.st.pages p
  tid : t'.st.cpu.tid = t.st.cpu.tid + BitVec.ofNat 32 n
  quiet : n = 0 → Quiet t.st t'.st

theorem Handled.refl (inv : SlabInv s t.st t.allocated) (out : ∀ x ∈ busy, x ∈ t.allocated) :
    Handled s busy 0 t t :=
  ⟨inv, out, fun _ _ => rfl, fun _ _ _ live inside => ⟨live, inside⟩, by simp,
    fun _ => Quiet.refl _⟩

theorem Handled.trans {n m : Nat} {t₁ t₂ : Tracked} (h : Handled s busy n t t₁)
    (h' : Handled s busy m t₁ t₂) : Handled s busy (n + m) t t₂ := by
  refine ⟨h'.inv, h'.allocated, fun x on => (h'.links x on).trans (h.links x on),
    fun x on {p} live inside => ?_, ?_, fun zero => ?_⟩
  · obtain ⟨live₁, inside₁⟩ := h.inside x on live inside
    exact h'.inside x on live₁ inside₁
  · rw [h'.tid, h.tid, BitVec.ofNat_add, BitVec.add_assoc]
  · exact (h.quiet (by omega)).trans (h'.quiet (by omega))

theorem ticks_spec (frame : t'.st.cpu.tid = nextTid t.st.cpu.tid ∨ Quiet t.st t'.st) :
    t'.st.cpu.tid = t.st.cpu.tid + BitVec.ofNat 32 (ticks t t') ∧
      (ticks t t' = 0 → Quiet t.st t'.st) := by
  constructor
  · rw [ticks, BitVec.ofNat_toNat, BitVec.setWidth_eq, BitVec.add_comm, BitVec.sub_add_cancel]
  · intro zero
    rcases frame with next | quiet
    · rw [ticks, next, nextTid, BitVec.add_comm, BitVec.add_sub_cancel] at zero
      cases zero
    · exact quiet

theorem HandlerStep.toSlabStep (step : HandlerStep s busy t t') : SlabStep s t t' := by
  cases step with
  | alloc zero first second fuel r fresh returns =>
    exact .alloc t zero first second fuel r fresh returns
  | free page x st' live inside out own returns => exact .free t page x st' live inside out returns

theorem HandlerStep.handled (valid : s.Valid) (inv : SlabInv s t.st t.allocated)
    (out : ∀ x ∈ busy, x ∈ t.allocated) (step : HandlerStep s busy t t') :
    Handled s busy (ticks t t') t t' := by
  have outcome := inv.step valid step.toSlabStep
  -- an object in use keeps its slab
  have stays : ∀ x ∈ t'.allocated, ∀ {p}, (t.st.pages p).live = true →
      x ∈ objectsOf s t.st.pages p → (t'.st.pages p).live = true := by
    intro x on p live inside
    by_contra gone
    exact outcome.discarded p live (by simpa using gone) x inside on
  -- what is left: the object of the call is none of the busy ones
  have conclude : ∀ touched, CallFrame s t.st t'.st touched → (∀ x ∈ busy, x ∈ t'.allocated) →
      (∀ x ∈ busy, x ≠ touched) → Handled s busy (ticks t t') t t' := by
    intro touched frame out' apart
    obtain ⟨tid, quiet⟩ := ticks_spec frame.tid
    refine ⟨outcome.inv, out', fun x on => ?_, fun x on {p} live inside => ?_, tid, quiet⟩
    · obtain ⟨loose, held, owned, -⟩ := inv
      obtain ⟨p, live, inside⟩ := owned.ofLive x (out x on)
      exact frame.links live x inside (apart x on)
    · have live' := stays x (out' x on) live inside
      exact ⟨live', frame.inside live live' inside⟩
  cases step with
  | alloc zero first second fuel r fresh returns =>
    have new : ∀ x ∈ busy, x ≠ r.1 := by
      intro x on eq
      obtain ⟨r', returns', allocates⟩ := slabAlloc_spec valid inv zero fresh fuel
      obtain rfl := Option.some.inj (returns'.symm.trans returns)
      rcases allocates with ⟨null, -⟩ | ⟨-, notOut, -⟩
      · obtain ⟨loose, held, owned, -⟩ := inv
        obtain ⟨p, -, inside⟩ := owned.ofLive x (out x on)
        exact ne_zero_of_mem inside (eq.trans null)
      · exact notOut (eq ▸ out x on)
    refine conclude r.1 (slabAlloc_frame valid inv fresh returns) (fun x on => ?_) new
    dsimp only
    split
    · exact out x on
    · exact List.mem_cons_of_mem _ (out x on)
  | free page y st' live inside outy own returns =>
    have other : ∀ x ∈ busy, x ≠ y := by
      rintro x on rfl
      exact own on
    exact conclude y (slabFree_frame returns)
      (fun x on => (List.mem_erase_of_ne (other x on)).mpr (out x on)) other

theorem Handler.handled (valid : s.Valid) {n : Nat} (h : Handler s busy n t t')
    (inv : SlabInv s t.st t.allocated) (out : ∀ x ∈ busy, x ∈ t.allocated) :
    Handled s busy n t t' := by
  induction h with
  | done t => exact .refl inv out
  | call step rest ih =>
    have first := step.handled valid inv out
    exact first.trans (ih first.inv first.allocated)

theorem Handler.inv (valid : s.Valid) {n : Nat} (h : Handler s [] n t t')
    (inv : SlabInv s t.st t.allocated) : SlabInv s t'.st t'.allocated :=
  (h.handled valid inv (by simp)).inv

theorem still_of_tid {tid tid' : BitVec 32} {n : Nat} (moves : tid' = tid + BitVec.ofNat 32 n)
    (noWrap : n < 2 ^ 32) (same : tid' = tid) : n = 0 := by
  have moved := congrArg BitVec.toNat (moves.symm.trans same)
  rw [BitVec.toNat_add, BitVec.toNat_ofNat] at moved
  have := tid.isLt
  omega

theorem cpuCmpxchgDouble_true {st st' : State} {freelistOld freelistNew : Nat}
    {tidOld tidNew : BitVec 32}
    (swap : st.cpuCmpxchgDouble freelistOld tidOld freelistNew tidNew = (true, st')) :
    st.cpu.freelist = freelistOld ∧ st.cpu.tid = tidOld ∧
      st' = { st with cpu := { st.cpu with freelist := freelistNew, tid := tidNew } } := by
  unfold cpuCmpxchgDouble at swap
  split at swap
  · rename_i same
    exact ⟨same.1, same.2, (Prod.mk.inj swap).2.symm⟩
  · cases swap

/-- The next object is read in the compare-and-swap, so that a free list that is the
same again is as good as one that never changed. -/
theorem Takes.inv (valid : s.Valid) {object : Nat} (takes : Takes s .steady t object t')
    (inv : SlabInv s t.st t.allocated) :
    SlabInv s t'.st t'.allocated ∧ (object ≠ 0 → object ∈ t'.allocated) := by
  induction takes with
  | slow h₁ null h₂ guard fresh returns =>
    rename_i r
    have inv₂ := h₂.inv valid (h₁.inv valid inv)
    obtain ⟨r', returns', allocates⟩ := slabAllocSlow_spec valid inv₂ guard fresh _
    obtain rfl := Option.some.inj (returns'.symm.trans returns)
    rcases allocates with ⟨null, outcome⟩ | ⟨notNull, -, outcome⟩
    · rw [if_pos null]
      exact ⟨outcome.inv, fun notNull => absurd null notNull⟩
    · rw [if_neg notNull]
      exact ⟨outcome.inv, fun _ => List.mem_cons_self⟩
  | fast h₁ object h₂ swap =>
    obtain ⟨loose, held, owned, listed⟩ := h₂.inv valid (h₁.inv valid inv)
    obtain ⟨same, -, rfl⟩ := cpuCmpxchgDouble_true swap
    rw [same] at owned
    obtain ⟨rest, rfl, -⟩ := owned.looseChain.eq_cons object
    exact ⟨⟨rest, held, owned.take, listed⟩, fun _ => List.mem_cons_self⟩
  | redo h₁ object h₂ swap again ih => exact ih (h₂.inv valid (h₁.inv valid inv))

theorem slabFreeSlow_home {st : State} {allocated : List Nat} (valid : s.Valid)
    (inv : SlabInv s st allocated) (here : st.cpu.page = some page)
    (inside : x ∈ objectsOf s st.pages page) (out : x ∈ allocated) :
    ∃ st', slabFreeSlow s st page x = some st' ∧ SlabInv s st' (allocated.erase x) := by
  obtain ⟨loose, held, owned, listed⟩ := inv
  have live := owned.homeLive here
  have frozen : (st.pages page).counters.frozen = true := (listed.frozen live).mpr here
  have off : page ∉ st.node.slabs := by
    intro on
    rw [((listed.member page).mp on).2.1] at frozen
    cases frozen
  have given := owned.givePage valid live inside out (st.pages page).counters.frozen
  unfold slabFreeSlow
  dsimp only
  rw [cmpxchgDoubleSlab_self (st.setFreepointer_pages x _)]
  dsimp only
  set st₁ := (st.setFreepointer x (st.pages page).freelist).modifyPage page fun q => { q with
    freelist := x
    counters := { (st.pages page).counters with inuse := (st.pages page).counters.inuse - 1 } } with hst₁
  have pages₁ : st₁.pages = Function.update st.pages page { st.pages page with
      freelist := x
      counters := ⟨(st.pages page).counters.inuse - 1, (st.pages page).counters.objects,
        (st.pages page).counters.frozen⟩ } := by
    rw [hst₁, modifyPage_pages, setFreepointer_pages]
  rw [if_pos (by simp [frozen])]
  refine ⟨st₁, rfl, loose, _, by rw [pages₁]; exact given, ?_⟩
  show Listed st₁.pages st.cpu.page st.node
  rw [pages₁]
  refine listed.keepPage (fun _ _ => Iff.rfl) (fun _ => by simp [frozen, here]) ?_
  simp [off, frozen]

theorem slabFreeSlow_inv {st : State} {allocated : List Nat} (valid : s.Valid)
    (inv : SlabInv s st allocated) (live : (st.pages page).live = true)
    (inside : x ∈ objectsOf s st.pages page) (out : x ∈ allocated) :
    ∃ st', slabFreeSlow s st page x = some st' ∧ SlabInv s st' (allocated.erase x) := by
  by_cases here : st.cpu.page = some page
  · exact slabFreeSlow_home valid inv here inside out
  · obtain ⟨st', returns, outcome⟩ := slabFreeSlow_spec valid inv live here inside out
    exact ⟨st', returns, outcome.inv⟩

/-- Where the compare-and-swap succeeds, the call has done what it does undisturbed. -/
theorem slabFreeRest_eq {st st' : State} {prior : Nat} {counters : Counters} (locked : Bool)
    (linked : st.freePointer x = prior)
    (swap : st.cmpxchgDoubleSlab page prior counters x
      { counters with inuse := counters.inuse - 1 } = (true, st')) :
    slabFreeSlow s st page x =
      some (slabFreeRest s st' page prior counters (locked || needsNode prior counters)) := by
  have current : (st.pages page).freelist = prior ∧ (st.pages page).counters = counters := by
    unfold cmpxchgDoubleSlab at swap
    split at swap
    · assumption
    · cases swap
  have same : st.setFreepointer x prior = st := by
    rw [setFreepointer, ← linked, Function.update_eq_self]
  unfold slabFreeSlow
  dsimp only
  rw [current.1, current.2, same, swap]
  dsimp only
  by_cases node : (counters.inuse - 1 = 0 ∨ prior = 0) ∧ ¬ counters.frozen = true
  · have needs : needsNode prior counters = true := decide_eq_true node
    have unlocked : ¬ ¬ true = true := by simp
    rw [if_neg (not_not.mpr node), needs, Bool.or_true, slabFreeRest, if_neg unlocked,
      if_neg node.2]
    split_ifs <;> rfl
  · -- a lock from an earlier round finds nothing to do
    have idle : slabFreeRest s st' page prior counters (locked || needsNode prior counters) = st' := by
      have needs : needsNode prior counters = false := decide_eq_false node
      rw [slabFreeRest, needs, Bool.or_false]
      by_cases frozen : counters.frozen = true
      · simp [frozen]
      · have busy : ¬ counters.inuse - 1 = 0 ∧ ¬ prior = 0 := not_or.mp fun either => node ⟨either, frozen⟩
        have used : ¬ (counters.inuse - 1 = 0 ∧ st'.node.nrPartial > s.minPartial) :=
          fun both => busy.1 both.1
        rw [if_neg frozen, if_neg used, if_neg busy.2, ite_self]
    rw [if_pos node, idle]

/-- The interrupted call has its object still, in its slab. -/
structure Holding (s : Cache) (page x : Nat) (t : Tracked) : Prop where
  inv : SlabInv s t.st t.allocated
  live : (t.st.pages page).live = true
  inside : x ∈ objectsOf s t.st.pages page
  out : x ∈ t.allocated

theorem Holding.handled (valid : s.Valid) (h : Holding s page x t) {n : Nat}
    (run : Handler s [x] n t t') : Holding s page x t' ∧ Handled s [x] n t t' := by
  have handled := run.handled valid h.inv (by simpa using h.out)
  obtain ⟨live, inside⟩ := handled.inside x List.mem_cons_self h.live h.inside
  exact ⟨⟨handled.inv, live, inside, handled.allocated x List.mem_cons_self⟩, handled⟩

theorem Holding.window (valid : s.Valid) (h : Holding s page x t) {locked : Bool}
    (run : Window s x locked t t') :
    Holding s page x t' ∧ t'.st.freePointer x = t.st.freePointer x := by
  unfold Window at run
  split at run
  · subst run
    exact ⟨h, rfl⟩
  · obtain ⟨n, run⟩ := run
    obtain ⟨holding, handled⟩ := h.handled valid run
    exact ⟨holding, handled.links x List.mem_cons_self⟩

theorem Holding.link (valid : s.Valid) (h : Holding s page x t) (v : Nat) :
    Holding s page x ⟨t.st.setFreepointer x v, t.allocated⟩ :=
  ⟨h.inv.write valid h.out v, h.live, h.inside, h.out⟩

theorem FreesSlow.inv (valid : s.Valid) {locked : Bool} (frees : FreesSlow s page x locked t t')
    (h : Holding s page x t) : SlabInv s t'.st t'.allocated := by
  induction frees with
  | done h₁ h₂ h₃ swap =>
    rename_i locked t t₁ t₂ t₃ st'
    obtain ⟨holding₁, -⟩ := h.window valid h₁
    obtain ⟨holding₂, -⟩ := holding₁.window valid h₂
    obtain ⟨holding₃, linked⟩ := (holding₂.link valid (t.st.pages page).freelist).window valid h₃
    rw [show (t₂.st.setFreepointer x (t.st.pages page).freelist).freePointer x =
      (t.st.pages page).freelist from Function.update_self _ _ _] at linked
    obtain ⟨st'', returns, inv⟩ := slabFreeSlow_inv valid holding₃.inv holding₃.live holding₃.inside
      holding₃.out
    rw [slabFreeRest_eq locked linked swap] at returns
    rw [Option.some.inj returns]
    exact inv
  | redo h₁ h₂ h₃ swap again ih =>
    obtain ⟨holding₁, -⟩ := h.window valid h₁
    obtain ⟨holding₂, -⟩ := holding₁.window valid h₂
    obtain ⟨holding₃, -⟩ := (holding₂.link valid _).window valid h₃
    exact ih holding₃

/-- Under the transaction id it has read, and with the page still that of the processor,
the compare-and-swap puts the object in front of the list it was linked to. -/
theorem Frees.inv (valid : s.Valid) (frees : Frees s .steady page x t t')
    (h : Holding s page x t) : SlabInv s t'.st t'.allocated := by
  induction frees with
  | fast h₁ here h₂ h₃ h₄ noWrap guard swap =>
    rename_i n₁ n₂ n₃ n₄ t t₁ t₂ t₃ t₄ st'
    obtain ⟨holding₁, handled₁⟩ := h.handled valid h₁
    obtain ⟨holding₂, handled₂⟩ := holding₁.handled valid h₂
    obtain ⟨holding₃, handled₃⟩ := holding₂.handled valid h₃
    obtain ⟨holding₄, handled₄⟩ := (holding₃.link valid t₂.st.cpu.freelist).handled valid h₄
    obtain ⟨-, same, rfl⟩ := cpuCmpxchgDouble_true swap
    have page₄ : t₄.st.cpu.page = some page := guard same
    have total : t₄.st.cpu.tid = t.st.cpu.tid + BitVec.ofNat 32 (n₁ + n₂ + n₃ + n₄) := by
      rw [handled₄.tid]
      show t₃.st.cpu.tid + BitVec.ofNat 32 n₄ = _
      rw [((handled₁.trans handled₂).trans handled₃).tid, BitVec.ofNat_add _ n₄, BitVec.add_assoc]
    have none : n₁ + n₂ + n₃ + n₄ = 0 := still_of_tid total noWrap same
    have freelist : t₄.st.cpu.freelist = t₂.st.cpu.freelist :=
      (handled₄.quiet (by omega)).freelist.trans (handled₃.quiet (by omega)).freelist
    have linked : t₄.st.freePointer x = t₄.st.cpu.freelist := by
      rw [handled₄.links x List.mem_cons_self, freelist]
      exact Function.update_self _ _ _
    obtain ⟨loose, held, owned, listed⟩ := holding₄.inv
    have given := owned.giveLoose valid page₄ holding₄.inside holding₄.out
    rw [← linked, Function.update_eq_self] at given
    exact ⟨x :: loose, held, given, listed⟩
  | redo h₁ here h₂ h₃ h₄ swap again ih =>
    obtain ⟨holding₁, -⟩ := h.handled valid h₁
    obtain ⟨holding₂, -⟩ := holding₁.handled valid h₂
    obtain ⟨holding₃, -⟩ := holding₂.handled valid h₃
    exact ih ((holding₃.link valid _).handled valid h₄).1
  | slow h₁ other h₂ frees =>
    obtain ⟨holding₁, -⟩ := h.handled valid h₁
    exact frees.inv valid (holding₁.handled valid h₂).1

theorem InterruptedStep.inv (valid : s.Valid) (step : InterruptedStep s .steady t t')
    (inv : SlabInv s t.st t.allocated) : SlabInv s t'.st t'.allocated := by
  cases step with
  | alloc takes h zero =>
    rename_i t₁ t₂ object n
    obtain ⟨inv₁, out⟩ := takes.inv valid inv
    have handled := h.handled valid inv₁ (by
      intro x on
      split at on
      · cases on
      · rename_i notNull
        rw [List.mem_singleton.mp on]
        exact out notNull)
    dsimp only
    split
    · rename_i clear
      refine handled.inv.write valid (handled.allocated object ?_) _
      rw [if_neg clear.2]
      exact List.mem_cons_self
    · exact handled.inv
  | free live inside out frees => exact frees.inv valid ⟨inv, live, inside, out⟩
  | plain step => exact (inv.step valid step).inv

/-- Every object of a slab is in one place, and the free list of the processor holds
objects of its page only. -/
structure InOnePlace (s : Cache) (t : Tracked) : Prop where
  objects : ∃ (loose : List Nat) (held : Nat → List Nat),
    Chain 0 t.st.freePointer t.st.cpu.freelist loose ∧
    (∀ o ∈ loose, ∃ p, t.st.cpu.page = some p ∧ (t.st.pages p).live = true ∧
      o ∈ objectsOf s t.st.pages p) ∧
    ∀ p, (t.st.pages p).live = true →
      Chain 0 t.st.freePointer (t.st.pages p).freelist (held p) ∧
      (∀ o ∈ held p, o ∈ objectsOf s t.st.pages p) ∧
      ∀ o ∈ objectsOf s t.st.pages p, t.allocated.count o + loose.count o + (held p).count o = 1
  allocated : ∀ o ∈ t.allocated, ∃ p, (t.st.pages p).live = true ∧ o ∈ objectsOf s t.st.pages p

theorem SlabInv.inOnePlace (inv : SlabInv s t.st t.allocated) : InOnePlace s t := by
  obtain ⟨loose, held, owned, -⟩ := inv
  refine ⟨⟨loose, held, owned.looseChain, fun o on => ?_, fun p live =>
    ⟨owned.chain live, owned.ofPage live, owned.once live⟩⟩, owned.ofLive⟩
  obtain ⟨p, here, inside⟩ := owned.ofHome o on
  exact ⟨p, here, owned.homeLive here, inside⟩

/-- Interrupted or not, calls keep every object in one place as long as the free list
of the processor is empty when `__slab_alloc` starts and the page of the processor
does not go away under a `slab_free` without a change of the transaction id. -/
theorem slab_interrupted_runs (valid : s.Valid) {t₀ : Tracked} (opened : Opened s t₀)
    (run : Relation.ReflTransGen (InterruptedStep s .steady) t₀ t) : InOnePlace s t := by
  have inv : SlabInv s t.st t.allocated :=
    invariant_of_run (fun t => SlabInv s t.st t.allocated)
      (fun _ _ inv step => step.inv valid inv) (opened.inv valid) run
  exact inv.inOnePlace

theorem pairFirst_spec : ∃ r, pairFirst = some r ∧ r.1 = pageAddress 5 ∧
    r.2.cpu = ⟨pageAddress 5 + 2048, 1, some 5⟩ ∧ (r.2.pages 5).order = 0 ∧
    ∀ q, q ≠ 5 → (r.2.pages q).live = false := by
  refine ⟨_, rfl, by decide +kernel, by decide +kernel, by decide +kernel, fun q ne => ?_⟩
  simp [modifyPage, setFreepointer, ne, pairStart, loadFreelist, linkObjects, pairCache,
    List.range_succ]

theorem pairFirst_handler {r : Nat × State} (returns : pairFirst = some r)
    (object : r.1 = pageAddress 5) :
    ∃ n, Handler pairCache [] n ⟨pairStart, []⟩ ⟨r.2, [pageAddress 5]⟩ := by
  have step : HandlerStep pairCache [] ⟨pairStart, []⟩ _ :=
    .alloc _ false (some 5) none 0 r ⟨fun _ _ => ⟨rfl, nofun⟩, nofun⟩ returns
  rw [object, if_neg (by decide)] at step
  exact ⟨_, .call step (.done _)⟩

/-- A handler takes an object between the reads of the transaction id and of the free
list; the compare-and-swap fails and the second try takes the other object. -/
theorem slab_interrupted_runs_pair :
    ∃ t, Relation.ReflTransGen (InterruptedStep pairCache .steady) ⟨pairStart, []⟩ t ∧
      t.allocated = [pageAddress 5 + 2048, pageAddress 5] ∧ InOnePlace pairCache t := by
  obtain ⟨r, returns, object, cpu, -, -⟩ := pairFirst_spec
  obtain ⟨n, handler⟩ := pairFirst_handler returns object
  have freelist : r.2.cpu.freelist = pageAddress 5 + 2048 := by rw [cpu]
  have moved : r.2.cpu.tid ≠ pairStart.cpu.tid := by
    rw [cpu]
    decide
  have notNull : r.2.cpu.freelist ≠ 0 := by
    rw [freelist]
    decide
  have again : Takes pairCache .steady ⟨r.2, [pageAddress 5]⟩ r.2.cpu.freelist
      ⟨_, r.2.cpu.freelist :: [pageAddress 5]⟩ :=
    .fast (.done _) notNull (.done _) (cpuCmpxchgDouble_self _ _ _)
  have takes : Takes pairCache .steady ⟨pairStart, []⟩ r.2.cpu.freelist _ :=
    .redo handler notNull (.done _) (if_neg fun same => moved same.2) again
  have run := Relation.ReflTransGen.single (InterruptedStep.alloc takes (.done _) false)
  refine ⟨_, run, by rw [freelist], ?_⟩
  exact slab_interrupted_runs pairCache_valid (.empty pairStart pairStart_empty) run

/-- `slab_alloc` finds the free list empty, a handler makes the call above, and
`__slab_alloc` makes a slab of page 7. -/
def pairLost : Option (Nat × State) :=
  pairFirst.bind fun r => slabAllocSlow pairCache r.2 (some 7) none 0

theorem slab_alloc_loses :
    ∃ t, InterruptedStep pairCache .none ⟨pairStart, []⟩ t ∧ ¬ InOnePlace pairCache t := by
  obtain ⟨r₁, first, object₁, -, order, dead⟩ := pairFirst_spec
  obtain ⟨n, handler⟩ := pairFirst_handler first object₁
  obtain ⟨r₂, lost, object, freelist, link, list, live, inside⟩ : ∃ r, pairLost = some r ∧
      r.1 = pageAddress 7 ∧ r.2.cpu.freelist = pageAddress 7 + 2048 ∧
      r.2.freePointer (pageAddress 7 + 2048) = 0 ∧ (r.2.pages 5).freelist = 0 ∧
      (r.2.pages 5).live = true ∧ pageAddress 5 + 2048 ∈ objectsOf pairCache r.2.pages 5 :=
    ⟨_, Option.eq_some_of_isSome (by decide +kernel), by decide +kernel, by decide +kernel,
      by decide +kernel, by decide +kernel, by decide +kernel, by decide +kernel⟩
  rw [pairLost, first, Option.bind_some] at lost
  have fresh : FreshPages pairCache r₁.2 (some 7) none := by
    refine ⟨?_, nofun⟩
    rintro _ ⟨⟩
    refine ⟨dead 7 (by decide), fun {q} liveq => ?_⟩
    by_cases eq : q = 5
    · rw [eq, order]
      decide
    · rw [dead q eq] at liveq
      cases liveq
  have takes : Takes pairCache .none ⟨pairStart, []⟩ r₂.1 _ :=
    .slow (.done _) rfl handler trivial fresh lost
  refine ⟨_, .alloc takes (.done _) false, ?_⟩
  rintro ⟨⟨loose, held, chain, -, rest⟩, -⟩
  simp only [Bool.false_eq_true, false_and, if_false] at chain rest
  rw [freelist] at chain
  obtain ⟨tail, rfl, last⟩ := chain.eq_cons (by decide)
  rw [link] at last
  obtain ⟨chain₅, -, once⟩ := rest 5 live
  rw [list] at chain₅
  have count := once _ inside
  rw [chain₅.eq_nil, last.eq_nil, object, if_neg (by decide)] at count
  revert count
  decide

/-- Both objects are taken and the first one is being freed; a handler asks for an
object and there is none. -/
def pairOrphan : Option (Nat × State) :=
  pairSecond.bind fun r =>
    slabAlloc pairCache (r.2.setFreepointer (pageAddress 5) 0) false none none 0

theorem slab_free_orphans :
    ∃ t t', Relation.ReflTransGen (SlabStep pairCache) ⟨pairStart, []⟩ t ∧
      InterruptedStep pairCache .none t t' ∧ ¬ InOnePlace pairCache t' := by
  obtain ⟨r₂, taken, cpu, live, inside, run⟩ := pair_taken
  obtain ⟨r₃, orphan, null, tid, page⟩ : ∃ r, pairOrphan = some r ∧ r.1 = 0 ∧ r.2.cpu.tid = 2 ∧
      r.2.cpu.page = none :=
    ⟨_, Option.eq_some_of_isSome (by decide +kernel), by decide +kernel, by decide +kernel,
      by decide +kernel⟩
  rw [pairOrphan, taken, Option.bind_some] at orphan
  set t : Tracked := ⟨r₂.2, [pageAddress 5 + 2048, pageAddress 5]⟩
  set linked : Tracked := ⟨t.st.setFreepointer (pageAddress 5) t.st.cpu.freelist, t.allocated⟩
    with hlinked
  have head : t.st.cpu.freelist = 0 := by
    show r₂.2.cpu.freelist = 0
    rw [cpu]
  have step : HandlerStep pairCache [pageAddress 5] linked ⟨r₃.2, t.allocated⟩ := by
    have step : HandlerStep pairCache [pageAddress 5] linked _ :=
      .alloc _ false none none 0 r₃ ⟨nofun, nofun⟩ (by rw [hlinked, head]; exact orphan)
    rwa [if_pos null] at step
  have swap : r₃.2.cpuCmpxchgDouble r₃.2.cpu.freelist t.st.cpu.tid (pageAddress 5)
      (nextTid t.st.cpu.tid) = (true, _) := if_pos ⟨rfl, by
    show r₃.2.cpu.tid = r₂.2.cpu.tid
    rw [tid, cpu]⟩
  have noWrap : 0 + 0 + 0 + (ticks linked ⟨r₃.2, t.allocated⟩ + 0) < 2 ^ 32 := by
    have := (r₃.2.cpu.tid - linked.st.cpu.tid).isLt
    simpa [ticks] using this
  have frees : Frees pairCache .none 5 (pageAddress 5) t _ :=
    .fast (.done _) (by show r₂.2.cpu.page = some 5; rw [cpu]) (.done _) (.done _)
      (.call step (.done _)) noWrap trivial swap
  refine ⟨t, _, run, .free live inside (by simp [t]) frees, ?_⟩
  rintro ⟨⟨loose, held, chain, ofHome, -⟩, -⟩
  obtain ⟨tail, rfl, -⟩ := chain.eq_cons (show pageAddress 5 ≠ 0 by decide)
  obtain ⟨p, here, -⟩ := ofHome _ List.mem_cons_self
  rw [show r₃.2.cpu.page = none from page] at here
  cases here

/-- Either call, interrupted at the wrong point, leaves an object out of place. -/
theorem slab_interrupted_misplaces :
    Opened pairCache ⟨pairStart, []⟩ ∧
    (∃ t, InterruptedStep pairCache .none ⟨pairStart, []⟩ t ∧ ¬ InOnePlace pairCache t) ∧
    ∃ t t', Relation.ReflTransGen (SlabStep pairCache) ⟨pairStart, []⟩ t ∧
      InterruptedStep pairCache .none t t' ∧ ¬ InOnePlace pairCache t' :=
  ⟨.empty pairStart pairStart_empty, slab_alloc_loses, slab_free_orphans⟩

end XcKernel.Slub
