import XcKernel.Lib.Retry
import XcKernel.Slub.Basic

/-!
# Locks of the slab allocator

The functions that take the list lock of the node or the lock of a slab page,
with the preempt count these change on one processor.  What others do to the
cache between the reads of a round and its compare-and-swap is part of the
compare-and-swap: a call is given one for every round it may go, and returns
those it has not used.  `none` is a call that does not return, as in
`XcKernel.Slub.Basic`, or one that has used them up.
-/

namespace XcKernel.Slub.Locks

open State

/-- The cache, and `preempt_count` of the running thread. -/
structure Machine where
  st : State
  preemptCount : Int

/-- A compare-and-swap of the free list and the counters of a page, with the
arguments of `State.cmpxchgDoubleSlab`. -/
abbrev Swap := State → Nat → Nat → Counters → Nat → Counters → Bool × State

namespace Machine

def preemptDisable (m : Machine) : Machine := { m with preemptCount := m.preemptCount + 1 }

def preemptEnable (m : Machine) : Machine := { m with preemptCount := m.preemptCount - 1 }

/-- `spin_lock` and `spin_lock_irqsave` on the list lock -/
def spinLock (m : Machine) : Machine := m.preemptDisable

/-- `spin_unlock` and `spin_unlock_irqrestore` -/
def spinUnlock (m : Machine) : Machine := m.preemptEnable

def slabLock (m : Machine) : Machine := m.preemptDisable

def slabUnlock (m : Machine) : Machine := m.preemptEnable

/-- Change the cache. -/
def modify (m : Machine) (f : State → State) : Machine := { m with st := f m.st }

/-- `__cmpxchg_double_slab` and `cmpxchg_double_slab`; `double` says whether the
cache has `__CMPXCHG_DOUBLE`. -/
def cmpxchgDoubleSlab (double : Bool) (swap : Swap) (m : Machine) (page freelistOld : Nat)
    (countersOld : Counters) (freelistNew : Nat) (countersNew : Counters) : Bool × Machine :=
  if double then
    match swap m.st page freelistOld countersOld freelistNew countersNew with
    | (true, st) => (true, { m with st := st })
    | (false, st) => (false, { m with st := st })
  else
    let m := m.slabLock
    match swap m.st page freelistOld countersOld freelistNew countersNew with
    | (true, st) => (true, slabUnlock { m with st := st })
    | (false, st) => (false, slabUnlock { m with st := st })

@[simp] theorem spinLock_preemptCount (m : Machine) :
    m.spinLock.preemptCount = m.preemptCount + 1 := rfl

@[simp] theorem spinUnlock_preemptCount (m : Machine) :
    m.spinUnlock.preemptCount = m.preemptCount - 1 := rfl

@[simp] theorem spinLock_st (m : Machine) : m.spinLock.st = m.st := rfl

@[simp] theorem spinUnlock_st (m : Machine) : m.spinUnlock.st = m.st := rfl

@[simp] theorem modify_preemptCount (m : Machine) (f : State → State) :
    (m.modify f).preemptCount = m.preemptCount := rfl

@[simp] theorem modify_st (m : Machine) (f : State → State) : (m.modify f).st = f m.st := rfl

/-- The lock of the page is given back whatever becomes of the swap. -/
theorem cmpxchgDoubleSlab_eq (double : Bool) (swap : Swap) (m : Machine) (page freelistOld : Nat)
    (countersOld : Counters) (freelistNew : Nat) (countersNew : Counters) :
    m.cmpxchgDoubleSlab double swap page freelistOld countersOld freelistNew countersNew =
      ((swap m.st page freelistOld countersOld freelistNew countersNew).1,
        ⟨(swap m.st page freelistOld countersOld freelistNew countersNew).2, m.preemptCount⟩) := by
  have restored (n : Int) : n + 1 - 1 = n := by omega
  rcases swapped : swap m.st page freelistOld countersOld freelistNew countersNew with ⟨ok, st⟩
  cases double <;> cases ok <;>
    simp [cmpxchgDoubleSlab, swapped, slabLock, slabUnlock, preemptDisable, preemptEnable, restored]

end Machine

variable (double : Bool)

/-- A round of `acquire_slab`, with the free list it reads. -/
def acquireRound (page : Nat) (swap : Swap) (r : Machine × Nat) : Bool × (Machine × Nat) :=
  let freelist := (r.1.st.pages page).freelist
  let counters := (r.1.st.pages page).counters
  let new := { counters with inuse := counters.objects.setWidth 16, frozen := true }
  match r.1.cmpxchgDoubleSlab double swap page freelist counters 0 new with
  | (ok, m) => (ok, (m, freelist))

def acquireSlab (m : Machine) (page : Nat) (swaps : List Swap) :
    Option (Bool × Machine × List Swap) :=
  match retry (acquireRound double page) swaps (m, 0) with
  | none => none
  | some ((m, freelist), swaps) =>
    let m := m.modify (·.removePartial page)
    if freelist ≠ 0 then
      some (true, m.modify fun st =>
        { st with cpu := { st.cpu with freelist := freelist, page := some page } }, swaps)
    else some (false, m, swaps)

def getPartialNode (m : Machine) (swaps : List Swap) : Option (Option Nat × Machine × List Swap) :=
  if m.st.node.nrPartial = 0 then some (none, m, swaps)
  else
    let m := m.spinLock
    match m.st.node.slabs with
    | [] => some (none, m.spinUnlock, swaps)
    | page :: _ =>
      match acquireSlab double m page swaps with
      | some (true, m, swaps) => some (some page, m.spinUnlock, swaps)
      | _ => none

/-- `enum slab_modes` -/
inductive Mode
  | mNone
  | mPartial
  | mFull
  | mFree
  deriving DecidableEq, Repr

/-- The loop of `deactivate_slab` that drains the free list of the processor.
`nextfree` is read before the rounds for one object begin. -/
def drainLoop (page : Nat) (swaps : List Swap) (freelist nextfree : Nat) (m : Machine) :
    Option (Nat × Machine × List Swap) :=
  if freelist ≠ 0 ∧ nextfree ≠ 0 then
    match swaps with
    | [] => none
    | swap :: swaps =>
      let prior := (m.st.pages page).freelist
      let counters := (m.st.pages page).counters
      let m := m.modify (·.setFreepointer freelist prior)
      match m.cmpxchgDoubleSlab double swap page prior counters freelist
          { counters with inuse := counters.inuse - 1 } with
      | (false, m) => drainLoop page swaps freelist nextfree m
      | (true, m) => drainLoop page swaps nextfree (m.st.getFreepointer nextfree) m
  else some (freelist, m, swaps)
termination_by structural swaps

/-- What `deactivate_slab` does to the slab in a round that starts in `st` -/
def slabMode (s : Cache) (st : State) (page freelist : Nat) : Mode :=
  let old := st.pages page
  let inuse := if freelist ≠ 0 then old.counters.inuse - 1 else old.counters.inuse
  if inuse = 0 ∧ st.node.nrPartial > s.minPartial then .mFree
  else if (if freelist ≠ 0 then freelist else old.freelist) ≠ 0 then .mPartial
  else .mFull

/-- The variables of the rounds after the label `redo` -/
structure Redo where
  m : Machine
  lock : Bool
  l : Mode

/-- A round after the label `redo`.  `remove_full` and `add_full` are empty. -/
def redoRound (s : Cache) (page freelist : Nat) (tail : Bool) (swap : Swap) (r : Redo) :
    Bool × Redo :=
  let old := r.m.st.pages page
  let inuse := if freelist ≠ 0 then old.counters.inuse - 1 else old.counters.inuse
  let new : Counters := { old.counters with inuse := inuse, frozen := false }
  let newFreelist := if freelist ≠ 0 then freelist else old.freelist
  let mode := slabMode s r.m.st page freelist
  let m := if freelist ≠ 0 then r.m.modify (·.setFreepointer freelist old.freelist) else r.m
  let m := if mode = .mPartial ∧ r.lock = false then m.spinLock else m
  let lock := if mode = .mPartial then true else r.lock
  let m :=
    if r.l ≠ mode then
      let m := if r.l = .mPartial then m.modify (·.removePartial page) else m
      if mode = .mPartial then m.modify (·.addPartial page tail) else m
    else m
  match m.cmpxchgDoubleSlab double swap page old.freelist old.counters newFreelist new with
  | (ok, m) => (ok, ⟨m, lock, mode⟩)

/-- What `deactivate_slab` has at the label `redo` for the first time. -/
structure Drained where
  page : Nat
  freelist : Nat
  tail : Bool
  m : Machine
  swaps : List Swap

/-- `deactivate_slab` up to the label `redo` -/
def drainSlab (m : Machine) (swaps : List Swap) : Option Drained :=
  match m.st.cpu.page with
  | none => none
  | some page =>
    let tail : Bool := (m.st.pages page).freelist ≠ 0
    let freelist := m.st.cpu.freelist
    let m := m.modify fun st => { st with cpu := ⟨0, nextTid st.cpu.tid, none⟩ }
    match drainLoop double page swaps freelist (m.st.getFreepointer freelist) m with
    | none => none
    | some (freelist, m, swaps) => some ⟨page, freelist, tail, m, swaps⟩

/-- `deactivate_slab`, which is also `flush_slab`.  It takes the list lock once
more where it should give it back. -/
def deactivateSlab (s : Cache) (m : Machine) (swaps : List Swap) :
    Option (Machine × List Swap) :=
  match drainSlab double m swaps with
  | none => none
  | some d =>
    match retry (redoRound double s d.page d.freelist d.tail) d.swaps ⟨d.m, false, .mNone⟩ with
    | none => none
    | some (r, swaps) =>
      let m := if r.lock then r.m.spinLock else r.m
      some (if r.l = .mFree then m.modify (discardSlab s · d.page) else m, swaps)

/-- The modes of the rounds of a call of `deactivate_slab` -/
def deactivateModes (s : Cache) (m : Machine) (swaps : List Swap) : List Mode :=
  match drainSlab double m swaps with
  | none => []
  | some d =>
    (retryStates (redoRound double s d.page d.freelist d.tail) d.swaps
      ⟨d.m, false, .mNone⟩).map fun r => slabMode s r.m.st d.page d.freelist

/-- A round of the loop of `__slab_alloc`, with the free list it reads. -/
def allocRound (page : Nat) (swap : Swap) (r : Machine × Nat) : Bool × (Machine × Nat) :=
  let object := (r.1.st.pages page).freelist
  let counters := (r.1.st.pages page).counters
  let new := { counters with inuse := counters.objects.setWidth 16, frozen := object ≠ 0 }
  match r.1.cmpxchgDoubleSlab double swap page object counters 0 new with
  | (ok, m) => (ok, (m, object))

/-- The page allocator: what its two calls of `alloc_pages` return, and what is
done to the cache while they run with interrupts on -/
structure PageSource where
  first : Option Nat
  second : Option Nat
  during : State → State

/-- How `__slab_alloc` goes on: it returns, or it has a new slab. -/
inductive Refill
  | done (object : Nat) (m : Machine) (swaps : List Swap)
  | fresh (page : Nat) (m : Machine) (swaps : List Swap)

/-- The label `load_freelist` of `__slab_alloc` -/
def loadFreelist (m : Machine) (object : Nat) (swaps : List Swap) : Refill :=
  .done object (m.modify fun st => (Slub.loadFreelist st object).2) swaps

/-- The label `new_slab` of `__slab_alloc`, up to the return of `new_slab` -/
def findSlab (s : Cache) (m : Machine) (pages : PageSource) (swaps : List Swap) : Option Refill :=
  match getPartialNode double m swaps with
  | none => none
  | some (some _, m, swaps) => some (loadFreelist m m.st.cpu.freelist swaps)
  | some (none, m, swaps) =>
    match newSlab s (pages.during m.st) pages.first pages.second with
    | (none, st) => some (.done 0 { m with st := st } swaps)
    | (some page, st) => some (.fresh page { m with st := st } swaps)

/-- `__slab_alloc` up to the return of `new_slab` -/
def refill (s : Cache) (m : Machine) (pages : PageSource) (swaps : List Swap) : Option Refill :=
  match m.st.cpu.page with
  | none => findSlab double s m pages swaps
  | some page =>
    match retry (allocRound double page) swaps (m, 0) with
    | none => none
    | some ((m, object), swaps) =>
      if object = 0 then
        findSlab double s (m.modify fun st => { st with cpu := { st.cpu with page := none } })
          pages swaps
      else some (loadFreelist m object swaps)

/-- `__slab_alloc` after the return of `new_slab` -/
def takeFresh (s : Cache) : Refill → Option (Nat × Machine × List Swap)
  | .done object m swaps => some (object, m, swaps)
  | .fresh page m swaps =>
    match if m.st.cpu.page.isSome then deactivateSlab double s m swaps else some (m, swaps) with
    | none => none
    | some (m, swaps) =>
      let object := (m.st.pages page).freelist
      let m := m.modify (·.modifyPage page fun p => { p with
        freelist := 0, counters := { p.counters with inuse := p.counters.objects.setWidth 16 } })
      let m := m.modify fun st => { st with cpu := { st.cpu with page := some page } }
      some (object, m.modify fun st => (Slub.loadFreelist st object).2, swaps)

/-- `__slab_alloc` -/
def slabAllocSlow (s : Cache) (m : Machine) (pages : PageSource) (swaps : List Swap) :
    Option (Nat × Machine × List Swap) :=
  match refill double s m pages swaps with
  | none => none
  | some r => takeFresh double s r

/-- The modes of the rounds of `deactivate_slab` in a call of `__slab_alloc`: it
is called if an interrupt has given the processor a slab during the allocation
of the new one. -/
def flushModes (s : Cache) (m : Machine) (pages : PageSource) (swaps : List Swap) : List Mode :=
  match refill double s m pages swaps with
  | some (.fresh _ m swaps) =>
    if m.st.cpu.page.isSome then deactivateModes double s m swaps else []
  | _ => []

/-- The variables of the loop of `__slab_free`; `n` says whether the node is set. -/
structure Freeing where
  m : Machine
  prior : Nat
  wasFrozen : Bool
  inuse : BitVec 16
  n : Bool

/-- The test of `__slab_free` before it takes the list lock -/
def takesLock (prior : Nat) (inuse : BitVec 16) (wasFrozen n : Bool) : Bool :=
  (inuse = 0 ∨ prior = 0) ∧ wasFrozen = false ∧ n = false

/-- A round of the loop of `__slab_free` -/
def freeRound (page object : Nat) (swap : Swap) (r : Freeing) : Bool × Freeing :=
  let prior := (r.m.st.pages page).freelist
  let counters := (r.m.st.pages page).counters
  let m := r.m.modify (·.setFreepointer object prior)
  let wasFrozen := counters.frozen
  let inuse := counters.inuse - 1
  let takes := takesLock prior inuse wasFrozen r.n
  let m := if takes then m.spinLock else m
  match m.cmpxchgDoubleSlab double swap page prior counters object
      { counters with inuse := inuse } with
  | (ok, m) => (ok, ⟨m, prior, wasFrozen, inuse, r.n || takes⟩)

/-- `__slab_free` -/
def slabFreeSlow (s : Cache) (m : Machine) (page object : Nat) (swaps : List Swap) :
    Option (Machine × List Swap) :=
  match retry (freeRound double page object) swaps ⟨m, 0, false, 0, false⟩ with
  | none => none
  | some (r, swaps) =>
    if r.n = false then some (r.m, swaps)
    else if r.wasFrozen then some (r.m.spinUnlock, swaps)
    else if r.inuse = 0 ∧ r.m.st.node.nrPartial > s.minPartial then
      let m := if r.prior ≠ 0 then r.m.modify (·.removePartial page) else r.m
      some (m.spinUnlock.modify (discardSlab s · page), swaps)
    else if r.prior = 0 then some ((r.m.modify (·.addPartial page true)).spinUnlock, swaps)
    else some (r.m.spinUnlock, swaps)

section Undisturbed

variable (double : Bool) {s : Cache} {st st' : State}

theorem acquireSlab_undisturbed (m : Machine) (page : Nat) (swaps : List Swap) :
    acquireSlab double m page (State.cmpxchgDoubleSlab :: swaps) =
      (Slub.acquireSlab m.st page).map fun r => (r.1, ⟨r.2, m.preemptCount⟩, swaps) := by
  have round : acquireRound double page State.cmpxchgDoubleSlab (m, 0) =
      (true, m.modify (·.modifyPage page fun p => { p with
        freelist := 0
        counters := { (m.st.pages page).counters with
          inuse := (m.st.pages page).counters.objects.setWidth 16, frozen := true } }),
        (m.st.pages page).freelist) := by
    simp only [acquireRound, Machine.cmpxchgDoubleSlab_eq, cmpxchgDoubleSlab_self rfl]
    rfl
  simp only [acquireSlab, retry_cons round, Slub.acquireSlab, cmpxchgDoubleSlab_self rfl]
  split_ifs <;> rfl

theorem getPartialNode_undisturbed {page : Option Nat} (m : Machine)
    (returns : Slub.getPartialNode m.st = some (page, st')) (swaps : List Swap) :
    ∃ n, getPartialNode double m (List.replicate n State.cmpxchgDoubleSlab ++ swaps) =
      some (page, ⟨st', m.preemptCount⟩, swaps) := by
  have restored (n : Int) : n + 1 - 1 = n := by omega
  unfold Slub.getPartialNode at returns
  split at returns
  · rename_i empty
    cases returns
    exact ⟨0, by simp [getPartialNode, empty]⟩
  · rename_i some_partial
    split at returns
    · rename_i slabs
      cases returns
      refine ⟨0, ?_⟩
      simp [getPartialNode, some_partial, slabs, Machine.spinUnlock, Machine.spinLock,
        Machine.preemptEnable, Machine.preemptDisable, restored]
    · rename_i slabs
      split at returns
      · rename_i acquired
        cases returns
        refine ⟨1, ?_⟩
        simp [getPartialNode, some_partial, slabs, acquireSlab_undisturbed, acquired,
          Machine.spinUnlock, Machine.spinLock, Machine.preemptEnable, Machine.preemptDisable,
          restored]
      · cases returns

theorem drainLoop_undisturbed {page freelist last fuel : Nat} (count : Int)
    (returns : Slub.drainLoop st page freelist fuel = some (last, st')) (swaps : List Swap) :
    ∃ n, drainLoop double page (List.replicate n State.cmpxchgDoubleSlab ++ swaps) freelist
        (st.getFreepointer freelist) ⟨st, count⟩ = some (last, ⟨st', count⟩, swaps) := by
  induction fuel generalizing st freelist with
  | zero => cases returns
  | succ fuel ih =>
    rw [Slub.drainLoop] at returns
    split at returns
    · rename_i more
      simp only [cmpxchgDoubleSlab_self (setFreepointer_pages _ _ _)] at returns
      obtain ⟨n, drained⟩ := ih returns
      refine ⟨n + 1, ?_⟩
      rw [List.replicate_succ, List.cons_append, drainLoop, if_pos more]
      simp only [Machine.cmpxchgDoubleSlab_eq, Machine.modify_st, Machine.modify_preemptCount,
        cmpxchgDoubleSlab_self (setFreepointer_pages _ _ _)]
      exact drained
    · rename_i last
      cases returns
      refine ⟨0, ?_⟩
      rw [List.replicate_zero, List.nil_append, drainLoop.eq_def, if_neg last]

theorem redoRound_undisturbed (m : Machine) (page freelist : Nat) (tail : Bool) :
    ∃ r, redoRound double s page freelist tail State.cmpxchgDoubleSlab ⟨m, false, .mNone⟩ = (true, r) ∧
      unfreezeSlab s m.st page freelist tail =
        some (if r.l = .mFree then discardSlab s r.m.st page else r.m.st) := by
  have self (st₁ : State) (same : st₁.pages = m.st.pages) (freelistNew : Nat) (new : Counters) :=
    cmpxchgDoubleSlab_self same page freelistNew new
  simp only [unfreezeSlab, redoRound, Machine.cmpxchgDoubleSlab_eq, slabMode]
  by_cases empty : freelist = 0
  · by_cases free : (m.st.pages page).counters.inuse = 0 ∧ m.st.node.nrPartial > s.minPartial
    · simp only [empty, free, ne_eq, not_true_eq_false, if_false, if_true, false_and,
        and_self, reduceCtorEq, not_false_eq_true, self m.st rfl]
      exact ⟨_, rfl, rfl⟩
    · by_cases new : (m.st.pages page).freelist = 0
      · simp only [empty, free, new, ne_eq, not_true_eq_false, if_false, if_true, false_and, and_false,
          reduceCtorEq, not_false_eq_true]
        rw [← new, self m.st rfl]
        exact ⟨_, rfl, rfl⟩
      · simp only [empty, free, new, ne_eq, not_true_eq_false, if_false, if_true, and_self, reduceCtorEq,
          not_false_eq_true, Machine.modify_st, Machine.spinLock_st,
          self (m.st.addPartial page tail) rfl]
        exact ⟨_, rfl, rfl⟩
  · have node : (m.st.setFreepointer freelist (m.st.pages page).freelist).node = m.st.node := rfl
    by_cases free : (m.st.pages page).counters.inuse - 1 = 0 ∧ m.st.node.nrPartial > s.minPartial
    · simp only [empty, free, node, ne_eq, not_true_eq_false, if_false, if_true, false_and,
        and_self, reduceCtorEq, not_false_eq_true, Machine.modify_st,
        self (m.st.setFreepointer freelist _) rfl]
      exact ⟨_, rfl, rfl⟩
    · simp only [empty, free, node, ne_eq, if_false, if_true, and_self, reduceCtorEq,
        not_false_eq_true, Machine.modify_st, Machine.spinLock_st,
        self ((m.st.setFreepointer freelist _).addPartial page tail) rfl]
      exact ⟨_, rfl, rfl⟩

theorem deactivateSlab_undisturbed {fuel : Nat} (m : Machine)
    (returns : Slub.deactivateSlab s m.st fuel = some st') (swaps : List Swap) :
    ∃ n m', deactivateSlab double s m (List.replicate n State.cmpxchgDoubleSlab ++ swaps) =
      some (m', swaps) ∧ m'.st = st' := by
  unfold Slub.deactivateSlab at returns
  split at returns
  · cases returns
  · rename_i page occupied
    dsimp only at returns
    split at returns
    · cases returns
    · rename_i last st₁ drained
      obtain ⟨n, drains⟩ := drainLoop_undisturbed double m.preemptCount drained
        (State.cmpxchgDoubleSlab :: swaps)
      obtain ⟨r, round, left⟩ := redoRound_undisturbed double (s := s)
        ⟨st₁, m.preemptCount⟩ page last ((m.st.pages page).freelist ≠ 0)
      have drains' : drainSlab double m
          (List.replicate (n + 1) State.cmpxchgDoubleSlab ++ swaps) =
          some ⟨page, last, (m.st.pages page).freelist ≠ 0, ⟨st₁, m.preemptCount⟩,
            State.cmpxchgDoubleSlab :: swaps⟩ := by
        rw [List.replicate_succ', List.append_assoc, List.singleton_append]
        simp only [drainSlab, occupied]
        erw [drains]
      refine ⟨n + 1, _, by simp only [deactivateSlab, drains', retry_cons round]; rfl, ?_⟩
      rw [← Option.some.inj (left.symm.trans returns)]
      split_ifs <;> rfl

theorem slabFreeSlow_undisturbed {page object : Nat} (m : Machine)
    (returns : Slub.slabFreeSlow s m.st page object = some st') (swaps : List Swap) :
    slabFreeSlow double s m page object (State.cmpxchgDoubleSlab :: swaps) =
      some (⟨st', m.preemptCount⟩, swaps) := by
  have restored (n : Int) : n + 1 - 1 = n := by omega
  simp only [Slub.slabFreeSlow, cmpxchgDoubleSlab_self (setFreepointer_pages _ _ _)] at returns
  simp only [slabFreeSlow, retry, freeRound, Machine.cmpxchgDoubleSlab_eq]
  cases takes : takesLock (m.st.pages page).freelist ((m.st.pages page).counters.inuse - 1)
      (m.st.pages page).counters.frozen false with
  | false =>
    have unset : ¬ (((m.st.pages page).counters.inuse - 1 = 0 ∨ (m.st.pages page).freelist = 0) ∧
        ¬ (m.st.pages page).counters.frozen = true) := by
      simpa [takesLock] using takes
    rw [if_pos unset] at returns
    cases returns
    simp [cmpxchgDoubleSlab_self (setFreepointer_pages _ _ _)]
  | true =>
    have set : ((m.st.pages page).counters.inuse - 1 = 0 ∨ (m.st.pages page).freelist = 0) ∧
        (m.st.pages page).counters.frozen = false := by
      simpa [takesLock] using takes
    rw [if_neg (by simpa using set)] at returns
    simp only [if_true, Machine.spinLock_st, Machine.modify_st,
      cmpxchgDoubleSlab_self (setFreepointer_pages _ _ _), Bool.or_true, Bool.true_eq_false, if_false]
    rw [if_neg (by simp [set.2])]
    split_ifs at returns ⊢ <;> cases returns <;> simp [Machine.spinUnlock, Machine.spinLock,
      Machine.preemptEnable, Machine.preemptDisable, Machine.modify, restored]

theorem findSlab_undisturbed {first second : Option Nat} {object fuel : Nat} (m : Machine)
    (returns : slabAllocNew s m.st first second fuel = some (object, st')) (swaps : List Swap) :
    ∃ n r m', findSlab double s m ⟨first, second, id⟩
        (List.replicate n State.cmpxchgDoubleSlab ++ swaps) = some r ∧
      takeFresh double s r = some (object, m', swaps) ∧ m'.st = st' := by
  unfold slabAllocNew at returns
  split at returns
  · cases returns
  · rename_i page st₁ got
    obtain ⟨n, gets⟩ := getPartialNode_undisturbed double m got swaps
    cases returns
    exact ⟨n, _, _, by simp only [findSlab, gets]; rfl, rfl, rfl⟩
  · rename_i st₁ got
    split at returns
    · rename_i st₂ failed
      obtain ⟨n, gets⟩ := getPartialNode_undisturbed double m got swaps
      cases returns
      exact ⟨n, _, _, by simp only [findSlab, gets, id, failed]; rfl, rfl, rfl⟩
    · rename_i page st₂ fresh
      split at returns
      · cases returns
      · rename_i st₃ flushed
        split_ifs at flushed with occupied
        · obtain ⟨n', m', flushes, rfl⟩ := deactivateSlab_undisturbed double
            ⟨st₂, m.preemptCount⟩ flushed swaps
          obtain ⟨n, gets⟩ := getPartialNode_undisturbed double m got
            (List.replicate n' State.cmpxchgDoubleSlab ++ swaps)
          rw [← List.append_assoc, List.replicate_append_replicate] at gets
          cases returns
          refine ⟨n + n', _, ⟨_, m'.preemptCount⟩, by simp only [findSlab, gets, id, fresh]; rfl, ?_, rfl⟩
          simp only [takeFresh, occupied, if_true, flushes]
          rfl
        · obtain ⟨n, gets⟩ := getPartialNode_undisturbed double m got swaps
          cases flushed
          cases returns
          refine ⟨n, _, ⟨_, m.preemptCount⟩, by simp only [findSlab, gets, id, fresh]; rfl, ?_, rfl⟩
          simp only [takeFresh, occupied]
          rfl

theorem slabAllocSlow_undisturbed {first second : Option Nat} {object fuel : Nat} (m : Machine)
    (returns : Slub.slabAllocSlow s m.st first second fuel = some (object, st')) (swaps : List Swap) :
    ∃ n m', slabAllocSlow double s m ⟨first, second, id⟩
        (List.replicate n State.cmpxchgDoubleSlab ++ swaps) = some (object, m', swaps) ∧
      m'.st = st' := by
  unfold Slub.slabAllocSlow at returns
  split at returns
  · rename_i unset
    obtain ⟨n, r, m', found, taken, left⟩ := findSlab_undisturbed double m returns swaps
    exact ⟨n, m', by simp only [slabAllocSlow, refill, unset, found, taken], left⟩
  · rename_i page occupied
    simp only [cmpxchgDoubleSlab_self rfl] at returns
    have round : allocRound double page State.cmpxchgDoubleSlab (m, 0) =
        (true, m.modify (·.modifyPage page fun p => { p with
          freelist := 0
          counters := { (m.st.pages page).counters with
            inuse := (m.st.pages page).counters.objects.setWidth 16
            frozen := (m.st.pages page).freelist ≠ 0 } }),
          (m.st.pages page).freelist) := by
      simp only [allocRound, Machine.cmpxchgDoubleSlab_eq, cmpxchgDoubleSlab_self rfl]
      rfl
    split at returns
    · rename_i empty
      obtain ⟨n, r, m', found, taken, left⟩ := findSlab_undisturbed double
        ⟨_, m.preemptCount⟩ returns swaps
      refine ⟨n + 1, m', ?_, left⟩
      rw [List.replicate_succ, List.cons_append]
      simp only [slabAllocSlow, refill, occupied, retry_cons round, if_pos empty]
      erw [found]
      exact taken
    · rename_i object_ne
      cases returns
      refine ⟨1, ⟨_, m.preemptCount⟩, ?_, rfl⟩
      rw [List.replicate_one, List.singleton_append]
      simp only [slabAllocSlow, refill, occupied, retry_cons round, if_neg object_ne]
      rfl

end Undisturbed

section Balance

variable {double : Bool} {s : Cache} {m m' : Machine} {swaps rest : List Swap}

theorem acquireSlab_preemptCount {page : Nat} {ok : Bool}
    (returns : acquireSlab double m page swaps = some (ok, m', rest)) :
    m'.preemptCount = m.preemptCount := by
  have keep (swap : Swap) (r : Machine × Nat) (same : r.1.preemptCount = m.preemptCount) :
      (acquireRound double page swap r).2.1.preemptCount = m.preemptCount := by
    simp only [acquireRound, Machine.cmpxchgDoubleSlab_eq]
    exact same
  unfold acquireSlab at returns
  split at returns
  · cases returns
  · rename_i m₁ freelist swaps₁ acquired
    have same : m₁.preemptCount = m.preemptCount :=
      retry_inv (P := fun r => r.1.preemptCount = m.preemptCount) keep acquired rfl
    dsimp only at returns
    split at returns
    · obtain ⟨-, rfl, -⟩ := returns
      exact same
    · obtain ⟨-, rfl, -⟩ := returns
      exact same

theorem getPartialNode_preemptCount {page : Option Nat}
    (returns : getPartialNode double m swaps = some (page, m', rest)) :
    m'.preemptCount = m.preemptCount := by
  have restored (n : Int) : n + 1 - 1 = n := by omega
  unfold getPartialNode at returns
  split at returns
  · obtain ⟨-, rfl, -⟩ := returns
    rfl
  · dsimp only at returns
    split at returns
    · obtain ⟨-, rfl, -⟩ := returns
      simp [restored]
    · split at returns
      · rename_i m₁ swaps₁ acquired
        obtain ⟨-, rfl, -⟩ := returns
        rw [Machine.spinUnlock_preemptCount, acquireSlab_preemptCount acquired,
          Machine.spinLock_preemptCount, restored]
      · cases returns

theorem drainLoop_preemptCount {page freelist nextfree last : Nat}
    (returns : drainLoop double page swaps freelist nextfree m = some (last, m', rest)) :
    m'.preemptCount = m.preemptCount := by
  induction swaps generalizing freelist nextfree m with
  | nil =>
    rw [drainLoop] at returns
    split at returns
    · cases returns
    · obtain ⟨-, rfl, -⟩ := returns
      rfl
  | cons swap swaps ih =>
    rw [drainLoop] at returns
    split at returns
    · simp only [Machine.cmpxchgDoubleSlab_eq] at returns
      split at returns
      · rename_i m₁ failed
        rw [ih returns, ← (Prod.mk.inj failed).2, Machine.modify_preemptCount]
      · rename_i m₁ swapped
        rw [ih returns, ← (Prod.mk.inj swapped).2, Machine.modify_preemptCount]
    · obtain ⟨-, rfl, -⟩ := returns
      rfl

theorem drainSlab_preemptCount {d : Drained} (returns : drainSlab double m swaps = some d) :
    d.m.preemptCount = m.preemptCount := by
  unfold drainSlab at returns
  split at returns
  · cases returns
  · dsimp only at returns
    split at returns
    · cases returns
    · rename_i drained
      cases returns
      exact (drainLoop_preemptCount drained).trans (Machine.modify_preemptCount m _)

/-- The list lock is held from the first round that puts the slab on the list. -/
structure Redo.Held (count : Int) (modes : List Mode) (r : Redo) : Prop where
  preemptCount : r.m.preemptCount = count + if r.lock then 1 else 0
  lock : r.lock = true ↔ .mPartial ∈ modes

theorem Redo.Held.redoRound {count : Int} {modes : List Mode} {r : Redo}
    (held : r.Held count modes) (page freelist : Nat) (tail : Bool) (swap : Swap) :
    (Locks.redoRound double s page freelist tail swap r).2.Held count
      (modes ++ [slabMode s r.m.st page freelist]) := by
  unfold Locks.redoRound
  generalize slabMode s r.m.st page freelist = mode
  simp only [Machine.cmpxchgDoubleSlab_eq]
  constructor
  · have taken : (if mode = .mPartial ∧ r.lock = false then r.m.preemptCount + 1
        else r.m.preemptCount) = count + if (if mode = .mPartial then true else r.lock) then 1 else 0 := by
      rw [held.preemptCount]
      by_cases toPartial : mode = .mPartial
      · cases r.lock <;> simp [toPartial]
      · simp [toPartial]
    simpa only [apply_ite Machine.preemptCount, Machine.modify_preemptCount,
      Machine.spinLock_preemptCount, ite_self] using taken
  · by_cases toPartial : mode = .mPartial
    · simp [toPartial]
    · simp [toPartial, Ne.symm toPartial, held.lock]

theorem deactivateSlab_preemptCount (returns : deactivateSlab double s m swaps = some (m', rest)) :
    m'.preemptCount =
      m.preemptCount + if .mPartial ∈ deactivateModes double s m swaps then 2 else 0 := by
  unfold deactivateSlab at returns
  split at returns
  · cases returns
  · rename_i d drained
    have modes : deactivateModes double s m swaps = (retryStates
        (redoRound double s d.page d.freelist d.tail) d.swaps ⟨d.m, false, .mNone⟩).map
          fun r => slabMode s r.m.st d.page d.freelist := by
      simp [deactivateModes, drained]
    split at returns
    · cases returns
    · rename_i r swaps₁ ends
      have held := retry_trace
        (P := fun met r => r.Held d.m.preemptCount
          (met.map fun r => slabMode s r.m.st d.page d.freelist))
        (fun swap met r held => by
          rw [List.map_append]
          exact held.redoRound d.page d.freelist d.tail swap)
        ends (m := []) ⟨(add_zero _).symm, by simp⟩
      rw [List.nil_append] at held
      cases returns
      rw [apply_ite Machine.preemptCount, Machine.modify_preemptCount, ite_self,
        apply_ite Machine.preemptCount, Machine.spinLock_preemptCount, held.preemptCount,
        drainSlab_preemptCount drained]
      have lock := held.lock
      rw [← modes] at lock
      simp only [← lock]
      cases r.lock
      · simp
      · simp [add_assoc]

/-- The machine a `Refill` goes on with. -/
def Refill.machine : Refill → Machine
  | .done _ m _ => m
  | .fresh _ m _ => m

theorem findSlab_preemptCount {pages : PageSource} {r : Refill}
    (returns : findSlab double s m pages swaps = some r) :
    r.machine.preemptCount = m.preemptCount := by
  unfold findSlab at returns
  split at returns
  · cases returns
  · rename_i m₁ swaps₁ got
    have same : m₁.preemptCount = m.preemptCount := getPartialNode_preemptCount got
    cases returns
    exact same
  · rename_i m₁ swaps₁ got
    have same : m₁.preemptCount = m.preemptCount := getPartialNode_preemptCount got
    split at returns
    · cases returns
      exact same
    · cases returns
      exact same

theorem refill_preemptCount {pages : PageSource} {r : Refill}
    (returns : refill double s m pages swaps = some r) :
    r.machine.preemptCount = m.preemptCount := by
  have keep (page : Nat) (swap : Swap) (r : Machine × Nat)
      (same : r.1.preemptCount = m.preemptCount) :
      (allocRound double page swap r).2.1.preemptCount = m.preemptCount := by
    simp only [allocRound, Machine.cmpxchgDoubleSlab_eq]
    exact same
  unfold refill at returns
  split at returns
  · exact findSlab_preemptCount returns
  · rename_i page _
    split at returns
    · cases returns
    · rename_i m₁ object swaps₁ ends
      have same : m₁.preemptCount = m.preemptCount :=
        retry_inv (P := fun r => r.1.preemptCount = m.preemptCount) (keep page) ends rfl
      split at returns
      · exact (findSlab_preemptCount returns).trans same
      · cases returns
        exact same

/-- The only imbalance of `__slab_alloc` is that of `deactivate_slab`. -/
theorem slabAllocSlow_preemptCount {pages : PageSource} {object : Nat}
    (returns : slabAllocSlow double s m pages swaps = some (object, m', rest)) :
    m'.preemptCount =
      m.preemptCount + if .mPartial ∈ flushModes double s m pages swaps then 2 else 0 := by
  unfold slabAllocSlow at returns
  split at returns
  · cases returns
  · rename_i r refilled
    have same := refill_preemptCount refilled
    cases r with
    | done object₁ m₁ swaps₁ =>
      have modes : flushModes double s m pages swaps = [] := by simp [flushModes, refilled]
      cases returns
      simpa [modes, Refill.machine] using same
    | fresh page m₁ swaps₁ =>
      rw [takeFresh] at returns
      split at returns
      · cases returns
      · rename_i m₂ swaps₂ flushed
        cases returns
        simp only [Machine.modify_preemptCount]
        split_ifs at flushed with occupied
        · have modes : flushModes double s m pages swaps = deactivateModes double s m₁ swaps₁ := by
            simp [flushModes, refilled, occupied]
          simp only [modes, deactivateSlab_preemptCount flushed, ← same, Refill.machine]
        · have modes : flushModes double s m pages swaps = [] := by
            simp [flushModes, refilled, occupied]
          obtain ⟨rfl, -⟩ := Prod.mk.inj (Option.some.inj flushed)
          simpa [modes, Refill.machine] using same

theorem freeRound_held {count : Int} {page object : Nat} (swap : Swap) {r : Freeing}
    (held : r.m.preemptCount = count + if r.n then 1 else 0) :
    (freeRound double page object swap r).2.m.preemptCount =
      count + if (freeRound double page object swap r).2.n then 1 else 0 := by
  simp only [freeRound, Machine.cmpxchgDoubleSlab_eq]
  cases takes : takesLock (r.m.st.pages page).freelist ((r.m.st.pages page).counters.inuse - 1)
      (r.m.st.pages page).counters.frozen r.n with
  | false => simpa [takes] using held
  | true =>
    have unset : r.n = false := by
      simp only [takesLock, decide_eq_true_eq] at takes
      exact takes.2.2
    simpa [takes, unset] using held

theorem slabFreeSlow_preemptCount {page object : Nat}
    (returns : slabFreeSlow double s m page object swaps = some (m', rest)) :
    m'.preemptCount = m.preemptCount := by
  have restored (n : Int) : n + 1 - 1 = n := by omega
  unfold slabFreeSlow at returns
  split at returns
  · cases returns
  · rename_i r swaps₁ ends
    have held : r.m.preemptCount = m.preemptCount + if r.n then 1 else 0 :=
      retry_inv (P := fun r => r.m.preemptCount = m.preemptCount + if r.n then 1 else 0)
        (fun swap _ => freeRound_held swap) ends (add_zero _).symm
    cases n : r.n with
    | false =>
      rw [if_pos n] at returns
      cases returns
      simpa [n] using held
    | true =>
      rw [n, if_pos rfl] at held
      rw [if_neg (by simp [n])] at returns
      dsimp only at returns
      split_ifs at returns <;> cases returns <;> simp [held, restored]

/-- The mode of `deactivate_slab`, in terms of the state in which it is called;
`loose` is the number of objects on the free list of the processor. -/
def entryMode (s : Cache) (st : State) (page loose : Nat) : Mode :=
  if (st.pages page).counters.inuse - BitVec.ofNat 16 loose = 0 ∧
      st.node.nrPartial > s.minPartial then .mFree
  else if 0 < loose ∨ (st.pages page).freelist ≠ 0 then .mPartial
  else .mFull

/-- What draining a list of `n` objects leaves. -/
structure Drains (page : Nat) (st st' : State) (last n : Nat) : Prop where
  last : last = 0 ↔ n = 0
  node : st'.node = st.node
  inuse : (st'.pages page).counters.inuse =
    (st.pages page).counters.inuse - BitVec.ofNat 16 (n - 1)
  freelist : n = 0 → (st'.pages page).freelist = (st.pages page).freelist

theorem drainLoop_chain (double : Bool) (page : Nat) {head k : Nat} {st : State} (count : Int)
    {l : List Nat}
    (chain : Chain 0 st.freePointer head l) (nodup : l.Nodup) (enough : l.length ≤ k) :
    ∃ last st', drainLoop double page (List.replicate k State.cmpxchgDoubleSlab) head
        (st.getFreepointer head) ⟨st, count⟩ =
      some (last, ⟨st', count⟩, List.replicate (k - (l.length - 1)) State.cmpxchgDoubleSlab) ∧
      Drains page st st' last l.length := by
  induction l generalizing head k st with
  | nil =>
    have null : head = 0 := chain
    refine ⟨head, st, ?_, ⟨by simp [null], rfl, by simp, fun _ => rfl⟩⟩
    rw [drainLoop.eq_def, if_neg (by simp [null])]
    rfl
  | cons x l ih =>
    obtain ⟨rfl, live, rest⟩ := chain
    obtain ⟨k, rfl⟩ : ∃ k', k = k' + 1 := ⟨k - 1, by simp at enough; omega⟩
    by_cases more : st.getFreepointer head = 0
    · have nil : l = [] := rest.null_iff.mp more
      subst nil
      refine ⟨head, st, ?_, ⟨by simp [live], rfl, by simp, by simp⟩⟩
      rw [drainLoop.eq_def, if_neg (by simp [more])]
      rfl
    · set st₁ := (st.setFreepointer head (st.pages page).freelist).modifyPage page fun p =>
        { p with freelist := head, counters := { (st.pages page).counters with
            inuse := (st.pages page).counters.inuse - 1 } } with hst₁
      have off : head ∉ l := (List.nodup_cons.mp nodup).1
      have rest₁ : Chain 0 st₁.freePointer (st.getFreepointer head) l := rest.update off
      obtain ⟨last, st', drained, left⟩ := ih rest₁ (List.nodup_cons.mp nodup).2
        (by simpa using enough)
      have pos : 0 < l.length := List.length_pos_iff.mpr fun nil => more (rest.null_iff.mpr nil)
      have inuse : (st₁.pages page).counters.inuse = (st.pages page).counters.inuse - 1 := by
        simp [hst₁, modifyPage_pages]
      refine ⟨last, st', ?_, ⟨?_, left.node, ?_, by simp⟩⟩
      · rw [List.replicate_succ, drainLoop, if_pos ⟨live, more⟩]
        simp only [Machine.cmpxchgDoubleSlab_eq, Machine.modify_st, Machine.modify_preemptCount,
          cmpxchgDoubleSlab_self (setFreepointer_pages _ _ _)]
        rw [List.length_cons, show k + 1 - (l.length + 1 - 1) = k - (l.length - 1) by omega]
        exact drained
      · simpa [pos.ne'] using left.last
      · rw [left.inuse, inuse, List.length_cons, Nat.add_sub_cancel]
        obtain ⟨n, hn⟩ : ∃ n, l.length = n + 1 := ⟨l.length - 1, by omega⟩
        rw [hn, Nat.add_sub_cancel, BitVec.ofNat_add, sub_sub, add_comm]
        rfl

theorem drainSlab_undisturbed (double : Bool) {s : Cache} {m : Machine} {page k : Nat} {l : List Nat}
    (occupied : m.st.cpu.page = some page) (chain : Chain 0 m.st.freePointer m.st.cpu.freelist l)
    (nodup : l.Nodup) (enough : l.length < k) :
    ∃ last st' k', drainSlab double m (List.replicate k State.cmpxchgDoubleSlab) =
        some ⟨page, last, (m.st.pages page).freelist ≠ 0, ⟨st', m.preemptCount⟩,
          State.cmpxchgDoubleSlab :: List.replicate k' State.cmpxchgDoubleSlab⟩ ∧
      slabMode s st' page last = entryMode s m.st page l.length := by
  obtain ⟨last, st', drained, left⟩ := drainLoop_chain double page m.preemptCount
    (show Chain 0 ({ m.st with cpu := ⟨0, nextTid m.st.cpu.tid, none⟩ } : State).freePointer _ l from chain)
    nodup enough.le
  obtain ⟨k', hk'⟩ : ∃ k', k - (l.length - 1) = k' + 1 := ⟨k - (l.length - 1) - 1, by omega⟩
  rw [hk', List.replicate_succ] at drained
  refine ⟨last, st', k', ?_, ?_⟩
  · simp only [drainSlab, occupied]
    erw [drained]
  · have node : st'.node = m.st.node := left.node
    have inuse : (st'.pages page).counters.inuse =
        (m.st.pages page).counters.inuse - BitVec.ofNat 16 (l.length - 1) := left.inuse
    simp only [slabMode, entryMode, node]
    cases len : l.length with
    | zero =>
      have freelist : (st'.pages page).freelist = (m.st.pages page).freelist := left.freelist len
      simp [left.last.mpr len, freelist, inuse, len]
    | succ n =>
      have live : last ≠ 0 := fun h => by simp [left.last.mp h] at len
      have inuse' : (st'.pages page).counters.inuse - 1 =
          (m.st.pages page).counters.inuse - BitVec.ofNat 16 (n + 1) := by
        rw [inuse, len, Nat.add_sub_cancel, BitVec.ofNat_add, sub_sub]
        rfl
      simp only [ne_eq, live, not_false_eq_true, if_true, inuse', Nat.succ_pos, true_or]

/-- Nothing disturbs it: there is one round, and its mode can be told beforehand. -/
theorem deactivateModes_undisturbed (double : Bool) {s : Cache} {m : Machine} {page k : Nat} {l : List Nat}
    (occupied : m.st.cpu.page = some page) (chain : Chain 0 m.st.freePointer m.st.cpu.freelist l)
    (nodup : l.Nodup) (enough : l.length < k) :
    deactivateModes double s m (List.replicate k State.cmpxchgDoubleSlab) =
      [entryMode s m.st page l.length] := by
  obtain ⟨last, st', k', drains, mode⟩ := drainSlab_undisturbed double (s := s)
    occupied chain nodup enough
  obtain ⟨r, round, -⟩ := redoRound_undisturbed double (s := s)
    ⟨st', m.preemptCount⟩ page last ((m.st.pages page).freelist ≠ 0)
  simp only [deactivateModes, drains, retryStates, round, List.map_cons, List.map_nil, mode]

theorem deactivateSlab_returns (double : Bool) {s : Cache} {m : Machine} {page k : Nat} {l : List Nat}
    (occupied : m.st.cpu.page = some page) (chain : Chain 0 m.st.freePointer m.st.cpu.freelist l)
    (nodup : l.Nodup) (enough : l.length < k) :
    ∃ r, deactivateSlab double s m (List.replicate k State.cmpxchgDoubleSlab) = some r := by
  obtain ⟨last, st', k', drains, -⟩ := drainSlab_undisturbed double (s := s)
    occupied chain nodup enough
  obtain ⟨r, round, -⟩ := redoRound_undisturbed double (s := s)
    ⟨st', m.preemptCount⟩ page last ((m.st.pages page).freelist ≠ 0)
  exact ⟨_, by simp only [deactivateSlab, drains, retry_cons round]; rfl⟩

end Balance

/-- `get_partial_node` and `__slab_free` give back every lock they take, whatever
others do between their rounds.  `deactivate_slab` does exactly if no round of it
puts the slab on the partial list, and `__slab_alloc` exactly if the
`deactivate_slab` it may call does.  A `deactivate_slab` that nothing disturbs
returns, and does exactly if the slab has no free object left or is given back to
the page allocator. -/
theorem slab_locks_balanced_iff (double : Bool) (s : Cache) (m : Machine) (swaps : List Swap) :
    (∀ r ∈ getPartialNode double m swaps, r.2.1.preemptCount = m.preemptCount) ∧
    (∀ page object, ∀ r ∈ slabFreeSlow double s m page object swaps,
      r.1.preemptCount = m.preemptCount) ∧
    (∀ r ∈ deactivateSlab double s m swaps,
      (r.1.preemptCount = m.preemptCount ↔ .mPartial ∉ deactivateModes double s m swaps)) ∧
    (∀ pages, ∀ r ∈ slabAllocSlow double s m pages swaps,
      (r.2.1.preemptCount = m.preemptCount ↔ .mPartial ∉ flushModes double s m pages swaps)) ∧
    (∀ page l k, m.st.cpu.page = some page → Chain 0 m.st.freePointer m.st.cpu.freelist l →
      l.Nodup → l.length < k →
      ∃ r, deactivateSlab double s m (List.replicate k State.cmpxchgDoubleSlab) = some r ∧
        (r.1.preemptCount = m.preemptCount ↔ entryMode s m.st page l.length ≠ .mPartial)) := by
  have leak (n : Int) (p : Prop) [Decidable p] : (n + if p then 2 else 0) = n ↔ ¬ p := by
    by_cases h : p <;> simp [h]
  refine ⟨fun r returns => getPartialNode_preemptCount returns,
    fun page object r returns => slabFreeSlow_preemptCount returns, fun r returns => ?_,
    fun pages r returns => ?_, fun page l k occupied chain nodup enough => ?_⟩
  · rw [deactivateSlab_preemptCount returns, leak]
  · rw [slabAllocSlow_preemptCount returns, leak]
  · obtain ⟨r, returns⟩ := deactivateSlab_returns double (s := s) occupied chain nodup enough
    refine ⟨r, returns, ?_⟩
    rw [deactivateSlab_preemptCount returns, leak,
      deactivateModes_undisturbed double occupied chain nodup enough, List.mem_singleton, eq_comm]

/-- The processor has page 5 of `pairCache`, which is taken in full; `freelist` is the one
object that may be on the free list. -/
def holdsSlab (freelist : Nat) : State :=
  ⟨fun _ => 0, fun _ => ⟨0, ⟨2, 2, true⟩, 0, true⟩, ⟨freelist, 7, some 5⟩, ⟨0, []⟩⟩

/-- With both objects allocated every function is balanced. -/
theorem slab_locks_balanced_full :
    (getPartialNode false ⟨holdsSlab 0, 0⟩ []).map (·.2.1.preemptCount) = some 0 ∧
    (slabFreeSlow false pairCache ⟨holdsSlab 0, 0⟩ 5 (pageAddress 5)
      [State.cmpxchgDoubleSlab]).map (·.1.preemptCount) = some 0 ∧
    (deactivateSlab false pairCache ⟨holdsSlab 0, 0⟩ [State.cmpxchgDoubleSlab]).map
      (·.1.preemptCount) = some 0 ∧
    (slabAllocSlow false pairCache ⟨holdsSlab 0, 0⟩ ⟨some 9, none, id⟩
      [State.cmpxchgDoubleSlab]).map (·.2.1.preemptCount) = some 0 := by
  have settle {α : Type} {o : Option α} {f : α → Int} (returns : o.isSome = true)
      (balanced : ∀ r ∈ o, f r = 0) : o.map f = some 0 := by
    obtain ⟨r, rfl⟩ := Option.isSome_iff_exists.mp returns
    exact congrArg some (balanced r rfl)
  have one := slab_locks_balanced_iff false pairCache ⟨holdsSlab 0, 0⟩ [State.cmpxchgDoubleSlab]
  refine ⟨settle (by decide +kernel) (slab_locks_balanced_iff false pairCache ⟨holdsSlab 0, 0⟩ []).1,
    settle (by decide +kernel) (one.2.1 5 (pageAddress 5)), ?_,
    settle (by decide +kernel) fun r returns =>
      (one.2.2.2.1 ⟨some 9, none, id⟩ r returns).mpr (by decide +kernel)⟩
  obtain ⟨r, returns, balanced⟩ := one.2.2.2.2 5 [] 1 rfl rfl List.nodup_nil Nat.one_pos
  have same : r.1.preemptCount = 0 := balanced.mpr (by decide)
  exact (congrArg (Option.map _) returns).trans (congrArg some same)

/-- With one object free, `deactivate_slab` leaves the preempt count two higher;
so does a `__slab_alloc` during which an interrupt takes the first object of a
new slab. -/
theorem deactivate_slab_keeps_locks :
    (deactivateSlab false pairCache ⟨holdsSlab (pageAddress 5 + 2048), 0⟩
      [State.cmpxchgDoubleSlab]).map (·.1.preemptCount) = some 2 ∧
    (slabAllocSlow false pairCache ⟨{ holdsSlab 0 with cpu := ⟨0, 7, none⟩ }, 0⟩
      ⟨some 9, none, fun _ => holdsSlab (pageAddress 5 + 2048)⟩
      [State.cmpxchgDoubleSlab]).map (·.2.1.preemptCount) = some 2 := by
  decide +kernel

end XcKernel.Slub.Locks
