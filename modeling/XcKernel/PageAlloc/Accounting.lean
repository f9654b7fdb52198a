import XcKernel.PageAlloc.ZoneRuns

/-!
# Counting free pages over runs

The statistic `NR_FREE_PAGES` is adjusted in four places, some of them before
or after a loop that may stop early.  In a run without zeroed allocations it
always agrees with the free lists and with the marks in the page map.  A zeroed
allocation writes over the page map itself.
-/

namespace XcKernel.PageAlloc

open Blocks

/-- The pages of the zone that lie in a marked block. -/
def State.markedPages (s : State) : Finset Nat :=
  (Finset.range (s.zone.zoneStartPfn + s.zone.spannedPages)).filter fun x =>
    s.zone.zoneStartPfn ≤ x ∧ ∃ o < maxOrder,
      (s.memMap (head o x)).zonenum = s.zone.idx ∧ (s.memMap (head o x)).buddy = true ∧
        (s.memMap (head o x)).order = o

/-- Statistic, free lists and page map count the same pages. -/
structure AccountOk (s : State) : Prop where
  stat : s.zone.vmStat .nrFreePages = ∑ o ∈ Finset.range maxOrder, s.zone.nrFree o * 2 ^ o
  listed : ∑ o ∈ Finset.range maxOrder, s.zone.nrFree o * 2 ^ o = (pages maxOrder s.free).card
  marked : ∑ o ∈ Finset.range maxOrder, s.zone.nrFree o * 2 ^ o = s.markedPages.card

/-- The three numbers. -/
def State.account (s : State) : Int × Nat × Nat :=
  (s.zone.vmStat .nrFreePages, s.zone.pagesBelow maxOrder, s.markedPages.card)

theorem BuddyInv.markedPages_eq {s : State} (inv : BuddyInv s) :
    s.markedPages = pages maxOrder s.free := by
  ext x
  rw [inv.mem_pages, State.markedPages, Finset.mem_filter, Finset.mem_range]
  constructor
  · rintro ⟨-, -, o, -, zone, mark, order⟩
    obtain ⟨o', free⟩ := (inv.marked _ zone).mp mark
    obtain rfl : o = o' := by rw [← order, inv.order free]
    exact ⟨o, free⟩
  · rintro ⟨o, free⟩
    have spanned : s.Spanned x := inv.inZone free x rfl
    have zone := inv.zonenum _ (inv.head_spanned free)
    exact ⟨spanned.2, spanned.1, o, inv.small free, zone, (inv.marked _ zone).mpr ⟨o, free⟩,
      inv.order free⟩

theorem ZoneInv.account {P : Nat → Page → Prop} {s : State} (inv : ZoneInv P s) : AccountOk s := by
  have listed := inv.buddy.pagesBelow_eq
  refine ⟨?_, listed, ?_⟩
  · rw [inv.stat, Zone.pagesBelow]
  · rw [inv.buddy.markedPages_eq]
    exact listed

theorem ZoneInv.account_eq {P : Nat → Page → Prop} {s s' : State} (inv : ZoneInv P s) (inv' : ZoneInv P s')
    (zone : s'.zone = s.zone) : s'.account = s.account := by
  have listed := inv.buddy.pagesBelow_eq
  have listed' := inv'.buddy.pagesBelow_eq
  rw [State.account, State.account, zone, inv.buddy.markedPages_eq, inv'.buddy.markedPages_eq,
    ← listed, ← listed', zone]

/-- Operations on pages that may be freed or asked for return. -/
structure CallsReturn (s : State) : Prop where
  hotCold : ∀ page cold, Freeable s 0 page → ∃ s', freeHotColdPage s page cold = some s'
  bootmem : ∀ page order, Freeable s order page → ∃ s', freePagesBootmem s page order = some s'
  alloc : ∀ order gfpFlags migratetype, TypeFor order migratetype →
    ∃ fuel r, bufferedRmqueue s order gfpFlags migratetype fuel = some r

/-- What `free_pages_prepare` refuses changes none of the numbers. -/
structure RefusedKeeps (s : State) : Prop where
  hotCold : ∀ page cold s', Freeable s 0 page →
    (freePagesPrepare (s.modifyPage page (·.clear .mlocked)) page 0).1 = false →
    freeHotColdPage s page cold = some s' → s'.account = s.account
  pages : ∀ page order, Freeable s order page →
    (freePagesPrepare (s.modifyPage page (·.clear .mlocked)) page order).1 = false →
    (freePagesOk s page order).account = s.account

theorem ZoneInv.callsReturn {s : State} (inv : ZoneInv NoFlags s) : CallsReturn s := by
  refine ⟨fun page cold block => ?_, fun page order block => ?_,
    fun order gfpFlags migratetype type => ?_⟩
  · obtain ⟨s', returns, -⟩ := freeHotColdPage_freed noFlags_stable inv block
      (fun _ _ _ prepared _ => prepared.flags) cold
    exact ⟨s', returns⟩
  · obtain ⟨b, s', -, -, returns, -⟩ := freePagesBootmem_freed noFlags_stable inv block
      (fun _ _ _ _ _ prepared _ => prepared.flags)
    exact ⟨s', returns⟩
  · exact ⟨s.supply + 1, bufferedRmqueue_returns noFlags_stable gfpFlags type inv (Nat.lt_succ_self _)⟩

theorem ZoneInv.refusedKeeps {s : State} (inv : ZoneInv NoFlags s) : RefusedKeeps s := by
  have keep : ∀ page order s', Freeable s order page →
      (freePagesPrepare (s.modifyPage page (·.clear .mlocked)) page order).1 = false →
      s' = (freePagesPrepare (s.modifyPage page (·.clear .mlocked)) page order).2 →
      s'.account = s.account := by
    rintro page order s' block refused rfl
    have spec := freePagesPrepare_mlocked (s := s) block.lent.aligned
    exact inv.account_eq (Freed.of_refused inv block spec refused).inv spec.cleans.zone
  refine ⟨fun page cold s' block refused returns => ?_, fun page order block refused => ?_⟩
  · refine keep page 0 s' block refused ?_
    rw [freeHotColdPage_refused refused] at returns
    exact (Option.some.inj returns).symm
  · refine keep page order _ block refused ?_
    unfold freePagesOk
    dsimp only
    rw [if_pos (by simp [refused])]

/-- In every run without zeroed allocations the statistic, the free lists and
the page map agree in every state, calls return, and a refused block changes
none of the numbers. -/
theorem accounting_runs {s₀ : State} (fresh : FreshZone s₀) {s : State}
    (run : Relation.ReflTransGen (ZoneStep withoutZero) s₀ s) :
    AccountOk s ∧ RefusedKeeps s ∧ CallsReturn s := by
  have inv := zoneInv_of_run withoutZero_keep fresh run
  exact ⟨inv.account, inv.refusedKeeps, inv.callsReturn⟩

theorem freshState_fresh (spannedPages : Nat) : FreshZone (freshState spannedPages) := by
  refine ⟨freshState_empty spannedPages, ⟨0, rfl⟩, rfl, fun pfn => ?_⟩
  have zero : getPageblockMigratetype (freshState spannedPages) pfn = 0 := rfl
  rw [zero]
  decide

theorem freshState_freeable : Freeable (freshState 16) 3 8 := by
  refine ⟨⟨by decide, by decide, fun x inside => ?_, fun x _ => ?_⟩, fun x _ => ?_⟩
  · rw [head_eq_iff (by decide)] at inside
    exact ⟨Nat.zero_le x, inside.2⟩
  · rintro ⟨o, free⟩
    simp [State.Free, State.free, freshState] at free
  · simp [State.pcpPages, freshState]

/-- The state after one free and one allocation of two pages. -/
def afterPair (gfpFlags : BitVec 32) : Option (Option Nat × State) :=
  bufferedRmqueue (freePagesOk (freshState 16) 8 3) 1 gfpFlags migrateUnmovable 1

/-- A zeroed allocation of two pages wipes the marks of the six that are left. -/
theorem accounting_zeroed :
    ∃ s, Relation.ReflTransGen (ZoneStep ⟨fun _ => True, fun _ _ => True, fun _ => True⟩)
        (freshState 16) s ∧
      FreshZone (freshState 16) ∧ s.account = (6, 6, 0) ∧ ¬ AccountOk s := by
  obtain ⟨r, hr, account⟩ : ∃ r, afterPair gfpZero = some r ∧ r.2.account = (6, 6, 0) :=
    ⟨_, Option.eq_some_of_isSome (by decide +kernel), by decide +kernel⟩
  refine ⟨r.2, .tail (.single (.op (.pages _ 8 3 freshState_freeable fun _ _ => trivial)))
    (.op (.alloc _ 1 gfpZero migrateUnmovable 1 r trivial (by decide) hr)), freshState_fresh 16, account, ?_⟩
  intro ok
  have marked := ok.marked
  rw [State.account, Prod.mk.injEq, Prod.mk.injEq] at account
  rw [account.2.2] at marked
  exact absurd (account.2.1.symm.trans marked) (by decide)

/-- The same allocation without zeroing. -/
theorem accounting_runs_pair :
    ∃ r, afterPair 0 = some r ∧ r.2.account = (6, 6, 6) ∧ AccountOk r.2 := by
  obtain ⟨r, hr, account⟩ : ∃ r, afterPair 0 = some r ∧ r.2.account = (6, 6, 6) :=
    ⟨_, Option.eq_some_of_isSome (by decide +kernel), by decide +kernel⟩
  refine ⟨r, hr, account, (accounting_runs (freshState_fresh 16) (.tail
    (.single (.op (.pages _ 8 3 freshState_freeable fun _ _ => trivial)))
    (.op (.alloc _ 1 0 migrateUnmovable 1 r (by simp [withoutZero]) (by decide) hr)))).1⟩

end XcKernel.PageAlloc
