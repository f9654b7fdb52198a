import XcKernel.PageAlloc.BuddyRuns

/-!
# The order of frees

The free blocks of a zone are the maximal tiling of its free pages, and a set of
pages has one such tiling.  So blocks can be freed in any order, on lists of any
migratetype, and an allocation is undone by freeing what it returned.
-/

namespace XcKernel.PageAlloc

open Blocks

variable {s s' : State}

/-- The same blocks are free, and the counters agree. -/
structure SameFree (s s' : State) : Prop where
  free : ∀ o p, s'.Free o p ↔ s.Free o p
  nrFree : ∀ o, s'.zone.nrFree o = s.zone.nrFree o

theorem BuddyInv.maximal (inv : BuddyInv s) : Maximal maxOrder s.Free :=
  ⟨inv.tiling, inv.small, inv.merged⟩

theorem BuddyInv.sameFree (inv : BuddyInv s) (inv' : BuddyInv s')
    (covered : ∀ x, Covered s'.Free x ↔ Covered s.Free x) : SameFree s s' := by
  have free := inv'.maximal.eq inv.maximal covered
  refine ⟨free, fun o => ?_⟩
  have perm : (s'.free o).Perm (s.free o) :=
    (List.perm_ext_iff_of_nodup (inv'.nodup o) (inv.nodup o)).mpr (free o)
  rw [inv.count, inv'.count, perm.length_eq]

/-- A call of `__free_one_page`: the block and the list it goes to. -/
structure FreeCall where
  block : Block
  migratetype : Nat
  deriving DecidableEq, Repr

/-- The calls, one after another. -/
def freeBlocks (s : State) (calls : List FreeCall) : State :=
  calls.foldl (fun s c => freeOnePageLocked s c.block.page c.block.order c.migratetype) s

/-- No page is part of a compound page. -/
def NoCompound (s : State) : Prop := ∀ p, (s.memMap p).compound = false

theorem NoCompound.keep (plain : NoCompound s) (frame : Frame s s') : NoCompound s' := by
  intro p
  have same : (s'.memMap p).compound = (s.memMap p).compound := by
    simp only [Page.compound, (frame.page p).flags]
  rw [same, plain p]

theorem NoCompound.step {t t' : Tracked} (inv : TrackedInv t) (plain : NoCompound t.st)
    (step : BuddyStep t t') : NoCompound t'.st := by
  have alloc : ∀ order migratetype, migratetype < 4 →
      NoCompound (rmqueue t.st order migratetype).2 := by
    intro order migratetype range
    have range' : migratetype < migrateTypes := by simp only [migrateTypes]; omega
    rcases rmqueue_takes order inv.inv range' with none | ⟨p, -, take⟩
    · rw [none]
      exact plain
    · exact plain.keep take.frame
  cases step with
  | alloc order migratetype page small range found => exact alloc order migratetype range
  | fail order migratetype small range missed => exact alloc order migratetype range
  | free b migratetype range held notCompound =>
    exact plain.keep (freeOnePageLocked_spec inv.inv (inv.lent b held) notCompound range).frame
  | boot b migratetype range small aligned inZone notFree notHanded notCompound =>
    refine plain.keep (freeOnePageLocked_spec inv.inv ?_ notCompound range).frame
    exact .ofNotFree aligned small inZone notFree

/-- What the run keeps. -/
structure PlainInv (t : Tracked) : Prop extends TrackedInv t where
  plain : NoCompound t.st

theorem PlainInv.step {t t' : Tracked} (h : PlainInv t) (step : BuddyStep t t') : PlainInv t' :=
  ⟨h.toTrackedInv.step step, h.plain.step h.toTrackedInv step⟩

/-- Freeing handed out blocks makes their pages free and no others. -/
theorem freeBlocks_spec {t : Tracked} (h : PlainInv t) (calls : List FreeCall)
    (range : ∀ c ∈ calls, c.migratetype < migrateTypes)
    (nodup : (calls.map FreeCall.block).Nodup) (held : ∀ c ∈ calls, c.block ∈ t.handed) :
    BuddyInv (freeBlocks t.st calls) ∧ ∀ x, Covered (freeBlocks t.st calls).Free x ↔
      Covered t.st.Free x ∨ ∃ b ∈ calls.map FreeCall.block, InBlock b.order b.page x := by
  induction calls generalizing t with
  | nil => exact ⟨h.inv, fun x => by simp [freeBlocks]⟩
  | cons c calls ih =>
    have heldc := held c List.mem_cons_self
    have rangec := range c List.mem_cons_self
    have lent := h.lent c.block heldc
    have spec := freeOnePageLocked_spec h.inv lent (h.plain c.block.page) rangec
    rw [List.map_cons, List.nodup_cons] at nodup
    have h' := h.step (.free t c.block c.migratetype rangec heldc (h.plain c.block.page))
    obtain ⟨inv, covered⟩ := ih h' (fun d hd => range d (List.mem_cons_of_mem _ hd)) nodup.2
      (by
        intro d hd
        have other : d.block ≠ c.block := fun same =>
          nodup.1 (same ▸ List.mem_map_of_mem hd)
        exact (List.mem_erase_of_ne other).mpr (held d (List.mem_cons_of_mem _ hd)))
    refine ⟨inv, fun x => (covered x).trans ?_⟩
    rw [spec.covered x, ← inBlock_iff lent.aligned, List.map_cons, List.exists_mem_cons_iff, or_assoc]

/-- Blocks that have been handed out may be freed in any order, and freeing what
an allocation returned restores the free blocks. -/
theorem free_order_irrelevant {s₀ : State} (empty : EmptyZone s₀) (plain : NoCompound s₀)
    {t : Tracked} (run : Relation.ReflTransGen BuddyStep ⟨s₀, []⟩ t) :
    (∀ calls calls' : List FreeCall,
      (∀ c ∈ calls, c.migratetype < migrateTypes ∧ c.block ∈ t.handed) →
      (∀ c ∈ calls', c.migratetype < migrateTypes) →
      (calls.map FreeCall.block).Nodup →
      (calls.map FreeCall.block).Perm (calls'.map FreeCall.block) →
      SameFree (freeBlocks t.st calls) (freeBlocks t.st calls')) ∧
    ∀ order migratetype page migratetype', order < maxOrder → migratetype < 4 →
      migratetype' < migrateTypes → (rmqueue t.st order migratetype).1 = some page →
      SameFree t.st (freeOnePageLocked (rmqueue t.st order migratetype).2 page order migratetype') := by
  have h : PlainInv t := invariant_of_run PlainInv (fun _ _ inv step => inv.step step)
    ⟨empty.inv, plain⟩ run
  constructor
  · intro calls calls' ok range nodup perm
    have held' : ∀ c ∈ calls', c.block ∈ t.handed := by
      intro c hc
      obtain ⟨d, hd, same⟩ := List.mem_map.mp (perm.mem_iff.mpr (List.mem_map_of_mem hc))
      exact same ▸ (ok d hd).2
    obtain ⟨inv, covered⟩ := freeBlocks_spec h calls (fun c hc => (ok c hc).1) nodup
      fun c hc => (ok c hc).2
    obtain ⟨inv', covered'⟩ := freeBlocks_spec h calls' range (perm.nodup_iff.mp nodup) held'
    refine inv.sameFree inv' fun x => ?_
    rw [covered x, covered' x]
    simp only [perm.mem_iff]
  · intro order migratetype page migratetype' small range range' found
    have rangeM : migratetype < migrateTypes := by simp only [migrateTypes]; omega
    rcases rmqueue_takes order h.inv rangeM with none | ⟨p, some, take⟩
    · rw [none] at found
      cases found
    obtain rfl : p = page := Option.some.inj (some.symm.trans found)
    have spec := freeOnePageLocked_spec take.inv take.lent (h.plain.keep take.frame p) range'
    refine h.inv.sameFree spec.inv fun x => ?_
    rw [spec.covered x]
    exact (take.covered_before x).symm

/-- Two single pages of a block of eight, freed in both orders. -/
theorem free_order_irrelevant_pair :
    let s := freeOnePageLocked (freshState 4096) 8 3 migrateMovable
    let r := rmqueue s 0 migrateMovable
    let r' := rmqueue r.2 0 migrateMovable
    r.1 = some 8 ∧ r'.1 = some 9 ∧
      SameFree (freeBlocks r'.2 [⟨⟨0, 8⟩, migrateUnmovable⟩, ⟨⟨0, 9⟩, migrateUnmovable⟩])
        (freeBlocks r'.2 [⟨⟨0, 9⟩, migrateMovable⟩, ⟨⟨0, 8⟩, migrateUnmovable⟩]) ∧
      SameFree r.2 (freeOnePageLocked r'.2 9 0 migrateUnmovable) := by
  have start : BuddyStep ⟨freshState 4096, []⟩
      ⟨freeOnePageLocked (freshState 4096) 8 3 migrateMovable, []⟩ := by
    refine .boot _ ⟨3, 8⟩ migrateMovable (by decide) (by decide) (by decide) ?_ ?_ (by simp)
      (by decide)
    · rintro x ⟨-, high⟩
      exact ⟨Nat.zero_le x, high.trans (by decide)⟩
    · intro x _ o p free
      simp [State.Free, State.free, freshState] at free
  have first := Relation.ReflTransGen.tail (.single start)
    (.alloc _ 0 migrateMovable 8 (by decide) (by decide) (by decide +kernel))
  have second := first.tail
    (.alloc _ 0 migrateMovable 9 (by decide) (by decide) (by decide +kernel))
  have plain : NoCompound (freshState 4096) := fun _ =>
    (by decide : Page.compound ⟨0, 0, -1, 0, 0, 0⟩ = false)
  refine ⟨by decide +kernel, by decide +kernel, ?_, ?_⟩
  · exact (free_order_irrelevant (freshState_empty 4096) plain second).1 _ _
      (by decide) (by decide) (by decide) (by decide)
  · exact (free_order_irrelevant (freshState_empty 4096) plain first).2 0 migrateMovable 9
      migrateUnmovable (by decide) (by decide) (by decide) (by decide +kernel)

end XcKernel.PageAlloc
