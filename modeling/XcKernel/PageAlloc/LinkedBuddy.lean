import XcKernel.PageAlloc.BuddyRuns
import XcKernel.PageAlloc.LinkedZone

/-!
# The links hold the lists

Every function on the links keeps them in step with the lists, and finds the same
pages.  What it needs of the state is that no page is linked twice and that only
linked pages are unlinked; this is the invariant of the buddy allocator.  So every
run on the links is a run on lists.
-/

namespace XcKernel.PageAlloc

open Blocks

variable {z : LinkedZone} {s : State} {o t p : Nat}

theorem findSome?_congr {α β : Type*} {f g : α → Option β} {l : List α} (same : ∀ a ∈ l, f a = g a) :
    l.findSome? f = l.findSome? g := by
  induction l with
  | nil => rfl
  | cons a l ih =>
    rw [List.findSome?_cons, List.findSome?_cons, same a List.mem_cons_self,
      ih fun b mem => same b (List.mem_cons_of_mem a mem)]

theorem Lent.notFree (inv : FreeBlocks s) (lent : Lent s o p) (o' : Nat) : ¬ s.Free o' p := by
  intro free
  exact lent.not_covered (covered_of_head free (head_of_dvd (inv.tiling.aligned free)))

/-- The variables agree when the loop ends. -/
structure HoldsMerged (l : LinkedMerged) (m : Merged) : Prop where
  holds : Holds l.z m.s
  page : l.page = m.page
  pageIdx : l.pageIdx = m.pageIdx
  buddyIdx : l.buddyIdx = m.buddyIdx
  order : l.order = m.order

theorem holds_mergeLoop {idx : Nat} (inv : BuddyInv s) (lent : Lent s o p)
    (window : idx = p % 2 ^ maxOrder) (last : Nat) :
    ∀ {z}, Holds z s → HoldsMerged (z.mergeLoop p idx last o) (mergeLoop s p idx last o) := by
  fun_induction mergeLoop s p idx last o with
  | case1 s p idx last o small buddyIdx b isBuddy s₁ combinedIdx =>
    rename_i ih
    have hb : b = buddy o p := lent.buddy_index window
    have join : p + combinedIdx - idx = head (o + 1) p := lent.join_index window
    have next : combinedIdx = head (o + 1) p % 2 ^ maxOrder := lent.combined_index window
    have free : s.Free o (buddy o p) := (lent.isBuddy_index window inv.toFreeBlocks).mp isBuddy
    have removes : Removes s s₁ o (buddy o p) := by
      simp only [s₁, hb]
      exact removes_merged s o _
    obtain ⟨inv₁, -, -⟩ := inv.remove free removes
    have small' : o + 1 < maxOrder := by simp only [maxOrder] at small ⊢; omega
    intro z holds
    have unlinked : Holds (((z.listDel b).decNrFree o).modifyPage b Page.rmvOrder) s₁ :=
      ((holds.listDel lent.small (hb ▸ free)).decNrFree o).modifyPage b Page.rmvOrder
    have isBuddy' : pageIsBuddy z.rest p b o = true := (holds.isBuddy p b o).trans isBuddy
    have round : z.mergeLoop p idx last o = LinkedZone.mergeLoop
        (((z.listDel b).decNrFree o).modifyPage b Page.rmvOrder) (p + combinedIdx - idx) combinedIdx
        buddyIdx (o + 1) := by
      rw [LinkedZone.mergeLoop, if_pos small]
      exact if_pos isBuddy'
    rw [round]
    rw [join] at ih ⊢
    exact ih inv₁ (lent.join inv small' free removes) next unlinked
  | case2 s p idx last o small buddyIdx b notBuddy =>
    intro z holds
    rw [LinkedZone.mergeLoop, if_pos small, if_neg (by rw [holds.isBuddy]; exact notBuddy)]
    exact ⟨holds, rfl, rfl, rfl, rfl⟩
  | case3 s p idx last o large =>
    intro z holds
    rw [LinkedZone.mergeLoop, if_neg large]
    exact ⟨holds, rfl, rfl, rfl, rfl⟩

theorem holds_insertMerged {l : LinkedMerged} {m : Merged} (merged : HoldsMerged l m)
    (inv : BuddyInv m.s) (lent : Lent m.s m.order m.page) {migratetype : Nat}
    (range : migratetype < migrateTypes) :
    Holds (LinkedZone.insertMerged l migratetype) (insertMerged m migratetype) := by
  obtain ⟨holds, page, pageIdx, buddyIdx, order⟩ := merged
  have marked := holds.modifyPage m.page (·.setOrder m.order)
  have off (o : Nat) : ¬ (m.s.modifyPage m.page (·.setOrder m.order)).Free o m.page :=
    lent.notFree inv.toFreeBlocks o
  have test : higherBuddyFree ⟨(l.z.modifyPage m.page (·.setOrder m.order)).rest, m.page, m.pageIdx,
      m.buddyIdx, m.order⟩ = higherBuddyFree { m with s := m.s.modifyPage m.page (·.setOrder m.order) } := by
    rw [marked.rest]
    rfl
  rw [LinkedZone.insertMerged, page, pageIdx, buddyIdx, order, test, insertMerged]
  refine Holds.incNrFree ?_ m.order
  split
  · exact marked.listAddTail lent.small range off
  · exact marked.listAdd lent.small range off

theorem Holds.freeOnePageLocked (holds : Holds z s) (inv : BuddyInv s) (lent : Lent s o p)
    (plain : (s.memMap p).compound = false) (range : t < migrateTypes) :
    Holds (z.freeOnePageLocked p o t) (freeOnePageLocked s p o t) := by
  have window : p &&& (1 <<< maxOrder - 1) = p % 2 ^ maxOrder := by
    rw [Nat.one_shiftLeft, Nat.and_two_pow_sub_one_eq_mod]
  have plain' : (z.rest.memMap p).compound = false := by rw [holds.memMap, plain]
  have spec := mergeLoop_spec inv lent window 0
  simp only [LinkedZone.freeOnePageLocked, PageAlloc.freeOnePageLocked, plain, plain', Bool.false_eq_true,
    if_false, ne_eq, not_true_eq_false]
  exact holds_insertMerged (holds_mergeLoop inv lent window 0 holds) spec.inv spec.lent range

theorem Lent.insertUpper {s' : State} {high : Nat} (inv : BuddyInv s) (lent : Lent s (high + 1) p)
    (inserts : Inserts s s' high (p + 2 ^ high)) : BuddyInv s' ∧ Lent s' high p := by
  obtain ⟨lower, upper⟩ := lent.halves
  have pair : buddy high p = p + 2 ^ high := buddy_of_dvd_succ lent.aligned
  have alone : high + 1 < maxOrder → ¬ s.Free high (buddy high (p + 2 ^ high)) := by
    rintro - free
    rw [← pair, buddy_buddy] at free
    exact lower.notFree inv.toFreeBlocks high free
  obtain ⟨inv', covered⟩ := inv.insert upper inserts alone
  refine ⟨inv', lower.keep inserts.frame fun x inside cov => ?_⟩
  obtain old | new := (covered x).1 cov
  · exact old
  · have pos := Nat.two_pow_pos high
    omega

theorem holds_expand {low high : Nat} (inv : BuddyInv s) (lent : Lent s high p) (range : t < migrateTypes) :
    ∀ {z}, Holds z s → Holds (z.expand p low t high) (expand s p low t high) := by
  induction high generalizing s with
  | zero => exact id
  | succ high ih =>
    intro z holds
    rw [LinkedZone.expand, expand]
    by_cases more : high + 1 > low
    · rw [if_pos more, if_pos more, Nat.one_shiftLeft]
      have upper := lent.halves.2
      obtain ⟨inv', lower⟩ := lent.insertUpper inv (inserts_expand s range high (p + 2 ^ high))
      refine ih inv' lower ?_
      exact ((holds.listAdd upper.small range (upper.notFree inv.toFreeBlocks)).incNrFree high).modifyPage
        _ _
    · rw [if_neg more, if_neg more]
      exact holds

theorem Holds.take {high : Nat} (holds : Holds z s) (inv : BuddyInv s) (free : s.Free high p)
    (range : t < migrateTypes) :
    Holds ((((z.listDel p).modifyPage p Page.rmvOrder).decNrFree high).expand p o t high)
      (expand (((s.listDel p).modifyPage p Page.rmvOrder).decNrFree high) p o t high) := by
  obtain ⟨inv', lent, -⟩ := inv.remove free (removes_smallest s high p)
  refine holds_expand inv' lent range ?_
  exact ((holds.listDel (inv.small free) free).modifyPage p Page.rmvOrder).decNrFree high

theorem Holds.rmqueueSmallest (holds : Holds z s) (inv : BuddyInv s) (range : t < migrateTypes) (o : Nat) :
    (z.rmqueueSmallest o t).1 = (rmqueueSmallest s o t).1 ∧
      Holds (z.rmqueueSmallest o t).2 (rmqueueSmallest s o t).2 := by
  have same : ((List.range' o (maxOrder - o)).findSome? fun currentOrder =>
        (z.first currentOrder t).map fun page => (currentOrder, page)) =
      (List.range' o (maxOrder - o)).findSome? fun currentOrder =>
        (s.zone.freeList currentOrder t).head?.map fun page => (currentOrder, page) := by
    refine findSome?_congr fun currentOrder mem => ?_
    rw [holds.first_eq (by have := List.mem_range'_1.1 mem; omega) range]
  rw [LinkedZone.rmqueueSmallest, PageAlloc.rmqueueSmallest, same]
  generalize found : List.findSome? _ (List.range' o (maxOrder - o)) = block
  cases block with
  | none => exact ⟨rfl, holds⟩
  | some block =>
    obtain ⟨high, -, hit⟩ := List.exists_of_findSome?_eq_some found
    obtain ⟨page, head, rfl⟩ := Option.map_eq_some_iff.1 hit
    exact ⟨rfl, holds.take inv (free_of_head? range head) range⟩

theorem holds_moveFreepages {page endPage moved : Nat} (inv : FreeBlocks s) (range : t < migrateTypes)
    (zone : ∀ x, page ≤ x → x ≤ endPage → s.Spanned x) :
    ∀ {z}, Holds z s → (z.moveFreepages page endPage t moved).1 = (moveFreepages s page endPage t moved).1 ∧
      Holds (z.moveFreepages page endPage t moved).2 (moveFreepages s page endPage t moved).2 := by
  fun_induction moveFreepages s page endPage t moved with
  | case1 s page moved le mark order =>
    rename_i ih
    intro z holds
    have spanned := zone page le_rfl le
    obtain ⟨o, free⟩ := (inv.marked page (inv.zonenum page spanned)).mp mark
    have same := sameBlocks_listMove inv free range
    have horder : order = o := inv.order free
    have horder' : (z.rest.memMap page).order = o := by rw [holds.memMap]; exact inv.order free
    have mark' : (z.rest.memMap page).buddy = true := by rw [holds.memMap]; exact mark
    have round : z.moveFreepages page endPage t moved =
        (z.listMove o t page).moveFreepages (page + 2 ^ o) endPage t (moved + 2 ^ o) := by
      rw [LinkedZone.moveFreepages, if_pos le, if_pos mark', horder']
    have pos := Nat.two_pow_pos o
    rw [round]
    rw [horder] at ih ⊢
    refine ih (inv.same same) (fun x above below => ?_) (holds.listMove (inv.small free) range free)
    exact (same.frame.spanned x).mpr (zone x (by omega) below)
  | case2 s page moved le unmarked =>
    rename_i ih
    intro z holds
    have unmarked' : ¬ (z.rest.memMap page).buddy = true := by rw [holds.memMap]; exact unmarked
    rw [LinkedZone.moveFreepages, if_pos le, if_neg unmarked']
    exact ih inv (fun x above below => zone x (by omega) below) holds
  | case3 s page moved done =>
    intro z holds
    rw [LinkedZone.moveFreepages, if_neg done]
    exact ⟨rfl, holds⟩

theorem Holds.moveFreepagesBlock {page : Nat} (holds : Holds z s) (inv : FreeBlocks s)
    (range : t < migrateTypes) (spanned : s.Spanned page) :
    (z.moveFreepagesBlock page t).1 = (moveFreepagesBlock s page t).1 ∧
      Holds (z.moveFreepagesBlock page t).2 (moveFreepagesBlock s page t).2 := by
  have span : z.rest.zone.zoneStartPfn = s.zone.zoneStartPfn ∧
      z.rest.zone.spannedPages = s.zone.spannedPages := by
    rw [holds.rest]
    exact ⟨rfl, rfl⟩
  rw [LinkedZone.moveFreepagesBlock, PageAlloc.moveFreepagesBlock, span.1, span.2]
  split
  · exact ⟨rfl, holds⟩
  · refine holds_moveFreepages inv range (fun x above below => ?_) holds
    simp only [State.Spanned] at spanned ⊢
    split at above <;> omega

theorem Holds.stealPageblock {page start : Nat} (holds : Holds z s) (inv : FreeBlocks s)
    (rangeStart : start < migrateTypes) (spanned : s.Spanned page) (high migratetype : Nat) :
    (z.stealPageblock page high start migratetype).1 = (stealPageblock s page high start migratetype).1 ∧
      Holds (z.stealPageblock page high start migratetype).2
        (stealPageblock s page high start migratetype).2 := by
  have mobility : z.rest.pageGroupByMobilityDisabled = s.pageGroupByMobilityDisabled := by
    rw [holds.rest]
    rfl
  obtain ⟨count, moved⟩ := holds.moveFreepagesBlock inv rangeStart spanned
  simp only [LinkedZone.stealPageblock, PageAlloc.stealPageblock, mobility, count]
  split
  · refine ⟨rfl, ?_⟩
    dsimp only
    split
    · exact moved.modifyRest (f := fun s => setPageblockMigratetype s page start) (fun _ => rfl) rfl
    · exact moved
  · exact ⟨rfl, holds⟩

theorem Holds.changePageblockRange {page high migratetype : Nat} (holds : Holds z s) :
    Holds { z with rest := changePageblockRange z.rest page high migratetype }
      (changePageblockRange s page high migratetype) := by
  unfold PageAlloc.changePageblockRange
  generalize List.range (1 <<< (high - pageblockOrder)) = blocks
  induction blocks generalizing z s with
  | nil => exact holds
  | cons i blocks ih =>
    exact ih (holds.modifyRest (f := fun s => setPageblockMigratetype s _ migratetype) (fun _ => rfl) rfl)

theorem Holds.findFallback (holds : Holds z s) (o start : Nat) :
    z.findFallback o start = findFallback s o start := by
  refine findSome?_congr fun high mem => findSome?_congr fun migratetype mem' => ?_
  have small : high < maxOrder := by
    have := List.mem_range'_1.1 (List.mem_reverse.1 mem)
    omega
  rw [holds.first_eq small (fallbacks_lt mem')]

theorem findFallback_free {start high migratetype page : Nat}
    (found : findFallback s o start = some (high, migratetype, page)) :
    migratetype < migrateTypes ∧ s.Free high page := by
  obtain ⟨high', -, hit⟩ := List.exists_of_findSome?_eq_some found
  obtain ⟨t, member, hit⟩ := List.exists_of_findSome?_eq_some hit
  split at hit
  · cases hit
  · obtain ⟨page', head, triple⟩ := Option.map_eq_some_iff.1 hit
    simp only [Prod.mk.injEq] at triple
    obtain ⟨rfl, rfl, rfl⟩ := triple
    have range := fallbacks_lt member
    exact ⟨range, free_of_head? range head⟩

theorem Holds.rmqueueFallback {start : Nat} (holds : Holds z s) (inv : BuddyInv s)
    (rangeStart : start < migrateTypes) (o : Nat) :
    (z.rmqueueFallback o start).1 = (rmqueueFallback s o start).1 ∧
      Holds (z.rmqueueFallback o start).2 (rmqueueFallback s o start).2 := by
  rw [LinkedZone.rmqueueFallback, PageAlloc.rmqueueFallback, holds.findFallback]
  cases found : PageAlloc.findFallback s o start with
  | none => exact ⟨rfl, holds⟩
  | some block =>
    obtain ⟨high, migratetype, page⟩ := block
    obtain ⟨range, free⟩ := findFallback_free found
    have spanned := inv.head_spanned free
    obtain ⟨rangeSteal, steal⟩ := stealPageblock_spec high (inv.decNrFree high) rangeStart range spanned
    obtain ⟨sameType, stolen⟩ := (holds.decNrFree high).stealPageblock (inv.decNrFree high) rangeStart
      spanned high migratetype
    have freeStolen : (PageAlloc.stealPageblock (s.decNrFree high) page high start migratetype).2.Free
        high page := by
      rw [steal.free_eq]
      exact free
    have unlinked := (stolen.listDel (inv.small free) freeStolen).modifyPage page Page.rmvOrder
    refine ⟨rfl, ?_⟩
    dsimp only
    rw [sameType]
    split
    · have retyped (t : State) : SameBlocks t (PageAlloc.changePageblockRange t page high start) :=
        changePageblockRange_same t rangeStart
      have removes := removes_fallback steal (retyped
        ((PageAlloc.stealPageblock (s.decNrFree high) page high start migratetype).2.listDel page
          |>.modifyPage page Page.rmvOrder))
      obtain ⟨inv', lent, -⟩ := inv.remove free removes
      exact holds_expand inv' lent rangeSteal unlinked.changePageblockRange
    · obtain ⟨inv', lent, -⟩ := inv.remove free (removes_fallback steal (.refl _))
      exact holds_expand inv' lent rangeSteal unlinked

theorem Holds.rmqueue (holds : Holds z s) (inv : BuddyInv s) (range : t < migrateTypes) (o : Nat) :
    (z.rmqueue o t).1 = (rmqueue s o t).1 ∧ Holds (z.rmqueue o t).2 (rmqueue s o t).2 := by
  obtain ⟨page, smallest⟩ := holds.rmqueueSmallest inv range o
  rw [LinkedZone.rmqueue, PageAlloc.rmqueue]
  dsimp only
  rw [page]
  split
  · rename_i missed
    obtain nothing | ⟨p, found, -⟩ := rmqueueSmallest_takes (o := o) inv range
    · rw [nothing] at smallest ⊢
      obtain ⟨page', fallback⟩ := smallest.rmqueueFallback inv range o
      rw [page']
      split
      · obtain nothing' | ⟨p, found, -⟩ := rmqueueFallback_takes (o := o) inv range
        · rw [nothing'] at fallback ⊢
          exact fallback.rmqueueSmallest inv (by decide) o
        · rename_i missed'
          dsimp only at missed'
          rw [found] at missed'
          cases missed'
      · exact ⟨page', fallback⟩
    · rw [found] at missed
      cases missed.1
  · exact ⟨page, smallest⟩

/-- The zone in memory with the blocks that have been handed out. -/
structure LinkedTracked where
  z : LinkedZone
  handed : List Block

/-- One call, as in `BuddyStep`.  A block that has never been in the allocator lies in
no block that is marked. -/
inductive LinkedStep : LinkedTracked → LinkedTracked → Prop where
  | alloc (l : LinkedTracked) (order migratetype page : Nat) (small : order < maxOrder)
      (range : migratetype < 4) (found : (l.z.rmqueue order migratetype).1 = some page) :
      LinkedStep l ⟨(l.z.rmqueue order migratetype).2, ⟨order, page⟩ :: l.handed⟩
  | fail (l : LinkedTracked) (order migratetype : Nat) (small : order < maxOrder)
      (range : migratetype < 4) (missed : (l.z.rmqueue order migratetype).1 = none) :
      LinkedStep l ⟨(l.z.rmqueue order migratetype).2, l.handed⟩
  | free (l : LinkedTracked) (b : Block) (migratetype : Nat) (range : migratetype < migrateTypes)
      (held : b ∈ l.handed) (plain : (l.z.rest.memMap b.page).compound = false) :
      LinkedStep l ⟨l.z.freeOnePageLocked b.page b.order migratetype, l.handed.erase b⟩
  | boot (l : LinkedTracked) (b : Block) (migratetype : Nat) (range : migratetype < migrateTypes)
      (small : b.order < maxOrder) (aligned : 2 ^ b.order ∣ b.page)
      (inZone : ∀ x, InBlock b.order b.page x → l.z.rest.Spanned x)
      (notMarked : ∀ x, InBlock b.order b.page x → ∀ p, l.z.rest.Spanned p →
        (l.z.rest.memMap p).buddy = true → ¬ InBlock (l.z.rest.memMap p).order p x)
      (notHanded : ∀ a ∈ l.handed, b.Apart a)
      (plain : (l.z.rest.memMap b.page).compound = false) :
      LinkedStep l ⟨l.z.freeOnePageLocked b.page b.order migratetype, l.handed⟩

/-- The links hold the lists, and the same blocks have been handed out. -/
structure HoldsTracked (l : LinkedTracked) (t : Tracked) : Prop where
  holds : Holds l.z t.st
  handed : l.handed = t.handed
  inv : TrackedInv t

theorem Holds.spanned (holds : Holds z s) (p : Nat) : z.rest.Spanned p ↔ s.Spanned p := by
  rw [holds.rest]
  rfl

theorem HoldsTracked.step {l l' : LinkedTracked} {t : Tracked} (held : HoldsTracked l t)
    (step : LinkedStep l l') : ∃ t', BuddyStep t t' ∧ HoldsTracked l' t' := by
  obtain ⟨holds, handed, inv⟩ := held
  cases step with
  | alloc order migratetype page small range found =>
    have range' : migratetype < migrateTypes := by simp only [migrateTypes]; omega
    obtain ⟨same, holds'⟩ := holds.rmqueue inv.inv range' order
    have step := BuddyStep.alloc t order migratetype page small range (same ▸ found)
    exact ⟨_, step, holds', by rw [handed], inv.step step⟩
  | fail order migratetype small range missed =>
    have range' : migratetype < migrateTypes := by simp only [migrateTypes]; omega
    obtain ⟨same, holds'⟩ := holds.rmqueue inv.inv range' order
    have step := BuddyStep.fail t order migratetype small range (same ▸ missed)
    exact ⟨_, step, holds', handed, inv.step step⟩
  | free b migratetype range held plain =>
    rw [holds.memMap] at plain
    rw [handed] at held
    have step := BuddyStep.free t b migratetype range held plain
    exact ⟨_, step, holds.freeOnePageLocked inv.inv (inv.lent b held) plain range, by rw [handed], inv.step step⟩
  | boot b migratetype range small aligned inZone notMarked notHanded plain =>
    rw [holds.memMap] at plain
    rw [handed] at notHanded
    have inZone' : ∀ x, InBlock b.order b.page x → t.st.Spanned x := fun x inside =>
      (holds.spanned x).1 (inZone x inside)
    have notFree : ∀ x, InBlock b.order b.page x → ∀ o p, t.st.Free o p → ¬ InBlock o p x := by
      intro x inside o p free
      have spanned := inv.inv.head_spanned free
      have marked := (inv.inv.marked p (inv.inv.zonenum p spanned)).2 ⟨o, free⟩
      have apart := notMarked x inside p ((holds.spanned p).2 spanned) (by rw [holds.memMap]; exact marked)
      rwa [holds.memMap, inv.inv.order free] at apart
    have step := BuddyStep.boot t b migratetype range small aligned inZone' notFree notHanded plain
    exact ⟨_, step, holds.freeOnePageLocked inv.inv (.ofNotFree aligned small inZone' notFree) plain range,
      handed, inv.step step⟩

/-- A run on the links, from lists that have just been initialised, is a run on lists
of frame numbers: the same blocks are handed out, and in every state the links make
rings of exactly the pages on the lists, in their order. -/
theorem linked_buddy_runs {z : LinkedZone}
    (unmarked : ∀ p, (z.rest.memMap p).zonenum = z.rest.zone.idx → (z.rest.memMap p).buddy = false)
    (zonenum : ∀ p, z.rest.Spanned p → (z.rest.memMap p).zonenum = z.rest.zone.idx) {l : LinkedTracked}
    (run : Relation.ReflTransGen LinkedStep ⟨z.zoneInitFreeLists, []⟩ l) :
    ∃ t : Tracked, Relation.ReflTransGen BuddyStep ⟨z.zoneInitFreeLists.rest, []⟩ t ∧
      Holds l.z t.st ∧ l.handed = t.handed ∧ BuddyOk t := by
  have empty : EmptyZone z.zoneInitFreeLists.rest := ⟨fun _ _ => rfl, fun _ => rfl, unmarked, zonenum⟩
  have start : HoldsTracked ⟨z.zoneInitFreeLists, []⟩ ⟨z.zoneInitFreeLists.rest, []⟩ :=
    ⟨.zoneInitFreeLists z, rfl, empty.inv⟩
  obtain ⟨t, run', held⟩ := matched_of_run HoldsTracked (fun _ _ _ held step => held.step step) start run
  exact ⟨t, run', held.holds, held.handed, held.inv.ok⟩

/-- A block of eight pages comes in and a single page of it goes out; three rings have
a page then. -/
theorem linked_buddy_runs_split :
    let z₀ : LinkedZone := ⟨⟨fun _ => .poison1, fun _ => .poison2⟩, freshState 4096⟩
    let z := z₀.zoneInitFreeLists.freeOnePageLocked 8 3 migrateMovable
    let r := z.rmqueue 0 migrateUnmovable
    r.1 = some 8 ∧ r.2.lru.next (.freeList 2 migrateMovable) = .page 12 ∧
      r.2.lru.next (.page 12) = .freeList 2 migrateMovable ∧
      ∃ t : Tracked, Holds r.2 t.st ∧ t.handed = [⟨0, 8⟩] ∧ BuddyOk t := by
  intro z₀ z r
  have booted : LinkedStep ⟨z₀.zoneInitFreeLists, []⟩ ⟨z, []⟩ := by
    refine .boot _ ⟨3, 8⟩ migrateMovable (by decide) (by decide) (by decide) ?_ ?_ ?_ (by decide)
    · rintro x ⟨-, high⟩
      exact ⟨Nat.zero_le x, high.trans (by decide)⟩
    · intro x _ p _ marked
      simp [z₀, LinkedZone.zoneInitFreeLists, freshState, Page.buddy, pageBuddyMapcountValue] at marked
    · intro a member
      cases member
  have taken : LinkedStep ⟨z, []⟩ ⟨r.2, [⟨0, 8⟩]⟩ :=
    .alloc ⟨z, []⟩ 0 migrateUnmovable 8 (by decide) (by decide) (by decide +kernel)
  obtain ⟨t, -, holds, handed, ok⟩ := linked_buddy_runs (z := z₀) (fun _ _ => rfl)
    (fun _ _ => (by decide : Page.zonenum ⟨0, 0, -1, 0, 0, 0⟩ = 0)) (.tail (.single booted) taken)
  exact ⟨by decide +kernel, by decide +kernel, by decide +kernel, t, holds, handed.symm, ok⟩

end XcKernel.PageAlloc
