import XcKernel.PageAlloc.BuddyRuns
import XcKernel.PageAlloc.FreeSpec

/-!
# Where a freed block is put on its list

After its loop `__free_one_page` asks whether the parent of the merged block has a
free buddy, in which case the block is likely to merge soon and goes to the tail
of its list.  The page it looks at is found from `page` and not from
`higher_page`.  For the upper half of the parent this is a page in the middle of
the block that was meant, where no free block of that order can start.
-/

namespace XcKernel.PageAlloc

open Blocks

variable {s s' : State} {order p migratetype : Nat}

/-- The order that the block of order `order` at `p` reaches when it is freed: the
buddies below that order are free, and the buddy at that order is not. -/
structure MergesTo (s : State) (order p o : Nat) : Prop where
  le : order ≤ o
  small : o < maxOrder
  free : ∀ k, order ≤ k → k < o → s.Free k (buddy k (head k p))
  ends : o + 1 < maxOrder → ¬ s.Free o (buddy o (head o p))

theorem MergesTo.unique {o o' : Nat} (merges : MergesTo s order p o)
    (merges' : MergesTo s order p o') : o = o' := by
  have small := merges.small
  have small' := merges'.small
  rcases Nat.lt_trichotomy o o' with below | same | above
  · exact (merges.ends (by omega) (merges'.free o merges.le below)).elim
  · exact same
  · exact (merges'.ends (by omega) (merges.free o' merges'.le above)).elim

/-- The buddy, at order `o + 1`, of the block of that order around `p`. -/
def higherBuddy (o p : Nat) : Nat := buddy (o + 1) (head (o + 1) p)

/-- What the placement is to be: the free block around `p` is at the tail of its
list if the buddy of its parent is free, and at the head otherwise. -/
def TailPlacement (s s' : State) (p migratetype : Nat) : Prop :=
  ∀ o, s'.Free o (head o p) → o < maxOrder - 2 →
    (s'.Free (o + 1) (higherBuddy o p) →
      s'.zone.freeList o migratetype = s.zone.freeList o migratetype ++ [head o p]) ∧
    (¬ s'.Free (o + 1) (higherBuddy o p) →
      s'.zone.freeList o migratetype = head o p :: s.zone.freeList o migratetype)

/-- When the page that is looked at cannot mislead: the merged block is the lower half
of its parent, or its list is empty, or neither the buddy of the parent is free nor
the page in its middle is marked like one. -/
def LooksRight (s : State) (order p migratetype : Nat) : Prop :=
  ∀ o, MergesTo s order p o → o < maxOrder - 2 →
    2 ^ (o + 1) ∣ head o p ∨ s.zone.freeList o migratetype = [] ∨
      ¬ s.Free (o + 1) (higherBuddy o p) ∧
        pageIsBuddy s (head (o + 1) p) (higherBuddy o p + 2 ^ o) (o + 1) = false

/-- What the loop leaves in its variables, and which lists it leaves alone. -/
structure MergeVars (s : State) (order p : Nat) (m : Merged) : Prop where
  merges : MergesTo s order p m.order
  pageIdx : m.pageIdx = m.page % 2 ^ maxOrder
  buddyIdx : m.order + 1 < maxOrder → m.buddyIdx = buddy m.order m.pageIdx
  freeList : ∀ k t, m.order ≤ k → t < migrateTypes →
    m.s.zone.freeList k t = s.zone.freeList k t

theorem FreeBlocks.listDel_of_ne (inv : FreeBlocks s) {o b k t : Nat} (free : s.Free o b)
    (ne : k ≠ o) (range : t < migrateTypes) :
    (s.zone.freeList k t).filter (· != b) = s.zone.freeList k t := by
  rw [List.filter_eq_self]
  intro x member
  rw [bne_iff_ne]
  rintro rfl
  exact ne (inv.tiling.order_eq ((s.free_def k x).mpr ⟨t, range, member⟩) free)

theorem MergesTo.of_join {o o' : Nat} (aligned : 2 ^ o ∣ p) (free : s.Free o (buddy o p))
    (same : ∀ k q, o < k → (s'.Free k q ↔ s.Free k q))
    (merges : MergesTo s' (o + 1) (head (o + 1) p) o') : MergesTo s o p o' := by
  have le := merges.le
  have around : ∀ k, o < k → head k (head (o + 1) p) = head k p := fun k lt => head_head lt p
  refine ⟨by omega, merges.small, fun k low high => ?_, fun small isFree => ?_⟩
  · rcases Nat.eq_or_lt_of_le low with rfl | above
    · rwa [head_of_dvd aligned]
    · have next := merges.free k above high
      rwa [around k above, same k _ above] at next
  · apply merges.ends small
    rwa [around o' (by omega), same o' _ (by omega)]

theorem mergeLoop_vars {idx : Nat} (inv : BuddyInv s) (lent : Lent s order p)
    (window : idx = p % 2 ^ maxOrder) (last : Nat) :
    MergeVars s order p (mergeLoop s p idx last order) := by
  fun_induction mergeLoop s p idx last order with
  | case1 s p idx last o small buddyIdx b isBuddy s₁ combinedIdx ih =>
    have hb : b = buddy o p := lent.buddy_index window
    have join : p + combinedIdx - idx = head (o + 1) p := lent.join_index window
    have free : s.Free o (buddy o p) := (lent.isBuddy_index window inv.toFreeBlocks).mp isBuddy
    have removes : Removes s s₁ o (buddy o p) := by
      simp only [s₁, hb]
      exact removes_merged s o _
    have small' : o + 1 < maxOrder := by simp only [maxOrder] at small ⊢; omega
    have same : ∀ k q, o < k → (s₁.Free k q ↔ s.Free k q) := fun k q above => by
      rw [removes.free_iff inv.toFreeBlocks free]
      exact and_iff_left fun here => absurd here.1 above.ne'
    rw [join]
    rw [join] at ih
    obtain ⟨merges, pageIdx, lastIdx, freeList⟩ := ih (inv.remove free removes).1
      (lent.join inv small' free removes) (lent.combined_index window)
    refine ⟨merges.of_join lent.aligned free same, pageIdx, lastIdx, fun k t above range => ?_⟩
    have le := merges.le
    rw [freeList k t above range]
    exact inv.listDel_of_ne (hb ▸ free) (by omega) range
  | case2 s p idx last o small buddyIdx b notBuddy =>
    refine ⟨⟨le_rfl, lent.small, fun k low high => absurd high low.not_gt, fun _ free => ?_⟩, window,
      fun _ => findBuddyIndex_eq idx o, fun _ _ _ _ => rfl⟩
    rw [head_of_dvd lent.aligned] at free
    exact notBuddy ((lent.isBuddy_index window inv.toFreeBlocks).mpr free)
  | case3 s p idx last o large =>
    simp only [maxOrder] at large
    refine ⟨⟨le_rfl, lent.small, fun k low high => absurd high low.not_gt, fun small => ?_⟩, window,
      fun small => ?_, fun _ _ _ _ => rfl⟩
    all_goals
      simp only [maxOrder] at small
      omega

/-- The page that is looked at lies as far behind the buddy of the parent as the
merged block lies behind the start of the parent. -/
theorem MergeVars.higherBuddyFree {m : Merged} (vars : MergeVars s order p m)
    (lent : Lent m.s m.order m.page) (st : State) (room : m.order < maxOrder - 2) :
    higherBuddyFree { m with s := st } = pageIsBuddy st (head (m.order + 1) m.page)
      (higherBuddy m.order m.page + (m.page - head (m.order + 1) m.page)) (m.order + 1) := by
  simp only [maxOrder] at room
  have lt : m.order + 1 < maxOrder := by simp only [maxOrder]; omega
  have below := head_le (m.order + 1) m.page
  have idx : m.buddyIdx = findBuddyIndex m.pageIdx m.order := by
    rw [vars.buddyIdx lt, findBuddyIndex_eq]
  have buddyOf := buddy_window lt (two_pow_dvd_head (m.order + 1) m.page)
  have inWindow := Nat.mod_le (head (m.order + 1) m.page) (2 ^ maxOrder)
  have far : m.page + buddy (m.order + 1) (head (m.order + 1) m.page % 2 ^ maxOrder) -
      head (m.order + 1) m.page % 2 ^ maxOrder =
      higherBuddy m.order m.page + (m.page - head (m.order + 1) m.page) := by
    rw [higherBuddy]
    omega
  unfold PageAlloc.higherBuddyFree
  dsimp only
  rw [idx, lent.join_index vars.pageIdx, lent.combined_index vars.pageIdx,
    findBuddyIndex_eq _ (m.order + 1), far, decide_eq_true (by simp only [maxOrder]; omega), Bool.true_and]

theorem destroyCompoundPage_cleans (s : State) (page order : Nat) :
    Cleans s (destroyCompoundPage s page order).2 (· = page) := by
  have clears (st : State) (flag : PageFlag) :
      Cleans st (st.modifyPage page (·.clear flag)) (· = page) :=
    .modifyPage st (· = page) rfl (cleaned_clear _ _)
  unfold destroyCompoundPage
  dsimp only
  refine List.foldlRecOn (motive := fun r : Nat × State => Cleans s r.2 (· = page)) _ _
    (clears s .head) ?_
  intro r cleans i _
  exact cleans.trans (clears r.2 .tail)

theorem BuddyInv.cleans (inv : BuddyInv s) (notFree : ¬ Covered s.Free p)
    (cleans : Cleans s s' (· = p)) : BuddyInv s' := by
  refine inv.touch (.of_zone cleans.zone) (fun x free => ?_) (fun x => (cleans.cleaned x).zonenum)
    fun x zone free => ?_
  · exact cleans.outside x fun here => notFree (here ▸ free)
  · rw [Page.buddy, (cleans.cleaned x).mapcount]
    exact inv.unmarked zone free

theorem append_singleton_eq_cons_iff {α : Type} {a : α} {l : List α} (new : a ∉ l) :
    l ++ [a] = a :: l ↔ l = [] := by
  cases l with
  | nil => simp
  | cons b l =>
    have ne : b ≠ a := fun same => new (same ▸ List.mem_cons_self)
    simp [ne]

theorem insertMerged_freeList (m : Merged) (migratetype : Nat) :
    (insertMerged m migratetype).zone.freeList m.order migratetype =
      if higherBuddyFree { m with s := m.s.modifyPage m.page (·.setOrder m.order) }
      then m.s.zone.freeList m.order migratetype ++ [m.page]
      else m.page :: m.s.zone.freeList m.order migratetype := by
  unfold insertMerged
  dsimp only
  split <;> exact if_pos ⟨rfl, rfl⟩

theorem MergeSpec.pageIsBuddy_eq {m : Merged} (spec : MergeSpec s order p m) {a b k : Nat}
    (far : head m.order b ≠ m.page) :
    pageIsBuddy (m.s.modifyPage m.page (·.setOrder m.order)) a b k = pageIsBuddy s a b k := by
  have frame := spec.frame.trans (.modifyPage m.s m.page (pageFrame_setOrder m.order))
  have other : b ≠ m.page := by
    rintro rfl
    exact far (head_of_dvd spec.lent.aligned)
  unfold pageIsBuddy
  rw [frame.zonenum a, frame.zonenum b, State.modifyPage_of_ne _ other, spec.outside b far]

theorem FreeBlocks.not_middle (inv : FreeBlocks s) {o b a : Nat} (free : s.Free (o + 1) b) :
    pageIsBuddy s a (b + 2 ^ o) (o + 1) = false := by
  have pos := Nat.two_pow_pos o
  have double : 2 ^ (o + 1) = 2 ^ o + 2 ^ o := by rw [Nat.pow_succ]; omega
  have aligned := inv.tiling.aligned free
  have spanned : s.Spanned (b + 2 ^ o) := by
    apply inv.inZone free
    rw [head_eq_iff aligned]
    omega
  rw [← Bool.not_eq_true]
  intro marked
  have zone : (s.memMap a).zonenum = s.zone.idx := by
    simp only [pageIsBuddy, Bool.and_eq_true, decide_eq_true_eq] at marked
    exact marked.1.trans (inv.zonenum _ spanned)
  have middle := inv.tiling.aligned ((pageIsBuddy_iff inv zone).mp marked)
  have half := (Nat.dvd_add_right aligned).mp middle
  exact absurd (Nat.le_of_dvd pos half) (by omega)

theorem higherBuddy_apart {o p d : Nat} (inside : d < 2 ^ (o + 1)) :
    head (o + 1) (higherBuddy o p + d) ≠ head (o + 1) p := by
  have parent := two_pow_dvd_head (o + 1) p
  have within : head (o + 1) (higherBuddy o p + d) = higherBuddy o p :=
    (head_eq_iff (two_pow_dvd_buddy parent)).mpr
      ⟨Nat.le_add_right _ _, Nat.add_lt_add_left inside _⟩
  rw [within]
  exact buddy_ne parent

/-- The block goes to the tail if the page that is looked at seems to be the buddy. -/
theorem MergeSpec.freeList {m : Merged} (spec : MergeSpec s order p m) (vars : MergeVars s order p m)
    (page : m.page = head m.order p) (range : migratetype < migrateTypes)
    (room : m.order < maxOrder - 2) :
    (insertMerged m migratetype).zone.freeList m.order migratetype =
      if pageIsBuddy s (head (m.order + 1) p)
          (higherBuddy m.order p + (head m.order p - head (m.order + 1) p)) (m.order + 1)
      then s.zone.freeList m.order migratetype ++ [head m.order p]
      else head m.order p :: s.zone.freeList m.order migratetype := by
  have parent : head (m.order + 1) m.page = head (m.order + 1) p := by
    rw [page, head_head (Nat.le_succ _)]
  have sameBuddy : higherBuddy m.order m.page = higherBuddy m.order p := by
    rw [higherBuddy, higherBuddy, parent]
  have near : head m.order p - head (m.order + 1) p < 2 ^ (m.order + 1) := by
    have inParent := (head_eq_iff (two_pow_dvd_head (m.order + 1) p)).mp
      (head_head (Nat.le_succ m.order) p)
    omega
  have far : head m.order (higherBuddy m.order p + (head m.order p - head (m.order + 1) p)) ≠
      m.page := by
    intro inside
    have up := head_eq_of_le (Nat.le_succ m.order) inside
    rw [parent] at up
    exact higherBuddy_apart near up
  rw [insertMerged_freeList, vars.higherBuddyFree spec.lent _ room, parent, sameBuddy,
    vars.freeList _ _ le_rfl range]
  rw [← page] at far ⊢
  rw [spec.pageIsBuddy_eq far]

/-- When the list comes out as it should, for a block that is not on it yet. -/
theorem placed_iff {q : Nat} {l : List Nat} {seen : Bool} {isFree : Prop} (new : q ∉ l) :
    ((isFree → (if seen then l ++ [q] else q :: l) = l ++ [q]) ∧
      (¬ isFree → (if seen then l ++ [q] else q :: l) = q :: l)) ↔
    (seen = true ↔ isFree) ∨ l = [] := by
  have same := append_singleton_eq_cons_iff new
  have same' : q :: l = l ++ [q] ↔ l = [] := eq_comm.trans same
  cases seen <;> by_cases free : isFree <;> simp [free, same, same']

/-- The test is right for the lower half of the parent, and for the upper half unless
the buddy of the parent is free or the page in its middle is marked. -/
theorem BuddyInv.seen_iff (inv : BuddyInv s) {o : Nat}
    (zone : (s.memMap (head o p)).zonenum = s.zone.idx) :
    (pageIsBuddy s (head (o + 1) p) (higherBuddy o p + (head o p - head (o + 1) p)) (o + 1) = true ↔
      s.Free (o + 1) (higherBuddy o p)) ↔
    2 ^ (o + 1) ∣ head o p ∨ ¬ s.Free (o + 1) (higherBuddy o p) ∧
      pageIsBuddy s (head (o + 1) p) (higherBuddy o p + 2 ^ o) (o + 1) = false := by
  have pos := Nat.two_pow_pos o
  have parent : head (o + 1) (head o p) = head (o + 1) p := head_head (Nat.le_succ o) p
  rcases buddy_cases (two_pow_dvd_head o p) with ⟨lower, -⟩ | ⟨lower, upper⟩
  · have start : head (o + 1) p = head o p := parent.symm.trans lower
    have aligned : 2 ^ (o + 1) ∣ head o p := start ▸ two_pow_dvd_head (o + 1) p
    rw [start, Nat.sub_self, Nat.add_zero, pageIsBuddy_iff inv.toFreeBlocks zone]
    simp [aligned]
  · have offset : head o p - head (o + 1) p = 2 ^ o := by omega
    have unaligned : ¬ 2 ^ (o + 1) ∣ head o p := fun h => by
      rw [head_of_dvd h] at lower
      omega
    rw [offset]
    have middle : s.Free (o + 1) (higherBuddy o p) →
        pageIsBuddy s (head (o + 1) p) (higherBuddy o p + 2 ^ o) (o + 1) = false :=
      inv.not_middle
    by_cases free : s.Free (o + 1) (higherBuddy o p)
    · simp [free, unaligned, middle free]
    · simp [free, unaligned]

theorem placement_iff (inv : BuddyInv s) (lent : Lent s order p)
    (range : migratetype < migrateTypes) {idx : Nat} (window : idx = p % 2 ^ maxOrder) :
    TailPlacement s (insertMerged (mergeLoop s p idx 0 order) migratetype) p migratetype ↔
      LooksRight s order p migratetype := by
  have spec := mergeLoop_spec inv lent window 0
  have vars := mergeLoop_vars inv lent window 0
  generalize mergeLoop s p idx 0 order = m at spec vars ⊢
  have page : m.page = head m.order p := (spec.grows p (head_of_dvd lent.aligned)).symm
  have inserts := inserts_merged m range
  obtain ⟨inv', -⟩ := spec.inv.insert spec.lent inserts spec.alone
  have here : (insertMerged m migratetype).Free m.order (head m.order p) := by
    rw [inserts.free_iff, page]
    exact .inr ⟨rfl, rfl⟩
  -- the lists of larger orders are those before the call
  have higher : (insertMerged m migratetype).Free (m.order + 1) (higherBuddy m.order p) ↔
      s.Free (m.order + 1) (higherBuddy m.order p) := by
    rw [inserts.free_iff, State.free_def, State.free_def]
    simp only [Nat.succ_ne_self, false_and, or_false]
    refine exists_congr fun t => and_congr_right fun small => ?_
    rw [vars.freeList _ t (Nat.le_succ _) small]
  have new : head m.order p ∉ s.zone.freeList m.order migratetype := by
    rw [← vars.freeList m.order migratetype le_rfl range, ← page]
    intro member
    exact spec.lent.clear.not_mem spec.lent.aligned
      ((m.s.free_def _ _).mpr ⟨migratetype, range, member⟩)
  have zone : (s.memMap (head m.order p)).zonenum = s.zone.idx := by
    rw [← spec.frame.zonenum, ← spec.frame.idx, ← page]
    exact spec.inv.zonenum m.page spec.lent.spanned
  have only : ∀ o, (insertMerged m migratetype).Free o (head o p) ↔ o = m.order := fun o =>
    ⟨fun free => inv'.tiling.unique free here, fun same => same ▸ here⟩
  have merged : ∀ o, MergesTo s order p o ↔ o = m.order := fun o =>
    ⟨fun merges => merges.unique vars.merges, fun same => same ▸ vars.merges⟩
  simp only [TailPlacement, LooksRight, only, merged, forall_eq]
  refine forall_congr' fun room => ?_
  rw [spec.freeList vars page range room, higher, placed_iff new, inv.seen_iff zone,
    or_assoc]
  exact or_congr_right or_comm

theorem mergesTo_congr (free : s'.Free = s.Free) (o : Nat) :
    MergesTo s' order p o ↔ MergesTo s order p o := by
  constructor
  · rintro ⟨le, small, below, ends⟩
    exact ⟨le, small, free ▸ below, free ▸ ends⟩
  · rintro ⟨le, small, below, ends⟩
    exact ⟨le, small, free ▸ below, free ▸ ends⟩

theorem Cleans.looksRight (cleans : Cleans s s' (· = p)) :
    LooksRight s' order p migratetype ↔ LooksRight s order p migratetype := by
  have free := (SameLists.of_zone cleans.zone).free_eq
  refine forall_congr' fun o => ?_
  rw [mergesTo_congr free o, free, cleans.zone]
  have pos := Nat.two_pow_pos o
  have other : higherBuddy o p + 2 ^ o ≠ p := by
    intro same
    apply higherBuddy_apart (o := o) (p := p) (d := 2 ^ o)
    · rw [Nat.pow_succ]
      omega
    · rw [same]
  have looked : pageIsBuddy s' (head (o + 1) p) (higherBuddy o p + 2 ^ o) (o + 1) =
      pageIsBuddy s (head (o + 1) p) (higherBuddy o p + 2 ^ o) (o + 1) := by
    unfold pageIsBuddy
    rw [(cleans.cleaned _).zonenum, cleans.outside _ other]
  rw [looked]

/-- The placement looks at the right block exactly when the merged block is the lower half
of its parent, or there is nothing else on its list, or there is nothing to be seen. -/
theorem tail_placement_iff (inv : BuddyInv s) (lent : Lent s order p)
    (range : migratetype < migrateTypes)
    (freed : (s.memMap p).compound = true → (destroyCompoundPage s p order).1 = 0) :
    TailPlacement s (freeOnePageLocked s p order migratetype) p migratetype ↔
      LooksRight s order p migratetype := by
  have window : p &&& (1 <<< maxOrder - 1) = p % 2 ^ maxOrder := by
    rw [Nat.one_shiftLeft, Nat.and_two_pow_sub_one_eq_mod]
  unfold freeOnePageLocked
  dsimp only
  by_cases compound : (s.memMap p).compound = true
  · have cleans := destroyCompoundPage_cleans s p order
    have same : SameLists s (destroyCompoundPage s p order).2 := .of_zone cleans.zone
    rw [if_pos compound, if_neg (not_not.mpr (freed compound)), ← cleans.looksRight,
      ← placement_iff (inv.cleans lent.not_covered cleans) (same.lent lent) range window]
    unfold TailPlacement
    rw [cleans.zone]
  · rw [if_neg compound, if_neg (not_not.mpr rfl)]
    exact placement_iff inv lent range window

/-- The pages 2, 3 and 4 are free, and 0, 1 and 5 are not. -/
def pairAndPage : State :=
  freeOnePageLocked (freeOnePageLocked (freshState 4096) 2 1 migrateMovable) 4 0 migrateMovable

theorem pairAndPage_inv :
    BuddyInv pairAndPage ∧ ∀ x, Covered pairAndPage.Free x → 2 ≤ x := by
  have none : ∀ x, ¬ Covered (freshState 4096).Free x := by
    rintro x ⟨o, free⟩
    simp [State.Free, State.free, freshState] at free
  have inv := (freshState_empty 4096).inv.inv
  have pair : Lent (freshState 4096) 1 2 := by
    refine ⟨by decide, by decide, fun x inside => ?_, fun x _ => none x⟩
    rw [head_eq_iff (by decide)] at inside
    exact ⟨Nat.zero_le x, inside.2.trans (by decide)⟩
  have first := freeOnePageLocked_spec inv pair (by decide) (show migrateMovable < migrateTypes by decide)
  have page : Lent (freeOnePageLocked (freshState 4096) 2 1 migrateMovable) 0 4 := by
    refine ⟨by decide, by decide, fun x inside => ?_, fun x inside covered => ?_⟩
    · rw [head_eq_iff (by decide)] at inside
      exact (first.frame.spanned x).mpr ⟨Nat.zero_le x, inside.2.trans (by decide)⟩
    · rw [head_eq_iff (by decide)] at inside
      rcases (first.covered x).mp covered with old | new
      · exact none x old
      · rw [head_eq_iff (by decide)] at new
        omega
  have second := freeOnePageLocked_spec first.inv page (by decide +kernel)
    (show migrateMovable < migrateTypes by decide)
  refine ⟨second.inv, fun x covered => ?_⟩
  rw [pairAndPage, second.covered, first.covered, head_eq_iff (by decide), head_eq_iff (by decide)]
    at covered
  rcases covered with (old | pair) | page
  · exact (none x old).elim
  · omega
  · omega

theorem pairAndPage_lent {p : Nat} (low : p < 2) : Lent pairAndPage 0 p := by
  refine ⟨by simp, by decide, fun x inside => ?_, fun x inside covered => ?_⟩
  · rw [head_eq_iff (by simp)] at inside
    have span : pairAndPage.zone.zoneStartPfn = 0 ∧ pairAndPage.zone.spannedPages = 4096 := by
      decide +kernel
    rw [State.Spanned, span.1, span.2]
    omega
  · have above := pairAndPage_inv.2 x covered
    rw [head_eq_iff (by simp)] at inside
    omega

/-- Page 0, the lower half of its pair, goes behind page 4. -/
theorem tail_placement_lower_half :
    TailPlacement pairAndPage (freeOnePageLocked pairAndPage 0 0 migrateMovable) 0 migrateMovable ∧
      (freeOnePageLocked pairAndPage 0 0 migrateMovable).zone.freeList 0 migrateMovable = [4, 0] := by
  refine ⟨?_, by decide +kernel⟩
  refine (tail_placement_iff pairAndPage_inv.1 (pairAndPage_lent (by decide)) (by decide) ?_).mpr ?_
  · have plain : (pairAndPage.memMap 0).compound = false := by decide +kernel
    rw [plain]
    exact fun no => absurd no Bool.false_ne_true
  · intro o _ _
    left
    simp [head]

/-- Page 1, the upper half, goes before page 4, although the pair at 2 is free. -/
theorem tail_placement_upper_half :
    BuddyInv pairAndPage ∧ Lent pairAndPage 0 1 ∧ (pairAndPage.memMap 1).compound = false ∧
      (freeOnePageLocked pairAndPage 1 0 migrateMovable).zone.freeList 0 migrateMovable = [1, 4] ∧
      ¬ TailPlacement pairAndPage (freeOnePageLocked pairAndPage 1 0 migrateMovable) 1
        migrateMovable := by
  have before : pairAndPage.zone.freeList 0 migrateMovable = [4] := by decide +kernel
  have after : (freeOnePageLocked pairAndPage 1 0 migrateMovable).zone.freeList 0 migrateMovable =
      [1, 4] := by decide +kernel
  refine ⟨pairAndPage_inv.1, pairAndPage_lent (by decide), by decide +kernel, after, fun placed => ?_⟩
  have tail := (placed 0 (by decide +kernel) (by decide)).1 (by decide +kernel)
  rw [before, after] at tail
  exact absurd tail (by decide)

end XcKernel.PageAlloc
