import XcKernel.PageAlloc.FreeBlocks

/-!
# What the buddy allocator does to the free blocks

One specification for each function of `PageAlloc.Buddy`: freeing a lent block
makes its pages free and no others, and an allocation returns a block whose
pages were free and are not any more.
-/

namespace XcKernel.PageAlloc

open Blocks

variable {s s' : State} {o p : Nat}

theorem pageIsBuddy_iff (inv : FreeBlocks s) {page b : Nat}
    (zone : (s.memMap page).zonenum = s.zone.idx) :
    pageIsBuddy s page b o = true ↔ s.Free o b := by
  simp only [pageIsBuddy, Bool.and_eq_true, decide_eq_true_eq]
  constructor
  · rintro ⟨same, mark, order⟩
    obtain ⟨o', free⟩ := (inv.marked b (same.symm.trans zone)).mp mark
    rwa [← order, inv.order free]
  · intro free
    have zoneb := inv.zonenum b (inv.head_spanned free)
    exact ⟨zone.trans zoneb.symm, (inv.marked b zoneb).mpr ⟨o, free⟩, inv.order free⟩

/-- What the loop of `__free_one_page` reaches from a lent block. -/
structure MergeSpec (s : State) (o p : Nat) (m : Merged) : Prop where
  inv : BuddyInv m.s
  lent : Lent m.s m.order m.page
  alone : m.order + 1 < maxOrder → ¬ m.s.Free m.order (buddy m.order m.page)
  covered : ∀ x, Covered m.s.Free x ∨ head m.order x = m.page ↔ Covered s.Free x ∨ head o x = p
  grows : ∀ x, head o x = p → head m.order x = m.page
  outside : ∀ x, head m.order x ≠ m.page → m.s.memMap x = s.memMap x
  frame : Frame s m.s

theorem removes_merged (s : State) (o b : Nat) :
    Removes s (((s.listDel b).decNrFree o).modifyPage b Page.rmvOrder) o b := by
  refine ⟨fun _ => rfl, fun o' => ?_, fun _ => rfl, ?_⟩
  · rw [State.free_modifyPage, State.free_decNrFree, State.free_listDel]
  · exact ((Frame.listDel s b).trans (.decNrFree _ o)).trans
      (.modifyPage _ b pageFrame_rmvOrder)

theorem Lent.join (inv : BuddyInv s) (lent : Lent s o p) (small : o + 1 < maxOrder)
    (free : s.Free o (buddy o p)) (removes : Removes s s' o (buddy o p)) :
    Lent s' (o + 1) (head (o + 1) p) := by
  obtain ⟨-, other, covered⟩ := inv.remove free removes
  refine ⟨two_pow_dvd_head _ _, small, fun x inside => ?_, ?_⟩
  · rw [removes.frame.spanned]
    rcases (head_succ_eq_iff lent.aligned x).mp inside with low | high
    · exact lent.inZone x low
    · exact inv.inZone free x high
  · exact (lent.clear.mono fun x cov => ((covered x).mp cov).1).join lent.aligned other.clear

/-! The index arithmetic of the loop, for an index that is the frame number in its window. -/

theorem findBuddyIndex_eq (idx o : Nat) : findBuddyIndex idx o = buddy o idx := by
  rw [findBuddyIndex, Nat.one_shiftLeft, buddy]

section Index

variable {idx : Nat} (lent : Lent s o p) (window : idx = p % 2 ^ maxOrder)
include lent window

theorem Lent.buddy_index : p + findBuddyIndex idx o - idx = buddy o p := by
  rw [findBuddyIndex_eq, window]
  exact buddy_window lent.small lent.aligned

theorem Lent.isBuddy_index (inv : FreeBlocks s) :
    pageIsBuddy s p (p + findBuddyIndex idx o - idx) o = true ↔ s.Free o (buddy o p) := by
  rw [lent.buddy_index window]
  exact pageIsBuddy_iff inv (inv.zonenum p lent.spanned)

theorem Lent.join_index : p + (findBuddyIndex idx o &&& idx) - idx = head (o + 1) p := by
  rw [findBuddyIndex_eq, window]
  exact join_window lent.small lent.aligned

theorem Lent.combined_index : findBuddyIndex idx o &&& idx = head (o + 1) p % 2 ^ maxOrder := by
  rw [findBuddyIndex_eq, window, head_mod_window lent.small]
  exact buddy_and_self (dvd_mod lent.small.le lent.aligned)

end Index

theorem mergeLoop_spec {idx : Nat} (inv : BuddyInv s) (lent : Lent s o p)
    (window : idx = p % 2 ^ maxOrder) (last : Nat) :
    MergeSpec s o p (mergeLoop s p idx last o) := by
  fun_induction mergeLoop s p idx last o with
  | case1 s p idx last o small buddyIdx b isBuddy s₁ combinedIdx ih =>
    have hb : b = buddy o p := lent.buddy_index window
    have join : p + combinedIdx - idx = head (o + 1) p := lent.join_index window
    have next : combinedIdx = head (o + 1) p % 2 ^ maxOrder := lent.combined_index window
    have free : s.Free o (buddy o p) := (lent.isBuddy_index window inv.toFreeBlocks).mp isBuddy
    have removes : Removes s s₁ o (buddy o p) := by
      simp only [s₁, hb]
      exact removes_merged s o _
    obtain ⟨inv₁, -, covered₁⟩ := inv.remove free removes
    have small' : o + 1 < maxOrder := by simp only [maxOrder] at small ⊢; omega
    rw [join]
    rw [join] at ih
    obtain ⟨invm, lentm, alone, covered, grows, outside, frame⟩ :=
      ih inv₁ (lent.join inv small' free removes) next
    have half := head_succ_eq_iff lent.aligned
    refine ⟨invm, lentm, alone, fun x => ?_, fun x inside => ?_, fun x out => ?_,
      removes.frame.trans frame⟩
    · rw [covered x, covered₁ x, half x]
      constructor
      · rintro (⟨old, -⟩ | low | high)
        · exact .inl old
        · exact .inr low
        · exact .inl (covered_of_head free high)
      · rintro (old | low)
        · by_cases high : head o x = buddy o p
          · exact .inr (.inr high)
          · exact .inl ⟨old, high⟩
        · exact .inr (.inl low)
    · exact grows x ((half x).mpr (.inl inside))
    · rw [outside x out, removes.page, if_neg]
      rintro rfl
      have inside := head_of_dvd (two_pow_dvd_buddy lent.aligned)
      exact out (grows _ ((half _).mpr (.inr inside)))
  | case2 s p idx last o small buddyIdx b notBuddy =>
    refine ⟨inv, lent, fun _ free => ?_, fun _ => .rfl, fun _ => id, fun _ _ => rfl, .refl s⟩
    exact notBuddy ((lent.isBuddy_index window inv.toFreeBlocks).mpr free)
  | case3 s p idx last o large =>
    refine ⟨inv, lent, fun small => ?_, fun _ => .rfl, fun _ => id, fun _ _ => rfl, .refl s⟩
    simp only [maxOrder] at small large
    omega

theorem inserts_merged (m : Merged) {migratetype : Nat} (range : migratetype < migrateTypes) :
    Inserts m.s (insertMerged m migratetype) m.order m.page := by
  have frame := Frame.modifyPage m.s m.page (pageFrame_setOrder m.order)
  unfold insertMerged
  dsimp only
  split
  all_goals
    refine ⟨fun _ => rfl, ?_, fun o' ne => ?_, fun _ => rfl,
      (frame.trans (.modifyList _ _ _ _)).trans (.incNrFree _ _)⟩
  · exact State.free_modifyList_perm _ _ range fun l => List.perm_append_singleton _ _
  · exact State.free_modifyList_of_ne ne (m.s.modifyPage m.page _) _ (· ++ [m.page])
  · exact State.free_modifyList_perm _ _ range fun l => .refl _
  · exact State.free_modifyList_of_ne ne _ _ _

/-- Freeing makes the pages of the block free. -/
structure FreeSpec (s s' : State) (o p : Nat) : Prop where
  inv : BuddyInv s'
  covered : ∀ x, Covered s'.Free x ↔ Covered s.Free x ∨ head o x = p
  outside : ∀ x, ¬ Covered s'.Free x → s'.memMap x = s.memMap x
  frame : Frame s s'

theorem freeOnePageLocked_spec (inv : BuddyInv s) (lent : Lent s o p)
    (plain : (s.memMap p).compound = false) {migratetype : Nat}
    (range : migratetype < migrateTypes) : FreeSpec s (freeOnePageLocked s p o migratetype) o p := by
  have window : p &&& (1 <<< maxOrder - 1) = p % 2 ^ maxOrder := by
    rw [Nat.one_shiftLeft, Nat.and_two_pow_sub_one_eq_mod]
  unfold freeOnePageLocked
  simp only [plain, Bool.false_eq_true, if_false, ne_eq, not_true_eq_false]
  have merge := mergeLoop_spec inv lent window 0
  have inserts := inserts_merged (mergeLoop s p (p &&& (1 <<< maxOrder - 1)) 0 o) range
  obtain ⟨inv', covered⟩ := merge.inv.insert merge.lent inserts merge.alone
  refine ⟨inv', fun x => (covered x).trans (merge.covered x), fun x out => ?_,
    merge.frame.trans inserts.frame⟩
  rw [covered x, not_or] at out
  rw [inserts.page, if_neg, merge.outside x out.2]
  rintro rfl
  exact out.2 (head_of_dvd merge.lent.aligned)

theorem inserts_expand (s : State) {migratetype : Nat} (range : migratetype < migrateTypes)
    (o upper : Nat) :
    Inserts s (((s.listAdd o migratetype upper).incNrFree o).modifyPage upper (·.setOrder o))
      o upper := by
  refine ⟨fun _ => rfl, ?_, fun o' ne => ?_, fun _ => rfl, ?_⟩
  · exact State.free_modifyList_perm _ _ range fun l => .refl _
  · exact State.free_modifyList_of_ne ne _ _ _
  · exact ((Frame.modifyList s _ _ _).trans (.incNrFree _ o)).trans
      (.modifyPage _ upper (pageFrame_setOrder o))

/-- `expand` frees the block except for its first part of the wanted order. -/
structure ExpandSpec (s s' : State) (low high p : Nat) : Prop where
  inv : BuddyInv s'
  lent : Lent s' low p
  covered : ∀ x, Covered s'.Free x ↔ Covered s.Free x ∨ (head high x = p ∧ head low x ≠ p)
  outside : ∀ x, head high x ≠ p → s'.memMap x = s.memMap x
  frame : Frame s s'

theorem expand_spec {low high migratetype : Nat} (inv : BuddyInv s) (lent : Lent s high p)
    (le : low ≤ high) (range : migratetype < migrateTypes) :
    ExpandSpec s (expand s p low migratetype high) low high p := by
  induction high generalizing s with
  | zero =>
    obtain rfl : low = 0 := by omega
    refine ⟨inv, lent, fun x => ?_, fun _ _ => rfl, .refl s⟩
    simp [expand]
  | succ high ih =>
    rw [expand]
    by_cases done : high + 1 > low
    · obtain ⟨lower, upper⟩ := lent.halves
      have pair : buddy high p = p + 2 ^ high := buddy_of_dvd_succ lent.aligned
      have whole : head (high + 1) p = p := head_of_dvd lent.aligned
      have half : ∀ x, head (high + 1) x = p ↔ head high x = p ∨ head high x = p + 2 ^ high := by
        intro x
        have := head_succ_eq_iff lower.aligned x
        rwa [whole, pair] at this
      rw [if_pos done]
      dsimp only
      rw [Nat.one_shiftLeft]
      have inserts := inserts_expand s range high (p + 2 ^ high)
      -- the buddy of the upper half is the lower half, which is not free
      have alone : high + 1 < maxOrder → ¬ s.Free high (buddy high (p + 2 ^ high)) := by
        rintro - free
        rw [← pair, buddy_buddy] at free
        exact lower.clear.not_mem lower.aligned free
      obtain ⟨inv₁, covered₁⟩ := inv.insert upper inserts alone
      have lower₁ : Lent _ high p := lower.keep inserts.frame (by
        intro x inside cov
        rcases (covered₁ x).mp cov with old | new
        · exact old
        · have pos := Nat.two_pow_pos high
          omega)
      obtain ⟨inv', lent', covered, outside, frame⟩ := ih inv₁ lower₁ (by omega)
      refine ⟨inv', lent', fun x => ?_, fun x out => ?_, inserts.frame.trans frame⟩
      · rw [covered x, covered₁ x, half x]
        have pos := Nat.two_pow_pos high
        have apart : head high x = p + 2 ^ high → head low x ≠ p := by
          intro up same
          have := head_eq_of_le (show low ≤ high by omega) same
          rw [head_of_dvd lower.aligned] at this
          omega
        constructor
        · rintro ((old | up) | ⟨down, off⟩)
          · exact .inl old
          · exact .inr ⟨.inr up, apart up⟩
          · exact .inr ⟨.inl down, off⟩
        · rintro (old | ⟨down | up, off⟩)
          · exact .inl (.inl old)
          · exact .inr ⟨down, off⟩
          · exact .inl (.inr up)
      · rw [ne_eq, half x, not_or] at out
        rw [outside x out.1, inserts.page, if_neg]
        rintro rfl
        exact out.2 (head_of_dvd upper.aligned)
    · obtain rfl : low = high + 1 := by omega
      rw [if_neg done]
      refine ⟨inv, lent, fun x => ?_, fun _ _ => rfl, .refl s⟩
      simp

/-- An allocation takes a block of free pages. -/
structure TakeSpec (s s' : State) (o p : Nat) : Prop where
  inv : BuddyInv s'
  lent : Lent s' o p
  covered : ∀ x, Covered s'.Free x ↔ Covered s.Free x ∧ head o x ≠ p
  wasFree : ∀ x, head o x = p → Covered s.Free x
  outside : ∀ x, ¬ Covered s.Free x → s'.memMap x = s.memMap x
  frame : Frame s s'

theorem TakeSpec.covered_before (spec : TakeSpec s s' o p) (x : Nat) :
    Covered s.Free x ↔ Covered s'.Free x ∨ head o x = p := by
  rw [spec.covered x]
  constructor
  · intro old
    by_cases inside : head o x = p
    · exact .inr inside
    · exact .inl ⟨old, inside⟩
  · rintro (⟨old, -⟩ | inside)
    · exact old
    · exact spec.wasFree x inside

theorem take_spec {s₁ : State} {o high migratetype : Nat} (inv : BuddyInv s) (free : s.Free high p)
    (removes : Removes s s₁ high p) (le : o ≤ high) (range : migratetype < migrateTypes) :
    TakeSpec s (expand s₁ p o migratetype high) o p := by
  obtain ⟨inv₁, lent₁, covered₁⟩ := inv.remove free removes
  obtain ⟨inv', lent, covered, outside, frame⟩ := expand_spec inv₁ lent₁ le range
  have inside : ∀ {x}, head o x = p → head high x = p := fun h =>
    (head_eq_of_le le h).trans (head_of_dvd lent₁.aligned)
  refine ⟨inv', lent, fun x => ?_, fun x h => covered_of_head free (inside h), fun x out => ?_,
    removes.frame.trans frame⟩
  · rw [covered x, covered₁ x]
    constructor
    · rintro (⟨old, out⟩ | ⟨within, off⟩)
      · exact ⟨old, fun h => out (inside h)⟩
      · exact ⟨covered_of_head free within, off⟩
    · rintro ⟨old, off⟩
      by_cases within : head high x = p
      · exact .inr ⟨within, off⟩
      · exact .inl ⟨old, within⟩
  · have far : head high x ≠ p := fun h => out (covered_of_head free h)
    rw [outside x far, removes.page, if_neg]
    rintro rfl
    exact far (head_of_dvd lent₁.aligned)

/-- An allocation either finds nothing and changes nothing, or takes a block. -/
def Takes (s : State) (o : Nat) (r : Option Nat × State) : Prop :=
  r = (none, s) ∨ ∃ p, r.1 = some p ∧ TakeSpec s r.2 o p

theorem free_of_head? {o t p : Nat} (range : t < migrateTypes)
    (h : (s.zone.freeList o t).head? = some p) : s.Free o p :=
  (s.free_def o p).mpr ⟨t, range, List.mem_of_mem_head? h⟩

theorem removes_smallest (s : State) (o p : Nat) :
    Removes s (((s.listDel p).modifyPage p Page.rmvOrder).decNrFree o) o p := by
  refine ⟨fun _ => rfl, fun o' => ?_, fun _ => rfl, ?_⟩
  · rw [State.free_decNrFree, State.free_modifyPage, State.free_listDel]
  · exact ((Frame.listDel s p).trans (.modifyPage _ p pageFrame_rmvOrder)).trans (.decNrFree _ o)

theorem rmqueueSmallest_takes {migratetype : Nat} (inv : BuddyInv s)
    (range : migratetype < migrateTypes) :
    Takes s o (rmqueueSmallest s o migratetype) := by
  unfold rmqueueSmallest
  dsimp only
  split
  · exact .inl rfl
  · rename_i high p found
    obtain ⟨o', ho', hit⟩ := List.exists_of_findSome?_eq_some found
    rw [Option.map_eq_some_iff] at hit
    obtain ⟨_, head, pair⟩ := hit
    obtain ⟨rfl, rfl⟩ := Prod.mk.inj pair
    have le := (List.mem_range'_1.mp ho').1
    exact .inr ⟨_, rfl, take_spec inv (free_of_head? range head) (removes_smallest s _ _) le range⟩

theorem sameBlocks_setPageblockMigratetype (s : State) (pfn : Nat) {migratetype : Nat}
    (range : migratetype < migrateTypes) :
    SameBlocks s (setPageblockMigratetype s pfn migratetype) := by
  refine ⟨rfl, fun _ => .refl _, rfl, ⟨rfl, rfl, rfl, rfl, rfl, rfl, fun _ => .refl _, ?_⟩⟩
  intro ok q
  refine readGroup_writeGroup_lt (pfnToBitidx_mod _ _) (pfnToBitidx_mod _ _) ?_ (ok q)
  split
  · decide
  · exact range

theorem moveFreepages_same {page endPage migratetype moved : Nat} (inv : FreeBlocks s)
    (range : migratetype < migrateTypes) (zone : ∀ x, page ≤ x → x ≤ endPage → s.Spanned x) :
    SameBlocks s (moveFreepages s page endPage migratetype moved).2 := by
  fun_induction moveFreepages s page endPage migratetype moved with
  | case1 s page moved le mark order ih =>
    have spanned := zone page le_rfl le
    obtain ⟨o, free⟩ := (inv.marked page (inv.zonenum page spanned)).mp mark
    have same := sameBlocks_listMove inv free range
    have horder : order = o := inv.order free
    rw [horder] at ih ⊢
    have pos := Nat.two_pow_pos o
    refine same.trans (ih (inv.same same) fun x above below => ?_)
    exact (same.frame.spanned x).mpr (zone x (by omega) below)
  | case2 s page moved le unmarked ih =>
    exact ih inv fun x above below => zone x (by omega) below
  | case3 s page moved done => exact .refl s

theorem moveFreepagesBlock_same {page migratetype : Nat} (inv : FreeBlocks s)
    (range : migratetype < migrateTypes) (spanned : s.Spanned page) :
    SameBlocks s (moveFreepagesBlock s page migratetype).2 := by
  unfold moveFreepagesBlock
  dsimp only
  split
  · exact .refl s
  · refine moveFreepages_same inv range fun x above below => ?_
    simp only [State.Spanned] at spanned ⊢
    split at above <;> omega

theorem stealPageblock_spec (high : Nat) {page start migratetype : Nat} (inv : FreeBlocks s)
    (rangeStart : start < migrateTypes) (range : migratetype < migrateTypes)
    (spanned : s.Spanned page) :
    (stealPageblock s page high start migratetype).1 < migrateTypes ∧
      SameBlocks s (stealPageblock s page high start migratetype).2 := by
  unfold stealPageblock
  dsimp only
  split
  · have moved := moveFreepagesBlock_same inv rangeStart spanned
    refine ⟨rangeStart, ?_⟩
    dsimp only
    split
    · exact moved.trans (sameBlocks_setPageblockMigratetype _ _ rangeStart)
    · exact moved
  · exact ⟨range, .refl s⟩

theorem changePageblockRange_same {page high migratetype : Nat} (s : State)
    (range : migratetype < migrateTypes) :
    SameBlocks s (changePageblockRange s page high migratetype) := by
  unfold changePageblockRange
  generalize List.range (1 <<< (high - pageblockOrder)) = blocks
  induction blocks generalizing s with
  | nil => exact .refl s
  | cons i blocks ih => exact (sameBlocks_setPageblockMigratetype s _ range).trans (ih _)

theorem fallbacks_lt {start migratetype : Nat} (h : migratetype ∈ fallbacks start) :
    migratetype < migrateTypes := by
  have all : ∀ t ∈ fallbacks start, t < migrateTypes := by
    unfold fallbacks
    split <;> decide
  exact all migratetype h

theorem FreeBlocks.decNrFree (inv : FreeBlocks s) (o : Nat) : FreeBlocks (s.decNrFree o) :=
  ⟨inv.tiling, inv.small, inv.inZone, inv.nodup, inv.marked, inv.order, inv.zonenum⟩

theorem removes_fallback {s₁ s₂ : State} {high : Nat}
    (steal : SameBlocks (s.decNrFree high) s₁)
    (change : SameBlocks ((s₁.listDel p).modifyPage p Page.rmvOrder) s₂) :
    Removes s s₂ high p := by
  refine ⟨fun i => ?_, fun o' => ?_, fun o' => ?_, ?_⟩
  · rw [change.memMap]
    simp only [State.modifyPage, State.listDel, steal.memMap]
    rfl
  · refine (change.free o').trans ?_
    rw [State.free_modifyPage, State.free_listDel]
    exact (steal.free o').filter _
  · have unlinked : ((s₁.listDel p).modifyPage p Page.rmvOrder).zone.nrFree = s₁.zone.nrFree := rfl
    rw [change.nrFree, unlinked, steal.nrFree]
    rfl
  · exact (((Frame.decNrFree s high).trans steal.frame).trans (.listDel s₁ p)).trans
      ((Frame.modifyPage _ p pageFrame_rmvOrder).trans change.frame)

theorem rmqueueFallback_takes {start : Nat} (inv : BuddyInv s) (rangeStart : start < migrateTypes) :
    Takes s o (rmqueueFallback s o start) := by
  unfold rmqueueFallback
  split
  · exact .inl rfl
  · rename_i high migratetype page found
    unfold findFallback at found
    obtain ⟨high', hhigh, hit⟩ := List.exists_of_findSome?_eq_some found
    obtain ⟨t, member, hit⟩ := List.exists_of_findSome?_eq_some hit
    split at hit
    · cases hit
    rw [Option.map_eq_some_iff] at hit
    obtain ⟨_, head, triple⟩ := hit
    simp only [Prod.mk.injEq] at triple
    obtain ⟨rfl, rfl, rfl⟩ := triple
    have le := (List.mem_range'_1.mp (List.mem_reverse.mp hhigh)).1
    have range := fallbacks_lt member
    have free := free_of_head? range head
    obtain ⟨rangeSteal, steal⟩ := stealPageblock_spec high' (inv.decNrFree high')
      rangeStart range (inv.head_spanned free)
    refine .inr ⟨_, rfl, take_spec inv free ?_ le rangeSteal⟩
    split
    · exact removes_fallback steal (changePageblockRange_same _ rangeStart)
    · exact removes_fallback steal (.refl _)

theorem rmqueue_takes (o : Nat) {migratetype : Nat} (inv : BuddyInv s)
    (range : migratetype < migrateTypes) :
    Takes s o (rmqueue s o migratetype) := by
  unfold rmqueue
  dsimp only
  rcases rmqueueSmallest_takes (o := o) inv range with none | ⟨p, some, take⟩
  · rw [none]
    split
    · rcases rmqueueFallback_takes (o := o) inv range with none' | ⟨p, some, take⟩
      · rw [none', if_pos rfl]
        exact rmqueueSmallest_takes inv (by decide)
      · rw [some, if_neg (by simp)]
        exact .inr ⟨p, some, take⟩
    · exact .inl rfl
  · rw [if_neg (by simp [some])]
    exact .inr ⟨p, some, take⟩

end XcKernel.PageAlloc
