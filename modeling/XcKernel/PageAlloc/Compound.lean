import XcKernel.PageAlloc.BuddyRuns
import XcKernel.PageAlloc.Pcp

/-!
# Compound pages

`prep_compound_page` marks a block: the first page as its head, every other page
as a tail that points to the head, and the order in the list links of the second
page.  `destroy_compound_page` checks all of this and takes the marks off again.
Its loop clears the tail flag of the head, once for every tail, so that the tails
stay marked.
-/

namespace XcKernel.PageAlloc

def compoundHead (s : State) (page : Nat) : Nat :=
  if (s.memMap page).test .tail then (s.memMap page).priv else page

/-- No page of the block has a head or tail flag. -/
def Unmarked (s : State) (page order : Nat) : Prop :=
  ∀ i < 2 ^ order, (s.memMap (page + i)).test .head = false ∧ (s.memMap (page + i)).test .tail = false

instance (s : State) (page order : Nat) : Decidable (Unmarked s page order) :=
  inferInstanceAs (Decidable (∀ i < 2 ^ order, _))

/-- Every page of the block leads to its first page, which knows the order. -/
structure Marked (s : State) (page order : Nat) : Prop where
  head : ∀ i < 2 ^ order, compoundHead s (page + i) = page
  order : compoundOrder s page = order

/-- What is to be expected of the two functions one after the other. -/
structure CompoundRoundTrip (s : State) (page order : Nat) : Prop where
  marked : Marked (prepCompoundPage s page order) page order
  accepted : (destroyCompoundPage (prepCompoundPage s page order) page order).1 = 0
  unmarked : Unmarked (destroyCompoundPage (prepCompoundPage s page order) page order).2 page order

variable {s : State} {page order : Nat}

theorem tailLoop_memMap (s : State) (page n x : Nat) :
    ((List.range' 1 n).foldl (fun s i =>
      s.modifyPage (page + i) fun p => { p.set .tail with priv := page }) s).memMap x =
      if page < x ∧ x ≤ page + n then { (s.memMap x).set .tail with priv := page }
      else s.memMap x := by
  induction n with
  | zero => rw [if_neg (by omega)]; rfl
  | succ n ih =>
    rw [List.range'_1_concat, List.foldl_append, List.foldl_cons, List.foldl_nil]
    by_cases here : x = page + (1 + n)
    · subst here
      rw [State.modifyPage_self, ih, if_neg (by omega), if_pos (by omega)]
    · rw [State.modifyPage_of_ne _ here, ih]
      exact if_congr (by omega) rfl rfl

theorem tailRounds (order : Nat) : 1 <<< order - 1 = 2 ^ order - 1 := by
  rw [Nat.one_shiftLeft]

theorem prepCompoundPage_tail (s : State) {i : Nat} (low : 1 ≤ i) (high : i < 2 ^ order) :
    ((prepCompoundPage s page order).memMap (page + i)).test .tail = true ∧
      ((prepCompoundPage s page order).memMap (page + i)).priv = page := by
  unfold prepCompoundPage
  dsimp only
  rw [tailLoop_memMap, tailRounds, if_pos (by omega)]
  exact ⟨Page.test_set _ .tail, rfl⟩

theorem prepCompoundPage_head (s : State) (page order : Nat) :
    (prepCompoundPage s page order).memMap page = (s.memMap page).set .head := by
  unfold prepCompoundPage
  dsimp only
  rw [tailLoop_memMap, if_neg (by omega), State.modifyPage_self,
    State.modifyPage_of_ne _ (by omega)]

theorem prepCompoundPage_order (s : State) (large : 2 ≤ 2 ^ order) :
    ((prepCompoundPage s page order).memMap (page + 1)).lruPrev = order := by
  unfold prepCompoundPage
  dsimp only
  rw [tailLoop_memMap, tailRounds, if_pos (by omega), State.modifyPage_of_ne _ (by omega),
    State.modifyPage_self]
  rfl

theorem prepCompoundPage_marked (large : 2 ≤ 2 ^ order) (unmarked : Unmarked s page order) :
    Marked (prepCompoundPage s page order) page order := by
  refine ⟨fun i hi => ?_, ?_⟩
  · rw [compoundHead]
    by_cases first : i = 0
    · subst first
      have tail := (unmarked 0 hi).2
      rw [Nat.add_zero] at tail ⊢
      rw [prepCompoundPage_head, Page.test_set_of_disjoint _ (by decide), tail, if_neg (by decide)]
    · obtain ⟨tail, first_page⟩ := @prepCompoundPage_tail page order s i (by omega) hi
      rw [if_pos tail, first_page]
  · rw [compoundOrder, prepCompoundPage_head, if_pos (Page.test_set _ .head),
      prepCompoundPage_order s large]

/-- What the loop of `destroy_compound_page` changes: the head alone. -/
def clearHeadTail (s : State) (page : Nat) : State := s.modifyPage page (·.clear .tail)

/-- A loop that finds every tail in order counts no fault, and leaves the tails alone. -/
theorem destroyLoop_sound (bad n : Nat)
    (tails : ∀ i, 1 ≤ i → i ≤ n →
      (s.memMap (page + i)).test .tail = true ∧ (s.memMap (page + i)).priv = page) :
    let r := (List.range' 1 n).foldl (fun (bad, s) i =>
      let p := s.memMap (page + i)
      (if ¬ p.test .tail ∨ p.priv ≠ page then bad + 1 else bad, clearHeadTail s page)) (bad, s)
    r.1 = bad ∧ ∀ x, x ≠ page → r.2.memMap x = s.memMap x := by
  induction n with
  | zero => exact ⟨rfl, fun _ _ => rfl⟩
  | succ n ih =>
    obtain ⟨none, kept⟩ := ih fun i low high => tails i low (by omega)
    dsimp only at none kept ⊢
    rw [List.range'_1_concat, List.foldl_append, List.foldl_cons, List.foldl_nil]
    refine ⟨?_, fun x other => ?_⟩
    · dsimp only
      rw [kept _ (by omega), none]
      obtain ⟨tail, first_page⟩ := tails (1 + n) (by omega) (by omega)
      exact if_neg (by simp [tail, first_page])
    · dsimp only
      rw [clearHeadTail, State.modifyPage_of_ne _ other, kept x other]

theorem destroyCompoundPage_prepared (s : State) (page : Nat) (large : 2 ≤ 2 ^ order) :
    let r := destroyCompoundPage (prepCompoundPage s page order) page order
    r.1 = 0 ∧ ∀ i, 1 ≤ i → i < 2 ^ order →
      r.2.memMap (page + i) = (prepCompoundPage s page order).memMap (page + i) := by
  have head : ((prepCompoundPage s page order).memMap page).test .head = true := by
    rw [prepCompoundPage_head]
    exact Page.test_set _ .head
  have stored : compoundOrder (prepCompoundPage s page order) page = order := by
    rw [compoundOrder, if_pos head, prepCompoundPage_order s large]
  have tails : ∀ i, 1 ≤ i → i ≤ 2 ^ order - 1 →
      (((prepCompoundPage s page order).modifyPage page (·.clear .head)).memMap (page + i)).test
        .tail = true ∧
      (((prepCompoundPage s page order).modifyPage page (·.clear .head)).memMap (page + i)).priv =
        page := fun i low high => by
    rw [State.modifyPage_of_ne _ (by omega)]
    exact prepCompoundPage_tail s low (by omega)
  unfold destroyCompoundPage
  dsimp only
  rw [tailRounds, if_neg (by simp [stored, head])]
  obtain ⟨none, kept⟩ := destroyLoop_sound 0 (2 ^ order - 1) tails
  refine ⟨none, fun i low high => ?_⟩
  exact (kept (page + i) (by omega)).trans (State.modifyPage_of_ne _ (by omega) _)

theorem checkNewPage_of_tail {p : Page} (tail : p.test .tail = true) : checkNewPage p = true := by
  have mask : PageFlag.tail.mask = pageFlagsCheckAtPrep &&& PageFlag.tail.mask := by decide
  rw [checkNewPage, decide_eq_true_eq]
  refine .inr (.inr (.inr fun zero => ?_))
  rw [Page.test, decide_eq_true_eq] at tail
  apply tail
  rw [mask, ← BitVec.and_assoc, zero]
  exact BitVec.zero_and

/-- Whatever the block, its pages lead to the head and the order between the two
calls, and the second call finds nothing wrong; but every tail stays marked, and
the page allocator will refuse it. -/
theorem destroy_compound_page_keeps_tails (s : State) (page : Nat) (low : 1 ≤ order)
    (_high : order ≤ maxOrder - 1) (unmarked : Unmarked s page order) :
    (Marked (prepCompoundPage s page order) page order ∧
      (destroyCompoundPage (prepCompoundPage s page order) page order).1 = 0 ∧
      ∀ i, 1 ≤ i → i < 2 ^ order →
        (((destroyCompoundPage (prepCompoundPage s page order) page order).2.memMap
          (page + i)).test .tail = true ∧
        checkNewPage ((destroyCompoundPage (prepCompoundPage s page order) page order).2.memMap
          (page + i)) = true)) ∧
      ¬ CompoundRoundTrip s page order := by
  have large : 2 ^ 1 ≤ 2 ^ order := Nat.pow_le_pow_right (by decide) low
  obtain ⟨accepted, kept⟩ := destroyCompoundPage_prepared s page large
  have tails : ∀ i, 1 ≤ i → i < 2 ^ order →
      ((destroyCompoundPage (prepCompoundPage s page order) page order).2.memMap
        (page + i)).test .tail = true := fun i first last => by
    rw [kept i first last]
    exact (prepCompoundPage_tail s first last).1
  refine ⟨⟨prepCompoundPage_marked large unmarked, accepted, fun i first last =>
    ⟨tails i first last, checkNewPage_of_tail (tails i first last)⟩⟩, fun trip => ?_⟩
  have clear := (trip.unmarked 1 large).2
  rw [tails 1 le_rfl large] at clear
  cases clear

/-- The pages 8 and 9, which nobody uses. -/
theorem destroy_compound_page_keeps_tails_pair :
    Unmarked (freshState 4096) 8 1 ∧
      (destroyCompoundPage (prepCompoundPage (freshState 4096) 8 1) 8 1).1 = 0 ∧
      ¬ CompoundRoundTrip (freshState 4096) 8 1 := by
  have unmarked : Unmarked (freshState 4096) 8 1 := by decide
  obtain ⟨⟨-, accepted, -⟩, fails⟩ :=
    destroy_compound_page_keeps_tails (freshState 4096) 8 le_rfl (by decide) unmarked
  exact ⟨unmarked, accepted, fails⟩

/-- Page 9 is still a tail when the block has been taken apart. -/
theorem compound_pair_still_marked :
    Unmarked (freshState 4096) 8 1 ∧
      ((destroyCompoundPage (prepCompoundPage (freshState 4096) 8 1) 8 1).2.memMap 9).test .tail =
        true ∧
      ¬ CompoundRoundTrip (freshState 4096) 8 1 := by
  have unmarked : Unmarked (freshState 4096) 8 1 := by decide
  have tail : ((destroyCompoundPage (prepCompoundPage (freshState 4096) 8 1) 8 1).2.memMap 9).test
      .tail = true := by decide
  refine ⟨unmarked, tail, fun trip => ?_⟩
  have clear := (trip.unmarked 1 (by decide)).2
  rw [tail] at clear
  cases clear

end XcKernel.PageAlloc
