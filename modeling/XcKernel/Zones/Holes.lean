import XcKernel.Zones.Basic
import Mathlib.Data.Finset.Card
import Mathlib.Order.Interval.Finset.Nat
import Mathlib.Tactic.Common

/-!
# Counting holes

For regions that are sorted and disjoint `__absent_pages_in_range` counts the
pages of a range that lie in none of them.
-/

namespace XcKernel.Zones

open Word Mm

/-- The page lies in one of the regions. -/
def Active (map : List NodeActiveRegion) (pfn : Nat) : Prop :=
  ∃ r ∈ map, r.startPfn ≤ pfn ∧ pfn < r.endPfn

instance (map : List NodeActiveRegion) (pfn : Nat) : Decidable (Active map pfn) :=
  inferInstanceAs (Decidable (∃ r ∈ map, _))

/-- The number of active pages in a range. -/
def activePages (map : List NodeActiveRegion) (start end_ : Nat) : Nat :=
  ((Finset.Ico start end_).filter (Active map)).card

/-- Non-empty regions, each after the one before. -/
structure Ordered (map : List NodeActiveRegion) : Prop where
  proper : ∀ r ∈ map, r.startPfn < r.endPfn
  sorted : map.Pairwise fun r r' => r.endPfn ≤ r'.startPfn

theorem Ordered.tail {r : NodeActiveRegion} {rest : List NodeActiveRegion} (h : Ordered (r :: rest)) :
    Ordered rest :=
  ⟨fun r' h' => h.proper r' (List.mem_cons_of_mem r h'), (List.pairwise_cons.mp h.sorted).2⟩

theorem Ordered.after {r : NodeActiveRegion} {rest : List NodeActiveRegion} (h : Ordered (r :: rest)) :
    ∀ r' ∈ rest, r.endPfn ≤ r'.startPfn :=
  (List.pairwise_cons.mp h.sorted).1

theorem activePages_le (map : List NodeActiveRegion) (start end_ : Nat) :
    activePages map start end_ ≤ end_ - start := by
  rw [← Nat.card_Ico]
  exact Finset.card_filter_le _ _

theorem activePages_nil (start end_ : Nat) : activePages [] start end_ = 0 := by
  simp [activePages, Active]

theorem activePages_of_le {map : List NodeActiveRegion} {start end_ : Nat} (le : end_ ≤ start) :
    activePages map start end_ = 0 := by
  have := activePages_le map start end_
  omega

theorem activePages_split (map : List NodeActiveRegion) {start mid end_ : Nat} (low : start ≤ mid)
    (high : mid ≤ end_) :
    activePages map start end_ = activePages map start mid + activePages map mid end_ := by
  have parts : Finset.Ico start end_ = Finset.Ico start mid ∪ Finset.Ico mid end_ :=
    (Finset.Ico_union_Ico_eq_Ico low high).symm
  rw [activePages, parts, Finset.filter_union, Finset.card_union_of_disjoint]
  · rfl
  · exact Finset.disjoint_filter_filter (Finset.Ico_disjoint_Ico_consecutive start mid end_)

theorem activePages_cons_of_off {r : NodeActiveRegion} {rest : List NodeActiveRegion} {start end_ : Nat}
    (off : ∀ x, start ≤ x → x < end_ → ¬ (r.startPfn ≤ x ∧ x < r.endPfn)) :
    activePages (r :: rest) start end_ = activePages rest start end_ := by
  unfold activePages
  congr 1
  apply Finset.filter_congr
  intro x hx
  rw [Finset.mem_Ico] at hx
  have := off x hx.1 hx.2
  simp [Active, this]

theorem activePages_before {map : List NodeActiveRegion} {start end_ : Nat}
    (later : ∀ r ∈ map, end_ ≤ r.startPfn) : activePages map start end_ = 0 := by
  rw [activePages, Finset.card_eq_zero, Finset.filter_eq_empty_iff]
  rintro x hx ⟨r, hr, low, -⟩
  rw [Finset.mem_Ico] at hx
  have := later r hr
  omega

theorem activePages_inside {map : List NodeActiveRegion} {r : NodeActiveRegion} (hr : r ∈ map)
    {start end_ : Nat} (low : r.startPfn ≤ start) (high : end_ ≤ r.endPfn) :
    activePages map start end_ = end_ - start := by
  have all : (Finset.Ico start end_).filter (Active map) = Finset.Ico start end_ := by
    rw [Finset.filter_eq_self]
    intro x hx
    rw [Finset.mem_Ico] at hx
    exact ⟨r, hr, by omega, by omega⟩
  rw [activePages, all, Nat.card_Ico]

theorem activePages_cons {r : NodeActiveRegion} {rest : List NodeActiveRegion}
    (h : Ordered (r :: rest)) {start end_ : Nat} (range : start ≤ end_) :
    activePages (r :: rest) start end_ =
      (min r.endPfn end_ - max r.startPfn start) + activePages rest (max r.endPfn start) end_ := by
  have proper := h.proper r List.mem_cons_self
  have after := h.after
  by_cases early : r.endPfn ≤ start
  · rw [activePages_cons_of_off (fun x low _ => by omega), max_eq_right early]
    have : min r.endPfn end_ - max r.startPfn start = 0 := by omega
    omega
  · have before : ∀ r' ∈ r :: rest, r.startPfn ≤ r'.startPfn := by
      intro r' hr'
      rcases List.mem_cons.mp hr' with rfl | later
      · exact Nat.le_refl _
      · have := after r' later
        omega
    rw [max_eq_left (by omega : start ≤ r.endPfn)]
    by_cases late : end_ ≤ r.startPfn
    · rw [activePages_before (fun r' hr' => late.trans (before r' hr')),
        activePages_of_le (by omega : end_ ≤ r.endPfn)]
      omega
    · -- the part before the region, the region, and the part behind it
      have first : activePages (r :: rest) start (max r.startPfn start) = 0 := by
        by_cases inside : r.startPfn ≤ start
        · exact activePages_of_le (by omega)
        · rw [max_eq_left (by omega)]
          exact activePages_before before
      have second : activePages (r :: rest) (max r.startPfn start) (min r.endPfn end_) =
          min r.endPfn end_ - max r.startPfn start :=
        activePages_inside List.mem_cons_self (by omega) (by omega)
      have third : activePages (r :: rest) (min r.endPfn end_) end_ = activePages rest r.endPfn end_ := by
        by_cases cut : end_ ≤ r.endPfn
        · rw [activePages_of_le (by omega), activePages_of_le cut]
        · rw [min_eq_left (by omega)]
          exact activePages_cons_of_off fun x low _ => by omega
      rw [activePages_split _ (by omega : start ≤ max r.startPfn start)
          (by omega : max r.startPfn start ≤ end_),
        activePages_split _ (by omega : max r.startPfn start ≤ min r.endPfn end_)
          (by omega : min r.endPfn end_ ≤ end_), first, second, third]
      omega

/-- The end of `__absent_pages_in_range`, after the loop -/
def absentRest (rangeStartPfn rangeEndPfn : Nat) (r : Nat × Nat) : Nat :=
  if rangeEndPfn > r.1 then wrap 32 (r.2 + wrapSub 32 rangeEndPfn (max r.1 rangeStartPfn)) else r.2

theorem holes_before {low s e end_ active : Nat} (below : low ≤ min s end_) (proper : s < e)
    (bound : active ≤ end_ - e) :
    (min s end_ - low) + (end_ - e - active) = end_ - low - ((min e end_ - s) + active) := by
  rcases le_total e end_ with inside | cut
  · rw [min_eq_left (proper.le.trans inside)] at below ⊢
    rw [min_eq_left inside]
    omega
  · rw [Nat.sub_eq_zero_of_le cut] at bound
    rw [min_eq_right cut, Nat.sub_eq_zero_of_le cut, Nat.le_zero.mp bound]
    rcases le_total s end_ with begun | ahead
    · rw [min_eq_left begun] at below ⊢
      omega
    · rw [min_eq_right ahead, Nat.sub_eq_zero_of_le ahead]
      rfl

/-- From the end of the last region on, the pages of the range that are not
active are added to those counted before. -/
theorem absentLoop_eq {l : List NodeActiveRegion} (h : Ordered l) {start end_ : Nat} (prev holes : Nat)
    (range : start ≤ end_) (later : ∀ r ∈ l, prev ≤ r.startPfn) (word : end_ < 2 ^ 32)
    (small : holes + (end_ - max prev start) < 2 ^ 32) :
    absentRest start end_ (absentLoop start end_ l prev holes) =
      holes + (end_ - max prev start - activePages l (max prev start) end_) := by
  induction l generalizing prev holes with
  | nil =>
    rw [absentLoop, absentRest, activePages_nil]
    dsimp only
    split_ifs with rest
    · rw [wrapSub_of_le (by omega) word, wrap_of_lt small, Nat.sub_zero]
    · omega
  | cons r l ih =>
    rw [absentLoop]
    split_ifs with done
    · rw [absentRest, if_neg (by simpa using done)]
      dsimp only
      omega
    · have proper := h.proper r List.mem_cons_self
      have first := later r List.mem_cons_self
      have inside : max prev start ≤ end_ := max_le (le_of_not_ge done) range
      have before : max r.endPfn (max prev start) = max r.endPfn start := by
        rw [← max_assoc, max_eq_left (first.trans proper.le)]
      have bound := activePages_le l (max r.endPfn start) end_
      have counted := activePages_cons h inside
      rw [before] at counted
      dsimp only
      rw [counted]
      split_ifs with hole
      · have lower : start ≤ r.startPfn := hole.le.trans (min_le_left _ _)
        have startOnly : max r.startPfn (max prev start) = r.startPfn := max_eq_left (max_le first lower)
        have beyond : max r.endPfn start = r.endPfn := max_eq_left (lower.trans proper.le)
        have below : max prev start ≤ min r.startPfn end_ := le_min (max_le first lower) inside
        have sub : wrapSub 32 (min r.startPfn end_) (max prev start) =
            min r.startPfn end_ - max prev start :=
          wrapSub_of_le below ((min_le_right _ _).trans_lt word)
        have enough := holes_before below proper (beyond ▸ bound)
        have room : holes + (min r.startPfn end_ - max prev start) + (end_ - r.endPfn) < 2 ^ 32 :=
          calc holes + (min r.startPfn end_ - max prev start) + (end_ - r.endPfn)
              = holes + ((min r.startPfn end_ - max prev start) + (end_ - r.endPfn - 0)) :=
                Nat.add_assoc ..
            _ = holes + (end_ - max prev start - ((min r.endPfn end_ - r.startPfn) + 0)) := by
                rw [holes_before below proper (Nat.zero_le _)]
            _ ≤ holes + (end_ - max prev start) := Nat.add_le_add_left (Nat.sub_le _ _) _
            _ < 2 ^ 32 := small
        have sum : wrap 32 (holes + (min r.startPfn end_ - max prev start)) =
            holes + (min r.startPfn end_ - max prev start) :=
          wrap_of_lt ((Nat.le_add_right _ _).trans_lt room)
        rw [sub, sum, ih h.tail _ _ h.after (by rw [beyond]; exact room), beyond, startOnly, Nat.add_assoc,
          enough]
      · have passed : end_ - max r.endPfn start ≤ end_ - max prev start := by
          apply Nat.sub_le_sub_left
          exact max_le_max_right start (first.trans proper.le)
        rw [ih h.tail _ _ h.after ((Nat.add_le_add_left passed holes).trans_lt small)]
        have here : max prev start = start := by omega
        rw [here]
        clear counted before small passed inside
        omega

theorem absentLoop_inverted {l : List NodeActiveRegion} {start end_ prev holes : Nat}
    (range : end_ ≤ start) (reached : end_ ≤ prev ∨ ∃ r ∈ l, end_ ≤ r.endPfn) :
    absentRest start end_ (absentLoop start end_ l prev holes) = holes := by
  induction l generalizing prev with
  | nil =>
    have past : end_ ≤ prev := reached.resolve_right (by simp)
    rw [absentLoop, absentRest, if_neg (by simpa using past)]
  | cons r l ih =>
    rw [absentLoop]
    split_ifs with done
    · rw [absentRest, if_neg (by simpa using done)]
    · dsimp only
      rw [if_neg (by omega)]
      apply ih
      obtain ⟨r', hr', past⟩ := reached.resolve_left done
      rcases List.mem_cons.mp hr' with rfl | later
      · exact .inl past
      · exact .inr ⟨r', later, past⟩

variable {map : List NodeActiveRegion}

theorem activeRanges_of_node {nid : Nat} (all : nid = maxNumnodes ∨ ∀ r ∈ map, r.nid = nid) :
    activeRanges map nid = map := by
  rw [activeRanges, List.filter_eq_self]
  intro r member
  rw [decide_eq_true_eq]
  exact all.imp id fun same => same r member

theorem activeRanges_zero (node : ∀ r ∈ map, r.nid = 0) : activeRanges map 0 = map :=
  activeRanges_of_node (.inr node)

theorem activeRanges_all (map : List NodeActiveRegion) : activeRanges map maxNumnodes = map :=
  activeRanges_of_node (.inl rfl)

theorem Ordered.activeRanges (h : Ordered map) (nid : Nat) : Ordered (activeRanges map nid) :=
  ⟨fun r member => h.proper r (List.mem_of_mem_filter member), h.sorted.filter _⟩

theorem absentPagesInNidRange_node (h : Ordered map) (nid : Nat) {start end_ : Nat}
    (range : start ≤ end_) (word : end_ < 2 ^ 32) :
    absentPagesInNidRange map nid start end_ =
      end_ - start - activePages (activeRanges map nid) start end_ := by
  have counted := absentLoop_eq (h.activeRanges nid) 0 0 range (fun _ _ => Nat.zero_le _) word
    (by omega)
  rw [Nat.zero_max, Nat.zero_add] at counted
  exact counted

theorem absentPagesInNidRange_eq (h : Ordered map) (node : ∀ r ∈ map, r.nid = 0) {start end_ : Nat}
    (range : start ≤ end_) (word : end_ < 2 ^ 32) :
    absentPagesInNidRange map 0 start end_ = end_ - start - activePages map start end_ := by
  rw [absentPagesInNidRange_node h 0 range word, activeRanges_zero node]

theorem absentPagesInNidRange_inverted (node : ∀ r ∈ map, r.nid = 0) {start end_ : Nat}
    (range : end_ ≤ start) {r : NodeActiveRegion} (hr : r ∈ map) (reached : end_ ≤ r.endPfn) :
    absentPagesInNidRange map 0 start end_ = 0 := by
  rw [absentPagesInNidRange, activeRanges_zero node]
  exact absentLoop_inverted range (.inr ⟨r, hr, reached⟩)

end XcKernel.Zones
