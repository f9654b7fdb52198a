import XcKernel.Zones.Holes

/-!
# Hole counting over the array

`__absent_pages_in_range` as it walks `early_node_map` by index, with a record of
the operands of its subtractions.  It counts the pages of the range that lie in no
entry, and never subtracts a larger number from a smaller one.
-/

namespace XcKernel.Zones

open Word Mm

/-- The search of the two functions below, from an index on; `none` is -1. -/
def activeIndexFrom (map : List NodeActiveRegion) (nid index : Nat) : Option Nat :=
  if h : index < map.length then
    if nid = maxNumnodes ∨ map[index].nid = nid then some index
    else activeIndexFrom map nid (index + 1)
  else none
termination_by map.length - index

def firstActiveRegionIndexInNid (map : List NodeActiveRegion) (nid : Nat) : Option Nat :=
  activeIndexFrom map nid 0

def nextActiveRegionIndexInNid (map : List NodeActiveRegion) (index nid : Nat) : Option Nat :=
  activeIndexFrom map nid (index + 1)

theorem activeIndexFrom_spec (map : List NodeActiveRegion) (nid k : Nat) :
    (activeIndexFrom map nid k = none ∧ activeRanges (map.drop k) nid = []) ∨
    ∃ i, ∃ h : i < map.length, k ≤ i ∧ activeIndexFrom map nid k = some i ∧
      activeRanges (map.drop k) nid = map[i] :: activeRanges (map.drop (i + 1)) nid := by
  fun_induction activeIndexFrom map nid k with
  | case1 k h found =>
    refine .inr ⟨k, h, le_rfl, rfl, ?_⟩
    rw [List.drop_eq_getElem_cons h, activeRanges, List.filter_cons_of_pos (by simpa using found)]
    rfl
  | case2 k h other ih =>
    have skip : activeRanges (map.drop k) nid = activeRanges (map.drop (k + 1)) nid := by
      rw [List.drop_eq_getElem_cons h, activeRanges,
        List.filter_cons_of_neg (by simpa using other)]
      rfl
    rw [skip]
    rcases ih with none | ⟨i, hi, le, found, rest⟩
    · exact .inl none
    · exact .inr ⟨i, hi, by omega, found, rest⟩
  | case3 k h =>
    rw [List.drop_eq_nil_of_le (by omega)]
    exact .inl ⟨rfl, rfl⟩

/-- The rounds that may be left at an index. -/
def roundsLeft (map : List NodeActiveRegion) : Option Nat → Nat
  | none => 0
  | some i => map.length - i + 1

theorem roundsLeft_next (map : List NodeActiveRegion) (nid i : Nat) :
    roundsLeft map (nextActiveRegionIndexInNid map i nid) < roundsLeft map (some i) := by
  rw [nextActiveRegionIndexInNid]
  rcases activeIndexFrom_spec map nid (i + 1) with ⟨none, -⟩ | ⟨j, hj, le, found, -⟩
  · rw [none, roundsLeft, roundsLeft]
    omega
  · rw [found, roundsLeft, roundsLeft]
    omega

/-- The variables of `__absent_pages_in_range`, and its subtractions so far. -/
structure AbsentVars where
  prevEndPfn : Nat
  holePages : Nat
  subs : List (Nat × Nat)
  deriving DecidableEq, Repr

namespace AbsentVars

/-- `hole_pages += a - b` -/
def addHole (v : AbsentVars) (a b : Nat) : AbsentVars :=
  { v with holePages := wrap 32 (v.holePages + wrapSub 32 a b), subs := v.subs ++ [(a, b)] }

/-- The loop body after the test -/
def pass (v : AbsentVars) (rangeStartPfn rangeEndPfn : Nat) (r : NodeActiveRegion) : AbsentVars :=
  let startPfn := min r.startPfn rangeEndPfn
  let prevEndPfn := max v.prevEndPfn rangeStartPfn
  let v := if startPfn > rangeStartPfn then v.addHole startPfn prevEndPfn else v
  { v with prevEndPfn := r.endPfn }

end AbsentVars

def absentWalk (map : List NodeActiveRegion) (nid rangeStartPfn rangeEndPfn : Nat) :
    (i : Option Nat) → AbsentVars → AbsentVars
  | none, v => v
  | some i, v =>
    if v.prevEndPfn ≥ rangeEndPfn then v
    else
      match map[i]? with
      | none => v
      | some r =>
        absentWalk map nid rangeStartPfn rangeEndPfn (nextActiveRegionIndexInNid map i nid)
          (v.pass rangeStartPfn rangeEndPfn r)
termination_by i => roundsLeft map i
decreasing_by exact roundsLeft_next map nid i

/-- `__absent_pages_in_range`, by index -/
def absentPagesIndexed (map : List NodeActiveRegion) (nid rangeStartPfn rangeEndPfn : Nat) :
    AbsentVars :=
  let v := absentWalk map nid rangeStartPfn rangeEndPfn (firstActiveRegionIndexInNid map nid)
    ⟨0, 0, []⟩
  if rangeEndPfn > v.prevEndPfn then v.addHole rangeEndPfn (max v.prevEndPfn rangeStartPfn) else v

variable {map : List NodeActiveRegion} {nid rangeStartPfn rangeEndPfn : Nat}

/-- The walk passes over the entries of the node in order. -/
def passAll (rangeStartPfn rangeEndPfn : Nat) : List NodeActiveRegion → AbsentVars → AbsentVars
  | [], v => v
  | r :: rest, v =>
    if v.prevEndPfn ≥ rangeEndPfn then v
    else passAll rangeStartPfn rangeEndPfn rest (v.pass rangeStartPfn rangeEndPfn r)

theorem absentWalk_eq (k : Nat) (v : AbsentVars) :
    absentWalk map nid rangeStartPfn rangeEndPfn (activeIndexFrom map nid k) v =
      passAll rangeStartPfn rangeEndPfn (activeRanges (map.drop k) nid) v := by
  -- the entries that are left become fewer with each round
  generalize left : map.length - k = n
  induction n using Nat.strong_induction_on generalizing k v with
  | _ n ih =>
    rcases activeIndexFrom_spec map nid k with ⟨none, rest⟩ | ⟨i, hi, le, found, rest⟩
    · rw [none, rest, absentWalk, passAll]
    · rw [found, rest, absentWalk, passAll, List.getElem?_eq_getElem hi]
      split_ifs
      · rfl
      · exact ih (map.length - (i + 1)) (by omega) (i + 1) _ rfl

theorem passAll_absentLoop (l : List NodeActiveRegion) (v : AbsentVars) :
    ((passAll rangeStartPfn rangeEndPfn l v).prevEndPfn,
      (passAll rangeStartPfn rangeEndPfn l v).holePages) =
      absentLoop rangeStartPfn rangeEndPfn l v.prevEndPfn v.holePages := by
  induction l generalizing v with
  | nil => rfl
  | cons r l ih =>
    rw [passAll, absentLoop]
    split_ifs with done
    · rfl
    · rw [ih, AbsentVars.pass]
      dsimp only
      split_ifs <;> rfl

theorem absentPagesIndexed_holePages :
    (absentPagesIndexed map nid rangeStartPfn rangeEndPfn).holePages =
      absentPagesInNidRange map nid rangeStartPfn rangeEndPfn := by
  have same := @passAll_absentLoop rangeStartPfn rangeEndPfn (activeRanges map nid) ⟨0, 0, []⟩
  rw [absentPagesIndexed, firstActiveRegionIndexInNid, absentWalk_eq, List.drop_zero,
    absentPagesInNidRange, ← same]
  dsimp only
  split_ifs <;> rfl

/-- No subtraction so far has gone below zero. -/
def AbsentVars.NoUnderflow (v : AbsentVars) : Prop := ∀ sub ∈ v.subs, sub.2 ≤ sub.1

theorem AbsentVars.NoUnderflow.addHole {v : AbsentVars} (ok : v.NoUnderflow) {a b : Nat}
    (le : b ≤ a) : (v.addHole a b).NoUnderflow := by
  intro sub member
  rcases List.mem_append.mp member with old | new
  · exact ok sub old
  · rw [List.mem_singleton] at new
    subst new
    exact le

theorem AbsentVars.NoUnderflow.pass {v : AbsentVars} (ok : v.NoUnderflow) {r : NodeActiveRegion}
    (room : v.prevEndPfn < rangeEndPfn) (later : v.prevEndPfn ≤ r.startPfn) :
    (v.pass rangeStartPfn rangeEndPfn r).NoUnderflow := by
  unfold AbsentVars.pass
  dsimp only
  split_ifs with hole
  · exact ok.addHole (max_le (le_min later room.le) hole.le)
  · exact ok

theorem passAll_noUnderflow {l : List NodeActiveRegion} (h : Ordered l) {v : AbsentVars}
    (ok : v.NoUnderflow) (later : ∀ r ∈ l, v.prevEndPfn ≤ r.startPfn) :
    (passAll rangeStartPfn rangeEndPfn l v).NoUnderflow := by
  induction l generalizing v with
  | nil => exact ok
  | cons r l ih =>
    rw [passAll]
    split_ifs with done
    · exact ok
    · exact ih h.tail (ok.pass (by omega) (later r List.mem_cons_self)) h.after

/-- Non-empty entries in the order of their starts, no two with a page in common. -/
structure SortedDisjoint (map : List NodeActiveRegion) : Prop where
  proper : ∀ r ∈ map, r.startPfn < r.endPfn
  sorted : map.Pairwise fun r r' => r.startPfn ≤ r'.startPfn
  disjoint : map.Pairwise fun r r' =>
    ∀ pfn, ¬ ((r.startPfn ≤ pfn ∧ pfn < r.endPfn) ∧ r'.startPfn ≤ pfn ∧ pfn < r'.endPfn)

theorem SortedDisjoint.ordered (h : SortedDisjoint map) : Ordered map := by
  refine ⟨h.proper, (h.sorted.and h.disjoint).imp_of_mem ?_⟩
  rintro r r' - member' ⟨before, apart⟩
  have proper' := h.proper r' member'
  by_contra! overlap
  exact apart r'.startPfn ⟨⟨before, overlap⟩, le_rfl, proper'⟩

theorem card_not_active (map : List NodeActiveRegion) (start end_ : Nat) :
    ((Finset.Ico start end_).filter fun pfn => ¬ Active map pfn).card =
      end_ - start - activePages map start end_ := by
  have all := Finset.card_filter_add_card_filter_not (s := Finset.Ico start end_) (Active map)
  rw [Nat.card_Ico] at all
  rw [activePages]
  omega

/-- `__absent_pages_in_range` returns the number of pages of the range that lie in no entry of
the node, which are those in no entry at all when every entry is one of the node. -/
theorem absent_pages_in_range_exact (h : SortedDisjoint map) (nid : Nat)
    (range : rangeStartPfn ≤ rangeEndPfn) (word : rangeEndPfn < 2 ^ 32) :
    (absentPagesIndexed map nid rangeStartPfn rangeEndPfn).holePages =
      ((Finset.Ico rangeStartPfn rangeEndPfn).filter fun pfn =>
        ¬ Active (activeRanges map nid) pfn).card ∧
    ((nid = maxNumnodes ∨ ∀ r ∈ map, r.nid = nid) →
      (absentPagesIndexed map nid rangeStartPfn rangeEndPfn).holePages =
        ((Finset.Ico rangeStartPfn rangeEndPfn).filter fun pfn => ¬ Active map pfn).card) ∧
    (absentPagesIndexed map nid rangeStartPfn rangeEndPfn).NoUnderflow := by
  have count : (absentPagesIndexed map nid rangeStartPfn rangeEndPfn).holePages =
      ((Finset.Ico rangeStartPfn rangeEndPfn).filter fun pfn =>
        ¬ Active (activeRanges map nid) pfn).card := by
    rw [absentPagesIndexed_holePages, absentPagesInNidRange_node h.ordered nid range word,
      card_not_active]
  refine ⟨count, fun all => ?_, ?_⟩
  · rw [count, activeRanges_of_node all]
  · have start : AbsentVars.NoUnderflow ⟨0, 0, []⟩ := fun sub none => absurd none List.not_mem_nil
    have walked := @passAll_noUnderflow rangeStartPfn rangeEndPfn _ (h.ordered.activeRanges nid)
      _ start fun _ _ => Nat.zero_le _
    rw [absentPagesIndexed, firstActiveRegionIndexInNid, absentWalk_eq, List.drop_zero]
    split_ifs with rest
    · exact walked.addHole (max_le rest.le range)
    · exact walked

/-- An entry before the range, one across its start, one inside and one behind it. -/
theorem absent_pages_in_range_four :
    let map : List NodeActiveRegion := [⟨1, 2, 0⟩, ⟨3, 6, 0⟩, ⟨8, 9, 0⟩, ⟨20, 30, 0⟩]
    absentPagesIndexed map 0 4 12 = ⟨30, 5, [(8, 6), (12, 9)]⟩ ∧
      (absentPagesIndexed map 0 4 12).holePages =
        ((Finset.Ico 4 12).filter fun pfn => ¬ Active map pfn).card ∧
      (absentPagesIndexed map 0 4 12).NoUnderflow := by
  have sorted : SortedDisjoint [⟨1, 2, 0⟩, ⟨3, 6, 0⟩, ⟨8, 9, 0⟩, ⟨20, 30, 0⟩] := by
    refine ⟨by decide, by decide, ?_⟩
    simp only [List.pairwise_cons, List.mem_cons, List.not_mem_nil, or_false, forall_eq_or_imp,
      forall_eq, List.Pairwise.nil, IsEmpty.forall_iff, implies_true, and_true]
    and_intros <;> intro pfn <;> omega
  obtain ⟨-, all, ok⟩ := absent_pages_in_range_exact sorted 0 (show 4 ≤ 12 by decide) (by decide)
  exact ⟨by decide +kernel, all (.inr (by decide)), ok⟩

end XcKernel.Zones
