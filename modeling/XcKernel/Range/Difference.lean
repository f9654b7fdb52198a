import XcKernel.Range.Spec

/-!
# `subtract_range` is set difference

Disjoint slots hold each number at most once, so what is said of counts in
`Range.Spec` is about the union here.  Only the slot around the subtracted range
needs a second place; without such a slot a full array loses nothing.
-/

namespace XcKernel.Range

variable {range range₀ : List Slot} {start end_ : Nat}

/-- No number is in both slots. -/
def Slot.Apart (r t : Slot) : Prop := ∀ x, r.Contains x → ¬ t.Contains x

/-- The number is in one of the slots. -/
def Union (range : List Slot) (x : Nat) : Prop := ∃ r ∈ range, r.Contains x

/-- Numbers remain on both sides of the range. -/
def Slot.Around (r : Slot) (start end_ : Nat) : Prop := r.start < start ∧ end_ < r.end_

theorem union_iff_cover (range : List Slot) (x : Nat) : Union range x ↔ 0 < cover range x := by
  rw [cover, List.countP_pos_iff]
  simp [Union]

theorem pairwise_apart_iff (range : List Slot) :
    range.Pairwise Slot.Apart ↔ ∀ x, cover range x ≤ 1 := by
  induction range with
  | nil => simp [cover]
  | cons r range ih =>
    have step : ∀ x, cover (r :: range) x = cover range x + if r.Contains x then 1 else 0 := by
      intro x
      simp [cover, List.countP_cons]
    rw [List.pairwise_cons, ih]
    constructor
    · rintro ⟨apart, rest⟩ x
      rw [step]
      split
      · rename_i inside
        have none : ¬ Union range x := by
          rintro ⟨t, member, also⟩
          exact apart t member x inside also
        rw [union_iff_cover] at none
        omega
      · exact rest x
    · intro once
      constructor
      · intro t member x inside also
        have both := once x
        have more := (union_iff_cover range x).mp ⟨t, member, also⟩
        rw [step, if_pos inside] at both
        omega
      · intro x
        have all := once x
        rw [step] at all
        omega

/-- The loop of `subtract_range` when no slot has to be split. -/
structure Unsplit (start end_ : Nat) (range₀ range : List Slot) : Prop where
  ok : ∀ r ∈ range, r.Ok
  none : ∀ r ∈ range, ¬ r.Around start end_
  outside : ∀ x, x < start ∨ end_ ≤ x → cover range x = cover range₀ x

theorem Unsplit.step (h : Unsplit start end_ range₀ range) (lt : start < end_) (j : Nat) :
    Unsplit start end_ range₀ (subtractSlot start end_ range j) := by
  cases here : range[j]? with
  | none =>
    unfold subtractSlot
    rw [here]
    exact h
  | some r =>
    have member := List.mem_of_getElem? here
    rcases subtractSlot_cases here (h.ok r member) with ⟨r', eq, ok', left, -⟩ | ⟨low, high, -⟩
    · rw [eq]
      refine ⟨ok_set h.ok ok', ?_, ?_⟩
      · intro t inside around
        rcases List.mem_or_eq_of_mem_set inside with old | rfl
        · exact h.none t old around
        · exact ((left start).mp ⟨around.1.le, lt.trans around.2⟩).2 ⟨le_rfl, lt⟩
      · intro x out
        rw [← h.outside x out]
        have count := cover_set here r' x
        have same : r'.Contains x ↔ r.Contains x := by
          rw [left]
          exact and_iff_left (by omega)
        rw [if_congr same rfl rfl] at count
        exact Nat.add_right_cancel count
    · exact (h.none r member ⟨low, high⟩).elim

theorem unsplit_foldl (ok : ∀ r ∈ range₀, r.Ok) (none : ∀ r ∈ range₀, ¬ r.Around start end_)
    (lt : start < end_) (n : Nat) :
    Unsplit start end_ range₀ ((List.range n).foldl (subtractSlot start end_) range₀) := by
  induction n with
  | zero => exact ⟨ok, none, fun _ _ => rfl⟩
  | succ n ih =>
    rw [List.range_succ, List.foldl_append, List.foldl_cons, List.foldl_nil]
    exact ih.step lt n

theorem subtractRange_unsplit (ok : ∀ r ∈ range₀, r.Ok)
    (none : ∀ r ∈ range₀, ¬ r.Around start end_) {x : Nat} (out : x < start ∨ end_ ≤ x) :
    cover (subtractRange range₀ start end_) x = cover range₀ x := by
  unfold subtractRange
  split
  · rfl
  · rename_i lt
    exact (unsplit_foldl ok none (not_le.mp lt) _).outside x out

theorem used_lt_of_empty {e : Slot} (member : e ∈ range) (empty : e.end_ = 0) :
    used range < range.length := by
  have le : used range ≤ range.length := List.countP_le_length
  apply lt_of_le_of_ne le
  intro full
  have all := (List.countP_eq_length.mp full) e member
  simp [empty] at all

/-- `subtract_range` leaves disjoint slots.  They hold the numbers outside the
range, all of them if there is an empty slot or no slot has to be split. -/
theorem subtract_range_set_difference (ok : ∀ r ∈ range, r.Ok)
    (disjoint : range.Pairwise Slot.Apart) (start end_ : Nat) :
    (∀ r ∈ subtractRange range start end_, r.Ok) ∧
    (subtractRange range start end_).Pairwise Slot.Apart ∧
    ((∃ r ∈ range, r.end_ = 0) ∨ (∀ r ∈ range, ¬ r.Around start end_) →
      ∀ x, Union (subtractRange range start end_) x ↔
        Union range x ∧ ¬ (start ≤ x ∧ x < end_)) ∧
    ∀ x, Union (subtractRange range start end_) x →
      Union range x ∧ ¬ (start ≤ x ∧ x < end_) := by
  have difference := subtractRange_difference ok start end_
  rw [pairwise_apart_iff] at disjoint
  have inside : ∀ x, Union (subtractRange range start end_) x →
      Union range x ∧ ¬ (start ≤ x ∧ x < end_) := by
    intro x covered
    rw [union_iff_cover] at covered ⊢
    constructor
    · exact covered.trans_le (difference.below x)
    · rintro ⟨low, high⟩
      have := difference.inside x low high
      omega
  refine ⟨difference.ok, ?_, ?_, inside⟩
  · rw [pairwise_apart_iff]
    exact fun x => (difference.below x).trans (disjoint x)
  · intro room x
    refine ⟨inside x, ?_⟩
    rintro ⟨covered, out⟩
    rw [union_iff_cover] at covered ⊢
    have same : cover (subtractRange range start end_) x = cover range x := by
      rcases room with ⟨e, member, empty⟩ | none
      · apply difference.outside
        · have free := used_lt_of_empty member empty
          have once := disjoint start
          omega
        · omega
      · exact subtractRange_unsplit ok none (by omega)
    rw [same]
    exact covered

/-- One range is split around the middle; the tail goes to the empty slot before it. -/
theorem subtract_range_set_difference_split :
    subtractRange [⟨0, 0⟩, ⟨10, 20⟩] 12 15 = [⟨15, 20⟩, ⟨10, 12⟩] ∧
      ∀ x, Union (subtractRange [⟨0, 0⟩, ⟨10, 20⟩] 12 15) x ↔
        Union [⟨0, 0⟩, ⟨10, 20⟩] x ∧ ¬ (12 ≤ x ∧ x < 15) := by
  have ok : ∀ r ∈ [(⟨0, 0⟩ : Slot), ⟨10, 20⟩], r.Ok := by
    simp [Slot.Ok]
  have disjoint : [(⟨0, 0⟩ : Slot), ⟨10, 20⟩].Pairwise Slot.Apart := by
    simp [Slot.Apart, Slot.Contains]
  exact ⟨by decide,
    (subtract_range_set_difference ok disjoint 12 15).2.2.1 (.inl ⟨⟨0, 0⟩, by simp, rfl⟩)⟩

end XcKernel.Range
