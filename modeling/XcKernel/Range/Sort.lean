import Mathlib.Data.List.Perm.Basic
import Mathlib.Data.List.Count
import Mathlib.Tactic.Common

/-!
# Heap sort

`sort` of `lib/sort.c` on an array of elements.  The source scales its indices by
the size of an element; here they count elements, and a swap moves an element as
a whole.  `none` is an access outside the array or a loop that does not end.
-/

namespace XcKernel.Range

variable {α : Type*}

/-- The elements at two places change places. -/
def swap (base : List α) (i j : Nat) : Option (List α) :=
  match base[i]?, base[j]? with
  | some x, some y => some ((base.set i y).set j x)
  | _, _ => none

/-- The greater child of the two, if there are two. -/
def child (cmpFunc : α → α → Int) (base : List α) (n c : Nat) : Option Nat :=
  if c + 1 < n then
    match base[c]?, base[c + 1]? with
    | some x, some y => some (if cmpFunc x y < 0 then c + 1 else c)
    | _, _ => none
  else some c

/-- The inner loop of both phases: the element at `r` sinks in a heap of `n`. -/
def siftDown (cmpFunc : α → α → Int) (n : Nat) (base : List α) (r : Nat) :
    (fuel : Nat) → Option (List α)
  | 0 => none
  | fuel + 1 =>
    if r * 2 + 1 < n then
      match child cmpFunc base n (r * 2 + 1) with
      | none => none
      | some c =>
        match base[r]?, base[c]? with
        | some x, some y =>
          if cmpFunc x y ≥ 0 then some base
          else (swap base r c).bind fun base => siftDown cmpFunc n base c fuel
        | _, _ => none
    else some base

/-- The first phase, with the places `i - 1, …, 0` left. -/
def heapify (cmpFunc : α → α → Int) (base : List α) : (i : Nat) → Option (List α)
  | 0 => some base
  | i + 1 =>
    (siftDown cmpFunc base.length base i (base.length + 1)).bind fun base => heapify cmpFunc base i

/-- The second phase, with the places `i, …, 1` left. -/
def sortHeap (cmpFunc : α → α → Int) (base : List α) : (i : Nat) → Option (List α)
  | 0 => some base
  | i + 1 =>
    (swap base 0 (i + 1)).bind fun base =>
      (siftDown cmpFunc (i + 1) base 0 (base.length + 1)).bind fun base => sortHeap cmpFunc base i

def sort (cmpFunc : α → α → Int) (base : List α) : Option (List α) :=
  (heapify cmpFunc base (base.length / 2)).bind fun base => sortHeap cmpFunc base (base.length - 1)

theorem swap_perm {base : List α} {i j : Nat} (hi : i < base.length) (hj : j < base.length) :
    ∃ base', swap base i j = some base' ∧ base'.Perm base := by
  refine ⟨_, by rw [swap, List.getElem?_eq_getElem hi, List.getElem?_eq_getElem hj], ?_⟩
  exact List.set_set_perm hi hj

theorem child_spec (cmpFunc : α → α → Int) {base : List α} {n c : Nat} (inside : c < n)
    (small : n ≤ base.length) : ∃ c', child cmpFunc base n c = some c' ∧ c ≤ c' ∧ c' < n := by
  unfold child
  split
  · rename_i two
    rw [List.getElem?_eq_getElem (by omega), List.getElem?_eq_getElem (by omega)]
    refine ⟨_, rfl, ?_⟩
    split <;> omega
  · exact ⟨c, rfl, Nat.le_refl c, inside⟩

theorem siftDown_perm (cmpFunc : α → α → Int) {n r fuel : Nat} {base : List α}
    (small : n ≤ base.length) (some_fuel : 0 < fuel) (enough : n ≤ r + fuel) :
    ∃ base', siftDown cmpFunc n base r fuel = some base' ∧ base'.Perm base := by
  induction fuel generalizing base r with
  | zero => omega
  | succ fuel ih =>
    rw [siftDown]
    split
    · rename_i left
      obtain ⟨c, chosen, above, below⟩ := child_spec cmpFunc left small
      rw [chosen]
      dsimp only
      rw [List.getElem?_eq_getElem (by omega : r < base.length),
        List.getElem?_eq_getElem (by omega : c < base.length)]
      dsimp only
      split
      · exact ⟨base, rfl, .refl base⟩
      · obtain ⟨base₁, swapped, perm₁⟩ := swap_perm (by omega : r < base.length) (by omega : c < base.length)
        have length := perm₁.length_eq
        obtain ⟨base', sifted, perm⟩ := ih (by omega : n ≤ base₁.length) (by omega) (by omega : n ≤ c + fuel)
        exact ⟨base', by rw [swapped]; exact sifted, perm.trans perm₁⟩
    · exact ⟨base, rfl, .refl base⟩

theorem heapify_perm (cmpFunc : α → α → Int) (base : List α) (i : Nat) :
    ∃ base', heapify cmpFunc base i = some base' ∧ base'.Perm base := by
  induction i generalizing base with
  | zero => exact ⟨base, rfl, .refl base⟩
  | succ i ih =>
    obtain ⟨base₁, sifted, perm₁⟩ := siftDown_perm cmpFunc (Nat.le_refl base.length)
      (Nat.succ_pos base.length) (by omega : base.length ≤ i + (base.length + 1))
    obtain ⟨base', rest, perm⟩ := ih base₁
    exact ⟨base', by rw [heapify, sifted]; exact rest, perm.trans perm₁⟩

theorem sortHeap_perm (cmpFunc : α → α → Int) {base : List α} {i : Nat}
    (inside : i = 0 ∨ i < base.length) :
    ∃ base', sortHeap cmpFunc base i = some base' ∧ base'.Perm base := by
  induction i generalizing base with
  | zero => exact ⟨base, rfl, .refl base⟩
  | succ i ih =>
    obtain ⟨base₁, swapped, perm₁⟩ := swap_perm (by omega : 0 < base.length) (by omega : i + 1 < base.length)
    have length₁ := perm₁.length_eq
    obtain ⟨base₂, sifted, perm₂⟩ := siftDown_perm cmpFunc (r := 0)
      (by omega : i + 1 ≤ base₁.length) (Nat.succ_pos base₁.length) (by omega)
    have length₂ := perm₂.length_eq
    obtain ⟨base', rest, perm⟩ := ih (by omega : i = 0 ∨ i < base₂.length)
    refine ⟨base', ?_, perm.trans (perm₂.trans perm₁)⟩
    rw [sortHeap, swapped, Option.bind_some, sifted]
    exact rest

theorem sort_perm (cmpFunc : α → α → Int) (base : List α) :
    ∃ base', sort cmpFunc base = some base' ∧ base'.Perm base := by
  obtain ⟨base₁, heaped, perm₁⟩ := heapify_perm cmpFunc base (base.length / 2)
  have length := perm₁.length_eq
  obtain ⟨base', sorted, perm⟩ := sortHeap_perm cmpFunc
    (by omega : base₁.length - 1 = 0 ∨ base₁.length - 1 < base₁.length)
  exact ⟨base', by rw [sort, heaped]; exact sorted, perm.trans perm₁⟩

end XcKernel.Range
