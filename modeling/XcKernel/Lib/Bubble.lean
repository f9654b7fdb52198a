import Mathlib.Data.List.Perm.Basic
import Mathlib.Data.List.Count

/-!
# Passes of adjacent swaps

One pass walks over a list and swaps neighbours; it says whether it swapped any.
When a swap puts a smaller key in front, every pass that swaps leaves fewer
inversions, and a pass that does not has found the list sorted.
-/

namespace XcKernel.Bubble

variable {α : Type*} (swaps : α → α → Bool)

/-- A pass over the rest of a list, with the element before it in hand. -/
def passFrom (last : α) : List α → List α × Bool
  | [] => ([last], false)
  | cur :: rest =>
    if swaps cur last then
      let r := passFrom last rest
      (cur :: r.1, true)
    else
      let r := passFrom cur rest
      (last :: r.1, r.2)

/-- A pass over a list. -/
def pass : List α → List α × Bool
  | [] => ([], false)
  | first :: rest => passFrom swaps first rest

/-- The pairs that stand in the wrong order. -/
def inversions (key : α → Nat) : List α → Nat
  | [] => 0
  | x :: l => l.countP (fun y => key y < key x) + inversions key l

theorem passFrom_perm (last : α) (l : List α) : (passFrom swaps last l).1.Perm (last :: l) := by
  induction l generalizing last with
  | nil => exact .refl _
  | cons cur rest ih =>
    rw [passFrom]
    split
    · exact ((ih last).cons cur).trans (.swap last cur rest)
    · exact (ih cur).cons last

theorem pass_perm (l : List α) : (pass swaps l).1.Perm l := by
  cases l with
  | nil => exact .refl _
  | cons first rest => exact passFrom_perm swaps first rest

variable {swaps} {key : α → Nat}

theorem passFrom_inversions (smaller : ∀ y x, swaps y x = true ↔ key y < key x) (last : α) (l : List α) :
    inversions key (passFrom swaps last l).1 + (if (passFrom swaps last l).2 then 1 else 0) ≤
      inversions key (last :: l) := by
  induction l generalizing last with
  | nil => simp [passFrom, inversions]
  | cons cur rest ih =>
    rw [passFrom]
    split
    · rename_i lt
      rw [smaller] at lt
      have count := (passFrom_perm swaps last rest).countP_eq fun y => decide (key y < key cur)
      have ih := ih last
      simp only [inversions, List.countP_cons, if_true] at ih count ⊢
      rw [count, if_pos (decide_eq_true lt), if_neg (by simpa using Nat.le_of_lt lt)]
      omega
    · have count := (passFrom_perm swaps cur rest).countP_eq fun y => decide (key y < key last)
      have ih := ih cur
      rw [inversions, inversions]
      dsimp only
      rw [count]
      omega

theorem pass_inversions (smaller : ∀ y x, swaps y x = true ↔ key y < key x) {l : List α}
    (swapped : (pass swaps l).2 = true) : inversions key (pass swaps l).1 < inversions key l := by
  cases l with
  | nil => cases swapped
  | cons first rest =>
    have count := passFrom_inversions smaller first rest
    rw [if_pos (c := (passFrom swaps first rest).2 = true) swapped] at count
    exact count

theorem passFrom_sorted (smaller : ∀ y x, swaps y x = true ↔ key y < key x) {last : α} {l : List α}
    (quiet : (passFrom swaps last l).2 = false) :
    (passFrom swaps last l).1 = last :: l ∧ (last :: l).Pairwise (fun x y => key x ≤ key y) := by
  induction l generalizing last with
  | nil => exact ⟨rfl, List.pairwise_singleton _ _⟩
  | cons cur rest ih =>
    rw [passFrom] at quiet ⊢
    split at quiet
    · cases quiet
    · rename_i stays
      rw [if_neg stays]
      obtain ⟨same, sorted⟩ := ih quiet
      rw [smaller, Nat.not_lt] at stays
      refine ⟨congrArg (last :: ·) same, List.pairwise_cons.mpr ⟨fun y member => ?_, sorted⟩⟩
      rcases List.mem_cons.mp member with rfl | later
      · exact stays
      · exact Nat.le_trans stays ((List.pairwise_cons.mp sorted).1 y later)

theorem pass_sorted (smaller : ∀ y x, swaps y x = true ↔ key y < key x) {l : List α}
    (quiet : (pass swaps l).2 = false) :
    (pass swaps l).1 = l ∧ l.Pairwise (fun x y => key x ≤ key y) := by
  cases l with
  | nil => exact ⟨rfl, .nil⟩
  | cons first rest => exact passFrom_sorted smaller quiet

variable (swaps)

/-- One round of a pass by index: the places `i - 1` and `i` are compared. -/
def swapAt (r : List α × Bool) (i : Nat) : List α × Bool :=
  match r.1[i - 1]?, r.1[i]? with
  | some last, some cur => if swaps cur last then ((r.1.set i last).set (i - 1) cur, true) else r
  | _, _ => r

/-- A pass by index, which remembers whether it has swapped. -/
def indexPass (l : List α) : List α × Bool :=
  (List.range' 1 (l.length - 1)).foldl (swapAt swaps) (l, false)

theorem swapAt_append (done : List α) (last cur : α) (rest : List α) (swapped : Bool) :
    swapAt swaps (done ++ last :: cur :: rest, swapped) (done.length + 1) =
      if swaps cur last then (done ++ cur :: last :: rest, true)
      else (done ++ last :: cur :: rest, swapped) := by
  have atLast : (done ++ last :: cur :: rest)[done.length + 1 - 1]? = some last := by simp
  have atCur : (done ++ last :: cur :: rest)[done.length + 1]? = some cur := by
    rw [List.getElem?_append_right (by omega)]
    simp
  rw [swapAt, atLast, atCur]
  dsimp only
  split
  · simp [List.set_append_right]
  · rfl

theorem foldl_swapAt (done : List α) (last : α) (rest : List α) (swapped : Bool) :
    (List.range' (done.length + 1) rest.length).foldl (swapAt swaps) (done ++ last :: rest, swapped) =
      (done ++ (passFrom swaps last rest).1, swapped || (passFrom swaps last rest).2) := by
  induction rest generalizing done last swapped with
  | nil => simp [passFrom]
  | cons cur rest ih =>
    rw [List.length_cons, List.range'_succ, List.foldl_cons, swapAt_append, passFrom]
    have next (x : α) : (done ++ [x]).length = done.length + 1 := by simp
    split
    · have := ih (done ++ [cur]) last true
      rw [next] at this
      simpa using this
    · have := ih (done ++ [last]) cur swapped
      rw [next] at this
      simpa using this

theorem indexPass_eq (l : List α) : indexPass swaps l = pass swaps l := by
  cases l with
  | nil => rfl
  | cons first rest => simpa [indexPass, pass] using foldl_swapAt swaps [] first rest false

/-- Passes until one does not swap, in at most `n` passes; `none` is that there were not enough. -/
def repeatPass : (n : Nat) → List α → Option (List α)
  | 0, _ => none
  | n + 1, l =>
    if (indexPass swaps l).2 then repeatPass n (indexPass swaps l).1 else some (indexPass swaps l).1

variable {swaps}

theorem inversions_le (l : List α) : inversions key l ≤ l.length * l.length := by
  induction l with
  | nil => exact Nat.le_refl _
  | cons x l ih =>
    have count := List.countP_le_length (p := fun y => decide (key y < key x)) (l := l)
    rw [inversions, List.length_cons, Nat.succ_mul, Nat.mul_succ]
    omega

end XcKernel.Bubble
