import XcKernel.Range.Sort
import XcKernel.Lib.Word

/-!
# Arrays of ranges

`kernel/range.c`.  An array has a fixed number `az` of slots, which is the length
of the list; a slot whose `end` is 0 is empty.  How often a number is covered by
the slots says at once that they are disjoint and what their union is.
-/

namespace XcKernel.Range

open Word

/-- `struct range` -/
structure Slot where
  start : Nat
  end_ : Nat
  deriving DecidableEq, Repr

def addRange (range : List Slot) (nrRange start end_ : Nat) : List Slot × Nat :=
  if start ≥ end_ then (range, nrRange)
  else if nrRange ≥ range.length then (range, nrRange)
  else (range.set nrRange ⟨start, end_⟩, nrRange + 1)

/-- The first empty slot. -/
def emptySlot (range : List Slot) : Option Nat := range.findIdx? (·.end_ = 0)

/-- The body of the loop of `subtract_range` -/
def subtractSlot (start end_ : Nat) (range : List Slot) (j : Nat) : List Slot :=
  match range[j]? with
  | none => range
  | some r =>
    if r.end_ = 0 then range
    else if start ≤ r.start ∧ end_ ≥ r.end_ then range.set j ⟨0, 0⟩
    else if start ≤ r.start ∧ end_ < r.end_ ∧ r.start < end_ then range.set j ⟨end_, r.end_⟩
    else if start > r.start ∧ end_ ≥ r.end_ ∧ r.end_ > start then range.set j ⟨r.start, start⟩
    else if start > r.start ∧ end_ < r.end_ then
      -- the part behind goes to an empty slot, and is lost if there is none
      let range := match emptySlot range with
        | some i => range.set i ⟨end_, r.end_⟩
        | none => range
      range.set j ⟨r.start, start⟩
    else range

def subtractRange (range : List Slot) (start end_ : Nat) : List Slot :=
  if start ≥ end_ then range
  else (List.range range.length).foldl (subtractSlot start end_) range

/-- `cmp_range`: a difference of 64 bits cut to the 32 of an `int` -/
def cmpRange (r1 r2 : Slot) : Int :=
  signed 32 (signed 64 (signed 64 r1.start - signed 64 r2.start))

/-- The inner loop of `clean_sort_range`: the last used slot from `k` down to `i + 1` -/
def lastUsed (range : List Slot) (i : Nat) : (k : Nat) → Option Nat
  | 0 => none
  | k + 1 =>
    if k + 1 > i then
      if (range[k + 1]?.map (·.end_)).getD 0 ≠ 0 then some (k + 1) else lastUsed range i k
    else none

/-- The outer loop, which fills empty slots from the end -/
def compact (range : List Slot) (i k : Nat) : (fuel : Nat) → List Slot
  | 0 => range
  | fuel + 1 =>
    if i < k then
      if (range[i]?.map (·.end_)).getD 0 ≠ 0 then compact range (i + 1) k fuel
      else
        match lastUsed range i k with
        | none => range
        | some j =>
          compact ((range.set i (range[j]?.getD ⟨0, 0⟩)).set j ⟨0, 0⟩) (i + 1) (j - 1) fuel
    else range

/-- `clean_sort_range`: the array and the number of used slots -/
def cleanSortRange (range : List Slot) : Option (List Slot × Nat) :=
  let range := compact range 0 (range.length - 1) range.length
  let nrRange := (emptySlot range).getD range.length
  (sort cmpRange (range.take nrRange)).map fun sorted => (sorted ++ range.drop nrRange, nrRange)

namespace Slot

def Contains (r : Slot) (x : Nat) : Prop := r.start ≤ x ∧ x < r.end_

instance (r : Slot) (x : Nat) : Decidable (r.Contains x) := inferInstanceAs (Decidable (_ ∧ _))

/-- An empty slot, or one with a number in it. -/
def Ok (r : Slot) : Prop := r.end_ = 0 ∨ r.start < r.end_

end Slot

/-- How many slots hold a number. -/
def cover (range : List Slot) (x : Nat) : Nat := range.countP (·.Contains x)

/-- How many slots are not empty. -/
def used (range : List Slot) : Nat := range.countP (·.end_ ≠ 0)

theorem countP_set_add (p : Slot → Bool) {range : List Slot} {j : Nat} {r : Slot}
    (here : range[j]? = some r) (r' : Slot) :
    (range.set j r').countP p + (if p r then 1 else 0) = range.countP p + if p r' then 1 else 0 := by
  obtain ⟨inside, rfl⟩ := List.getElem?_eq_some_iff.mp here
  have pos : p range[j] = true → 0 < range.countP p := fun h =>
    List.countP_pos_iff.mpr ⟨_, List.getElem_mem inside, h⟩
  rw [List.countP_set inside]
  split
  · have := pos ‹_›
    omega
  · omega

theorem cover_set {range : List Slot} {j : Nat} {r : Slot} (here : range[j]? = some r) (r' : Slot)
    (x : Nat) :
    cover (range.set j r') x + (if r.Contains x then 1 else 0) =
      cover range x + if r'.Contains x then 1 else 0 := by
  have := countP_set_add (·.Contains x) here r'
  simpa [cover] using this

theorem used_set {range : List Slot} {j : Nat} {r : Slot} (here : range[j]? = some r) (r' : Slot) :
    used (range.set j r') + (if r.end_ ≠ 0 then 1 else 0) =
      used range + if r'.end_ ≠ 0 then 1 else 0 := by
  have := countP_set_add (·.end_ ≠ 0) here r'
  simpa [used] using this

end XcKernel.Range
