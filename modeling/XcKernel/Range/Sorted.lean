import XcKernel.Range.Sort
import Mathlib.Data.List.GetD

/-!
# The array is sorted

When the comparison is the sign of a total preorder, `sort` leaves the array in
ascending order.  The first phase makes a heap from the back to the front; the
second phase takes the greatest element off the heap and puts it before the
sorted rest.
-/

namespace XcKernel.Range

variable {α : Type*}

/-- The comparison is the sign of the total preorder `le`. -/
structure Compares (cmpFunc : α → α → Int) (le : α → α → Prop) : Prop where
  total : ∀ x y, le x y ∨ le y x
  trans : ∀ {x y z}, le x y → le y z → le x z
  sign : ∀ x y, cmpFunc x y < 0 ↔ ¬ le y x

variable {cmpFunc : α → α → Int} {le : α → α → Prop}

theorem Compares.refl (cmp : Compares cmpFunc le) (x : α) : le x x :=
  (cmp.total x x).elim id id

theorem Compares.le_of_neg (cmp : Compares cmpFunc le) {x y : α} (neg : cmpFunc x y < 0) : le x y :=
  (cmp.total x y).resolve_right ((cmp.sign x y).mp neg)

theorem Compares.le_of_not_neg (cmp : Compares cmpFunc le) {x y : α} (nonneg : ¬ cmpFunc x y < 0) :
    le y x :=
  not_not.mp fun h => nonneg ((cmp.sign x y).mpr h)

/-- `c` is a child of `i`. -/
def IsChild (i c : Nat) : Prop := c = 2 * i + 1 ∨ c = 2 * i + 2

/-- From `lo` on, no place of the first `n` is below its children. -/
def HeapFrom (le : α → α → Prop) (g : Nat → α) (n lo : Nat) : Prop :=
  ∀ i c, lo ≤ i → IsChild i c → c < n → le (g c) (g i)

/-- A heap but for the place `r`, whose children stay below its parent. -/
structure HeapBut (le : α → α → Prop) (g : Nat → α) (n lo r : Nat) : Prop where
  except : ∀ i c, lo ≤ i → i ≠ r → IsChild i c → c < n → le (g c) (g i)
  grand : ∀ i c, lo ≤ i → IsChild i r → IsChild r c → c < n → le (g c) (g i)

theorem HeapFrom.le_root (cmp : Compares cmpFunc le) {g : Nat → α} {n : Nat}
    (heap : HeapFrom le g n 0) (k : Nat) (inside : k < n) : le (g k) (g 0) := by
  induction k using Nat.strongRecOn with
  | ind k ih =>
    by_cases root : k = 0
    · subst root
      exact cmp.refl _
    · have child : IsChild ((k - 1) / 2) k := by
        unfold IsChild
        omega
      exact cmp.trans (heap _ k (Nat.zero_le _) child inside) (ih _ (by omega) (by omega))

variable {d : α} {base base' : List α} {n r : Nat}

theorem getD_swap {i j : Nat} (hi : i < base.length) (hj : j < base.length)
    (swapped : swap base i j = some base') (k : Nat) :
    base'.getD k d = if k = j then base.getD i d else if k = i then base.getD j d else base.getD k d := by
  rw [swap, List.getElem?_eq_getElem hi, List.getElem?_eq_getElem hj] at swapped
  obtain rfl := Option.some.inj swapped
  simp only [List.getD_eq_getElem?_getD, List.getElem?_set, List.length_set]
  by_cases eqj : j = k
  · subst eqj
    simp [hj, hi]
  · by_cases eqi : i = k
    · subst eqi
      simp [eqj, Ne.symm eqj, hi, hj]
    · simp [eqj, eqi, Ne.symm eqj, Ne.symm eqi]

theorem child_greatest (cmp : Compares cmpFunc le) (left : r * 2 + 1 < n) (small : n ≤ base.length)
    {c : Nat} (chosen : child cmpFunc base n (r * 2 + 1) = some c) :
    IsChild r c ∧ c < n ∧ ∀ c', IsChild r c' → c' < n → le (base.getD c' d) (base.getD c d) := by
  unfold child at chosen
  split at chosen
  · rename_i two
    rw [List.getElem?_eq_getElem (by omega), List.getElem?_eq_getElem (by omega)] at chosen
    dsimp only at chosen
    have first : base.getD (r * 2 + 1) d = base[r * 2 + 1] := List.getD_eq_getElem _ _ (by omega)
    have second : base.getD (r * 2 + 1 + 1) d = base[r * 2 + 1 + 1] := List.getD_eq_getElem _ _ (by omega)
    have both : ∀ c', IsChild r c' → c' = r * 2 + 1 ∨ c' = r * 2 + 1 + 1 := by
      intro c' h
      unfold IsChild at h
      omega
    split at chosen
    · rename_i less
      obtain rfl := Option.some.inj chosen
      refine ⟨.inr (by omega), two, fun c' h _ => ?_⟩
      rcases both c' h with rfl | rfl
      · rw [first, second]
        exact cmp.le_of_neg less
      · exact cmp.refl _
    · rename_i notLess
      obtain rfl := Option.some.inj chosen
      refine ⟨.inl (by omega), left, fun c' h _ => ?_⟩
      rcases both c' h with rfl | rfl
      · exact cmp.refl _
      · rw [first, second]
        exact cmp.le_of_not_neg notLess
  · rename_i one
    obtain rfl := Option.some.inj chosen
    refine ⟨.inl (by omega), left, fun c' h inside => ?_⟩
    unfold IsChild at h
    obtain rfl : c' = r * 2 + 1 := by omega
    exact cmp.refl _

/-- The element at the hole changes places with the greater child, and the hole
is one level below. -/
theorem HeapBut.sink {g g' : Nat → α} {lo c : Nat} (but : HeapBut le g n lo r) (above : lo ≤ r)
    (child : IsChild r c) (greatest : ∀ c', IsChild r c' → c' < n → le (g c') (g c))
    (less : le (g r) (g c)) (swapped : ∀ k, g' k = if k = c then g r else if k = r then g c else g k)
    (inside : c < n) : HeapBut le g' n lo c := by
  have down : r < c := by
    unfold IsChild at child
    omega
  constructor
  · intro i c' low ne child' inside'
    have off : c' ≠ i := by
      unfold IsChild at child'
      omega
    rw [swapped c', swapped i, if_neg ne]
    by_cases here : i = r
    · subst here
      rw [if_pos rfl, if_neg off]
      split_ifs
      · exact less
      · exact greatest c' child' inside'
    · have notChild : c' ≠ c := by
        unfold IsChild at child child'
        omega
      rw [if_neg notChild, if_neg here]
      split_ifs with parent
      · subst parent
        exact but.grand i c low child' child inside
      · exact but.except i c' low here child' inside'
  · intro i c' low child' grandchild inside'
    obtain rfl : i = r := by
      unfold IsChild at child child'
      omega
    have offC : c' ≠ c := by
      unfold IsChild at grandchild
      omega
    have offR : c' ≠ i := by
      unfold IsChild at grandchild
      omega
    rw [swapped c', swapped i, if_neg offC, if_neg offR, if_neg (by omega), if_pos rfl]
    exact but.except c c' (by omega) (by omega) grandchild inside'

/-- What sifting leaves: a heap of the same elements, with the rest of the array as it was. -/
structure Sifts (le : α → α → Prop) (g g' : Nat → α) (n lo : Nat) : Prop where
  heap : HeapFrom le g' n lo
  rest : ∀ k, n ≤ k → g' k = g k
  all : ∀ {Q : α → Prop}, (∀ k < n, Q (g k)) → ∀ k < n, Q (g' k)

theorem siftDown_sifts (cmp : Compares cmpFunc le) {fuel lo : Nat} (small : n ≤ base.length)
    (above : lo ≤ r) (but : HeapBut le (base.getD · d) n lo r)
    (sifted : siftDown cmpFunc n base r fuel = some base') :
    Sifts le (base.getD · d) (base'.getD · d) n lo := by
  induction fuel generalizing base r with
  | zero => cases sifted
  | succ fuel ih =>
    rw [siftDown] at sifted
    split at sifted
    · rename_i left
      obtain ⟨c, chosen, -, -⟩ := child_spec cmpFunc left small
      obtain ⟨child, inside, greatest⟩ := child_greatest (d := d) cmp left small chosen
      have here : r < base.length := by omega
      have there : c < base.length := by omega
      have gr : base.getD r d = base[r] := List.getD_eq_getElem _ _ here
      have gc : base.getD c d = base[c] := List.getD_eq_getElem _ _ there
      rw [chosen] at sifted
      dsimp only at sifted
      rw [List.getElem?_eq_getElem here, List.getElem?_eq_getElem there] at sifted
      dsimp only at sifted
      split at sifted
      · rename_i settled
        obtain rfl := Option.some.inj sifted
        refine ⟨fun i c' low child' inside' => ?_, fun _ _ => rfl, fun all => all⟩
        by_cases hole : i = r
        · subst hole
          refine cmp.trans (greatest c' child' inside') ?_
          rw [gr, gc]
          exact cmp.le_of_not_neg (Int.not_lt.mpr settled)
        · exact but.except i c' low hole child' inside'
      · rename_i less
        obtain ⟨base₁, swapped, sifted⟩ := Option.bind_eq_some_iff.mp sifted
        have places := getD_swap (d := d) here there swapped
        obtain ⟨base₂, swapped₂, perm⟩ := swap_perm here there
        have length : base₁.length = base.length := by
          rw [Option.some.inj (swapped.symm.trans swapped₂)]
          exact perm.length_eq
        have lessThan : le (base.getD r d) (base.getD c d) := by
          rw [gr, gc]
          exact cmp.le_of_neg (Int.not_le.mp less)
        have down : r < c := by
          unfold IsChild at child
          omega
        have next := ih (by omega : n ≤ base₁.length) (by omega : lo ≤ c)
          (but.sink above child greatest lessThan places inside) sifted
        refine ⟨next.heap, fun k high => ?_, fun all => next.all fun k low => ?_⟩
        · rw [next.rest k high, places, if_neg (by omega), if_neg (by omega)]
        · rw [places]
          split_ifs
          · exact all r (by omega)
          · exact all c inside
          · exact all k low
    · rename_i leaf
      obtain rfl := Option.some.inj sifted
      refine ⟨fun i c low child inside => ?_, fun _ _ => rfl, fun all => all⟩
      by_cases hole : i = r
      · unfold IsChild at child
        omega
      · exact but.except i c low hole child inside

theorem heapify_heap (cmp : Compares cmpFunc le) {i : Nat}
    (heap : HeapFrom le (base.getD · d) base.length i)
    (heaped : heapify cmpFunc base i = some base') :
    HeapFrom le (base'.getD · d) base'.length 0 := by
  induction i generalizing base with
  | zero =>
    obtain rfl := Option.some.inj heaped
    exact heap
  | succ i ih =>
    obtain ⟨base₁, sifted, heaped⟩ := Option.bind_eq_some_iff.mp heaped
    obtain ⟨base₂, sifted₂, perm⟩ := siftDown_perm cmpFunc (Nat.le_refl base.length)
      (Nat.succ_pos base.length) (by omega : base.length ≤ i + (base.length + 1))
    have length : base₁.length = base.length := by
      rw [Option.some.inj (sifted.symm.trans sifted₂)]
      exact perm.length_eq
    have but : HeapBut le (base.getD · d) base.length i i := by
      refine ⟨fun j c low ne => heap j c (by omega), fun j c low child => ?_⟩
      unfold IsChild at child
      omega
    have sifts := siftDown_sifts cmp (Nat.le_refl _) (Nat.le_refl i) but sifted
    exact ih (by rw [length]; exact sifts.heap) heaped

/-- The first places are a heap, the others are sorted and above it. -/
structure Sorting (le : α → α → Prop) (g : Nat → α) (length i : Nat) : Prop where
  heap : HeapFrom le g (i + 1) 0
  sorted : ∀ j k, i < j → j ≤ k → k < length → le (g j) (g k)
  above : ∀ j k, j ≤ i → i < k → k < length → le (g j) (g k)

theorem Sorting.step (cmp : Compares cmpFunc le) {g g₁ g' : Nat → α} {length i : Nat}
    (sorting : Sorting le g length (i + 1))
    (swapped : ∀ k, g₁ k = if k = i + 1 then g 0 else if k = 0 then g (i + 1) else g k)
    (sifts : Sifts le g₁ g' (i + 1) 0) : Sorting le g' length i := by
  have greatest : ∀ k ≤ i + 1, le (g k) (g 0) := fun k low =>
    sorting.heap.le_root cmp k (by omega)
  -- the rest of the array after the swap: the old root, then the old rest
  have last : g' (i + 1) = g 0 := by rw [sifts.rest _ (Nat.le_refl _), swapped, if_pos rfl]
  have later : ∀ k, i + 1 < k → g' k = g k := fun k high => by
    rw [sifts.rest k (by omega), swapped, if_neg (by omega), if_neg (by omega)]
  have root : ∀ k, i < k → k < length → le (g 0) (g' k) := by
    intro k high low
    by_cases first : k = i + 1
    · rw [first, last]
      exact cmp.refl _
    · rw [later k (by omega)]
      exact sorting.above 0 k (Nat.zero_le _) (by omega) low
  refine ⟨sifts.heap, fun j k low le_ high => ?_, fun j k low high => ?_⟩
  · by_cases first : j = i + 1
    · rw [first, last]
      exact root k (by omega) high
    · rw [later j (by omega), later k (by omega)]
      exact sorting.sorted j k (by omega) le_ high
  · intro inside'
    refine sifts.all (Q := fun x => le x (g' k)) (fun j' low' => ?_) j (by omega)
    refine cmp.trans ?_ (root k high inside')
    rw [swapped, if_neg (by omega)]
    split_ifs
    · exact greatest _ (Nat.le_refl _)
    · exact greatest _ (by omega)

theorem sortHeap_sorted (cmp : Compares cmpFunc le) {i : Nat} (inside : i = 0 ∨ i < base.length)
    (sorting : Sorting le (base.getD · d) base.length i)
    (sorted : sortHeap cmpFunc base i = some base') :
    Sorting le (base'.getD · d) base'.length 0 := by
  induction i generalizing base with
  | zero =>
    obtain rfl := Option.some.inj sorted
    exact sorting
  | succ i ih =>
    obtain ⟨base₁, swapped, sorted⟩ := Option.bind_eq_some_iff.mp sorted
    obtain ⟨base₂, sifted, sorted⟩ := Option.bind_eq_some_iff.mp sorted
    obtain ⟨base₁', swapped', perm₁⟩ :=
      swap_perm (by omega : 0 < base.length) (by omega : i + 1 < base.length)
    obtain rfl := Option.some.inj (swapped.symm.trans swapped')
    have length₁ := perm₁.length_eq
    obtain ⟨base₂', sifted', perm₂⟩ := siftDown_perm cmpFunc (r := 0)
      (by omega : i + 1 ≤ base₁.length) (Nat.succ_pos base₁.length) (by omega)
    obtain rfl := Option.some.inj (sifted.symm.trans sifted')
    have length₂ := perm₂.length_eq
    have places := getD_swap (d := d) (by omega : 0 < base.length) (by omega : i + 1 < base.length)
      swapped
    have but : HeapBut le (base₁.getD · d) (i + 1) 0 0 := by
      refine ⟨fun j c _ ne child low => ?_, fun j c _ child => ?_⟩
      · have := child
        unfold IsChild at this
        rw [places, places, if_neg (by omega), if_neg (by omega), if_neg (by omega), if_neg ne]
        exact sorting.heap j c (Nat.zero_le _) child (by omega)
      · unfold IsChild at child
        omega
    have sifts := siftDown_sifts cmp (by omega) (Nat.le_refl 0) but sifted
    refine ih (by omega) ?_ sorted
    rw [length₂, length₁]
    exact sorting.step cmp places sifts

theorem sort_sorted (cmp : Compares cmpFunc le) (base : List α) :
    ∃ base', sort cmpFunc base = some base' ∧ base'.Perm base ∧ base'.Pairwise le := by
  obtain ⟨base', sorts, perm⟩ := sort_perm cmpFunc base
  refine ⟨base', sorts, perm, ?_⟩
  cases base with
  | nil =>
    rw [perm.eq_nil]
    exact .nil
  | cons d rest =>
    obtain ⟨base₁, heaped, sorted⟩ := Option.bind_eq_some_iff.mp sorts
    obtain ⟨base₁', heaped', perm₁⟩ := heapify_perm cmpFunc (d :: rest) ((d :: rest).length / 2)
    obtain rfl := Option.some.inj (heaped.symm.trans heaped')
    have length₁ := perm₁.length_eq
    rw [List.length_cons] at length₁
    have leaves : HeapFrom le ((d :: rest).getD · d) (d :: rest).length ((d :: rest).length / 2) := by
      intro i c low child inside
      unfold IsChild at child
      omega
    have heap := heapify_heap cmp leaves heaped
    have final := sortHeap_sorted (d := d) cmp (by omega) ⟨by
        rw [show base₁.length - 1 + 1 = base₁.length by omega]
        exact heap, fun j k low le_ high => by omega, fun j k _ low high => by omega⟩ sorted
    rw [List.pairwise_iff_getElem]
    intro j k hj hk lt
    rw [← List.getD_eq_getElem base' d hj, ← List.getD_eq_getElem base' d hk]
    by_cases first : j = 0
    · exact final.above j k (by omega) (by omega) hk
    · exact final.sorted j k (by omega) (Nat.le_of_lt lt) hk

/-! `sort` looks at an element through the comparison only, so the comparison has to
be an order on the elements of the array and need not be one elsewhere. -/

section Map

variable {β : Type*} (f : β → α)

theorem swap_map (base : List β) (i j : Nat) :
    swap (base.map f) i j = (swap base i j).map (List.map f) := by
  unfold swap
  rw [List.getElem?_map, List.getElem?_map]
  cases base[i]? with
  | none => rfl
  | some x =>
    cases base[j]? with
    | none => rfl
    | some y => simp [List.map_set]

theorem child_map (cmpFunc : α → α → Int) (base : List β) (n c : Nat) :
    child cmpFunc (base.map f) n c = child (fun x y => cmpFunc (f x) (f y)) base n c := by
  unfold child
  rw [List.getElem?_map, List.getElem?_map]
  cases base[c]? <;> cases base[c + 1]? <;> rfl

theorem siftDown_map (cmpFunc : α → α → Int) (n : Nat) (base : List β) (r fuel : Nat) :
    siftDown cmpFunc n (base.map f) r fuel =
      (siftDown (fun x y => cmpFunc (f x) (f y)) n base r fuel).map (List.map f) := by
  induction fuel generalizing base r with
  | zero => rfl
  | succ fuel ih =>
    rw [siftDown, siftDown, child_map]
    split
    · cases child (fun x y => cmpFunc (f x) (f y)) base n (r * 2 + 1) with
      | none => rfl
      | some c =>
        dsimp only
        rw [List.getElem?_map, List.getElem?_map]
        cases base[r]? with
        | none => rfl
        | some x =>
          cases base[c]? with
          | none => rfl
          | some y =>
            dsimp only [Option.map_some]
            split
            · rfl
            · rw [swap_map]
              cases swap base r c with
              | none => rfl
              | some base' => exact ih base' c
    · rfl

theorem heapify_map (cmpFunc : α → α → Int) (base : List β) (i : Nat) :
    heapify cmpFunc (base.map f) i =
      (heapify (fun x y => cmpFunc (f x) (f y)) base i).map (List.map f) := by
  induction i generalizing base with
  | zero => rfl
  | succ i ih =>
    rw [heapify, heapify, siftDown_map, List.length_map]
    cases siftDown (fun x y => cmpFunc (f x) (f y)) base.length base i (base.length + 1) with
    | none => rfl
    | some base' => exact ih base'

theorem sortHeap_map (cmpFunc : α → α → Int) (base : List β) (i : Nat) :
    sortHeap cmpFunc (base.map f) i =
      (sortHeap (fun x y => cmpFunc (f x) (f y)) base i).map (List.map f) := by
  induction i generalizing base with
  | zero => rfl
  | succ i ih =>
    rw [sortHeap, sortHeap, swap_map]
    cases swap base 0 (i + 1) with
    | none => rfl
    | some base₁ =>
      dsimp only [Option.map_some, Option.bind_some]
      rw [siftDown_map, List.length_map]
      cases siftDown (fun x y => cmpFunc (f x) (f y)) (i + 1) base₁ 0 (base₁.length + 1) with
      | none => rfl
      | some base₂ => exact ih base₂

theorem sort_map (cmpFunc : α → α → Int) (base : List β) :
    sort cmpFunc (base.map f) = (sort (fun x y => cmpFunc (f x) (f y)) base).map (List.map f) := by
  rw [sort, sort, heapify_map, List.length_map]
  cases heapify (fun x y => cmpFunc (f x) (f y)) base (base.length / 2) with
  | none => rfl
  | some base' =>
    dsimp only [Option.map_some, Option.bind_some]
    rw [sortHeap_map, List.length_map]

end Map

/-- On the elements of a kind the comparison is the sign of the total preorder `le`. -/
structure ComparesOn (kind : α → Prop) (cmpFunc : α → α → Int) (le : α → α → Prop) : Prop where
  total : ∀ x y, kind x → kind y → le x y ∨ le y x
  trans : ∀ x y z, kind x → kind y → kind z → le x y → le y z → le x z
  sign : ∀ x y, kind x → kind y → (cmpFunc x y < 0 ↔ ¬ le y x)

theorem sort_sorted_on {kind : α → Prop} (cmp : ComparesOn kind cmpFunc le) (base : List α)
    (members : ∀ x ∈ base, kind x) :
    ∃ base', sort cmpFunc base = some base' ∧ base'.Perm base ∧ base'.Pairwise le := by
  have compares : Compares (fun x y : { x // kind x } => cmpFunc x.1 y.1)
      (fun x y => le x.1 y.1) :=
    ⟨fun x y => cmp.total x y x.2 y.2, fun {x y z} => cmp.trans x y z x.2 y.2 z.2,
      fun x y => cmp.sign x y x.2 y.2⟩
  obtain ⟨sorted, sorts, perm, ascending⟩ := sort_sorted compares (base.attachWith kind members)
  have same : (base.attachWith kind members).map Subtype.val = base :=
    List.attachWith_map_subtype_val members
  refine ⟨sorted.map Subtype.val, ?_, ?_, ?_⟩
  · conv_lhs => rw [← same]
    rw [sort_map, sorts]
    rfl
  · conv_rhs => rw [← same]
    exact perm.map Subtype.val
  · exact List.pairwise_map.mpr ascending

end XcKernel.Range
