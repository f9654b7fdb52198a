import XcKernel.Range.Sorted

/-!
# The pairs that are compared

`sort` sees the order of the elements through its comparisons only: when two
comparison functions decide alike on the pairs that one of them is asked about, the
other one is asked about the same pairs and the array comes out the same.
-/

namespace XcKernel.Range

variable {α : Type*}

/-- The comparison of two children in `child` -/
def childPairs (base : List α) (n c : Nat) : List (α × α) :=
  if c + 1 < n then
    match base[c]?, base[c + 1]? with
    | some x, some y => [(x, y)]
    | _, _ => []
  else []

/-- The pairs that `siftDown` compares. -/
def siftDownPairs (cmpFunc : α → α → Int) (n : Nat) (base : List α) (r : Nat) :
    (fuel : Nat) → List (α × α)
  | 0 => []
  | fuel + 1 =>
    if r * 2 + 1 < n then
      childPairs base n (r * 2 + 1) ++
        match child cmpFunc base n (r * 2 + 1) with
        | none => []
        | some c =>
          match base[r]?, base[c]? with
          | some x, some y =>
            (x, y) ::
              if cmpFunc x y ≥ 0 then []
              else
                match swap base r c with
                | none => []
                | some base => siftDownPairs cmpFunc n base c fuel
          | _, _ => []
    else []

/-- The pairs that `heapify` compares. -/
def heapifyPairs (cmpFunc : α → α → Int) (base : List α) : (i : Nat) → List (α × α)
  | 0 => []
  | i + 1 =>
    siftDownPairs cmpFunc base.length base i (base.length + 1) ++
      match siftDown cmpFunc base.length base i (base.length + 1) with
      | none => []
      | some base => heapifyPairs cmpFunc base i

/-- The pairs that `sortHeap` compares. -/
def sortHeapPairs (cmpFunc : α → α → Int) (base : List α) : (i : Nat) → List (α × α)
  | 0 => []
  | i + 1 =>
    match swap base 0 (i + 1) with
    | none => []
    | some base =>
      siftDownPairs cmpFunc (i + 1) base 0 (base.length + 1) ++
        match siftDown cmpFunc (i + 1) base 0 (base.length + 1) with
        | none => []
        | some base => sortHeapPairs cmpFunc base i

/-- The pairs that `sort` compares, in the order of the comparisons. -/
def sortPairs (cmpFunc : α → α → Int) (base : List α) : List (α × α) :=
  heapifyPairs cmpFunc base (base.length / 2) ++
    match heapify cmpFunc base (base.length / 2) with
    | none => []
    | some base => sortHeapPairs cmpFunc base (base.length - 1)

/-- Two comparisons decide alike on some pairs. -/
def DecideAlike (cmpFunc cmpFunc' : α → α → Int) (pairs : List (α × α)) : Prop :=
  ∀ p ∈ pairs, (cmpFunc p.1 p.2 < 0 ↔ cmpFunc' p.1 p.2 < 0)

variable {cmpFunc cmpFunc' : α → α → Int}

theorem DecideAlike.symm {pairs : List (α × α)} (alike : DecideAlike cmpFunc cmpFunc' pairs) :
    DecideAlike cmpFunc' cmpFunc pairs :=
  fun p member => (alike p member).symm

theorem decideAlike_append {pairs pairs' : List (α × α)} :
    DecideAlike cmpFunc cmpFunc' (pairs ++ pairs') ↔
      DecideAlike cmpFunc cmpFunc' pairs ∧ DecideAlike cmpFunc cmpFunc' pairs' :=
  List.forall_mem_append

theorem decideAlike_cons {p : α × α} {pairs : List (α × α)} :
    DecideAlike cmpFunc cmpFunc' (p :: pairs) ↔
      (cmpFunc p.1 p.2 < 0 ↔ cmpFunc' p.1 p.2 < 0) ∧ DecideAlike cmpFunc cmpFunc' pairs :=
  List.forall_mem_cons

theorem child_congr {base : List α} {n c : Nat}
    (alike : DecideAlike cmpFunc cmpFunc' (childPairs base n c)) :
    child cmpFunc' base n c = child cmpFunc base n c := by
  unfold childPairs at alike
  unfold child
  by_cases two : c + 1 < n
  · rw [if_pos two] at alike ⊢
    rw [if_pos two]
    cases first : base[c]? with
    | none => rfl
    | some x =>
      cases second : base[c + 1]? with
      | none => rfl
      | some y =>
        rw [first, second] at alike
        have decided := alike (x, y) (List.mem_singleton_self _)
        dsimp only at decided ⊢
        simp only [decided]
  · rw [if_neg two, if_neg two]

theorem siftDown_congr {n r fuel : Nat} {base : List α}
    (alike : DecideAlike cmpFunc cmpFunc' (siftDownPairs cmpFunc n base r fuel)) :
    siftDown cmpFunc' n base r fuel = siftDown cmpFunc n base r fuel ∧
      siftDownPairs cmpFunc' n base r fuel = siftDownPairs cmpFunc n base r fuel := by
  induction fuel generalizing base r with
  | zero => exact ⟨rfl, rfl⟩
  | succ fuel ih =>
    rw [siftDownPairs] at alike
    rw [siftDown, siftDown, siftDownPairs, siftDownPairs]
    by_cases inner : r * 2 + 1 < n
    · rw [if_pos inner] at alike
      simp only [if_pos inner]
      obtain ⟨children, rest⟩ := decideAlike_append.mp alike
      rw [child_congr children]
      cases chosen : child cmpFunc base n (r * 2 + 1) with
      | none => exact ⟨rfl, rfl⟩
      | some c =>
        rw [chosen] at rest
        dsimp only at rest ⊢
        cases parent : base[r]? with
        | none => exact ⟨rfl, rfl⟩
        | some x =>
          cases greater : base[c]? with
          | none => exact ⟨rfl, rfl⟩
          | some y =>
            rw [parent, greater] at rest
            obtain ⟨decided, below⟩ := decideAlike_cons.mp rest
            dsimp only at decided below ⊢
            by_cases settled : cmpFunc x y ≥ 0
            · have settled' : cmpFunc' x y ≥ 0 := by omega
              simp only [if_pos settled, if_pos settled', true_and]
            · have less : ¬ cmpFunc' x y ≥ 0 := by omega
              simp only [if_neg settled] at below
              simp only [if_neg settled, if_neg less]
              cases swapped : swap base r c with
              | none => exact ⟨rfl, rfl⟩
              | some base' =>
                rw [swapped] at below
                obtain ⟨same, pairs⟩ := ih below
                dsimp only [Option.bind_some]
                exact ⟨same, by rw [pairs]⟩
    · simp only [if_neg inner, true_and]

theorem heapify_congr {i : Nat} {base : List α}
    (alike : DecideAlike cmpFunc cmpFunc' (heapifyPairs cmpFunc base i)) :
    heapify cmpFunc' base i = heapify cmpFunc base i ∧
      heapifyPairs cmpFunc' base i = heapifyPairs cmpFunc base i := by
  induction i generalizing base with
  | zero => exact ⟨rfl, rfl⟩
  | succ i ih =>
    rw [heapifyPairs] at alike
    obtain ⟨sift, rest⟩ := decideAlike_append.mp alike
    obtain ⟨same, pairs⟩ := siftDown_congr sift
    rw [heapify, heapify, heapifyPairs, heapifyPairs, same, pairs]
    cases sifted : siftDown cmpFunc base.length base i (base.length + 1) with
    | none => exact ⟨rfl, rfl⟩
    | some base' =>
      rw [sifted] at rest
      obtain ⟨same', pairs'⟩ := ih rest
      dsimp only [Option.bind_some]
      exact ⟨same', by rw [pairs']⟩

theorem sortHeap_congr {i : Nat} {base : List α}
    (alike : DecideAlike cmpFunc cmpFunc' (sortHeapPairs cmpFunc base i)) :
    sortHeap cmpFunc' base i = sortHeap cmpFunc base i ∧
      sortHeapPairs cmpFunc' base i = sortHeapPairs cmpFunc base i := by
  induction i generalizing base with
  | zero => exact ⟨rfl, rfl⟩
  | succ i ih =>
    rw [sortHeapPairs] at alike
    rw [sortHeap, sortHeap, sortHeapPairs, sortHeapPairs]
    cases swapped : swap base 0 (i + 1) with
    | none => exact ⟨rfl, rfl⟩
    | some base₁ =>
      rw [swapped] at alike
      obtain ⟨sift, rest⟩ := decideAlike_append.mp alike
      obtain ⟨same, pairs⟩ := siftDown_congr sift
      dsimp only [Option.bind_some]
      rw [same, pairs]
      cases sifted : siftDown cmpFunc (i + 1) base₁ 0 (base₁.length + 1) with
      | none => exact ⟨rfl, rfl⟩
      | some base₂ =>
        rw [sifted] at rest
        obtain ⟨same', pairs'⟩ := ih rest
        dsimp only [Option.bind_some]
        exact ⟨same', by rw [pairs']⟩

theorem sort_congr {base : List α} (alike : DecideAlike cmpFunc cmpFunc' (sortPairs cmpFunc base)) :
    sort cmpFunc' base = sort cmpFunc base ∧ sortPairs cmpFunc' base = sortPairs cmpFunc base := by
  obtain ⟨first, second⟩ := decideAlike_append.mp alike
  obtain ⟨same, pairs⟩ := heapify_congr first
  rw [sort, sort, sortPairs, sortPairs, same, pairs]
  cases heaped : heapify cmpFunc base (base.length / 2) with
  | none => exact ⟨rfl, rfl⟩
  | some base' =>
    rw [heaped] at second
    obtain ⟨same', pairs'⟩ := sortHeap_congr second
    dsimp only [Option.bind_some]
    exact ⟨same', by rw [pairs']⟩

theorem decideAlike_sortPairs_iff {base : List α} :
    DecideAlike cmpFunc cmpFunc' (sortPairs cmpFunc base) ↔
      DecideAlike cmpFunc cmpFunc' (sortPairs cmpFunc' base) := by
  constructor
  · intro alike
    rw [(sort_congr alike).2]
    exact alike
  · intro alike
    rw [(sort_congr alike.symm).2]
    exact alike

theorem perm_of_swap {base base' : List α} {i j : Nat} (swapped : swap base i j = some base') :
    base'.Perm base := by
  unfold swap at swapped
  split at swapped
  · rename_i x y first second
    obtain ⟨hi, rfl⟩ := List.getElem?_eq_some_iff.mp first
    obtain ⟨hj, rfl⟩ := List.getElem?_eq_some_iff.mp second
    obtain rfl := Option.some.inj swapped
    exact List.set_set_perm hi hj
  · cases swapped

theorem perm_of_siftDown {n r fuel : Nat} {base base' : List α}
    (sifted : siftDown cmpFunc n base r fuel = some base') : base'.Perm base := by
  induction fuel generalizing base r with
  | zero => cases sifted
  | succ fuel ih =>
    rw [siftDown] at sifted
    split at sifted
    · split at sifted
      · cases sifted
      · split at sifted
        · split at sifted
          · exact Option.some.inj sifted ▸ .refl base
          · obtain ⟨base₁, swapped, below⟩ := Option.bind_eq_some_iff.mp sifted
            exact (ih below).trans (perm_of_swap swapped)
        · cases sifted
    · exact Option.some.inj sifted ▸ .refl base

theorem perm_of_heapify {i : Nat} {base base' : List α} (heaped : heapify cmpFunc base i = some base') :
    base'.Perm base := by
  obtain ⟨base₁, heaped₁, perm⟩ := heapify_perm cmpFunc base i
  exact Option.some.inj (heaped.symm.trans heaped₁) ▸ perm

/-- Both elements of every pair are in the array. -/
def PairsIn (base : List α) (pairs : List (α × α)) : Prop := ∀ p ∈ pairs, p.1 ∈ base ∧ p.2 ∈ base

theorem pairsIn_nil (base : List α) : PairsIn base [] := fun _ member => absurd member List.not_mem_nil

theorem PairsIn.append {base : List α} {pairs pairs' : List (α × α)} (front : PairsIn base pairs)
    (back : PairsIn base pairs') : PairsIn base (pairs ++ pairs') :=
  List.forall_mem_append.mpr ⟨front, back⟩

theorem PairsIn.of_perm {base base' : List α} {pairs : List (α × α)} (inside : PairsIn base' pairs)
    (perm : base'.Perm base) : PairsIn base pairs :=
  fun p member => ⟨perm.subset (inside p member).1, perm.subset (inside p member).2⟩

theorem childPairs_in (base : List α) (n c : Nat) : PairsIn base (childPairs base n c) := by
  unfold childPairs
  split
  · split
    · rename_i x y first second
      rw [PairsIn, List.forall_mem_singleton]
      exact ⟨List.mem_of_getElem? first, List.mem_of_getElem? second⟩
    · exact pairsIn_nil base
  · exact pairsIn_nil base

theorem siftDownPairs_in (cmpFunc : α → α → Int) (n : Nat) (base : List α) (r fuel : Nat) :
    PairsIn base (siftDownPairs cmpFunc n base r fuel) := by
  induction fuel generalizing base r with
  | zero => exact pairsIn_nil base
  | succ fuel ih =>
    rw [siftDownPairs]
    split
    · refine (childPairs_in base n _).append ?_
      split
      · exact pairsIn_nil base
      · split
        · rename_i x y parent greater
          refine List.forall_mem_cons.mpr
            ⟨⟨List.mem_of_getElem? parent, List.mem_of_getElem? greater⟩, ?_⟩
          split
          · exact pairsIn_nil base
          · split
            · exact pairsIn_nil base
            · exact (ih _ _).of_perm (perm_of_swap ‹_›)
        · exact pairsIn_nil base
    · exact pairsIn_nil base

theorem heapifyPairs_in (cmpFunc : α → α → Int) (base : List α) (i : Nat) :
    PairsIn base (heapifyPairs cmpFunc base i) := by
  induction i generalizing base with
  | zero => exact pairsIn_nil base
  | succ i ih =>
    rw [heapifyPairs]
    refine (siftDownPairs_in cmpFunc _ base i _).append ?_
    split
    · exact pairsIn_nil base
    · exact (ih _).of_perm (perm_of_siftDown ‹_›)

theorem sortHeapPairs_in (cmpFunc : α → α → Int) (base : List α) (i : Nat) :
    PairsIn base (sortHeapPairs cmpFunc base i) := by
  induction i generalizing base with
  | zero => exact pairsIn_nil base
  | succ i ih =>
    rw [sortHeapPairs]
    split
    · exact pairsIn_nil base
    · rename_i base₁ swapped
      refine PairsIn.of_perm ?_ (perm_of_swap swapped)
      refine (siftDownPairs_in cmpFunc _ base₁ 0 _).append ?_
      split
      · exact pairsIn_nil base₁
      · exact (ih _).of_perm (perm_of_siftDown ‹_›)

theorem sortPairs_in (cmpFunc : α → α → Int) (base : List α) :
    PairsIn base (sortPairs cmpFunc base) := by
  refine (heapifyPairs_in cmpFunc base _).append ?_
  split
  · exact pairsIn_nil base
  · exact (sortHeapPairs_in cmpFunc _ _).of_perm (perm_of_heapify ‹_›)

end XcKernel.Range
