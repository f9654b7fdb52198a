import XcKernel.E820.Basic
import Mathlib.Algebra.Order.BigOperators.Group.List
import Mathlib.Data.List.Nodup
import Mathlib.Data.List.Perm.Subperm

/-!
# Change points and overlapping entries

Which entries overlap after a number of change points depends only on which
points have been met.  Between two addresses these are the entries that contain
the addresses there; at one address they lie between the entries that contain
the address before it and those that contain the address itself.
-/

namespace XcKernel.E820

open Word Mm

/-- The greatest value of a function on a set, 0 if there is none. -/
structure Greatest {α : Type*} (S : α → Prop) (f : α → Nat) (t : Nat) : Prop where
  le : ∀ i, S i → f i ≤ t
  attained : t = 0 ∨ ∃ i, S i ∧ f i = t

theorem Greatest.mono {α : Type*} {S S' : α → Prop} {f : α → Nat} {t t' : Nat} (h : Greatest S f t)
    (h' : Greatest S' f t') (sub : ∀ i, S i → S' i) : t ≤ t' := by
  rcases h.attained with zero | ⟨i, inside, value⟩
  · omega
  · exact value ▸ h'.le i (sub i inside)

theorem Greatest.unique {α : Type*} {S S' : α → Prop} {f : α → Nat} {t t' : Nat} (h : Greatest S f t)
    (h' : Greatest S' f t') (same : ∀ i, S i ↔ S' i) : t = t' :=
  le_antisymm (h.mono h' fun i => (same i).mp) (h'.mono h fun i => (same i).mpr)

theorem greatest_foldl {α : Type*} (f : α → Nat) (l : List α) (start : Nat) :
    (∀ i ∈ l, f i ≤ l.foldl (fun t i => max t (f i)) start) ∧
      start ≤ l.foldl (fun t i => max t (f i)) start ∧
      (l.foldl (fun t i => max t (f i)) start = start ∨
        ∃ i ∈ l, f i = l.foldl (fun t i => max t (f i)) start) := by
  induction l generalizing start with
  | nil => exact ⟨by simp, le_rfl, .inl rfl⟩
  | cons x l ih =>
    obtain ⟨upper, above, attained⟩ := ih (max start (f x))
    rw [List.foldl_cons]
    refine ⟨fun i member => ?_, (le_max_left _ _).trans above, ?_⟩
    · rcases List.mem_cons.mp member with rfl | later
      · exact (le_max_right _ _).trans above
      · exact upper i later
    · rcases attained with same | ⟨i, member, value⟩
      · rcases max_choice start (f x) with left | right
        · exact .inl (same.trans left)
        · exact .inr ⟨x, List.mem_cons_self, (same.trans right).symm⟩
      · exact .inr ⟨i, List.mem_cons_of_mem x member, value⟩

theorem Greatest.of_foldl {α : Type*} (f : α → Nat) (l : List α) :
    Greatest (· ∈ l) f (l.foldl (fun t i => max t (f i)) 0) := by
  obtain ⟨upper, -, attained⟩ := greatest_foldl f l 0
  exact ⟨upper, attained⟩

variable {bios : List E820Entry}

theorem overlapType_greatest (l : List Nat) :
    Greatest (· ∈ l) (fun i => (entry bios i).type) (overlapType bios l) := by
  have same : (fun (currentType : Nat) (i : Nat) =>
      if (entry bios i).type > currentType then (entry bios i).type else currentType) =
      fun t i => max t (entry bios i).type := by
    funext t i
    split <;> omega
  rw [overlapType, same]
  exact .of_foldl _ l

def E820Entry.Contains (e : E820Entry) (x : Nat) : Prop := e.addr ≤ x ∧ x < e.addr + e.size

instance (e : E820Entry) (x : Nat) : Decidable (e.Contains x) := inferInstanceAs (Decidable (_ ∧ _))

/-- The greatest type of the entries that contain an address, 0 if there is none. -/
def typeAt (bios : List E820Entry) (x : Nat) : Nat :=
  (bios.filter (·.Contains x)).foldl (fun t e => max t e.type) 0

/-- The entry is in the map and not empty. -/
def Live (bios : List E820Entry) (i : Nat) : Prop := i < bios.length ∧ (entry bios i).size ≠ 0

theorem entry_mem {i : Nat} (inside : i < bios.length) : entry bios i ∈ bios := by
  rw [entry, List.getD_eq_getElem _ _ inside]
  exact List.getElem_mem inside

theorem live_of_contains {i x : Nat} (contains : (entry bios i).Contains x) : Live bios i := by
  have size : (entry bios i).size ≠ 0 := by
    have := contains.1.trans_lt contains.2
    omega
  refine ⟨?_, size⟩
  by_contra outside
  rw [entry, List.getD_eq_default _ _ (not_lt.mp outside)] at size
  exact size rfl

theorem typeAt_greatest (bios : List E820Entry) (x : Nat) :
    Greatest (fun i => (entry bios i).Contains x) (fun i => (entry bios i).type) (typeAt bios x) := by
  have list := Greatest.of_foldl (·.type) (bios.filter (·.Contains x))
  refine ⟨fun i contains => ?_, list.attained.imp id ?_⟩
  · refine list.le _ (List.mem_filter.mpr ⟨entry_mem (live_of_contains contains).1, ?_⟩)
    simpa using contains
  · rintro ⟨e, member, value⟩
    obtain ⟨member, contains⟩ := List.mem_filter.mp member
    obtain ⟨i, inside, rfl⟩ := List.getElem_of_mem member
    have same : entry bios i = bios[i] := List.getD_eq_getElem _ _ inside
    exact ⟨i, by rw [same]; simpa using contains, by rw [same]; exact value⟩

/-- No entry runs over the end of the address space. -/
def NoWrap (bios : List E820Entry) : Prop := ∀ e ∈ bios, e.addr + e.size < 2 ^ 64

instance (bios : List E820Entry) : Decidable (NoWrap bios) :=
  inferInstanceAs (Decidable (∀ e ∈ bios, _))

def startOf (bios : List E820Entry) (i : Nat) : ChangeMember := ⟨i, (entry bios i).addr⟩

def endOf (bios : List E820Entry) (i : Nat) : ChangeMember :=
  ⟨i, (entry bios i).addr + (entry bios i).size⟩

theorem changePointsOf_eq (noWrap : NoWrap bios) {i : Nat} (inside : i < bios.length) :
    changePointsOf bios i =
      if (entry bios i).size ≠ 0 then [startOf bios i, endOf bios i] else [] := by
  have sum : u64 ((entry bios i).addr + (entry bios i).size) =
      (entry bios i).addr + (entry bios i).size := wrap_of_lt (noWrap _ (entry_mem inside))
  rw [changePointsOf, sum]
  rfl

theorem mem_changePoints (noWrap : NoWrap bios) {c : ChangeMember} :
    c ∈ changePoints bios ↔ ∃ i, Live bios i ∧ (c = startOf bios i ∨ c = endOf bios i) := by
  simp only [changePoints, List.mem_flatMap, List.mem_range]
  constructor
  · rintro ⟨i, inside, member⟩
    rw [changePointsOf_eq noWrap inside] at member
    split at member
    · rename_i size
      exact ⟨i, ⟨inside, size⟩, by simpa using member⟩
    · cases member
  · rintro ⟨i, ⟨inside, size⟩, which⟩
    refine ⟨i, inside, ?_⟩
    rw [changePointsOf_eq noWrap inside, if_pos size]
    simpa using which

theorem nodup_changePoints (noWrap : NoWrap bios) : (changePoints bios).Nodup := by
  refine List.nodup_flatMap.mpr ⟨fun i inside => ?_, ?_⟩
  · rw [changePointsOf_eq noWrap (List.mem_range.mp inside)]
    split
    · rename_i size
      simpa [startOf, endOf] using size
    · exact .nil
  · refine List.nodup_range.pairwise_of_forall_ne fun i hi j hj ne => ?_
    change List.Disjoint (changePointsOf bios i) (changePointsOf bios j)
    rw [changePointsOf_eq noWrap (List.mem_range.mp hi),
      changePointsOf_eq noWrap (List.mem_range.mp hj)]
    intro c left right
    have pi : c.pbios = i := by
      split at left
      · simp only [List.mem_cons, List.not_mem_nil, or_false] at left
        rcases left with rfl | rfl <;> rfl
      · cases left
    have pj : c.pbios = j := by
      split at right
      · simp only [List.mem_cons, List.not_mem_nil, or_false] at right
        rcases right with rfl | rfl <;> rfl
      · cases right
    exact ne (pi.symm.trans pj)

@[simp] theorem isStart_startOf (i : Nat) : isStart bios (startOf bios i) = true := by
  simp [isStart, startOf]

theorem isStart_endOf {i : Nat} (live : Live bios i) : isStart bios (endOf bios i) = false := by
  simpa [isStart, endOf] using live.2

theorem pointKey_startOf (i : Nat) : pointKey bios (startOf bios i) = 2 * (entry bios i).addr := by
  simp [pointKey, startOf, isStart]

theorem pointKey_endOf {i : Nat} (live : Live bios i) :
    pointKey bios (endOf bios i) = 2 * ((entry bios i).addr + (entry bios i).size) + 1 := by
  rw [pointKey, isStart_endOf live]
  rfl

theorem addr_le_of_key {c d : ChangeMember} (le : pointKey bios c ≤ pointKey bios d) :
    c.addr ≤ d.addr := by
  unfold pointKey at le
  split at le <;> split at le <;> omega

theorem sortPoints_spec (points : List ChangeMember) :
    (sortPoints bios points).Perm points ∧
      (sortPoints bios points).Pairwise fun c d => pointKey bios c ≤ pointKey bios d := by
  induction points using sortPoints.induct bios with
  | case1 points changing ih =>
    rw [sortPoints, dif_pos changing]
    exact ⟨ih.1.trans (Bubble.pass_perm _ points), ih.2⟩
  | case2 points quiet =>
    rw [sortPoints, dif_neg quiet]
    obtain ⟨same, sorted⟩ := Bubble.pass_sorted (swapPoints_iff bios) (by simpa using quiet)
    rw [same]
    exact ⟨.refl points, sorted⟩

/-- The loop `while (still_changing)` over the array, in at most some number of rounds -/
def sortLoop (biosmap : List E820Entry) (rounds : Nat) (points : List ChangeMember) :
    Option (List ChangeMember) :=
  Bubble.repeatPass (swapPoints biosmap) rounds points

/-- The point is the start, or the end, of an entry. -/
def IsStart (bios : List E820Entry) (c : ChangeMember) : Prop := ∃ i < bios.length, c = startOf bios i

def IsEnd (bios : List E820Entry) (c : ChangeMember) : Prop := ∃ i < bios.length, c = endOf bios i

theorem length_changePoints_le (bios : List E820Entry) :
    (changePoints bios).length ≤ 2 * bios.length := by
  rw [changePoints, List.length_flatMap]
  have each : ∀ x ∈ (List.range bios.length).map fun i => (changePointsOf bios i).length, x ≤ 2 := by
    intro x member
    obtain ⟨i, -, rfl⟩ := List.mem_map.mp member
    rw [changePointsOf]
    split <;> simp
  have sum := List.sum_le_card_nsmul _ 2 each
  rw [List.length_map, List.length_range] at sum
  exact sum.trans_eq (Nat.mul_comm _ _)

theorem sortLoop_eq {rounds : Nat} {points : List ChangeMember}
    (enough : Bubble.inversions (pointKey bios) points < rounds) :
    sortLoop bios rounds points = some (sortPoints bios points) := by
  induction rounds generalizing points with
  | zero => exact absurd enough (Nat.not_lt_zero _)
  | succ rounds ih =>
    rw [sortLoop, Bubble.repeatPass, Bubble.indexPass_eq, sortPoints]
    split
    · rename_i swapped
      exact ih (by have := Bubble.pass_inversions (swapPoints_iff bios) swapped; omega)
    · rfl

/-- However the points tie, the loop ends, and leaves them in the order of their
addresses with starts before ends. -/
theorem change_point_sort (noWrap : NoWrap bios) (proper : ∀ e ∈ bios, e.size ≠ 0) {rounds : Nat}
    (enough : (2 * bios.length) * (2 * bios.length) < rounds) :
    ∃ sorted, sortLoop bios rounds (changePoints bios) = some sorted ∧
      sorted = sortPoints bios (changePoints bios) ∧
      sorted.Perm (changePoints bios) ∧
      (∀ c ∈ sorted, IsStart bios c ∨ IsEnd bios c) ∧
      sorted.Pairwise (fun c d => c.addr ≤ d.addr) ∧
      sorted.Pairwise fun c d => c.addr = d.addr → ¬ (IsEnd bios c ∧ IsStart bios d) := by
  have short := length_changePoints_le bios
  have few := @Bubble.inversions_le _ (pointKey bios) (changePoints bios)
  obtain ⟨perm, ascending⟩ := @sortPoints_spec bios (changePoints bios)
  refine ⟨_, sortLoop_eq ((few.trans (Nat.mul_le_mul short short)).trans_lt enough), rfl, perm,
    fun c member => ?_, ascending.imp addr_le_of_key, ascending.imp ?_⟩
  · rw [perm.mem_iff, mem_changePoints noWrap] at member
    obtain ⟨i, ⟨inside, -⟩, start | end_⟩ := member
    · exact .inl ⟨i, inside, start⟩
    · exact .inr ⟨i, inside, end_⟩
  · rintro c d le same ⟨⟨i, inside, rfl⟩, j, -, rfl⟩
    have live : Live bios i := ⟨inside, proper _ (entry_mem inside)⟩
    rw [pointKey_endOf live, pointKey_startOf] at le
    have here : (entry bios i).addr + (entry bios i).size = (entry bios j).addr := same
    omega

/-- Three entries, the second of which ends where the others start. -/
theorem change_point_sort_ties :
    let bios : List E820Entry := [⟨8, 4, 1⟩, ⟨4, 4, 2⟩, ⟨8, 4, 1⟩]
    NoWrap bios ∧ (∀ e ∈ bios, e.size ≠ 0) ∧
      sortLoop bios 37 (changePoints bios) =
        some [⟨1, 4⟩, ⟨0, 8⟩, ⟨2, 8⟩, ⟨1, 8⟩, ⟨0, 12⟩, ⟨2, 12⟩] ∧
      ∃ sorted, sortLoop bios 37 (changePoints bios) = some sorted ∧
        sorted.Pairwise fun c d => c.addr = d.addr → ¬ (IsEnd bios c ∧ IsStart bios d) := by
  intro bios
  have noWrap : NoWrap bios := by decide
  have proper : ∀ e ∈ bios, e.size ≠ 0 := by decide
  obtain ⟨sorted, returns, -, -, -, -, ties⟩ :=
    change_point_sort noWrap proper (show (2 * bios.length) * (2 * bios.length) < 37 by decide)
  exact ⟨noWrap, proper, by decide +kernel, sorted, returns, ties⟩

/-- The points that have been met and those that are left. -/
structure Split (bios : List E820Entry) (pre suf : List ChangeMember) : Prop where
  mem : ∀ c, c ∈ pre ++ suf ↔ ∃ i, Live bios i ∧ (c = startOf bios i ∨ c = endOf bios i)
  nodup : (pre ++ suf).Nodup
  sorted : (pre ++ suf).Pairwise fun c d => pointKey bios c ≤ pointKey bios d

/-- The entry has started and not ended. -/
def Active (bios : List E820Entry) (pre : List ChangeMember) (i : Nat) : Prop :=
  Live bios i ∧ startOf bios i ∈ pre ∧ endOf bios i ∉ pre

theorem split_sortPoints (noWrap : NoWrap bios) :
    Split bios [] (sortPoints bios (changePoints bios)) := by
  obtain ⟨perm, sorted⟩ := @sortPoints_spec bios (changePoints bios)
  refine ⟨fun c => ?_, ?_, sorted⟩
  · rw [List.nil_append, perm.mem_iff, mem_changePoints noWrap]
  · exact perm.nodup_iff.mpr (nodup_changePoints noWrap)

namespace Split

variable {pre suf : List ChangeMember} {i : Nat}

theorem le (h : Split bios pre suf) {c d : ChangeMember} (hc : c ∈ pre) (hd : d ∈ suf) :
    pointKey bios c ≤ pointKey bios d :=
  (List.pairwise_append.mp h.sorted).2.2 c hc d hd

theorem start_cases (h : Split bios pre suf) (live : Live bios i) :
    startOf bios i ∈ pre ∨ startOf bios i ∈ suf :=
  List.mem_append.mp ((h.mem _).mpr ⟨i, live, .inl rfl⟩)

theorem end_cases (h : Split bios pre suf) (live : Live bios i) :
    endOf bios i ∈ pre ∨ endOf bios i ∈ suf :=
  List.mem_append.mp ((h.mem _).mpr ⟨i, live, .inr rfl⟩)

theorem active_iff (h : Split bios pre suf) {x : Nat} (low : ∀ c ∈ pre, c.addr ≤ x)
    (high : ∀ d ∈ suf, x < d.addr) : Active bios pre i ↔ (entry bios i).Contains x := by
  constructor
  · rintro ⟨live, started, notEnded⟩
    have := low _ started
    have := high _ ((h.end_cases live).resolve_left notEnded)
    exact ⟨by assumption, by assumption⟩
  · intro contains
    have live := live_of_contains contains
    refine ⟨live, (h.start_cases live).resolve_right fun later => ?_, fun ended => ?_⟩
    · exact absurd (high _ later) (not_lt.mpr contains.1)
    · exact absurd (low _ ended) (not_le.mpr contains.2)

theorem contains_of_active (h : Split bios pre suf) {b : Nat} (low : ∀ c ∈ pre, c.addr ≤ b)
    (high : ∀ d ∈ suf, b ≤ d.addr) (active : Active bios pre i) :
    (entry bios i).Contains b ∨ (0 < b ∧ (entry bios i).Contains (b - 1)) := by
  obtain ⟨live, started, notEnded⟩ := active
  have start : (entry bios i).addr ≤ b := low _ started
  have stop : b ≤ (entry bios i).addr + (entry bios i).size :=
    high _ ((h.end_cases live).resolve_left notEnded)
  have := live.2
  unfold E820Entry.Contains
  omega

/-- Until an entry ends at the address, those that contain the one before are active;
from then on those that contain the address itself. -/
theorem active_of_contains (h : Split bios pre suf) {b : Nat} (pos : 0 < b)
    (low : ∀ c ∈ pre, c.addr ≤ b) (high : ∀ d ∈ suf, b ≤ d.addr) :
    (∀ i, (entry bios i).Contains (b - 1) → Active bios pre i) ∨
      (∀ i, (entry bios i).Contains b → Active bios pre i) := by
  by_cases ends : ∃ j, Live bios j ∧ endOf bios j ∈ pre ∧ (endOf bios j).addr = b
  · obtain ⟨j, livej, ended, here⟩ := ends
    refine .inr fun i contains => ?_
    have live := live_of_contains contains
    refine ⟨live, (h.start_cases live).resolve_right fun later => ?_, fun done => ?_⟩
    · have key := h.le ended later
      rw [pointKey_endOf livej, pointKey_startOf] at key
      have := contains.1
      have : (entry bios j).addr + (entry bios j).size = b := here
      omega
    · exact absurd (low _ done) (not_le.mpr contains.2)
  · refine .inl fun i contains => ?_
    have live := live_of_contains contains
    refine ⟨live, (h.start_cases live).resolve_right fun later => ?_, fun done => ?_⟩
    · have : b ≤ (entry bios i).addr := high _ later
      have := contains.1
      omega
    · have stop : (entry bios i).addr + (entry bios i).size ≤ b := low _ done
      have := contains.2
      exact ends ⟨i, live, done, show (entry bios i).addr + (entry bios i).size = b by omega⟩

/-- Where the type is the same before and at an address it does not change in between. -/
theorem type_eq_of_same (h : Split bios pre suf) {b : Nat} (pos : 0 < b)
    (low : ∀ c ∈ pre, c.addr ≤ b) (high : ∀ d ∈ suf, b ≤ d.addr) {l : List Nat}
    (active : ∀ i, i ∈ l ↔ Active bios pre i) (same : typeAt bios (b - 1) = typeAt bios b) :
    overlapType bios l = typeAt bios b := by
  have now := @overlapType_greatest bios l
  have before := typeAt_greatest bios (b - 1)
  have at_b := typeAt_greatest bios b
  apply le_antisymm
  · rcases now.attained with zero | ⟨i, member, value⟩
    · omega
    · rcases h.contains_of_active low high ((active i).mp member) with here | ⟨-, there⟩
      · exact value ▸ at_b.le i here
      · exact same ▸ value ▸ before.le i there
  · rcases h.active_of_contains pos low high with sub | sub
    · exact same ▸ before.mono now fun i contains => (active i).mpr (sub i contains)
    · exact at_b.mono now fun i contains => (active i).mpr (sub i contains)

end Split

end XcKernel.E820
