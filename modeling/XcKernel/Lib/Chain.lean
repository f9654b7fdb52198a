import Mathlib.Data.List.Basic
import Mathlib.Logic.Function.Basic

/-!
# Linked lists through a next function

A list is given by its first element and a function that maps each element to
the next one; `null` ends it.
-/

namespace XcKernel

variable {α : Type*} {null : α} {next : α → α}

/-- Following `next` from `x` visits the members of `l` and ends at `null`. -/
def Chain (null : α) (next : α → α) : α → List α → Prop
  | x, [] => x = null
  | x, y :: l => x = y ∧ x ≠ null ∧ Chain null next (next x) l

namespace Chain

theorem eq_nil {l : List α} (chain : Chain null next null l) : l = [] := by
  cases l with
  | nil => rfl
  | cons y l => exact absurd rfl chain.2.1

theorem eq_cons {x : α} {l : List α} (chain : Chain null next x l) (live : x ≠ null) :
    ∃ rest, l = x :: rest ∧ Chain null next (next x) rest := by
  cases l with
  | nil => exact absurd chain live
  | cons y l =>
    obtain ⟨rfl, -, rest⟩ := chain
    exact ⟨l, rfl, rest⟩

theorem null_iff {x : α} {l : List α} (chain : Chain null next x l) : x = null ↔ l = [] := by
  constructor
  · rintro rfl
    exact chain.eq_nil
  · rintro rfl
    exact chain

theorem congr {next' : α → α} {x : α} {l : List α} (chain : Chain null next x l)
    (same : ∀ y ∈ l, next' y = next y) : Chain null next' x l := by
  induction l generalizing x with
  | nil => exact chain
  | cons z l ih =>
    obtain ⟨rfl, live, rest⟩ := chain
    refine ⟨rfl, live, ?_⟩
    rw [same x List.mem_cons_self]
    exact ih rest fun y hy => same y (List.mem_cons_of_mem x hy)

theorem unique {x : α} {l l' : List α} (chain : Chain null next x l) (chain' : Chain null next x l') :
    l = l' := by
  induction l generalizing x l' with
  | nil =>
    obtain rfl : x = null := chain
    exact chain'.eq_nil.symm
  | cons y l ih =>
    obtain ⟨rfl, live, rest⟩ := chain
    obtain ⟨rest', rfl, links⟩ := chain'.eq_cons live
    rw [ih rest links]

theorem drop {x y : α} {l : List α} (chain : Chain null next x l) (member : y ∈ l) :
    ∃ l', l'.length ≤ l.length ∧ Chain null next y l' := by
  induction l generalizing x with
  | nil => cases member
  | cons z l ih =>
    obtain ⟨rfl, live, rest⟩ := chain
    rcases List.mem_cons.mp member with rfl | later
    · exact ⟨y :: l, Nat.le_refl _, rfl, live, rest⟩
    · obtain ⟨l', shorter, chain'⟩ := ih rest later
      exact ⟨l', Nat.le_succ_of_le shorter, chain'⟩

theorem nodup {x : α} {l : List α} (chain : Chain null next x l) : l.Nodup := by
  induction l generalizing x with
  | nil => exact List.nodup_nil
  | cons y l ih =>
    obtain ⟨rfl, live, rest⟩ := chain
    refine List.nodup_cons.mpr ⟨fun again => ?_, ih rest⟩
    obtain ⟨l', shorter, chain'⟩ := rest.drop again
    have whole : x :: l = l' := unique ⟨rfl, live, rest⟩ chain'
    rw [← whole, List.length_cons] at shorter
    omega

theorem of_links {f : Nat → α} (count j : Nat)
    (links : ∀ i, j ≤ i → i < j + count → next (f i) = f (i + 1)) (last : next (f (j + count)) = null)
    (live : ∀ i, j ≤ i → i ≤ j + count → f i ≠ null) :
    Chain null next (f j) ((List.range' j (count + 1)).map f) := by
  induction count generalizing j with
  | zero => exact ⟨rfl, live j (Nat.le_refl _) (Nat.le_refl _), last⟩
  | succ count ih =>
    refine ⟨rfl, live j (Nat.le_refl _) (by omega), ?_⟩
    rw [links j (Nat.le_refl _) (by omega)]
    exact ih (j + 1) (fun i low high => links i (by omega) (by omega))
      (by rwa [Nat.add_assoc, Nat.add_comm 1 count]) fun i low high => live i (by omega) (by omega)

theorem next_getElem {x : α} {l : List α} (chain : Chain null next x l) {i : Nat} (lt : i < l.length) :
    next l[i] = l[i + 1]?.getD null := by
  induction l generalizing x i with
  | nil => cases lt
  | cons y l ih =>
    obtain ⟨rfl, -, rest⟩ := chain
    cases i with
    | zero =>
      cases l with
      | nil => exact rest
      | cons z l => exact rest.1
    | succ i => exact ih rest (Nat.lt_of_succ_lt_succ lt)

variable [DecidableEq α]

theorem update {x y v : α} {l : List α} (chain : Chain null next x l) (off : y ∉ l) :
    Chain null (Function.update next y v) x l := by
  refine chain.congr fun z hz => Function.update_of_ne ?_ v next
  rintro rfl
  exact off hz

theorem push {x y : α} {l : List α} (chain : Chain null next x l) (off : y ∉ l) (live : y ≠ null) :
    Chain null (Function.update next y x) y (y :: l) := by
  refine ⟨rfl, live, ?_⟩
  rw [Function.update_self]
  exact chain.update off

theorem snoc {x y last : α} {l : List α} (chain : Chain null next x (l ++ [last]))
    (off : y ∉ l ++ [last]) (live : y ≠ null) (unlinked : next y = null) :
    Chain null (Function.update next last y) x (l ++ [last] ++ [y]) := by
  induction l generalizing x with
  | nil =>
    obtain ⟨rfl, live', -⟩ := chain
    have other : y ≠ x := fun eq => off (List.mem_singleton.mpr eq)
    refine ⟨rfl, live', ?_⟩
    rw [Function.update_self]
    refine ⟨rfl, live, ?_⟩
    rw [Function.update_of_ne other]
    exact unlinked
  | cons z l ih =>
    have different := chain.nodup
    obtain ⟨rfl, live', rest⟩ := chain
    have other : x ≠ last := by
      rintro rfl
      exact (List.nodup_cons.mp different).1 (by simp)
    refine ⟨rfl, live', ?_⟩
    rw [Function.update_of_ne other]
    exact ih rest fun mem => off (List.mem_cons_of_mem x mem)

end Chain

end XcKernel
