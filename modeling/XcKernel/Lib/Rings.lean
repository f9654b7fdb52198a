import Mathlib.Data.List.Chain
import Mathlib.Data.List.Nodup
import Mathlib.Logic.Function.Basic

/-!
# Rings

Doubly linked lists that run in a circle through a head.  A node goes in or out
between two neighbours, with writes to them and to itself; the rest of the ring, and
every other ring, does not change.  Several rings in one memory are several lists.

A gap of a ring splits its list in two.  The neighbours of the gap are the last node
before it and the first one after it, where the head stands in for a missing node.
-/

namespace XcKernel.Rings

variable {α ι : Type*}

/-- Two links for every node. -/
structure Links (α : Type*) where
  next : α → α
  prev : α → α

/-- The links lead from `a` to `b` and back. -/
def Joined (links : Links α) (a b : α) : Prop := links.next a = b ∧ links.prev b = a

/-- The ring through the head whose nodes are `xs`. -/
structure Ring (links : Links α) (head : α) (xs : List α) : Prop where
  path : (head :: xs ++ [head]).IsChain (Joined links)
  nodup : (head :: xs).Nodup

theorem isChain_joined_congr {links links' : Links α} {l : List α} (path : l.IsChain (Joined links))
    (next : ∀ a ∈ l.dropLast, links'.next a = links.next a)
    (prev : ∀ b ∈ l.tail, links'.prev b = links.prev b) : l.IsChain (Joined links') := by
  induction path with
  | nil => exact .nil
  | singleton a => exact .singleton a
  | cons_cons joined path ih =>
    rename_i a b l
    refine .cons_cons ⟨?_, ?_⟩ (ih (fun c mem => ?_) fun c mem => ?_)
    · rw [next a (by simp), joined.1]
    · rw [prev b (by simp), joined.2]
    · exact next c (by rw [List.dropLast_cons_cons]; exact List.mem_cons_of_mem a mem)
    · exact prev c (List.mem_cons_of_mem b mem)

theorem head?_concat (head : α) (zs : List α) : (zs ++ [head]).head? = some (zs.headD head) := by
  cases zs <;> rfl

theorem isChain_gap {R : α → α → Prop} (head : α) (ys zs : List α) :
    (head :: (ys ++ zs) ++ [head]).IsChain R ↔
      (head :: ys).IsChain R ∧ (zs ++ [head]).IsChain R ∧ R (ys.getLastD head) (zs.headD head) := by
  have cut : head :: (ys ++ zs) ++ [head] = (head :: ys) ++ (zs ++ [head]) := by simp
  have last : (head :: ys).getLast? = some (ys.getLastD head) := by
    rw [List.getLast?_cons, List.getLastD_eq_getLast?]
  rw [cut, List.isChain_append, last, head?_concat]
  simp

theorem getLastD_mem (head : α) (ys : List α) : ys.getLastD head ∈ head :: ys := by
  induction ys generalizing head with
  | nil => simp
  | cons y ys ih =>
    rw [List.getLastD_cons]
    exact List.mem_cons_of_mem head (ih y)

theorem headD_mem (head : α) (zs : List α) : zs.headD head ∈ head :: zs := by
  cases zs <;> simp

theorem gap_mem (head : α) (ys zs : List α) :
    ys.getLastD head ∈ head :: (ys ++ zs) ∧ zs.headD head ∈ head :: (ys ++ zs) := by
  refine ⟨List.mem_append_left zs (getLastD_mem head ys), ?_⟩
  obtain same | mem := List.mem_cons.1 (headD_mem head zs)
  · rw [same]
    exact List.mem_cons_self
  · exact List.mem_cons_of_mem head (List.mem_append_right ys mem)

theorem getLastD_notMem_dropLast {head : α} {ys : List α} (nodup : (head :: ys).Nodup) :
    ys.getLastD head ∉ (head :: ys).dropLast := by
  induction ys generalizing head with
  | nil => simp
  | cons y ys ih =>
    obtain ⟨new, nodup⟩ := List.nodup_cons.1 nodup
    rw [List.getLastD_cons, List.dropLast_cons_cons, List.mem_cons, not_or]
    exact ⟨fun same => new (same ▸ getLastD_mem y ys), ih nodup⟩

theorem headD_notMem_tail {head : α} {zs : List α} (nodup : (head :: zs).Nodup) :
    zs.headD head ∉ (zs ++ [head]).tail := by
  cases zs with
  | nil => simp
  | cons z zs =>
    obtain ⟨new, nodup⟩ := List.nodup_cons.1 nodup
    simp only [List.headD_cons, List.cons_append, List.tail_cons, List.mem_append, List.mem_singleton,
      not_or]
    exact ⟨(List.nodup_cons.1 nodup).1, fun same => new (same ▸ List.mem_cons_self)⟩

variable {links links' : Links α} {head : α} {xs ys zs : List α}

/-- The two sides of a gap use `next` of its left neighbour and `prev` of its right
neighbour nowhere. -/
theorem sides_congr (nodup : (head :: (ys ++ zs)).Nodup) (before : (head :: ys).IsChain (Joined links))
    (behind : (zs ++ [head]).IsChain (Joined links))
    (next : ∀ a ∈ head :: (ys ++ zs), a ≠ ys.getLastD head → links'.next a = links.next a)
    (prev : ∀ b ∈ head :: (ys ++ zs), b ≠ zs.headD head → links'.prev b = links.prev b) :
    (head :: ys).IsChain (Joined links') ∧ (zs ++ [head]).IsChain (Joined links') := by
  rw [← List.cons_append, List.nodup_append] at nodup
  obtain ⟨nodupBefore, nodupBehind, apart⟩ := nodup
  have headNotBehind : (head :: zs).Nodup :=
    List.nodup_cons.2 ⟨fun mem => apart head List.mem_cons_self head mem rfl, nodupBehind⟩
  constructor
  · refine isChain_joined_congr before (fun a mem => next a ?_ fun same => ?_)
      fun b mem => prev b ?_ fun same => ?_
    · exact List.mem_append_left zs (List.dropLast_subset _ mem)
    · exact getLastD_notMem_dropLast nodupBefore (same ▸ mem)
    · exact List.mem_cons_of_mem head (List.mem_append_left zs mem)
    · have neighbour := headD_mem head zs
      rw [← same, List.mem_cons] at neighbour
      obtain rfl | mem' := neighbour
      · exact (List.nodup_cons.1 nodupBefore).1 mem
      · exact apart b (List.mem_cons_of_mem head mem) b mem' rfl
  · refine isChain_joined_congr behind (fun a mem => ?_) fun b mem => prev b ?_ fun same => ?_
    · rw [List.dropLast_concat] at mem
      refine next a (List.mem_cons_of_mem head (List.mem_append_right ys mem)) fun same => ?_
      exact apart a (same ▸ getLastD_mem head ys) a mem rfl
    · have mem := List.mem_of_mem_tail mem
      rw [List.mem_append, List.mem_singleton] at mem
      obtain mem | rfl := mem
      · exact List.mem_cons_of_mem head (List.mem_append_right ys mem)
      · exact List.mem_cons_self
    · exact headD_notMem_tail headNotBehind (same ▸ mem)

theorem Ring.next_eq (ring : Ring links head (ys ++ zs)) :
    links.next (ys.getLastD head) = zs.headD head :=
  ((isChain_gap head ys zs).1 ring.path).2.2.1

theorem Ring.prev_eq (ring : Ring links head (ys ++ zs)) :
    links.prev (zs.headD head) = ys.getLastD head :=
  ((isChain_gap head ys zs).1 ring.path).2.2.2

theorem Ring.neighbours {x : α} (ring : Ring links head (ys ++ x :: zs)) :
    links.prev x = ys.getLastD head ∧ links.next x = zs.headD head := by
  have behind : Ring links head ((ys ++ [x]) ++ zs) := by
    rwa [List.append_assoc, List.singleton_append]
  have last : (ys ++ [x]).getLastD head = x := by
    rw [List.getLastD_eq_getLast?, List.getLast?_concat, Option.getD_some]
  exact ⟨ring.prev_eq, last ▸ behind.next_eq⟩

theorem Ring.congr (ring : Ring links head xs) (next : ∀ a ∈ head :: xs, links'.next a = links.next a)
    (prev : ∀ b ∈ head :: xs, links'.prev b = links.prev b) : Ring links' head xs := by
  refine ⟨isChain_joined_congr ring.path (fun a mem => next a ?_) fun b mem => prev b ?_, ring.nodup⟩
  · rwa [List.dropLast_concat] at mem
  · rw [List.cons_append, List.tail_cons, List.mem_append, List.mem_singleton] at mem
    rw [List.mem_cons]
    exact mem.symm

theorem ring_nil : Ring links head [] ↔ links.next head = head ∧ links.prev head = head := by
  constructor
  · intro ring
    have gap : Ring links head ([] ++ []) := ring
    exact ⟨gap.next_eq, gap.prev_eq⟩
  · intro joined
    exact ⟨.cons_cons joined (.singleton head), List.nodup_singleton head⟩

theorem Ring.next_head (ring : Ring links head xs) : links.next head = xs.headD head := by
  have ring' : Ring links head ([] ++ xs) := ring
  exact ring'.next_eq

theorem Ring.prev_head (ring : Ring links head xs) : links.prev head = xs.getLastD head := by
  have ring' : Ring links head (xs ++ []) := by rwa [List.append_nil]
  exact ring'.prev_eq

theorem Ring.empty_iff (ring : Ring links head xs) : links.next head = head ↔ xs = [] := by
  rw [ring.next_head]
  cases xs with
  | nil => simp
  | cons x xs =>
    have new := (List.nodup_cons.1 ring.nodup).1
    simp only [List.headD_cons, reduceCtorEq, iff_false]
    exact fun same => new (same ▸ List.mem_cons_self)

section Writes

variable [DecidableEq α] {new : α}

def Links.setNext (links : Links α) (a b : α) : Links α :=
  { links with next := Function.update links.next a b }

def Links.setPrev (links : Links α) (a b : α) : Links α :=
  { links with prev := Function.update links.prev a b }

/-- Put a node between two others. -/
def Links.link (links : Links α) (new prev next : α) : Links α :=
  (((links.setPrev next new).setNext new next).setPrev new prev).setNext prev new

/-- Join two nodes. -/
def Links.unlink (links : Links α) (prev next : α) : Links α :=
  (links.setPrev next prev).setNext prev next

theorem next_link_of_ne (next : α) {prev a : α} (old : a ≠ new) (other : a ≠ prev) :
    (links.link new prev next).next a = links.next a := by
  simp [Links.link, Links.setNext, Links.setPrev, old, other]

theorem prev_link_of_ne (prev : α) {next b : α} (old : b ≠ new) (other : b ≠ next) :
    (links.link new prev next).prev b = links.prev b := by
  simp [Links.link, Links.setNext, Links.setPrev, old, other]

theorem next_unlink_of_ne (next : α) {prev a : α} (other : a ≠ prev) :
    (links.unlink prev next).next a = links.next a := by
  simp [Links.unlink, Links.setNext, Links.setPrev, other]

theorem prev_unlink_of_ne (prev : α) {next b : α} (other : b ≠ next) :
    (links.unlink prev next).prev b = links.prev b := by
  simp [Links.unlink, Links.setNext, Links.setPrev, other]

theorem joined_link (links : Links α) {prev next : α} (last : prev ≠ new) (first : next ≠ new) :
    Joined (links.link new prev next) prev new ∧ Joined (links.link new prev next) new next := by
  simp [Joined, Links.link, Links.setNext, Links.setPrev, first, last.symm]

theorem joined_unlink (prev next : α) : Joined (links.unlink prev next) prev next := by
  simp [Joined, Links.unlink, Links.setNext, Links.setPrev]

theorem Ring.link (ring : Ring links head (ys ++ zs)) (fresh : new ∉ head :: (ys ++ zs)) :
    Ring (links.link new (ys.getLastD head) (zs.headD head)) head (ys ++ new :: zs) := by
  have ne {a : α} (mem : a ∈ head :: (ys ++ zs)) : a ≠ new := fun same => fresh (same ▸ mem)
  obtain ⟨last, first⟩ := gap_mem head ys zs
  obtain ⟨before, behind, -⟩ := (isChain_gap head ys zs).1 ring.path
  obtain ⟨before, behind⟩ := sides_congr ring.nodup before behind
    (fun a mem other => next_link_of_ne (zs.headD head) (ne mem) other)
    fun b mem other => prev_link_of_ne (ys.getLastD head) (ne mem) other
  obtain ⟨joinedLast, joinedFirst⟩ := joined_link links (ne last) (ne first)
  refine ⟨(isChain_gap head ys (new :: zs)).2 ⟨before, ?_, joinedLast⟩, ?_⟩
  · rw [List.cons_append, List.isChain_cons, head?_concat]
    refine ⟨fun b mem => ?_, behind⟩
    obtain rfl := Option.some.inj mem
    exact joinedFirst
  · rw [← List.cons_append, List.nodup_middle, List.nodup_cons]
    exact ⟨fresh, ring.nodup⟩

theorem Ring.unlink {x : α} (ring : Ring links head (ys ++ x :: zs)) :
    Ring (links.unlink (ys.getLastD head) (zs.headD head)) head (ys ++ zs) := by
  have nodup := ring.nodup
  rw [← List.cons_append, List.nodup_middle, List.cons_append] at nodup
  obtain ⟨-, nodup⟩ := List.nodup_cons.1 nodup
  have behindGap : Ring links head ((ys ++ [x]) ++ zs) := by
    rwa [List.append_assoc, List.singleton_append]
  obtain ⟨before, -, -⟩ := (isChain_gap head ys (x :: zs)).1 ring.path
  obtain ⟨-, behind, -⟩ := (isChain_gap head (ys ++ [x]) zs).1 behindGap.path
  obtain ⟨before, behind⟩ := sides_congr nodup before behind
    (fun a _ other => next_unlink_of_ne (zs.headD head) other)
    fun b _ other => prev_unlink_of_ne (ys.getLastD head) other
  exact ⟨(isChain_gap head ys zs).2 ⟨before, behind, joined_unlink _ _⟩, nodup⟩

end Writes

/-- Rings without a common node. -/
structure Family (links : Links α) (head : ι → α) (lists : ι → List α) : Prop where
  ring : ∀ i, Ring links (head i) (lists i)
  apart : ∀ i j, i ≠ j → (head i :: lists i).Disjoint (head j :: lists j)

section Family

variable {head : ι → α} {lists : ι → List α} {i : ι} {x new : α}

theorem Family.ne_of_mem (family : Family links head lists) (mem : x ∈ head i :: lists i) {j : ι}
    (other : j ≠ i) {a : α} (mem' : a ∈ head j :: lists j) : a ≠ x := by
  rintro rfl
  exact family.apart j i other mem' mem

theorem Family.congr (family : Family links head lists)
    (next : ∀ i, ∀ a ∈ head i :: lists i, links'.next a = links.next a)
    (prev : ∀ i, ∀ b ∈ head i :: lists i, links'.prev b = links.prev b) : Family links' head lists :=
  ⟨fun i => (family.ring i).congr (next i) (prev i), family.apart⟩

variable [DecidableEq α]

theorem Family.link [DecidableEq ι] (family : Family links head lists) (split : lists i = ys ++ zs)
    (fresh : ∀ j, new ∉ head j :: lists j) :
    Family (links.link new (ys.getLastD (head i)) (zs.headD (head i))) head
      (Function.update lists i (ys ++ new :: zs)) := by
  obtain ⟨last, first⟩ := gap_mem (head i) ys zs
  rw [← split] at last first
  have mem_iff (j : ι) (a : α) : a ∈ head j :: Function.update lists i (ys ++ new :: zs) j ↔
      a ∈ head j :: lists j ∨ j = i ∧ a = new := by
    by_cases here : j = i
    · subst here
      rw [Function.update_self, split]
      simp only [List.mem_cons, List.mem_append, true_and]
      tauto
    · simp [here]
  refine ⟨fun j => ?_, fun j k other a mem mem' => ?_⟩
  · by_cases here : j = i
    · subst here
      rw [Function.update_self]
      exact Ring.link (split ▸ family.ring j) (split ▸ fresh j)
    · rw [Function.update_of_ne here]
      have old {a : α} (mem : a ∈ head j :: lists j) : a ≠ new := fun same => fresh j (same ▸ mem)
      exact (family.ring j).congr
        (fun a mem => next_link_of_ne _ (old mem) (family.ne_of_mem last here mem))
        fun b mem => prev_link_of_ne _ (old mem) (family.ne_of_mem first here mem)
  · rw [mem_iff] at mem mem'
    obtain mem | ⟨rfl, rfl⟩ := mem <;> obtain mem' | ⟨rfl, same⟩ := mem'
    · exact family.apart j k other mem mem'
    · exact fresh j (same ▸ mem)
    · exact fresh k mem'
    · exact other rfl

theorem Family.unlink (family : Family links head lists) (split : lists i = ys ++ x :: zs) :
    Family (links.unlink (ys.getLastD (head i)) (zs.headD (head i))) head
      (fun j => (lists j).filter (· != x)) := by
  have ring : Ring links (head i) (ys ++ x :: zs) := split ▸ family.ring i
  have mem : x ∈ head i :: lists i := by simp [split]
  obtain ⟨last, first⟩ := gap_mem (head i) ys zs
  have old {a : α} (mem : a ∈ head i :: (ys ++ zs)) : a ∈ head i :: lists i := by
    rw [split]
    simp only [List.mem_cons, List.mem_append] at mem ⊢
    tauto
  refine ⟨fun j => ?_, fun j k other a mem mem' => ?_⟩
  · by_cases here : j = i
    · subst here
      have nodup := (List.nodup_cons.1 ring.nodup).2
      rw [List.nodup_middle, List.nodup_cons] at nodup
      have rest : (lists j).filter (· != x) = ys ++ zs := by
        rw [split, List.filter_append, List.filter_cons_of_neg (by simp), ← List.filter_append,
          List.filter_eq_self]
        intro a mem
        rw [bne_iff_ne]
        exact fun same => nodup.1 (same ▸ mem)
      rw [rest]
      exact ring.unlink
    · have rest : (lists j).filter (· != x) = lists j := by
        rw [List.filter_eq_self]
        intro a mem'
        rw [bne_iff_ne]
        exact family.ne_of_mem mem here (List.mem_cons_of_mem _ mem')
      rw [rest]
      exact (family.ring j).congr
        (fun a mem => next_unlink_of_ne _ (family.ne_of_mem (old last) here mem))
        fun b mem => prev_unlink_of_ne _ (family.ne_of_mem (old first) here mem)
  · exact family.apart j k other (List.cons_subset_cons _ (List.filter_subset_self _) mem)
      (List.cons_subset_cons _ (List.filter_subset_self _) mem')

end Family

end XcKernel.Rings
