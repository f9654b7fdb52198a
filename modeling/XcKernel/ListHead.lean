import XcKernel.Lib.Rings

/-!
# Linked lists

`include/Xc/list.h`: the links of a `list_head` and the writes of each function, in
the order of the source.  Where heads and entries form rings, the functions add and
remove entries of the lists that the rings stand for.
-/

namespace XcKernel.ListHead

open Rings

variable {α ι : Type*} [DecidableEq α]

def initListHead (links : Links α) (list : α) : Links α := (links.setNext list list).setPrev list list

/-- `__list_del` -/
def listDelBetween (links : Links α) (prev next : α) : Links α := (links.setPrev next prev).setNext prev next

/-- `__list_del_entry` -/
def listDelEntry (links : Links α) (entry : α) : Links α :=
  listDelBetween links (links.prev entry) (links.next entry)

/-- `list_del`; the links of the entry become `LIST_POISON1` and `LIST_POISON2`. -/
def listDel (poison1 poison2 : α) (links : Links α) (entry : α) : Links α :=
  let links := listDelBetween links (links.prev entry) (links.next entry)
  (links.setNext entry poison1).setPrev entry poison2

/-- `__list_add` -/
def listAddBetween (links : Links α) (new prev next : α) : Links α :=
  (((links.setPrev next new).setNext new next).setPrev new prev).setNext prev new

def listAdd (links : Links α) (new head : α) : Links α := listAddBetween links new head (links.next head)

def listAddTail (links : Links α) (new head : α) : Links α := listAddBetween links new (links.prev head) head

def listEmpty (links : Links α) (head : α) : Bool := links.next head = head

def listMove (links : Links α) (list head : α) : Links α := listAdd (listDelEntry links list) list head

theorem initListHead_self {links : Links α} {list head : α}
    (self : links.next head = head ∧ links.prev head = head ∨ head = list) :
    (initListHead links list).next head = head ∧ (initListHead links list).prev head = head := by
  by_cases here : head = list
  · simp [initListHead, Links.setNext, Links.setPrev, here]
  · simpa [initListHead, Links.setNext, Links.setPrev, here] using self

theorem foldl_initListHead_self {heads : List α} {head : α} {links : Links α}
    (self : links.next head = head ∧ links.prev head = head ∨ head ∈ heads) :
    (heads.foldl initListHead links).next head = head ∧ (heads.foldl initListHead links).prev head = head := by
  induction heads generalizing links with
  | nil => simpa using self
  | cons list heads ih =>
    rw [List.mem_cons, ← or_assoc] at self
    exact ih (self.imp_left initListHead_self)

theorem initListHead_family {head : ι → α} (inj : Function.Injective head) {heads : List α}
    (all : ∀ i, head i ∈ heads) (links : Links α) :
    Family (heads.foldl initListHead links) head fun _ => [] := by
  refine ⟨fun i => ring_nil.2 (foldl_initListHead_self (.inr (all i))), fun i j other a mem mem' => ?_⟩
  rw [List.mem_singleton] at mem mem'
  exact other (inj (mem.symm.trans mem'))

section

variable {links : Links α} {head : ι → α} {lists : ι → List α} (family : Family links head lists)
include family

theorem listEmpty_iff (i : ι) : listEmpty links (head i) = true ↔ lists i = [] := by
  rw [listEmpty, decide_eq_true_iff]
  exact (family.ring i).empty_iff

theorem listAdd_family [DecidableEq ι] {new : α} (i : ι) (fresh : ∀ j, new ∉ head j :: lists j) :
    Family (listAdd links new (head i)) head (Function.update lists i (new :: lists i)) := by
  have front : lists i = [] ++ lists i := rfl
  have added := family.link front fresh
  rw [← (family.ring i).next_head] at added
  exact added

theorem listAddTail_family [DecidableEq ι] {new : α} (i : ι) (fresh : ∀ j, new ∉ head j :: lists j) :
    Family (listAddTail links new (head i)) head (Function.update lists i (lists i ++ [new])) := by
  have added := family.link (List.append_nil (lists i)).symm fresh
  rw [← (family.ring i).prev_head] at added
  exact added

theorem listDelEntry_family {i : ι} {x : α} (mem : x ∈ lists i) :
    Family (listDelEntry links x) head (fun j => (lists j).filter (· != x)) := by
  obtain ⟨ys, zs, split⟩ := List.append_of_mem mem
  obtain ⟨prev, next⟩ := Ring.neighbours (split ▸ family.ring i)
  rw [listDelEntry, prev, next]
  exact family.unlink split

theorem listDel_family {i : ι} {x : α} (mem : x ∈ lists i) (entry : ∀ j, x ≠ head j)
    (poison1 poison2 : α) :
    Family (listDel poison1 poison2 links x) head (fun j => (lists j).filter (· != x)) := by
  have unlinked := listDelEntry_family family mem
  have off (j : ι) {a : α} (mem : a ∈ head j :: (lists j).filter (· != x)) : a ≠ x := by
    obtain rfl | mem := List.mem_cons.1 mem
    · exact (entry j).symm
    · exact bne_iff_ne.1 (List.mem_filter.1 mem).2
  refine unlinked.congr (fun j a mem => ?_) fun j b mem => ?_
  · exact Function.update_of_ne (off j mem) poison1 (listDelEntry links x).next
  · exact Function.update_of_ne (off j mem) poison2 (listDelEntry links x).prev

theorem listMove_family [DecidableEq ι] {i : ι} {x : α} (mem : x ∈ lists i) (entry : ∀ j, x ≠ head j)
    (k : ι) :
    Family (listMove links x (head k)) head
      (Function.update (fun j => (lists j).filter (· != x)) k (x :: (lists k).filter (· != x))) := by
  refine listAdd_family (listDelEntry_family family mem) k fun j mem => ?_
  obtain same | mem := List.mem_cons.1 mem
  · exact entry j same
  · exact bne_iff_ne.1 (List.mem_filter.1 mem).2 rfl

end

end XcKernel.ListHead
