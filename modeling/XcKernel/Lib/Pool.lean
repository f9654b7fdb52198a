import Mathlib.Data.Set.Lattice
import Mathlib.Data.Set.Pairwise.Basic
import Mathlib.Order.CompletePartialOrder
import XcKernel.Lib.Run

/-!
# Pools

A pool lends blocks of cells and takes them back.  Cells may also be withdrawn
for good.  Whatever the order of the steps, blocks that are lent at the same time
share no cell, and no cell is made.
-/

namespace XcKernel

/-- The free cells, and the blocks that are lent. -/
@[ext]
structure Pool (α β : Type*) where
  free : Set α
  lent : Set β

namespace Pool

variable {α β : Type*} {cells : β → Set α} {p p' : Pool α β} {b : β}

/-- A block of free cells is lent. -/
def lend (cells : β → Set α) (p : Pool α β) (b : β) : Pool α β :=
  ⟨p.free \ cells b, insert b p.lent⟩

/-- A block is given back. -/
def giveBack (cells : β → Set α) (p : Pool α β) (b : β) : Pool α β :=
  ⟨p.free ∪ cells b, p.lent \ {b}⟩

/-- Free cells are withdrawn. -/
def withdraw (p : Pool α β) (gone : Set α) : Pool α β := ⟨p.free \ gone, p.lent⟩

inductive Step (cells : β → Set α) : Pool α β → Pool α β → Prop where
  | lend {p : Pool α β} {b : β} (there : cells b ⊆ p.free) : Step cells p (p.lend cells b)
  | giveBack {p : Pool α β} {b : β} (lent : b ∈ p.lent) : Step cells p (p.giveBack cells b)
  | withdraw (p : Pool α β) (gone : Set α) : Step cells p (p.withdraw gone)

/-- The cells that are free or lent. -/
def all (cells : β → Set α) (p : Pool α β) : Set α := p.free ∪ ⋃ b ∈ p.lent, cells b

/-- What is lent is neither free nor lent twice. -/
structure Apart (cells : β → Set α) (p : Pool α β) : Prop where
  blocks : p.lent.PairwiseDisjoint cells
  free : ∀ b ∈ p.lent, Disjoint p.free (cells b)

theorem mem_all {x : α} : x ∈ p.all cells ↔ x ∈ p.free ∨ ∃ b ∈ p.lent, x ∈ cells b := by
  simp [all]

theorem Apart.lend (apart : p.Apart cells) (there : cells b ⊆ p.free) :
    (p.lend cells b).Apart cells := by
  refine ⟨apart.blocks.insert fun c lent _ => ?_, ?_⟩
  · exact (apart.free c lent).mono_left there
  · rintro c (rfl | lent)
    · exact Set.disjoint_sdiff_left
    · exact (apart.free c lent).mono_left Set.sdiff_subset

theorem Apart.giveBack (apart : p.Apart cells) (lent : b ∈ p.lent) :
    (p.giveBack cells b).Apart cells := by
  refine ⟨apart.blocks.subset Set.sdiff_subset, ?_⟩
  rintro c ⟨other, ne⟩
  exact (apart.free c other).union_left (apart.blocks lent other (Ne.symm ne))

theorem Apart.step (apart : p.Apart cells) (step : Step cells p p') : p'.Apart cells := by
  cases step with
  | lend there => exact apart.lend there
  | giveBack lent => exact apart.giveBack lent
  | withdraw gone =>
    exact ⟨apart.blocks, fun c lent => (apart.free c lent).mono_left Set.sdiff_subset⟩

theorem all_lend (there : cells b ⊆ p.free) : (p.lend cells b).all cells = p.all cells := by
  rw [all, all, lend, Set.biUnion_insert, ← Set.union_assoc, Set.sdiff_union_of_subset there]

theorem all_giveBack (lent : b ∈ p.lent) : (p.giveBack cells b).all cells = p.all cells := by
  have split : insert b (p.lent \ {b}) = p.lent := by
    rw [Set.insert_sdiff_singleton, Set.insert_eq_of_mem lent]
  calc (p.giveBack cells b).all cells
      = p.free ∪ ⋃ c ∈ insert b (p.lent \ {b}), cells c := by
        rw [Set.biUnion_insert, ← Set.union_assoc]
        rfl
    _ = p.all cells := by rw [split]; rfl

theorem all_step (step : Step cells p p') : p'.all cells ⊆ p.all cells := by
  cases step with
  | lend there => exact (all_lend there).subset
  | giveBack lent => exact (all_giveBack lent).subset
  | withdraw gone => exact Set.union_subset_union_left _ Set.sdiff_subset

theorem apart_of_run (apart : p.Apart cells) (run : Relation.ReflTransGen (Step cells) p p') :
    p'.Apart cells ∧ p'.all cells ⊆ p.all cells := by
  refine invariant_of_run (fun q => q.Apart cells ∧ q.all cells ⊆ p.all cells) ?_
    ⟨apart, subset_rfl⟩ run
  rintro q q' ⟨apart, sub⟩ step
  exact ⟨apart.step step, (all_step step).trans sub⟩

end Pool

end XcKernel
