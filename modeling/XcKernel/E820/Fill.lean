import XcKernel.E820.Sanitize
import XcKernel.Memblock.Invariant
import Mathlib.Algebra.BigOperators.Group.Finset.Piecewise
import Mathlib.Order.Interval.Finset.Nat

/-!
# From the BIOS map to the memory list

`memblock_x86_fill` adds the usable entries of the sanitised map to the memory
list.  A union of so many ranges has no more components than ranges, so the
list never runs over.
-/

namespace XcKernel.E820

open Word Mm XcKernel.Span

def e820Ram : Nat := 1

def e820ReservedKern : Nat := 128

def memblockAnalyze (memblock : Memblock) : Memblock :=
  { memblock with memorySize := memblock.memory.regions.foldl (fun size r => u64 (size + r.size)) 0 }

/-- The body of the loop of `memblock_x86_fill`; `none` is its panic.  A
`resource_size_t` has 64 bits. -/
def fillEntry (memblock : Memblock) (ei : E820Entry) : Option Memblock :=
  let end_ := u64 (ei.addr + ei.size)
  if end_ ≠ u64 end_ then some memblock
  else if ei.type ≠ e820Ram ∧ ei.type ≠ e820ReservedKern then some memblock
  else
    let r := memblockAdd memblock ei.addr ei.size
    if r.1 = -1 then none else some r.2

def memblockX86Fill (map : List E820Entry) (memblock : Memblock) : Option Memblock :=
  (map.foldlM fillEntry memblock).map memblockAnalyze

theorem length_le_of_covers {live : List MemblockRegion} (ok : RegionsOk live) {ranges : List Span}
    (covers : ∀ x, Covers (spans live) x ↔ Covers ranges x) : live.length ≤ ranges.length := by
  have covered : ∀ {r x}, r ∈ live → r.base ≤ x → x < r.base + r.size → Covers (spans live) x :=
    fun {r x} member low high => ⟨r.span, List.mem_map_of_mem member, low, high⟩
  -- the address before a region is free
  have free : ∀ r ∈ live, r.base ≠ 0 → ¬ Covers (spans live) (r.base - 1) := by
    rintro r member pos ⟨s, hs, low, high⟩
    obtain ⟨t, ht, rfl⟩ := List.mem_map.mp hs
    simp only [MemblockRegion.span] at low high
    obtain ⟨i, hi, rfl⟩ := List.getElem_of_mem member
    obtain ⟨j, hj, rfl⟩ := List.getElem_of_mem ht
    have apart := List.pairwise_iff_getElem.mp ok.separated
    rcases Nat.lt_trichotomy i j with before | rfl | behind
    · have := apart i j hi hj before
      omega
    · omega
    · have := apart j i hj hi behind
      omega
  have starts : live.map (·.base) ⊆ ranges.map (·.lo) := by
    intro b member
    obtain ⟨r, hr, rfl⟩ := List.mem_map.mp member
    have size := ok.pos r hr
    obtain ⟨s, hs, low, high⟩ := (covers r.base).mp (covered hr le_rfl (by omega))
    refine List.mem_map.mpr ⟨s, hs, ?_⟩
    by_contra ne
    exact free r hr (by omega) ((covers _).mpr ⟨s, hs, by omega, by omega⟩)
  have nodup : (live.map (·.base)).Nodup := by
    refine List.Pairwise.map _ (fun r t before => ?_) ok.separated
    omega
  have := (nodup.subperm starts).length_le
  simpa using this

/-- The entry is usable memory. -/
def E820Entry.Usable (e : E820Entry) : Prop := e.type = e820Ram ∨ e.type = e820ReservedKern

instance (e : E820Entry) : Decidable e.Usable := inferInstanceAs (Decidable (_ ∨ _))

def E820Entry.span (e : E820Entry) : Span := ⟨e.addr, e.addr + e.size⟩

/-- The memory list holds the usable entries of a part of the map. -/
structure Filled (memblock : Memblock) (live : List MemblockRegion) (done : List E820Entry) : Prop where
  shown : memblock.memory.Live live
  max : memblock.memory.max = initMemblockRegions
  covers : ∀ x, Covers (spans live) x ↔ Covers ((done.filter (·.Usable)).map (·.span)) x

theorem Filled.step {memblock : Memblock} {live : List MemblockRegion} {done : List E820Entry}
    (h : Filled memblock live done) {e : E820Entry} (size : e.size ≠ 0)
    (fits : e.addr + e.size < 2 ^ 64) (room : done.length < initMemblockRegions) :
    ∃ memblock' live', fillEntry memblock e = some memblock' ∧ Filled memblock' live' (done ++ [e]) := by
  have sum : u64 (u64 (e.addr + e.size)) = u64 (e.addr + e.size) := wrap_of_lt (wrap_lt _ _)
  unfold fillEntry
  dsimp only
  rw [sum, if_neg (by simp)]
  by_cases usable : e.Usable
  · rw [if_neg (by rw [E820Entry.Usable] at usable; tauto)]
    have few : live.length < memblock.memory.max := by
      have components := length_le_of_covers h.shown.ok h.covers
      have kept := List.length_filter_le (fun e : E820Entry => decide e.Usable) done
      rw [List.length_map] at components
      rw [h.max]
      omega
    rcases memblockAddRegion_spec h.shown (Nat.pos_of_ne_zero size) fits with
      ⟨live', ret, type, bound, recorded, -⟩ | ⟨-, full, -⟩
    · have added : memblockAdd memblock e.addr e.size =
          (0, { memblock with memory := { memblock.memory with regions := live' } }) := by
        rw [memblockAdd, ret, type]
      rw [added, if_neg (by simp)]
      refine ⟨_, live', rfl, ⟨?_, recorded.ok, bound, h.shown.slot⟩, h.max, fun x => ?_⟩
      · exact (orPlaceholder_of_ne_nil recorded.nonempty).symm
      · rw [recorded.covers x, h.covers x, List.filter_append, List.map_append, covers_append,
          List.filter_singleton, decide_eq_true usable]
        simp [E820Entry.span, Contains]
    · omega
  · rw [if_pos (by rw [E820Entry.Usable] at usable; tauto)]
    refine ⟨memblock, live, rfl, h.shown, h.max, fun x => ?_⟩
    rw [h.covers x, List.filter_append, List.filter_singleton, decide_eq_false usable]
    simp

/-- What has been added is never more than the table holds. -/
theorem Filled.foldlM {memblock : Memblock} {live : List MemblockRegion} {done rest : List E820Entry}
    (h : Filled memblock live done) (nonzero : ∀ e ∈ rest, e.size ≠ 0)
    (fits : ∀ e ∈ rest, e.addr + e.size < 2 ^ 64)
    (room : done.length + rest.length ≤ initMemblockRegions) :
    ∃ memblock' live', rest.foldlM fillEntry memblock = some memblock' ∧
      Filled memblock' live' (done ++ rest) := by
  induction rest generalizing memblock live done with
  | nil => exact ⟨memblock, live, rfl, by simpa using h⟩
  | cons e rest ih =>
    rw [List.length_cons] at room
    obtain ⟨memblock₁, live₁, added, filled⟩ := h.step (nonzero e List.mem_cons_self)
      (fits e List.mem_cons_self) (by omega)
    obtain ⟨memblock', live', rest', filled'⟩ := ih filled
      (fun f hf => nonzero f (List.mem_cons_of_mem e hf)) (fun f hf => fits f (List.mem_cons_of_mem e hf))
      (by rw [List.length_append, List.length_singleton]; omega)
    refine ⟨memblock', live', ?_, by simpa using filled'⟩
    rw [List.foldlM_cons, added]
    exact rest'

theorem sum_sizes {live : List MemblockRegion} (ok : RegionsOk live) {bound : Nat}
    (below : ∀ r ∈ live, r.base + r.size ≤ bound) {P : Nat → Prop} [DecidablePred P]
    (covers : ∀ x, Covers (spans live) x ↔ P x) :
    (live.map (·.size)).sum = ((Finset.range bound).filter P).card := by
  induction live generalizing P with
  | nil =>
    rw [Finset.filter_false_of_mem fun x _ => (covers x).not.mp (by simp)]
    rfl
  | cons r live ih =>
    have sorted := List.pairwise_cons.mp ok.separated
    have here := below r List.mem_cons_self
    have apart : ∀ x, r.span.Contains x → ¬ Covers (spans live) x := by
      rintro x inside ⟨s, hs, low, -⟩
      obtain ⟨t, ht, rfl⟩ := List.mem_map.mp hs
      have := sorted.1 t ht
      have := inside.2
      simp only [MemblockRegion.span] at low this
      omega
    classical
    have rest := ih (ok.sublist (List.sublist_cons_self r live))
      (fun t ht => below t (List.mem_cons_of_mem r ht)) (P := Covers (spans live)) fun x => Iff.rfl
    have split : (Finset.range bound).filter P = Finset.Ico r.base (r.base + r.size) ∪
        (Finset.range bound).filter (Covers (spans live)) := by
      ext x
      rw [Finset.mem_union, Finset.mem_filter, Finset.mem_filter, Finset.mem_Ico, Finset.mem_range,
        ← covers x, spans_cons, covers_cons]
      simp only [Contains, MemblockRegion.span]
      constructor
      · rintro ⟨low, inside | later⟩
        · exact .inl inside
        · exact .inr ⟨low, later⟩
      · rintro (inside | ⟨low, later⟩)
        · exact ⟨by omega, .inl inside⟩
        · exact ⟨low, .inr later⟩
    rw [split, Finset.card_union_of_disjoint, Nat.card_Ico, List.map_cons, List.sum_cons, rest]
    · omega
    · rw [Finset.disjoint_left]
      intro x inside later
      rw [Finset.mem_Ico] at inside
      exact apart x inside (Finset.mem_filter.mp later).2

theorem analyze_sum {regions : List MemblockRegion} (size : Nat)
    (small : size + (regions.map (·.size)).sum < 2 ^ 64) :
    regions.foldl (fun size r => u64 (size + r.size)) size = size + (regions.map (·.size)).sum := by
  induction regions generalizing size with
  | nil => rfl
  | cons r regions ih =>
    rw [List.map_cons, List.sum_cons] at small ⊢
    rw [List.foldl_cons, u64, wrap_of_lt (by omega), ih _ (by omega)]
    omega

/-- The address is usable by the BIOS map. -/
def UsableAt (biosmap : List E820Entry) (x : Nat) : Prop :=
  typeAt biosmap x = e820Ram ∨ typeAt biosmap x = e820ReservedKern

instance (biosmap : List E820Entry) : DecidablePred (UsableAt biosmap) := fun _ =>
  inferInstanceAs (Decidable (_ ∨ _))

theorem Canonical.covers_usable {biosmap canonical : List E820Entry} (h : Canonical biosmap canonical)
    (x : Nat) : Covers ((canonical.filter (·.Usable)).map (·.span)) x ↔ UsableAt biosmap x := by
  constructor
  · rintro ⟨s, hs, inside⟩
    obtain ⟨e, he, rfl⟩ := List.mem_map.mp hs
    obtain ⟨member, usable⟩ := List.mem_filter.mp he
    have type := h.type e member x inside
    rw [UsableAt, ← type]
    exact of_decide_eq_true usable
  · intro usable
    have some : typeAt biosmap x ≠ 0 := by
      rcases usable with ram | kern
      · rw [ram]
        decide
      · rw [kern]
        decide
    obtain ⟨e, member, contains⟩ := h.complete x some
    refine ⟨e.span, List.mem_map_of_mem (List.mem_filter.mpr ⟨member, ?_⟩), contains⟩
    rw [UsableAt, ← h.type e member x contains] at usable
    exact decide_eq_true usable

theorem Canonical.fits {biosmap canonical : List E820Entry} (h : Canonical biosmap canonical)
    (noWrap : NoWrap biosmap) : ∀ e ∈ canonical, e.addr + e.size < 2 ^ 64 := by
  intro e member
  obtain ⟨size, type⟩ := h.nonzero e member
  have inside : e.Contains (e.addr + e.size - 1) := ⟨by omega, by omega⟩
  rw [h.type e member _ inside] at type
  rcases (typeAt_greatest biosmap _).attained with zero | ⟨i, contains, -⟩
  · exact absurd zero type
  · have := noWrap _ (entry_mem (live_of_contains contains).1)
    have := contains.2
    omega

/-- Sanitising the map and filling the memory list never panics, and the list
holds exactly the usable addresses. -/
theorem memblock_x86_fill_exact {biosmap : List E820Entry} (ok : MapOk biosmap) {memblock : Memblock}
    (empty : memblock.memory = memblockInit.memory)
    (sanitised : (sanitizeE820Map biosmap e820Max).1 = 0)
    (segments : ∀ canonical, Canonical biosmap canonical → canonical.length ≤ e820Max) :
    ∃ memblock', memblockX86Fill (sanitizeE820Map biosmap e820Max).2 memblock = some memblock' ∧
      (∀ x, Covers (spans memblock'.memory.regions) x ↔ UsableAt biosmap x) ∧
      Separated (spans memblock'.memory.regions) ∧
      memblock'.memorySize = ((Finset.range (2 ^ 64)).filter (UsableAt biosmap)).card := by
  have eq := sanitizeE820Map_eq ok e820Max
  have all : 2 ≤ biosmap.length ∧ (biosmap.length : Int) ≤ e820Max ∧ NoWrap biosmap := by
    by_contra bad
    rw [eq, if_neg bad] at sanitised
    cases sanitised
  rw [if_pos all] at eq
  have canonical := sweepAll_canonical all.2.2
  have length := segments _ canonical
  rw [Int.toNat_natCast, List.take_of_length_le length] at eq
  generalize sweepAll biosmap ⟨[], [], 0, 0, 0, 0⟩ (sortPoints biosmap (changePoints biosmap)) = map
    at eq canonical length
  rw [eq]
  have start : Filled memblock [] [] :=
    ⟨by rw [empty]; exact ⟨rfl, .nil, by decide, by decide⟩, by rw [empty]; rfl, fun x => by simp⟩
  have fits := canonical.fits all.2.2
  obtain ⟨m, live, fills, filled⟩ := start.foldlM (fun e he => (canonical.nonzero e he).1) fits
    (by rw [List.length_nil, Nat.zero_add]; exact length)
  rw [List.nil_append] at filled
  have covers : ∀ x, Covers (spans live) x ↔ UsableAt biosmap x := fun x =>
    (filled.covers x).trans (canonical.covers_usable x)
  have below : ∀ r ∈ live, r.base + r.size ≤ 2 ^ 64 - 1 := fun r hr => by
    have := filled.shown.ok.fits r hr
    omega
  have sum := sum_sizes filled.shown.ok below covers
  have sum' := sum_sizes filled.shown.ok (fun r hr => (below r hr).trans (Nat.sub_le _ _)) covers
  have bound : (live.map (·.size)).sum ≤ 2 ^ 64 - 1 := by
    rw [sum]
    exact (Finset.card_filter_le _ _).trans_eq (Finset.card_range _)
  refine ⟨memblockAnalyze m, ?_, fun x => ?_, ?_, ?_⟩
  · rw [memblockX86Fill, fills, Option.map_some]
  · show Covers (spans m.memory.regions) x ↔ _
    rw [filled.shown.shown, covers_orPlaceholder]
    exact covers x
  · show Separated (spans m.memory.regions)
    rw [filled.shown.shown, orPlaceholder]
    split
    · exact List.pairwise_singleton _ _
    · exact filled.shown.ok.spans_separated
  · show m.memory.regions.foldl (fun size r => u64 (size + r.size)) 0 = _
    have shown : (m.memory.regions.map (·.size)).sum = (live.map (·.size)).sum := by
      rw [filled.shown.shown, orPlaceholder]
      split
      · rename_i nil
        rw [List.length_eq_zero_iff.mp nil]
        rfl
      · rfl
    rw [analyze_sum 0 (by rw [shown]; omega), Nat.zero_add, shown]
    exact sum'

/-- Two touching entries of usable memory become one region. -/
theorem memblock_x86_fill_exact_pair :
    ∃ memblock', memblockX86Fill (sanitizeE820Map [⟨0, 0x1000, 1⟩, ⟨0x1000, 0x1000, 128⟩] e820Max).2
        memblockInit = some memblock' ∧
      (∀ x, Covers (spans memblock'.memory.regions) x ↔
        UsableAt [⟨0, 0x1000, 1⟩, ⟨0x1000, 0x1000, 128⟩] x) ∧
      Separated (spans memblock'.memory.regions) := by
  have unique : ∀ canonical, Canonical [⟨0, 0x1000, 1⟩, ⟨0x1000, 0x1000, 128⟩] canonical →
      canonical.length ≤ e820Max := fun canonical is => by
    have other := @sweepAll_canonical [⟨0, 0x1000, 1⟩, ⟨0x1000, 0x1000, 128⟩] (by decide)
    rw [is.from_zero.unique other.from_zero]
    decide +kernel
  obtain ⟨m, fills, covers, separated, -⟩ := memblock_x86_fill_exact
    ⟨by decide, by decide⟩ rfl (by decide +kernel) unique
  exact ⟨m, fills, covers, separated⟩

end XcKernel.E820
