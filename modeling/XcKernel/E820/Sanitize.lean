import XcKernel.E820.Sweep

/-!
# Sanitising a map

`sanitize_e820_map` writes the canonical map of its entries, cut off where the
array ends.  There is only one canonical map.
-/

namespace XcKernel.E820

open Word Mm

variable {bios : List E820Entry}

theorem sweepStep_newBios (s : Sweep) (c : ChangeMember) :
    (sweepStep bios s c).newBios = s.newBios ∨
      ∃ e, (sweepStep bios s c).newBios = s.newBios ++ [e] := by
  unfold sweepStep
  dsimp only
  split_ifs
  all_goals first
    | exact .inl rfl
    | exact .inr ⟨_, rfl⟩

theorem newBios_prefix_sweepAll (s : Sweep) (points : List ChangeMember) :
    ∃ rest, sweepAll bios s points = s.newBios ++ rest := by
  induction points generalizing s with
  | nil => exact ⟨[], (List.append_nil _).symm⟩
  | cons c points ih =>
    obtain ⟨rest, eq⟩ := ih (sweepStep bios s c)
    rw [sweepAll, List.foldl_cons, ← sweepAll, eq]
    rcases @sweepStep_newBios bios s c with same | ⟨e, new⟩
    · exact ⟨rest, by rw [same]⟩
    · exact ⟨e :: rest, by rw [new]; simp⟩

theorem sweep_eq_take {maxNrMap : Nat} {s : Sweep} (room : s.newBios.length < maxNrMap)
    (points : List ChangeMember) :
    sweep bios maxNrMap s points = (sweepAll bios s points).take maxNrMap := by
  induction points generalizing s with
  | nil => exact (List.take_of_length_le room.le).symm
  | cons c points ih =>
    have unfolded : sweepAll bios s (c :: points) = sweepAll bios (sweepStep bios s c) points := rfl
    rw [sweep, unfolded]
    rcases @sweepStep_newBios bios s c with same | ⟨e, new⟩
    · rw [if_neg (by simp [same])]
      exact ih (by rwa [same])
    · have length : (sweepStep bios s c).newBios.length = s.newBios.length + 1 := by
        rw [new, List.length_append, List.length_singleton]
      split
      · rename_i full
        obtain ⟨rest, eq⟩ := @newBios_prefix_sweepAll bios (sweepStep bios s c) points
        have exactly : (sweepStep bios s c).newBios.length = maxNrMap := by omega
        rw [eq, ← exactly, List.take_left]
      · rename_i notFull
        exact ih (by omega)

/-- Canonical from an address on, for any function of types. -/
structure CanonicalFrom (types : Nat → Nat) (b : Nat) (l : List E820Entry) : Prop where
  nonzero : ∀ e ∈ l, e.size ≠ 0 ∧ e.type ≠ 0
  sorted : l.Pairwise fun e f => e.addr + e.size ≤ f.addr
  touching : ∀ e ∈ l, ∀ f ∈ l, e.addr + e.size = f.addr → e.type ≠ f.type
  type : ∀ e ∈ l, ∀ x, e.Contains x → e.type = types x
  complete : ∀ x, b ≤ x → types x ≠ 0 → ∃ e ∈ l, e.Contains x
  above : ∀ e ∈ l, b ≤ e.addr

theorem Canonical.from_zero {l : List E820Entry} (h : Canonical bios l) :
    CanonicalFrom (typeAt bios) 0 l :=
  ⟨h.nonzero, h.sorted, h.touching, h.type, fun x _ => h.complete x, fun _ _ => Nat.zero_le _⟩

namespace CanonicalFrom

variable {types : Nat → Nat} {b : Nat} {e e' : E820Entry} {l l' : List E820Entry}

theorem start (h : CanonicalFrom types b (e :: l)) : types e.addr ≠ 0 := by
  have nonzero := h.nonzero e List.mem_cons_self
  rw [← h.type e List.mem_cons_self e.addr ⟨le_rfl, by omega⟩]
  exact nonzero.2

theorem first_le (h : CanonicalFrom types b (e :: l)) {x : Nat} (low : b ≤ x) (some : types x ≠ 0) :
    e.addr ≤ x := by
  obtain ⟨f, member, contains⟩ := h.complete x low some
  rcases List.mem_cons.mp member with rfl | later
  · exact contains.1
  · have := (List.pairwise_cons.mp h.sorted).1 f later
    have := contains.1
    omega

theorem first_end_le (h : CanonicalFrom types b (e :: l)) (h' : CanonicalFrom types b (e' :: l'))
    (addr : e.addr = e'.addr) : e'.addr + e'.size ≤ e.addr + e.size := by
  by_contra longer
  have nonzero := h.nonzero e List.mem_cons_self
  have inside : e'.Contains (e.addr + e.size) := ⟨by omega, by omega⟩
  have inside' : e'.Contains e.addr := ⟨by omega, by omega⟩
  have atEnd := h'.type e' List.mem_cons_self _ inside
  have atStart := h'.type e' List.mem_cons_self _ inside'
  have same := h.type e List.mem_cons_self e.addr ⟨le_rfl, by omega⟩
  have some : types (e.addr + e.size) ≠ 0 := by
    rw [← atEnd, atStart, ← same]
    exact nonzero.2
  obtain ⟨f, member, contains⟩ := h.complete _ ((h.above e List.mem_cons_self).trans (by omega)) some
  rcases List.mem_cons.mp member with rfl | later
  · exact absurd contains.2 (lt_irrefl _)
  · have behind := (List.pairwise_cons.mp h.sorted).1 f later
    have touch : e.addr + e.size = f.addr := le_antisymm behind contains.1
    refine h.touching e List.mem_cons_self f member touch ?_
    rw [same, ← atStart, atEnd, h.type f member _ contains]

theorem tail (h : CanonicalFrom types b (e :: l)) : CanonicalFrom types (e.addr + e.size) l := by
  have sorted := List.pairwise_cons.mp h.sorted
  refine ⟨fun f hf => h.nonzero f (List.mem_cons_of_mem e hf), sorted.2,
    fun f hf g hg => h.touching f (List.mem_cons_of_mem e hf) g (List.mem_cons_of_mem e hg),
    fun f hf => h.type f (List.mem_cons_of_mem e hf), fun x low some => ?_, sorted.1⟩
  have above := h.above e List.mem_cons_self
  obtain ⟨f, member, contains⟩ := h.complete x (by omega) some
  rcases List.mem_cons.mp member with rfl | later
  · exact absurd contains.2 (by omega)
  · exact ⟨f, later, contains⟩

theorem unique (h : CanonicalFrom types b l) (h' : CanonicalFrom types b l') : l = l' := by
  induction l generalizing b l' with
  | nil =>
    cases l' with
    | nil => rfl
    | cons e' l' =>
      obtain ⟨f, member, -⟩ := h.complete _ (h'.above e' List.mem_cons_self) h'.start
      cases member
  | cons e l ih =>
    cases l' with
    | nil =>
      obtain ⟨f, member, -⟩ := h'.complete _ (h.above e List.mem_cons_self) h.start
      cases member
    | cons e' l' =>
      have addr : e.addr = e'.addr :=
        le_antisymm (h.first_le (h'.above e' List.mem_cons_self) h'.start)
          (h'.first_le (h.above e List.mem_cons_self) h.start)
      have size : e.size = e'.size := by
        have := h.first_end_le h' addr
        have := h'.first_end_le h addr.symm
        omega
      have nonzero := h.nonzero e List.mem_cons_self
      have type : e.type = e'.type := by
        rw [h.type e List.mem_cons_self e.addr ⟨le_rfl, by omega⟩,
          h'.type e' List.mem_cons_self e.addr ⟨by omega, by omega⟩]
      obtain rfl : e = e' := by
        cases e
        cases e'
        simp only [E820Entry.mk.injEq] at addr size type ⊢
        exact ⟨addr, size, type⟩
      rw [ih h.tail h'.tail]

end CanonicalFrom

/-- The map lies in the memory of the machine: its entries have 20 bytes each and
are read from an address space of 32 bits. -/
structure MapOk (biosmap : List E820Entry) : Prop where
  fits : ∀ e ∈ biosmap, e.Fits
  array : biosmap.length * 20 ≤ 2 ^ 32

theorem any_wraps_iff {biosmap : List E820Entry} (fits : ∀ e ∈ biosmap, e.Fits) :
    (biosmap.any fun e => u64 (e.addr + e.size) < e.addr) = false ↔ NoWrap biosmap := by
  rw [List.any_eq_false, NoWrap]
  refine forall₂_congr fun e member => ?_
  obtain ⟨addr, size, -⟩ := fits e member
  rw [decide_eq_true_eq, not_lt]
  simp only [u64, wrap]
  constructor
  · intro le
    by_contra wraps
    rw [Nat.mod_eq_sub_mod (not_lt.mp wraps), Nat.mod_eq_of_lt (by omega)] at le
    omega
  · intro lt
    rw [Nat.mod_eq_of_lt lt]
    omega

theorem sanitizeE820Map_eq {biosmap : List E820Entry} (ok : MapOk biosmap) (maxNrMap : Int) :
    sanitizeE820Map biosmap maxNrMap =
      if 2 ≤ biosmap.length ∧ biosmap.length ≤ maxNrMap ∧ NoWrap biosmap then
        (0, (sweepAll biosmap ⟨[], [], 0, 0, 0, 0⟩ (sortPoints biosmap (changePoints biosmap))).take
          maxNrMap.toNat)
      else (-1, biosmap) := by
  have small : biosmap.length < 2 ^ 31 := by
    have := ok.array
    omega
  have oldNr : signed 32 (biosmap.length : Int) = biosmap.length :=
    signed_of_mem (w := 31) (by omega) (by exact_mod_cast small)
  unfold sanitizeE820Map
  rw [oldNr]
  dsimp only
  rw [Int.toNat_natCast, List.take_length]
  by_cases few : biosmap.length < 2
  · rw [if_pos few, if_neg fun all => absurd all.1 (by omega)]
  rw [if_neg few]
  by_cases many : (biosmap.length : Int) > maxNrMap
  · rw [if_pos many, if_neg fun all => absurd all.2.1 (by omega)]
  rw [if_neg many]
  cases wraps : biosmap.any fun e => u64 (e.addr + e.size) < e.addr with
  | true =>
    rw [if_pos rfl, if_neg fun all => ?_]
    rw [(any_wraps_iff ok.fits).mpr all.2.2] at wraps
    cases wraps
  | false =>
    obtain ⟨maxNr, rfl⟩ := Int.eq_ofNat_of_zero_le (by omega : 0 ≤ maxNrMap)
    rw [if_neg (by simp), if_pos ⟨by omega, by omega, (any_wraps_iff ok.fits).mp wraps⟩,
      Int.toNat_natCast]
    exact congrArg (0, ·) (sweep_eq_take (by simp only [List.length_nil]; omega) _)

/-- A map that can be sanitised is replaced by the first entries of its canonical
map; any other is left as it is. -/
theorem sanitize_e820_map_canonical {biosmap : List E820Entry} (ok : MapOk biosmap) (maxNrMap : Int) :
    (maxNrMap ≤ e820Max → 2 ≤ biosmap.length ∧ biosmap.length ≤ maxNrMap ∧ NoWrap biosmap →
      ∃ canonical, Canonical biosmap canonical ∧ (∀ l, Canonical biosmap l → l = canonical) ∧
        sanitizeE820Map biosmap maxNrMap = (0, canonical.take maxNrMap.toNat)) ∧
    (¬ (2 ≤ biosmap.length ∧ biosmap.length ≤ maxNrMap ∧ NoWrap biosmap) →
      sanitizeE820Map biosmap maxNrMap = (-1, biosmap)) := by
  rw [sanitizeE820Map_eq ok maxNrMap]
  refine ⟨fun _ all => ?_, fun bad => if_neg bad⟩
  have canonical := sweepAll_canonical all.2.2
  exact ⟨_, canonical, fun l other => other.from_zero.unique canonical.from_zero, if_pos all⟩

/-- Three entries become five; an array of three holds the first of them. -/
theorem sanitize_e820_map_canonical_three :
    MapOk [⟨0, 10, 1⟩, ⟨2, 2, 2⟩, ⟨5, 1, 2⟩] ∧
      ∃ canonical, Canonical [⟨0, 10, 1⟩, ⟨2, 2, 2⟩, ⟨5, 1, 2⟩] canonical ∧
        sanitizeE820Map [⟨0, 10, 1⟩, ⟨2, 2, 2⟩, ⟨5, 1, 2⟩] 3 = (0, canonical.take 3) := by
  have ok : MapOk [⟨0, 10, 1⟩, ⟨2, 2, 2⟩, ⟨5, 1, 2⟩] := ⟨by decide, by decide⟩
  obtain ⟨canonical, is, -, eq⟩ :=
    (sanitize_e820_map_canonical ok 3).1 (by decide) ⟨by decide, by decide, by decide⟩
  exact ⟨ok, canonical, is, eq⟩

end XcKernel.E820
