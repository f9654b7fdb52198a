import XcKernel.PageAlloc.Pcp

/-!
# The calls by which boot memory is released

`__free_pages_memory` cuts a range of pages into single pages and blocks of 32.
The calls tile the range: each begins where the one before it ends.
-/

namespace XcKernel.PageAlloc

open Word

/-- A call of `__free_pages_bootmem`. -/
structure BootmemCall where
  page : Nat
  order : Nat
  deriving DecidableEq, Repr

namespace BootmemCall

/-- The page lies in the block of the call. -/
def Covers (c : BootmemCall) (x : Nat) : Prop := c.page ≤ x ∧ x < c.page + 2 ^ c.order

instance (c : BootmemCall) (x : Nat) : Decidable (c.Covers x) :=
  inferInstanceAs (Decidable (_ ∧ _))

end BootmemCall

/-- `__free_pages_memory`: the calls it makes, in order.  `ilog2(BITS_PER_LONG)` is 5. -/
def freePagesMemory (start end_ : Nat) : List BootmemCall :=
  let startAligned := alignDown 32 (wrap 32 (start + (bitsPerLong - 1))) bitsPerLong
  let endAligned := alignDown 32 end_ bitsPerLong
  if endAligned ≤ startAligned then (List.range' start (end_ - start)).map fun i => ⟨i, 0⟩
  else
    (List.range' start (startAligned - start)).map (fun i => ⟨i, 0⟩) ++
    (List.range' startAligned ((endAligned - startAligned) / bitsPerLong) bitsPerLong).map
      (fun i => ⟨i, 5⟩) ++
    (List.range' endAligned (end_ - endAligned)).map fun i => ⟨i, 0⟩

/-- The calls cover the pages from `a` to `b` one after the other. -/
def Tiles : List BootmemCall → Nat → Nat → Prop
  | [], a, b => a = b
  | c :: rest, a, b => c.page = a ∧ Tiles rest (a + 2 ^ c.order) b

theorem Tiles.append {cs ds : List BootmemCall} {a b c : Nat} (first : Tiles cs a b)
    (second : Tiles ds b c) : Tiles (cs ++ ds) a c := by
  induction cs generalizing a with
  | nil =>
    rw [Tiles] at first
    exact first ▸ second
  | cons c cs ih => exact ⟨first.1, ih first.2⟩

theorem tiles_range' (order a count : Nat) :
    Tiles ((List.range' a count (2 ^ order)).map fun i => ⟨i, order⟩) a (a + count * 2 ^ order) := by
  induction count generalizing a with
  | zero => simp [Tiles]
  | succ count ih =>
    refine ⟨rfl, ?_⟩
    have rest := ih (a + 2 ^ order)
    rwa [Nat.add_assoc, Nat.add_comm (2 ^ order), ← Nat.succ_mul] at rest

theorem Tiles.le {cs : List BootmemCall} {a b : Nat} (tiles : Tiles cs a b) : a ≤ b := by
  induction cs generalizing a with
  | nil => exact Nat.le_of_eq tiles
  | cons c cs ih => exact (Nat.le_add_right a _).trans (ih tiles.2)

theorem Tiles.within {cs : List BootmemCall} {a b : Nat} (tiles : Tiles cs a b) {c : BootmemCall}
    (member : c ∈ cs) : a ≤ c.page ∧ c.page + 2 ^ c.order ≤ b := by
  induction cs generalizing a with
  | nil => cases member
  | cons d cs ih =>
    obtain ⟨first, rest⟩ := tiles
    rcases List.mem_cons.mp member with rfl | later
    · exact ⟨first.ge, first ▸ rest.le⟩
    · have := ih rest later
      exact ⟨(Nat.le_add_right a _).trans this.1, this.2⟩

theorem Tiles.covers {cs : List BootmemCall} {a b x : Nat} (tiles : Tiles cs a b) (low : a ≤ x)
    (high : x < b) : ∃ c ∈ cs, c.Covers x := by
  induction cs generalizing a with
  | nil =>
    rw [Tiles] at tiles
    omega
  | cons c cs ih =>
    obtain ⟨first, rest⟩ := tiles
    by_cases here : x < a + 2 ^ c.order
    · exact ⟨c, List.mem_cons_self, by rw [BootmemCall.Covers, first]; omega⟩
    · obtain ⟨d, hd, covers⟩ := ih rest (by omega)
      exact ⟨d, List.mem_cons_of_mem c hd, covers⟩

theorem Tiles.countP {cs : List BootmemCall} {a b : Nat} (tiles : Tiles cs a b) (x : Nat) :
    cs.countP (·.Covers x) = if a ≤ x ∧ x < b then 1 else 0 := by
  induction cs generalizing a with
  | nil =>
    rw [Tiles] at tiles
    rw [List.countP_nil, if_neg (by omega)]
  | cons c cs ih =>
    obtain ⟨first, rest⟩ := tiles
    have le := rest.le
    have pos := Nat.two_pow_pos c.order
    rw [List.countP_cons, ih rest]
    simp only [BootmemCall.Covers, first, decide_eq_true_eq]
    split_ifs <;> omega

theorem bitsPerLong_eq : bitsPerLong = 2 ^ 5 := rfl

theorem startAligned_eq {start : Nat} (bound : start < 2 ^ 31) :
    alignDown 32 (wrap 32 (start + (bitsPerLong - 1))) bitsPerLong = (start + 31) / 32 * 32 := by
  rw [wrap_of_lt (by simp only [bitsPerLong]; omega), bitsPerLong_eq,
    alignDown_two_pow (by decide) (by omega)]
  rfl

theorem endAligned_eq {end_ : Nat} (bound : end_ < 2 ^ 31) :
    alignDown 32 end_ bitsPerLong = end_ / 32 * 32 := by
  rw [bitsPerLong_eq, alignDown_two_pow (by decide) (by omega)]
  rfl

variable {start end_ : Nat}

theorem freePagesMemory_tiles (le : start ≤ end_) (bound : end_ < 2 ^ 31) :
    Tiles (freePagesMemory start end_) start end_ := by
  have single : ∀ a b, a ≤ b → Tiles ((List.range' a (b - a)).map fun i => ⟨i, 0⟩) a b := by
    intro a b hab
    have := tiles_range' 0 a (b - a)
    rwa [Nat.pow_zero, Nat.mul_one, Nat.add_sub_cancel' hab] at this
  unfold freePagesMemory
  rw [startAligned_eq (by omega), endAligned_eq bound]
  dsimp only
  split_ifs with short
  · exact single start end_ le
  · have blocks := tiles_range' 5 ((start + 31) / 32 * 32)
      ((end_ / 32 * 32 - (start + 31) / 32 * 32) / bitsPerLong)
    have stop : (start + 31) / 32 * 32 +
        (end_ / 32 * 32 - (start + 31) / 32 * 32) / bitsPerLong * 2 ^ 5 = end_ / 32 * 32 := by
      rw [bitsPerLong_eq]
      omega
    rw [stop] at blocks
    exact ((single _ _ (by omega)).append blocks).append (single _ _ (by omega))

/-- A single page lies in no aligned block of the range, and the other calls are aligned. -/
theorem freePagesMemory_order (le : start ≤ end_) (bound : end_ < 2 ^ 31) {c : BootmemCall}
    (member : c ∈ freePagesMemory start end_) :
    (c.order = 0 ∧ ∀ b, 32 ∣ b → start ≤ b → b + 32 ≤ end_ → c.page < b ∨ b + 32 ≤ c.page) ∨
      (c.order = 5 ∧ 32 ∣ c.page) := by
  unfold freePagesMemory at member
  rw [startAligned_eq (by omega), endAligned_eq bound] at member
  dsimp only at member
  split_ifs at member with short
  · obtain ⟨i, -, rfl⟩ := List.mem_map.mp member
    exact .inl ⟨rfl, fun b aligned low high => by dsimp only; omega⟩
  · rcases List.mem_append.mp member with member | member
    · rcases List.mem_append.mp member with member | member
      · obtain ⟨i, hi, rfl⟩ := List.mem_map.mp member
        have := List.mem_range'_1.mp hi
        exact .inl ⟨rfl, fun b aligned low high => by dsimp only; omega⟩
      · obtain ⟨i, hi, rfl⟩ := List.mem_map.mp member
        obtain ⟨j, -, rfl⟩ := List.mem_range'.mp hi
        refine .inr ⟨rfl, ?_⟩
        simp only [bitsPerLong]
        omega
    · obtain ⟨i, hi, rfl⟩ := List.mem_map.mp member
      have := List.mem_range'_1.mp hi
      exact .inl ⟨rfl, fun b aligned low high => by dsimp only; omega⟩

end XcKernel.PageAlloc
