import XcKernel.Lib.Bytes
import XcKernel.Lib.Word

/-!
# Copying memory

`memcpy` and `memmove` of `lib/string.c`.  A pointer is a 32-bit address.  The
type `size_t` is `int` there; the model is for counts that are not negative, for
which `while (count--)` runs `count` times.
-/

namespace XcKernel

open Word Bytes

/-- `while (count--) *tmp++ = *s++;` -/
def copyUp (m : Bytes) (tmp s : Nat) : (count : Nat) → Bytes
  | 0 => m
  | count + 1 => copyUp (m.store tmp (m s)) (wrap 32 (tmp + 1)) (wrap 32 (s + 1)) count

/-- `while (count--) *--tmp = *--s;` -/
def copyDown (m : Bytes) (tmp s : Nat) : (count : Nat) → Bytes
  | 0 => m
  | count + 1 =>
    let tmp := wrapSub 32 tmp 1
    let s := wrapSub 32 s 1
    copyDown (m.store tmp (m s)) tmp s count

def memcpy (m : Bytes) (dest src count : Nat) : Nat × Bytes := (dest, copyUp m dest src count)

def memmove (m : Bytes) (dest src count : Nat) : Nat × Bytes :=
  if dest ≤ src then (dest, copyUp m dest src count)
  else (dest, copyDown m (wrap 32 (dest + count)) (wrap 32 (src + count)) count)

/-- The bytes at `dest` are those that were at `src`, and all others are as they were. -/
structure Copied (m m' : Bytes) (dest src count : Nat) : Prop where
  moved : ∀ i < count, m' (dest + i) = m (src + i)
  frame : ∀ x, x < dest ∨ dest + count ≤ x → m' x = m x

variable {m m' : Bytes} {dest src count : Nat}

theorem Copied.zero (m : Bytes) (dest src : Nat) : Copied m m dest src 0 :=
  ⟨fun _ lt => absurd lt (Nat.not_lt_zero _), fun _ _ => rfl⟩

/-- The first byte is copied, and then the others: the store must not hit a byte
that is still to be read. -/
theorem Copied.first (unread : dest ≤ src ∨ src + count < dest)
    (rest : Copied (m.store dest (m src)) m' (dest + 1) (src + 1) count) :
    Copied m m' dest src (count + 1) := by
  refine ⟨fun i lt => ?_, fun x out => ?_⟩
  · cases i with
    | zero =>
      rw [rest.frame _ (by omega)]
      exact store_self _
    | succ i =>
      have next := rest.moved i (by omega)
      rw [store_of_ne (by omega)] at next
      rwa [Nat.add_right_comm dest, Nat.add_right_comm src] at next
  · rw [rest.frame x (by omega), store_of_ne (by omega)]

theorem Copied.last (unread : src ≤ dest ∨ dest + count < src)
    (rest : Copied (m.store (dest + count) (m (src + count))) m' dest src count) :
    Copied m m' dest src (count + 1) := by
  refine ⟨fun i lt => ?_, fun x out => ?_⟩
  · rcases Nat.lt_succ_iff_lt_or_eq.mp lt with before | rfl
    · rw [rest.moved i before, store_of_ne (by omega)]
    · rw [rest.frame _ (by omega)]
      exact store_self _
  · rw [rest.frame x (by omega), store_of_ne (by omega)]

theorem copyUp_copied (apart : dest ≤ src ∨ src + count ≤ dest) (room : dest + count ≤ 2 ^ 32)
    (readable : src + count ≤ 2 ^ 32) : Copied m (copyUp m dest src count) dest src count := by
  induction count generalizing m dest src with
  | zero => exact .zero m dest src
  | succ count ih =>
    rw [copyUp]
    refine .first (by omega) ?_
    -- the pointers may wrap after the last byte, where they are not used any more
    cases count with
    | zero => exact .zero _ _ _
    | succ count =>
      rw [wrap_of_lt (by omega), wrap_of_lt (by omega)]
      exact ih (by omega) (by omega) (by omega)

theorem copyDown_copied (apart : src ≤ dest ∨ dest + count ≤ src) (room : dest + count ≤ 2 ^ 32)
    (readable : src + count ≤ 2 ^ 32) :
    Copied m (copyDown m (wrap 32 (dest + count)) (wrap 32 (src + count)) count) dest src count := by
  induction count generalizing m with
  | zero => exact .zero m dest src
  | succ count ih =>
    rw [copyDown, ← Nat.add_assoc, ← Nat.add_assoc, wrapSub_wrap_succ (n := dest + count) room,
      wrapSub_wrap_succ (n := src + count) readable]
    refine .last (by omega) ?_
    have next := @ih (m.store (dest + count) (m (src + count))) (by omega) (by omega) (by omega)
    rwa [wrap_of_lt (by omega), wrap_of_lt (by omega)] at next

theorem memcpy_copied (m : Bytes) (apart : dest ≤ src ∨ src + count ≤ dest)
    (room : dest + count ≤ 2 ^ 32) (readable : src + count ≤ 2 ^ 32) :
    (memcpy m dest src count).1 = dest ∧ Copied m (memcpy m dest src count).2 dest src count :=
  ⟨rfl, copyUp_copied apart room readable⟩

/-- However source and target overlap, `memmove` copies the bytes that were there
before the call, and returns the target. -/
theorem memmove_correct (m : Bytes) (room : dest + count ≤ 2 ^ 32)
    (readable : src + count ≤ 2 ^ 32) :
    (memmove m dest src count).1 = dest ∧
      (∀ i < count, (memmove m dest src count).2 (dest + i) = m (src + i)) ∧
      ∀ x, ¬ (dest ≤ x ∧ x < dest + count) → (memmove m dest src count).2 x = m x := by
  have copied : Copied m (memmove m dest src count).2 dest src count := by
    unfold memmove
    split
    · rename_i below
      exact copyUp_copied (.inl below) room readable
    · rename_i above
      exact copyDown_copied (.inl (by omega)) room readable
  refine ⟨?_, copied.moved, fun x out => copied.frame x (by omega)⟩
  unfold memmove
  split <;> rfl

/-- Four bytes are moved up by one, where they overlap the source in three. -/
theorem memmove_correct_overlap :
    let m : Bytes := fun x => BitVec.ofNat 8 x
    (memmove m 11 10 4).1 = 11 ∧ ((List.range 6).map fun i => (memmove m 11 10 4).2 (10 + i)) =
      [10, 10, 11, 12, 13, 15] ∧ ∀ i < 4, (memmove m 11 10 4).2 (11 + i) = m (10 + i) := by
  intro m
  obtain ⟨returned, moved, -⟩ :=
    memmove_correct m (show 11 + 4 ≤ 2 ^ 32 by decide) (show 10 + 4 ≤ 2 ^ 32 by decide)
  exact ⟨returned, by decide, moved⟩

end XcKernel
