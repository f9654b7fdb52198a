import XcKernel.Paging.Basic

/-!
# The ranges of the direct mapping

The three ranges that `init_memory_mapping` cuts are adjacent and ask for the
same page size, so the merging loop leaves one range, or none when there is
nothing to map.
-/

namespace XcKernel.Mm

open Word

/-- The ranges saved so far lie end to end from `lo` to `hi`. -/
structure EndToEnd (r : MapRanges) (lo hi : Nat) : Prop where
  none : r.nrRange = 0 → lo = hi
  some : 0 < r.nrRange → lo < hi
  first : 0 < r.nrRange → (r.mr 0).start = lo
  last : 0 < r.nrRange → (r.mr (r.nrRange - 1)).end_ = hi
  adjacent : ∀ i, i + 1 < r.nrRange → (r.mr i).end_ = (r.mr (i + 1)).start
  mask : ∀ i < r.nrRange, (r.mr i).pageSizeMask = 0

theorem EndToEnd.le {r : MapRanges} {lo hi : Nat} (h : EndToEnd r lo hi) : lo ≤ hi := by
  rcases Nat.eq_zero_or_pos r.nrRange with zero | pos
  · exact (h.none zero).le
  · exact (h.some pos).le

theorem EndToEnd.push {r : MapRanges} {lo mid hi : Nat} (h : EndToEnd r lo mid) (lt : mid < hi) :
    EndToEnd ⟨Function.update r.mr r.nrRange ⟨mid, hi, 0⟩, r.nrRange + 1⟩ lo hi := by
  have below := h.le
  have old : ∀ i < r.nrRange,
      Function.update r.mr r.nrRange ⟨mid, hi, 0⟩ i = r.mr i := by
    intro i hi
    exact Function.update_of_ne hi.ne _ _
  refine ⟨by simp, fun _ => by omega, ?_, by simp, ?_, ?_⟩
  · intro _
    rcases Nat.eq_zero_or_pos r.nrRange with zero | pos
    · simp [zero, h.none zero]
    · dsimp only
      rw [old 0 pos]
      exact h.first pos
  · intro i hi
    dsimp only at hi ⊢
    rw [old i (by omega)]
    by_cases top : i + 1 = r.nrRange
    · have last := h.last (by omega)
      rw [← top] at last ⊢
      simpa using last
    · rw [old (i + 1) (by omega)]
      exact h.adjacent i (by omega)
  · intro i hi
    dsimp only at hi ⊢
    by_cases top : i = r.nrRange
    · simp [top]
    · rw [old i (by omega)]
      exact h.mask i (by omega)

theorem u32_shiftLeft {n : Nat} (h : n < 2 ^ 20) : u32 (n <<< pageShift) = n * pageSize := by
  simp only [u32, pageShift, pageSize, Nat.shiftLeft_eq]
  exact wrap_of_lt (by omega)

theorem saveMr_endToEnd {r : MapRanges} {lo a b : Nat} (h : EndToEnd r lo (a * pageSize))
    (room : r.nrRange < nrRangeMr) (le : a ≤ b) (hb : b < 2 ^ 20) :
    ∃ r', saveMr r a b 0 = .ok r' ∧ EndToEnd r' lo (b * pageSize) ∧ r'.nrRange ≤ r.nrRange + 1 := by
  by_cases lt : a < b
  · rw [saveMr, if_pos lt, if_neg (by omega), u32_shiftLeft (by omega), u32_shiftLeft hb]
    exact ⟨_, rfl, h.push (Nat.mul_lt_mul_of_pos_right lt (by decide)), Nat.le_refl _⟩
  · obtain rfl : a = b := by omega
    exact ⟨r, if_neg lt, h, by omega⟩

/-- The same with the position moved along.  What is saved starts at the position. -/
theorem saveMrPos_endToEnd {r : MapRanges} {lo p a b : Nat} (h : EndToEnd r lo (p * pageSize))
    (room : r.nrRange < nrRangeMr) (start : a < b → a = p) (hb : b < 2 ^ 20) :
    ∃ r' p', saveMrPos r (p * pageSize) a b = .ok (r', p' * pageSize) ∧
      EndToEnd r' lo (p' * pageSize) ∧ r'.nrRange ≤ r.nrRange + 1 ∧
      p' = if a < b then b else p := by
  by_cases lt : a < b
  · obtain rfl := start lt
    obtain ⟨r', saved, covers, count⟩ := saveMr_endToEnd h room lt.le hb
    refine ⟨r', b, ?_, covers, count, (if_pos lt).symm⟩
    rw [saveMrPos, if_pos lt, saved, ← u32_shiftLeft hb]
    rfl
  · exact ⟨r, p, if_neg lt, h, Nat.le_succ _, (if_neg lt).symm⟩

theorem ok_bind {ε α β : Type} (a : α) (f : α → Except ε β) : (Except.ok a >>= f) = f a :=
  pure_bind a f

theorem pmdUpPfn_eq {p : Nat} (h : p < 2 ^ 18) :
    pmdUpPfn (p * pageSize) = (p + 1023) / 1024 * 1024 := by
  simp only [pmdUpPfn, u32, wrap, pmdSize, pmdShift, pageShift, pageSize, Nat.shiftLeft_eq,
    Nat.shiftRight_eq_div_pow]
  omega

theorem firstEndPfn_eq {p e : Nat} (h : p < 2 ^ 18) :
    firstEndPfn (p * pageSize) (e * pageSize) =
      min (if p = 0 then 1024 else (p + 1023) / 1024 * 1024) e := by
  rw [firstEndPfn, mul_pageSize_shiftRight, pmdUpPfn_eq h]
  have zero : p * pageSize = 0 ↔ p = 0 := by simp [pageSize]
  simp only [zero, show 1 <<< (pmdShift - pageShift) = 1024 from rfl]
  split_ifs <;> omega

theorem wholePmds_eq {e : Nat} (h : e < 2 ^ 18) :
    u32 (((e * pageSize) >>> pmdShift) <<< (pmdShift - pageShift)) = e / 1024 * 1024 := by
  simp only [u32, wrap, pmdShift, pageShift, pageSize, Nat.shiftLeft_eq,
    Nat.shiftRight_eq_div_pow]
  omega

theorem lt_of_le_maxmem {e : Nat} (h : e * pageSize ≤ maxmem) : e < 2 ^ 18 := by
  have value : maxmem = 0x37bfd000 := by decide
  rw [value, pageSize] at h
  omega

theorem cutRanges_endToEnd {p e : Nat} (le : p ≤ e) (he : e * pageSize ≤ maxmem) :
    ∃ r, cutRanges (p * pageSize) (e * pageSize) = .ok r ∧
      EndToEnd r (p * pageSize) (e * pageSize) := by
  have small := lt_of_le_maxmem he
  have empty : EndToEnd ⟨fun _ => ⟨0, 0, 0⟩, 0⟩ (p * pageSize) (p * pageSize) :=
    ⟨fun _ => rfl, by simp, by simp, by simp, by simp, by simp⟩
  have first := firstEndPfn_eq (p := p) (e := e) (by omega)
  obtain ⟨r₁, p₁, eq₁, covers₁, count₁, hp₁⟩ := saveMrPos_endToEnd empty (by decide)
    (fun _ => rfl) (show firstEndPfn (p * pageSize) (e * pageSize) < 2 ^ 20 by omega)
  have p₁Le : p₁ ≤ e := by rw [hp₁]; split_ifs <;> omega
  -- a range of whole blocks starts where the first range ended
  have aligned : (p₁ + 1023) / 1024 * 1024 < e / 1024 * 1024 →
      (p₁ + 1023) / 1024 * 1024 = p₁ := by
    rw [first] at hp₁
    split_ifs at hp₁ <;> omega
  obtain ⟨r₂, p₂, eq₂, covers₂, count₂, hp₂⟩ := saveMrPos_endToEnd covers₁
    (by rw [nrRangeMr]; dsimp only at count₁; omega) aligned (by omega)
  have p₂Le : p₂ ≤ e := by rw [hp₂]; split_ifs <;> omega
  obtain ⟨r₃, eq₃, covers₃, -⟩ := saveMr_endToEnd covers₂
    (by rw [nrRangeMr]; dsimp only at count₁; omega) p₂Le (by omega)
  refine ⟨r₃, ?_, covers₃⟩
  simp only [cutRanges, mul_pageSize_shiftRight, u32_shiftLeft (show p < 2 ^ 20 by omega), eq₁,
    ok_bind, pmdUpPfn_eq (show p₁ < 2 ^ 18 by omega), wholePmds_eq small, eq₂, eq₃]

theorem EndToEnd.merge {r : MapRanges} {lo hi : Nat} (h : EndToEnd r lo hi) (two : 1 < r.nrRange) :
    EndToEnd ⟨Function.update (moveDown r.mr r.nrRange 0) 0
      { moveDown r.mr r.nrRange 0 0 with start := (r.mr 0).start }, r.nrRange - 1⟩ lo hi := by
  have shifted : ∀ j < r.nrRange - 1, moveDown r.mr r.nrRange 0 j = r.mr (j + 1) := by
    intro j hj
    simp [moveDown, hj]
  have read : ∀ j < r.nrRange - 1, 0 < j →
      Function.update (moveDown r.mr r.nrRange 0) 0
        { moveDown r.mr r.nrRange 0 0 with start := (r.mr 0).start } j = r.mr (j + 1) := by
    intro j hj pos
    rw [Function.update_of_ne (by omega), shifted j hj]
  refine ⟨by simp only; omega, fun _ => h.some (by omega), ?_, ?_, ?_, ?_⟩
  · intro _
    simpa using h.first (by omega)
  · intro _
    have last := h.last (by omega)
    by_cases one : r.nrRange - 1 = 1
    · simpa [one, shifted 0 (by omega)] using last
    · simp only
      rw [read _ (by omega) (by omega), show r.nrRange - 1 - 1 + 1 = r.nrRange - 1 by omega]
      exact last
  · intro i hi
    simp only at hi ⊢
    rw [read (i + 1) hi (by omega)]
    cases i with
    | zero => simpa [shifted 0 (by omega)] using h.adjacent 1 (by omega)
    | succ i => rw [read (i + 1) (by omega) (by omega)]; exact h.adjacent (i + 2) (by omega)
  · intro i hi
    simp only at hi ⊢
    cases i with
    | zero => simpa [shifted 0 (by omega)] using h.mask 1 (by omega)
    | succ i => rw [read (i + 1) (by omega) (by omega)]; exact h.mask (i + 2) (by omega)

theorem mergeLoop_endToEnd {r : MapRanges} {lo hi : Nat} (h : EndToEnd r lo hi) :
    EndToEnd (mergeLoop r 0) lo hi ∧ (mergeLoop r 0).nrRange ≤ 1 := by
  induction hn : r.nrRange generalizing r with
  | zero =>
    rw [mergeLoop, if_neg (by omega)]
    exact ⟨h, by omega⟩
  | succ n ih =>
    by_cases two : 1 < r.nrRange
    · rw [mergeLoop, if_pos ⟨two, by omega⟩, if_neg ?_]
      · exact ih (h.merge two) (by simp only; omega)
      · rw [h.mask 0 (by omega), h.mask 1 (by omega), not_or, not_not, not_not]
        exact ⟨h.adjacent 0 two, rfl⟩
    · rw [mergeLoop, if_neg (by omega)]
      exact ⟨h, by omega⟩

end XcKernel.Mm
