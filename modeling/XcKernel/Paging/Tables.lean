import XcKernel.Paging.Ranges

/-!
# Page tables and the translations they hold

A translation is what the walk finds at the kernel's address of a frame.  A
new table is empty, so it translates nothing; an entry written into a table
changes one translation, because no two entries of the kernel's part of the
directory share a table.
-/

namespace XcKernel.Mm

open Word

theorem present_iff (entry : Nat) : Present entry ↔ entry % 2 = 1 := by
  rw [Present, pagePresent, Nat.and_one_is_mod]
  omega

theorem not_present_zero : ¬ Present 0 := by decide

theorem entry_eq {frame attr : Nat} (hattr : attr < pageSize) :
    frame * pageSize ||| attr = frame * pageSize + attr := by
  have := Nat.shiftLeft_add_eq_or_of_lt (show attr < 2 ^ 12 from hattr) frame
  rw [Nat.shiftLeft_eq] at this
  exact this.symm

theorem present_entry {frame attr : Nat} (hattr : attr < pageSize) (odd : attr % 2 = 1) :
    Present (frame * pageSize ||| attr) := by
  rw [present_iff, entry_eq hattr, pageSize]
  omega

theorem entryFrame_entry {frame attr : Nat} (hframe : frame < 2 ^ 20) (hattr : attr < pageSize) :
    entryFrame (frame * pageSize ||| attr) = frame := by
  rw [pageSize] at hattr
  have mask : ptePfnMask = 2 ^ 32 - 1 - wrapSub 32 (2 ^ 12) 1 := by decide
  have aligned := alignDown_two_pow (w := 32) (k := 12) (n := frame * 4096 + attr)
    (by omega) (by omega)
  rw [alignDown, ← mask] at aligned
  rw [entryFrame, entry_eq hattr, pageSize, aligned, pageShift, Nat.shiftRight_eq_div_pow]
  omega

theorem passProt_attr (k : KernelText) (mappingIter addr : Nat) :
    passProt k mappingIter addr < pageSize ∧ passProt k mappingIter addr % 2 = 1 := by
  rw [passProt]
  split_ifs <;> decide

/-- The index of the first directory entry of the kernel. -/
def kernelPgd : Nat := 768

theorem pgdIndex_kernel {q : Nat} (h : q < 2 ^ 18) :
    pgdIndex (q * pageSize + pageOffset) = kernelPgd + q / 1024 := by
  have mask := Nat.and_two_pow_sub_one_eq_mod (u32 (q * pageSize + pageOffset) >>> pgdirShift) 10
  rw [pgdIndex, show ptrsPerPgd - 1 = 2 ^ 10 - 1 from rfl, mask, kernelPgd]
  simp only [u32, wrap, pageOffset, pageSize, pgdirShift, Nat.shiftRight_eq_div_pow]
  omega

theorem pteIndex_kernel (q : Nat) :
    pteIndex (q * pageSize + pageOffset) = q % 1024 := by
  have mask := Nat.and_two_pow_sub_one_eq_mod (u32 (q * pageSize + pageOffset) >>> pageShift) 10
  rw [pteIndex, show ptrsPerPte - 1 = 2 ^ 10 - 1 from rfl, mask]
  simp only [u32, wrap, pageOffset, pageSize, pageShift, Nat.shiftRight_eq_div_pow]
  omega

/-- The present entry number `ofs` of the table of directory entry `idx`. -/
def entryAt (pt : PageTables) (idx ofs : Nat) : Option Nat :=
  if Present (pt.pgd idx) ∧ Present (pt.ram (entryFrame (pt.pgd idx)) ofs) then
    some (pt.ram (entryFrame (pt.pgd idx)) ofs)
  else none

theorem entryAt_absent {pt : PageTables} {idx : Nat} (h : ¬ Present (pt.pgd idx)) (ofs : Nat) :
    entryAt pt idx ofs = none := if_neg fun both => h both.1

/-- The entry that translates the kernel's address of frame `q`. -/
def translation (pt : PageTables) (q : Nat) : Option Nat := walk pt (q * pageSize + pageOffset)

theorem translation_eq (pt : PageTables) {q : Nat} (h : q < 2 ^ 18) :
    translation pt q = entryAt pt (kernelPgd + q / 1024) (q % 1024) := by
  rw [translation, walk, pgdIndex_kernel h, pteIndex_kernel, entryAt]
  dsimp only
  split_ifs <;> simp_all

theorem kernelPgd_add_lt {q : Nat} (h : q < 2 ^ 18) : kernelPgd + q / 1024 < ptrsPerPgd := by
  rw [kernelPgd, ptrsPerPgd]
  omega

/-- The kernel's entries point to tables of their own, outside what is left of the buffer. -/
structure KernelTables (pt : PageTables) : Prop where
  apart : ∀ i j, kernelPgd ≤ i → i < ptrsPerPgd → kernelPgd ≤ j → j < ptrsPerPgd → i ≠ j →
    Present (pt.pgd i) → Present (pt.pgd j) → entryFrame (pt.pgd i) ≠ entryFrame (pt.pgd j)
  clear : ∀ i, kernelPgd ≤ i → i < ptrsPerPgd → Present (pt.pgd i) →
    entryFrame (pt.pgd i) < pt.pgtBufEnd ∨ pt.pgtBufTop ≤ entryFrame (pt.pgd i)
  within : pt.pgtBufEnd ≤ pt.pgtBufTop
  top : pt.pgtBufTop ≤ 2 ^ 20

/-- An operation that only adds tables. -/
structure Extends (pt pt' : PageTables) : Prop where
  present : ∀ i, kernelPgd ≤ i → Present (pt.pgd i) → Present (pt'.pgd i)
  top : pt'.pgtBufTop = pt.pgtBufTop
  start : pt'.pgtBufStart = pt.pgtBufStart

theorem Extends.refl (pt : PageTables) : Extends pt pt := ⟨fun _ _ h => h, rfl, rfl⟩

theorem Extends.trans {a b c : PageTables} (h : Extends a b) (h' : Extends b c) : Extends a c :=
  ⟨fun i hi p => h'.present i hi (h.present i hi p), h'.top.trans h.top, h'.start.trans h.start⟩

theorem setPmd_low {pt : PageTables} (h : KernelTables pt) {idx : Nat} (low : idx < kernelPgd)
    (pmd : Nat) : KernelTables (setPmd pt idx pmd) ∧ Extends pt (setPmd pt idx pmd) ∧
      ∀ q < 2 ^ 18, translation (setPmd pt idx pmd) q = translation pt q := by
  have same : ∀ i, kernelPgd ≤ i → (setPmd pt idx pmd).pgd i = pt.pgd i := by
    intro i hi
    exact Function.update_of_ne (by omega) _ _
  refine ⟨⟨?_, ?_, h.within, h.top⟩, ⟨?_, rfl, rfl⟩, ?_⟩
  · intro i j hi hi' hj hj' ne
    rw [same i hi, same j hj]
    exact h.apart i j hi hi' hj hj' ne
  · intro i hi hi'
    rw [same i hi]
    exact h.clear i hi hi'
  · intro i hi
    rw [same i hi]
    exact id
  · intro q hq
    rw [translation_eq _ hq, translation_eq _ hq, entryAt, entryAt, same _ (Nat.le_add_right _ _)]
    rfl

theorem entryAt_setPte_self {pt : PageTables} {idx : Nat} (here : Present (pt.pgd idx)) {pte : Nat}
    (hpte : Present pte) (ofs : Nat) :
    entryAt (setPte pt (entryFrame (pt.pgd idx)) ofs pte) idx ofs = some pte := by
  simp [entryAt, setPte, here, hpte]

theorem entryAt_setPte_ne {pt : PageTables} (h : KernelTables pt) {idx : Nat}
    (hidx : kernelPgd ≤ idx) (lt : idx < ptrsPerPgd) (here : Present (pt.pgd idx)) {ofs pte : Nat}
    {i o : Nat} (hi : kernelPgd ≤ i) (hi' : i < ptrsPerPgd) (ne : i ≠ idx ∨ o ≠ ofs) :
    entryAt (setPte pt (entryFrame (pt.pgd idx)) ofs pte) i o = entryAt pt i o := by
  by_cases present : Present (pt.pgd i)
  · have read : (setPte pt (entryFrame (pt.pgd idx)) ofs pte).ram (entryFrame (pt.pgd i)) o =
        pt.ram (entryFrame (pt.pgd i)) o := by
      by_cases same : i = idx
      · subst same
        simp [setPte, ne.resolve_left (fun n => n rfl)]
      · have other := h.apart i idx hi hi' hidx lt same present here
        simp [setPte, other]
    rw [entryAt, entryAt, show (setPte pt (entryFrame (pt.pgd idx)) ofs pte).pgd = pt.pgd from rfl,
      read]
  · have still : ¬ Present ((setPte pt (entryFrame (pt.pgd idx)) ofs pte).pgd i) := present
    rw [entryAt_absent present, entryAt_absent still]

/-- Writing an entry changes the translation of one frame. -/
theorem setPte_translation {pt : PageTables} (h : KernelTables pt) {p : Nat} (hp : p < 2 ^ 18)
    (here : Present (pt.pgd (kernelPgd + p / 1024))) {pte : Nat} (hpte : Present pte) {q : Nat}
    (hq : q < 2 ^ 18) :
    translation (setPte pt (entryFrame (pt.pgd (kernelPgd + p / 1024))) (p % 1024) pte) q =
      if q = p then some pte else translation pt q := by
  rw [translation_eq _ hq, translation_eq _ hq]
  by_cases same : q = p
  · subst same
    rw [if_pos rfl, entryAt_setPte_self here hpte]
  · rw [if_neg same]
    exact entryAt_setPte_ne h (Nat.le_add_right _ _) (kernelPgd_add_lt hp) here
      (Nat.le_add_right _ _) (kernelPgd_add_lt hq) (by omega)

theorem setPte_tables {pt : PageTables} (h : KernelTables pt) (frame ofs pte : Nat) :
    KernelTables (setPte pt frame ofs pte) :=
  ⟨h.apart, h.clear, h.within, h.top⟩

/-- The entry and the state that a new table leaves. -/
theorem onePageTableInit_absent {pt : PageTables} {idx : Nat} (top : pt.pgtBufTop ≤ 2 ^ 20)
    (absent : ¬ Present (pt.pgd idx)) (room : pt.pgtBufEnd < pt.pgtBufTop) :
    onePageTableInit pt idx = .ok (pt.pgtBufEnd,
      { pt with
        pgd := Function.update pt.pgd idx (pt.pgtBufEnd * pageSize ||| pageTableFlags)
        ram := Function.update pt.ram pt.pgtBufEnd fun _ => 0
        pgtBufEnd := pt.pgtBufEnd + 1 }) := by
  have bytes : pt.pgtBufEnd * pageSize < 2 ^ 32 := by rw [pageSize]; omega
  have next : u32 (pt.pgtBufEnd + 1) = pt.pgtBufEnd + 1 := wrap_of_lt (by omega)
  rw [onePageTableInit, if_neg absent, allocLowPage, if_neg (by omega)]
  simp only [ok_bind, u32_shiftLeft (show pt.pgtBufEnd < 2 ^ 20 by omega), pa_va_of_lt bytes,
    mul_pageSize_shiftRight, next, setPmd, Function.update_self,
    entryFrame_entry (show pt.pgtBufEnd < 2 ^ 20 by omega) (show pageTableFlags < pageSize by decide)]
  rfl

/-- The table of an entry is there afterwards, nothing is translated differently, and a
table is taken from the buffer only for an absent entry. -/
structure TableReady (pt : PageTables) (idx : Nat) (pt' : PageTables) : Prop where
  tables : KernelTables pt'
  grows : Extends pt pt'
  here : Present (pt'.pgd idx)
  others : ∀ i, i ≠ idx → pt'.pgd i = pt.pgd i
  same : ∀ q < 2 ^ 18, translation pt' q = translation pt q
  spent : pt'.pgtBufEnd = if Present (pt.pgd idx) then pt.pgtBufEnd else pt.pgtBufEnd + 1

theorem newTable_ready {pt : PageTables} (h : KernelTables pt) {idx : Nat} (hidx : kernelPgd ≤ idx)
    (lt : idx < ptrsPerPgd) (absent : ¬ Present (pt.pgd idx))
    (room : pt.pgtBufEnd < pt.pgtBufTop) :
    TableReady pt idx
      { pt with
        pgd := Function.update pt.pgd idx (pt.pgtBufEnd * pageSize ||| pageTableFlags)
        ram := Function.update pt.ram pt.pgtBufEnd fun _ => 0
        pgtBufEnd := pt.pgtBufEnd + 1 } := by
  have top := h.top
  have new : Present (pt.pgtBufEnd * pageSize ||| pageTableFlags) :=
    present_entry (by decide) (by decide)
  have frame : entryFrame (pt.pgtBufEnd * pageSize ||| pageTableFlags) = pt.pgtBufEnd :=
    entryFrame_entry (by omega) (by decide)
  have old : ∀ i, i ≠ idx → Function.update pt.pgd idx
      (pt.pgtBufEnd * pageSize ||| pageTableFlags) i = pt.pgd i := fun i ne =>
    Function.update_of_ne ne _ _
  -- the new table is none of the old ones
  have fresh : ∀ i, kernelPgd ≤ i → i < ptrsPerPgd → Present (pt.pgd i) →
      entryFrame (pt.pgd i) ≠ pt.pgtBufEnd := by
    intro i hi hi' present
    have := h.clear i hi hi' present
    omega
  refine ⟨⟨?_, ?_, room, top⟩, ⟨?_, rfl, rfl⟩, by simpa using new, old, ?_, by simp [absent]⟩
  · intro i j hi hi' hj hj' ne
    dsimp only
    by_cases hidx : i = idx
    · have other : j ≠ idx := fun e => ne (hidx.trans e.symm)
      rw [hidx, Function.update_self, old j other, frame]
      intro _ present
      exact (fresh j hj hj' present).symm
    · rw [old i hidx]
      by_cases hjdx : j = idx
      · rw [hjdx, Function.update_self, frame]
        intro present _
        exact fresh i hi hi' present
      · rw [old j hjdx]
        exact h.apart i j hi hi' hj hj' ne
  · intro i hi hi'
    dsimp only
    by_cases hidx : i = idx
    · rw [hidx, Function.update_self, frame]
      omega
    · rw [old i hidx]
      intro present
      have := h.clear i hi hi' present
      omega
  · intro i _ present
    dsimp only
    by_cases hidx : i = idx
    · rw [hidx, Function.update_self]
      exact new
    · rwa [old i hidx]
  · intro q hq
    rw [translation_eq _ hq, translation_eq _ hq]
    have lower := Nat.le_add_right kernelPgd (q / 1024)
    have upper := kernelPgd_add_lt hq
    generalize kernelPgd + q / 1024 = i at lower upper ⊢
    by_cases hidx : i = idx
    · subst hidx
      rw [entryAt_absent absent]
      simp [entryAt, frame, not_present_zero]
    · by_cases present : Present (pt.pgd i)
      · have other := fresh i lower upper present
        simp [entryAt, hidx, other]
      · rw [entryAt_absent present, entryAt_absent (by simpa [hidx] using present)]

/-- The table is found, or made out of a page of the buffer. -/
theorem onePageTableInit_ready {pt : PageTables} (h : KernelTables pt) {idx : Nat}
    (hidx : kernelPgd ≤ idx) (lt : idx < ptrsPerPgd)
    (room : ¬ Present (pt.pgd idx) → pt.pgtBufEnd < pt.pgtBufTop) :
    ∃ pt', onePageTableInit pt idx = .ok (entryFrame (pt'.pgd idx), pt') ∧
      TableReady pt idx pt' := by
  by_cases present : Present (pt.pgd idx)
  · refine ⟨pt, if_pos present, h, Extends.refl pt, present, fun _ _ => rfl, fun _ _ => rfl, ?_⟩
    rw [if_pos present]
  · have ready := newTable_ready h hidx lt present (room present)
    refine ⟨_, ?_, ready⟩
    have top := h.top
    have end_ := room present
    have frame : entryFrame (pt.pgtBufEnd * pageSize ||| pageTableFlags) = pt.pgtBufEnd :=
      entryFrame_entry (by omega) (by decide)
    dsimp only
    rw [onePageTableInit_absent top present end_, Function.update_self, frame]

end XcKernel.Mm
