import XcKernel.Paging.Tables

/-!
# The direct mapping

Each pass over a range of frames maps every frame of the range to itself and
no other frame of the kernel's part of the address space.  The buffer holds
enough pages for the tables that are missing when the first pass starts; the
second pass finds them all.
-/

namespace XcKernel.Mm

open Word

/-- The walk at the kernel's address of a frame reaches a present entry with that frame. -/
def HoldsFrame (pt : PageTables) (q : Nat) : Prop :=
  ∃ entry, translation pt q = some entry ∧ Present entry ∧ entryFrame entry = q

/-- The frames from `lo` to `hi` are mapped and no others are touched. -/
structure Maps (pt pt' : PageTables) (lo hi : Nat) : Prop where
  tables : KernelTables pt'
  grows : Extends pt pt'
  inside : ∀ q, lo ≤ q → q < hi → HoldsFrame pt' q
  outside : ∀ q < 2 ^ 18, ¬ (lo ≤ q ∧ q < hi) → translation pt' q = translation pt q

theorem Maps.refl {pt : PageTables} (h : KernelTables pt) (n : Nat) : Maps pt pt n n :=
  ⟨h, Extends.refl pt, fun _ _ _ => by omega, fun _ _ _ => rfl⟩

theorem Maps.trans {a b c : PageTables} {lo mid hi : Nat} (h : Maps a b lo mid)
    (h' : Maps b c mid hi) (hlo : lo ≤ mid) (hhi : mid ≤ hi) (top : hi ≤ 2 ^ 18) :
    Maps a c lo hi := by
  refine ⟨h'.tables, h.grows.trans h'.grows, ?_, ?_⟩
  · intro q low high
    by_cases first : q < mid
    · have kept := h'.outside q (by omega) (by omega)
      obtain ⟨entry, read, rest⟩ := h.inside q low first
      exact ⟨entry, kept.trans read, rest⟩
    · exact h'.inside q (by omega) high
  · intro q hq out
    rw [h'.outside q hq (by omega), h.outside q hq (by omega)]

theorem Maps.after_ready {a b c : PageTables} {idx lo hi : Nat} (h : TableReady a idx b)
    (h' : Maps b c lo hi) : Maps a c lo hi :=
  ⟨h'.tables, h.grows.trans h'.grows, h'.inside, fun q hq out =>
    (h'.outside q hq out).trans (h.same q hq)⟩

theorem pfnPte_holds {p prot : Nat} (hp : p < 2 ^ 18) (hprot : prot < pageSize ∧ prot % 2 = 1) :
    Present (pfnPte p prot) ∧ entryFrame (pfnPte p prot) = p := by
  rw [pfnPte, u32_shiftLeft (by omega)]
  exact ⟨present_entry hprot.1 hprot.2, entryFrame_entry (by omega) hprot.1⟩

theorem setPte_maps {pt : PageTables} (h : KernelTables pt) {p prot : Nat} (hp : p < 2 ^ 18)
    (here : Present (pt.pgd (kernelPgd + p / 1024))) (hprot : prot < pageSize ∧ prot % 2 = 1) :
    Maps pt (setPte pt (entryFrame (pt.pgd (kernelPgd + p / 1024))) (p % 1024) (pfnPte p prot))
      p (p + 1) := by
  obtain ⟨present, frame⟩ := pfnPte_holds hp hprot
  refine ⟨setPte_tables h _ _ _, ⟨fun _ _ still => still, rfl, rfl⟩, ?_, ?_⟩
  · intro q low high
    obtain rfl : q = p := by omega
    refine ⟨pfnPte q prot, ?_, present, frame⟩
    rw [setPte_translation h hp here present hp, if_pos rfl]
  · intro q hq out
    rw [setPte_translation h hp here present hq, if_neg (by omega)]

/-- What one call of the inner loop does: it maps up to the end of the table or of the
range and leaves the directory and the buffer alone. -/
structure Fills (m m' : Mapping) (hi : Nat) : Prop where
  maps : Maps m.tables m'.tables m.pfn hi
  pfn : m'.pfn = hi
  pgd : m'.tables.pgd = m.tables.pgd
  end_ : m'.tables.pgtBufEnd = m.tables.pgtBufEnd

theorem pteLoop_fills (k : KernelText) (mappingIter : Nat) {endPfn c : Nat}
    (hend : endPfn ≤ 2 ^ 18) {m : Mapping} (h : KernelTables m.tables)
    (here : Present (m.tables.pgd (kernelPgd + c))) (addr : Nat) {pteOfs : Nat}
    (hofs : pteOfs ≤ 1024) (hpfn : m.pfn = c * 1024 + pteOfs) (le : m.pfn ≤ endPfn) :
    Fills m (pteLoop k mappingIter endPfn (entryFrame (m.tables.pgd (kernelPgd + c))) addr pteOfs m)
      (min endPfn (c * 1024 + 1024)) := by
  -- on the number of entries left in the table
  induction hn : 1024 - pteOfs generalizing m addr pteOfs with
  | zero =>
    rw [pteLoop, if_neg (by rw [ptrsPerPte]; omega), show min endPfn (c * 1024 + 1024) = m.pfn by omega]
    exact ⟨Maps.refl h _, rfl, rfl, rfl⟩
  | succ n ih =>
    by_cases more : m.pfn < endPfn
    · rw [pteLoop, if_pos ⟨by rw [ptrsPerPte]; omega, more⟩]
      have table : m.pfn / 1024 = c := by omega
      have ofs : m.pfn % 1024 = pteOfs := by omega
      have step := setPte_maps h (show m.pfn < 2 ^ 18 by omega) (by rw [table]; exact here)
        (passProt_attr k mappingIter addr)
      rw [table, ofs] at step
      have rest := ih (m := ⟨setPte m.tables (entryFrame (m.tables.pgd (kernelPgd + c))) pteOfs
          (pfnPte m.pfn (passProt k mappingIter addr)), m.pfn + 1,
          if mappingIter = 1 then u32 (u32 (m.pfn <<< pageShift) + pageSize) else m.lastMapAddr⟩)
        step.tables here (u32 (addr + pageSize)) (show pteOfs + 1 ≤ 1024 by omega)
        (by dsimp only; omega) more (by omega)
      exact ⟨step.trans rest.maps (Nat.le_succ _) (by omega) (by omega), rest.pfn,
        rest.pgd, rest.end_⟩
    · rw [pteLoop, if_neg (by omega), show min endPfn (c * 1024 + 1024) = m.pfn by omega]
      exact ⟨Maps.refl h _, rfl, rfl, rfl⟩

/-- How many of `n` directory entries have no table. -/
def missingTables (pt : PageTables) (idx n : Nat) : Nat :=
  (List.range' idx n).countP fun i => ¬ Present (pt.pgd i)

theorem missingTables_succ (pt : PageTables) (idx n : Nat) :
    missingTables pt idx (n + 1) =
      missingTables pt (idx + 1) n + if Present (pt.pgd idx) then 0 else 1 := by
  rw [missingTables, List.range'_succ, List.countP_cons, missingTables]
  by_cases present : Present (pt.pgd idx) <;> simp [present]

theorem missingTables_le (pt : PageTables) (idx n : Nat) : missingTables pt idx n ≤ n := by
  have := List.countP_le_length (p := fun i => decide ¬ Present (pt.pgd i)) (l := List.range' idx n)
  rwa [List.length_range'] at this

theorem missingTables_congr {pt pt' : PageTables} {idx n : Nat}
    (h : ∀ i, idx ≤ i → pt'.pgd i = pt.pgd i) : missingTables pt' idx n = missingTables pt idx n := by
  refine List.countP_congr fun i hi => ?_
  rw [h i (List.mem_range'_1.mp hi).1]

theorem missingTables_zero {pt : PageTables} {idx n : Nat}
    (h : ∀ i, idx ≤ i → i < idx + n → Present (pt.pgd i)) : missingTables pt idx n = 0 := by
  refine List.countP_eq_zero.mpr fun i hi => ?_
  obtain ⟨low, high⟩ := List.mem_range'_1.mp hi
  simpa using h i low high

/-- The tables that the frames from `pfn` to `endPfn` need. -/
def tablesFor (pfn endPfn : Nat) : Nat := (endPfn + 1023) / 1024 - pfn / 1024

/-- The buffer has a page for each table that is missing. -/
def Budget (pt : PageTables) (pfn endPfn : Nat) : Prop :=
  pt.pgtBufEnd + missingTables pt (kernelPgd + pfn / 1024) (tablesFor pfn endPfn) ≤ pt.pgtBufTop

/-- One round of the loop over the directory, at the table of the next frame. -/
theorem pgdBody_maps (k : KernelText) (mappingIter : Nat) {endPfn : Nat} (hend : endPfn ≤ 2 ^ 18)
    {m : Mapping} (h : KernelTables m.tables) (more : m.pfn < endPfn)
    (budget : Budget m.tables m.pfn endPfn) :
    ∃ m', pgdBody k mappingIter endPfn (kernelPgd + m.pfn / 1024) m = .ok m' ∧
      Maps m.tables m'.tables m.pfn m'.pfn ∧ m'.pfn = min endPfn (m.pfn / 1024 * 1024 + 1024) ∧
      m'.tables.pgtBufEnd +
        missingTables m'.tables (kernelPgd + m.pfn / 1024 + 1) (tablesFor m.pfn endPfn - 1) ≤
          m'.tables.pgtBufTop := by
  have small : m.pfn < 2 ^ 18 := by omega
  have count : tablesFor m.pfn endPfn = tablesFor m.pfn endPfn - 1 + 1 := by
    rw [tablesFor]
    omega
  have split := missingTables_succ m.tables (kernelPgd + m.pfn / 1024) (tablesFor m.pfn endPfn - 1)
  rw [← count] at split
  rw [Budget, split] at budget
  obtain ⟨pt, init, ready⟩ := onePageTableInit_ready h (Nat.le_add_right _ _)
    (kernelPgd_add_lt small) (by intro absent; rw [if_neg absent] at budget; omega)
  have ofs : pteIndex (u32 (m.pfn <<< pageShift) + pageOffset) = m.pfn % 1024 := by
    rw [u32_shiftLeft (by omega), pteIndex_kernel]
  have fills := pteLoop_fills k mappingIter hend (m := { m with tables := pt }) ready.tables
    ready.here (u32 (u32 (m.pfn * pageSize) + pageOffset)) (Nat.mod_lt _ (by decide)).le
    (Nat.div_add_mod' m.pfn 1024).symm more.le
  refine ⟨_, ?_, Maps.after_ready ready (fills.pfn ▸ fills.maps), fills.pfn, ?_⟩
  · rw [pgdBody, if_pos more, init, ok_bind, ofs]
    rfl
  · have later : ∀ i, kernelPgd + m.pfn / 1024 + 1 ≤ i → pt.pgd i = m.tables.pgd i := by
      intro i hi
      exact ready.others i (by omega)
    have same := missingTables_congr (n := tablesFor m.pfn endPfn - 1) later
    rw [fills.end_, fills.maps.grows.top, missingTables, fills.pgd, ← missingTables]
    dsimp only
    rw [same, ready.spent, ready.grows.top]
    split_ifs at budget ⊢ <;> omega

theorem pgdLoop_done (k : KernelText) (mappingIter : Nat) {endPfn : Nat} (idx : Nat) {m : Mapping}
    (done : endPfn ≤ m.pfn) : pgdLoop k mappingIter endPfn idx m = .ok m := by
  induction hn : ptrsPerPgd - idx generalizing idx with
  | zero => rw [pgdLoop, if_neg (by omega)]; rfl
  | succ n ih =>
    rw [pgdLoop, if_pos (by omega), pgdBody, if_neg (by omega)]
    exact ih (idx + 1) (by omega)

/-- A pass maps all the frames that are left. -/
theorem pgdLoop_maps (k : KernelText) (mappingIter : Nat) {endPfn : Nat} (hend : endPfn ≤ 2 ^ 18)
    {m : Mapping} (h : KernelTables m.tables) (le : m.pfn ≤ endPfn)
    (budget : Budget m.tables m.pfn endPfn) :
    ∃ m', pgdLoop k mappingIter endPfn (kernelPgd + m.pfn / 1024) m = .ok m' ∧
      Maps m.tables m'.tables m.pfn endPfn := by
  induction hn : endPfn - m.pfn using Nat.strongRecOn generalizing m with
  | ind n ih =>
    by_cases more : m.pfn < endPfn
    · obtain ⟨m₁, body, maps, hpfn, left⟩ := pgdBody_maps k mappingIter hend h more budget
      have step : pgdLoop k mappingIter endPfn (kernelPgd + m.pfn / 1024) m =
          pgdLoop k mappingIter endPfn (kernelPgd + m.pfn / 1024 + 1) m₁ := by
        rw [pgdLoop, if_pos (kernelPgd_add_lt (by omega)), body, ok_bind]
      rw [step]
      by_cases last : m₁.pfn = endPfn
      · exact ⟨m₁, pgdLoop_done k mappingIter _ last.ge, last ▸ maps⟩
      · -- the next frame is the first one of the next table
        have next : m₁.pfn / 1024 = m.pfn / 1024 + 1 := by omega
        have tables : tablesFor m₁.pfn endPfn = tablesFor m.pfn endPfn - 1 := by
          rw [tablesFor, tablesFor, next]
          omega
        rw [Nat.add_assoc, ← next] at left ⊢
        rw [← tables] at left
        obtain ⟨m₂, loop, rest⟩ := ih (endPfn - m₁.pfn) (by omega) maps.tables (by omega) left rfl
        exact ⟨m₂, loop, maps.trans rest (by omega) (by omega) hend⟩
    · have done : m.pfn = endPfn := by omega
      exact ⟨m, pgdLoop_done k mappingIter _ done.ge, done ▸ Maps.refl h _⟩

theorem HoldsFrame.present {pt : PageTables} {q : Nat} (hq : q < 2 ^ 18) (h : HoldsFrame pt q) :
    Present (pt.pgd (kernelPgd + q / 1024)) := by
  obtain ⟨entry, read, -⟩ := h
  rw [translation_eq pt hq] at read
  by_contra absent
  rw [entryAt_absent absent] at read
  cases read

theorem budget_of_mapped {pt : PageTables} (h : KernelTables pt) {p e : Nat} (lt : p < e)
    (he : e ≤ 2 ^ 18) (mapped : ∀ q, p ≤ q → q < e → HoldsFrame pt q) : Budget pt p e := by
  have none : missingTables pt (kernelPgd + p / 1024) (tablesFor p e) = 0 := by
    refine missingTables_zero fun i low high => ?_
    rw [tablesFor] at high
    -- a frame of the range in the table of entry `i`
    have frame : ∃ q, p ≤ q ∧ q < e ∧ kernelPgd + q / 1024 = i := by
      by_cases first : i = kernelPgd + p / 1024
      · exact ⟨p, le_rfl, by omega, first.symm⟩
      · exact ⟨(i - kernelPgd) * 1024, by omega, by omega, by omega⟩
    obtain ⟨q, hp, hq, rfl⟩ := frame
    exact (mapped q hp hq).present (by omega)
  have within := h.within
  rw [Budget, none]
  omega

theorem kernelPhysicalMappingInit_maps (k : KernelText) {p e : Nat} (lt : p < e) (he : e < 2 ^ 18)
    {pt : PageTables} (h : KernelTables pt) (budget : Budget pt p e) :
    ∃ ret pt', kernelPhysicalMappingInit k (p * pageSize) (e * pageSize) pt = .ok (ret, pt') ∧
      Maps pt pt' p e := by
  have idx : pgdIndex (u32 (p <<< pageShift) + pageOffset) = kernelPgd + p / 1024 := by
    rw [u32_shiftLeft (by omega), pgdIndex_kernel (by omega)]
  obtain ⟨m₁, pass₁, maps₁⟩ := pgdLoop_maps k 1 he.le (m := ⟨pt, p, e * pageSize⟩) h lt.le budget
  obtain ⟨tables, grows, same⟩ := setPmd_low maps₁.tables (show 0 < kernelPgd by decide) 0
  have still : ∀ q, p ≤ q → q < e → HoldsFrame (setPmd m₁.tables 0 0) q := by
    intro q low high
    obtain ⟨entry, read, rest⟩ := maps₁.inside q low high
    exact ⟨entry, (same q (by omega)).trans read, rest⟩
  obtain ⟨m₂, pass₂, maps₂⟩ := pgdLoop_maps k 2 he.le
    (m := ⟨setPmd m₁.tables 0 0, p, m₁.lastMapAddr⟩) tables lt.le
    (budget_of_mapped tables lt he.le still)
  refine ⟨m₂.lastMapAddr, m₂.tables, ?_, maps₂.tables, ?_, maps₂.inside, ?_⟩
  · simp only [kernelPhysicalMappingInit, mul_pageSize_shiftRight, idx]
    rw [pass₁, ok_bind, pass₂, ok_bind]
    rfl
  · exact (maps₁.grows.trans grows).trans maps₂.grows
  · intro q hq out
    rw [maps₂.outside q hq out, same q hq, maps₁.outside q hq out]

theorem tableBytes_pages {e : Nat} (he : e < 2 ^ 18) :
    ∃ n, tableBytes (e * pageSize) = n * pageSize ∧ (e + 1023) / 1024 ≤ n := by
  have roundup_eq : ∀ x < 2 ^ 31, roundup x pageSize = (x + 4095) / 4096 * pageSize := by
    intro x hx
    simp only [roundup, u32, wrap, pageSize]
    omega
  have blocks : u32 (e * pageSize + pmdSize - 1) >>> pmdShift = (e + 1023) / 1024 := by
    simp only [u32, wrap, pageSize, pmdSize, pmdShift, Nat.shiftLeft_eq, Nat.shiftRight_eq_div_pow]
    omega
  have pages : u32 (e * pageSize + pageSize - 1) >>> pageShift = e := by
    simp only [u32, wrap, pageSize, pageShift, Nat.shiftRight_eq_div_pow]
    omega
  have entries : ∀ n < 2 ^ 18, u32 (n * 4) = n * 4 := by
    intro n hn
    exact wrap_of_lt (by omega)
  simp only [tableBytes, show pudSize = pmdSize from rfl, show pudShift = pmdShift from rfl, blocks,
    pages, entrySize, entries e he, entries ((e + 1023) / 1024) (by omega), endOfFixedAddresses]
  rw [roundup_eq _ (by omega), roundup_eq _ (by omega), roundup_eq _ (by omega)]
  refine ⟨((e + 1023) / 1024 * 4 + 4095) / 4096 + ((e + 1023) / 1024 * 4 + 4095) / 4096 +
    (e * 4 + 4095) / 4096 + 1, ?_, by omega⟩
  simp only [u32, wrap, pageSize]
  omega

theorem memblockFindInRange_below {memblock : Memblock} (boot : Bootable memblock)
    {size start end_ : Nat}
    (found : memblockFindInRange memblock start end_ size pageSize ≠ memblockError) :
    memblockFindInRange memblock start end_ size pageSize + size ≤
      max end_ memblock.currentLimit := by
  obtain ⟨_, memory⟩ := boot.memory
  obtain ⟨_, reserved⟩ := boot.reserved
  obtain ⟨r, -, fits⟩ := findBaseLoop_fits (k := 12) (by decide) memory.fits reserved.fits _ found
  have below := fits.below
  have clipped := Nat.min_le_right (r.base + r.size) (if end_ = 0 then memblock.currentLimit else end_)
  have limit : (if end_ = 0 then memblock.currentLimit else end_) ≤ max end_ memblock.currentLimit := by
    split_ifs <;> omega
  exact (below.trans clipped).trans limit

/-- A buffer that was found lies below 4 GB and has a page for every table. -/
theorem findEarlyTableSpace_found {memblock : Memblock} (boot : Bootable memblock)
    {maxPfnMapped e : Nat} (he : e < 2 ^ 18) {pt pt' : PageTables}
    (found : findEarlyTableSpace memblock maxPfnMapped (e * pageSize) pt = .ok pt') :
    pt'.pgd = pt.pgd ∧ pt'.ram = pt.ram ∧ pt'.pgtBufEnd = pt'.pgtBufStart ∧
      pt'.pgtBufStart + (e + 1023) / 1024 ≤ pt'.pgtBufTop ∧ pt'.pgtBufTop ≤ 2 ^ 20 := by
  obtain ⟨n, bytes, enough⟩ := tableBytes_pages he
  have mapped := boot.mapped
  have limit : u32 (maxPfnMapped <<< pageShift) < 2 ^ 32 := wrap_lt 32 _
  rw [findEarlyTableSpace, bytes] at found
  dsimp only at found
  split_ifs at found with missed
  obtain rfl := Except.ok.inj found
  have below := memblockFindInRange_below boot missed
  generalize memblockFindInRange memblock 0 (u32 (maxPfnMapped <<< pageShift)) (n * pageSize)
    pageSize = base at below ⊢
  have room : base + n * 4096 ≤ 2 ^ 32 := by
    rw [pageOffset] at mapped
    rw [pageSize] at below
    omega
  have start : u32 (base >>> pageShift) = base / 4096 := by
    simp only [u32, wrap, pageShift, Nat.shiftRight_eq_div_pow]
    omega
  rw [start, mul_pageSize_shiftRight,
    show u32 (base / 4096 + n) = base / 4096 + n from wrap_of_lt (by omega)]
  exact ⟨rfl, rfl, rfl, by dsimp only; omega, by dsimp only; omega⟩

theorem budget_of_found {pt : PageTables} {p e : Nat}
    (enough : pt.pgtBufEnd + (e + 1023) / 1024 ≤ pt.pgtBufTop) : Budget pt p e := by
  have count := missingTables_le pt (kernelPgd + p / 1024) (tablesFor p e)
  rw [Budget]
  rw [tablesFor] at count ⊢
  omega

/-- The merged ranges are mapped by one call, or there is nothing to map. -/
theorem mapRanges_maps (k : KernelText) {r : MapRanges} {p e : Nat}
    (covers : EndToEnd r (p * pageSize) (e * pageSize)) (one : r.nrRange ≤ 1) (he : e < 2 ^ 18)
    {pt : PageTables} (h : KernelTables pt) (budget : Budget pt p e) :
    ∃ ret pt', mapRanges k r 0 0 pt = .ok (ret, pt') ∧ Maps pt pt' p e := by
  rcases Nat.eq_zero_or_pos r.nrRange with zero | pos
  · have same : p = e := Nat.eq_of_mul_eq_mul_right (by decide) (covers.none zero)
    refine ⟨0, pt, ?_, same ▸ Maps.refl h p⟩
    rw [mapRanges, if_neg (by omega)]
    rfl
  · have lt : p < e := Nat.lt_of_mul_lt_mul_right (covers.some pos)
    have last := covers.last pos
    rw [show r.nrRange - 1 = 0 by omega] at last
    obtain ⟨ret, pt', call, maps⟩ := kernelPhysicalMappingInit_maps k lt he h budget
    refine ⟨ret, pt', ?_, maps⟩
    rw [mapRanges, if_pos pos, covers.first pos, last, call, ok_bind]
    dsimp only
    rw [mapRanges, if_neg (by omega)]
    rfl

/-- The call returns, every frame of the range is then mapped to itself and no
other translation of the kernel is changed. -/
theorem init_memory_mapping_direct {s : Logged} (reachable : Relation.ReflTransGen AddStep .init s)
    {limit : Nat} (mapped : limit ≤ 2 ^ 32 - pageOffset) (k : KernelText)
    {maxPfnMapped start end_ : Nat} (startAligned : pageSize ∣ start) (endAligned : pageSize ∣ end_)
    (le : start ≤ end_) (hmax : end_ ≤ maxmem) {pt buffer : PageTables}
    (found : findEarlyTableSpace (BootState.start s limit).memblock maxPfnMapped end_ pt =
      .ok buffer)
    (distinct : ∀ i j, kernelPgd ≤ i → i < ptrsPerPgd → kernelPgd ≤ j → j < ptrsPerPgd → i ≠ j →
      Present (pt.pgd i) → Present (pt.pgd j) → entryFrame (pt.pgd i) ≠ entryFrame (pt.pgd j))
    (outside : ∀ i, kernelPgd ≤ i → i < ptrsPerPgd → Present (pt.pgd i) →
      ¬ (buffer.pgtBufStart ≤ entryFrame (pt.pgd i) ∧
        entryFrame (pt.pgd i) < buffer.pgtBufTop)) :
    ∃ r, initMemoryMapping k (BootState.start s limit).memblock maxPfnMapped start end_ pt =
        .ok r ∧
      (∀ p, start >>> pageShift ≤ p → p < end_ >>> pageShift → HoldsFrame r.tables p) ∧
      ∀ q < 2 ^ 18, ¬ (start >>> pageShift ≤ q ∧ q < end_ >>> pageShift) →
        translation r.tables q = translation pt q := by
  obtain ⟨p, rfl⟩ := startAligned
  obtain ⟨e, rfl⟩ := endAligned
  simp only [Nat.mul_comm pageSize] at *
  have he := lt_of_le_maxmem hmax
  have ple : p ≤ e := Nat.le_of_mul_le_mul_right le (by decide)
  have boot := (bootInv_start reachable mapped).bootable
  obtain ⟨pgd, ram, fresh, enough, top⟩ := findEarlyTableSpace_found boot he found
  have tables : KernelTables buffer := by
    refine ⟨pgd ▸ distinct, fun i hi hi' present => ?_, by omega, top⟩
    have := outside i hi hi' (pgd ▸ present)
    rw [pgd]
    omega
  obtain ⟨r, cut, covers⟩ := cutRanges_endToEnd ple hmax
  obtain ⟨merged, one⟩ := mergeLoop_endToEnd covers
  obtain ⟨ret, pt', call, maps⟩ := mapRanges_maps k merged one he tables
    (budget_of_found (by omega))
  have whole : ∃ r, initMemoryMapping k (BootState.start s limit).memblock maxPfnMapped
      (p * pageSize) (e * pageSize) pt = .ok r ∧ r.tables = pt' := by
    rw [initMemoryMapping, cut, ok_bind, found, ok_bind, call, ok_bind]
    exact ⟨_, rfl, rfl⟩
  obtain ⟨r, result, rfl⟩ := whole
  rw [mul_pageSize_shiftRight, mul_pageSize_shiftRight]
  refine ⟨r, result, maps.inside, fun q hq out => ?_⟩
  have same : translation buffer q = translation pt q := by
    rw [translation, translation, walk, walk, pgd, ram]
  exact (maps.outside q hq out).trans same

/-- 16 MiB of memory with a kernel of 1 MiB in it. -/
def smallMachine : Logged :=
  (Logged.init.after (.add 0 0x1000000)).after (.reserve 0x100000 0x100000)

/-- The tables that `head_32.S` leaves: 8 MiB, at address 0 and at `PAGE_OFFSET`. -/
def earlyTables : PageTables where
  pgd := fun i =>
    if i = 0 ∨ i = 768 then 0x180067 else if i = 1 ∨ i = 769 then 0x181067 else 0
  ram := fun frame ofs =>
    if frame = 0x180 then ofs * 4096 + 3
    else if frame = 0x181 then (1024 + ofs) * 4096 + 3
    else 0
  pgtBufStart := 0
  pgtBufEnd := 0
  pgtBufTop := 0

theorem smallMachine_tableSpace :
    findEarlyTableSpace (BootState.start smallMachine 0x800000).memblock 0x800 0xfff000 earlyTables =
      .ok { earlyTables with pgtBufStart := 0x7f9, pgtBufEnd := 0x7f9, pgtBufTop := 0x800 } := by
  have base : memblockFindInRange (BootState.start smallMachine 0x800000).memblock 0
      (u32 (0x800 <<< pageShift)) (tableBytes 0xfff000) pageSize = 0x7f9000 := by decide +kernel
  rw [findEarlyTableSpace, base]
  rfl

theorem init_memory_mapping_smallMachine :
    ∃ r, initMemoryMapping ⟨0xc0100000, 0xc01fffff⟩ (BootState.start smallMachine 0x800000).memblock
        0x800 0x1000 0xfff000 earlyTables = .ok r ∧
      (∀ p, 0x1000 >>> pageShift ≤ p → p < 0xfff000 >>> pageShift → HoldsFrame r.tables p) ∧
      ∀ q < 2 ^ 18, ¬ (0x1000 >>> pageShift ≤ q ∧ q < 0xfff000 >>> pageShift) →
        translation r.tables q = translation earlyTables q := by
  have entry : ∀ i, kernelPgd ≤ i → Present (earlyTables.pgd i) →
      (i = 768 ∧ entryFrame (earlyTables.pgd i) = 0x180) ∨
        (i = 769 ∧ entryFrame (earlyTables.pgd i) = 0x181) := by
    intro i hi present
    rw [kernelPgd] at hi
    by_cases first : i = 768
    · subst first
      exact .inl ⟨rfl, rfl⟩
    · by_cases second : i = 769
      · subst second
        exact .inr ⟨rfl, rfl⟩
      · have zero : earlyTables.pgd i = 0 := by
          simp only [earlyTables]
          rw [if_neg (by omega), if_neg (by omega)]
        exact absurd (zero ▸ present) not_present_zero
  refine init_memory_mapping_direct
    (.tail (.single (.call _ _ (by decide))) (.call _ _ (by decide))) (by decide) _ (by decide)
    (by decide) (by decide) (by decide) smallMachine_tableSpace ?_ ?_
  · intro i j hi _ hj _ ne presentI presentJ
    have := entry i hi presentI
    have := entry j hj presentJ
    omega
  · intro i hi _ present
    have := entry i hi present
    dsimp only
    omega

end XcKernel.Mm
