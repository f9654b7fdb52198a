import XcKernel.Memblock.TopDown
import XcKernel.Paging.Direct

/-!
# The frames of the page tables

`init_memory_mapping` makes its tables of pages from the buffer that it found for them,
one after another, and reserves those it has used.  An entry of the directory that is
present afterwards was there before or points into what is reserved.
-/

namespace XcKernel.Mm

open Word

theorem of_bind_ok {ε α β : Type} {x : Except ε α} {f : α → Except ε β} {r : β}
    (returns : (x >>= f) = .ok r) : ∃ a, x = .ok a ∧ f a = .ok r := by
  cases x with
  | error e => cases returns
  | ok a => exact ⟨a, rfl, returns⟩

/-- The tables that were added are pages of the buffer. -/
structure TakesTables (pt pt' : PageTables) : Prop where
  entry : ∀ i, Present (pt'.pgd i) → pt'.pgd i = pt.pgd i ∨
    pt.pgtBufEnd ≤ entryFrame (pt'.pgd i) ∧ entryFrame (pt'.pgd i) < pt'.pgtBufEnd
  grows : pt.pgtBufEnd ≤ pt'.pgtBufEnd
  start : pt'.pgtBufStart = pt.pgtBufStart
  top : pt'.pgtBufTop = pt.pgtBufTop
  within : pt.pgtBufEnd ≤ pt.pgtBufTop → pt'.pgtBufEnd ≤ pt'.pgtBufTop

namespace TakesTables

variable {a b c : PageTables}

theorem refl (pt : PageTables) : TakesTables pt pt :=
  ⟨fun _ _ => .inl rfl, le_rfl, rfl, rfl, id⟩

theorem trans (first : TakesTables a b) (second : TakesTables b c) : TakesTables a c := by
  have grows := first.grows
  have grows' := second.grows
  refine ⟨fun i present => ?_, by omega, second.start.trans first.start, second.top.trans first.top,
    second.within ∘ first.within⟩
  obtain same | new := second.entry i present
  · obtain old | new := first.entry i (same ▸ present)
    · exact .inl (same.trans old)
    · rw [same]
      exact .inr (by omega)
  · exact .inr (by omega)

theorem setPmd_zero (pt : PageTables) (idx : Nat) : TakesTables pt (setPmd pt idx 0) := by
  refine ⟨fun i present => .inl ?_, le_rfl, rfl, rfl, id⟩
  by_cases here : i = idx
  · have none : (setPmd pt idx 0).pgd idx = 0 := Function.update_self idx 0 pt.pgd
    rw [here, none] at present
    exact absurd present not_present_zero
  · exact Function.update_of_ne here _ _

end TakesTables

theorem onePageTableInit_takes {pt pt' : PageTables} {idx frame : Nat} (top : pt.pgtBufTop ≤ 2 ^ 20)
    (returns : onePageTableInit pt idx = .ok (frame, pt')) : TakesTables pt pt' := by
  by_cases present : Present (pt.pgd idx)
  · rw [onePageTableInit, if_pos present] at returns
    cases returns
    exact .refl pt
  · by_cases room : pt.pgtBufEnd < pt.pgtBufTop
    · rw [onePageTableInit_absent top present room] at returns
      cases returns
      refine ⟨fun i _ => ?_, Nat.le_succ _, rfl, rfl, fun _ => room⟩
      by_cases here : i = idx
      · refine .inr ?_
        have small : pt.pgtBufEnd < 2 ^ 20 := by omega
        dsimp only
        rw [here, Function.update_self, entryFrame_entry small (by decide)]
        exact ⟨le_rfl, Nat.lt_succ_self _⟩
      · exact .inl (Function.update_of_ne here _ _)
    · rw [onePageTableInit, if_neg present, allocLowPage, if_pos (by omega)] at returns
      cases returns

/-- What a part of a pass does to the tables, the count of frames and the last address.
Only the first pass moves the address, and to the end of the last frame. -/
structure Passes (mappingIter endPfn : Nat) (m m' : Mapping) : Prop where
  tables : TakesTables m.tables m'.tables
  count : m.pfn ≤ m'.pfn ∧ m'.pfn ≤ max m.pfn endPfn
  first : mappingIter = 1 → (m'.pfn = m.pfn ∧ m'.lastMapAddr = m.lastMapAddr) ∨
    m'.lastMapAddr = m'.pfn * pageSize
  later : mappingIter ≠ 1 → m'.lastMapAddr = m.lastMapAddr

namespace Passes

variable {mappingIter endPfn : Nat} {m m' m'' : Mapping}

theorem refl (m : Mapping) : Passes mappingIter endPfn m m :=
  ⟨.refl _, ⟨le_rfl, le_max_left _ _⟩, fun _ => .inl ⟨rfl, rfl⟩, fun _ => rfl⟩

theorem trans (h : Passes mappingIter endPfn m m') (h' : Passes mappingIter endPfn m' m'') :
    Passes mappingIter endPfn m m'' := by
  have count := h.count
  have count' := h'.count
  refine ⟨h.tables.trans h'.tables, by omega, fun iter => ?_,
    fun iter => (h'.later iter).trans (h.later iter)⟩
  obtain ⟨still, same⟩ | new := h'.first iter
  · rw [still, same]
    exact h.first iter
  · exact .inr new

end Passes

section Passes

variable (k : KernelText) (mappingIter : Nat) {endPfn : Nat} (hend : endPfn ≤ 2 ^ 18)
include hend

theorem pteLoop_passes (frame addr pteOfs : Nat) (m : Mapping) :
    Passes mappingIter endPfn m (pteLoop k mappingIter endPfn frame addr pteOfs m) ∧
      (endPfn ≤ (pteLoop k mappingIter endPfn frame addr pteOfs m).pfn ∨
        (pteLoop k mappingIter endPfn frame addr pteOfs m).pfn = m.pfn + (ptrsPerPte - pteOfs)) := by
  induction hn : ptrsPerPte - pteOfs generalizing m addr pteOfs with
  | zero =>
    rw [pteLoop, if_neg (by omega)]
    exact ⟨.refl m, .inr rfl⟩
  | succ n ih =>
    by_cases more : m.pfn < endPfn
    · rw [pteLoop, if_pos ⟨by omega, more⟩]
      dsimp only
      have address : u32 (u32 (m.pfn <<< pageShift) + pageSize) = (m.pfn + 1) * pageSize := by
        rw [u32_shiftLeft (by omega), Nat.succ_mul]
        exact wrap_of_lt (by rw [pageSize]; omega)
      obtain ⟨rest, ends⟩ := ih (u32 (addr + pageSize)) (pteOfs + 1)
        ⟨setPte m.tables frame pteOfs (pfnPte m.pfn (passProt k mappingIter addr)), m.pfn + 1,
          if mappingIter = 1 then u32 (u32 (m.pfn <<< pageShift) + pageSize) else m.lastMapAddr⟩ (by omega)
      have step : Passes mappingIter endPfn m
          ⟨setPte m.tables frame pteOfs (pfnPte m.pfn (passProt k mappingIter addr)), m.pfn + 1,
            if mappingIter = 1 then u32 (u32 (m.pfn <<< pageShift) + pageSize) else m.lastMapAddr⟩ := by
        refine ⟨⟨fun _ _ => .inl rfl, le_rfl, rfl, rfl, id⟩, ⟨Nat.le_succ _, le_max_of_le_right more⟩,
          fun iter => .inr ?_, fun iter => if_neg iter⟩
        rw [if_pos iter, address]
      refine ⟨step.trans rest, ends.imp_right fun pfn => ?_⟩
      dsimp only at pfn
      omega
    · rw [pteLoop, if_neg (by omega)]
      exact ⟨.refl m, .inl (not_lt.1 more)⟩

theorem pgdBody_passes {pgdIdx : Nat} {m m' : Mapping} (top : m.tables.pgtBufTop ≤ 2 ^ 20)
    (returns : pgdBody k mappingIter endPfn pgdIdx m = .ok m') :
    Passes mappingIter endPfn m m' ∧ (endPfn ≤ m'.pfn ∨ m'.pfn = m.pfn / 1024 * 1024 + 1024) := by
  rw [pgdBody] at returns
  split at returns
  · rename_i more
    obtain ⟨⟨frame, tables⟩, init, fill⟩ := of_bind_ok returns
    have takes := onePageTableInit_takes top init
    have ofs : pteIndex (u32 (m.pfn <<< pageShift) + pageOffset) = m.pfn % 1024 := by
      rw [u32_shiftLeft (by omega), pteIndex_kernel]
    obtain ⟨passes, ends⟩ := pteLoop_passes k mappingIter hend frame
      (u32 (u32 (m.pfn * pageSize) + pageOffset)) (m.pfn % 1024) { m with tables := tables }
    dsimp only at fill
    rw [ofs] at fill
    cases fill
    refine ⟨⟨takes.trans passes.tables, passes.count, passes.first, passes.later⟩, ends.imp_right ?_⟩
    intro pfn
    rw [pfn, ptrsPerPte]
    dsimp only
    omega
  · cases returns
    exact ⟨.refl m, .inl (by omega)⟩

theorem pgdLoop_passes {pgdIdx : Nat} {m m' : Mapping} (top : m.tables.pgtBufTop ≤ 2 ^ 20)
    (place : endPfn ≤ m.pfn ∨ pgdIdx = kernelPgd + m.pfn / 1024)
    (returns : pgdLoop k mappingIter endPfn pgdIdx m = .ok m') :
    Passes mappingIter endPfn m m' ∧ endPfn ≤ m'.pfn := by
  induction hn : ptrsPerPgd - pgdIdx generalizing m pgdIdx with
  | zero =>
    rw [pgdLoop, if_neg (by omega)] at returns
    obtain rfl : m = m' := Except.ok.inj returns
    refine ⟨.refl m, ?_⟩
    simp only [ptrsPerPgd, kernelPgd] at hn place
    omega
  | succ n ih =>
    rw [pgdLoop, if_pos (by omega)] at returns
    obtain ⟨m₁, body, rest⟩ := of_bind_ok returns
    obtain ⟨step, ends⟩ := pgdBody_passes k mappingIter hend top body
    have count := step.count
    have place' : endPfn ≤ m₁.pfn ∨ pgdIdx + 1 = kernelPgd + m₁.pfn / 1024 := by omega
    obtain ⟨passes, done⟩ := ih (step.tables.top ▸ top) place' rest (by omega)
    exact ⟨step.trans passes, done⟩

end Passes

/-- Both passes: the tables come from the buffer, and what is returned is the end of the
range. -/
theorem kernelPhysicalMappingInit_takes (k : KernelText) {p e ret : Nat} (lt : p < e) (he : e < 2 ^ 18)
    {pt pt' : PageTables} (top : pt.pgtBufTop ≤ 2 ^ 20)
    (returns : kernelPhysicalMappingInit k (p * pageSize) (e * pageSize) pt = .ok (ret, pt')) :
    TakesTables pt pt' ∧ ret = e * pageSize := by
  have idx : pgdIndex (u32 (p <<< pageShift) + pageOffset) = kernelPgd + p / 1024 := by
    rw [u32_shiftLeft (by omega), pgdIndex_kernel (by omega)]
  simp only [kernelPhysicalMappingInit, mul_pageSize_shiftRight, idx] at returns
  obtain ⟨m₁, pass₁, rest⟩ := of_bind_ok returns
  obtain ⟨m₂, pass₂, result⟩ := of_bind_ok rest
  cases result
  obtain ⟨first, done⟩ := pgdLoop_passes k 1 he.le (m := ⟨pt, p, e * pageSize⟩) top (.inr rfl) pass₁
  have count := first.count
  obtain ⟨second, -⟩ := pgdLoop_passes k 2 he.le (m := ⟨setPmd m₁.tables 0 0, p, m₁.lastMapAddr⟩)
    (first.tables.top ▸ top) (.inr rfl) pass₂
  refine ⟨(first.tables.trans (.setPmd_zero m₁.tables 0)).trans second.tables, ?_⟩
  rw [second.later (by decide)]
  obtain ⟨-, same⟩ | moved := first.first rfl
  · exact same
  · have last : m₁.pfn = e := by
      dsimp only at count
      omega
    exact moved.trans (by rw [last])

theorem mapRanges_takes (k : KernelText) {r : MapRanges} {p e : Nat}
    (covers : EndToEnd r (p * pageSize) (e * pageSize)) (one : r.nrRange ≤ 1) (lt : p < e)
    (he : e < 2 ^ 18) {pt pt' : PageTables} (top : pt.pgtBufTop ≤ 2 ^ 20) {ret : Nat}
    (returns : mapRanges k r 0 0 pt = .ok (ret, pt')) : TakesTables pt pt' ∧ ret = e * pageSize := by
  have pos : 0 < r.nrRange := by
    by_contra none
    have same := covers.none (by omega)
    rw [pageSize] at same
    omega
  have last := covers.last pos
  rw [show r.nrRange - 1 = 0 by omega] at last
  rw [mapRanges, if_pos pos, covers.first pos, last] at returns
  obtain ⟨⟨ret₁, pt₁⟩, init, rest⟩ := of_bind_ok returns
  dsimp only at rest
  rw [mapRanges, if_neg (by omega)] at rest
  cases rest
  exact kernelPhysicalMappingInit_takes k lt he top init

theorem tableBytes_le {e : Nat} (he : e * pageSize ≤ maxmem) : tableBytes (e * pageSize) ≤ 0x100000 := by
  have value : maxmem = 0x37bfd000 := by decide
  rw [value, pageSize] at he
  simp only [tableBytes, roundup, u32, wrap, pudSize, pudShift, pmdSize, pmdShift, entrySize, pageSize,
    pageShift, endOfFixedAddresses, Nat.shiftLeft_eq, Nat.shiftRight_eq_div_pow]
  omega

section Find

variable {memblock : Memblock} {memory reserved : List MemblockRegion}
  (hmem : memblock.memory.Live memory) (hres : memblock.reserved.Live reserved)
include hmem hres

/-- If there is room for the tables, the buffer is such a room. -/
theorem findEarlyTableSpace_candidate {maxPfnMapped e room : Nat} (e_pos : 0 < e)
    (he : e * pageSize ≤ maxmem) (mapped : 0 < maxPfnMapped ∧ maxPfnMapped < 2 ^ 20)
    (candidate : Candidate memblock 0 (maxPfnMapped * pageSize) (tableBytes (e * pageSize)) pageSize room)
    (pt : PageTables) :
    ∃ first n, tableBytes (e * pageSize) = n * pageSize ∧ (e + 1023) / 1024 ≤ n ∧
      findEarlyTableSpace memblock maxPfnMapped (e * pageSize) pt = .ok
        { pt with pgtBufStart := first, pgtBufEnd := first, pgtBufTop := first + n } ∧
      Candidate memblock 0 (maxPfnMapped * pageSize) (n * pageSize) pageSize (first * pageSize) := by
  obtain ⟨n, bytes, enough⟩ := tableBytes_pages (lt_of_le_maxmem he)
  have goodEnd : u32 (maxPfnMapped <<< pageShift) = maxPfnMapped * pageSize := u32_shiftLeft mapped.2
  have positive : 0 < n * pageSize := by
    rw [pageSize]
    omega
  have finds : FindsGreatest
      (rangesBelow memblock (n * pageSize) (2 ^ 12) 0 (maxPfnMapped * pageSize) memblock.memory.cnt)
      (findBaseLoop memblock (n * pageSize) (2 ^ 12) 0 (maxPfnMapped * pageSize) memblock.memory.cnt) :=
    findBaseLoop_greatest hmem hres (by decide) positive memblock.memory.cnt le_rfl
  rw [bytes] at candidate
  obtain ⟨found, -⟩ := finds.top room (rangesBelow_cnt.mpr candidate)
  have base := rangesBelow_cnt.mp (finds.sound found)
  have search : memblockFindInRange memblock 0 (maxPfnMapped * pageSize) (n * pageSize) pageSize =
      findBaseLoop memblock (n * pageSize) (2 ^ 12) 0 (maxPfnMapped * pageSize) memblock.memory.cnt := by
    rw [memblockFindInRange, memblockFindBase, if_neg (by rw [pageSize]; omega)]
    rfl
  generalize findBaseLoop memblock (n * pageSize) (2 ^ 12) 0 (maxPfnMapped * pageSize)
    memblock.memory.cnt = at_ at found base search
  obtain ⟨first, rfl⟩ := base.aligned
  have place : 2 ^ 12 * first = first * pageSize := Nat.mul_comm _ _
  have below := base.below
  rw [place] at base search found
  rw [pageSize] at below
  have start : u32 ((first * pageSize) >>> pageShift) = first := by
    rw [mul_pageSize_shiftRight]
    exact wrap_of_lt (by omega)
  have top : u32 (first + n) = first + n := wrap_of_lt (by omega)
  refine ⟨first, n, bytes, enough, ?_, base⟩
  rw [findEarlyTableSpace, bytes, goodEnd, search]
  dsimp only
  rw [if_neg found, start, mul_pageSize_shiftRight, top]

end Find

/-- The bytes of a frame are reserved. -/
def Memblock.ReservesFrame (memblock : Memblock) (frame : Nat) : Prop :=
  ∀ x, frame * pageSize ≤ x → x < (frame + 1) * pageSize → Span.Covers (spans memblock.reserved.regions) x

/-- The tables that were taken from the buffer are reserved. -/
theorem reserveTables {memblock : Memblock} (boot : Bootable memblock) (slot : HasSlot memblock)
    {first last : Nat} (lt : first < last) (small : last ≤ 2 ^ 20) :
    Bootable (nativePagetableReserve memblock (pfnPhys first) (pfnPhys last)) ∧
      (nativePagetableReserve memblock (pfnPhys first) (pfnPhys last)).memory = memblock.memory ∧
      ∀ x, Span.Covers (spans (nativePagetableReserve memblock (pfnPhys first)
          (pfnPhys last)).reserved.regions) x ↔
        Span.Covers (spans memblock.reserved.regions) x ∨ (first * pageSize ≤ x ∧ x < last * pageSize) := by
  have phys {frame : Nat} (below : frame ≤ 2 ^ 20) : pfnPhys frame = frame * pageSize := by
    rw [pfnPhys, Nat.shiftLeft_eq]
    exact wrap_of_lt (by rw [pageShift]; omega)
  have size : u64Sub (last * pageSize) (first * pageSize) = (last - first) * pageSize := by
    rw [u64Sub, wrapSub_of_le (Nat.mul_le_mul_right _ lt.le) (by rw [pageSize]; omega), Nat.sub_mul]
  have length : first * pageSize + (last - first) * pageSize = last * pageSize := by
    rw [← Nat.add_mul, Nat.add_sub_cancel' lt.le]
  have positive : 0 < (last - first) * pageSize := Nat.mul_pos (by omega) (by decide)
  obtain ⟨boot', covers⟩ := memblockReserve_spec boot slot positive
    (by rw [length, pageSize]; omega)
  rw [nativePagetableReserve, memblockX86ReserveRange, phys small, phys (lt.le.trans small),
    if_neg (by omega), size]
  refine ⟨boot', rfl, fun x => ?_⟩
  rw [covers, length]

/-- With room for the tables, `init_memory_mapping` maps all frames up to `e` and returns
`e`; the tables in use afterwards are reserved if those in use before were. -/
theorem initMemoryMapping_reserved (k : KernelText) {memblock : Memblock} (boot : Bootable memblock)
    (slot : HasSlot memblock) {maxPfnMapped e room : Nat} (e_pos : 0 < e) (he : e * pageSize ≤ maxmem)
    (mapped : 0 < maxPfnMapped ∧ maxPfnMapped < 2 ^ 20)
    (candidate : Candidate memblock 0 (maxPfnMapped * pageSize) (tableBytes (e * pageSize)) pageSize room)
    {pt : PageTables}
    (distinct : ∀ i j, kernelPgd ≤ i → i < ptrsPerPgd → kernelPgd ≤ j → j < ptrsPerPgd → i ≠ j →
      Present (pt.pgd i) → Present (pt.pgd j) → entryFrame (pt.pgd i) ≠ entryFrame (pt.pgd j))
    (held : ∀ i, Present (pt.pgd i) → memblock.ReservesFrame (entryFrame (pt.pgd i))) :
    ∃ r, initMemoryMapping k memblock maxPfnMapped 0 (e * pageSize) pt = .ok r ∧ r.ret = e ∧
      (∀ p < e, HoldsFrame r.tables p) ∧ Bootable r.memblock ∧ r.memblock.memory = memblock.memory ∧
      (∀ x, Span.Covers (spans memblock.reserved.regions) x →
        Span.Covers (spans r.memblock.reserved.regions) x) ∧
      ∀ i, Present (r.tables.pgd i) → r.memblock.ReservesFrame (entryFrame (r.tables.pgd i)) := by
  obtain ⟨memory, hmem⟩ := boot.memory
  obtain ⟨reserved, hres⟩ := boot.reserved
  have small := lt_of_le_maxmem he
  obtain ⟨first, n, bytes, enough, found, base⟩ :=
    findEarlyTableSpace_candidate hmem hres e_pos he mapped candidate pt
  have below : first + n ≤ 2 ^ 20 := by
    have := base.below
    rw [pageSize] at this
    omega
  set buffer : PageTables := { pt with pgtBufStart := first, pgtBufEnd := first, pgtBufTop := first + n }
  have outside (i : Nat) (present : Present (pt.pgd i)) :
      entryFrame (pt.pgd i) < first ∨ first + n ≤ entryFrame (pt.pgd i) := by
    by_contra inside
    obtain ⟨s, mem, contains⟩ := held i present (entryFrame (pt.pgd i) * pageSize) le_rfl
      (by rw [pageSize]; omega)
    obtain ⟨region, hregion, rfl⟩ := List.mem_map.mp mem
    refine base.clear region hregion _ contains ⟨?_, ?_⟩
    · exact Nat.mul_le_mul_right _ (by omega)
    · rw [← Nat.add_mul]
      exact Nat.mul_lt_mul_of_pos_right (by omega) (by decide)
  have tables : KernelTables buffer :=
    ⟨distinct, fun i _ _ present => outside i present, Nat.le_add_right _ _, below⟩
  obtain ⟨ranges, cut, covers⟩ := cutRanges_endToEnd (Nat.zero_le e) he
  obtain ⟨merged, one⟩ := mergeLoop_endToEnd covers
  obtain ⟨ret, pt', call, maps⟩ := mapRanges_maps k merged one small tables
    (budget_of_found (show first + (e + 1023) / 1024 ≤ first + n by omega))
  obtain ⟨takes, rfl⟩ := mapRanges_takes k merged one e_pos small below call
  rw [Nat.zero_mul] at cut
  have start : pt'.pgtBufStart = first := takes.start
  have last : pt'.pgtBufEnd ≤ first + n := (takes.within (Nat.le_add_right _ _)).trans takes.top.le
  have end_ : u32 (e * pageSize) >>> pageShift = e := by
    rw [u32, wrap_of_lt (by rw [pageSize]; omega), mul_pageSize_shiftRight]
  rw [initMemoryMapping, cut, ok_bind, found, ok_bind, call, ok_bind]
  refine ⟨_, rfl, end_, fun p lt => maps.inside p (Nat.zero_le p) lt, ?_⟩
  dsimp only
  rw [start]
  by_cases used : pt'.pgtBufEnd > first
  · obtain ⟨boot', memory', covers'⟩ := reserveTables boot slot used (last.trans below)
    rw [if_pos used]
    refine ⟨boot', memory', fun x old => (covers' x).mpr (.inl old), fun i present x low high => ?_⟩
    rw [covers']
    obtain same | ⟨new, new'⟩ := takes.entry i present
    · rw [same] at low high present
      exact .inl (held i present x low high)
    · refine .inr ⟨(Nat.mul_le_mul_right _ new).trans low, high.trans_le ?_⟩
      exact Nat.mul_le_mul_right _ new'
  · rw [if_neg used]
    refine ⟨boot, rfl, fun x old => old, fun i present => ?_⟩
    obtain same | ⟨new, new'⟩ := takes.entry i present
    · rw [same] at present ⊢
      exact held i present
    · exact absurd (new.trans_lt new') used

end XcKernel.Mm
