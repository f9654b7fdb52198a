import XcKernel.Memblock.Bootmem

/-!
# The direct mapping of low memory

`init_memory_mapping` cuts a range of physical addresses at the 4 MB
boundaries, merges what can be merged, sets a buffer aside for page tables and
fills the tables of `swapper_pg_dir` in two passes.  This is the code before
`after_bootmem` is set.

The page directory is an array of words; the page tables are frames of memory,
which the kernel reaches through the part of the direct mapping that
`head_32.S` left behind.  What the processor holds in its translation buffer
is not part of the state.
-/

namespace XcKernel.Mm

open Word

abbrev u32 (n : Nat) : Nat := wrap 32 n

def pgdirShift : Nat := 22

def ptrsPerPgd : Nat := 1024

def pudShift : Nat := 22

def pudSize : Nat := 1 <<< pudShift

def pmdShift : Nat := 22

def pmdSize : Nat := 1 <<< pmdShift

def ptrsPerPte : Nat := 1024

def ptePfnMask : Nat := 0xfffff000

def pagePresent : Nat := 0x1

/-- `_PAGE_TABLE`: present, writable, user, accessed and dirty. -/
def pageTableFlags : Nat := 0x67

def pteIdentAttr : Nat := 0x3

/-- `__PAGE_KERNEL_EXEC`: present, writable, dirty, accessed and global. -/
def pageKernelExec : Nat := 0x163

/-- `__PAGE_KERNEL`: `_PAGE_NX` is 0 without PAE. -/
def pageKernel : Nat := pageKernelExec

/-- `__end_of_fixed_addresses` -/
def endOfFixedAddresses : Nat := 1024

def vmallocEnd : Nat := 0xfffff000 - (1024 <<< pageShift) - 2 * pageSize

/-- `MAXMEM`: the direct mapping leaves `__VMALLOC_RESERVE` bytes below `VMALLOC_END`. -/
def maxmem : Nat := vmallocEnd - pageOffset - (128 <<< 20)

def nrRangeMr : Nat := 3

/-- `swapper_pg_dir`, the words of every frame, and the buffer for page tables. -/
structure PageTables where
  pgd : Nat → Nat
  ram : Nat → Nat → Nat
  pgtBufStart : Nat
  pgtBufEnd : Nat
  pgtBufTop : Nat

def pgdIndex (address : Nat) : Nat := (u32 address >>> pgdirShift) &&& (ptrsPerPgd - 1)

def pteIndex (address : Nat) : Nat := (u32 address >>> pageShift) &&& (ptrsPerPte - 1)

/-- The test of `_PAGE_PRESENT`. -/
def Present (entry : Nat) : Prop := entry &&& pagePresent ≠ 0

instance (entry : Nat) : Decidable (Present entry) := inferInstanceAs (Decidable (_ ≠ _))

/-- The frame an entry holds. -/
def entryFrame (entry : Nat) : Nat := (entry &&& ptePfnMask) >>> pageShift

def pfnPte (pfn pgprot : Nat) : Nat := u32 (pfn <<< pageShift) ||| pgprot

/-- `set_pmd`: the middle level is folded into the directory. -/
def setPmd (pt : PageTables) (idx pmd : Nat) : PageTables :=
  { pt with pgd := Function.update pt.pgd idx pmd }

/-- `set_pte` on entry `ofs` of the table in `frame`. -/
def setPte (pt : PageTables) (frame ofs pte : Nat) : PageTables :=
  { pt with ram := Function.update pt.ram frame (Function.update (pt.ram frame) ofs pte) }

/-- The processor's walk: the present entry that translates `address`. -/
def walk (pt : PageTables) (address : Nat) : Option Nat :=
  let pmd := pt.pgd (pgdIndex address)
  if Present pmd then
    let pte := pt.ram (entryFrame pmd) (pteIndex address)
    if Present pte then some pte else none
  else none

def allocLowPage (pt : PageTables) : Except String (Nat × PageTables) :=
  if pt.pgtBufEnd ≥ pt.pgtBufTop then .error "alloc_low_page: run out of memory"
  else
    let addr := va (u32 (pt.pgtBufEnd <<< pageShift))
    .ok (addr, { pt with
      ram := Function.update pt.ram (pa addr >>> pageShift) fun _ => 0
      pgtBufEnd := u32 (pt.pgtBufEnd + 1) })

/-- `one_page_table_init`, with the frame of the table it returns a pointer to. -/
def onePageTableInit (pt : PageTables) (idx : Nat) : Except String (Nat × PageTables) :=
  if Present (pt.pgd idx) then .ok (entryFrame (pt.pgd idx), pt)
  else do
    let (pageTable, pt) ← allocLowPage pt
    let pt := setPmd pt idx (pa pageTable ||| pageTableFlags)
    return (entryFrame (pt.pgd idx), pt)

/-- The linker's bounds of what `is_kernel_text` takes for text. -/
structure KernelText where
  text : Nat
  edata : Nat

def isKernelText (k : KernelText) (addr : Nat) : Bool := addr ≥ k.text ∧ addr ≤ k.edata

/-- The locals of `kernel_physical_mapping_init` that the loops change. -/
structure Mapping where
  tables : PageTables
  pfn : Nat
  lastMapAddr : Nat

/-- The protection of a page in the first or the second pass. -/
def passProt (k : KernelText) (mappingIter addr : Nat) : Nat :=
  if mappingIter = 1 then pteIdentAttr
  else if isKernelText k addr then pageKernelExec else pageKernel

/-- The loop over the entries of one page table. -/
def pteLoop (k : KernelText) (mappingIter endPfn frame addr pteOfs : Nat) (m : Mapping) : Mapping :=
  if pteOfs < ptrsPerPte ∧ m.pfn < endPfn then
    let tables := setPte m.tables frame pteOfs (pfnPte m.pfn (passProt k mappingIter addr))
    let lastMapAddr :=
      if mappingIter = 1 then u32 (u32 (m.pfn <<< pageShift) + pageSize) else m.lastMapAddr
    pteLoop k mappingIter endPfn frame (u32 (addr + pageSize)) (pteOfs + 1)
      ⟨tables, m.pfn + 1, lastMapAddr⟩
  else m
termination_by ptrsPerPte - pteOfs

/-- The body of the loop over the directory.  `PTRS_PER_PMD` is 1: the loop over
the middle level runs once or not at all. -/
def pgdBody (k : KernelText) (mappingIter endPfn pgdIdx : Nat) (m : Mapping) :
    Except String Mapping :=
  if m.pfn < endPfn then do
    let addr := u32 (u32 (m.pfn * pageSize) + pageOffset)
    let (frame, tables) ← onePageTableInit m.tables pgdIdx
    let pteOfs := pteIndex (u32 (m.pfn <<< pageShift) + pageOffset)
    return pteLoop k mappingIter endPfn frame addr pteOfs { m with tables := tables }
  else return m

/-- The loop over the directory. -/
def pgdLoop (k : KernelText) (mappingIter endPfn pgdIdx : Nat) (m : Mapping) :
    Except String Mapping :=
  if pgdIdx < ptrsPerPgd then do
    pgdLoop k mappingIter endPfn (pgdIdx + 1) (← pgdBody k mappingIter endPfn pgdIdx m)
  else return m
termination_by ptrsPerPgd - pgdIdx

/-- `kernel_physical_mapping_init`; the jump back to `repeat` is the second pass.
The mask of page sizes is not read: `use_pse` is set to 0. -/
def kernelPhysicalMappingInit (k : KernelText) (start end_ : Nat) (pt : PageTables) :
    Except String (Nat × PageTables) := do
  let startPfn := start >>> pageShift
  let endPfn := end_ >>> pageShift
  let pgdIdx := pgdIndex (u32 (startPfn <<< pageShift) + pageOffset)
  let m ← pgdLoop k 1 endPfn pgdIdx ⟨pt, startPfn, end_⟩
  -- the mapping at address 0 that the switch to paging needed
  let m ← pgdLoop k 2 endPfn pgdIdx ⟨setPmd m.tables 0 0, startPfn, m.lastMapAddr⟩
  return (m.lastMapAddr, m.tables)

structure MapRange where
  start : Nat
  end_ : Nat
  pageSizeMask : Nat
deriving DecidableEq

/-- The locals `mr` and `nr_range`. -/
structure MapRanges where
  mr : Nat → MapRange
  nrRange : Nat

def saveMr (r : MapRanges) (startPfn endPfn pageSizeMask : Nat) : Except String MapRanges :=
  if startPfn < endPfn then
    if r.nrRange ≥ nrRangeMr then .error "run out of range for init_memory_mapping\n"
    else .ok
      { mr := Function.update r.mr r.nrRange
          ⟨u32 (startPfn <<< pageShift), u32 (endPfn <<< pageShift), pageSizeMask⟩
        nrRange := r.nrRange + 1 }
  else .ok r

/-- The frame of the first 4 MB boundary from `pos` on. -/
def pmdUpPfn (pos : Nat) : Nat :=
  u32 ((u32 (pos + (pmdSize - 1)) >>> pmdShift) <<< (pmdShift - pageShift))

/-- Save a range and move `pos` to its end, if there is anything to save. -/
def saveMrPos (r : MapRanges) (pos startPfn endPfn : Nat) : Except String (MapRanges × Nat) :=
  if startPfn < endPfn then do
    let r ← saveMr r startPfn endPfn 0
    return (r, u32 (endPfn <<< pageShift))
  else return (r, pos)

/-- The end of the first range, at the next 4 MB boundary or the end of the memory. -/
def firstEndPfn (pos end_ : Nat) : Nat :=
  let endPfn := if pos = 0 then 1 <<< (pmdShift - pageShift) else pmdUpPfn pos
  if endPfn > end_ >>> pageShift then end_ >>> pageShift else endPfn

/-- The ranges of `init_memory_mapping`: up to the first 4 MB boundary, the whole
blocks of 4 MB, and the rest. -/
def cutRanges (start end_ : Nat) : Except String MapRanges := do
  let startPfn := start >>> pageShift
  let pos := u32 (startPfn <<< pageShift)
  let (r, pos) ← saveMrPos ⟨fun _ => ⟨0, 0, 0⟩, 0⟩ pos startPfn (firstEndPfn pos end_)
  let endPfn := u32 ((end_ >>> pmdShift) <<< (pmdShift - pageShift))
  let (r, pos) ← saveMrPos r pos (pmdUpPfn pos) endPfn
  saveMr r (pos >>> pageShift) (end_ >>> pageShift) 0

/-- `memmove(&mr[i], &mr[i + 1], (nr_range - 1 - i) * sizeof(struct map_range))` -/
def moveDown (mr : Nat → MapRange) (nrRange i : Nat) : Nat → MapRange := fun j =>
  if i ≤ j ∧ j < nrRange - 1 then mr (j + 1) else mr j

/-- The loop that merges adjacent ranges; a merge looks at the same index again. -/
def mergeLoop (r : MapRanges) (i : Nat) : MapRanges :=
  if r.nrRange > 1 ∧ i < r.nrRange - 1 then
    if (r.mr i).end_ ≠ (r.mr (i + 1)).start ∨
        (r.mr i).pageSizeMask ≠ (r.mr (i + 1)).pageSizeMask then
      mergeLoop r (i + 1)
    else
      let moved := moveDown r.mr r.nrRange i
      mergeLoop ⟨Function.update moved i { moved i with start := (r.mr i).start },
        r.nrRange - 1⟩ i
  else r
termination_by r.nrRange - i

/-- `roundup` on words. -/
def roundup (x y : Nat) : Nat := u32 (u32 (x + (y - 1)) / y * y)

/-- `sizeof(pud_t)`, `sizeof(pmd_t)` and `sizeof(pte_t)` -/
def entrySize : Nat := 4

/-- The bytes that `find_early_table_space(end, 0, 0)` asks for. -/
def tableBytes (end_ : Nat) : Nat :=
  let puds := u32 (end_ + pudSize - 1) >>> pudShift
  let pmds := u32 (end_ + pmdSize - 1) >>> pmdShift
  let ptes := u32 (end_ + pageSize - 1) >>> pageShift
  u32 (u32 (u32 (roundup (u32 (puds * entrySize)) pageSize +
    roundup (u32 (pmds * entrySize)) pageSize) +
    roundup (u32 (ptes * entrySize)) pageSize) +
    roundup (endOfFixedAddresses * entrySize) pageSize)

/-- `find_early_table_space`, called with `use_pse` and `use_gbpages` both 0. -/
def findEarlyTableSpace (memblock : Memblock) (maxPfnMapped end_ : Nat) (pt : PageTables) :
    Except String PageTables :=
  let tables := tableBytes end_
  let goodEnd := u32 (maxPfnMapped <<< pageShift)
  let base := memblockFindInRange memblock 0 goodEnd tables pageSize
  if base = memblockError then .error "Cannot find space for the kernel page tables"
  else
    let pgtBufStart := u32 (base >>> pageShift)
    .ok { pt with
      pgtBufStart := pgtBufStart
      pgtBufEnd := pgtBufStart
      pgtBufTop := u32 (pgtBufStart + (tables >>> pageShift)) }

/-- The calls of `kernel_physical_mapping_init`, from range `i` on. -/
def mapRanges (k : KernelText) (r : MapRanges) (i ret : Nat) (pt : PageTables) :
    Except String (Nat × PageTables) :=
  if i < r.nrRange then do
    let (ret, pt) ← kernelPhysicalMappingInit k (r.mr i).start (r.mr i).end_ pt
    mapRanges k r (i + 1) ret pt
  else return (ret, pt)
termination_by r.nrRange - i

/-- What `init_memory_mapping` leaves behind. -/
structure Mapped where
  ret : Nat
  tables : PageTables
  memblock : Memblock

def pfnPhys (pfn : Nat) : Nat := u64 (pfn <<< pageShift)

def nativePagetableReserve (memblock : Memblock) (start end_ : Nat) : Memblock :=
  memblockX86ReserveRange memblock start end_

def initMemoryMapping (k : KernelText) (memblock : Memblock) (maxPfnMapped start end_ : Nat)
    (pt : PageTables) : Except String Mapped := do
  let r := mergeLoop (← cutRanges start end_) 0
  let pt ← findEarlyTableSpace memblock maxPfnMapped end_ pt
  let (ret, pt) ← mapRanges k r 0 0 pt
  let memblock :=
    if pt.pgtBufEnd > pt.pgtBufStart then
      nativePagetableReserve memblock (pfnPhys pt.pgtBufStart) (pfnPhys pt.pgtBufEnd)
    else memblock
  return ⟨u32 ret >>> pageShift, pt, memblock⟩

end XcKernel.Mm
