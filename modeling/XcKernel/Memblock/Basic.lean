import XcKernel.Lib.Word
import XcKernel.Lib.Span
import XcKernel.Page

/-!
# Early memory lists

`mm/memblock.c`: the two sorted region lists kept before the page allocator
is up.  A list is the first `cnt` slots of its region array; `phys_addr_t`
has 64 bits and every operation on it that can wrap is written with `u64`.
-/

namespace XcKernel.Mm

open Word

/-- `phys_addr_t` addition and subtraction. -/
abbrev u64 (n : Nat) : Nat := wrap 64 n

abbrev u64Sub (a b : Nat) : Nat := wrapSub 64 a b

def initMemblockRegions : Nat := 128

def memblockAllocAnywhere : Nat := 2 ^ 64 - 1

structure MemblockRegion where
  base : Nat
  size : Nat
  deriving DecidableEq, Repr

/-- The live regions of a list; `cnt` is their number. -/
structure MemblockType where
  max : Nat
  regions : List MemblockRegion
  deriving DecidableEq, Repr

def MemblockType.cnt (type : MemblockType) : Nat := type.regions.length

structure Memblock where
  currentLimit : Nat
  memorySize : Nat
  memory : MemblockType
  reserved : MemblockType
  deriving DecidableEq, Repr

/-- `memblock_init`: both lists hold one empty placeholder region. -/
def memblockInit : Memblock where
  currentLimit := memblockAllocAnywhere
  memorySize := 0
  memory := ⟨initMemblockRegions, [⟨0, 0⟩]⟩
  reserved := ⟨initMemblockRegions, [⟨0, 0⟩]⟩

/-- `memblock_remove_region`: the slots behind `r` move down by one; an
emptied list gets the placeholder back. -/
def memblockRemoveRegion (regions : List MemblockRegion) (r : Nat) : List MemblockRegion :=
  let rest := regions.eraseIdx r
  if rest.length = 0 then [⟨0, 0⟩] else rest

/-- `memblock_memory_can_coalesce`: the weak default. -/
def memblockMemoryCanCoalesce (_addr1 _size1 _addr2 _size2 : Nat) : Bool := true

/-- How the scan of `memblock_add_region` ends. -/
inductive ScanExit where
  /-- `return 0` inside the loop -/
  | done (regions : List MemblockRegion)
  /-- `break`, or the end of the loop -/
  | leave (regions : List MemblockRegion) (base size : Nat)
  /-- `goto new_block` -/
  | newBlock (regions : List MemblockRegion) (base size : Nat)

/-- Slots still to be visited, an empty region counting once and any other twice. -/
def scanWeight (regions : List MemblockRegion) : Nat :=
  (regions.map fun r => if r.size = 0 then 1 else 2).sum

theorem length_le_scanWeight (regions : List MemblockRegion) :
    regions.length ≤ scanWeight regions := by
  induction regions with
  | nil => simp [scanWeight]
  | cons r rs ih =>
    have head : 1 ≤ if r.size = 0 then 1 else 2 := by split <;> omega
    simp only [scanWeight, List.map_cons, List.sum_cons, List.length_cons] at ih ⊢
    omega

theorem scanWeight_set (regions : List MemblockRegion) (i : Nat) (h : i < regions.length)
    (hsize : regions[i].size ≠ 0) (r : MemblockRegion) :
    scanWeight (regions.set i r) ≤ scanWeight regions := by
  induction regions generalizing i with
  | nil => simp at h
  | cons s rs ih =>
    cases i with
    | zero =>
      simp only [List.getElem_cons_zero] at hsize
      simp only [scanWeight, List.set_cons_zero, List.map_cons, List.sum_cons, hsize, if_false]
      split <;> omega
    | succ i =>
      have tail := ih i (by simpa using h) (by simpa using hsize)
      simp only [scanWeight, List.set_cons_succ, List.map_cons, List.sum_cons] at tail ⊢
      omega

theorem scanWeight_eraseIdx (regions : List MemblockRegion) (i : Nat) (h : i < regions.length) :
    scanWeight (regions.eraseIdx i) + (if regions[i].size = 0 then 1 else 2) =
      scanWeight regions := by
  induction regions generalizing i with
  | nil => simp at h
  | cons s rs ih =>
    cases i with
    | zero => simp [scanWeight, Nat.add_comm]
    | succ i =>
      have tail := ih i (by simpa using h)
      simp only [scanWeight, List.eraseIdx_cons_succ, List.map_cons, List.sum_cons,
        List.getElem_cons_succ] at tail ⊢
      omega

theorem scanWeight_remove (regions : List MemblockRegion) (i : Nat) (h : i < regions.length)
    (hsize : regions[i].size ≠ 0) (r : MemblockRegion) :
    scanWeight (memblockRemoveRegion (regions.set i r) i) < scanWeight regions := by
  have erased := scanWeight_eraseIdx regions i h
  have untouched : (regions.set i r).eraseIdx i = regions.eraseIdx i := by
    simp [List.eraseIdx_set_eq]
  simp only [hsize, if_false] at erased
  simp only [memblockRemoveRegion, untouched]
  split
  · simp only [scanWeight, List.map_cons, List.map_nil, List.sum_cons, List.sum_nil, if_true] at *
    omega
  · omega

/-- The scan of `memblock_add_region`, entered at slot `i`.  `base` and `size`
are the part of the new range that is still to be placed; `end` never changes. -/
def addRegionScan (end_ : Nat) (regions : List MemblockRegion) (i base size : Nat) : ScanExit :=
  if h : i < regions.length then
    let rgn := regions[i]
    let rend := u64 (rgn.base + rgn.size)
    if hbreak : rgn.base > end_ ∨ rgn.size = 0 then
      .leave regions base size
    else if rgn.base ≤ base ∧ rend ≥ end_ then
      .done regions
    else if base < rgn.base ∧ end_ ≥ rgn.base then
      if memblockMemoryCanCoalesce base size rgn.base rgn.size = false then
        .newBlock regions base size
      else
        let grown : MemblockRegion := ⟨base, u64Sub rend base⟩
        if rend ≥ end_ then
          .done (regions.set i grown)
        else
          -- `base = rend; size = end - base`, then on to the second test
          let base' := rend
          let size' := u64Sub end_ base'
          if base' ≤ rend ∧ end_ ≥ rend then
            if memblockMemoryCanCoalesce grown.base grown.size base' size' = false then
              .newBlock (regions.set i grown) base' size'
            else
              addRegionScan end_ (memblockRemoveRegion (regions.set i grown) i) i
                grown.base (u64 (size' + u64Sub base' grown.base))
          else
            addRegionScan end_ (regions.set i grown) (i + 1) base' size'
    else if base ≤ rend ∧ end_ ≥ rend then
      if memblockMemoryCanCoalesce rgn.base rgn.size base size = false then
        .newBlock regions base size
      else
        addRegionScan end_ (memblockRemoveRegion regions i) i
          rgn.base (u64 (size + u64Sub base rgn.base))
    else
      addRegionScan end_ regions (i + 1) base size
  else
    .leave regions base size
termination_by scanWeight regions - i
decreasing_by
  all_goals have bound := length_le_scanWeight regions
  · have smaller := scanWeight_remove regions i h (fun z => hbreak (.inr z)) grown
    show scanWeight (memblockRemoveRegion (regions.set i grown) i) - i < _
    omega
  · have same := scanWeight_set regions i h (fun z => hbreak (.inr z)) grown
    show scanWeight (regions.set i grown) - (i + 1) < _
    omega
  · have smaller := scanWeight_remove regions i h (fun z => hbreak (.inr z)) regions[i]
    rw [List.set_getElem_self] at smaller
    omega
  · omega

/-- The shifting loop behind `new_block`, entered with `i + 1` slots left to
look at.  `regions` has one slot more than the list is long. -/
def insertShift (base size : Nat) : Nat → List MemblockRegion → List MemblockRegion
  | 0, regions => regions
  | i + 1, regions =>
    match regions[i]? with
    | none => regions
    | some rgn =>
      if base < rgn.base then
        insertShift base size i (regions.set (i + 1) rgn)
      else
        regions.set (i + 1) ⟨base, size⟩

/-- The code behind the label `new_block`. -/
def newBlock (type : MemblockType) (regions : List MemblockRegion) (base size : Nat) :
    Int × MemblockType :=
  if regions.length ≥ type.max then
    (-1, { type with regions := regions })
  else
    let shifted := insertShift base size regions.length (regions ++ [⟨0, 0⟩])
    match shifted[0]? with
    | none => (0, { type with regions := shifted })
    | some first =>
      if base < first.base then
        (0, { type with regions := shifted.set 0 ⟨base, size⟩ })
      else
        (0, { type with regions := shifted })

def memblockAddRegion (type : MemblockType) (base size : Nat) : Int × MemblockType :=
  match addRegionScan (u64 (base + size)) type.regions 0 base size with
  | .done regions => (0, { type with regions := regions })
  | .newBlock regions base size => newBlock type regions base size
  | .leave regions base size =>
    if regions.length = 1 ∧ (regions[0]?.map (·.size)) = some 0 then
      (0, { type with regions := [⟨base, size⟩] })
    else
      newBlock type regions base size

def memblockAdd (memblock : Memblock) (base size : Nat) : Int × Memblock :=
  let r := memblockAddRegion memblock.memory base size
  (r.1, { memblock with memory := r.2 })

def memblockReserve (memblock : Memblock) (base size : Nat) : Int × Memblock :=
  let r := memblockAddRegion memblock.reserved base size
  (r.1, { memblock with reserved := r.2 })

/-- `memblock_x86_reserve_range`: the result of the call is dropped. -/
def memblockX86ReserveRange (memblock : Memblock) (start end_ : Nat) : Memblock :=
  if start = end_ then memblock else (memblockReserve memblock start (u64Sub end_ start)).2

end XcKernel.Mm
