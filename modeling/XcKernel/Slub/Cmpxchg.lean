import Mathlib.Data.BitVec
import Mathlib.Tactic.Common

/-!
# The compare-and-swap of slab pages

`__cmpxchg_double_slab` and `cmpxchg_double_slab` on a memory of 32-bit words.
Each has a branch for caches with `__CMPXCHG_DOUBLE`, which uses `cmpxchg8b`, and
a branch under the slab lock, which on one processor only disables preemption.
The hardware branch of `cmpxchg_double_slab` passes the address of its own
argument instead of that of the page's free list.
-/

namespace XcKernel.Slub.Cmpxchg

/-- Words by byte address. -/
abbrev Mem := Nat → BitVec 32

def Mem.write (m : Mem) (a : Nat) (v : BitVec 32) : Mem := fun x => if x = a then v else m x

/-- What a compare-and-swap returns, the memory it leaves, and the addresses of
the words it compared or wrote. -/
structure Swap where
  ret : Bool
  mem : Mem
  cells : List Nat

/-- The arguments of both functions.  `slot` is where the argument variable
`page` lies on the stack. -/
structure SwapArgs where
  slot : Nat
  page : Nat
  freelistOld : BitVec 32
  countersOld : BitVec 32
  freelistNew : BitVec 32
  countersNew : BitVec 32
  deriving DecidableEq

/-- `&page->freelist` -/
def pageFreelist (page : Nat) : Nat := page + 8

/-- `&page->counters` -/
def pageCounters (page : Nat) : Nat := page + 12

/-- `__CMPXCHG_DOUBLE` -/
def cmpxchgDoubleFlag : BitVec 32 := 0x40000000

/-- `cmpxchg8b`: an atomic compare-and-swap of the eight bytes at `ptr` -/
def cmpxchg8b (m : Mem) (ptr : Nat) (o1 o2 n1 n2 : BitVec 32) : Swap :=
  if m ptr = o1 ∧ m (ptr + 4) = o2 then
    ⟨true, (m.write ptr n1).write (ptr + 4) n2, [ptr, ptr + 4]⟩
  else ⟨false, m, [ptr, ptr + 4]⟩

/-- The branch of both functions under the slab lock. -/
def lockedSwap (m : Mem) (a : SwapArgs) : Swap :=
  if m (pageFreelist a.page) = a.freelistOld then
    if m (pageCounters a.page) = a.countersOld then
      ⟨true, (m.write (pageFreelist a.page) a.freelistNew).write (pageCounters a.page) a.countersNew,
        [pageFreelist a.page, pageCounters a.page]⟩
    else ⟨false, m, [pageFreelist a.page, pageCounters a.page]⟩
  else ⟨false, m, [pageFreelist a.page]⟩

/-- `__cmpxchg_double_slab` -/
def cmpxchgDoubleSlabIrqOff (flags : BitVec 32) (m : Mem) (a : SwapArgs) : Swap :=
  if flags &&& cmpxchgDoubleFlag ≠ 0 then
    cmpxchg8b m (pageFreelist a.page) a.freelistOld a.countersOld a.freelistNew a.countersNew
  else lockedSwap m a

/-- `cmpxchg_double_slab`, whose hardware branch is given `&page` -/
def cmpxchgDoubleSlab (flags : BitVec 32) (m : Mem) (a : SwapArgs) : Swap :=
  if flags &&& cmpxchgDoubleFlag ≠ 0 then
    cmpxchg8b m a.slot a.freelistOld a.countersOld a.freelistNew a.countersNew
  else lockedSwap m a

/-- The operation both are meant to be: the pair of the page is replaced exactly
if it is the old one, and nothing else is looked at. -/
structure SwapsPair (m : Mem) (a : SwapArgs) (r : Swap) : Prop where
  ret : r.ret = true ↔
    m (pageFreelist a.page) = a.freelistOld ∧ m (pageCounters a.page) = a.countersOld
  freelist : r.mem (pageFreelist a.page) = if r.ret then a.freelistNew else m (pageFreelist a.page)
  counters : r.mem (pageCounters a.page) = if r.ret then a.countersNew else m (pageCounters a.page)
  other : ∀ x, x ≠ pageFreelist a.page → x ≠ pageCounters a.page → r.mem x = m x
  cells : ∀ x ∈ r.cells, x = pageFreelist a.page ∨ x = pageCounters a.page

theorem cmpxchg8b_freelist (m : Mem) (a : SwapArgs) :
    SwapsPair m a (cmpxchg8b m (pageFreelist a.page) a.freelistOld a.countersOld a.freelistNew
      a.countersNew) := by
  have next : pageFreelist a.page + 4 = pageCounters a.page := rfl
  have apart : pageFreelist a.page ≠ pageCounters a.page := by simp [pageFreelist, pageCounters]
  unfold cmpxchg8b
  rw [next]
  split
  · rename_i same
    refine ⟨by simpa using same, ?_, ?_, fun x hf hc => ?_, by simp⟩
    · simp [Mem.write, apart]
    · simp [Mem.write]
    · simp [Mem.write, hf, hc]
  · rename_i differ
    exact ⟨by simpa using differ, by simp, by simp, fun _ _ _ => rfl, by simp⟩

theorem lockedSwap_swaps (m : Mem) (a : SwapArgs) : SwapsPair m a (lockedSwap m a) := by
  have apart : pageFreelist a.page ≠ pageCounters a.page := by simp [pageFreelist, pageCounters]
  unfold lockedSwap
  split_ifs with freelist counters
  · refine ⟨by simp [freelist, counters], ?_, ?_, fun x hf hc => ?_, by simp⟩
    · simp [Mem.write, apart]
    · simp [Mem.write]
    · simp [Mem.write, hf, hc]
  · exact ⟨by simp [counters], by simp, by simp, fun _ _ _ => rfl, by simp⟩
  · exact ⟨by simp [freelist], by simp, by simp, fun _ _ _ => rfl, by simp⟩

theorem cmpxchgDoubleSlabIrqOff_swaps (flags : BitVec 32) (m : Mem) (a : SwapArgs) :
    SwapsPair m a (cmpxchgDoubleSlabIrqOff flags m a) := by
  unfold cmpxchgDoubleSlabIrqOff
  split
  · exact cmpxchg8b_freelist m a
  · exact lockedSwap_swaps m a

/-- `new.inuse--` on the low half of the counters -/
def decInuse (counters : BitVec 32) : BitVec 32 :=
  (counters &&& 0xffff0000) ||| ((counters - 1) &&& 0x0000ffff)

/-- One round of the loop: the object is linked in front of the page's free list
and the new pair is put in place. -/
def slabFreeRound (flags : BitVec 32) (slot offset : Nat) (m : Mem) (page object : Nat) : Swap :=
  let prior := m (pageFreelist page)
  let counters := m (pageCounters page)
  let m := m.write (object + offset) prior
  cmpxchgDoubleSlab flags m
    ⟨slot, page, prior, counters, BitVec.ofNat 32 object, decInuse counters⟩

/-- The loop of `__slab_free` when nothing else writes to memory; `rounds` bounds
the number of tries. -/
def slabFreeLoop (flags : BitVec 32) (slot offset : Nat) (m : Mem) (page object : Nat) :
    (rounds : Nat) → Option Mem
  | 0 => none
  | rounds + 1 =>
    let r := slabFreeRound flags slot offset m page object
    if r.ret then some r.mem else slabFreeLoop flags slot offset r.mem page object rounds

/-- The loop ends in its first round, with the object at the head of the free list. -/
structure FreesAtOnce (flags : BitVec 32) (slot offset : Nat) (m : Mem) (page object : Nat) :
    Prop where
  ends : ∃ m', slabFreeLoop flags slot offset m page object 1 = some m' ∧
    m' (pageFreelist page) = BitVec.ofNat 32 object ∧
    m' (pageCounters page) = decInuse (m (pageCounters page)) ∧
    m' (object + offset) = m (pageFreelist page)

/-- A call: the argument variable holds the page and is no part of it. -/
structure SwapArgs.Valid (m : Mem) (a : SwapArgs) : Prop where
  holds : m a.slot = BitVec.ofNat 32 a.page
  freelist : a.slot ≠ pageFreelist a.page
  counters : a.slot ≠ pageCounters a.page

/-- An object whose free pointer is no part of the page structure. -/
structure ObjectApart (page object offset : Nat) : Prop where
  freelist : object + offset ≠ pageFreelist page
  counters : object + offset ≠ pageCounters page

theorem freesAtOnce_of_locked {flags : BitVec 32} (locked : flags &&& cmpxchgDoubleFlag = 0)
    {slot offset : Nat} (m : Mem) {page object : Nat} (apart : ObjectApart page object offset) :
    FreesAtOnce flags slot offset m page object := by
  set m₁ := m.write (object + offset) (m (pageFreelist page)) with hm₁
  set a : SwapArgs := ⟨slot, page, m (pageFreelist page), m (pageCounters page),
    BitVec.ofNat 32 object, decInuse (m (pageCounters page))⟩ with ha
  have round : slabFreeRound flags slot offset m page object = lockedSwap m₁ a := by
    rw [slabFreeRound, cmpxchgDoubleSlab, if_neg (by simpa using locked)]
  have spec := lockedSwap_swaps m₁ a
  have freelist : m₁ (pageFreelist page) = m (pageFreelist page) := if_neg apart.freelist.symm
  have counters : m₁ (pageCounters page) = m (pageCounters page) := if_neg apart.counters.symm
  have ret : (lockedSwap m₁ a).ret = true := spec.ret.mpr ⟨freelist, counters⟩
  refine ⟨(lockedSwap m₁ a).mem, ?_, ?_, ?_, ?_⟩
  · rw [slabFreeLoop, round]
    simp [ret]
  · have := spec.freelist
    rwa [if_pos ret] at this
  · have := spec.counters
    rwa [if_pos ret] at this
  · rw [spec.other _ apart.freelist apart.counters]
    exact if_pos rfl

/-- The two functions are the one operation on the page's pair, and the loop of
`__slab_free` ends at once, exactly in caches without `__CMPXCHG_DOUBLE`. -/
theorem cmpxchg_double_slab_iff (flags : BitVec 32) (m : Mem) (a : SwapArgs) (valid : a.Valid m)
    (object offset : Nat) (apart : ObjectApart a.page object offset) :
    (SwapsPair m a (cmpxchgDoubleSlabIrqOff flags m a) ∧ SwapsPair m a (cmpxchgDoubleSlab flags m a) ∧
      FreesAtOnce flags a.slot offset m a.page object) ↔ flags &&& cmpxchgDoubleFlag = 0 := by
  constructor
  · rintro ⟨-, swaps, -⟩
    by_contra double
    -- the words compared are those of the argument variable
    have cells : a.slot ∈ (cmpxchgDoubleSlab flags m a).cells := by
      rw [cmpxchgDoubleSlab, if_pos double, cmpxchg8b]
      split <;> simp
    exact (swaps.cells a.slot cells).elim valid.freelist valid.counters
  · intro locked
    refine ⟨cmpxchgDoubleSlabIrqOff_swaps flags m a, ?_, freesAtOnce_of_locked locked m apart⟩
    rw [cmpxchgDoubleSlab, if_neg (by simpa using locked)]
    exact lockedSwap_swaps m a

/-- A page at 0x1000 with two objects of which one is in use, and a stack variable at 0x8000. -/
def oneInUse : Mem := fun x =>
  if x = 0x1008 then 0x2000 else if x = 0x100c then 0x00020001 else
  if x = 0x8000 then 0x1000 else 0

/-- The call of the first round that frees the object at 0x2020. -/
def oneInUseArgs : SwapArgs := ⟨0x8000, 0x1000, 0x2000, 0x00020001, 0x2020, 0x00020000⟩

theorem oneInUse_valid : oneInUseArgs.Valid oneInUse := ⟨by decide, by decide, by decide⟩

/-- Without the flag the object is freed. -/
theorem cmpxchg_double_slab_iff_debug : FreesAtOnce 0 0x8000 0 oneInUse 0x1000 0x2020 :=
  ((cmpxchg_double_slab_iff 0 oneInUse oneInUseArgs oneInUse_valid 0x2020 0
    ⟨by decide, by decide⟩).mpr (by decide)).2.2

theorem slabFreeRound_double (m : Mem) (page : m 0x8000 = 0x1000) (free : m 0x1008 = 0x2000) :
    slabFreeRound cmpxchgDoubleFlag 0x8000 0 m 0x1000 0x2020 =
      ⟨false, m.write 0x2020 0x2000, [0x8000, 0x8004]⟩ := by
  have list : m (pageFreelist 0x1000) = 0x2000 := free
  have variable' : (m.write 0x2020 0x2000) 0x8000 = 0x1000 := page
  simp only [slabFreeRound, list, cmpxchgDoubleSlab, cmpxchg8b, Nat.add_zero]
  rw [if_pos (by decide), if_neg]
  rintro ⟨same, -⟩
  rw [variable'] at same
  exact absurd same (by decide)

/-- In a cache with the flag the pair of the page is the old one, but nothing is
swapped, and the loop of `__slab_free` goes on for ever. -/
theorem cmpxchg_double_slab_stuck :
    oneInUse (pageFreelist 0x1000) = oneInUseArgs.freelistOld ∧
      oneInUse (pageCounters 0x1000) = oneInUseArgs.countersOld ∧
      (cmpxchgDoubleSlab cmpxchgDoubleFlag oneInUse oneInUseArgs).ret = false ∧
      ∀ rounds, slabFreeLoop cmpxchgDoubleFlag 0x8000 0 oneInUse 0x1000 0x2020 rounds = none := by
  refine ⟨by decide, by decide, by decide, fun rounds => ?_⟩
  have page : oneInUse 0x8000 = 0x1000 := by decide
  have free : oneInUse 0x1008 = 0x2000 := by decide
  generalize oneInUse = m at page free
  induction rounds generalizing m with
  | zero => rfl
  | succ rounds ih =>
    rw [slabFreeLoop, slabFreeRound_double m page free]
    exact ih _ page free

end XcKernel.Slub.Cmpxchg
