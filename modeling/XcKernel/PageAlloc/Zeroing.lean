import XcKernel.Lib.Bytes
import XcKernel.Page
import XcKernel.PageAlloc.Pcp

/-!
# `__GFP_ZERO` in the bytes of memory

The page structures and the contents of the pages are bytes of one address
space.  The structures stand in `mem_map`, 32 bytes each; the contents of page
`pfn` stand at `page_address`, in the direct mapping.  `prep_new_page` is given
here on the bytes; on the structures it is the `prepNewPage` of the page map.

`prep_zero_page` passes the page structures to `clear_page`, so what it zeroes
is `mem_map`: the structures of the block and of the 127 pages after it.
-/

namespace XcKernel.PageAlloc

open Word

/-- `lowmem_page_address`, which is `page_address` -/
def pageAddress (pfn : Nat) : Nat := wrap 32 (wrap 32 (pfn <<< 12) + pageOffset)

/-- Where `mem_map` stands and how many pages it describes; the address of
`free_compound_page`. -/
structure Layout where
  memMap : Nat
  nrPages : Nat
  freeCompoundPage : BitVec 32

namespace Layout

variable (L : Layout)

/-- `pfn_to_page` -/
def page (pfn : Nat) : Nat := L.memMap + 32 * pfn

/-- The `struct page` of a page frame.  Its members stand at 0 `flags`, 4 `mapping`,
8 `index`, 12 `_mapcount`, 16 `_count`, 20 `lru.next`, 24 `lru.prev`, 28 `private`. -/
def read (m : Bytes) (pfn : Nat) : Page where
  flags := m.loadWord (L.page pfn)
  mapping := (m.loadWord (L.page pfn + 4)).toNat
  mapcount := (m.loadWord (L.page pfn + 12)).toInt
  count := (m.loadWord (L.page pfn + 16)).toInt
  priv := (m.loadWord (L.page pfn + 28)).toNat
  lruPrev := (m.loadWord (L.page pfn + 24)).toNat

def memset (m : Bytes) (s : Nat) (c : Int) (count : Nat) : Bytes := m.fill s (BitVec.ofInt 8 c) count

def clearPage (m : Bytes) (page : Nat) : Bytes := memset m page 0 pageSize

def prepZeroPage (m : Bytes) (page order : Nat) : Bytes :=
  (List.range (1 <<< order)).foldl (fun m i => clearPage m (L.page (page + i))) m

/-- `__SetPageHead` and `__SetPageTail` -/
def setFlag (m : Bytes) (page : Nat) (flag : PageFlag) : Bytes :=
  m.storeWord (L.page page) (m.loadWord (L.page page) ||| flag.mask)

def prepCompoundPage (m : Bytes) (page order : Nat) : Bytes :=
  let m := m.storeWord (L.page (page + 1) + 20) L.freeCompoundPage
  let m := m.storeWord (L.page (page + 1) + 24) (BitVec.ofNat 32 order)
  let m := L.setFlag m page .head
  (List.range' 1 (1 <<< order - 1)).foldl (fun m i =>
    (L.setFlag m (page + i) .tail).storeWord (L.page (page + i) + 28) (BitVec.ofNat 32 (L.page page))) m

/-- `prep_new_page`: `none` when a page of the block is refused -/
def prepNewPage (m : Bytes) (page order : Nat) (gfpFlags : BitVec 32) : Option Bytes :=
  if (List.range (1 <<< order)).any fun i => checkNewPage (L.read m (page + i)) then none
  else
    let m := m.storeWord (L.page page + 28) 0
    let m := m.storeWord (L.page page + 16) 1
    let m := if gfpFlags &&& gfpZero ≠ 0 then L.prepZeroPage m page order else m
    some (if order ≠ 0 ∧ gfpFlags &&& gfpComp ≠ 0 then L.prepCompoundPage m page order else m)

end Layout

/-- The bytes of the page frames of a block. -/
def InFrames (page order a : Nat) : Prop :=
  ∃ i < 2 ^ order, pageAddress (page + i) ≤ a ∧ a < pageAddress (page + i) + pageSize

namespace Layout

variable (L : Layout)

/-- The bytes of `mem_map`. -/
def InMap (a : Nat) : Prop := L.page 0 ≤ a ∧ a < L.page L.nrPages

/-- The bytes of the page structures of a block. -/
def InPages (page order a : Nat) : Prop := L.page page ≤ a ∧ a < L.page (page + 2 ^ order)

/-- The bytes that `prep_zero_page` reaches. -/
def InWindow (page order a : Nat) : Prop :=
  L.page page ≤ a ∧ a < L.page (page + 2 ^ order - 1) + pageSize

instance (page order a : Nat) : Decidable (L.InPages page order a) :=
  inferInstanceAs (Decidable (_ ∧ _))

instance (page order a : Nat) : Decidable (L.InWindow page order a) :=
  inferInstanceAs (Decidable (_ ∧ _))

/-- A block of the allocator: its pages are in `mem_map`, which itself stands in
none of the block's frames. -/
structure Block (page order : Nat) : Prop where
  order_lt : order < maxOrder
  inside : page + 2 ^ order ≤ L.nrPages
  apart : ∀ a, L.InMap a → ¬ InFrames page order a

/-- From `m` to `m'` the frames of the block become zero; the structures of the
other pages and the memory that is neither in the frames nor in the structures
of the block stay as they are. -/
structure ZeroesOnly (m m' : Bytes) (page order : Nat) : Prop where
  zero : ∀ a, InFrames page order a → m' a = 0
  pages : ∀ pfn < L.nrPages, pfn < page ∨ page + 2 ^ order ≤ pfn → ∀ k < 32,
    m' (L.page pfn + k) = m (L.page pfn + k)
  others : ∀ a, ¬ InFrames page order a → ¬ L.InPages page order a → m' a = m a

/-- There is nothing to zero, and nothing to lose: the frames that `prep_zero_page`
misses are zero, and so is what it reaches outside the block. -/
structure AlreadyZero (m : Bytes) (page order : Nat) : Prop where
  frames : ∀ a, InFrames page order a → ¬ L.InWindow page order a → m a = 0
  behind : ∀ a, L.InWindow page order a → ¬ L.InPages page order a → ¬ InFrames page order a →
    m a = 0

end Layout

namespace Layout

variable {L : Layout} {m m' : Bytes} {page order a : Nat}

theorem clearPage_apply (m : Bytes) (page a : Nat) :
    clearPage m page a = if page ≤ a ∧ a < page + pageSize then 0 else m a := by
  rw [clearPage, memset, Bytes.fill_apply]
  rfl

theorem prepZeroPage_rounds (m : Bytes) (page n a : Nat) :
    (List.range (n + 1)).foldl (fun m i => clearPage m (L.page (page + i))) m a =
      if L.page page ≤ a ∧ a < L.page (page + n) + pageSize then 0 else m a := by
  induction n with
  | zero =>
    rw [Nat.zero_add, List.range_one, List.foldl_cons, List.foldl_nil, clearPage_apply,
      Nat.add_zero]
  | succ n ih =>
    rw [List.range_succ, List.foldl_append, List.foldl_cons, List.foldl_nil, clearPage_apply, ih]
    have next : L.page (page + (n + 1)) = L.page page + 32 * n + 32 := by
      simp only [Layout.page]
      omega
    have last : L.page (page + n) = L.page page + 32 * n := by
      simp only [Layout.page]
      omega
    have size : pageSize = 4096 := rfl
    rw [next, last, size]
    by_cases before : L.page page ≤ a ∧ a < L.page page + 32 * n + 4096
    · rw [if_pos before, ite_self, if_pos (by omega)]
    · rw [if_neg before]
      exact if_congr (by omega) rfl rfl

theorem prepZeroPage_zero (inside : L.InWindow page order a) :
    L.prepZeroPage m page order a = 0 := by
  have rounds : 1 <<< order = 2 ^ order - 1 + 1 := by
    rw [Nat.one_shiftLeft]
    exact (Nat.sub_add_cancel Nat.one_le_two_pow).symm
  rw [prepZeroPage, rounds, prepZeroPage_rounds]
  apply if_pos
  rw [← Nat.add_sub_assoc Nat.one_le_two_pow]
  exact inside

theorem prepZeroPage_within : Bytes.Within (L.InWindow page order) m (L.prepZeroPage m page order) := by
  intro a outside
  have rounds : 1 <<< order = 2 ^ order - 1 + 1 := by
    rw [Nat.one_shiftLeft]
    exact (Nat.sub_add_cancel Nat.one_le_two_pow).symm
  rw [prepZeroPage, rounds, prepZeroPage_rounds]
  apply if_neg
  rw [← Nat.add_sub_assoc Nat.one_le_two_pow]
  exact outside

theorem prepCompoundPage_within (positive : order ≠ 0) :
    Bytes.Within (L.InPages page order) m (L.prepCompoundPage m page order) := by
  have two : 2 ≤ 2 ^ order := Nat.le_pow (Nat.pos_of_ne_zero positive)
  have word : ∀ i < 2 ^ order, ∀ k ≤ 28, ∀ x, L.page (page + i) + k ≤ x →
      x < L.page (page + i) + k + 4 → L.InPages page order x := by
    intro i hi k hk x low high
    simp only [InPages, Layout.page] at low high ⊢
    omega
  unfold prepCompoundPage
  apply Bytes.Within.foldl
  · apply Bytes.Within.storeWord
    · apply Bytes.Within.storeWord
      · apply Bytes.Within.storeWord (Bytes.Within.refl _ m)
        exact word 1 (by omega) 20 (by decide)
      · exact word 1 (by omega) 24 (by decide)
    · exact word 0 (by omega) 0 (by decide)
  · intro i mem m' within
    rw [List.mem_range'_1, Nat.one_shiftLeft] at mem
    apply Bytes.Within.storeWord
    · apply Bytes.Within.storeWord within
      exact word i (by omega) 0 (by decide)
    · exact word i (by omega) 28 (by decide)

/-- Off the structures of the block, a zeroed block differs from what was there
where `prep_zero_page` reaches, and nowhere else. -/
theorem prepNewPage_apply {gfpFlags : BitVec 32} (zero : gfpFlags &&& gfpZero ≠ 0)
    (accepts : L.prepNewPage m page order gfpFlags = some m') (off : ¬ L.InPages page order a) :
    (L.InWindow page order a → m' a = 0) ∧ (¬ L.InWindow page order a → m' a = m a) := by
  have one : 1 ≤ 2 ^ order := Nat.one_le_two_pow
  have first : ∀ k ≤ 28, ∀ x, L.page page + k ≤ x → x < L.page page + k + 4 →
      L.InPages page order x := by
    intro k hk x low high
    simp only [InPages, Layout.page] at low high ⊢
    omega
  unfold prepNewPage at accepts
  split at accepts
  · cases accepts
  · dsimp only at accepts
    have head : Bytes.Within (L.InPages page order) m
        ((m.storeWord (L.page page + 28) 0).storeWord (L.page page + 16) 1) := by
      apply Bytes.Within.storeWord
      · exact (Bytes.Within.refl _ m).storeWord (first 28 (by decide))
      · exact first 16 (by decide)
    cases accepts
    have compound : ∀ m : Bytes, (if order ≠ 0 ∧ gfpFlags &&& gfpComp ≠ 0 then
        L.prepCompoundPage m page order else m) a = m a := by
      intro m
      split
      · rename_i both
        exact prepCompoundPage_within both.1 a off
      · rfl
    rw [compound]
    constructor
    · intro inside
      exact prepZeroPage_zero inside
    · intro outside
      rw [prepZeroPage_within a outside]
      exact head a off

/-- A zeroed block is zeroed, and nothing else, exactly when this changes nothing
outside the structures of the block. -/
theorem prep_new_page_zeroes_iff (block : L.Block page order) {gfpFlags : BitVec 32}
    (zero : gfpFlags &&& gfpZero ≠ 0)
    (accepts : L.prepNewPage m page order gfpFlags = some m') :
    L.ZeroesOnly m m' page order ↔ L.AlreadyZero m page order := by
  have framesOff : ∀ a, InFrames page order a → ¬ L.InPages page order a := by
    intro a frame pages
    apply block.apart a _ frame
    have inside := block.inside
    simp only [InPages, InMap, Layout.page] at pages ⊢
    omega
  constructor
  · intro only
    constructor
    · intro a frame outside
      rw [← (prepNewPage_apply zero accepts (framesOff a frame)).2 outside]
      exact only.zero a frame
    · intro a inside off notFrame
      rw [← only.others a notFrame off]
      exact (prepNewPage_apply zero accepts off).1 inside
  · intro already
    have others : ∀ a, ¬ InFrames page order a → ¬ L.InPages page order a → m' a = m a := by
      intro a notFrame off
      by_cases inside : L.InWindow page order a
      · rw [(prepNewPage_apply zero accepts off).1 inside, already.behind a inside off notFrame]
      · exact (prepNewPage_apply zero accepts off).2 inside
    refine ⟨?_, ?_, others⟩
    · intro a frame
      by_cases inside : L.InWindow page order a
      · exact (prepNewPage_apply zero accepts (framesOff a frame)).1 inside
      · rw [(prepNewPage_apply zero accepts (framesOff a frame)).2 inside]
        exact already.frames a frame inside
    · intro pfn bound away k hk
      apply others
      · apply block.apart
        simp only [InMap, Layout.page]
        omega
      · intro pages
        simp only [InPages, Layout.page] at pages
        omega

/-- 16 MB of memory with `mem_map` behind it. -/
def smallMap : Layout := ⟨0xc1000000, 4096, 0xc0100000⟩

/-- Every page holds `content`, and the first `n` page structures are those of free pages. -/
def smallMemory (content : BitVec 8) (n : Nat) : Bytes := fun a =>
  if a < 0xc1000000 then content
  else if a < 0xc1000000 + 32 * n ∧ 12 ≤ a % 32 ∧ a % 32 < 16 then 0xff else 0

theorem smallMap_address : pageAddress 1000 = 0xc03e8000 := by decide

theorem smallMap_inFrames (frame : InFrames 1000 0 a) : 0xc03e8000 ≤ a ∧ a < 0xc03e9000 := by
  obtain ⟨i, hi, inside⟩ := frame
  obtain rfl : i = 0 := by omega
  rw [Nat.add_zero, smallMap_address, pageSize] at inside
  omega

theorem smallMap_block : smallMap.Block 1000 0 := by
  refine ⟨by decide, by decide, fun a inMap frame => ?_⟩
  have inside := smallMap_inFrames frame
  simp only [InMap, Layout.page, smallMap] at inMap
  omega

/-- A page of a free block: its contents stay, the structures behind its own are wiped. -/
theorem prep_new_page_zeroes_mem_map :
    ∃ m', smallMap.prepNewPage (smallMemory 0xaa 4096) 1000 0 gfpZero = some m' ∧
      m' (pageAddress 1000) = 0xaa ∧
      smallMemory 0xaa 4096 (smallMap.page 1001 + 12) = 0xff ∧ m' (smallMap.page 1001 + 12) = 0 ∧
      ¬ smallMap.ZeroesOnly (smallMemory 0xaa 4096) m' 1000 0 := by
  have accepted : ((List.range (1 <<< 0)).any fun i =>
      checkNewPage (smallMap.read (smallMemory 0xaa 4096) (1000 + i))) = false := by decide +kernel
  obtain ⟨m', accepts⟩ :
      ∃ m', smallMap.prepNewPage (smallMemory 0xaa 4096) 1000 0 gfpZero = some m' := by
    rw [prepNewPage, accepted]
    exact ⟨_, rfl⟩
  have outside : ¬ smallMap.InPages 1000 0 (pageAddress 1000) := by decide
  have missed : ¬ smallMap.InWindow 1000 0 (pageAddress 1000) := by decide
  have content := (prepNewPage_apply (by decide) accepts outside).2 missed
  have next : ¬ smallMap.InPages 1000 0 (smallMap.page 1001 + 12) := by decide
  have wiped := (prepNewPage_apply (by decide) accepts next).1 (by decide)
  refine ⟨m', accepts, content, by decide, wiped, fun only => ?_⟩
  have zero := only.zero (pageAddress 1000) ⟨0, by decide, by decide, by decide⟩
  rw [content] at zero
  exact absurd zero (by decide)

/-- The last page in use, of memory that was never written: there is nothing to zero. -/
theorem prep_new_page_zeroes_last :
    ∃ m', smallMap.prepNewPage (smallMemory 0 1001) 1000 0 gfpZero = some m' ∧
      smallMap.ZeroesOnly (smallMemory 0 1001) m' 1000 0 := by
  have accepted : ((List.range (1 <<< 0)).any fun i =>
      checkNewPage (smallMap.read (smallMemory 0 1001) (1000 + i))) = false := by decide +kernel
  obtain ⟨m', accepts⟩ :
      ∃ m', smallMap.prepNewPage (smallMemory 0 1001) 1000 0 gfpZero = some m' := by
    rw [prepNewPage, accepted]
    exact ⟨_, rfl⟩
  refine ⟨m', accepts, (prep_new_page_zeroes_iff smallMap_block (by decide) accepts).mpr ⟨?_, ?_⟩⟩
  · intro a frame _
    have inside := smallMap_inFrames frame
    exact if_pos (by omega)
  · intro a window off _
    simp only [InWindow, InPages, Layout.page, smallMap, pageSize] at window off
    rw [smallMemory, if_neg (by omega), if_neg (by omega)]

variable {s : State} {i j k : Nat} {w : BitVec 32}

theorem read_congr (same : ∀ x, L.page i ≤ x → x < L.page i + 32 → m x = m' x) :
    L.read m i = L.read m' i := by
  have word : ∀ k ≤ 28, m.loadWord (L.page i + k) = m'.loadWord (L.page i + k) :=
    fun k hk => Bytes.loadWord_congr fun x low high => same x (by omega) (by omega)
  have flags : m.loadWord (L.page i) = m'.loadWord (L.page i) := word 0 (by decide)
  simp only [read, flags, word 4 (by decide), word 12 (by decide), word 16 (by decide),
    word 28 (by decide), word 24 (by decide)]

theorem read_storeWord_of_ne (ne : i ≠ j) (hk : k ≤ 28) :
    L.read (m.storeWord (L.page j + k) w) i = L.read m i :=
  read_congr fun x low high => Bytes.storeWord_of_not (by
    simp only [Layout.page] at low high ⊢
    omega)

theorem read_priv : L.read (m.storeWord (L.page i + 28) w) i =
    { L.read m i with priv := w.toNat } := by
  simp (disch := omega) [read, Bytes.loadWord_storeWord_of_not]

theorem read_count : L.read (m.storeWord (L.page i + 16) w) i =
    { L.read m i with count := w.toInt } := by
  simp (disch := omega) [read, Bytes.loadWord_storeWord_of_not]

theorem read_lruPrev : L.read (m.storeWord (L.page i + 24) w) i =
    { L.read m i with lruPrev := w.toNat } := by
  simp (disch := omega) [read, Bytes.loadWord_storeWord_of_not]

theorem read_lruNext : L.read (m.storeWord (L.page i + 20) w) i = L.read m i := by
  simp (disch := omega) [read, Bytes.loadWord_storeWord_of_not]

theorem read_setFlag (flag : PageFlag) :
    L.read (L.setFlag m i flag) i = (L.read m i).set flag := by
  simp (disch := omega) [read, setFlag, Page.set, Bytes.loadWord_storeWord_of_not]

theorem read_clearPage (m : Bytes) (page i : Nat) : L.read (clearPage m (L.page page)) i =
    if page ≤ i ∧ i < page + 128 then zeroedPage else L.read m i := by
  by_cases inside : page ≤ i ∧ i < page + 128
  · rw [if_pos inside]
    have zero : L.read (clearPage m (L.page page)) i = L.read (fun _ => 0) i :=
      read_congr fun x low high => by
        rw [clearPage_apply]
        apply if_pos
        simp only [Layout.page, pageSize] at low high ⊢
        omega
    rw [zero]
    simp [read, Bytes.loadWord, zeroedPage]
  · rw [if_neg inside]
    apply read_congr
    intro x low high
    rw [clearPage_apply]
    apply if_neg
    simp only [Layout.page, pageSize] at low high ⊢
    omega

/-- The page map shows the page structures of the memory. -/
def Shows (L : Layout) (m : Bytes) (s : State) : Prop := ∀ i, L.read m i = s.memMap i

/-- The same, but `first_page` is a page number in the page map and an address in
the memory. -/
def ShowsTail (L : Layout) (m : Bytes) (s : State) : Prop :=
  ∀ i, ∃ priv, L.read m i = { s.memMap i with priv := priv } ∧
    (priv = (s.memMap i).priv ∨ (s.memMap i).test .tail)

theorem Shows.tail (shows' : L.Shows m s) : L.ShowsTail m s :=
  fun i => ⟨(s.memMap i).priv, shows' i, .inl rfl⟩

theorem Shows.storeWord (shows' : L.Shows m s) (hk : k ≤ 28) {f : Page → Page}
    (writes : L.read (m.storeWord (L.page j + k) w) j = f (L.read m j)) :
    L.Shows (m.storeWord (L.page j + k) w) (s.modifyPage j f) := by
  intro i
  by_cases here : i = j
  · subst here
    rw [writes, shows' i, State.modifyPage_self]
  · rw [read_storeWord_of_ne here hk, shows' i, State.modifyPage_of_ne _ here]

theorem Shows.priv (shows' : L.Shows m s) (j : Nat) (w : BitVec 32) :
    L.Shows (m.storeWord (L.page j + 28) w) (s.modifyPage j fun p => { p with priv := w.toNat }) :=
  shows'.storeWord (by decide) read_priv

theorem Shows.count (shows' : L.Shows m s) (j : Nat) (w : BitVec 32) :
    L.Shows (m.storeWord (L.page j + 16) w) (s.modifyPage j fun p => { p with count := w.toInt }) :=
  shows'.storeWord (by decide) read_count

theorem Shows.lruPrev (shows' : L.Shows m s) (j : Nat) (w : BitVec 32) :
    L.Shows (m.storeWord (L.page j + 24) w)
      (s.modifyPage j fun p => { p with lruPrev := w.toNat }) :=
  shows'.storeWord (by decide) read_lruPrev

theorem Shows.clearPage (shows' : L.Shows m s) (page : Nat) :
    L.Shows (clearPage m (L.page page)) (PageAlloc.clearPage s page) := by
  intro i
  rw [read_clearPage, shows' i]
  rfl

theorem Shows.prepZeroPage (shows' : L.Shows m s) (page order : Nat) :
    L.Shows (L.prepZeroPage m page order) (PageAlloc.prepZeroPage s page order) := by
  unfold Layout.prepZeroPage PageAlloc.prepZeroPage
  induction List.range (1 <<< order) generalizing m s with
  | nil => exact shows'
  | cons i rest ih =>
    rw [List.foldl_cons, List.foldl_cons]
    exact ih (shows'.clearPage (page + i))

theorem ShowsTail.prepTail (shows' : L.ShowsTail m s) (page i : Nat) (w : BitVec 32) :
    L.ShowsTail ((L.setFlag m i .tail).storeWord (L.page i + 28) w)
      (s.modifyPage i fun p => { p.set .tail with priv := page }) := by
  intro j
  by_cases here : j = i
  · subst here
    obtain ⟨priv, same, -⟩ := shows' j
    refine ⟨w.toNat, ?_, .inr ?_⟩
    · rw [read_priv, read_setFlag, same, State.modifyPage_self]
      rfl
    · rw [State.modifyPage_self]
      exact Page.test_set _ .tail
  · rw [read_storeWord_of_ne here (by decide), setFlag,
      show L.page i = L.page i + 0 from rfl, read_storeWord_of_ne here (by decide),
      State.modifyPage_of_ne _ here]
    exact shows' j

theorem Shows.setFlag (shows' : L.Shows m s) (flag : PageFlag) (j : Nat) :
    L.Shows (L.setFlag m j flag) (s.modifyPage j (·.set flag)) :=
  shows'.storeWord (Nat.zero_le 28) (read_setFlag flag)

theorem Shows.lruNext (shows' : L.Shows m s) (j : Nat) (w : BitVec 32) :
    L.Shows (m.storeWord (L.page j + 20) w) s := by
  intro i
  by_cases here : i = j
  · subst here
    rw [read_lruNext, shows' i]
  · rw [read_storeWord_of_ne here (by decide), shows' i]

theorem Shows.prepCompoundPage (shows' : L.Shows m s) (page : Nat) (bound : order < 2 ^ 32) :
    L.ShowsTail (L.prepCompoundPage m page order) (PageAlloc.prepCompoundPage s page order) := by
  have sized : (BitVec.ofNat 32 order).toNat = order := by
    rw [BitVec.toNat_ofNat]
    exact Nat.mod_eq_of_lt bound
  have second := (shows'.lruNext (page + 1) L.freeCompoundPage).lruPrev (page + 1)
    (BitVec.ofNat 32 order)
  rw [sized] at second
  have first := (second.setFlag .head page).tail
  unfold Layout.prepCompoundPage PageAlloc.prepCompoundPage
  dsimp only
  generalize (m.storeWord (L.page (page + 1) + 20) L.freeCompoundPage).storeWord
    (L.page (page + 1) + 24) (BitVec.ofNat 32 order) = m₁ at first ⊢
  generalize s.modifyPage (page + 1) (fun p => { p with lruPrev := order }) = s₁ at first ⊢
  generalize L.setFlag m₁ page .head = m₂ at first ⊢
  generalize s₁.modifyPage page (·.set .head) = s₂ at first ⊢
  induction List.range' 1 (1 <<< order - 1) generalizing m₂ s₂ with
  | nil => exact first
  | cons i rest ih => exact ih _ _ (first.prepTail page (page + i) _)

theorem prepNewPage_shows (shows' : L.Shows m s) (bound : order < 2 ^ 32) {gfpFlags : BitVec 32}
    (accepts : L.prepNewPage m page order gfpFlags = some m') :
    ∃ s', PageAlloc.prepNewPage s page order gfpFlags = some s' ∧ L.ShowsTail m' s' := by
  have checks : ((List.range (1 <<< order)).any fun i => checkNewPage (s.memMap (page + i))) =
      (List.range (1 <<< order)).any fun i => checkNewPage (L.read m (page + i)) := by
    simp only [shows' _]
  have head : L.Shows ((m.storeWord (L.page page + 28) 0).storeWord (L.page page + 16) 1)
      (s.modifyPage page fun p => { p with priv := 0, count := 1 }) := by
    intro i
    rw [(shows'.priv page 0).count page 1 i]
    by_cases here : i = page
    · subst here
      rw [State.modifyPage_self, State.modifyPage_self, State.modifyPage_self]
      rfl
    · rw [State.modifyPage_of_ne _ here, State.modifyPage_of_ne _ here, State.modifyPage_of_ne _ here]
  unfold Layout.prepNewPage at accepts
  unfold PageAlloc.prepNewPage
  rw [checks]
  split at accepts
  · cases accepts
  · rename_i passed
    rw [if_neg passed]
    refine ⟨_, rfl, ?_⟩
    dsimp only at accepts ⊢
    have zeroed : L.Shows
        (if gfpFlags &&& gfpZero ≠ 0 then L.prepZeroPage ((m.storeWord (L.page page + 28) 0).storeWord
          (L.page page + 16) 1) page order
        else (m.storeWord (L.page page + 28) 0).storeWord (L.page page + 16) 1)
        (if gfpFlags &&& gfpZero ≠ 0 then PageAlloc.prepZeroPage
          (s.modifyPage page fun p => { p with priv := 0, count := 1 }) page order
        else s.modifyPage page fun p => { p with priv := 0, count := 1 }) := by
      split
      · exact head.prepZeroPage page order
      · exact head
    cases accepts
    split
    · exact zeroed.prepCompoundPage page bound
    · exact zeroed.tail

end Layout

end XcKernel.PageAlloc
