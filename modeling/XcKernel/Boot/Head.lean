import Mathlib.Tactic.Linarith
import XcKernel.Paging.Direct

/-!
# The first page tables

`startup_32` in `head_32.S`, before paging is on.  Its tables lie one after another at
`__brk_base` and map memory from address 0 on, at its own addresses and at
`PAGE_OFFSET`.  There are as many as it takes to reach `MAPPING_BEYOND_END` bytes
behind the image: the kernel's final tables have to fit in there.
-/

namespace XcKernel.Boot

open Word Mm

/-- The image as `kernel.ld` lays it out: `.bss` ends at a page, the 64 KB of `.brk` come
behind it and are the last thing.  The linker stops at 512 KB; this is the size up to
which `.brk` holds the tables. -/
structure Image where
  bssStop : Nat
  aligned : pageSize ∣ bssStop
  above : 0xc0100000 ≤ bssStop
  small : bssStop + 64 * 1024 ≤ 0xc3f00000

namespace Image

variable (image : Image)

/-- `_text` -/
def text : Nat := 0xc0100000

/-- `__brk_base` -/
def brkBase : Nat := image.bssStop

/-- `__brk_limit` -/
def brkLimit : Nat := image.brkBase + 64 * 1024

/-- `_end` -/
def end_ : Nat := image.brkLimit

end Image

def lowmemPages : Nat := (2 ^ 32 - pageOffset) >>> pageShift

def mappingBeyondEnd : Nat := (lowmemPages / ptrsPerPgd) <<< pageShift

/-- `PDE_IDENT_ATTR` -/
def pdeIdentAttr : Nat := 0x67

/-- `page_pde_offset`, in words -/
def pagePdeOffset : Nat := (pageOffset >>> 20) / 4

/-- The tables and the registers of the loop.  `edx` counts the words of
`swapper_pg_dir`. -/
structure HeadState where
  tables : PageTables
  eax : Nat
  edi : Nat
  edx : Nat

/-- `stosl` -/
def HeadState.stosl (s : HeadState) : HeadState :=
  { s with
    tables := setPte s.tables (s.edi >>> pageShift) ((s.edi >>> 2) &&& (ptrsPerPte - 1)) s.eax
    edi := u32 (s.edi + 4) }

/-- The loop at label 2, with `ecx`. -/
def fillTable : Nat → HeadState → HeadState
  | 0, s => s
  | ecx + 1, s =>
    let s := s.stosl
    fillTable ecx { s with eax := u32 (s.eax + 0x1000) }

/-- The loop at label 1 up to the comparison. -/
def headRound (s : HeadState) : HeadState :=
  let ecx := u32 (s.edi + pdeIdentAttr)
  let tables := setPmd (setPmd s.tables s.edx ecx) (s.edx + pagePdeOffset) ecx
  fillTable 1024 { s with tables := tables, edx := s.edx + 1 }

/-- The loop at label 1.  It has come to its end when `eax` has gone through all the
addresses, or never does. -/
def headLoop (ebp : Nat) : Nat → HeadState → Option HeadState
  | 0, _ => none
  | rounds + 1, s =>
    let s := headRound s
    if s.eax < ebp then headLoop ebp rounds s else some s

/-- What `startup_32` leaves for `start_kernel`. -/
structure Startup where
  tables : PageTables
  brkEnd : Nat
  maxPfnMapped : Nat

/-- The provisional page tables.  `swapper_pg_dir` is in `.data`, all zeros. -/
def startup32 (image : Image) (ram : Nat → Nat → Nat) : Option Startup :=
  let ebp := u32 (pa image.end_ + mappingBeyondEnd + pteIdentAttr)
  (headLoop ebp 1024 ⟨⟨fun _ => 0, ram, 0, 0, 0⟩, pteIdentAttr, pa image.brkBase, 0⟩).map fun s =>
    ⟨s.tables, u32 (s.edi + pageOffset), s.eax >>> 12⟩

variable {ram : Nat → Nat → Nat} {b k : Nat}

/-- The entry of a directory for the table in a frame. -/
def tableEntry (frame : Nat) : Nat := frame * pageSize + pdeIdentAttr

/-- The entry that maps a frame. -/
def frameEntry (frame : Nat) : Nat := frame * pageSize + pteIdentAttr

/-- `k` tables, from frame `b` on. -/
def headTables (ram : Nat → Nat → Nat) (b k : Nat) : PageTables where
  pgd := fun i =>
    if i < k then tableEntry (b + i)
    else if kernelPgd ≤ i ∧ i < kernelPgd + k then tableEntry (b + (i - kernelPgd))
    else 0
  ram := fun frame ofs =>
    if b ≤ frame ∧ frame < b + k ∧ ofs < 1024 then frameEntry ((frame - b) * 1024 + ofs)
    else ram frame ofs
  pgtBufStart := 0
  pgtBufEnd := 0
  pgtBufTop := 0

/-- The state before round `k`. -/
def headState (ram : Nat → Nat → Nat) (b k : Nat) : HeadState :=
  ⟨headTables ram b k, frameEntry (k * 1024), (b + k) * pageSize, k⟩

theorem frameEntry_succ {frame : Nat} (small : frame + 1 < 2 ^ 20) :
    u32 (frameEntry frame + 0x1000) = frameEntry (frame + 1) := by
  simp only [frameEntry, pageSize, pteIdentAttr, u32, wrap]
  omega

theorem headTables_zero : headTables ram b 0 = ⟨fun _ => 0, ram, 0, 0, 0⟩ := by
  rw [headTables, PageTables.mk.injEq]
  refine ⟨funext fun i => ?_, funext fun frame => funext fun o => if_neg (by omega), rfl, rfl, rfl⟩
  rw [if_neg (by omega), if_neg (by omega)]

theorem fillTable_eq {frame c : Nat} (hframe : frame + 1 < 2 ^ 20) (hc : c + 1 < 1024) (edx n : Nat)
    (pt : PageTables) {ofs : Nat} (rest : ofs + n = 1024) :
    fillTable n ⟨pt, frameEntry (c * 1024 + ofs), frame * pageSize + 4 * ofs, edx⟩ =
      ⟨{ pt with ram := Function.update pt.ram frame fun o =>
          if ofs ≤ o ∧ o < 1024 then frameEntry (c * 1024 + o) else pt.ram frame o },
        frameEntry ((c + 1) * 1024), (frame + 1) * pageSize, edx⟩ := by
  induction n generalizing pt ofs with
  | zero =>
    obtain rfl : ofs = 1024 := by omega
    have none (o : Nat) : ¬ (1024 ≤ o ∧ o < 1024) := by omega
    simp only [fillTable, none, if_false, Function.update_eq_self, Nat.succ_mul, pageSize]
  | succ n ih =>
    have place : (frame * pageSize + 4 * ofs) >>> pageShift = frame ∧
        ((frame * pageSize + 4 * ofs) >>> 2) &&& (ptrsPerPte - 1) = ofs := by
      have mask := Nat.and_two_pow_sub_one_eq_mod ((frame * pageSize + 4 * ofs) >>> 2) 10
      rw [show ptrsPerPte - 1 = 2 ^ 10 - 1 from rfl, mask]
      simp only [pageSize, pageShift, Nat.shiftRight_eq_div_pow]
      omega
    have next : u32 (frame * pageSize + 4 * ofs + 4) = frame * pageSize + 4 * (ofs + 1) := by
      simp only [pageSize, u32, wrap]
      omega
    simp only [fillTable, HeadState.stosl, place, next, frameEntry_succ
      (show c * 1024 + ofs + 1 < 2 ^ 20 by omega)]
    rw [Nat.add_assoc, ih _ (by omega)]
    simp only [setPte, Function.update_idem, Function.update_self]
    congr 3
    funext o
    by_cases here : o = ofs
    · subst here
      rw [if_neg (by omega), Function.update_self, if_pos (by omega)]
    · rw [Function.update_of_ne here]
      exact if_congr (by omega) rfl rfl

theorem headRound_eq (hk : k < 256) (hb : b + k + 1 < 2 ^ 20) :
    headRound (headState ram b k) = headState ram b (k + 1) := by
  have entry : u32 ((b + k) * pageSize + pdeIdentAttr) = tableEntry (b + k) := by
    simp only [tableEntry, pageSize, pdeIdentAttr, u32, wrap]
    omega
  have fills := fillTable_eq hb (show k + 1 < 1024 by omega) (k + 1) 1024
    (setPmd (setPmd (headTables ram b k) k (tableEntry (b + k))) (k + pagePdeOffset) (tableEntry (b + k)))
    (Nat.zero_add 1024)
  rw [Nat.add_zero, Nat.mul_zero, Nat.add_zero] at fills
  simp only [headRound, headState, entry]
  rw [fills]
  refine congrArg₂ (HeadState.mk · _ · _) ?_ (by rw [Nat.add_assoc])
  simp only [headTables, setPmd, PageTables.mk.injEq, and_true]
  refine ⟨funext fun i => ?_, funext fun frame => funext fun o => ?_⟩
  · rw [show pagePdeOffset = kernelPgd from rfl]
    by_cases high : i = k + kernelPgd
    · rw [high, Function.update_self, if_neg (by rw [kernelPgd]; omega), if_pos (by omega),
        Nat.add_sub_cancel]
    · rw [Function.update_of_ne high]
      by_cases low : i = k
      · rw [low, Function.update_self, if_pos (by omega)]
      · rw [Function.update_of_ne low]
        exact if_congr (by omega) rfl (if_congr (by omega) rfl rfl)
  · by_cases new : frame = b + k
    · rw [new, Function.update_self]
      by_cases inside : o < 1024
      · rw [if_pos (by omega), if_pos (by omega), Nat.add_sub_cancel_left]
      · rw [if_neg (by omega), if_neg (by omega), if_neg (by omega)]
    · rw [Function.update_of_ne new]
      exact if_congr (by omega) rfl rfl

theorem headLoop_eq {ebp last fuel : Nat} (hlast : last ≤ 256) (hb : b + last < 2 ^ 20)
    (more : ∀ j < last, frameEntry (j * 1024) < ebp) (stop : ebp ≤ frameEntry (last * 1024))
    (lt : k < last) (enough : last - k ≤ fuel) :
    headLoop ebp fuel (headState ram b k) = some (headState ram b last) := by
  induction fuel generalizing k with
  | zero => omega
  | succ fuel ih =>
    rw [headLoop, headRound_eq (by omega) (by omega)]
    by_cases done : k + 1 = last
    · rw [done]
      exact if_neg (not_lt.2 stop)
    · exact (if_pos (more (k + 1) (by omega))).trans (ih (by omega) (by omega))

theorem mappingBeyondEnd_eq : mappingBeyondEnd = 0x100000 := by decide

/-- The tables that `startup_32` makes. -/
def Image.rounds (image : Image) : Nat :=
  (pa image.end_ + mappingBeyondEnd + 0x3fffff) / 0x400000

theorem Image.pa_eq (image : Image) : pa image.brkBase + pageOffset = image.brkBase ∧
    pa image.end_ = pa image.brkBase + 0x10000 ∧ 0x100000 ≤ pa image.brkBase ∧
    pa image.end_ ≤ 0x3f00000 ∧ pa image.brkBase / pageSize * pageSize = pa image.brkBase := by
  have above := image.above
  have small := image.small
  obtain ⟨n, aligned⟩ := image.aligned
  simp only [pageSize] at aligned
  simp only [Image.brkBase, Image.end_, Image.brkLimit, pa, wrapSub, pageOffset, pageSize]
  omega

theorem Image.rounds_spec (image : Image) : 1 ≤ image.rounds ∧ image.rounds ≤ 16 ∧
    pa image.end_ + mappingBeyondEnd ≤ image.rounds * 0x400000 ∧
    image.rounds * 0x400000 < pa image.end_ + mappingBeyondEnd + 0x400000 := by
  obtain ⟨-, -, -, small, -⟩ := image.pa_eq
  rw [Image.rounds, mappingBeyondEnd_eq]
  omega

theorem Image.pa_brkEnd (image : Image) : pa (image.brkBase + image.rounds * pageSize) =
    pa image.brkBase + image.rounds * pageSize := by
  have above := image.above
  have small := image.small
  have few := image.rounds_spec.2.1
  have brk : image.brkBase = image.bssStop := rfl
  rw [pa, pa, pageSize, pageOffset, wrapSub_of_le (by omega) (by omega), wrapSub_of_le (by omega) (by omega)]
  omega

theorem startup32_eq (image : Image) (ram : Nat → Nat → Nat) :
    startup32 image ram = some ⟨headTables ram (pa image.brkBase / pageSize) image.rounds,
      image.brkBase + image.rounds * pageSize, image.rounds * 1024⟩ := by
  obtain ⟨base, end_, low, small, whole⟩ := image.pa_eq
  obtain ⟨some, few, reach, tight⟩ := image.rounds_spec
  rw [startup32]
  -- from here on the addresses are numbers
  generalize image.rounds = last, image.brkBase = brk, pa image.brkBase = base', pa image.end_ = e,
    mappingBeyondEnd = beyond at *
  rw [pageOffset] at base
  have room : last * 0x400000 ≤ 2 ^ 26 := by omega
  have more (j : Nat) (lt : j < last) : frameEntry (j * 1024) < e + beyond + pteIdentAttr := by
    refine Nat.add_lt_add_right ?_ pteIdentAttr
    rw [pageSize]
    linarith
  have stop : e + beyond + pteIdentAttr ≤ frameEntry (last * 1024) := by
    refine Nat.add_le_add_right ?_ pteIdentAttr
    rwa [pageSize, Nat.mul_assoc]
  have ebp : u32 (e + beyond + pteIdentAttr) = e + beyond + pteIdentAttr := by
    rw [pteIdentAttr]
    exact wrap_of_lt (by omega)
  have high : base' / pageSize + last < 2 ^ 20 := by
    rw [pageSize]
    omega
  have loop := @headLoop_eq ram (base' / pageSize) 0 _ last 1024 (by omega) high more stop (by omega)
    (by omega)
  have first : pteIdentAttr = frameEntry (0 * 1024) := by
    rw [frameEntry, Nat.zero_mul, Nat.zero_add]
  rw [headState, headTables_zero, ← first, Nat.add_zero, whole] at loop
  rw [ebp, loop, Option.map_some, Option.some_inj, headState, Startup.mk.injEq]
  refine ⟨rfl, ?_, ?_⟩
  · dsimp only
    rw [Nat.add_mul, whole, pageSize, pageOffset]
    exact (wrap_of_lt (by omega)).trans (by omega)
  · simp only [frameEntry, pageSize, pteIdentAttr, Nat.shiftRight_eq_div_pow]
    omega

theorem tableEntry_spec {frame : Nat} (small : frame < 2 ^ 20) :
    Present (tableEntry frame) ∧ entryFrame (tableEntry frame) = frame := by
  rw [tableEntry, ← entry_eq (by decide)]
  exact ⟨present_entry (by decide) (by decide), entryFrame_entry small (by decide)⟩

theorem frameEntry_spec {frame : Nat} (small : frame < 2 ^ 20) :
    Present (frameEntry frame) ∧ entryFrame (frameEntry frame) = frame := by
  rw [frameEntry, ← entry_eq (by decide)]
  exact ⟨present_entry (by decide) (by decide), entryFrame_entry small (by decide)⟩

theorem headTables_pgd (i : Nat) :
    (∃ j < k, (i = j ∨ i = kernelPgd + j) ∧ (headTables ram b k).pgd i = tableEntry (b + j)) ∨
      (headTables ram b k).pgd i = 0 ∧ k ≤ i ∧ (i < kernelPgd ∨ kernelPgd + k ≤ i) := by
  rw [headTables]
  dsimp only
  split_ifs with low high
  · exact .inl ⟨i, low, .inl rfl, rfl⟩
  · exact .inl ⟨i - kernelPgd, by omega, .inr (by omega), rfl⟩
  · exact .inr ⟨rfl, by omega, by omega⟩

theorem headTables_table {j ofs : Nat} (hj : j < k) (hofs : ofs < 1024) :
    (headTables ram b k).ram (b + j) ofs = frameEntry (j * 1024 + ofs) := by
  rw [headTables]
  dsimp only
  rw [if_pos (by omega), Nat.add_sub_cancel_left]

theorem walk_headTables {a : Nat} (hk : k ≤ 256) (hb : b + k ≤ 2 ^ 20) (ha : a < 2 ^ 32) :
    walk (headTables ram b k) a =
      if a / 2 ^ 22 < k then some (frameEntry (a / pageSize))
      else if kernelPgd ≤ a / 2 ^ 22 ∧ a / 2 ^ 22 < kernelPgd + k then
        some (frameEntry ((a - pageOffset) / pageSize))
      else none := by
  have idx : pgdIndex a = a / 2 ^ 22 := by
    have mask := Nat.and_two_pow_sub_one_eq_mod (u32 a >>> pgdirShift) 10
    rw [pgdIndex, show ptrsPerPgd - 1 = 2 ^ 10 - 1 from rfl, mask, u32, wrap_of_lt ha, pgdirShift,
      Nat.shiftRight_eq_div_pow]
    omega
  have ofs : pteIndex a = a / pageSize % 1024 := by
    have mask := Nat.and_two_pow_sub_one_eq_mod (u32 a >>> pageShift) 10
    rw [pteIndex, show ptrsPerPte - 1 = 2 ^ 10 - 1 from rfl, mask, u32, wrap_of_lt ha,
      Nat.shiftRight_eq_div_pow]
    rfl
  have below : a / pageSize % 1024 < 1024 := Nat.mod_lt _ (by decide)
  rw [walk, idx, ofs]
  dsimp only
  obtain ⟨j, lt, place, entry⟩ | ⟨zero, outside, outside'⟩ :=
    @headTables_pgd ram b k (a / 2 ^ 22)
  · obtain ⟨present, frame⟩ := tableEntry_spec (show b + j < 2 ^ 20 by omega)
    obtain ⟨present', -⟩ := frameEntry_spec (show j * 1024 + a / pageSize % 1024 < 2 ^ 20 by omega)
    rw [entry, if_pos present, frame, headTables_table lt below, if_pos present']
    obtain low | high := place
    · have frame : j * 1024 + a / pageSize % 1024 = a / pageSize := by
        rw [pageSize]
        omega
      rw [if_pos (by omega), frame]
    · have far : ¬ a / 2 ^ 22 < k := by
        rw [high, kernelPgd]
        omega
      have frame : j * 1024 + a / pageSize % 1024 = (a - pageOffset) / pageSize := by
        rw [kernelPgd] at high
        rw [pageSize, pageOffset]
        omega
      rw [if_neg far, if_pos (by omega), frame]
  · rw [zero, if_neg not_present_zero, if_neg (by omega), if_neg (by omega)]

/-- The first tables are apart and lie below `_brk_end`. -/
theorem startup_tables {image : Image} {ram : Nat → Nat → Nat} {s : Startup}
    (started : startup32 image ram = some s) :
    (∀ i j, kernelPgd ≤ i → i < ptrsPerPgd → kernelPgd ≤ j → j < ptrsPerPgd → i ≠ j →
      Present (s.tables.pgd i) → Present (s.tables.pgd j) →
      entryFrame (s.tables.pgd i) ≠ entryFrame (s.tables.pgd j)) ∧
    ∀ i, Present (s.tables.pgd i) → pa image.brkBase ≤ entryFrame (s.tables.pgd i) * pageSize ∧
      (entryFrame (s.tables.pgd i) + 1) * pageSize ≤ pa s.brkEnd := by
  obtain ⟨base, end_, low, small, whole⟩ := image.pa_eq
  obtain ⟨-, few, -, -⟩ := image.rounds_spec
  rw [startup32_eq] at started
  cases started
  have entry (i : Nat) (present : Present ((headTables ram (pa image.brkBase / pageSize) image.rounds).pgd i)) :
      ∃ j < image.rounds, (i = j ∨ i = kernelPgd + j) ∧
        entryFrame ((headTables ram (pa image.brkBase / pageSize) image.rounds).pgd i) =
          pa image.brkBase / pageSize + j := by
    obtain ⟨j, lt, place, eq⟩ | ⟨zero, -⟩ := @headTables_pgd ram (pa image.brkBase / pageSize) image.rounds i
    · refine ⟨j, lt, place, ?_⟩
      rw [eq, (tableEntry_spec (by rw [pageSize]; omega)).2]
    · exact absurd (zero ▸ present) not_present_zero
  refine ⟨fun i i' hi _ hi' _ ne present present' => ?_, fun i present => ?_⟩
  · obtain ⟨j, lt, place, eq⟩ := entry i present
    obtain ⟨j', lt', place', eq'⟩ := entry i' present'
    dsimp only
    rw [eq, eq']
    rw [kernelPgd] at *
    omega
  · obtain ⟨j, lt, -, eq⟩ := entry i present
    dsimp only
    rw [eq, image.pa_brkEnd, Nat.add_mul, Nat.add_mul, Nat.add_mul, whole]
    rw [pageSize]
    omega

theorem startup_bounds (image : Image) (ram : Nat → Nat → Nat) :
    ∃ s, startup32 image ram = some s ∧ (image.brkBase < s.brkEnd ∧ s.brkEnd ≤ image.brkLimit) ∧
      pa s.brkEnd ≤ pa image.end_ ∧ pa image.end_ + mappingBeyondEnd ≤ s.maxPfnMapped * pageSize ∧
      s.maxPfnMapped ≤ 2 ^ 18 := by
  obtain ⟨base, end_, low, small, whole⟩ := image.pa_eq
  obtain ⟨some, few, reach, -⟩ := image.rounds_spec
  have limit : image.brkLimit = image.brkBase + 64 * 1024 := rfl
  refine ⟨_, startup32_eq image ram, ?_, ?_, ?_, ?_⟩
  · dsimp only
    rw [limit, pageSize]
    omega
  · dsimp only
    rw [image.pa_brkEnd, end_, pageSize]
    omega
  · dsimp only
    rwa [Nat.mul_assoc]
  · dsimp only
    omega

/-- `startup_32` maps low memory at its own addresses and at `PAGE_OFFSET`, as far as
`max_pfn_mapped` says, and nothing else.  That is `MAPPING_BEYOND_END` behind the image
and not a table more.  The tables lie in `.brk` below `_brk_end`, and besides the page
directory, `_brk_end` and `max_pfn_mapped` nothing else is written. -/
theorem startup_mapping (image : Image) (ram : Nat → Nat → Nat) :
    ∃ s, startup32 image ram = some s ∧
      (∀ a < 2 ^ 32, walk s.tables a =
        if a < s.maxPfnMapped * pageSize then some (frameEntry (a / pageSize))
        else if pageOffset ≤ a ∧ a - pageOffset < s.maxPfnMapped * pageSize then
          some (frameEntry ((a - pageOffset) / pageSize))
        else none) ∧
      (pa image.end_ + mappingBeyondEnd ≤ s.maxPfnMapped * pageSize ∧
        s.maxPfnMapped * pageSize < pa image.end_ + mappingBeyondEnd + 2 ^ 22) ∧
      (image.brkBase < s.brkEnd ∧ s.brkEnd ≤ image.brkLimit) ∧
      (∀ i, Present (s.tables.pgd i) → pa image.brkBase ≤ entryFrame (s.tables.pgd i) * pageSize ∧
        (entryFrame (s.tables.pgd i) + 1) * pageSize ≤ pa s.brkEnd) ∧
      ∀ frame, frame * pageSize < pa image.brkBase ∨ pa s.brkEnd ≤ frame * pageSize →
        s.tables.ram frame = ram frame := by
  obtain ⟨base, end_, low, small, whole⟩ := image.pa_eq
  obtain ⟨some, few, reach, tight⟩ := image.rounds_spec
  obtain ⟨s, started, brk, -, reach', -⟩ := startup_bounds image ram
  have frames := (startup_tables started).2
  rw [startup32_eq] at started
  cases started
  have bytes : image.rounds * 1024 * pageSize = image.rounds * 2 ^ 22 := by rw [Nat.mul_assoc]; rfl
  refine ⟨_, startup32_eq image ram, fun a ha => ?_, ⟨reach', ?_⟩, brk, frames, fun frame out => ?_⟩
  · rw [walk_headTables (by omega) (by rw [pageSize]; omega) ha]
    dsimp only
    rw [bytes]
    refine if_congr (Nat.div_lt_iff_lt_mul (by decide)) rfl (if_congr ?_ rfl rfl)
    rw [Nat.le_div_iff_mul_le (by decide), Nat.div_lt_iff_lt_mul (by decide), Nat.add_mul,
      show kernelPgd * 2 ^ 22 = pageOffset from rfl]
    omega
  · dsimp only
    rw [bytes]
    exact tight
  · dsimp only at out ⊢
    rw [image.pa_brkEnd] at out
    refine funext fun ofs => if_neg fun inside => ?_
    rw [pageSize] at out inside whole
    omega

end XcKernel.Boot
