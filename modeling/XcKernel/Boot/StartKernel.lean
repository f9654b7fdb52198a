import XcKernel.Boot.Head
import XcKernel.E820.Fill
import XcKernel.Lib.Run
import XcKernel.Memblock.FreeAll
import XcKernel.Memblock.Register
import XcKernel.Paging.Buffer

/-!
# Memory in `start_kernel`

From the tables of `startup_32` to `initmem_init`.  The kernel image and the first page
tables are reserved, the firmware map gives the memory, and the final page tables are
made behind the image.  From then on memory is found by `memblock`: whatever it lets go
to the page allocator is mapped, and holds nothing that the kernel has put there.
-/

namespace XcKernel.Boot

open Word Mm E820 XcKernel.Span

/-- `MAX_ARCH_PFN` -/
def maxArchPfn : Nat := 1 <<< (32 - pageShift)

/-- The loop of `e820_end_pfn`. -/
def endPfnLoop (limitPfn type : Nat) : List E820Entry → Nat → Nat
  | [], lastPfn => lastPfn
  | ei :: rest, lastPfn =>
    if ei.type ≠ type then endPfnLoop limitPfn type rest lastPfn
    else
      let startPfn := u32 (ei.addr >>> pageShift)
      let endPfn := u32 (u64 (ei.addr + ei.size) >>> pageShift)
      if startPfn ≥ limitPfn then endPfnLoop limitPfn type rest lastPfn
      else if endPfn > limitPfn then limitPfn
      else endPfnLoop limitPfn type rest (if endPfn > lastPfn then endPfn else lastPfn)

def e820EndPfn (map : List E820Entry) (limitPfn type : Nat) : Nat :=
  let lastPfn := endPfnLoop limitPfn type map 0
  if lastPfn > maxArchPfn then maxArchPfn else lastPfn

def e820EndOfRamPfn (map : List E820Entry) : Nat := e820EndPfn map maxArchPfn e820Ram

/-- `MAXMEM_PFN` -/
def maxmemPfn : Nat := maxmem >>> pageShift

/-- `find_low_pfn_range`: `max_low_pfn`, and `max_pfn` is the same. -/
def findLowPfnRange (maxPfn : Nat) : Nat := if maxPfn ≤ maxmemPfn then maxPfn else maxmemPfn

def reserveBrk (brkStart brkEnd : Nat) (memblock : Memblock) : Memblock :=
  if brkEnd > brkStart then memblockX86ReserveRange memblock (pa brkStart) (pa brkEnd) else memblock

/-- The page tables, `memblock`, `early_node_map` and `max_low_pfn`. -/
structure EarlyKernel where
  tables : PageTables
  memblock : Memblock
  earlyNodeMap : List NodeActiveRegion
  maxLowPfn : Nat

/-- `start_kernel` from `memblock_init` to `initmem_init`.  What `sanitize_e820_map`
returns is not looked at. -/
def startKernel (k : KernelText) (image : Image) (s : Startup) (biosmap : List E820Entry) :
    Except String EarlyKernel :=
  let memblock := memblockX86ReserveRange memblockInit (pa Image.text) (pa image.bssStop)
  let map := (sanitizeE820Map biosmap e820Max).2
  let maxLowPfn := findLowPfnRange (e820EndOfRamPfn map)
  let memblock := reserveBrk image.brkBase s.brkEnd memblock
  match memblockX86Fill map { memblock with currentLimit := s.maxPfnMapped <<< pageShift } with
  | none => .error "memblock overflows!"
  | some memblock => do
    let r ← initMemoryMapping k memblock s.maxPfnMapped 0 (u32 (maxLowPfn <<< pageShift)) s.tables
    let memblock := { r.memblock with currentLimit := r.ret <<< pageShift }
    return ⟨r.tables, memblock, memblockX86RegisterActiveRegions memblock [] 0 0 maxLowPfn, maxLowPfn⟩

/-- The result is within the limit and not below the end of any entry that starts
within it. -/
theorem endPfnLoop_spec {limitPfn type lastPfn : Nat} (map : List E820Entry) (le : lastPfn ≤ limitPfn) :
    lastPfn ≤ endPfnLoop limitPfn type map lastPfn ∧ endPfnLoop limitPfn type map lastPfn ≤ limitPfn ∧
      ∀ e ∈ map, e.type = type → u32 (e.addr >>> pageShift) < limitPfn →
        min limitPfn (u32 (u64 (e.addr + e.size) >>> pageShift)) ≤ endPfnLoop limitPfn type map lastPfn := by
  induction map generalizing lastPfn with
  | nil => exact ⟨le_rfl, le, fun e mem => absurd mem List.not_mem_nil⟩
  | cons ei rest ih =>
    rw [endPfnLoop]
    by_cases other : ei.type ≠ type
    · rw [if_pos other]
      obtain ⟨low, high, all⟩ := ih le
      refine ⟨low, high, fun e mem same => ?_⟩
      obtain rfl | mem := List.mem_cons.mp mem
      · exact absurd same other
      · exact all e mem same
    · rw [if_neg other]
      dsimp only
      by_cases beyond : u32 (ei.addr >>> pageShift) ≥ limitPfn
      · rw [if_pos beyond]
        obtain ⟨low, high, all⟩ := ih le
        refine ⟨low, high, fun e mem same start => ?_⟩
        obtain rfl | mem := List.mem_cons.mp mem
        · exact absurd start (not_lt.2 beyond)
        · exact all e mem same start
      · rw [if_neg beyond]
        by_cases top : u32 (u64 (ei.addr + ei.size) >>> pageShift) > limitPfn
        · rw [if_pos top]
          exact ⟨le, le_rfl, fun e _ _ _ => min_le_left _ _⟩
        · rw [if_neg top]
          have next : (if u32 (u64 (ei.addr + ei.size) >>> pageShift) > lastPfn then
              u32 (u64 (ei.addr + ei.size) >>> pageShift) else lastPfn) =
              max lastPfn (u32 (u64 (ei.addr + ei.size) >>> pageShift)) := by
            split <;> omega
          rw [next]
          obtain ⟨low, high, all⟩ := ih (show max lastPfn _ ≤ limitPfn from max_le le (not_lt.1 top))
          refine ⟨(le_max_left _ _).trans low, high, fun e mem same start => ?_⟩
          obtain rfl | mem := List.mem_cons.mp mem
          · exact (min_le_right _ _).trans ((le_max_right _ _).trans low)
          · exact all e mem same start

/-- A range is reserved while the table has room. -/
theorem reserveRange_live {memblock : Memblock} {live : List MemblockRegion}
    (h : memblock.reserved.Live live) (room : live.length < memblock.reserved.max) {a b : Nat}
    (le : a ≤ b) (small : b < 2 ^ 64) :
    ∃ live', (memblockX86ReserveRange memblock a b).reserved.Live live' ∧
      (memblockX86ReserveRange memblock a b).reserved.max = memblock.reserved.max ∧
      (memblockX86ReserveRange memblock a b).memory = memblock.memory ∧
      ∀ x, Covers (spans live') x ↔ Covers (spans live) x ∨ (a ≤ x ∧ x < b) := by
  rw [memblockX86ReserveRange]
  by_cases empty : a = b
  · rw [if_pos empty]
    refine ⟨live, h, rfl, rfl, fun x => ⟨.inl, fun both => both.elim id fun inside => ?_⟩⟩
    omega
  · rw [if_neg empty, u64Sub, wrapSub_of_le le small]
    have length : a + (b - a) = b := by omega
    obtain ⟨live', -, list, len, recorded, -⟩ | ⟨-, full, -⟩ :=
      memblockAddRegion_spec h (show 0 < b - a by omega) (show a + (b - a) < 2 ^ 64 by omega)
    · have shown : (memblockReserve memblock a (b - a)).2.reserved =
          { memblock.reserved with regions := live' } := by
        rw [memblockReserve, list]
      refine ⟨live', ?_, by rw [shown], rfl, fun x => ?_⟩
      · rw [shown]
        exact ⟨(orPlaceholder_of_ne_nil recorded.nonempty).symm, recorded.ok, len, h.slot⟩
      · rw [recorded.covers x, length]
    · omega

/-- The image and the first tables are reserved, in one piece. -/
theorem image_reserved (image : Image) {brkEnd : Nat} (more : image.brkBase < brkEnd)
    (limit : brkEnd ≤ image.brkLimit) :
    ∃ live, (reserveBrk image.brkBase brkEnd
        (memblockX86ReserveRange memblockInit (pa Image.text) (pa image.bssStop))).reserved.Live live ∧
      (reserveBrk image.brkBase brkEnd
        (memblockX86ReserveRange memblockInit (pa Image.text) (pa image.bssStop))).reserved.max =
          initMemblockRegions ∧
      (reserveBrk image.brkBase brkEnd
        (memblockX86ReserveRange memblockInit (pa Image.text) (pa image.bssStop))).memory =
          memblockInit.memory ∧
      live.length ≤ 1 ∧ ∀ x, Covers (spans live) x ↔ pa Image.text ≤ x ∧ x < pa brkEnd := by
  obtain ⟨base, end_, low, small, -⟩ := image.pa_eq
  have text : pa Image.text = 0x100000 := by decide
  have brkLimit : image.brkLimit = image.brkBase + 64 * 1024 := rfl
  have high : pa brkEnd = brkEnd - pageOffset := by
    rw [pageOffset] at base
    rw [pa, wrapSub_of_le (by rw [pageOffset]; omega) (by omega)]
  have start : memblockInit.reserved.Live [] := ⟨rfl, .nil, by decide, by decide⟩
  rw [show image.bssStop = image.brkBase from rfl, reserveBrk, if_pos more]
  obtain ⟨live₁, shown₁, max₁, memory₁, covers₁⟩ := reserveRange_live start (by decide)
    (show pa Image.text ≤ pa image.brkBase by omega) (by omega)
  have range₁ (x : Nat) : Covers (spans live₁) x ↔ Covers [⟨pa Image.text, pa image.brkBase⟩] x := by
    rw [covers₁ x]
    simp [Contains]
  have one₁ : live₁.length ≤ 1 := length_le_of_covers shown₁.ok range₁
  obtain ⟨live, shown, max, memory, covers⟩ := reserveRange_live shown₁
    (show live₁.length < _ by rw [max₁]; exact one₁.trans_lt (by decide))
    (show pa image.brkBase ≤ pa brkEnd by omega) (by omega)
  have all (x : Nat) : Covers (spans live) x ↔ pa Image.text ≤ x ∧ x < pa brkEnd := by
    rw [covers x, covers₁ x]
    simp only [spans_nil, covers_nil, false_or]
    omega
  have range (x : Nat) : Covers (spans live) x ↔ Covers [⟨pa Image.text, pa brkEnd⟩] x := by
    rw [all x]
    simp [Contains]
  exact ⟨live, shown, max.trans max₁, memory.trans memory₁, length_le_of_covers shown.ok range, all⟩

theorem fillEntry_rest {memblock memblock' : Memblock} {e : E820Entry}
    (fills : fillEntry memblock e = some memblock') :
    memblock'.reserved = memblock.reserved ∧ memblock'.currentLimit = memblock.currentLimit := by
  rw [fillEntry] at fills
  dsimp only at fills
  split_ifs at fills
  · cases fills
    exact ⟨rfl, rfl⟩
  · cases fills
    exact ⟨rfl, rfl⟩
  · cases fills
    exact ⟨rfl, rfl⟩

theorem foldlM_fillEntry_rest {memblock memblock' : Memblock} {map : List E820Entry}
    (fills : map.foldlM fillEntry memblock = some memblock') :
    memblock'.reserved = memblock.reserved ∧ memblock'.currentLimit = memblock.currentLimit := by
  induction map generalizing memblock with
  | nil =>
    cases fills
    exact ⟨rfl, rfl⟩
  | cons e rest ih =>
    rw [List.foldlM_cons] at fills
    obtain ⟨next, first, later⟩ := Option.bind_eq_some_iff.mp fills
    obtain ⟨reserved, limit⟩ := ih later
    obtain ⟨reserved', limit'⟩ := fillEntry_rest first
    exact ⟨reserved.trans reserved', limit.trans limit'⟩

/-- What the firmware map has to be like: two entries or more, in as many segments as
the table holds, and memory where physical addresses can be. -/
structure FirmwareOk (biosmap : List E820Entry) : Prop where
  ok : MapOk biosmap
  sanitised : (sanitizeE820Map biosmap e820Max).1 = 0
  segments : ∀ canonical, Canonical biosmap canonical → canonical.length ≤ e820Max
  physical : ∀ x, UsableAt biosmap x → x < 2 ^ 44 - pageSize

namespace FirmwareOk

variable {biosmap : List E820Entry} (firmware : FirmwareOk biosmap)
include firmware

theorem canonical : Canonical biosmap (sanitizeE820Map biosmap e820Max).2 ∧
    ∀ e ∈ (sanitizeE820Map biosmap e820Max).2, e.addr + e.size < 2 ^ 64 := by
  have eq := sanitizeE820Map_eq firmware.ok e820Max
  have all : 2 ≤ biosmap.length ∧ (biosmap.length : Int) ≤ e820Max ∧ NoWrap biosmap := by
    by_contra bad
    have sanitised := firmware.sanitised
    rw [eq, if_neg bad] at sanitised
    cases sanitised
  have canonical := sweepAll_canonical all.2.2
  rw [if_pos all, Int.toNat_natCast, List.take_of_length_le (firmware.segments _ canonical)] at eq
  rw [eq]
  exact ⟨canonical, canonical.fits all.2.2⟩

/-- The memory list has the usable addresses, and nothing else of `memblock` changes. -/
theorem fills {memblock : Memblock} (empty : memblock.memory = memblockInit.memory) :
    ∃ memblock' live, memblockX86Fill (sanitizeE820Map biosmap e820Max).2 memblock = some memblock' ∧
      memblock'.memory.Live live ∧ memblock'.memory.max = initMemblockRegions ∧
      (∀ x, Covers (spans live) x ↔ UsableAt biosmap x) ∧
      memblock'.reserved = memblock.reserved ∧ memblock'.currentLimit = memblock.currentLimit := by
  obtain ⟨canonical, fits⟩ := firmware.canonical
  have start : Filled memblock [] [] :=
    ⟨by rw [empty]; exact ⟨rfl, .nil, by decide, by decide⟩, by rw [empty]; rfl, fun x => by simp⟩
  obtain ⟨m, live, fills, filled⟩ := start.foldlM (fun e he => (canonical.nonzero e he).1) fits
    (by rw [List.length_nil, Nat.zero_add]; exact firmware.segments _ canonical)
  obtain ⟨reserved, limit⟩ := foldlM_fillEntry_rest fills
  refine ⟨memblockAnalyze m, live, ?_, filled.shown, filled.max, fun x => ?_, reserved, limit⟩
  · rw [memblockX86Fill, fills, Option.map_some]
  · exact (filled.covers x).trans (canonical.covers_usable x)

end FirmwareOk

/-- The image and what is mapped behind it lie in memory. -/
def Loaded (image : Image) (biosmap : List E820Entry) : Prop :=
  ∀ x, pa Image.text ≤ x → x < pa image.end_ + mappingBeyondEnd → typeAt biosmap x = e820Ram

section Loaded

variable {image : Image} {biosmap : List E820Entry} (firmware : FirmwareOk biosmap)
  (loaded : Loaded image biosmap)
include firmware loaded

/-- Low memory goes as far as the first tables need, and not too far for the final
ones. -/
theorem maxLowPfn_spec :
    pa image.end_ + mappingBeyondEnd ≤
        findLowPfnRange (e820EndOfRamPfn (sanitizeE820Map biosmap e820Max).2) * pageSize ∧
      findLowPfnRange (e820EndOfRamPfn (sanitizeE820Map biosmap e820Max).2) * pageSize ≤ maxmem := by
  obtain ⟨-, end_, low, small, whole⟩ := image.pa_eq
  obtain ⟨canonical, -⟩ := firmware.canonical
  have text : pa Image.text = 0x100000 := by decide
  have type := loaded (pa image.end_ + mappingBeyondEnd - 1) (by omega)
    (by rw [mappingBeyondEnd_eq]; omega)
  obtain ⟨e, mem, inside⟩ := canonical.complete (pa image.end_ + mappingBeyondEnd - 1)
    (by rw [type]; decide)
  have ram : e.type = e820Ram := (canonical.type e mem _ inside).trans type
  have bound : e.addr + e.size - 1 < 2 ^ 44 - pageSize := by
    refine firmware.physical _ (.inl ?_)
    rw [← canonical.type e mem _ ⟨by have := inside.1; have := inside.2; omega,
      by have := inside.2; omega⟩, ram]
  obtain ⟨-, high, all⟩ := @endPfnLoop_spec maxArchPfn e820Ram 0
    (sanitizeE820Map biosmap e820Max).2 (Nat.zero_le _)
  have reach := all e mem ram
  rw [mappingBeyondEnd_eq] at inside ⊢
  obtain ⟨first, last⟩ := inside
  have arch : maxArchPfn = 2 ^ 20 := by decide
  have top : maxmem = 0x37bfd000 := by decide
  have topPfn : maxmemPfn = 0x37bfd := by decide
  rw [pageSize] at bound whole
  rw [e820EndOfRamPfn, e820EndPfn, if_neg (not_lt.2 high), findLowPfnRange, topPfn, top, pageSize]
  have sum : u64 (e.addr + e.size) = e.addr + e.size := wrap_of_lt (by omega)
  have start : u32 (e.addr >>> pageShift) = e.addr / 4096 := by
    rw [pageShift, Nat.shiftRight_eq_div_pow]
    exact wrap_of_lt (by omega)
  have stop : u32 ((e.addr + e.size) >>> pageShift) = (e.addr + e.size) / 4096 := by
    rw [pageShift, Nat.shiftRight_eq_div_pow]
    exact wrap_of_lt (by omega)
  rw [sum, start, stop] at reach
  generalize endPfnLoop maxArchPfn e820Ram (sanitizeE820Map biosmap e820Max).2 0 = lastPfn at *
  rw [arch] at reach
  have reach := reach (by omega)
  split <;> omega

omit firmware in
/-- There is room for the final tables behind the image. -/
theorem room_behind_image {memblock : Memblock} {memory reserved : List MemblockRegion}
    (hmem : memblock.memory.Live memory) (hres : memblock.reserved.Live reserved)
    (usable : ∀ x, Covers (spans memory) x ↔ UsableAt biosmap x) {brkEnd maxPfnMapped : Nat}
    (covers : ∀ x, Covers (spans reserved) x ↔ pa Image.text ≤ x ∧ x < pa brkEnd)
    (limit : pa brkEnd ≤ pa image.end_)
    (mapped : pa image.end_ + mappingBeyondEnd ≤ maxPfnMapped * pageSize) {e : Nat}
    (he : e * pageSize ≤ maxmem) :
    Candidate memblock 0 (maxPfnMapped * pageSize) (tableBytes (e * pageSize)) pageSize (pa image.end_) := by
  obtain ⟨-, end_, low, small, whole⟩ := image.pa_eq
  have bytes := tableBytes_le he
  have text : pa Image.text = 0x100000 := by decide
  rw [mappingBeyondEnd_eq] at mapped
  have stretch : ∀ x, pa image.end_ ≤ x → x < pa image.end_ + 0x100000 →
      Covers (spans memblock.memory.regions) x := by
    intro x above below
    rw [hmem.shown, covers_orPlaceholder, usable x]
    exact .inl (loaded x (by omega) (by rw [mappingBeyondEnd_eq]; exact below))
  obtain ⟨r, mem, first, last⟩ := (covers_stretch_iff hmem.ascending (by omega)).mp stretch
  refine ⟨?_, ⟨r, mem, first, by omega, fun _ => by rw [pageSize]; omega⟩, Nat.zero_le _, by omega,
    fun r hr x inRegion inRange => ?_⟩
  · rw [end_, ← whole, pageSize]
    exact ⟨pa image.brkBase / 4096 + 16, by omega⟩
  · have covered : Covers (spans memblock.reserved.regions) x := ⟨r.span, List.mem_map_of_mem hr, inRegion⟩
    rw [hres.shown, covers_orPlaceholder, covers x] at covered
    have := inRange.1
    dsimp only at this
    omega

omit loaded in
/-- What is registered as active is usable. -/
theorem registered_usable {memblock : Memblock} {memory : List MemblockRegion}
    (hmem : memblock.memory.Live memory) (table : memblock.memory.max = initMemblockRegions)
    (usable : ∀ x, Covers (spans memory) x ↔ UsableAt biosmap x) {lastPfn : Nat} (positive : 0 < lastPfn)
    {e : NodeActiveRegion} (mem : e ∈ memblockX86RegisterActiveRegions memblock [] 0 0 lastPfn) {x : Nat}
    (low : e.startPfn * pageSize ≤ x) (high : x < e.endPfn * pageSize) : UsableAt biosmap x := by
  have inRegion (r : MemblockRegion) (hr : r ∈ memblock.memory.regions) (y : Nat)
      (contains : r.span.Contains y) : UsableAt biosmap y := by
    rw [← usable, ← covers_orPlaceholder, ← hmem.shown]
    exact ⟨r.span, List.mem_map_of_mem hr, contains⟩
  have below (r : MemblockRegion) (hr : r ∈ memblock.memory.regions) :
      r.base + r.size ≤ 2 ^ 44 - pageSize := by
    rcases Nat.eq_zero_or_pos r.size with zero | some
    · rw [hmem.shown] at hr
      rcases (orPlaceholder_length memory).2 with same | ⟨-, placeholder⟩
      · rw [same] at hr
        exact absurd zero (hmem.ok.pos r hr).ne'
      · rw [placeholder, List.mem_singleton] at hr
        rw [hr]
        decide
    · have := firmware.physical _ (inRegion r hr (r.base + r.size - 1)
        ⟨by simp only [MemblockRegion.span]; omega, by simp only [MemblockRegion.span]; omega⟩)
      omega
  have few : memblock.memory.regions.length < maxActiveRegions := by
    have room := hmem.room
    rw [table] at room
    rw [hmem.shown]
    rcases (orPlaceholder_length memory).2 with same | ⟨-, placeholder⟩
    · rw [same]
      exact room.trans_lt (by decide)
    · rw [placeholder]
      decide
  have eq : memblockX86RegisterActiveRegions memblock [] 0 0 lastPfn =
      registered memblock.memory.regions 0 lastPfn := register_eq positive below hmem.ascending few
  rw [eq] at mem
  obtain ⟨r, hr, pages, found, rfl⟩ := mem_registered.mp mem
  obtain ⟨-, first, last⟩ := findActiveRegion_some (below r hr) found positive
  exact inRegion r hr x ⟨first.trans low, high.trans_le last⟩

end Loaded

/-- What the kernel can count on for a page that `memblock` lets go: it is mapped, it is
memory, and neither the image, nor a page table in use, nor anything allocated so far
lies in it. -/
structure FreePage (biosmap : List E820Entry) (s : Startup) (b : EarlyKernel) (allocs : List (BootCall × Span))
    (x : Nat) : Prop where
  mapped : HoldsFrame b.tables x
  usable : ∀ y, x * pageSize ≤ y → y < (x + 1) * pageSize → UsableAt biosmap y
  image : ∀ y, x * pageSize ≤ y → y < (x + 1) * pageSize → ¬ (pa Image.text ≤ y ∧ y < pa s.brkEnd)
  tables : ∀ i, Present (b.tables.pgd i) → entryFrame (b.tables.pgd i) ≠ x
  allocs : ∀ a ∈ allocs, ∀ y, x * pageSize ≤ y → y < (x + 1) * pageSize → ¬ a.2.Contains y

/-- What has been set up when `initmem_init` returns. -/
structure Prepared (image : Image) (biosmap : List E820Entry) (s : Startup) (b : EarlyKernel) : Prop where
  low : pa image.end_ + mappingBeyondEnd ≤ b.maxLowPfn * pageSize
  mapped : ∀ p < b.maxLowPfn, HoldsFrame b.tables p
  bootable : Bootable b.memblock
  image : ∀ x, pa Image.text ≤ x → x < pa s.brkEnd → Covers (spans b.memblock.reserved.regions) x
  tables : ∀ i, Present (b.tables.pgd i) → b.memblock.ReservesFrame (entryFrame (b.tables.pgd i))
  active : ∀ e ∈ b.earlyNodeMap, ∀ x, e.startPfn * pageSize ≤ x → x < e.endPfn * pageSize →
    UsableAt biosmap x

theorem startKernel_prepared (k : KernelText) {image : Image} {ram : Nat → Nat → Nat}
    {biosmap : List E820Entry} (firmware : FirmwareOk biosmap) (loaded : Loaded image biosmap) {s : Startup}
    (started : startup32 image ram = some s) (brk : image.brkBase < s.brkEnd ∧ s.brkEnd ≤ image.brkLimit)
    (limit : pa s.brkEnd ≤ pa image.end_)
    (reach : pa image.end_ + mappingBeyondEnd ≤ s.maxPfnMapped * pageSize) (small : s.maxPfnMapped ≤ 2 ^ 18) :
    ∃ b, startKernel k image s biosmap = .ok b ∧ Prepared image biosmap s b := by
  obtain ⟨low, he⟩ := maxLowPfn_spec firmware loaded
  obtain ⟨distinct, brkFrames⟩ := startup_tables started
  obtain ⟨reserved, hres, max, empty, one, covers⟩ := image_reserved image brk.1 brk.2
  rw [startKernel]
  dsimp only
  generalize findLowPfnRange (e820EndOfRamPfn (sanitizeE820Map biosmap e820Max).2) = e at low he ⊢
  generalize reserveBrk image.brkBase s.brkEnd
    (memblockX86ReserveRange memblockInit (pa Image.text) (pa image.bssStop)) = m at hres max empty ⊢
  obtain ⟨memblock, memory, fills, hmem, table, usable, reserved_eq, limit_eq⟩ :=
    firmware.fills (show { m with currentLimit := s.maxPfnMapped <<< pageShift }.memory = _ from empty)
  rw [fills]
  dsimp only at reserved_eq limit_eq ⊢
  rw [← reserved_eq] at hres max
  have pages : e < 2 ^ 18 := lt_of_le_maxmem he
  have some : 0 < e ∧ 0 < s.maxPfnMapped := by
    rw [mappingBeyondEnd_eq, pageSize] at low reach
    omega
  have boot : Bootable memblock := by
    refine ⟨⟨memory, hmem⟩, ⟨reserved, hres⟩, ?_⟩
    rw [limit_eq, Nat.shiftLeft_eq, pageOffset, pageShift]
    omega
  have slot : HasSlot memblock := by
    rw [HasSlot, max, MemblockType.cnt, hres.shown]
    rcases (orPlaceholder_length reserved).2 with same | ⟨-, placeholder⟩
    · rw [same]
      exact one.trans_lt (by decide)
    · rw [placeholder]
      decide
  have text : pa Image.text ≤ pa image.brkBase := by
    rw [show pa Image.text = 0x100000 by decide]
    exact image.pa_eq.2.2.1
  have shown (x : Nat) : Covers (spans memblock.reserved.regions) x ↔ pa Image.text ≤ x ∧ x < pa s.brkEnd := by
    rw [hres.shown, covers_orPlaceholder, covers x]
  have held (i : Nat) (present : Present (s.tables.pgd i)) :
      memblock.ReservesFrame (entryFrame (s.tables.pgd i)) := by
    intro x above below
    obtain ⟨first, last⟩ := brkFrames i present
    exact (shown x).mpr ⟨text.trans (first.trans above), below.trans_le last⟩
  obtain ⟨r, returns, ret, maps, boot', memory', kept, tables⟩ := initMemoryMapping_reserved k boot slot
    some.1 he ⟨some.2, small.trans_lt (by decide)⟩
    (room_behind_image loaded hmem hres usable covers limit reach he) distinct held
  rw [u32_shiftLeft (by omega), returns, ok_bind]
  refine ⟨_, rfl, low, maps, ⟨boot'.memory, boot'.reserved, ?_⟩, fun x first last => ?_, tables, ?_⟩
  · dsimp only
    rw [ret, Nat.shiftLeft_eq, pageOffset, pageShift]
    omega
  · exact kept x ((shown x).mpr ⟨first, last⟩)
  · intro a mem x first last
    have hmem' : { r.memblock with currentLimit := r.ret <<< pageShift }.memory.Live memory := memory' ▸ hmem
    exact registered_usable firmware hmem' (memory' ▸ table) usable some.1 mem first last

theorem Prepared.freePage {image : Image} {biosmap : List E820Entry} {s : Startup} {b : EarlyKernel}
    (prepared : Prepared image biosmap s b) {t : BootState}
    (run : Relation.ReflTransGen (BootStep HasSlot b.earlyNodeMap) ⟨b.memblock, []⟩ t) {x : Nat}
    (releasable : Releasable t.memblock b.earlyNodeMap b.maxLowPfn x) : FreePage biosmap s b t.allocs x := by
  have start : BootInv b.memblock ⟨b.memblock, []⟩ := by
    refine ⟨prepared.bootable, rfl, rfl, fun a mem => absurd mem List.not_mem_nil, fun x => id, ?_⟩
    exact ⟨.nil, by simp, by simp, by simp, by simp, by simp⟩
  have inv := invariant_of_run (BootInv b.memblock) (fun _ _ inv step => inv.step step) start run
  obtain ⟨low, ⟨e, mem, first, last⟩, clear⟩ := releasable
  have unreserved (y : Nat) (above : x * pageSize ≤ y) (below : y < (x + 1) * pageSize) :
      ¬ Covers (spans t.memblock.reserved.regions) y := by
    rintro ⟨span, hspan, contains⟩
    obtain ⟨r, hr, rfl⟩ := List.mem_map.mp hspan
    exact clear r hr ⟨above.trans_lt contains.2, contains.1.trans_lt below⟩
  refine ⟨prepared.mapped x low, fun y above below => ?_, fun y above below inside => ?_,
    fun i present same => ?_, fun a ha y above below contains => ?_⟩
  · refine prepared.active e mem y ?_ ?_
    · exact (Nat.mul_le_mul_right _ first).trans above
    · exact below.trans_le (Nat.mul_le_mul_right _ last)
  · exact unreserved y above below (inv.kept y (prepared.image y inside.1 inside.2))
  · have next : x * pageSize < (x + 1) * pageSize := Nat.mul_lt_mul_of_pos_right (Nat.lt_succ_self x) (by decide)
    have covered := prepared.tables i present (x * pageSize)
    rw [same] at covered
    exact unreserved (x * pageSize) le_rfl next (inv.kept _ (covered le_rfl next))
  · exact unreserved y above below (inv.held a ha y contains)

/-- 32 MB of memory with a hole below 1 MB. -/
def pcMap : List E820Entry := [⟨0, 0x9f000, 1⟩, ⟨0x100000, 0x1f00000, 1⟩]

/-- An image of 384 KB. -/
def pcImage : Image := ⟨0xc0150000, by decide, by decide, by decide⟩

theorem typeAt_pcMap (x : Nat) :
    typeAt pcMap x = if x < 0x9f000 ∨ (0x100000 ≤ x ∧ x < 0x2000000) then e820Ram else 0 := by
  by_cases low : x < 0x9f000
  · have high : ¬ 0x100000 ≤ x := by omega
    simp [typeAt, pcMap, E820Entry.Contains, low, high, e820Ram]
  · by_cases high : 0x100000 ≤ x ∧ x < 0x2000000
    · simp [typeAt, pcMap, E820Entry.Contains, low, high, e820Ram]
    · simp [typeAt, pcMap, E820Entry.Contains, low, high]

theorem pcMap_ok : FirmwareOk pcMap := by
  refine ⟨⟨by decide, by decide⟩, by decide +kernel, fun canonical is => ?_, fun x usable => ?_⟩
  · have other := @sweepAll_canonical pcMap (by decide)
    rw [is.from_zero.unique other.from_zero]
    decide +kernel
  · rw [UsableAt, typeAt_pcMap, pageSize] at *
    split at usable
    · omega
    · simp [e820Ram, e820ReservedKern] at usable

theorem pcImage_loaded : Loaded pcImage pcMap := by
  intro x low high
  rw [show pa Image.text = 0x100000 by decide] at low
  rw [show pa pcImage.end_ = 0x160000 by decide, mappingBeyondEnd_eq] at high
  rw [typeAt_pcMap, if_pos (by omega)]

end XcKernel.Boot
