import XcKernel.PageAlloc.Handover
import XcKernel.PageAlloc.Usemap

/-!
# The migratetypes of a new zone

`memmap_init_zone` marks a pageblock as movable when it comes to a page whose frame
number is a multiple of the size of a block; the bits of a block are numbered from
the start of the zone.  The two divide a zone into the same blocks only if it starts
with a block.  Otherwise every page belongs to the mark of another block, and the
pages at the end may have none.
-/

namespace XcKernel.PageAlloc

open Usemap (pageblockNrPages usemapSize)

/-- `init_currently_empty_zone`; `waitTable` says whether the wait table could be allocated. -/
def initCurrentlyEmptyZone (waitTable : Bool) (s : State) (zoneStartPfn : Nat) : Int × State :=
  if ¬ waitTable then (-12, s)
  else (0, { s with zone := { s.zone with
    zoneStartPfn := zoneStartPfn, freeList := fun _ _ => [], nrFree := fun _ => 0 } })

/-- A round of the loop of `memmap_init_zone`.  Every frame is valid and in the node. -/
def memmapInitRound (zone : Nat) (s : State) (pfn : Nat) : State :=
  let s := s.modifyPage pfn (memmapInitPage · zone)
  if s.zone.zoneStartPfn ≤ pfn ∧ pfn < s.zone.zoneStartPfn + s.zone.spannedPages ∧
      pfn &&& (pageblockNrPages - 1) = 0 then
    setPageblockMigratetype s pfn migrateMovable
  else s

def memmapInitZone (s : State) (size zone startPfn : Nat) : State :=
  (List.range' startPfn size).foldl (memmapInitRound zone) s

/-- The two calls of `free_area_init_core` for a zone that spans some pages. -/
def initZone (s : State) (startPfn : Nat) : State :=
  memmapInitZone (initCurrentlyEmptyZone true s startPfn).2 s.zone.spannedPages s.zone.idx startPfn

/-- A later change of a migratetype, of which there may be any. -/
def Changes (s s' : State) : Prop :=
  ∃ disabled pfn migratetype, s.Spanned pfn ∧ migratetype < migrateTypes ∧
    s' = setPageblockMigratetype { s with pageGroupByMobilityDisabled := disabled } pfn migratetype

/-- Every page of the zone is in a movable block. -/
def AllMovable (s : State) : Prop :=
  ∀ pfn, s.Spanned pfn → getPageblockMigratetype s pfn = migrateMovable

/-- Pages of one natural block have one migratetype, now and later. -/
def Uniform (s : State) : Prop :=
  ∀ s', Relation.ReflTransGen Changes s s' → ∀ p q, s.Spanned p → s.Spanned q →
    p / pageblockNrPages = q / pageblockNrPages →
    getPageblockMigratetype s' p = getPageblockMigratetype s' q

/-- A zone before it is initialised: it spans some page frames, its bitmap has the
size for them and is zero, and pages are grouped by mobility. -/
structure NewZone (s : State) (start : Nat) : Prop where
  nonempty : 1 ≤ s.zone.spannedPages
  limit : start + s.zone.spannedPages + pageblockNrPages ≤ 2 ^ 32
  enabled : s.pageGroupByMobilityDisabled = false
  zeroed : ∀ b < 8 * usemapSize s.zone.spannedPages, s.zone.pageblockFlags b = false

variable {s s' : State} {start k j : Nat}

/-- The block `j` from the start of the zone has a page, among the first `k`, that is
a multiple of the size of a block. -/
def MarksBlock (start k j : Nat) : Prop :=
  ∃ pfn, start ≤ pfn ∧ pfn < start + k ∧ pfn % 1024 = 0 ∧ (pfn - start) / 1024 = j

theorem pfnToBitidx_eq (start pfn : Nat) :
    pfnToBitidx start pfn = (pfn - start) / 1024 * nrPageblockBits := by
  rw [pfnToBitidx, Nat.shiftRight_eq_div_pow]
  rfl

theorem and_pageblock_eq_zero (pfn : Nat) :
    pfn &&& (pageblockNrPages - 1) = 0 ↔ pfn % 1024 = 0 := by
  have mask : pageblockNrPages - 1 = 2 ^ 10 - 1 := rfl
  rw [mask, Nat.and_two_pow_sub_one_eq_mod]

/-- The zone after the first `k` pages. -/
structure BlocksMarked (s s' : State) (start k : Nat) : Prop where
  zone : s'.zone = { s.zone with pageblockFlags := s'.zone.pageblockFlags }
  disabled : s'.pageGroupByMobilityDisabled = s.pageGroupByMobilityDisabled
  marked : ∀ j, MarksBlock start k j →
    readGroup s'.zone.pageblockFlags (j * nrPageblockBits) = migrateMovable
  other : ∀ j, ¬ MarksBlock start k j → readGroup s'.zone.pageblockFlags (j * nrPageblockBits) =
    readGroup s.zone.pageblockFlags (j * nrPageblockBits)

theorem marksBlock_succ : MarksBlock start (k + 1) j ↔
    MarksBlock start k j ∨ (start + k) % 1024 = 0 ∧ k / 1024 = j := by
  constructor
  · rintro ⟨pfn, low, high, aligned, block⟩
    by_cases last : pfn = start + k
    · subst last
      rw [Nat.add_sub_cancel_left] at block
      exact .inr ⟨aligned, block⟩
    · exact .inl ⟨pfn, low, by omega, aligned, block⟩
  · rintro (⟨pfn, low, high, aligned, block⟩ | ⟨aligned, block⟩)
    · exact ⟨pfn, low, by omega, aligned, block⟩
    · exact ⟨start + k, by omega, by omega, aligned, by rw [Nat.add_sub_cancel_left, block]⟩

/-- Initialising a page marks at most the block of the page. -/
theorem memmapInitRound_zone (zone : Nat) (enabled : s'.pageGroupByMobilityDisabled = false)
    (low : s'.zone.zoneStartPfn = start) (room : k < s'.zone.spannedPages) :
    (memmapInitRound zone s' (start + k)).pageGroupByMobilityDisabled = false ∧
      (memmapInitRound zone s' (start + k)).zone = if (start + k) % 1024 = 0 then
        { s'.zone with
          pageblockFlags :=
            writeGroup s'.zone.pageblockFlags (k / 1024 * nrPageblockBits) migrateMovable }
      else s'.zone := by
  have index : pfnToBitidx start (start + k) = k / 1024 * nrPageblockBits := by
    rw [pfnToBitidx_eq, Nat.add_sub_cancel_left]
  have spanned : s'.zone.zoneStartPfn ≤ start + k ∧
      start + k < s'.zone.zoneStartPfn + s'.zone.spannedPages := by omega
  unfold memmapInitRound
  dsimp only
  by_cases aligned : (start + k) % 1024 = 0
  · rw [if_pos aligned, if_pos ⟨spanned.1, spanned.2, (and_pageblock_eq_zero _).mpr aligned⟩]
    have value : (s'.modifyPage (start + k) (memmapInitPage · zone)).pageGroupByMobilityDisabled =
        false := enabled
    refine ⟨enabled, ?_⟩
    rw [setPageblockMigratetype, value, setPageblockFlagsGroup, ← index, ← low]
    rfl
  · rw [if_neg aligned, if_neg fun marks => aligned ((and_pageblock_eq_zero _).mp marks.2.2)]
    exact ⟨enabled, rfl⟩

theorem BlocksMarked.step (zone : Nat) (enabled : s.pageGroupByMobilityDisabled = false)
    (low : s.zone.zoneStartPfn = start) (room : k < s.zone.spannedPages)
    (h : BlocksMarked s s' start k) :
    BlocksMarked s (memmapInitRound zone s' (start + k)) start (k + 1) := by
  obtain ⟨disabled, after⟩ := @memmapInitRound_zone s' start k zone (h.disabled.trans enabled)
    (by rw [h.zone]; exact low) (by rw [h.zone]; exact room)
  refine ⟨?_, disabled.trans enabled.symm, fun j marks => ?_, fun j unmarked => ?_⟩
  · rw [after, h.zone]
    split <;> rfl
  · rw [after]
    rcases marksBlock_succ.mp marks with before | ⟨aligned, rfl⟩
    · split
      · by_cases same : j = k / 1024
        · subst same
          exact readGroup_writeGroup_self _ _ (show migrateMovable < _ by decide)
        · rw [readGroup_writeGroup_of_ne _ _ (Nat.mul_mod_left _ _) (Nat.mul_mod_left _ _)
            fun eq => same (Nat.eq_of_mul_eq_mul_right (by decide) eq)]
          exact h.marked j before
      · exact h.marked j before
    · rw [if_pos aligned]
      exact readGroup_writeGroup_self _ _ (show migrateMovable < _ by decide)
  · rw [after]
    have before : ¬ MarksBlock start k j := fun marks => unmarked (marksBlock_succ.mpr (.inl marks))
    split
    · rename_i aligned
      have other : j ≠ k / 1024 := fun same =>
        unmarked (marksBlock_succ.mpr (.inr ⟨aligned, same.symm⟩))
      rw [readGroup_writeGroup_of_ne _ _ (Nat.mul_mod_left _ _) (Nat.mul_mod_left _ _)
        fun eq => other (Nat.eq_of_mul_eq_mul_right (by decide) eq)]
      exact h.other j before
    · exact h.other j before

theorem memmapInitZone_marked (zone : Nat) (enabled : s.pageGroupByMobilityDisabled = false)
    (low : s.zone.zoneStartPfn = start) (room : k ≤ s.zone.spannedPages) :
    BlocksMarked s (memmapInitZone s k zone start) start k := by
  induction k with
  | zero => exact ⟨rfl, rfl, fun j ⟨_, _, _, _⟩ => by omega, fun _ _ => rfl⟩
  | succ k ih =>
    rw [memmapInitZone, List.range'_1_concat, List.foldl_append]
    exact (ih (by omega)).step zone enabled low (by omega)

theorem NewZone.readGroup_eq (new : NewZone s start) {j : Nat}
    (inside : j * 1024 < s.zone.spannedPages) :
    readGroup s.zone.pageblockFlags (j * nrPageblockBits) = migrateUnmovable := by
  have limit := new.limit
  have size := Usemap.usemapSize_eq (n := s.zone.spannedPages) (by omega)
  have zero : readGroup s.zone.pageblockFlags (j * nrPageblockBits) = readGroup (fun _ => false) 0 := by
    apply readGroup_congr
    intro k hk
    apply new.zeroed
    simp only [nrPageblockBits] at hk ⊢
    omega
  rw [zero]
  rfl

theorem initZone_marked (new : NewZone s start) :
    BlocksMarked (initCurrentlyEmptyZone true s start).2 (initZone s start) start
      s.zone.spannedPages :=
  memmapInitZone_marked s.zone.idx new.enabled rfl le_rfl

theorem initZone_spanned (new : NewZone s start) (pfn : Nat) :
    (initZone s start).Spanned pfn ↔ start ≤ pfn ∧ pfn < start + s.zone.spannedPages := by
  rw [State.Spanned, (initZone_marked new).zone]
  rfl

theorem initZone_start (new : NewZone s start) : (initZone s start).zone.zoneStartPfn = start := by
  rw [(initZone_marked new).zone]
  rfl

theorem initZone_movable (new : NewZone s start) {pfn : Nat} (low : start ≤ pfn)
    (high : pfn < start + s.zone.spannedPages) :
    getPageblockMigratetype (initZone s start) pfn = migrateMovable ↔
      MarksBlock start s.zone.spannedPages ((pfn - start) / 1024) := by
  have marked := initZone_marked new
  rw [getPageblockMigratetype, getPageblockFlagsGroup, initZone_start new, pfnToBitidx_eq]
  constructor
  · intro movable
    by_contra unmarked
    rw [marked.other _ unmarked] at movable
    have unmovable : readGroup s.zone.pageblockFlags ((pfn - start) / 1024 * nrPageblockBits) =
        migrateUnmovable := new.readGroup_eq (by omega)
    exact absurd (unmovable.symm.trans movable) (by decide)
  · exact marked.marked _

theorem allMovable_iff (new : NewZone s start) : AllMovable (initZone s start) ↔
    start % pageblockNrPages = 0 ∨
      pageblockNrPages ≤ start % pageblockNrPages + (s.zone.spannedPages - 1) % pageblockNrPages := by
  have nonempty := new.nonempty
  have size : pageblockNrPages = 1024 := rfl
  rw [size]
  constructor
  · intro movable
    have last := (initZone_movable new (by omega) (by omega)).mp
      (movable (start + s.zone.spannedPages - 1) ((initZone_spanned new _).mpr (by omega)))
    obtain ⟨a, low, high, aligned, block⟩ := last
    omega
  · intro ends pfn spanned
    obtain ⟨low, high⟩ := (initZone_spanned new pfn).mp spanned
    rw [initZone_movable new low high]
    by_cases aligned : start % 1024 = 0
    · exact ⟨start + (pfn - start) / 1024 * 1024, by omega, by omega, by omega, by omega⟩
    · exact ⟨start + (pfn - start) / 1024 * 1024 + (1024 - start % 1024), by omega, by omega,
        by omega, by omega⟩

theorem changes_start (run : Relation.ReflTransGen Changes s s') :
    s'.zone.zoneStartPfn = s.zone.zoneStartPfn :=
  invariant_of_run (fun t => t.zone.zoneStartPfn = s.zone.zoneStartPfn)
    (fun _ _ same ⟨_, _, _, _, _, next⟩ => by rw [next]; exact same) rfl run

theorem uniform_of_index (same : ∀ p q, s.Spanned p → s.Spanned q →
    p / pageblockNrPages = q / pageblockNrPages →
    pfnToBitidx s.zone.zoneStartPfn p = pfnToBitidx s.zone.zoneStartPfn q) : Uniform s := by
  intro s' run p q spanned spanned' block
  rw [getPageblockMigratetype, getPageblockMigratetype, getPageblockFlagsGroup,
    getPageblockFlagsGroup, changes_start run, same p q spanned spanned' block]

/-- In a zone that starts inside a block and has more pages than a block, two pages
of one block get different migratetypes when one of them is changed. -/
theorem not_uniform (movable : AllMovable s) (ragged : s.zone.zoneStartPfn % pageblockNrPages ≠ 0)
    (long : pageblockNrPages < s.zone.spannedPages) : ¬ Uniform s := by
  have size : pageblockNrPages = 1024 := rfl
  rw [size] at ragged long
  intro uniform
  have before : s.Spanned (s.zone.zoneStartPfn + 1023) := ⟨by omega, by omega⟩
  have behind : s.Spanned (s.zone.zoneStartPfn + 1024) := ⟨by omega, by omega⟩
  have step : Changes s (setPageblockMigratetype { s with pageGroupByMobilityDisabled := false }
      (s.zone.zoneStartPfn + 1024) migrateUnmovable) := ⟨false, _, _, behind, by decide, rfl⟩
  have same := uniform _ (.single step) _ _ before behind (by rw [size]; omega)
  have first : pfnToBitidx s.zone.zoneStartPfn (s.zone.zoneStartPfn + 1023) = 0 := by
    rw [pfnToBitidx_eq, Nat.add_sub_cancel_left]
    rfl
  have second : pfnToBitidx s.zone.zoneStartPfn (s.zone.zoneStartPfn + 1024) = nrPageblockBits := by
    rw [pfnToBitidx_eq, Nat.add_sub_cancel_left]
    rfl
  have kept := movable _ before
  simp only [getPageblockMigratetype, getPageblockFlagsGroup, setPageblockMigratetype,
    setPageblockFlagsGroup, first, second, Bool.false_eq_true, if_false] at same kept
  rw [readGroup_writeGroup_of_ne _ _ (by decide) (by decide) (by decide), kept,
    readGroup_writeGroup_self _ _ (by decide)] at same
  exact absurd same (by decide)

/-- All pages of a new zone are movable exactly if the last block contains a multiple
of the size of a block.  The two divisions into blocks agree for good exactly if the
zone starts with a block, or is so short that it has only one. -/
theorem new_zone_movable_iff (new : NewZone s start) :
    (AllMovable (initZone s start) ↔ start % pageblockNrPages = 0 ∨
      pageblockNrPages ≤ start % pageblockNrPages +
        (s.zone.spannedPages - 1) % pageblockNrPages) ∧
    (AllMovable (initZone s start) ∧ Uniform (initZone s start) ↔
      start % pageblockNrPages = 0 ∨ s.zone.spannedPages ≤ pageblockNrPages ∧
        pageblockNrPages < start % pageblockNrPages + s.zone.spannedPages) := by
  have nonempty := new.nonempty
  have low := initZone_start new
  have pages : (initZone s start).zone.spannedPages = s.zone.spannedPages := by
    rw [(initZone_marked new).zone]
    rfl
  have size : pageblockNrPages = 1024 := rfl
  refine ⟨allMovable_iff new, fun ⟨movable, uniform⟩ => ?_, fun ends => ?_⟩
  · by_cases aligned : start % pageblockNrPages = 0
    · exact .inl aligned
    · have short : s.zone.spannedPages ≤ pageblockNrPages := by
        by_contra long
        exact not_uniform movable (by rwa [low]) (by rw [pages]; omega) uniform
      have ends := (allMovable_iff new).mp movable
      rw [size] at *
      exact .inr ⟨short, by omega⟩
  · refine ⟨(allMovable_iff new).mpr ?_, uniform_of_index fun p q spanned spanned' block => ?_⟩
    · rw [size] at *
      omega
    · rw [initZone_spanned new] at spanned spanned'
      rw [low, pfnToBitidx_eq, pfnToBitidx_eq]
      congr 1
      rw [size] at *
      omega

/-- The first 16 MiB from a block boundary on. -/
theorem new_zone_movable_aligned :
    NewZone (freshState 4096) 0 ∧ AllMovable (initZone (freshState 4096) 0) ∧
      Uniform (initZone (freshState 4096) 0) := by
  have new : NewZone (freshState 4096) 0 := ⟨by decide, by decide, rfl, fun _ _ => rfl⟩
  exact ⟨new, (new_zone_movable_iff new).2.mpr (.inl rfl)⟩

/-- Without page 0, which the BIOS may keep, the pages from 3073 to 4095 are unmovable,
though page 3072 of the same block is movable. -/
theorem new_zone_movable_ragged :
    NewZone (freshState 4095) 1 ∧
      getPageblockMigratetype (initZone (freshState 4095) 1) 3072 = migrateMovable ∧
      getPageblockMigratetype (initZone (freshState 4095) 1) 3073 ≠ migrateMovable ∧
      ¬ (AllMovable (initZone (freshState 4095) 1) ∧ Uniform (initZone (freshState 4095) 1)) := by
  have new : NewZone (freshState 4095) 1 := ⟨by decide, by decide, rfl, fun _ _ => rfl⟩
  have pages : (freshState 4095).zone.spannedPages = 4095 := rfl
  have unmarked : getPageblockMigratetype (initZone (freshState 4095) 1) 3073 ≠ migrateMovable := by
    rw [Ne, initZone_movable new (by decide) (by decide), pages]
    rintro ⟨pfn, low, high, aligned, block⟩
    omega
  refine ⟨new, ?_, unmarked, fun both => unmarked (both.1 3073 ?_)⟩
  · rw [initZone_movable new (by decide) (by decide)]
    exact ⟨3072, by decide, by decide, by decide, by decide⟩
  · exact (initZone_spanned new 3073).mpr ⟨by decide, by decide⟩

end XcKernel.PageAlloc
