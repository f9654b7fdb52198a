import XcKernel.PageAlloc.BuddySpec
import XcKernel.PageAlloc.Pcp

/-!
# What the functions around the buddy allocator keep

A page is available when it is free or on a per-cpu list.  The invariant says
that the per-cpu lists hold pages that are not free, that the counters agree,
and that every available page meets a predicate `P` of its number and content.
The predicate is a parameter: it may be any property that the buddy allocator
does not touch and that rules out a page with flags.
-/

namespace XcKernel.PageAlloc

open Blocks

/-- The pages on the per-cpu lists. -/
def State.pcpPages (s : State) : List Nat :=
  (List.range migratePcptypes).flatMap s.zone.pageset.lists

/-- The page is free or on a per-cpu list. -/
def State.Avail (s : State) (x : Nat) : Prop := Covered s.Free x ∨ x ∈ s.pcpPages

/-- A property of pages that the buddy allocator keeps. -/
structure Stable (P : Nat → Page → Prop) : Prop where
  frame : ∀ {x page page'}, PageFrame page page' → P x page → P x page'
  noFlags : ∀ {x page}, P x page → page.flags &&& pageFlagsCheckAtPrep = 0

/-- The invariant without the counters of the per-cpu lists and the statistics. -/
structure PcpInv (P : Nat → Page → Prop) (s : State) : Prop where
  buddy : BuddyInv s
  migratetypes : MigratetypesOk s
  pages : ∀ x, s.Avail x → P x (s.memMap x)
  nodup : s.pcpPages.Nodup
  lent : ∀ x ∈ s.pcpPages, Lent s 0 x
  types : ∀ x ∈ s.pcpPages, (s.memMap x).priv < migrateTypes

/-- The whole invariant, which holds between operations. -/
structure ZoneInv (P : Nat → Page → Prop) (s : State) : Prop extends PcpInv P s where
  count : s.zone.pageset.count = s.pcpPages.length
  limits : ∃ batch : Nat, s.zone.pageset.high = 6 * batch ∧ s.zone.pageset.batch = max 1 batch
  stat : s.zone.vmStat .nrFreePages = s.zone.pagesBelow maxOrder

variable {P : Nat → Page → Prop} {s s' : State} {o p : Nat}

theorem BuddyInv.pagesBelow_eq (inv : BuddyInv s) :
    s.zone.pagesBelow maxOrder = (pages maxOrder s.free).card := by
  rw [card_pages (L := s.free) inv.tiling inv.nodup, Zone.pagesBelow]
  exact Finset.sum_congr rfl fun o _ => by rw [inv.count]

theorem BuddyInv.mem_pages (inv : BuddyInv s) (x : Nat) :
    x ∈ pages maxOrder s.free ↔ Covered s.Free x := by
  refine Blocks.mem_pages (L := s.free) inv.tiling (fun o large => ?_) x
  rw [List.eq_nil_iff_forall_not_mem]
  exact fun p free => absurd (inv.small free) (Nat.not_lt.mpr large)

theorem pagesBelow_add (inv : BuddyInv s) (inv' : BuddyInv s') (lent : Lent s o p)
    (covered : ∀ x, Covered s'.Free x ↔ Covered s.Free x ∨ head o x = p) :
    s'.zone.pagesBelow maxOrder = s.zone.pagesBelow maxOrder + 2 ^ o := by
  have union : pages maxOrder s'.free = pages maxOrder s.free ∪ Finset.Ico p (p + 2 ^ o) := by
    ext x
    rw [Finset.mem_union, inv'.mem_pages, inv.mem_pages, covered, head_eq_iff lent.aligned,
      Finset.mem_Ico]
  have disjoint : Disjoint (pages maxOrder s.free) (Finset.Ico p (p + 2 ^ o)) := by
    rw [Finset.disjoint_left]
    intro x free inside
    rw [Finset.mem_Ico, ← head_eq_iff lent.aligned] at inside
    exact lent.clear x inside ((inv.mem_pages x).mp free)
  rw [inv.pagesBelow_eq, inv'.pagesBelow_eq, union, Finset.card_union_of_disjoint disjoint]
  simp

theorem FreeSpec.pagesBelow (inv : BuddyInv s) (lent : Lent s o p) (spec : FreeSpec s s' o p) :
    s'.zone.pagesBelow maxOrder = s.zone.pagesBelow maxOrder + 2 ^ o :=
  pagesBelow_add inv spec.inv lent spec.covered

theorem TakeSpec.pagesBelow (inv : BuddyInv s) (spec : TakeSpec s s' o p) :
    s.zone.pagesBelow maxOrder = s'.zone.pagesBelow maxOrder + 2 ^ o :=
  pagesBelow_add spec.inv inv spec.lent spec.covered_before

/-- The zone's buddy part is the same. -/
structure SameLists (s s' : State) : Prop where
  freeList : s'.zone.freeList = s.zone.freeList
  nrFree : s'.zone.nrFree = s.zone.nrFree
  pageblockFlags : s'.zone.pageblockFlags = s.zone.pageblockFlags
  idx : s'.zone.idx = s.zone.idx
  zoneStartPfn : s'.zone.zoneStartPfn = s.zone.zoneStartPfn
  spannedPages : s'.zone.spannedPages = s.zone.spannedPages

theorem SameLists.refl (s : State) : SameLists s s := ⟨rfl, rfl, rfl, rfl, rfl, rfl⟩

theorem SameLists.free (same : SameLists s s') : s'.free = s.free := by
  funext o
  rw [State.free, State.free, same.freeList]

theorem SameLists.free_eq (same : SameLists s s') : s'.Free = s.Free := by
  funext o p
  rw [State.Free, State.Free, same.free]

theorem SameLists.spanned (same : SameLists s s') (x : Nat) : s'.Spanned x ↔ s.Spanned x := by
  rw [State.Spanned, State.Spanned, same.zoneStartPfn, same.spannedPages]

theorem SameLists.lent (same : SameLists s s') (lent : Lent s o p) : Lent s' o p :=
  ⟨lent.aligned, lent.small, fun x inside => (same.spanned x).mpr (lent.inZone x inside),
    same.free_eq ▸ lent.clear⟩

theorem SameLists.migratetypes (same : SameLists s s') (ok : MigratetypesOk s) :
    MigratetypesOk s' := by
  intro pfn
  rw [getPageblockMigratetype, getPageblockFlagsGroup, same.pageblockFlags, same.zoneStartPfn]
  exact ok pfn

/-- The page map may differ on pages that are not available, as long as they
stay in their zone and are not marked. -/
structure Touches (s s' : State) : Prop where
  same : SameLists s s'
  pcpPages : s'.pcpPages = s.pcpPages
  kept : ∀ x, s.Avail x → s'.memMap x = s.memMap x
  zonenum : ∀ x, (s'.memMap x).zonenum = (s.memMap x).zonenum
  unmarked : ∀ x, (s.memMap x).zonenum = s.zone.idx → ¬ s.Avail x → (s'.memMap x).buddy = false

theorem Touches.avail (touches : Touches s s') (x : Nat) : s'.Avail x ↔ s.Avail x := by
  rw [State.Avail, State.Avail, touches.pcpPages, touches.same.free_eq]

/-- The zone is where it was. -/
structure SameSpan (s s' : State) : Prop where
  idx : s'.zone.idx = s.zone.idx
  zoneStartPfn : s'.zone.zoneStartPfn = s.zone.zoneStartPfn
  spannedPages : s'.zone.spannedPages = s.zone.spannedPages
  disabled : s'.pageGroupByMobilityDisabled = s.pageGroupByMobilityDisabled

theorem SameSpan.refl (s : State) : SameSpan s s := ⟨rfl, rfl, rfl, rfl⟩

theorem SameSpan.trans {a b c : State} (ab : SameSpan a b) (bc : SameSpan b c) : SameSpan a c :=
  ⟨bc.idx.trans ab.idx, bc.zoneStartPfn.trans ab.zoneStartPfn,
    bc.spannedPages.trans ab.spannedPages, bc.disabled.trans ab.disabled⟩

theorem Frame.span (frame : Frame s s') : SameSpan s s' :=
  ⟨frame.idx, frame.zoneStartPfn, frame.spannedPages, frame.disabled⟩

/-- An operation leaves alone what was neither available nor in a given set. -/
structure Keeps (s s' : State) (inside : Nat → Prop) : Prop where
  span : SameSpan s s'
  zonenum : ∀ x, (s'.memMap x).zonenum = (s.memMap x).zonenum
  outside : ∀ x, ¬ s.Avail x → ¬ inside x → s'.memMap x = s.memMap x
  avail : ∀ x, s'.Avail x → s.Avail x ∨ inside x

theorem Keeps.refl (s : State) (inside : Nat → Prop) : Keeps s s inside :=
  ⟨.refl s, fun _ => rfl, fun _ _ _ => rfl, fun _ => .inl⟩

theorem Keeps.trans {a b c : State} {inside : Nat → Prop} (ab : Keeps a b inside)
    (bc : Keeps b c inside) : Keeps a c inside := by
  refine ⟨ab.span.trans bc.span, fun x => (bc.zonenum x).trans (ab.zonenum x),
    fun x off out => ?_, fun x avail => (bc.avail x avail).elim (ab.avail x) .inr⟩
  rw [bc.outside x (fun avail => (ab.avail x avail).elim off out) out, ab.outside x off out]

theorem Keeps.mono {inside inside' : Nat → Prop} (keeps : Keeps s s' inside)
    (sub : ∀ x, inside x → inside' x ∨ s.Avail x) : Keeps s s' inside' := by
  refine ⟨keeps.span, keeps.zonenum, fun x off out => ?_, fun x avail => ?_⟩
  · exact keeps.outside x off fun inside => (sub x inside).elim out off
  · exact (keeps.avail x avail).elim .inl fun inside => (sub x inside).symm

/-- The per-cpu lists as they are set up at boot: they collect nothing. -/
structure BootPageset (s : State) : Prop where
  high : s.zone.pageset.high = 0
  batch : s.zone.pageset.batch = 1
  pages : s.pcpPages = []

theorem BootPageset.congr (boot : BootPageset s) (pageset : s'.zone.pageset = s.zone.pageset) :
    BootPageset s' :=
  ⟨by rw [pageset]; exact boot.high, by rw [pageset]; exact boot.batch,
    by rw [State.pcpPages, pageset]; exact boot.pages⟩

/-- The result of an operation on the available pages and those of a given set. -/
structure Settled (P : Nat → Page → Prop) (s s' : State) (inside : Nat → Prop) : Prop where
  inv : ZoneInv P s'
  keeps : Keeps s s' inside
  boot : BootPageset s → BootPageset s'

theorem FreeBlocks.unmarked (inv : FreeBlocks s) {x : Nat}
    (zone : (s.memMap x).zonenum = s.zone.idx) (notFree : ¬ Covered s.Free x) :
    (s.memMap x).buddy = false := by
  rw [← Bool.not_eq_true, inv.marked x zone]
  rintro ⟨o, free⟩
  exact notFree (inv.tiling.head_mem free)

/-- The page map may differ on pages that are not free, as long as they stay in
their zone and are not marked. -/
theorem BuddyInv.touch (inv : BuddyInv s) (same : SameLists s s')
    (kept : ∀ x, Covered s.Free x → s'.memMap x = s.memMap x)
    (zonenum : ∀ x, (s'.memMap x).zonenum = (s.memMap x).zonenum)
    (unmarked : ∀ x, (s.memMap x).zonenum = s.zone.idx → ¬ Covered s.Free x →
      (s'.memMap x).buddy = false) : BuddyInv s' := by
  have free := same.free_eq
  refine ⟨⟨free ▸ inv.tiling, free ▸ inv.small, ?_, ?_, ?_, ?_, ?_⟩, ?_, free ▸ inv.merged⟩
  · exact fun h x inside => (same.spanned x).mpr (inv.inZone (free ▸ h) x inside)
  · exact fun o => same.free ▸ inv.nodup o
  · intro q zone
    rw [zonenum, same.idx] at zone
    by_cases covered : Covered s.Free q
    · rw [kept q covered, free]
      exact inv.marked q zone
    · rw [unmarked q zone covered, free]
      simp only [Bool.false_eq_true, false_iff, not_exists]
      exact fun o h => covered (inv.tiling.head_mem h)
  · intro o q h
    rw [free] at h
    rw [kept q (inv.tiling.head_mem h), inv.order h]
  · intro q spanned
    rw [zonenum, same.idx]
    exact inv.zonenum q ((same.spanned q).mp spanned)
  · intro o
    rw [same.nrFree, same.free, inv.count]

theorem PcpInv.touch (inv : PcpInv P s) (touches : Touches s s') : PcpInv P s' := by
  obtain ⟨buddy, migratetypes, pages, nodup, lent, types⟩ := inv
  have same := touches.same
  refine ⟨buddy.touch same (fun x free => touches.kept x (.inl free)) touches.zonenum ?_,
    same.migratetypes migratetypes, ?_, ?_, ?_, ?_⟩
  · -- a page of the per-cpu lists is not free, and stays as it was
    intro x zone notFree
    by_cases avail : s.Avail x
    · rw [touches.kept x avail]
      exact buddy.unmarked zone notFree
    · exact touches.unmarked x zone avail
  · intro x avail
    rw [touches.avail] at avail
    rw [touches.kept x avail]
    exact pages x avail
  · rw [touches.pcpPages]
    exact nodup
  · intro x hx
    rw [touches.pcpPages] at hx
    exact same.lent (lent x hx)
  · intro x hx
    rw [touches.pcpPages] at hx
    rw [touches.kept x (.inr hx)]
    exact types x hx

theorem ZoneInv.touch (inv : ZoneInv P s) (touches : Touches s s')
    (pageset : s'.zone.pageset = s.zone.pageset)
    (stat : s'.zone.vmStat .nrFreePages = s.zone.vmStat .nrFreePages) : ZoneInv P s' := by
  refine ⟨inv.toPcpInv.touch touches, ?_, ?_, ?_⟩
  · rw [pageset, touches.pcpPages, inv.count]
  · rw [pageset]
    exact inv.limits
  · rw [stat, inv.stat, Zone.pagesBelow, Zone.pagesBelow, touches.same.nrFree]

/-- Pages outside what is available may change in everything but zone and mapcount. -/
theorem PcpInv.touches (inv : PcpInv P s) (same : SameLists s s')
    (lists : s'.zone.pageset.lists = s.zone.pageset.lists)
    (kept : ∀ x, s.Avail x → s'.memMap x = s.memMap x)
    (zonenum : ∀ x, (s'.memMap x).zonenum = (s.memMap x).zonenum)
    (mapcount : ∀ x, (s'.memMap x).mapcount = (s.memMap x).mapcount) : Touches s s' := by
  refine ⟨same, by rw [State.pcpPages, State.pcpPages, lists], kept, zonenum, fun x zone notAvail => ?_⟩
  rw [Page.buddy, mapcount x]
  exact inv.buddy.unmarked zone fun free => notAvail (.inl free)

theorem Stable.plain (stable : Stable P) {x : Nat} {page : Page} (h : P x page) : page.compound = false := by
  have within : PageFlag.head.mask ||| PageFlag.tail.mask =
      pageFlagsCheckAtPrep &&& (PageFlag.head.mask ||| PageFlag.tail.mask) := by decide
  have none : page.flags &&& (PageFlag.head.mask ||| PageFlag.tail.mask) = 0 := by
    rw [within, ← BitVec.and_assoc, stable.noFlags h]
    simp
  simp [Page.compound, none]

theorem Frame.pcpPages (frame : Frame s s') : s'.pcpPages = s.pcpPages := by
  rw [State.pcpPages, State.pcpPages, frame.pageset]

/-- Giving a block of good pages back to the zone. -/
theorem PcpInv.free (stable : Stable P) (inv : PcpInv P s) (lent : Lent s o p)
    (off : ∀ x, head o x = p → x ∉ s.pcpPages) (good : ∀ x, head o x = p → P x (s.memMap x))
    {migratetype : Nat} (range : migratetype < migrateTypes) :
    PcpInv P (freeOnePageLocked s p o migratetype) ∧
      FreeSpec s (freeOnePageLocked s p o migratetype) o p := by
  have spec := freeOnePageLocked_spec inv.buddy lent
    (stable.plain (good p (head_of_dvd lent.aligned))) range
  have frame := spec.frame
  have apart : ∀ x ∈ s.pcpPages, ¬ Covered (freeOnePageLocked s p o migratetype).Free x := by
    intro x hx covered
    rcases (spec.covered x).mp covered with old | new
    · exact (inv.lent x hx).not_covered old
    · exact off x new hx
  refine ⟨⟨spec.inv, frame.migratetypes inv.migratetypes, fun x avail => ?_, ?_, ?_, ?_⟩, spec⟩
  · apply stable.frame (frame.page x)
    rw [State.Avail, frame.pcpPages, spec.covered] at avail
    rcases avail with (old | new) | pcp
    · exact inv.pages x (.inl old)
    · exact good x new
    · exact inv.pages x (.inr pcp)
  · rw [frame.pcpPages]
    exact inv.nodup
  · intro x hx
    rw [frame.pcpPages] at hx
    refine (inv.lent x hx).keep frame fun y inside covered => ?_
    obtain rfl : y = x := by simpa [head] using inside
    exact (apart y hx covered).elim
  · intro x hx
    rw [frame.pcpPages] at hx
    rw [spec.outside x (apart x hx)]
    exact inv.types x hx

theorem PcpInv.take (stable : Stable P) (inv : PcpInv P s) (spec : TakeSpec s s' o p) :
    PcpInv P s' ∧ ∀ x, head o x = p → x ∉ s'.pcpPages ∧ P x (s'.memMap x) := by
  have frame := spec.frame
  refine ⟨⟨spec.inv, frame.migratetypes inv.migratetypes, fun x avail => ?_, ?_, ?_, ?_⟩, ?_⟩
  · apply stable.frame (frame.page x)
    rw [State.Avail, frame.pcpPages, spec.covered] at avail
    rcases avail with ⟨old, -⟩ | pcp
    · exact inv.pages x (.inl old)
    · exact inv.pages x (.inr pcp)
  · rw [frame.pcpPages]
    exact inv.nodup
  · intro x hx
    rw [frame.pcpPages] at hx
    exact (inv.lent x hx).keep frame fun y _ covered => ((spec.covered y).mp covered).1
  · intro x hx
    rw [frame.pcpPages] at hx
    rw [spec.outside x (inv.lent x hx).not_covered]
    exact inv.types x hx
  · intro x inside
    have free := spec.wasFree x inside
    refine ⟨fun hx => ?_, stable.frame (frame.page x) (inv.pages x (.inl free))⟩
    rw [frame.pcpPages] at hx
    exact (inv.lent x hx).not_covered free

theorem sameLists_modifyPcpList (s : State) (t : Nat) (f : List Nat → List Nat) :
    SameLists s (s.modifyPcpList t f) := ⟨rfl, rfl, rfl, rfl, rfl, rfl⟩

theorem BuddyInv.congr (inv : BuddyInv s) (same : SameLists s s') (mem : s'.memMap = s.memMap) :
    BuddyInv s' := by
  have free := same.free_eq
  refine ⟨⟨free ▸ inv.tiling, free ▸ inv.small, ?_, ?_, ?_, ?_, ?_⟩, ?_, free ▸ inv.merged⟩
  · exact fun h x inside => (same.spanned x).mpr (inv.inZone (free ▸ h) x inside)
  · exact fun o => same.free ▸ inv.nodup o
  · rw [mem, same.idx, free]
    exact inv.marked
  · rw [mem, free]
    exact inv.order
  · intro q spanned
    rw [mem, same.idx]
    exact inv.zonenum q ((same.spanned q).mp spanned)
  · intro o
    rw [same.nrFree, same.free, inv.count]

theorem pcpPages_add {t : Nat} (range : t < migratePcptypes) {f : List Nat → List Nat}
    {xs : List Nat} (adds : (f (s.zone.pageset.lists t)).Perm (xs ++ s.zone.pageset.lists t)) :
    (s.modifyPcpList t f).pcpPages.Perm (xs ++ s.pcpPages) := by
  refine flatMap_perm_append _ (k := t) ?_ (fun u ne => ?_) List.nodup_range
    (List.mem_range.mpr range)
  · simpa [State.modifyPcpList] using adds
  · simp [State.modifyPcpList, ne]

theorem pcpPages_remove {t x : Nat} (range : t < migratePcptypes) {f : List Nat → List Nat}
    (removes : (s.zone.pageset.lists t).Perm (x :: f (s.zone.pageset.lists t))) :
    s.pcpPages.Perm (x :: (s.modifyPcpList t f).pcpPages) := by
  refine flatMap_perm_append [x] (k := t) ?_ (fun u ne => ?_) List.nodup_range
    (List.mem_range.mpr range)
  · simpa [State.modifyPcpList] using removes
  · simp [State.modifyPcpList, ne]

theorem PcpInv.removePage (inv : PcpInv P s) {t x : Nat} (range : t < migratePcptypes)
    {f : List Nat → List Nat}
    (removes : (s.zone.pageset.lists t).Perm (x :: f (s.zone.pageset.lists t))) :
    PcpInv P (s.modifyPcpList t f) ∧ Lent (s.modifyPcpList t f) 0 x ∧
      x ∉ (s.modifyPcpList t f).pcpPages ∧ P x (s.memMap x) := by
  have perm := pcpPages_remove range removes
  have same := sameLists_modifyPcpList s t f
  have nodup := List.nodup_cons.mp (perm.nodup_iff.mp inv.nodup)
  have sub : ∀ {y}, y ∈ (s.modifyPcpList t f).pcpPages → y ∈ s.pcpPages := fun hy =>
    perm.mem_iff.mpr (List.mem_cons_of_mem x hy)
  have here : x ∈ s.pcpPages := perm.mem_iff.mpr List.mem_cons_self
  refine ⟨⟨inv.buddy.congr same rfl, same.migratetypes inv.migratetypes, fun y avail => ?_,
    nodup.2, fun y hy => same.lent (inv.lent y (sub hy)), fun y hy => inv.types y (sub hy)⟩,
    same.lent (inv.lent x here), nodup.1, inv.pages x (.inr here)⟩
  exact inv.pages y (avail.imp (fun free => same.free_eq ▸ free) sub)

theorem PcpInv.addPages (inv : PcpInv P s) {t : Nat} (range : t < migratePcptypes)
    {f : List Nat → List Nat} {xs : List Nat}
    (adds : (f (s.zone.pageset.lists t)).Perm (xs ++ s.zone.pageset.lists t)) (fresh : xs.Nodup)
    (good : ∀ x ∈ xs, Lent s 0 x ∧ x ∉ s.pcpPages ∧ P x (s.memMap x) ∧
      (s.memMap x).priv < migrateTypes) : PcpInv P (s.modifyPcpList t f) := by
  have perm := pcpPages_add range adds
  have same := sameLists_modifyPcpList s t f
  have member : ∀ {y}, y ∈ (s.modifyPcpList t f).pcpPages → y ∈ xs ∨ y ∈ s.pcpPages := fun hy =>
    List.mem_append.mp (perm.mem_iff.mp hy)
  refine ⟨inv.buddy.congr same rfl, same.migratetypes inv.migratetypes, fun y avail => ?_, ?_,
    fun y hy => ?_, fun y hy => ?_⟩
  · rcases avail with free | pcp
    · exact inv.pages y (.inl (same.free_eq ▸ free))
    · rcases member pcp with new | old
      · exact (good y new).2.2.1
      · exact inv.pages y (.inr old)
  · rw [perm.nodup_iff, List.nodup_append']
    exact ⟨fresh, inv.nodup, fun y new old => (good y new).2.1 old⟩
  · rcases member hy with new | old
    · exact same.lent (good y new).1
    · exact same.lent (inv.lent y old)
  · rcases member hy with new | old
    · exact (good y new).2.2.2
    · exact inv.types y old

/-- `n` pages have gone from the per-cpu lists to the zone. -/
structure Drained (P : Nat → Page → Prop) (s s' : State) (n : Nat) : Prop where
  inv : PcpInv P s'
  pagesBelow : s'.zone.pagesBelow maxOrder = s.zone.pagesBelow maxOrder + n
  length : s'.pcpPages.length + n = s.pcpPages.length
  count : s'.zone.pageset.count = s.zone.pageset.count
  high : s'.zone.pageset.high = s.zone.pageset.high
  batch : s'.zone.pageset.batch = s.zone.pageset.batch
  vmStat : s'.zone.vmStat = s.zone.vmStat
  avail : ∀ x, s'.Avail x ↔ s.Avail x
  page : ∀ x, PageFrame (s.memMap x) (s'.memMap x)
  untouched : ∀ x, ¬ s.Avail x → s'.memMap x = s.memMap x
  span : SameSpan s s'

theorem Drained.refl (inv : PcpInv P s) : Drained P s s 0 :=
  ⟨inv, (Nat.add_zero _).symm, Nat.add_zero _, rfl, rfl, rfl, rfl, fun _ => .rfl, fun _ => .refl _,
    fun _ _ => rfl, .refl s⟩

theorem Drained.trans {s₁ s₂ s₃ : State} {n m : Nat} (first : Drained P s₁ s₂ n)
    (second : Drained P s₂ s₃ m) : Drained P s₁ s₃ (n + m) := by
  refine ⟨second.inv, ?_, ?_, second.count.trans first.count, second.high.trans first.high,
    second.batch.trans first.batch, second.vmStat.trans first.vmStat,
    fun x => (second.avail x).trans (first.avail x), fun x => (first.page x).trans (second.page x),
    fun x out => ?_, first.span.trans second.span⟩
  · rw [second.pagesBelow, first.pagesBelow, Nat.add_assoc]
  · have := first.length
    have := second.length
    omega
  · rw [second.untouched x (by rwa [first.avail x]), first.untouched x out]

theorem PcpInv.freeLast (stable : Stable P) (inv : PcpInv P s) {t x : Nat}
    (range : t < migratePcptypes) (last : (s.zone.pageset.lists t).getLast? = some x) :
    let s₁ := s.modifyPcpList t List.dropLast
    let s₂ := freeOnePageLocked s₁ x 0 (s₁.memMap x).priv
    s.pcpPages.Perm (x :: s₁.pcpPages) ∧ PcpInv P s₁ ∧ Lent s₁ 0 x ∧ PcpInv P s₂ ∧
      FreeSpec s₁ s₂ 0 x := by
  have removes : (s.zone.pageset.lists t).Perm (x :: (s.zone.pageset.lists t).dropLast) := by
    conv_lhs => rw [← List.dropLast_append_getLast? x last]
    exact List.perm_append_singleton _ _
  have perm := pcpPages_remove range removes
  obtain ⟨inv₁, lent, off, good⟩ := inv.removePage range removes
  have type : ((s.modifyPcpList t List.dropLast).memMap x).priv < migrateTypes :=
    inv.types x (perm.mem_iff.mpr List.mem_cons_self)
  have single : ∀ {y}, head 0 y = x → y = x := fun h => by simpa [head] using h
  obtain ⟨inv₂, spec⟩ := inv₁.free stable lent (fun y h => single h ▸ off)
    (fun y h => single h ▸ good) type
  exact ⟨perm, inv₁, lent, inv₂, spec⟩

theorem PcpInv.drainOne (stable : Stable P) (inv : PcpInv P s) {t x : Nat}
    (range : t < migratePcptypes) (last : (s.zone.pageset.lists t).getLast? = some x) :
    let s₁ := s.modifyPcpList t List.dropLast
    Drained P s (freeOnePageLocked s₁ x 0 (s₁.memMap x).priv) 1 := by
  obtain ⟨perm, inv₁, lent, inv₂, spec⟩ := inv.freeLast stable range last
  have avail : ∀ y, (freeOnePageLocked (s.modifyPcpList t List.dropLast) x 0
      ((s.modifyPcpList t List.dropLast).memMap x).priv).Avail y ↔ s.Avail y := by
    intro y
    rw [State.Avail, State.Avail, spec.covered, spec.frame.pcpPages, perm.mem_iff, List.mem_cons,
      (sameLists_modifyPcpList s t List.dropLast).free_eq]
    have : head 0 y = x ↔ y = x := by simp [head]
    tauto
  refine ⟨inv₂, ?_, ?_, ?_, ?_, ?_, spec.frame.vmStat, avail, spec.frame.page, fun y out => ?_,
    SameSpan.trans (b := s.modifyPcpList t List.dropLast) ⟨rfl, rfl, rfl, rfl⟩ spec.frame.span⟩
  · rw [spec.pagesBelow inv₁.buddy lent]
    rfl
  · rw [spec.frame.pcpPages, perm.length_eq, List.length_cons]
  · rw [spec.frame.pageset]
    rfl
  · rw [spec.frame.pageset]
    rfl
  · rw [spec.frame.pageset]
    rfl
  · exact spec.outside y fun free => out ((avail y).mp (.inl free))

/-- What a relation needs to hold of a drain by `n` pages: it holds of none and of
one page, and adds up. -/
structure DrainRule (I : State → Prop) (R : State → State → Nat → Prop) : Prop where
  refl : ∀ {s}, I s → R s s 0
  trans : ∀ {a b c n m}, R a b n → R b c m → R a c (n + m)
  inv : ∀ {s s' n}, R s s' n → I s'
  length : ∀ {s s' n}, R s s' n → s'.pcpPages.length + n = s.pcpPages.length
  one : ∀ {s t x}, I s → t < migratePcptypes → (s.zone.pageset.lists t).getLast? = some x →
    let s₁ := s.modifyPcpList t List.dropLast
    R s (freeOnePageLocked s₁ x 0 (s₁.memMap x).priv) 1

theorem Drained.rule (stable : Stable P) : DrainRule (PcpInv P) (Drained P) where
  refl := .refl
  trans := .trans
  inv := Drained.inv
  length := Drained.length
  one := fun inv range last => inv.drainOne stable range last

variable {I : State → Prop} {R : State → State → Nat → Prop}

theorem DrainRule.drainList (rule : DrainRule I R) {t : Nat} (toFree batchFree : Nat) (inv : I s)
    (range : t < migratePcptypes) :
    (drainList s t toFree batchFree).2.1 ≤ toFree ∧
    R s (drainList s t toFree batchFree).1 (toFree - (drainList s t toFree batchFree).2.1) := by
  induction toFree generalizing s batchFree with
  | zero => exact ⟨le_rfl, rule.refl inv⟩
  | succ toFree ih =>
    rw [PageAlloc.drainList]
    split
    · simpa using rule.refl inv
    · rename_i x last
      have one := rule.one inv range last
      dsimp only
      split_ifs with done stop empty
      · subst done
        exact ⟨by simp, one⟩
      · exact ⟨by simp, by simpa using one⟩
      · exact ⟨by simp, by simpa using one⟩
      · obtain ⟨le, rest⟩ := ih (batchFree - 1) (rule.inv one)
        refine ⟨by omega, ?_⟩
        have both := rule.trans one rest
        rwa [← Nat.add_sub_assoc le, Nat.add_comm 1 toFree] at both

theorem nextPcpList_some {lists : Nat → List Nat} {t : Nat} (batchFree : Nat) (ht : t < migratePcptypes)
    (page : ∃ u < migratePcptypes, lists u ≠ []) :
    ∃ r, nextPcpList lists migratePcptypes t batchFree = some r ∧ r.1 < migratePcptypes := by
  obtain ⟨u, hu, nonempty⟩ := page
  simp only [migratePcptypes] at ht hu ⊢
  have cases : t = 0 ∨ t = 1 ∨ t = 2 := by omega
  have casesu : u = 0 ∨ u = 1 ∨ u = 2 := by omega
  by_cases h₀ : lists 0 = [] <;> by_cases h₁ : lists 1 = [] <;> by_cases h₂ : lists 2 = [] <;>
    rcases cases with rfl | rfl | rfl <;>
    first
      | exact ⟨_, by simp [nextPcpList, migratePcptypes, h₀, h₁, h₂]; rfl, by simp⟩
      | (rcases casesu with rfl | rfl | rfl <;> contradiction)

theorem DrainRule.bulkLoop (rule : DrainRule I R) {t toFree : Nat} (batchFree : Nat) (inv : I s)
    (range : t < migratePcptypes) (enough : toFree ≤ s.pcpPages.length) :
    ∃ s', bulkLoop s t toFree batchFree = some s' ∧ R s s' toFree := by
  induction toFree using Nat.strong_induction_on generalizing s t batchFree with
  | _ toFree ih =>
    rw [PageAlloc.bulkLoop]
    by_cases done : toFree = 0
    · subst done
      exact ⟨s, by simp, rule.refl inv⟩
    · have page : ∃ u < migratePcptypes, s.zone.pageset.lists u ≠ [] := by
        by_contra none
        push Not at none
        have empty : s.pcpPages = [] := by
          simp only [State.pcpPages, List.flatMap_eq_nil_iff, List.mem_range]
          exact none
        rw [empty, List.length_nil] at enough
        omega
      obtain ⟨⟨u, batchFree'⟩, found, hu⟩ := nextPcpList_some batchFree range page
      rw [if_neg done]
      split
      · rename_i none
        rw [found] at none
        cases none
      · rename_i u' b' found'
        rw [found] at found'
        obtain ⟨rfl, rfl⟩ := Prod.mk.inj (Option.some.inj found')
        dsimp only
        generalize (if batchFree' = migratePcptypes then toFree else batchFree') = b
        obtain ⟨n, rfl⟩ : ∃ n, toFree = n + 1 := ⟨toFree - 1, by omega⟩
        obtain ⟨le, drained⟩ := rule.drainList (t := u) (n + 1) b inv hu
        have lt := drainList_lt s u n b (nextPcpList_ne_nil found)
        have left := rule.length drained
        obtain ⟨s', returns, rest⟩ := ih (PageAlloc.drainList s u (n + 1) b).2.1 lt
          (PageAlloc.drainList s u (n + 1) b).2.2 (rule.inv drained) hu (by omega)
        refine ⟨s', returns, ?_⟩
        have both := rule.trans drained rest
        rwa [Nat.sub_add_cancel le] at both

theorem bulkLoop_spec (stable : Stable P) {t toFree : Nat} (batchFree : Nat) (inv : PcpInv P s)
    (range : t < migratePcptypes) (enough : toFree ≤ s.pcpPages.length) :
    ∃ s', bulkLoop s t toFree batchFree = some s' ∧ Drained P s s' toFree :=
  (Drained.rule stable).bulkLoop batchFree inv range enough

end XcKernel.PageAlloc
