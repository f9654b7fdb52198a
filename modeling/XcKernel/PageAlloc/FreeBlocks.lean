import XcKernel.PageAlloc.Buddy

/-!
# The free blocks of a zone

The free blocks are the heads on the lists.  The invariant says that they tile
part of the zone, that the page map marks exactly their heads, and that the
counters count them.  Everything the allocator does is made of two moves: a free
block is taken off the lists, or a block that is not free is put on one.
-/

namespace XcKernel.PageAlloc

open Blocks

/-- Every pageblock has a migratetype that indexes the free lists. -/
def MigratetypesOk (s : State) : Prop := ∀ pfn, getPageblockMigratetype s pfn < migrateTypes

/-- Only the buddy mark and the order may differ. -/
structure PageFrame (page page' : Page) : Prop where
  flags : page'.flags = page.flags
  mapping : page'.mapping = page.mapping
  count : page'.count = page.count
  lruPrev : page'.lruPrev = page.lruPrev
  mapcount : page'.mapcount = page.mapcount ∨ page'.mapcount = -1 ∨
    page'.mapcount = pageBuddyMapcountValue

/-- The parts of the state that the buddy allocator does not write. -/
structure Frame (s s' : State) : Prop where
  idx : s'.zone.idx = s.zone.idx
  zoneStartPfn : s'.zone.zoneStartPfn = s.zone.zoneStartPfn
  spannedPages : s'.zone.spannedPages = s.zone.spannedPages
  pageset : s'.zone.pageset = s.zone.pageset
  vmStat : s'.zone.vmStat = s.zone.vmStat
  disabled : s'.pageGroupByMobilityDisabled = s.pageGroupByMobilityDisabled
  page : ∀ p, PageFrame (s.memMap p) (s'.memMap p)
  migratetypes : MigratetypesOk s → MigratetypesOk s'

theorem PageFrame.refl (page : Page) : PageFrame page page := ⟨rfl, rfl, rfl, rfl, .inl rfl⟩

theorem PageFrame.trans {a b c : Page} (ab : PageFrame a b) (bc : PageFrame b c) :
    PageFrame a c := by
  refine ⟨bc.flags.trans ab.flags, bc.mapping.trans ab.mapping, bc.count.trans ab.count,
    bc.lruPrev.trans ab.lruPrev, ?_⟩
  rcases bc.mapcount with same | set
  · rw [same]
    exact ab.mapcount
  · exact .inr set

namespace Frame

theorem refl (s : State) : Frame s s :=
  ⟨rfl, rfl, rfl, rfl, rfl, rfl, fun _ => .refl _, id⟩

theorem trans {a b c : State} (ab : Frame a b) (bc : Frame b c) : Frame a c :=
  ⟨bc.idx.trans ab.idx, bc.zoneStartPfn.trans ab.zoneStartPfn,
    bc.spannedPages.trans ab.spannedPages, bc.pageset.trans ab.pageset,
    bc.vmStat.trans ab.vmStat, bc.disabled.trans ab.disabled,
    fun p => (ab.page p).trans (bc.page p), fun ok => bc.migratetypes (ab.migratetypes ok)⟩

theorem spanned {s s' : State} (frame : Frame s s') (p : Nat) : s'.Spanned p ↔ s.Spanned p := by
  rw [State.Spanned, State.Spanned, frame.zoneStartPfn, frame.spannedPages]

theorem zonenum {s s' : State} (frame : Frame s s') (p : Nat) :
    (s'.memMap p).zonenum = (s.memMap p).zonenum := by
  rw [Page.zonenum, Page.zonenum, (frame.page p).flags]

theorem modifyList (s : State) (order migratetype : Nat) (f : List Nat → List Nat) :
    Frame s (s.modifyList order migratetype f) :=
  ⟨rfl, rfl, rfl, rfl, rfl, rfl, fun _ => .refl _, id⟩

theorem listDel (s : State) (pfn : Nat) : Frame s (s.listDel pfn) :=
  ⟨rfl, rfl, rfl, rfl, rfl, rfl, fun _ => .refl _, id⟩

theorem incNrFree (s : State) (order : Nat) : Frame s (s.incNrFree order) :=
  ⟨rfl, rfl, rfl, rfl, rfl, rfl, fun _ => .refl _, id⟩

theorem decNrFree (s : State) (order : Nat) : Frame s (s.decNrFree order) :=
  ⟨rfl, rfl, rfl, rfl, rfl, rfl, fun _ => .refl _, id⟩

theorem modifyPage (s : State) (pfn : Nat) {f : Page → Page} (h : ∀ page, PageFrame page (f page)) :
    Frame s (s.modifyPage pfn f) := by
  refine ⟨rfl, rfl, rfl, rfl, rfl, rfl, fun p => ?_, id⟩
  simp only [State.modifyPage]
  split
  · exact h _
  · exact .refl _

end Frame

theorem pageFrame_setOrder (order : Nat) (page : Page) : PageFrame page (page.setOrder order) :=
  ⟨rfl, rfl, rfl, rfl, .inr (.inr rfl)⟩

theorem pageFrame_rmvOrder (page : Page) : PageFrame page page.rmvOrder :=
  ⟨rfl, rfl, rfl, rfl, .inr (.inl rfl)⟩

/-- Lists and page map describe one tiling of part of the zone. -/
structure FreeBlocks (s : State) : Prop where
  tiling : Tiling s.Free
  small : ∀ {o p}, s.Free o p → o < maxOrder
  inZone : ∀ {o p}, s.Free o p → ∀ x, head o x = p → s.Spanned x
  nodup : ∀ o, (s.free o).Nodup
  marked : ∀ p, (s.memMap p).zonenum = s.zone.idx → ((s.memMap p).buddy = true ↔ ∃ o, s.Free o p)
  order : ∀ {o p}, s.Free o p → (s.memMap p).order = o
  zonenum : ∀ p, s.Spanned p → (s.memMap p).zonenum = s.zone.idx

/-- The counters are right as well, and what could be merged has been. -/
structure BuddyInv (s : State) : Prop extends FreeBlocks s where
  count : ∀ o, s.zone.nrFree o = (s.free o).length
  merged : ∀ {o p}, o + 1 < maxOrder → s.Free o p → ¬ s.Free o (buddy o p)

/-- A block of the zone of which no page is free. -/
structure Lent (s : State) (o p : Nat) : Prop where
  aligned : 2 ^ o ∣ p
  small : o < maxOrder
  inZone : ∀ x, head o x = p → s.Spanned x
  clear : Clear s.Free o p

variable {s s' : State} {o p : Nat}

theorem FreeBlocks.head_spanned (inv : FreeBlocks s) (free : s.Free o p) : s.Spanned p :=
  inv.inZone free p (head_of_dvd (inv.tiling.aligned free))

theorem Lent.spanned (lent : Lent s o p) : s.Spanned p := lent.inZone p (head_of_dvd lent.aligned)

theorem Lent.not_covered (lent : Lent s o p) : ¬ Covered s.Free p := lent.clear p (head_of_dvd lent.aligned)

theorem Lent.halves (lent : Lent s (o + 1) p) : Lent s o p ∧ Lent s o (p + 2 ^ o) := by
  have aligned : 2 ^ o ∣ p := (Nat.pow_dvd_pow 2 (Nat.le_succ o)).trans lent.aligned
  have small := lent.small
  have whole : head (o + 1) p = p := head_of_dvd lent.aligned
  have upper : buddy o p = p + 2 ^ o := buddy_of_dvd_succ lent.aligned
  have half : ∀ {x}, head o x = p ∨ head o x = p + 2 ^ o →
      head (o + 1) x = p := by
    intro x side
    rw [← upper] at side
    exact ((head_succ_eq_iff aligned x).mpr side).trans whole
  refine ⟨⟨aligned, by omega, ?_, ?_⟩, ⟨upper ▸ two_pow_dvd_buddy aligned, by omega, ?_, ?_⟩⟩
  · exact fun x inside => lent.inZone x (half (.inl inside))
  · exact fun x inside => lent.clear x (half (.inl inside))
  · exact fun x inside => lent.inZone x (half (.inr inside))
  · exact fun x inside => lent.clear x (half (.inr inside))

/-- `s'` is `s` with the block at `p` taken off the lists. -/
structure Removes (s s' : State) (o p : Nat) : Prop where
  page : ∀ i, s'.memMap i = if i = p then (s.memMap i).rmvOrder else s.memMap i
  free : ∀ o', (s'.free o').Perm ((s.free o').filter (· != p))
  nrFree : ∀ o', s'.zone.nrFree o' = if o' = o then s.zone.nrFree o' - 1 else s.zone.nrFree o'
  frame : Frame s s'

/-- `s'` is `s` with the block at `p` put on a list. -/
structure Inserts (s s' : State) (o p : Nat) : Prop where
  page : ∀ i, s'.memMap i = if i = p then (s.memMap i).setOrder o else s.memMap i
  here : (s'.free o).Perm (p :: s.free o)
  other : ∀ o', o' ≠ o → s'.free o' = s.free o'
  nrFree : ∀ o', s'.zone.nrFree o' = if o' = o then s.zone.nrFree o' + 1 else s.zone.nrFree o'
  frame : Frame s s'

theorem Removes.free_iff (removes : Removes s s' o p) (inv : FreeBlocks s) (h : s.Free o p)
    (o' p' : Nat) : s'.Free o' p' ↔ s.Free o' p' ∧ ¬ (o' = o ∧ p' = p) := by
  have kept : s'.Free o' p' ↔ s.Free o' p' ∧ p' ≠ p := by
    rw [State.Free, (removes.free o').mem_iff]
    simp [State.Free]
  rw [kept]
  constructor
  · rintro ⟨free, ne⟩
    exact ⟨free, fun same => ne same.2⟩
  · rintro ⟨free, ne⟩
    refine ⟨free, ?_⟩
    rintro rfl
    exact ne ⟨inv.tiling.order_eq free h, rfl⟩

theorem Inserts.free_iff (inserts : Inserts s s' o p) (o' p' : Nat) :
    s'.Free o' p' ↔ s.Free o' p' ∨ (o' = o ∧ p' = p) := by
  by_cases here : o' = o
  · subst here
    rw [State.Free, inserts.here.mem_iff]
    simp [State.Free, or_comm]
  · rw [State.Free, inserts.other o' here]
    simp [State.Free, here]

theorem BuddyInv.remove (inv : BuddyInv s) (h : s.Free o p) (removes : Removes s s' o p) :
    BuddyInv s' ∧ Lent s' o p ∧ ∀ x, Covered s'.Free x ↔ Covered s.Free x ∧ head o x ≠ p := by
  have free := removes.free_iff inv.toFreeBlocks h
  have covered := inv.tiling.covered_erase h free
  have frame := removes.frame
  refine ⟨⟨⟨inv.tiling.erase free, ?_, ?_, ?_, ?_, ?_, ?_⟩, ?_, ?_⟩, ⟨inv.tiling.aligned h,
    inv.small h, ?_, ?_⟩, covered⟩
  · exact fun h' => inv.small ((free _ _).mp h').1
  · exact fun h' x inside => (frame.spanned x).mpr (inv.inZone ((free _ _).mp h').1 x inside)
  · exact fun o' => (removes.free o').nodup_iff.mpr ((inv.nodup o').filter _)
  · intro q zone
    rw [frame.zonenum, frame.idx] at zone
    rw [removes.page]
    by_cases here : q = p
    · subst here
      simp only [if_true, Page.rmvOrder_buddy, Bool.false_eq_true, false_iff, not_exists]
      rintro o' h'
      obtain ⟨old, ne⟩ := (free _ _).mp h'
      exact ne ⟨inv.tiling.order_eq old h, rfl⟩
    · rw [if_neg here, inv.marked q zone]
      exact exists_congr fun o' => by rw [free]; simp [here]
  · intro o' q h'
    obtain ⟨old, ne⟩ := (free _ _).mp h'
    rw [removes.page, if_neg, inv.order old]
    rintro rfl
    exact ne ⟨inv.tiling.order_eq old h, rfl⟩
  · intro q spanned
    rw [frame.zonenum, frame.idx]
    exact inv.zonenum q ((frame.spanned q).mp spanned)
  · intro o'
    rw [removes.nrFree, (removes.free o').length_eq, inv.count]
    by_cases here : o' = o
    · subst here
      rw [if_pos rfl, ← (inv.nodup o').erase_eq_filter, List.length_erase_of_mem h]
    · have absent : p ∉ s.free o' := fun h' => here (inv.tiling.order_eq h' h)
      have same : (s.free o').filter (· != p) = s.free o' := by
        rw [List.filter_eq_self]
        intro q hq
        simpa using fun eq : q = p => absent (eq ▸ hq)
      rw [if_neg here, same]
  · exact fun small h' hb => inv.merged small ((free _ _).mp h').1 ((free _ _).mp hb).1
  · exact fun x inside => (frame.spanned x).mpr (inv.inZone h x inside)
  · exact fun x inside cov => ((covered x).mp cov).2 inside

theorem BuddyInv.insert (inv : BuddyInv s) (lent : Lent s o p) (inserts : Inserts s s' o p)
    (alone : o + 1 < maxOrder → ¬ s.Free o (buddy o p)) :
    BuddyInv s' ∧ ∀ x, Covered s'.Free x ↔ Covered s.Free x ∨ head o x = p := by
  have free := inserts.free_iff
  have frame := inserts.frame
  have fresh : ∀ o', ¬ s.Free o' p := fun o' h' => lent.not_covered (inv.tiling.head_mem h')
  refine ⟨⟨⟨inv.tiling.insert lent.aligned lent.clear free, ?_, ?_, ?_, ?_, ?_, ?_⟩, ?_, ?_⟩,
    covered_insert free⟩
  · intro o' q h'
    rcases (free _ _).mp h' with old | ⟨rfl, rfl⟩
    · exact inv.small old
    · exact lent.small
  · intro o' q h' x inside
    rw [frame.spanned]
    rcases (free _ _).mp h' with old | ⟨rfl, rfl⟩
    · exact inv.inZone old x inside
    · exact lent.inZone x inside
  · intro o'
    by_cases here : o' = o
    · subst here
      rw [inserts.here.nodup_iff, List.nodup_cons]
      exact ⟨fresh o', inv.nodup o'⟩
    · rw [inserts.other o' here]
      exact inv.nodup o'
  · intro q zone
    rw [frame.zonenum, frame.idx] at zone
    rw [inserts.page]
    by_cases here : q = p
    · subst here
      simp only [if_true, Page.setOrder_buddy, true_iff]
      exact ⟨o, (free _ _).mpr (.inr ⟨rfl, rfl⟩)⟩
    · rw [if_neg here, inv.marked q zone]
      exact exists_congr fun o' => by rw [free]; simp [here]
  · intro o' q h'
    rw [inserts.page]
    rcases (free _ _).mp h' with old | ⟨rfl, rfl⟩
    · rw [if_neg (fun eq : q = p => fresh o' (eq ▸ old)), inv.order old]
    · rw [if_pos rfl]
      rfl
  · intro q spanned
    rw [frame.zonenum, frame.idx]
    exact inv.zonenum q ((frame.spanned q).mp spanned)
  · intro o'
    rw [inserts.nrFree, inv.count]
    by_cases here : o' = o
    · subst here
      rw [if_pos rfl, inserts.here.length_eq, List.length_cons]
    · rw [if_neg here, inserts.other o' here]
  · -- buddies come in pairs, so only the pair of the new block is new
    intro o' q small h' hb
    rcases (free _ _).mp h' with old | ⟨rfl, rfl⟩ <;> rcases (free _ _).mp hb with oldb | ⟨eq, eqb⟩
    · exact inv.merged small old oldb
    · subst eq
      rw [← eqb, buddy_buddy] at alone
      exact alone small old
    · exact alone small oldb
    · exact buddy_ne lent.aligned eqb

theorem Lent.keep (lent : Lent s o p) (frame : Frame s s')
    (clear : ∀ x, head o x = p → Covered s'.Free x → Covered s.Free x) : Lent s' o p :=
  ⟨lent.aligned, lent.small, fun x inside => (frame.spanned x).mpr (lent.inZone x inside),
    fun x inside covered => lent.clear x inside (clear x inside covered)⟩

/-- The same blocks on perhaps other lists. -/
structure SameBlocks (s s' : State) : Prop where
  memMap : s'.memMap = s.memMap
  free : ∀ o, (s'.free o).Perm (s.free o)
  nrFree : s'.zone.nrFree = s.zone.nrFree
  frame : Frame s s'

theorem SameBlocks.refl (s : State) : SameBlocks s s := ⟨rfl, fun _ => .refl _, rfl, .refl s⟩

theorem SameBlocks.trans {a b c : State} (ab : SameBlocks a b) (bc : SameBlocks b c) :
    SameBlocks a c :=
  ⟨bc.memMap.trans ab.memMap, fun o => (bc.free o).trans (ab.free o), bc.nrFree.trans ab.nrFree,
    ab.frame.trans bc.frame⟩

theorem SameBlocks.free_eq (same : SameBlocks s s') : s'.Free = s.Free := by
  funext o p
  exact propext (same.free o).mem_iff

theorem FreeBlocks.same (inv : FreeBlocks s) (same : SameBlocks s s') : FreeBlocks s' := by
  have frame := same.frame
  constructor
  · exact same.free_eq ▸ inv.tiling
  · exact fun h => inv.small (same.free_eq ▸ h)
  · exact fun h x inside => (frame.spanned x).mpr (inv.inZone (same.free_eq ▸ h) x inside)
  · exact fun o => (same.free o).nodup_iff.mpr (inv.nodup o)
  · intro p
    rw [same.memMap, frame.idx, same.free_eq]
    exact inv.marked p
  · intro o p h
    rw [same.memMap]
    exact inv.order (same.free_eq ▸ h)
  · intro p spanned
    rw [same.memMap, frame.idx]
    exact inv.zonenum p ((frame.spanned p).mp spanned)

theorem sameBlocks_listMove (inv : FreeBlocks s) (h : s.Free o p) {migratetype : Nat}
    (range : migratetype < migrateTypes) : SameBlocks s (s.listMove o migratetype p) := by
  refine ⟨rfl, fun o' => ?_, rfl, (Frame.listDel s p).trans (Frame.modifyList _ _ _ _)⟩
  by_cases here : o' = o
  · subst here
    have added := State.free_modifyList_perm (s.listDel p) o' range (fun l => .refl (p :: l))
    refine added.trans ?_
    rw [State.free_listDel, ← (inv.nodup o').erase_eq_filter]
    exact (List.perm_cons_erase h).symm
  · have absent : ∀ q ∈ s.free o', q ≠ p := by
      rintro q hq rfl
      exact here (inv.tiling.order_eq hq h)
    rw [State.listMove, State.listAdd, State.free_modifyList_of_ne here, State.free_listDel,
      List.filter_eq_self.mpr (by simpa using absent)]

end XcKernel.PageAlloc
