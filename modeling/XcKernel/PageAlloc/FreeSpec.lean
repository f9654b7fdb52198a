import XcKernel.PageAlloc.PcpSpec

/-!
# Freeing pages keeps the zone invariant

`free_pages_prepare` looks at each page of the block and either clears its
flags or refuses the block; nothing but the pages of the block changes then.
-/

namespace XcKernel.PageAlloc

open Blocks

variable {P : Nat → Page → Prop} {s s' : State} {o p : Nat}

theorem zonenum_and {page : Page} {mask : BitVec 32} (keep : mask >>> 30 = 3#32) :
    Page.zonenum { page with flags := page.flags &&& mask } = page.zonenum := by
  rw [Page.zonenum, Page.zonenum, BitVec.ushiftRight_and_distrib, keep, BitVec.and_assoc,
    BitVec.and_self]

theorem zonenum_clear (page : Page) (flag : PageFlag) : (page.clear flag).zonenum = page.zonenum := by
  refine zonenum_and ?_
  cases flag <;> decide

theorem zonenum_set (page : Page) (flag : PageFlag) : (page.set flag).zonenum = page.zonenum := by
  have none : flag.mask >>> 30 = 0#32 := by cases flag <;> decide
  rw [Page.zonenum, Page.zonenum, Page.set, BitVec.ushiftRight_or_distrib, none, BitVec.or_zero]

theorem clear_of_noFlags {page : Page} (none : page.flags &&& pageFlagsCheckAtPrep = 0)
    (flag : PageFlag) : page.clear flag = page := by
  have within : flag.mask = pageFlagsCheckAtPrep &&& flag.mask := by cases flag <;> decide
  have off : page.flags &&& flag.mask = 0 := by
    rw [within, ← BitVec.and_assoc, none]
    simp
  have same : page.flags &&& ~~~flag.mask = page.flags := by
    have split : page.flags &&& (flag.mask ||| ~~~flag.mask) = page.flags := by
      have all : flag.mask ||| ~~~flag.mask = BitVec.allOnes 32 := by cases flag <;> decide
      rw [all, BitVec.and_allOnes]
    rw [BitVec.and_or_distrib_left, off] at split
    simpa using split
  rw [Page.clear, same]

/-- What `free_pages_prepare` leaves of a page it accepts. -/
structure Prepared (page : Page) : Prop where
  flags : page.flags &&& pageFlagsCheckAtPrep = 0
  mapping : page.mapping = 0
  mapcount : page.mapcount = -1

/-- A page that `free_pages_prepare` accepts. -/
structure Acceptable (page : Page) : Prop where
  flags : page.flags &&& pageFlagsCheckAtFree = 0
  mapping : page.mapping = 0
  mapcount : page.mapcount = -1

/-- Flags and mapping may differ, and the private word of a page that is freed. -/
structure Cleaned (page page' : Page) : Prop where
  zonenum : page'.zonenum = page.zonenum
  mapcount : page'.mapcount = page.mapcount
  count : page'.count = page.count

theorem Cleaned.refl (page : Page) : Cleaned page page := ⟨rfl, rfl, rfl⟩

theorem Cleaned.trans {a b c : Page} (ab : Cleaned a b) (bc : Cleaned b c) : Cleaned a c :=
  ⟨bc.zonenum.trans ab.zonenum, bc.mapcount.trans ab.mapcount, bc.count.trans ab.count⟩

theorem freePagesCheck_cleaned (page : Page) : Cleaned page (freePagesCheck page).2 := by
  unfold freePagesCheck
  split_ifs
  · exact .refl page
  · exact ⟨zonenum_and (by decide), rfl, rfl⟩
  · exact .refl page

theorem freePagesCheck_prepared {page : Page} (ok : (freePagesCheck page).1 = 0) :
    Prepared (freePagesCheck page).2 := by
  unfold freePagesCheck at ok ⊢
  split_ifs at ok ⊢ with bad flags
  · push Not at bad
    refine ⟨?_, bad.2.1, by have := bad.1; dsimp only; omega⟩
    dsimp only
    rw [BitVec.and_assoc]
    simp
  · push Not at bad
    exact ⟨by simpa using flags, bad.2.1, by have := bad.1; dsimp only; omega⟩

theorem freePagesCheck_accepts {page : Page} (ok : Acceptable page) : (freePagesCheck page).1 = 0 := by
  unfold freePagesCheck
  rw [if_neg (by simp [ok.flags, ok.mapping, ok.mapcount])]
  split <;> rfl

/-- Only the pages of a set differ, and only in what is cleaned. -/
structure Cleans (s s' : State) (inside : Nat → Prop) : Prop where
  zone : s'.zone = s.zone
  disabled : s'.pageGroupByMobilityDisabled = s.pageGroupByMobilityDisabled
  cleaned : ∀ x, Cleaned (s.memMap x) (s'.memMap x)
  outside : ∀ x, ¬ inside x → s'.memMap x = s.memMap x

theorem Cleans.trans {a b c : State} {inside : Nat → Prop} (ab : Cleans a b inside)
    (bc : Cleans b c inside) : Cleans a c inside :=
  ⟨bc.zone.trans ab.zone, bc.disabled.trans ab.disabled,
    fun x => (ab.cleaned x).trans (bc.cleaned x),
    fun x out => (bc.outside x out).trans (ab.outside x out)⟩

theorem Cleans.refl (s : State) (inside : Nat → Prop) : Cleans s s inside :=
  ⟨rfl, rfl, fun _ => .refl _, fun _ _ => rfl⟩

theorem Cleans.modifyPage (s : State) (inside : Nat → Prop) {x : Nat} (here : inside x)
    {f : Page → Page} (h : Cleaned (s.memMap x) (f (s.memMap x))) :
    Cleans s (s.modifyPage x f) inside := by
  refine ⟨rfl, rfl, fun y => ?_, fun y out => ?_⟩
  · simp only [State.modifyPage]
    split
    · rename_i eq
      exact eq ▸ h
    · exact .refl _
  · exact if_neg fun eq : y = x => out (eq ▸ here)

/-- The loop cleans the pages it visits and counts the bad ones. -/
structure PrepareSpec (s s' : State) (page : Nat) (rest : List Nat) (bad bad' : Nat) : Prop where
  cleans : Cleans s s' fun x => ∃ i ∈ rest, x = page + i
  le : bad ≤ bad'
  prepared : bad' = bad → ∀ i ∈ rest, Prepared (s'.memMap (page + i))
  accepts : (∀ i ∈ rest, Acceptable (s.memMap (page + i))) → bad' = bad

theorem prepareLoop_spec (page : Nat) {rest : List Nat} (nodup : rest.Nodup) (bad : Nat) :
    PrepareSpec s (prepareLoop s page rest bad).2 page rest bad (prepareLoop s page rest bad).1 := by
  induction rest generalizing s bad with
  | nil => exact ⟨.refl s _, le_rfl, by simp, fun _ => rfl⟩
  | cons i rest ih =>
    rw [List.nodup_cons] at nodup
    rw [prepareLoop]
    set r := freePagesCheck (s.memMap (page + i)) with hr
    have first : Cleans s (s.modifyPage (page + i) fun _ => r.2) fun x =>
        ∃ j ∈ i :: rest, x = page + j :=
      .modifyPage s _ ⟨i, List.mem_cons_self, rfl⟩ (freePagesCheck_cleaned _)
    obtain ⟨cleans, le, prepared, accepts⟩ :=
      ih (s := s.modifyPage (page + i) fun _ => r.2) nodup.2 (bad + r.1)
    have here : ∀ j ∈ rest, page + i ≠ page + j := by
      intro j hj eq
      exact nodup.1 ((Nat.add_left_cancel eq) ▸ hj)
    refine ⟨first.trans ⟨cleans.zone, cleans.disabled, cleans.cleaned, fun x out => ?_⟩, by omega,
      fun same j hj => ?_, fun acceptable => ?_⟩
    · refine cleans.outside x ?_
      rintro ⟨j, hj, rfl⟩
      exact out ⟨j, List.mem_cons_of_mem i hj, rfl⟩
    · have zero : r.1 = 0 := by omega
      rcases List.mem_cons.mp hj with rfl | later
      · rw [cleans.outside _ (by rintro ⟨k, hk, eq⟩; exact here k hk eq)]
        simp only [State.modifyPage, if_true]
        exact freePagesCheck_prepared zero
      · exact prepared (by omega) j later
    · have zero : r.1 = 0 := freePagesCheck_accepts (acceptable i List.mem_cons_self)
      rw [accepts, zero, Nat.add_zero]
      intro j hj
      simp only [State.modifyPage]
      rw [if_neg (here j hj).symm]
      exact acceptable j (List.mem_cons_of_mem i hj)

theorem mem_range_block (aligned : 2 ^ o ∣ p) (x : Nat) :
    (∃ i ∈ List.range (1 <<< o), x = p + i) ↔ head o x = p := by
  rw [head_eq_iff aligned, Nat.one_shiftLeft]
  constructor
  · rintro ⟨i, hi, rfl⟩
    have := List.mem_range.mp hi
    omega
  · rintro ⟨low, high⟩
    exact ⟨x - p, List.mem_range.mpr (by omega), by omega⟩

/-- `free_pages_prepare` on the block of order `o` at `p`. -/
structure PreparedBlock (s s' : State) (o p : Nat) (ok : Bool) : Prop where
  cleans : Cleans s s' fun x => head o x = p
  prepared : ok = true → ∀ x, head o x = p → Prepared (s'.memMap x)
  accepts : (∀ x, head o x = p → Acceptable (s.memMap x)) → ok = true

theorem cleans_anon (s : State) {inside : Nat → Prop} (here : inside p) :
    Cleans s (if (s.memMap p).anon then s.modifyPage p fun q => { q with mapping := 0 } else s)
      inside := by
  split
  · exact Cleans.modifyPage s _ here (f := fun q => { q with mapping := 0 }) ⟨rfl, rfl, rfl⟩
  · exact .refl s _

theorem freePagesPrepare_spec (aligned : 2 ^ o ∣ p) :
    PreparedBlock s (freePagesPrepare s p o).2 o p (freePagesPrepare s p o).1 := by
  unfold freePagesPrepare
  dsimp only
  set s₁ := if (s.memMap p).anon then s.modifyPage p fun q => { q with mapping := 0 } else s with hs₁
  have here : head o p = p := head_of_dvd aligned
  have anon : Cleans s s₁ fun x => head o x = p := cleans_anon s here
  obtain ⟨cleans, -, prepared, accepts⟩ :=
    prepareLoop_spec (s := s₁) p (List.nodup_range (n := 1 <<< o)) 0
  have block := mem_range_block aligned
  refine ⟨anon.trans ⟨cleans.zone, cleans.disabled, cleans.cleaned, fun x out => ?_⟩,
    fun ok x inside => ?_, fun acceptable => ?_⟩
  · exact cleans.outside x fun visited => out ((block x).mp visited)
  · obtain ⟨i, hi, rfl⟩ := (block x).mpr inside
    exact prepared (by simpa using ok) i hi
  · have plain : s₁ = s := by
      rw [hs₁, if_neg]
      simp [Page.anon, (acceptable p here).mapping]
    rw [decide_eq_true_eq]
    refine accepts fun i hi => ?_
    rw [plain]
    exact acceptable _ ((block _).mp ⟨i, hi, rfl⟩)

/-- A block of the zone of which no page is available. -/
structure Freeable (s : State) (o p : Nat) : Prop where
  lent : Lent s o p
  off : ∀ x, head o x = p → x ∉ s.pcpPages

theorem Freeable.not_avail (block : Freeable s o p) {x : Nat} (inside : head o x = p) :
    ¬ s.Avail x := by
  rintro (free | pcp)
  · exact block.lent.clear x inside free
  · exact block.off x inside pcp

theorem SameLists.of_zone (zone : s'.zone = s.zone) : SameLists s s' := by
  constructor <;> rw [zone]

theorem Cleans.touches (inv : PcpInv P s) (block : Freeable s o p)
    (cleans : Cleans s s' fun x => head o x = p) : Touches s s' :=
  inv.touches (.of_zone cleans.zone) (by rw [cleans.zone])
    (fun x avail => cleans.outside x fun inside => block.not_avail inside avail)
    (fun x => (cleans.cleaned x).zonenum) (fun x => (cleans.cleaned x).mapcount)

theorem Freeable.keep (block : Freeable s o p) (touches : Touches s s') : Freeable s' o p :=
  ⟨touches.same.lent block.lent, fun x inside => touches.pcpPages ▸ block.off x inside⟩

/-- The block has become available. -/
structure Released (P : Nat → Page → Prop) (s s' : State) (o p : Nat) : Prop where
  inv : ZoneInv P s'
  untouched : ∀ x, head o x ≠ p → ¬ s.Avail x → s'.memMap x = s.memMap x
  count : ∀ x, (s'.memMap x).count = (s.memMap x).count
  avail : ∀ x, s'.Avail x ↔ s.Avail x ∨ head o x = p
  span : SameSpan s s'
  zonenum : ∀ x, (s'.memMap x).zonenum = (s.memMap x).zonenum
  boot : BootPageset s → BootPageset s'

/-- The block was refused because of one of its pages, and is as unavailable as before. -/
structure Refused (P : Nat → Page → Prop) (s s' : State) (o p : Nat) : Prop where
  inv : ZoneInv P s'
  cleans : Cleans s s' fun x => head o x = p
  avail : ∀ x, s'.Avail x ↔ s.Avail x
  fault : ¬ ∀ x, head o x = p → Acceptable (s.memMap x)

/-- Freeing a block has one of two results. -/
def Freed (P : Nat → Page → Prop) (s s' : State) (o p : Nat) : Prop :=
  Released P s s' o p ∨ Refused P s s' o p

theorem Freed.inv (freed : Freed P s s' o p) : ZoneInv P s' :=
  freed.elim Released.inv Refused.inv

theorem Cleans.span {inside : Nat → Prop} (cleans : Cleans s s' inside) : SameSpan s s' := by
  refine ⟨?_, ?_, ?_, cleans.disabled⟩ <;> rw [cleans.zone]

theorem Freed.keeps (freed : Freed P s s' o p) : Keeps s s' fun x => head o x = p := by
  rcases freed with released | refused
  · exact ⟨released.span, released.zonenum, fun x off out => released.untouched x out off,
      fun x => (released.avail x).mp⟩
  · exact ⟨refused.cleans.span, fun x => (refused.cleans.cleaned x).zonenum,
      fun x _ out => refused.cleans.outside x out, fun x avail => .inl ((refused.avail x).mp avail)⟩

theorem Freed.boot (freed : Freed P s s' o p) (boot : BootPageset s) : BootPageset s' := by
  rcases freed with released | refused
  · exact released.boot boot
  · exact boot.congr (by rw [refused.cleans.zone])

theorem Freed.settled (freed : Freed P s s' o p) : Settled P s s' fun x => head o x = p :=
  ⟨freed.inv, freed.keeps, freed.boot⟩

theorem Freed.released (freed : Freed P s s' o p)
    (acceptable : ∀ x, head o x = p → Acceptable (s.memMap x)) : Released P s s' o p :=
  freed.resolve_right fun refused => refused.fault acceptable

/-- A page that was accepted may be made available. -/
def Admits (P : Nat → Page → Prop) (s : State) (o p : Nat) : Prop :=
  ∀ x, head o x = p → ∀ page, Prepared page → page.count = (s.memMap x).count → P x page

theorem touches_freePageMlock (inv : PcpInv P s) : Touches s (freePageMlock s) :=
  inv.touches ⟨rfl, rfl, rfl, rfl, rfl, rfl⟩ rfl (fun _ _ => rfl) (fun _ => rfl) (fun _ => rfl)

theorem ZoneInv.freePageMlock (inv : ZoneInv P s) : ZoneInv P (freePageMlock s) :=
  inv.touch (touches_freePageMlock inv.toPcpInv) rfl rfl

theorem ZoneInv.freeOnePage (stable : Stable P) (inv : ZoneInv P s) (block : Freeable s o p)
    (good : ∀ x, head o x = p → P x (s.memMap x)) {migratetype : Nat}
    (range : migratetype < migrateTypes) : Released P s (freeOnePage s p o migratetype) o p := by
  obtain ⟨inv₁, spec⟩ := inv.toPcpInv.free stable block.lent block.off good range
  have touches : Touches (freeOnePageLocked s p o migratetype) (PageAlloc.freeOnePage s p o migratetype) :=
    inv₁.touches ⟨rfl, rfl, rfl, rfl, rfl, rfl⟩ rfl (fun _ _ => rfl) (fun _ => rfl) (fun _ => rfl)
  have avail : ∀ x, (PageAlloc.freeOnePage s p o migratetype).Avail x ↔ s.Avail x ∨ head o x = p := by
    intro x
    rw [touches.avail, State.Avail, State.Avail, spec.covered, spec.frame.pcpPages]
    exact or_right_comm
  refine ⟨⟨inv₁.touch touches, ?_, ?_, ?_⟩, fun x out off => ?_,
    fun x => (spec.frame.page x).count, avail, spec.frame.span.trans ⟨rfl, rfl, rfl, rfl⟩,
    spec.frame.zonenum,
    fun boot => boot.congr spec.frame.pageset⟩
  · rw [touches.pcpPages, spec.frame.pcpPages]
    show (freeOnePageLocked s p o migratetype).zone.pageset.count = _
    rw [spec.frame.pageset]
    exact inv.count
  · show ∃ batch : Nat, (freeOnePageLocked s p o migratetype).zone.pageset.high = _ ∧
      (freeOnePageLocked s p o migratetype).zone.pageset.batch = _
    rw [spec.frame.pageset]
    exact inv.limits
  · show (freeOnePageLocked s p o migratetype).zone.vmStat _ + (1 <<< o : Nat) =
      ((freeOnePageLocked s p o migratetype).zone.pagesBelow maxOrder : Int)
    rw [spec.frame.vmStat, spec.pagesBelow inv.buddy block.lent, inv.stat, Nat.one_shiftLeft]
    push_cast
    rfl
  · refine spec.outside x fun free => ?_
    rcases (spec.covered x).mp free with old | new
    · exact off (.inl old)
    · exact out new

/-- A block that has passed the checks and is about to become available. -/
structure Ready (P : Nat → Page → Prop) (s s' : State) (o p : Nat) : Prop where
  inv : ZoneInv P s'
  block : Freeable s' o p
  good : ∀ x, head o x = p → P x (s'.memMap x)
  outside : ∀ x, head o x ≠ p → s'.memMap x = s.memMap x
  count : ∀ x, (s'.memMap x).count = (s.memMap x).count
  avail : ∀ x, s'.Avail x ↔ s.Avail x
  span : SameSpan s s'
  zonenum : ∀ x, (s'.memMap x).zonenum = (s.memMap x).zonenum
  pageset : s'.zone.pageset = s.zone.pageset

theorem Ready.of_cleans (inv : ZoneInv P s) (block : Freeable s o p) (admits : Admits P s o p)
    (cleans : Cleans s s' fun x => head o x = p)
    (prepared : ∀ x, head o x = p → Prepared (s'.memMap x)) : Ready P s s' o p := by
  have touches := cleans.touches inv.toPcpInv block
  refine ⟨inv.touch touches (by rw [cleans.zone]) (by rw [cleans.zone]), block.keep touches,
    fun x inside => ?_, cleans.outside, fun x => (cleans.cleaned x).count, touches.avail,
    cleans.span, fun x => (cleans.cleaned x).zonenum, by rw [cleans.zone]⟩
  exact admits x inside _ (prepared x inside) (cleans.cleaned x).count

theorem Ready.mlock (ready : Ready P s s' o p) (wasMlocked : Bool) :
    Ready P s (if wasMlocked then freePageMlock s' else s') o p := by
  split
  · have touches := touches_freePageMlock ready.inv.toPcpInv
    exact ⟨ready.inv.freePageMlock, ready.block.keep touches, ready.good, ready.outside,
      ready.count, fun x => (touches.avail x).trans (ready.avail x),
      ready.span.trans ⟨rfl, rfl, rfl, rfl⟩, ready.zonenum, ready.pageset⟩
  · exact ready

theorem Ready.released {s'' : State} (ready : Ready P s s' o p) (released : Released P s' s'' o p) :
    Released P s s'' o p := by
  refine ⟨released.inv, fun x out off => ?_, fun x => ?_, fun x => ?_, ready.span.trans released.span,
    fun x => (released.zonenum x).trans (ready.zonenum x),
    fun boot => released.boot (boot.congr ready.pageset)⟩
  · rw [released.untouched x out (by rwa [ready.avail]), ready.outside x out]
  · rw [released.count, ready.count]
  · rw [released.avail, ready.avail]

theorem touches_addPcpCount (inv : PcpInv P s) (delta : Int) : Touches s (s.addPcpCount delta) :=
  inv.touches ⟨rfl, rfl, rfl, rfl, rfl, rfl⟩ rfl (fun _ _ => rfl) (fun _ => rfl) (fun _ => rfl)

theorem touches_modZonePageState (inv : PcpInv P s) (item : ZoneStatItem) (delta : Int) :
    Touches s (s.modZonePageState item delta) :=
  inv.touches ⟨rfl, rfl, rfl, rfl, rfl, rfl⟩ rfl (fun _ _ => rfl) (fun _ => rfl) (fun _ => rfl)

theorem batch_le {high batch : Int} (length : Nat)
    (limits : ∃ b : Nat, high = 6 * b ∧ batch = max 1 b) (full : high ≤ length)
    (nonempty : 0 < length) : 1 ≤ batch ∧ batch.toNat ≤ length := by
  obtain ⟨b, rfl, rfl⟩ := limits
  omega

theorem freePcppagesBulk_spec (stable : Stable P) (inv : PcpInv P s) {batch : Int}
    (enough : batch.toNat ≤ s.pcpPages.length) :
    ∃ s', freePcppagesBulk s batch = some (s'.modZonePageState .nrFreePages batch) ∧
      Drained P s s' batch.toNat := by
  obtain ⟨s', returns, drained⟩ := bulkLoop_spec stable 0 inv (by decide : 0 < _)
    enough
  exact ⟨s', by rw [freePcppagesBulk, returns]; rfl, drained⟩

/-- Both counters follow when a batch has gone back. -/
theorem Drained.settle {batch : Int} (drained : Drained P s s' batch.toNat) (pos : 1 ≤ batch)
    (hbatch : s.zone.pageset.batch = batch) (count : s.zone.pageset.count = s.pcpPages.length)
    (limits : ∃ b : Nat, s.zone.pageset.high = 6 * b ∧ s.zone.pageset.batch = max 1 b)
    (stat : s.zone.vmStat .nrFreePages = s.zone.pagesBelow maxOrder) :
    let s'' := (s'.modZonePageState .nrFreePages batch).addPcpCount (-s'.zone.pageset.batch)
    ZoneInv P s'' ∧ (∀ x, s''.Avail x ↔ s.Avail x) ∧ s''.pcpPages = s'.pcpPages := by
  have touches : Touches s' ((s'.modZonePageState .nrFreePages batch).addPcpCount
      (-s'.zone.pageset.batch)) :=
    drained.inv.touches ⟨rfl, rfl, rfl, rfl, rfl, rfl⟩ rfl (fun _ _ => rfl) (fun _ => rfl)
      (fun _ => rfl)
  have length := drained.length
  refine ⟨⟨drained.inv.touch touches, ?_, ?_, ?_⟩, fun x => (touches.avail x).trans (drained.avail x),
    touches.pcpPages⟩
  · rw [touches.pcpPages]
    show s'.zone.pageset.count + -s'.zone.pageset.batch = _
    rw [drained.count, drained.batch, count, hbatch]
    omega
  · show ∃ b : Nat, s'.zone.pageset.high = 6 * b ∧ s'.zone.pageset.batch = max 1 b
    rw [drained.high, drained.batch]
    exact limits
  · show s'.zone.vmStat .nrFreePages + batch = (s'.zone.pagesBelow maxOrder : Int)
    rw [drained.vmStat, drained.pagesBelow, stat]
    push_cast
    omega

/-- The state in which the end of `free_hot_cold_page` looks at the limit. -/
def pcpAdded (s : State) (page migratetype : Nat) (cold : Bool) : State :=
  (s.modifyPcpList migratetype fun l => if cold then l ++ [page] else page :: l).addPcpCount 1

/-- What holds there. -/
structure PcpAdded (P : Nat → Page → Prop) (s s' : State) (p : Nat) : Prop where
  inv : PcpInv P s'
  length : s'.pcpPages.length = s.pcpPages.length + 1
  count : s'.zone.pageset.count = s'.pcpPages.length
  avail : ∀ x, s'.Avail x ↔ s.Avail x ∨ head 0 x = p
  limits : ∃ b : Nat, s'.zone.pageset.high = 6 * b ∧ s'.zone.pageset.batch = max 1 b

theorem ZoneInv.addPage (inv : ZoneInv P s) (block : Freeable s 0 p) (good : P p (s.memMap p))
    {t : Nat} (range : t < migratePcptypes) (type : (s.memMap p).priv < migrateTypes) (cold : Bool) :
    PcpAdded P s (pcpAdded s p t cold) p := by
  have single : ∀ x, head 0 x = p ↔ x = p := fun x => by simp [head]
  have here : head 0 p = p := (single p).mpr rfl
  unfold pcpAdded
  set f : List Nat → List Nat := fun l => if cold then l ++ [p] else p :: l with hf
  have adds : (f (s.zone.pageset.lists t)).Perm ([p] ++ s.zone.pageset.lists t) := by
    rw [hf]
    dsimp only
    split
    · exact List.perm_append_comm
    · exact .refl _
  have perm := pcpPages_add range adds
  have inv₁ : PcpInv P (s.modifyPcpList t f) := by
    refine inv.toPcpInv.addPages range adds (List.nodup_singleton p) fun x hx => ?_
    obtain rfl := List.mem_singleton.mp hx
    exact ⟨block.lent, block.off x here, good, type⟩
  have counted := touches_addPcpCount inv₁ 1
  have length : ((s.modifyPcpList t f).addPcpCount 1).pcpPages.length = s.pcpPages.length + 1 := by
    rw [counted.pcpPages, perm.length_eq]
    simp [Nat.add_comm]
  refine ⟨inv₁.touch counted, length, ?_, fun x => ?_, inv.limits⟩
  · rw [length]
    show s.zone.pageset.count + 1 = _
    rw [inv.count]
    push_cast
    rfl
  · rw [counted.avail, State.Avail, State.Avail, perm.mem_iff, single,
      (sameLists_modifyPcpList s t f).free_eq, List.mem_append, List.mem_singleton]
    tauto

theorem PcpAdded.enough (added : PcpAdded P s s' p)
    (full : s'.zone.pageset.count ≥ s'.zone.pageset.high) :
    1 ≤ s'.zone.pageset.batch ∧ s'.zone.pageset.batch.toNat ≤ s'.pcpPages.length := by
  have length := added.length
  apply batch_le s'.pcpPages.length added.limits
  · rw [← added.count]
    exact full
  · omega

theorem ZoneInv.addToPcp (stable : Stable P) (inv : ZoneInv P s) (block : Freeable s 0 p)
    (good : P p (s.memMap p)) {t : Nat} (range : t < migratePcptypes)
    (type : (s.memMap p).priv < migrateTypes) (cold : Bool) :
    ∃ s', addToPcp s p t cold = some s' ∧ Released P s s' 0 p := by
  have added := inv.addPage block good range type cold
  have split : PageAlloc.addToPcp s p t cold =
      if (pcpAdded s p t cold).zone.pageset.count ≥ (pcpAdded s p t cold).zone.pageset.high then
        (freePcppagesBulk (pcpAdded s p t cold) (pcpAdded s p t cold).zone.pageset.batch).map
          fun s => s.addPcpCount (-s.zone.pageset.batch)
      else some (pcpAdded s p t cold) := rfl
  have high : (pcpAdded s p t cold).zone.pageset.high = s.zone.pageset.high := rfl
  have batch : (pcpAdded s p t cold).zone.pageset.batch = s.zone.pageset.batch := rfl
  have stat : (pcpAdded s p t cold).zone.vmStat .nrFreePages =
      (pcpAdded s p t cold).zone.pagesBelow maxOrder := inv.stat
  have span : SameSpan s (pcpAdded s p t cold) := ⟨rfl, rfl, rfl, rfl⟩
  have memMap : (pcpAdded s p t cold).memMap = s.memMap := rfl
  rw [split]
  generalize pcpAdded s p t cold = s₂ at added high batch stat span memMap ⊢
  split_ifs with full
  · obtain ⟨pos, enough⟩ := added.enough full
    obtain ⟨s₃, returns, drained⟩ := freePcppagesBulk_spec stable added.inv enough
    obtain ⟨inv₄, avail₄, lists₄⟩ := drained.settle pos rfl added.count added.limits stat
    refine ⟨_, by rw [returns]; rfl, inv₄, fun x out off => ?_, fun x => ?_,
      fun x => (avail₄ x).trans (added.avail x), ?_, fun x => ?_, fun boot => ?_⟩
    · rw [← memMap]
      exact drained.untouched x fun h => ((added.avail x).mp h).elim off out
    · rw [← memMap]
      exact (drained.page x).count
    · exact span.trans (drained.span.trans ⟨rfl, rfl, rfl, rfl⟩)
    · show (s₃.memMap x).zonenum = _
      rw [Page.zonenum, (drained.page x).flags, memMap]
      rfl
    · have left := drained.length
      rw [added.length, boot.pages, batch, boot.batch] at left
      exact ⟨drained.high.trans (high.trans boot.high), drained.batch.trans (batch.trans boot.batch),
        lists₄.trans (List.eq_nil_of_length_eq_zero (by simpa using left))⟩
  · refine ⟨s₂, rfl, ⟨added.inv, added.count, added.limits, stat⟩, fun _ _ _ => by rw [memMap],
      fun _ => by rw [memMap], added.avail, span, fun _ => by rw [memMap], fun boot => (full ?_).elim⟩
    rw [added.count, high, boot.high]
    exact Int.natCast_nonneg _

theorem acceptable_clear {page : Page} (ok : Acceptable page) (flag : PageFlag) :
    Acceptable (page.clear flag) := by
  refine ⟨?_, ok.mapping, ok.mapcount⟩
  rw [Page.clear]
  dsimp only
  rw [BitVec.and_assoc, BitVec.and_comm (~~~flag.mask), ← BitVec.and_assoc, ok.flags]
  simp

theorem cleaned_clear (page : Page) (flag : PageFlag) : Cleaned page (page.clear flag) :=
  ⟨zonenum_clear page flag, rfl, rfl⟩

theorem freePagesPrepare_mlocked (aligned : 2 ^ o ∣ p) :
    PreparedBlock s (freePagesPrepare (s.modifyPage p (·.clear .mlocked)) p o).2 o p
      (freePagesPrepare (s.modifyPage p (·.clear .mlocked)) p o).1 := by
  have first : Cleans s (s.modifyPage p (·.clear .mlocked)) fun x => head o x = p :=
    .modifyPage s (fun x => head o x = p) (head_of_dvd aligned) (cleaned_clear _ _)
  have spec := freePagesPrepare_spec (s := s.modifyPage p (·.clear .mlocked)) aligned
  refine ⟨first.trans spec.cleans, spec.prepared, fun acceptable => spec.accepts fun x inside => ?_⟩
  simp only [State.modifyPage]
  split
  · exact acceptable_clear (acceptable x inside) _
  · exact acceptable x inside

theorem Freed.of_refused (inv : ZoneInv P s) (block : Freeable s o p) {ok : Bool}
    (spec : PreparedBlock s s' o p ok) (refused : ok = false) : Freed P s s' o p := by
  have touches := spec.cleans.touches inv.toPcpInv block
  have zone := spec.cleans.zone
  refine .inr ⟨inv.touch touches (by rw [zone]) (by rw [zone]), spec.cleans, touches.avail, ?_⟩
  intro acceptable
  rw [spec.accepts acceptable] at refused
  cases refused

theorem freePagesOk_freed (stable : Stable P) (inv : ZoneInv P s) (block : Freeable s o p)
    (admits : Admits P s o p) : Freed P s (freePagesOk s p o) o p := by
  have spec := freePagesPrepare_mlocked (s := s) block.lent.aligned
  unfold freePagesOk
  dsimp only
  set r := freePagesPrepare (s.modifyPage p (·.clear .mlocked)) p o with hr
  by_cases ok : r.1 = true
  · have ready := Ready.of_cleans inv block admits spec.cleans (spec.prepared ok)
    have locked := ready.mlock ((s.memMap p).test .mlocked)
    rw [if_neg (by simpa using ok)]
    exact .inl (locked.released (locked.inv.freeOnePage stable locked.block locked.good
      (locked.inv.migratetypes p)))
  · rw [if_pos (by simpa using ok)]
    exact .of_refused inv block spec (by simpa using ok)

/-- The state in which `free_hot_cold_page` looks at the migratetype of a page
that has passed the checks. -/
def hotColdReady (s : State) (page : Nat) : State :=
  let r := freePagesPrepare (s.modifyPage page (·.clear .mlocked)) page 0
  let s₁ := r.2.modifyPage page fun p => { p with priv := getPageblockMigratetype r.2 page }
  if (s.memMap page).test .mlocked then freePageMlock s₁ else s₁

theorem hotColdReady_ready (inv : ZoneInv P s) (block : Freeable s 0 p) (admits : Admits P s 0 p)
    (ok : (freePagesPrepare (s.modifyPage p (·.clear .mlocked)) p 0).1 = true) :
    Ready P s (hotColdReady s p) 0 p ∧ ((hotColdReady s p).memMap p).priv < migrateTypes := by
  have spec := freePagesPrepare_mlocked (s := s) block.lent.aligned
  have here : head 0 p = p := head_of_dvd block.lent.aligned
  unfold hotColdReady
  dsimp only
  set r := freePagesPrepare (s.modifyPage p (·.clear .mlocked)) p 0 with hr
  set migratetype := getPageblockMigratetype r.2 p with hm
  set s₁ := r.2.modifyPage p fun q => { q with priv := migratetype } with hs₁
  have cleans : Cleans s s₁ fun x => head 0 x = p :=
    spec.cleans.trans (.modifyPage _ (fun x => head 0 x = p) here
      (f := fun q => { q with priv := migratetype }) ⟨rfl, rfl, rfl⟩)
  have prepared : ∀ x, head 0 x = p → Prepared (s₁.memMap x) := by
    intro x inside
    have old := spec.prepared ok x inside
    simp only [hs₁, State.modifyPage]
    split
    · exact ⟨old.flags, old.mapping, old.mapcount⟩
    · exact old
  have ready := Ready.of_cleans inv block admits cleans prepared
  have small : migratetype < migrateTypes := by
    have same : SameLists s r.2 := .of_zone spec.cleans.zone
    exact same.migratetypes inv.migratetypes p
  refine ⟨ready.mlock ((s.memMap p).test .mlocked), ?_⟩
  have same : (if (s.memMap p).test .mlocked then freePageMlock s₁ else s₁).memMap = s₁.memMap := by
    split <;> rfl
  rw [same]
  simpa [hs₁, State.modifyPage] using small

theorem freeHotColdPage_ready {cold : Bool}
    (ok : (freePagesPrepare (s.modifyPage p (·.clear .mlocked)) p 0).1 = true) :
    freeHotColdPage s p cold =
      let migratetype :=
        getPageblockMigratetype (freePagesPrepare (s.modifyPage p (·.clear .mlocked)) p 0).2 p
      if migratetype ≥ migratePcptypes then
        if migratetype = migrateIsolate then some (freeOnePage (hotColdReady s p) p 0 migratetype)
        else addToPcp (hotColdReady s p) p migrateMovable cold
      else addToPcp (hotColdReady s p) p migratetype cold := by
  have passed : ¬ ¬ (freePagesPrepare (s.modifyPage p (·.clear .mlocked)) p 0).1 = true := by
    simpa using ok
  unfold freeHotColdPage
  dsimp only
  rw [if_neg passed]
  rfl

theorem freeHotColdPage_released (stable : Stable P) (inv : ZoneInv P s) (block : Freeable s 0 p)
    (admits : Admits P s 0 p) (cold : Bool)
    (ok : (freePagesPrepare (s.modifyPage p (·.clear .mlocked)) p 0).1 = true) :
    ∃ s', freeHotColdPage s p cold = some s' ∧ Released P s s' 0 p := by
  have spec := freePagesPrepare_mlocked (s := s) block.lent.aligned
  have small : getPageblockMigratetype
      (freePagesPrepare (s.modifyPage p (·.clear .mlocked)) p 0).2 p < migrateTypes := by
    have same : SameLists s (freePagesPrepare (s.modifyPage p (·.clear .mlocked)) p 0).2 :=
      .of_zone spec.cleans.zone
    exact same.migratetypes inv.migratetypes p
  obtain ⟨ready, type⟩ := hotColdReady_ready inv block admits ok
  have good := ready.good p (head_of_dvd block.lent.aligned)
  rw [freeHotColdPage_ready ok]
  dsimp only
  split_ifs with large isolate
  · exact ⟨_, rfl, ready.released (ready.inv.freeOnePage stable ready.block ready.good small)⟩
  · obtain ⟨s', returns, released⟩ :=
      ready.inv.addToPcp stable ready.block good (t := migrateMovable) (by decide) type cold
    exact ⟨s', returns, ready.released released⟩
  · obtain ⟨s', returns, released⟩ :=
      ready.inv.addToPcp stable ready.block good (Nat.lt_of_not_le large) type cold
    exact ⟨s', returns, ready.released released⟩

theorem freeHotColdPage_refused {page : Nat} {cold : Bool}
    (refused : (freePagesPrepare (s.modifyPage page (·.clear .mlocked)) page 0).1 = false) :
    freeHotColdPage s page cold =
      some (freePagesPrepare (s.modifyPage page (·.clear .mlocked)) page 0).2 := by
  unfold freeHotColdPage
  dsimp only
  rw [if_pos (by simp [refused])]

theorem freeHotColdPage_freed (stable : Stable P) (inv : ZoneInv P s) (block : Freeable s 0 p)
    (admits : Admits P s 0 p) (cold : Bool) :
    ∃ s', freeHotColdPage s p cold = some s' ∧ Freed P s s' 0 p := by
  cases ok : (freePagesPrepare (s.modifyPage p (·.clear .mlocked)) p 0).1 with
  | true =>
    obtain ⟨s', returns, released⟩ := freeHotColdPage_released stable inv block admits cold ok
    exact ⟨s', returns, .inl released⟩
  | false =>
    exact ⟨_, freeHotColdPage_refused ok,
      .of_refused inv block (freePagesPrepare_mlocked block.lent.aligned) ok⟩

/-- The state in which `__free_pages_bootmem` frees its block: the reserved flag
is gone from the first page and from the others in the window, and the first
page has no reference. -/
structure BootPrep (s b : State) (page : Nat) (window : Nat → Prop) : Prop where
  zone : b.zone = s.zone
  disabled : b.pageGroupByMobilityDisabled = s.pageGroupByMobilityDisabled
  first : b.memMap page = ((s.memMap page).clear .reserved).setCount 0
  near : ∀ x, x ≠ page → window x → b.memMap x = (s.memMap x).clear .reserved
  far : ∀ x, x ≠ page → ¬ window x → b.memMap x = s.memMap x

theorem bootmemRounds_spec (s : State) (page n : Nat) :
    BootPrep s ((List.range (n + 1)).foldl (bootmemRound page) s) page
      fun x => page < x ∧ x < page + (n + 1) := by
  induction n with
  | zero =>
    refine ⟨rfl, rfl, ?_, fun x ne near => ?_, fun x ne _ => ?_⟩
    · simp [bootmemRound, State.modifyPage]
    · omega
    · simp [bootmemRound, State.modifyPage, ne]
  | succ n ih =>
    rw [List.range_succ, List.foldl_append, List.foldl_cons, List.foldl_nil]
    generalize (List.range (n + 1)).foldl (bootmemRound page) s = t at ih ⊢
    obtain ⟨zone, disabled, first, near, far⟩ := ih
    refine ⟨zone, disabled, ?_, fun x ne inside => ?_, fun x ne outside => ?_⟩
    · simp [bootmemRound, State.modifyPage, first, Page.setCount]
    · by_cases last : x = page + (n + 1)
      · simp [bootmemRound, State.modifyPage, last, far (page + (n + 1)) (by omega) (by omega)]
      · simp [bootmemRound, State.modifyPage, ne, last, near x ne (by omega)]
    · have other : x ≠ page + (n + 1) := by omega
      simp [bootmemRound, State.modifyPage, ne, other, far x ne (by omega)]

theorem freePages_of_prep {t : State} {page : Nat} {window : Nat → Prop}
    (prep : BootPrep s t page window) (order : Nat) :
    ∃ b, BootPrep s b page window ∧ freePages (t.modifyPage page (·.setCount 1)) page order =
      if order = 0 then freeHotColdPage b page false else some (freePagesOk b page order) := by
  obtain ⟨zone, disabled, first, near, far⟩ := prep
  refine ⟨(t.modifyPage page (·.setCount 1)).modifyPage page fun p =>
    { p with count := p.count - 1 }, ⟨zone, disabled, ?_, fun x ne inside => ?_,
    fun x ne outside => ?_⟩, ?_⟩
  · simp [State.modifyPage, first, Page.setCount]
  · simp [State.modifyPage, ne, near x ne inside]
  · simp [State.modifyPage, ne, far x ne outside]
  · unfold freePages
    dsimp only
    rw [if_pos]
    simp [State.modifyPage, Page.setCount]

/-- `__free_pages_bootmem` prepares the pages and drops the only reference. -/
theorem freePagesBootmem_eq (s : State) (page order : Nat) :
    ∃ b, BootPrep s b page (fun x => order ≠ 0 ∧ page < x ∧ x < page + bitsPerLong) ∧
      freePagesBootmem s page order =
        if order = 0 then freeHotColdPage b page false else some (freePagesOk b page order) := by
  unfold freePagesBootmem
  by_cases zero : order = 0
  · subst zero
    have prep : BootPrep s ((s.modifyPage page (·.clear .reserved)).modifyPage page (·.setCount 0))
        page fun x => 0 ≠ 0 ∧ page < x ∧ x < page + bitsPerLong := by
      refine ⟨rfl, rfl, ?_, fun x ne near => absurd rfl near.1, fun x ne _ => ?_⟩
      · simp [State.modifyPage]
      · simp [State.modifyPage, ne]
    exact freePages_of_prep prep 0
  · obtain ⟨zone, disabled, first, near, far⟩ := bootmemRounds_spec s page 31
    have prep : BootPrep s (bootmemLoop s page) page
        fun x => order ≠ 0 ∧ page < x ∧ x < page + bitsPerLong :=
      ⟨zone, disabled, first, fun x ne inside => near x ne inside.2,
        fun x ne outside => far x ne fun inside => outside ⟨zero, inside⟩⟩
    rw [if_neg zero]
    exact freePages_of_prep prep order

theorem BootPrep.touches {b : State} {window : Nat → Prop} (stable : Stable P) (inv : PcpInv P s)
    (prep : BootPrep s b p window) (off : ¬ s.Avail p) : Touches s b := by
  have page : ∀ x, b.memMap x = s.memMap x ∨ b.memMap x = (s.memMap x).clear .reserved ∨
      (x = p ∧ b.memMap x = ((s.memMap x).clear .reserved).setCount 0) := by
    intro x
    by_cases first : x = p
    · subst first
      exact .inr (.inr ⟨rfl, prep.first⟩)
    · by_cases near : window x
      · exact .inr (.inl (prep.near x first near))
      · exact .inl (prep.far x first near)
  refine inv.touches (.of_zone prep.zone) (by rw [prep.zone]) (fun x avail => ?_) (fun x => ?_)
    fun x => ?_
  · rcases page x with same | clear | ⟨rfl, -⟩
    · exact same
    · rw [clear, clear_of_noFlags (stable.noFlags (inv.pages x avail))]
    · exact (off avail).elim
  · rcases page x with eq | eq | ⟨-, eq⟩ <;> rw [eq]
    · exact zonenum_clear _ _
    · exact zonenum_clear _ _
  · rcases page x with eq | eq | ⟨-, eq⟩ <;> rw [eq]
    · rfl
    · rfl

theorem BootPrep.keeps {b : State} {window : Nat → Prop} (prep : BootPrep s b p window)
    (touches : Touches s b) : Keeps s b fun x => x = p ∨ window x := by
  refine ⟨⟨?_, ?_, ?_, prep.disabled⟩, touches.zonenum, fun x _ out => ?_,
    fun x avail => .inl ((touches.avail x).mp avail)⟩
  · rw [prep.zone]
  · rw [prep.zone]
  · rw [prep.zone]
  · exact prep.far x (fun first => out (.inl first)) fun near => out (.inr near)

theorem freePagesBootmem_freed (stable : Stable P) (inv : ZoneInv P s) (block : Freeable s o p)
    (admits : ∀ b, BootPrep s b p (fun x => o ≠ 0 ∧ p < x ∧ x < p + bitsPerLong) → Admits P b o p) :
    ∃ b s', BootPrep s b p (fun x => o ≠ 0 ∧ p < x ∧ x < p + bitsPerLong) ∧ Touches s b ∧
      freePagesBootmem s p o = some s' ∧ Freed P b s' o p := by
  obtain ⟨b, prep, eq⟩ := freePagesBootmem_eq s p o
  have touches := prep.touches stable inv.toPcpInv
    (block.not_avail (head_of_dvd block.lent.aligned))
  have inv' := inv.touch touches (by rw [prep.zone]) (by rw [prep.zone])
  have block' := block.keep touches
  have admits' := admits b prep
  by_cases zero : o = 0
  · subst zero
    obtain ⟨s', returns, freed⟩ := freeHotColdPage_freed stable inv' block' admits' false
    exact ⟨b, s', prep, touches, by rw [eq, if_pos rfl, returns], freed⟩
  · exact ⟨b, _, prep, touches, by rw [eq, if_neg zero],
      freePagesOk_freed stable inv' block' admits'⟩

end XcKernel.PageAlloc
