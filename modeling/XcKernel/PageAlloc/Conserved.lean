import XcKernel.PageAlloc.FreeOrder
import XcKernel.PageAlloc.Holders

/-!
# No page is lost

`prep_new_page` drops a block in which a page has a reference.  If the available
pages have none at the start, and callers give their blocks back in the same
state, nothing is dropped in any run.  The free blocks then depend only on the
pages that are held: when all blocks have come back, in whatever order, the zones
are cut into the same free blocks as at the start.
-/

namespace XcKernel.PageAlloc

open Blocks

/-- A page as it should be available: clean, and without a reference. -/
def Pristine (_ : Nat) (page : Page) : Prop := Clean page ∧ page.count = 0

theorem pristine_stable : Stable Pristine where
  frame := by
    rintro x page page' frame ⟨clean, count⟩
    refine ⟨⟨by rw [frame.flags]; exact clean.flags, by rw [frame.mapping]; exact clean.mapping, ?_⟩,
      by rw [frame.count]; exact count⟩
    rcases frame.mapcount with same | set
    · rw [same]
      exact clean.mapcount
    · exact set
  noFlags := fun pristine => pristine.1.flags

variable {P : Nat → Page → Prop} {s s' : State} {n n' : Node} {o p migratetype : Nat}
  {gfpFlags : BitVec 32}

def State.availPages (s : State) : Finset Nat := pages maxOrder s.free ∪ s.pcpPages.toFinset

theorem PcpInv.mem_availPages (inv : PcpInv P s) (x : Nat) : x ∈ s.availPages ↔ s.Avail x := by
  rw [State.availPages, Finset.mem_union, inv.buddy.mem_pages, List.mem_toFinset]
  rfl

theorem PcpInv.card_availPages (inv : PcpInv P s) : s.availPages.card = s.supply := by
  rw [State.availPages, Finset.card_union_of_disjoint, List.toFinset_card_of_nodup inv.nodup,
    ← inv.buddy.pagesBelow_eq, State.supply]
  rw [Finset.disjoint_left]
  intro x free pcp
  exact (inv.lent x (List.mem_toFinset.mp pcp)).not_covered ((inv.buddy.mem_pages x).mp free)

theorem avail_of_supply (inv : PcpInv P s) (inv' : PcpInv P s') (sub : ∀ x, s'.Avail x → s.Avail x)
    (supply : s'.supply = s.supply) (x : Nat) : s'.Avail x ↔ s.Avail x := by
  have subset : s'.availPages ⊆ s.availPages := fun y member =>
    (inv.mem_availPages y).mpr (sub y ((inv'.mem_availPages y).mp member))
  have same := Finset.eq_of_subset_of_card_le subset
    (by rw [inv.card_availPages, inv'.card_availPages, supply])
  rw [← inv.mem_availPages, ← inv'.mem_availPages, same]

theorem Taken.avail (inv : ZoneInv P s) (taken : Taken P s s' o p) (x : Nat) :
    s'.Avail x ↔ s.Avail x ∧ head o x ≠ p := by
  have aligned := taken.block.lent.aligned
  have inBlock : ∀ y, y ∈ Finset.Ico p (p + 2 ^ o) ↔ head o y = p := fun y => by
    rw [Finset.mem_Ico, head_eq_iff aligned]
  have block : Finset.Ico p (p + 2 ^ o) ⊆ s.availPages := fun y member =>
    (inv.toPcpInv.mem_availPages y).mpr (taken.wasAvail y ((inBlock y).mp member))
  have subset : s'.availPages ⊆ s.availPages \ Finset.Ico p (p + 2 ^ o) := by
    intro y member
    have avail := (taken.inv.toPcpInv.mem_availPages y).mp member
    refine Finset.mem_sdiff.mpr ⟨(inv.toPcpInv.mem_availPages y).mpr ?_, fun inside => ?_⟩
    · exact (taken.keeps.avail y avail).resolve_right id
    · exact taken.block.not_avail ((inBlock y).mp inside) avail
  have card : (s.availPages \ Finset.Ico p (p + 2 ^ o)).card ≤ s'.availPages.card := by
    rw [Finset.card_sdiff_of_subset block, inv.toPcpInv.card_availPages,
      taken.inv.toPcpInv.card_availPages, Nat.card_Ico, ← taken.supply]
    omega
  rw [← taken.inv.toPcpInv.mem_availPages, Finset.eq_of_subset_of_card_le subset card,
    Finset.mem_sdiff, inv.toPcpInv.mem_availPages, inBlock]

theorem Taken.accepted (taken : Taken Pristine s s' o p) (gfpFlags : BitVec 32) :
    ∃ s'', prepNewPage s' p o gfpFlags = some s'' := by
  have passes : ∀ i ∈ List.range (1 <<< o), checkNewPage (s'.memMap (p + i)) = false := by
    intro i hi
    have block : head o (p + i) = p := (mem_range_block taken.block.lent.aligned _).mp ⟨i, hi, rfl⟩
    obtain ⟨clean, count⟩ := taken.good _ block
    have unmarked : (s'.memMap (p + i)).buddy = false := by
      refine taken.inv.buddy.unmarked (taken.inv.buddy.zonenum _ ?_) fun free =>
        taken.block.not_avail block (.inl free)
      exact taken.block.lent.inZone _ block
    have mapcount := clean.mapcount.resolve_right (by simpa [Page.buddy] using unmarked)
    simp [checkNewPage, clean.flags, clean.mapping, mapcount, count]
  have none : ¬ ((List.range (1 <<< o)).any fun i => checkNewPage (s'.memMap (p + i))) = true := by
    simpa using passes
  rw [prepNewPage, if_neg none]
  exact ⟨_, rfl⟩

theorem rmqueueRound_missed (stable : Stable P) (inv : ZoneInv P s) (type : TypeFor o migratetype)
    (missed : rmqueueRound s o gfpFlags migratetype = (none, s')) : s'.supply = s.supply := by
  unfold rmqueueRound at missed
  unfold TypeFor at type
  split_ifs at type missed with single
  · unfold pcpRmqueue at missed
    dsimp only at missed
    split at missed
    · obtain rfl := (Prod.mk.inj missed).2
      split
      · exact (rmqueueBulk_restocks stable inv type _ _).supply
      · rfl
    · cases missed
  · unfold zoneRmqueue at missed
    dsimp only at missed
    rcases rmqueue_takes o inv.buddy (type.trans_le (by decide)) with none | ⟨q, some, -⟩
    · rw [none] at missed
      obtain rfl := (Prod.mk.inj missed).2
      rfl
    · rw [some] at missed
      cases missed

/-- The pages that are available after a call. -/
def AvailAfter (s s' : State) (o : Nat) (found : Option Nat) : Prop :=
  ∀ x, s'.Avail x ↔ s.Avail x ∧ ∀ page ∈ found, head o x ≠ page

theorem bufferedRmqueue_exact (inv : ZoneInv Pristine s) (noZero : gfpFlags &&& gfpZero = 0)
    (type : TypeFor o migratetype) :
    ∃ r, (∀ fuel, bufferedRmqueue s o gfpFlags migratetype (fuel + 1) = some r) ∧
      r.1 = (rmqueueRound s o gfpFlags migratetype).1 ∧ AvailAfter s r.2 o r.1 := by
  rcases rmqueueRound_takes pristine_stable inv type gfpFlags with
    ⟨missed, settled⟩ | ⟨q, found, taken⟩
  · have supply := rmqueueRound_missed pristine_stable inv type (Prod.ext missed rfl)
    refine ⟨(none, (rmqueueRound s o gfpFlags migratetype).2), fun fuel => ?_, missed.symm,
      fun x => ?_⟩
    · rw [bufferedRmqueue, missed]
    · rw [avail_of_supply inv.toPcpInv settled.inv.toPcpInv
        (fun y avail => (settled.keeps.avail y avail).resolve_right id) supply]
      simp
  · obtain ⟨s'', accepts⟩ := taken.accepted gfpFlags
    have touches := (prepNewPage_writes noZero taken.block.lent.aligned accepts).touches
      taken.inv.toPcpInv taken.block
    refine ⟨(some q, s''), fun fuel => ?_, found.symm, fun x => ?_⟩
    · rw [bufferedRmqueue, found]
      dsimp only
      rw [accepts]
    · rw [touches.avail, taken.avail inv]
      simp

theorem NodeInv.avail_view (inv : NodeInv P n) {k x : Nat} (small : k < maxNrZones) :
    (n.view k).Avail x ↔ n.Avail x ∧ n.Spanned k x := by
  constructor
  · exact fun avail => ⟨⟨k, small, avail⟩, (inv.zone k small).toPcpInv.avail_spanned avail⟩
  · rintro ⟨⟨j, hj, avail⟩, spanned⟩
    obtain rfl : j = k := (inv.avail_zonenum hj avail).symm.trans (inv.zonenum small spanned)
    exact avail

theorem NodeInv.avail_put_exact (inv : NodeInv P n) {k : Nat} (small : k < maxNrZones) {s : State}
    (settled : Settled P (n.view k) s fun _ => False) {found : Option Nat}
    (after : AvailAfter (n.view k) s o found)
    (own : ∀ page ∈ found, ∀ x, head o x = page → n.Spanned k x) (x : Nat) :
    (n.put k s).Avail x ↔ n.Avail x ∧ ∀ page ∈ found, head o x ≠ page := by
  have shrunk := inv.shrunk_put small settled
  constructor
  · rintro avail
    refine ⟨shrunk.avail x avail, fun page hit inside => ?_⟩
    have spanned := (shrunk.span k x).mpr (own page hit x inside)
    have here := (shrunk.inv.avail_view small).mpr ⟨avail, spanned⟩
    rw [n.view_put, after x] at here
    exact here.2 page hit inside
  · rintro ⟨⟨j, hj, avail⟩, off⟩
    by_cases eq : j = k
    · subst eq
      exact ⟨j, hj, by rw [n.view_put]; exact (after x).mpr ⟨avail, off⟩⟩
    · exact ⟨j, hj, ((inv.touches_put small settled (fun _ no => no.elim) hj eq).avail x).mpr avail⟩

theorem NodeInv.rmqueueFrom_exact (inv : NodeInv Pristine n) {k : Nat} (small : k < maxNrZones)
    (noZero : gfpFlags &&& gfpZero = 0) (type : TypeFor o migratetype) :
    ∃ r, (∀ fuel, n.rmqueueFrom k o gfpFlags migratetype (fuel + 1) = some r) ∧
      r.1 = (rmqueueRound (n.view k) o gfpFlags migratetype).1 ∧
      ∀ x, r.2.Avail x ↔ n.Avail x ∧ ∀ page ∈ r.1, head o x ≠ page := by
  have zone := inv.zone k small
  obtain ⟨⟨found, s⟩, returns, hit, after⟩ := bufferedRmqueue_exact zone noZero type
  refine ⟨(found, n.put k s), fun fuel => ?_, hit, inv.avail_put_exact small
    (bufferedRmqueue_inv pristine_stable noZero type zone (returns 0)) after ?_⟩
  · rw [Node.rmqueueFrom, returns]
    rfl
  · rintro page member x inside
    obtain rfl : found = some page := member
    exact zone.toPcpInv.avail_spanned
      (bufferedRmqueue_takes pristine_stable noZero type zone (returns 0) x inside).1

theorem NodeInv.rmqueueFrom_avail (inv : NodeInv Pristine n) {k : Nat} (small : k < maxNrZones)
    (noZero : gfpFlags &&& gfpZero = 0) (type : TypeFor o migratetype) {fuel : Nat}
    {r : Option Nat × Node} (returns : n.rmqueueFrom k o gfpFlags migratetype fuel = some r) (x : Nat) :
    r.2.Avail x ↔ n.Avail x ∧ ∀ page ∈ r.1, head o x ≠ page := by
  cases fuel with
  | zero => cases returns
  | succ fuel =>
    obtain ⟨r', returns', -, avail⟩ := inv.rmqueueFrom_exact small noZero type
    obtain rfl := Option.some.inj ((returns' fuel).symm.trans returns)
    exact avail x

theorem NodeInv.getPageFromFreelist_avail (inv : NodeInv Pristine n) {d : Pgdat}
    (noZero : gfpFlags &&& gfpZero = 0) (type : TypeFor o migratetype) {classzoneIdx fuel : Nat}
    {allocFlags : BitVec 32} {zones : List Nat} (small : ∀ k ∈ zones, k < maxNrZones)
    {r : Option Nat × Node}
    (returns : n.getPageFromFreelist d gfpFlags o classzoneIdx allocFlags migratetype fuel zones =
      some r) (x : Nat) :
    r.2.Avail x ↔ n.Avail x ∧ ∀ page ∈ r.1, head o x ≠ page := by
  induction zones generalizing n with
  | nil =>
    cases returns
    simp
  | cons k zones ih =>
    have here := small k List.mem_cons_self
    have rest := fun k hk => small k (List.mem_cons_of_mem _ hk)
    rw [Node.getPageFromFreelist, Option.bind_eq_some_iff] at returns
    obtain ⟨ok, -, returns⟩ := returns
    split at returns
    · rw [Option.bind_eq_some_iff] at returns
      obtain ⟨⟨found, n₁⟩, tried, returns⟩ := returns
      have avail := inv.rmqueueFrom_avail here noZero type tried x
      cases found with
      | some page =>
        cases returns
        exact avail
      | none =>
        have shrunk := (inv.rmqueueFrom pristine_stable here noZero type tried).1
        rw [ih shrunk.inv rest returns, avail]
        simp
    · exact ih inv rest returns

theorem NodeInv.allocPages_avail (inv : NodeInv Pristine n) {d : Pgdat} (built : d.Built)
    {gfpAllowedMask gfpMask : BitVec 32} (noZero : NoZero gfpMask) (one : OneMobility gfpMask)
    {fuel : Nat} {r : Option Nat × Node}
    (returns : n.allocPages d gfpAllowedMask gfpMask o fuel = some r) (x : Nat) :
    r.2.Avail x ↔ n.Avail x ∧ ∀ page ∈ r.1, head o x ≠ page := by
  rw [Node.allocPages_eq built] at returns
  cases zones : (d.zonesFor gfpMask).head? with
  | none =>
    rw [zones] at returns
    cases returns
    simp
  | some preferredZone =>
    rw [zones] at returns
    exact inv.getPageFromFreelist_avail (noZero_masked noZero gfpAllowedMask)
      (typeFor_of_lt (allocflagsToMigratetype_lt one _))
      (fun k member => (Pgdat.mem_zonesFor.mp member).1) returns x

variable {d : Pgdat} {h h' : Holders}

/-- Boot memory that is handed over page by page, or without references. -/
def pristineRules : Rules :=
  ⟨fun gfpFlags => gfpFlags &&& gfpZero = 0, fun _ page => page.count = 0, BootOrder⟩

theorem pristineRules_keep : pristineRules.Keep Pristine where
  stable := pristine_stable
  noZero := id
  freed := fun prepared count ok => ⟨prepared.clean, count.trans ok⟩
  boot := fun prepared count => ⟨prepared.clean, count⟩

theorem HolderInv.all_step (built : d.Built) (inv : HolderInv Pristine h) (step : HolderStep d h h') :
    h'.pool.all blockPages = h.pool.all blockPages := by
  cases step with
  | @alloc n _ _ order _ page noZero one returns =>
    obtain ⟨-, served⟩ := inv.node.allocPages pristine_stable built noZero one returns
    obtain ⟨k, -, served⟩ := served _ rfl
    have avail := inv.node.allocPages_avail built noZero one returns
    have lent : Holders.pool ⟨n, insert (order, page) h.held⟩ =
        h.pool.lend blockPages (order, page) := by
      refine Pool.ext (Set.ext fun x => ?_) rfl
      simpa [Holders.pool, Pool.lend, blockPages] using avail x
    have there : blockPages (order, page) ⊆ h.pool.free := served.took
    rw [lent, Pool.all_lend there]
  | @fail n _ _ _ _ noZero one returns =>
    have avail := inv.node.allocPages_avail built noZero one returns
    have same : Holders.pool ⟨n, h.held⟩ = h.pool := by
      refine Pool.ext (Set.ext fun x => ?_) rfl
      simpa [Holders.pool] using avail x
    rw [same]
  | @free n order page held last tails acceptable returns =>
    obtain ⟨k, small, block⟩ := inv.held _ held
    obtain ⟨n', returns', given⟩ := inv.node.freePages pristine_stable small block last
      (admitsLast (fun _ _ prepared count => ⟨prepared.clean, count⟩) tails) acceptable
    obtain rfl := Option.some.inj (returns'.symm.trans returns)
    have back : Holders.pool ⟨n', h.held \ {(order, page)}⟩ =
        h.pool.giveBack blockPages (order, page) := Pool.ext (Set.ext given.avail) rfl
    rw [back, Pool.all_giveBack held]
  | @use n zones pageset own zonenum unmarked =>
    have touches := fun k small => inv.touches zones pageset own zonenum unmarked (k := k) small
    have same : Holders.pool ⟨n, h.held⟩ = h.pool := by
      refine Pool.ext (Set.ext fun x => ?_) rfl
      exact exists_congr fun k => and_congr_right fun small => (touches k small).avail x
    rw [same]

/-- What a run from pristine pages keeps. -/
structure Conserved (start : Node) (h : Holders) : Prop where
  inv : HolderInv Pristine h
  span : ∀ k x, h.node.Spanned k x ↔ start.Spanned k x
  all : h.pool.all blockPages = {x | start.Avail x}

theorem HolderStep.span (built : d.Built) (inv : HolderInv Pristine h) (step : HolderStep d h h')
    (k x : Nat) : h'.node.Spanned k x ↔ h.node.Spanned k x := by
  cases step with
  | alloc noZero one returns =>
    exact (inv.node.allocPages pristine_stable built noZero one returns).1.span k x
  | fail noZero one returns =>
    exact (inv.node.allocPages pristine_stable built noZero one returns).1.span k x
  | free held last tails acceptable returns =>
    obtain ⟨j, small, block⟩ := inv.held _ held
    obtain ⟨n', returns', given⟩ := inv.node.freePages pristine_stable small block last
      (admitsLast (fun _ _ prepared count => ⟨prepared.clean, count⟩) tails) acceptable
    obtain rfl := Option.some.inj (returns'.symm.trans returns)
    exact given.span k x
  | use zones pageset own zonenum unmarked =>
    rw [Node.Spanned, Node.Spanned, Node.view, Node.view, State.Spanned, State.Spanned, zones]

theorem Conserved.step {start : Node} (built : d.Built) (kept : Conserved start h)
    (step : HolderStep d h h') : Conserved start h' where
  inv := (kept.inv.step pristine_stable built
    (fun _ _ prepared count => ⟨prepared.clean, count⟩) step).1
  span := fun k x => (step.span built kept.inv k x).trans (kept.span k x)
  all := (kept.inv.all_step built step).trans kept.all

theorem conserved_of_run (built : d.Built) {n₀ : Node} (fresh : FreshNode n₀)
    (boot : Relation.ReflTransGen (NodeStep pristineRules) n₀ n)
    (run : Relation.ReflTransGen (HolderStep d) ⟨n, ∅⟩ h) : Conserved n h := by
  have inv := nodeInv_of_run pristineRules_keep (fun _ => id) (fresh.inv Pristine) boot
  refine invariant_of_run (Conserved n) (fun _ _ kept step => kept.step built step) ?_ run
  exact ⟨.start inv, fun _ _ => .rfl, by simp [Pool.all, Holders.pool]⟩

theorem NodeInv.covered (inv : NodeInv P n) (k x : Nat) :
    Covered (n.view k).Free x ↔ (n.view k).Avail x := by
  rw [State.Avail, (inv.boot k).pages]
  simp [Covered]

theorem Conserved.avail {start : Node} (kept : Conserved start h) (x : Nat) :
    start.Avail x ↔ h.node.Avail x ∨ h.Holds x := by
  have all := Set.ext_iff.mp kept.all x
  rw [Pool.mem_all] at all
  exact all.symm

theorem Conserved.sameFree {start : Node} (kept : Conserved start h) (kept' : Conserved start h')
    (held : ∀ x, h'.Holds x ↔ h.Holds x) {k : Nat} (small : k < maxNrZones) :
    SameFree (h.node.view k) (h'.node.view k) := by
  have avail : ∀ {h : Holders}, Conserved start h → ∀ x, h.node.Avail x ↔ start.Avail x ∧ ¬ h.Holds x := by
    intro h kept x
    have off : h.node.Avail x → ¬ h.Holds x := fun avail ⟨b, held, inside⟩ =>
      kept.inv.not_avail held inside avail
    rw [kept.avail]
    tauto
  refine (kept.inv.node.zone k small).buddy.sameFree (kept'.inv.node.zone k small).buddy fun x => ?_
  rw [kept.inv.node.covered, kept'.inv.node.covered, kept.inv.node.avail_view small,
    kept'.inv.node.avail_view small, kept.span, kept'.span, avail kept, avail kept', held]

/-- From pages without references no page is lost in any run without zeroed
allocations, and the free blocks
and the counters of every zone depend only on the pages that are held. -/
theorem page_holders_conserve (built : d.Built) {n₀ : Node} (fresh : FreshNode n₀)
    (boot : Relation.ReflTransGen (NodeStep pristineRules) n₀ n)
    (run : Relation.ReflTransGen (HolderStep d) ⟨n, ∅⟩ h) :
    (∀ x, n.Avail x ↔ h.node.Avail x ∨ h.Holds x) ∧
      ∀ h', Relation.ReflTransGen (HolderStep d) ⟨n, ∅⟩ h' → (∀ x, h'.Holds x ↔ h.Holds x) →
        ∀ k < maxNrZones, SameFree (h.node.view k) (h'.node.view k) ∧
          (h'.node.zones k).vmStat .nrFreePages = (h.node.zones k).vmStat .nrFreePages := by
  have kept := conserved_of_run built fresh boot run
  refine ⟨kept.avail, fun h' run' held k small => ?_⟩
  have kept' := conserved_of_run built fresh boot run'
  have same := kept.sameFree kept' held small
  have pages : ((h'.node.view k).zone).pagesBelow maxOrder = ((h.node.view k).zone).pagesBelow maxOrder := by
    simp only [Zone.pagesBelow, same.nrFree]
  refine ⟨same, ?_⟩
  have stat := (kept.inv.node.zone k small).stat
  have stat' := (kept'.inv.node.zone k small).stat
  rw [pages] at stat'
  exact stat'.trans stat.symm

/-- A page that comes back leaves no trace in the free blocks. -/
theorem page_holders_conserve_forty : ∃ n m n', twoZones.freePagesBootmem 40 0 = some n ∧
    n.allocPages twoZonesPgdat 0 0 0 1 = some (some 40, m) ∧ m.freePages 40 0 = some n' ∧
    SameFree (n.view 1) (n'.view 1) := by
  obtain ⟨r, n', both, page, count, acceptable, freed⟩ : ∃ r n', bootForty = some r ∧ r.1 = some 40 ∧
      (r.2.memMap 40).count = 1 ∧ Acceptable (r.2.memMap 40) ∧ r.2.freePages 40 0 = some n' := by
    refine ⟨_, _, Option.eq_some_of_isSome (by decide +kernel), by decide +kernel, by decide +kernel,
      ⟨by decide +kernel, by decide +kernel, by decide +kernel⟩,
      Option.eq_some_of_isSome (by decide +kernel)⟩
  obtain ⟨n, boot, taken⟩ := Option.bind_eq_some_iff.mp both
  obtain ⟨found, m⟩ := r
  obtain rfl : found = some 40 := page
  have noZero : NoZero 0 := by simp [NoZero]
  have one : OneMobility 0 := .inl (by simp)
  have only : ∀ x, head 0 x = 40 → x = 40 := fun x inside => by simpa [head] using inside
  have first : HolderStep twoZonesPgdat ⟨n, ∅⟩ ⟨m, insert (0, 40) ∅⟩ := .alloc noZero one taken
  have second : HolderStep twoZonesPgdat ⟨m, insert (0, 40) ∅⟩
      ⟨n', insert (0, 40) ∅ \ {(0, 40)}⟩ :=
    .free (Set.mem_insert _ _) count (fun x inside ne => absurd (only x inside) ne)
      (fun x inside => only x inside ▸ acceptable) freed
  have none : ∀ x, (Holders.mk n' (insert (0, 40) ∅ \ {(0, 40)})).Holds x ↔
      (Holders.mk n ∅).Holds x := fun x => by simp [Holders.Holds]
  exact ⟨n, m, n', boot, taken, freed, ((page_holders_conserve twoZonesPgdat_built twoZones_fresh
    (.single (twoZones_boot (Or.inl rfl) boot)) .refl).2 _ (.tail (.single first) second) none 1
      (by decide)).1⟩

end XcKernel.PageAlloc
