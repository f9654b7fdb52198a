import XcKernel.PageAlloc.Shared
import XcKernel.PageAlloc.Watermark
import XcKernel.PageAlloc.Zeroing
import XcKernel.PageAlloc.Zonelist

/-!
# Allocating pages from a node

`__alloc_pages_nodemask` and `get_page_from_freelist` with what they call, and
the functions that free by page or by address.  An allocation tries the zones
that its flags allow, from the highest down, and takes the first that is above
its watermark and has a block.

`NUMA_BUILD` and `zone_reclaim_mode` are 0 and `cpuset_zone_allowed_softwall` is
1.  The slow path is not compiled, so that the first attempt is the only one.
-/

namespace XcKernel.PageAlloc

open Blocks Word

def zonesShift : Nat := 2

/-- `__GFP_MOVABLE` -/
def gfpMovable : BitVec 32 := 0x08

/-- `__GFP_HARDWALL` -/
def gfpHardwall : BitVec 32 := 0x20000

/-- `__GFP_RECLAIMABLE` -/
def gfpReclaimable : BitVec 32 := 0x80000

/-- `GFP_ZONEMASK` -/
def gfpZonemask : BitVec 32 := 0x0f

/-- `GFP_ZONE_TABLE`, with `ZONE_DMA` 0, `ZONE_NORMAL` 1 and `ZONE_MOVABLE` 2 -/
def gfpZoneTable : Nat :=
  1 <<< (0 * zonesShift) ||| 0 <<< (0x01 * zonesShift) ||| 1 <<< (0x02 * zonesShift) |||
  1 <<< (0x04 * zonesShift) ||| 1 <<< (0x08 * zonesShift) |||
  0 <<< ((0x08 ||| 0x01) * zonesShift) ||| 2 <<< ((0x08 ||| 0x02) * zonesShift) |||
  1 <<< ((0x08 ||| 0x04) * zonesShift)

def gfpZone (flags : BitVec 32) : Nat :=
  let bit := (flags &&& gfpZonemask).toNat
  gfpZoneTable >>> (bit * zonesShift) &&& (1 <<< zonesShift - 1)

def allocflagsToMigratetype (pageGroupByMobilityDisabled : Bool) (gfpFlags : BitVec 32) : Nat :=
  if pageGroupByMobilityDisabled then migrateUnmovable
  else (gfpFlags &&& gfpMovable != 0).toNat <<< 1 ||| (gfpFlags &&& gfpReclaimable != 0).toNat

/-- `ALLOC_WMARK_LOW` -/
def allocWmarkLow : BitVec 32 := 1

/-- `ALLOC_NO_WATERMARKS` -/
def allocNoWatermarks : BitVec 32 := 0x04

/-- `ALLOC_WMARK_MASK` -/
def allocWmarkMask : BitVec 32 := allocNoWatermarks - 1

/-- `ALLOC_CPUSET` -/
def allocCpuset : BitVec 32 := 0x40

/-- What an allocation reads of `pg_data_t` beside the zones of a `Node`. -/
structure Pgdat where
  presentPages : Nat → Nat
  watermark : Nat → Nat → Nat
  zonelist : Zonelist

/-- `buffered_rmqueue` on a zone of the node -/
def Node.rmqueueFrom (n : Node) (k order : Nat) (gfpFlags : BitVec 32) (migratetype fuel : Nat) :
    Option (Option Nat × Node) :=
  (PageAlloc.bufferedRmqueue (n.view k) order gfpFlags migratetype fuel).map fun r =>
    (r.1, n.put k r.2)

/-- The test that `get_page_from_freelist` makes of one zone. -/
def Node.zoneAllowed (d : Pgdat) (n : Node) (k order classzoneIdx : Nat) (allocFlags : BitVec 32) :
    Option Bool :=
  if allocFlags &&& allocNoWatermarks ≠ 0 then some true
  else
    zoneWatermarkOk (n.zones k) order (d.watermark k (allocFlags &&& allocWmarkMask).toNat)
      classzoneIdx allocFlags

/-- The loop of `get_page_from_freelist` over the zones that are left. -/
def Node.getPageFromFreelist (d : Pgdat) (gfpMask : BitVec 32) (order classzoneIdx : Nat)
    (allocFlags : BitVec 32) (migratetype fuel : Nat) :
    (zones : List Nat) → Node → Option (Option Nat × Node)
  | [], n => some (none, n)
  | k :: zones, n =>
    (n.zoneAllowed d k order classzoneIdx allocFlags).bind fun ok =>
      if ok then
        (n.rmqueueFrom k order gfpMask migratetype fuel).bind fun r =>
          match r.1 with
          | some page => some (some page, r.2)
          | none =>
            getPageFromFreelist d gfpMask order classzoneIdx allocFlags migratetype fuel zones r.2
      else getPageFromFreelist d gfpMask order classzoneIdx allocFlags migratetype fuel zones n

/-- `__alloc_pages_nodemask`, which is `alloc_pages` on the only node.  `none` is a
call that does not return in `fuel` rounds or reads outside a table. -/
def Node.allocPages (d : Pgdat) (gfpAllowedMask gfpMask : BitVec 32) (order fuel : Nat) (n : Node) :
    Option (Option Nat × Node) :=
  let highZoneidx := gfpZone gfpMask
  let migratetype := allocflagsToMigratetype n.pageGroupByMobilityDisabled gfpMask
  let gfpMask := gfpMask &&& gfpAllowedMask
  d.zonelist.zonerefs.head?.bind fun first =>
    if first.zone = none then some (none, n)
    else
      (nextZonesZonelist d.zonelist.zonerefs highZoneidx).head?.bind fun z =>
        match z.zone with
        | none => some (none, n)
        | some preferredZone =>
          (forEachZoneZonelist highZoneidx d.zonelist.zonerefs).bind fun zones =>
            getPageFromFreelist d (gfpMask ||| gfpHardwall) order preferredZone
              (allocWmarkLow ||| allocCpuset) migratetype fuel zones n

/-- `__free_pages` in the zone of the page -/
def Node.freePages (n : Node) (page order : Nat) : Option Node :=
  let k := (n.memMap page).zonenum
  (PageAlloc.freePages (n.view k) page order).map (n.put k)

/-- The flags do not ask for both kinds of mobility at once. -/
def OneMobility (gfpMask : BitVec 32) : Prop :=
  gfpMask &&& gfpMovable = 0 ∨ gfpMask &&& gfpReclaimable = 0

theorem allocflagsToMigratetype_lt {gfpMask : BitVec 32} (one : OneMobility gfpMask)
    (disabled : Bool) : allocflagsToMigratetype disabled gfpMask < migratePcptypes := by
  rw [allocflagsToMigratetype]
  split
  · decide
  · rcases one with movable | reclaimable
    · rw [movable]
      cases gfpMask &&& gfpReclaimable != 0 <;> decide
    · rw [reclaimable]
      cases gfpMask &&& gfpMovable != 0 <;> decide

theorem typeFor_of_lt {order migratetype : Nat} (type : migratetype < migratePcptypes) :
    TypeFor order migratetype := by
  rw [TypeFor]
  split
  · exact type
  · exact type.trans (by decide)

variable {P : Nat → Page → Prop} {n n' : Node} {order page : Nat} {gfpFlags : BitVec 32}

/-- No page has become available, and only available pages have changed. -/
structure Shrunk (P : Nat → Page → Prop) (n n' : Node) : Prop where
  inv : NodeInv P n'
  span : ∀ k x, n'.Spanned k x ↔ n.Spanned k x
  avail : ∀ x, n'.Avail x → n.Avail x
  outside : ∀ x, ¬ n.Avail x → n'.memMap x = n.memMap x

/-- A block of available pages of one zone has been handed out. -/
structure Served (P : Nat → Page → Prop) (n n' : Node) (order page k : Nat) : Prop
    extends Shrunk P n n' where
  small : k < maxNrZones
  block : Freeable (n'.view k) order page
  took : ∀ x, head order x = page → n.Avail x

theorem Shrunk.refl (inv : NodeInv P n) : Shrunk P n n :=
  ⟨inv, fun _ _ => .rfl, fun _ => id, fun _ _ => rfl⟩

theorem Shrunk.trans {n'' : Node} (first : Shrunk P n n') (second : Shrunk P n' n'') :
    Shrunk P n n'' := by
  refine ⟨second.inv, fun k x => (second.span k x).trans (first.span k x),
    fun x avail => first.avail x (second.avail x avail), fun x off => ?_⟩
  rw [second.outside x fun avail => off (first.avail x avail), first.outside x off]

theorem Shrunk.served {n'' : Node} {k : Nat} (first : Shrunk P n n')
    (second : Served P n' n'' order page k) : Served P n n'' order page k :=
  ⟨first.trans second.toShrunk, second.small, second.block,
    fun x inside => first.avail x (second.took x inside)⟩

theorem NodeInv.shrunk_put (inv : NodeInv P n) {k : Nat} (small : k < maxNrZones) {s : State}
    (settled : Settled P (n.view k) s fun _ => False) : Shrunk P n (n.put k s) := by
  have within : ∀ x, False → n.Spanned k x := fun _ no => no.elim
  refine ⟨inv.put small settled within, Node.spanned_put settled.keeps.span, ?_, fun x off => ?_⟩
  · rintro x ⟨j, hj, avail⟩
    by_cases eq : j = k
    · subst eq
      rw [n.view_put] at avail
      exact ⟨j, hj, (settled.keeps.avail x avail).resolve_right id⟩
    · exact ⟨j, hj, ((inv.touches_put small settled within hj eq).avail x).mp avail⟩
  · exact settled.keeps.outside x (fun avail => off ⟨k, small, avail⟩) id

/-- The block that `buffered_rmqueue` hands out can be freed again. -/
theorem bufferedRmqueue_freeable {s s' : State} (stable : Stable P) {migratetype : Nat}
    (noZero : gfpFlags &&& gfpZero = 0) (type : TypeFor order migratetype) (inv : ZoneInv P s)
    {fuel : Nat}
    (returns : bufferedRmqueue s order gfpFlags migratetype fuel = some (some page, s')) :
    Freeable s' order page := by
  induction fuel generalizing s with
  | zero => cases returns
  | succ fuel ih =>
    rw [bufferedRmqueue] at returns
    rcases rmqueueRound_takes stable inv type gfpFlags with ⟨none, -⟩ | ⟨q, some, taken⟩
    · rw [none] at returns
      cases returns
    · rw [some] at returns
      dsimp only at returns
      split at returns
      · exact ih taken.inv returns
      · rename_i s'' accepts
        cases returns
        exact taken.block.keep ((prepNewPage_writes noZero taken.block.lent.aligned accepts).touches
          taken.inv.toPcpInv taken.block)

theorem NodeInv.rmqueueFrom (stable : Stable P) (inv : NodeInv P n) {k : Nat} (small : k < maxNrZones)
    (noZero : gfpFlags &&& gfpZero = 0) {migratetype : Nat} (type : TypeFor order migratetype)
    {fuel : Nat} {r : Option Nat × Node}
    (returns : n.rmqueueFrom k order gfpFlags migratetype fuel = some r) :
    Shrunk P n r.2 ∧ ∀ page, r.1 = some page → Served P n r.2 order page k := by
  rw [Node.rmqueueFrom, Option.map_eq_some_iff] at returns
  obtain ⟨⟨found, s⟩, returns, rfl⟩ := returns
  have zone := inv.zone k small
  have shrunk := inv.shrunk_put small (bufferedRmqueue_inv stable noZero type zone returns)
  refine ⟨shrunk, fun page eq => ?_⟩
  obtain rfl : found = some page := eq
  refine ⟨shrunk, small, ?_, fun x inside => ⟨k, small, ?_⟩⟩
  · rw [n.view_put]
    exact bufferedRmqueue_freeable stable noZero type zone returns
  · exact (bufferedRmqueue_takes stable noZero type zone returns x inside).1

/-- What is left to try after the first zones. -/
theorem NodeInv.getPageFromFreelist (stable : Stable P) (inv : NodeInv P n) {d : Pgdat}
    (noZero : gfpFlags &&& gfpZero = 0) {migratetype : Nat} (type : TypeFor order migratetype)
    {classzoneIdx fuel : Nat} {allocFlags : BitVec 32} {zones : List Nat}
    (small : ∀ k ∈ zones, k < maxNrZones) {r : Option Nat × Node}
    (returns : n.getPageFromFreelist d gfpFlags order classzoneIdx allocFlags migratetype fuel zones =
      some r) :
    Shrunk P n r.2 ∧ ∀ page, r.1 = some page → ∃ k ∈ zones, Served P n r.2 order page k := by
  induction zones generalizing n with
  | nil =>
    cases returns
    exact ⟨.refl inv, fun page no => by cases no⟩
  | cons k zones ih =>
    have rest := fun k hk => small k (List.mem_cons_of_mem _ hk)
    rw [Node.getPageFromFreelist, Option.bind_eq_some_iff] at returns
    obtain ⟨ok, -, returns⟩ := returns
    split at returns
    · rw [Option.bind_eq_some_iff] at returns
      obtain ⟨⟨found, n₁⟩, tried, returns⟩ := returns
      obtain ⟨shrunk, served⟩ := inv.rmqueueFrom stable (small k List.mem_cons_self) noZero type tried
      cases found with
      | some page =>
        cases returns
        refine ⟨shrunk, fun page' eq => ?_⟩
        exact ⟨k, List.mem_cons_self, served page' eq⟩
      | none =>
        obtain ⟨later, found⟩ := ih shrunk.inv rest returns
        refine ⟨shrunk.trans later, fun page eq => ?_⟩
        obtain ⟨j, hj, served⟩ := found page eq
        exact ⟨j, List.mem_cons_of_mem _ hj, shrunk.served served⟩
    · obtain ⟨later, found⟩ := ih inv rest returns
      refine ⟨later, fun page eq => ?_⟩
      obtain ⟨j, hj, served⟩ := found page eq
      exact ⟨j, List.mem_cons_of_mem _ hj, served⟩

/-- The zonelist is the one that `build_zonelists` makes for the populated zones. -/
def Pgdat.Built (d : Pgdat) : Prop :=
  ∃ old, d.zonelist = buildZonelists d.presentPages old

/-- The zones that an allocation may use, in the order in which it tries them. -/
def Pgdat.zonesFor (d : Pgdat) (gfpMask : BitVec 32) : List Nat :=
  (List.range maxNrZones).reverse.filter fun k => d.presentPages k ≠ 0 ∧ k ≤ gfpZone gfpMask

theorem Pgdat.mem_zonesFor {d : Pgdat} {gfpMask : BitVec 32} {k : Nat} :
    k ∈ d.zonesFor gfpMask ↔ k < maxNrZones ∧ d.presentPages k ≠ 0 ∧ k ≤ gfpZone gfpMask := by
  simp [zonesFor]

theorem Pgdat.zonesFor_sorted (d : Pgdat) (gfpMask : BitVec 32) :
    (d.zonesFor gfpMask).Pairwise (· > ·) :=
  List.Pairwise.filter _ (List.pairwise_reverse.mpr List.pairwise_lt_range)

theorem nextZonesZonelist_head {highidx : Nat} {z : List Zoneref} {zones : List Nat}
    (visits : forEachZoneZonelist highidx z = some zones) :
    ∃ r rest, nextZonesZonelist z highidx = r :: rest ∧ r.zone = zones.head? := by
  rw [forEachZoneZonelist] at visits
  split at visits
  · cases visits
  · rename_i r rest next
    refine ⟨r, rest, next, ?_⟩
    split at visits
    · rename_i none
      cases visits
      exact none
    · rename_i zone some
      rw [Option.map_eq_some_iff] at visits
      obtain ⟨others, -, rfl⟩ := visits
      exact some

/-- With the zonelist as it is built, the call goes through the allowed zones. -/
theorem Node.allocPages_eq {d : Pgdat} (built : d.Built) (gfpAllowedMask gfpMask : BitVec 32)
    (order fuel : Nat) (n : Node) :
    n.allocPages d gfpAllowedMask gfpMask order fuel =
      ((d.zonesFor gfpMask).head?.elim (some (none, n)) fun preferredZone =>
        n.getPageFromFreelist d (gfpMask &&& gfpAllowedMask ||| gfpHardwall) order preferredZone
          (allocWmarkLow ||| allocCpuset)
          (allocflagsToMigratetype n.pageGroupByMobilityDisabled gfpMask) fuel (d.zonesFor gfpMask)) := by
  obtain ⟨old, table⟩ := built
  have visits : forEachZoneZonelist (gfpZone gfpMask) d.zonelist.zonerefs =
      some (d.zonesFor gfpMask) := by
    rw [table]
    exact forEachZoneZonelist_buildZonelists _ _ _
  obtain ⟨r, rest, next, zone⟩ := nextZonesZonelist_head visits
  obtain ⟨tail, entries⟩ := buildZonelists_eq d.presentPages old
  rw [← table] at entries
  rw [allocPages, next, visits]
  dsimp only [List.head?_cons, Option.bind_some]
  cases populated : populatedZones d.presentPages (maxNrZones - 1) with
  | nil =>
    have none : d.zonesFor gfpMask = [] := by
      rw [List.eq_nil_iff_forall_not_mem]
      intro k member
      have zone := Pgdat.mem_zonesFor.mp member
      have absent := (List.filter_eq_nil_iff.mp populated) k (by simpa [maxNrZones] using zone.1)
      exact absent (by simpa using zone.2.1)
    rw [entries, populated, none]
    rfl
  | cons first others =>
    rw [entries, populated, List.map_cons, List.cons_append, List.head?_cons, Option.bind_some,
      if_neg (by simp [Zoneref.ofZone]), zone]
    cases (d.zonesFor gfpMask).head? <;> rfl

theorem noZero_masked {gfpMask : BitVec 32} (noZero : NoZero gfpMask) (gfpAllowedMask : BitVec 32) :
    (gfpMask &&& gfpAllowedMask ||| gfpHardwall) &&& gfpZero = 0 := by
  have hardwall : gfpHardwall &&& gfpZero = 0 := by decide
  have masked : gfpMask &&& gfpAllowedMask &&& gfpZero = 0 := by
    rw [BitVec.and_assoc, BitVec.and_comm gfpAllowedMask, ← BitVec.and_assoc, noZero]
    exact BitVec.zero_and
  rw [← Flags.set, Flags.and_set, masked, hardwall]
  rfl

/-- An allocation that returns has taken a block from an allowed zone, or none. -/
theorem NodeInv.allocPages (stable : Stable P) (inv : NodeInv P n) {d : Pgdat} (built : d.Built)
    {gfpAllowedMask gfpMask : BitVec 32} (noZero : NoZero gfpMask) (one : OneMobility gfpMask)
    {fuel : Nat} {r : Option Nat × Node}
    (returns : n.allocPages d gfpAllowedMask gfpMask order fuel = some r) :
    Shrunk P n r.2 ∧
      ∀ page, r.1 = some page → ∃ k ∈ d.zonesFor gfpMask, Served P n r.2 order page k := by
  rw [Node.allocPages_eq built] at returns
  cases zones : (d.zonesFor gfpMask).head? with
  | none =>
    rw [zones] at returns
    cases returns
    exact ⟨.refl inv, fun page no => by cases no⟩
  | some preferredZone =>
    rw [zones] at returns
    exact inv.getPageFromFreelist stable (noZero_masked noZero gfpAllowedMask)
      (typeFor_of_lt (allocflagsToMigratetype_lt one _))
      (fun k member => (Pgdat.mem_zonesFor.mp member).1) returns

/-- `put_page_testzero` -/
def State.dropReference (s : State) (page : Nat) : State :=
  s.modifyPage page fun p => { p with count := p.count - 1 }

/-- The pages of a block meet the predicate once the last reference is dropped
and they have passed the checks. -/
def AdmitsLast (P : Nat → Page → Prop) (memMap : Nat → Page) (order page : Nat) : Prop :=
  ∀ x, head order x = page → ∀ q, Prepared q →
    q.count = (if x = page then 0 else (memMap x).count) → P x q

/-- The block passes the checks of `free_pages_prepare`. -/
def AcceptableBlock (memMap : Nat → Page) (order page : Nat) : Prop :=
  ∀ x, head order x = page → Acceptable (memMap x)

section Last

variable {s : State}

theorem dropReference_of_ne {x : Nat} (ne : x ≠ page) : (s.dropReference page).memMap x = s.memMap x :=
  s.modifyPage_of_ne ne _

theorem dropReference_last (last : (s.memMap page).count = 1) :
    (s.dropReference page).memMap page = { s.memMap page with count := 0 } := by
  rw [State.dropReference, s.modifyPage_self, last]
  rfl

theorem touches_dropReference (inv : PcpInv P s) (off : ¬ s.Avail page) :
    Touches s (s.dropReference page) := by
  refine inv.touches ⟨rfl, rfl, rfl, rfl, rfl, rfl⟩ rfl (fun x avail => ?_) (fun x => ?_) fun x => ?_
  · apply dropReference_of_ne
    rintro rfl
    exact off avail
  · by_cases here : x = page
    · rw [here, State.dropReference, s.modifyPage_self]
      rfl
    · rw [dropReference_of_ne here]
  · by_cases here : x = page
    · rw [here, State.dropReference, s.modifyPage_self]
    · rw [dropReference_of_ne here]

/-- `__free_pages` with the last reference to a block that passes the checks. -/
theorem freePages_released (stable : Stable P) (inv : ZoneInv P s) (block : Freeable s order page)
    (last : (s.memMap page).count = 1) (admits : AdmitsLast P s.memMap order page)
    (acceptable : AcceptableBlock s.memMap order page) :
    ∃ s', freePages s page order = some s' ∧ Settled P s s' (fun x => head order x = page) ∧
      ∀ x, s'.Avail x ↔ s.Avail x ∨ head order x = page := by
  have here : head order page = page := head_of_dvd block.lent.aligned
  have touches := touches_dropReference inv.toPcpInv (block.not_avail here)
  have inv₁ : ZoneInv P (s.dropReference page) := inv.touch touches rfl rfl
  have block₁ := block.keep touches
  have counted : ∀ x, ((s.dropReference page).memMap x).count =
      if x = page then 0 else (s.memMap x).count := by
    intro x
    split_ifs with first
    · rw [first, dropReference_last last]
    · rw [dropReference_of_ne first]
  have admits₁ : Admits P (s.dropReference page) order page := fun x inside q prepared count =>
    admits x inside q prepared (count.trans (counted x))
  have acceptable₁ : AcceptableBlock (s.dropReference page).memMap order page := by
    intro x inside
    have old := acceptable x inside
    by_cases first : x = page
    · rw [first] at old ⊢
      rw [dropReference_last last]
      exact ⟨old.flags, old.mapping, old.mapcount⟩
    · rw [dropReference_of_ne first]
      exact old
  have eq : freePages s page order = if order = 0 then freeHotColdPage (s.dropReference page) page false
      else some (freePagesOk (s.dropReference page) page order) := by
    rw [freePages]
    exact if_pos (by rw [← State.dropReference, dropReference_last last])
  obtain ⟨s', returns, freed⟩ : ∃ s', freePages s page order = some s' ∧
      Freed P (s.dropReference page) s' order page := by
    rw [eq]
    split_ifs with single
    · subst single
      exact freeHotColdPage_freed stable inv₁ block₁ admits₁ false
    · exact ⟨_, rfl, freePagesOk_freed stable inv₁ block₁ admits₁⟩
  have keeps : Keeps s (s.dropReference page) fun x => head order x = page := by
    refine ⟨⟨rfl, rfl, rfl, rfl⟩, touches.zonenum, fun x _ out => dropReference_of_ne ?_,
      fun x avail => .inl ((touches.avail x).mp avail)⟩
    rintro rfl
    exact out here
  refine ⟨s', returns, ⟨freed.inv, keeps.trans freed.keeps, fun boot => freed.boot (boot.congr rfl)⟩,
    fun x => ?_⟩
  rw [(freed.released acceptable₁).avail, touches.avail]

end Last

/-- A block has gone back to its zone. -/
structure Given (P : Nat → Page → Prop) (n n' : Node) (order page : Nat) : Prop where
  inv : NodeInv P n'
  span : ∀ k x, n'.Spanned k x ↔ n.Spanned k x
  outside : ∀ x, ¬ n.Avail x → head order x ≠ page → n'.memMap x = n.memMap x
  avail : ∀ x, n'.Avail x ↔ n.Avail x ∨ head order x = page

theorem NodeInv.freePages (stable : Stable P) (inv : NodeInv P n) {k : Nat} (small : k < maxNrZones)
    (block : Freeable (n.view k) order page) (last : (n.memMap page).count = 1)
    (admits : AdmitsLast P n.memMap order page) (acceptable : AcceptableBlock n.memMap order page) :
    ∃ n', n.freePages page order = some n' ∧ Given P n n' order page := by
  have zone : (n.memMap page).zonenum = k :=
    inv.zonenum small (block.lent.inZone page (head_of_dvd block.lent.aligned))
  have within : ∀ x, head order x = page → n.Spanned k x := block.lent.inZone
  obtain ⟨s, returns, settled, avail⟩ :=
    freePages_released stable (inv.zone k small) block last admits acceptable
  refine ⟨n.put k s, ?_, inv.put small settled within, Node.spanned_put settled.keeps.span,
    fun x off out => ?_, inv.avail_put small settled within avail⟩
  · rw [Node.freePages, zone, returns]
    rfl
  · exact settled.keeps.outside x (fun avail => off ⟨k, small, avail⟩) out

end XcKernel.PageAlloc
