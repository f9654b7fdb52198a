import XcKernel.PageAlloc.Conserved
import XcKernel.PageAlloc.Fallback

/-!
# Which zone serves an allocation

`get_page_from_freelist` goes down the zones and stops at the first that is above
its watermark and has a large enough block on one of its lists.  A zone that is
tried in vain changes nothing that the test of another zone reads, so that the
answer depends only on the node as it was before the call.
-/

namespace XcKernel.PageAlloc

open Blocks

variable {P : Nat → Page → Prop} {s : State} {n : Node} {d : Pgdat} {o migratetype : Nat}
  {gfpFlags : BitVec 32}

theorem pcpRmqueue_boot (inv : ZoneInv P s) (boot : BootPageset s) (type : migratetype < migratePcptypes)
    (cold : Bool) :
    (pcpRmqueue s migratetype cold).1 = none ↔ (rmqueue s 0 migratetype).1 = none := by
  have empty : s.zone.pageset.lists migratetype = [] := by
    have none := boot.pages
    rw [State.pcpPages, List.flatMap_eq_nil_iff] at none
    exact none migratetype (List.mem_range.mpr type)
  have one : s.zone.pageset.batch.toNat = 1 := by rw [boot.batch]; rfl
  have pageset : ∀ r, Takes s 0 r → r.2.zone.pageset.lists migratetype = [] := by
    rintro r (rfl | ⟨q, -, take⟩)
    · exact empty
    · rw [take.frame.pageset]
      exact empty
  have left := pageset _ (rmqueue_takes 0 inv.buddy (type.trans (by decide)))
  unfold pcpRmqueue
  rw [if_pos empty, one]
  unfold rmqueueBulk rmqueueLoop
  cases found : (rmqueue s 0 migratetype).1 with
  | none => cases cold <;> simp [found, left, State.modifyPcpList, State.addPcpCount, State.modZonePageState]
  | some page =>
    cases cold <;>
      simp [found, left, rmqueueLoop, State.modifyPcpList, State.addPcpCount, State.modZonePageState,
        State.modifyPage]

theorem rmqueueRound_finds (inv : ZoneInv P s) (boot : BootPageset s)
    (type : migratetype < migratePcptypes) :
    (rmqueueRound s o gfpFlags migratetype).1 ≠ none ↔ ∃ t ≤ migrateReserve, s.HasBlock o t := by
  have found : (rmqueueRound s o gfpFlags migratetype).1 = none ↔ (rmqueue s o migratetype).1 = none := by
    unfold rmqueueRound
    split_ifs with single
    · subst single
      exact pcpRmqueue_boot inv boot type _
    · unfold zoneRmqueue
      dsimp only
      split
      · rename_i none
        simp [none]
      · rename_i some
        simp [some]
  rw [Ne, found]
  rcases rmqueue_cases (o := o) inv.buddy type with ⟨p, t, some, source⟩ | ⟨none, empty⟩
  · rw [some]
    exact ⟨fun _ => ⟨t, source.type_le, source.offers.hasBlock⟩, fun _ => by simp⟩
  · rw [none]
    refine ⟨fun no => absurd rfl no, ?_⟩
    rintro ⟨t, le, block⟩
    exact (empty t le block).elim

/-- The zone passes the test and has a block, of whatever type. -/
def Node.CanServe (d : Pgdat) (n : Node) (order classzoneIdx : Nat) (allocFlags : BitVec 32) (k : Nat) :
    Prop :=
  n.zoneAllowed d k order classzoneIdx allocFlags = some true ∧
    ∃ t ≤ migrateReserve, (n.view k).HasBlock order t

theorem PcpInv.availPages_subset (inv : PcpInv P s) :
    s.availPages ⊆ Finset.Ico s.zone.zoneStartPfn (s.zone.zoneStartPfn + s.zone.spannedPages) := by
  intro x member
  have spanned := inv.avail_spanned ((inv.mem_availPages x).mp member)
  rw [Finset.mem_Ico]
  exact spanned

theorem ZoneInv.accounted (inv : ZoneInv P s) (span : s.zone.spannedPages < 2 ^ 31) :
    s.zone.Accounted := by
  refine ⟨inv.stat, ?_⟩
  have card := Finset.card_le_card inv.toPcpInv.availPages_subset
  rw [inv.toPcpInv.card_availPages, Nat.card_Ico, State.supply] at card
  omega

/-- The numbers that the test of a zone adds up are far from overflow. -/
structure Pgdat.Moderate (d : Pgdat) (n : Node) : Prop where
  span : ∀ k < maxNrZones, (n.zones k).spannedPages < 2 ^ 31
  mark : ∀ k < maxNrZones,
    d.watermark k ((allocWmarkLow ||| allocCpuset) &&& allocWmarkMask).toNat < 2 ^ 30
  reserve : ∀ k < maxNrZones, ∀ c < maxNrZones, (n.zones k).lowmemReserve c < 2 ^ 30

theorem zoneWatermarkOk_returns {z : Zone} {mark classzoneIdx : Nat} (accounted : z.Accounted)
    (order : o ≤ 20) (hmark : mark < 2 ^ 30) (reserve : z.lowmemReserve classzoneIdx < 2 ^ 30)
    (allocFlags : BitVec 32) : ∃ b, zoneWatermarkOk z o mark classzoneIdx allocFlags = some b := by
  rw [zoneWatermarkOk_eq accounted order hmark reserve]
  dsimp only
  split_ifs with stop
  · exact ⟨false, rfl⟩
  · have power : (2 : Int) ^ o ≤ 2 ^ 20 := pow_le_pow_right₀ (by omega) order
    have one : (1 : Int) ≤ 2 ^ o := one_le_pow₀ (by omega)
    have start : (z.pagesBelow maxOrder : Int) - (2 ^ o + 1) =
        Remaining z (z.pagesBelow maxOrder - (2 ^ o + 1)) 0 := by
      simp [Remaining, Zone.pagesBelow]
    obtain ⟨b, returns, -⟩ := watermarkLoop_spec accounted
      (show (z.pagesBelow maxOrder : Int) - 2 ^ 30 ≤ z.pagesBelow maxOrder - (2 ^ o + 1) by omega)
      (by omega) o 0 (adjustMin_bounds hmark allocFlags).1 (.inr rfl)
    rw [start]
    exact ⟨b, returns⟩

/-- The outcome of trying the zones: the block lies in the highest one that can serve. -/
structure FirstFit (n : Node) (zones : List Nat) (serves : Nat → Prop) (order : Nat)
    (found : Option Nat) : Prop where
  none : found = none → ∀ k ∈ zones, ¬ serves k
  highest : ∀ page ∈ found, ∃ k ∈ zones, serves k ∧ (∀ j ∈ zones, serves j → j ≤ k) ∧
    ∀ x, head order x = page → (n.view k).Avail x

theorem Node.canServe_put {classzoneIdx k j : Nat} {allocFlags : BitVec 32} (ne : j ≠ k) (s : State) :
    (n.put k s).CanServe d o classzoneIdx allocFlags j ↔ n.CanServe d o classzoneIdx allocFlags j := by
  simp [CanServe, zoneAllowed, State.HasBlock, view, put, ne]

section FirstFit

variable {zones : List Nat} {serves : Nat → Prop} {found : Option Nat} {k : Nat}

theorem FirstFit.skip (fit : FirstFit n zones serves o found) (not : ¬ serves k) :
    FirstFit n (k :: zones) serves o found := by
  refine ⟨fun missed j member => ?_, fun page hit => ?_⟩
  · rcases List.mem_cons.mp member with rfl | later
    · exact not
    · exact fit.none missed j later
  · obtain ⟨j, member, can, above, block⟩ := fit.highest page hit
    refine ⟨j, List.mem_cons_of_mem _ member, can, fun i later can' => ?_, block⟩
    rcases List.mem_cons.mp later with rfl | later
    · exact absurd can' not
    · exact above i later can'

theorem FirstFit.serve {page : Nat} (sorted : (k :: zones).Pairwise (· > ·)) (can : serves k)
    (block : ∀ x, head o x = page → (n.view k).Avail x) :
    FirstFit n (k :: zones) serves o (some page) := by
  refine ⟨fun no => (by cases no), fun page' hit => ?_⟩
  obtain rfl := Option.some.inj hit
  refine ⟨k, List.mem_cons_self, can, fun j member _ => ?_, block⟩
  rcases List.mem_cons.mp member with rfl | later
  · exact le_rfl
  · exact (List.rel_of_pairwise_cons sorted later).le

theorem FirstFit.congr {n' : Node} {serves' : Nat → Prop} (fit : FirstFit n' zones serves' o found)
    (same : ∀ j ∈ zones, serves' j ↔ serves j)
    (avail : ∀ j ∈ zones, ∀ x, (n'.view j).Avail x → (n.view j).Avail x) :
    FirstFit n zones serves o found := by
  refine ⟨fun missed j member => mt (same j member).mpr (fit.none missed j member), fun page hit => ?_⟩
  obtain ⟨j, member, can, above, block⟩ := fit.highest page hit
  exact ⟨j, member, (same j member).mp can, fun i other can' => above i other ((same i other).mpr can'),
    fun x inside => avail j member x (block x inside)⟩

end FirstFit

/-- One attempt: what is found, where, and what other zones see of it. -/
theorem NodeInv.rmqueueFrom_fits (inv : NodeInv Pristine n) {k : Nat} (small : k < maxNrZones)
    (noZero : gfpFlags &&& gfpZero = 0) (type : migratetype < migratePcptypes) :
    ∃ found s, (∀ fuel, n.rmqueueFrom k o gfpFlags migratetype (fuel + 1) = some (found, n.put k s)) ∧
      Settled Pristine (n.view k) s (fun _ => False) ∧
      (found ≠ none ↔ ∃ t ≤ migrateReserve, (n.view k).HasBlock o t) ∧
      ∀ page ∈ found, ∀ x, head o x = page → (n.view k).Avail x := by
  have zone := inv.zone k small
  have types : TypeFor o migratetype := typeFor_of_lt type
  obtain ⟨⟨found, s⟩, returns, hit, -⟩ := bufferedRmqueue_exact zone noZero types
  refine ⟨found, s, fun fuel => by rw [Node.rmqueueFrom, returns]; rfl,
    bufferedRmqueue_inv pristine_stable noZero types zone (returns 0), ?_, ?_⟩
  · obtain rfl : found = _ := hit
    exact rmqueueRound_finds zone (inv.boot k) type
  · rintro page member x inside
    obtain rfl : found = some page := member
    exact (bufferedRmqueue_takes pristine_stable noZero types zone (returns 0) x inside).1

/-- The loop over zones in descending order returns, and finds the first fit. -/
theorem NodeInv.getPageFromFreelist_fits (inv : NodeInv Pristine n) (noZero : gfpFlags &&& gfpZero = 0)
    (type : migratetype < migratePcptypes) {classzoneIdx : Nat} {allocFlags : BitVec 32}
    {zones : List Nat} (small : ∀ k ∈ zones, k < maxNrZones) (sorted : zones.Pairwise (· > ·))
    (tested : ∀ k ∈ zones, ∃ b, n.zoneAllowed d k o classzoneIdx allocFlags = some b) :
    ∃ r, (∀ fuel, n.getPageFromFreelist d gfpFlags o classzoneIdx allocFlags migratetype (fuel + 1) zones =
        some r) ∧
      FirstFit n zones (n.CanServe d o classzoneIdx allocFlags) o r.1 := by
  induction zones generalizing n with
  | nil => exact ⟨(none, n), fun _ => rfl, ⟨fun _ _ no => (by cases no), fun _ no => (by cases no)⟩⟩
  | cons k zones ih =>
    have here := small k List.mem_cons_self
    have rest := fun k hk => small k (List.mem_cons_of_mem _ hk)
    have later := List.Pairwise.of_cons sorted
    obtain ⟨ok, test⟩ := tested k List.mem_cons_self
    cases ok with
    | false =>
      obtain ⟨r, returns, fit⟩ := ih inv rest later fun j hj => tested j (List.mem_cons_of_mem _ hj)
      refine ⟨r, fun fuel => ?_, fit.skip fun can => ?_⟩
      · rw [Node.getPageFromFreelist, test]
        exact returns fuel
      · rw [Node.CanServe, test] at can
        exact absurd can.1 (by decide)
    | true =>
      obtain ⟨found, s, tried, settled, finds, block⟩ := inv.rmqueueFrom_fits (o := o) here noZero type
      cases found with
      | some page =>
        refine ⟨(some page, n.put k s), fun fuel => ?_,
          .serve sorted ⟨test, finds.mp (by simp)⟩ (block page rfl)⟩
        rw [Node.getPageFromFreelist, test, Option.bind_some, if_pos rfl, tried]
        rfl
      | none =>
        have within : ∀ x, False → n.Spanned k x := fun _ no => no.elim
        -- the zones that are left are below this one
        have below : ∀ j ∈ zones, j ≠ k := fun j hj => (List.rel_of_pairwise_cons sorted hj).ne
        have same : ∀ j ∈ zones, (n.put k s).zoneAllowed d j o classzoneIdx allocFlags =
            n.zoneAllowed d j o classzoneIdx allocFlags := by
          intro j hj
          simp [Node.zoneAllowed, Node.put, below j hj]
        obtain ⟨r, returns, fit⟩ := ih (inv.put here settled within) rest later fun j hj => by
          rw [same j hj]
          exact tested j (List.mem_cons_of_mem _ hj)
        refine ⟨r, fun fuel => ?_, (fit.congr (fun j hj => Node.canServe_put (below j hj) s)
          fun j hj x => ?_).skip fun can => finds.mpr can.2 rfl⟩
        · rw [Node.getPageFromFreelist, test, Option.bind_some, if_pos rfl, tried]
          exact returns fuel
        · exact ((inv.touches_put here settled within (rest j hj) (below j hj)).avail x).mp

/-- The zone can serve the request, with the highest allowed zone as its classzone. -/
def Node.Serves (d : Pgdat) (n : Node) (gfpMask : BitVec 32) (order k : Nat) : Prop :=
  ∃ preferredZone ∈ (d.zonesFor gfpMask).head?,
    n.CanServe d order preferredZone (allocWmarkLow ||| allocCpuset) k

theorem NodeInv.zoneAllowed_returns (inv : NodeInv P n) (moderate : d.Moderate n) (order : o ≤ 20)
    {classzoneIdx k : Nat} (class_lt : classzoneIdx < maxNrZones) (small : k < maxNrZones) :
    ∃ b, n.zoneAllowed d k o classzoneIdx (allocWmarkLow ||| allocCpuset) = some b := by
  rw [Node.zoneAllowed, if_neg (by decide)]
  have accounted : (n.zones k).Accounted := by
    obtain ⟨sum, long⟩ := (inv.zone k small).accounted (moderate.span k small)
    exact ⟨sum, long⟩
  exact zoneWatermarkOk_returns accounted order (moderate.mark k small)
    (moderate.reserve k small classzoneIdx class_lt) _

theorem NodeInv.allocPages_fits (inv : NodeInv Pristine n) (built : d.Built) (moderate : d.Moderate n)
    {gfpAllowedMask gfpMask : BitVec 32} (noZero : NoZero gfpMask) (one : OneMobility gfpMask)
    (order : o ≤ 20) :
    ∃ r, (∀ fuel, n.allocPages d gfpAllowedMask gfpMask o (fuel + 1) = some r) ∧
      FirstFit n (d.zonesFor gfpMask) (n.Serves d gfpMask o) o r.1 := by
  have small : ∀ k ∈ d.zonesFor gfpMask, k < maxNrZones := fun k member =>
    (Pgdat.mem_zonesFor.mp member).1
  cases zones : (d.zonesFor gfpMask).head? with
  | none =>
    refine ⟨(none, n), fun fuel => ?_, ⟨fun _ k _ can => ?_, fun _ no => (by cases no)⟩⟩
    · rw [Node.allocPages_eq built, zones]
      rfl
    · obtain ⟨_, no, -⟩ := can
      rw [zones] at no
      cases no
  | some preferredZone =>
    have class_lt := small preferredZone (List.mem_of_mem_head? zones)
    obtain ⟨r, returns, fit⟩ := inv.getPageFromFreelist_fits (d := d) (o := o)
      (noZero_masked noZero gfpAllowedMask)
      (allocflagsToMigratetype_lt one n.pageGroupByMobilityDisabled) small (d.zonesFor_sorted gfpMask)
      fun k member => inv.zoneAllowed_returns moderate order class_lt (small k member)
    refine ⟨r, fun fuel => ?_, fit.congr (fun k _ => ?_) fun _ _ _ => id⟩
    · rw [Node.allocPages_eq built, zones]
      exact returns fuel
    · rw [Node.Serves, zones]
      simp

/-- In every state of every run from pages without references, with zones and
watermarks of moderate size, an allocation of an order up to 20 that asks for neither
zeroed pages nor both kinds of mobility returns in one round, fails only if no allowed
zone can serve it, and else takes its block from the highest zone that can, and no other
page. -/
theorem alloc_pages_first_fit (built : d.Built) {n₀ : Node} (fresh : FreshNode n₀)
    (boot : Relation.ReflTransGen (NodeStep pristineRules) n₀ n) {h : Holders}
    (run : Relation.ReflTransGen (HolderStep d) ⟨n, ∅⟩ h) (moderate : d.Moderate h.node)
    {gfpAllowedMask gfpMask : BitVec 32} (noZero : NoZero gfpMask) (one : OneMobility gfpMask)
    (order : o ≤ 20) :
    ∃ r, (∀ fuel, h.node.allocPages d gfpAllowedMask gfpMask o (fuel + 1) = some r) ∧
      FirstFit h.node (d.zonesFor gfpMask) (h.node.Serves d gfpMask o) o r.1 ∧
      ∀ x, r.2.Avail x ↔ h.node.Avail x ∧ ∀ page ∈ r.1, head o x ≠ page := by
  have inv := (conserved_of_run built fresh boot run).inv.node
  obtain ⟨r, returns, fit⟩ := inv.allocPages_fits built moderate
    noZero one order
  exact ⟨r, returns, fit, inv.allocPages_avail built noZero one (returns 0)⟩

/-- The only page of the node is found in the second zone. -/
theorem alloc_pages_first_fit_forty : ∃ n r, twoZones.freePagesBootmem 40 0 = some n ∧
    (∀ fuel, n.allocPages twoZonesPgdat 0 0 0 (fuel + 1) = some r) ∧ r.1 = some 40 ∧
    FirstFit n [1, 0] (n.Serves twoZonesPgdat 0 0) 0 r.1 := by
  obtain ⟨n, boot, span, reserve, page⟩ : ∃ n, twoZones.freePagesBootmem 40 0 = some n ∧
      (∀ k < maxNrZones, (n.zones k).spannedPages < 2 ^ 31) ∧
      (∀ k < maxNrZones, ∀ c < maxNrZones, (n.zones k).lowmemReserve c < 2 ^ 30) ∧
      (n.allocPages twoZonesPgdat 0 0 0 1).map Prod.fst = some (some 40) :=
    ⟨_, Option.eq_some_of_isSome (by decide +kernel), by decide +kernel, by decide +kernel,
      by decide +kernel⟩
  have noZero : NoZero 0 := by simp [NoZero]
  have one : OneMobility 0 := .inl (by simp)
  obtain ⟨r, returns, fit, -⟩ := alloc_pages_first_fit twoZonesPgdat_built
    twoZones_fresh (.single (twoZones_boot (Or.inl rfl) boot)) .refl
    ⟨span, fun _ _ => Nat.two_pow_pos 30, reserve⟩ noZero one (Nat.zero_le 20)
  rw [returns 0] at page
  exact ⟨n, r, boot, returns, Option.some.inj page, fit⟩

end XcKernel.PageAlloc
