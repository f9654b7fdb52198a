import XcKernel.PageAlloc.ZoneRuns

/-!
# The zones of a node

All zones share one page map and, as they are set up, one set of per-cpu lists.
An operation runs in the zone of its page.  What it touches is available in
that zone or lies in it, so that the other zones keep their invariants.
-/

namespace XcKernel.PageAlloc

open Blocks

def maxNrZones : Nat := 3

/-- The page map and the zones of a node, with the per-cpu lists to which
`zone_pcp_init` points all of them. -/
structure Node where
  memMap : Nat → Page
  zones : Nat → Zone
  pageset : PerCpuPages
  pageGroupByMobilityDisabled : Bool

namespace Node

/-- One zone with the page map. -/
def view (n : Node) (k : Nat) : State where
  memMap := n.memMap
  zone := { n.zones k with pageset := n.pageset }
  pageGroupByMobilityDisabled := n.pageGroupByMobilityDisabled

/-- The node after an operation on one zone. -/
def put (n : Node) (k : Nat) (s : State) : Node where
  memMap := s.memMap
  zones := fun j => if j = k then s.zone else n.zones j
  pageset := s.zone.pageset
  pageGroupByMobilityDisabled := s.pageGroupByMobilityDisabled

theorem view_put (n : Node) (k : Nat) (s : State) : (n.put k s).view k = s := by
  simp [view, put]

theorem view_put_of_ne (n : Node) {k j : Nat} (s : State) (ne : j ≠ k) :
    (n.put k s).view j =
      ⟨s.memMap, { n.zones j with pageset := s.zone.pageset }, s.pageGroupByMobilityDisabled⟩ := by
  simp [view, put, ne]

/-- The page lies in the zone. -/
def Spanned (n : Node) (k x : Nat) : Prop := (n.view k).Spanned x

end Node

/-- Every zone satisfies its invariant, and the per-cpu lists are empty. -/
structure NodeInv (P : Nat → Page → Prop) (n : Node) : Prop where
  zone : ∀ k < maxNrZones, ZoneInv P (n.view k)
  idx : ∀ k < maxNrZones, (n.zones k).idx = k
  boot : ∀ k, BootPageset (n.view k)

variable {P : Nat → Page → Prop} {rules : Rules} {n n' : Node}

theorem PcpInv.avail_spanned {s : State} (inv : PcpInv P s) {x : Nat} (avail : s.Avail x) :
    s.Spanned x := by
  rcases avail with ⟨o, free⟩ | pcp
  · exact inv.buddy.inZone free x rfl
  · exact (inv.lent x pcp).spanned

theorem NodeInv.zonenum (inv : NodeInv P n) {k : Nat} (small : k < maxNrZones) {x : Nat}
    (spanned : n.Spanned k x) : (n.memMap x).zonenum = k :=
  ((inv.zone k small).buddy.zonenum x spanned).trans (inv.idx k small)

theorem NodeInv.avail_zonenum (inv : NodeInv P n) {k : Nat} (small : k < maxNrZones) {x : Nat}
    (avail : (n.view k).Avail x) : (n.memMap x).zonenum = k :=
  inv.zonenum small ((inv.zone k small).toPcpInv.avail_spanned avail)

/-- An operation on one zone leaves the pages of the others as they were. -/
theorem NodeInv.touches_put (inv : NodeInv P n) {k : Nat} (small : k < maxNrZones) {s : State}
    {inside : Nat → Prop} (settled : Settled P (n.view k) s inside)
    (within : ∀ x, inside x → n.Spanned k x) {j : Nat} (hj : j < maxNrZones) (ne : j ≠ k) :
    Touches (n.view j) ((n.put k s).view j) := by
  have same : ∀ x, (n.memMap x).zonenum = j → s.memMap x = n.memMap x := fun x zone =>
    settled.keeps.outside x (fun avail => ne (zone.symm.trans (inv.avail_zonenum small avail)))
      fun into => ne (zone.symm.trans (inv.zonenum small (within x into)))
  rw [n.view_put_of_ne s ne]
  refine ⟨⟨rfl, rfl, rfl, rfl, rfl, rfl⟩, ?_, fun x avail => same x (inv.avail_zonenum hj avail),
    settled.keeps.zonenum, fun x zone off => ?_⟩
  · exact (settled.boot (inv.boot k)).pages.trans (inv.boot j).pages.symm
  · show (s.memMap x).buddy = false
    rw [same x (zone.trans (inv.idx j hj))]
    exact (inv.zone j hj).buddy.unmarked zone fun free => off (.inl free)

theorem NodeInv.put (inv : NodeInv P n) {k : Nat} (small : k < maxNrZones) {s : State}
    {inside : Nat → Prop} (settled : Settled P (n.view k) s inside)
    (within : ∀ x, inside x → n.Spanned k x) : NodeInv P (n.put k s) := by
  have boot := settled.boot (inv.boot k)
  refine ⟨fun j hj => ?_, fun j hj => ?_, fun j => boot.congr rfl⟩
  · by_cases eq : j = k
    · subst eq
      rw [n.view_put]
      exact settled.inv
    · have old := inv.zone j hj
      have touches := inv.touches_put small settled within hj eq
      refine ⟨old.toPcpInv.touch touches, ?_, settled.inv.limits, ?_⟩
      · exact settled.inv.count
      · rw [n.view_put_of_ne s eq]
        exact old.stat
  · by_cases eq : j = k
    · subst eq
      simp only [Node.put, if_true]
      exact settled.keeps.span.idx.trans (inv.idx j hj)
    · simp only [Node.put, eq, if_false]
      exact inv.idx j hj

/-- The page is available in one of the zones. -/
def Node.Avail (n : Node) (x : Nat) : Prop := ∃ k < maxNrZones, (n.view k).Avail x

theorem NodeInv.page (inv : NodeInv P n) {x : Nat} (avail : n.Avail x) : P x (n.memMap x) := by
  obtain ⟨k, small, avail⟩ := avail
  exact (inv.zone k small).pages x avail

theorem NodeInv.avail_put (inv : NodeInv P n) {k : Nat} (small : k < maxNrZones) {s : State}
    {inside : Nat → Prop} (settled : Settled P (n.view k) s inside)
    (within : ∀ x, inside x → n.Spanned k x) {fresh : Nat → Prop}
    (avail : ∀ x, s.Avail x ↔ (n.view k).Avail x ∨ fresh x) (x : Nat) :
    (n.put k s).Avail x ↔ n.Avail x ∨ fresh x := by
  have other : ∀ j < maxNrZones, j ≠ k → (((n.put k s).view j).Avail x ↔ (n.view j).Avail x) :=
    fun j hj ne => (inv.touches_put small settled within hj ne).avail x
  constructor
  · rintro ⟨j, hj, here⟩
    by_cases eq : j = k
    · subst eq
      rw [n.view_put, avail] at here
      exact here.imp_left fun old => ⟨j, hj, old⟩
    · exact .inl ⟨j, hj, (other j hj eq).mp here⟩
  · rintro (⟨j, hj, old⟩ | new)
    · by_cases eq : j = k
      · subst eq
        exact ⟨j, hj, by rw [n.view_put, avail]; exact .inl old⟩
      · exact ⟨j, hj, (other j hj eq).mpr old⟩
    · exact ⟨k, small, by rw [n.view_put, avail]; exact .inr new⟩

theorem Node.spanned_put {k : Nat} {s : State} (span : SameSpan (n.view k) s) (j x : Nat) :
    (n.put k s).Spanned j x ↔ n.Spanned j x := by
  by_cases eq : j = k
  · subst eq
    rw [Node.Spanned, n.view_put, State.Spanned, span.zoneStartPfn, span.spannedPages]
    rfl
  · rw [Node.Spanned, n.view_put_of_ne s eq]
    rfl

/-- An operation on one of the zones, or a change by the owners of pages that
are available in none. -/
inductive NodeStep (rules : Rules) : Node → Node → Prop where
  | op {n : Node} {k : Nat} {s : State} (small : k < maxNrZones) (op : ZoneOp rules (n.view k) s) :
      NodeStep rules n (n.put k s)
  | use {n n' : Node} (zones : n'.zones = n.zones) (pageset : n'.pageset = n.pageset)
      (touches : ∀ k < maxNrZones, Touches (n.view k) (n'.view k)) : NodeStep rules n n'

theorem NodeInv.step (keep : rules.Keep P) (orders : ∀ o, rules.bootOk o → BootOrder o)
    (inv : NodeInv P n) (step : NodeStep rules n n') : NodeInv P n' := by
  cases step with
  | op small op =>
    obtain ⟨inside, settled, within⟩ := (inv.zone _ small).op keep op
    exact inv.put small settled (within orders)
  | use zones pageset touches =>
    refine ⟨fun k hk => ?_, fun k hk => by rw [zones]; exact inv.idx k hk,
      fun k => (inv.boot k).congr pageset⟩
    refine (inv.zone k hk).touch (touches k hk) pageset ?_
    show (n'.zones k).vmStat _ = (n.zones k).vmStat _
    rw [zones]

/-- The zones as they are set up. -/
structure FreshNode (n : Node) : Prop where
  zone : ∀ k < maxNrZones, FreshZone (n.view k)
  idx : ∀ k < maxNrZones, (n.zones k).idx = k
  pageset : n.pageset = setupPageset 0

theorem FreshNode.inv (fresh : FreshNode n) (P : Nat → Page → Prop) : NodeInv P n := by
  refine ⟨fun k hk => (fresh.zone k hk).inv P, fresh.idx, fun k => ⟨?_, ?_, ?_⟩⟩
  · show n.pageset.high = 0
    rw [fresh.pageset]
    rfl
  · show n.pageset.batch = 1
    rw [fresh.pageset]
    rfl
  · show (List.range migratePcptypes).flatMap n.pageset.lists = []
    rw [fresh.pageset]
    rfl

theorem nodeInv_of_run (keep : rules.Keep P) (orders : ∀ o, rules.bootOk o → BootOrder o)
    (inv : NodeInv P n) (run : Relation.ReflTransGen (NodeStep rules) n n') : NodeInv P n' :=
  invariant_of_run (NodeInv P) (fun _ _ inv step => inv.step keep orders step) inv run

end XcKernel.PageAlloc
