import XcKernel.PageAlloc.Node

/-!
# The shared boot pageset

`zone_pcp_init` points all zones to the one `boot_pageset`, and
`free_pcppages_bulk` frees what it finds there into the zone of its caller.  A
page that is freed goes to the zone that its flags name.  With the limits that
`setup_pageset` sets, the lists are empty between operations, so that no page
of one zone waits there for an operation on another.
-/

namespace XcKernel.PageAlloc

open Blocks

namespace Node

def pageZone (n : Node) (page : Nat) : Nat := (n.memMap page).zonenum

/-- `free_hot_cold_page` on the node -/
def freeHotColdPage (n : Node) (page : Nat) (cold : Bool) : Option Node :=
  (PageAlloc.freeHotColdPage (n.view (n.pageZone page)) page cold).map (n.put (n.pageZone page))

/-- `buffered_rmqueue` of order 0 on a zone of the node -/
def bufferedRmqueue (n : Node) (k : Nat) (gfpFlags : BitVec 32) (migratetype fuel : Nat) :
    Option (Option Nat × Node) :=
  (PageAlloc.bufferedRmqueue (n.view k) 0 gfpFlags migratetype fuel).map fun r => (r.1, n.put k r.2)

end Node

/-- One operation, with what the caller promises: the page that is freed is one
of a zone and is not available.  Between operations the owners of pages may
change them. -/
inductive SharedStep (gfpOk : BitVec 32 → Prop) : Node → Node → Prop where
  | free {n n' : Node} {k page : Nat} {cold : Bool} (small : k < maxNrZones)
      (block : Freeable (n.view k) 0 page) (returns : n.freeHotColdPage page cold = some n') :
      SharedStep gfpOk n n'
  | alloc {n : Node} {k : Nat} {gfpFlags : BitVec 32} {migratetype fuel : Nat}
      {r : Option Nat × Node} (small : k < maxNrZones) (gfp : gfpOk gfpFlags)
      (type : migratetype < migratePcptypes)
      (returns : n.bufferedRmqueue k gfpFlags migratetype fuel = some r) : SharedStep gfpOk n r.2
  | use {n n' : Node} (zones : n'.zones = n.zones) (pageset : n'.pageset = n.pageset)
      (touches : ∀ k < maxNrZones, Touches (n.view k) (n'.view k)) : SharedStep gfpOk n n'

/-- The rules of these steps: nothing comes from boot memory. -/
def sharedRules (gfpOk : BitVec 32 → Prop) : Rules := ⟨gfpOk, fun _ _ => True, fun _ => False⟩

/-- Allocations that do not ask for zeroed pages. -/
def NoZero (gfpFlags : BitVec 32) : Prop := gfpFlags &&& gfpZero = 0

theorem sharedRules_keep : (sharedRules NoZero).Keep NoFlags :=
  ⟨noFlags_stable, id, fun prepared _ _ => prepared.flags, fun prepared _ => prepared.flags⟩

variable {n n' : Node}

theorem NodeInv.pageZone (inv : NodeInv NoFlags n) {k page : Nat} (small : k < maxNrZones)
    (block : Freeable (n.view k) 0 page) : n.pageZone page = k :=
  inv.zonenum small (block.lent.inZone page (head_of_dvd block.lent.aligned))

theorem SharedStep.nodeStep {gfpOk : BitVec 32 → Prop} (inv : NodeInv NoFlags n)
    (step : SharedStep gfpOk n n') : NodeStep (sharedRules gfpOk) n n' := by
  cases step with
  | free small block returns =>
    rw [Node.freeHotColdPage, inv.pageZone small block, Option.map_eq_some_iff] at returns
    obtain ⟨s, returns, rfl⟩ := returns
    exact .op small (.hotCold _ _ _ _ block trivial returns)
  | alloc small gfp type returns =>
    rw [Node.bufferedRmqueue, Option.map_eq_some_iff] at returns
    obtain ⟨r, returns, rfl⟩ := returns
    exact .op small (.alloc _ 0 _ _ _ r gfp type returns)
  | use zones pageset touches => exact .use zones pageset touches

theorem sharedInv_of_run {n₀ : Node} (fresh : FreshNode n₀)
    (run : Relation.ReflTransGen (SharedStep NoZero) n₀ n) : NodeInv NoFlags n :=
  invariant_of_run (NodeInv NoFlags)
    (fun _ _ inv step => inv.step sharedRules_keep (fun _ no => no.elim) (step.nodeStep inv))
    (fresh.inv NoFlags) run

/-- A freed page is in the free lists of its zone, or it was refused and the free
lists are as before; the other zones are as before in any case. -/
structure FreedInto (n n' : Node) (k page : Nat) : Prop where
  own : Covered (n'.view k).Free page ∨
    (freePagesPrepare ((n.view k).modifyPage page (·.clear .mlocked)) page 0).1 = false ∧
      (n'.zones k).freeList = (n.zones k).freeList
  others : ∀ j, j ≠ k → n'.zones j = n.zones j

/-- The page came from the free lists of the zone and belongs to it. -/
structure TakenFrom (n n' : Node) (k page : Nat) : Prop where
  free : Covered (n.view k).Free page
  gone : ¬ Covered (n'.view k).Free page
  spanned : n'.Spanned k page
  pageZone : n'.pageZone page = k

/-- What holds between operations, and of every operation that may follow. -/
structure ZonesApart (n : Node) : Prop where
  count : n.pageset.count = 0
  lists : ∀ t < migratePcptypes, n.pageset.lists t = []
  frees : ∀ k < maxNrZones, ∀ page cold, Freeable (n.view k) 0 page →
    ∃ n', n.freeHotColdPage page cold = some n' ∧ FreedInto n n' k page
  returns : ∀ k < maxNrZones, ∀ gfpFlags, ∀ migratetype < migratePcptypes,
    ∃ fuel r, n.bufferedRmqueue k gfpFlags migratetype fuel = some r
  takes : ∀ k < maxNrZones, ∀ gfpFlags, NoZero gfpFlags → ∀ migratetype < migratePcptypes,
    ∀ fuel page n', n.bufferedRmqueue k gfpFlags migratetype fuel = some (some page, n') →
      TakenFrom n n' k page

theorem BootPageset.avail {s : State} (boot : BootPageset s) (x : Nat) :
    s.Avail x ↔ Covered s.Free x := by
  simp [State.Avail, boot.pages]

theorem NodeInv.freedInto (inv : NodeInv NoFlags n) {k page : Nat} (small : k < maxNrZones)
    (block : Freeable (n.view k) 0 page) (cold : Bool) :
    ∃ n', n.freeHotColdPage page cold = some n' ∧ FreedInto n n' k page := by
  have zone := inv.zone k small
  rw [Node.freeHotColdPage, inv.pageZone small block]
  have others (s : State) (j : Nat) (ne : j ≠ k) : (n.put k s).zones j = n.zones j := by
    simp [Node.put, ne]
  cases ok : (freePagesPrepare ((n.view k).modifyPage page (·.clear .mlocked)) page 0).1 with
  | true =>
    obtain ⟨s, returns, released⟩ := freeHotColdPage_released noFlags_stable zone block
      (fun _ _ _ prepared _ => prepared.flags) cold ok
    rw [returns]
    refine ⟨_, rfl, .inl ?_, others s⟩
    rw [n.view_put, ← (released.boot (inv.boot k)).avail, released.avail]
    exact .inr (head_of_dvd block.lent.aligned)
  | false =>
    have spec := freePagesPrepare_mlocked (s := n.view k) block.lent.aligned
    rw [freeHotColdPage_refused ok]
    refine ⟨_, rfl, .inr ⟨ok, ?_⟩, others _⟩
    simp only [Node.put, if_true, spec.cleans.zone]
    rfl

theorem NodeInv.takenFrom (inv : NodeInv NoFlags n) {k : Nat} (small : k < maxNrZones)
    {gfpFlags : BitVec 32} (noZero : NoZero gfpFlags) {migratetype fuel page : Nat}
    (type : migratetype < migratePcptypes)
    (returns : n.bufferedRmqueue k gfpFlags migratetype fuel = some (some page, n')) :
    TakenFrom n n' k page := by
  have zone := inv.zone k small
  rw [Node.bufferedRmqueue, Option.map_eq_some_iff] at returns
  obtain ⟨⟨found, s⟩, returns, eq⟩ := returns
  obtain ⟨rfl, rfl⟩ := Prod.mk.inj eq
  have type₀ : TypeFor 0 migratetype := type
  have settled := bufferedRmqueue_inv noFlags_stable noZero type₀ zone returns
  obtain ⟨avail, gone⟩ := bufferedRmqueue_takes noFlags_stable noZero type₀ zone returns page
    (by simp [head])
  have spanned := zone.toPcpInv.avail_spanned avail
  refine ⟨((inv.boot k).avail page).mp avail, ?_, ?_, ?_⟩
  · rw [n.view_put, ← (settled.boot (inv.boot k)).avail]
    exact gone
  · exact (Node.spanned_put settled.keeps.span k page).mpr spanned
  · exact (settled.keeps.zonenum page).trans (inv.zonenum small spanned)

theorem NodeInv.zonesApart (inv : NodeInv NoFlags n) : ZonesApart n where
  count := by
    have count := (inv.zone 0 (by decide)).count
    rw [(inv.boot 0).pages] at count
    exact count
  lists t range := by
    have none := (inv.boot 0).pages
    rw [State.pcpPages, List.flatMap_eq_nil_iff] at none
    exact none t (List.mem_range.mpr range)
  frees k small page cold block := inv.freedInto small block cold
  returns k small gfpFlags migratetype type := by
    obtain ⟨r, returns⟩ := bufferedRmqueue_returns noFlags_stable gfpFlags (o := 0) type
      (inv.zone k small) (Nat.lt_succ_self _)
    exact ⟨_, _, by rw [Node.bufferedRmqueue, returns]; rfl⟩
  takes k small gfpFlags noZero migratetype type fuel page n' returns :=
    inv.takenFrom small noZero type returns

/-- Without zeroed allocations the shared pageset is empty between operations,
every page is freed into its own zone and taken from the zone that was asked. -/
theorem shared_pageset_runs {n₀ : Node} (fresh : FreshNode n₀)
    (run : Relation.ReflTransGen (SharedStep NoZero) n₀ n) : ZonesApart n :=
  (sharedInv_of_run fresh run).zonesApart

/-- Two zones of 32 pages as they are set up, and an empty one. -/
def twoZones : Node where
  memMap := fun p => ⟨if p < 32 then 0 else 1#32 <<< 30, 0, -1, 0, 0, 0⟩
  zones := fun k => { (freshState (if k < 2 then 32 else 0)).zone with
    idx := k, zoneStartPfn := 32 * k }
  pageset := setupPageset 0
  pageGroupByMobilityDisabled := false

theorem twoZones_fresh : FreshNode twoZones := by
  have unmarked (p : Nat) : (twoZones.memMap p).buddy = false := rfl
  refine ⟨fun k small => ⟨⟨fun _ _ => rfl, fun _ => rfl, fun p _ => unmarked p, fun p spanned => ?_⟩,
    ⟨0, rfl⟩, rfl, fun pfn => ?_⟩, fun k _ => rfl, rfl⟩
  · show Page.zonenum _ = k
    simp only [State.Spanned, Node.view, twoZones] at spanned ⊢
    simp only [maxNrZones] at small
    interval_cases k
    · rw [if_pos (by simp [freshState] at spanned; omega)]
      decide
    · rw [if_neg (by simp [freshState] at spanned; omega)]
      decide
    · simp [freshState] at spanned
      omega
  · have zero : getPageblockMigratetype (twoZones.view k) pfn = 0 := rfl
    rw [zero]
    decide

theorem twoZones_freeable : Freeable (twoZones.view 1) 0 40 := by
  refine ⟨⟨by decide, by decide, fun x inside => ?_, fun x _ => ?_⟩, fun x _ => ?_⟩
  · obtain rfl : x = 40 := by simpa [head] using inside
    decide
  · rintro ⟨o, free⟩
    simp [State.Free, State.free, Node.view, twoZones, freshState] at free
  · simp [State.pcpPages, Node.view, twoZones, setupPageset]

/-- The second zone after page 40 was freed and a page was asked for. -/
def afterForty (gfpFlags : BitVec 32) : Option (Option Nat × Node) :=
  (twoZones.freeHotColdPage 40 false).bind fun n =>
    n.bufferedRmqueue 1 gfpFlags migrateUnmovable 1

theorem afterForty_run {gfpOk : BitVec 32 → Prop} {gfpFlags : BitVec 32} (ok : gfpOk gfpFlags)
    {r : Option Nat × Node} (returns : afterForty gfpFlags = some r) :
    Relation.ReflTransGen (SharedStep gfpOk) twoZones r.2 := by
  obtain ⟨n, freed, taken⟩ := Option.bind_eq_some_iff.mp returns
  have free : SharedStep gfpOk twoZones n := .free (by decide) twoZones_freeable freed
  exact .tail (.single free) (.alloc (by decide) ok (by decide) taken)

/-- The page comes back, and the pageset is empty again. -/
theorem shared_pageset_runs_forty :
    ∃ r, afterForty 0 = some r ∧ r.1 = some 40 ∧ r.2.pageZone 40 = 1 ∧ ZonesApart r.2 := by
  obtain ⟨r, returns, page, zone⟩ : ∃ r, afterForty 0 = some r ∧ r.1 = some 40 ∧
      r.2.pageZone 40 = 1 :=
    ⟨_, Option.eq_some_of_isSome (by decide +kernel), by decide +kernel, by decide +kernel⟩
  have noZero : NoZero 0 := by simp [NoZero]
  exact ⟨r, returns, page, zone,
    shared_pageset_runs twoZones_fresh (afterForty_run noZero returns)⟩

def Node.resetPageMapcount (n : Node) (page : Nat) : Node :=
  { n with memMap := fun p => if p = page then { n.memMap p with mapcount := -1 } else n.memMap p }

/-- Single pages in the free lists of the two zones. -/
def Node.singles (n : Node) : List Nat × List Nat :=
  ((n.zones 0).freeList 0 migrateUnmovable, (n.zones 1).freeList 0 migrateUnmovable)

/-- A zeroed allocation from the second zone returns a page whose flags name the
first zone.  Freed again it is refused; when its owner has reset the count of
mappings, as `__free_slab` does, it goes to the first zone. -/
theorem shared_pageset_zeroed :
    ∃ r, afterForty gfpZero = some r ∧ FreshNode twoZones ∧
      Relation.ReflTransGen (SharedStep fun _ => True) twoZones r.2 ∧
      r.1 = some 40 ∧ r.2.Spanned 1 40 ∧ r.2.pageZone 40 = 0 ∧
      (r.2.freeHotColdPage 40 false).map Node.singles = some ([], []) ∧
      ((r.2.resetPageMapcount 40).freeHotColdPage 40 false).map Node.singles = some ([40], []) := by
  obtain ⟨r, returns, page, spanned, zone, refused, freed⟩ : ∃ r, afterForty gfpZero = some r ∧
      r.1 = some 40 ∧ (r.2.view 1).Spanned 40 ∧ r.2.pageZone 40 = 0 ∧
      (r.2.freeHotColdPage 40 false).map Node.singles = some ([], []) ∧
      ((r.2.resetPageMapcount 40).freeHotColdPage 40 false).map Node.singles = some ([40], []) :=
    ⟨_, Option.eq_some_of_isSome (by decide +kernel), by decide +kernel, by decide +kernel,
      by decide +kernel, by decide +kernel, by decide +kernel⟩
  exact ⟨r, returns, twoZones_fresh, afterForty_run trivial returns, page, spanned, zone, refused, freed⟩

end XcKernel.PageAlloc
