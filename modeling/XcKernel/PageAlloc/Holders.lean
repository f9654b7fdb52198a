import XcKernel.Lib.Pool
import XcKernel.PageAlloc.AllocPages
import XcKernel.PageAlloc.FreeOrder
import XcKernel.PageAlloc.Handover

/-!
# Who holds which pages

The callers of `alloc_pages` hold the blocks they were given until they pass them
to `__free_pages`.  Beside the node stands the set of these blocks.  Seen through
the set of its available pages the node is a pool: every call lends a block of it,
takes one back, or drops pages that `prep_new_page` refuses.
-/

namespace XcKernel.PageAlloc

open Blocks

/-- The pages of a block, which is given by its order and its first page. -/
def blockPages (b : Nat × Nat) : Set Nat := {x | head b.1 x = b.2}

/-- A node and the blocks that its callers hold. -/
structure Holders where
  node : Node
  held : Set (Nat × Nat)

/-- What the system is for. -/
def Holders.pool (h : Holders) : Pool Nat (Nat × Nat) := ⟨{x | h.node.Avail x}, h.held⟩

/-- A page is in one of the blocks that are held. -/
def Holders.Holds (h : Holders) (x : Nat) : Prop := ∃ b ∈ h.held, x ∈ blockPages b

/-- One call, with what its caller promises, or a change by the holders of pages.
A block that is freed is one that is held; only its first page has a reference,
and it is the last one.  No call asks for zeroed pages, which would wipe page
structures, or for both kinds of mobility. -/
inductive HolderStep (d : Pgdat) : Holders → Holders → Prop where
  | alloc {h : Holders} {n : Node} {gfpAllowedMask gfpMask : BitVec 32} {order fuel page : Nat}
      (noZero : NoZero gfpMask) (one : OneMobility gfpMask)
      (returns : h.node.allocPages d gfpAllowedMask gfpMask order fuel = some (some page, n)) :
      HolderStep d h ⟨n, insert (order, page) h.held⟩
  | fail {h : Holders} {n : Node} {gfpAllowedMask gfpMask : BitVec 32} {order fuel : Nat}
      (noZero : NoZero gfpMask) (one : OneMobility gfpMask)
      (returns : h.node.allocPages d gfpAllowedMask gfpMask order fuel = some (none, n)) :
      HolderStep d h ⟨n, h.held⟩
  | free {h : Holders} {n : Node} {order page : Nat} (held : (order, page) ∈ h.held)
      (last : (h.node.memMap page).count = 1)
      (tails : ∀ x, head order x = page → x ≠ page → (h.node.memMap x).count = 0)
      (acceptable : AcceptableBlock h.node.memMap order page)
      (returns : h.node.freePages page order = some n) :
      HolderStep d h ⟨n, h.held \ {(order, page)}⟩
  | use {h : Holders} {n : Node} (zones : n.zones = h.node.zones)
      (pageset : n.pageset = h.node.pageset)
      (own : ∀ x, ¬ h.Holds x → n.memMap x = h.node.memMap x)
      (zonenum : ∀ x, (n.memMap x).zonenum = (h.node.memMap x).zonenum)
      (unmarked : ∀ x, h.Holds x → (n.memMap x).buddy = false) : HolderStep d h ⟨n, h.held⟩

/-- The invariant: every held block lies in a zone and none of its pages is
available, and blocks are apart. -/
structure HolderInv (P : Nat → Page → Prop) (h : Holders) : Prop where
  node : NodeInv P h.node
  held : ∀ b ∈ h.held, ∃ k < maxNrZones, Freeable (h.node.view k) b.1 b.2
  apart : h.pool.Apart blockPages

variable {P : Nat → Page → Prop} {d : Pgdat} {h h' : Holders} {n : Node}

theorem NodeInv.freeable_iff (inv : NodeInv P n) {k o p : Nat} (small : k < maxNrZones)
    (aligned : 2 ^ o ∣ p) (order : o < maxOrder) (spanned : ∀ x, head o x = p → n.Spanned k x) :
    Freeable (n.view k) o p ↔ ∀ x, head o x = p → ¬ n.Avail x := by
  constructor
  · rintro block x inside ⟨j, hj, avail⟩
    have own := inv.zonenum small (spanned x inside)
    obtain rfl : j = k := (inv.avail_zonenum hj avail).symm.trans own
    exact block.not_avail inside avail
  · intro off
    exact ⟨⟨aligned, order, spanned, fun x inside free => off x inside ⟨k, small, .inl free⟩⟩,
      fun x inside pcp => off x inside ⟨k, small, .inr pcp⟩⟩

/-- A block that is held stays held while no page of it becomes available. -/
theorem HolderInv.keep_held (inv : HolderInv P h) (inv' : NodeInv P n)
    (span : ∀ k x, n.Spanned k x ↔ h.node.Spanned k x) {b : Nat × Nat} (held : b ∈ h.held)
    (off : ∀ x ∈ blockPages b, ¬ n.Avail x) :
    ∃ k < maxNrZones, Freeable (n.view k) b.1 b.2 := by
  obtain ⟨k, small, block⟩ := inv.held b held
  refine ⟨k, small, (inv'.freeable_iff small block.lent.aligned block.lent.small ?_).mpr off⟩
  exact fun x inside => (span k x).mpr (block.lent.inZone x inside)

theorem HolderInv.not_avail (inv : HolderInv P h) {b : Nat × Nat} (held : b ∈ h.held) {x : Nat}
    (inside : x ∈ blockPages b) : ¬ h.node.Avail x := fun avail =>
  Set.disjoint_left.mp (inv.apart.free b held) avail inside

/-- Pages that have left the available ones are withdrawn from the pool. -/
theorem Shrunk.pool_withdraw (shrunk : Shrunk P h.node n) (kept : Set Nat)
    (off : ∀ x ∈ kept, ¬ n.Avail x) :
    h.pool.withdraw {x | h.node.Avail x ∧ x ∉ kept ∧ ¬ n.Avail x} =
      ⟨{x | n.Avail x ∨ h.node.Avail x ∧ x ∈ kept}, h.held⟩ := by
  refine Pool.ext (Set.ext fun x => ?_) rfl
  have sub := shrunk.avail x
  have missed := off x
  simp only [Holders.pool, Pool.withdraw, Set.mem_sdiff, Set.mem_ofPred_eq]
  tauto

theorem Served.pool {order page k : Nat} (served : Served P h.node n order page k) :
    Relation.ReflTransGen (Pool.Step blockPages) h.pool
      (Holders.pool ⟨n, insert (order, page) h.held⟩) := by
  have off : ∀ x ∈ blockPages (order, page), ¬ n.Avail x :=
    (served.inv.freeable_iff served.small served.block.lent.aligned served.block.lent.small
      served.block.lent.inZone).mp served.block
  have there : blockPages (order, page) ⊆
      {x | n.Avail x ∨ h.node.Avail x ∧ x ∈ blockPages (order, page)} := fun x inside =>
    .inr ⟨served.took x inside, inside⟩
  have lent : Pool.lend blockPages
      ⟨{x | n.Avail x ∨ h.node.Avail x ∧ x ∈ blockPages (order, page)}, h.held⟩ (order, page) =
      Holders.pool ⟨n, insert (order, page) h.held⟩ := by
    refine Pool.ext (Set.ext fun x => ?_) rfl
    have missed := off x
    simp only [Holders.pool, Pool.lend, Set.mem_sdiff, Set.mem_ofPred_eq]
    tauto
  have first : Pool.Step blockPages h.pool _ :=
    .withdraw h.pool {x | h.node.Avail x ∧ x ∉ blockPages (order, page) ∧ ¬ n.Avail x}
  rw [served.toShrunk.pool_withdraw _ off] at first
  rw [← lent]
  exact .tail (.single first) (.lend there)

/-- A step that keeps the invariant and is a run of the pool. -/
def Steps (P : Nat → Page → Prop) (h h' : Holders) : Prop :=
  HolderInv P h' ∧ Relation.ReflTransGen (Pool.Step blockPages) h.pool h'.pool

theorem HolderInv.alloc (inv : HolderInv P h) {order page k : Nat}
    (served : Served P h.node n order page k) : Steps P h ⟨n, insert (order, page) h.held⟩ := by
  refine ⟨⟨served.inv, ?_, (Pool.apart_of_run inv.apart served.pool).1⟩, served.pool⟩
  rintro b (rfl | held)
  · exact ⟨k, served.small, served.block⟩
  · exact inv.keep_held served.inv served.span held fun x inside avail =>
      inv.not_avail held inside (served.avail x avail)

theorem HolderInv.fail (inv : HolderInv P h) (shrunk : Shrunk P h.node n) :
    Steps P h ⟨n, h.held⟩ := by
  have run : Pool.Step blockPages h.pool (Holders.pool ⟨n, h.held⟩) := by
    have first : Pool.Step blockPages h.pool _ :=
      .withdraw h.pool {x | h.node.Avail x ∧ x ∉ (∅ : Set Nat) ∧ ¬ n.Avail x}
    rw [shrunk.pool_withdraw ∅ fun _ no => no.elim] at first
    simpa [Holders.pool] using first
  refine ⟨⟨shrunk.inv, fun b held => ?_, inv.apart.step run⟩, .single run⟩
  exact inv.keep_held shrunk.inv shrunk.span held fun x inside avail =>
    inv.not_avail held inside (shrunk.avail x avail)

theorem HolderInv.free (inv : HolderInv P h) {order page : Nat} (held : (order, page) ∈ h.held)
    (given : Given P h.node n order page) : Steps P h ⟨n, h.held \ {(order, page)}⟩ := by
  have pool : Holders.pool ⟨n, h.held \ {(order, page)}⟩ =
      h.pool.giveBack blockPages (order, page) := Pool.ext (Set.ext given.avail) rfl
  have run : Pool.Step blockPages h.pool (Holders.pool ⟨n, h.held \ {(order, page)}⟩) := by
    rw [pool]
    exact .giveBack held
  refine ⟨⟨given.inv, ?_, inv.apart.step run⟩, .single run⟩
  rintro b ⟨other, ne⟩
  refine inv.keep_held given.inv given.span other fun x inside avail => ?_
  rcases (given.avail x).mp avail with old | new
  · exact inv.not_avail other inside old
  · exact Set.disjoint_left.mp (inv.apart.blocks other held ne) inside new

section Use

variable (zones : n.zones = h.node.zones) (pageset : n.pageset = h.node.pageset)
include zones pageset

theorem HolderInv.touches (inv : HolderInv P h) (own : ∀ x, ¬ h.Holds x → n.memMap x = h.node.memMap x)
    (zonenum : ∀ x, (n.memMap x).zonenum = (h.node.memMap x).zonenum)
    (unmarked : ∀ x, h.Holds x → (n.memMap x).buddy = false) {k : Nat} (small : k < maxNrZones) :
    Touches (h.node.view k) (n.view k) := by
  have same : (n.view k).zone = (h.node.view k).zone := by simp only [Node.view, zones, pageset]
  refine ⟨.of_zone same, by rw [State.pcpPages, State.pcpPages, same], fun x avail => own x ?_,
    zonenum, fun x zone off => ?_⟩
  · rintro ⟨b, held, inside⟩
    exact inv.not_avail held inside ⟨k, small, avail⟩
  · show (n.memMap x).buddy = false
    by_cases holds : h.Holds x
    · exact unmarked x holds
    · rw [own x holds]
      exact (inv.node.zone k small).buddy.unmarked zone fun free => off (.inl free)

theorem HolderInv.use (inv : HolderInv P h)
    (touches : ∀ k < maxNrZones, Touches (h.node.view k) (n.view k)) : Steps P h ⟨n, h.held⟩ := by
  have avail : ∀ x, n.Avail x ↔ h.node.Avail x := fun x =>
    exists_congr fun k => and_congr_right fun small => (touches k small).avail x
  have pool : Holders.pool ⟨n, h.held⟩ = h.pool := Pool.ext (Set.ext avail) rfl
  have kept : NodeInv P n := by
    refine ⟨fun k small => ?_, fun k small => by rw [zones]; exact inv.node.idx k small,
      fun k => (inv.node.boot k).congr pageset⟩
    refine (inv.node.zone k small).touch (touches k small) pageset ?_
    show (n.zones k).vmStat _ = (h.node.zones k).vmStat _
    rw [zones]
  refine ⟨⟨kept, fun b held => ?_, by rw [pool]; exact inv.apart⟩, by rw [pool]⟩
  refine inv.keep_held kept (fun k x => ?_) held fun x inside available =>
    inv.not_avail held inside ((avail x).mp available)
  rw [Node.Spanned, Node.Spanned, Node.view, Node.view, State.Spanned, State.Spanned, zones]

end Use

theorem admitsLast (admits : ∀ x q, Prepared q → q.count = 0 → P x q) {order page : Nat}
    (tails : ∀ x, head order x = page → x ≠ page → (n.memMap x).count = 0) :
    AdmitsLast P n.memMap order page := by
  intro x inside q prepared count
  refine admits x q prepared (count.trans ?_)
  split_ifs with first
  · rfl
  · exact tails x inside first

theorem HolderInv.step (stable : Stable P) (built : d.Built)
    (admits : ∀ x q, Prepared q → q.count = 0 → P x q) (inv : HolderInv P h)
    (step : HolderStep d h h') : Steps P h h' := by
  cases step with
  | alloc noZero one returns =>
    obtain ⟨-, served⟩ := inv.node.allocPages stable built noZero one returns
    obtain ⟨k, -, served⟩ := served _ rfl
    exact inv.alloc served
  | fail noZero one returns =>
    exact inv.fail (inv.node.allocPages stable built noZero one returns).1
  | free held last tails acceptable returns =>
    obtain ⟨k, small, block⟩ := inv.held _ held
    obtain ⟨n', returns', given⟩ :=
      inv.node.freePages stable small block last (admitsLast admits tails) acceptable
    obtain rfl := Option.some.inj (returns'.symm.trans returns)
    exact inv.free held given
  | use zones pageset own zonenum unmarked =>
    exact inv.use zones pageset fun k small =>
      inv.touches zones pageset own zonenum unmarked small

theorem HolderInv.start (inv : NodeInv P n) : HolderInv P ⟨n, ∅⟩ :=
  ⟨inv, fun _ no => no.elim, Set.pairwise_empty _, fun _ no => no.elim⟩

/-- The blocks that are held share no page with each other or with what is
available, and every page was available at the start. -/
structure HeldApart (start : Set Nat) (h : Holders) : Prop where
  disjoint : h.held.PairwiseDisjoint blockPages
  blocks : ∀ b ∈ h.held, b.1 < maxOrder ∧ 2 ^ b.1 ∣ b.2 ∧
    ∃ k < maxNrZones, ∀ x ∈ blockPages b, h.node.Spanned k x ∧ ¬ h.node.Avail x
  all : ∀ x, h.node.Avail x ∨ h.Holds x → x ∈ start

theorem HolderInv.heldApart (inv : HolderInv P h)
    (run : Relation.ReflTransGen (Pool.Step blockPages) (Holders.pool ⟨n, ∅⟩) h.pool) :
    HeldApart {x | n.Avail x} h := by
  refine ⟨inv.apart.blocks, fun b held => ?_, fun x => ?_⟩
  · obtain ⟨k, small, block⟩ := inv.held b held
    exact ⟨block.lent.small, block.lent.aligned, k, small, fun x inside =>
      ⟨block.lent.inZone x inside, inv.not_avail held inside⟩⟩
  · have apart : (Holders.pool ⟨n, ∅⟩).Apart blockPages := ⟨Set.pairwise_empty _, fun _ no => no.elim⟩
    have none_made := (Pool.apart_of_run apart run).2
    intro here
    have member := none_made (Pool.mem_all.mpr here)
    exact (Pool.mem_all.mp member).elim id fun ⟨b, no, _⟩ => no.elim

theorem NodeInv.holders (built : d.Built) (inv : NodeInv (CleanIn 0 0) n)
    (run : Relation.ReflTransGen (HolderStep d) ⟨n, ∅⟩ h) :
    HeldApart {x | n.Avail x} h ∧
      Relation.ReflTransGen (Pool.Step blockPages) (Holders.pool ⟨n, ∅⟩) h.pool := by
  obtain ⟨inv', pool⟩ := simulation_of_run Holders.pool (HolderInv (CleanIn 0 0))
    (fun _ _ inv step => inv.step (cleanIn_stable 0 0) built
      (fun _ _ prepared count => ⟨prepared.clean, fun _ _ => count⟩) step)
    (HolderInv.start inv) run
  exact ⟨inv'.heldApart pool, pool⟩

/-- In every run of allocations and frees after boot, without zeroed allocations, the
node is a pool of pages: the blocks that are held at one time are apart. -/
theorem page_holders_runs (built : d.Built) {n₀ : Node} (fresh : FreshNode n₀)
    (boot : Relation.ReflTransGen (NodeStep bootRules) n₀ n)
    (run : Relation.ReflTransGen (HolderStep d) ⟨n, ∅⟩ h) :
    HeldApart {x | n.Avail x} h ∧
      Relation.ReflTransGen (Pool.Step blockPages) (Holders.pool ⟨n, ∅⟩) h.pool :=
  (nodeInv_of_run bootRules_keep (fun _ => id) (fresh.inv (CleanIn 0 0)) boot).holders built run

/-- The two zones of `twoZones`, without watermarks. -/
def twoZonesPgdat : Pgdat where
  presentPages := fun k => if k < 2 then 32 else 0
  watermark := fun _ _ => 0
  zonelist := buildZonelists (fun k => if k < 2 then 32 else 0) ⟨List.replicate 4 .last, rfl⟩

theorem twoZonesPgdat_built : twoZonesPgdat.Built := ⟨_, rfl⟩

/-- Page 40 is handed over at boot and asked for. -/
def bootForty : Option (Option Nat × Node) :=
  (twoZones.freePagesBootmem 40 0).bind fun n => n.allocPages twoZonesPgdat 0 0 0 1

theorem twoZones_boot {rules : Rules} (boot : rules.bootOk 0) {n : Node}
    (returns : twoZones.freePagesBootmem 40 0 = some n) : NodeStep rules twoZones n := by
  have zone : (twoZones.memMap 40).zonenum = 1 := by decide
  rw [Node.freePagesBootmem, zone, Option.map_eq_some_iff] at returns
  obtain ⟨s, returns, rfl⟩ := returns
  refine .op (by decide) (.bootmem _ 40 0 s twoZones_freeable boot (fun x inside ne => ?_) returns)
  exact absurd (by simpa [head] using inside) ne

/-- A caller gets the page, and nobody else can. -/
theorem page_holders_runs_forty : ∃ n r, twoZones.freePagesBootmem 40 0 = some n ∧
    n.allocPages twoZonesPgdat 0 0 0 1 = some r ∧ r.1 = some 40 ∧
    HeldApart {x | n.Avail x} ⟨r.2, {(0, 40)}⟩ := by
  obtain ⟨r, both, page⟩ : ∃ r, bootForty = some r ∧ r.1 = some 40 :=
    ⟨_, Option.eq_some_of_isSome (by decide +kernel), by decide +kernel⟩
  obtain ⟨n, freed, taken⟩ := Option.bind_eq_some_iff.mp both
  obtain ⟨found, n'⟩ := r
  obtain rfl : found = some 40 := page
  have noZero : NoZero 0 := by simp [NoZero]
  have one : OneMobility 0 := .inl (by simp)
  have step : HolderStep twoZonesPgdat ⟨n, ∅⟩ ⟨n', insert (0, 40) ∅⟩ := .alloc noZero one taken
  rw [insert_empty_eq] at step
  exact ⟨n, _, freed, taken, rfl, (page_holders_runs twoZonesPgdat_built twoZones_fresh
    (.single (twoZones_boot (Or.inl rfl) freed)) (.single step)).1⟩

end XcKernel.PageAlloc
