import XcKernel.PageAlloc.BuddySpec
import XcKernel.Lib.Run

/-!
# Runs of the buddy allocator

A run starts from an empty zone and interleaves allocations with frees.  What
has been handed out is kept beside the state, so that the free blocks can be
compared with it.
-/

namespace XcKernel.PageAlloc

open Blocks

/-- The page lies in the block of the given order that starts at `head`. -/
def InBlock (order head x : Nat) : Prop := head ≤ x ∧ x < head + 2 ^ order

instance (order head x : Nat) : Decidable (InBlock order head x) :=
  inferInstanceAs (Decidable (_ ∧ _))

theorem inBlock_iff {o p x : Nat} (aligned : 2 ^ o ∣ p) : InBlock o p x ↔ head o x = p :=
  (head_eq_iff aligned).symm

/-- A block by order and first page. -/
structure Block where
  order : Nat
  page : Nat
  deriving DecidableEq, Repr

/-- Two blocks without a common page. -/
def Block.Apart (a b : Block) : Prop :=
  ∀ x, InBlock a.order a.page x → ¬ InBlock b.order b.page x

theorem Block.Apart.symm {a b : Block} (apart : a.Apart b) : b.Apart a :=
  fun x inB inA => apart x inA inB

/-- The allocator with the blocks it has handed out. -/
structure Tracked where
  st : State
  handed : List Block

/-- No list holds a page, no page of the zone is marked, and the span belongs to the zone. -/
structure EmptyZone (s : State) : Prop where
  lists : ∀ o t, s.zone.freeList o t = []
  nrFree : ∀ o, s.zone.nrFree o = 0
  unmarked : ∀ p, (s.memMap p).zonenum = s.zone.idx → (s.memMap p).buddy = false
  zonenum : ∀ p, s.Spanned p → (s.memMap p).zonenum = s.zone.idx

/-- One call.  A block may be freed that was handed out with its order, or that
has never been in the allocator; `__free_one_page` is for blocks that are not
compound. -/
inductive BuddyStep : Tracked → Tracked → Prop where
  | alloc (t : Tracked) (order migratetype page : Nat) (small : order < maxOrder)
      (range : migratetype < 4) (found : (rmqueue t.st order migratetype).1 = some page) :
      BuddyStep t ⟨(rmqueue t.st order migratetype).2, ⟨order, page⟩ :: t.handed⟩
  | fail (t : Tracked) (order migratetype : Nat) (small : order < maxOrder)
      (range : migratetype < 4) (missed : (rmqueue t.st order migratetype).1 = none) :
      BuddyStep t ⟨(rmqueue t.st order migratetype).2, t.handed⟩
  | free (t : Tracked) (b : Block) (migratetype : Nat) (range : migratetype < migrateTypes)
      (held : b ∈ t.handed) (plain : (t.st.memMap b.page).compound = false) :
      BuddyStep t ⟨freeOnePageLocked t.st b.page b.order migratetype, t.handed.erase b⟩
  | boot (t : Tracked) (b : Block) (migratetype : Nat) (range : migratetype < migrateTypes)
      (small : b.order < maxOrder) (aligned : 2 ^ b.order ∣ b.page)
      (inZone : ∀ x, InBlock b.order b.page x → t.st.Spanned x)
      (notFree : ∀ x, InBlock b.order b.page x → ∀ o p, t.st.Free o p → ¬ InBlock o p x)
      (notHanded : ∀ a ∈ t.handed, b.Apart a)
      (plain : (t.st.memMap b.page).compound = false) :
      BuddyStep t ⟨freeOnePageLocked t.st b.page b.order migratetype, t.handed⟩

/-- The invariant of runs: what has been handed out is not free, and no page
has been handed out twice. -/
structure TrackedInv (t : Tracked) : Prop where
  inv : BuddyInv t.st
  lent : ∀ b ∈ t.handed, Lent t.st b.order b.page
  apart : t.handed.Pairwise Block.Apart

theorem EmptyZone.inv {s : State} (empty : EmptyZone s) : TrackedInv ⟨s, []⟩ := by
  have none : ∀ o, s.free o = [] := by
    intro o
    simp [State.free, empty.lists]
  have nothing : ∀ o p, ¬ s.Free o p := by
    intro o p
    simp [State.Free, none]
  refine ⟨⟨⟨⟨fun h => (nothing _ _ h).elim, fun h => (nothing _ _ h).elim⟩,
    fun h => (nothing _ _ h).elim, fun h => (nothing _ _ h).elim, fun o => by simp [none],
    fun p zone => ?_, fun h => (nothing _ _ h).elim, empty.zonenum⟩, fun o => ?_,
    fun _ h => (nothing _ _ h).elim⟩, by simp, .nil⟩
  · simp [empty.unmarked p zone, nothing]
  · simp [empty.nrFree, none]

theorem Lent.ofNotFree {s : State} {o p : Nat} (aligned : 2 ^ o ∣ p) (small : o < maxOrder)
    (inZone : ∀ x, InBlock o p x → s.Spanned x)
    (notFree : ∀ x, InBlock o p x → ∀ o' p', s.Free o' p' → ¬ InBlock o' p' x) : Lent s o p := by
  refine ⟨aligned, small, fun x inside => inZone x ((inBlock_iff aligned).mpr inside), ?_⟩
  rintro x inside ⟨o', free⟩
  exact notFree x ((inBlock_iff aligned).mpr inside) o' _ free
    ((inBlock_iff (two_pow_dvd_head o' x)).mpr rfl)

theorem FreeSpec.lent {s s' : State} {b c : Block} (spec : FreeSpec s s' b.order b.page)
    (lentb : Lent s b.order b.page) (lentc : Lent s c.order c.page) (apart : b.Apart c) :
    Lent s' c.order c.page := by
  refine lentc.keep spec.frame fun x inside covered => ?_
  rcases (spec.covered x).mp covered with old | new
  · exact old
  · exact (apart x ((inBlock_iff lentb.aligned).mpr new)
      ((inBlock_iff lentc.aligned).mpr inside)).elim

theorem TakeSpec.apart {s s' : State} {o p : Nat} {c : Block} (spec : TakeSpec s s' o p)
    (lentc : Lent s c.order c.page) : Block.Apart ⟨o, p⟩ c := by
  intro x inNew inOld
  exact lentc.clear x ((inBlock_iff lentc.aligned).mp inOld)
    (spec.wasFree x ((inBlock_iff spec.lent.aligned).mp inNew))

theorem TrackedInv.step {t t' : Tracked} (h : TrackedInv t) (step : BuddyStep t t') :
    TrackedInv t' := by
  cases step with
  | alloc order migratetype page small range found =>
    have range' : migratetype < migrateTypes := by simp only [migrateTypes]; omega
    rcases rmqueue_takes order h.inv range' with none | ⟨p, some, take⟩
    · rw [none] at found
      cases found
    · obtain rfl : p = page := Option.some.inj (some.symm.trans found)
      refine ⟨take.inv, ?_, List.pairwise_cons.mpr ⟨?_, h.apart⟩⟩
      · intro b hb
        rcases List.mem_cons.mp hb with rfl | old
        · exact take.lent
        · exact (h.lent b old).keep take.frame fun x _ cov => ((take.covered x).mp cov).1
      · exact fun c hc => take.apart (h.lent c hc)
  | fail order migratetype small range missed =>
    have range' : migratetype < migrateTypes := by simp only [migrateTypes]; omega
    rcases rmqueue_takes order h.inv range' with none | ⟨p, some, take⟩
    · rw [none]
      exact h
    · rw [some] at missed
      cases missed
  | free b migratetype range held plain =>
    have lentb := h.lent b held
    have spec := freeOnePageLocked_spec h.inv lentb plain range
    have perm := List.perm_cons_erase held
    have pairs := (perm.pairwise_iff fun apart => Block.Apart.symm apart).mp h.apart
    rw [List.pairwise_cons] at pairs
    refine ⟨spec.inv, fun c hc => ?_, pairs.2⟩
    exact spec.lent lentb (h.lent c (List.mem_of_mem_erase hc)) (pairs.1 c hc)
  | boot b migratetype range small aligned inZone notFree notHanded plain =>
    have lentb : Lent t.st b.order b.page := .ofNotFree aligned small inZone notFree
    have spec := freeOnePageLocked_spec h.inv lentb plain range
    exact ⟨spec.inv, fun c hc => spec.lent lentb (h.lent c hc) (notHanded c hc), h.apart⟩

/-- What the run promises, in terms of the lists, the page map and the counters. -/
structure BuddyOk (t : Tracked) : Prop where
  aligned : ∀ {o p}, t.st.Free o p → o < maxOrder ∧ 2 ^ o ∣ p
  oneList : ∀ {o p}, t.st.Free o p →
    ∃! l : Nat × Nat, l.2 < migrateTypes ∧ p ∈ t.st.zone.freeList l.1 l.2
  once : ∀ o, ∀ m < migrateTypes, (t.st.zone.freeList o m).Nodup
  disjoint : ∀ {o p o' p'}, t.st.Free o p → t.st.Free o' p' → (o, p) ≠ (o', p') →
    Block.Apart ⟨o, p⟩ ⟨o', p'⟩
  notHanded : ∀ {o p}, t.st.Free o p → ∀ b ∈ t.handed, Block.Apart ⟨o, p⟩ b
  marked : ∀ p, (t.st.memMap p).zonenum = t.st.zone.idx → ∀ o,
    ((t.st.memMap p).buddy = true ∧ (t.st.memMap p).order = o ↔ t.st.Free o p)
  spanned : ∀ p, t.st.Spanned p → (t.st.memMap p).zonenum = t.st.zone.idx
  nrFree : ∀ o, t.st.zone.nrFree o =
    ((List.range migrateTypes).map fun m => (t.st.zone.freeList o m).length).sum
  merged : ∀ {o p}, o < maxOrder - 1 → t.st.Free o p → ¬ t.st.Free o (p ^^^ 2 ^ o)
  handedApart : t.handed.Pairwise Block.Apart
  returnsFresh : ∀ {order migratetype page}, order < maxOrder → migratetype < 4 →
    (rmqueue t.st order migratetype).1 = some page → ∀ b ∈ t.handed, Block.Apart ⟨order, page⟩ b

theorem TrackedInv.ok {t : Tracked} (h : TrackedInv t) : BuddyOk t := by
  have inv := h.inv
  have inBlock : ∀ {o p x}, t.st.Free o p → (InBlock o p x ↔ head o x = p) := fun free =>
    inBlock_iff (inv.tiling.aligned free)
  constructor
  · exact fun free => ⟨inv.small free, inv.tiling.aligned free⟩
  · intro o p free
    obtain ⟨m, range, member⟩ := (t.st.free_def o p).mp free
    refine ⟨(o, m), ⟨range, member⟩, ?_⟩
    rintro ⟨o', m'⟩ ⟨range', member'⟩
    have free' : t.st.Free o' p := (t.st.free_def o' p).mpr ⟨m', range', member'⟩
    obtain rfl := inv.tiling.order_eq free free'
    have lists := (List.nodup_flatMap.mp (inv.nodup o)).2
    rw [Prod.mk.injEq]
    refine ⟨rfl, ?_⟩
    by_contra ne
    have symm : Std.Symm (Function.onFun List.Disjoint (t.st.zone.freeList o)) :=
      ⟨fun _ _ disjoint => List.Disjoint.symm disjoint⟩
    exact lists.forall (List.mem_range.mpr range') (List.mem_range.mpr range) ne member' member
  · intro o m range
    exact (List.nodup_flatMap.mp (inv.nodup o)).1 m (List.mem_range.mpr range)
  · intro o p o' p' free free' ne x inside inside'
    rw [inBlock free] at inside
    rw [inBlock free'] at inside'
    obtain rfl := inv.tiling.unique (inside.symm ▸ free) (inside'.symm ▸ free')
    exact ne (by rw [← inside, ← inside'])
  · intro o p free b hb x inside inside'
    rw [inBlock free] at inside
    exact (h.lent b hb).clear x ((inBlock_iff (h.lent b hb).aligned).mp inside')
      (covered_of_head free inside)
  · intro p zone o
    rw [inv.marked p zone]
    constructor
    · rintro ⟨⟨o', free⟩, rfl⟩
      rwa [inv.order free]
    · exact fun free => ⟨⟨o, free⟩, inv.order free⟩
  · exact inv.zonenum
  · intro o
    rw [inv.count, State.free, List.length_flatMap]
  · exact fun small free => inv.merged (by simp only [maxOrder] at small ⊢; omega) free
  · exact h.apart
  · intro order migratetype page _ range found b hb
    have range' : migratetype < migrateTypes := by simp only [migrateTypes]; omega
    rcases rmqueue_takes order inv range' with none | ⟨p, some, take⟩
    · rw [none] at found
      cases found
    · obtain rfl : p = page := Option.some.inj (some.symm.trans found)
      exact take.apart (h.lent b hb)

/-- The buddy invariant holds in every state of every run from an empty zone. -/
theorem buddy_runs {s₀ : State} (empty : EmptyZone s₀) {t : Tracked}
    (run : Relation.ReflTransGen BuddyStep ⟨s₀, []⟩ t) : BuddyOk t := by
  have inv := invariant_of_run TrackedInv (fun _ _ inv step => inv.step step) empty.inv run
  exact inv.ok

/-- A zone of the first pages, none of them in the allocator yet. -/
def freshState (spannedPages : Nat) : State where
  memMap := fun _ => ⟨0, 0, -1, 0, 0, 0⟩
  zone :=
    { idx := 0
      lowmemReserve := fun _ => 0
      pageset := ⟨0, 0, 1, fun _ => []⟩
      freeList := fun _ _ => []
      nrFree := fun _ => 0
      pageblockFlags := fun _ => false
      vmStat := fun _ => 0
      zoneStartPfn := 0
      spannedPages := spannedPages }
  pageGroupByMobilityDisabled := false

theorem freshState_empty (spannedPages : Nat) : EmptyZone (freshState spannedPages) :=
  ⟨fun _ _ => rfl, fun _ => rfl, fun _ _ => rfl,
    fun _ _ => (by decide : Page.zonenum ⟨0, 0, -1, 0, 0, 0⟩ = 0)⟩

/-- One block of eight pages comes in and a single page of it goes out. -/
theorem buddy_runs_split :
    let s := freeOnePageLocked (freshState 4096) 8 3 migrateMovable
    let r := rmqueue s 0 migrateUnmovable
    r.1 = some 8 ∧ r.2.free 0 = [9] ∧ r.2.free 1 = [10] ∧ r.2.free 2 = [12] ∧
      BuddyOk ⟨r.2, [⟨0, 8⟩]⟩ := by
  refine ⟨by decide +kernel, by decide +kernel, by decide +kernel, by decide +kernel, ?_⟩
  refine buddy_runs (freshState_empty 4096)
    (.tail (.single (.boot _ ⟨3, 8⟩ migrateMovable ?_ ?_ ?_ ?_ ?_ ?_ ?_))
      (.alloc _ 0 migrateUnmovable 8 (by decide) (by decide) (by decide +kernel)))
  · decide
  · decide
  · decide
  · rintro x ⟨-, high⟩
    exact ⟨Nat.zero_le x, high.trans (by decide)⟩
  · intro x _ o p free
    simp [State.Free, State.free, freshState] at free
  · simp
  · decide

end XcKernel.PageAlloc
