import XcKernel.PageAlloc.AllocSpec
import XcKernel.PageAlloc.BuddyRuns

/-!
# Runs of operations on a zone

The operations of the zone with what their callers promise: a block that is
freed lies in the zone and none of its pages is available.  Between operations
the owners of the other pages may change them.
-/

namespace XcKernel.PageAlloc

open Blocks

/-- Which allocations a run may ask for, which pages it may free, and in blocks
of which orders boot memory comes. -/
structure Rules where
  gfpOk : BitVec 32 → Prop
  freeOk : Nat → Page → Prop
  bootOk : Nat → Prop

/-- One operation on the zone. -/
inductive ZoneOp (rules : Rules) : State → State → Prop where
  | hotCold (s : State) (page : Nat) (cold : Bool) (s' : State) (block : Freeable s 0 page)
      (ok : rules.freeOk page (s.memMap page)) (returns : freeHotColdPage s page cold = some s') :
      ZoneOp rules s s'
  | pages (s : State) (page order : Nat) (block : Freeable s order page)
      (ok : ∀ x, head order x = page → rules.freeOk x (s.memMap x)) :
      ZoneOp rules s (freePagesOk s page order)
  | bootmem (s : State) (page order : Nat) (s' : State) (block : Freeable s order page)
      (boot : rules.bootOk order)
      (ok : ∀ x, head order x = page → x ≠ page → rules.freeOk x (s.memMap x))
      (returns : freePagesBootmem s page order = some s') : ZoneOp rules s s'
  | alloc (s : State) (order : Nat) (gfpFlags : BitVec 32) (migratetype fuel : Nat)
      (r : Option Nat × State) (gfp : rules.gfpOk gfpFlags) (type : TypeFor order migratetype)
      (returns : bufferedRmqueue s order gfpFlags migratetype fuel = some r) :
      ZoneOp rules s r.2

/-- An operation, or a change by the owners of pages that are not available. -/
inductive ZoneStep (rules : Rules) : State → State → Prop where
  | op {s s' : State} (op : ZoneOp rules s s') : ZoneStep rules s s'
  | use {s s' : State} (zone : s'.zone = s.zone) (touches : Touches s s') : ZoneStep rules s s'

/-- A zone as it is set up: nothing in the lists, counters zero. -/
structure FreshZone (s : State) : Prop where
  empty : EmptyZone s
  pageset : ∃ batch, s.zone.pageset = setupPageset batch
  stat : s.zone.vmStat .nrFreePages = 0
  migratetypes : MigratetypesOk s

theorem FreshZone.inv {s : State} (fresh : FreshZone s) (P : Nat → Page → Prop) : ZoneInv P s := by
  have buddy := fresh.empty.inv.inv
  obtain ⟨batch, pageset⟩ := fresh.pageset
  have lists : s.pcpPages = [] := by
    rw [State.pcpPages, pageset]
    rfl
  have none : ∀ x, ¬ s.Avail x := by
    rintro x (⟨o, free⟩ | pcp)
    · simp [State.Free, State.free, fresh.empty.lists] at free
    · rw [lists] at pcp
      cases pcp
  have zero : s.zone.pagesBelow maxOrder = 0 := by
    simp [Zone.pagesBelow, fresh.empty.nrFree]
  refine ⟨⟨buddy, fresh.migratetypes, fun x avail => (none x avail).elim, ?_, ?_, ?_⟩, ?_, ?_, ?_⟩
  · rw [lists]
    exact .nil
  · simp [lists]
  · simp [lists]
  · rw [lists, pageset]
    rfl
  · rw [pageset]
    exact ⟨batch, rfl, by simp [setupPageset]⟩
  · rw [fresh.stat, zero]
    rfl

/-- The rules allow no zeroed allocation, and a page that is freed meets the
predicate once it is cleaned. -/
structure Rules.Keep (rules : Rules) (P : Nat → Page → Prop) : Prop where
  stable : Stable P
  noZero : ∀ {gfpFlags}, rules.gfpOk gfpFlags → gfpFlags &&& gfpZero = 0
  freed : ∀ {x : Nat} {old page : Page}, Prepared page → page.count = old.count →
    rules.freeOk x old → P x page
  boot : ∀ {x : Nat} {page : Page}, Prepared page → page.count = 0 → P x page

variable {P : Nat → Page → Prop} {rules : Rules} {s s' : State} {o p : Nat}

theorem freePagesBootmem_spec (keep : rules.Keep P) (inv : ZoneInv P s) (block : Freeable s o p)
    (ok : ∀ x, head o x = p → x ≠ p → rules.freeOk x (s.memMap x)) :
    ∃ b s', BootPrep s b p (fun x => o ≠ 0 ∧ p < x ∧ x < p + bitsPerLong) ∧ Touches s b ∧
      freePagesBootmem s p o = some s' ∧ Freed P b s' o p := by
  refine freePagesBootmem_freed keep.stable inv block fun b prep x inside q prepared count => ?_
  by_cases first : x = p
  · subst first
    rw [prep.first] at count
    exact keep.boot prepared count
  · have same : (b.memMap x).count = (s.memMap x).count := by
      by_cases near : o ≠ 0 ∧ p < x ∧ x < p + bitsPerLong
      · rw [prep.near x first near]
        rfl
      · rw [prep.far x first near]
    exact keep.freed prepared (count.trans same) (ok x inside first)

/-- A block of boot memory of an order that `__free_pages_memory` uses. -/
def BootOrder (order : Nat) : Prop := order = 0 ∨ 2 ^ order = bitsPerLong

theorem ZoneInv.op (keep : rules.Keep P) (inv : ZoneInv P s) (op : ZoneOp rules s s') :
    ∃ inside, Settled P s s' inside ∧
      ((∀ o, rules.bootOk o → BootOrder o) → ∀ x, inside x → s.Spanned x) := by
  cases op with
  | hotCold page cold s' block ok returns =>
    have admits : Admits P s 0 page := by
      intro x inside q prepared count
      obtain rfl : x = page := by simpa [head] using inside
      exact keep.freed prepared count ok
    obtain ⟨t, returns', freed⟩ := freeHotColdPage_freed keep.stable inv block admits cold
    obtain rfl := Option.some.inj (returns'.symm.trans returns)
    exact ⟨_, freed.settled, fun _ x inside => block.lent.inZone x inside⟩
  | pages page order block ok =>
    have admits : Admits P s order page := fun x inside q prepared count =>
      keep.freed prepared count (ok x inside)
    exact ⟨_, (freePagesOk_freed keep.stable inv block admits).settled,
      fun _ x inside => block.lent.inZone x inside⟩
  | bootmem page order s' block boot ok returns =>
    obtain ⟨b, t, prep, touches, returns', freed⟩ := freePagesBootmem_spec keep inv block ok
    obtain rfl := Option.some.inj (returns'.symm.trans returns)
    refine ⟨fun x => head order x = page ∨ order ≠ 0 ∧ page < x ∧ x < page + bitsPerLong,
      ⟨freed.inv, ?_, fun b => freed.boot (b.congr (by rw [prep.zone]))⟩, fun orders x inside => ?_⟩
    · have here : head order page = page := head_of_dvd block.lent.aligned
      have before : Keeps s b fun x =>
          head order x = page ∨ order ≠ 0 ∧ page < x ∧ x < page + bitsPerLong := by
        refine (prep.keeps touches).mono fun x window => .inl (window.imp_left ?_)
        rintro rfl
        exact here
      exact before.trans (freed.keeps.mono fun x inside => .inl (.inl inside))
    · refine block.lent.inZone x (inside.elim id fun window => ?_)
      obtain ⟨pair, low, high⟩ := window
      rw [head_eq_iff block.lent.aligned, (orders order boot).resolve_left pair]
      omega
  | alloc order gfpFlags migratetype fuel r gfp type returns =>
    exact ⟨_, bufferedRmqueue_inv keep.stable (keep.noZero gfp) type inv returns,
      fun _ _ no => no.elim⟩

theorem ZoneInv.step (keep : rules.Keep P) (inv : ZoneInv P s) (step : ZoneStep rules s s') :
    ZoneInv P s' := by
  cases step with
  | op op =>
    obtain ⟨_, settled, -⟩ := inv.op keep op
    exact settled.inv
  | use zone touches => exact inv.touch touches (by rw [zone]) (by rw [zone])

theorem zoneInv_of_run (keep : rules.Keep P) {s₀ s : State} (fresh : FreshZone s₀)
    (run : Relation.ReflTransGen (ZoneStep rules) s₀ s) : ZoneInv P s :=
  invariant_of_run (ZoneInv P) (fun _ _ inv step => inv.step keep step) (fresh.inv P) run

/-- The least that a run needs of an available page: no flags. -/
def NoFlags (_ : Nat) (page : Page) : Prop := page.flags &&& pageFlagsCheckAtPrep = 0

theorem noFlags_stable : Stable NoFlags where
  frame := fun frame none => by rw [NoFlags, frame.flags]; exact none
  noFlags := id

/-- Everything but zeroed allocations. -/
def withoutZero : Rules := ⟨fun gfpFlags => gfpFlags &&& gfpZero = 0, fun _ _ => True, fun _ => True⟩

theorem withoutZero_keep : withoutZero.Keep NoFlags :=
  ⟨noFlags_stable, id, fun prepared _ _ => prepared.flags, fun prepared _ => prepared.flags⟩

end XcKernel.PageAlloc
