import XcKernel.PageAlloc.Accounting
import XcKernel.PageAlloc.Zeroing

/-!
# Bulk frees over runs

`free_hot_cold_page` gives a batch of pages back to the zone when the per-cpu
lists hold too many.  The loop of `free_pcppages_bulk` would not end if there
were fewer pages than it is asked for, and nothing in it looks at the counter.

The pages go back one by one, each under the migratetype in its private field.
The trace of a bulk free is the list of these pages in order.
-/

namespace XcKernel.PageAlloc

open Blocks

/-- The same zone with other per-cpu lists. -/
def State.withPageset (s : State) (pageset : PerCpuPages) : State :=
  { s with zone := { s.zone with pageset := pageset } }

variable {s s' t : State} {pageset : PerCpuPages} {page order migratetype : Nat}

theorem destroyCompoundPage_withPageset :
    destroyCompoundPage (s.withPageset pageset) page order =
      ((destroyCompoundPage s page order).1,
        (destroyCompoundPage s page order).2.withPageset pageset) := by
  unfold destroyCompoundPage
  have start : (s.withPageset pageset).modifyPage page (·.clear .head) =
      (s.modifyPage page (·.clear .head)).withPageset pageset := rfl
  have bad : compoundOrder (s.withPageset pageset) page = compoundOrder s page := rfl
  have test : (s.withPageset pageset).memMap = s.memMap := rfl
  dsimp only
  rw [start, bad, test]
  generalize s.modifyPage page (·.clear .head) = u
  generalize (if compoundOrder s page ≠ order ∨ ¬ (s.memMap page).test .head then 1 else 0) = n
  induction List.range' 1 (1 <<< order - 1) generalizing u n with
  | nil => rfl
  | cons i rest ih =>
    rw [List.foldl_cons, List.foldl_cons]
    exact ih (u.modifyPage page (·.clear .tail)) _

theorem mergeLoop_withPageset (pageIdx buddyIdx : Nat) :
    mergeLoop (s.withPageset pageset) page pageIdx buddyIdx order =
      let m := mergeLoop s page pageIdx buddyIdx order
      { m with s := m.s.withPageset pageset } := by
  fun_induction mergeLoop s page pageIdx buddyIdx order with
  | case1 s page pageIdx buddyIdx order small buddyIdx' buddy merges s₁ combinedIdx ih =>
    rw [mergeLoop, if_pos small]
    dsimp only
    have merges' : pageIsBuddy (s.withPageset pageset) page buddy order = true := merges
    rw [if_pos merges']
    exact ih
  | case2 s page pageIdx buddyIdx order small buddyIdx' buddy stays =>
    rw [mergeLoop, if_pos small]
    dsimp only
    have stays' : ¬ pageIsBuddy (s.withPageset pageset) page buddy order = true := stays
    rw [if_neg stays']
  | case3 s page pageIdx buddyIdx order large =>
    rw [mergeLoop, if_neg large]

theorem insertMerged_withPageset (m : Merged) :
    insertMerged { m with s := m.s.withPageset pageset } migratetype =
      (insertMerged m migratetype).withPageset pageset := by
  unfold insertMerged
  have test : higherBuddyFree
      { m with s := (m.s.withPageset pageset).modifyPage m.page (·.setOrder m.order) } =
      higherBuddyFree { m with s := m.s.modifyPage m.page (·.setOrder m.order) } := rfl
  dsimp only
  rw [test]
  split
  · rfl
  · rfl

theorem freeOnePageLocked_withPageset :
    freeOnePageLocked (s.withPageset pageset) page order migratetype =
      (freeOnePageLocked s page order migratetype).withPageset pageset := by
  unfold freeOnePageLocked
  have compound : (s.withPageset pageset).memMap = s.memMap := rfl
  have start : (if (s.memMap page).compound then
        destroyCompoundPage (s.withPageset pageset) page order else (0, s.withPageset pageset)) =
      let r := if (s.memMap page).compound then destroyCompoundPage s page order else (0, s)
      (r.1, r.2.withPageset pageset) := by
    split
    · exact destroyCompoundPage_withPageset
    · rfl
  dsimp only at start ⊢
  rw [compound, start]
  generalize (if (s.memMap page).compound then destroyCompoundPage s page order else (0, s)) = r
  by_cases bad : r.1 ≠ 0
  · rw [if_pos bad, if_pos bad]
  · rw [if_neg bad, if_neg bad, mergeLoop_withPageset]
    exact insertMerged_withPageset _

/-- Give pages back to the zone one by one. -/
def returnPages (s : State) (type : Nat → Nat) (pages : List Nat) : State :=
  pages.foldl (fun s page => freeOnePageLocked s page 0 (type page)) s

theorem returnPages_withPageset (type : Nat → Nat) (pages : List Nat) :
    returnPages (s.withPageset pageset) type pages = (returnPages s type pages).withPageset pageset := by
  induction pages generalizing s with
  | nil => rfl
  | cons page pages ih =>
    show returnPages (freeOnePageLocked (s.withPageset pageset) page 0 (type page)) type pages = _
    rw [freeOnePageLocked_withPageset, ih]
    rfl

theorem returnPages_congr {type type' : Nat → Nat} {pages : List Nat}
    (same : ∀ page ∈ pages, type page = type' page) :
    returnPages s type pages = returnPages s type' pages := by
  apply List.foldl_ext
  intro u page mem
  rw [same page mem]

theorem returnPages_append (type : Nat → Nat) (pages pages' : List Nat) :
    returnPages s type (pages ++ pages') = returnPages (returnPages s type pages) type pages' :=
  List.foldl_append

/-- From `s` to `s'` the pages leave the per-cpu lists, and each goes back to the
zone under the migratetype it had in `s`. -/
structure Returned (s s' : State) (pages : List Nat) : Prop where
  removed : s.pcpPages.Perm (pages ++ s'.pcpPages)
  kept : ∀ x ∈ s'.pcpPages, s'.memMap x = s.memMap x
  state : s' = (returnPages s (fun page => (s.memMap page).priv) pages).withPageset s'.zone.pageset

theorem Returned.refl (s : State) : Returned s s [] := ⟨.refl _, fun _ _ => rfl, rfl⟩

theorem Returned.trans {s₁ s₂ s₃ : State} {pages pages' : List Nat}
    (first : Returned s₁ s₂ pages) (second : Returned s₂ s₃ pages') :
    Returned s₁ s₃ (pages ++ pages') := by
  have later : ∀ x ∈ s₃.pcpPages, x ∈ s₂.pcpPages := fun x hx =>
    second.removed.mem_iff.mpr (List.mem_append_right _ hx)
  have types : ∀ page ∈ pages', (s₂.memMap page).priv = (s₁.memMap page).priv := by
    intro page mem
    rw [first.kept page (second.removed.mem_iff.mpr (List.mem_append_left _ mem))]
  refine ⟨?_, fun x hx => ?_, ?_⟩
  · rw [List.append_assoc]
    exact first.removed.trans (second.removed.append_left pages)
  · rw [second.kept x hx, first.kept x (later x hx)]
  · have state : returnPages s₂ (fun page => (s₂.memMap page).priv) pages' =
        (returnPages s₁ (fun page => (s₁.memMap page).priv) (pages ++ pages')).withPageset
          s₂.zone.pageset := by
      rw [returnPages_congr types, returnPages_append, ← returnPages_withPageset, ← first.state]
    have last := second.state
    rw [state] at last
    exact last

variable {P : Nat → Page → Prop}

/-- A drain together with its trace. -/
def Traced (P : Nat → Page → Prop) (s s' : State) (n : Nat) : Prop :=
  Drained P s s' n ∧ ∃ pages, pages.length = n ∧ Returned s s' pages

theorem PcpInv.returnOne (stable : Stable P) (inv : PcpInv P s) {u x : Nat}
    (range : u < migratePcptypes) (last : (s.zone.pageset.lists u).getLast? = some x) :
    let s₁ := s.modifyPcpList u List.dropLast
    Returned s (freeOnePageLocked s₁ x 0 (s₁.memMap x).priv) [x] := by
  obtain ⟨perm, -, -, inv₂, spec⟩ := inv.freeLast stable range last
  have lists := spec.frame.pcpPages
  refine ⟨?_, fun y hy => ?_, ?_⟩
  · rw [lists]
    exact perm
  · exact spec.outside y (inv₂.lent y hy).not_covered
  · have pageset : s.modifyPcpList u List.dropLast =
        s.withPageset (s.modifyPcpList u List.dropLast).zone.pageset := rfl
    rw [spec.frame.pageset]
    show freeOnePageLocked (s.modifyPcpList u List.dropLast) x 0 (s.memMap x).priv =
      (freeOnePageLocked s x 0 (s.memMap x).priv).withPageset
        (s.modifyPcpList u List.dropLast).zone.pageset
    rw [← freeOnePageLocked_withPageset, ← pageset]

theorem Traced.rule (stable : Stable P) : DrainRule (PcpInv P) (Traced P) where
  refl := fun inv => ⟨.refl inv, [], rfl, .refl _⟩
  trans := by
    rintro a b c n m ⟨drained, pages, length, returned⟩ ⟨drained', pages', length', returned'⟩
    refine ⟨drained.trans drained', pages ++ pages', ?_, returned.trans returned'⟩
    rw [List.length_append, length, length']
  inv := fun traced => traced.1.inv
  length := fun traced => traced.1.length
  one := by
    intro s u x inv range last
    exact ⟨inv.drainOne stable range last, [x], rfl, inv.returnOne stable range last⟩

/-- What one call of `free_pcppages_bulk` with `pcp->batch` does. -/
structure BulkFreed (t t' : State) (pages : List Nat) : Prop where
  count : (pages.length : Int) = t.zone.pageset.batch
  nodup : pages.Nodup
  removed : t.pcpPages.Perm (pages ++ t'.pcpPages)
  free : ∀ x ∈ pages, Covered t'.Free x
  returned : t' = ((returnPages t (fun page => (t.memMap page).priv) pages).withPageset
    t'.zone.pageset).modZonePageState .nrFreePages t.zone.pageset.batch

theorem freePcppagesBulk_freed (stable : Stable P) (inv : PcpInv P t)
    (positive : 1 ≤ t.zone.pageset.batch)
    (enough : t.zone.pageset.batch.toNat ≤ t.pcpPages.length) :
    ∃ t' pages, freePcppagesBulk t t.zone.pageset.batch = some t' ∧ BulkFreed t t' pages := by
  obtain ⟨u, returns, drained, pages, length, returned⟩ :=
    (Traced.rule stable).bulkLoop 0 inv (by decide : 0 < migratePcptypes) enough
  have nodup := List.nodup_append'.mp (returned.removed.nodup_iff.mp inv.nodup)
  refine ⟨u.modZonePageState .nrFreePages t.zone.pageset.batch, pages, ?_, ?_, nodup.1,
    returned.removed, fun x hx => ?_, ?_⟩
  · rw [freePcppagesBulk, returns]
    rfl
  · rw [length]
    omega
  · have avail : t.Avail x := .inr (returned.removed.mem_iff.mpr (List.mem_append_left _ hx))
    rcases (drained.avail x).mpr avail with free | listed
    · exact free
    · exact (nodup.2.2 hx listed).elim
  · conv_lhs => rw [returned.state]
    rfl

/-- The state in which `free_hot_cold_page` calls `free_pcppages_bulk`, if it does. -/
def bulkCall (s : State) (page : Nat) (cold : Bool) : Option State :=
  let r := freePagesPrepare (s.modifyPage page (·.clear .mlocked)) page 0
  let migratetype := getPageblockMigratetype r.2 page
  if r.1 = true ∧ migratetype ≠ migrateIsolate then
    let list := if migratetype ≥ migratePcptypes then migrateMovable else migratetype
    let t := pcpAdded (hotColdReady s page) page list cold
    if t.zone.pageset.count ≥ t.zone.pageset.high then some t else none
  else none

/-- `addToPcp` with the state of the call. -/
theorem addToPcp_eq (s : State) (page list : Nat) (cold : Bool) :
    addToPcp s page list cold =
      if (pcpAdded s page list cold).zone.pageset.count ≥
          (pcpAdded s page list cold).zone.pageset.high then
        (freePcppagesBulk (pcpAdded s page list cold)
          (pcpAdded s page list cold).zone.pageset.batch).map
          fun s => s.addPcpCount (-s.zone.pageset.batch)
      else some (pcpAdded s page list cold) := rfl

/-- Either the call is made, and what is left to do is the counter, or
`free_hot_cold_page` returns without it. -/
theorem freeHotColdPage_bulkCall (s : State) (page : Nat) (cold : Bool) :
    match bulkCall s page cold with
    | some t => freeHotColdPage s page cold =
        (freePcppagesBulk t t.zone.pageset.batch).map fun s => s.addPcpCount (-s.zone.pageset.batch)
    | none => ∃ s', freeHotColdPage s page cold = some s' := by
  unfold bulkCall
  dsimp only
  cases ok : (freePagesPrepare (s.modifyPage page (·.clear .mlocked)) page 0).1 with
  | false =>
    rw [if_neg (by simp)]
    exact ⟨_, freeHotColdPage_refused ok⟩
  | true =>
    rw [freeHotColdPage_ready ok]
    dsimp only
    generalize getPageblockMigratetype
      (freePagesPrepare (s.modifyPage page (·.clear .mlocked)) page 0).2 page = migratetype
    by_cases isolate : migratetype = migrateIsolate
    · subst isolate
      rw [if_neg (by simp), if_pos (by decide), if_pos rfl]
      exact ⟨_, rfl⟩
    · have same : (if migratetype ≥ migratePcptypes then
            if migratetype = migrateIsolate then
              some (freeOnePage (hotColdReady s page) page 0 migratetype)
            else addToPcp (hotColdReady s page) page migrateMovable cold
          else addToPcp (hotColdReady s page) page migratetype cold) =
          addToPcp (hotColdReady s page) page
            (if migratetype ≥ migratePcptypes then migrateMovable else migratetype) cold := by
        rw [if_neg isolate]
        split
        · rfl
        · rfl
      rw [if_pos ⟨rfl, isolate⟩, same]
      generalize (if migratetype ≥ migratePcptypes then migrateMovable else migratetype) = list
      rw [addToPcp_eq]
      by_cases full : (pcpAdded (hotColdReady s page) page list cold).zone.pageset.count ≥
          (pcpAdded (hotColdReady s page) page list cold).zone.pageset.high
      · rw [if_pos full, if_pos full]
      · rw [if_neg full, if_neg full]
        exact ⟨_, rfl⟩

theorem bulkCall_added (inv : ZoneInv P s) (block : Freeable s 0 page) (admits : Admits P s 0 page)
    {cold : Bool} (call : bulkCall s page cold = some t) :
    PcpAdded P (hotColdReady s page) t page ∧
      t.zone.pageset.count ≥ t.zone.pageset.high := by
  unfold bulkCall at call
  dsimp only at call
  split at call
  · rename_i passed
    obtain ⟨ready, type⟩ := hotColdReady_ready inv block admits passed.1
    have good := ready.good page (head_of_dvd block.lent.aligned)
    generalize getPageblockMigratetype
      (freePagesPrepare (s.modifyPage page (·.clear .mlocked)) page 0).2 page = migratetype at call
    have range : (if migratetype ≥ migratePcptypes then migrateMovable else migratetype) <
        migratePcptypes := by
      split
      · decide
      · rename_i small
        exact Nat.lt_of_not_le small
    generalize (if migratetype ≥ migratePcptypes then migrateMovable else migratetype) = list
      at call range
    split at call
    · rename_i full
      cases call
      exact ⟨ready.inv.addPage ready.block good range type cold, full⟩
    · cases call
  · cases call

/-- The pages on the lists are pages of the zone, so their number fits where
the size of the zone does. -/
theorem PcpInv.length_le (inv : PcpInv P s) : s.pcpPages.length ≤ s.zone.spannedPages := by
  have inside : s.pcpPages.toFinset ⊆
      Finset.Ico s.zone.zoneStartPfn (s.zone.zoneStartPfn + s.zone.spannedPages) := by
    intro x mem
    have lent := inv.lent x (List.mem_toFinset.mp mem)
    have spanned : s.Spanned x := lent.inZone x (head_of_dvd lent.aligned)
    exact Finset.mem_Ico.mpr spanned
  have card := Finset.card_le_card inside
  rw [List.toFinset_card_of_nodup inv.nodup, Nat.card_Ico] at card
  omega

/-- The counter is right, and calls of `free_hot_cold_page` do what they should
with the lists. -/
structure PcpOk (s : State) : Prop where
  count : s.zone.pageset.count = s.pcpPages.length
  fits : s.pcpPages.length ≤ s.zone.spannedPages
  returns : ∀ page cold, Freeable s 0 page → ∃ s', freeHotColdPage s page cold = some s'
  bulk : ∀ page cold t, Freeable s 0 page → bulkCall s page cold = some t →
    ∃ t' pages, freePcppagesBulk t t.zone.pageset.batch = some t' ∧ BulkFreed t t' pages ∧
      freeHotColdPage s page cold = some (t'.addPcpCount (-t'.zone.pageset.batch))

theorem ZoneInv.pcpOk (inv : ZoneInv NoFlags s) : PcpOk s := by
  have bulk : ∀ page cold t, Freeable s 0 page → bulkCall s page cold = some t →
      ∃ t' pages, freePcppagesBulk t t.zone.pageset.batch = some t' ∧ BulkFreed t t' pages ∧
        freeHotColdPage s page cold = some (t'.addPcpCount (-t'.zone.pageset.batch)) := by
    intro page cold t block call
    obtain ⟨added, full⟩ := bulkCall_added inv block (fun _ _ _ prepared _ => prepared.flags) call
    obtain ⟨positive, enough⟩ := added.enough full
    obtain ⟨t', pages, returns, freed⟩ :=
      freePcppagesBulk_freed noFlags_stable added.inv positive enough
    have made := freeHotColdPage_bulkCall s page cold
    rw [call] at made
    dsimp only at made
    rw [returns] at made
    exact ⟨t', pages, returns, freed, made⟩
  refine ⟨inv.count, inv.toPcpInv.length_le, fun page cold block => ?_, bulk⟩
  cases call : bulkCall s page cold with
  | none =>
    have made := freeHotColdPage_bulkCall s page cold
    rw [call] at made
    exact made
  | some t =>
    obtain ⟨t', pages, -, -, made⟩ := bulk page cold t block call
    exact ⟨_, made⟩

/-- In every run without zeroed allocations the counter agrees with the lists,
and every bulk free returns, with exactly a batch of pages given back to the
zone, each once and under its own migratetype. -/
theorem pcp_lists_runs {s₀ : State} (fresh : FreshZone s₀) {s : State}
    (run : Relation.ReflTransGen (ZoneStep withoutZero) s₀ s) : PcpOk s :=
  (zoneInv_of_run withoutZero_keep fresh run).pcpOk

theorem ZoneInv.freeable (inv : ZoneInv P s) (spanned : s.Spanned page)
    (notFree : page ∉ pages maxOrder s.free) (off : page ∉ s.pcpPages) : Freeable s 0 page := by
  have single : ∀ {x}, head 0 x = page → x = page := fun h => by simpa [head] using h
  refine ⟨⟨one_dvd page, by decide, fun x inside => ?_, fun x inside covered => ?_⟩, fun x inside => ?_⟩
  · rw [single inside]
    exact spanned
  · rw [single inside, ← inv.buddy.mem_pages] at covered
    exact notFree covered
  · rw [single inside]
    exact off

/-- A page freed behind a block of eight: it is the batch that goes back. -/
theorem pcp_lists_runs_three :
    ∃ t t' pages, bulkCall (freePagesOk (freshState 16) 8 3) 3 false = some t ∧
      freePcppagesBulk t 1 = some t' ∧ BulkFreed t t' pages ∧ pages = [3] := by
  have run : Relation.ReflTransGen (ZoneStep withoutZero) (freshState 16)
      (freePagesOk (freshState 16) 8 3) :=
    .single (.op (.pages _ 8 3 freshState_freeable fun _ _ => trivial))
  have inv := zoneInv_of_run withoutZero_keep (freshState_fresh 16) run
  have block : Freeable (freePagesOk (freshState 16) 8 3) 0 3 :=
    inv.freeable (by decide +kernel) (by decide +kernel) (by decide +kernel)
  obtain ⟨t, call⟩ : ∃ t, bulkCall (freePagesOk (freshState 16) 8 3) 3 false = some t :=
    ⟨_, Option.eq_some_of_isSome (by decide +kernel)⟩
  obtain ⟨t', pages, returns, freed, -⟩ :=
    (pcp_lists_runs (freshState_fresh 16) run).bulk 3 false t block call
  have facts : (bulkCall (freePagesOk (freshState 16) 8 3) 3 false).map
      (fun t => (t.zone.pageset.batch, t.pcpPages)) = some (1, [3]) := by decide +kernel
  rw [call, Option.map_some, Option.some_inj, Prod.mk.injEq] at facts
  have count := freed.count
  have removed := freed.removed
  rw [facts.1] at returns count
  rw [facts.2] at removed
  obtain ⟨x, rfl⟩ := List.length_eq_one_iff.mp (by exact_mod_cast count : pages.length = 1)
  have mem : x ∈ [3] := removed.mem_iff.mpr (by simp)
  rw [List.mem_singleton.mp mem] at freed
  exact ⟨t, t', [3], call, returns, freed, rfl⟩

/-! A `struct list_head` is two words, `next` and `prev`; the lists link the `lru`
members of page structures, at 20.  A `struct per_cpu_pages` has `count`, `high`
and `batch` at 0, 4 and 8 and the list heads from 12 on. -/

/-- `__list_add` -/
def listAddBetween (m : Bytes) (new prev next : Nat) : Bytes :=
  let m := m.storeWord (next + 4) (BitVec.ofNat 32 new)
  let m := m.storeWord new (BitVec.ofNat 32 next)
  let m := m.storeWord (new + 4) (BitVec.ofNat 32 prev)
  m.storeWord prev (BitVec.ofNat 32 new)

def listAdd (m : Bytes) (new head : Nat) : Bytes := listAddBetween m new head (m.loadWord head).toNat

/-- `__list_del` -/
def listDelBetween (m : Bytes) (prev next : Nat) : Bytes :=
  (m.storeWord (next + 4) (BitVec.ofNat 32 prev)).storeWord prev (BitVec.ofNat 32 next)

/-- `list_del`, with `LIST_POISON1` and `LIST_POISON2` -/
def listDel (m : Bytes) (entry : Nat) : Bytes :=
  let m := listDelBetween m (m.loadWord (entry + 4)).toNat (m.loadWord entry).toNat
  (m.storeWord entry 0x00100100).storeWord (entry + 4) 0x00200200

def initListHead (m : Bytes) (list : Nat) : Bytes :=
  (m.storeWord list (BitVec.ofNat 32 list)).storeWord (list + 4) (BitVec.ofNat 32 list)

/-- The links lead from the head through the nodes in order and back. -/
def Linked (m : Bytes) (head : Nat) (nodes : List Nat) : Prop :=
  List.IsChain (fun a b => (m.loadWord a).toNat = b ∧ (m.loadWord (b + 4)).toNat = a)
    (head :: nodes ++ [head])

instance (m : Bytes) (head : Nat) (nodes : List Nat) : Decidable (Linked m head nodes) :=
  inferInstanceAs (Decidable (List.IsChain _ _))

namespace Layout

/-- The head of a per-cpu list. -/
def pcpList (pcp migratetype : Nat) : Nat := pcp + 12 + 8 * migratetype

/-- The `lru` members of pages. -/
def lru (L : Layout) (pages : List Nat) : List Nat := pages.map (L.page · + 20)

/-- The memory holds the pages of the zone and, at `pcp`, its per-cpu lists. -/
structure Holds (L : Layout) (m : Bytes) (pcp : Nat) (s : State) : Prop where
  pages : ∀ x, s.Spanned x → { L.read m x with lruPrev := (s.memMap x).lruPrev } = s.memMap x
  count : (m.loadWord pcp).toInt = s.zone.pageset.count
  high : (m.loadWord (pcp + 4)).toInt = s.zone.pageset.high
  batch : (m.loadWord (pcp + 8)).toInt = s.zone.pageset.batch
  lists : ∀ t < migratePcptypes, Linked m (pcpList pcp t) (L.lru (s.zone.pageset.lists t))

/-- The order 0 part of `buffered_rmqueue` where the list has a page: its `lru`. -/
def pcpRmqueue (m : Bytes) (pcp migratetype : Nat) (cold : Bool) : Nat × Bytes :=
  let list := pcpList pcp migratetype
  let entry := if cold then (m.loadWord (list + 4)).toNat else (m.loadWord list).toNat
  let m := listDel m entry
  (entry, m.storeWord pcp (m.loadWord pcp - 1))

/-- The counter at `pcp` is the number of pages on the lists that are linked there. -/
def CountOk (L : Layout) (m : Bytes) (pcp : Nat) : Prop :=
  ∃ lists : Nat → List Nat,
    (∀ t < migratePcptypes, Linked m (pcpList pcp t) (L.lru (lists t))) ∧
    (m.loadWord pcp).toInt = ((List.range migratePcptypes).flatMap lists).length

theorem Holds.countOk {L : Layout} {m : Bytes} {pcp : Nat} (holds : L.Holds m pcp s)
    (count : s.zone.pageset.count = s.pcpPages.length) : L.CountOk m pcp :=
  ⟨s.zone.pageset.lists, holds.lists, holds.count.trans count⟩

/-- Where the structure of the first page on a list has been wiped, nothing is
linked at its head. -/
theorem not_linked_of_wiped {L : Layout} {m : Bytes} {head page : Nat}
    (first : (m.loadWord head).toNat = L.page page + 20) (other : L.page page + 20 ≠ head)
    (positive : 0 < head) (wiped : m.loadWord (L.page page + 20) = 0) (pages : List Nat) :
    ¬ Linked m head (L.lru pages) := by
  intro linked
  cases pages with
  | nil =>
    have back := (List.isChain_cons_cons.mp linked).1.1
    exact other (first.symm.trans back)
  | cons p pages =>
    obtain ⟨⟨next, -⟩, rest⟩ := List.isChain_cons_cons.mp linked
    have same : L.page p + 20 = L.page page + 20 := next.symm.trans first
    cases pages with
    | nil =>
      have back : (m.loadWord (L.page p + 20)).toNat = head := (List.isChain_cons_cons.mp rest).1.1
      rw [same, wiped] at back
      exact positive.ne back
    | cons q pages =>
      have onward : (m.loadWord (L.page p + 20)).toNat = L.page q + 20 :=
        (List.isChain_cons_cons.mp rest).1.1
      rw [same, wiped] at onward
      exact Nat.succ_ne_zero _ onward.symm

theorem prepNewPage_loadWord {L : Layout} {m m' : Bytes} {page order a : Nat} {gfpFlags : BitVec 32}
    (zero : gfpFlags &&& gfpZero ≠ 0) (accepts : L.prepNewPage m page order gfpFlags = some m')
    (below : a + 4 ≤ L.page page) : m'.loadWord a = m.loadWord a := by
  apply Bytes.loadWord_congr
  intro x _ high
  have off : ¬ L.InPages page order x := by
    rintro ⟨inside, -⟩
    omega
  apply (prepNewPage_apply zero accepts off).2
  rintro ⟨inside, -⟩
  omega

theorem prepNewPage_lru {L : Layout} {m m' : Bytes} {page pfn : Nat} {gfpFlags : BitVec 32}
    (zero : gfpFlags &&& gfpZero ≠ 0) (accepts : L.prepNewPage m page 0 gfpFlags = some m')
    (behind : page < pfn) (near : pfn < page + 128) : m'.loadWord (L.page pfn + 20) = 0 := by
  have bytes : m'.loadWord (L.page pfn + 20) = Bytes.loadWord (fun _ => 0) (L.page pfn + 20) := by
    apply Bytes.loadWord_congr
    intro x above below
    simp only [Layout.page] at above below
    apply (prepNewPage_apply zero accepts ?_).1
    · simp only [InWindow, Layout.page, pageSize]
      omega
    · simp only [InPages, Layout.page]
      omega
  rw [bytes]
  simp [Bytes.loadWord]

/-- A zeroed page takes the lists with it whose first page is one of the 127 behind. -/
theorem not_linked_of_zeroed {L : Layout} {m m' : Bytes} {head page pfn : Nat} {gfpFlags : BitVec 32}
    (zero : gfpFlags &&& gfpZero ≠ 0) (accepts : L.prepNewPage m page 0 gfpFlags = some m')
    (positive : 0 < head) (low : head + 4 ≤ L.page page)
    (first : (m.loadWord head).toNat = L.page pfn + 20) (behind : page < pfn)
    (near : pfn < page + 128) (pages : List Nat) : ¬ Linked m' head (L.lru pages) := by
  apply not_linked_of_wiped
  · rw [prepNewPage_loadWord zero accepts low]
    exact first
  · simp only [Layout.page] at low ⊢
    omega
  · exact positive
  · exact prepNewPage_lru zero accepts behind near

end Layout

/-- A fresh zone of sixteen pages, set up with a batch of one page. -/
def batchOne : State := (freshState 16).withPageset (setupPageset 1)

/-- The address of its per-cpu lists. -/
def pcpAddress : Nat := 0xc0001000

/-- Memory after pages 9 and 8 have been put on the first of them. -/
def pairMemory : Bytes :=
  let m := (Layout.smallMemory 0 4096).storeWord pcpAddress 2
  let m := (m.storeWord (pcpAddress + 4) 6).storeWord (pcpAddress + 8) 1
  let m := initListHead m (Layout.pcpList pcpAddress 0)
  let m := initListHead m (Layout.pcpList pcpAddress 1)
  let m := initListHead m (Layout.pcpList pcpAddress 2)
  let m := listAdd m (Layout.smallMap.page 9 + 20) (Layout.pcpList pcpAddress 0)
  listAdd m (Layout.smallMap.page 8 + 20) (Layout.pcpList pcpAddress 0)

theorem batchOne_fresh : FreshZone batchOne := by
  have fresh := freshState_fresh 16
  exact ⟨⟨fresh.empty.lists, fresh.empty.nrFree, fresh.empty.unmarked, fresh.empty.zonenum⟩,
    ⟨1, rfl⟩, fresh.stat, fresh.migratetypes⟩

theorem batchOne_run : ∃ s, Relation.ReflTransGen (ZoneStep withoutZero) batchOne s ∧
    ((freeHotColdPage batchOne 9 false).bind fun s => freeHotColdPage s 8 false) = some s := by
  have fresh := batchOne_fresh.inv NoFlags
  have block : Freeable batchOne 0 9 := fresh.freeable (by decide) (by decide +kernel) (by decide)
  obtain ⟨s₁, first⟩ : ∃ s, freeHotColdPage batchOne 9 false = some s :=
    ⟨_, Option.eq_some_of_isSome (by decide +kernel)⟩
  have run : Relation.ReflTransGen (ZoneStep withoutZero) batchOne s₁ :=
    .single (.op (.hotCold batchOne 9 false s₁ block trivial first))
  have facts : (freeHotColdPage batchOne 9 false).map
      (fun s => (decide (s.Spanned 8), decide (8 ∈ pages maxOrder s.free), decide (8 ∈ s.pcpPages),
        (freeHotColdPage s 8 false).isSome)) = some (true, false, false, true) := by
    decide +kernel
  rw [first, Option.map_some, Option.some_inj] at facts
  simp only [Prod.mk.injEq, decide_eq_true_eq, decide_eq_false_iff_not] at facts
  have block₁ : Freeable s₁ 0 8 :=
    (zoneInv_of_run withoutZero_keep batchOne_fresh run).freeable facts.1 facts.2.1 facts.2.2.1
  obtain ⟨s₂, second⟩ := Option.isSome_iff_exists.mp facts.2.2.2
  refine ⟨s₂, run.tail (.op (.hotCold s₁ 8 false s₂ block₁ trivial second)), ?_⟩
  rw [first, Option.bind_some, second]

theorem batchOne_holds {s : State}
    (reached : ((freeHotColdPage batchOne 9 false).bind fun s => freeHotColdPage s 8 false) = some s) :
    Layout.smallMap.Holds pairMemory pcpAddress s := by
  have state : ((freeHotColdPage batchOne 9 false).bind fun s => freeHotColdPage s 8 false).map
      (fun s => decide (s.zone.zoneStartPfn = 0 ∧ s.zone.spannedPages = 16 ∧
        (∀ x < 16, { Layout.smallMap.read pairMemory x with
          lruPrev := (s.memMap x).lruPrev } = s.memMap x) ∧
        (pairMemory.loadWord pcpAddress).toInt = s.zone.pageset.count ∧
        (pairMemory.loadWord (pcpAddress + 4)).toInt = s.zone.pageset.high ∧
        (pairMemory.loadWord (pcpAddress + 8)).toInt = s.zone.pageset.batch ∧
        ∀ t < migratePcptypes, Linked pairMemory (Layout.pcpList pcpAddress t)
          (Layout.smallMap.lru (s.zone.pageset.lists t)))) = some true := by
    decide +kernel
  rw [reached, Option.map_some, Option.some_inj, decide_eq_true_eq] at state
  obtain ⟨start, size, pages, count, high, batch, lists⟩ := state
  refine ⟨fun x spanned => pages x ?_, count, high, batch, lists⟩
  have below := spanned.2
  omega

/-- Page 8 comes off the list, which leaves page 9. -/
theorem pairMemory_rmqueue : ∃ m m',
    Layout.pcpRmqueue pairMemory pcpAddress migrateUnmovable false = (Layout.smallMap.page 8 + 20, m) ∧
      (m.loadWord pcpAddress).toInt = 1 ∧
      (m.loadWord (Layout.pcpList pcpAddress 0)).toNat = Layout.smallMap.page 9 + 20 ∧
      Layout.smallMap.prepNewPage m 8 0 gfpZero = some m' := by
  have facts : (Layout.pcpRmqueue pairMemory pcpAddress migrateUnmovable false).1 =
        Layout.smallMap.page 8 + 20 ∧
      ((List.range (1 <<< 0)).any fun i => checkNewPage (Layout.smallMap.read
        (Layout.pcpRmqueue pairMemory pcpAddress migrateUnmovable false).2 (8 + i))) = false ∧
      ((Layout.pcpRmqueue pairMemory pcpAddress migrateUnmovable false).2.loadWord
        pcpAddress).toInt = 1 ∧
      ((Layout.pcpRmqueue pairMemory pcpAddress migrateUnmovable false).2.loadWord
        (Layout.pcpList pcpAddress 0)).toNat = Layout.smallMap.page 9 + 20 := by decide +kernel
  generalize Layout.pcpRmqueue pairMemory pcpAddress migrateUnmovable false = r at facts ⊢
  obtain ⟨entry, accepted, count, first⟩ := facts
  obtain ⟨m', accepts⟩ : ∃ m', Layout.smallMap.prepNewPage r.2 8 0 gfpZero = some m' := by
    rw [Layout.prepNewPage, accepted]
    exact ⟨_, rfl⟩
  exact ⟨r.2, m', Prod.ext entry rfl, count, first, accepts⟩

/-- Page 8 is taken off its list and zeroed; this wipes the links of page 9. -/
theorem pcp_lists_zeroed :
    ∃ s s' m m', FreshZone batchOne ∧
      Relation.ReflTransGen (ZoneStep withoutZero) batchOne s ∧
      Layout.smallMap.Holds pairMemory pcpAddress s ∧
      Layout.smallMap.CountOk pairMemory pcpAddress ∧
      bufferedRmqueue s 0 gfpZero migrateUnmovable 1 = some (some 8, s') ∧
      Layout.pcpRmqueue pairMemory pcpAddress migrateUnmovable false =
        (Layout.smallMap.page 8 + 20, m) ∧
      Layout.smallMap.prepNewPage m 8 0 gfpZero = some m' ∧
      (m'.loadWord pcpAddress).toInt = 1 ∧ ¬ Layout.smallMap.CountOk m' pcpAddress := by
  obtain ⟨s, run, reached⟩ := batchOne_run
  obtain ⟨m, m', entry, count, first, accepts⟩ := pairMemory_rmqueue
  have holds := batchOne_holds reached
  have inv := zoneInv_of_run withoutZero_keep batchOne_fresh run
  have taken : (((freeHotColdPage batchOne 9 false).bind fun s => freeHotColdPage s 8 false).bind
      fun s => bufferedRmqueue s 0 gfpZero migrateUnmovable 1).map Prod.fst = some (some 8) := by
    decide +kernel
  rw [reached, Option.bind_some] at taken
  obtain ⟨⟨page, s'⟩, returns, eight⟩ := Option.map_eq_some_iff.mp taken
  obtain rfl : page = some 8 := eight
  refine ⟨s, s', m, m', batchOne_fresh, run, holds, holds.countOk inv.count, returns, entry, accepts,
    ?_, ?_⟩
  · rw [Layout.prepNewPage_loadWord (by decide) accepts (by decide)]
    exact count
  · rintro ⟨lists, linked, -⟩
    apply Layout.not_linked_of_zeroed (by decide) accepts (by decide) (by decide) first (by decide)
      (by decide) (lists 0)
    exact linked 0 (by decide)

end XcKernel.PageAlloc
