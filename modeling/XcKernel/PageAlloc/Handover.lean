import XcKernel.PageAlloc.FreeMemory
import XcKernel.PageAlloc.Node

/-!
# Handing boot memory over to the zones

`memmap_init_zone` leaves every page reserved and with one reference.
`__free_pages_memory` gives a range of such pages to the allocator.  The loop of
`__free_pages_bootmem` over a block of 32 pages drops the reference of the first
page only, so that the others are refused when they are handed out later.
-/

namespace XcKernel.PageAlloc

open Blocks

/-- The body of the loop of `memmap_init_zone` on one page.  A node number takes no bits. -/
def memmapInitPage (page : Page) (zone : Nat) : Page :=
  let page := { page with
    flags := page.flags &&& ~~~(3#32 <<< 30) ||| (BitVec.ofNat 32 zone &&& 3#32) <<< 30 }
  let page := { page.setCount 1 with mapcount := -1 }
  page.set .reserved

/-- The state in which `memmap_init_zone` leaves a page of a map that was zero before. -/
structure Initialised (page : Page) : Prop where
  flags : page.flags &&& pageFlagsCheckAtPrep = PageFlag.reserved.mask
  mapping : page.mapping = 0
  mapcount : page.mapcount = -1
  count : page.count = 1

theorem initialised_memmapInitPage {zone : Nat} (small : zone < maxNrZones) :
    Initialised (memmapInitPage zeroedPage zone) := by
  refine ⟨?_, rfl, rfl, rfl⟩
  simp only [maxNrZones] at small
  interval_cases zone <;> decide

theorem Initialised.not_noFlags {page : Page} (init : Initialised page) :
    page.flags &&& pageFlagsCheckAtPrep ≠ 0 := by
  rw [init.flags]
  decide

theorem Initialised.acceptable {page : Page} (init : Initialised page) :
    Acceptable (page.clear .reserved) := by
  refine ⟨?_, init.mapping, init.mapcount⟩
  have left : ~~~PageFlag.reserved.mask &&& pageFlagsCheckAtFree =
      pageFlagsCheckAtPrep &&& (~~~PageFlag.reserved.mask &&& pageFlagsCheckAtFree) := by decide
  simp only [Page.clear]
  rw [BitVec.and_assoc, left, ← BitVec.and_assoc, init.flags]
  decide

/-- `__free_pages_bootmem` in the zone of the page -/
def Node.freePagesBootmem (n : Node) (page order : Nat) : Option Node :=
  let k := (n.memMap page).zonenum
  (PageAlloc.freePagesBootmem (n.view k) page order).map (n.put k)

/-- `__free_pages_memory` -/
def Node.freePagesMemory (n : Node) (start end_ : Nat) : Option Node :=
  (PageAlloc.freePagesMemory start end_).foldlM (fun n c => n.freePagesBootmem c.page c.order) n

/-- A block of one zone whose pages have not been touched since they were initialised. -/
def Waiting (n : Node) (o p : Nat) : Prop :=
  ∃ k < maxNrZones, ∀ x, head o x = p → n.Spanned k x ∧ Initialised (n.memMap x)

/-- One block has been given to its zone. -/
structure Handed (P : Nat → Page → Prop) (n n' : Node) (o p : Nat) : Prop where
  inv : NodeInv P n'
  span : ∀ k x, n'.Spanned k x ↔ n.Spanned k x
  other : ∀ x, head o x ≠ p → Initialised (n.memMap x) → n'.memMap x = n.memMap x
  count : ∀ x, x ≠ p → (n'.memMap x).count = (n.memMap x).count
  avail : ∀ x, n'.Avail x ↔ n.Avail x ∨ head o x = p

variable {P : Nat → Page → Prop} {rules : Rules} {n n' : Node} {o p : Nat}

theorem NodeInv.not_avail (stable : Stable P) (inv : NodeInv P n) {k : Nat} (small : k < maxNrZones)
    {x : Nat} (init : Initialised (n.memMap x)) : ¬ (n.view k).Avail x := fun avail =>
  init.not_noFlags (stable.noFlags ((inv.zone k small).pages x avail))

theorem BootOrder.small (order : BootOrder o) : o < maxOrder := by
  rcases order with rfl | pow
  · decide
  · by_contra large
    have := Nat.pow_le_pow_right (n := 2) (by decide) (Nat.not_lt.mp large)
    simp only [bitsPerLong, maxOrder] at *
    omega

theorem BootOrder.window (order : BootOrder o) (aligned : 2 ^ o ∣ p) (x : Nat) :
    (x = p ∨ o ≠ 0 ∧ p < x ∧ x < p + bitsPerLong) ↔ head o x = p := by
  rw [head_eq_iff aligned]
  rcases order with rfl | pow
  · omega
  · have : o ≠ 0 := by
      rintro rfl
      exact absurd pow (by decide)
    rw [pow]
    simp only [bitsPerLong]
    omega

theorem Waiting.freeable (stable : Stable P) (inv : NodeInv P n) (order : BootOrder o)
    (aligned : 2 ^ o ∣ p) {k : Nat} (small : k < maxNrZones)
    (pages : ∀ x, head o x = p → n.Spanned k x ∧ Initialised (n.memMap x)) :
    Freeable (n.view k) o p := by
  have off : ∀ x, head o x = p → ¬ (n.view k).Avail x := fun x inside =>
    inv.not_avail stable small (pages x inside).2
  exact ⟨⟨aligned, order.small, fun x inside => (pages x inside).1,
    fun x inside free => off x inside (.inl free)⟩, fun x inside pcp => off x inside (.inr pcp)⟩

theorem BootPrep.acceptable {s b : State} (order : BootOrder o) (aligned : 2 ^ o ∣ p)
    (prep : BootPrep s b p fun x => o ≠ 0 ∧ p < x ∧ x < p + bitsPerLong)
    (pages : ∀ x, head o x = p → Initialised (s.memMap x)) :
    ∀ x, head o x = p → Acceptable (b.memMap x) := by
  intro x inside
  by_cases first : x = p
  · subst first
    rw [prep.first]
    exact ⟨(pages x inside).acceptable.flags, (pages x inside).mapping, (pages x inside).mapcount⟩
  · rw [prep.near x first (((order.window aligned x).mpr inside).resolve_left first)]
    exact (pages x inside).acceptable

theorem Waiting.handed (keep : rules.Keep P) (orders : ∀ o, rules.bootOk o → BootOrder o)
    (inv : NodeInv P n) (boot : rules.bootOk o) (aligned : 2 ^ o ∣ p) (waiting : Waiting n o p)
    (ok : ∀ x, head o x = p → x ≠ p → rules.freeOk x (n.memMap x)) :
    ∃ n', n.freePagesBootmem p o = some n' ∧ Handed P n n' o p := by
  obtain ⟨k, small, pages⟩ := waiting
  have order := orders o boot
  have here : head o p = p := head_of_dvd aligned
  have block := Waiting.freeable keep.stable inv order aligned small pages
  have zone : (n.memMap p).zonenum = k := inv.zonenum small (pages p here).1
  obtain ⟨b, s, prep, touches, returns, freed⟩ :=
    freePagesBootmem_spec keep (inv.zone k small) block ok
  have released := freed.released (prep.acceptable order aligned fun x inside => (pages x inside).2)
  obtain ⟨inside, settled, within⟩ :=
    (inv.zone k small).op keep (.bootmem _ p o s block boot ok returns)
  have within' := within orders
  have avail : ∀ x, s.Avail x ↔ (n.view k).Avail x ∨ head o x = p := fun x => by
    rw [released.avail, touches.avail]
  refine ⟨n.put k s, by simp [Node.freePagesBootmem, zone, returns],
    inv.put small settled within', Node.spanned_put settled.keeps.span, fun x out init => ?_,
    fun x ne => ?_, inv.avail_put small settled within' avail⟩
  · have off : ¬ b.Avail x := by
      rw [touches.avail]
      exact inv.not_avail keep.stable small init
    have far := mt (order.window aligned x).mp out
    push Not at far
    show s.memMap x = _
    rw [released.untouched x out off,
      prep.far x far.1 fun near => absurd near.2.2 (far.2 near.1 near.2.1).not_gt]
    rfl
  · show (s.memMap x).count = _
    rw [released.count]
    by_cases near : o ≠ 0 ∧ p < x ∧ x < p + bitsPerLong
    · rw [prep.near x ne near]
      rfl
    · rw [prep.far x ne near]
      rfl

/-- The blocks of a list of calls have been given to their zones. -/
structure HandedAll (P : Nat → Page → Prop) (n n' : Node) (calls : List BootmemCall) : Prop where
  inv : NodeInv P n'
  count : ∀ x, (∀ c ∈ calls, x ≠ c.page) → (n'.memMap x).count = (n.memMap x).count
  avail : ∀ x, n'.Avail x ↔ n.Avail x ∨ ∃ c ∈ calls, head c.order x = c.page

/-- No page lies in the blocks of two calls. -/
def CallsApart (calls : List BootmemCall) : Prop :=
  calls.Pairwise fun c d => ∀ x, head d.order x = d.page → head c.order x ≠ c.page

/-- Blocks that are apart do not disturb each other. -/
theorem handedAll_of_apart (keep : rules.Keep P) (orders : ∀ o, rules.bootOk o → BootOrder o)
    {calls : List BootmemCall} (apart : CallsApart calls) (inv : NodeInv P n)
    (boot : ∀ c ∈ calls, rules.bootOk c.order ∧ 2 ^ c.order ∣ c.page)
    (waiting : ∀ c ∈ calls, Waiting n c.order c.page)
    (ok : ∀ c ∈ calls, ∀ x, head c.order x = c.page → x ≠ c.page → rules.freeOk x (n.memMap x)) :
    ∃ n', calls.foldlM (fun n c => n.freePagesBootmem c.page c.order) n = some n' ∧
      HandedAll P n n' calls := by
  induction calls generalizing n with
  | nil => exact ⟨n, rfl, inv, fun _ _ => rfl, by simp⟩
  | cons c calls ih =>
    obtain ⟨later, rest⟩ := List.pairwise_cons.mp apart
    obtain ⟨bootc, aligned⟩ := boot c List.mem_cons_self
    obtain ⟨n₁, call, handed⟩ := (waiting c List.mem_cons_self).handed keep orders inv bootc aligned
      (ok c List.mem_cons_self)
    have kept : ∀ d ∈ calls, ∀ x, head d.order x = d.page → n₁.memMap x = n.memMap x := by
      intro d hd x inside
      obtain ⟨k, -, pages⟩ := waiting d (List.mem_cons_of_mem c hd)
      exact handed.other x (later d hd x inside) (pages x inside).2
    have waiting₁ : ∀ d ∈ calls, Waiting n₁ d.order d.page := by
      intro d hd
      obtain ⟨k, small, pages⟩ := waiting d (List.mem_cons_of_mem c hd)
      refine ⟨k, small, fun x inside => ⟨(handed.span k x).mpr (pages x inside).1, ?_⟩⟩
      rw [kept d hd x inside]
      exact (pages x inside).2
    obtain ⟨n₂, calls₂, all⟩ := ih rest handed.inv
      (fun d hd => boot d (List.mem_cons_of_mem c hd)) waiting₁ fun d hd x inside ne =>
        (kept d hd x inside).symm ▸ ok d (List.mem_cons_of_mem c hd) x inside ne
    refine ⟨n₂, by rw [List.foldlM_cons, call]; exact calls₂, all.inv, fun x off => ?_, fun x => ?_⟩
    · rw [all.count x fun d hd => off d (List.mem_cons_of_mem c hd),
        handed.count x (off c List.mem_cons_self)]
    · rw [all.avail, handed.avail, List.exists_mem_cons_iff, or_assoc]

theorem Tiles.apart {calls : List BootmemCall} {a b : Nat} (tiles : Tiles calls a b)
    (aligned : ∀ c ∈ calls, 2 ^ c.order ∣ c.page) : CallsApart calls := by
  induction calls generalizing a with
  | nil => exact .nil
  | cons c calls ih =>
    obtain ⟨first, rest⟩ := tiles
    refine List.pairwise_cons.mpr ⟨fun d hd x inside same => ?_,
      ih rest fun d hd => aligned d (List.mem_cons_of_mem c hd)⟩
    rw [head_eq_iff (aligned d (List.mem_cons_of_mem c hd))] at inside
    rw [head_eq_iff (aligned c List.mem_cons_self)] at same
    have := (rest.within hd).1
    omega

theorem handedAll_of_tiles (keep : rules.Keep P) (orders : ∀ o, rules.bootOk o → BootOrder o)
    {calls : List BootmemCall} {a b : Nat} (tiles : Tiles calls a b) (inv : NodeInv P n)
    (boot : ∀ c ∈ calls, rules.bootOk c.order ∧ 2 ^ c.order ∣ c.page)
    (waiting : ∀ c ∈ calls, Waiting n c.order c.page)
    (ok : ∀ c ∈ calls, ∀ x, head c.order x = c.page → x ≠ c.page → rules.freeOk x (n.memMap x)) :
    ∃ n', calls.foldlM (fun n c => n.freePagesBootmem c.page c.order) n = some n' ∧
      HandedAll P n n' calls :=
  handedAll_of_apart keep orders (tiles.apart fun c hc => (boot c hc).2) inv boot waiting ok

/-- The blocks that `prep_new_page` refuses in a call of `buffered_rmqueue`. -/
def refusals (s : State) (order : Nat) (gfpFlags : BitVec 32) (migratetype : Nat) :
    (fuel : Nat) → List Nat
  | 0 => []
  | fuel + 1 =>
    let r := rmqueueRound s order gfpFlags migratetype
    match r.1 with
    | none => []
    | some page =>
      match prepNewPage r.2 page order gfpFlags with
      | none => page :: refusals r.2 order gfpFlags migratetype fuel
      | some _ => []

/-- A page without flags or mapping, marked or not. -/
structure Clean (page : Page) : Prop where
  flags : page.flags &&& pageFlagsCheckAtPrep = 0
  mapping : page.mapping = 0
  mapcount : page.mapcount = -1 ∨ page.mapcount = pageBuddyMapcountValue

theorem Prepared.clean {page : Page} (prepared : Prepared page) : Clean page :=
  ⟨prepared.flags, prepared.mapping, .inl prepared.mapcount⟩

/-- Available pages are clean, and those of a range have no reference. -/
def CleanIn (start end_ x : Nat) (page : Page) : Prop :=
  Clean page ∧ (start ≤ x → x < end_ → page.count = 0)

theorem cleanIn_stable (start end_ : Nat) : Stable (CleanIn start end_) where
  frame := by
    rintro x page page' frame ⟨clean, count⟩
    refine ⟨⟨by rw [frame.flags]; exact clean.flags, by rw [frame.mapping]; exact clean.mapping, ?_⟩,
      fun low high => by rw [frame.count]; exact count low high⟩
    rcases frame.mapcount with same | set
    · rw [same]
      exact clean.mapcount
    · exact set
  noFlags := fun clean => clean.1.flags

theorem refusals_outside {start end_ : Nat} {s : State} (inv : ZoneInv (CleanIn start end_) s)
    {order migratetype : Nat} (type : TypeFor order migratetype) (gfpFlags : BitVec 32)
    {fuel page : Nat} (refused : page ∈ refusals s order gfpFlags migratetype fuel) :
    ¬ ∀ x, head order x = page → start ≤ x ∧ x < end_ := by
  induction fuel generalizing s with
  | zero => cases refused
  | succ fuel ih =>
    rw [refusals] at refused
    rcases rmqueueRound_takes (cleanIn_stable start end_) inv type gfpFlags with
      ⟨none, -⟩ | ⟨p, some, taken⟩
    · rw [none] at refused
      cases refused
    · rw [some] at refused
      dsimp only at refused
      split at refused
      · rename_i rejects
        rcases List.mem_cons.mp refused with rfl | later
        · intro inside
          refine absurd rejects ?_
          unfold prepNewPage
          rw [if_neg]
          · simp
          simp only [List.any_eq_true, not_exists, not_and]
          intro i hi
          have block : head order (page + i) = page :=
            (mem_range_block taken.block.lent.aligned _).mp ⟨i, hi, rfl⟩
          obtain ⟨clean, count⟩ := taken.good _ block
          have range := inside _ block
          have unmarked : ((rmqueueRound s order gfpFlags migratetype).2.memMap (page + i)).buddy =
              false := by
            refine taken.inv.buddy.unmarked (taken.inv.buddy.zonenum _ ?_) fun free =>
              taken.block.not_avail block (.inl free)
            exact taken.block.lent.inZone _ block
          have mapcount := clean.mapcount.resolve_right (by simpa [Page.buddy] using unmarked)
          simp [checkNewPage, clean.flags, clean.mapping, mapcount, count range.1 range.2]
        · exact ih taken.inv later
      · cases refused

/-- Everything that happens while boot memory is handed over, zeroed allocations apart. -/
def bootRules : Rules := ⟨fun gfpFlags => gfpFlags &&& gfpZero = 0, fun _ _ => True, BootOrder⟩

/-- What may follow the hand-over of a range: a page of the range is freed again
without references. -/
def laterRules (start end_ : Nat) : Rules :=
  ⟨fun gfpFlags => gfpFlags &&& gfpZero = 0,
    fun x page => start ≤ x → x < end_ → page.count = 0, BootOrder⟩

theorem laterRules_keep (start end_ : Nat) :
    (laterRules start end_).Keep (CleanIn start end_) where
  stable := cleanIn_stable start end_
  noZero := id
  freed := fun prepared count ok => ⟨prepared.clean, fun low high => count.trans (ok low high)⟩
  boot := fun prepared count => ⟨prepared.clean, fun _ _ => count⟩

theorem bootRules_keep : bootRules.Keep (CleanIn 0 0) where
  stable := cleanIn_stable 0 0
  noZero := id
  freed := fun prepared _ _ => ⟨prepared.clean, fun _ high => absurd high (Nat.not_lt_zero _)⟩
  boot := fun prepared count => ⟨prepared.clean, fun _ _ => count⟩

/-- No page of the range keeps a reference or a flag, and no later allocation
drops a block of its pages. -/
structure TakenOver (n : Node) (start end_ : Nat) : Prop where
  pages : ∀ x, start ≤ x → x < end_ →
    (n.memMap x).count = 0 ∧ (n.memMap x).flags &&& pageFlagsCheckAtPrep = 0
  served : ∀ n', Relation.ReflTransGen (NodeStep (laterRules start end_)) n n' →
    ∀ k < maxNrZones, ∀ order gfpFlags migratetype fuel, TypeFor order migratetype →
      ∀ page ∈ refusals (n'.view k) order gfpFlags migratetype fuel,
        ¬ ∀ x, head order x = page → start ≤ x ∧ x < end_

/-- Two zones meet at a multiple of 32 pages, as `MAX_DMA_ADDRESS` is. -/
def ZonesAligned (n : Node) : Prop :=
  ∀ j < maxNrZones, ∀ k < maxNrZones, ∀ x y, n.Spanned j x → n.Spanned k y →
    head 5 x = head 5 y → j = k

/-- The pages of the range are in zones and as `memmap_init_zone` left them. -/
def RangeWaiting (n : Node) (start end_ : Nat) : Prop :=
  ∀ x, start ≤ x → x < end_ → (∃ k < maxNrZones, n.Spanned k x) ∧ Initialised (n.memMap x)

variable {start end_ : Nat}

theorem RangeWaiting.block (range : RangeWaiting n start end_) (aligned : ZonesAligned n)
    {c : BootmemCall} (orders : c.order = 0 ∨ c.order = 5) (dvd : 2 ^ c.order ∣ c.page)
    (within : ∀ x, head c.order x = c.page → start ≤ x ∧ x < end_) : Waiting n c.order c.page := by
  have first := within c.page (head_of_dvd dvd)
  obtain ⟨k, small, spanned⟩ := (range c.page first.1 first.2).1
  refine ⟨k, small, fun x inside => ?_⟩
  obtain ⟨⟨j, hj, spannedx⟩, init⟩ := range x (within x inside).1 (within x inside).2
  have sameBlock : head 5 x = head 5 c.page :=
    head_eq_of_le (by omega) inside
  obtain rfl : j = k := aligned j hj k small x c.page spannedx spanned sameBlock
  exact ⟨spannedx, init⟩

theorem bootOrder_of_order {o : Nat} (order : o = 0 ∨ o = 5) : BootOrder o :=
  order.imp id fun five => by rw [five]; rfl

theorem RangeWaiting.calls (range : RangeWaiting n start end_) (aligned : ZonesAligned n)
    (le : start ≤ end_) (bound : end_ < 2 ^ 31) {c : BootmemCall}
    (member : c ∈ PageAlloc.freePagesMemory start end_) :
    BootOrder c.order ∧ 2 ^ c.order ∣ c.page ∧ Waiting n c.order c.page := by
  have within := (freePagesMemory_tiles le bound).within member
  have order : (c.order = 0 ∨ c.order = 5) ∧ 2 ^ c.order ∣ c.page := by
    rcases freePagesMemory_order le bound member with ⟨zero, -⟩ | ⟨five, dvd⟩
    · rw [zero]
      exact ⟨.inl rfl, one_dvd _⟩
    · rw [five]
      exact ⟨.inr rfl, dvd⟩
  obtain ⟨orders, dvd⟩ := order
  refine ⟨bootOrder_of_order orders, dvd, range.block aligned orders dvd fun x inside => ?_⟩
  rw [head_eq_iff dvd] at inside
  omega

theorem ZoneInv.mono {Q : Nat → Page → Prop} {s : State} (inv : ZoneInv P s)
    (sub : ∀ x, s.Avail x → P x (s.memMap x) → Q x (s.memMap x)) : ZoneInv Q s :=
  ⟨⟨inv.buddy, inv.migratetypes, fun x avail => sub x avail (inv.pages x avail), inv.nodup,
    inv.lent, inv.types⟩, inv.count, inv.limits, inv.stat⟩

theorem RangeWaiting.cleanIn (range : RangeWaiting n start end_) (inv : NodeInv (CleanIn 0 0) n) :
    NodeInv (CleanIn start end_) n := by
  refine ⟨fun k small => (inv.zone k small).mono fun x avail clean => ⟨clean.1, fun low high => ?_⟩,
    inv.idx, inv.boot⟩
  exact absurd avail (inv.not_avail (cleanIn_stable 0 0) small (range x low high).2)

/-- A range is taken over exactly if it contains no aligned block of 32 pages. -/
theorem handover_iff {n₀ : Node} (fresh : FreshNode n₀)
    (run : Relation.ReflTransGen (NodeStep bootRules) n₀ n) (aligned : ZonesAligned n)
    (le : start ≤ end_) (bound : end_ < 2 ^ 31) (range : RangeWaiting n start end_) :
    (∃ n', n.freePagesMemory start end_ = some n' ∧ TakenOver n' start end_) ↔
      ∀ b, 32 ∣ b → ¬ (start ≤ b ∧ b + 32 ≤ end_) := by
  have inv := nodeInv_of_run bootRules_keep (fun _ => id) (fresh.inv (CleanIn 0 0)) run
  have calls := fun {c} member => range.calls (c := c) aligned le bound member
  have tiles := freePagesMemory_tiles le bound
  constructor
  · rintro ⟨n', returns, taken⟩ b dvd ⟨low, high⟩
    obtain ⟨n'', returns', all⟩ := handedAll_of_tiles bootRules_keep (fun _ => id) tiles inv
      (fun c hc => ⟨(calls hc).1, (calls hc).2.1⟩) (fun c hc => (calls hc).2.2)
      (fun _ _ _ _ _ => trivial)
    obtain rfl := Option.some.inj (returns'.symm.trans returns)
    -- the second page of the block is the first of no call
    have notFirst : ∀ c ∈ PageAlloc.freePagesMemory start end_, b + 1 ≠ c.page := by
      intro c hc eq
      rcases freePagesMemory_order le bound hc with ⟨-, apart⟩ | ⟨-, dvd'⟩
      · have := apart b dvd low high
        omega
      · omega
    have kept := all.count (b + 1) notFirst
    rw [(taken.pages (b + 1) (by omega) (by omega)).1,
      (range (b + 1) (by omega) (by omega)).2.count] at kept
    exact absurd kept (by decide)
  · intro none
    have single : ∀ c ∈ PageAlloc.freePagesMemory start end_, c.order = 0 := by
      intro c hc
      rcases freePagesMemory_order le bound hc with ⟨zero, -⟩ | ⟨five, dvd⟩
      · exact zero
      · have within := tiles.within hc
        rw [five] at within
        exact absurd ⟨within.1, within.2⟩ (none c.page dvd)
    obtain ⟨n', returns, all⟩ := handedAll_of_tiles (laterRules_keep start end_) (fun _ => id) tiles
      (range.cleanIn inv) (fun c hc => ⟨(calls hc).1, (calls hc).2.1⟩) (fun c hc => (calls hc).2.2)
      fun c hc x inside ne => absurd (by simpa [single c hc, head] using inside) ne
    refine ⟨n', returns, fun x low high => ?_, fun n'' later k small order gfpFlags migratetype fuel
      type page refused => ?_⟩
    · obtain ⟨c, hc, covers⟩ := tiles.covers low high
      have avail := (all.avail x).mpr (.inr ⟨c, hc, (head_eq_iff (calls hc).2.1).mpr covers⟩)
      obtain ⟨clean, count⟩ := all.inv.page avail
      exact ⟨count low high, clean.flags⟩
    · have inv'' := nodeInv_of_run (laterRules_keep start end_) (fun _ => id) all.inv later
      exact refusals_outside (inv''.zone k small) type gfpFlags refused

/-- A node whose first zone spans the first pages, as it is after `memmap_init_zone`. -/
def bootNode (spannedPages : Nat) : Node where
  memMap := fun _ => memmapInitPage zeroedPage 0
  zones := fun k => { (freshState (if k = 0 then spannedPages else 0)).zone with idx := k }
  pageset := setupPageset 0
  pageGroupByMobilityDisabled := false

theorem bootNode_fresh (spannedPages : Nat) : FreshNode (bootNode spannedPages) := by
  refine ⟨fun k _ => ⟨⟨fun _ _ => rfl, fun _ => rfl, fun _ _ => rfl, fun x spanned => ?_⟩, ⟨0, rfl⟩,
    rfl, fun pfn => ?_⟩, fun k _ => rfl, rfl⟩
  · have first : k = 0 := by
      by_contra ne
      simp [State.Spanned, Node.view, bootNode, freshState, ne] at spanned
    rw [first]
    show Page.zonenum (memmapInitPage zeroedPage 0) = 0
    decide
  · have zero : getPageblockMigratetype ((bootNode spannedPages).view k) pfn = 0 := rfl
    rw [zero]
    decide

theorem bootNode_spanned {spannedPages k x : Nat} (spanned : (bootNode spannedPages).Spanned k x) :
    k = 0 := by
  by_contra ne
  simp [Node.Spanned, State.Spanned, Node.view, bootNode, freshState, ne] at spanned

theorem bootNode_aligned (spannedPages : Nat) : ZonesAligned (bootNode spannedPages) :=
  fun _ _ _ _ _ _ spanned spanned' _ => (bootNode_spanned spanned).trans (bootNode_spanned spanned').symm

theorem bootNode_waiting {spannedPages end_ : Nat} (le : end_ ≤ spannedPages) (start : Nat) :
    RangeWaiting (bootNode spannedPages) start end_ := by
  intro x low high
  refine ⟨⟨0, by decide, Nat.zero_le x, ?_⟩, initialised_memmapInitPage (by decide)⟩
  simp only [Node.view, bootNode, freshState, if_true]
  omega

/-- The pages 3 to 19 contain no block of 32. -/
theorem handover_iff_singles :
    ∃ n', (bootNode 64).freePagesMemory 3 20 = some n' ∧ TakenOver n' 3 20 :=
  (handover_iff (bootNode_fresh 64) .refl (bootNode_aligned 64) (by decide) (by decide)
    (bootNode_waiting (by decide) 3)).mpr fun b dvd => by omega

/-- Of the first 32 pages only page 0 loses its reference, and the whole block is
refused when it is asked for. -/
theorem handover_block :
    FreshNode (bootNode 64) ∧ RangeWaiting (bootNode 64) 0 32 ∧
      ∃ n', (bootNode 64).freePagesMemory 0 32 = some n' ∧ (n'.memMap 1).count = 1 ∧
        refusals (n'.view 0) 5 0 migrateMovable 1 = [0] ∧ ¬ TakenOver n' 0 32 := by
  refine ⟨bootNode_fresh 64, bootNode_waiting (by decide) 0, ?_⟩
  obtain ⟨n', returns, count, refused⟩ : ∃ n', (bootNode 64).freePagesMemory 0 32 = some n' ∧
      (n'.memMap 1).count = 1 ∧ refusals (n'.view 0) 5 0 migrateMovable 1 = [0] :=
    ⟨_, Option.eq_some_of_isSome (by decide +kernel), by decide +kernel, by decide +kernel⟩
  refine ⟨n', returns, count, refused, fun taken => ?_⟩
  have := (taken.pages 1 (by decide) (by decide)).1
  omega

end XcKernel.PageAlloc
