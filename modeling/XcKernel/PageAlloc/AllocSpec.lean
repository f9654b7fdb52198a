import XcKernel.PageAlloc.FreeSpec

/-!
# Allocating pages keeps the zone invariant

Every round of `buffered_rmqueue` takes a block out of what is available, so
that the rounds come to an end even if every block is refused.
-/

namespace XcKernel.PageAlloc

open Blocks

variable {P : Nat → Page → Prop} {s s' : State} {o p : Nat}

/-- The number of available pages. -/
def State.supply (s : State) : Nat := s.zone.pagesBelow maxOrder + s.pcpPages.length

/-- A block of good pages has left what is available. -/
structure Taken (P : Nat → Page → Prop) (s s' : State) (o p : Nat) : Prop where
  inv : ZoneInv P s'
  block : Freeable s' o p
  good : ∀ x, head o x = p → P x (s'.memMap x)
  supply : s'.supply + 2 ^ o = s.supply
  keeps : Keeps s s' fun _ => False
  wasAvail : ∀ x, head o x = p → s.Avail x
  boot : BootPageset s → BootPageset s'

/-- Nothing was found, or a block was taken. -/
def TakesBlock (P : Nat → Page → Prop) (s : State) (o : Nat) (r : Option Nat × State) : Prop :=
  (r.1 = none ∧ Settled P s r.2 fun _ => False) ∨ ∃ p, r.1 = some p ∧ Taken P s r.2 o p

theorem TakeSpec.keeps (spec : TakeSpec s s' o p) : Keeps s s' fun _ => False := by
  refine ⟨spec.frame.span, spec.frame.zonenum, fun x off _ => ?_, fun x avail => .inl ?_⟩
  · exact spec.outside x fun free => off (.inl free)
  · rw [State.Avail, spec.frame.pcpPages] at avail
    exact avail.imp_left fun free => ((spec.covered x).mp free).1

theorem zoneRmqueue_takes (stable : Stable P) (inv : ZoneInv P s) {migratetype : Nat}
    (range : migratetype < migrateTypes) : TakesBlock P s o (zoneRmqueue s o migratetype) := by
  unfold zoneRmqueue
  dsimp only
  rcases rmqueue_takes o inv.buddy range with none | ⟨p, some, take⟩
  · rw [none]
    exact .inl ⟨rfl, inv, .refl s _, id⟩
  · obtain ⟨inv₁, good⟩ := inv.toPcpInv.take stable take
    have pages := take.pagesBelow inv.buddy
    have touches := touches_modZonePageState inv₁ .nrFreePages (-(1 <<< o : Nat))
    have lists : (rmqueue s o migratetype).2.pcpPages = s.pcpPages := take.frame.pcpPages
    rw [some]
    refine .inr ⟨p, rfl, ⟨inv₁.touch touches, ?_, ?_, ?_⟩, ?_, fun x inside => (good x inside).2, ?_,
      take.keeps.trans ⟨⟨rfl, rfl, rfl, rfl⟩, fun _ => rfl, fun _ _ _ => rfl,
        fun x avail => .inl ((touches.avail x).mp avail)⟩,
      fun x inside => .inl (take.wasFree x inside), fun boot => boot.congr take.frame.pageset⟩
    · rw [touches.pcpPages, lists]
      show (rmqueue s o migratetype).2.zone.pageset.count = _
      rw [take.frame.pageset]
      exact inv.count
    · show ∃ b : Nat, (rmqueue s o migratetype).2.zone.pageset.high = _ ∧
        (rmqueue s o migratetype).2.zone.pageset.batch = _
      rw [take.frame.pageset]
      exact inv.limits
    · show (rmqueue s o migratetype).2.zone.vmStat _ + -((1 <<< o : Nat) : Int) =
        ((rmqueue s o migratetype).2.zone.pagesBelow maxOrder : Int)
      rw [take.frame.vmStat, inv.stat, pages, Nat.one_shiftLeft]
      push_cast
      ring
    · exact ⟨touches.same.lent take.lent, fun x inside => touches.pcpPages ▸ (good x inside).1⟩
    · rw [State.supply, State.supply, touches.pcpPages, lists]
      show (rmqueue s o migratetype).2.zone.pagesBelow maxOrder + _ + _ = _
      omega

/-- Pages that have been taken one by one and are not on a list yet. -/
structure Held (P : Nat → Page → Prop) (s : State) (taken : List Nat) : Prop where
  nodup : taken.Nodup
  good : ∀ x ∈ taken, Lent s 0 x ∧ x ∉ s.pcpPages ∧ P x (s.memMap x) ∧
    (s.memMap x).priv < migrateTypes

/-- What the loop of `rmqueue_bulk` does to the state. -/
structure Refilled (P : Nat → Page → Prop) (s s' : State) (before taken : List Nat) : Prop where
  inv : PcpInv P s'
  held : Held P s' taken
  pages : s'.zone.pagesBelow maxOrder + taken.length = s.zone.pagesBelow maxOrder + before.length
  pageset : s'.zone.pageset = s.zone.pageset
  vmStat : s'.zone.vmStat = s.zone.vmStat
  keeps : Keeps s s' fun _ => False
  wasAvail : ∀ x ∈ taken, x ∈ before ∨ s.Avail x

theorem Held.take (stable : Stable P) (inv : PcpInv P s) {taken : List Nat} (held : Held P s taken)
    {x migratetype : Nat} (spec : TakeSpec s s' 0 x) (range : migratetype < migrateTypes) :
    let s'' := s'.modifyPage x fun page => { page with priv := migratetype }
    PcpInv P s'' ∧ Held P s'' (taken ++ [x]) ∧ Keeps s s'' fun _ => False := by
  have single : ∀ y, head 0 y = x ↔ y = x := fun y => by simp [head]
  have here : head 0 x = x := (single x).mpr rfl
  obtain ⟨inv₁, good⟩ := inv.take stable spec
  obtain ⟨off, goodx⟩ := good x here
  set s'' := s'.modifyPage x fun page => { page with priv := migratetype } with hs''
  have fresh : x ∉ taken := fun hx => (held.good x hx).1.not_covered (spec.wasFree x here)
  have block : Freeable s' 0 x := ⟨spec.lent, fun y inside => (good y inside).1⟩
  have other : ∀ y, y ≠ x → s''.memMap y = s'.memMap y := fun y ne => if_neg ne
  have self : s''.memMap x = { s'.memMap x with priv := migratetype } := if_pos rfl
  have touches : Touches s' s'' := by
    refine inv₁.touches ⟨rfl, rfl, rfl, rfl, rfl, rfl⟩ rfl (fun y avail => ?_) (fun y => ?_) fun y => ?_
    · refine other y ?_
      rintro rfl
      exact block.not_avail here avail
    · by_cases eq : y = x
      · rw [eq, self, Page.zonenum, Page.zonenum]
      · rw [other y eq]
    · by_cases eq : y = x
      · rw [eq, self]
      · rw [other y eq]
  have keeps : Keeps s' s'' fun y => s.Avail y := by
    refine ⟨⟨rfl, rfl, rfl, rfl⟩, touches.zonenum, fun y _ unavail => other y ?_, fun y avail => .inl ?_⟩
    · rintro rfl
      exact unavail (.inl (spec.wasFree y here))
    · exact (touches.avail y).mp avail
  refine ⟨inv₁.touch touches, ⟨?_, ?_⟩, ?_⟩
  · rw [List.nodup_append']
    exact ⟨held.nodup, List.nodup_singleton x, by simpa using fresh⟩
  · intro y hy
    rcases List.mem_append.mp hy with old | new
    · obtain ⟨lent, offy, goody, type⟩ := held.good y old
      have ne : y ≠ x := fun eq => fresh (eq ▸ old)
      have same : s''.memMap y = s.memMap y := by
        rw [other y ne, spec.outside y lent.not_covered]
      refine ⟨touches.same.lent (lent.keep spec.frame fun z _ cov => ((spec.covered z).mp cov).1), ?_,
        same ▸ goody, same ▸ type⟩
      rw [touches.pcpPages, spec.frame.pcpPages]
      exact offy
    · obtain rfl := List.mem_singleton.mp new
      refine ⟨touches.same.lent spec.lent, touches.pcpPages ▸ off, ?_, ?_⟩
      · rw [self]
        have frame : PageFrame (s'.memMap y) { s'.memMap y with priv := migratetype } :=
          ⟨rfl, rfl, rfl, rfl, .inl rfl⟩
        exact stable.frame frame goodx
      · rw [self]
        exact range
  · exact ((spec.keeps.mono fun _ no => no.elim).trans keeps).mono fun y avail => .inr avail

theorem rmqueueLoop_spec (stable : Stable P) {migratetype : Nat} (range : migratetype < migrateTypes)
    (inv : PcpInv P s) {taken : List Nat} (held : Held P s taken) (count : Nat) :
    Refilled P s (rmqueueLoop s 0 migratetype count taken).2 taken
      (rmqueueLoop s 0 migratetype count taken).1 := by
  induction count generalizing s taken with
  | zero => exact ⟨inv, held, rfl, rfl, rfl, .refl s _, fun _ => .inl⟩
  | succ count ih =>
    rw [rmqueueLoop]
    rcases rmqueue_takes 0 inv.buddy range with none | ⟨x, some, take⟩
    · rw [none]
      exact ⟨inv, held, rfl, rfl, rfl, .refl s _, fun _ => .inl⟩
    · rw [some]
      obtain ⟨inv₁, held₁, keeps₁⟩ := held.take stable inv take range
      obtain ⟨inv₂, held₂, pages, pageset, vmStat, keeps, wasAvail⟩ := ih inv₁ held₁
      have before := take.pagesBelow inv.buddy
      refine ⟨inv₂, held₂, ?_, pageset.trans take.frame.pageset, vmStat.trans take.frame.vmStat,
        keeps₁.trans keeps, fun y hy => ?_⟩
      rotate_left
      · rcases wasAvail y hy with old | avail
        · rcases List.mem_append.mp old with old | new
          · exact .inl old
          · exact .inr (.inl (take.wasFree y (by rw [List.mem_singleton.mp new]; simp [head])))
        · exact .inr ((keeps₁.avail y avail).resolve_right id)
      have step : ((rmqueue s 0 migratetype).2.modifyPage x fun page =>
          { page with priv := migratetype }).zone = (rmqueue s 0 migratetype).2.zone := rfl
      rw [step, List.length_append, List.length_singleton] at pages
      simp only [Nat.pow_zero] at before
      dsimp only
      omega

theorem rmqueueLoop_length (s : State) (migratetype count : Nat) (taken : List Nat) :
    (rmqueueLoop s 0 migratetype count taken).1.length ≤ taken.length + count := by
  induction count generalizing s taken with
  | zero => exact le_rfl
  | succ count ih =>
    rw [rmqueueLoop]
    split
    · exact Nat.le_add_right _ _
    · rename_i x _
      have := ih ((rmqueue s 0 migratetype).2.modifyPage x fun p => { p with priv := migratetype })
        (taken ++ [x])
      rw [List.length_append, List.length_singleton] at this
      omega

/-- One per-cpu list has been refilled with `count` pages at most, and the
counters agree again. -/
structure Restocked (P : Nat → Page → Prop) (s s' : State) (t count : Nat) : Prop where
  inv : ZoneInv P s'
  supply : s'.supply = s.supply
  keeps : Keeps s s' fun _ => False
  high : s'.zone.pageset.high = s.zone.pageset.high
  batch : s'.zone.pageset.batch = s.zone.pageset.batch
  length : s'.pcpPages.length ≤ s.pcpPages.length + min count (s'.zone.pageset.lists t).length

theorem rmqueueBulk_restocks (stable : Stable P) (inv : ZoneInv P s) {t : Nat}
    (range : t < migratePcptypes) (count : Nat) (cold : Bool) :
    let r := rmqueueBulk s 0 count t cold
    Restocked P s (r.2.addPcpCount r.1) t count := by
  have held : Held P s [] := ⟨.nil, by simp⟩
  have types : t < migrateTypes := range.trans (by decide)
  obtain ⟨inv₁, held₁, pages, pageset, vmStat, keeps, wasAvail⟩ :=
    rmqueueLoop_spec stable types inv.toPcpInv held count
  have few := rmqueueLoop_length s t count []
  unfold rmqueueBulk
  dsimp only
  set r := rmqueueLoop s 0 t count [] with hr
  set f : List Nat → List Nat := fun l => if cold then l ++ r.1.reverse else r.1 ++ l with hf
  have adds : (f (r.2.zone.pageset.lists t)).Perm (r.1 ++ r.2.zone.pageset.lists t) := by
    rw [hf]
    dsimp only
    split
    · exact List.perm_append_comm.trans ((List.reverse_perm _).append_right _)
    · exact .refl _
  have perm := pcpPages_add range adds
  have inv₂ := inv₁.addPages range adds held₁.nodup held₁.good
  have lists : r.2.pcpPages = s.pcpPages := by rw [State.pcpPages, State.pcpPages, pageset]
  have touches : Touches (r.2.modifyPcpList t f) (((r.2.modifyPcpList t f).modZonePageState
      .nrFreePages (-(r.1.length <<< 0 : Nat))).addPcpCount r.1.length) :=
    inv₂.touches ⟨rfl, rfl, rfl, rfl, rfl, rfl⟩ rfl (fun _ _ => rfl) (fun _ => rfl) (fun _ => rfl)
  have length : (r.2.modifyPcpList t f).pcpPages.length = r.1.length + s.pcpPages.length := by
    rw [perm.length_eq, List.length_append, lists]
  have member : ∀ x, x ∈ (r.2.modifyPcpList t f).pcpPages → s.Avail x := by
    intro x hx
    rcases List.mem_append.mp (perm.mem_iff.mp hx) with new | old
    · exact (wasAvail x new).resolve_left List.not_mem_nil
    · exact .inr (lists ▸ old)
  simp only [List.length_nil, Nat.add_zero] at pages
  refine ⟨⟨inv₂.touch touches, ?_, ?_, ?_⟩, ?_, ⟨keeps.span.trans ⟨rfl, rfl, rfl, rfl⟩, keeps.zonenum,
    keeps.outside, fun x avail => ?_⟩, by rw [← pageset]; rfl, by rw [← pageset]; rfl, ?_⟩
  · rw [touches.pcpPages, length]
    show r.2.zone.pageset.count + _ = _
    rw [pageset, inv.count]
    push_cast
    ring
  · show ∃ b : Nat, r.2.zone.pageset.high = 6 * b ∧ r.2.zone.pageset.batch = max 1 b
    rw [pageset]
    exact inv.limits
  · show r.2.zone.vmStat _ + _ = (r.2.zone.pagesBelow maxOrder : Int)
    rw [vmStat, inv.stat, Nat.shiftLeft_zero, ← pages]
    push_cast
    ring
  · rw [State.supply, State.supply, touches.pcpPages, length]
    show r.2.zone.pagesBelow maxOrder + _ = _
    omega
  · rcases (touches.avail x).mp avail with free | pcp
    · exact keeps.avail x (.inl free)
    · exact .inl (member x pcp)
  · rw [touches.pcpPages, length]
    have list : ((r.2.modifyPcpList t f).zone.pageset.lists t) = f (r.2.zone.pageset.lists t) :=
      if_pos rfl
    show _ ≤ _ + min count ((r.2.modifyPcpList t f).zone.pageset.lists t).length
    rw [list, adds.length_eq, List.length_append]
    rw [List.length_nil] at few
    omega

/-- Taking one page off a per-cpu list. -/
theorem ZoneInv.takePage (inv : ZoneInv P s) {t x : Nat} (range : t < migratePcptypes)
    {f : List Nat → List Nat}
    (removes : (s.zone.pageset.lists t).Perm (x :: f (s.zone.pageset.lists t))) :
    Taken P s ((s.modifyPcpList t f).addPcpCount (-1)) 0 x ∧
      ((s.modifyPcpList t f).addPcpCount (-1)).pcpPages.length + 1 = s.pcpPages.length := by
  have single : ∀ y, head 0 y = x ↔ y = x := fun y => by simp [head]
  have perm := pcpPages_remove range removes
  obtain ⟨inv₁, lent, off, good⟩ := inv.toPcpInv.removePage range removes
  have touches := touches_addPcpCount inv₁ (-1)
  have length := perm.length_eq
  rw [List.length_cons] at length
  have sub : ∀ y, y ∈ (s.modifyPcpList t f).pcpPages → y ∈ s.pcpPages := fun y hy =>
    perm.mem_iff.mpr (List.mem_cons_of_mem x hy)
  refine ⟨⟨⟨inv₁.touch touches, ?_, inv.limits, inv.stat⟩, ⟨touches.same.lent lent, ?_⟩, ?_, ?_,
    ⟨⟨rfl, rfl, rfl, rfl⟩, fun _ => rfl, fun _ _ _ => rfl, fun y avail => .inl ?_⟩, ?_,
    fun boot => ?_⟩, length.symm⟩
  · rw [touches.pcpPages]
    show s.zone.pageset.count + -1 = _
    rw [inv.count]
    omega
  · intro y inside
    rw [touches.pcpPages, (single y).mp inside]
    exact off
  · intro y inside
    rw [(single y).mp inside]
    exact good
  · rw [State.supply, State.supply, touches.pcpPages, length]
    show s.zone.pagesBelow maxOrder + _ + _ = _
    omega
  · exact ((touches.avail y).mp avail).imp_right (sub y)
  · intro y inside
    rw [(single y).mp inside]
    exact .inr (perm.mem_iff.mpr List.mem_cons_self)
  · rw [boot.pages] at length
    cases length

theorem Restocked.refl (inv : ZoneInv P s) (t count : Nat) : Restocked P s s t count :=
  ⟨inv, rfl, .refl s _, rfl, rfl, Nat.le_add_right _ _⟩

theorem pcpRmqueue_takes (stable : Stable P) (inv : ZoneInv P s) {t : Nat}
    (range : t < migratePcptypes) (cold : Bool) : TakesBlock P s 0 (pcpRmqueue s t cold) := by
  unfold pcpRmqueue
  set s₁ := if s.zone.pageset.lists t = [] then
      let r := rmqueueBulk s 0 s.zone.pageset.batch.toNat t cold
      r.2.addPcpCount r.1
    else s with hs₁
  have filled : Restocked P s s₁ t s.zone.pageset.batch.toNat := by
    rw [hs₁]
    split
    · exact rmqueueBulk_restocks stable inv range _ cold
    · exact .refl inv _ _
  obtain ⟨inv₁, supply, keeps, high, batch, length⟩ := filled
  -- at boot one page comes in and leaves at once
  have atMost : BootPageset s → s₁.pcpPages.length ≤ min 1 (s₁.zone.pageset.lists t).length := by
    intro boot
    rw [boot.pages, boot.batch, List.length_nil, Nat.zero_add] at length
    exact length
  dsimp only
  split
  · rename_i found
    refine .inl ⟨rfl, inv₁, keeps, fun boot => ⟨high.trans boot.high, batch.trans boot.batch, ?_⟩⟩
    have empty : s₁.zone.pageset.lists t = [] := by
      cases cold with
      | true => exact List.getLast?_eq_none_iff.mp found
      | false => exact List.head?_eq_none_iff.mp found
    have := atMost boot
    rw [empty] at this
    exact List.eq_nil_of_length_eq_zero (by simpa using this)
  · rename_i x found
    refine .inr ⟨x, rfl, ?_⟩
    have removes : (s₁.zone.pageset.lists t).Perm (x ::
        (if cold then (s₁.zone.pageset.lists t).dropLast else (s₁.zone.pageset.lists t).tail)) := by
      cases cold with
      | true =>
        conv_lhs => rw [← List.dropLast_append_getLast? x found]
        exact List.perm_append_singleton _ _
      | false =>
        obtain ⟨rest, eq⟩ := List.head?_eq_some_iff.mp found
        simp [eq]
    obtain ⟨taken, left⟩ :=
      inv₁.takePage range (f := fun l => if cold then l.dropLast else l.tail) removes
    refine ⟨taken.inv, taken.block, taken.good, taken.supply.trans supply,
      keeps.trans taken.keeps, fun y inside => ?_, fun boot => ⟨high.trans boot.high,
      batch.trans boot.batch, ?_⟩⟩
    · exact (keeps.avail y (taken.wasAvail y inside)).resolve_right id
    · have := atMost boot
      dsimp only
      exact List.eq_nil_of_length_eq_zero (by omega)

/-- Only the pages of a set differ, and in neither zone nor mapcount. -/
structure Writes (s s' : State) (inside : Nat → Prop) : Prop where
  zone : s'.zone = s.zone
  disabled : s'.pageGroupByMobilityDisabled = s.pageGroupByMobilityDisabled
  zonenum : ∀ x, (s'.memMap x).zonenum = (s.memMap x).zonenum
  mapcount : ∀ x, (s'.memMap x).mapcount = (s.memMap x).mapcount
  outside : ∀ x, ¬ inside x → s'.memMap x = s.memMap x

theorem Writes.refl (s : State) (inside : Nat → Prop) : Writes s s inside :=
  ⟨rfl, rfl, fun _ => rfl, fun _ => rfl, fun _ _ => rfl⟩

theorem Writes.trans {a b c : State} {inside : Nat → Prop} (ab : Writes a b inside)
    (bc : Writes b c inside) : Writes a c inside :=
  ⟨bc.zone.trans ab.zone, bc.disabled.trans ab.disabled, fun x => (bc.zonenum x).trans (ab.zonenum x),
    fun x => (bc.mapcount x).trans (ab.mapcount x),
    fun x out => (bc.outside x out).trans (ab.outside x out)⟩

theorem Writes.modifyPage (s : State) (inside : Nat → Prop) {x : Nat} (here : inside x)
    {f : Page → Page} (zonenum : ∀ page, (f page).zonenum = page.zonenum)
    (mapcount : ∀ page, (f page).mapcount = page.mapcount) :
    Writes s (s.modifyPage x f) inside := by
  refine ⟨rfl, rfl, fun y => ?_, fun y => ?_, fun y out => if_neg fun eq : y = x => out (eq ▸ here)⟩
  · simp only [State.modifyPage]
    split
    · exact zonenum _
    · rfl
  · simp only [State.modifyPage]
    split
    · exact mapcount _
    · rfl

theorem Writes.touches (inv : PcpInv P s) (block : Freeable s o p)
    (writes : Writes s s' fun x => head o x = p) : Touches s s' :=
  inv.touches (.of_zone writes.zone) (by rw [writes.zone])
    (fun x avail => writes.outside x fun inside => block.not_avail inside avail) writes.zonenum
    writes.mapcount

theorem prepCompoundPage_writes (s : State) (aligned : 2 ^ o ∣ p) (pair : o ≠ 0) :
    Writes s (prepCompoundPage s p o) fun x => head o x = p := by
  have inside : ∀ i < 2 ^ o, head o (p + i) = p := fun i hi =>
    (head_eq_iff aligned).mpr ⟨Nat.le_add_right p i, by omega⟩
  have two : 2 ≤ 2 ^ o := by
    calc 2 = 2 ^ 1 := rfl
      _ ≤ 2 ^ o := Nat.pow_le_pow_right (by omega) (by omega)
  have order : Writes s (s.modifyPage (p + 1) fun q => { q with lruPrev := o })
      fun x => head o x = p :=
    .modifyPage s (fun x => head o x = p) (inside 1 (by omega)) (fun _ => rfl)
      (fun _ => rfl)
  unfold prepCompoundPage
  dsimp only
  generalize s.modifyPage (p + 1) (fun q => { q with lruPrev := o }) = s₁ at order
  have first : Writes s (s₁.modifyPage p (·.set .head)) fun x => head o x = p :=
    order.trans (.modifyPage s₁ (fun x => head o x = p)
      (head_of_dvd aligned) (fun q => zonenum_set q _) (fun _ => rfl))
  generalize s₁.modifyPage p (·.set .head) = s₂ at first
  have tails : ∀ i ∈ List.range' 1 (1 <<< o - 1), i < 2 ^ o := by
    intro i hi
    have := List.mem_range'_1.mp hi
    rw [Nat.one_shiftLeft] at this
    omega
  generalize List.range' 1 (1 <<< o - 1) = rest at tails
  induction rest generalizing s₂ with
  | nil => exact first
  | cons i rest ih =>
    rw [List.foldl_cons]
    refine ih _ (first.trans (.modifyPage s₂ (fun x => head o x = p)
      (inside i (tails i List.mem_cons_self))
      (f := fun q => { q.set .tail with priv := p }) (fun q => zonenum_set q .tail)
      (fun _ => rfl))) fun j hj => tails j (List.mem_cons_of_mem i hj)

theorem prepNewPage_writes {gfpFlags : BitVec 32} (noZero : gfpFlags &&& gfpZero = 0)
    (aligned : 2 ^ o ∣ p) (accepts : prepNewPage s p o gfpFlags = some s') :
    Writes s s' fun x => head o x = p := by
  unfold prepNewPage at accepts
  split at accepts
  · cases accepts
  · have first : Writes s (s.modifyPage p fun q => { q with priv := 0, count := 1 })
        fun x => head o x = p :=
      .modifyPage s (fun x => head o x = p) (head_of_dvd aligned) (fun _ => rfl)
        (fun _ => rfl)
    dsimp only at accepts
    rw [if_neg (show ¬ gfpFlags &&& gfpZero ≠ 0 from not_not.mpr noZero)] at accepts
    cases accepts
    split
    · rename_i compound
      exact first.trans (prepCompoundPage_writes _ aligned compound.1)
    · exact first

/-- A migratetype that indexes the lists used for the order. -/
def TypeFor (order migratetype : Nat) : Prop :=
  migratetype < if order = 0 then migratePcptypes else migrateReserve + 1

instance (order migratetype : Nat) : Decidable (TypeFor order migratetype) :=
  inferInstanceAs (Decidable (_ < _))

theorem rmqueueRound_takes (stable : Stable P) (inv : ZoneInv P s) {migratetype : Nat}
    (type : TypeFor o migratetype) (gfpFlags : BitVec 32) :
    TakesBlock P s o (rmqueueRound s o gfpFlags migratetype) := by
  unfold rmqueueRound
  unfold TypeFor at type
  split_ifs at type ⊢ with zero
  · subst zero
    exact pcpRmqueue_takes stable inv type _
  · exact zoneRmqueue_takes stable inv (type.trans_le (by decide))

theorem Taken.handOut (taken : Taken P s s' o p) {gfpFlags : BitVec 32}
    (noZero : gfpFlags &&& gfpZero = 0) {s'' : State}
    (accepts : prepNewPage s' p o gfpFlags = some s'') : Settled P s s'' fun _ => False := by
  have writes := prepNewPage_writes noZero taken.block.lent.aligned accepts
  have touches := writes.touches taken.inv.toPcpInv taken.block
  have keeps : Keeps s' s'' fun x => s.Avail x := by
    refine ⟨⟨?_, ?_, ?_, writes.disabled⟩, writes.zonenum, fun x _ off => ?_,
      fun x avail => .inl ((touches.avail x).mp avail)⟩
    · rw [writes.zone]
    · rw [writes.zone]
    · rw [writes.zone]
    · exact writes.outside x fun inside => off (taken.wasAvail x inside)
  refine ⟨taken.inv.touch touches (by rw [writes.zone]) (by rw [writes.zone]), ?_, fun boot =>
    (taken.boot boot).congr (by rw [writes.zone])⟩
  exact ((taken.keeps.mono fun _ no => no.elim).trans keeps).mono fun _ avail => .inr avail

theorem Taken.then {s'' : State} (taken : Taken P s s' o p)
    (rest : Settled P s' s'' fun _ => False) : Settled P s s'' fun _ => False :=
  ⟨rest.inv, taken.keeps.trans rest.keeps, fun boot => rest.boot (taken.boot boot)⟩

/-- Whatever the number of rounds, the invariant holds at the end and other
pages are as before. -/
theorem bufferedRmqueue_inv (stable : Stable P) {migratetype : Nat} {gfpFlags : BitVec 32}
    (noZero : gfpFlags &&& gfpZero = 0) (type : TypeFor o migratetype) (inv : ZoneInv P s)
    {fuel : Nat} {r : Option Nat × State}
    (returns : bufferedRmqueue s o gfpFlags migratetype fuel = some r) :
    Settled P s r.2 fun _ => False := by
  induction fuel generalizing s with
  | zero => cases returns
  | succ fuel ih =>
    rw [bufferedRmqueue] at returns
    rcases rmqueueRound_takes stable inv type gfpFlags with ⟨none, missed⟩ | ⟨p, some, taken⟩
    · rw [none] at returns
      cases returns
      exact missed
    · rw [some] at returns
      dsimp only at returns
      split at returns
      · exact taken.then (ih taken.inv returns)
      · rename_i s'' accepts
        cases returns
        exact taken.handOut noZero accepts

theorem bufferedRmqueue_takes (stable : Stable P) {migratetype : Nat} {gfpFlags : BitVec 32}
    (noZero : gfpFlags &&& gfpZero = 0) (type : TypeFor o migratetype) (inv : ZoneInv P s)
    {fuel : Nat} (returns : bufferedRmqueue s o gfpFlags migratetype fuel = some (some p, s')) :
    ∀ x, head o x = p → s.Avail x ∧ ¬ s'.Avail x := by
  induction fuel generalizing s with
  | zero => cases returns
  | succ fuel ih =>
    rw [bufferedRmqueue] at returns
    rcases rmqueueRound_takes stable inv type gfpFlags with ⟨none, -⟩ | ⟨q, some, taken⟩
    · rw [none] at returns
      cases returns
    · rw [some] at returns
      dsimp only at returns
      split at returns
      · intro x inside
        obtain ⟨avail, gone⟩ := ih taken.inv returns x inside
        exact ⟨(taken.keeps.avail x avail).resolve_right id, gone⟩
      · rename_i s'' accepts
        cases returns
        intro x inside
        have touches := (prepNewPage_writes noZero taken.block.lent.aligned accepts).touches
          taken.inv.toPcpInv taken.block
        rw [touches.avail]
        exact ⟨taken.wasAvail x inside, taken.block.not_avail inside⟩

theorem bufferedRmqueue_returns (stable : Stable P) {migratetype : Nat} (gfpFlags : BitVec 32)
    (type : TypeFor o migratetype) (inv : ZoneInv P s) {fuel : Nat} (enough : s.supply < fuel) :
    ∃ r, bufferedRmqueue s o gfpFlags migratetype fuel = some r := by
  induction fuel generalizing s with
  | zero => omega
  | succ fuel ih =>
    rw [bufferedRmqueue]
    rcases rmqueueRound_takes stable inv type gfpFlags with ⟨none, -⟩ | ⟨p, some, taken⟩
    · rw [none]
      exact ⟨_, rfl⟩
    · rw [some]
      dsimp only
      split
      · have supply := taken.supply
        have pos := Nat.two_pow_pos o
        exact ih taken.inv (by omega)
      · exact ⟨_, rfl⟩

end XcKernel.PageAlloc
