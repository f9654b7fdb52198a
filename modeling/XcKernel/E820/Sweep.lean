import XcKernel.E820.Points

/-!
# The sweep computes the canonical map

After every change point the finished entries and the open one agree with the
map up to the address of the point, and a finished entry ends where the type
really changes.
-/

namespace XcKernel.E820

open Word Mm

variable {bios : List E820Entry}

/-- The loop that puts the last entry in the place of another one -/
theorem replaceLoop_eq {l rest : List Nat} {z : Nat} (eq : l = rest ++ [z]) (pbios : Nat) {n : Nat}
    (le : n ≤ l.length) :
    (List.range n).foldl (fun l' i =>
      if l'[i]? = some pbios then l'.set i (l'.getD (l.length - 1) 0) else l') l =
      (l.take n).map (fun y => if y = pbios then z else y) ++ l.drop n := by
  induction n with
  | zero => simp
  | succ n ih =>
    have lt : n < l.length := le
    have first : ((l.take n).map fun y => if y = pbios then z else y).length = n := by
      rw [List.length_map, List.length_take_of_le lt.le]
    rw [List.range_succ, List.foldl_append, List.foldl_cons, List.foldl_nil, ih lt.le]
    have here : ((l.take n).map (fun y => if y = pbios then z else y) ++ l.drop n)[n]? = some l[n] := by
      rw [List.getElem?_append_right first.le, first, Nat.sub_self, List.getElem?_drop, Nat.add_zero,
        List.getElem?_eq_getElem lt]
    have last : ((l.take n).map (fun y => if y = pbios then z else y) ++ l.drop n).getD
        (l.length - 1) 0 = z := by
      rw [List.getD_eq_getElem?_getD, List.getElem?_append_right (by rw [first]; omega), first,
        List.getElem?_drop, Nat.add_sub_cancel' (by omega : n ≤ l.length - 1), eq]
      simp
    have set : ∀ y, ((l.take n).map (fun y => if y = pbios then z else y) ++ l.drop n).set n y =
        (l.take n).map (fun y => if y = pbios then z else y) ++ y :: l.drop (n + 1) := fun y => by
      rw [List.set_append_right _ _ first.le, first, Nat.sub_self, List.drop_eq_getElem_cons lt]
      rfl
    rw [here, last, set, List.take_succ_eq_append_getElem lt, List.map_append, List.map_singleton]
    by_cases found : l[n] = pbios
    · rw [if_pos (by rw [found]), if_pos found, List.append_assoc]
      rfl
    · rw [if_neg (by simpa using found), if_neg found, List.append_assoc, List.drop_eq_getElem_cons lt]
      rfl

theorem removeOverlap_spec {l : List Nat} (nodup : l.Nodup) {pbios : Nat} (member : pbios ∈ l) :
    (removeOverlap l pbios).Nodup ∧ ∀ j, j ∈ removeOverlap l pbios ↔ j ∈ l ∧ j ≠ pbios := by
  obtain rfl | ⟨rest, z, eq⟩ := List.eq_nil_or_concat l
  · cases member
  rw [List.concat_eq_append] at eq
  have removed : removeOverlap l pbios = rest.map fun y => if y = pbios then z else y := by
    rw [removeOverlap, replaceLoop_eq eq pbios le_rfl, List.take_length, List.drop_length,
      List.append_nil, eq, List.map_append, List.map_singleton, List.dropLast_concat]
  rw [eq] at nodup member
  rw [removed, eq]
  have parts := List.nodup_append.mp nodup
  have away : ∀ y ∈ rest, y ≠ z := fun y hy => parts.2.2 y hy z (List.mem_singleton_self z)
  refine ⟨parts.1.map_on fun x hx y hy same => ?_, fun j => ?_⟩
  · have := away x hx
    have := away y hy
    split_ifs at same <;> omega
  · rw [List.mem_map, List.mem_append, List.mem_singleton]
    constructor
    · rintro ⟨y, hy, rfl⟩
      have := away y hy
      split
      · rename_i here
        exact ⟨.inr rfl, by omega⟩
      · rename_i other
        exact ⟨.inl hy, other⟩
    · rintro ⟨old | rfl, ne⟩
      · exact ⟨j, old, if_neg ne⟩
      · refine ⟨pbios, ?_, if_pos rfl⟩
        exact (List.mem_append.mp member).resolve_right (by simpa using ne.symm)

/-- An entry of the canonical map: the type is that of the map, and changes at the end. -/
structure Segment (bios : List E820Entry) (e : E820Entry) : Prop where
  size : e.size ≠ 0
  type : e.type ≠ 0
  inside : ∀ x, e.Contains x → typeAt bios x = e.type
  stop : typeAt bios (e.addr + e.size) ≠ e.type

/-- The sweep has come to the address `a`. -/
structure SweepInv (bios : List E820Entry) (pre suf : List ChangeMember) (a : Nat) (s : Sweep) :
    Prop where
  split : Split bios pre suf
  low : ∀ c ∈ pre, c.addr ≤ a
  high : ∀ d ∈ suf, a ≤ d.addr
  nodup : s.overlapList.Nodup
  active : ∀ i, i ∈ s.overlapList ↔ Active bios pre i
  lastType : s.lastType = overlapType bios s.overlapList
  slot : s.lastType ≠ 0 → s.addr = s.lastAddr ∧ s.type = s.lastType ∧ s.lastAddr ≤ a ∧
    ∀ x, s.lastAddr ≤ x → x < a → typeAt bios x = s.lastType
  sorted : s.newBios.Pairwise fun e f => e.addr + e.size ≤ f.addr
  ends : ∀ e ∈ s.newBios, e.addr + e.size ≤ a ∧ (s.lastType ≠ 0 → e.addr + e.size ≤ s.lastAddr)
  segments : ∀ e ∈ s.newBios, Segment bios e
  complete : ∀ x < a, typeAt bios x ≠ 0 →
    (∃ e ∈ s.newBios, e.Contains x) ∨ s.lastType ≠ 0 ∧ s.lastAddr ≤ x

theorem sweepInv_start (noWrap : NoWrap bios) :
    SweepInv bios [] (sortPoints bios (changePoints bios)) 0 ⟨[], [], 0, 0, 0, 0⟩ where
  split := split_sortPoints noWrap
  low := by simp
  high := by simp
  nodup := .nil
  active := by simp [Active]
  lastType := rfl
  slot := by simp
  sorted := .nil
  ends := by simp
  segments := by simp
  complete := by simp

variable {pre suf : List ChangeMember} {a : Nat} {s : Sweep} {c : ChangeMember}

theorem Split.cons (h : Split bios pre (c :: suf)) : Split bios (pre ++ [c]) suf := by
  have same : pre ++ [c] ++ suf = pre ++ c :: suf := by simp
  exact ⟨by rw [same]; exact h.mem, by rw [same]; exact h.nodup, by rw [same]; exact h.sorted⟩

/-- The overlap list after a point. -/
def nextOverlap (bios : List E820Entry) (l : List Nat) (c : ChangeMember) : List Nat :=
  if isStart bios c then l ++ [c.pbios] else removeOverlap l c.pbios

theorem nextOverlap_spec (split : Split bios pre (c :: suf)) {l : List Nat} (nodup : l.Nodup)
    (active : ∀ i, i ∈ l ↔ Active bios pre i) :
    (nextOverlap bios l c).Nodup ∧ ∀ i, i ∈ nextOverlap bios l c ↔ Active bios (pre ++ [c]) i := by
  have notMet : c ∉ pre := fun met =>
    (List.nodup_append.mp split.nodup).2.2 c met c List.mem_cons_self rfl
  obtain ⟨i, live, rfl | rfl⟩ := (split.mem c).mp (by simp)
  · have later : endOf bios i ∉ pre := fun met => by
      have key := split.le met List.mem_cons_self
      rw [pointKey_endOf live, pointKey_startOf] at key
      omega
    have new : i ∉ l := fun on => notMet ((active i).mp on).2.1
    have ne : endOf bios i ≠ startOf bios i := by
      simpa [endOf, startOf] using live.2
    rw [nextOverlap, isStart_startOf, if_pos rfl]
    show (l ++ [i]).Nodup ∧ ∀ j, j ∈ l ++ [i] ↔ _
    refine ⟨nodup.append (List.nodup_singleton _) (by simpa using new), fun j => ?_⟩
    rw [List.mem_append, List.mem_singleton, active]
    simp only [Active, List.mem_append, List.mem_singleton, not_or]
    constructor
    · rintro (⟨livej, started, notEnded⟩ | rfl)
      · refine ⟨livej, .inl started, notEnded, fun eq => ?_⟩
        have same : j = i := congrArg ChangeMember.pbios eq
        exact notMet (same ▸ started)
      · exact ⟨live, .inr rfl, later, ne⟩
    · rintro ⟨livej, started | eq, notEnded, -⟩
      · exact .inl ⟨livej, started, notEnded⟩
      · exact .inr (congrArg ChangeMember.pbios eq)
  · have started : startOf bios i ∈ pre := by
      refine (split.start_cases live).resolve_right fun later => ?_
      rcases List.mem_cons.mp later with eq | later
      · exact live.2 (by simpa [startOf, endOf] using eq)
      · have key := (List.pairwise_cons.mp (List.pairwise_append.mp split.sorted).2.1).1 _ later
        rw [pointKey_endOf live, pointKey_startOf] at key
        omega
    have on : i ∈ l := (active i).mpr ⟨live, started, notMet⟩
    rw [nextOverlap, isStart_endOf live, if_neg (by simp)]
    obtain ⟨nodup', members⟩ := removeOverlap_spec nodup on
    refine ⟨nodup', fun j => ?_⟩
    show j ∈ removeOverlap l i ↔ _
    rw [members, active]
    simp only [Active, List.mem_append, List.mem_singleton, not_or]
    constructor
    · rintro ⟨⟨livej, startedj, notEnded⟩, ne⟩
      exact ⟨livej, .inl startedj, notEnded, fun eq => ne (congrArg ChangeMember.pbios eq)⟩
    · rintro ⟨livej, startedj | eq, notEnded, ne⟩
      · refine ⟨⟨livej, startedj, notEnded⟩, ?_⟩
        rintro rfl
        exact ne rfl
      · have same : j = i := congrArg ChangeMember.pbios eq
        subst same
        exact absurd rfl ne

namespace SweepInv

theorem le (h : SweepInv bios pre (c :: suf) a s) : a ≤ c.addr := h.high c List.mem_cons_self

theorem typeAt_eq (h : SweepInv bios pre (c :: suf) a s) {x : Nat} (low : a ≤ x) (high : x < c.addr) :
    typeAt bios x = s.lastType := by
  have sorted := List.pairwise_cons.mp (List.pairwise_append.mp h.split.sorted).2.1
  have now := @overlapType_greatest bios s.overlapList
  rw [h.lastType]
  refine (typeAt_greatest bios x).unique now fun i => ?_
  rw [h.active]
  refine (h.split.active_iff (fun d met => (h.low d met).trans low) fun d left => ?_).symm
  rcases List.mem_cons.mp left with rfl | left
  · exact high
  · exact high.trans_le (addr_le_of_key (sorted.1 d left))

theorem typeAt_slot (h : SweepInv bios pre (c :: suf) a s) (some : s.lastType ≠ 0) {x : Nat}
    (low : s.lastAddr ≤ x) (high : x < c.addr) : typeAt bios x = s.lastType := by
  by_cases before : x < a
  · exact (h.slot some).2.2.2 x low before
  · exact h.typeAt_eq (not_lt.mp before) high

theorem next_low (h : SweepInv bios pre (c :: suf) a s) : ∀ d ∈ pre ++ [c], d.addr ≤ c.addr := by
  intro d member
  rcases List.mem_append.mp member with met | here
  · exact (h.low d met).trans h.le
  · rw [List.mem_singleton.mp here]

theorem next_high (h : SweepInv bios pre (c :: suf) a s) : ∀ d ∈ suf, c.addr ≤ d.addr := fun _ left =>
  addr_le_of_key ((List.pairwise_cons.mp (List.pairwise_append.mp h.split.sorted).2.1).1 _ left)

theorem complete_next (h : SweepInv bios pre (c :: suf) a s) {x : Nat} (below : x < c.addr)
    (some : typeAt bios x ≠ 0) :
    (∃ e ∈ s.newBios, e.Contains x) ∨ s.lastType ≠ 0 ∧ s.lastAddr ≤ x := by
  by_cases before : x < a
  · exact h.complete x before some
  · rw [h.typeAt_eq (not_lt.mp before) below] at some
    exact .inr ⟨some, (h.slot some).2.2.1.trans (not_lt.mp before)⟩

theorem keep (h : SweepInv bios pre (c :: suf) a s)
    (same : overlapType bios (nextOverlap bios s.overlapList c) = s.lastType) :
    SweepInv bios (pre ++ [c]) suf c.addr
      { s with overlapList := nextOverlap bios s.overlapList c } := by
  obtain ⟨nodup, active⟩ := nextOverlap_spec h.split h.nodup h.active
  refine ⟨h.split.cons, h.next_low, h.next_high, nodup, active, same.symm, fun some => ?_, h.sorted,
    fun e member => ⟨(h.ends e member).1.trans h.le, (h.ends e member).2⟩, h.segments,
    fun x below some => h.complete_next below some⟩
  obtain ⟨addr, type, before, -⟩ := h.slot some
  exact ⟨addr, type, before.trans h.le, fun x low high => h.typeAt_slot some low high⟩

theorem segment (h : SweepInv bios pre (c :: suf) a s)
    (change : overlapType bios (nextOverlap bios s.overlapList c) ≠ s.lastType)
    (some : s.lastType ≠ 0) (size : s.lastAddr < c.addr) :
    Segment bios ⟨s.addr, c.addr - s.lastAddr, s.type⟩ := by
  obtain ⟨nodup, active⟩ := nextOverlap_spec h.split h.nodup h.active
  obtain ⟨addr, type, before, -⟩ := h.slot some
  have stop : s.addr + (c.addr - s.lastAddr) = c.addr := by omega
  refine ⟨by dsimp only; omega, by dsimp only; rwa [type], fun x inside => ?_, ?_⟩
  · have high := inside.2
    dsimp only at high
    rw [stop] at high
    exact (h.typeAt_slot some (addr ▸ inside.1) high).trans type.symm
  · dsimp only
    rw [stop, type]
    intro same
    refine change (same ▸ h.split.cons.type_eq_of_same (by omega) h.next_low h.next_high active ?_)
    rw [same]
    exact h.typeAt_slot some (by omega) (by omega)

/-- The finished entries after a change of type. -/
def finished (s : Sweep) (c : ChangeMember) : List E820Entry :=
  if s.lastType ≠ 0 ∧ c.addr - s.lastAddr ≠ 0 then
    s.newBios ++ [⟨s.addr, c.addr - s.lastAddr, s.type⟩]
  else s.newBios

/-- They are all there is below the point. -/
structure Finished (bios : List E820Entry) (c : ChangeMember) (l : List E820Entry) : Prop where
  sorted : l.Pairwise fun e f => e.addr + e.size ≤ f.addr
  ends : ∀ e ∈ l, e.addr + e.size ≤ c.addr
  segments : ∀ e ∈ l, Segment bios e
  complete : ∀ x < c.addr, typeAt bios x ≠ 0 → ∃ e ∈ l, e.Contains x

theorem finished_spec (h : SweepInv bios pre (c :: suf) a s)
    (change : overlapType bios (nextOverlap bios s.overlapList c) ≠ s.lastType) :
    Finished bios c (finished s c) := by
  unfold finished
  split
  · rename_i close
    obtain ⟨addr, -, before, -⟩ := h.slot close.1
    have stop : s.addr + (c.addr - s.lastAddr) = c.addr := by omega
    refine ⟨?_, fun e member => ?_, fun e member => ?_, fun x below some => ?_⟩
    · refine List.pairwise_append.mpr ⟨h.sorted, List.pairwise_singleton _ _, fun e old f new => ?_⟩
      rw [List.mem_singleton.mp new]
      exact ((h.ends e old).2 close.1).trans addr.ge
    · rcases List.mem_append.mp member with old | new
      · exact (h.ends e old).1.trans h.le
      · rw [List.mem_singleton.mp new]
        exact stop.le
    · rcases List.mem_append.mp member with old | new
      · exact h.segments e old
      · rw [List.mem_singleton.mp new]
        exact h.segment change close.1 (by omega)
    · rcases h.complete_next below some with ⟨e, old, contains⟩ | ⟨-, low⟩
      · exact ⟨e, List.mem_append_left _ old, contains⟩
      · refine ⟨_, List.mem_append_right _ (List.mem_singleton_self _), ?_, ?_⟩
        · exact addr.trans_le low
        · exact below.trans_eq stop.symm
  · rename_i stays
    refine ⟨h.sorted, fun e member => (h.ends e member).1.trans h.le, h.segments, fun x below some => ?_⟩
    rcases h.complete_next below some with old | ⟨notZero, low⟩
    · exact old
    · exact absurd ⟨notZero, by omega⟩ stays

theorem step (h : SweepInv bios pre (c :: suf) a s) (bound : c.addr < 2 ^ 64) :
    SweepInv bios (pre ++ [c]) suf c.addr (sweepStep bios s c) := by
  obtain ⟨nodup, active⟩ := nextOverlap_spec h.split h.nodup h.active
  unfold sweepStep
  rw [← nextOverlap]
  dsimp only
  split
  · rename_i change
    have done := h.finished_spec change
    have newBios : (if s.lastType ≠ 0 ∧ u64Sub c.addr s.lastAddr ≠ 0 then
        s.newBios ++ [⟨s.addr, u64Sub c.addr s.lastAddr, s.type⟩] else s.newBios) = finished s c := by
      unfold finished
      by_cases some : s.lastType ≠ 0
      · have size : u64Sub c.addr s.lastAddr = c.addr - s.lastAddr :=
          wrapSub_of_le ((h.slot some).2.2.1.trans h.le) bound
        rw [size]
      · rw [if_neg fun both => some both.1, if_neg fun both => some both.1]
    rw [newBios]
    split
    · exact ⟨h.split.cons, h.next_low, h.next_high, nodup, active, rfl,
        fun _ => ⟨rfl, rfl, le_rfl, fun x low high => by dsimp only at low; omega⟩, done.sorted,
        fun e member => ⟨done.ends e member, fun _ => done.ends e member⟩, done.segments,
        fun x below some => .inl (done.complete x below some)⟩
    · rename_i zero
      rw [not_not] at zero
      exact ⟨h.split.cons, h.next_low, h.next_high, nodup, active, rfl, fun some => absurd zero some,
        done.sorted, fun e member => ⟨done.ends e member, fun some => absurd zero some⟩, done.segments,
        fun x below some => .inl (done.complete x below some)⟩
  · rename_i same
    exact h.keep (not_not.mp same)

end SweepInv

/-- The map with the same types at all addresses, in sorted entries that do not
overlap and do not go on with the same type. -/
structure Canonical (bios l : List E820Entry) : Prop where
  nonzero : ∀ e ∈ l, e.size ≠ 0 ∧ e.type ≠ 0
  sorted : l.Pairwise fun e f => e.addr + e.size ≤ f.addr
  touching : ∀ e ∈ l, ∀ f ∈ l, e.addr + e.size = f.addr → e.type ≠ f.type
  type : ∀ e ∈ l, ∀ x, e.Contains x → e.type = typeAt bios x
  complete : ∀ x, typeAt bios x ≠ 0 → ∃ e ∈ l, e.Contains x

/-- The sweep without a bound on the entries. -/
def sweepAll (bios : List E820Entry) (s : Sweep) (points : List ChangeMember) : List E820Entry :=
  (points.foldl (sweepStep bios) s).newBios

theorem sweepInv_foldl (noWrap : NoWrap bios) (h : SweepInv bios pre suf a s) :
    ∃ a', SweepInv bios (pre ++ suf) [] a' (suf.foldl (sweepStep bios) s) := by
  induction suf generalizing pre a s with
  | nil => exact ⟨a, by rwa [List.append_nil]⟩
  | cons c suf ih =>
    have bound : c.addr < 2 ^ 64 := by
      obtain ⟨i, live, rfl | rfl⟩ := (h.split.mem c).mp (by simp)
      · have := noWrap _ (entry_mem live.1)
        show (entry bios i).addr < _
        omega
      · exact noWrap _ (entry_mem live.1)
    obtain ⟨a', inv⟩ := ih (h.step bound)
    exact ⟨a', by simpa using inv⟩

theorem sweepAll_canonical (noWrap : NoWrap bios) :
    Canonical bios
      (sweepAll bios ⟨[], [], 0, 0, 0, 0⟩ (sortPoints bios (changePoints bios))) := by
  obtain ⟨a, inv⟩ := sweepInv_foldl noWrap (sweepInv_start noWrap)
  rw [List.nil_append] at inv
  unfold sweepAll
  generalize (sortPoints bios (changePoints bios)).foldl (sweepStep bios) ⟨[], [], 0, 0, 0, 0⟩ = s at inv ⊢
  -- at the end no entry is active
  have none : ∀ i, ¬ Active bios (sortPoints bios (changePoints bios)) i := fun i active =>
    active.2.2 ((inv.split.end_cases active.1).resolve_right (by simp))
  have last : s.lastType = 0 := by
    rw [inv.lastType]
    rcases (@overlapType_greatest bios s.overlapList).attained with zero | ⟨i, member, -⟩
    · exact zero
    · exact absurd ((inv.active i).mp member) (none i)
  have above : ∀ x, a ≤ x → typeAt bios x = 0 := fun x high => by
    rcases (typeAt_greatest bios x).attained with zero | ⟨i, contains, -⟩
    · exact zero
    · refine absurd ((inv.split.active_iff (fun d met => (inv.low d met).trans high) (by simp)).mpr contains)
        (none i)
  refine ⟨fun e member => ⟨(inv.segments e member).size, (inv.segments e member).type⟩, inv.sorted,
    fun e he f hf touch same => ?_, fun e member x contains => ((inv.segments e member).inside x contains).symm,
    fun x some => ?_⟩
  · refine (inv.segments e he).stop ?_
    have size := (inv.segments f hf).size
    rw [touch, same]
    exact (inv.segments f hf).inside _ ⟨le_rfl, by omega⟩
  · have below : x < a := by
      by_contra high
      exact some (above x (not_lt.mp high))
    rcases inv.complete x below some with here | ⟨notZero, -⟩
    · exact here
    · exact absurd last notZero

end XcKernel.E820
