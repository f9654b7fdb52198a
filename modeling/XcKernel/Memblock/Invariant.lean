import XcKernel.Memblock.Basic
import Mathlib.Data.List.Induction
import Mathlib.Logic.Relation

/-!
# The region lists keep their order and lose no address

A list is described by its live regions: sorted, non-empty, with a gap between
any two of them.  The array of the source shows them as they are, or shows the
placeholder when there are none.  Adding a range swallows the live regions it
meets and leaves one region in their place.
-/

namespace XcKernel.Mm

open Word XcKernel.Span

def MemblockRegion.span (r : MemblockRegion) : Span := ⟨r.base, r.base + r.size⟩

def spans (regions : List MemblockRegion) : List Span := regions.map MemblockRegion.span

@[simp] theorem spans_nil : spans [] = [] := rfl

@[simp] theorem spans_cons (r : MemblockRegion) (rs : List MemblockRegion) :
    spans (r :: rs) = r.span :: spans rs := rfl

@[simp] theorem spans_append (rs ts : List MemblockRegion) :
    spans (rs ++ ts) = spans rs ++ spans ts := List.map_append

/-- The shape of the live regions of a list. -/
structure RegionsOk (regions : List MemblockRegion) : Prop where
  pos : ∀ r ∈ regions, 0 < r.size
  fits : ∀ r ∈ regions, r.base + r.size < 2 ^ 64
  separated : regions.Pairwise (fun r t => r.base + r.size < t.base)

theorem RegionsOk.nil : RegionsOk [] := ⟨by simp, by simp, .nil⟩

theorem RegionsOk.sublist {rs ts : List MemblockRegion} (h : RegionsOk ts) (sub : rs.Sublist ts) :
    RegionsOk rs :=
  ⟨fun r hr => h.pos r (sub.subset hr), fun r hr => h.fits r (sub.subset hr),
    h.separated.sublist sub⟩

theorem RegionsOk.insert {pre post : List MemblockRegion} {r : MemblockRegion}
    (h : RegionsOk (pre ++ post)) (hpos : 0 < r.size) (hfits : r.base + r.size < 2 ^ 64)
    (below : ∀ t ∈ pre, t.base + t.size < r.base)
    (above : ∀ t ∈ post, r.base + r.size < t.base) : RegionsOk (pre ++ r :: post) := by
  have parts := List.pairwise_append.mp h.separated
  refine ⟨?_, ?_, ?_⟩
  · intro t ht
    rcases List.mem_append.mp ht with inPre | inPost
    · exact h.pos t (by simp [inPre])
    · rcases List.mem_cons.mp inPost with rfl | inPost
      · exact hpos
      · exact h.pos t (by simp [inPost])
  · intro t ht
    rcases List.mem_append.mp ht with inPre | inPost
    · exact h.fits t (by simp [inPre])
    · rcases List.mem_cons.mp inPost with rfl | inPost
      · exact hfits
      · exact h.fits t (by simp [inPost])
  · refine List.pairwise_append.mpr ⟨parts.1, List.pairwise_cons.mpr ⟨above, parts.2.1⟩, ?_⟩
    intro t ht u hu
    rcases List.mem_cons.mp hu with rfl | inPost
    · exact below t ht
    · exact parts.2.2 t ht u inPost

/-- What the region array shows for a list of live regions. -/
def orPlaceholder (live : List MemblockRegion) : List MemblockRegion :=
  if live.length = 0 then [⟨0, 0⟩] else live

@[simp] theorem orPlaceholder_nil : orPlaceholder [] = [⟨0, 0⟩] := rfl

theorem orPlaceholder_of_ne_nil {live : List MemblockRegion} (h : live ≠ []) :
    orPlaceholder live = live := by
  simp [orPlaceholder, h]

@[simp] theorem orPlaceholder_append_cons (pre : List MemblockRegion) (r : MemblockRegion)
    (post : List MemblockRegion) : orPlaceholder (pre ++ r :: post) = pre ++ r :: post :=
  orPlaceholder_of_ne_nil (by simp)

theorem covers_orPlaceholder (live : List MemblockRegion) (x : Nat) :
    Covers (spans (orPlaceholder live)) x ↔ Covers (spans live) x := by
  unfold orPlaceholder
  split
  · rename_i h
    rw [List.length_eq_zero_iff] at h
    simp [h, MemblockRegion.span, Contains]
  · rfl

@[simp] theorem memblockRemoveRegion_cursor (pre : List MemblockRegion) (r : MemblockRegion)
    (post : List MemblockRegion) :
    memblockRemoveRegion (pre ++ r :: post) pre.length = orPlaceholder (pre ++ post) := by
  simp [memblockRemoveRegion, orPlaceholder, List.eraseIdx_append_of_length_le]

theorem scan_placeholder (end_ base size : Nat) :
    addRegionScan end_ [⟨0, 0⟩] 0 base size = .leave [⟨0, 0⟩] base size := by
  unfold addRegionScan
  simp

theorem scan_past (end_ : Nat) (regions : List MemblockRegion) (base size : Nat) :
    addRegionScan end_ regions regions.length base size = .leave regions base size := by
  unfold addRegionScan
  simp

/-- One turn of the scan on a live region, in ordinary arithmetic. -/
theorem scan_cons {end_ : Nat} (pre : List MemblockRegion) (rgn : MemblockRegion)
    (post : List MemblockRegion) {base size : Nat} (hend : base + size = end_)
    (hlt : end_ < 2 ^ 64) (hpos : 0 < rgn.size) (hfits : rgn.base + rgn.size < 2 ^ 64) :
    addRegionScan end_ (pre ++ rgn :: post) pre.length base size =
      if rgn.base > end_ then .leave (pre ++ rgn :: post) base size
      else if rgn.base ≤ base ∧ end_ ≤ rgn.base + rgn.size then .done (pre ++ rgn :: post)
      else if base < rgn.base then
        if end_ ≤ rgn.base + rgn.size then
          .done (pre ++ ⟨base, rgn.base + rgn.size - base⟩ :: post)
        else addRegionScan end_ (orPlaceholder (pre ++ post)) pre.length base size
      else if base ≤ rgn.base + rgn.size then
        addRegionScan end_ (orPlaceholder (pre ++ post)) pre.length rgn.base (end_ - rgn.base)
      else addRegionScan end_ (pre ++ rgn :: post) (pre.length + 1) base size := by
  have rend : u64 (rgn.base + rgn.size) = rgn.base + rgn.size := wrap_of_lt hfits
  rw [addRegionScan]
  have inside : pre.length < (pre ++ rgn :: post).length := by simp
  have slot : (pre ++ rgn :: post)[pre.length] = rgn := by simp
  simp only [inside, dif_pos, slot, rend, memblockMemoryCanCoalesce, List.set_append_right,
    Nat.le_refl, Nat.sub_self, List.set_cons_zero, memblockRemoveRegion_cursor,
    Bool.true_eq_false, if_false]
  by_cases far : rgn.base > end_
  · simp [far]
  · have size0 : rgn.size ≠ 0 := by omega
    simp only [far, size0, or_self, dif_neg, not_false_eq_true, if_false, ge_iff_le]
    by_cases inner : rgn.base ≤ base ∧ end_ ≤ rgn.base + rgn.size
    · simp [inner]
    · simp only [inner, if_false]
      by_cases lower : base < rgn.base
      · have reach : rgn.base ≤ end_ := by omega
        simp only [lower, reach, and_self, if_true]
        by_cases upper : end_ ≤ rgn.base + rgn.size
        · simp only [upper, if_true]
          rw [show u64Sub (rgn.base + rgn.size) base = rgn.base + rgn.size - base from
            wrapSub_of_le (by omega) hfits]
        · have grown : u64Sub (rgn.base + rgn.size) base = rgn.base + rgn.size - base :=
            wrapSub_of_le (by omega) hfits
          have left : u64Sub end_ (rgn.base + rgn.size) = end_ - (rgn.base + rgn.size) :=
            wrapSub_of_le (by omega) hlt
          have sum : u64 (end_ - (rgn.base + rgn.size) + (rgn.base + rgn.size - base)) = size := by
            rw [u64, wrap_of_lt] <;> omega
          simp only [upper, if_false, true_and, grown, left, sum]
          rw [if_pos (by omega)]
      · simp only [lower, false_and, if_false]
        by_cases touch : base ≤ rgn.base + rgn.size
        · have upper : rgn.base + rgn.size ≤ end_ := by omega
          have down : u64Sub base rgn.base = base - rgn.base := wrapSub_of_le (by omega) (by omega)
          have sum : u64 (size + (base - rgn.base)) = end_ - rgn.base := by
            rw [u64, wrap_of_lt] <;> omega
          simp only [touch, upper, and_self, if_true, down, sum]
        · simp [touch]

/-- Some region overlaps or touches the range. -/
def Meets (live : List MemblockRegion) (base end_ : Nat) : Prop :=
  ∃ r ∈ live, r.span.Touches ⟨base, end_⟩

/-- Where the scan stands when it has met every region that touches the new
range: `[base', end)` lies in the gap between `pre` and `post`. -/
structure Remaining (end_ : Nat) (live : List MemblockRegion) (base : Nat)
    (pre post : List MemblockRegion) (base' size' : Nat) : Prop where
  ok : RegionsOk (pre ++ post)
  below : ∀ r ∈ pre, r.base + r.size < base'
  above : ∀ r ∈ post, end_ < r.base
  pos : 0 < size'
  end_eq : base' + size' = end_
  covers : ∀ x, Covers (spans (pre ++ post)) x ∨ (base' ≤ x ∧ x < end_) ↔
    Covers (spans live) x ∨ (base ≤ x ∧ x < end_)
  kept : (pre ++ post = live ∧ base' = base) ∨
    ((pre ++ post).length < live.length ∧ Meets live base end_)

/-- The new range is part of the list. -/
structure Recorded (live : List MemblockRegion) (base end_ : Nat)
    (regions : List MemblockRegion) : Prop where
  ok : RegionsOk regions
  nonempty : regions ≠ []
  covers : ∀ x, Covers (spans regions) x ↔ Covers (spans live) x ∨ (base ≤ x ∧ x < end_)

def ScanOk (end_ : Nat) (live : List MemblockRegion) (base : Nat) : ScanExit → Prop
  | .done regions => Recorded live base end_ regions ∧ regions.length ≤ live.length ∧
      Meets live base end_
  | .leave regions base' size' => ∃ pre post, regions = orPlaceholder (pre ++ post) ∧
      Remaining end_ live base pre post base' size'
  | .newBlock _ _ _ => False

/-- A region swallowed by the new range may be forgotten. -/
theorem ScanOk.swallow {end_ base base' : Nat} {live live' : List MemblockRegion} {exit : ScanExit}
    (shorter : live'.length < live.length) (meets : Meets live base end_)
    (same : ∀ x, Covers (spans live') x ∨ (base' ≤ x ∧ x < end_) ↔
      Covers (spans live) x ∨ (base ≤ x ∧ x < end_))
    (h : ScanOk end_ live' base' exit) : ScanOk end_ live base exit := by
  cases exit with
  | done regions =>
    exact ⟨⟨h.1.ok, h.1.nonempty, fun x => (h.1.covers x).trans (same x)⟩,
      h.2.1.trans shorter.le, meets⟩
  | newBlock regions b s => exact h
  | leave regions b s =>
    obtain ⟨pre, post, shown, rest⟩ := h
    refine ⟨pre, post, shown, { rest with covers := fun x => (rest.covers x).trans (same x),
                                           kept := .inr ⟨?_, meets⟩ }⟩
    rcases rest.kept with ⟨eq, -⟩ | ⟨less, -⟩
    · rw [eq]
      exact shorter
    · exact less.trans shorter

theorem RegionsOk.above_of_head {pre post : List MemblockRegion} {r : MemblockRegion}
    (h : RegionsOk (pre ++ r :: post)) : ∀ t ∈ post, r.base + r.size < t.base :=
  (List.pairwise_cons.mp (List.pairwise_append.mp h.separated).2.1).1

theorem RegionsOk.erase {pre post : List MemblockRegion} {r : MemblockRegion}
    (h : RegionsOk (pre ++ r :: post)) : RegionsOk (pre ++ post) :=
  h.sublist ((List.sublist_cons_self r post).append_left pre)

/-- The scan from any cursor position, by induction on the regions ahead of it. -/
theorem scan_ok {end_ : Nat} (hlt : end_ < 2 ^ 64) (post : List MemblockRegion) :
    ∀ (pre : List MemblockRegion) (base size : Nat), RegionsOk (pre ++ post) →
      (∀ r ∈ pre, r.base + r.size < base) → 0 < size → base + size = end_ →
      ScanOk end_ (pre ++ post) base
        (addRegionScan end_ (orPlaceholder (pre ++ post)) pre.length base size) := by
  induction post with
  | nil =>
    intro pre base size ok below pos hend
    have exit : addRegionScan end_ (orPlaceholder (pre ++ [])) pre.length base size =
        .leave (orPlaceholder (pre ++ [])) base size := by
      cases pre with
      | nil => exact scan_placeholder end_ base size
      | cons r rs =>
        rw [List.append_nil, orPlaceholder_of_ne_nil (by simp)]
        exact scan_past end_ (r :: rs) base size
    rw [exit]
    exact ⟨pre, [], rfl, ok, below, by simp, pos, hend, fun x => Iff.rfl, .inl ⟨rfl, rfl⟩⟩
  | cons rgn post ih =>
    intro pre base size ok below pos hend
    have rgnPos : 0 < rgn.size := ok.pos rgn (by simp)
    have rgnFits : rgn.base + rgn.size < 2 ^ 64 := ok.fits rgn (by simp)
    have beyond := ok.above_of_head
    have shorter : (pre ++ post).length < (pre ++ rgn :: post).length := by simp
    have meets : rgn.base ≤ end_ → base ≤ rgn.base + rgn.size →
        Meets (pre ++ rgn :: post) base end_ := fun lo hi => ⟨rgn, by simp, lo, hi⟩
    rw [orPlaceholder_append_cons, scan_cons pre rgn post hend hlt rgnPos rgnFits]
    split_ifs with far inner lower upper touch
    · -- the region begins behind the new range: so do all the following ones
      refine ⟨pre, rgn :: post, by simp, ok, below, ?_, pos, hend, fun x => Iff.rfl,
        .inl ⟨rfl, rfl⟩⟩
      intro t ht
      rcases List.mem_cons.mp ht with rfl | later
      · exact far
      · have := beyond t later
        omega
    · refine ⟨⟨ok, by simp, fun x => ?_⟩, le_rfl, meets (by omega) (by omega)⟩
      simp only [spans_append, spans_cons, covers_append, covers_cons, MemblockRegion.span, Contains]
      constructor
      · exact .inl
      · rintro (h | h)
        · exact h
        · exact .inr (.inl (by omega))
    · -- the new range reaches below the region and ends inside it
      refine ⟨⟨?_, by simp, fun x => ?_⟩, by simp, meets (by omega) (by omega)⟩
      · refine ok.erase.insert (by simp only; omega) (by simp only; omega) below ?_
        intro t ht
        have := beyond t ht
        simp only
        omega
      · simp only [spans_append, spans_cons, covers_append, covers_cons, MemblockRegion.span,
          Contains]
        rw [show base + (rgn.base + rgn.size - base) = rgn.base + rgn.size by omega]
        constructor
        · rintro (h | h | h)
          · exact .inl (.inl h)
          · by_cases hx : x < rgn.base
            · exact .inr (by omega)
            · exact .inl (.inr (.inl (by omega)))
          · exact .inl (.inr (.inr h))
        · rintro ((h | h | h) | h)
          · exact .inl h
          · exact .inr (.inl (by omega))
          · exact .inr (.inr h)
          · exact .inr (.inl (by omega))
    · refine ScanOk.swallow shorter (meets (by omega) (by omega)) ?_
        (ih pre base size ok.erase below pos hend)
      intro x
      simp only [spans_append, spans_cons, covers_append, covers_cons, MemblockRegion.span, Contains]
      constructor
      · rintro ((h | h) | h)
        · exact .inl (.inl h)
        · exact .inl (.inr (.inr h))
        · exact .inr h
      · rintro ((h | h | h) | h)
        · exact .inl (.inl h)
        · exact .inr (by omega)
        · exact .inl (.inr h)
        · exact .inr h
    · refine ScanOk.swallow shorter (meets (by omega) (by omega)) ?_
        (ih pre rgn.base (end_ - rgn.base) ok.erase ?_ (by omega) (by omega))
      · intro x
        simp only [spans_append, spans_cons, covers_append, covers_cons, MemblockRegion.span,
          Contains]
        constructor
        · rintro ((h | h) | h)
          · exact .inl (.inl h)
          · exact .inl (.inr (.inr h))
          · by_cases hx : x < rgn.base + rgn.size
            · exact .inl (.inr (.inl (by omega)))
            · exact .inr (by omega)
        · rintro ((h | h | h) | h)
          · exact .inl (.inl h)
          · exact .inr (by omega)
          · exact .inl (.inr h)
          · exact .inr (by omega)
      · intro t ht
        exact (List.pairwise_append.mp ok.separated).2.2 t ht rgn (by simp)
    · -- the region ends below the new range: the cursor moves over it
      have moved := ih (pre ++ [rgn]) base size (by simpa using ok) ?_ pos hend
      · simpa using moved
      · intro t ht
        rcases List.mem_append.mp ht with earlier | here
        · exact below t earlier
        · obtain rfl := List.mem_singleton.mp here
          omega

/-- The shifting loop with `moved` regions to carry up by one slot; `y` is what
the slot behind them holds. -/
theorem insertShift_spec (base size : Nat) (pre moved : List MemblockRegion)
    (below : ∀ r ∈ pre, r.base ≤ base) :
    ∀ (y : MemblockRegion) (post : List MemblockRegion), (∀ r ∈ moved, base < r.base) →
      insertShift base size (pre.length + moved.length) (pre ++ moved ++ y :: post) =
        if pre = [] then (moved ++ [y]).head (by simp) :: (moved ++ post)
        else pre ++ ⟨base, size⟩ :: (moved ++ post) := by
  induction moved using List.reverseRecOn with
  | nil =>
    intro y post _
    cases pre using List.reverseRecOn with
    | nil => simp [insertShift]
    | append_singleton rs r =>
      have stop : ¬ base < r.base := by
        have := below r (by simp)
        omega
      simp [insertShift, stop]
  | append_singleton moved r ih =>
    intro y post above
    have step : base < r.base := above r (by simp)
    have slot : (pre ++ (moved ++ [r]) ++ y :: post)[pre.length + moved.length]? = some r := by
      rw [List.append_assoc, List.getElem?_append_right (by omega)]
      simp
    have carried : (pre ++ (moved ++ [r]) ++ y :: post).set (pre.length + moved.length + 1) r =
        pre ++ moved ++ r :: r :: post := by
      rw [List.append_assoc, List.set_append_right _ _ (by omega)]
      simp [Nat.add_assoc]
    rw [List.length_append, List.length_singleton, ← Nat.add_assoc, insertShift, slot]
    simp only [step, if_true, carried]
    rw [ih r (r :: post) (fun t ht => above t (by simp [ht]))]
    split
    · cases moved <;> simp
    · simp [List.append_assoc]

/-- Behind `new_block`: a free slot takes the range, a full table refuses it. -/
theorem newBlock_spec (type : MemblockType) (pre post : List MemblockRegion) {base size end_ : Nat}
    (nonempty : pre ++ post ≠ []) (hend : base + size = end_) (pos : 0 < size)
    (below : ∀ r ∈ pre, r.base + r.size < base) (above : ∀ r ∈ post, end_ < r.base) :
    newBlock type (pre ++ post) base size =
      if (pre ++ post).length ≥ type.max then (-1, { type with regions := pre ++ post })
      else (0, { type with regions := pre ++ ⟨base, size⟩ :: post }) := by
  unfold newBlock
  split
  · rfl
  · have shifted := insertShift_spec base size pre post
      (fun r hr => by have := below r hr; omega) ⟨0, 0⟩ []
      (fun r hr => by have := above r hr; omega)
    rw [List.length_append, shifted]
    cases pre with
    | nil =>
      cases post with
      | nil => simp at nonempty
      | cons t ts =>
        have first : base < t.base := by
          have := above t (by simp)
          omega
        simp [first]
    | cons t ts =>
      have first : ¬ base < t.base := by
        have := below t (by simp)
        omega
      simp [first]

/-- A list as the source keeps it, with its live regions. -/
structure MemblockType.Live (type : MemblockType) (live : List MemblockRegion) : Prop where
  shown : type.regions = orPlaceholder live
  ok : RegionsOk live
  room : live.length ≤ type.max
  slot : 1 ≤ type.max

/-- `memblock_add_region` refuses the range exactly when the table is full and
the range stays clear of every region; otherwise it records it. -/
theorem memblockAddRegion_spec {type : MemblockType} {live : List MemblockRegion}
    (h : type.Live live) {base size : Nat} (pos : 0 < size) (fits : base + size < 2 ^ 64) :
    (∃ live', (memblockAddRegion type base size).1 = 0 ∧
      (memblockAddRegion type base size).2 = { type with regions := live' } ∧
      live'.length ≤ type.max ∧ Recorded live base (base + size) live' ∧
      (live.length < type.max ∨ Meets live base (base + size))) ∨
    (memblockAddRegion type base size = (-1, type) ∧ live.length = type.max ∧
      ¬ Meets live base (base + size)) := by
  have scanned := scan_ok fits live [] base size h.ok (by simp) pos rfl
  have shown : u64 (base + size) = base + size := wrap_of_lt fits
  simp only [List.nil_append, List.length_nil] at scanned
  unfold memblockAddRegion
  rw [h.shown, shown]
  cases exit : addRegionScan (base + size) (orPlaceholder live) 0 base size with
  | newBlock regions b s =>
    rw [exit] at scanned
    exact scanned.elim
  | done regions =>
    rw [exit] at scanned
    exact .inl ⟨regions, rfl, rfl, scanned.2.1.trans h.room, scanned.1, .inr scanned.2.2⟩
  | leave regions b s =>
    rw [exit] at scanned
    obtain ⟨pre, post, rfl, rest⟩ := scanned
    have placed : Recorded live base (base + size) (pre ++ ⟨b, s⟩ :: post) := by
      refine ⟨rest.ok.insert rest.pos ?_ rest.below ?_, by simp, fun x => ?_⟩
      · have := rest.end_eq
        simp only
        omega
      · intro t ht
        have := rest.above t ht
        have := rest.end_eq
        simp only
        omega
      · rw [← rest.covers x]
        have := rest.end_eq
        simp only [spans_append, spans_cons, covers_append, covers_cons, MemblockRegion.span,
          Contains, this]
        constructor
        · rintro (h | h | h)
          · exact .inl (.inl h)
          · exact .inr h
          · exact .inl (.inr h)
        · rintro ((h | h) | h)
          · exact .inl h
          · exact .inr (.inr h)
          · exact .inr (.inl h)
    by_cases empty : pre ++ post = []
    · -- every region was swallowed: the placeholder is overwritten
      obtain ⟨rfl, rfl⟩ := List.append_eq_nil_iff.mp empty
      have room : live.length < type.max ∨ Meets live base (base + size) := by
        rcases rest.kept with ⟨rfl, -⟩ | ⟨-, meets⟩
        · exact .inl h.slot
        · exact .inr meets
      refine .inl ⟨[⟨b, s⟩], ?_, ?_, by simpa using h.slot, by simpa using placed, room⟩ <;> simp
    · have notPlaceholder : ¬ ((pre ++ post).length = 1 ∧
          ((pre ++ post)[0]?.map (·.size)) = some 0) := by
        rintro ⟨one, zero⟩
        obtain ⟨r, hr⟩ := List.length_eq_one_iff.mp one
        have := rest.ok.pos r (by simp [hr])
        rw [hr] at zero
        simp only [List.getElem?_cons_zero, Option.map_some, Option.some.injEq] at zero
        omega
      rw [orPlaceholder_of_ne_nil empty]
      simp only [notPlaceholder, if_false]
      rw [newBlock_spec type _ _ empty rest.end_eq rest.pos rest.below rest.above]
      by_cases full : (pre ++ post).length ≥ type.max
      · -- nothing was swallowed, or there would be a free slot
        have room := h.room
        have kept : pre ++ post = live ∧ b = base := by
          rcases rest.kept with kept | less
          · exact kept
          · omega
        refine .inr ⟨?_, by rw [← kept.1]; rw [kept.1] at full ⊢; omega, ?_⟩
        · rw [if_pos full, kept.1]
          have : type.regions = live := by
            rw [h.shown, orPlaceholder_of_ne_nil (kept.1 ▸ empty)]
          simp [← this]
        · rintro ⟨r, hr, touch⟩
          rw [← kept.1] at hr
          simp only [MemblockRegion.span, Touches] at touch
          rcases List.mem_append.mp hr with inPre | inPost
          · have := rest.below r inPre
            omega
          · have := rest.above r inPost
            omega
      · rw [if_neg full]
        refine .inl ⟨pre ++ ⟨b, s⟩ :: post, rfl, rfl, ?_, placed, ?_⟩
        · simp only [List.length_append, List.length_cons] at full ⊢
          omega
        · rcases rest.kept with ⟨rfl, -⟩ | ⟨-, meets⟩
          · exact .inl (by omega)
          · exact .inr meets

theorem scan_above {end_ base size : Nat} (hend : base + size = end_) (hlt : end_ < 2 ^ 64)
    (post : List MemblockRegion) : ∀ pre : List MemblockRegion, RegionsOk (pre ++ post) →
      (∀ r ∈ post, r.base + r.size < base) →
      addRegionScan end_ (pre ++ post) pre.length base size = .leave (pre ++ post) base size := by
  induction post with
  | nil =>
    intro pre _ _
    simpa using scan_past end_ pre base size
  | cons rgn post ih =>
    intro pre ok above
    have ends := above rgn (by simp)
    rw [scan_cons pre rgn post hend hlt (ok.pos rgn (by simp)) (ok.fits rgn (by simp)),
      if_neg (by omega), if_neg (by omega), if_neg (by omega), if_neg (by omega)]
    have next := ih (pre ++ [rgn]) (by simpa using ok) (fun r hr => above r (by simp [hr]))
    simpa using next

theorem memblockAddRegion_append {type : MemblockType} {live : List MemblockRegion}
    (h : type.Live live) (nonempty : live ≠ []) (free : live.length < type.max) (base size : Nat)
    (pos : 0 < size) (fits : base + size < 2 ^ 64) (above : ∀ r ∈ live, r.base + r.size < base) :
    memblockAddRegion type base size = (0, { type with regions := live ++ [⟨base, size⟩] }) := by
  have shown : type.regions = live := h.shown.trans (orPlaceholder_of_ne_nil nonempty)
  have scan := scan_above (rfl : base + size = _) fits live [] h.ok above
  have notPlaceholder : ¬ (live.length = 1 ∧ (live[0]?.map (·.size)) = some 0) := by
    rintro ⟨one, zero⟩
    obtain ⟨r, rfl⟩ := List.length_eq_one_iff.mp one
    have := h.ok.pos r (by simp)
    simp only [List.getElem?_cons_zero, Option.map_some, Option.some.injEq] at zero
    omega
  have inserted := newBlock_spec type live [] (by simpa using nonempty) (rfl : base + size = _) pos above
    (by simp)
  simp only [List.append_nil] at inserted
  rw [memblockAddRegion, shown, u64, wrap_of_lt fits]
  simp only [List.nil_append, List.length_nil] at scan
  rw [scan]
  simp only [notPlaceholder, if_false]
  rw [inserted, if_neg (by omega)]

/-- A call that adds a range to one of the two lists. -/
inductive AddCall where
  /-- `memblock_add` -/
  | add (base size : Nat)
  /-- `memblock_reserve` -/
  | reserve (base size : Nat)
  deriving DecidableEq

namespace AddCall

def base : AddCall → Nat
  | add base _ => base
  | reserve base _ => base

def size : AddCall → Nat
  | add _ size => size
  | reserve _ size => size

/-- The bytes the call names. -/
def span (c : AddCall) : Span := ⟨c.base, c.base + c.size⟩

/-- Does the call work on the list of reserved regions? -/
def onReserved : AddCall → Bool
  | add _ _ => false
  | reserve _ _ => true

def Valid (c : AddCall) : Prop := 0 < c.size ∧ c.base + c.size < 2 ^ 64

instance (c : AddCall) : Decidable c.Valid := inferInstanceAs (Decidable (_ ∧ _))

def exec (c : AddCall) (memblock : Memblock) : Int × Memblock :=
  match c with
  | add base size => memblockAdd memblock base size
  | reserve base size => memblockReserve memblock base size

end AddCall

/-- The list of reserved regions, or the list of memory. -/
def Memblock.list (memblock : Memblock) : Bool → MemblockType
  | false => memblock.memory
  | true => memblock.reserved

/-- A state with the calls made so far and what each of them returned. -/
structure Logged where
  memblock : Memblock
  log : List (AddCall × Int)

def Logged.init : Logged := ⟨memblockInit, []⟩

def Logged.after (s : Logged) (c : AddCall) : Logged :=
  ⟨(c.exec s.memblock).2, s.log ++ [(c, (c.exec s.memblock).1)]⟩

/-- One more valid call. -/
inductive AddStep : Logged → Logged → Prop where
  | call (s : Logged) (c : AddCall) (valid : c.Valid) : AddStep s (s.after c)

/-- The ranges of the successful calls on one list. -/
def Logged.recorded (s : Logged) (reserved : Bool) : List Span :=
  (s.log.filter fun e => e.1.onReserved = reserved ∧ e.2 = 0).map fun e => e.1.span

/-- The shape of a list after the calls of a log. -/
structure ListShape (s : Logged) (reserved : Bool) : Prop where
  cnt_pos : 1 ≤ (s.memblock.list reserved).cnt
  cnt_le : (s.memblock.list reserved).cnt ≤ (s.memblock.list reserved).max
  separated : Separated (spans (s.memblock.list reserved).regions)
  sizes : if ∀ e ∈ s.log, e.1.onReserved ≠ reserved
    then (s.memblock.list reserved).regions = [⟨0, 0⟩]
    else ∀ r ∈ (s.memblock.list reserved).regions, 0 < r.size
  covers : ∀ x, Covers (spans (s.memblock.list reserved).regions) x ↔
    Covers (s.recorded reserved) x

theorem RegionsOk.spans_separated {regions : List MemblockRegion} (h : RegionsOk regions) :
    Separated (spans regions) := List.pairwise_map.mpr h.separated

theorem orPlaceholder_length (live : List MemblockRegion) :
    1 ≤ (orPlaceholder live).length ∧
      (orPlaceholder live = live ∨ (live = [] ∧ orPlaceholder live = [⟨0, 0⟩])) := by
  cases live with
  | nil => exact ⟨le_rfl, .inr ⟨rfl, rfl⟩⟩
  | cons r rs => exact ⟨by simp [orPlaceholder], .inl (orPlaceholder_of_ne_nil (by simp))⟩

/-- What a run keeps of a list: its live regions are the recorded bytes, and
there are none exactly before the first call on the list. -/
structure RunInv (s : Logged) (reserved : Bool) (live : List MemblockRegion) : Prop where
  list : (s.memblock.list reserved).Live live
  covers : ∀ x, Covers (spans live) x ↔ Covers (s.recorded reserved) x
  empty : live = [] ↔ ∀ e ∈ s.log, e.1.onReserved ≠ reserved

theorem runInv_init (reserved : Bool) : RunInv .init reserved [] := by
  refine ⟨⟨?_, .nil, by simp, ?_⟩, by simp [Logged.recorded, Logged.init],
    by simp [Logged.init]⟩ <;> cases reserved <;> simp [Logged.init, memblockInit, Memblock.list,
      initMemblockRegions]

/-- The list a call works on gets `memblock_add_region`, the other one stays. -/
theorem AddCall.exec_list (c : AddCall) (m : Memblock) (reserved : Bool) :
    (c.exec m).2.list reserved =
      if c.onReserved = reserved then (memblockAddRegion (m.list reserved) c.base c.size).2
      else m.list reserved := by
  cases c <;> cases reserved <;> rfl

theorem AddCall.exec_fst (c : AddCall) (m : Memblock) :
    (c.exec m).1 = (memblockAddRegion (m.list c.onReserved) c.base c.size).1 := by
  cases c <;> rfl

theorem recorded_call (s : Logged) (c : AddCall) (m : Memblock) (ret : Int) (reserved : Bool)
    (x : Nat) : Covers (Logged.recorded ⟨m, s.log ++ [(c, ret)]⟩ reserved) x ↔
      Covers (s.recorded reserved) x ∨
        (c.onReserved = reserved ∧ ret = 0 ∧ c.span.Contains x) := by
  by_cases hit : c.onReserved = reserved ∧ ret = 0
  · simp [Logged.recorded, List.filter_append, hit]
  · simp only [Logged.recorded, List.filter_append, List.map_append, covers_append]
    have none : List.filter (fun e : AddCall × Int => decide (e.1.onReserved = reserved ∧ e.2 = 0))
        [(c, ret)] = [] := by simpa using hit
    rw [none]
    simp only [List.map_nil, covers_nil, or_false]
    exact (or_iff_left (fun h => hit ⟨h.1, h.2.1⟩)).symm

theorem RunInv.step {s s' : Logged} (h : ∀ reserved, ∃ live, RunInv s reserved live)
    (step : AddStep s s') : ∀ reserved, ∃ live, RunInv s' reserved live := by
  obtain ⟨c, valid⟩ := step
  unfold Logged.after
  intro reserved
  obtain ⟨live, inv⟩ := h reserved
  by_cases mine : c.onReserved = reserved
  · have ret := AddCall.exec_fst c s.memblock
    have list := AddCall.exec_list c s.memblock reserved
    rw [mine] at ret
    rw [if_pos mine] at list
    have touched : ¬ ∀ e ∈ s.log ++ [(c, (c.exec s.memblock).1)], e.1.onReserved ≠ reserved :=
      fun none => none (c, (c.exec s.memblock).1) (by simp) mine
    rcases memblockAddRegion_spec inv.list valid.1 valid.2 with
      ⟨live', zero, list', room, rec, -⟩ | ⟨fail, full, -⟩
    · refine ⟨live', ⟨?_, rec.ok, ?_, ?_⟩, fun x => ?_, ?_⟩
      · rw [list, list', orPlaceholder_of_ne_nil rec.nonempty]
      · rw [list, list']
        exact room
      · rw [list, list']
        exact inv.list.slot
      · rw [recorded_call, rec.covers x, inv.covers x, ret]
        simp [mine, zero, AddCall.span, Contains]
      · simp only [touched, iff_false]
        exact rec.nonempty
    · rw [fail] at ret list
      refine ⟨live, ⟨by rw [list]; exact inv.list.shown, inv.list.ok, by rw [list]; exact full.le,
        by rw [list]; exact inv.list.slot⟩, fun x => ?_, ?_⟩
      · rw [recorded_call, ret]
        simpa using inv.covers x
      · simp only [touched, iff_false]
        rintro rfl
        have := inv.list.slot
        simp only [List.length_nil] at full
        omega
  · have list := AddCall.exec_list c s.memblock reserved
    rw [if_neg mine] at list
    refine ⟨live, by rw [list]; exact inv.list, fun x => ?_, ?_⟩
    · rw [recorded_call, inv.covers x]
      simp [mine]
    · rw [inv.empty]
      simp [or_imp, forall_and, mine]

theorem runInv_of_reachable {s : Logged} (h : Relation.ReflTransGen AddStep .init s) :
    ∀ reserved, ∃ live, RunInv s reserved live := by
  induction h with
  | refl => exact fun reserved => ⟨[], runInv_init reserved⟩
  | tail _ step ih => exact RunInv.step ih step

theorem RunInv.shape {s : Logged} {reserved : Bool} {live : List MemblockRegion}
    (inv : RunInv s reserved live) : ListShape s reserved := by
  have len := orPlaceholder_length live
  have shown := inv.list.shown
  refine ⟨?_, ?_, ?_, ?_, ?_⟩
  · rw [MemblockType.cnt, shown]
    exact len.1
  · rw [MemblockType.cnt, shown]
    rcases len.2 with same | ⟨-, placeholder⟩
    · rw [same]
      exact inv.list.room
    · rw [placeholder]
      exact inv.list.slot
  · rw [shown]
    rcases len.2 with same | ⟨-, placeholder⟩
    · rw [same]
      exact inv.list.ok.spans_separated
    · rw [placeholder]
      exact List.pairwise_singleton _ _
  · split
    · rw [shown, inv.empty.mpr ‹_›, orPlaceholder_nil]
    · rw [shown, orPlaceholder_of_ne_nil (fun none => ‹¬ _› (inv.empty.mp none))]
      exact inv.list.ok.pos
  · intro x
    rw [shown, covers_orPlaceholder]
    exact inv.covers x

/-- After any calls both lists are sorted with gaps, their sizes are positive
but for the placeholder, and they cover exactly what the successful calls
named.  A further call fails only on a full table, for a range clear of every
region, and leaves the lists as they are. -/
theorem memblock_runs {s : Logged} (h : Relation.ReflTransGen AddStep .init s) :
    (∀ reserved, ListShape s reserved) ∧
    ∀ c : AddCall, c.Valid →
      (c.exec s.memblock).1 = 0 ∨
      ((c.exec s.memblock).1 = -1 ∧ (c.exec s.memblock).2 = s.memblock ∧
        (s.memblock.list c.onReserved).cnt = (s.memblock.list c.onReserved).max ∧
        ∀ r ∈ (s.memblock.list c.onReserved).regions, ¬ r.span.Touches c.span) := by
  have inv := runInv_of_reachable h
  refine ⟨fun reserved => (inv reserved).elim fun _ i => i.shape, ?_⟩
  intro c valid
  obtain ⟨live, inv⟩ := inv c.onReserved
  have ret := AddCall.exec_fst c s.memblock
  rcases memblockAddRegion_spec inv.list valid.1 valid.2 with ⟨-, zero, -⟩ | ⟨fail, full, clear⟩
  · exact .inl (ret.trans zero)
  · have nonempty : live ≠ [] := by
      rintro rfl
      have := inv.list.slot
      simp only [List.length_nil] at full
      omega
    have shown := inv.list.shown
    rw [orPlaceholder_of_ne_nil nonempty] at shown
    refine .inr ⟨by rw [ret, fail], ?_, ?_, ?_⟩
    · cases c <;> simp only [AddCall.exec, memblockAdd, memblockReserve, AddCall.onReserved,
        Memblock.list, AddCall.base, AddCall.size] at fail ⊢ <;> rw [fail]
    · rw [MemblockType.cnt, shown]
      exact full
    · rw [shown]
      exact fun r hr touch => clear ⟨r, hr, touch⟩

/-- Two ranges that meet become one region. -/
theorem memblock_runs_adjacent :
    let s := (Logged.init.after (.add 0 4096)).after (.add 4096 4096)
    s.memblock.memory.regions = [⟨0, 8192⟩] ∧ ListShape s false :=
  ⟨by decide +kernel, (memblock_runs (.tail (.single (.call _ (.add 0 4096) (by decide)))
    (.call _ (.add 4096 4096) (by decide)))).1 false⟩

end XcKernel.Mm
