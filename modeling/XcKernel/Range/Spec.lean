import XcKernel.Range.Basic

/-!
# What the range functions compute

Subtracting a range leaves the other numbers covered as often as before, as long
as there is an empty slot for the one range that may have to be split.
-/

namespace XcKernel.Range

variable {range range₀ : List Slot} {start end_ j : Nat} {r : Slot}

theorem Slot.not_contains_of_empty (empty : r.end_ = 0) (x : Nat) : ¬ r.Contains x := by
  rintro ⟨-, high⟩
  omega

theorem emptySlot_some {i : Nat} (found : emptySlot range = some i) :
    ∃ r, range[i]? = some r ∧ r.end_ = 0 := by
  obtain ⟨inside, empty, -⟩ := List.findIdx?_eq_some_iff_getElem.mp found
  exact ⟨range[i], List.getElem?_eq_getElem inside, by simpa using empty⟩

theorem emptySlot_none (found : emptySlot range = none) : used range = range.length := by
  rw [used, List.countP_eq_length]
  intro r member
  simpa using List.findIdx?_eq_none_iff.mp found r member

/-- What is left of a slot fits in it, or the slot is split in two. -/
theorem subtractSlot_cases (here : range[j]? = some r) (ok : r.Ok) :
    (∃ r' : Slot, subtractSlot start end_ range j = range.set j r' ∧ r'.Ok ∧
      (∀ x, r'.Contains x ↔ r.Contains x ∧ ¬ (start ≤ x ∧ x < end_)) ∧ (r.end_ = 0 → r'.end_ = 0)) ∨
    (r.start < start ∧ end_ < r.end_ ∧
      ((∃ i, emptySlot range = some i ∧ subtractSlot start end_ range j =
        (range.set i ⟨end_, r.end_⟩).set j ⟨r.start, start⟩) ∨
      (emptySlot range = none ∧ subtractSlot start end_ range j = range.set j ⟨r.start, start⟩))) := by
  have same : range = range.set j r := by
    obtain ⟨inside, rfl⟩ := List.getElem?_eq_some_iff.mp here
    exact (List.set_getElem_self inside).symm
  unfold subtractSlot
  rw [here]
  dsimp only
  split_ifs with empty covered front back inner
  · refine .inl ⟨r, same, ok, fun x => ?_, fun h => h⟩
    have none := Slot.not_contains_of_empty empty x
    exact iff_of_false none fun h => none h.1
  · refine .inl ⟨⟨0, 0⟩, rfl, .inl rfl, fun x => ?_, fun _ => rfl⟩
    simp only [Slot.Contains]
    omega
  · refine .inl ⟨⟨end_, r.end_⟩, rfl, .inr front.2.1, fun x => ?_, fun h => absurd h empty⟩
    simp only [Slot.Contains]
    omega
  · refine .inl ⟨⟨r.start, start⟩, rfl, .inr back.1, fun x => ?_, fun h => absurd h empty⟩
    simp only [Slot.Contains]
    omega
  · refine .inr ⟨inner.1, inner.2, ?_⟩
    cases found : emptySlot range with
    | some i => exact .inl ⟨i, rfl, rfl⟩
    | none => exact .inr ⟨rfl, rfl⟩
  · refine .inl ⟨r, same, ok, fun x => ?_, fun h => h⟩
    rcases ok with none | some
    · exact absurd none empty
    · simp only [Slot.Contains]
      omega

/-- The loop of `subtract_range` after `j` slots.  `budget` counts the slot that
holds `start`: it is the only one that may be split. -/
structure Subtracted (start end_ : Nat) (range₀ range : List Slot) (j : Nat) : Prop where
  length : range.length = range₀.length
  ok : ∀ r ∈ range, r.Ok
  below : ∀ x, cover range x ≤ cover range₀ x
  done : ∀ i < j, ∀ r, range[i]? = some r → ∀ x, start ≤ x → x < end_ → ¬ r.Contains x
  outside : used range₀ + cover range₀ start ≤ range₀.length →
    ∀ x, x < start ∨ end_ ≤ x → cover range x = cover range₀ x
  budget : used range + cover range start ≤ used range₀ + cover range₀ start

theorem ok_set (ok : ∀ r ∈ range, r.Ok) {r' : Slot} (ok' : r'.Ok) : ∀ r ∈ range.set j r', r.Ok :=
  fun r member => (List.mem_or_eq_of_mem_set member).elim (ok r) fun eq => eq ▸ ok'

/-- One slot is replaced by what is left of it. -/
theorem Subtracted.replace (h : Subtracted start end_ range₀ range j)
    (here : range[j]? = some r) {r' : Slot} (ok : r'.Ok)
    (left : ∀ x, r'.Contains x ↔ r.Contains x ∧ ¬ (start ≤ x ∧ x < end_))
    (empty : r.end_ = 0 → r'.end_ = 0) :
    Subtracted start end_ range₀ (range.set j r') (j + 1) := by
  have count : ∀ x, cover (range.set j r') x ≤ cover range x ∧
      (x < start ∨ end_ ≤ x → cover (range.set j r') x = cover range x) := by
    intro x
    have set := cover_set here r' x
    have left := left x
    by_cases old : r.Contains x
    · by_cases new : r'.Contains x
      · rw [if_pos old, if_pos new] at set
        omega
      · rw [if_pos old, if_neg new] at set
        have : start ≤ x ∧ x < end_ := by
          by_contra outside
          exact new (left.mpr ⟨old, outside⟩)
        omega
    · rw [if_neg old, if_neg fun new => old (left.mp new).1] at set
      omega
  refine ⟨by rw [List.length_set, h.length], ok_set h.ok ok, fun x => (count x).1.trans (h.below x),
    fun i hi q at_i x low high inside => ?_, fun room x out => ?_, ?_⟩
  · rw [List.getElem?_set] at at_i
    split at at_i
    · split at at_i
      · obtain rfl := Option.some.inj at_i
        exact ((left x).mp inside).2 ⟨low, high⟩
      · cases at_i
    · exact h.done i (by omega) q at_i x low high inside
  · rw [(count x).2 out, h.outside room x out]
  · have slots := used_set here r'
    have less := (count start).1
    have budget := h.budget
    by_cases none : r.end_ = 0
    · rw [if_neg (by simp [none]), if_neg (by simp [empty none])] at slots
      omega
    · rw [if_pos none] at slots
      split_ifs at slots <;> omega

theorem Subtracted.split (h : Subtracted start end_ range₀ range j) (lt : start < end_)
    (here : range[j]? = some r) (low : r.start < start) (high : end_ < r.end_) {i : Nat}
    (found : emptySlot range = some i) :
    Subtracted start end_ range₀ ((range.set i ⟨end_, r.end_⟩).set j ⟨r.start, start⟩) (j + 1) := by
  obtain ⟨e, at_i, empty⟩ := emptySlot_some found
  have ne : i ≠ j := by
    rintro rfl
    obtain rfl := Option.some.inj (at_i.symm.trans here)
    omega
  have here₁ : (range.set i ⟨end_, r.end_⟩)[j]? = some r := by
    rw [List.getElem?_set_ne ne]
    exact here
  have count : ∀ x, cover ((range.set i ⟨end_, r.end_⟩).set j ⟨r.start, start⟩) x +
      (if start ≤ x ∧ x < end_ then 1 else 0) = cover range x := by
    intro x
    have first := cover_set at_i ⟨end_, r.end_⟩ x
    have second := cover_set here₁ ⟨r.start, start⟩ x
    rw [if_neg (Slot.not_contains_of_empty empty x)] at first
    by_cases behind : (⟨end_, r.end_⟩ : Slot).Contains x <;>
      by_cases before : (⟨r.start, start⟩ : Slot).Contains x <;>
      by_cases old : r.Contains x <;>
      simp only [behind, before, old, if_true, if_false] at first second <;>
      simp only [Slot.Contains] at behind before old <;>
      split <;> omega
  have slots : used ((range.set i ⟨end_, r.end_⟩).set j ⟨r.start, start⟩) = used range + 1 := by
    have first := used_set at_i ⟨end_, r.end_⟩
    have second := used_set here₁ ⟨r.start, start⟩
    simp only [ne_eq] at first second
    rw [if_neg (by simpa using empty), if_pos (by omega)] at first
    rw [if_pos (by omega), if_pos (by omega)] at second
    omega
  refine ⟨by rw [List.length_set, List.length_set, h.length],
    ok_set (ok_set h.ok (.inr high)) (.inr low), fun x => ?_, fun k hk q at_k x xlow xhigh inside => ?_,
    fun room x out => ?_, ?_⟩
  · have := count x
    have := h.below x
    omega
  · rw [List.getElem?_set] at at_k
    split at at_k
    · split at at_k
      · obtain rfl := Option.some.inj at_k
        exact absurd inside.2 (by simpa using xlow)
      · cases at_k
    · rw [List.getElem?_set] at at_k
      split at at_k
      · split at at_k
        · obtain rfl := Option.some.inj at_k
          exact absurd inside.1 (by simpa using xhigh)
        · cases at_k
      · exact h.done k (by omega) q at_k x xlow xhigh inside
  · have := count x
    rw [if_neg (by omega)] at this
    rw [← h.outside room x out]
    omega
  · have := count start
    rw [if_pos ⟨le_rfl, lt⟩] at this
    have := h.budget
    omega

theorem Subtracted.drop (h : Subtracted start end_ range₀ range j) (lt : start < end_)
    (here : range[j]? = some r) (low : r.start < start) (high : end_ < r.end_)
    (full : emptySlot range = none) :
    Subtracted start end_ range₀ (range.set j ⟨r.start, start⟩) (j + 1) := by
  have count : ∀ x, cover (range.set j ⟨r.start, start⟩) x ≤ cover range x := by
    intro x
    have set := cover_set here ⟨r.start, start⟩ x
    by_cases before : (⟨r.start, start⟩ : Slot).Contains x
    · have old : r.Contains x := ⟨before.1, by have := before.2; dsimp only at this; omega⟩
      rw [if_pos before, if_pos old] at set
      omega
    · rw [if_neg before] at set
      omega
  have slots := used_set here ⟨r.start, start⟩
  simp only [ne_eq] at slots
  rw [if_pos (by omega), if_pos (by omega)] at slots
  have taken : 0 < cover range start :=
    List.countP_pos_iff.mpr ⟨r, List.mem_of_getElem? here, decide_eq_true ⟨by omega, by omega⟩⟩
  refine ⟨by rw [List.length_set, h.length], ok_set h.ok (.inr low), fun x => (count x).trans (h.below x),
    fun i hi q at_i x xlow xhigh inside => ?_, fun room x out => ?_, ?_⟩
  · rw [List.getElem?_set] at at_i
    split at at_i
    · split at at_i
      · obtain rfl := Option.some.inj at_i
        exact absurd inside.2 (by simpa using xlow)
      · cases at_i
    · exact h.done i (by omega) q at_i x xlow xhigh inside
  · -- there would have been room
    have := emptySlot_none full
    have := h.budget
    have := h.length
    omega
  · have := count start
    have := h.budget
    omega

theorem Subtracted.step (h : Subtracted start end_ range₀ range j) (lt : start < end_)
    (inside : j < range₀.length) :
    Subtracted start end_ range₀ (subtractSlot start end_ range j) (j + 1) := by
  have inside' : j < range.length := by
    rw [h.length]
    exact inside
  have here := List.getElem?_eq_getElem inside'
  have ok := h.ok _ (List.mem_of_getElem? here)
  rcases subtractSlot_cases here ok with ⟨r', eq, ok', left, empty⟩ | ⟨low, high, ⟨i, found, eq⟩ | ⟨full, eq⟩⟩
  · rw [eq]
    exact h.replace here ok' left empty
  · rw [eq]
    exact h.split lt here low high found
  · rw [eq]
    exact h.drop lt here low high full

theorem Subtracted.refl (ok : ∀ r ∈ range₀, r.Ok) (start end_ : Nat) :
    Subtracted start end_ range₀ range₀ 0 :=
  ⟨rfl, ok, fun _ => le_rfl, fun _ hi => absurd hi (Nat.not_lt_zero _), fun _ _ _ => rfl, le_rfl⟩

theorem subtracted_foldl (ok : ∀ r ∈ range₀, r.Ok) (lt : start < end_) {n : Nat}
    (inside : n ≤ range₀.length) :
    Subtracted start end_ range₀ ((List.range n).foldl (subtractSlot start end_) range₀) n := by
  induction n with
  | zero => exact .refl ok start end_
  | succ n ih =>
    rw [List.range_succ, List.foldl_append, List.foldl_cons, List.foldl_nil]
    exact (ih (by omega)).step lt inside

/-- What `subtract_range` leaves, when the slots are disjoint. -/
structure Difference (start end_ : Nat) (range₀ range : List Slot) : Prop where
  length : range.length = range₀.length
  ok : ∀ r ∈ range, r.Ok
  below : ∀ x, cover range x ≤ cover range₀ x
  inside : ∀ x, start ≤ x → x < end_ → cover range x = 0
  outside : used range₀ + cover range₀ start ≤ range₀.length →
    ∀ x, x < start ∨ end_ ≤ x → cover range x = cover range₀ x
  used : used range ≤ used range₀ + cover range₀ start

theorem subtractRange_difference (ok : ∀ r ∈ range₀, r.Ok) (start end_ : Nat) :
    Difference start end_ range₀ (subtractRange range₀ start end_) := by
  unfold subtractRange
  split
  · exact ⟨rfl, ok, fun _ => le_rfl, fun x low high => by omega, fun _ _ _ => rfl, Nat.le_add_right _ _⟩
  · rename_i lt
    obtain ⟨length, ok', below, done, outside, budget⟩ := subtracted_foldl ok (not_le.mp lt) le_rfl
    refine ⟨length, ok', below, fun x low high => ?_, outside, (Nat.le_add_right _ _).trans budget⟩
    rw [cover, List.countP_eq_zero]
    intro r member
    obtain ⟨i, at_i⟩ := List.mem_iff_getElem?.mp member
    have hi : i < range₀.length := by
      rw [← length]
      exact (List.getElem?_eq_some_iff.mp at_i).1
    simpa using done i hi r at_i x low high

/-- The slot at `i` is used. -/
def UsedAt (range : List Slot) (i : Nat) : Prop := (range[i]?.map (·.end_)).getD 0 ≠ 0

theorem usedAt_iff {i : Nat} : UsedAt range i ↔ ∃ r, range[i]? = some r ∧ r.end_ ≠ 0 := by
  unfold UsedAt
  cases range[i]? with
  | none => simp
  | some r => simp

theorem lastUsed_some {i k : Nat} (found : lastUsed range i k = some j) :
    i < j ∧ j ≤ k ∧ UsedAt range j ∧ ∀ m, j < m → m ≤ k → ¬ UsedAt range m := by
  induction k with
  | zero => cases found
  | succ k ih =>
    rw [lastUsed] at found
    split at found
    · rename_i above
      split at found
      · rename_i here
        obtain rfl := Option.some.inj found
        exact ⟨above, le_rfl, here, fun m low high => by omega⟩
      · rename_i here
        obtain ⟨low, high, used, rest⟩ := ih found
        refine ⟨low, by omega, used, fun m above below => ?_⟩
        by_cases last : m = k + 1
        · rw [last]
          exact here
        · exact rest m above (by omega)
    · cases found

theorem lastUsed_none {i k : Nat} (found : lastUsed range i k = none) :
    ∀ m, i < m → m ≤ k → ¬ UsedAt range m := by
  induction k with
  | zero => exact fun m low high => by omega
  | succ k ih =>
    rw [lastUsed] at found
    intro m low high
    split at found
    · split at found
      · cases found
      · rename_i here
        by_cases last : m = k + 1
        · rw [last]
          exact here
        · exact ih found m low (by omega)
    · omega

/-- The used slots stand first. -/
def Packed (range : List Slot) : Prop := ∃ n, ∀ i, UsedAt range i ↔ i < n

/-- A used slot moves to an empty one. -/
theorem moved_spec {i : Nat} (inside : i < range.length) (is_r : range[j]? = some r)
    (notEmpty : r.end_ ≠ 0) (ne : i ≠ j) (here : ¬ UsedAt range i) :
    (∀ m, UsedAt ((range.set i r).set j ⟨0, 0⟩) m ↔ m = i ∨ UsedAt range m ∧ m ≠ j) ∧
      ∀ p : Slot → Bool, (∀ r, p r = true → r.end_ ≠ 0) →
        ((range.set i r).set j ⟨0, 0⟩).countP p = range.countP p := by
  have inside' : j < range.length := (List.getElem?_eq_some_iff.mp is_r).1
  refine ⟨fun m => ?_, fun p hp => ?_⟩
  · rw [usedAt_iff, usedAt_iff]
    by_cases mj : m = j
    · rw [mj, List.getElem?_set_self (by simpa using inside')]
      simp [Ne.symm ne]
    · rw [List.getElem?_set_ne (Ne.symm mj)]
      by_cases mi : m = i
      · rw [mi, List.getElem?_set_self inside]
        simp [notEmpty]
      · rw [List.getElem?_set_ne (Ne.symm mi)]
        simp [mi, mj]
  · have is_e := List.getElem?_eq_getElem inside
    have empty : range[i].end_ = 0 := by
      by_contra notNull
      exact here (usedAt_iff.mpr ⟨_, is_e, notNull⟩)
    have first := countP_set_add p is_e r
    have is_r' : (range.set i r)[j]? = some r := by
      rw [List.getElem?_set_ne ne]
      exact is_r
    have second := countP_set_add p is_r' ⟨0, 0⟩
    rw [if_neg fun h => hp _ h empty] at first
    rw [if_neg (c := p ⟨0, 0⟩ = true) fun h => hp _ h rfl] at second
    omega

/-- The empty slots of an array take the spare ones, in their order. -/
def fill : List Slot → List Slot → List Slot
  | [], _ => []
  | r :: range, spare =>
    if r.end_ ≠ 0 then r :: fill range spare else spare.headD r :: fill range spare.tail

/-- The used slots, with the gaps among the first of them filled from the end. -/
def gathered (range : List Slot) : List Slot :=
  fill (range.take (used range)) ((range.drop (used range)).filter (·.end_ ≠ 0)).reverse

theorem fill_append {front : List Slot} (allUsed : ∀ r ∈ front, r.end_ ≠ 0) (range spare : List Slot) :
    fill (front ++ range) spare = front ++ fill range spare := by
  induction front with
  | nil => rfl
  | cons r front ih =>
    have first := allUsed r List.mem_cons_self
    rw [List.cons_append, fill, if_pos first, ih fun q member => allUsed q (List.mem_cons_of_mem r member)]
    rfl

theorem used_append (front range : List Slot) : used (front ++ range) = used front + used range :=
  List.countP_append

theorem used_cons_of_used (notEmpty : r.end_ ≠ 0) (range : List Slot) :
    used (r :: range) = used range + 1 :=
  List.countP_cons_of_pos (by simpa using notEmpty)

theorem used_cons_of_empty (empty : r.end_ = 0) (range : List Slot) : used (r :: range) = used range :=
  List.countP_cons_of_neg (by simpa using empty)

/-- What stands at the first gap and at the last used slot does not matter before and
after the move. -/
theorem gathered_apart {front middle rest : List Slot} {q : Slot} (x : Slot)
    (allUsed : ∀ r ∈ front, r.end_ ≠ 0) (allEmpty : ∀ r ∈ rest, r.end_ = 0)
    (hx : x.end_ ≠ 0 ∧ q.end_ = 0 ∧ x = r ∨ x.end_ = 0 ∧ q = r) (notEmpty : r.end_ ≠ 0) :
    gathered (front ++ x :: (middle ++ q :: rest)) =
      front ++ r :: fill (middle.take (used middle))
        ((middle.drop (used middle)).filter (·.end_ ≠ 0)).reverse := by
  have few : used middle ≤ middle.length := List.countP_le_length
  have frontUsed : used front = front.length := by
    rw [used, List.countP_eq_length]
    simpa using allUsed
  have restUsed : used rest = 0 := by
    rw [used, List.countP_eq_zero]
    simpa using allEmpty
  have restNone : rest.filter (·.end_ ≠ 0) = [] := List.filter_eq_nil_iff.mpr (by simpa using allEmpty)
  have number : used (front ++ x :: (middle ++ q :: rest)) = front.length + (used middle + 1) := by
    rcases hx with ⟨hx, hq, -⟩ | ⟨hx, rfl⟩
    · rw [used_append, used_cons_of_used hx, used_append, used_cons_of_empty hq, restUsed, frontUsed]
    · rw [used_append, used_cons_of_empty hx, used_append, used_cons_of_used notEmpty, restUsed, frontUsed]
  rw [gathered, number, List.take_length_add_append, List.drop_length_add_append, List.take_succ_cons,
    List.drop_succ_cons, List.take_append_of_le_length few, List.drop_append_of_le_length few,
    fill_append allUsed, List.filter_append, List.filter_cons, restNone]
  rcases hx with ⟨hx, hq, rfl⟩ | ⟨hx, rfl⟩
  · rw [if_neg (by simpa using hq), List.append_nil, fill, if_pos hx]
  · rw [if_pos (by simpa using notEmpty), List.reverse_append, List.reverse_singleton, fill,
      if_neg (not_not.mpr hx)]
    rfl

theorem split_at_two {i : Nat} (low : i < j) (inside : j < range.length) :
    ∃ front middle rest, front.length = i ∧ i + 1 + middle.length = j ∧
      range = front ++ range[i] :: (middle ++ range[j] :: rest) := by
  refine ⟨range.take i, (range.drop (i + 1)).take (j - (i + 1)), range.drop (j + 1), ?_, ?_, ?_⟩
  · rw [List.length_take]
    omega
  · rw [List.length_take, List.length_drop]
    omega
  · have back : range.drop j = range[j] :: range.drop (j + 1) := List.drop_eq_getElem_cons inside
    have here : range.drop i = range[i] :: range.drop (i + 1) := List.drop_eq_getElem_cons (by omega)
    have later : (range.drop (i + 1)).drop (j - (i + 1)) = range.drop j := by
      rw [List.drop_drop]
      congr 1
      omega
    rw [← back, ← later, List.take_append_drop, ← here, List.take_append_drop]

theorem gathered_moved {i : Nat} (front : ∀ m < i, UsedAt range m) (here : ¬ UsedAt range i) (low : i < j)
    (is_r : range[j]? = some r) (notEmpty : r.end_ ≠ 0) (back : ∀ m, j < m → ¬ UsedAt range m) :
    gathered ((range.set i r).set j ⟨0, 0⟩) = gathered range := by
  obtain ⟨inside, rfl⟩ := List.getElem?_eq_some_iff.mp is_r
  obtain ⟨first, middle, rest, lengthFirst, lengthMiddle, eq⟩ := split_at_two low inside
  have empty : range[i].end_ = 0 := by
    by_contra notNull
    exact here (usedAt_iff.mpr ⟨_, List.getElem?_eq_getElem (by omega), notNull⟩)
  have allUsed : ∀ r ∈ first, r.end_ ≠ 0 := by
    intro r member
    obtain ⟨m, hm, rfl⟩ := List.mem_iff_getElem.mp member
    obtain ⟨q, is_q, qUsed⟩ := usedAt_iff.mp (front m (by omega))
    rw [eq, List.getElem?_append_left hm, List.getElem?_eq_getElem hm] at is_q
    exact Option.some.inj is_q ▸ qUsed
  have allEmpty : ∀ r ∈ rest, r.end_ = 0 := by
    intro r member
    obtain ⟨m, hm, rfl⟩ := List.mem_iff_getElem.mp member
    by_contra notNull
    refine back (j + 1 + m) (by omega) (usedAt_iff.mpr ⟨rest[m], ?_, notNull⟩)
    rw [eq]
    simp only [List.getElem?_append, List.getElem?_cons]
    rw [if_neg (by omega), if_neg (by omega), if_neg (by omega), if_neg (by omega)]
    rw [← List.getElem?_eq_getElem hm]
    congr 1
    omega
  generalize range[i] = e at eq empty
  generalize range[j] = r at eq notEmpty
  subst eq
  have moved : ((first ++ e :: (middle ++ r :: rest)).set i r).set j ⟨0, 0⟩ =
      first ++ r :: (middle ++ ⟨0, 0⟩ :: rest) := by
    rw [← lengthMiddle, ← lengthFirst, List.set_append_right _ _ le_rfl, Nat.sub_self, List.set_cons_zero,
      List.set_append_right _ _ (by omega), show first.length + 1 + middle.length - first.length =
      middle.length + 1 by omega, List.set_cons_succ, List.set_append_right _ _ le_rfl, Nat.sub_self,
      List.set_cons_zero]
  rw [moved, gathered_apart r allUsed allEmpty (.inl ⟨notEmpty, rfl, rfl⟩) notEmpty,
    gathered_apart e allUsed allEmpty (.inr ⟨empty, rfl⟩) notEmpty]

/-- The loop of `clean_sort_range` packs the slots and keeps the used ones. -/
theorem compact_spec {i k fuel : Nat} (front : ∀ m < i, UsedAt range m)
    (back : ∀ m, k < m → ¬ UsedAt range m) (order : i ≤ k + 1) (enough : k < i + fuel) :
    Packed (compact range i k fuel) ∧ (compact range i k fuel).length = range.length ∧
      (∀ p : Slot → Bool, (∀ r, p r = true → r.end_ ≠ 0) →
        (compact range i k fuel).countP p = range.countP p) ∧
      gathered (compact range i k fuel) = gathered range := by
  induction fuel generalizing range i k with
  | zero =>
    refine ⟨⟨i, fun m => ⟨fun at_m => ?_, front m⟩⟩, rfl, fun _ _ => rfl, rfl⟩
    by_contra above
    exact back m (by omega) at_m
  | succ fuel ih =>
    rw [compact]
    split
    · rename_i go
      split
      · rename_i here
        refine ih (fun m hm => ?_) back (by omega) (by omega)
        by_cases eq : m = i
        · exact eq ▸ here
        · exact front m (by omega)
      · rename_i here
        cases found : lastUsed range i k with
        | none =>
          have gone := lastUsed_none found
          refine ⟨⟨i, fun m => ⟨fun at_m => ?_, front m⟩⟩, rfl, fun _ _ => rfl, rfl⟩
          by_contra above
          by_cases eq : m = i
          · exact here (eq ▸ at_m)
          · by_cases low : m ≤ k
            · exact gone m (by omega) low at_m
            · exact back m (by omega) at_m
        | some j =>
          obtain ⟨low, high, at_j, rest⟩ := lastUsed_some found
          obtain ⟨r, is_r, notEmpty⟩ := usedAt_iff.mp at_j
          have inside : j < range.length := (List.getElem?_eq_some_iff.mp is_r).1
          have moved := moved_spec (by omega : i < range.length) is_r notEmpty (by omega : i ≠ j) here
          dsimp only
          rw [is_r, Option.getD_some]
          have front' : ∀ m < i + 1, UsedAt ((range.set i r).set j ⟨0, 0⟩) m := fun m hm => by
            rw [moved.1]
            by_cases eq : m = i
            · exact .inl eq
            · exact .inr ⟨front m (by omega), by omega⟩
          have back' : ∀ m, j - 1 < m → ¬ UsedAt ((range.set i r).set j ⟨0, 0⟩) m := fun m hm => by
            rw [moved.1]
            rintro (eq | ⟨at_m, ne⟩)
            · omega
            · by_cases low : m ≤ k
              · exact rest m (by omega) low at_m
              · exact back m (by omega) at_m
          obtain ⟨packed, length, counts, same⟩ := ih front' back' (by omega) (by omega)
          refine ⟨packed, length.trans (by simp), fun p hp => ?_, same.trans ?_⟩
          · rw [counts p hp, moved.2 p hp]
          · refine gathered_moved front here low is_r notEmpty fun m above => ?_
            by_cases inside : m ≤ k
            · exact rest m above inside
            · exact back m (by omega)
    · by_cases last : UsedAt range k
      · refine ⟨⟨k + 1, fun m => ⟨fun at_m => ?_, fun hm => ?_⟩⟩, rfl, fun _ _ => rfl, rfl⟩
        · by_contra above
          exact back m (by omega) at_m
        · by_cases eq : m = k
          · exact eq ▸ last
          · exact front m (by omega)
      · refine ⟨⟨k, fun m => ⟨fun at_m => ?_, fun hm => front m (by omega)⟩⟩, rfl, fun _ _ => rfl, rfl⟩
        by_contra above
        by_cases eq : m = k
        · exact last (eq ▸ at_m)
        · exact back m (by omega) at_m

theorem filter_perm_of_countP {range' : List Slot}
    (counts : ∀ p : Slot → Bool, (∀ r, p r = true → r.end_ ≠ 0) → range'.countP p = range.countP p) :
    (range'.filter (·.end_ ≠ 0)).Perm (range.filter (·.end_ ≠ 0)) := by
  rw [List.perm_iff_count]
  intro a
  rw [List.count_eq_countP, List.count_eq_countP, List.countP_filter, List.countP_filter]
  refine counts _ fun r both => ?_
  simp only [Bool.and_eq_true, decide_eq_true_eq] at both
  exact both.2

theorem Packed.take_eq (packed : Packed range) :
    range.take ((emptySlot range).getD range.length) = range.filter (·.end_ ≠ 0) := by
  obtain ⟨n, packed⟩ := packed
  have le : n ≤ range.length := by
    by_contra above
    obtain ⟨r, is_r, -⟩ := usedAt_iff.mp ((packed range.length).mpr (by omega))
    rw [List.getElem?_eq_none le_rfl] at is_r
    cases is_r
  have number : (emptySlot range).getD range.length = n := by
    cases found : emptySlot range with
    | none =>
      rw [Option.getD_none]
      by_contra ne
      have lt : n < range.length := by omega
      have notEmpty := List.findIdx?_eq_none_iff.mp found range[n] (List.getElem_mem lt)
      have : n < n := (packed n).mp
        (usedAt_iff.mpr ⟨range[n], List.getElem?_eq_getElem lt, by simpa using notEmpty⟩)
      omega
    | some i =>
      rw [Option.getD_some]
      obtain ⟨inside, empty, before⟩ := List.findIdx?_eq_some_iff_getElem.mp found
      have notUsed : ¬ UsedAt range i := by
        rw [usedAt_iff]
        rintro ⟨r, is_r, notEmpty⟩
        rw [List.getElem?_eq_getElem inside] at is_r
        obtain rfl := Option.some.inj is_r
        exact notEmpty (by simpa using empty)
      rw [packed] at notUsed
      by_contra ne
      have lt : n < i := by omega
      have : n < n := (packed n).mp
        (usedAt_iff.mpr ⟨range[n], List.getElem?_eq_getElem (by omega), by simpa using before n lt⟩)
      omega
  have front : ∀ r ∈ range.take n, r.end_ ≠ 0 := by
    intro r member
    obtain ⟨i, hi, rfl⟩ := List.mem_take_iff_getElem.mp member
    obtain ⟨q, is_q, notEmpty⟩ := usedAt_iff.mp ((packed i).mpr (by omega))
    rw [List.getElem?_eq_getElem (by omega)] at is_q
    rwa [Option.some.inj is_q]
  have back : ∀ r ∈ range.drop n, r.end_ = 0 := by
    intro r member
    obtain ⟨i, hi, rfl⟩ := List.mem_drop_iff_getElem.mp member
    by_contra notEmpty
    have := (packed (n + i)).mp (usedAt_iff.mpr ⟨_, List.getElem?_eq_getElem (by omega), notEmpty⟩)
    omega
  rw [number]
  conv_rhs => rw [← List.take_append_drop n range, List.filter_append]
  rw [List.filter_eq_self.mpr (by simpa using front), List.filter_eq_nil_iff.mpr (by simpa using back),
    List.append_nil]

theorem Packed.drop_empty (packed : Packed range) :
    ∀ r ∈ range.drop ((emptySlot range).getD range.length), r.end_ = 0 := by
  have taken := packed.take_eq
  generalize (emptySlot range).getD range.length = n at taken
  have front : (range.take n).filter (·.end_ ≠ 0) = range.take n := by
    rw [taken, List.filter_filter]
    simp
  have split : range.take n ++ (range.drop n).filter (·.end_ ≠ 0) = range.take n ++ [] := by
    conv_lhs => rw [← front, ← List.filter_append, List.take_append_drop]
    rw [taken, List.append_nil]
  intro r member
  have none := List.filter_eq_nil_iff.mp (List.append_cancel_left split) r member
  simpa using none

theorem number_le (range : List Slot) : (emptySlot range).getD range.length ≤ range.length := by
  cases found : emptySlot range with
  | none => exact le_rfl
  | some i => exact (List.findIdx?_eq_some_iff_getElem.mp found).1.le

theorem Packed.gathered_eq (packed : Packed range) :
    gathered range = range.take ((emptySlot range).getD range.length) := by
  have taken := packed.take_eq
  have empty := packed.drop_empty
  have small := number_le range
  have number : used range = (emptySlot range).getD range.length := by
    rw [used, List.countP_eq_length_filter, ← taken, List.length_take, Nat.min_eq_left small]
  have front : ∀ r ∈ range.take (used range), r.end_ ≠ 0 := by
    rw [number, taken]
    intro r member
    simpa using (List.mem_filter.mp member).2
  have rest : (range.drop (used range)).filter (·.end_ ≠ 0) = [] := by
    rw [number]
    exact List.filter_eq_nil_iff.mpr (by simpa using empty)
  have filled := fill_append front [] []
  rw [List.append_nil] at filled
  rw [gathered, rest, List.reverse_nil, filled, number, fill, List.append_nil]

/-- The loop of `clean_sort_range` on the whole array. -/
theorem compact_packed (range : List Slot) :
    Packed (compact range 0 (range.length - 1) range.length) ∧
      (compact range 0 (range.length - 1) range.length).length = range.length ∧
      (∀ p : Slot → Bool, (∀ r, p r = true → r.end_ ≠ 0) →
        (compact range 0 (range.length - 1) range.length).countP p = range.countP p) ∧
      gathered (compact range 0 (range.length - 1) range.length) = gathered range := by
  by_cases nil : range = []
  · subst nil
    refine ⟨⟨0, fun i => ?_⟩, rfl, fun _ _ => rfl, rfl⟩
    exact iff_of_false (by simp [compact, UsedAt]) (Nat.not_lt_zero i)
  have pos := List.length_pos_iff.mpr nil
  refine compact_spec (i := 0) (by omega) (fun m hm at_m => ?_) (by omega) (by omega)
  obtain ⟨r, is_r, -⟩ := usedAt_iff.mp at_m
  rw [List.getElem?_eq_none (by omega)] at is_r
  cases is_r

/-- `clean_sort_range` sorts the used slots and leaves empty ones behind them. -/
theorem cleanSortRange_packed (range : List Slot) :
    ∃ rest, (gathered range).Perm (range.filter (·.end_ ≠ 0)) ∧ (∀ r ∈ rest, r.end_ = 0) ∧
      (gathered range).length + rest.length = range.length ∧
      cleanSortRange range = (sort cmpRange (gathered range)).map fun sorted =>
        (sorted ++ rest, (gathered range).length) := by
  obtain ⟨packed, length, counts, same⟩ := compact_packed range
  unfold cleanSortRange
  generalize compact range 0 (range.length - 1) range.length = range' at packed length counts same ⊢
  dsimp only
  rw [← same, packed.gathered_eq]
  have taken := packed.take_eq
  have empty := packed.drop_empty
  have small := number_le range'
  generalize (emptySlot range').getD range'.length = n at taken empty small
  refine ⟨range'.drop n, ?_, empty, ?_, ?_⟩
  · rw [taken]
    exact filter_perm_of_countP counts
  · rw [List.length_take, List.length_drop]
    omega
  · rw [List.length_take, Nat.min_eq_left small]

theorem cleanSortRange_perm (range : List Slot) :
    ∃ sorted rest, cleanSortRange range = some (sorted ++ rest, sorted.length) ∧
      sorted.Perm (range.filter (·.end_ ≠ 0)) := by
  obtain ⟨rest, used, -, -, eq⟩ := cleanSortRange_packed range
  obtain ⟨sorted, sorts, perm⟩ := sort_perm cmpRange (gathered range)
  refine ⟨sorted, rest, ?_, perm.trans used⟩
  rw [eq, sorts, perm.length_eq]
  rfl

end XcKernel.Range
