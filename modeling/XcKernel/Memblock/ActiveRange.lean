import XcKernel.Memblock.Bootmem

/-!
# `early_node_map`

`add_active_range` goes through the entries and returns at the first one that
it can tell to hold the range or that it can extend.  Two of its three tests read
the end of entry 0 where that of the entry itself is meant, and an entry is
extended without a look at its other end or at the other entries.

The map stays exact as long as each call adds to one entry just the part of
the range that was missing.
-/

namespace XcKernel.Mm

open XcKernel.Span

def maxActiveRegions : Nat := 256

def NodeActiveRegion.span (r : NodeActiveRegion) : Span := ⟨r.startPfn, r.endPfn⟩

/-- The first test: the range is taken to be in the entry. -/
def HoldsRange (end0 : Nat) (r : NodeActiveRegion) (startPfn endPfn : Nat) : Prop :=
  startPfn ≥ r.startPfn ∧ endPfn ≤ end0

/-- The second test: the entry is extended forwards. -/
def ExtendsForward (end0 : Nat) (r : NodeActiveRegion) (startPfn endPfn : Nat) : Prop :=
  startPfn ≤ end0 ∧ endPfn > r.endPfn

/-- The third test: the entry is extended backwards. -/
def ExtendsBackward (r : NodeActiveRegion) (startPfn endPfn : Nat) : Prop :=
  startPfn < r.startPfn ∧ endPfn ≥ r.startPfn

instance (end0 : Nat) (r : NodeActiveRegion) (startPfn endPfn : Nat) :
    Decidable (HoldsRange end0 r startPfn endPfn) := inferInstanceAs (Decidable (_ ∧ _))

instance (end0 : Nat) (r : NodeActiveRegion) (startPfn endPfn : Nat) :
    Decidable (ExtendsForward end0 r startPfn endPfn) := inferInstanceAs (Decidable (_ ∧ _))

instance (r : NodeActiveRegion) (startPfn endPfn : Nat) :
    Decidable (ExtendsBackward r startPfn endPfn) := inferInstanceAs (Decidable (_ ∧ _))

/-- The body of the loop of `add_active_range`: what becomes of the entry when the
function returns at it. -/
def mergeEntry (end0 nid startPfn endPfn : Nat) (r : NodeActiveRegion) : Option NodeActiveRegion :=
  if r.nid ≠ nid then none
  else if HoldsRange end0 r startPfn endPfn then some r
  else if ExtendsForward end0 r startPfn endPfn then some { r with endPfn := endPfn }
  else if ExtendsBackward r startPfn endPfn then some { r with startPfn := startPfn }
  else none

/-- The loop of `add_active_range` -/
def mergeEntries (end0 nid startPfn endPfn : Nat) :
    List NodeActiveRegion → Option (List NodeActiveRegion)
  | [] => none
  | r :: rest =>
    match mergeEntry end0 nid startPfn endPfn r with
    | some r' => some (r' :: rest)
    | none => (mergeEntries end0 nid startPfn endPfn rest).map (r :: ·)

/-- `early_node_map[0].end_pfn` -/
def firstEnd (earlyNodeMap : List NodeActiveRegion) : Nat :=
  (earlyNodeMap.head?.map (·.endPfn)).getD 0

def addActiveRange (earlyNodeMap : List NodeActiveRegion) (nid startPfn endPfn : Nat) :
    List NodeActiveRegion :=
  match mergeEntries (firstEnd earlyNodeMap) nid startPfn endPfn earlyNodeMap with
  | some merged => merged
  | none =>
    if earlyNodeMap.length ≥ maxActiveRegions then earlyNodeMap
    else earlyNodeMap ++ [⟨startPfn, endPfn, nid⟩]

section Call

variable {end0 nid s e : Nat} {map rest before : List NodeActiveRegion} {r r' : NodeActiveRegion}

/-- The page frames in the map. -/
def ActivePfn (map : List NodeActiveRegion) (p : Nat) : Prop := Covers (map.map (·.span)) p

/-- The loop returns at the first entry that passes one of the tests. -/
theorem mergeEntries_cases (end0 nid s e : Nat) (map : List NodeActiveRegion) :
    (mergeEntries end0 nid s e map = none ∧ ∀ t ∈ map, mergeEntry end0 nid s e t = none) ∨
      ∃ before r r' rest, map = before ++ r :: rest ∧
        (∀ t ∈ before, mergeEntry end0 nid s e t = none) ∧ mergeEntry end0 nid s e r = some r' ∧
        mergeEntries end0 nid s e map = some (before ++ r' :: rest) := by
  induction map with
  | nil => exact .inl ⟨rfl, by simp⟩
  | cons r rest ih =>
    rw [mergeEntries]
    cases merged : mergeEntry end0 nid s e r with
    | some r' => exact .inr ⟨[], r, r', rest, rfl, by simp, merged, rfl⟩
    | none =>
      rcases ih with ⟨none', passed⟩ | ⟨before, t, t', rest', split, passed, at_t, eq⟩
      · left
        rw [none']
        exact ⟨rfl, List.forall_mem_cons.mpr ⟨merged, passed⟩⟩
      · right
        refine ⟨r :: before, t, t', rest', by rw [split]; rfl,
          List.forall_mem_cons.mpr ⟨merged, passed⟩, at_t, ?_⟩
        rw [eq]
        rfl

theorem mergeEntry_cases (merged : mergeEntry end0 nid s e r = some r') :
    r.nid = nid ∧
    ((HoldsRange end0 r s e ∧ r' = r) ∨
      (¬ HoldsRange end0 r s e ∧ ExtendsForward end0 r s e ∧ r' = { r with endPfn := e }) ∨
      (¬ HoldsRange end0 r s e ∧ ¬ ExtendsForward end0 r s e ∧ ExtendsBackward r s e ∧
        r' = { r with startPfn := s })) := by
  unfold mergeEntry at merged
  split_ifs at merged with other holds forward backward
  · exact ⟨not_not.mp other, .inl ⟨holds, (Option.some.inj merged).symm⟩⟩
  · exact ⟨not_not.mp other, .inr (.inl ⟨holds, forward, (Option.some.inj merged).symm⟩)⟩
  · exact ⟨not_not.mp other, .inr (.inr ⟨holds, forward, backward, (Option.some.inj merged).symm⟩)⟩

theorem mergeEntry_of_known (node : r.nid = nid) (holds : HoldsRange end0 r s e) :
    mergeEntry end0 nid s e r = some r := by
  rw [mergeEntry, if_neg (not_not.mpr node), if_pos holds]

theorem mergeEntry_of_forward (node : r.nid = nid) (not : ¬ HoldsRange end0 r s e)
    (forward : ExtendsForward end0 r s e) :
    mergeEntry end0 nid s e r = some { r with endPfn := e } := by
  rw [mergeEntry, if_neg (not_not.mpr node), if_neg not, if_pos forward]

theorem mergeEntry_of_backward (node : r.nid = nid) (not : ¬ HoldsRange end0 r s e)
    (not' : ¬ ExtendsForward end0 r s e) (backward : ExtendsBackward r s e) :
    mergeEntry end0 nid s e r = some { r with startPfn := s } := by
  rw [mergeEntry, if_neg (not_not.mpr node), if_neg not, if_neg not', if_pos backward]

theorem activePfn_append (map rest : List NodeActiveRegion) (p : Nat) :
    ActivePfn (map ++ rest) p ↔ ActivePfn map p ∨ ActivePfn rest p := by
  simp [ActivePfn]

theorem activePfn_cons (r : NodeActiveRegion) (map : List NodeActiveRegion) (p : Nat) :
    ActivePfn (r :: map) p ↔ r.span.Contains p ∨ ActivePfn map p := by
  simp [ActivePfn]

theorem activePfn_of_mem (member : r ∈ map) {p : Nat} (inside : r.span.Contains p) : ActivePfn map p :=
  ⟨r.span, List.mem_map_of_mem member, inside⟩

/-- The map holds the ranges added so far, each page frame in one entry. -/
structure Exact (map : List NodeActiveRegion) (ranges : List Span) : Prop where
  disjoint : map.Pairwise fun r t => r.span.Apart t.span
  covers : ∀ p, ActivePfn map p ↔ Covers ranges p

/-- The call adds what is missing of the range, and nothing else: the function
returns at the first entry that passes a test, and the test is right about it. -/
inductive Suits (map : List NodeActiveRegion) (nid s e : Nat) : Prop
  | known {before rest : List NodeActiveRegion} {r : NodeActiveRegion}
      (split : map = before ++ r :: rest)
      (passed : ∀ t ∈ before, mergeEntry (firstEnd map) nid s e t = none) (node : r.nid = nid)
      (holds : HoldsRange (firstEnd map) r s e)
      (mapped : ∀ p, s ≤ p → p < e → ActivePfn map p)
  | forward {before rest : List NodeActiveRegion} {r : NodeActiveRegion}
      (split : map = before ++ r :: rest)
      (passed : ∀ t ∈ before, mergeEntry (firstEnd map) nid s e t = none) (node : r.nid = nid)
      (not : ¬ HoldsRange (firstEnd map) r s e) (extends_ : ExtendsForward (firstEnd map) r s e)
      (meets : s ≤ r.endPfn) (mapped : ∀ p, s ≤ p → p < r.endPfn → ActivePfn map p)
      (clear : ∀ p, r.endPfn ≤ p → p < e → ¬ ActivePfn map p)
  | backward {before rest : List NodeActiveRegion} {r : NodeActiveRegion}
      (split : map = before ++ r :: rest)
      (passed : ∀ t ∈ before, mergeEntry (firstEnd map) nid s e t = none) (node : r.nid = nid)
      (not : ¬ HoldsRange (firstEnd map) r s e) (not' : ¬ ExtendsForward (firstEnd map) r s e)
      (extends_ : ExtendsBackward r s e) (mapped : ∀ p, r.startPfn ≤ p → p < e → ActivePfn map p)
      (clear : ∀ p, s ≤ p → p < r.startPfn → ¬ ActivePfn map p)
  | fresh (passed : ∀ t ∈ map, mergeEntry (firstEnd map) nid s e t = none)
      (clear : ∀ p, s ≤ p → p < e → ¬ ActivePfn map p)

theorem activePfn_middle (before rest : List NodeActiveRegion) (r : NodeActiveRegion) (p : Nat) :
    ActivePfn (before ++ r :: rest) p ↔ r.span.Contains p ∨ ActivePfn (before ++ rest) p := by
  rw [activePfn_append, activePfn_cons, activePfn_append]
  tauto

theorem pairwise_apart_middle :
    ((before ++ r :: rest).Pairwise fun r t => r.span.Apart t.span) ↔
      (∀ t ∈ before ++ rest, r.span.Apart t.span) ∧
        (before ++ rest).Pairwise fun r t => r.span.Apart t.span := by
  rw [List.pairwise_middle (fun apart => apart.symm), List.pairwise_cons]

/-- An entry that grows keeps the map exact when it grows by just what was missing. -/
theorem exact_grown {ranges : List Span} (old : Exact (before ++ r :: rest) ranges)
    (grows : ∀ p, r.span.Contains p → r'.span.Contains p) :
    Exact (before ++ r' :: rest) (ranges ++ [⟨s, e⟩]) ↔
      ∀ p, (r'.span.Contains p ∧ ¬ r.span.Contains p) ↔
        (s ≤ p ∧ p < e) ∧ ¬ ActivePfn (before ++ r :: rest) p := by
  obtain ⟨disjoint, covers⟩ := old
  rw [pairwise_apart_middle] at disjoint
  have added : ∀ p, Covers (ranges ++ [⟨s, e⟩]) p ↔
      ActivePfn (before ++ r :: rest) p ∨ s ≤ p ∧ p < e := by
    intro p
    rw [covers_append, ← covers p]
    simp [Contains]
  have others : ∀ p, r.span.Contains p → ¬ ActivePfn (before ++ rest) p := by
    rintro p inside ⟨_, member, also⟩
    obtain ⟨t, ht, rfl⟩ := List.mem_map.mp member
    exact disjoint.1 t ht p inside also
  constructor
  · rintro ⟨disjoint', covers'⟩ p
    rw [pairwise_apart_middle] at disjoint'
    have others' : r'.span.Contains p → ¬ ActivePfn (before ++ rest) p := by
      rintro inside ⟨_, member, also⟩
      obtain ⟨t, ht, rfl⟩ := List.mem_map.mp member
      exact disjoint'.1 t ht p inside also
    have same := (covers' p).trans (added p)
    rw [activePfn_middle, activePfn_middle] at same
    rw [activePfn_middle]
    tauto
  · intro gained
    constructor
    · rw [pairwise_apart_middle]
      refine ⟨fun t ht p inside also => ?_, disjoint.2⟩
      by_cases before' : r.span.Contains p
      · exact disjoint.1 t ht p before' also
      · have missing := ((gained p).mp ⟨inside, before'⟩).2
        rw [activePfn_middle] at missing
        exact missing (.inr (activePfn_of_mem ht also))
    · intro p
      have gain := gained p
      have grow := grows p
      rw [added p]
      rw [activePfn_middle] at gain ⊢
      rw [activePfn_middle]
      tauto

theorem exact_fresh {ranges : List Span} (old : Exact map ranges) :
    Exact (map ++ [⟨s, e, nid⟩]) (ranges ++ [⟨s, e⟩]) ↔ ∀ p, s ≤ p → p < e → ¬ ActivePfn map p := by
  have added : ∀ p, Covers (ranges ++ [⟨s, e⟩]) p ↔ ActivePfn map p ∨ s ≤ p ∧ p < e := by
    intro p
    rw [covers_append, ← old.covers p]
    simp [Contains]
  constructor
  · rintro ⟨disjoint, -⟩ p low high ⟨_, member, also⟩
    obtain ⟨t, ht, rfl⟩ := List.mem_map.mp member
    rw [List.pairwise_append] at disjoint
    exact disjoint.2.2 t ht _ (List.mem_singleton.mpr rfl) p also ⟨low, high⟩
  · intro clear
    constructor
    · rw [List.pairwise_append]
      refine ⟨old.disjoint, List.pairwise_singleton _ _, fun t ht u hu p inside also => ?_⟩
      rw [List.mem_singleton] at hu
      subst hu
      exact clear p also.1 also.2 (activePfn_of_mem ht inside)
    · intro p
      rw [added p, activePfn_append]
      simp [ActivePfn, NodeActiveRegion.span, Contains]

theorem mergeEntries_at (split : map = before ++ r :: rest)
    (passed : ∀ t ∈ before, mergeEntry end0 nid s e t = none)
    (merged : mergeEntry end0 nid s e r = some r') :
    mergeEntries end0 nid s e map = some (before ++ r' :: rest) := by
  subst split
  induction before with
  | nil =>
    rw [List.nil_append, mergeEntries, merged]
    rfl
  | cons t before ih =>
    rw [List.cons_append, mergeEntries, passed t List.mem_cons_self,
      ih fun u hu => passed u (List.mem_cons_of_mem t hu)]
    rfl

theorem addActiveRange_at (split : map = before ++ r :: rest)
    (passed : ∀ t ∈ before, mergeEntry (firstEnd map) nid s e t = none)
    (merged : mergeEntry (firstEnd map) nid s e r = some r') :
    addActiveRange map nid s e = before ++ r' :: rest := by
  rw [addActiveRange, mergeEntries_at split passed merged]

theorem addActiveRange_fresh (passed : ∀ t ∈ map, mergeEntry (firstEnd map) nid s e t = none)
    (room : map.length < maxActiveRegions) :
    addActiveRange map nid s e = map ++ [⟨s, e, nid⟩] := by
  rcases mergeEntries_cases (firstEnd map) nid s e map with
    ⟨none', -⟩ | ⟨before, r, r', rest, split, -, merged, -⟩
  · rw [addActiveRange, none']
    exact if_neg (by omega)
  · rw [passed r (by rw [split]; simp)] at merged
    cases merged

theorem gains_forward (positive : r.startPfn < r.endPfn) (extends_ : ExtendsForward end0 r s e)
    (p : Nat) :
    (({ r with endPfn := e } : NodeActiveRegion).span.Contains p ∧ ¬ r.span.Contains p) ↔
      r.endPfn ≤ p ∧ p < e := by
  have longer := extends_.2
  simp only [NodeActiveRegion.span, Contains]
  omega

theorem gains_backward (positive : r.startPfn < r.endPfn) (extends_ : ExtendsBackward r s e)
    (p : Nat) :
    (({ r with startPfn := s } : NodeActiveRegion).span.Contains p ∧ ¬ r.span.Contains p) ↔
      s ≤ p ∧ p < r.startPfn := by
  have earlier := extends_.1
  simp only [NodeActiveRegion.span, Contains]
  omega

theorem grows_forward (extends_ : ExtendsForward end0 r s e) (p : Nat)
    (inside : r.span.Contains p) : ({ r with endPfn := e } : NodeActiveRegion).span.Contains p :=
  ⟨inside.1, inside.2.trans extends_.2⟩

theorem grows_backward (extends_ : ExtendsBackward r s e) (p : Nat)
    (inside : r.span.Contains p) : ({ r with startPfn := s } : NodeActiveRegion).span.Contains p :=
  ⟨extends_.1.le.trans inside.1, inside.2⟩

theorem exact_of_suits {ranges : List Span} (positive : ∀ r ∈ map, r.startPfn < r.endPfn)
    (room : map.length < maxActiveRegions) (old : Exact map ranges) (suits : Suits map nid s e) :
    Exact (addActiveRange map nid s e) (ranges ++ [⟨s, e⟩]) := by
  cases suits with
  | @known before rest r split passed node holds mapped =>
    rw [addActiveRange_at split passed (mergeEntry_of_known node holds)]
    subst split
    rw [exact_grown old fun _ => id]
    intro p
    have := mapped p
    tauto
  | @forward before rest r split passed node not extends_ meets mapped clear =>
    rw [addActiveRange_at split passed (mergeEntry_of_forward node not extends_)]
    subst split
    rw [exact_grown old (grows_forward extends_)]
    intro p
    rw [gains_forward (positive r (by simp)) extends_]
    constructor
    · rintro ⟨low, high⟩
      exact ⟨⟨by omega, high⟩, clear p low high⟩
    · rintro ⟨⟨low, high⟩, missing⟩
      exact ⟨not_lt.mp fun below => missing (mapped p low below), high⟩
  | @backward before rest r split passed node not not' extends_ mapped clear =>
    rw [addActiveRange_at split passed (mergeEntry_of_backward node not not' extends_)]
    subst split
    rw [exact_grown old (grows_backward extends_)]
    intro p
    rw [gains_backward (positive r (by simp)) extends_]
    have reaches := extends_.2
    constructor
    · rintro ⟨low, high⟩
      exact ⟨⟨low, by omega⟩, clear p low high⟩
    · rintro ⟨⟨low, high⟩, missing⟩
      exact ⟨low, not_le.mp fun above => missing (mapped p above high)⟩
  | fresh passed clear =>
    rw [addActiveRange_fresh passed room]
    exact (exact_fresh old).mpr clear

theorem suits_of_exact {ranges : List Span} (positive : ∀ r ∈ map, r.startPfn < r.endPfn)
    (room : map.length < maxActiveRegions) (old : Exact map ranges)
    (new : Exact (addActiveRange map nid s e) (ranges ++ [⟨s, e⟩])) : Suits map nid s e := by
  rcases mergeEntries_cases (firstEnd map) nid s e map with
    ⟨-, passed⟩ | ⟨before, r, r', rest, split, passed, merged, -⟩
  · rw [addActiveRange_fresh passed room] at new
    exact .fresh passed ((exact_fresh old).mp new)
  · rw [addActiveRange_at split passed merged] at new
    have bounds := positive r (by rw [split]; simp)
    rw [split] at old
    obtain ⟨node, ⟨holds, rfl⟩ | ⟨not, extends_, rfl⟩ | ⟨not, not', extends_, rfl⟩⟩ :=
      mergeEntry_cases merged
    · have gained := (exact_grown old fun _ => id).mp new
      rw [← split] at gained
      refine .known split passed node holds ?_
      intro p low high
      have := gained p
      tauto
    · have gained := (exact_grown old (grows_forward extends_)).mp new
      rw [← split] at gained
      simp only [gains_forward bounds extends_] at gained
      have longer := extends_.2
      refine .forward split passed node not extends_ ?_ ?_ ?_
      · exact ((gained r.endPfn).mp ⟨le_rfl, longer⟩).1.1
      · intro p low high
        by_contra missing
        have := (gained p).mpr ⟨⟨low, by omega⟩, missing⟩
        omega
      · intro p low high
        exact ((gained p).mp ⟨low, high⟩).2
    · have gained := (exact_grown old (grows_backward extends_)).mp new
      rw [← split] at gained
      simp only [gains_backward bounds extends_] at gained
      have earlier := extends_.1
      refine .backward split passed node not not' extends_ ?_ ?_
      · intro p low high
        by_contra missing
        have := (gained p).mpr ⟨⟨by omega, high⟩, missing⟩
        omega
      · intro p low high
        exact ((gained p).mp ⟨low, high⟩).2

theorem addActiveRange_positive (positive : ∀ r ∈ map, r.startPfn < r.endPfn) (lt : s < e) :
    ∀ r ∈ addActiveRange map nid s e, r.startPfn < r.endPfn := by
  rcases mergeEntries_cases (firstEnd map) nid s e map with
    ⟨none', -⟩ | ⟨before, r, r', rest, split, passed, merged, -⟩
  · rw [addActiveRange, none']
    dsimp only
    split
    · exact positive
    · intro r member
      rcases List.mem_append.mp member with old | new
      · exact positive r old
      · obtain rfl := List.mem_singleton.mp new
        exact lt
  · rw [addActiveRange_at split passed merged]
    have bounds := positive r (by rw [split]; simp)
    have grown : r'.startPfn < r'.endPfn := by
      obtain ⟨-, ⟨-, rfl⟩ | ⟨-, extends_, rfl⟩ | ⟨-, -, extends_, rfl⟩⟩ := mergeEntry_cases merged
      · exact bounds
      · exact bounds.trans extends_.2
      · exact extends_.1.trans bounds
    intro t member
    rcases List.mem_append.mp member with first | later
    · exact positive t (by rw [split]; exact List.mem_append_left _ first)
    · rcases List.mem_cons.mp later with rfl | last
      · exact grown
      · exact positive t (by rw [split]; simp [last])

theorem addActiveRange_length : (addActiveRange map nid s e).length ≤ map.length + 1 := by
  rcases mergeEntries_cases (firstEnd map) nid s e map with
    ⟨none', -⟩ | ⟨before, r, r', rest, split, passed, merged, -⟩
  · rw [addActiveRange, none']
    dsimp only
    split
    · omega
    · simp
  · rw [addActiveRange_at split passed merged, split]
    simp

end Call

/-- The map after a sequence of calls for one node. -/
def activeMap (nid : Nat) (ranges : List Span) : List NodeActiveRegion :=
  ranges.foldl (fun map r => addActiveRange map nid r.lo r.hi) []

variable {nid : Nat} {ranges : List Span}

theorem activeMap_snoc (nid : Nat) (ranges : List Span) (r : Span) :
    activeMap nid (ranges ++ [r]) = addActiveRange (activeMap nid ranges) nid r.lo r.hi := by
  rw [activeMap, List.foldl_append]
  rfl

theorem activeMap_positive (valid : ∀ r ∈ ranges, r.lo < r.hi) :
    ∀ r ∈ activeMap nid ranges, r.startPfn < r.endPfn := by
  induction ranges using List.reverseRecOn with
  | nil => simp [activeMap]
  | append_singleton ranges r ih =>
    rw [activeMap_snoc]
    exact addActiveRange_positive (ih fun t ht => valid t (List.mem_append_left _ ht))
      (valid r (by simp))

theorem activeMap_length : (activeMap nid ranges).length ≤ ranges.length := by
  induction ranges using List.reverseRecOn with
  | nil => simp [activeMap]
  | append_singleton ranges r ih =>
    rw [activeMap_snoc, List.length_append]
    exact addActiveRange_length.trans (Nat.add_le_add_right ih 1)

/-- The map is exact after every call of a sequence exactly when every call suits
the map it finds. -/
theorem add_active_range_runs_iff (valid : ∀ r ∈ ranges, r.lo < r.hi)
    (few : ranges.length ≤ maxActiveRegions) :
    (∀ n ≤ ranges.length, Exact (activeMap nid (ranges.take n)) (ranges.take n)) ↔
      ∀ n (h : n < ranges.length),
        Suits (activeMap nid (ranges.take n)) nid (ranges[n]).lo (ranges[n]).hi := by
  have positive : ∀ n, ∀ r ∈ activeMap nid (ranges.take n), r.startPfn < r.endPfn := fun n =>
    activeMap_positive fun r member => valid r (List.mem_of_mem_take member)
  have room : ∀ n < ranges.length, (activeMap nid (ranges.take n)).length < maxActiveRegions := by
    intro n lt
    have : (activeMap nid (ranges.take n)).length ≤ (ranges.take n).length := activeMap_length
    rw [List.length_take] at this
    omega
  have next : ∀ n (h : n < ranges.length), ranges.take (n + 1) = ranges.take n ++ [ranges[n]] :=
    fun n h => (List.take_append_getElem h).symm
  constructor
  · intro exact_ n lt
    have after := exact_ (n + 1) lt
    rw [next n lt, activeMap_snoc] at after
    exact suits_of_exact (positive n) (room n lt) (exact_ n lt.le) after
  · intro suits n
    induction n with
    | zero => exact fun _ => ⟨List.Pairwise.nil, fun p => by simp [ActivePfn, activeMap]⟩
    | succ n ih =>
      intro lt
      rw [next n lt, activeMap_snoc]
      exact exact_of_suits (positive n) (room n lt) (ih (by omega)) (suits n lt)

/-- A range below the first entry and above another one is dropped. -/
theorem add_active_range_loses :
    activeMap 0 [⟨100, 200⟩, ⟨30, 40⟩, ⟨50, 60⟩] = [⟨100, 200, 0⟩, ⟨30, 40, 0⟩] ∧
      ¬ Exact (activeMap 0 [⟨100, 200⟩, ⟨30, 40⟩, ⟨50, 60⟩])
        [⟨100, 200⟩, ⟨30, 40⟩, ⟨50, 60⟩] := by
  have result : activeMap 0 [⟨100, 200⟩, ⟨30, 40⟩, ⟨50, 60⟩] = [⟨100, 200, 0⟩, ⟨30, 40, 0⟩] := by
    decide
  refine ⟨result, fun exact_ => ?_⟩
  have covered := (exact_.covers 50).mpr (by simp [Contains])
  rw [result] at covered
  simp [ActivePfn, NodeActiveRegion.span, Contains] at covered

/-- One range, and then another one that ends where it begins. -/
theorem add_active_range_runs_downward :
    Exact (activeMap 0 [⟨100, 200⟩, ⟨50, 100⟩]) [⟨100, 200⟩, ⟨50, 100⟩] := by
  refine (@add_active_range_runs_iff 0 [⟨100, 200⟩, ⟨50, 100⟩] (by simp) (by decide)).mpr ?_ 2 le_rfl
  intro n lt
  have which : n = 0 ∨ n = 1 := by
    simp only [List.length_cons, List.length_nil] at lt
    omega
  rcases which with rfl | rfl
  · exact .fresh (by simp [activeMap]) (by simp [ActivePfn, activeMap])
  · change Suits [⟨100, 200, 0⟩] 0 50 100
    refine @Suits.backward [⟨100, 200, 0⟩] 0 50 100 [] [] ⟨100, 200, 0⟩ rfl (by simp) rfl (by decide)
      (by decide) (by decide) ?_ ?_
    · intro p low high
      dsimp only at low
      omega
    · intro p low high mapped
      simp [ActivePfn, NodeActiveRegion.span, Contains] at mapped high
      omega

end XcKernel.Mm
