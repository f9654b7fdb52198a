import XcKernel.Memblock.ActiveRange

/-!
# Registering memory

`memblock_x86_register_active_regions` rounds each memory region inwards to whole
pages, clips it and adds it to `early_node_map`.  The regions ascend with gaps,
and so do their pages: every range lies above all entries before it, where none of
the tests of `add_active_range` holds.
-/

namespace XcKernel.Mm

open Word XcKernel.Span

/-- `memblock_x86_find_active_region`: the pages of the region, if there are any -/
def memblockX86FindActiveRegion (ei : MemblockRegion) (startPfn lastPfn : Nat) : Option Span :=
  let eiStartpfn := wrap 32 (alignUp 64 ei.base pageSize >>> pageShift)
  let eiEndpfn := wrap 32 (alignDown 64 (u64 (ei.base + ei.size)) pageSize >>> pageShift)
  if eiStartpfn ≥ eiEndpfn then none
  else if eiEndpfn ≤ startPfn ∨ eiStartpfn ≥ lastPfn then none
  else
    let eiStartpfn := if eiStartpfn < startPfn then startPfn else eiStartpfn
    let eiEndpfn := if eiEndpfn > lastPfn then lastPfn else eiEndpfn
    some ⟨eiStartpfn, eiEndpfn⟩

def memblockX86RegisterActiveRegions (memblock : Memblock) (earlyNodeMap : List NodeActiveRegion)
    (nid startPfn lastPfn : Nat) : List NodeActiveRegion :=
  memblock.memory.regions.foldl (fun map r =>
    match memblockX86FindActiveRegion r startPfn lastPfn with
    | some pages => addActiveRange map nid pages.lo pages.hi
    | none => map) earlyNodeMap

section Region

variable {r t : MemblockRegion} {startPfn lastPfn : Nat} {pages : Span}

theorem findActiveRegion_eq (below : r.base + r.size ≤ 2 ^ 44 - pageSize) :
    memblockX86FindActiveRegion r startPfn lastPfn =
      let first := (r.base + 4095) / 4096
      let last := (r.base + r.size) / 4096
      if last ≤ first ∨ last ≤ startPfn ∨ lastPfn ≤ first then none
      else some ⟨max first startPfn, min last lastPfn⟩ := by
  simp only [pageSize] at below
  have up : alignUp 64 r.base pageSize >>> pageShift = (r.base + 4095) / 4096 := by
    have rounded : alignUp 64 r.base (2 ^ 12) = (r.base + (2 ^ 12 - 1)) / 2 ^ 12 * 2 ^ 12 :=
      alignUp_two_pow (by decide) (by omega)
    rw [show pageSize = 2 ^ 12 from rfl, rounded, pageShift, Nat.shiftRight_eq_div_pow]
    omega
  have down : alignDown 64 (u64 (r.base + r.size)) pageSize >>> pageShift =
      (r.base + r.size) / 4096 := by
    have fits : u64 (r.base + r.size) = r.base + r.size := wrap_of_lt (by omega)
    have rounded : alignDown 64 (r.base + r.size) (2 ^ 12) = (r.base + r.size) / 2 ^ 12 * 2 ^ 12 :=
      alignDown_two_pow (by decide) (by omega)
    rw [fits, show pageSize = 2 ^ 12 from rfl, rounded, pageShift, Nat.shiftRight_eq_div_pow]
    omega
  unfold memblockX86FindActiveRegion
  rw [up, down, wrap_of_lt (show (r.base + 4095) / 4096 < 2 ^ 32 by omega),
    wrap_of_lt (show (r.base + r.size) / 4096 < 2 ^ 32 by omega)]
  dsimp only
  generalize (r.base + 4095) / 4096 = first
  generalize (r.base + r.size) / 4096 = last
  by_cases none : last ≤ first ∨ last ≤ startPfn ∨ lastPfn ≤ first
  · rw [if_pos none]
    by_cases empty : first ≥ last
    · rw [if_pos empty]
    · rw [if_neg empty, if_pos (by omega)]
  · rw [if_neg none, if_neg (by omega), if_neg (by omega)]
    congr 2
    · split <;> omega
    · split <;> omega

theorem findActiveRegion_some (below : r.base + r.size ≤ 2 ^ 44 - pageSize)
    (found : memblockX86FindActiveRegion r startPfn lastPfn = some pages) (lt : startPfn < lastPfn) :
    pages.lo < pages.hi ∧ r.base ≤ pages.lo * 4096 ∧ pages.hi * 4096 ≤ r.base + r.size := by
  rw [findActiveRegion_eq below] at found
  dsimp only at found
  split at found
  · cases found
  · cases found
    dsimp only
    omega

/-- A page lies in the registered range of a region exactly when it lies in the
region, between the limits. -/
theorem findActiveRegion_contains (below : r.base + r.size ≤ 2 ^ 44 - pageSize) (p : Nat) :
    (∃ pages, memblockX86FindActiveRegion r startPfn lastPfn = some pages ∧ pages.Contains p) ↔
      (startPfn ≤ p ∧ p < lastPfn) ∧ r.base ≤ p * 4096 ∧ (p + 1) * 4096 ≤ r.base + r.size := by
  rw [findActiveRegion_eq below]
  dsimp only
  split
  · rename_i none
    simp only [reduceCtorEq, false_and, exists_false, false_iff]
    omega
  · rename_i some
    simp only [Option.some.injEq, exists_eq_left', Contains]
    omega

end Region

section Register

variable {startPfn lastPfn : Nat} {regions : List MemblockRegion}

theorem addActiveRange_above {map : List NodeActiveRegion} {nid s e : Nat} (lt : s < e)
    (room : map.length < maxActiveRegions)
    (above : ∀ t ∈ map, t.startPfn < s ∧ t.endPfn < s) :
    addActiveRange map nid s e = map ++ [⟨s, e, nid⟩] := by
  apply addActiveRange_fresh _ room
  intro t member
  have first : firstEnd map < s := by
    cases map with
    | nil => cases member
    | cons head rest => exact (above head List.mem_cons_self).2
  have bounds := above t member
  have notHeld : ¬ HoldsRange (firstEnd map) t s e := by
    unfold HoldsRange
    omega
  have notForward : ¬ ExtendsForward (firstEnd map) t s e := by
    unfold ExtendsForward
    omega
  have notBackward : ¬ ExtendsBackward t s e := by
    unfold ExtendsBackward
    omega
  rw [mergeEntry, if_neg notHeld, if_neg notForward, if_neg notBackward, ite_self]

/-- The registered ranges of the regions, in order. -/
def registered (regions : List MemblockRegion) (startPfn lastPfn : Nat) : List NodeActiveRegion :=
  (regions.filterMap fun r => memblockX86FindActiveRegion r startPfn lastPfn).map
    fun pages => ⟨pages.lo, pages.hi, 0⟩

theorem registered_snoc (regions : List MemblockRegion) (r : MemblockRegion) :
    registered (regions ++ [r]) startPfn lastPfn = registered regions startPfn lastPfn ++
      match memblockX86FindActiveRegion r startPfn lastPfn with
      | some pages => [⟨pages.lo, pages.hi, 0⟩]
      | none => [] := by
  rw [registered, List.filterMap_append, List.map_append]
  cases found : memblockX86FindActiveRegion r startPfn lastPfn with
  | none => simp [found, registered]
  | some pages => simp [found, registered]

theorem mem_registered {t : NodeActiveRegion} :
    t ∈ registered regions startPfn lastPfn ↔
      ∃ r ∈ regions, ∃ pages, memblockX86FindActiveRegion r startPfn lastPfn = some pages ∧
        t = ⟨pages.lo, pages.hi, 0⟩ := by
  simp only [registered, List.mem_map, List.mem_filterMap]
  constructor
  · rintro ⟨pages, ⟨r, member, found⟩, rfl⟩
    exact ⟨r, member, pages, found, rfl⟩
  · rintro ⟨r, member, pages, found, rfl⟩
    exact ⟨pages, ⟨r, member, found⟩, rfl⟩

theorem registered_ascending (lt : startPfn < lastPfn)
    (below : ∀ r ∈ regions, r.base + r.size ≤ 2 ^ 44 - pageSize)
    (separated : regions.Pairwise fun r t => r.base + r.size < t.base) :
    (registered regions startPfn lastPfn).Pairwise fun r t => r.endPfn < t.startPfn := by
  rw [registered, List.pairwise_map, List.pairwise_filterMap]
  apply separated.imp_of_mem
  intro r t hr ht apart pages found pages' found'
  have first := findActiveRegion_some (below r hr) found lt
  have second := findActiveRegion_some (below t ht) found' lt
  show pages.hi < pages'.lo
  omega

/-- The loop adds every range as an entry of its own. -/
theorem register_eq (lt : startPfn < lastPfn)
    (below : ∀ r ∈ regions, r.base + r.size ≤ 2 ^ 44 - pageSize)
    (separated : regions.Pairwise fun r t => r.base + r.size < t.base)
    (few : regions.length < maxActiveRegions) :
    regions.foldl (fun map r =>
        match memblockX86FindActiveRegion r startPfn lastPfn with
        | some pages => addActiveRange map 0 pages.lo pages.hi
        | none => map) [] = registered regions startPfn lastPfn := by
  induction regions using List.reverseRecOn with
  | nil => rfl
  | append_singleton regions r ih =>
    rw [List.pairwise_append] at separated
    rw [List.length_append] at few
    have before := ih (fun t ht => below t (List.mem_append_left _ ht)) separated.1 (by
      have : [r].length = 1 := rfl
      omega)
    rw [List.foldl_append, before, List.foldl_cons, List.foldl_nil, registered_snoc]
    cases found : memblockX86FindActiveRegion r startPfn lastPfn with
    | none => exact (List.append_nil _).symm
    | some pages =>
      have bounds := findActiveRegion_some (below r (by simp)) found lt
      apply addActiveRange_above bounds.1
      · have short : (registered regions startPfn lastPfn).length ≤ regions.length := by
          rw [registered, List.length_map]
          exact List.length_filterMap_le _ _
        omega
      · intro t member
        obtain ⟨r', hr', pages', found', rfl⟩ := mem_registered.mp member
        have earlier := findActiveRegion_some (below r' (List.mem_append_left _ hr')) found' lt
        have apart := separated.2.2 r' hr' r (by simp)
        dsimp only
        omega

/-- A stretch of bytes that is all in separated regions is in one of them. -/
theorem covers_stretch_iff (separated : regions.Pairwise fun r t => r.base + r.size < t.base)
    {low high : Nat} (lt : low < high) :
    (∀ x, low ≤ x → x < high → Covers (spans regions) x) ↔
      ∃ r ∈ regions, r.base ≤ low ∧ high ≤ r.base + r.size := by
  have apart : ∀ r ∈ regions, ∀ t ∈ regions, r ≠ t →
      r.base + r.size < t.base ∨ t.base + t.size < r.base := by
    intro r hr t ht ne
    obtain ⟨i, hi, rfl⟩ := List.getElem_of_mem hr
    obtain ⟨j, hj, rfl⟩ := List.getElem_of_mem ht
    rw [List.pairwise_iff_getElem] at separated
    rcases Nat.lt_trichotomy i j with before | rfl | after
    · exact .inl (separated i j hi hj before)
    · exact (ne rfl).elim
    · exact .inr (separated j i hj hi after)
  constructor
  · intro all
    obtain ⟨_, member, inside⟩ := all low le_rfl lt
    obtain ⟨r, hr, rfl⟩ := List.mem_map.mp member
    refine ⟨r, hr, inside.1, ?_⟩
    by_contra short
    obtain ⟨_, member', inside'⟩ := all (r.base + r.size) (le_of_lt inside.2) (by omega)
    obtain ⟨t, ht, rfl⟩ := List.mem_map.mp member'
    simp only [MemblockRegion.span, Contains] at inside inside'
    have ne : r ≠ t := by
      rintro rfl
      omega
    have := apart r hr t ht ne
    omega
  · rintro ⟨r, hr, first, last⟩ x atLeast below
    exact ⟨r.span, List.mem_map_of_mem hr, by
      simp only [MemblockRegion.span, Contains]
      omega⟩

/-- On an empty map the entries are the whole pages of memory between the limits,
in ascending order with gaps. -/
theorem register_active_regions_exact {memblock : Memblock} {live : List MemblockRegion}
    (memory : memblock.memory.Live live) (table : memblock.memory.max = initMemblockRegions)
    (below : ∀ r ∈ memblock.memory.regions, r.base + r.size ≤ 2 ^ 44 - pageSize)
    (lt : startPfn < lastPfn) :
    let map := memblockX86RegisterActiveRegions memblock [] 0 startPfn lastPfn
    (∀ r ∈ map, r.startPfn < r.endPfn) ∧
    (map.Pairwise fun r t => r.endPfn < t.startPfn) ∧
    ∀ p, ActivePfn map p ↔ (startPfn ≤ p ∧ p < lastPfn) ∧
      ∀ x, p * pageSize ≤ x → x < (p + 1) * pageSize → Covers (spans memblock.memory.regions) x := by
  have few : memblock.memory.regions.length < maxActiveRegions := by
    have room := memory.room
    rw [table] at room
    rw [memory.shown]
    rcases (orPlaceholder_length live).2 with same | ⟨-, placeholder⟩
    · rw [same]
      exact room.trans_lt (by decide)
    · rw [placeholder]
      decide
  have separated := memory.ascending
  have eq : memblockX86RegisterActiveRegions memblock [] 0 startPfn lastPfn =
      registered memblock.memory.regions startPfn lastPfn := register_eq lt below separated few
  dsimp only
  rw [eq]
  refine ⟨?_, registered_ascending lt below separated, ?_⟩
  · intro t member
    obtain ⟨r, hr, pages, found, rfl⟩ := mem_registered.mp member
    exact (findActiveRegion_some (below r hr) found lt).1
  · intro p
    have size : pageSize = 4096 := rfl
    rw [size, covers_stretch_iff separated (by omega)]
    constructor
    · rintro ⟨_, member, inside⟩
      obtain ⟨t, ht, rfl⟩ := List.mem_map.mp member
      obtain ⟨r, hr, pages, found, rfl⟩ := mem_registered.mp ht
      obtain ⟨limits, whole⟩ := (findActiveRegion_contains (below r hr) p).mp ⟨pages, found, inside⟩
      exact ⟨limits, r, hr, whole⟩
    · rintro ⟨limits, r, hr, whole⟩
      obtain ⟨pages, found, inside⟩ := (findActiveRegion_contains (below r hr) p).mpr ⟨limits, whole⟩
      exact activePfn_of_mem (mem_registered.mpr ⟨r, hr, pages, found, rfl⟩) inside

/-- Two regions with ragged ends: the pages 1 to 3 and 6. -/
theorem register_active_regions_ragged :
    let memblock : Memblock :=
      ⟨0x10000, 0, ⟨128, [⟨0xfff, 0x3801⟩, ⟨0x5800, 0x2000⟩]⟩, ⟨128, [⟨0, 0⟩]⟩⟩
    memblockX86RegisterActiveRegions memblock [] 0 0 16 = [⟨1, 4, 0⟩, ⟨6, 7, 0⟩] ∧
      ∀ p, ActivePfn (memblockX86RegisterActiveRegions memblock [] 0 0 16) p ↔ (0 ≤ p ∧ p < 16) ∧
        ∀ x, p * pageSize ≤ x → x < (p + 1) * pageSize →
          Covers (spans memblock.memory.regions) x := by
  intro memblock
  have memory : memblock.memory.Live [⟨0xfff, 0x3801⟩, ⟨0x5800, 0x2000⟩] :=
    ⟨rfl, ⟨by simp, by simp, by simp⟩, by decide, by decide⟩
  exact ⟨by decide, (register_active_regions_exact memory rfl
    (by simp [memblock, pageSize]) (by decide)).2.2⟩

end Register

end XcKernel.Mm
