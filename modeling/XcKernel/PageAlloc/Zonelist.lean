import XcKernel.PageAlloc.Node

/-!
# Zonelists

`build_zonelists` fills the table of the populated zones, the highest zone
first, and ends it with an entry without a zone.  An allocation goes through the
part of it that its flags allow.

There is one node, so that the loops of `build_zonelists` over other nodes do
nothing, and `zref_in_nodemask` is 1.
-/

namespace XcKernel.PageAlloc

/-- `struct zoneref`, with the zone by its index in the node -/
structure Zoneref where
  zone : Option Nat
  zoneIdx : Nat
  deriving DecidableEq, Repr

/-- `MAX_ZONES_PER_ZONELIST` -/
def maxZonesPerZonelist : Nat := maxNrZones

/-- `struct zonelist`, without the pointer to a cache -/
structure Zonelist where
  zonerefs : List Zoneref
  length : zonerefs.length = maxZonesPerZonelist + 1

/-- The entry that ends the table. -/
def Zoneref.last : Zoneref := ⟨none, 0⟩

/-- `zoneref_set_zone` -/
def Zoneref.ofZone (zone : Nat) : Zoneref := ⟨some zone, zone⟩

/-- One round of `build_zonelists_node`, with `populated_zone` -/
def buildZonelistsRound (presentPages : Nat → Nat) (zonerefs : List Zoneref) (nrZones zoneType : Nat) :
    List Zoneref × Nat :=
  if presentPages zoneType ≠ 0 then (zonerefs.set nrZones (.ofZone zoneType), nrZones + 1)
  else (zonerefs, nrZones)

/-- `build_zonelists_node` -/
def buildZonelistsNode (presentPages : Nat → Nat) (zonerefs : List Zoneref) (nrZones : Nat) :
    (zoneType : Nat) → List Zoneref × Nat
  | 0 => buildZonelistsRound presentPages zonerefs nrZones 0
  | zoneType + 1 =>
    let r := buildZonelistsRound presentPages zonerefs nrZones (zoneType + 1)
    buildZonelistsNode presentPages r.1 r.2 zoneType

/-- `next_zones_zonelist`: a pointer into the table is what is left of it from there. -/
def nextZonesZonelist (z : List Zoneref) (highestZoneidx : Nat) : List Zoneref :=
  z.dropWhile (·.zoneIdx > highestZoneidx)

/-- The zones that `for_each_zone_zonelist` goes through from `z` on, or `none`
where it leaves the table. -/
def forEachZoneZonelist (highidx : Nat) (z : List Zoneref) : Option (List Nat) :=
  match _next : nextZonesZonelist z highidx with
  | [] => none
  | r :: rest =>
    match r.zone with
    | none => some []
    | some zone => (forEachZoneZonelist highidx rest).map (zone :: ·)
termination_by z.length
decreasing_by
  have shorter := (List.dropWhile_sublist (fun r : Zoneref => r.zoneIdx > highidx) (l := z)).length_le
  rw [nextZonesZonelist] at _next
  rw [_next, List.length_cons] at shorter
  exact shorter

/-- The populated zones up to one of them, the highest first. -/
def populatedZones (presentPages : Nat → Nat) (zoneType : Nat) : List Nat :=
  (List.range (zoneType + 1)).reverse.filter fun k => presentPages k ≠ 0

variable {presentPages : Nat → Nat} {zonerefs : List Zoneref} {nrZones zoneType highidx : Nat}

theorem populatedZones_zero (presentPages : Nat → Nat) :
    populatedZones presentPages 0 = if presentPages 0 ≠ 0 then [0] else [] := by
  rw [populatedZones, Nat.zero_add, List.range_one, List.reverse_singleton, List.filter_cons]
  simp

theorem populatedZones_succ (presentPages : Nat → Nat) (zoneType : Nat) :
    populatedZones presentPages (zoneType + 1) =
      if presentPages (zoneType + 1) ≠ 0 then (zoneType + 1) :: populatedZones presentPages zoneType
      else populatedZones presentPages zoneType := by
  rw [populatedZones, List.range_succ, List.reverse_concat, List.filter_cons]
  simp [populatedZones]

/-- Some entries of the table have been written from a position on. -/
def Written (zonerefs zonerefs' : List Zoneref) (nrZones : Nat) (entries : List Zoneref) : Prop :=
  zonerefs'.length = zonerefs.length ∧
    zonerefs'.take (nrZones + entries.length) = zonerefs.take nrZones ++ entries

theorem Written.cons {zonerefs' : List Zoneref} {entry : Zoneref} {entries : List Zoneref}
    (inside : nrZones < zonerefs.length)
    (rest : Written (zonerefs.set nrZones entry) zonerefs' (nrZones + 1) entries) :
    Written zonerefs zonerefs' nrZones (entry :: entries) := by
  obtain ⟨length, taken⟩ := rest
  refine ⟨length.trans List.length_set, ?_⟩
  have first : (zonerefs.set nrZones entry).take (nrZones + 1) = zonerefs.take nrZones ++ [entry] := by
    rw [List.take_succ_eq_append_getElem (by rwa [List.length_set]), List.getElem_set_self,
      List.take_set_of_le (Nat.le_refl _)]
  rw [List.length_cons, ← Nat.add_assoc, Nat.add_right_comm, taken, first, List.append_assoc]
  rfl

/-- `build_zonelists_node` writes the populated zones. -/
theorem buildZonelistsNode_written (presentPages : Nat → Nat)
    (room : nrZones + (zoneType + 1) ≤ zonerefs.length) :
    Written zonerefs (buildZonelistsNode presentPages zonerefs nrZones zoneType).1 nrZones
      ((populatedZones presentPages zoneType).map .ofZone) ∧
    (buildZonelistsNode presentPages zonerefs nrZones zoneType).2 =
      nrZones + (populatedZones presentPages zoneType).length := by
  induction zoneType generalizing zonerefs nrZones with
  | zero =>
    rw [buildZonelistsNode, buildZonelistsRound, populatedZones_zero]
    split_ifs with populated
    · refine ⟨.cons (by omega) ⟨rfl, ?_⟩, rfl⟩
      simp
    · exact ⟨⟨rfl, by simp⟩, rfl⟩
  | succ zoneType ih =>
    rw [buildZonelistsNode, buildZonelistsRound, populatedZones_succ]
    split_ifs with populated
    · have next : nrZones + 1 + (zoneType + 1) ≤
          (zonerefs.set nrZones (.ofZone (zoneType + 1))).length := by
        rw [List.length_set]
        omega
      obtain ⟨written, count⟩ := ih next
      refine ⟨.cons (by omega) written, ?_⟩
      dsimp only
      rw [count, List.length_cons]
      omega
    · exact ih (by omega)

theorem populatedZones_length_le (presentPages : Nat → Nat) (zoneType : Nat) :
    (populatedZones presentPages zoneType).length ≤ zoneType + 1 := by
  refine (List.length_filter_le _ _).trans ?_
  rw [List.length_reverse, List.length_range]

/-- `build_zonelists` -/
def buildZonelists (presentPages : Nat → Nat) (zonelist : Zonelist) : Zonelist where
  zonerefs :=
    let r := buildZonelistsNode presentPages zonelist.zonerefs 0 (maxNrZones - 1)
    r.1.set r.2 .last
  length := by
    have room : 0 + (maxNrZones - 1 + 1) ≤ zonelist.zonerefs.length := by
      rw [zonelist.length]
      decide
    rw [List.length_set, (buildZonelistsNode_written presentPages room).1.1, zonelist.length]

theorem buildZonelists_eq (presentPages : Nat → Nat) (zonelist : Zonelist) :
    ∃ rest, (buildZonelists presentPages zonelist).zonerefs =
      (populatedZones presentPages (maxNrZones - 1)).map .ofZone ++ .last :: rest := by
  have room : 0 + (maxNrZones - 1 + 1) ≤ zonelist.zonerefs.length := by
    rw [zonelist.length]
    decide
  obtain ⟨⟨length, taken⟩, count⟩ := buildZonelistsNode_written presentPages room
  have bound := populatedZones_length_le presentPages (maxNrZones - 1)
  show ∃ rest, (buildZonelistsNode presentPages zonelist.zonerefs 0 (maxNrZones - 1)).1.set _ _ = _
  generalize buildZonelistsNode presentPages zonelist.zonerefs 0 (maxNrZones - 1) = r at *
  rw [Nat.zero_add] at count
  rw [Nat.zero_add, List.length_map, List.take_zero, List.nil_append, ← count] at taken
  refine ⟨r.1.drop (r.2 + 1), ?_⟩
  have inside : r.2 < r.1.length := by
    rw [length, zonelist.length, count]
    simp only [maxZonesPerZonelist, maxNrZones] at bound ⊢
    omega
  rw [List.set_eq_take_append_cons_drop, if_pos inside, taken]

theorem forEachZoneZonelist_skip {r : Zoneref} {rest : List Zoneref} (high : highidx < r.zoneIdx) :
    forEachZoneZonelist highidx (r :: rest) = forEachZoneZonelist highidx rest := by
  have next : nextZonesZonelist (r :: rest) highidx = nextZonesZonelist rest highidx := by
    rw [nextZonesZonelist, List.dropWhile_cons_of_pos (by simpa using high), nextZonesZonelist]
  rw [forEachZoneZonelist, next]
  exact (forEachZoneZonelist.eq_1 highidx rest).symm

theorem forEachZoneZonelist_cons {zone : Nat} {rest : List Zoneref} (low : zone ≤ highidx) :
    forEachZoneZonelist highidx (.ofZone zone :: rest) =
      (forEachZoneZonelist highidx rest).map (zone :: ·) := by
  have next : nextZonesZonelist (.ofZone zone :: rest) highidx = .ofZone zone :: rest := by
    rw [nextZonesZonelist, List.dropWhile_cons_of_neg (by simpa [Zoneref.ofZone] using low)]
  rw [forEachZoneZonelist, next]
  rfl

theorem forEachZoneZonelist_last (highidx : Nat) (rest : List Zoneref) :
    forEachZoneZonelist highidx (.last :: rest) = some [] := by
  have next : nextZonesZonelist (.last :: rest) highidx = .last :: rest := by
    rw [nextZonesZonelist, List.dropWhile_cons_of_neg (by simp [Zoneref.last])]
  rw [forEachZoneZonelist, next]
  rfl

theorem forEachZoneZonelist_zones (zones : List Nat) (rest : List Zoneref) :
    forEachZoneZonelist highidx (zones.map .ofZone ++ .last :: rest) =
      some (zones.filter (· ≤ highidx)) := by
  induction zones with
  | nil => exact forEachZoneZonelist_last highidx rest
  | cons zone zones ih =>
    rw [List.map_cons, List.cons_append]
    rcases Nat.lt_or_ge highidx zone with high | low
    · rw [forEachZoneZonelist_skip high, ih, List.filter_cons_of_neg (by simpa using high)]
    · rw [forEachZoneZonelist_cons low, ih, List.filter_cons_of_pos (by simpa using low)]
      rfl

/-- Whatever the table held before, an iteration over it goes through the
populated zones up to the given one, from the highest down, and stays inside. -/
theorem forEachZoneZonelist_buildZonelists (presentPages : Nat → Nat) (zonelist : Zonelist) (highidx : Nat) :
    forEachZoneZonelist highidx (buildZonelists presentPages zonelist).zonerefs =
      some ((List.range maxNrZones).reverse.filter fun k => presentPages k ≠ 0 ∧ k ≤ highidx) := by
  obtain ⟨rest, table⟩ := buildZonelists_eq presentPages zonelist
  rw [table, forEachZoneZonelist_zones, populatedZones, List.filter_filter]
  congr 2
  funext k
  simp [and_comm]

end XcKernel.PageAlloc
