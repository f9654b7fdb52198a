import XcKernel.Lib.Bubble
import XcKernel.Memblock.Basic

/-!
# The memory map of the BIOS

`sanitize_e820_map`: the ends of the entries are sorted, and a sweep over them
keeps the entries that overlap at the moment and opens a new entry whenever the
greatest of their types changes.  A pointer to an entry is its index.
-/

namespace XcKernel.E820

open Word Mm

def e820Max : Nat := 128

/-- `struct e820entry` -/
structure E820Entry where
  addr : Nat
  size : Nat
  type : Nat
  deriving DecidableEq, Repr

/-- The fields are unsigned words. -/
def E820Entry.Fits (e : E820Entry) : Prop := e.addr < 2 ^ 64 ∧ e.size < 2 ^ 64 ∧ e.type < 2 ^ 32

instance (e : E820Entry) : Decidable e.Fits := inferInstanceAs (Decidable (_ ∧ _ ∧ _))

/-- `struct change_member` -/
structure ChangeMember where
  pbios : Nat
  addr : Nat
  deriving DecidableEq, Repr

/-- The entry a pointer points to. -/
def entry (biosmap : List E820Entry) (i : Nat) : E820Entry := biosmap.getD i ⟨0, 0, 0⟩

/-- The two change points of an entry, none for an empty one -/
def changePointsOf (biosmap : List E820Entry) (i : Nat) : List ChangeMember :=
  let e := entry biosmap i
  if e.size ≠ 0 then [⟨i, e.addr⟩, ⟨i, u64 (e.addr + e.size)⟩] else []

/-- The array `change_point` before it is sorted -/
def changePoints (biosmap : List E820Entry) : List ChangeMember :=
  (List.range biosmap.length).flatMap (changePointsOf biosmap)

/-- The point is where its entry starts. -/
def isStart (biosmap : List E820Entry) (c : ChangeMember) : Bool :=
  c.addr = (entry biosmap c.pbios).addr

/-- When two neighbours are swapped -/
def swapPoints (biosmap : List E820Entry) (cur last : ChangeMember) : Bool :=
  cur.addr < last.addr ∨
    cur.addr = last.addr ∧ isStart biosmap cur ∧ ¬ isStart biosmap last

/-- Address first, and starts before ends. -/
def pointKey (biosmap : List E820Entry) (c : ChangeMember) : Nat :=
  2 * c.addr + if isStart biosmap c then 0 else 1

theorem swapPoints_iff (biosmap : List E820Entry) (cur last : ChangeMember) :
    swapPoints biosmap cur last = true ↔ pointKey biosmap cur < pointKey biosmap last := by
  simp only [swapPoints, pointKey, decide_eq_true_eq]
  cases isStart biosmap cur <;> cases isStart biosmap last <;> simp <;> omega

/-- The loop `while (still_changing)` -/
def sortPoints (biosmap : List E820Entry) (points : List ChangeMember) : List ChangeMember :=
  if _stillChanging : (Bubble.pass (swapPoints biosmap) points).2 = true then
    sortPoints biosmap (Bubble.pass (swapPoints biosmap) points).1
  else (Bubble.pass (swapPoints biosmap) points).1
termination_by Bubble.inversions (pointKey biosmap) points
decreasing_by exact Bubble.pass_inversions (swapPoints_iff biosmap) _stillChanging

/-- Removing an entry from `overlap_list`: its place is taken by the last one. -/
def removeOverlap (overlapList : List Nat) (pbios : Nat) : List Nat :=
  ((List.range overlapList.length).foldl (fun l i =>
    if l[i]? = some pbios then l.set i (l.getD (overlapList.length - 1) 0) else l) overlapList).dropLast

/-- The greatest type among some entries -/
def overlapType (biosmap : List E820Entry) (overlapList : List Nat) : Nat :=
  overlapList.foldl (fun currentType i =>
    if (entry biosmap i).type > currentType then (entry biosmap i).type else currentType) 0

/-- The variables of the sweep.  `newBios` are the finished entries; the one at
`new_bios_entry` has its address and type in `addr` and `type`. -/
structure Sweep where
  overlapList : List Nat
  newBios : List E820Entry
  addr : Nat
  type : Nat
  lastType : Nat
  lastAddr : Nat
  deriving DecidableEq, Repr

/-- One change point, without the test for the end of the array. -/
def sweepStep (biosmap : List E820Entry) (s : Sweep) (c : ChangeMember) : Sweep :=
  let overlapList :=
    if isStart biosmap c then s.overlapList ++ [c.pbios] else removeOverlap s.overlapList c.pbios
  let currentType := overlapType biosmap overlapList
  if currentType ≠ s.lastType then
    let size := u64Sub c.addr s.lastAddr
    let newBios :=
      if s.lastType ≠ 0 ∧ size ≠ 0 then s.newBios ++ [⟨s.addr, size, s.type⟩] else s.newBios
    if currentType ≠ 0 then ⟨overlapList, newBios, c.addr, currentType, currentType, c.addr⟩
    else ⟨overlapList, newBios, s.addr, s.type, currentType, s.lastAddr⟩
  else { s with overlapList := overlapList }

/-- The sweep over the sorted points, which stops when the array is full.  An
entry is finished before the test, so that the step may be made first. -/
def sweep (biosmap : List E820Entry) (maxNrMap : Int) (s : Sweep) : List ChangeMember → List E820Entry
  | [] => s.newBios
  | c :: rest =>
    let s' := sweepStep biosmap s c
    if s'.newBios.length ≠ s.newBios.length ∧ (s'.newBios.length : Int) ≥ maxNrMap then s'.newBios
    else sweep biosmap maxNrMap s' rest

/-- `sanitize_e820_map`: the returned value and the map, whose length is `*pnr_map` -/
def sanitizeE820Map (biosmap : List E820Entry) (maxNrMap : Int) : Int × List E820Entry :=
  if biosmap.length < 2 then (-1, biosmap)
  else
    let oldNr := signed 32 biosmap.length
    if oldNr > maxNrMap then (-1, biosmap)
    else
      let old := biosmap.take oldNr.toNat
      if old.any fun e => u64 (e.addr + e.size) < e.addr then (-1, biosmap)
      else (0, sweep old maxNrMap ⟨[], [], 0, 0, 0, 0⟩ (sortPoints old (changePoints old)))

end XcKernel.E820
