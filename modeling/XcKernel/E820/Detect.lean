import XcKernel.E820.Basic

/-!
# Asking the BIOS for its memory map

`detect_memory_e820` calls INT 15h with function E820h until the BIOS has no more
to say, and stores each descriptor in the table of `boot_params`.  The BIOS is
the sequence of its answers; the memory from `e820_map` on is an entry for every
number, of which the first 128 are the table.

The loop leaves before it stores the descriptor that comes with a continuation
of 0, which is the last one of the map.
-/

namespace XcKernel.E820

/-- What a call of INT 15h leaves in the registers and in `buf`. -/
structure Answer where
  eflags : BitVec 32
  eax : BitVec 32
  ebx : BitVec 32
  buf : E820Entry
  deriving DecidableEq, Repr

def smap : BitVec 32 := 0x534d4150

def x86EflagsCf : BitVec 32 := 0x00000001

/-- The answer has the carry flag. -/
def Answer.carry (a : Answer) : Bool := a.eflags &&& x86EflagsCf ≠ 0

/-- The answer carries a descriptor. -/
def Answer.Describes (a : Answer) : Prop := a.carry = false ∧ a.eax = smap

instance (a : Answer) : Decidable a.Describes := inferInstanceAs (Decidable (_ ∧ _))

/-- `struct boot_params` -/
structure BootParams where
  e820Entries : BitVec 8
  e820Map : Nat → E820Entry

/-- The loop of `detect_memory_e820`.  Every round before has stored a descriptor,
so `count` is also the number of the call. -/
def detectLoop (answers : Nat → Answer) (map : Nat → E820Entry) (count : Nat) :
    Nat × (Nat → E820Entry) :=
  let oreg := answers count
  if oreg.carry then (count, map)
  else if oreg.eax ≠ smap then (0, map)
  else if oreg.ebx = 0 then (count, map)
  else
    let map := Function.update map count oreg.buf
    let count := count + 1
    if oreg.ebx ≠ 0 ∧ count < e820Max then detectLoop answers map count else (count, map)
termination_by e820Max - count

/-- `detect_memory_e820`: the number it returns, and `boot_params` -/
def detectMemoryE820 (answers : Nat → Answer) (boot : BootParams) : Nat × BootParams :=
  let r := detectLoop answers boot.e820Map 0
  (r.1, ⟨BitVec.ofNat 8 r.1, r.2⟩)

/-- A BIOS that answers as listed, and then with the carry flag. -/
def listed (answers : List Answer) (n : Nat) : Answer := answers.getD n ⟨x86EflagsCf, 0, 0, ⟨0, 0, 0⟩⟩

/-- The first `n` answers describe the memory: no more fit, the last of them says
so, or the next one describes nothing. -/
structure ToRecord (answers : Nat → Answer) (n : Nat) : Prop where
  table : n ≤ e820Max
  described : ∀ k < n, (answers k).Describes
  more : ∀ k, k + 1 < n → (answers k).ebx ≠ 0
  stop : n = e820Max ∨ (∃ k, n = k + 1 ∧ (answers k).ebx = 0) ∨ ¬ (answers n).Describes

/-- After `n` descriptors the BIOS is asked once more and gives a wrong signature. -/
def Spoiled (answers : Nat → Answer) (n : Nat) : Prop :=
  n < e820Max ∧ (∀ k < n, (answers k).ebx ≠ 0) ∧ (answers n).carry = false ∧ (answers n).eax ≠ smap

/-- The table holds the descriptors to be recorded, and nothing else is written. -/
def Detected (answers : Nat → Answer) (boot boot' : BootParams) : Prop :=
  ∃ n, ToRecord answers n ∧ (∀ k < n, boot'.e820Map k = (answers k).buf) ∧
    (∀ k, n ≤ k → boot'.e820Map k = boot.e820Map k) ∧
    (Spoiled answers n → boot'.e820Entries = 0) ∧
    (¬ Spoiled answers n → boot'.e820Entries.toNat = n)

/-- The BIOS marks its last descriptor, among the first 128, with a continuation of 0. -/
def MarksLast (answers : Nat → Answer) : Prop :=
  ∃ n < e820Max, (∀ k < n, (answers k).Describes ∧ (answers k).ebx ≠ 0) ∧
    (answers n).Describes ∧ (answers n).ebx = 0

variable {answers : Nat → Answer} {map : Nat → E820Entry} {count : Nat}

/-- Where and why the loop ends: `n` descriptors are stored and `result` is returned. -/
structure Ends (answers : Nat → Answer) (n result : Nat) : Prop where
  table : n ≤ e820Max
  stored : ∀ k < n, (answers k).Describes ∧ (answers k).ebx ≠ 0
  stop : (n = e820Max ∧ result = n) ∨
    (n < e820Max ∧ (answers n).carry = true ∧ result = n) ∨
    (n < e820Max ∧ (answers n).carry = false ∧ (answers n).eax ≠ smap ∧ result = 0) ∨
    (n < e820Max ∧ (answers n).Describes ∧ (answers n).ebx = 0 ∧ result = n)

theorem detectLoop_ends (answers : Nat → Answer) (map : Nat → E820Entry) (count : Nat)
    (room : count < e820Max) (before : ∀ k < count, (answers k).Describes ∧ (answers k).ebx ≠ 0) :
    ∃ n, count ≤ n ∧ Ends answers n (detectLoop answers map count).1 ∧
      ∀ k, (detectLoop answers map count).2 k =
        if count ≤ k ∧ k < n then (answers k).buf else map k := by
  fun_induction detectLoop answers map count with
  | case1 map count oreg carry =>
    exact ⟨count, le_rfl, ⟨room.le, before, .inr (.inl ⟨room, carry, rfl⟩)⟩,
      fun k => (if_neg (by omega)).symm⟩
  | case2 map count oreg carry bad =>
    exact ⟨count, le_rfl, ⟨room.le, before, .inr (.inr (.inl ⟨room, by simpa using carry, bad, rfl⟩))⟩,
      fun k => (if_neg (by omega)).symm⟩
  | case3 map count oreg carry good last =>
    have describes : (answers count).Describes := ⟨by simpa using carry, not_not.mp good⟩
    exact ⟨count, le_rfl, ⟨room.le, before, .inr (.inr (.inr ⟨room, describes, last, rfl⟩))⟩,
      fun k => (if_neg (by omega)).symm⟩
  | case4 map count oreg carry good more map' count' continues ih =>
    have describes : (answers count).Describes := ⟨by simpa using carry, not_not.mp good⟩
    obtain ⟨n, low, ends, stored⟩ := ih continues.2 (Nat.forall_lt_succ_right.mpr ⟨before, describes, more⟩)
    refine ⟨n, by omega, ends, fun k => ?_⟩
    rw [stored k]
    by_cases here : k = count
    · subst here
      rw [if_neg (by omega), if_pos (by omega)]
      exact Function.update_self k _ map
    · have other : map' k = map k := Function.update_of_ne here _ map
      rw [other]
      exact if_congr (by omega) rfl rfl
  | case5 map count oreg carry good more map' count' stops =>
    have describes : (answers count).Describes := ⟨by simpa using carry, not_not.mp good⟩
    have full : count' = e820Max := by
      have : ¬ count' < e820Max := fun lt => stops ⟨more, lt⟩
      omega
    refine ⟨count', by omega, ⟨full.le, Nat.forall_lt_succ_right.mpr ⟨before, describes, more⟩, .inl ⟨full, rfl⟩⟩,
      fun k => ?_⟩
    by_cases here : k = count
    · subst here
      rw [if_pos (by omega)]
      exact Function.update_self k _ map
    · rw [if_neg (by omega)]
      exact Function.update_of_ne here _ map

theorem detectMemoryE820_ends (answers : Nat → Answer) (boot : BootParams) :
    ∃ n, Ends answers n (detectMemoryE820 answers boot).1 ∧
      ∀ k, (detectMemoryE820 answers boot).2.e820Map k =
        if k < n then (answers k).buf else boot.e820Map k := by
  obtain ⟨n, -, ends, stored⟩ := detectLoop_ends answers boot.e820Map 0 (by decide) (by simp)
  refine ⟨n, ends, fun k => (stored k).trans ?_⟩
  exact if_congr (by omega) rfl rfl

theorem e820Entries_toNat (answers : Nat → Answer) (boot : BootParams) {n : Nat}
    (ends : Ends answers n (detectMemoryE820 answers boot).1) :
    (detectMemoryE820 answers boot).2.e820Entries.toNat = (detectMemoryE820 answers boot).1 := by
  have le : (detectMemoryE820 answers boot).1 ≤ e820Max := by
    have := ends.table
    rcases ends.stop with ⟨-, eq⟩ | ⟨-, -, eq⟩ | ⟨-, -, -, eq⟩ | ⟨-, -, -, eq⟩ <;> omega
  exact Nat.mod_eq_of_lt (le.trans_lt (by decide))

variable {n result : Nat}

theorem Ends.toRecord (ends : Ends answers n result) (unmarked : ¬ MarksLast answers) :
    ToRecord answers n := by
  refine ⟨ends.table, fun k lt => (ends.stored k lt).1, fun k lt => (ends.stored k (by omega)).2, ?_⟩
  rcases ends.stop with ⟨full, -⟩ | ⟨-, carry, -⟩ | ⟨-, -, bad, -⟩ | ⟨lt, describes, last, -⟩
  · exact .inl full
  · exact .inr (.inr fun describes => by simp [describes.1] at carry)
  · exact .inr (.inr fun describes => bad describes.2)
  · exact absurd ⟨n, lt, ends.stored, describes, last⟩ unmarked

theorem ToRecord.of_last {m : Nat} (record : ToRecord answers m) (lt : n < e820Max)
    (stored : ∀ k < n, (answers k).Describes ∧ (answers k).ebx ≠ 0)
    (describes : (answers n).Describes) (last : (answers n).ebx = 0) : m = n + 1 := by
  have above : n < m := by
    by_contra below
    rcases record.stop with full | ⟨k, next, zero⟩ | silent
    · omega
    · exact (stored k (by omega)).2 zero
    · rcases Nat.lt_or_eq_of_le (Nat.not_lt.mp below) with before | here
      · exact silent (stored m before).1
      · exact silent (here ▸ describes)
  by_contra ne
  exact record.more n (by omega) last

theorem Ends.of_last {l : Nat} (ends : Ends answers n result) (lt : l < e820Max)
    (before : ∀ k < l, (answers k).Describes ∧ (answers k).ebx ≠ 0)
    (describes : (answers l).Describes) (last : (answers l).ebx = 0) : n = l ∧ result = n := by
  have le : n ≤ l := by
    by_contra above
    exact (ends.stored l (by omega)).2 last
  have here : n = l := by
    by_contra ne
    obtain ⟨describes', more⟩ := before n (by omega)
    rcases ends.stop with ⟨full, -⟩ | ⟨-, carry, -⟩ | ⟨-, -, bad, -⟩ | ⟨-, -, zero, -⟩
    · omega
    · simp [describes'.1] at carry
    · exact bad describes'.2
    · exact more zero
  subst here
  refine ⟨rfl, ?_⟩
  rcases ends.stop with ⟨-, eq⟩ | ⟨-, -, eq⟩ | ⟨-, -, bad, -⟩ | ⟨-, -, -, eq⟩
  · exact eq
  · exact eq
  · exact absurd describes.2 bad
  · exact eq

/-- The loop ends with one of the first 128 answers or with a full table, never
writes behind the table, and records the map unless its last descriptor is marked
with a continuation of 0. -/
theorem detect_memory_e820_iff (answers : Nat → Answer) (boot : BootParams) :
    (∀ k, e820Max ≤ k → (detectMemoryE820 answers boot).2.e820Map k = boot.e820Map k) ∧
      (Detected answers boot (detectMemoryE820 answers boot).2 ↔ ¬ MarksLast answers) := by
  obtain ⟨n, ends, stored⟩ := detectMemoryE820_ends answers boot
  have count := e820Entries_toNat answers boot ends
  refine ⟨fun k behind => ?_, ?_, fun unmarked => ?_⟩
  · rw [stored k, if_neg (by have := ends.table; omega)]
  · rintro ⟨m, record, -, -, -, clean⟩ ⟨l, lt, before, describes, last⟩
    obtain ⟨rfl, result⟩ := ends.of_last lt before describes last
    obtain rfl := record.of_last lt before describes last
    have unspoiled : ¬ Spoiled answers (n + 1) := fun spoiled => spoiled.2.1 n (by omega) last
    have entries := clean unspoiled
    omega
  · refine ⟨n, ends.toRecord unmarked, fun k lt => ?_, fun k le => ?_, fun spoiled => ?_,
      fun clean => ?_⟩
    · rw [stored k, if_pos lt]
    · rw [stored k, if_neg (by omega)]
    · obtain ⟨lt, -, carry, bad⟩ := spoiled
      apply BitVec.eq_of_toNat_eq
      rw [count]
      rcases ends.stop with ⟨full, -⟩ | ⟨-, carry', -⟩ | ⟨-, -, -, zero⟩ | ⟨-, describes, -, -⟩
      · omega
      · simp [carry] at carry'
      · exact zero
      · exact absurd describes.2 bad
    · rw [count]
      rcases ends.stop with ⟨-, eq⟩ | ⟨-, -, eq⟩ | ⟨lt, carry, bad, -⟩ | ⟨-, -, -, eq⟩
      · exact eq
      · exact eq
      · exact absurd ⟨lt, fun k below => (ends.stored k below).2, carry, bad⟩ clean
      · exact eq

/-- Conventional memory, and the memory from 1 MiB on, which comes last. -/
def twoRanges : Nat → Answer :=
  listed [⟨0, smap, 1, ⟨0, 0x9fc00, 1⟩⟩, ⟨0, smap, 0, ⟨0x100000, 0x7f00000, 1⟩⟩]

def emptyBoot : BootParams := ⟨0, fun _ => ⟨0, 0, 0⟩⟩

/-- The memory from 1 MiB on is not recorded. -/
theorem detect_memory_e820_drops_last :
    (detectMemoryE820 twoRanges emptyBoot).1 = 1 ∧
      (detectMemoryE820 twoRanges emptyBoot).2.e820Map 1 = ⟨0, 0, 0⟩ ∧
      ¬ Detected twoRanges emptyBoot (detectMemoryE820 twoRanges emptyBoot).2 := by
  have first : detectLoop twoRanges emptyBoot.e820Map 0 =
      detectLoop twoRanges (Function.update emptyBoot.e820Map 0 ⟨0, 0x9fc00, 1⟩) 1 := by
    rw [detectLoop]
    rfl
  have second : detectLoop twoRanges (Function.update emptyBoot.e820Map 0 ⟨0, 0x9fc00, 1⟩) 1 =
      (1, Function.update emptyBoot.e820Map 0 ⟨0, 0x9fc00, 1⟩) := by
    rw [detectLoop]
    rfl
  have run : detectMemoryE820 twoRanges emptyBoot =
      (1, ⟨1, Function.update emptyBoot.e820Map 0 ⟨0, 0x9fc00, 1⟩⟩) := by
    rw [detectMemoryE820, first, second]
    rfl
  rw [run]
  refine ⟨rfl, rfl, ?_⟩
  rintro ⟨m, record, -, -, -, clean⟩
  obtain rfl := record.of_last (n := 1) (by decide) (by decide) (by decide) (by decide)
  have unspoiled : ¬ Spoiled twoRanges 2 := fun spoiled => spoiled.2.1 1 (by decide) rfl
  exact absurd (clean unspoiled) (by decide)

end XcKernel.E820
