import Mathlib.Data.BitVec
import Mathlib.Logic.Function.Basic
import Mathlib.Tactic.IntervalCases

/-!
# Descriptors

The eight bytes of `desc_struct` and the encoders for them: `pack_gate`,
`pack_descriptor`, the initialisers `GDT_ENTRY_INIT` and `GDT_ENTRY` of the tables,
and the code of `setup_idt`.  A field of the structure is spread over the two words;
the processor puts the parts together again.
-/

namespace XcKernel.Irq

/-- `struct desc_struct`: two words, or the fields -/
@[ext]
structure DescStruct where
  a : BitVec 32
  b : BitVec 32
  deriving DecidableEq, Repr

namespace DescStruct

variable (desc : DescStruct)

def limit0 : BitVec 16 := desc.a.extractLsb' 0 16
def base0 : BitVec 16 := desc.a.extractLsb' 16 16
def base1 : BitVec 8 := desc.b.extractLsb' 0 8
def type : BitVec 4 := desc.b.extractLsb' 8 4
def s : BitVec 1 := desc.b.extractLsb' 12 1
def dpl : BitVec 2 := desc.b.extractLsb' 13 2
def p : BitVec 1 := desc.b.extractLsb' 15 1
def limit : BitVec 4 := desc.b.extractLsb' 16 4
def flags : BitVec 4 := desc.b.extractLsb' 20 4
def base2 : BitVec 8 := desc.b.extractLsb' 24 8

/-- `desc->p = 1` -/
def setP : DescStruct := ⟨desc.a, desc.b ||| 0x8000⟩

/-- The base of a segment, as the processor reads it. -/
def segmentBase : BitVec 32 := desc.base2 ++ desc.base1 ++ desc.base0

/-- The limit of a segment. -/
def segmentLimit : BitVec 20 := desc.limit ++ desc.limit0

/-- The access byte and, above the limit, the four flags. -/
def access : BitVec 16 := desc.flags ++ 0#4 ++ desc.p ++ desc.dpl ++ desc.s ++ desc.type

/-- The address in a gate. -/
def offset : BitVec 32 := desc.b.extractLsb' 16 16 ++ desc.limit0

/-- The segment selector in a gate. -/
def selector : BitVec 16 := desc.base0

end DescStruct

/-- `pack_gate`; the stack table index is not used -/
def packGate (type : BitVec 8) (base dpl : BitVec 32) (seg : BitVec 16) : DescStruct where
  a := seg.setWidth 32 <<< 16 ||| (base &&& 0xffff)
  b := (base &&& 0xffff0000) ||| ((0x80 ||| type.setWidth 32 ||| dpl <<< 5) &&& 0xff) <<< 8

def packDescriptor (base limit : BitVec 32) (type flags : BitVec 8) : DescStruct :=
  let desc : DescStruct :=
    { a := (base &&& 0xffff) <<< 16 ||| (limit &&& 0xffff)
      b := (base &&& 0xff000000) ||| (base &&& 0xff0000) >>> 16 ||| (limit &&& 0x000f0000) |||
        (type.setWidth 32 &&& 0xff) <<< 8 ||| (flags.setWidth 32 &&& 0xf) <<< 20 }
  desc.setP

/-- `GDT_ENTRY_INIT` -/
def gdtEntryInit (flags base limit : BitVec 32) : DescStruct where
  a := (limit &&& 0xffff) ||| (base &&& 0xffff) <<< 16
  b := (base &&& 0xff0000) >>> 16 ||| (flags &&& 0xf0ff) <<< 8 ||| (limit &&& 0xf0000) |||
    (base &&& 0xff000000)

/-- `GDT_ENTRY`, an entry as one number of 64 bits -/
def gdtEntry (flags base limit : BitVec 64) : BitVec 64 :=
  (base &&& 0xff000000) <<< (56 - 24) ||| (flags &&& 0x0000f0ff) <<< 40 |||
    (limit &&& 0x000f0000) <<< (48 - 16) ||| (base &&& 0x00ffffff) <<< 16 ||| (limit &&& 0x0000ffff)

theorem offset_packGate (type : BitVec 8) (base dpl : BitVec 32) (seg : BitVec 16) :
    (packGate type base dpl seg).offset = base := by
  refine BitVec.eq_of_getLsbD_eq fun i hi => ?_
  simp only [DescStruct.offset, DescStruct.limit0, packGate, BitVec.getLsbD_append,
    BitVec.getLsbD_extractLsb', BitVec.getLsbD_or, BitVec.getLsbD_and, BitVec.getLsbD_shiftLeft,
    BitVec.getLsbD_setWidth]
  interval_cases i <;> simp

theorem selector_packGate (type : BitVec 8) (base dpl : BitVec 32) (seg : BitVec 16) :
    (packGate type base dpl seg).selector = seg := by
  refine BitVec.eq_of_getLsbD_eq fun i hi => ?_
  simp only [DescStruct.selector, DescStruct.base0, packGate, BitVec.getLsbD_extractLsb',
    BitVec.getLsbD_or, BitVec.getLsbD_and, BitVec.getLsbD_shiftLeft, BitVec.getLsbD_setWidth]
  interval_cases i <;> simp

theorem segmentBase_gdtEntryInit (flags base limit : BitVec 32) :
    (gdtEntryInit flags base limit).segmentBase = base := by
  refine BitVec.eq_of_getLsbD_eq fun i hi => ?_
  simp only [DescStruct.segmentBase, DescStruct.base0, DescStruct.base1, DescStruct.base2,
    gdtEntryInit, BitVec.getLsbD_append, BitVec.getLsbD_extractLsb', BitVec.getLsbD_or,
    BitVec.getLsbD_and, BitVec.getLsbD_shiftLeft, BitVec.getLsbD_ushiftRight]
  interval_cases i <;> simp

theorem segmentLimit_gdtEntryInit (flags base limit : BitVec 32) :
    (gdtEntryInit flags base limit).segmentLimit = limit.setWidth 20 := by
  refine BitVec.eq_of_getLsbD_eq fun i hi => ?_
  simp only [DescStruct.segmentLimit, DescStruct.limit, DescStruct.limit0, gdtEntryInit,
    BitVec.getLsbD_append, BitVec.getLsbD_extractLsb', BitVec.getLsbD_or, BitVec.getLsbD_and,
    BitVec.getLsbD_shiftLeft, BitVec.getLsbD_ushiftRight, BitVec.getLsbD_setWidth]
  interval_cases i <;> simp

theorem access_gdtEntryInit (flags base limit : BitVec 32) :
    (gdtEntryInit flags base limit).access = (flags &&& 0xf0ff).setWidth 16 := by
  refine BitVec.eq_of_getLsbD_eq fun i hi => ?_
  simp only [DescStruct.access, DescStruct.flags, DescStruct.p, DescStruct.dpl, DescStruct.s,
    DescStruct.type, gdtEntryInit, BitVec.getLsbD_append, BitVec.getLsbD_extractLsb',
    BitVec.getLsbD_or, BitVec.getLsbD_and, BitVec.getLsbD_shiftLeft, BitVec.getLsbD_ushiftRight,
    BitVec.getLsbD_setWidth]
  interval_cases i <;> simp

theorem gdtEntry_eq (flags base limit : BitVec 32) :
    gdtEntry (flags.setWidth 64) (base.setWidth 64) (limit.setWidth 64) =
      (gdtEntryInit flags base limit).b ++ (gdtEntryInit flags base limit).a := by
  refine BitVec.eq_of_getLsbD_eq fun i hi => ?_
  simp only [gdtEntry, gdtEntryInit, BitVec.getLsbD_append, BitVec.getLsbD_or, BitVec.getLsbD_and,
    BitVec.getLsbD_shiftLeft, BitVec.getLsbD_ushiftRight, BitVec.getLsbD_setWidth]
  interval_cases i <;> simp

theorem packDescriptor_eq (base limit : BitVec 32) (type flags : BitVec 8) :
    packDescriptor base limit type flags =
      gdtEntryInit (flags.setWidth 32 <<< 12 ||| type.setWidth 32 ||| 0x80) base limit := by
  refine DescStruct.ext (BitVec.or_comm _ _) (BitVec.eq_of_getLsbD_eq fun i hi => ?_)
  simp only [packDescriptor, DescStruct.setP, gdtEntryInit, BitVec.getLsbD_or, BitVec.getLsbD_and,
    BitVec.getLsbD_shiftLeft, BitVec.getLsbD_ushiftRight, BitVec.getLsbD_setWidth]
  interval_cases i <;> simp [Bool.or_comm]

/-- `pack_descriptor` always sets the present bit: given the two parts of a flags word
it makes the same entry exactly if the word has that bit. -/
theorem packDescriptor_parts_iff (flags base limit : BitVec 32) :
    packDescriptor base limit (flags.setWidth 8) ((flags >>> 12).setWidth 8) =
      gdtEntryInit flags base limit ↔ flags.getLsbD 7 = true := by
  rw [packDescriptor_eq]
  constructor
  · intro same
    have access := congrArg DescStruct.access same
    rw [access_gdtEntryInit, access_gdtEntryInit] at access
    simpa using (congrArg (·.getLsbD 7) access).symm
  · intro present
    have kept : (((flags >>> 12).setWidth 8).setWidth 32 <<< 12 ||| (flags.setWidth 8).setWidth 32 |||
        0x80) &&& 0xf0ff = flags &&& 0xf0ff := by
      refine BitVec.eq_of_getLsbD_eq fun i hi => ?_
      simp only [BitVec.getLsbD_or, BitVec.getLsbD_and, BitVec.getLsbD_shiftLeft,
        BitVec.getLsbD_ushiftRight, BitVec.getLsbD_setWidth]
      interval_cases i <;> simp [present]
    rw [gdtEntryInit, kept, ← gdtEntryInit]

/-- The access byte of a gate.  Bits 5 and 6 of the type would go into the privilege. -/
theorem access_packGate (type : BitVec 8) (base dpl : BitVec 32) (seg : BitVec 16) :
    (packGate type base dpl seg).p = 1 ∧
      (packGate type base dpl seg).dpl = type.extractLsb' 5 2 ||| dpl.setWidth 2 ∧
      (packGate type base dpl seg).s = type.extractLsb' 4 1 ∧
      (packGate type base dpl seg).type = type.setWidth 4 := by
  refine ⟨?_, ?_, ?_, ?_⟩
  all_goals
    refine BitVec.eq_of_getLsbD_eq fun i hi => ?_
    simp only [DescStruct.p, DescStruct.dpl, DescStruct.s, DescStruct.type, packGate,
      BitVec.getLsbD_extractLsb', BitVec.getLsbD_or, BitVec.getLsbD_and, BitVec.getLsbD_shiftLeft,
      BitVec.getLsbD_setWidth]
    interval_cases i <;> simp

def nrVectors : Nat := 256

def firstExternalVector : Nat := 0x20

def syscallVector : Nat := 0x80

/-- `IRQ0_VECTOR` -/
def irq0Vector : Nat := (firstExternalVector + 16) / 16 * 16

/-- `GATE_INTERRUPT` -/
def gateInterrupt : BitVec 8 := 0xe

/-- `__KERNEL_CS` -/
def kernelCs : BitVec 16 := 12 * 8

/-- The addresses of the code that the table points to. -/
structure Text where
  ignoreInt : BitVec 32
  earlyDivideErr : BitVec 32
  earlyIllegalOpcode : BitVec 32
  earlyProtectionFault : BitVec 32
  earlyPageFault : BitVec 32
  irqEntriesStart : BitVec 32

/-- The entry for a handler as the code of `setup_idt` puts it together in `eax`
and `edx`. -/
def earlyGate (handler : BitVec 32) : DescStruct where
  a := ((kernelCs.setWidth 32 <<< 16) &&& 0xffff0000) ||| (handler &&& 0xffff)
  b := (handler &&& 0xffff0000) ||| 0x8e00

theorem earlyGate_eq (handler : BitVec 32) :
    earlyGate handler = packGate gateInterrupt handler 0 kernelCs :=
  rfl

/-- `GDT_ENTRY` and `GDT_ENTRY_INIT` make the same entries, and `pack_descriptor`
makes those of the flags words with the present bit.  The processor reads back the base,
the low 20 bits of the limit, and the access byte with the flags.  It reads back the
address and the selector of a gate; its kind is that of the type, and its privilege has the
bits of the given one and bits 5 and 6 of the type.  The code of `setup_idt` makes the gate
that `pack_gate` makes. -/
theorem descriptor_formats (base limit flags : BitVec 32) :
    (gdtEntry (flags.setWidth 64) (base.setWidth 64) (limit.setWidth 64) =
      (gdtEntryInit flags base limit).b ++ (gdtEntryInit flags base limit).a) ∧
    ((gdtEntryInit flags base limit).segmentBase = base ∧
      (gdtEntryInit flags base limit).segmentLimit = limit.setWidth 20 ∧
      (gdtEntryInit flags base limit).access = (flags &&& 0xf0ff).setWidth 16) ∧
    (packDescriptor base limit (flags.setWidth 8) ((flags >>> 12).setWidth 8) =
      gdtEntryInit flags base limit ↔ flags.getLsbD 7 = true) ∧
    (∀ type nibble : BitVec 8,
      packDescriptor base limit type nibble =
        gdtEntryInit (nibble.setWidth 32 <<< 12 ||| type.setWidth 32 ||| 0x80) base limit ∧
      (packDescriptor base limit type nibble).segmentBase = base ∧
      (packDescriptor base limit type nibble).segmentLimit = limit.setWidth 20 ∧
      (packDescriptor base limit type nibble).access =
        nibble.setWidth 16 <<< 12 ||| type.setWidth 16 ||| 0x80) ∧
    (∀ (type : BitVec 8) (dpl : BitVec 32) (seg : BitVec 16),
      (packGate type base dpl seg).offset = base ∧ (packGate type base dpl seg).selector = seg ∧
      (packGate type base dpl seg).p = 1 ∧
      (packGate type base dpl seg).dpl = type.extractLsb' 5 2 ||| dpl.setWidth 2 ∧
      (packGate type base dpl seg).s = type.extractLsb' 4 1 ∧
      (packGate type base dpl seg).type = type.setWidth 4) ∧
    earlyGate base = packGate gateInterrupt base 0 kernelCs := by
  refine ⟨gdtEntry_eq flags base limit, ⟨segmentBase_gdtEntryInit flags base limit,
    segmentLimit_gdtEntryInit flags base limit, access_gdtEntryInit flags base limit⟩,
    packDescriptor_parts_iff flags base limit,
    fun type nibble => ⟨packDescriptor_eq base limit type nibble, ?_⟩,
    fun type dpl seg => ⟨offset_packGate type base dpl seg, selector_packGate type base dpl seg,
    access_packGate type base dpl seg⟩, earlyGate_eq base⟩
  rw [packDescriptor_eq]
  refine ⟨segmentBase_gdtEntryInit _ _ _, segmentLimit_gdtEntryInit _ _ _, ?_⟩
  rw [access_gdtEntryInit]
  refine BitVec.eq_of_getLsbD_eq fun i hi => ?_
  simp only [BitVec.getLsbD_or, BitVec.getLsbD_and, BitVec.getLsbD_shiftLeft, BitVec.getLsbD_setWidth]
  interval_cases i <;> simp

/-- The kernel's code segment: all four gigabytes, readable, of privilege 0. -/
example : (gdtEntryInit 0xc09a 0 0xfffff).access = 0xc09a ∧
    (gdtEntryInit 0xc09a 0 0xfffff).dpl = 0 := by
  decide

/-- `setup_idt` -/
def setupIdt (text : Text) : Nat → DescStruct :=
  let idt := fun _ => earlyGate text.ignoreInt
  let idt := Function.update idt 0 (earlyGate text.earlyDivideErr)
  let idt := Function.update idt 6 (earlyGate text.earlyIllegalOpcode)
  let idt := Function.update idt 13 (earlyGate text.earlyProtectionFault)
  Function.update idt 14 (earlyGate text.earlyPageFault)

/-- The vectors that `trap_init` marks as used. -/
def trapInit (usedVectors : Nat → Bool) : Nat → Bool :=
  Function.update ((List.range firstExternalVector).foldl (fun used i => Function.update used i true)
    usedVectors) syscallVector true

/-- `interrupt[k]`: seven stubs share 32 bytes.  A stub is a `pushl` of a byte and a
short jump, two bytes each; the last of the seven falls through. -/
def interruptStub (text : Text) (k : Nat) : BitVec 32 :=
  text.irqEntriesStart + BitVec.ofNat 32 (k / 7 * 32 + k % 7 * 4)

def setIntrGate (idt : Nat → DescStruct) (n : Nat) (addr : BitVec 32) : Nat → DescStruct :=
  Function.update idt n (packGate gateInterrupt addr 0 kernelCs)

/-- The loop of `native_init_IRQ` over the gates. -/
def nativeInitGates (text : Text) (usedVectors : Nat → Bool) (idt : Nat → DescStruct) :
    Nat → DescStruct :=
  (List.range' firstExternalVector (nrVectors - firstExternalVector)).foldl (fun idt i =>
    if ¬ usedVectors i then setIntrGate idt i (interruptStub text (i - firstExternalVector)) else idt) idt

/-- The table once interrupts are set up. -/
def bootIdt (text : Text) : Nat → DescStruct :=
  nativeInitGates text (trapInit fun _ => false) (setupIdt text)

/-- The vectors of the devices. -/
def External (v : Nat) : Prop := firstExternalVector ≤ v ∧ v < nrVectors ∧ v ≠ syscallVector

theorem foldl_update_range {α : Type*} (f : Nat → α) (keep : Nat → Prop) [DecidablePred keep]
    (start len : Nat) (g : Nat → α) (v : Nat) :
    (List.range' start len).foldl (fun g i => if keep i then Function.update g i (f i) else g) g v =
      if start ≤ v ∧ v < start + len ∧ keep v then f v else g v := by
  induction len with
  | zero =>
    rw [if_neg (by omega)]
    rfl
  | succ len ih =>
    rw [List.range'_1_concat, List.foldl_append, List.foldl_cons, List.foldl_nil]
    by_cases kept : keep (start + len)
    · rw [if_pos kept]
      by_cases here : v = start + len
      · rw [here, Function.update_self, if_pos ⟨by omega, by omega, kept⟩]
      · rw [Function.update_of_ne here, ih]
        exact if_congr (by constructor <;> rintro ⟨low, high, kept⟩ <;> exact ⟨low, by omega, kept⟩)
          rfl rfl
    · rw [if_neg kept, ih]
      refine if_congr ⟨fun ⟨low, high, kept'⟩ => ⟨low, by omega, kept'⟩, fun ⟨low, high, kept'⟩ => ?_⟩
        rfl rfl
      refine ⟨low, ?_, kept'⟩
      by_contra last
      obtain rfl : v = start + len := by omega
      exact kept kept'

theorem trapInit_eq (v : Nat) :
    trapInit (fun _ => false) v = decide (v < firstExternalVector ∨ v = syscallVector) := by
  have marked := foldl_update_range (fun _ => true) (fun _ => True) 0 firstExternalVector
    (fun _ => false) v
  simp only [if_true, ← List.range_eq_range', Nat.zero_le, Nat.zero_add, true_and, and_true] at marked
  rw [trapInit]
  by_cases syscall : v = syscallVector
  · rw [syscall, Function.update_self]
    rfl
  · rw [Function.update_of_ne syscall, marked]
    by_cases low : v < firstExternalVector <;> simp [low, syscall]

theorem bootIdt_external (text : Text) {v : Nat} (external : External v) :
    bootIdt text v = packGate gateInterrupt (interruptStub text (v - firstExternalVector)) 0 kernelCs := by
  obtain ⟨low, high, device⟩ := external
  have table := foldl_update_range
    (fun i => packGate gateInterrupt (interruptStub text (i - firstExternalVector)) 0 kernelCs)
    (fun i => ¬ trapInit (fun _ => false) i = true) firstExternalVector (nrVectors - firstExternalVector)
    (setupIdt text) v
  rw [bootIdt, nativeInitGates]
  refine table.trans (if_pos ⟨low, by simp only [nrVectors, firstExternalVector] at *; omega, ?_⟩)
  rw [trapInit_eq, decide_eq_true_eq]
  omega

end XcKernel.Irq
