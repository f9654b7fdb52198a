import XcKernel.Irq.Basic

/-!
# The two 8259A controllers

`kernel/i8259.c` with the set-up of the lines in `early_irq_init` and
`init_ISA_irqs`.  The mask registers are what was last written to their ports.
The in-service registers are set by the controllers, and `inb` of a command port
after `0x0B` reads them.
-/

namespace XcKernel.Irq

open Flags

/-- The variables of `i8259.c` and the registers of the controllers. -/
structure Pic where
  cachedIrqMask : BitVec 32
  spuriousIrqMask : BitVec 32
  irqErrCount : BitVec 32
  masterImr : BitVec 8
  slaveImr : BitVec 8
  masterIsr : BitVec 8
  slaveIsr : BitVec 8
  deriving DecidableEq, Repr

def picMasterCmd : Nat := 0x20
def picMasterImr : Nat := 0x21
def picSlaveCmd : Nat := 0xa0
def picSlaveImr : Nat := 0xa1
def picCascadeIr : Nat := 2

namespace Pic

def cachedMasterMask (p : Pic) : BitVec 8 := p.cachedIrqMask.setWidth 8

def cachedSlaveMask (p : Pic) : BitVec 8 := (p.cachedIrqMask >>> 8).setWidth 8

/-- `outb`; commands do not change the masks. -/
def outb (p : Pic) (value : BitVec 8) (port : Nat) : Pic :=
  if port = picMasterImr then { p with masterImr := value }
  else if port = picSlaveImr then { p with slaveImr := value }
  else p

/-- The write of the mask byte that has the bit of the line. -/
def writeMask (p : Pic) (irq : Nat) : Pic :=
  if irq &&& 8 ≠ 0 then p.outb p.cachedSlaveMask picSlaveImr
  else p.outb p.cachedMasterMask picMasterImr

end Pic

def mask8259AIrq (irq : Nat) (p : Pic) : Pic :=
  let mask := (1 : BitVec 32) <<< irq
  Pic.writeMask { p with cachedIrqMask := p.cachedIrqMask ||| mask } irq

def unmask8259AIrq (irq : Nat) (p : Pic) : Pic :=
  let mask := ~~~((1 : BitVec 32) <<< irq)
  Pic.writeMask { p with cachedIrqMask := p.cachedIrqMask &&& mask } irq

def i8259AIrqReal (irq : Nat) (p : Pic) : Bool :=
  let irqmask := (1 : BitVec 32) <<< irq
  if irq < 8 then test (p.masterIsr.setWidth 32) irqmask else p.slaveIsr != 0

/-- The label `handle_real_irq` of `mask_and_ack_8259A` -/
def handleRealIrq (irq : Nat) (p : Pic) : Pic :=
  if irq &&& 8 ≠ 0 then
    let p := p.outb p.cachedSlaveMask picSlaveImr
    let p := p.outb (BitVec.ofNat 8 (0x60 + (irq &&& 7))) picSlaveCmd
    p.outb (BitVec.ofNat 8 (0x60 + picCascadeIr)) picMasterCmd
  else
    let p := p.outb p.cachedMasterMask picMasterImr
    p.outb (BitVec.ofNat 8 (0x60 + irq)) picMasterCmd

def maskAndAck8259A (irq : Nat) (p : Pic) : Pic :=
  let irqmask := (1 : BitVec 32) <<< irq
  if ¬ test p.cachedIrqMask irqmask then
    handleRealIrq irq { p with cachedIrqMask := p.cachedIrqMask ||| irqmask }
  else if i8259AIrqReal irq p then handleRealIrq irq p
  else
    let spurious := if ¬ test p.spuriousIrqMask irqmask then p.spuriousIrqMask ||| irqmask
      else p.spuriousIrqMask
    handleRealIrq irq { p with spuriousIrqMask := spurious, irqErrCount := p.irqErrCount + 1 }

/-- `i8259A_chip` as `init_8259A` leaves it -/
def i8259AChip (autoEoi : Bool) : Chip Pic where
  irqMask := mask8259AIrq
  irqDisable := some mask8259AIrq
  irqUnmask := unmask8259AIrq
  irqMaskAck := some (if autoEoi then mask8259AIrq else maskAndAck8259A)

/-- The writes of `init_8259A` before the masks -/
def initWords (autoEoi : Bool) : List (BitVec 8 × Nat) :=
  [(0xff, picMasterImr), (0xff, picSlaveImr), (0x11, picMasterCmd), (0x30, picMasterImr),
    ((1 : BitVec 8) <<< picCascadeIr, picMasterImr),
    (if autoEoi then 0x01 ||| 2 else 0x01, picMasterImr), (0x11, picSlaveCmd),
    (0x38, picSlaveImr), (BitVec.ofNat 8 picCascadeIr, picSlaveImr), (0x01, picSlaveImr)]

def init8259A (autoEoi : Bool) (p : Pic) : Pic :=
  let p := (initWords autoEoi).foldl (fun p w => p.outb w.1 w.2) p
  let p := p.outb p.cachedMasterMask picMasterImr
  p.outb p.cachedSlaveMask picSlaveImr

/-- `NR_IRQS` and `NR_IRQS_LEGACY` -/
def nrIrqs : Nat := 16

/-- The initialiser of `irq_desc` -/
def staticDesc : IrqDesc Pic where
  chip := none
  handleIrq := .handleBadIrq
  state := 0
  status := 0
  istate := 0
  depth := 1
  action := []

def irqfModifyMask : BitVec 32 := 0x0000ff0f

def descSetDefaults (desc : IrqDesc Pic) : IrqDesc Pic :=
  { desc with
    chip := none
    handleIrq := .handleBadIrq
    state := set desc.state irqdIrqDisabled
    status := clear desc.status irqfModifyMask
    depth := 1 }

/-- `early_irq_init`, with controllers in any state -/
def earlyIrqInit (p : Pic) : Machine Pic where
  desc := fun _ => descSetDefaults staticDesc
  hw := p

def initIsaIrqs (m : Machine Pic) : Machine Pic :=
  let m := { m with hw := init8259A false m.hw }
  (List.range nrIrqs).foldl
    (fun m i => m.onLine i (irqSetChipAndHandlerName (i8259AChip false) .handleLevelIrq)) m

end XcKernel.Irq
