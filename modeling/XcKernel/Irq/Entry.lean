import XcKernel.Irq.Desc
import XcKernel.Irq.I8259

/-!
# The interrupt path

What happens between the arrival of an interrupt in the kernel and the return to
the interrupted code: the gate, the stub of the vector, `common_interrupt` with
`SAVE_ALL`, `do_IRQ`, the switch to the interrupt stack, and `ret_from_intr` down to
`iret`.  C code is seen as its callers see it: it moves the stack down and up again,
brings back the registers that belong to its caller, and may be interrupted.

A stack is the list of its words: it has no bound, where the source has `THREAD_SIZE`
bytes with `thread_info` at their base.  There is no user mode.
-/

namespace XcKernel.Irq

/-- The general registers. -/
structure Gprs where
  ebx : BitVec 32
  ecx : BitVec 32
  edx : BitVec 32
  esi : BitVec 32
  edi : BitVec 32
  ebp : BitVec 32
  eax : BitVec 32
  deriving DecidableEq, Repr

/-- All registers but the stack pointer, which belongs to the stack. -/
structure Regs extends Gprs where
  ds : BitVec 16
  es : BitVec 16
  fs : BitVec 16
  gs : BitVec 16
  eip : BitVec 32
  cs : BitVec 16
  eflags : BitVec 32
  deriving DecidableEq, Repr

/-- A stack belongs to a task or to `hardirq_ctx`. -/
inductive Context where
  | task
  | hardirq
  deriving DecidableEq, Repr

/-- `struct thread_info`, at the low end of a stack -/
structure ThreadInfo where
  task : BitVec 32
  flags : BitVec 32
  status : BitVec 32
  cpu : BitVec 32
  preemptCount : BitVec 32
  addrLimit : BitVec 32
  previousEsp : BitVec 32
  deriving DecidableEq, Repr

/-- The word at an offset. -/
def ThreadInfo.word (ti : ThreadInfo) : (offset : Nat) → BitVec 32
  | 0 => ti.task
  | 4 => ti.flags
  | 8 => ti.status
  | 12 => ti.cpu
  | 16 => ti.preemptCount
  | 20 => ti.addrLimit
  | _ => ti.previousEsp

/-- What the interrupt path reads and writes.  `calls` are the calls of
`desc->handle_irq`, each with the `preempt_count` that its handler sees. -/
structure Cpu where
  regs : Regs
  current : Context
  stack : Context → List (BitVec 32)
  threadInfo : Context → ThreadInfo
  /-- where the stack begins -/
  top : Context → BitVec 32
  idt : Nat → DescStruct
  vectorIrq : Nat → BitVec 32
  irqRegs : BitVec 32
  calls : List (Nat × BitVec 32)

namespace Cpu

/-- The words of the current stack, from the stack pointer up. -/
def words (m : Cpu) : List (BitVec 32) := m.stack m.current

/-- The stack pointer of a context. -/
def esp (m : Cpu) (c : Context) : BitVec 32 := m.top c - BitVec.ofNat 32 (4 * (m.stack c).length)

def setWords (m : Cpu) (words : List (BitVec 32)) : Cpu :=
  { m with stack := Function.update m.stack m.current words }

def push (m : Cpu) (word : BitVec 32) : Cpu := m.setWords (word :: m.words)

/-- `preempt_count()` -/
def preemptCount (m : Cpu) : BitVec 32 := (m.threadInfo m.current).preemptCount

def setPreemptCount (m : Cpu) (count : BitVec 32) : Cpu :=
  let ti := m.threadInfo m.current
  { m with threadInfo := Function.update m.threadInfo m.current { ti with preemptCount := count } }

/-- `add_preempt_count` -/
def addPreemptCount (m : Cpu) (val : BitVec 32) : Cpu := m.setPreemptCount (m.preemptCount + val)

/-- `sub_preempt_count` -/
def subPreemptCount (m : Cpu) (val : BitVec 32) : Cpu := m.setPreemptCount (m.preemptCount - val)

end Cpu

/-- `__USER_DS` -/
def userDs : BitVec 16 := 15 * 8 + 3

def x86EflagsTf : BitVec 32 := 0x00000100
def x86EflagsIf : BitVec 32 := 0x00000200
def x86EflagsDf : BitVec 32 := 0x00000400
def x86EflagsNt : BitVec 32 := 0x00004000
def x86EflagsRf : BitVec 32 := 0x00010000
def x86EflagsVm : BitVec 32 := 0x00020000

/-- The stub at an address. -/
def stubAt (text : Text) (eip : BitVec 32) : Option Nat :=
  let d := (eip - text.irqEntriesStart).toNat
  let k := d / 32 * 7 + d % 32 / 4
  if d % 4 = 0 ∧ d % 32 / 4 < 7 ∧ k < nrVectors - firstExternalVector then some k else none

/-- The processor takes an interrupt: it pushes what `iret` needs and goes to the
handler of the gate with interrupts off.  The privilege stays 0. -/
def Cpu.deliver (m : Cpu) (vector : Nat) : Option Cpu :=
  let gate := m.idt vector
  if gate.p = 1 ∧ gate.s = 0 ∧ gate.type = 0xe then
    let m := ((m.push m.regs.eflags).push (m.regs.cs.setWidth 32)).push m.regs.eip
    some { m with regs := { m.regs with
      eflags := m.regs.eflags &&&
        ~~~(x86EflagsIf ||| x86EflagsTf ||| x86EflagsNt ||| x86EflagsRf ||| x86EflagsVm)
      cs := gate.selector
      eip := gate.offset } }
  else none

/-- The stub pushes a number that fits a byte. -/
def Cpu.pushVector (m : Cpu) (text : Text) : Option Cpu :=
  (stubAt text m.regs.eip).map fun k => m.push (~~~BitVec.ofNat 32 (firstExternalVector + k) + 0x80)

/-- `addl $-0x80, (%esp)` -/
def Cpu.adjustVector (m : Cpu) : Cpu :=
  m.setWords (m.words.modifyHead (· + (-0x80)))

/-- `SAVE_ALL` -/
def Cpu.saveAll (m : Cpu) : Cpu :=
  let r := m.regs
  let m := (((m.push (r.gs.setWidth 32)).push (r.fs.setWidth 32)).push (r.es.setWidth 32)).push
    (r.ds.setWidth 32)
  let m := ((((((m.push r.eax).push r.ebp).push r.edi).push r.esi).push r.edx).push r.ecx).push r.ebx
  -- `__KERNEL_PERCPU` and `__KERNEL_STACK_CANARY` are 0
  { m with regs := { r with
    ds := userDs, es := userDs, fs := 0, gs := 0, edx := 0
    eflags := r.eflags &&& ~~~x86EflagsDf } }

/-- From the arrival to the call of `do_IRQ` -/
def Cpu.commonInterrupt (m : Cpu) (text : Text) (vector : Nat) : Option Cpu :=
  (m.deliver vector).bind fun m => (m.pushVector text).map fun m =>
    let m := m.adjustVector.saveAll
    { m with regs := { m.regs with eax := m.esp m.current } }

/-- What a C function leaves behind: the words it has on the stack, and the
registers that its caller does not expect back. -/
structure CFrame where
  returnAddress : BitVec 32
  locals : List (BitVec 32)
  eax : BitVec 32
  ecx : BitVec 32
  edx : BitVec 32
  eflags : BitVec 32
  deriving DecidableEq, Repr

/-- A call of a C function with the given body. -/
def Cpu.call (f : CFrame) (body : Cpu → Option Cpu) (m : Cpu) : Option Cpu :=
  let r := m.regs
  let m := ((((m.push f.returnAddress).push r.ebp).push r.edi).push r.esi).push r.ebx
  (body (m.setWords (f.locals ++ m.words))).bind fun m =>
    match m.words.drop f.locals.length with
    | ebx :: esi :: edi :: ebp :: returnAddress :: rest =>
      if returnAddress = f.returnAddress then
        some { m.setWords rest with regs := { m.regs with
          ebx := ebx, esi := esi, edi := edi, ebp := ebp, eax := f.eax, ecx := f.ecx, edx := f.edx,
          eflags := f.eflags } }
      else none
    | _ => none

def softirqMask : BitVec 32 := 0x0000ff00

def softirqDisableOffset : BitVec 32 := 0x00000200

def hardirqOffset : BitVec 32 := 0x00010000

/-- The bits of `irq_count()`. -/
def irqCountMask : BitVec 32 := 0x07ffff00

/-- `in_interrupt()` -/
def inInterrupt (preemptCount : BitVec 32) : Bool := preemptCount &&& irqCountMask != 0

/-- `idle_cpu` is 1 -/
def Cpu.irqEnter (m : Cpu) : Cpu :=
  let m := if ¬ inInterrupt m.preemptCount then
      (m.addPreemptCount softirqDisableOffset).subPreemptCount softirqDisableOffset
    else m
  m.addPreemptCount hardirqOffset

/-- `sub_preempt_count(IRQ_EXIT_OFFSET)` and `preempt_enable_no_resched` -/
def Cpu.irqExit (m : Cpu) : Cpu := (m.subPreemptCount (hardirqOffset - 1)).subPreemptCount 1

/-- The switch to the interrupt stack: its `thread_info` is filled in, and `xchgl`
leaves the old stack pointer in `ebx`. -/
def Cpu.switchToIrqStack (m : Cpu) : Cpu :=
  let curctx := m.threadInfo m.current
  let irqctx := m.threadInfo .hardirq
  let irqctx := { irqctx with
    task := curctx.task
    previousEsp := m.esp m.current
    preemptCount := irqctx.preemptCount &&& ~~~softirqMask ||| curctx.preemptCount &&& softirqMask }
  { m with
    threadInfo := Function.update m.threadInfo .hardirq irqctx
    regs := { m.regs with ebx := m.esp m.current }
    current := .hardirq
    stack := Function.update m.stack .hardirq [] }

/-- `execute_on_irq_stack`, or the call on the stack in use if that is the interrupt
stack.  `ebx` keeps the old stack pointer across the call. -/
def Cpu.executeOnIrqStack (handler : Cpu → Option Cpu) (m : Cpu) : Option Cpu :=
  if m.current = .hardirq then handler m
  else
    (handler m.switchToIrqStack).bind fun m' =>
      if m'.regs.ebx = m'.esp m.current then some { m' with current := m.current } else none

/-- `handle_irq`; without a descriptor `do_IRQ` acknowledges the interrupt at the
APIC, of which there is none. -/
def Cpu.handleIrq (handler : Cpu → Option Cpu) (irq : BitVec 32) (m : Cpu) : Option Cpu :=
  if irq.toNat < nrIrqs then
    m.executeOnIrqStack fun m =>
      handler { m with calls := m.calls ++ [(irq.toNat, m.preemptCount)] }
  else some m

/-- The body of `do_IRQ` for a vector. -/
def Cpu.serveVector (handler : Cpu → Option Cpu) (regs : BitVec 32) (vector : Nat) (m : Cpu) :
    Option Cpu :=
  let oldRegs := m.irqRegs
  let m := Cpu.irqEnter { m with irqRegs := regs }
  (m.handleIrq handler (m.vectorIrq vector)).map fun m => { m.irqExit with irqRegs := oldRegs }

/-- `do_IRQ`; `eax` points to the words on the stack, of which `orig_ax` is number 11. -/
def Cpu.doIRQ (f : CFrame) (handler : Cpu → Option Cpu) (m : Cpu) : Option Cpu :=
  (m.words[11]?).bind fun origAx =>
    m.call f (Cpu.serveVector handler m.regs.eax (~~~origAx).toNat)

/-- `TI_flags` and `TI_preempt_count`, which count an `exec_domain` that the structure
does not have: they are the offsets of `status` and `addr_limit`. -/
def tiFlags : Nat := 8
def tiPreemptCount : Nat := 20

/-- `_TIF_NEED_RESCHED` -/
def tifNeedResched : BitVec 32 := 8

def segmentRplMask : BitVec 32 := 0x3
def userRpl : BitVec 32 := 0x3
def segmentTiMask : BitVec 32 := 0x4
def segmentLdt : BitVec 32 := 0x4

/-- The low byte of a register is replaced. -/
def movb (dst src : BitVec 32) : BitVec 32 := dst &&& ~~~(0xff : BitVec 32) ||| src &&& 0xff

/-- The second byte of a register is replaced. -/
def movbHigh (dst src : BitVec 32) : BitVec 32 := dst &&& ~~~(0xff00 : BitVec 32) ||| (src &&& 0xff) <<< 8

/-- `RESTORE_REGS 4` and `iret` -/
def Cpu.restoreRegs (m : Cpu) : Option Cpu :=
  match m.words with
  | ebx :: ecx :: edx :: esi :: edi :: ebp :: eax :: ds :: es :: fs :: gs :: _ :: eip :: cs ::
      eflags :: rest =>
    some { m.setWords rest with regs :=
      { ebx := ebx, ecx := ecx, edx := edx, esi := esi, edi := edi, ebp := ebp, eax := eax
        ds := ds.setWidth 16, es := es.setWidth 16, fs := fs.setWidth 16, gs := gs.setWidth 16
        eip := eip, cs := cs.setWidth 16, eflags := eflags } }
  | _ => none

/-- `restore_all`.  An interrupted task with its own segment table would not return. -/
def Cpu.restoreAll (m : Cpu) : Option Cpu :=
  (m.words[14]?).bind fun eflags => (m.words[13]?).bind fun cs =>
    -- nothing is saved at `PT_OLDSS` when the kernel is interrupted
    let eax := movb (movbHigh eflags ((m.words[16]?).getD 0)) cs &&&
      (x86EflagsVm ||| segmentTiMask <<< 8 ||| segmentRplMask)
    if eax = segmentLdt <<< 8 ||| userRpl then none else m.restoreRegs

/-- `ret_from_intr`.  If `preempt_schedule_irq` is called it is called for ever, since
`__schedule` does nothing. -/
def Cpu.retFromIntr (m : Cpu) : Option Cpu :=
  (m.words[14]?).bind fun eflags => (m.words[13]?).bind fun cs =>
    let eax := movb eflags cs &&& (x86EflagsVm ||| segmentRplMask)
    if eax < userRpl then
      let ti := m.threadInfo m.current
      if ti.word tiPreemptCount ≠ 0 then m.restoreAll
      else if ti.word tiFlags &&& tifNeedResched = 0 then m.restoreAll
      else if eflags &&& x86EflagsIf = 0 then m.restoreAll
      else none
    else none

/-- `vector_irq` as `init_IRQ` leaves it -/
def initVectorIrq : Nat → BitVec 32 :=
  (List.range' 0 nrIrqs).foldl (fun table i => Function.update table (irq0Vector + i) (BitVec.ofNat 32 i))
    fun _ => -1

/-- `INIT_THREAD_INFO`, with `INIT_PREEMPT_COUNT` -/
def initThreadInfo (task : BitVec 32) : ThreadInfo where
  task := task
  flags := 0
  status := 0
  cpu := 0
  preemptCount := 1 + 0x10000000
  addrLimit := 0
  previousEsp := 0

/-- The `thread_info` of the interrupt stack, `irq_ctx_init` -/
def irqCtxInit (cpu : BitVec 32) : ThreadInfo where
  task := 0
  flags := 0
  status := 0
  cpu := cpu
  preemptCount := hardirqOffset
  addrLimit := 0
  previousEsp := 0

/-- The processor once interrupts are set up, on the stack of the first task. -/
def bootCpu (text : Text) (regs : Regs) (task : BitVec 32) (stack : List (BitVec 32))
    (top : Context → BitVec 32) : Cpu where
  regs := regs
  current := .task
  stack
    | .task => stack
    | .hardirq => []
  threadInfo
    | .task => initThreadInfo task
    | .hardirq => irqCtxInit 0
  top := top
  idt := bootIdt text
  vectorIrq := initVectorIrq
  irqRegs := 0
  calls := []

mutual

/-- An interrupt, with the functions that it runs. -/
inductive Interrupt where
  | take (vector : Nat) (doIRQ handler : CFrame) (code : Code)

/-- What a handler does: here and there it is interrupted, with any values in its
registers. -/
inductive Code where
  | done
  | point (gprs : Gprs) (eip eflags : BitVec 32) (interrupt : Interrupt) (rest : Code)

end

mutual

def Interrupt.run (text : Text) : Interrupt → Cpu → Option Cpu
  | .take vector doIRQ handler code, m =>
    (m.commonInterrupt text vector).bind fun m =>
      (m.doIRQ doIRQ (Cpu.call handler (code.run text))).bind Cpu.retFromIntr

def Code.run (text : Text) : Code → Cpu → Option Cpu
  | .done, m => some m
  | .point gprs eip eflags interrupt rest, m =>
    (interrupt.run text { m with regs := { m.regs with toGprs := gprs, eip := eip, eflags := eflags } }).bind
      (rest.run text)

end

end XcKernel.Irq
