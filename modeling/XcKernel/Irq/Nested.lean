import XcKernel.Irq.Entry
import Mathlib.Tactic.IntervalCases

/-!
# Nested interrupts

The code that an interrupt arrives in does not notice it: registers and stack are
as before, however many interrupts have arrived in its handler.  Each vector of the
devices runs the handlers of its own line, and every handler finds itself in an
interrupt.  The argument goes along the nesting; what a handler does to the stack
below is undone before the registers of the interrupted code are read from it.
-/

namespace XcKernel.Irq

variable {text : Text} {m m' : Cpu} {v d : Nat}

namespace Cpu

@[simp]
theorem words_setWords (m : Cpu) (words : List (BitVec 32)) : (m.setWords words).words = words := by
  simp [Cpu.words, setWords]

@[simp]
theorem setWords_setWords (m : Cpu) (words words' : List (BitVec 32)) :
    (m.setWords words).setWords words' = m.setWords words' := by
  simp [setWords]

end Cpu

/-- The words on the stack while an interrupt is handled, `struct pt_regs`. -/
def Regs.frame (r : Regs) (vector : Nat) : List (BitVec 32) :=
  [r.ebx, r.ecx, r.edx, r.esi, r.edi, r.ebp, r.eax, r.ds.setWidth 32, r.es.setWidth 32,
    r.fs.setWidth 32, r.gs.setWidth 32, ~~~BitVec.ofNat 32 vector, r.eip, r.cs.setWidth 32, r.eflags]

theorem gate_packGate (base : BitVec 32) (seg : BitVec 16) :
    (packGate gateInterrupt base 0 seg).p = 1 ∧ (packGate gateInterrupt base 0 seg).s = 0 ∧
      (packGate gateInterrupt base 0 seg).type = 0xe := by
  refine ⟨?_, ?_, ?_⟩ <;> refine BitVec.eq_of_getLsbD_eq fun i hi => ?_ <;>
    simp only [DescStruct.p, DescStruct.s, DescStruct.type, packGate, gateInterrupt,
      BitVec.getLsbD_extractLsb', BitVec.getLsbD_or, BitVec.getLsbD_and, BitVec.getLsbD_shiftLeft,
      BitVec.getLsbD_setWidth] <;>
    interval_cases i <;> simp

theorem stubAt_interruptStub (text : Text) {k : Nat} (small : k < nrVectors - firstExternalVector) :
    stubAt text (interruptStub text k) = some k := by
  simp only [nrVectors, firstExternalVector] at small
  have distance : (interruptStub text k - text.irqEntriesStart).toNat = k / 7 * 32 + k % 7 * 4 := by
    rw [interruptStub, BitVec.add_comm, BitVec.add_sub_cancel, BitVec.toNat_ofNat]
    exact Nat.mod_eq_of_lt (by omega)
  have index : (k / 7 * 32 + k % 7 * 4) / 32 * 7 + (k / 7 * 32 + k % 7 * 4) % 32 / 4 = k := by omega
  rw [stubAt, distance, index,
    if_pos ⟨by omega, by omega, by simp only [nrVectors, firstExternalVector]; omega⟩]

theorem commonInterrupt_eq (idt : m.idt = bootIdt text) (external : External v) :
    ∃ r : Regs, r.cs = kernelCs ∧
      m.commonInterrupt text v = some { m.setWords (m.regs.frame v ++ m.words) with regs := r } := by
  have gate := gate_packGate (interruptStub text (v - firstExternalVector)) kernelCs
  have table := bootIdt_external text external
  obtain ⟨low, high, -⟩ := external
  have stub : stubAt text (packGate gateInterrupt (interruptStub text (v - firstExternalVector)) 0
      kernelCs).offset = some (v - firstExternalVector) := by
    rw [offset_packGate]
    exact stubAt_interruptStub text (by omega)
  have vector : ~~~BitVec.ofNat 32 v + 0x80 + (-0x80) = ~~~BitVec.ofNat 32 v := by
    rw [BitVec.add_assoc]
    simp
  rw [Cpu.commonInterrupt, Cpu.deliver, idt, table, if_pos gate, Option.bind_some, Cpu.pushVector]
  simp only [Cpu.push, Cpu.setWords, stub, Option.map_some, Cpu.adjustVector, Cpu.saveAll, Cpu.words,
    Function.update_self, Function.update_idem, List.modifyHead_cons, Nat.add_sub_cancel' low, vector,
    Regs.frame, List.cons_append, List.nil_append]
  exact ⟨_, selector_packGate _ _ _ _, rfl⟩

/-- The interrupted code is the kernel's. -/
def Regs.KernelMode (r : Regs) : Prop := r.eflags &&& x86EflagsVm = 0 ∧ r.cs &&& 3 = 0

/-- The words that the return looks at do not ask for a reschedule. -/
def ThreadInfo.NoResched (ti : ThreadInfo) : Prop := ti.addrLimit ≠ 0 ∨ ti.status &&& tifNeedResched = 0

theorem setWidth_setWidth_16 (x : BitVec 16) : (x.setWidth 32).setWidth 16 = x := by
  rw [BitVec.setWidth_setWidth_of_le x (by decide)]
  exact BitVec.setWidth_eq x

theorem restoreRegs_frame {r : Regs} {rest : List (BitVec 32)} (words : m.words = r.frame v ++ rest) :
    m.restoreRegs = some { m.setWords rest with regs := r } := by
  rw [Cpu.restoreRegs, words]
  simp only [Regs.frame, List.cons_append, List.nil_append, setWidth_setWidth_16]

theorem movb_kernelMode {r : Regs} (kernel : r.KernelMode) (high : BitVec 32) :
    movb r.eflags (r.cs.setWidth 32) &&& (x86EflagsVm ||| segmentRplMask) = 0 ∧
      movb (movbHigh r.eflags high) (r.cs.setWidth 32) &&&
        (x86EflagsVm ||| segmentTiMask <<< 8 ||| segmentRplMask) ≠ segmentLdt <<< 8 ||| userRpl := by
  obtain ⟨vm, rpl⟩ := kernel
  have vm17 : r.eflags[17] = false := by
    have bit := congrArg (·.getLsbD 17) vm
    simpa [x86EflagsVm] using bit
  have rpl0 : r.cs[0] = false := by
    have bit := congrArg (·.getLsbD 0) rpl
    simpa using bit
  have rpl1 : r.cs[1] = false := by
    have bit := congrArg (·.getLsbD 1) rpl
    simpa using bit
  constructor
  · refine BitVec.eq_of_getLsbD_eq fun i hi => ?_
    simp only [movb, x86EflagsVm, segmentRplMask, BitVec.getLsbD_and, BitVec.getLsbD_or,
      BitVec.getLsbD_setWidth]
    interval_cases i <;> simp [vm17, rpl0, rpl1]
  · intro same
    have bit := congrArg (·.getLsbD 0) same
    simp [movb, x86EflagsVm, segmentTiMask, segmentRplMask, segmentLdt, userRpl, rpl0] at bit

theorem retFromIntr_frame {r : Regs} {rest : List (BitVec 32)} (words : m.words = r.frame v ++ rest)
    (kernel : r.KernelMode) (quiet : (m.threadInfo m.current).NoResched) :
    m.retFromIntr = some { m.setWords rest with regs := r } := by
  have eflags : m.words[14]? = some r.eflags := by rw [words]; rfl
  have cs : m.words[13]? = some (r.cs.setWidth 32) := by rw [words]; rfl
  obtain ⟨kernelSpace, noLdt⟩ := movb_kernelMode kernel ((m.words[16]?).getD 0)
  have restored : m.restoreAll = some { m.setWords rest with regs := r } := by
    rw [Cpu.restoreAll, eflags, cs, Option.bind_some, Option.bind_some]
    exact (if_neg noLdt).trans (restoreRegs_frame words)
  rw [Cpu.retFromIntr, eflags, cs, Option.bind_some, Option.bind_some, kernelSpace, if_pos (by decide)]
  obtain limit | status := quiet
  · exact (if_pos limit).trans restored
  · refine (ite_eq_left_iff.2 fun _ => ?_).trans restored
    exact (if_pos status).trans rfl

/-- The number of interrupts that a `preempt_count` counts. -/
def hardirqs (preemptCount : BitVec 32) : Nat := (preemptCount.extractLsb' 16 10).toNat

/-- What the path relies on in the `thread_info` of the interrupt stack. -/
structure ThreadInfo.Agrees (ti ti' : ThreadInfo) : Prop where
  status : ti'.status = ti.status
  addrLimit : ti'.addrLimit = ti.addrLimit
  counted : hardirqs ti'.preemptCount = hardirqs ti.preemptCount

/-- The stacks that hold something of the interrupted code: the interrupt stack is
free unless it is the one in use. -/
def Cpu.InUse (m : Cpu) (c : Context) : Prop := c = m.current ∨ c = .task

/-- Everything that the interrupted code can see but its registers. -/
structure Kept (m m' : Cpu) : Prop where
  current : m'.current = m.current
  stack : ∀ c, m.InUse c → m'.stack c = m.stack c
  threadInfo : ∀ c, m.InUse c → m'.threadInfo c = m.threadInfo c
  hardirq : (m.threadInfo .hardirq).Agrees (m'.threadInfo .hardirq)
  top : m'.top = m.top
  idt : m'.idt = m.idt
  vectorIrq : m'.vectorIrq = m.vectorIrq
  irqRegs : m'.irqRegs = m.irqRegs

/-- The tables are set up, nobody asks for a reschedule, and `d` more interrupts can
be counted. -/
structure Armed (text : Text) (d : Nat) (m : Cpu) : Prop where
  idt : m.idt = bootIdt text
  vectorIrq : m.vectorIrq = initVectorIrq
  quiet : ∀ c, (m.threadInfo c).NoResched
  counting : 1 ≤ hardirqs (m.threadInfo .hardirq).preemptCount
  room : hardirqs (m.threadInfo .hardirq).preemptCount + d < 1024

/-- The handlers that were called, each of them inside an interrupt. -/
def Logged (m m' : Cpu) (irqs : List Nat) : Prop :=
  ∃ calls, m'.calls = m.calls ++ calls ∧ calls.map Prod.fst = irqs ∧ ∀ call ∈ calls, inInterrupt call.2

theorem ThreadInfo.Agrees.refl (ti : ThreadInfo) : ti.Agrees ti := ⟨rfl, rfl, rfl⟩

theorem ThreadInfo.Agrees.trans {ti₁ ti₂ ti₃ : ThreadInfo} (first : ti₁.Agrees ti₂)
    (second : ti₂.Agrees ti₃) : ti₁.Agrees ti₃ :=
  ⟨second.status.trans first.status, second.addrLimit.trans first.addrLimit,
    second.counted.trans first.counted⟩

theorem ThreadInfo.Agrees.noResched {ti ti' : ThreadInfo} (agrees : ti.Agrees ti')
    (quiet : ti.NoResched) : ti'.NoResched := by
  rw [ThreadInfo.NoResched] at quiet ⊢
  rwa [agrees.status, agrees.addrLimit]

theorem Kept.refl (m : Cpu) : Kept m m :=
  ⟨rfl, fun _ _ => rfl, fun _ _ => rfl, .refl _, rfl, rfl, rfl, rfl⟩

theorem Kept.inUse (kept : Kept m m') {c : Context} (inUse : m.InUse c) : m'.InUse c := by
  rwa [Cpu.InUse, kept.current]

theorem Kept.trans {m₁ m₂ m₃ : Cpu} (first : Kept m₁ m₂) (second : Kept m₂ m₃) : Kept m₁ m₃ where
  current := second.current.trans first.current
  stack c inUse := (second.stack c (first.inUse inUse)).trans (first.stack c inUse)
  threadInfo c inUse := (second.threadInfo c (first.inUse inUse)).trans (first.threadInfo c inUse)
  hardirq := first.hardirq.trans second.hardirq
  top := second.top.trans first.top
  idt := second.idt.trans first.idt
  vectorIrq := second.vectorIrq.trans first.vectorIrq
  irqRegs := second.irqRegs.trans first.irqRegs

theorem Kept.words (kept : Kept m m') : m'.words = m.words := by
  rw [Cpu.words, Cpu.words, kept.current]
  exact kept.stack m.current (.inl rfl)

theorem Armed.of_agrees (armed : Armed text d m) (idt : m'.idt = m.idt)
    (vectorIrq : m'.vectorIrq = m.vectorIrq) (task : m'.threadInfo .task = m.threadInfo .task)
    (hardirq : (m.threadInfo .hardirq).Agrees (m'.threadInfo .hardirq)) : Armed text d m' where
  idt := idt.trans armed.idt
  vectorIrq := vectorIrq.trans armed.vectorIrq
  quiet c := by
    cases c with
    | task =>
      rw [task]
      exact armed.quiet .task
    | hardirq => exact hardirq.noResched (armed.quiet .hardirq)
  counting := by
    rw [hardirq.counted]
    exact armed.counting
  room := by
    rw [hardirq.counted]
    exact armed.room

theorem Armed.of_kept (armed : Armed text d m) (kept : Kept m m') : Armed text d m' :=
  armed.of_agrees kept.idt kept.vectorIrq (kept.threadInfo .task (.inr rfl)) kept.hardirq

theorem Armed.mono {d' : Nat} (armed : Armed text d m) (le : d' ≤ d) : Armed text d' m :=
  { armed with room := by have := armed.room; omega }

theorem Logged.refl (m : Cpu) : Logged m m [] := ⟨[], by simp, rfl, by simp⟩

theorem Logged.trans {m₁ m₂ m₃ : Cpu} {irqs irqs' : List Nat} (first : Logged m₁ m₂ irqs)
    (second : Logged m₂ m₃ irqs') : Logged m₁ m₃ (irqs ++ irqs') := by
  obtain ⟨calls, new, lines, inside⟩ := first
  obtain ⟨calls', new', lines', inside'⟩ := second
  refine ⟨calls ++ calls', by rw [new', new, List.append_assoc], by rw [List.map_append, lines, lines'],
    fun call mem => ?_⟩
  obtain mem | mem := List.mem_append.1 mem
  · exact inside call mem
  · exact inside' call mem

/-- The processor inside a C function. -/
def Cpu.inCall (f : CFrame) (m : Cpu) : Cpu :=
  m.setWords (f.locals ++ m.regs.ebx :: m.regs.esi :: m.regs.edi :: m.regs.ebp :: f.returnAddress :: m.words)

/-- A body that brings back its own stack returns to the caller, with the registers
that the caller expects. -/
theorem call_eq {f : CFrame} {body : Cpu → Option Cpu} (run : body (m.inCall f) = some m')
    (kept : Kept (m.inCall f) m') :
    ∃ r : Regs, r.ebx = m.regs.ebx ∧ m.call f body = some { m'.setWords m.words with regs := r } := by
  have words : m'.words.drop f.locals.length =
      m.regs.ebx :: m.regs.esi :: m.regs.edi :: m.regs.ebp :: f.returnAddress :: m.words := by
    rw [kept.words, Cpu.inCall, Cpu.words_setWords, List.drop_left]
  rw [Cpu.inCall] at run
  simp only [Cpu.call, Cpu.push, Cpu.setWords_setWords, Cpu.words_setWords, run, Option.bind_some, words,
    if_true]
  refine ⟨_, ?_, rfl⟩
  rfl

theorem Kept.of_setWords {words : List (BitVec 32)} {r : Regs} (kept : Kept (m.setWords words) m') :
    Kept m { m'.setWords m.words with regs := r } := by
  have current : m'.current = m.current := kept.current
  refine { kept with stack := fun c inUse => ?_ }
  by_cases here : c = m.current
  · simp [Cpu.setWords, Cpu.words, current, here]
  · simpa [Cpu.setWords, current, here] using kept.stack c inUse

/-- Code that is interrupted and serves the given lines. -/
def Serves (text : Text) (d : Nat) (irqs : List Nat) (code : Cpu → Option Cpu) : Prop :=
  ∀ m : Cpu, Armed text d m → m.regs.cs &&& 3 = 0 →
    ∃ m', code m = some m' ∧ Kept m m' ∧ Logged m m' irqs

theorem Serves.call {irqs : List Nat} {body : Cpu → Option Cpu} (serves : Serves text d irqs body)
    (f : CFrame) (armed : Armed text d m) (rpl : m.regs.cs &&& 3 = 0) :
    ∃ m', m.call f body = some m' ∧ Kept m m' ∧ Logged m m' irqs ∧ m'.regs.ebx = m.regs.ebx := by
  obtain ⟨m₁, run, kept, logged⟩ := serves (m.inCall f) { armed with } rpl
  obtain ⟨r, ebx, returned⟩ := call_eq run kept
  exact ⟨_, returned, kept.of_setWords, logged, ebx⟩

theorem inInterrupt_of_hardirqs {count : BitVec 32} (counted : 1 ≤ hardirqs count) :
    inInterrupt count = true := by
  have bits : (count &&& irqCountMask).extractLsb' 16 10 = count.extractLsb' 16 10 := by
    refine BitVec.eq_of_getLsbD_eq fun i hi => ?_
    simp only [BitVec.getLsbD_extractLsb', BitVec.getLsbD_and, irqCountMask]
    interval_cases i <;> simp
  rw [inInterrupt, bne_iff_ne]
  intro zero
  rw [hardirqs, ← bits, zero] at counted
  exact absurd counted (by decide)

theorem hardirqs_add {count : BitVec 32} (room : hardirqs count + 1 < 1024) :
    hardirqs (count + hardirqOffset) = hardirqs count + 1 := by
  have offset : hardirqOffset.toNat = 65536 := rfl
  simp only [hardirqs, BitVec.extractLsb'_toNat, BitVec.toNat_add, offset,
    Nat.shiftRight_eq_div_pow] at room ⊢
  omega

theorem hardirqs_merge (irqctx curctx : BitVec 32) :
    hardirqs (irqctx &&& ~~~softirqMask ||| curctx &&& softirqMask) = hardirqs irqctx := by
  refine congrArg BitVec.toNat (BitVec.eq_of_getLsbD_eq fun i hi => ?_)
  simp only [BitVec.getLsbD_extractLsb', BitVec.getLsbD_and, BitVec.getLsbD_or, BitVec.getLsbD_not,
    softirqMask]
  interval_cases i <;> simp

theorem irqEnter_eq (m : Cpu) : m.irqEnter = m.addPreemptCount hardirqOffset := by
  have back : (m.addPreemptCount softirqDisableOffset).subPreemptCount softirqDisableOffset = m := by
    simp [Cpu.addPreemptCount, Cpu.subPreemptCount, Cpu.setPreemptCount, Cpu.preemptCount]
  rw [Cpu.irqEnter, back, ite_self]

theorem irqExit_eq (m : Cpu) : m.irqExit = m.subPreemptCount hardirqOffset := by
  have sum (count : BitVec 32) : count - (hardirqOffset - 1) - 1 = count - hardirqOffset := by
    rw [sub_sub, sub_add_cancel]
  simp only [Cpu.irqExit, Cpu.subPreemptCount, Cpu.setPreemptCount, Cpu.preemptCount,
    Function.update_self, Function.update_idem, sum]

theorem threadInfo_setPreemptCount (m : Cpu) (count : BitVec 32) :
    (m.setPreemptCount count).threadInfo m.current =
      { m.threadInfo m.current with preemptCount := count } :=
  Function.update_self ..

theorem threadInfo_setPreemptCount_of_ne {c : Context} (other : c ≠ m.current) (count : BitVec 32) :
    (m.setPreemptCount count).threadInfo c = m.threadInfo c :=
  Function.update_of_ne other ..

theorem noResched_setPreemptCount {c : Context} (quiet : (m.threadInfo c).NoResched) (count : BitVec 32) :
    ((m.setPreemptCount count).threadInfo c).NoResched := by
  by_cases here : c = m.current
  · rw [here] at quiet ⊢
    rw [threadInfo_setPreemptCount]
    exact quiet
  · rwa [threadInfo_setPreemptCount_of_ne here]

theorem Armed.irqEnter (armed : Armed text (d + 1) m) : Armed text d m.irqEnter := by
  have room := armed.room
  have counting := armed.counting
  have count : hardirqs (m.irqEnter.threadInfo .hardirq).preemptCount =
        hardirqs (m.threadInfo .hardirq).preemptCount ∨
      hardirqs (m.irqEnter.threadInfo .hardirq).preemptCount =
        hardirqs (m.threadInfo .hardirq).preemptCount + 1 := by
    rw [irqEnter_eq, Cpu.addPreemptCount]
    by_cases h : .hardirq = m.current
    · right
      rw [h, threadInfo_setPreemptCount, Cpu.preemptCount, ← h]
      exact hardirqs_add (by omega)
    · rw [threadInfo_setPreemptCount_of_ne h]
      exact .inl rfl
  refine ⟨?_, ?_, fun c => ?_, by omega, by omega⟩
  · rw [irqEnter_eq]
    exact armed.idt
  · rw [irqEnter_eq]
    exact armed.vectorIrq
  · rw [irqEnter_eq]
    exact noResched_setPreemptCount (armed.quiet c) _

theorem Kept.irqExit {regs : BitVec 32} (kept : Kept (Cpu.irqEnter { m with irqRegs := regs }) m') :
    Kept m { m'.irqExit with irqRegs := m.irqRegs } := by
  rw [irqEnter_eq] at kept
  rw [irqExit_eq]
  have current : m'.current = m.current := kept.current
  have back (info : m'.threadInfo m.current =
      { m.threadInfo m.current with preemptCount := m.preemptCount + hardirqOffset }) :
      (m'.subPreemptCount hardirqOffset).threadInfo m.current = m.threadInfo m.current := by
    rw [Cpu.subPreemptCount, Cpu.preemptCount, ← current, threadInfo_setPreemptCount, current, info]
    simp [Cpu.preemptCount]
  have other {c : Context} (h : c ≠ m.current) :
      (m'.subPreemptCount hardirqOffset).threadInfo c = m'.threadInfo c :=
    threadInfo_setPreemptCount_of_ne (by rwa [current]) _
  have entered {c : Context} (h : c ≠ m.current) :
      (Cpu.addPreemptCount { m with irqRegs := regs } hardirqOffset).threadInfo c = m.threadInfo c :=
    threadInfo_setPreemptCount_of_ne h _
  have inUse : Cpu.InUse (Cpu.addPreemptCount { m with irqRegs := regs } hardirqOffset) m.current := .inl rfl
  have info := back ((kept.threadInfo m.current inUse).trans (threadInfo_setPreemptCount _ _))
  refine { kept with threadInfo := fun c inUse => ?_, hardirq := ?_, irqRegs := rfl }
  · by_cases here : c = m.current
    · rw [here]
      exact info
    · exact (other here).trans ((kept.threadInfo c inUse).trans (entered here))
  · by_cases here : .hardirq = m.current
    · rw [here]
      exact info ▸ .refl _
    · have agrees := kept.hardirq
      rw [entered here, ← other here] at agrees
      exact agrees

theorem agrees_switchToIrqStack (m : Cpu) :
    (m.threadInfo .hardirq).Agrees (m.switchToIrqStack.threadInfo .hardirq) :=
  ⟨rfl, rfl, hardirqs_merge _ _⟩

theorem Kept.switchBack (task : m.current = .task) (kept : Kept m.switchToIrqStack m') :
    Kept m { m' with current := m.current } := by
  have ofTask {c : Context} (inUse : m.InUse c) : c = .task := inUse.elim (·.trans task) id
  refine ⟨rfl, fun c inUse => ?_, fun c inUse => ?_, (agrees_switchToIrqStack m).trans kept.hardirq,
    kept.top, kept.idt, kept.vectorIrq, kept.irqRegs⟩
  · rw [ofTask inUse]
    exact kept.stack .task (.inr rfl)
  · rw [ofTask inUse]
    exact kept.threadInfo .task (.inr rfl)

/-- The handler runs on the interrupt stack, whatever stack the interrupt found. -/
theorem executeOnIrqStack_eq {irqs : List Nat} {handler : Cpu → Option Cpu}
    (serves : ∀ m, Armed text d m → m.current = .hardirq → m.regs.cs &&& 3 = 0 →
      ∃ m', handler m = some m' ∧ Kept m m' ∧ Logged m m' irqs ∧ m'.regs.ebx = m.regs.ebx)
    (armed : Armed text d m) (rpl : m.regs.cs &&& 3 = 0) :
    ∃ m', m.executeOnIrqStack handler = some m' ∧ Kept m m' ∧ Logged m m' irqs := by
  rw [Cpu.executeOnIrqStack]
  cases h : m.current with
  | hardirq =>
    obtain ⟨m', run, kept, logged, -⟩ := serves m armed h rpl
    rw [if_pos rfl]
    exact ⟨m', run, kept, logged⟩
  | task =>
    have armed' : Armed text d m.switchToIrqStack :=
      armed.of_agrees rfl rfl rfl (agrees_switchToIrqStack m)
    obtain ⟨m', run, kept, logged, ebx⟩ := serves m.switchToIrqStack armed' rfl rpl
    have back := kept.switchBack h
    have esp : m'.esp .task = m.esp .task := by
      have stack : m'.stack .task = m.stack .task := back.stack .task (.inr rfl)
      rw [Cpu.esp, Cpu.esp, stack, kept.top]
      rfl
    have ebx' : m'.regs.ebx = m'.esp .task := by
      rw [ebx, esp, Cpu.switchToIrqStack, h]
    rw [if_neg (by decide), run, Option.bind_some, if_pos ebx', ← h]
    exact ⟨_, rfl, back, logged⟩

theorem Logged.cons {irqs : List Nat} {irq : Nat} {count : BitVec 32} (inside : inInterrupt count)
    (logged : Logged { m with calls := m.calls ++ [(irq, count)] } m' irqs) : Logged m m' (irq :: irqs) := by
  obtain ⟨calls, new, lines, inside'⟩ := logged
  refine ⟨(irq, count) :: calls, by rw [new, List.append_assoc, List.singleton_append],
    by rw [List.map_cons, lines], fun call mem => ?_⟩
  obtain rfl | mem := List.mem_cons.1 mem
  · exact inside
  · exact inside' call mem

theorem handleIrq_eq {irqs : List Nat} {body : Cpu → Option Cpu} (serves : Serves text d irqs body)
    (f : CFrame) (armed : Armed text d m) (rpl : m.regs.cs &&& 3 = 0) (irq : BitVec 32) :
    ∃ m', m.handleIrq (Cpu.call f body) irq = some m' ∧ Kept m m' ∧
      Logged m m' (if irq.toNat < nrIrqs then irq.toNat :: irqs else []) := by
  rw [Cpu.handleIrq]
  split
  · refine executeOnIrqStack_eq (fun m₁ armed₁ hardirq rpl₁ => ?_) armed rpl
    have inside : inInterrupt m₁.preemptCount := by
      rw [Cpu.preemptCount, hardirq]
      exact inInterrupt_of_hardirqs armed₁.counting
    obtain ⟨m', run, kept, logged, ebx⟩ := serves.call f
      (m := { m₁ with calls := m₁.calls ++ [(irq.toNat, m₁.preemptCount)] }) { armed₁ with } rpl₁
    exact ⟨m', run, { kept with }, logged.cons inside, ebx⟩
  · exact ⟨m, rfl, .refl m, .refl m⟩

/-- The line of a vector. -/
def lineOf (v : Nat) : Option Nat :=
  if irq0Vector ≤ v ∧ v < irq0Vector + nrIrqs then some (v - irq0Vector) else none

theorem initVectorIrq_eq (v : Nat) : initVectorIrq v = ((lineOf v).map (BitVec.ofNat 32)).getD (-1) := by
  have table := foldl_update_range (fun v => BitVec.ofNat 32 (v - irq0Vector)) (fun _ => True) irq0Vector
    nrIrqs (fun _ => -1) v
  have vectors : List.range' irq0Vector nrIrqs = (List.range' 0 nrIrqs).map (irq0Vector + ·) := by
    rw [List.map_add_range', Nat.add_zero]
  rw [vectors, List.foldl_map] at table
  simp only [if_true, Nat.add_sub_cancel_left, and_true] at table
  rw [initVectorIrq, lineOf, table]
  split <;> rfl

/-- The lines that are served when the handler of a vector serves the given ones. -/
def served (v : Nat) (irqs : List Nat) : List Nat := ((lineOf v).map (· :: irqs)).getD []

theorem served_eq (v : Nat) (irqs : List Nat) :
    (if (initVectorIrq v).toNat < nrIrqs then (initVectorIrq v).toNat :: irqs else []) = served v irqs := by
  rw [initVectorIrq_eq, served, lineOf]
  by_cases device : irq0Vector ≤ v ∧ v < irq0Vector + nrIrqs
  · have small : v - irq0Vector < nrIrqs := by omega
    have number : (BitVec.ofNat 32 (v - irq0Vector)).toNat = v - irq0Vector := by
      rw [BitVec.toNat_ofNat]
      exact Nat.mod_eq_of_lt (by rw [nrIrqs] at small; omega)
    rw [if_pos device, Option.map_some, Option.getD_some, number, if_pos small, Option.map_some,
      Option.getD_some]
  · rw [if_neg device]
    rfl

theorem serveVector_eq {irqs : List Nat} {body : Cpu → Option Cpu} (serves : Serves text d irqs body)
    (f : CFrame) (regs : BitVec 32) (armed : Armed text (d + 1) m) (rpl : m.regs.cs &&& 3 = 0) (v : Nat) :
    ∃ m', m.serveVector (Cpu.call f body) regs v = some m' ∧ Kept m m' ∧ Logged m m' (served v irqs) := by
  have entered := irqEnter_eq { m with irqRegs := regs }
  have armed₁ : Armed text d (Cpu.irqEnter { m with irqRegs := regs }) := Armed.irqEnter { armed with }
  obtain ⟨m', run, kept, logged⟩ := handleIrq_eq serves f armed₁ (by rw [entered]; exact rpl)
    (initVectorIrq v)
  rw [served_eq, entered] at logged
  refine ⟨{ m'.irqExit with irqRegs := m.irqRegs }, ?_, kept.irqExit, ?_⟩
  · rw [← armed₁.vectorIrq] at run
    exact congrArg (Option.map _) run
  · rw [irqExit_eq]
    exact logged

/-- `do_IRQ` finds the vector in the frame and leaves the frame as it was. -/
theorem doIRQ_eq {irqs : List Nat} {body : Cpu → Option Cpu} (serves : Serves text d irqs body)
    (f g : CFrame) (armed : Armed text (d + 1) m) (rpl : m.regs.cs &&& 3 = 0) (small : v < nrVectors)
    (origAx : m.words[11]? = some (~~~BitVec.ofNat 32 v)) :
    ∃ m', m.doIRQ f (Cpu.call g body) = some m' ∧ Kept m m' ∧ Logged m m' (served v irqs) := by
  have vector : (~~~ ~~~BitVec.ofNat 32 v).toNat = v := by
    rw [BitVec.not_not, BitVec.toNat_ofNat]
    exact Nat.mod_eq_of_lt (by rw [nrVectors] at small; omega)
  obtain ⟨m', run, kept, logged⟩ := serveVector_eq serves g m.regs.eax
    (m := m.inCall f) { armed with } rpl v
  obtain ⟨r, -, returned⟩ := call_eq run kept
  rw [Cpu.doIRQ, origAx, Option.bind_some, vector]
  exact ⟨_, returned, kept.of_setWords, logged⟩

mutual

/-- The lines whose handlers run, in the order in which they begin. -/
def Interrupt.irqs : Interrupt → List Nat
  | .take vector _ _ code => served vector code.irqs

def Code.irqs : Code → List Nat
  | .done => []
  | .point _ _ _ interrupt rest => interrupt.irqs ++ rest.irqs

end

mutual

/-- How many interrupts are under way at once. -/
def Interrupt.depth : Interrupt → Nat
  | .take _ _ _ code => code.depth + 1

def Code.depth : Code → Nat
  | .done => 0
  | .point _ _ _ interrupt rest => max interrupt.depth rest.depth

end

mutual

/-- The vectors are those of devices, and handlers do not run in virtual 8086 mode. -/
def Interrupt.Valid : Interrupt → Prop
  | .take vector _ _ code => External vector ∧ code.Valid

def Code.Valid : Code → Prop
  | .done => True
  | .point _ _ eflags interrupt rest => eflags &&& x86EflagsVm = 0 ∧ interrupt.Valid ∧ rest.Valid

end

theorem take_eq {code : Code} (serves : Serves text d code.irqs (code.run text)) (external : External v)
    (f g : CFrame) (armed : Armed text (d + 1) m) (kernel : m.regs.KernelMode) :
    ∃ m', (Interrupt.take v f g code).run text m = some m' ∧ Kept m m' ∧ m'.regs = m.regs ∧
      Logged m m' (served v code.irqs) := by
  obtain ⟨r, cs, entered⟩ := commonInterrupt_eq (m := m) armed.idt external
  have framed : Cpu.words { m.setWords (m.regs.frame v ++ m.words) with regs := r } =
      m.regs.frame v ++ m.words :=
    Cpu.words_setWords m (m.regs.frame v ++ m.words)
  obtain ⟨m₁, run, kept, logged⟩ := doIRQ_eq serves f g
    (m := { m.setWords (m.regs.frame v ++ m.words) with regs := r }) { armed with }
    (by rw [cs]; decide) external.2.1 (by rw [framed]; rfl)
  have returned : m₁.retFromIntr = some { m₁.setWords m.words with regs := m.regs } := by
    refine retFromIntr_frame (kept.words.trans framed) kernel ?_
    have current : m₁.current = m.current := kept.current
    have info : m₁.threadInfo m.current = m.threadInfo m.current := kept.threadInfo m.current (.inl rfl)
    rw [current, info]
    exact armed.quiet m.current
  rw [Interrupt.run, entered, Option.bind_some, run, Option.bind_some, returned]
  exact ⟨_, rfl, Kept.of_setWords { kept with }, rfl, logged⟩

mutual

theorem Interrupt.run_eq : ∀ (i : Interrupt) (m : Cpu), Armed text i.depth m → m.regs.KernelMode →
    i.Valid → ∃ m', i.run text m = some m' ∧ Kept m m' ∧ m'.regs = m.regs ∧ Logged m m' i.irqs
  | .take vector f g code, m, armed, kernel, valid => by
    rw [Interrupt.Valid] at valid
    rw [Interrupt.depth] at armed
    rw [Interrupt.irqs]
    exact take_eq (Code.run_eq code valid.2) valid.1 f g armed kernel

theorem Code.run_eq : ∀ code : Code, code.Valid → Serves text code.depth code.irqs (code.run text)
  | .done, _ => fun m _ _ => ⟨m, by rw [Code.run], .refl m, by rw [Code.irqs]; exact .refl m⟩
  | .point gprs eip eflags interrupt rest, valid => fun m armed rpl => by
    rw [Code.Valid] at valid
    obtain ⟨vm, interruptValid, restValid⟩ := valid
    rw [Code.depth] at armed
    obtain ⟨m₁, run, kept, regs, logged⟩ := Interrupt.run_eq interrupt
      { m with regs := { m.regs with toGprs := gprs, eip := eip, eflags := eflags } }
      { armed.mono (le_max_left _ _) with } ⟨vm, rpl⟩ interruptValid
    obtain ⟨m₂, run', kept', logged'⟩ := Code.run_eq rest restValid m₁
      ((armed.mono (le_max_right _ _)).of_kept { kept with }) (by rw [regs]; exact rpl)
    refine ⟨m₂, by rw [Code.run, run, Option.bind_some, run'], Kept.trans { kept with } kept', ?_⟩
    rw [Code.irqs]
    exact Logged.trans logged logged'

end

theorem armed_bootCpu (text : Text) (regs : Regs) (task : BitVec 32) (stack : List (BitVec 32))
    (top : Context → BitVec 32) : Armed text 1022 (bootCpu text regs task stack top) := by
  have hardirq : (bootCpu text regs task stack top).threadInfo .hardirq = irqCtxInit 0 := rfl
  have task : (bootCpu text regs task stack top).threadInfo .task = initThreadInfo task := rfl
  have one : hardirqs (irqCtxInit 0).preemptCount = 1 := by decide
  refine ⟨by rw [bootCpu], by rw [bootCpu], fun c => ?_, by rw [hardirq, one], by rw [hardirq, one]; omega⟩
  cases c with
  | task =>
    rw [task]
    exact .inr (by simp [initThreadInfo])
  | hardirq =>
    rw [hardirq]
    exact .inr (by simp [irqCtxInit])

/-- An interrupt of the kernel returns to where it arrived.  Registers, stacks with
their pointers and `thread_info` of the interrupted code are as they were, and more
interrupts may follow.  The handlers that ran are those of the lines of the vectors, in order, and
each of them was in an interrupt.  All this whatever interrupts arrive in the
handlers, and in their handlers, as long as the count of them does not overflow. -/
theorem interrupts_transparent (text : Text) (i : Interrupt) (m : Cpu) (armed : Armed text i.depth m)
    (kernel : m.regs.KernelMode) (valid : i.Valid) :
    ∃ m', i.run text m = some m' ∧ m'.regs = m.regs ∧ m'.current = m.current ∧
      (∀ c, m.InUse c → m'.stack c = m.stack c ∧ m'.esp c = m.esp c ∧ m'.threadInfo c = m.threadInfo c) ∧
      m'.irqRegs = m.irqRegs ∧ (∀ d, Armed text d m → Armed text d m') ∧
      ∃ calls, m'.calls = m.calls ++ calls ∧ calls.map Prod.fst = i.irqs ∧
        ∀ call ∈ calls, inInterrupt call.2 := by
  obtain ⟨m', run, kept, regs, logged⟩ := i.run_eq m armed kernel valid
  exact ⟨m', run, regs, kept.current, fun c inUse =>
    ⟨kept.stack c inUse, by rw [Cpu.esp, Cpu.esp, kept.top, kept.stack c inUse], kept.threadInfo c inUse⟩,
    kept.irqRegs, fun d armed => armed.of_kept kept, logged⟩

/-- The keyboard interrupts the handler of the timer and is itself interrupted by a
vector without a line. -/
def timerKeyboard (f : CFrame) (gprs : Gprs) : Interrupt :=
  .take 0x30 f f (.point gprs 0xc0100100 x86EflagsIf
    (.take 0x31 f f (.point gprs 0xc0100200 x86EflagsIf (.take 0x90 f f .done) .done)) .done)

theorem interrupts_transparent_keyboard :
    let text : Text := ⟨0xc0100000, 0xc0100010, 0xc0100020, 0xc0100030, 0xc0100040, 0xc0101000⟩
    let gprs : Gprs := ⟨1, 2, 3, 4, 5, 6, 7⟩
    let m := bootCpu text ⟨gprs, userDs, userDs, 0, 0, 0xc0102000, kernelCs, x86EflagsIf⟩ 0xc0200000
      [8, 9] fun _ => 0xc0300000
    let i := timerKeyboard ⟨0xc0103000, [10, 11, 12], 1, 2, 3, 0⟩ gprs
    i.depth = 3 ∧ ∃ m', i.run text m = some m' ∧ m'.regs = m.regs ∧ m'.stack .task = [8, 9] ∧
      m'.calls.map Prod.fst = [0, 1] := by
  intro text gprs m i
  have depth : i.depth = 3 := by
    simp [i, timerKeyboard, Interrupt.depth, Code.depth]
  have lines : i.irqs = [0, 1] := by
    simp [i, timerKeyboard, Interrupt.irqs, Code.irqs, served, lineOf, irq0Vector, firstExternalVector,
      nrIrqs]
  have valid : i.Valid := by
    simp [i, timerKeyboard, Interrupt.Valid, Code.Valid, External, firstExternalVector, nrVectors,
      syscallVector, x86EflagsIf, x86EflagsVm]
  have kernel : m.regs.KernelMode := by
    simp [m, bootCpu, Regs.KernelMode, kernelCs, x86EflagsIf, x86EflagsVm]
  have armed : Armed text i.depth m := (armed_bootCpu text _ _ _ _).mono (by omega)
  obtain ⟨m', run, regs, -, kept, -, -, calls, new, served, -⟩ :=
    interrupts_transparent text i m armed kernel valid
  refine ⟨depth, m', run, regs, (kept .task (.inr rfl)).1, ?_⟩
  rw [new, List.map_append, served, lines]
  rfl

end XcKernel.Irq
