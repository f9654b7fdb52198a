import XcKernel.Lib.Flags

/-!
# Interrupt lines

The generic interrupt code of `kernel/irq/`: `chip.c`, `manage.c`, `handle.c` and
the flag words of `internals.h` and `settings.h`.  A chip is what its callbacks do
to the hardware, whose states are a type `H`; the callbacks do not touch the
descriptor.  The lock of a descriptor is held with interrupts off, so that each
function is one step; a running handler is the only place where others come in.
Threads, statistics and affinity are left out.
-/

namespace XcKernel.Irq

open Flags

/-- `irq_handler_t` -/
inductive Handler where
  | own (id : Nat)
  | defaultPrimary
  | nestedPrimary
  deriving DecidableEq, Repr

/-- `struct irqaction`; its `next` is the order of the chain. -/
structure Irqaction where
  handler : Handler
  flags : BitVec 32
  threadFn : Option Handler
  threadFlags : BitVec 32
  threadMask : BitVec 32
  deriving DecidableEq, Repr

def irqfTriggerMask : BitVec 32 := 0x0000000f
def irqfShared : BitVec 32 := 0x00000080
def irqfPercpu : BitVec 32 := 0x00000400
def irqfNobalancing : BitVec 32 := 0x00000800
def irqfOneshot : BitVec 32 := 0x00002000
def irqfNoSuspend : BitVec 32 := 0x00004000
def irqfForceResume : BitVec 32 := 0x00008000
def irqfNoThread : BitVec 32 := 0x00010000

/-- `1 << IRQTF_FORCED_THREAD` -/
def irqtfForcedThread : BitVec 32 := 0x00000010

def irqTypeSenseMask : BitVec 32 := 0x0000000f
def irqTypeLevelMask : BitVec 32 := 0x0000000c
def irqLevel : BitVec 32 := 0x00000100
def irqPerCpu : BitVec 32 := 0x00000200
def irqNoprobe : BitVec 32 := 0x00000400
def irqNorequest : BitVec 32 := 0x00000800
def irqNoautoen : BitVec 32 := 0x00001000
def irqNoBalancing : BitVec 32 := 0x00002000
def irqNestedThread : BitVec 32 := 0x00008000
def irqNothread : BitVec 32 := 0x00010000

def irqdTriggerMask : BitVec 32 := 0x0000000f
def irqdNoBalancing : BitVec 32 := 0x00000400
def irqdPerCpu : BitVec 32 := 0x00000800
def irqdLevel : BitVec 32 := 0x00002000
def irqdIrqDisabled : BitVec 32 := 0x00010000
def irqdIrqMasked : BitVec 32 := 0x00020000
def irqdIrqInprogress : BitVec 32 := 0x00040000

def irqsAutodetect : BitVec 32 := 0x00000001
def irqsSpuriousDisabled : BitVec 32 := 0x00000002
def irqsPollInprogress : BitVec 32 := 0x00000008
def irqsOneshot : BitVec 32 := 0x00000020
def irqsReplay : BitVec 32 := 0x00000040
def irqsWaiting : BitVec 32 := 0x00000080
def irqsPending : BitVec 32 := 0x00000200
def irqsSuspended : BitVec 32 := 0x00000800

def irqchipSetTypeMasked : BitVec 32 := 0x00000001

/-- The callbacks of `struct irq_chip` that the modelled code makes, for chips that
have `irq_mask` and `irq_unmask`.  The number is `data->irq`. -/
structure Chip (H : Type) where
  irqStartup : Option (Nat → H → Int × H) := none
  irqEnable : Option (Nat → H → H) := none
  irqDisable : Option (Nat → H → H) := none
  irqAck : Option (Nat → H → H) := none
  irqMask : Nat → H → H
  irqMaskAck : Option (Nat → H → H) := none
  irqUnmask : Nat → H → H
  irqRetrigger : Option (Nat → H → Int × H) := none
  irqSetType : Option (Nat → BitVec 32 → H → Int × H) := none
  flags : BitVec 32 := 0

/-- `irq_flow_handler_t` -/
inductive FlowHandler where
  | handleBadIrq
  | handleLevelIrq
  deriving DecidableEq, Repr

/-- `struct irq_desc`.  The chip is `none` for `no_irq_chip`, and `state`, `status`
and `istate` are `state_use_accessors`, `status_use_accessors` and
`core_internal_state_do_not_mess_with_it`. -/
structure IrqDesc (H : Type) where
  chip : Option (Chip H)
  handleIrq : FlowHandler
  state : BitVec 32
  status : BitVec 32
  istate : BitVec 32
  depth : BitVec 32
  action : List Irqaction

variable {H : Type}

/-- `no_irq_chip`.  Its `irq_mask` and `irq_unmask` are `NULL` and never called. -/
def noIrqChip : Chip H where
  irqStartup := some fun _ h => (0, h)
  irqEnable := some fun _ h => h
  irqDisable := some fun _ h => h
  irqMask := fun _ h => h
  irqUnmask := fun _ h => h

/-- A descriptor, its number and the hardware. -/
structure Line (H : Type) where
  irq : Nat
  desc : IrqDesc H
  hw : H

namespace Line

/-- `desc->irq_data.chip` -/
def chip (l : Line H) : Chip H := l.desc.chip.getD noIrqChip

/-- A callback of the chip. -/
def call (l : Line H) (f : Nat → H → H) : Line H := { l with hw := f l.irq l.hw }

def irqdSet (l : Line H) (mask : BitVec 32) : Line H :=
  { l with desc := { l.desc with state := set l.desc.state mask } }

def irqdClear (l : Line H) (mask : BitVec 32) : Line H :=
  { l with desc := { l.desc with state := clear l.desc.state mask } }

/-- `desc->istate |= mask` -/
def istateSet (l : Line H) (mask : BitVec 32) : Line H :=
  { l with desc := { l.desc with istate := set l.desc.istate mask } }

/-- `desc->istate &= ~mask` -/
def istateClear (l : Line H) (mask : BitVec 32) : Line H :=
  { l with desc := { l.desc with istate := clear l.desc.istate mask } }

/-- `irq_settings_set_noprobe` and its siblings -/
def settingsSet (l : Line H) (mask : BitVec 32) : Line H :=
  { l with desc := { l.desc with status := set l.desc.status mask } }

/-- `irq_settings_clr_level` -/
def settingsClear (l : Line H) (mask : BitVec 32) : Line H :=
  { l with desc := { l.desc with status := clear l.desc.status mask } }

def setDepth (l : Line H) (depth : BitVec 32) : Line H :=
  { l with desc := { l.desc with depth := depth } }

/-- `irqd_irq_disabled` -/
def disabled (l : Line H) : Bool := test l.desc.state irqdIrqDisabled

/-- `irqd_irq_masked` -/
def masked (l : Line H) : Bool := test l.desc.state irqdIrqMasked

/-- `irqd_irq_inprogress` -/
def inprogress (l : Line H) : Bool := test l.desc.state irqdIrqInprogress

end Line

def irqStateClrDisabled (l : Line H) : Line H := l.irqdClear irqdIrqDisabled

def irqStateSetDisabled (l : Line H) : Line H := l.irqdSet irqdIrqDisabled

/-- `irq_state_clr_masked`, which sets the flag like its sibling -/
def irqStateClrMasked (l : Line H) : Line H := l.irqdSet irqdIrqMasked

def irqStateSetMasked (l : Line H) : Line H := l.irqdSet irqdIrqMasked

/-- `irq_wait_for_poll` on one processor -/
def irqWaitForPoll : Bool := false

def irqCheckPoll (l : Line H) : Bool :=
  if ¬ test l.desc.istate irqsPollInprogress then false else irqWaitForPoll

def maskAckIrq (l : Line H) : Line H :=
  let l := match l.chip.irqMaskAck with
    | some f => l.call f
    | none =>
      let l := l.call l.chip.irqMask
      match l.chip.irqAck with
      | some f => l.call f
      | none => l
  irqStateSetMasked l

def maskIrq (l : Line H) : Line H := irqStateSetMasked (l.call l.chip.irqMask)

def unmaskIrq (l : Line H) : Line H := irqStateClrMasked (l.call l.chip.irqUnmask)

def irqEnable (l : Line H) : Line H :=
  let l := irqStateClrDisabled l
  let l := match l.chip.irqEnable with
    | some f => l.call f
    | none => l.call l.chip.irqUnmask
  irqStateClrMasked l

def irqStartup (l : Line H) : Int × Line H :=
  let l := (irqStateClrDisabled l).setDepth 0
  match l.chip.irqStartup with
  | some f =>
    let r := f l.irq l.hw
    (r.1, irqStateClrMasked { l with hw := r.2 })
  | none => (0, irqEnable l)

def irqDisable (l : Line H) : Line H :=
  let l := irqStateSetDisabled l
  match l.chip.irqDisable with
  | some f => irqStateSetMasked (l.call f)
  | none => l

/-- `__irq_set_handler` -/
def irqSetHandlerCommon (handle : Option FlowHandler) (isChained : Bool) (l : Line H) : Line H :=
  if handle ≠ none ∧ l.desc.chip.isNone then l
  else
    let handle := handle.getD .handleBadIrq
    let l := if handle = .handleBadIrq then
        let l := if l.desc.chip.isSome then maskAckIrq l else l
        (irqStateSetDisabled l).setDepth 1
      else l
    let l := { l with desc := { l.desc with handleIrq := handle } }
    if handle ≠ .handleBadIrq ∧ isChained then
      (irqStartup (((l.settingsSet irqNoprobe).settingsSet irqNorequest).settingsSet irqNothread)).2
    else l

def irqSetChipAndHandlerName (chip : Chip H) (handle : FlowHandler) (l : Line H) : Line H :=
  irqSetHandlerCommon (some handle) false { l with desc := { l.desc with chip := some chip } }

def checkIrqResend (l : Line H) : Line H :=
  if test l.desc.status irqLevel then l
  else if test l.desc.istate irqsReplay then l
  else if test l.desc.istate irqsPending then
    let l := (l.istateClear irqsPending).istateSet irqsReplay
    match l.chip.irqRetrigger with
    | some f => { l with hw := (f l.irq l.hw).2 }
    | none => l
  else l

/-- The switch of `__irq_set_trigger` on the result of `irq_set_type`.  Its first case
falls through. -/
def storeTrigger (ret : Int) (flags : BitVec 32) (l : Line H) : Int × Line H :=
  let l := if ret = 0 then (l.irqdClear irqdTriggerMask).irqdSet flags else l
  if ret = 0 ∨ ret = 1 then
    let flags := l.desc.state &&& irqdTriggerMask
    let l := (l.settingsClear irqTypeSenseMask).settingsSet (flags &&& irqTypeSenseMask)
    let l := (l.irqdClear irqdLevel).settingsClear irqLevel
    (0, if test flags irqTypeLevelMask then (l.settingsSet irqLevel).irqdSet irqdLevel else l)
  else (ret, l)

/-- `__irq_set_trigger` -/
def irqSetTriggerFlags (flags : BitVec 32) (l : Line H) : Int × Line H :=
  match l.chip.irqSetType with
  | none => (0, l)
  | some setType =>
    let flags := flags &&& irqTypeSenseMask
    let masking := test l.chip.flags irqchipSetTypeMasked
    let l := if masking ∧ ¬ l.masked then maskIrq l else l
    let unmask := masking && !l.disabled
    let s := setType l.irq flags l.hw
    let r := storeTrigger s.1 flags { l with hw := s.2 }
    (r.1, if unmask then unmaskIrq r.2 else r.2)

/-- `__disable_irq` -/
def disableIrqDepth (suspend : Bool) (l : Line H) : Line H :=
  let keep : Bool := match l.desc.action with
    | [] => true
    | action :: _ => test action.flags irqfNoSuspend
  if suspend ∧ keep then l
  else
    let l := if suspend then l.istateSet irqsSuspended else l
    let depth := l.desc.depth
    let l := l.setDepth (depth + 1)
    if depth = 0 then irqDisable l else l

/-- `__enable_irq`.  Case 1 of the switch falls through. -/
def enableIrqDepth (resume : Bool) (l : Line H) : Line H :=
  let forced : Bool := match l.desc.action with
    | [] => false
    | action :: _ => test action.flags irqfForceResume
  if resume ∧ ¬ test l.desc.istate irqsSuspended ∧ ¬ forced then l
  else
    let l := if resume then
        let l := if test l.desc.istate irqsSuspended then l else l.setDepth (l.desc.depth + 1)
        l.istateClear irqsSuspended
      else l
    if l.desc.depth = 0 then l
    else if l.desc.depth = 1 then
      if test l.desc.istate irqsSuspended then l
      else
        let l := checkIrqResend (irqEnable (l.settingsSet irqNoprobe))
        l.setDepth (l.desc.depth - 1)
    else l.setDepth (l.desc.depth - 1)

def disableIrqNosync (l : Line H) : Line H := disableIrqDepth false l

/-- `enable_irq`; the chip is never `NULL`. -/
def enableIrq (l : Line H) : Line H := enableIrqDepth false l

def forceIrqthreads : Bool := false

def irqSetupForcedThreading (new : Irqaction) : Irqaction :=
  if ¬ forceIrqthreads then new
  else if test new.flags (irqfNoThread ||| irqfPercpu ||| irqfOneshot) then new
  else
    let new := { new with flags := set new.flags irqfOneshot }
    if new.threadFn = none then
      { new with
        threadFlags := set new.threadFlags irqtfForcedThread
        threadFn := some new.handler
        handler := .defaultPrimary }
    else new

/-- `ffz`; `undefined` is what `bsf` leaves when no bit is clear. -/
def ffz (undefined : Nat) (word : BitVec 32) : Nat :=
  ((List.range 32).find? fun i => !word.getLsbD i).getD undefined

/-- The tests of `__setup_irq` by which a new action may join the first of the chain. -/
def mismatch (old new : Irqaction) : Bool :=
  !test (old.flags &&& new.flags) irqfShared || test (old.flags ^^^ new.flags) irqfTriggerMask ||
    test (old.flags ^^^ new.flags) irqfOneshot ||
    old.flags &&& irqfPercpu != new.flags &&& irqfPercpu

/-- The flags that `__setup_irq` sets for the first action of a line. -/
def prepareFirst (new : Irqaction) (l : Line H) : Line H :=
  let l := l.istateClear (irqsAutodetect ||| irqsSpuriousDisabled ||| irqsOneshot ||| irqsWaiting)
  let l := l.irqdClear irqdIrqInprogress
  let l := if test new.flags irqfPercpu then (l.irqdSet irqdPerCpu).settingsSet irqPerCpu else l
  if test new.flags irqfOneshot then l.istateSet irqsOneshot else l

/-- The part of `__setup_irq` for the first action of a line, after the trigger has been set. -/
def setupFirst (new : Irqaction) (l : Line H) : Line H :=
  let l := prepareFirst new l
  let l := if ¬ test l.desc.status irqNoautoen then (irqStartup l).2 else l.setDepth 1
  if test new.flags irqfNobalancing then
    (l.settingsSet irqNoBalancing).irqdSet irqdNoBalancing
  else l

/-- `*old_ptr = new` -/
def appendAction (new : Irqaction) (l : Line H) : Line H :=
  { l with desc := { l.desc with action := l.desc.action ++ [new] } }

/-- `__setup_irq` from the point where the lock has been taken. -/
def installAction (undefined : Nat) (new : Irqaction) (l : Line H) : Int × Line H :=
  let threadMask := l.desc.action.foldl (fun mask old => mask ||| old.threadMask) 0
  let shared := ¬ l.desc.action = []
  let clash : Bool := match l.desc.action with
    | [] => false
    | old :: _ => mismatch old new
  if clash then (-16, l)
  else if test new.flags irqfOneshot ∧ threadMask = BitVec.allOnes 32 then (-16, l)
  else
    let new := { new with threadMask := (1 : BitVec 32) <<< ffz undefined threadMask }
    if ¬ shared then
      let r := if test new.flags irqfTriggerMask then
          irqSetTriggerFlags (new.flags &&& irqfTriggerMask) l
        else (0, l)
      if r.1 ≠ 0 then r else (0, appendAction new (setupFirst new r.2))
    else
      let l := appendAction new l
      if test l.desc.istate irqsSpuriousDisabled then
        (0, enableIrqDepth false (l.istateClear irqsSpuriousDisabled))
      else (0, l)

/-- `setup_irq`.  Modules and cpu masks never fail here. -/
def setupIrq (undefined : Nat) (new : Irqaction) (l : Line H) : Int × Line H :=
  if l.desc.chip.isNone then (-38, l)
  else if test l.desc.status irqNestedThread then
    if new.threadFn = none then (-22, l)
    else installAction undefined { new with handler := .nestedPrimary } l
  else
    let new := if ¬ test l.desc.status irqNothread then irqSetupForcedThreading new else new
    installAction undefined new l

/-- `irq_desc` and the hardware. -/
structure Machine (H : Type) where
  desc : Nat → IrqDesc H
  hw : H

namespace Machine

def line (m : Machine H) (irq : Nat) : Line H := ⟨irq, m.desc irq, m.hw⟩

/-- A function on the descriptor `irq_to_desc(irq)`. -/
def onLine (m : Machine H) (irq : Nat) (f : Line H → Line H) : Machine H :=
  let l := f (m.line irq)
  { desc := fun i => if i = irq then l.desc else m.desc i, hw := l.hw }

end Machine

/-- `handle_irq_event_percpu`: the handlers of the chain, one after another. -/
def handleIrqEventPercpu (handler : Irqaction → Machine H → Machine H) (chain : List Irqaction)
    (m : Machine H) : Machine H :=
  chain.foldl (fun m action => handler action m) m

/-- `handle_irq_event` up to the first handler -/
def enterChain (l : Line H) : Line H := (l.istateClear irqsPending).irqdSet irqdIrqInprogress

/-- `handle_irq_event` after the last handler -/
def leaveChain (l : Line H) : Line H := l.irqdClear irqdIrqInprogress

def handleIrqEvent (handler : Irqaction → Machine H → Machine H) (irq : Nat) (m : Machine H) :
    Machine H :=
  let action := (m.desc irq).action
  (handleIrqEventPercpu handler action (m.onLine irq enterChain)).onLine irq leaveChain

def handleLevelIrq (handler : Irqaction → Machine H → Machine H) (irq : Nat) (m : Machine H) :
    Machine H :=
  let m := m.onLine irq maskAckIrq
  if (m.line irq).inprogress ∧ ¬ irqCheckPoll (m.line irq) then m
  else
    let m := m.onLine irq (·.istateClear (irqsReplay ||| irqsWaiting))
    if (m.desc irq).action = [] ∨ (m.line irq).disabled then m
    else
      let m := handleIrqEvent handler irq m
      if ¬ (m.line irq).disabled ∧ ¬ test (m.desc irq).istate irqsOneshot then
        m.onLine irq unmaskIrq
      else m

/-- `handle_level_irq` up to the test of the chain -/
def noted (l : Line H) : Line H := (maskAckIrq l).istateClear (irqsReplay ||| irqsWaiting)

/-- `handle_level_irq` calls `handle_irq_event`. -/
def Enters (l : Line H) : Prop :=
  ¬ ((maskAckIrq l).inprogress ∧ ¬ irqCheckPoll (maskAckIrq l)) ∧
    ¬ ((noted l).desc.action = [] ∨ (noted l).disabled)

instance (l : Line H) : Decidable (Enters l) := inferInstanceAs (Decidable (_ ∧ _))

/-- A delivery that does not reach the handlers. -/
def skipped (l : Line H) : Line H :=
  if (maskAckIrq l).inprogress ∧ ¬ irqCheckPoll (maskAckIrq l) then maskAckIrq l else noted l

/-- The line when the first handler is called. -/
def entered (l : Line H) : Line H := enterChain (noted l)

/-- The rest of `handle_level_irq` after the last handler. -/
def left (l : Line H) : Line H :=
  let l := leaveChain l
  if ¬ l.disabled ∧ ¬ test l.desc.istate irqsOneshot then unmaskIrq l else l

theorem maskAckIrq_desc (l : Line H) :
    (maskAckIrq l).irq = l.irq ∧ (maskAckIrq l).desc = (irqStateSetMasked l).desc := by
  unfold maskAckIrq
  dsimp only
  split
  · exact ⟨rfl, rfl⟩
  · split <;> exact ⟨rfl, rfl⟩

namespace Machine

theorem line_onLine (m : Machine H) {irq : Nat} {f : Line H → Line H}
    (same : (f (m.line irq)).irq = irq) : (m.onLine irq f).line irq = f (m.line irq) := by
  have h : (m.onLine irq f).line irq = ⟨irq, (f (m.line irq)).desc, (f (m.line irq)).hw⟩ := by
    simp [line, onLine]
  generalize f (m.line irq) = l at h same
  subst same
  exact h

theorem onLine_congr (m : Machine H) {irq : Nat} {f g : Line H → Line H}
    (same : f (m.line irq) = g (m.line irq)) : m.onLine irq f = m.onLine irq g := by
  rw [onLine, onLine, same]

theorem desc_onLine (m : Machine H) (irq : Nat) (f : Line H → Line H) :
    (m.onLine irq f).desc irq = (f (m.line irq)).desc := by simp [onLine]

theorem onLine_onLine (m : Machine H) {irq : Nat} {f : Line H → Line H} (g : Line H → Line H)
    (same : (f (m.line irq)).irq = irq) :
    (m.onLine irq f).onLine irq g = m.onLine irq fun l => g (f l) := by
  have line := m.line_onLine same
  simp only [onLine] at line ⊢
  rw [line]
  congr 1
  funext i
  split_ifs <;> rfl

end Machine

theorem onLine_left (m : Machine H) (irq : Nat) : m.onLine irq left =
    let m := m.onLine irq leaveChain
    if ¬ (m.line irq).disabled ∧ ¬ test (m.desc irq).istate irqsOneshot then
      m.onLine irq unmaskIrq
    else m := by
  have line : (m.onLine irq leaveChain).line irq = leaveChain (m.line irq) := m.line_onLine rfl
  have desc : (m.onLine irq leaveChain).desc irq = (leaveChain (m.line irq)).desc :=
    m.desc_onLine irq leaveChain
  dsimp only
  rw [line, desc]
  by_cases live : ¬ (leaveChain (m.line irq)).disabled ∧
      ¬ test (leaveChain (m.line irq)).desc.istate irqsOneshot
  · rw [if_pos live, m.onLine_onLine unmaskIrq rfl]
    exact m.onLine_congr (if_pos live)
  · rw [if_neg live]
    exact m.onLine_congr (if_neg live)

/-- A delivery is the part before the handlers, the handlers, and the part after them. -/
theorem handleLevelIrq_eq (handler : Irqaction → Machine H → Machine H) (irq : Nat)
    (m : Machine H) : handleLevelIrq handler irq m =
      if Enters (m.line irq) then
        (handleIrqEventPercpu handler (m.desc irq).action (m.onLine irq entered)).onLine irq left
      else m.onLine irq skipped := by
  obtain ⟨irq₁, desc₁⟩ := maskAckIrq_desc (m.line irq)
  have irq₂ : (noted (m.line irq)).irq = irq := irq₁
  have line₁ := m.line_onLine (f := maskAckIrq) irq₁
  have line₂ := m.line_onLine (f := noted) irq₂
  have twice : (m.onLine irq maskAckIrq).onLine irq (·.istateClear (irqsReplay ||| irqsWaiting)) =
      m.onLine irq noted := m.onLine_onLine _ irq₁
  have thrice : (m.onLine irq noted).onLine irq enterChain = m.onLine irq entered :=
    m.onLine_onLine _ irq₂
  have action : ((m.onLine irq noted).desc irq).action = (m.desc irq).action := by
    rw [m.desc_onLine, noted, Line.istateClear, desc₁]
    rfl
  simp only [handleLevelIrq, handleIrqEvent, line₁, twice, line₂, thrice]
  by_cases again : (maskAckIrq (m.line irq)).inprogress ∧ ¬ irqCheckPoll (maskAckIrq (m.line irq))
  · rw [if_pos again, if_neg (fun enters => enters.1 again)]
    exact m.onLine_congr (if_pos again).symm
  rw [if_neg again, m.desc_onLine irq noted]
  by_cases idle : (noted (m.line irq)).desc.action = [] ∨ (noted (m.line irq)).disabled
  · rw [if_pos idle, if_neg (fun enters => enters.2 idle)]
    exact m.onLine_congr (if_neg again).symm
  · have enters : Enters (m.line irq) := ⟨again, idle⟩
    rw [m.desc_onLine irq noted] at action
    rw [if_neg idle, action]
    simp only [enters, if_true, onLine_left]

end XcKernel.Irq
