import XcKernel.Irq.I8259
import XcKernel.Lib.Chain

/-!
# Chains of actions in memory

`setup_irq` on the actions where they stand in memory: `desc->action` and the
`next` of an action are addresses, 0 is `NULL`, and `old_ptr` is where the address
of the new action goes.  The lists that the descriptors of `XcKernel.Irq.Basic`
hold are not looked at here; they are the chains read from memory.
-/

namespace XcKernel.Irq

open Flags

/-- The actions by their addresses. -/
structure ActionHeap where
  action : Nat → Irqaction
  next : Nat → Nat

/-- The lines, `desc->action` of each, and the actions. -/
structure Board (H : Type) where
  m : Machine H
  head : Nat → Nat
  heap : ActionHeap

/-- What `old_ptr` points to: `desc->action`, or the `next` of an action. -/
inductive Slot where
  | head
  | next (a : Nat)
  deriving DecidableEq, Repr

variable {H : Type}

namespace Board

/-- Store to an action. -/
def write (b : Board H) (a : Nat) (x : Irqaction) : Board H :=
  { b with heap := { b.heap with action := Function.update b.heap.action a x } }

def onLine (b : Board H) (irq : Nat) (f : Line H → Line H) : Board H :=
  { b with m := b.m.onLine irq f }

/-- `*old_ptr = new` -/
def link (b : Board H) (irq : Nat) (slot : Slot) (act : Nat) : Board H :=
  match slot with
  | .head => { b with head := Function.update b.head irq act }
  | .next a => { b with heap := { b.heap with next := Function.update b.heap.next a act } }

end Board

/-- The loop of `__setup_irq` over the chain from `old` on: the thread masks that are
taken, and `old_ptr`.  `fuel` bounds the number of rounds. -/
def walkChain (heap : ActionHeap) (threadMask : BitVec 32) (old : Nat) :
    (fuel : Nat) → Option (BitVec 32 × Slot)
  | 0 => none
  | fuel + 1 =>
    let threadMask := threadMask ||| (heap.action old).threadMask
    if heap.next old ≠ 0 then walkChain heap threadMask (heap.next old) fuel
    else some (threadMask, .next old)

/-- The part of `__setup_irq` for the first action of a line. -/
def installFirst (irq act : Nat) (new : Irqaction) (b : Board H) : Int × Board H :=
  let l := b.m.line irq
  let r := if test new.flags irqfTriggerMask then irqSetTriggerFlags (new.flags &&& irqfTriggerMask) l
    else (0, l)
  if r.1 ≠ 0 then (r.1, b.onLine irq fun _ => r.2)
  else (0, (b.onLine irq fun _ => setupFirst new r.2).link irq .head act)

/-- The same for an action that joins others. -/
def installShared (irq act : Nat) (slot : Slot) (b : Board H) : Int × Board H :=
  let b := b.link irq slot act
  if test (b.m.desc irq).istate irqsSpuriousDisabled then
    (0, b.onLine irq fun l => enableIrqDepth false (l.istateClear irqsSpuriousDisabled))
  else (0, b)

/-- `__setup_irq` from the point where the lock has been taken. -/
def installAt (undefined fuel irq act : Nat) (b : Board H) : Option (Int × Board H) :=
  let new := b.heap.action act
  let old := b.head irq
  if old ≠ 0 ∧ mismatch (b.heap.action old) new then some (-16, b)
  else
    (if old = 0 then some (0, Slot.head) else walkChain b.heap 0 old fuel).map fun (threadMask, slot) =>
      if test new.flags irqfOneshot ∧ threadMask = BitVec.allOnes 32 then (-16, b)
      else
        let new := { new with threadMask := (1 : BitVec 32) <<< ffz undefined threadMask }
        let b := b.write act new
        if old = 0 then installFirst irq act new b else installShared irq act slot b

/-- `setup_irq`, with what it writes to the action before the lock is taken -/
def setupIrqAt (undefined fuel irq act : Nat) (b : Board H) : Option (Int × Board H) :=
  let new := b.heap.action act
  if (b.m.desc irq).chip.isNone then some (-38, b)
  else if test (b.m.desc irq).status irqNestedThread then
    if new.threadFn = none then some (-22, b)
    else installAt undefined fuel irq act (b.write act { new with handler := .nestedPrimary })
  else if ¬ test (b.m.desc irq).status irqNothread then
    installAt undefined fuel irq act (b.write act (irqSetupForcedThreading new))
  else installAt undefined fuel irq act b

/-- The action is on no chain, and nothing follows it. -/
structure Fresh (b : Board H) (act : Nat) : Prop where
  notNull : act ≠ 0
  unlinked : b.heap.next act = 0
  off : ∀ irq chain, Chain 0 b.heap.next (b.head irq) chain → act ∉ chain

/-- A call of `setup_irq` and what it returned. -/
structure Call where
  irq : Nat
  act : Nat
  ret : Int
  deriving DecidableEq, Repr

/-- The actions of a line whose calls returned 0, in the order of the calls. -/
def accepted (log : List Call) (irq : Nat) : List Nat :=
  (log.filter fun c => c.irq = irq ∧ c.ret = 0).map Call.act

/-- A run of calls with fresh actions, from lines without any. -/
inductive SetupRun (b₀ : Board H) : List Call → Board H → Prop where
  | start : SetupRun b₀ [] b₀
  | call {log : List Call} {b b' : Board H} {irq act undefined fuel : Nat} {ret : Int}
      (run : SetupRun b₀ log b) (lt : irq < nrIrqs) (fresh : Fresh b act)
      (returns : setupIrqAt undefined fuel irq act b = some (ret, b')) :
      SetupRun b₀ (log ++ [⟨irq, act, ret⟩]) b'

/-- The line with other actions. -/
def Line.withActions (l : Line H) (actions : List Irqaction) : Line H :=
  { l with desc := { l.desc with action := actions } }

/-- A function on lines that neither looks at the actions nor changes the chip. -/
def Blind (f : Line H → Line H) : Prop :=
  ∀ l actions, f (l.withActions actions) = (f l).withActions actions ∧
    (f l).irq = l.irq ∧ (f l).desc.chip = l.desc.chip

theorem Blind.comp {f g : Line H → Line H} (outer : Blind g) (inner : Blind f) :
    Blind fun l => g (f l) := by
  intro l actions
  obtain ⟨actions₁, irq₁, chip₁⟩ := inner l actions
  obtain ⟨actions₂, irq₂, chip₂⟩ := outer (f l) actions
  refine ⟨?_, irq₂.trans irq₁, chip₂.trans chip₁⟩
  dsimp only
  rw [actions₁, actions₂]

theorem Blind.ite {f g : Line H → Line H} {c : Line H → Prop} [DecidablePred c] (left : Blind f)
    (right : Blind g) (same : ∀ l actions, c (l.withActions actions) ↔ c l) :
    Blind fun l => if c l then f l else g l := by
  intro l actions
  by_cases holds : c l
  · simp only [same, holds, if_true]
    exact left l actions
  · simp only [same, holds, if_false]
    exact right l actions

theorem irqEnable_blind : Blind (irqEnable (H := H)) := by
  intro l actions
  have chip : (irqStateClrDisabled (l.withActions actions)).chip = (irqStateClrDisabled l).chip := rfl
  unfold irqEnable
  dsimp only
  rw [chip]
  split <;> exact ⟨rfl, rfl, rfl⟩

theorem irqStartup_blind : Blind fun l : Line H => (irqStartup l).2 := by
  intro l actions
  have chip : ((irqStateClrDisabled (l.withActions actions)).setDepth 0).chip =
      ((irqStateClrDisabled l).setDepth 0).chip := rfl
  unfold irqStartup
  dsimp only
  rw [chip]
  split
  · exact ⟨rfl, rfl, rfl⟩
  · exact irqEnable_blind ((irqStateClrDisabled l).setDepth 0) actions

theorem prepareFirst_blind (new : Irqaction) : Blind (prepareFirst (H := H) new) := by
  have same : Blind fun l : Line H => l := fun _ _ => ⟨rfl, rfl, rfl⟩
  have cleared : Blind fun l : Line H => (l.istateClear (irqsAutodetect ||| irqsSpuriousDisabled |||
      irqsOneshot ||| irqsWaiting)).irqdClear irqdIrqInprogress := fun _ _ => ⟨rfl, rfl, rfl⟩
  have bound : Blind fun l : Line H => (l.irqdSet irqdPerCpu).settingsSet irqPerCpu :=
    fun _ _ => ⟨rfl, rfl, rfl⟩
  have once : Blind fun l : Line H => l.istateSet irqsOneshot := fun _ _ => ⟨rfl, rfl, rfl⟩
  have percpu := bound.ite (c := fun _ => test new.flags irqfPercpu) same fun _ _ => Iff.rfl
  have oneshot := once.ite (c := fun _ => test new.flags irqfOneshot) same fun _ _ => Iff.rfl
  exact oneshot.comp (percpu.comp cleared)

theorem setupFirst_blind (new : Irqaction) : Blind (setupFirst (H := H) new) := by
  have rest : Blind fun l : Line H =>
      if ¬ test l.desc.status irqNoautoen then (irqStartup l).2 else l.setDepth 1 :=
    irqStartup_blind.ite (fun _ _ => ⟨rfl, rfl, rfl⟩) fun _ _ => Iff.rfl
  have balanced : Blind fun l : Line H => if test new.flags irqfNobalancing then
      (l.settingsSet irqNoBalancing).irqdSet irqdNoBalancing else l := by
    intro l actions
    dsimp only
    split_ifs <;> exact ⟨rfl, rfl, rfl⟩
  exact balanced.comp (rest.comp (prepareFirst_blind new))

theorem storeTrigger_blind (ret : Int) (flags : BitVec 32) :
    Blind fun l : Line H => (storeTrigger ret flags l).2 := by
  have copied : Blind fun l : Line H =>
      if ret = 0 then (l.irqdClear irqdTriggerMask).irqdSet flags else l := by
    intro l actions
    dsimp only
    split_ifs <;> exact ⟨rfl, rfl, rfl⟩
  have sensed : Blind fun l : Line H => (l.settingsClear irqTypeSenseMask).settingsSet
      (l.desc.state &&& irqdTriggerMask &&& irqTypeSenseMask) := fun _ _ => ⟨rfl, rfl, rfl⟩
  have levelled : Blind fun l : Line H => (l.irqdClear irqdLevel).settingsClear irqLevel :=
    fun _ _ => ⟨rfl, rfl, rfl⟩
  have marked : Blind fun l : Line H => (l.settingsSet irqLevel).irqdSet irqdLevel :=
    fun _ _ => ⟨rfl, rfl, rfl⟩
  have noted : Blind fun l : Line H =>
      let flags := l.desc.state &&& irqdTriggerMask
      let l := (l.settingsClear irqTypeSenseMask).settingsSet (flags &&& irqTypeSenseMask)
      let l := (l.irqdClear irqdLevel).settingsClear irqLevel
      if test flags irqTypeLevelMask then (l.settingsSet irqLevel).irqdSet irqdLevel else l :=
    Blind.ite (c := fun l => test (l.desc.state &&& irqdTriggerMask) irqTypeLevelMask)
      (marked.comp (levelled.comp sensed)) (levelled.comp sensed) fun _ _ => Iff.rfl
  intro l actions
  unfold storeTrigger
  by_cases set : ret = 0 ∨ ret = 1
  · simp only [set, if_true]
    exact noted.comp copied l actions
  · simp only [set, if_false]
    exact copied l actions

theorem storeTrigger_ret (ret : Int) (flags : BitVec 32) (l l' : Line H) :
    (storeTrigger ret flags l).1 = (storeTrigger ret flags l').1 := by
  unfold storeTrigger
  dsimp only
  split_ifs <;> rfl

theorem irqSetTriggerFlags_blind (flags : BitVec 32) :
    (Blind fun l : Line H => (irqSetTriggerFlags flags l).2) ∧ ∀ (l : Line H) actions,
      (irqSetTriggerFlags flags (l.withActions actions)).1 = (irqSetTriggerFlags flags l).1 := by
  have masked : Blind fun l : Line H =>
      if test l.chip.flags irqchipSetTypeMasked ∧ ¬ l.masked then maskIrq l else l :=
    Blind.ite (fun _ _ => ⟨rfl, rfl, rfl⟩) (fun _ _ => ⟨rfl, rfl, rfl⟩) fun _ _ => Iff.rfl
  suffices both : ∀ (l : Line H) actions, irqSetTriggerFlags flags (l.withActions actions) =
      ((irqSetTriggerFlags flags l).1, (irqSetTriggerFlags flags l).2.withActions actions) ∧
        (irqSetTriggerFlags flags l).2.irq = l.irq ∧
        (irqSetTriggerFlags flags l).2.desc.chip = l.desc.chip by
    refine ⟨fun l actions => ⟨?_, (both l actions).2⟩, fun l actions => ?_⟩
    · dsimp only
      rw [(both l actions).1]
    · rw [(both l actions).1]
  intro l actions
  have chip : (l.withActions actions).chip = l.chip := rfl
  unfold irqSetTriggerFlags
  rw [chip]
  split
  · exact ⟨rfl, rfl, rfl⟩
  · rename_i setType present
    obtain ⟨actions₁, irq₁, chip₁⟩ := masked l actions
    dsimp only at actions₁ irq₁ chip₁ ⊢
    rw [chip] at actions₁
    rw [actions₁]
    generalize (if test l.chip.flags irqchipSetTypeMasked ∧ ¬ l.masked then maskIrq l else l) = l₁ at *
    -- `irq_set_type` and the switch on its result, then the callback that undoes the masking
    generalize called : setType l₁.irq (flags &&& irqTypeSenseMask) l₁.hw = s
    have called' : setType (l₁.withActions actions).irq (flags &&& irqTypeSenseMask)
        (l₁.withActions actions).hw = s := called
    rw [called']
    obtain ⟨actions₂, irq₂, chip₂⟩ := storeTrigger_blind s.1 (flags &&& irqTypeSenseMask)
      { l₁ with hw := s.2 } actions
    have ret := storeTrigger_ret s.1 (flags &&& irqTypeSenseMask)
      ({ l₁ with hw := s.2 }.withActions actions) { l₁ with hw := s.2 }
    by_cases unmask : (test l.chip.flags irqchipSetTypeMasked && !l₁.disabled) = true
    · have unmask' : (test l.chip.flags irqchipSetTypeMasked &&
          !(l₁.withActions actions).disabled) = true := unmask
      rw [if_pos unmask, if_pos unmask']
      exact ⟨Prod.ext ret (congrArg unmaskIrq actions₂), irq₂.trans irq₁, chip₂.trans chip₁⟩
    · have unmask' : ¬ (test l.chip.flags irqchipSetTypeMasked &&
          !(l₁.withActions actions).disabled) = true := unmask
      rw [if_neg unmask, if_neg unmask']
      exact ⟨Prod.ext ret actions₂, irq₂.trans irq₁, chip₂.trans chip₁⟩

theorem checkIrqResend_blind : Blind (checkIrqResend (H := H)) := by
  intro l actions
  have status : (l.withActions actions).desc.status = l.desc.status := rfl
  have istate : (l.withActions actions).desc.istate = l.desc.istate := rfl
  have chip : (((l.withActions actions).istateClear irqsPending).istateSet irqsReplay).chip =
      ((l.istateClear irqsPending).istateSet irqsReplay).chip := rfl
  unfold checkIrqResend
  dsimp only
  rw [status, istate, chip]
  split
  · exact ⟨rfl, rfl, rfl⟩
  · split
    · exact ⟨rfl, rfl, rfl⟩
    · split
      · split <;> exact ⟨rfl, rfl, rfl⟩
      · exact ⟨rfl, rfl, rfl⟩

theorem enableIrqDepth_blind : Blind fun l : Line H => enableIrqDepth false l := by
  have same : Blind fun l : Line H => l := fun _ _ => ⟨rfl, rfl, rfl⟩
  have lowered : Blind fun l : Line H => l.setDepth (l.desc.depth - 1) := fun _ _ => ⟨rfl, rfl, rfl⟩
  have marked : Blind fun l : Line H => l.settingsSet irqNoprobe := fun _ _ => ⟨rfl, rfl, rfl⟩
  have enabled := lowered.comp (checkIrqResend_blind.comp (irqEnable_blind.comp marked))
  have whole := same.ite (c := fun l => l.desc.depth = 0) (Blind.ite (c := fun l => l.desc.depth = 1)
    (same.ite (c := fun l => test l.desc.istate irqsSuspended) enabled fun _ _ => Iff.rfl) lowered
    fun _ _ => Iff.rfl) fun _ _ => Iff.rfl
  intro l actions
  simp only [enableIrqDepth, Bool.false_eq_true, false_and, if_false]
  exact whole l actions

/-- The thread masks of some actions, together. -/
def masks (heap : ActionHeap) (cs : List Nat) : BitVec 32 :=
  cs.foldl (fun mask a => mask ||| (heap.action a).threadMask) 0

/-- `old_ptr` behind the last action of a chain. -/
def lastSlot (cs : List Nat) : Slot := cs.getLast?.elim Slot.head Slot.next

variable {b b' : Board H} {irq act : Nat} {cs : List Nat}

theorem walkChain_eq {heap : ActionHeap} {old last : Nat} {before : List Nat}
    (chain : Chain 0 heap.next old (before ++ [last])) (mask : BitVec 32) (fuel : Nat) :
    walkChain heap mask old fuel = if before.length < fuel then
      some ((before ++ [last]).foldl (fun mask a => mask ||| (heap.action a).threadMask) mask, .next last)
    else none := by
  induction before generalizing old mask fuel with
  | nil =>
    obtain ⟨rfl, -, ends⟩ := chain
    have ends' : heap.next old = 0 := ends
    cases fuel with
    | zero => rfl
    | succ fuel =>
      rw [walkChain, if_neg (not_not.mpr ends'), List.length_nil, if_pos (Nat.succ_pos fuel)]
      rfl
  | cons first before ih =>
    obtain ⟨rfl, -, rest⟩ := chain
    have more : heap.next old ≠ 0 := fun ends => by
      rw [ends] at rest
      simpa using rest.eq_nil
    cases fuel with
    | zero => rfl
    | succ fuel =>
      rw [walkChain, if_pos more, ih rest]
      simp only [List.length_cons, Nat.succ_lt_succ_iff]
      rfl

theorem walk_eq {heap : ActionHeap} {old : Nat} (chain : Chain 0 heap.next old cs) (fuel : Nat) :
    (if old = 0 then some (0, Slot.head) else walkChain heap 0 old fuel) =
      if cs.length ≤ fuel then some (masks heap cs, lastSlot cs) else none := by
  cases cs using List.reverseRec with
  | nil =>
    have none : old = 0 := chain
    rw [if_pos none, List.length_nil, if_pos (Nat.zero_le fuel)]
    rfl
  | append_singleton before last =>
    have some : old ≠ 0 := fun none => by simpa using chain.null_iff.mp none
    rw [if_neg some, walkChain_eq chain]
    simp only [List.length_append, List.length_singleton, Nat.add_one_le_iff, lastSlot,
      List.getLast?_append, List.getLast?_singleton, Option.some_or, Option.elim_some]
    rfl

theorem chain_link (chain : Chain 0 b.heap.next (b.head irq) cs) (off : act ∉ cs) (live : act ≠ 0)
    (unlinked : b.heap.next act = 0) :
    Chain 0 (b.link irq (lastSlot cs) act).heap.next ((b.link irq (lastSlot cs) act).head irq)
      (cs ++ [act]) := by
  cases cs using List.reverseRec with
  | nil =>
    refine ⟨Function.update_self .., ?_, ?_⟩
    · exact (Function.update_self irq act b.head).trans_ne live
    · exact (congrArg b.heap.next (Function.update_self irq act b.head)).trans unlinked
  | append_singleton before last =>
    have slot : lastSlot (before ++ [last]) = .next last := by simp [lastSlot]
    rw [slot]
    exact chain.snoc off live unlinked

/-- Linking a new action changes one word. -/
theorem link_frame (b : Board H) (irq act : Nat) (cs : List Nat) :
    (∀ i, i ≠ irq → (b.link irq (lastSlot cs) act).head i = b.head i) ∧
      (∀ a, a ∉ cs → (b.link irq (lastSlot cs) act).heap.next a = b.heap.next a) ∧
      (b.link irq (lastSlot cs) act).heap.action = b.heap.action ∧
      (b.link irq (lastSlot cs) act).m = b.m := by
  cases cs using List.reverseRec with
  | nil =>
    refine ⟨fun i other => ?_, fun _ _ => rfl, rfl, rfl⟩
    change Function.update b.head irq act i = b.head i
    exact Function.update_of_ne other ..
  | append_singleton before last =>
    have slot : lastSlot (before ++ [last]) = .next last := by simp [lastSlot]
    rw [slot]
    refine ⟨fun _ _ => rfl, fun a off => ?_, rfl, rfl⟩
    change Function.update b.heap.next last act a = b.heap.next a
    apply Function.update_of_ne
    rintro rfl
    exact off (by simp)

/-- Why a call for a line with the chain `cs` fails. -/
inductive Cause (b : Board H) (irq act : Nat) (cs : List Nat) : Prop where
  | noChip (absent : (b.m.desc irq).chip = none)
  | noThread (absent : (b.heap.action act).threadFn = none)
  | clash {first : Nat} {rest : List Nat} (eq : cs = first :: rest)
      (differs : mismatch (b.heap.action first) (b.heap.action act) = true)
  | full (oneshot : test (b.heap.action act).flags irqfOneshot = true)
      (taken : masks b.heap cs = BitVec.allOnes 32)
  | trigger (settable : (b.m.line irq).chip.irqSetType ≠ none)

/-- A call that fails writes to the action at most.  Unless the chip can set a type, it
leaves all lines alone. -/
structure Refused (b b' : Board H) (irq act : Nat) (cs : List Nat) : Prop where
  cause : Cause b irq act cs
  head : b'.head = b.head
  next : b'.heap.next = b.heap.next
  action : ∀ a, a ≠ act → b'.heap.action a = b.heap.action a
  lines : (b.m.line irq).chip.irqSetType = none → b'.m = b.m
  chips : ∀ i, (b'.m.desc i).chip = (b.m.desc i).chip

/-- A call that succeeds links the action behind the chain `cs` of the line.  It matches
the first of the chain, and gets the first thread mask that is free. -/
structure Accepted (b b' : Board H) (irq act : Nat) (cs : List Nat) : Prop where
  chain : Chain 0 b'.heap.next (b'.head irq) (cs ++ [act])
  heads : ∀ i, i ≠ irq → b'.head i = b.head i
  next : ∀ a, a ∉ cs → b'.heap.next a = b.heap.next a
  action : ∀ a, a ≠ act → b'.heap.action a = b.heap.action a
  flags : (b'.heap.action act).flags = (b.heap.action act).flags
  joins : ∀ first rest, cs = first :: rest →
    mismatch (b.heap.action first) (b'.heap.action act) = false
  mask : ∃ undefined,
    (b'.heap.action act).threadMask = (1 : BitVec 32) <<< ffz undefined (masks b.heap cs)
  chips : ∀ i, (b'.m.desc i).chip = (b.m.desc i).chip

theorem onLine_chips (m : Machine H) (f : Line H → Line H)
    (same : (f (m.line irq)).desc.chip = (m.desc irq).chip) (i : Nat) :
    ((m.onLine irq f).desc i).chip = (m.desc i).chip := by
  by_cases here : i = irq
  · subst here
    rw [Machine.desc_onLine]
    exact same
  · simp [Machine.onLine, here]

theorem write_action_of_ne {x : Irqaction} {a : Nat} (other : a ≠ act) :
    (b.write act x).heap.action a = b.heap.action a := by
  change Function.update b.heap.action act x a = b.heap.action a
  exact Function.update_of_ne other ..

theorem write_action_self {x : Irqaction} : (b.write act x).heap.action act = x := by
  change Function.update b.heap.action act x act = x
  exact Function.update_self ..

theorem masks_congr {heap heap' : ActionHeap}
    (same : ∀ a ∈ cs, heap'.action a = heap.action a) : masks heap' cs = masks heap cs := by
  unfold masks
  apply List.foldl_ext
  intro mask a member
  rw [same a member]

/-- `__irq_set_trigger` as `__setup_irq` calls it keeps the chip, and fails only when the
chip does. -/
theorem trigger_spec (new : Irqaction) (l : Line H) {r : Int × Line H}
    (set : (if test new.flags irqfTriggerMask then irqSetTriggerFlags (new.flags &&& irqfTriggerMask) l
      else (0, l)) = r) :
    r.2.desc.chip = l.desc.chip ∧ (l.chip.irqSetType = none → r.1 = 0) := by
  split_ifs at set
  · subst set
    refine ⟨((irqSetTriggerFlags_blind _).1 l []).2.2, fun absent => ?_⟩
    rw [irqSetTriggerFlags, absent]
  · subst set
    exact ⟨rfl, fun _ => rfl⟩

/-- The chip of the line refuses the trigger, or the action is the first of the line. -/
theorem installFirst_cases {new : Irqaction} (chain : Chain 0 b.heap.next (b.head irq) [])
    (live : act ≠ 0) (unlinked : b.heap.next act = 0) (here : b.heap.action act = new)
    (mask : ∃ undefined, new.threadMask = (1 : BitVec 32) <<< ffz undefined (masks b.heap []))
    {ret : Int} (done : installFirst irq act new b = (ret, b')) :
    ret ≠ 0 ∧ Refused b b' irq act [] ∨ ret = 0 ∧ Accepted b b' irq act [] := by
  unfold installFirst at done
  dsimp only at done
  generalize set : (if test new.flags irqfTriggerMask then
    irqSetTriggerFlags (new.flags &&& irqfTriggerMask) (b.m.line irq) else (0, b.m.line irq)) = r at done
  obtain ⟨chip, succeeds⟩ := trigger_spec new (b.m.line irq) set
  by_cases failed : r.1 ≠ 0
  · rw [if_pos failed] at done
    cases done
    left
    exact ⟨failed, .trigger fun absent => failed (succeeds absent), rfl, rfl, fun _ _ => rfl,
      fun absent => absurd (succeeds absent) failed, onLine_chips b.m (fun _ => r.2) chip⟩
  · rw [if_neg failed] at done
    cases done
    right
    have linked := chain_link (b := b.onLine irq fun _ => setupFirst new r.2) chain
      (List.not_mem_nil) live unlinked
    refine ⟨rfl, linked, fun i other => ?_, fun _ _ => rfl, fun _ _ => rfl, rfl, nofun, ?_, fun i => ?_⟩
    · exact (link_frame (b.onLine irq fun _ => setupFirst new r.2) irq act []).1 i other
    · obtain ⟨undefined, eq⟩ := mask
      exact ⟨undefined, (congrArg Irqaction.threadMask here).trans eq⟩
    · exact onLine_chips b.m (fun _ => setupFirst new r.2) ((setupFirst_blind new r.2 []).2.2.trans chip) i

/-- An action that joins others is linked behind them. -/
theorem installShared_cases (chain : Chain 0 b.heap.next (b.head irq) cs) (off : act ∉ cs)
    (live : act ≠ 0) (unlinked : b.heap.next act = 0)
    (joins : ∀ first rest, cs = first :: rest →
      mismatch (b.heap.action first) (b.heap.action act) = false)
    (mask : ∃ undefined,
      (b.heap.action act).threadMask = (1 : BitVec 32) <<< ffz undefined (masks b.heap cs))
    {ret : Int} (done : installShared irq act (lastSlot cs) b = (ret, b')) :
    ret = 0 ∧ Accepted b b' irq act cs := by
  obtain ⟨heads, next, action, machine⟩ := link_frame b irq act cs
  have linked := chain_link chain off live unlinked
  unfold installShared at done
  dsimp only at done
  have accepted : ∀ m : Machine H, (∀ i, (m.desc i).chip = (b.m.desc i).chip) →
      Accepted b { b.link irq (lastSlot cs) act with m := m } irq act cs := by
    intro m chips
    refine ⟨linked, heads, next, fun a _ => congrFun action a,
      congrArg Irqaction.flags (congrFun action act), ?_, ?_, chips⟩
    · simpa only [action] using joins
    · simpa only [action] using mask
  split_ifs at done
  · cases done
    refine ⟨rfl, accepted _ fun i => ?_⟩
    rw [← machine]
    apply onLine_chips
    exact (enableIrqDepth_blind _ []).2.2.trans rfl
  · cases done
    exact ⟨rfl, accepted (b.link irq (lastSlot cs) act).m fun i => by rw [machine]⟩

/-- Where the new action stands before it is linked. -/
structure Joinable (b : Board H) (irq act : Nat) (cs : List Nat) : Prop where
  chain : Chain 0 b.heap.next (b.head irq) cs
  off : act ∉ cs
  live : act ≠ 0
  unlinked : b.heap.next act = 0

theorem Joinable.write (ready : Joinable b irq act cs) (x : Irqaction) : Joinable (b.write act x) irq act cs :=
  ⟨ready.chain, ready.off, ready.live, ready.unlinked⟩

theorem mismatch_congr {old new new' : Irqaction} (same : new'.flags = new.flags) :
    mismatch old new' = mismatch old new := by
  rw [mismatch, mismatch, same]

theorem Joinable.ne (ready : Joinable b irq act cs) {a : Nat} (member : a ∈ cs) : a ≠ act := by
  rintro rfl
  exact ready.off member

theorem Joinable.masks_write (ready : Joinable b irq act cs) (x : Irqaction) :
    masks (b.write act x).heap cs = masks b.heap cs :=
  masks_congr fun _ member => write_action_of_ne (ready.ne member)

section Write

/-! What was written to the action beforehand does not matter if it keeps the flags and
the thread function. -/

variable {x : Irqaction} (ready : Joinable b irq act cs) (flags : x.flags = (b.heap.action act).flags)
  (threadFn : x.threadFn = (b.heap.action act).threadFn)

include ready flags

theorem Joinable.mismatch_write {first : Nat} {rest : List Nat} (eq : cs = first :: rest) :
    mismatch ((b.write act x).heap.action first) ((b.write act x).heap.action act) =
      mismatch (b.heap.action first) (b.heap.action act) := by
  have member : first ∈ cs := by
    rw [eq]
    exact List.mem_cons_self
  rw [write_action_of_ne (ready.ne member), write_action_self, mismatch_congr flags]

include threadFn in
theorem Refused.of_write (refused : Refused (b.write act x) b' irq act cs) :
    Refused b b' irq act cs := by
  refine ⟨?_, refused.head, refused.next,
    fun a other => (refused.action a other).trans (write_action_of_ne other), refused.lines,
    refused.chips⟩
  cases refused.cause with
  | noChip absent => exact .noChip absent
  | noThread absent =>
    rw [write_action_self, threadFn] at absent
    exact .noThread absent
  | clash eq differs =>
    rw [ready.mismatch_write flags eq] at differs
    exact .clash eq differs
  | full oneshot taken =>
    rw [write_action_self, flags] at oneshot
    rw [ready.masks_write] at taken
    exact .full oneshot taken
  | trigger settable => exact .trigger settable

theorem Accepted.of_write (accepted : Accepted (b.write act x) b' irq act cs) :
    Accepted b b' irq act cs := by
  have flags' : (b'.heap.action act).flags = (b.heap.action act).flags := by
    rw [accepted.flags, write_action_self, flags]
  refine ⟨accepted.chain, accepted.heads, accepted.next,
    fun a ne => (accepted.action a ne).trans (write_action_of_ne ne), flags', ?_, ?_, accepted.chips⟩
  · intro first rest eq
    rw [mismatch_congr flags', ← ready.mismatch_write flags eq,
      ← mismatch_congr accepted.flags]
    exact accepted.joins first rest eq
  · rw [← ready.masks_write x]
    exact accepted.mask

end Write

theorem installAt_cases (ready : Joinable b irq act cs) {undefined fuel : Nat} {ret : Int}
    (done : installAt undefined fuel irq act b = some (ret, b')) :
    ret ≠ 0 ∧ Refused b b' irq act cs ∨ ret = 0 ∧ Accepted b b' irq act cs := by
  have kept : Cause b irq act cs → Refused b b irq act cs := fun cause =>
    ⟨cause, rfl, rfl, fun _ _ => rfl, fun _ => rfl, fun _ => rfl⟩
  unfold installAt at done
  dsimp only at done
  by_cases clash : b.head irq ≠ 0 ∧ mismatch (b.heap.action (b.head irq)) (b.heap.action act)
  · rw [if_pos clash] at done
    cases done
    obtain ⟨rest, eq, -⟩ := ready.chain.eq_cons clash.1
    exact .inl ⟨by decide, kept (.clash eq clash.2)⟩
  rw [if_neg clash, walk_eq ready.chain] at done
  by_cases enough : cs.length ≤ fuel
  swap
  · rw [if_neg enough] at done
    cases done
  rw [if_pos enough, Option.map_some, Option.some_inj] at done
  by_cases full : test (b.heap.action act).flags irqfOneshot ∧ masks b.heap cs = BitVec.allOnes 32
  · rw [if_pos full] at done
    cases done
    exact .inl ⟨by decide, kept (.full full.1 full.2)⟩
  rw [if_neg full] at done
  -- the mask is written to the action, then it is linked
  generalize taken : { b.heap.action act with
    threadMask := (1 : BitVec 32) <<< ffz undefined (masks b.heap cs) } = new at done
  have ready' := ready.write new
  have here : (b.write act new).heap.action act = new := write_action_self
  have flags : new.flags = (b.heap.action act).flags := by rw [← taken]
  have threadFn : new.threadFn = (b.heap.action act).threadFn := by rw [← taken]
  have mask : ∃ undefined,
      new.threadMask = (1 : BitVec 32) <<< ffz undefined (masks (b.write act new).heap cs) := by
    refine ⟨undefined, ?_⟩
    rw [ready.masks_write, ← taken]
  by_cases first : b.head irq = 0
  · obtain rfl : cs = [] := ready.chain.null_iff.mp first
    rw [if_pos first] at done
    rcases installFirst_cases ready'.chain ready.live ready.unlinked here mask done with
      ⟨failed, refused⟩ | ⟨succeeded, accepted⟩
    · exact .inl ⟨failed, refused.of_write ready flags threadFn⟩
    · exact .inr ⟨succeeded, accepted.of_write ready flags⟩
  · rw [if_neg first] at done
    have joins : ∀ head rest, cs = head :: rest → mismatch
        ((b.write act new).heap.action head) ((b.write act new).heap.action act) = false := by
      intro head rest eq
      have atHead : b.head irq = head := by
        have chain := ready.chain
        rw [eq] at chain
        exact chain.1
      rw [ready.mismatch_write flags eq, ← atHead]
      simpa [first] using clash
    obtain ⟨succeeded, accepted⟩ := installShared_cases ready'.chain ready.off ready.live
      ready.unlinked joins (by rwa [here]) done
    exact .inr ⟨succeeded, accepted.of_write ready flags⟩

theorem installAt_returns (ready : Joinable b irq act cs) (undefined : Nat) {fuel : Nat}
    (enough : cs.length ≤ fuel) : ∃ ret b', installAt undefined fuel irq act b = some (ret, b') := by
  unfold installAt
  dsimp only
  rw [walk_eq ready.chain, if_pos enough, Option.map_some]
  split_ifs <;> exact ⟨_, _, rfl⟩

/-- `setup_irq` is `installAt` for an action whose handler it may have changed, unless it
fails at once. -/
theorem setupIrqAt_eq (undefined fuel irq act : Nat) (b : Board H) :
    (∃ ret, ret ≠ 0 ∧ ((b.m.desc irq).chip = none ∨ (b.heap.action act).threadFn = none) ∧
        setupIrqAt undefined fuel irq act b = some (ret, b)) ∨
      ∃ handler, setupIrqAt undefined fuel irq act b = installAt undefined fuel irq act
        (b.write act { b.heap.action act with handler := handler }) := by
  have same : b.write act (b.heap.action act) = b := by
    rw [Board.write, Function.update_eq_self]
  unfold setupIrqAt
  dsimp only
  split_ifs with noChip nested noThread nothread
  · exact .inl ⟨-38, by decide, .inl (Option.isNone_iff_eq_none.mp noChip), rfl⟩
  · exact .inl ⟨-22, by decide, .inr noThread, rfl⟩
  · exact .inr ⟨.nestedPrimary, rfl⟩
  · refine .inr ⟨(b.heap.action act).handler, ?_⟩
    rw [same]
  · refine .inr ⟨(b.heap.action act).handler, ?_⟩
    rw [irqSetupForcedThreading, if_pos (by decide)]

theorem setupIrqAt_cases (ready : Joinable b irq act cs) {undefined fuel : Nat} {ret : Int}
    (done : setupIrqAt undefined fuel irq act b = some (ret, b')) :
    ret ≠ 0 ∧ Refused b b' irq act cs ∨ ret = 0 ∧ Accepted b b' irq act cs := by
  rcases setupIrqAt_eq undefined fuel irq act b with ⟨ret', failed, cause, eq⟩ | ⟨handler, eq⟩
  · rw [eq] at done
    cases done
    have cause' : Cause b irq act cs := cause.elim .noChip .noThread
    exact .inl ⟨failed, cause', rfl, rfl, fun _ _ => rfl, fun _ => rfl, fun _ => rfl⟩
  · rw [eq] at done
    rcases installAt_cases (ready.write _) done with ⟨failed, refused⟩ | ⟨succeeded, accepted⟩
    · exact .inl ⟨failed, refused.of_write ready (by rfl) (by rfl)⟩
    · exact .inr ⟨succeeded, accepted.of_write ready (by rfl)⟩

theorem setupIrqAt_returns (ready : Joinable b irq act cs) (undefined : Nat) {fuel : Nat}
    (enough : cs.length ≤ fuel) :
    ∃ ret b', setupIrqAt undefined fuel irq act b = some (ret, b') := by
  rcases setupIrqAt_eq undefined fuel irq act b with ⟨ret, -, -, eq⟩ | ⟨handler, eq⟩
  · exact ⟨ret, b, eq⟩
  · rw [eq]
    exact installAt_returns (ready.write _) undefined enough

/-- The line with the chain `cs` read from memory. -/
def Board.lineOf (b : Board H) (irq : Nat) (cs : List Nat) : Line H :=
  (b.m.line irq).withActions (cs.map b.heap.action)

theorem Joinable.lineOf_write (ready : Joinable b irq act cs) (x : Irqaction) :
    (b.write act x).lineOf irq cs = b.lineOf irq cs := by
  have same : cs.map (b.write act x).heap.action = cs.map b.heap.action :=
    List.map_congr_left fun a member => write_action_of_ne (ready.ne member)
  rw [Board.lineOf, Board.lineOf, same]
  rfl

theorem installFirst_refines {new : Irqaction} (here : b.heap.action act = new) {ret : Int}
    (done : installFirst irq act new b = (ret, b')) :
    (let r := if test new.flags irqfTriggerMask then
        irqSetTriggerFlags (new.flags &&& irqfTriggerMask) (b.lineOf irq [])
      else (0, b.lineOf irq [])
    if r.1 ≠ 0 then r else (0, appendAction new (setupFirst new r.2))) =
      (ret, b'.lineOf irq (if ret = 0 then [act] else [])) := by
  unfold installFirst at done
  dsimp only at done ⊢
  have blind : (if test new.flags irqfTriggerMask then
        irqSetTriggerFlags (new.flags &&& irqfTriggerMask) (b.lineOf irq [])
      else (0, b.lineOf irq [])) =
      (let r := if test new.flags irqfTriggerMask then
          irqSetTriggerFlags (new.flags &&& irqfTriggerMask) (b.m.line irq)
        else (0, b.m.line irq)
      (r.1, r.2.withActions [])) := by
    obtain ⟨actions, ret⟩ := irqSetTriggerFlags_blind (H := H) (new.flags &&& irqfTriggerMask)
    split_ifs
    · exact Prod.ext (ret _ _) (actions _ _).1
    · rfl
  rw [blind]
  generalize set : (if test new.flags irqfTriggerMask then
    irqSetTriggerFlags (new.flags &&& irqfTriggerMask) (b.m.line irq) else (0, b.m.line irq)) = r at done
  have number : r.2.irq = irq := by
    rw [← set]
    split_ifs
    · exact ((irqSetTriggerFlags_blind _).1 (b.m.line irq) []).2.1
    · rfl
  dsimp only
  by_cases failed : r.1 ≠ 0
  · rw [if_pos failed] at done ⊢
    cases done
    have line : (b.onLine irq fun _ => r.2).m.line irq = r.2 :=
      b.m.line_onLine (f := fun _ => r.2) number
    rw [if_neg failed, Board.lineOf, line]
    rfl
  · rw [if_neg failed] at done ⊢
    cases done
    obtain ⟨actions, number', -⟩ := setupFirst_blind new r.2 []
    have line : ((b.onLine irq fun _ => setupFirst new r.2).link irq .head act).m.line irq =
        setupFirst new r.2 := b.m.line_onLine (f := fun _ => setupFirst new r.2) (number'.trans number)
    rw [if_pos rfl, Board.lineOf, line, actions, List.map_singleton, ← here]
    rfl

theorem installShared_refines {new : Irqaction} (here : b.heap.action act = new) {ret : Int}
    (done : installShared irq act (lastSlot cs) b = (ret, b')) :
    (let l := appendAction new (b.lineOf irq cs)
    if test l.desc.istate irqsSpuriousDisabled then
      (0, enableIrqDepth false (l.istateClear irqsSpuriousDisabled))
    else (0, l)) = (ret, b'.lineOf irq (cs ++ [act])) := by
  obtain ⟨-, -, action, machine⟩ := link_frame b irq act cs
  have joined : appendAction new (b.lineOf irq cs) =
      (b.m.line irq).withActions ((cs ++ [act]).map b.heap.action) := by
    rw [List.map_append, List.map_singleton, here]
    rfl
  unfold installShared at done
  dsimp only at done ⊢
  rw [machine] at done
  rw [joined]
  by_cases spurious : test (b.m.desc irq).istate irqsSpuriousDisabled = true
  · rw [if_pos spurious] at done
    cases done
    obtain ⟨actions, number, -⟩ := enableIrqDepth_blind ((b.m.line irq).istateClear irqsSpuriousDisabled)
      ((cs ++ [act]).map b.heap.action)
    refine (if_pos spurious).trans (Prod.ext rfl (actions.trans ?_))
    have line : ((b.link irq (lastSlot cs) act).onLine irq fun l =>
        enableIrqDepth false (l.istateClear irqsSpuriousDisabled)).m.line irq =
        enableIrqDepth false ((b.m.line irq).istateClear irqsSpuriousDisabled) := by
      rw [Board.onLine, machine]
      exact b.m.line_onLine (f := fun l => enableIrqDepth false (l.istateClear irqsSpuriousDisabled)) number
    have action' : ((b.link irq (lastSlot cs) act).onLine irq fun l =>
        enableIrqDepth false (l.istateClear irqsSpuriousDisabled)).heap.action = b.heap.action := action
    rw [Board.lineOf, line, action']
  · rw [if_neg spurious] at done
    cases done
    refine (if_neg spurious).trans (Prod.ext rfl ?_)
    dsimp only
    rw [Board.lineOf, machine, action]

theorem installAt_refines (ready : Joinable b irq act cs) {undefined fuel : Nat} {ret : Int}
    (done : installAt undefined fuel irq act b = some (ret, b')) :
    installAction undefined (b.heap.action act) (b.lineOf irq cs) =
      (ret, b'.lineOf irq (if ret = 0 then cs ++ [act] else cs)) := by
  have folded : (b.lineOf irq cs).desc.action.foldl (fun mask old => mask ||| old.threadMask) 0 =
      masks b.heap cs := by
    change (cs.map b.heap.action).foldl (fun mask old => mask ||| old.threadMask) 0 = _
    rw [List.foldl_map, masks]
  have empty : b.head irq = 0 ↔ (b.lineOf irq cs).desc.action = [] := by
    rw [ready.chain.null_iff]
    exact List.map_eq_nil_iff.symm
  unfold installAt at done
  unfold installAction
  rw [folded]
  dsimp only at done
  by_cases clash : b.head irq ≠ 0 ∧ mismatch (b.heap.action (b.head irq)) (b.heap.action act)
  · rw [if_pos clash] at done
    cases done
    refine if_pos ?_
    cases cs with
    | nil => exact absurd ready.chain clash.1
    | cons first rest =>
      obtain ⟨eq, -, -⟩ := ready.chain
      rw [eq] at clash
      exact clash.2
  rw [if_neg clash, walk_eq ready.chain] at done
  refine (if_neg fun clashed => clash ?_).trans ?_
  · cases cs with
    | nil => exact (Bool.false_ne_true clashed).elim
    | cons first rest =>
      obtain ⟨eq, live, -⟩ := ready.chain
      rw [eq] at live ⊢
      exact ⟨live, clashed⟩
  by_cases enough : cs.length ≤ fuel
  swap
  · rw [if_neg enough] at done
    cases done
  rw [if_pos enough, Option.map_some, Option.some_inj] at done
  by_cases full : test (b.heap.action act).flags irqfOneshot ∧ masks b.heap cs = BitVec.allOnes 32
  · rw [if_pos full] at done
    cases done
    exact if_pos full
  rw [if_neg full] at done
  refine (if_neg full).trans ?_
  generalize { b.heap.action act with
    threadMask := (1 : BitVec 32) <<< ffz undefined (masks b.heap cs) } = new at done ⊢
  have here : (b.write act new).heap.action act = new := write_action_self
  rw [← ready.lineOf_write new] at empty ⊢
  by_cases first : b.head irq = 0
  · rw [if_pos first] at done
    obtain rfl : cs = [] := ready.chain.null_iff.mp first
    refine (if_pos (not_not.mpr (empty.mp first))).trans ?_
    exact installFirst_refines here done
  · rw [if_neg first] at done
    have succeeded : ret = 0 := by
      have outcome := congrArg Prod.fst done
      unfold installShared at outcome
      dsimp only at outcome
      split_ifs at outcome <;> exact outcome.symm
    refine (if_neg (not_not.mpr fun none => first (empty.mpr none))).trans ?_
    rw [if_pos succeeded]
    exact installShared_refines here done

/-- `setup_irq` on the actions in memory is `setup_irq` on the lists of `XcKernel.Irq.Basic`. -/
theorem setupIrqAt_refines (ready : Joinable b irq act cs) {undefined fuel : Nat} {ret : Int}
    (done : setupIrqAt undefined fuel irq act b = some (ret, b')) :
    setupIrq undefined (b.heap.action act) (b.lineOf irq cs) =
      (ret, b'.lineOf irq (if ret = 0 then cs ++ [act] else cs)) := by
  have install : ∀ x, installAt undefined fuel irq act (b.write act x) = some (ret, b') →
      installAction undefined x (b.lineOf irq cs) =
        (ret, b'.lineOf irq (if ret = 0 then cs ++ [act] else cs)) := by
    intro x installed
    have refined := installAt_refines (ready.write x) installed
    rwa [write_action_self, ready.lineOf_write] at refined
  have same : b.write act (b.heap.action act) = b := by
    rw [Board.write, Function.update_eq_self]
  unfold setupIrqAt at done
  unfold setupIrq
  dsimp only at done ⊢
  by_cases noChip : (b.m.desc irq).chip.isNone = true
  · rw [if_pos noChip] at done
    cases done
    exact if_pos noChip
  rw [if_neg noChip] at done
  refine (if_neg noChip).trans ?_
  by_cases nested : test (b.m.desc irq).status irqNestedThread = true
  · rw [if_pos nested] at done
    refine (if_pos nested).trans ?_
    by_cases noThread : (b.heap.action act).threadFn = none
    · rw [if_pos noThread] at done ⊢
      cases done
      rfl
    · rw [if_neg noThread] at done ⊢
      exact install _ done
  rw [if_neg nested] at done
  refine (if_neg nested).trans ?_
  by_cases nothread : ¬ test (b.m.desc irq).status irqNothread = true
  · rw [if_pos nothread] at done
    have choice : (if ¬ test (b.lineOf irq cs).desc.status irqNothread = true then
        irqSetupForcedThreading (b.heap.action act) else b.heap.action act) =
        irqSetupForcedThreading (b.heap.action act) := if_pos nothread
    rw [choice]
    exact install _ done
  · rw [if_neg nothread] at done
    have choice : (if ¬ test (b.lineOf irq cs).desc.status irqNothread = true then
        irqSetupForcedThreading (b.heap.action act) else b.heap.action act) =
        b.heap.action act := if_neg nothread
    rw [choice]
    rw [← same] at done
    exact install _ done

/-- The actions of a line match the first one. -/
def Matching (heap : ActionHeap) : List Nat → Prop
  | [] => True
  | first :: rest => ∀ a ∈ rest, mismatch (heap.action first) (heap.action a) = false

/-- Each action of a line has the first thread mask that the ones before it left. -/
def Numbered (heap : ActionHeap) (cs : List Nat) : Prop :=
  ∀ before a after, cs = before ++ a :: after → ∃ undefined,
    (heap.action a).threadMask = (1 : BitVec 32) <<< ffz undefined (masks heap before)

theorem Matching.congr {heap heap' : ActionHeap} (matching : Matching heap cs)
    (same : ∀ a ∈ cs, heap'.action a = heap.action a) : Matching heap' cs := by
  cases cs with
  | nil => trivial
  | cons first rest =>
    intro a member
    rw [same first List.mem_cons_self, same a (List.mem_cons_of_mem first member)]
    exact matching a member

theorem Numbered.congr {heap heap' : ActionHeap} (numbered : Numbered heap cs)
    (same : ∀ a ∈ cs, heap'.action a = heap.action a) : Numbered heap' cs := by
  rintro before a after rfl
  rw [same a (by simp), masks_congr fun c member => same c (List.mem_append_left _ member)]
  exact numbered before a after rfl

theorem Matching.snoc {heap : ActionHeap} (matching : Matching heap cs)
    (joins : ∀ first rest, cs = first :: rest →
      mismatch (heap.action first) (heap.action act) = false) : Matching heap (cs ++ [act]) := by
  cases cs with
  | nil => exact nofun
  | cons first rest =>
    intro a member
    rcases List.mem_append.mp member with old | new
    · exact matching a old
    · rw [List.mem_singleton.mp new]
      exact joins first rest rfl

theorem Numbered.snoc {heap : ActionHeap} (numbered : Numbered heap cs)
    (mask : ∃ undefined,
      (heap.action act).threadMask = (1 : BitVec 32) <<< ffz undefined (masks heap cs)) :
    Numbered heap (cs ++ [act]) := by
  intro before a after eq
  cases after using List.reverseRec with
  | nil =>
    obtain ⟨rfl, last⟩ := List.append_inj' eq rfl
    obtain rfl : act = a := List.singleton_inj.mp last
    exact mask
  | append_singleton after last =>
    rw [← List.cons_append, ← List.append_assoc] at eq
    exact numbered before a after (List.append_inj' eq rfl).1

/-- What a run keeps: the chain of each line is the list of its accepted calls. -/
structure Chained (b₀ : Board H) (log : List Call) (b : Board H) : Prop where
  chain : ∀ irq, Chain 0 b.heap.next (b.head irq) (accepted log irq)
  apart : ∀ i j, i ≠ j → (accepted log i).Disjoint (accepted log j)
  matching : ∀ irq, Matching b.heap (accepted log irq)
  numbered : ∀ irq, Numbered b.heap (accepted log irq)
  chips : ∀ irq, (b.m.desc irq).chip = (b₀.m.desc irq).chip

variable {b₀ : Board H} {log : List Call}

theorem accepted_snoc_refused {ret : Int} (failed : ret ≠ 0) (i : Nat) :
    accepted (log ++ [⟨irq, act, ret⟩]) i = accepted log i := by
  simp [accepted, List.filter_append, failed]

theorem accepted_snoc_self : accepted (log ++ [⟨irq, act, 0⟩]) irq = accepted log irq ++ [act] := by
  simp [accepted, List.filter_append]

theorem accepted_snoc_of_ne {ret : Int} {i : Nat} (other : i ≠ irq) :
    accepted (log ++ [⟨irq, act, ret⟩]) i = accepted log i := by
  simp [accepted, List.filter_append, other.symm]

theorem Chained.ready (chained : Chained b₀ log b) (fresh : Fresh b act) (irq : Nat) :
    Joinable b irq act (accepted log irq) :=
  ⟨chained.chain irq, fresh.off irq _ (chained.chain irq), fresh.notNull, fresh.unlinked⟩

theorem Chained.refused (chained : Chained b₀ log b) (fresh : Fresh b act) {ret : Int}
    (failed : ret ≠ 0) (refused : Refused b b' irq act (accepted log irq)) :
    Chained b₀ (log ++ [⟨irq, act, ret⟩]) b' := by
  have same : ∀ i, ∀ a ∈ accepted log i, b'.heap.action a = b.heap.action a := by
    intro i a member
    apply refused.action
    rintro rfl
    exact (chained.ready fresh i).off member
  constructor
  · intro i
    rw [accepted_snoc_refused failed, refused.next, refused.head]
    exact chained.chain i
  · intro i j ne
    rw [accepted_snoc_refused failed, accepted_snoc_refused failed]
    exact chained.apart i j ne
  · intro i
    rw [accepted_snoc_refused failed]
    exact (chained.matching i).congr (same i)
  · intro i
    rw [accepted_snoc_refused failed]
    exact (chained.numbered i).congr (same i)
  · intro i
    rw [refused.chips, chained.chips]

theorem Chained.join (chained : Chained b₀ log b) (fresh : Fresh b act)
    (joined : Accepted b b' irq act (accepted log irq)) :
    Chained b₀ (log ++ [⟨irq, act, 0⟩]) b' := by
  have off : ∀ i, act ∉ accepted log i := fun i => (chained.ready fresh i).off
  have same : ∀ i, ∀ a ∈ accepted log i, b'.heap.action a = b.heap.action a := by
    intro i a member
    apply joined.action
    rintro rfl
    exact off i member
  have old : masks b'.heap (accepted log irq) = masks b.heap (accepted log irq) :=
    masks_congr (same irq)
  constructor
  · intro i
    by_cases here : i = irq
    · subst here
      rw [accepted_snoc_self]
      exact joined.chain
    · rw [accepted_snoc_of_ne here, joined.heads i here]
      exact (chained.chain i).congr fun a member =>
        joined.next a fun shared => chained.apart i irq here member shared
  · intro i j ne
    by_cases hi : i = irq
    · subst hi
      rw [accepted_snoc_self, accepted_snoc_of_ne ne.symm]
      refine List.disjoint_append_left.mpr ⟨chained.apart i j ne, ?_⟩
      exact List.singleton_disjoint.mpr (off j)
    by_cases hj : j = irq
    · subst hj
      rw [accepted_snoc_self, accepted_snoc_of_ne ne]
      refine List.disjoint_append_right.mpr ⟨chained.apart i j ne, ?_⟩
      exact List.disjoint_singleton.mpr (off i)
    · rw [accepted_snoc_of_ne hi, accepted_snoc_of_ne hj]
      exact chained.apart i j ne
  · intro i
    have kept := (chained.matching i).congr (same i)
    by_cases here : i = irq
    · subst here
      rw [accepted_snoc_self]
      refine kept.snoc fun first rest eq => ?_
      rw [same i first (eq ▸ List.mem_cons_self)]
      exact joined.joins first rest eq
    · rw [accepted_snoc_of_ne here]
      exact kept
  · intro i
    have kept := (chained.numbered i).congr (same i)
    by_cases here : i = irq
    · subst here
      rw [accepted_snoc_self]
      refine kept.snoc ?_
      rw [old]
      exact joined.mask
    · rw [accepted_snoc_of_ne here]
      exact kept
  · intro i
    rw [joined.chips, chained.chips]

/-- Lines without actions. -/
def NoActions (b : Board H) : Prop := ∀ irq, b.head irq = 0

theorem SetupRun.chained (empty : NoActions b₀) (run : SetupRun b₀ log b) : Chained b₀ log b := by
  induction run with
  | start =>
    have numbered : Numbered b₀.heap [] := fun before a after eq => by simp at eq
    exact ⟨empty, fun _ _ _ => List.disjoint_nil_left _, fun _ => trivial, fun _ => numbered, fun _ => rfl⟩
  | call run lt fresh returns ih =>
    rcases setupIrqAt_cases (ih.ready fresh _) returns with ⟨failed, refused⟩ | ⟨rfl, joined⟩
    · exact ih.refused fresh failed refused
    · exact ih.join fresh joined

theorem Chained.fresh (chained : Chained b₀ log b) (live : act ≠ 0) (unlinked : b.heap.next act = 0)
    (off : ∀ irq, act ∉ accepted log irq) : Fresh b act := by
  refine ⟨live, unlinked, fun irq cs chain => ?_⟩
  rw [chain.unique (chained.chain irq)]
  exact off irq

/-- An action with a thread that may share its line. -/
def sharedAction : Irqaction where
  handler := .own 0
  flags := irqfShared
  threadFn := some (.own 1)
  threadFlags := 0
  threadMask := 0

/-- The lines after `init_ISA_irqs`, with such actions everywhere in memory. -/
def sharedBoard : Board Pic where
  m := initIsaIrqs (earlyIrqInit ⟨0xffff, 0, 0, 0, 0, 0, 0⟩)
  head := fun _ => 0
  heap := { action := fun _ => sharedAction, next := fun _ => 0 }

/-- Calls of `setup_irq` for line 3 with the actions at 64, 128 and so on. -/
def sharedCalls (n : Nat) : List Call := (List.range n).map fun k => ⟨3, 64 * (k + 1), 0⟩

theorem sharedCalls_succ (n : Nat) : sharedCalls (n + 1) = sharedCalls n ++ [⟨3, 64 * (n + 1), 0⟩] := by
  simp [sharedCalls, List.range_succ]

theorem mem_accepted_sharedCalls {n irq a : Nat} (member : a ∈ accepted (sharedCalls n) irq) :
    ∃ k < n, a = 64 * (k + 1) := by
  simp only [accepted, sharedCalls, List.mem_map, List.mem_filter, List.mem_range] at member
  obtain ⟨c, ⟨⟨k, lt, rfl⟩, -⟩, rfl⟩ := member
  exact ⟨k, lt, rfl⟩

theorem sharedBoard_noActions : NoActions sharedBoard := fun _ => rfl

theorem sharedBoard_chip : (sharedBoard.m.desc 3).chip = some (i8259AChip false) := rfl

theorem sharedCalls_run (n : Nat) : ∃ b, SetupRun sharedBoard (sharedCalls n) b ∧
    (∀ k, n ≤ k → b.heap.action (64 * (k + 1)) = sharedAction ∧ b.heap.next (64 * (k + 1)) = 0) ∧
    ∀ k, (b.heap.action (64 * (k + 1))).flags = irqfShared := by
  induction n with
  | zero => exact ⟨sharedBoard, .start, fun _ _ => ⟨rfl, rfl⟩, fun _ => rfl⟩
  | succ n ih =>
    obtain ⟨b, run, untouched, flags⟩ := ih
    have chained := run.chained sharedBoard_noActions
    have off : ∀ k, n ≤ k → ∀ irq, 64 * (k + 1) ∉ accepted (sharedCalls n) irq := by
      intro k le irq member
      obtain ⟨k', lt, eq⟩ := mem_accepted_sharedCalls member
      omega
    obtain ⟨action, unlinked⟩ := untouched n (Nat.le_refl n)
    have fresh : Fresh b (64 * (n + 1)) := chained.fresh (by omega) unlinked (off n (Nat.le_refl n))
    have ready := chained.ready fresh 3
    obtain ⟨ret, b', returns⟩ := setupIrqAt_returns ready 0 (Nat.le_refl _)
    rcases setupIrqAt_cases ready returns with ⟨-, refused⟩ | ⟨rfl, joined⟩
    · have chip : (b.m.desc 3).chip = some (i8259AChip false) :=
        (chained.chips 3).trans sharedBoard_chip
      exfalso
      cases refused.cause with
      | noChip absent => simp [chip] at absent
      | noThread absent => simp [action, sharedAction] at absent
      | @clash first rest eq differs =>
        obtain ⟨k, -, rfl⟩ := mem_accepted_sharedCalls (eq ▸ List.mem_cons_self)
        rw [mismatch, flags k, flags n] at differs
        revert differs
        decide
      | full oneshot taken =>
        rw [action] at oneshot
        revert oneshot
        decide
      | trigger settable =>
        apply settable
        rw [Line.chip, Machine.line, chip]
        rfl
    · refine ⟨b', ?_, fun k le => ?_, fun k => ?_⟩
      · rw [sharedCalls_succ]
        exact run.call (by decide) fresh returns
      · have other : 64 * (k + 1) ≠ 64 * (n + 1) := by omega
        rw [joined.action _ other, joined.next _ (off k (by omega) 3)]
        exact untouched k (by omega)
      · by_cases here : k = n
        · subst here
          rw [joined.flags]
          exact flags k
        · rw [joined.action _ (by omega)]
          exact flags k

/-- Two actions may share a line. -/
structure Agree (x y : Irqaction) : Prop where
  trigger : x.flags &&& irqfTriggerMask = y.flags &&& irqfTriggerMask
  oneshot : x.flags &&& irqfOneshot = y.flags &&& irqfOneshot
  percpu : x.flags &&& irqfPercpu = y.flags &&& irqfPercpu

theorem Agree.trans {x y z : Irqaction} (left : Agree x y) (right : Agree y z) : Agree x z :=
  ⟨left.trigger.trans right.trigger, left.oneshot.trans right.oneshot,
    left.percpu.trans right.percpu⟩

theorem Agree.symm {x y : Irqaction} (agree : Agree x y) : Agree y x :=
  ⟨agree.trigger.symm, agree.oneshot.symm, agree.percpu.symm⟩

theorem mismatch_eq_false {old new : Irqaction} (matching : mismatch old new = false) :
    test old.flags irqfShared ∧ test new.flags irqfShared ∧ Agree old new := by
  simp only [mismatch, Bool.or_eq_false_iff, Bool.not_eq_false', bne_eq_false_iff_eq] at matching
  obtain ⟨⟨⟨shared, trigger⟩, oneshot⟩, percpu⟩ := matching
  obtain ⟨old_shared, new_shared⟩ := test_and shared
  exact ⟨old_shared, new_shared, and_eq_of_test_xor trigger, and_eq_of_test_xor oneshot, percpu⟩

theorem Matching.agree {heap : ActionHeap} (matching : Matching heap cs) (two : 2 ≤ cs.length) :
    (∀ a ∈ cs, test (heap.action a).flags irqfShared) ∧
      ∀ a ∈ cs, ∀ c ∈ cs, Agree (heap.action a) (heap.action c) := by
  obtain _ | ⟨first, _ | ⟨second, rest⟩⟩ := cs
  · simp at two
  · simp at two
  have later : ∀ a ∈ second :: rest, _ := fun a member => mismatch_eq_false (matching a member)
  have toFirst : ∀ a ∈ first :: second :: rest, Agree (heap.action first) (heap.action a) := by
    intro a member
    rcases List.mem_cons.mp member with rfl | member
    · exact ⟨rfl, rfl, rfl⟩
    · exact (later a member).2.2
  refine ⟨fun a member => ?_, fun a ha c hc => (toFirst a ha).symm.trans (toFirst c hc)⟩
  rcases List.mem_cons.mp member with rfl | member
  · exact (later second List.mem_cons_self).1
  · exact (later a member).2.1

/-- The chain of a line of the 8259A is the list of the actions that `setup_irq` accepted, in
the order of the calls.  Actions that share it agree, and a further call returns; if it fails,
it leaves the chain and the line as they were. -/
theorem setup_irq_chain {b₀ b : Board Pic} {log : List Call} {irq : Nat} {autoEoi : Bool}
    (empty : NoActions b₀) (lt : irq < nrIrqs)
    (chip : (b₀.m.desc irq).chip = some (i8259AChip autoEoi)) (run : SetupRun b₀ log b) :
    Chain 0 b.heap.next (b.head irq) (accepted log irq) ∧
      (2 ≤ (accepted log irq).length →
        (∀ a ∈ accepted log irq, test (b.heap.action a).flags irqfShared) ∧
          ∀ a ∈ accepted log irq, ∀ c ∈ accepted log irq, Agree (b.heap.action a) (b.heap.action c)) ∧
      ∀ act undefined fuel, Fresh b act → (accepted log irq).length ≤ fuel →
        ∃ ret b', setupIrqAt undefined fuel irq act b = some (ret, b') ∧
          SetupRun b₀ (log ++ [⟨irq, act, ret⟩]) b' ∧
          (ret ≠ 0 → Chain 0 b'.heap.next (b'.head irq) (accepted log irq) ∧
            (∀ a ∈ accepted log irq, b'.heap.action a = b.heap.action a) ∧
            (b'.m.desc irq).depth = (b.m.desc irq).depth ∧
            (b'.m.desc irq).istate = (b.m.desc irq).istate ∧
            (b'.m.desc irq).state = (b.m.desc irq).state) := by
  have chained := run.chained empty
  refine ⟨chained.chain irq, (chained.matching irq).agree, fun act undefined fuel fresh enough => ?_⟩
  have ready := chained.ready fresh irq
  obtain ⟨ret, b', returns⟩ := setupIrqAt_returns ready undefined enough
  refine ⟨ret, b', returns, run.call lt fresh returns, fun failed => ?_⟩
  have refused : Refused b b' irq act (accepted log irq) := by
    rcases setupIrqAt_cases ready returns with ⟨-, refused⟩ | ⟨succeeded, -⟩
    · exact refused
    · exact absurd succeeded failed
  -- the 8259A has no `irq_set_type`, so the failure is one that comes before any write
  have lines : b'.m = b.m := by
    apply refused.lines
    rw [Line.chip, Machine.line, chained.chips, chip]
    rfl
  rw [refused.next, refused.head, lines]
  refine ⟨ready.chain, fun a member => refused.action a ?_, rfl, rfl, rfl⟩
  rintro rfl
  exact ready.off member

theorem setup_irq_chain_shared : ∃ b, SetupRun sharedBoard (sharedCalls 2) b ∧
    Chain 0 b.heap.next (b.head 3) [64, 128] ∧ test (b.heap.action 128).flags irqfShared := by
  obtain ⟨b, run, -, -⟩ := sharedCalls_run 2
  obtain ⟨chain, agree, -⟩ := setup_irq_chain sharedBoard_noActions (by decide) sharedBoard_chip run
  exact ⟨b, run, chain, (agree (by decide)).1 128 (by decide)⟩

/-- `1 << IRQTF_RUNTHREAD` -/
def irqtfRunthread : BitVec 32 := 0x00000001

/-- `1 << IRQTF_DIED` -/
def irqtfDied : BitVec 32 := 0x00000002

/-- `irq_wake_thread` on the action and `desc->threads_oneshot` -/
def irqWakeThread (action : Irqaction) (threadsOneshot : BitVec 32) : Irqaction × BitVec 32 :=
  if test action.threadFlags irqtfDied then (action, threadsOneshot)
  else if test action.threadFlags irqtfRunthread then (action, threadsOneshot)
  else ({ action with threadFlags := set action.threadFlags irqtfRunthread },
    threadsOneshot ||| action.threadMask)

/-- Each action has a bit of its own, so that `irq_wake_thread` for one does not set the
bit of another. -/
structure Identified (heap : ActionHeap) (cs : List Nat) : Prop where
  single : ∀ a ∈ cs, ∃ bit < 32, (heap.action a).threadMask = (1 : BitVec 32) <<< bit
  different : cs.Pairwise fun a c => (heap.action a).threadMask ≠ (heap.action c).threadMask
  apart : ∀ a ∈ cs, ∀ c ∈ cs, a ≠ c → ∀ threadsOneshot,
    test (irqWakeThread (heap.action a) threadsOneshot).2 (heap.action c).threadMask =
      test threadsOneshot (heap.action c).threadMask

/-- Bits `k` and up are free. -/
def below (k : Nat) : BitVec 32 := BitVec.ofNat 32 (2 ^ k - 1)

theorem ffz_below (undefined : Nat) {k : Nat} (lt : k < 32) : ffz undefined (below k) = k := by
  have all : ∀ k < 32, ((List.range 32).find? fun i => !(below k).getLsbD i) = some k := by decide
  rw [ffz, all k lt]
  rfl

theorem below_or {k : Nat} (lt : k < 32) : below k ||| (1 : BitVec 32) <<< k = below (k + 1) := by
  have all : ∀ k < 32, below k ||| (1 : BitVec 32) <<< k = below (k + 1) := by decide
  exact all k lt

theorem bits_disjoint {i j : Nat} (hi : i < 32) (hj : j < 32) (ne : i ≠ j) :
    (1 : BitVec 32) <<< i &&& (1 : BitVec 32) <<< j = 0 := by
  have all : ∀ i < 32, ∀ j < 32, i ≠ j → (1 : BitVec 32) <<< i &&& (1 : BitVec 32) <<< j = 0 := by
    decide +kernel
  exact all i hi j hj ne

theorem masks_snoc (heap : ActionHeap) (cs : List Nat) (a : Nat) :
    masks heap (cs ++ [a]) = masks heap cs ||| (heap.action a).threadMask := by
  simp [masks]

theorem Numbered.left {heap : ActionHeap} {after : List Nat} (numbered : Numbered heap (cs ++ after)) :
    Numbered heap cs := by
  rintro before a rest rfl
  exact numbered before a (rest ++ after) (by simp)

theorem Numbered.masks_eq {heap : ActionHeap} (numbered : Numbered heap cs) (fits : cs.length ≤ 32) :
    masks heap cs = below cs.length := by
  induction cs using List.reverseRec with
  | nil => rfl
  | append_singleton cs a ih =>
    rw [List.length_append, List.length_singleton] at fits ⊢
    have lt : cs.length < 32 := fits
    have before := ih numbered.left lt.le
    obtain ⟨undefined, mask⟩ := numbered cs a [] rfl
    rw [masks_snoc, mask, before, ffz_below undefined lt, below_or lt]

theorem Numbered.mask_eq {heap : ActionHeap} {before after : List Nat} {a : Nat}
    (numbered : Numbered heap (before ++ a :: after)) (fits : before.length < 32) :
    (heap.action a).threadMask = (1 : BitVec 32) <<< before.length := by
  obtain ⟨undefined, mask⟩ := numbered before a after rfl
  rw [mask, numbered.left.masks_eq fits.le, ffz_below undefined fits]

theorem Numbered.mask_getElem {heap : ActionHeap} (numbered : Numbered heap cs)
    (fits : cs.length ≤ 32) {i : Nat} (lt : i < cs.length) :
    (heap.action cs[i]).threadMask = (1 : BitVec 32) <<< i := by
  have parts : cs = cs.take i ++ cs[i] :: cs.drop (i + 1) := by
    rw [List.getElem_cons_drop, List.take_append_drop]
  have size : (cs.take i).length = i := List.length_take_of_le lt.le
  rw [parts] at numbered
  rw [numbered.mask_eq (by omega), size]

theorem bits_injective {i j : Nat} (hi : i < 32) (hj : j < 32) (ne : i ≠ j) :
    (1 : BitVec 32) <<< i ≠ (1 : BitVec 32) <<< j := by
  intro eq
  have zero := bits_disjoint hi hj ne
  rw [← eq, BitVec.and_self] at zero
  have all : ∀ i < 32, (1 : BitVec 32) <<< i ≠ 0 := by decide
  exact all i hi zero

theorem irqWakeThread_apart {action : Irqaction} {mask : BitVec 32}
    (disjoint : action.threadMask &&& mask = 0) (threadsOneshot : BitVec 32) :
    test (irqWakeThread action threadsOneshot).2 mask = test threadsOneshot mask := by
  unfold irqWakeThread
  split_ifs
  · rfl
  · rfl
  · exact test_set_of_disjoint threadsOneshot disjoint

theorem Numbered.identified_iff {heap : ActionHeap} (numbered : Numbered heap cs) :
    Identified heap cs ↔ cs.length ≤ 32 := by
  constructor
  · intro identified
    have nodup : (cs.map fun a => (heap.action a).threadMask).Nodup :=
      List.pairwise_map.mpr identified.different
    have bits : (cs.map fun a => (heap.action a).threadMask) ⊆
        (List.range 32).map fun bit => (1 : BitVec 32) <<< bit := by
      intro mask member
      obtain ⟨a, here, rfl⟩ := List.mem_map.mp member
      obtain ⟨bit, lt, eq⟩ := identified.single a here
      exact List.mem_map.mpr ⟨bit, List.mem_range.mpr lt, eq.symm⟩
    simpa using (List.subperm_of_subset nodup bits).length_le
  · intro fits
    constructor
    · intro a member
      obtain ⟨i, lt, rfl⟩ := List.mem_iff_getElem.mp member
      exact ⟨i, by omega, numbered.mask_getElem fits lt⟩
    · rw [List.pairwise_iff_getElem]
      intro i j hi hj lt
      rw [numbered.mask_getElem fits hi, numbered.mask_getElem fits hj]
      exact bits_injective (by omega) (by omega) (by omega)
    · intro a ha c hc ne threadsOneshot
      obtain ⟨i, hi, rfl⟩ := List.mem_iff_getElem.mp ha
      obtain ⟨j, hj, rfl⟩ := List.mem_iff_getElem.mp hc
      have other : i ≠ j := by
        rintro rfl
        exact ne rfl
      apply irqWakeThread_apart
      rw [numbered.mask_getElem fits hi, numbered.mask_getElem fits hj]
      exact bits_disjoint (by omega) (by omega) other

theorem length_accepted (succeed : ∀ c ∈ log, c.irq = irq → c.ret = 0) :
    (accepted log irq).length = (log.filter fun c => c.irq = irq).length := by
  rw [accepted, List.length_map]
  congr 1
  apply List.filter_congr
  intro c member
  by_cases here : c.irq = irq
  · simp [here, succeed c member here]
  · simp [here]

/-- After successful calls for a line, the thread masks tell its actions apart if and only
if there were at most 32 of them.  The guard of `__setup_irq` against a full word is for
`IRQF_ONESHOT` alone, while `irq_wake_thread` uses the mask of every action. -/
theorem setup_irq_thread_mask_iff {b₀ b : Board H} {log : List Call} {irq : Nat} (empty : NoActions b₀)
    (run : SetupRun b₀ log b) (succeed : ∀ c ∈ log, c.irq = irq → c.ret = 0) :
    Chain 0 b.heap.next (b.head irq) (accepted log irq) ∧
      (Identified b.heap (accepted log irq) ↔ (log.filter fun c => c.irq = irq).length ≤ 32) := by
  have chained := run.chained empty
  refine ⟨chained.chain irq, ?_⟩
  rw [← length_accepted succeed]
  exact (chained.numbered irq).identified_iff

theorem sharedCalls_succeed (n : Nat) : ∀ c ∈ sharedCalls n, c.irq = 3 → c.ret = 0 := by
  intro c member _
  obtain ⟨k, -, rfl⟩ := List.mem_map.mp member
  rfl

theorem setup_irq_thread_mask_shared : ∃ b, SetupRun sharedBoard (sharedCalls 32) b ∧
    Identified b.heap (accepted (sharedCalls 32) 3) := by
  obtain ⟨b, run, -, -⟩ := sharedCalls_run 32
  obtain ⟨-, identified⟩ := setup_irq_thread_mask_iff sharedBoard_noActions run (sharedCalls_succeed 32)
  exact ⟨b, run, identified.mpr (by decide)⟩

/-- The 33rd action that shares a line has no bit of its own. -/
theorem setup_irq_thread_mask_full : ∃ b, SetupRun sharedBoard (sharedCalls 33) b ∧
    (∀ c ∈ sharedCalls 33, c.ret = 0) ∧
    Chain 0 b.heap.next (b.head 3) (accepted (sharedCalls 33) 3) ∧
    ¬ Identified b.heap (accepted (sharedCalls 33) 3) := by
  obtain ⟨b, run, -, -⟩ := sharedCalls_run 33
  have chained := run.chained sharedBoard_noActions
  refine ⟨b, run, by decide, chained.chain 3, fun identified => ?_⟩
  have fits := (chained.numbered 3).identified_iff.mp identified
  revert fits
  decide

end XcKernel.Irq
