import XcKernel.Irq.I8259
import XcKernel.Lib.Run

/-!
# The state of a line

Depth, flags, cached mask and mask registers of the lines of the 8259A, in every
run of the calls that change them.  A delivery is cut where the handlers run:
between `entered` and `left` any other call may come, deliveries included, and the
lines whose handlers are running form a stack.
-/

namespace XcKernel.Irq

open Flags

namespace Pic

/-- The bit of the line in `cached_irq_mask`. -/
def bit (p : Pic) (irq : Nat) : Bool := p.cachedIrqMask.getLsbD irq

/-- The registers hold the two bytes of `cached_irq_mask`. -/
structure Synced (p : Pic) : Prop where
  master : p.masterImr = p.cachedMasterMask
  slave : p.slaveImr = p.cachedSlaveMask

/-- Nothing but the bit of one line changes, and the registers follow. -/
structure Frame (irq : Nat) (p p' : Pic) : Prop where
  bit : ∀ i, i ≠ irq → p'.bit i = p.bit i
  synced : p.Synced → p'.Synced

theorem Frame.refl (irq : Nat) (p : Pic) : Frame irq p p := ⟨fun _ _ => rfl, id⟩

theorem Frame.trans {irq : Nat} {p p' p'' : Pic} (left : Frame irq p p') (right : Frame irq p' p'') :
    Frame irq p p'' :=
  ⟨fun i ne => (right.bit i ne).trans (left.bit i ne), fun h => right.synced (left.synced h)⟩

end Pic

variable {irq : Nat} {p : Pic}

theorem and_eight (lt : irq < nrIrqs) : irq &&& 8 ≠ 0 ↔ 8 ≤ irq := by
  have all : ∀ i < nrIrqs, (i &&& 8 ≠ 0 ↔ 8 ≤ i) := by decide
  exact all irq lt

@[simp] theorem writeMask_cached (p : Pic) (irq : Nat) :
    (p.writeMask irq).cachedIrqMask = p.cachedIrqMask := by
  unfold Pic.writeMask Pic.outb
  split_ifs <;> rfl

theorem frame_writeMask (lt : irq < nrIrqs) {q : Pic} (master : q.masterImr = p.masterImr)
    (slave : q.slaveImr = p.slaveImr) (others : ∀ i, i ≠ irq → q.bit i = p.bit i) :
    Pic.Frame irq p (q.writeMask irq) := by
  constructor
  · intro i ne
    rw [Pic.bit, writeMask_cached]
    exact others i ne
  · intro synced
    rw [nrIrqs] at lt
    by_cases upper : irq &&& 8 ≠ 0
    · have high := (and_eight lt).mp upper
      rw [Pic.writeMask, if_pos upper]
      refine ⟨?_, rfl⟩
      refine (master.trans synced.master).trans ?_
      apply BitVec.eq_of_getLsbD_eq
      intro i small
      simp only [Pic.cachedMasterMask, BitVec.getLsbD_setWidth, small, decide_true, Bool.true_and]
      exact (others i (by omega)).symm
    · have low : irq < 8 := by
        by_contra high
        exact upper ((and_eight lt).mpr (by omega))
      rw [Pic.writeMask, if_neg upper]
      refine ⟨rfl, ?_⟩
      refine (slave.trans synced.slave).trans ?_
      apply BitVec.eq_of_getLsbD_eq
      intro i small
      simp only [Pic.cachedSlaveMask, BitVec.getLsbD_setWidth, small, decide_true, Bool.true_and,
        BitVec.getLsbD_ushiftRight]
      exact (others (8 + i) (by omega)).symm

theorem getLsbD_bit (lt : irq < nrIrqs) (i : Nat) :
    ((1 : BitVec 32) <<< irq).getLsbD i = decide (i = irq) := by
  rw [nrIrqs] at lt
  change ((1#32) <<< irq).getLsbD i = decide (i = irq)
  rw [← BitVec.twoPow_eq, BitVec.getLsbD_twoPow]
  by_cases same : i = irq
  · subst same
    simp [show i < 32 by omega]
  · simp [same, Ne.symm same]

theorem mask8259AIrq_bit (lt : irq < nrIrqs) (p : Pic) : (mask8259AIrq irq p).bit irq = true := by
  rw [Pic.bit, mask8259AIrq, writeMask_cached, BitVec.getLsbD_or, getLsbD_bit lt]
  simp

theorem mask8259AIrq_frame (lt : irq < nrIrqs) (p : Pic) :
    Pic.Frame irq p (mask8259AIrq irq p) := by
  refine frame_writeMask lt rfl rfl fun i ne => ?_
  rw [Pic.bit, BitVec.getLsbD_or, getLsbD_bit lt]
  simp [ne, Pic.bit]

theorem unmask8259AIrq_bit (lt : irq < nrIrqs) (p : Pic) :
    (unmask8259AIrq irq p).bit irq = false := by
  rw [Pic.bit, unmask8259AIrq, writeMask_cached, BitVec.getLsbD_and, BitVec.getLsbD_not,
    getLsbD_bit lt]
  simp

theorem unmask8259AIrq_frame (lt : irq < nrIrqs) (p : Pic) :
    Pic.Frame irq p (unmask8259AIrq irq p) := by
  refine frame_writeMask lt rfl rfl fun i ne => ?_
  rw [Pic.bit, BitVec.getLsbD_and, BitVec.getLsbD_not, getLsbD_bit lt]
  by_cases small : i < 32
  · simp [ne, small, Pic.bit]
  · rw [Pic.bit, BitVec.getLsbD_of_ge _ _ (by omega), Bool.false_and]

theorem handleRealIrq_eq (irq : Nat) (p : Pic) : handleRealIrq irq p = p.writeMask irq := by
  unfold handleRealIrq Pic.writeMask
  split_ifs <;> rfl

theorem test_bit (lt : irq < nrIrqs) (x : BitVec 32) :
    test x ((1 : BitVec 32) <<< irq) = x.getLsbD irq := by
  rw [nrIrqs] at lt
  rw [Bool.eq_iff_iff, test_eq_true_iff]
  change x &&& ((1#32) <<< irq) ≠ 0 ↔ _
  rw [← BitVec.twoPow_eq, BitVec.and_twoPow]
  have nonzero : BitVec.twoPow 32 irq ≠ 0#32 := by
    intro zero
    have := congrArg (·.getLsbD irq) zero
    simp [show irq < 32 by omega] at this
  cases x.getLsbD irq <;> simp [nonzero]

theorem maskAndAck8259A_spec (lt : irq < nrIrqs) (p : Pic) :
    (maskAndAck8259A irq p).bit irq = true ∧ Pic.Frame irq p (maskAndAck8259A irq p) := by
  -- a line that is masked already keeps its mask, whatever is counted
  have again : ∀ q : Pic, q.cachedIrqMask = p.cachedIrqMask → q.masterImr = p.masterImr →
      q.slaveImr = p.slaveImr → p.cachedIrqMask.getLsbD irq = true →
      (q.writeMask irq).bit irq = true ∧ Pic.Frame irq p (q.writeMask irq) := by
    intro q cached master slave masked
    refine ⟨?_, frame_writeMask lt master slave fun i _ => ?_⟩
    · rw [Pic.bit, writeMask_cached, cached, masked]
    · rw [Pic.bit, Pic.bit, cached]
  simp only [maskAndAck8259A, handleRealIrq_eq, test_bit lt]
  by_cases masked : p.cachedIrqMask.getLsbD irq = true
  · rw [if_neg (by simp [masked])]
    split
    · exact again p rfl rfl rfl masked
    · exact again _ rfl rfl rfl masked
  · rw [if_pos masked]
    exact ⟨mask8259AIrq_bit lt p, mask8259AIrq_frame lt p⟩

/-- What holds of a line at every point where another call may come; `running` says
whether its handlers are running. -/
structure LineInv (running : Bool) (l : Line Pic) : Prop where
  chip : l.desc.chip = some (i8259AChip false)
  depth : l.desc.depth ≠ 0 ↔ l.disabled = true
  closed : l.desc.depth ≠ 0 → l.hw.bit l.irq = true
  opened : l.desc.depth = 0 → l.desc.action ≠ [] → running = false → l.hw.bit l.irq = false
  inprogress : l.inprogress = running
  busy : running = true → l.desc.action ≠ []
  oneshot : test l.desc.istate irqsOneshot = false
  suspended : test l.desc.istate irqsSuspended = false
  autoen : test l.desc.status irqNoautoen = false

/-- A call that keeps the line and leaves the other lines of the controllers alone. -/
structure Keeps (running : Bool) (l l' : Line Pic) : Prop where
  inv : LineInv running l'
  irq : l'.irq = l.irq
  frame : Pic.Frame l.irq l.hw l'.hw

variable {l : Line Pic} {running : Bool}

section Callbacks

variable (chip : l.desc.chip = some (i8259AChip false))
include chip

theorem chip_eq : l.chip = i8259AChip false := by rw [Line.chip, chip]; rfl

theorem maskAckIrq_eq : maskAckIrq l =
    irqStateSetMasked { l with hw := maskAndAck8259A l.irq l.hw } := by
  rw [maskAckIrq, chip_eq chip]
  rfl

theorem unmaskIrq_eq : unmaskIrq l =
    irqStateClrMasked { l with hw := unmask8259AIrq l.irq l.hw } := by
  rw [unmaskIrq, chip_eq chip]
  rfl

theorem irqEnable_eq : irqEnable l = irqStateClrMasked
    { irqStateClrDisabled l with hw := unmask8259AIrq l.irq l.hw } := by
  have same : (irqStateClrDisabled l).chip = i8259AChip false := chip_eq chip
  simp only [irqEnable, same]
  rfl

theorem irqDisable_eq : irqDisable l = irqStateSetMasked
    { irqStateSetDisabled l with hw := mask8259AIrq l.irq l.hw } := by
  have same : (irqStateSetDisabled l).chip = i8259AChip false := chip_eq chip
  simp only [irqDisable, same]
  rfl

theorem irqStartup_eq : irqStartup l = (0, irqEnable ((irqStateClrDisabled l).setDepth 0)) := by
  have same : ((irqStateClrDisabled l).setDepth 0).chip = i8259AChip false := chip_eq chip
  simp only [irqStartup, same]
  rfl

theorem checkIrqResend_eq : ∃ istate, checkIrqResend l =
      { l with desc := { l.desc with istate := istate } } ∧
    test istate irqsOneshot = test l.desc.istate irqsOneshot ∧
    test istate irqsSuspended = test l.desc.istate irqsSuspended := by
  have same : ((l.istateClear irqsPending).istateSet irqsReplay).chip = i8259AChip false :=
    chip_eq chip
  simp only [checkIrqResend, same]
  split_ifs
  · exact ⟨_, rfl, rfl, rfl⟩
  · exact ⟨_, rfl, rfl, rfl⟩
  · refine ⟨_, rfl, ?_, ?_⟩
    all_goals
      simp (disch := decide) only [Line.istateClear, test_set_of_disjoint, test_clear_of_disjoint]
  · exact ⟨_, rfl, rfl, rfl⟩

theorem irqSetTriggerFlags_eq (flags : BitVec 32) : irqSetTriggerFlags flags l = (0, l) := by
  rw [irqSetTriggerFlags, chip_eq chip]
  rfl

end Callbacks

theorem add_one_ne_zero {depth : BitVec 32} (room : depth.toNat + 1 < 2 ^ 32) : depth + 1 ≠ 0 := by
  intro zero
  have := congrArg BitVec.toNat zero
  rw [BitVec.toNat_add] at this
  change (depth.toNat + 1) % 2 ^ 32 = 0 at this
  omega

theorem disableIrqNosync_eq (l : Line Pic) : disableIrqNosync l =
    if l.desc.depth = 0 then irqDisable (l.setDepth (l.desc.depth + 1))
    else l.setDepth (l.desc.depth + 1) := rfl

theorem enableIrq_eq (l : Line Pic) : enableIrq l =
    if l.desc.depth = 0 then l
    else if l.desc.depth = 1 then
      if test l.desc.istate irqsSuspended then l
      else
        let l := checkIrqResend (irqEnable (l.settingsSet irqNoprobe))
        l.setDepth (l.desc.depth - 1)
    else l.setDepth (l.desc.depth - 1) := rfl

theorem disableIrqNosync_keeps (lt : l.irq < nrIrqs) (inv : LineInv running l)
    (room : l.desc.depth.toNat + 1 < 2 ^ 32) : Keeps running l (disableIrqNosync l) := by
  have deeper := add_one_ne_zero room
  have chip : (l.setDepth (l.desc.depth + 1)).desc.chip = some (i8259AChip false) := inv.chip
  by_cases zero : l.desc.depth = 0
  · rw [disableIrqNosync_eq, if_pos zero, irqDisable_eq chip]
    refine ⟨⟨inv.chip, ?_, fun _ => mask8259AIrq_bit lt _, ?_, ?_, inv.busy, inv.oneshot,
      inv.suspended, inv.autoen⟩, rfl, mask8259AIrq_frame lt _⟩
    · refine iff_of_true deeper ?_
      simp (disch := decide) only [Line.disabled, irqStateSetMasked, irqStateSetDisabled,
        Line.irqdSet, test_set_of_disjoint, test_set_self]
    · exact fun depth => (deeper depth).elim
    · rw [← inv.inprogress]
      simp (disch := decide) only [Line.inprogress, irqStateSetMasked, irqStateSetDisabled,
        Line.irqdSet, test_set_of_disjoint, Line.setDepth]
  · rw [disableIrqNosync_eq, if_neg zero]
    exact ⟨⟨inv.chip, iff_of_true deeper (inv.depth.mp zero), fun _ => inv.closed zero,
      fun depth => (deeper depth).elim, inv.inprogress, inv.busy, inv.oneshot, inv.suspended,
      inv.autoen⟩, rfl, .refl _ _⟩

/-- What `irq_enable` needs of a line. -/
structure Ready (running : Bool) (l : Line Pic) : Prop where
  chip : l.desc.chip = some (i8259AChip false)
  inprogress : l.inprogress = running
  busy : running = true → l.desc.action ≠ []
  oneshot : test l.desc.istate irqsOneshot = false
  suspended : test l.desc.istate irqsSuspended = false
  autoen : test l.desc.status irqNoautoen = false

theorem LineInv.ready (inv : LineInv running l) : Ready running l :=
  ⟨inv.chip, inv.inprogress, inv.busy, inv.oneshot, inv.suspended, inv.autoen⟩

theorem Ready.settingsSet (ready : Ready running l) (mask : BitVec 32)
    (disjoint : mask &&& irqNoautoen = 0) : Ready running (l.settingsSet mask) :=
  ⟨ready.chip, ready.inprogress, ready.busy, ready.oneshot, ready.suspended,
    (test_set_of_disjoint _ disjoint).trans ready.autoen⟩

theorem Ready.irqdSet (ready : Ready running l) (mask : BitVec 32)
    (disjoint : mask &&& irqdIrqInprogress = 0) : Ready running (l.irqdSet mask) :=
  ⟨ready.chip, (test_set_of_disjoint _ disjoint).trans ready.inprogress, ready.busy, ready.oneshot,
    ready.suspended, ready.autoen⟩

theorem irqEnable_bit (lt : l.irq < nrIrqs) (chip : l.desc.chip = some (i8259AChip false)) :
    (irqEnable l).hw.bit l.irq = false := by
  rw [irqEnable_eq chip]
  exact unmask8259AIrq_bit lt _

theorem irqEnable_keeps (lt : l.irq < nrIrqs) (ready : Ready running l) :
    Keeps running l ((irqEnable l).setDepth 0) := by
  rw [irqEnable_eq ready.chip]
  refine ⟨⟨ready.chip, ?_, fun depth => (depth rfl).elim, fun _ _ _ => unmask8259AIrq_bit lt _, ?_,
    ready.busy, ready.oneshot, ready.suspended, ready.autoen⟩, rfl, unmask8259AIrq_frame lt _⟩
  · refine iff_of_false (fun depth => depth rfl) ?_
    simp (disch := decide) only [Line.setDepth, Line.disabled, irqStateClrMasked,
      irqStateClrDisabled, Line.irqdSet, Line.irqdClear, test_set_of_disjoint, test_clear_self,
      Bool.false_eq_true, not_false_eq_true]
  · rw [← ready.inprogress]
    simp (disch := decide) only [Line.setDepth, Line.inprogress, irqStateClrMasked,
      irqStateClrDisabled, Line.irqdSet, Line.irqdClear, test_set_of_disjoint,
      test_clear_of_disjoint]

theorem enableIrq_keeps (lt : l.irq < nrIrqs) (inv : LineInv running l) :
    Keeps running l (enableIrq l) := by
  rw [enableIrq_eq]
  by_cases zero : l.desc.depth = 0
  · rw [if_pos zero]
    exact ⟨inv, rfl, .refl _ _⟩
  rw [if_neg zero]
  by_cases last : l.desc.depth = 1
  · rw [if_pos last, if_neg (by simp [inv.suspended])]
    -- the line that `irq_enable` sees differs in a setting only
    have enabled := irqEnable_keeps (l := l.settingsSet irqNoprobe) lt
      (inv.ready.settingsSet irqNoprobe (by decide))
    have depth : (irqEnable (l.settingsSet irqNoprobe)).desc.depth = 1 := by
      rw [irqEnable_eq (by exact inv.chip)]
      exact last
    obtain ⟨istate, resend, oneshot, suspended⟩ :=
      checkIrqResend_eq (l := irqEnable (l.settingsSet irqNoprobe)) enabled.inv.chip
    dsimp only
    rw [resend]
    have final : (irqEnable (l.settingsSet irqNoprobe)).desc.depth - 1 = 0 := by
      rw [depth]
      rfl
    rw [final]
    have inv' := enabled.inv
    exact ⟨⟨inv'.chip, inv'.depth, inv'.closed, inv'.opened, inv'.inprogress, inv'.busy,
      oneshot.trans inv'.oneshot, suspended.trans inv'.suspended, inv'.autoen⟩, enabled.irq,
      enabled.frame⟩
  · rw [if_neg last]
    have deeper : l.desc.depth - 1 ≠ 0 := by
      intro done
      exact last (sub_eq_zero.mp done)
    exact ⟨⟨inv.chip, iff_of_true deeper (inv.depth.mp zero), fun _ => inv.closed zero,
      fun depth => (deeper depth).elim, inv.inprogress, inv.busy, inv.oneshot, inv.suspended,
      inv.autoen⟩, rfl, .refl _ _⟩

theorem irqStartup_keeps (lt : l.irq < nrIrqs) (ready : Ready running l) :
    Keeps running l (irqStartup l).2 ∧ (irqStartup l).2.hw.bit l.irq = false := by
  have ready' : Ready running ((irqStateClrDisabled l).setDepth 0) :=
    ⟨ready.chip, (test_clear_of_disjoint _ (by decide)).trans ready.inprogress, ready.busy,
      ready.oneshot, ready.suspended, ready.autoen⟩
  have enabled := irqEnable_keeps (l := (irqStateClrDisabled l).setDepth 0) lt ready'
  have depth : (irqEnable ((irqStateClrDisabled l).setDepth 0)).setDepth 0 =
      irqEnable ((irqStateClrDisabled l).setDepth 0) := by
    rw [irqEnable_eq (by exact ready.chip)]
    rfl
  rw [depth] at enabled
  rw [irqStartup_eq ready.chip]
  exact ⟨⟨enabled.inv, enabled.irq, enabled.frame⟩, irqEnable_bit (by exact lt) ready'.chip⟩

theorem LineInv.istateClear (inv : LineInv running l) (mask : BitVec 32)
    (oneshot : mask &&& irqsOneshot = 0) (suspended : mask &&& irqsSuspended = 0) :
    LineInv running (l.istateClear mask) :=
  ⟨inv.chip, inv.depth, inv.closed, inv.opened, inv.inprogress, inv.busy,
    (test_clear_of_disjoint _ oneshot).trans inv.oneshot,
    (test_clear_of_disjoint _ suspended).trans inv.suspended, inv.autoen⟩

theorem LineInv.balance (inv : LineInv running l) :
    LineInv running ((l.settingsSet irqNoBalancing).irqdSet irqdNoBalancing) :=
  ⟨inv.chip, inv.depth.trans (iff_of_eq (congrArg (· = true)
      (test_set_of_disjoint _ (by decide)).symm)), inv.closed, inv.opened,
    (test_set_of_disjoint _ (by decide)).trans inv.inprogress, inv.busy, inv.oneshot, inv.suspended,
    (test_set_of_disjoint _ (by decide)).trans inv.autoen⟩

theorem prepareFirst_ready {new : Irqaction} (inv : LineInv false l)
    (plain : test new.flags irqfOneshot = false) : Ready false (prepareFirst new l) := by
  have cleared : Ready false ((l.istateClear (irqsAutodetect ||| irqsSpuriousDisabled |||
      irqsOneshot ||| irqsWaiting)).irqdClear irqdIrqInprogress) := by
    refine ⟨inv.chip, test_clear_self _, fun running => (Bool.false_ne_true running).elim, ?_, ?_,
      inv.autoen⟩
    · exact test_clear_of_subset _ (by decide)
    · exact (test_clear_of_disjoint _ (by decide)).trans inv.suspended
  simp only [prepareFirst, plain, Bool.false_eq_true, if_false]
  split_ifs
  · exact (cleared.irqdSet irqdPerCpu (by decide)).settingsSet irqPerCpu (by decide)
  · exact cleared

theorem prepareFirst_hw (new : Irqaction) (l : Line Pic) :
    (prepareFirst new l).irq = l.irq ∧ (prepareFirst new l).hw = l.hw := by
  unfold prepareFirst
  dsimp only
  split_ifs <;> exact ⟨rfl, rfl⟩

theorem setupFirst_keeps {new : Irqaction} (lt : l.irq < nrIrqs) (inv : LineInv false l)
    (plain : test new.flags irqfOneshot = false) :
    Keeps false l (setupFirst new l) ∧ (setupFirst new l).hw.bit l.irq = false := by
  have ready := prepareFirst_ready inv plain
  obtain ⟨irq, hw⟩ := prepareFirst_hw new l
  obtain ⟨⟨inv', irq', frame⟩, bit⟩ := irqStartup_keeps (by rw [irq]; exact lt) ready
  rw [irq] at bit
  rw [irq, hw] at frame
  unfold setupFirst
  simp only [ready.autoen, Bool.false_eq_true, not_false_eq_true, if_true]
  split_ifs
  · exact ⟨⟨inv'.balance, irq'.trans irq, frame⟩, bit⟩
  · exact ⟨⟨inv', irq'.trans irq, frame⟩, bit⟩

theorem appendAction_inv {new : Irqaction} (inv : LineInv running l)
    (open' : l.desc.depth = 0 → running = false → l.hw.bit l.irq = false) :
    LineInv running (appendAction new l) :=
  ⟨inv.chip, inv.depth, inv.closed, fun depth _ stopped => open' depth stopped, inv.inprogress,
    fun _ => by simp [appendAction], inv.oneshot, inv.suspended, inv.autoen⟩

theorem firstAction_keeps {new : Irqaction} (lt : l.irq < nrIrqs) (inv : LineInv running l)
    (plain : test new.flags irqfOneshot = false) (first : l.desc.action = []) :
    Keeps running l (appendAction new (setupFirst new l)) := by
  have stopped : running = false := by
    cases h : running
    · rfl
    · exact (inv.busy h first).elim
  subst stopped
  obtain ⟨⟨inv', irq', frame⟩, bit⟩ := setupFirst_keeps lt inv plain
  rw [← irq'] at bit
  exact ⟨appendAction_inv inv' fun _ _ => bit, irq', frame⟩

theorem joinAction_inv (new : Irqaction) (inv : LineInv running l) (joins : l.desc.action ≠ []) :
    LineInv running (appendAction new l) :=
  appendAction_inv inv fun depth => inv.opened depth joins

theorem rejoinAction_keeps (new : Irqaction) (lt : l.irq < nrIrqs) (inv : LineInv running l)
    (joins : l.desc.action ≠ []) :
    Keeps running l (enableIrq ((appendAction new l).istateClear irqsSpuriousDisabled)) := by
  have cleared := (joinAction_inv new inv joins).istateClear irqsSpuriousDisabled (by decide)
    (by decide)
  obtain ⟨inv', irq', frame⟩ := enableIrq_keeps (by exact lt) cleared
  exact ⟨inv', irq', frame⟩

theorem installAction_keeps {undefined : Nat} {new : Irqaction} (lt : l.irq < nrIrqs)
    (inv : LineInv running l) (plain : test new.flags irqfOneshot = false)
    (ok : (installAction undefined new l).1 = 0) :
    Keeps running l (installAction undefined new l).2 := by
  have trigger : ∀ new : Irqaction, (if test new.flags irqfTriggerMask = true then
      irqSetTriggerFlags (new.flags &&& irqfTriggerMask) l else (0, l)) = (0, l) := by
    intro new
    rw [irqSetTriggerFlags_eq inv.chip, ite_self]
  simp only [installAction, plain, Bool.false_eq_true, false_and, if_false, trigger, ne_eq,
    not_true_eq_false] at ok ⊢
  split_ifs at ok ⊢ with clash joins spurious
  · cases ok
  · exact rejoinAction_keeps _ lt inv joins
  · exact ⟨joinAction_inv _ inv joins, rfl, .refl _ _⟩
  · exact firstAction_keeps lt inv (by exact plain) (not_not.mp joins)

theorem setupIrq_keeps {undefined : Nat} {new : Irqaction} (lt : l.irq < nrIrqs)
    (inv : LineInv running l) (plain : test new.flags irqfOneshot = false)
    (ok : (setupIrq undefined new l).1 = 0) : Keeps running l (setupIrq undefined new l).2 := by
  have unforced : irqSetupForcedThreading new = new := rfl
  simp only [setupIrq, inv.chip, Option.isNone_some, Bool.false_eq_true, if_false, unforced,
    ite_self] at ok ⊢
  split_ifs at ok ⊢
  · cases ok
  · exact installAction_keeps lt inv plain ok
  · exact installAction_keeps lt inv plain ok

theorem maskAckIrq_keeps (lt : l.irq < nrIrqs) (inv : LineInv running l)
    (idle : l.desc.depth = 0 → l.desc.action ≠ [] → running = true) :
    Keeps running l (maskAckIrq l) := by
  obtain ⟨bit, frame⟩ := maskAndAck8259A_spec lt l.hw
  rw [maskAckIrq_eq inv.chip]
  refine ⟨⟨inv.chip, inv.depth.trans ?_, fun _ => bit, ?_, ?_, inv.busy, inv.oneshot, inv.suspended,
    inv.autoen⟩, rfl, frame⟩
  · exact iff_of_eq (congrArg (· = true) (test_set_of_disjoint _ (by decide)).symm)
  · intro depth action stopped
    have running := idle depth action
    rw [stopped] at running
    cases running
  · exact (test_set_of_disjoint _ (by decide)).trans inv.inprogress

theorem enters_iff (inv : LineInv running l) :
    Enters l ↔ running = false ∧ l.desc.action ≠ [] ∧ l.desc.depth = 0 := by
  have desc := (maskAckIrq_desc l).2
  have inprogress : (maskAckIrq l).inprogress = running := by
    rw [Line.inprogress, desc, ← inv.inprogress]
    exact test_set_of_disjoint _ (by decide)
  have poll : irqCheckPoll (maskAckIrq l) = false := by
    unfold irqCheckPoll
    split_ifs <;> rfl
  have action : (noted l).desc.action = l.desc.action := by
    rw [noted, Line.istateClear, desc]
    rfl
  have disabled : (noted l).disabled = l.disabled := by
    rw [Line.disabled, noted, Line.istateClear, desc]
    exact test_set_of_disjoint _ (by decide)
  rw [Enters, inprogress, poll, action, disabled, not_or, ← inv.depth, not_not]
  simp

theorem skipped_keeps (lt : l.irq < nrIrqs) (inv : LineInv running l) (stays : ¬ Enters l) :
    Keeps running l (skipped l) := by
  rw [enters_iff inv] at stays
  have acked := maskAckIrq_keeps lt inv (by
    intro depth action
    by_contra running
    exact stays ⟨by simpa using running, action, depth⟩)
  unfold skipped
  split_ifs
  · exact acked
  · exact ⟨acked.inv.istateClear _ (by decide) (by decide), acked.irq, acked.frame⟩

theorem entered_keeps (lt : l.irq < nrIrqs) (inv : LineInv false l) (enters : Enters l) :
    Keeps true l (entered l) := by
  obtain ⟨-, action, depth⟩ := (enters_iff inv).mp enters
  obtain ⟨bit, frame⟩ := maskAndAck8259A_spec lt l.hw
  have eq := maskAckIrq_eq inv.chip
  unfold entered noted enterChain
  rw [eq]
  refine ⟨⟨inv.chip, inv.depth.trans ?_, fun _ => bit, fun _ _ running => ?_, test_set_self _ ?_,
    fun _ => action, ?_, ?_, inv.autoen⟩, rfl, frame⟩
  · simp (disch := decide) only [Line.disabled, irqStateSetMasked, Line.irqdSet, Line.istateClear,
      test_set_of_disjoint]
  · cases running
  · decide
  · simp (disch := decide) only [Line.irqdSet, Line.istateClear, irqStateSetMasked,
      test_clear_of_disjoint, inv.oneshot]
  · simp (disch := decide) only [Line.irqdSet, Line.istateClear, irqStateSetMasked,
      test_clear_of_disjoint, inv.suspended]

theorem left_keeps (lt : l.irq < nrIrqs) (inv : LineInv true l) : Keeps false l (left l) := by
  have disabled : (leaveChain l).disabled = l.disabled := test_clear_of_disjoint _ (by decide)
  have oneshot : test (leaveChain l).desc.istate irqsOneshot = false := inv.oneshot
  have chip : (leaveChain l).desc.chip = some (i8259AChip false) := inv.chip
  have stopped : (leaveChain l).inprogress = false := test_clear_self _
  have idle : false = true → (leaveChain l).desc.action ≠ [] := fun h => (Bool.false_ne_true h).elim
  have depth : (leaveChain l).desc.depth ≠ 0 ↔ (leaveChain l).disabled = true := by
    rw [disabled]
    exact inv.depth
  unfold left
  dsimp only
  split_ifs with live
  · rw [unmaskIrq_eq chip]
    have zero : l.desc.depth = 0 := by
      by_contra deep
      exact live.1 (depth.mp deep)
    refine ⟨⟨inv.chip, depth.trans ?_, fun deep => (deep zero).elim,
      fun _ _ _ => unmask8259AIrq_bit lt _, ?_, idle, inv.oneshot, inv.suspended, inv.autoen⟩, rfl,
      unmask8259AIrq_frame lt _⟩
    · exact iff_of_eq (congrArg (· = true) (test_set_of_disjoint _ (by decide)).symm)
    · exact (test_set_of_disjoint _ (by decide)).trans stopped
  · have deep : l.desc.depth ≠ 0 := by
      intro zero
      refine live ⟨fun dis => depth.mpr dis zero, ?_⟩
      rw [oneshot]
      decide
    exact ⟨⟨inv.chip, depth, inv.closed, fun zero => (deep zero).elim, stopped, idle, inv.oneshot,
      inv.suspended, inv.autoen⟩, rfl, .refl _ _⟩

/-- The machine with the lines whose handlers are running, innermost first. -/
structure Config where
  running : List Nat
  m : Machine Pic

/-- The controllers have set their in-service registers. -/
def Machine.setIsr (m : Machine Pic) (master slave : BitVec 8) : Machine Pic :=
  { m with hw := { m.hw with masterIsr := master, slaveIsr := slave } }

/-- One call, or one part of a delivery.  A call of `disable_irq_nosync` finds room
in the counter, and actions do not ask for `IRQF_ONESHOT`. -/
inductive Step : Config → Config → Prop where
  | disable (c : Config) (irq : Nat) (lt : irq < nrIrqs)
      (room : (c.m.desc irq).depth.toNat + 1 < 2 ^ 32) :
      Step c ⟨c.running, c.m.onLine irq disableIrqNosync⟩
  | enable (c : Config) (irq : Nat) (lt : irq < nrIrqs) :
      Step c ⟨c.running, c.m.onLine irq enableIrq⟩
  | setup (c : Config) (irq : Nat) (lt : irq < nrIrqs) (undefined : Nat) (new : Irqaction)
      (plain : test new.flags irqfOneshot = false)
      (ok : (setupIrq undefined new (c.m.line irq)).1 = 0) :
      Step c ⟨c.running, c.m.onLine irq fun l => (setupIrq undefined new l).2⟩
  | pic (c : Config) (master slave : BitVec 8) : Step c ⟨c.running, c.m.setIsr master slave⟩
  | skip (c : Config) (irq : Nat) (lt : irq < nrIrqs) (stays : ¬ Enters (c.m.line irq)) :
      Step c ⟨c.running, c.m.onLine irq skipped⟩
  | enter (c : Config) (irq : Nat) (lt : irq < nrIrqs) (enters : Enters (c.m.line irq)) :
      Step c ⟨irq :: c.running, c.m.onLine irq entered⟩
  | leave (irq : Nat) (running : List Nat) (m : Machine Pic) :
      Step ⟨irq :: running, m⟩ ⟨running, m.onLine irq left⟩

/-- Finite sequences of calls. -/
abbrev Steps : Config → Config → Prop := Relation.ReflTransGen Step

theorem handleIrqEventPercpu_steps {handler : Irqaction → Machine Pic → Machine Pic}
    {running : List Nat} (handlers : ∀ action x, Steps ⟨running, x⟩ ⟨running, handler action x⟩)
    (chain : List Irqaction) (m : Machine Pic) :
    Steps ⟨running, m⟩ ⟨running, handleIrqEventPercpu handler chain m⟩ := by
  induction chain generalizing m with
  | nil => exact .refl
  | cons action chain ih => exact (handlers action m).trans (ih (handler action m))

/-- A call of `handle_level_irq` whose handlers make such calls is such a sequence. -/
theorem handleLevelIrq_steps {handler : Irqaction → Machine Pic → Machine Pic} {running : List Nat}
    {irq : Nat} (lt : irq < nrIrqs) (m : Machine Pic)
    (handlers : ∀ action x, Steps ⟨irq :: running, x⟩ ⟨irq :: running, handler action x⟩) :
    Steps ⟨running, m⟩ ⟨running, handleLevelIrq handler irq m⟩ := by
  rw [handleLevelIrq_eq]
  split_ifs with enters
  · have chain := handleIrqEventPercpu_steps handlers (m.desc irq).action (m.onLine irq entered)
    exact (Relation.ReflTransGen.head (.enter ⟨running, m⟩ irq lt enters) chain).tail
      (.leave irq running _)
  · exact .single (.skip ⟨running, m⟩ irq lt enters)

/-- The invariant of runs. -/
structure MachineInv (c : Config) : Prop where
  synced : c.m.hw.Synced
  nodup : c.running.Nodup
  small : ∀ irq ∈ c.running, irq < nrIrqs
  lines : ∀ irq < nrIrqs, LineInv (decide (irq ∈ c.running)) (c.m.line irq)

/-- The line of one call keeps its invariant, and the others do not see it. -/
theorem MachineInv.onLine {c : Config} {irq : Nat} {running : List Nat} {f : Line Pic → Line Pic}
    (inv : MachineInv c) (lt : irq < nrIrqs)
    (keeps : Keeps (decide (irq ∈ running)) (c.m.line irq) (f (c.m.line irq)))
    (nodup : running.Nodup) (other : ∀ i, i ≠ irq → (i ∈ running ↔ i ∈ c.running)) :
    MachineInv ⟨running, c.m.onLine irq f⟩ := by
  refine ⟨keeps.frame.synced inv.synced, nodup, fun i member => ?_, fun i small => ?_⟩
  · by_cases here : i = irq
    · rw [here]
      exact lt
    · exact inv.small i ((other i here).mp member)
  · by_cases here : i = irq
    · subst here
      dsimp only
      rw [c.m.line_onLine keeps.irq]
      exact keeps.inv
    · have old := inv.lines i small
      have same : decide (i ∈ running) = decide (i ∈ c.running) := by
        simp only [other i here]
      have bit : (f (c.m.line irq)).hw.bit i = c.m.hw.bit i := keeps.frame.bit i here
      have desc : (c.m.onLine irq f).desc i = c.m.desc i := if_neg here
      dsimp only
      rw [same, Machine.line, desc]
      exact ⟨old.chip, old.depth, fun deep => bit.trans (old.closed deep),
        fun depth action stopped => bit.trans (old.opened depth action stopped), old.inprogress,
        old.busy, old.oneshot, old.suspended, old.autoen⟩

theorem MachineInv.step {c c' : Config} (inv : MachineInv c) (step : Step c c') :
    MachineInv c' := by
  cases step with
  | disable _ irq lt room =>
    exact inv.onLine lt (disableIrqNosync_keeps lt (inv.lines irq lt) room) inv.nodup
      fun _ _ => .rfl
  | enable _ irq lt =>
    exact inv.onLine lt (enableIrq_keeps lt (inv.lines irq lt)) inv.nodup fun _ _ => .rfl
  | setup _ irq lt undefined new plain ok =>
    exact inv.onLine lt (setupIrq_keeps lt (inv.lines irq lt) plain ok) inv.nodup fun _ _ => .rfl
  | pic _ master slave =>
    refine ⟨⟨inv.synced.master, inv.synced.slave⟩, inv.nodup, inv.small, fun irq lt => ?_⟩
    have old := inv.lines irq lt
    exact ⟨old.chip, old.depth, old.closed, old.opened, old.inprogress, old.busy, old.oneshot,
      old.suspended, old.autoen⟩
  | skip _ irq lt stays =>
    exact inv.onLine lt (skipped_keeps lt (inv.lines irq lt) stays) inv.nodup fun _ _ => .rfl
  | enter _ irq lt enters =>
    have line := inv.lines irq lt
    have fresh := ((enters_iff line).mp enters).1
    rw [fresh] at line
    refine inv.onLine lt ?_ (List.nodup_cons.mpr ⟨by simpa using fresh, inv.nodup⟩) fun i ne => ?_
    · rw [decide_eq_true List.mem_cons_self]
      exact entered_keeps lt line enters
    · simp [ne]
  | leave irq running m =>
    have lt := inv.small irq List.mem_cons_self
    have line := inv.lines irq lt
    rw [decide_eq_true List.mem_cons_self] at line
    obtain ⟨fresh, nodup⟩ := List.nodup_cons.mp inv.nodup
    refine inv.onLine lt ?_ nodup fun i ne => ?_
    · rw [decide_eq_false fresh]
      exact left_keeps lt line
    · simp [ne]

/-- The variables of `i8259.c` before `init_ISA_irqs`; the registers hold anything. -/
def staticPic (masterImr slaveImr masterIsr slaveIsr : BitVec 8) : Pic where
  cachedIrqMask := 0xffff
  spuriousIrqMask := 0
  irqErrCount := 0
  masterImr := masterImr
  slaveImr := slaveImr
  masterIsr := masterIsr
  slaveIsr := slaveIsr

/-- `early_irq_init` and `init_ISA_irqs` -/
def bootMachine (masterImr slaveImr masterIsr slaveIsr : BitVec 8) : Machine Pic :=
  initIsaIrqs (earlyIrqInit (staticPic masterImr slaveImr masterIsr slaveIsr))

/-- A descriptor with the chip and the flow handler of `init_ISA_irqs`. -/
def isaDesc (desc : IrqDesc Pic) : IrqDesc Pic :=
  { desc with chip := some (i8259AChip false), handleIrq := .handleLevelIrq }

theorem initIsaIrqs_eq (irqs : List Nat) (m : Machine Pic) :
    let m' := irqs.foldl (fun m i =>
      m.onLine i (irqSetChipAndHandlerName (i8259AChip false) .handleLevelIrq)) m
    m'.hw = m.hw ∧ ∀ i, m'.desc i = if i ∈ irqs then isaDesc (m.desc i) else m.desc i := by
  induction irqs generalizing m with
  | nil => exact ⟨rfl, fun i => (if_neg List.not_mem_nil).symm⟩
  | cons irq irqs ih =>
    obtain ⟨hw, desc⟩ := ih (m.onLine irq
      (irqSetChipAndHandlerName (i8259AChip false) .handleLevelIrq))
    refine ⟨hw, fun i => (desc i).trans ?_⟩
    by_cases here : i = irq
    · subst here
      rw [m.desc_onLine, if_pos List.mem_cons_self]
      split_ifs <;> rfl
    · have old : (m.onLine irq (irqSetChipAndHandlerName (i8259AChip false) .handleLevelIrq)).desc i =
          m.desc i := if_neg here
      simp [old, here]

theorem outb_cached (p : Pic) (value : BitVec 8) (port : Nat) :
    (p.outb value port).cachedIrqMask = p.cachedIrqMask := by
  unfold Pic.outb
  split_ifs <;> rfl

theorem outbs_cached (words : List (BitVec 8 × Nat)) (p : Pic) :
    (words.foldl (fun p w => p.outb w.1 w.2) p).cachedIrqMask = p.cachedIrqMask := by
  induction words generalizing p with
  | nil => rfl
  | cons w words ih => rw [List.foldl_cons, ih, outb_cached]

theorem init8259A_spec (autoEoi : Bool) (p : Pic) :
    (init8259A autoEoi p).Synced ∧ (init8259A autoEoi p).cachedIrqMask = p.cachedIrqMask := by
  have cached := outbs_cached (initWords autoEoi) p
  unfold init8259A
  generalize (initWords autoEoi).foldl (fun p w => p.outb w.1 w.2) p = q at cached ⊢
  exact ⟨⟨rfl, rfl⟩, cached⟩

theorem bootMachine_inv (masterImr slaveImr masterIsr slaveIsr : BitVec 8) :
    MachineInv ⟨[], bootMachine masterImr slaveImr masterIsr slaveIsr⟩ := by
  let p := staticPic masterImr slaveImr masterIsr slaveIsr
  have hw : (bootMachine masterImr slaveImr masterIsr slaveIsr).hw = init8259A false p :=
    (initIsaIrqs_eq (List.range nrIrqs) _).1
  have desc : ∀ i, (bootMachine masterImr slaveImr masterIsr slaveIsr).desc i =
      if i ∈ List.range nrIrqs then isaDesc (descSetDefaults staticDesc)
      else descSetDefaults staticDesc := (initIsaIrqs_eq (List.range nrIrqs) _).2
  refine ⟨?_, .nil, fun _ member => (List.not_mem_nil member).elim, fun irq lt => ?_⟩
  · dsimp only
    rw [hw]
    exact (init8259A_spec false p).1
  · have line : (bootMachine masterImr slaveImr masterIsr slaveIsr).line irq =
        ⟨irq, isaDesc (descSetDefaults staticDesc), init8259A false p⟩ := by
      rw [Machine.line, hw, desc, if_pos (List.mem_range.mpr lt)]
    dsimp only
    rw [line, decide_eq_false List.not_mem_nil]
    have all : ∀ i < nrIrqs, (0xffff : BitVec 32).getLsbD i = true := by decide
    have masked : (init8259A false p).bit irq = true := by
      rw [Pic.bit, (init8259A_spec false p).2]
      exact all irq lt
    have disabled : test (descSetDefaults staticDesc).state irqdIrqDisabled = true := by decide
    have stopped : test (descSetDefaults staticDesc).state irqdIrqInprogress = false := by decide
    have istate : ∀ mask, test (0 : BitVec 32) mask = false := by simp [test]
    have autoen : test (descSetDefaults staticDesc).status irqNoautoen = false := by decide
    have deep : (1 : BitVec 32) ≠ 0 := by decide
    refine ⟨rfl, iff_of_true deep disabled, fun _ => masked, fun depth => (deep depth).elim, stopped,
      ?_, istate _, istate _, autoen⟩
    · exact fun running => (Bool.false_ne_true running).elim

/-- What a line looks like when its handlers are not running. -/
structure LineOk (l : Line Pic) : Prop where
  depth : 0 < l.desc.depth.toNat ↔ l.disabled = true
  closed : 0 < l.desc.depth.toNat → l.hw.bit l.irq = true
  opened : l.desc.depth.toNat = 0 → l.desc.action ≠ [] → l.hw.bit l.irq = false

/-- In every run after `init_ISA_irqs`: the lines whose handlers are not running are
consistent, the mask registers hold `cached_irq_mask`, and a delivery enters the
handlers of a line only when it is enabled and they are not running. -/
theorem irq_lines_runs (masterImr slaveImr masterIsr slaveIsr : BitVec 8) {c : Config}
    (run : Steps ⟨[], bootMachine masterImr slaveImr masterIsr slaveIsr⟩ c) :
    (∀ irq < nrIrqs, irq ∉ c.running → LineOk (c.m.line irq)) ∧
      c.m.hw.masterImr = c.m.hw.cachedMasterMask ∧ c.m.hw.slaveImr = c.m.hw.cachedSlaveMask ∧
      ∀ irq < nrIrqs, Enters (c.m.line irq) →
        (c.m.desc irq).depth.toNat = 0 ∧ irq ∉ c.running := by
  have inv := invariant_of_run MachineInv (fun _ _ inv step => inv.step step)
    (bootMachine_inv masterImr slaveImr masterIsr slaveIsr) run
  have zero : ∀ depth : BitVec 32, depth.toNat = 0 ↔ depth = 0 := fun depth => by
    rw [← BitVec.toNat_inj]
    rfl
  refine ⟨fun irq lt stopped => ?_, inv.synced.master, inv.synced.slave, fun irq lt enters => ?_⟩
  · have line := inv.lines irq lt
    rw [decide_eq_false stopped] at line
    refine ⟨?_, fun deep => line.closed ?_, fun depth action => ?_⟩
    · rw [← line.depth, Nat.pos_iff_ne_zero, ne_eq, zero]
    · rw [Nat.pos_iff_ne_zero, ne_eq, zero] at deep
      exact deep
    · exact line.opened ((zero _).mp depth) action rfl
  · obtain ⟨fresh, -, depth⟩ := (enters_iff (inv.lines irq lt)).mp enters
    exact ⟨(zero _).mpr depth, by simpa using fresh⟩

/-- A handler on line 4 that disables its own line. -/
theorem irq_lines_runs_handler :
    let action : Irqaction := ⟨.own 0, 0, none, 0, 0⟩
    let m := (bootMachine 0 0 0 0).onLine 4 fun l => (setupIrq 0 action l).2
    let c : Config := ⟨[], ((m.onLine 4 entered).onLine 4 disableIrqNosync).onLine 4 left⟩
    Enters (m.line 4) ∧ (c.m.desc 4).depth = 1 ∧ LineOk (c.m.line 4) := by
  have setup := Step.setup ⟨[], bootMachine 0 0 0 0⟩ 4 (by decide) 0 ⟨.own 0, 0, none, 0, 0⟩
    (by decide) (by decide)
  have enter := Step.enter ⟨[], (bootMachine 0 0 0 0).onLine 4 fun l =>
    (setupIrq 0 ⟨.own 0, 0, none, 0, 0⟩ l).2⟩ 4 (by decide) (by decide)
  have run := ((Relation.ReflTransGen.single setup).tail enter).tail
    (.disable _ 4 (by decide) (by decide))
  have done := run.tail (.leave 4 [] _)
  exact ⟨by decide, by decide, (irq_lines_runs 0 0 0 0 done).1 4 (by decide) List.not_mem_nil⟩

end XcKernel.Irq
