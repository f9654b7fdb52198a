import XcKernel.Irq.Lines
import Mathlib.Data.List.Induction

/-!
# Counting spurious interrupts

`mask_and_ack_8259A` asks `i8259A_irq_real` about an interrupt on a line that is
masked already, and counts it when no service is under way.  For the lines of the
slave the answer is the whole in-service register, so that a spurious interrupt is
not counted while another line of the slave is in service.
-/

namespace XcKernel.Irq

open Flags

/-- A call, with what the in-service registers hold when an interrupt comes in. -/
inductive PicOp where
  | mask (irq : Fin nrIrqs)
  | unmask (irq : Fin nrIrqs)
  | maskAndAck (irq : Fin nrIrqs) (masterIsr slaveIsr : BitVec 8)
  deriving DecidableEq, Repr

namespace PicOp

def run (p : Pic) : PicOp → Pic
  | mask irq => mask8259AIrq irq p
  | unmask irq => unmask8259AIrq irq p
  | maskAndAck irq masterIsr slaveIsr =>
    maskAndAck8259A irq { p with masterIsr := masterIsr, slaveIsr := slaveIsr }

/-- The line's own bit in the in-service registers. -/
def inService (irq : Nat) (masterIsr slaveIsr : BitVec 8) : Bool :=
  if irq < 8 then masterIsr.getLsbD irq else slaveIsr.getLsbD (irq - 8)

/-- The call is for a line that is masked already and is not in service. -/
def spurious (p : Pic) : PicOp → Bool
  | maskAndAck irq masterIsr slaveIsr => p.bit irq && !inService irq masterIsr slaveIsr
  | _ => false

/-- The call is for a line of the slave while some line of the slave is in service. -/
def slaveBusy : PicOp → Bool
  | maskAndAck irq _ slaveIsr => 8 ≤ irq.val && slaveIsr != 0
  | _ => false

/-- The interrupt is counted if it is to be: the slave is not busy with another line,
and the counter has room. -/
def Counted (p : Pic) (op : PicOp) : Prop :=
  op.spurious p = true → op.slaveBusy = false ∧ p.irqErrCount.toInt < 2 ^ 31 - 1

end PicOp

def runPic (p : Pic) (ops : List PicOp) : Pic := ops.foldl PicOp.run p

/-- The number of calls that are spurious when they are made. -/
def spuriousCalls (p : Pic) : List PicOp → Nat
  | [] => 0
  | op :: ops => (if op.spurious p then 1 else 0) + spuriousCalls (op.run p) ops

/-- The counter has the number of the spurious calls. -/
def CountsSpurious (p : Pic) (ops : List PicOp) : Prop :=
  (runPic p ops).irqErrCount.toInt = spuriousCalls p ops

theorem runPic_concat (p : Pic) (ops : List PicOp) (op : PicOp) :
    runPic p (ops ++ [op]) = op.run (runPic p ops) := by
  rw [runPic, List.foldl_append]
  rfl

theorem spuriousCalls_concat (p : Pic) (ops : List PicOp) (op : PicOp) :
    spuriousCalls p (ops ++ [op]) =
      spuriousCalls p ops + if op.spurious (runPic p ops) then 1 else 0 := by
  induction ops generalizing p with
  | nil => exact Nat.add_comm _ _
  | cons first ops ih =>
    rw [List.cons_append, spuriousCalls, spuriousCalls, ih, runPic, runPic, List.foldl_cons,
      Nat.add_assoc]

theorem writeMask_irqErrCount (p : Pic) (irq : Nat) :
    (p.writeMask irq).irqErrCount = p.irqErrCount := by
  unfold Pic.writeMask Pic.outb
  split_ifs <;> rfl

theorem i8259AIrqReal_eq {irq : Nat} (lt : irq < nrIrqs) (p : Pic) :
    i8259AIrqReal irq p = (PicOp.inService irq p.masterIsr p.slaveIsr ||
      (decide (8 ≤ irq) && p.slaveIsr != 0)) := by
  unfold i8259AIrqReal PicOp.inService
  dsimp only
  by_cases low : irq < 8
  · rw [if_pos low, if_pos low, test_bit lt, decide_eq_false (by omega), Bool.false_and,
      Bool.or_false, BitVec.getLsbD_setWidth, decide_eq_true (by omega), Bool.true_and]
  · rw [if_neg low, if_neg low, decide_eq_true (by omega), Bool.true_and]
    by_cases idle : p.slaveIsr = 0
    · rw [idle]
      simp
    · rw [bne_iff_ne.mpr idle, Bool.or_true]

theorem PicOp.run_irqErrCount (op : PicOp) (p : Pic) :
    (op.run p).irqErrCount =
      if op.spurious p && !op.slaveBusy then p.irqErrCount + 1 else p.irqErrCount := by
  cases op with
  | mask irq => exact writeMask_irqErrCount _ _
  | unmask irq => exact writeMask_irqErrCount _ _
  | maskAndAck irq masterIsr slaveIsr =>
    simp only [run, maskAndAck8259A, handleRealIrq_eq, test_bit irq.isLt, spurious, slaveBusy,
      i8259AIrqReal_eq irq.isLt, Pic.bit]
    by_cases masked : p.cachedIrqMask.getLsbD irq = true
    · rw [if_neg (not_not.mpr masked)]
      simp only [masked, Bool.true_and]
      cases own : inService irq masterIsr slaveIsr <;>
        cases busy : (decide (8 ≤ irq.val) && slaveIsr != 0) <;>
        simp [writeMask_irqErrCount]
    · rw [if_pos masked, writeMask_irqErrCount]
      simp [masked]

theorem toInt_succ_eq_iff {x : BitVec 32} {n : Nat} (value : x.toInt = n) :
    (x + 1).toInt = n + 1 ↔ x.toInt < 2 ^ 31 - 1 := by
  have high := BitVec.toInt_lt (x := x)
  have one : (1 : BitVec 32).toInt = 1 := by decide
  rw [value] at high ⊢
  rw [BitVec.toInt_add, value, one, Int.bmod_def]
  split_ifs <;> omega

/-- If the count is right before a call, it is right after it exactly when the call
is counted as it should be. -/
theorem countsSpurious_concat {p : Pic} {ops : List PicOp} (before : CountsSpurious p ops)
    (op : PicOp) : CountsSpurious p (ops ++ [op]) ↔ op.Counted (runPic p ops) := by
  rw [CountsSpurious] at before
  rw [CountsSpurious, runPic_concat, spuriousCalls_concat, PicOp.run_irqErrCount, PicOp.Counted]
  cases spurious : op.spurious (runPic p ops) with
  | false => simp [before]
  | true =>
    cases busy : op.slaveBusy with
    | true => simp [before]
    | false =>
      simp only [Bool.not_false, Bool.and_self, if_true, true_and, forall_const, Nat.cast_add,
        Nat.cast_one]
      exact toInt_succ_eq_iff before

/-- The count is right in every state of a run exactly when every call of the run is
counted as it should be. -/
theorem spurious_count_iff {p : Pic} (start : p.irqErrCount = 0) (ops : List PicOp) :
    (∀ done, done <+: ops → CountsSpurious p done) ↔
      ∀ done op, done ++ [op] <+: ops → op.Counted (runPic p done) := by
  constructor
  · intro right done op next
    have before := right done ((List.prefix_append done [op]).trans next)
    exact (countsSpurious_concat before op).mp (right _ next)
  · intro counted done
    induction done using List.reverseRecOn with
    | nil =>
      intro _
      rw [CountsSpurious, runPic, List.foldl_nil, start]
      rfl
    | append_singleton done op ih =>
      intro next
      have before := ih ((List.prefix_append done [op]).trans next)
      exact (countsSpurious_concat before op).mpr (counted done op next)

/-- An interrupt that comes in while line 14 is served through the cascade. -/
def whileServing14 (irq : Fin nrIrqs) : PicOp := .maskAndAck irq 0x04 0x40

/-- A spurious interrupt on line 7 is counted. -/
theorem spurious_count_master :
    CountsSpurious (staticPic 0xff 0xff 0 0) [whileServing14 ⟨7, by decide⟩] ∧
      spuriousCalls (staticPic 0xff 0xff 0 0) [whileServing14 ⟨7, by decide⟩] = 1 := by
  refine ⟨?_, by decide⟩
  refine (spurious_count_iff rfl [whileServing14 ⟨7, by decide⟩]).mpr (fun done op next => ?_) _
    List.prefix_rfl
  obtain rfl : done = [] := by
    have short := next.length_le
    rw [List.length_append, List.length_singleton, List.length_singleton] at short
    exact List.eq_nil_of_length_eq_zero (by omega)
  obtain rfl : op = whileServing14 ⟨7, by decide⟩ := by simpa using next
  exact fun _ => ⟨rfl, by decide⟩

/-- A spurious interrupt on line 15 is not. -/
theorem spurious_count_slave_misses :
    (runPic (staticPic 0xff 0xff 0 0) [whileServing14 ⟨15, by decide⟩]).irqErrCount = 0 ∧
      spuriousCalls (staticPic 0xff 0xff 0 0) [whileServing14 ⟨15, by decide⟩] = 1 ∧
      ¬ CountsSpurious (staticPic 0xff 0xff 0 0) [whileServing14 ⟨15, by decide⟩] := by
  have count : (runPic (staticPic 0xff 0xff 0 0) [whileServing14 ⟨15, by decide⟩]).irqErrCount =
      0 := by decide
  have calls : spuriousCalls (staticPic 0xff 0xff 0 0) [whileServing14 ⟨15, by decide⟩] = 1 := by
    decide
  refine ⟨count, calls, fun right => ?_⟩
  rw [CountsSpurious, count, calls] at right
  exact absurd right (by decide)

end XcKernel.Irq
