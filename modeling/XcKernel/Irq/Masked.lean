import XcKernel.Irq.Basic
import Mathlib.Data.List.Infix

/-!
# The masked flag

`IRQD_IRQ_MASKED` should say whether the chip was last told to mask the line.  The
chip is any that masks and unmasks; what it was last told is kept beside its
hardware.
-/

namespace XcKernel.Irq

open Flags

variable {H : Type}

/-- The hardware with the last callback that masked (`true`) or unmasked (`false`). -/
abbrev Told (H : Type) : Type := H × Option Bool

/-- The chip, recording which of its callbacks masks the line. -/
def recorded (chip : Chip H) : Chip (Told H) where
  irqStartup := chip.irqStartup.map fun f irq h =>
    let r := f irq h.1
    (r.1, (r.2, some false))
  irqEnable := chip.irqEnable.map fun f irq h => (f irq h.1, some false)
  irqDisable := chip.irqDisable.map fun f irq h => (f irq h.1, some true)
  irqAck := chip.irqAck.map fun f irq h => (f irq h.1, h.2)
  irqMask := fun irq h => (chip.irqMask irq h.1, some true)
  irqMaskAck := chip.irqMaskAck.map fun f irq h => (f irq h.1, some true)
  irqUnmask := fun irq h => (chip.irqUnmask irq h.1, some false)
  irqRetrigger := chip.irqRetrigger.map fun f irq h =>
    let r := f irq h.1
    (r.1, (r.2, h.2))
  irqSetType := chip.irqSetType.map fun f irq type h =>
    let r := f irq type h.1
    (r.1, (r.2, h.2))
  flags := chip.flags

/-- The calls on a descriptor.  A delivery of `handle_level_irq` ends with `finish`
when it has reached the handlers, which make the calls between. -/
inductive Op where
  | mask
  | unmask
  | enable
  | disable
  | startup
  | setTrigger (flags : BitVec 32)
  | deliver
  | finish
  deriving DecidableEq, Repr

/-- The descriptor with the number of deliveries whose handlers are running. -/
structure Handled (H : Type) where
  running : Nat
  l : Line (Told H)

/-- One call. -/
def step (c : Handled H) : Op → Handled H
  | .mask => { c with l := maskIrq c.l }
  | .unmask => { c with l := unmaskIrq c.l }
  | .enable => { c with l := irqEnable c.l }
  | .disable => { c with l := irqDisable c.l }
  | .startup => { c with l := (irqStartup c.l).2 }
  | .setTrigger flags => { c with l := (irqSetTriggerFlags flags c.l).2 }
  | .deliver =>
    if Enters c.l then ⟨c.running + 1, entered c.l⟩ else { c with l := skipped c.l }
  | .finish => if c.running = 0 then c else ⟨c.running - 1, left c.l⟩

/-- The calls, one after another. -/
def runOps (c : Handled H) (ops : List Op) : Handled H := ops.foldl step c

/-- The flag is set exactly if the chip was last told to mask. -/
def Tracks (c : Handled H) : Prop := c.l.masked = true ↔ c.l.hw.2 = some true

instance (c : Handled H) : Decidable (Tracks c) := inferInstanceAs (Decidable (_ ↔ _))

/-- The call does not end by telling the chip to unmask. -/
def Quiet (c : Handled H) : Op → Prop
  | .mask | .disable | .deliver => True
  | .unmask | .enable | .startup => False
  | .setTrigger _ => c.l.chip.irqSetType.isNone ∨ ¬ test c.l.chip.flags irqchipSetTypeMasked ∨
      c.l.disabled
  | .finish => c.running = 0 ∨ c.l.disabled ∨ test c.l.desc.istate irqsOneshot

/-! Writing a flag of the descriptor leaves chip and hardware alone. -/

theorem irqdSet_same (l : Line H) (mask : BitVec 32) :
    (l.irqdSet mask).hw = l.hw ∧ (l.irqdSet mask).desc.chip = l.desc.chip := ⟨rfl, rfl⟩

theorem irqdClear_same (l : Line H) (mask : BitVec 32) :
    (l.irqdClear mask).hw = l.hw ∧ (l.irqdClear mask).desc.chip = l.desc.chip := ⟨rfl, rfl⟩

theorem settingsSet_same (l : Line H) (mask : BitVec 32) :
    (l.settingsSet mask).hw = l.hw ∧ (l.settingsSet mask).desc.chip = l.desc.chip := ⟨rfl, rfl⟩

theorem settingsClear_same (l : Line H) (mask : BitVec 32) :
    (l.settingsClear mask).hw = l.hw ∧ (l.settingsClear mask).desc.chip = l.desc.chip := ⟨rfl, rfl⟩

section Calls

variable {chip : Chip H} {l : Line (Told H)}

/-- The flag is set and the chip was last told `masks`. -/
structure Said (masks : Bool) (l : Line (Told H)) : Prop where
  flag : l.masked = true
  told : l.hw.2 = some masks

theorem said_set {masks : Bool} (told : l.hw.2 = some masks) :
    Said masks (l.irqdSet irqdIrqMasked) :=
  ⟨test_set_self _ (by decide), told⟩

theorem Said.tracks {running : Nat} (said : Said true l) : Tracks ⟨running, l⟩ :=
  iff_of_true said.flag said.told

theorem Said.not_tracks {running : Nat} (said : Said false l) : ¬ Tracks ⟨running, l⟩ := by
  intro tracks
  have told := tracks.mp said.flag
  rw [said.told] at told
  cases told

theorem tracks_of_same {c : Handled H} {running : Nat} (tracks : Tracks c)
    (flag : l.masked = c.l.masked) (told : l.hw.2 = c.l.hw.2) : Tracks ⟨running, l⟩ := by
  rw [Tracks, flag, told]
  exact tracks

variable (h : l.desc.chip = some (recorded chip))
include h

theorem chip_recorded : l.chip = recorded chip := by rw [Line.chip, h]; rfl

theorem said_maskIrq : Said true (maskIrq l) := by
  rw [maskIrq, chip_recorded h]
  exact said_set rfl

theorem said_unmaskIrq : Said false (unmaskIrq l) := by
  rw [unmaskIrq, chip_recorded h]
  exact said_set rfl

theorem said_maskAckIrq : Said true (maskAckIrq l) := by
  have same := chip_recorded h
  unfold maskAckIrq
  apply said_set
  split
  · rename_i f ack
    rw [same] at ack
    obtain ⟨g, -, rfl⟩ := Option.map_eq_some_iff.mp ack
    rfl
  · dsimp only
    split
    · rename_i f ack
      change l.chip.irqAck = some f at ack
      rw [same] at ack
      obtain ⟨g, -, rfl⟩ := Option.map_eq_some_iff.mp ack
      rw [same]
      rfl
    · rw [same]
      rfl

theorem said_irqEnable : Said false (irqEnable l) := by
  have same : (irqStateClrDisabled l).chip = recorded chip := chip_recorded h
  unfold irqEnable
  apply said_set
  split
  · rename_i f enable
    rw [same] at enable
    obtain ⟨g, -, rfl⟩ := Option.map_eq_some_iff.mp enable
    rfl
  · rw [same]
    rfl

theorem said_irqStartup : Said false (irqStartup l).2 := by
  have same : ((irqStateClrDisabled l).setDepth 0).chip = recorded chip := chip_recorded h
  unfold irqStartup
  dsimp only
  split
  · rename_i f startup
    rw [same] at startup
    obtain ⟨g, -, rfl⟩ := Option.map_eq_some_iff.mp startup
    exact said_set rfl
  · exact said_irqEnable (by exact h)

theorem tracks_irqDisable {c : Handled H} (here : c.l = l) (tracks : Tracks c) (running : Nat) :
    Tracks ⟨running, irqDisable l⟩ := by
  subst here
  have same : (irqStateSetDisabled c.l).chip = recorded chip := chip_recorded h
  unfold irqDisable
  dsimp only
  split
  · rename_i f disable
    rw [same] at disable
    obtain ⟨g, -, rfl⟩ := Option.map_eq_some_iff.mp disable
    exact (said_set rfl).tracks
  · exact tracks_of_same tracks (test_set_of_disjoint _ (by decide)) rfl

theorem said_skipped : Said true (skipped l) := by
  have said := said_maskAckIrq h
  unfold skipped
  split_ifs
  · exact said
  · exact ⟨said.flag, said.told⟩

theorem said_entered : Said true (entered l) := by
  have said := said_maskAckIrq h
  exact ⟨(test_set_of_disjoint _ (by decide)).trans said.flag, said.told⟩

theorem left_live (live : ¬ (l.disabled = true ∨ test l.desc.istate irqsOneshot = true)) :
    Said false (left l) := by
  have disabled : (leaveChain l).disabled = l.disabled := test_clear_of_disjoint _ (by decide)
  rw [not_or] at live
  unfold left
  dsimp only
  rw [if_pos ⟨by rw [disabled]; exact live.1, live.2⟩]
  exact said_unmaskIrq (by exact h)

omit h in
theorem storeTrigger_same (ret : Int) (flags : BitVec 32) (l : Line (Told H)) :
    let r := (storeTrigger ret (flags &&& irqTypeSenseMask) l).2
    r.masked = l.masked ∧ r.hw = l.hw ∧ r.desc.chip = l.desc.chip := by
  have apart : flags &&& irqTypeSenseMask &&& irqdIrqMasked = 0 := by
    rw [BitVec.and_assoc]
    have : irqTypeSenseMask &&& irqdIrqMasked = 0 := by decide
    rw [this]
    simp
  have typed : ((l.irqdClear irqdTriggerMask).irqdSet (flags &&& irqTypeSenseMask)).masked =
      l.masked := by
    rw [Line.masked, Line.irqdSet, test_set_of_disjoint _ apart]
    exact test_clear_of_disjoint _ (by decide)
  have levelled : ∀ l : Line (Told H), (l.irqdClear irqdLevel).masked = l.masked := fun l =>
    test_clear_of_disjoint _ (by decide)
  have raised : ∀ l : Line (Told H), (l.irqdSet irqdLevel).masked = l.masked := fun l =>
    test_set_of_disjoint _ (by decide)
  have sets : ∀ (l : Line (Told H)) mask, (l.settingsSet mask).masked = l.masked := fun _ _ => rfl
  have clears : ∀ (l : Line (Told H)) mask, (l.settingsClear mask).masked = l.masked :=
    fun _ _ => rfl
  unfold storeTrigger
  dsimp only
  refine ⟨?_, ?_, ?_⟩
  · split_ifs <;> simp only [raised, levelled, sets, clears, typed]
  · split_ifs <;> simp only [irqdSet_same, irqdClear_same, settingsSet_same, settingsClear_same]
  · split_ifs <;> simp only [irqdSet_same, irqdClear_same, settingsSet_same, settingsClear_same]

theorem tracks_irqSetTriggerFlags {c : Handled H} (here : c.l = l) (tracks : Tracks c) (running : Nat)
    (flags : BitVec 32) :
    Tracks ⟨running, (irqSetTriggerFlags flags l).2⟩ ↔ l.chip.irqSetType.isNone ∨
      ¬ test l.chip.flags irqchipSetTypeMasked ∨ l.disabled := by
  subst here
  have same := chip_recorded h
  unfold irqSetTriggerFlags
  cases type : c.l.chip.irqSetType with
  | none => exact iff_of_true tracks (.inl rfl)
  | some setType =>
    have told : ∀ irq flags (h : Told H), (setType irq flags h).2.2 = h.2 := by
      rw [same] at type
      obtain ⟨f, -, rfl⟩ := Option.map_eq_some_iff.mp type
      exact fun _ _ _ => rfl
    simp only [Option.isNone_some, Bool.false_eq_true, false_or]
    by_cases masking : test c.l.chip.flags irqchipSetTypeMasked = true
    · -- the line is masked first, and unmasked again unless it is disabled
      simp only [masking, true_and, Bool.true_and, not_true_eq_false, false_or]
      generalize first : (if ¬ c.l.masked = true then maskIrq c.l else c.l) = l₁
      have masked : Tracks ⟨running, l₁⟩ ∧ l₁.disabled = c.l.disabled ∧
          l₁.desc.chip = some (recorded chip) := by
        subst first
        split_ifs
        · exact ⟨tracks, rfl, h⟩
        · exact ⟨(said_maskIrq h).tracks, test_set_of_disjoint _ (by decide), h⟩
      obtain ⟨tracks₁, disabled, chip₁⟩ := masked
      obtain ⟨flag, hw, chip₂⟩ := storeTrigger_same
        (setType l₁.irq (flags &&& irqTypeSenseMask) l₁.hw).1 flags
        { l₁ with hw := (setType l₁.irq (flags &&& irqTypeSenseMask) l₁.hw).2 }
      rw [disabled]
      by_cases off : c.l.disabled = true
      · rw [off, Bool.not_true, if_neg Bool.false_ne_true]
        exact iff_of_true
          (tracks_of_same tracks₁ flag ((congrArg Prod.snd hw).trans (told _ _ _))) rfl
      · rw [Bool.not_eq_true] at off
        rw [off, Bool.not_false, if_pos rfl]
        exact iff_of_false (said_unmaskIrq (chip₂.trans chip₁)).not_tracks Bool.false_ne_true
    · simp only [masking, false_and, if_false, Bool.false_and, Bool.false_eq_true,
        not_false_eq_true, true_or, iff_true]
      obtain ⟨flag, hw, -⟩ := storeTrigger_same (setType c.l.irq (flags &&& irqTypeSenseMask) c.l.hw).1
        flags { c.l with hw := (setType c.l.irq (flags &&& irqTypeSenseMask) c.l.hw).2 }
      exact tracks_of_same tracks flag ((congrArg Prod.snd hw).trans (told _ _ _))

omit h in
theorem tracks_left {c : Handled H} (tracks : Tracks c) (running : Nat)
    (quiet : c.l.disabled = true ∨ test c.l.desc.istate irqsOneshot = true) :
    Tracks ⟨running, left c.l⟩ := by
  have disabled : (leaveChain c.l).disabled = c.l.disabled := test_clear_of_disjoint _ (by decide)
  have rest : ¬ (¬ (leaveChain c.l).disabled = true ∧
      ¬ test (leaveChain c.l).desc.istate irqsOneshot = true) := by
    rw [disabled]
    rintro ⟨enabled, once⟩
    exact quiet.elim enabled once
  unfold left
  dsimp only
  rw [if_neg rest]
  exact tracks_of_same tracks (test_clear_of_disjoint _ (by decide)) rfl

end Calls

variable {chip : Chip H}

theorem irqEnable_chip (l : Line (Told H)) : (irqEnable l).desc.chip = l.desc.chip := by
  unfold irqEnable
  dsimp only
  split <;> rfl

theorem step_chip (c : Handled H) (op : Op) : (step c op).l.desc.chip = c.l.desc.chip := by
  have noted_chip : (maskAckIrq c.l).desc.chip = c.l.desc.chip := by
    rw [(maskAckIrq_desc c.l).2]
    rfl
  cases op with
  | mask | unmask => rfl
  | enable => exact irqEnable_chip c.l
  | disable =>
    simp only [step, irqDisable]
    split <;> rfl
  | startup =>
    simp only [step, irqStartup]
    split
    · rfl
    · exact irqEnable_chip _
  | setTrigger flags =>
    simp only [step, irqSetTriggerFlags]
    split
    · rfl
    · have stored := fun ret (l : Line (Told H)) => (storeTrigger_same ret flags l).2.2
      have unmasked : ∀ l : Line (Told H), (unmaskIrq l).desc.chip = l.desc.chip := fun _ => rfl
      dsimp only at stored ⊢
      split_ifs <;> (try rw [unmasked]) <;> rw [stored]
      all_goals rfl
  | deliver =>
    simp only [step, skipped]
    split_ifs <;> exact noted_chip
  | finish =>
    simp only [step, left]
    split_ifs <;> rfl

theorem runOps_concat (c : Handled H) (done : List Op) (op : Op) :
    runOps c (done ++ [op]) = step (runOps c done) op := by
  rw [runOps, List.foldl_append]
  rfl

theorem runOps_chip (c : Handled H) (done : List Op) :
    (runOps c done).l.desc.chip = c.l.desc.chip := by
  induction done using List.reverseRecOn with
  | nil => rfl
  | append_singleton done op ih => rw [runOps_concat, step_chip, ih]

theorem tracks_step_iff {c : Handled H} (h : c.l.desc.chip = some (recorded chip))
    (tracks : Tracks c) (op : Op) : Tracks (step c op) ↔ Quiet c op := by
  cases op with
  | mask => exact iff_of_true (said_maskIrq h).tracks trivial
  | unmask => exact iff_of_false (said_unmaskIrq h).not_tracks id
  | enable => exact iff_of_false (said_irqEnable h).not_tracks id
  | disable => exact iff_of_true (tracks_irqDisable h rfl tracks _) trivial
  | startup => exact iff_of_false (said_irqStartup h).not_tracks id
  | setTrigger flags => exact tracks_irqSetTriggerFlags h rfl tracks _ flags
  | deliver =>
    refine iff_of_true ?_ trivial
    unfold step
    dsimp only
    split_ifs
    · exact (said_entered h).tracks
    · exact (said_skipped h).tracks
  | finish =>
    by_cases none : c.running = 0
    · refine iff_of_true ?_ (.inl none)
      rw [step, if_pos none]
      exact tracks
    · rw [step, if_neg none, Quiet]
      by_cases quiet : c.l.disabled = true ∨ test c.l.desc.istate irqsOneshot = true
      · exact iff_of_true (tracks_left tracks _ quiet) (.inr quiet)
      · refine iff_of_false (left_live h quiet).not_tracks ?_
        rintro (zero | quiet')
        · exact none zero
        · exact quiet quiet'

/-- The flag follows the chip through a run exactly if every call of it is quiet. -/
theorem masked_flag_tracks_iff {c : Handled H} (h : c.l.desc.chip = some (recorded chip))
    (start : Tracks c) (ops : List Op) :
    (∀ done, done <+: ops → Tracks (runOps c done)) ↔
      ∀ done op, done ++ [op] <+: ops → Quiet (runOps c done) op := by
  have one : ∀ done op, Tracks (runOps c done) →
      (Tracks (runOps c (done ++ [op])) ↔ Quiet (runOps c done) op) := by
    intro done op tracks
    rw [runOps_concat]
    exact tracks_step_iff ((runOps_chip c done).trans h) tracks op
  constructor
  · intro tracks done op inside
    exact (one done op (tracks done ((List.prefix_append _ _).trans inside))).mp
      (tracks _ inside)
  · intro quiet done inside
    induction done using List.reverseRecOn with
    | nil => exact start
    | append_singleton done op ih =>
      have before := ih ((List.prefix_append _ _).trans inside)
      exact (one done op before).mpr (quiet done op inside)

/-- A chip without hardware and without callbacks of its own for enabling. -/
def plainChip : Chip Unit where
  irqMask := fun _ h => h
  irqUnmask := fun _ h => h

/-- A descriptor as `desc_set_defaults` leaves it, on that chip. -/
def plainLine : Handled Unit :=
  ⟨0, 0, ⟨some (recorded plainChip), .handleLevelIrq, irqdIrqDisabled, 0, 0, 1, []⟩, ((), none)⟩

/-- A chip that wants the line masked while its trigger is set. -/
def settableChip : Chip Unit :=
  { plainChip with irqSetType := some fun _ _ h => (0, h), flags := irqchipSetTypeMasked }

/-- A line in use on that chip. -/
def settableLine : Handled Unit :=
  ⟨0, 0, ⟨some (recorded settableChip), .handleLevelIrq, 0, 0, 0, 0, [⟨.own 1, 0, none, 0, 0⟩]⟩, ((), some false)⟩

/-- A delivery whose handler disables the line and sets its trigger, and runs to the end;
the next delivery finds the line disabled. -/
theorem masked_flag_tracks_quiet :
    (runOps settableLine [.deliver]).running = 1 ∧
      ∀ done, done <+: [Op.deliver, .disable, .setTrigger 4, .finish, .deliver] →
        Tracks (runOps settableLine done) := by
  refine ⟨by decide, (masked_flag_tracks_iff rfl (by decide) _).mpr ?_⟩
  rintro done op ⟨rest, eq⟩
  rcases done with _ | ⟨a, _ | ⟨b, _ | ⟨c, _ | ⟨d, done⟩⟩⟩⟩
  · obtain ⟨rfl, -⟩ := List.cons.inj eq
    trivial
  · simp only [List.cons_append, List.nil_append, List.cons.injEq] at eq
    obtain ⟨rfl, rfl, -⟩ := eq
    trivial
  · simp only [List.cons_append, List.nil_append, List.cons.injEq] at eq
    obtain ⟨rfl, rfl, rfl, -⟩ := eq
    exact .inr (.inr (by decide))
  · simp only [List.cons_append, List.nil_append, List.cons.injEq] at eq
    obtain ⟨rfl, rfl, rfl, rfl, -⟩ := eq
    exact .inr (.inl (by decide))
  · simp only [List.cons_append, List.cons.injEq] at eq
    obtain ⟨rfl, rfl, rfl, rfl, eq⟩ := eq
    rcases done with _ | ⟨e, done⟩
    · obtain ⟨rfl, -⟩ := List.cons.inj eq
      trivial
    · simp at eq

/-- After `unmask_irq` the chip is unmasked and the flag says masked. -/
theorem masked_flag_unmask :
    (runOps plainLine [.mask, .unmask]).l.hw.2 = some false ∧
      (runOps plainLine [.mask, .unmask]).l.masked = true ∧
      ¬ ∀ done, done <+: [Op.mask, .unmask] → Tracks (runOps plainLine done) := by
  refine ⟨by decide, by decide, fun tracks => ?_⟩
  have last := tracks [.mask, .unmask] (List.prefix_refl _)
  revert last
  decide

end XcKernel.Irq
