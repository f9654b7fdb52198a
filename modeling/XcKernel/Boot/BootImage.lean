import XcKernel.Boot.LoadSectors

/-!
# The image in memory

The boot sector puts the parameters of the drive into its variables, prints a message,
and calls `load_sectors` for the setup code and for the kernel.
-/

namespace XcKernel.Boot

open Word

variable {bios : Bios} {d : Drive} {own : Nat → Prop} {depth : Nat} {v : Labels} {f : Frame} {regs : Regs}
  {m m' : Bytes} {lba base n bp fuel : Nat}

theorem Drive.Ok.parameters (ok : d.Ok) :
    wrap 8 ((d.parameters.cl &&& 0x3f) + 1) = d.sectors + 1 ∧ wrap 8 (d.parameters.dh + 1) = d.heads := by
  have sectors := ok.sectors
  have heads := ok.heads
  have low : d.parameters.cl &&& 0x3f = d.sectors := by
    rw [show (0x3f : Nat) = 2 ^ 6 - 1 by decide, Nat.and_two_pow_sub_one_eq_mod]
    simp only [Drive.parameters]
    omega
  refine ⟨by rw [low, wrap_of_lt (by omega)], ?_⟩
  simp only [Drive.parameters]
  rw [wrap_of_lt (by omega)]
  omega

/-- A drive with room for the image, and where the kernel's first sector exists. -/
structure Drive.Bootable (d : Drive) : Prop extends d.Ok where
  second : 2 ≤ d.sectors
  sides : 2 ≤ d.heads
  size : d.sectors + 1024 ≤ d.cylinders * d.heads * d.sectors

/-- The variables are words of the boot sector, and apart. -/
structure Labels.Ok (v : Labels) : Prop where
  inside : v.sectorsPerTrack + 2 ≤ 0x200 ∧ v.maxCylinders + 2 ≤ 0x200 ∧ v.maxHeads + 2 ≤ 0x200
  cylinders : v.sectorsPerTrack + 2 ≤ v.maxCylinders ∨ v.maxCylinders + 2 ≤ v.sectorsPerTrack
  heads : v.sectorsPerTrack + 2 ≤ v.maxHeads ∨ v.maxHeads + 2 ≤ v.sectorsPerTrack
  both : v.maxCylinders + 2 ≤ v.maxHeads ∨ v.maxHeads + 2 ≤ v.maxCylinders

/-- The part of the stack that the boot sector and the BIOS use. -/
def Stack (depth a : Nat) : Prop := 0x9ffd6 - depth ≤ a ∧ a < 0x9fffc

/-- What the call of `load_sectors` with the arguments `f` puts on the empty stack. -/
def withArguments (f : Frame) (back : Nat) (m : Bytes) : Bytes :=
  let m := putWord m 0xfffa f.segment
  let m := putWord m 0xfff8 f.offset
  let m := putWord m 0xfff6 f.rest
  let m := putWord m 0xfff4 f.cylinder
  let m := putWord m 0xfff2 f.head
  let m := putWord m 0xfff0 f.sector
  putWord (putWord m 0xffee 0) 0xffec back

theorem callLoadSectors_eq (back : Nat) : callLoadSectors bios v fuel regs 0xfffc f back m =
    loadSectors bios v fuel regs 0xffec (withArguments f back m) := rfl

theorem withArguments_of_not {back a : Nat} (out : a < 0x90000 + 0xffec ∨ 0x9fffc ≤ a) :
    withArguments f back m a = m a := by
  simp only [withArguments]
  repeat rw [putWord_of_not (by omega)]

theorem frameAt_withArguments (back : Nat) (segment : f.segment < 2 ^ 16) (offset : f.offset < 2 ^ 16)
    (rest : f.rest < 2 ^ 16) (cylinder : f.cylinder < 2 ^ 16) (head : f.head < 2 ^ 16)
    (sector : f.sector < 2 ^ 16) : frameAt (withArguments f back m) 0xffea = f := by
  cases f
  simp only [withArguments]
  rw [frameAt, Frame.mk.injEq]
  refine ⟨?_, ?_, ?_, ?_, ?_, ?_⟩
  all_goals
    repeat rw [wordAt_putWord_of_not (by decide)]
    exact wordAt_putWord (by assumption)

/-- A call of `load_sectors` from the top of the stack returns. -/
theorem callLoadSectors_returns (documented : bios.Documented d own depth) (ok : d.Ok) (words : regs.Words)
    (stored : Stored d v m) (labels : v.Ok) (shallow : depth ≤ 0xd000) (fits : f.Fits d lba base)
    (small : f.segment < 2 ^ 16 ∧ f.cylinder < 2 ^ 16 ∧ f.head < 2 ^ 16 ∧ f.sector < 2 ^ 16)
    (free : ∀ a, 0x10000 ≤ a → a < 0xa0000 → ¬ own a) (low : 0x10000 ≤ base)
    (high : base + 512 * f.rest ≤ 0x90000 ∨ 0x90200 ≤ base ∧ base + 512 * f.rest ≤ 0x92400)
    (enough : f.rest ≤ fuel) (back : Nat) :
    ∃ r, callLoadSectors bios v fuel regs 0xfffc f back m = some r ∧
      Returned d own depth 0xffea lba base f.rest regs m r := by
  obtain ⟨segment, cylinder, head, sector⟩ := small
  have frame := frameAt_withArguments (m := m) back segment fits.offset.2 fits.word cylinder head sector
  have inside := labels.inside
  have place : Place own depth v 0xffea base (base + 512 * f.rest) := by
    refine ⟨by omega, by decide, by omega, by omega, fun a above below => ⟨free a (by omega) (by omega), ?_, ?_⟩,
      fun a live => free a ?_ ?_⟩
    · unfold Live
      omega
    · unfold Scratch
      omega
    · unfold Live at live
      omega
    · unfold Live at live
      omega
  rw [callLoadSectors_eq]
  have stored₁ : Stored d v (withArguments f back m) :=
    stored.of_live 0xffea (by omega) (by omega) fun a live _ =>
      withArguments_of_not (by unfold Live at live; omega)
  obtain ⟨r, returns, done⟩ :=
    place.returns documented ok words stored₁ frame fits le_rfl le_rfl enough
  refine ⟨r, returns, done.zero, done.minusOne, done.data, done.regs, fun a out notOwn notStack => ?_⟩
  rw [done.kept a out notOwn notStack]
  exact withArguments_of_not (by omega)

/-- `print_str` writes on the stack only. -/
theorem callPrintStr_kept (documented : bios.Documented d own depth) (length offset back : Nat) {a : Nat}
    (notOwn : ¬ own a) (notStack : ¬ Stack depth a) :
    callPrintStr bios regs 0xfffc length offset back m a = m a := by
  unfold Stack at notStack
  have notScratch : ∀ sp, 0xffd6 ≤ sp → sp ≤ 0xfffc → ¬ Scratch depth sp a := fun sp low high => by
    unfold Scratch
    omega
  simp only [callPrintStr, Nat.reduceSub]
  rw [documented.video _ _ a notOwn (notScratch _ (by decide) (by decide)), putWord_of_not (by omega),
    documented.video _ _ a notOwn (notScratch _ (by decide) (by decide)), pushAll_of_not (by decide) (by omega),
    putWord_of_not (by omega), putWord_of_not (by omega), putWord_of_not (by omega), putWord_of_not (by omega),
    putWord_of_not (by omega), putWord_of_not (by omega)]

/-- The variables after INT 13h, function 8 -/
def withParameters (v : Labels) (p : DriveParameters) (m : Bytes) : Bytes :=
  let m := putByte m v.maxCylinders (wrap 8 (p.ch + 1))
  let m := putByte m v.sectorsPerTrack (wrap 8 ((p.cl &&& 0x3f) + 1))
  putByte m v.maxHeads (wrap 8 (p.dh + 1))

theorem withParameters_of_ne {p : DriveParameters} {a : Nat} (track : a ≠ 0x90000 + v.sectorsPerTrack)
    (cylinders : a ≠ 0x90000 + v.maxCylinders) (heads : a ≠ 0x90000 + v.maxHeads) :
    withParameters v p m a = m a := by
  simp only [withParameters]
  rw [putByte_of_ne heads, putByte_of_ne track, putByte_of_ne cylinders]

theorem bootsect_eq (p : DriveParameters) : bootsect bios v p fuel regs m =
    (let m := callPrintStr bios regs 0xfffc 17 v.strLoadingStart v.printed (withParameters v p m)
    (callLoadSectors bios v fuel regs 0xfffc ⟨0x9000, 0x200, 17, 0, 0, 2⟩ v.setupLoaded m).bind fun r =>
      if r.1.ax ≠ 0 then some (false, r.2)
      else
        (callLoadSectors bios v fuel r.1 0xfffc ⟨0x1000, 0x0000, 1024, 0, 1, 1⟩ v.kernelLoaded r.2).map
          fun r => (r.1.ax = 0, r.2)) := rfl

theorem stored_withParameters (ok : d.Ok) (labels : v.Ok) (track : m (0x90000 + v.sectorsPerTrack + 1) = 0)
    (heads : m (0x90000 + v.maxHeads + 1) = 0) : Stored d v (withParameters v d.parameters m) := by
  obtain ⟨spt, sides⟩ := ok.parameters
  have sectors := ok.sectors
  have few := ok.heads
  have cylinders := labels.cylinders
  have apart := labels.heads
  have both := labels.both
  -- the upper bytes of the variables are 0 from the image on
  have upper : ∀ off, m (0x90000 + off + 1) = 0 → wordAt m off / 256 = 0 := fun off zero => by
    have byte := (m (0x90000 + off)).isLt
    rw [wordAt, zero, show (0 : BitVec 8).toNat = 0 from rfl]
    omega
  simp only [withParameters]
  rw [spt, sides]
  constructor
  · rw [wordAt_putByte_of_not (by omega), wordAt_putByte (by omega), wordAt_putByte_of_not (by omega), setLow,
      upper _ track, Nat.zero_mul, Nat.zero_add]
  · rw [wordAt_putByte (by omega), wordAt_putByte_of_not (by omega), wordAt_putByte_of_not (by omega), setLow,
      upper _ heads, Nat.zero_mul, Nat.zero_add]

/-- A change outside of the boot sector leaves the variables alone. -/
theorem Stored.of_sector (stored : Stored d v m) (labels : v.Ok)
    (kept : ∀ a, 0x90000 ≤ a → a < 0x90200 → m' a = m a) : Stored d v m' := by
  have inside := labels.inside
  constructor
  · rw [← stored.track]
    exact wordAt_congr (kept _ (by omega) (by omega)) (kept _ (by omega) (by omega))
  · rw [← stored.heads]
    exact wordAt_congr (kept _ (by omega) (by omega)) (kept _ (by omega) (by omega))

theorem Drive.Bootable.cylinders_pos (bootable : d.Bootable) : 0 < d.cylinders := by
  have size := bootable.size
  by_contra none
  rw [show d.cylinders = 0 by omega, Nat.zero_mul, Nat.zero_mul] at size
  omega

/-- The request for the setup code -/
theorem Drive.Bootable.setup (bootable : d.Bootable) :
    Frame.Fits d ⟨0x9000, 0x200, 17, 0, 0, 2⟩ 1 0x90200 := by
  have size := bootable.size
  refine ⟨⟨?_, ⟨by decide, bootable.second⟩, ?_, bootable.cylinders_pos, by decide, by decide, by decide⟩,
    by decide, by decide, ?_, by decide⟩
  · simp [Drive.lba]
  · exact lt_of_lt_of_le (by decide) bootable.sides
  · exact le_trans (show 1 + 17 ≤ d.sectors + 1024 by omega) size

/-- The request for the kernel -/
theorem Drive.Bootable.kernel (bootable : d.Bootable) :
    Frame.Fits d ⟨0x1000, 0x0000, 1024, 0, 1, 1⟩ d.sectors 0x10000 := by
  refine ⟨⟨?_, ⟨by decide, ?_⟩, bootable.sides, bootable.cylinders_pos, by decide, by decide, by decide⟩,
    by decide, by decide, bootable.size, by decide⟩
  · simp [Drive.lba]
  · exact le_trans (by decide) bootable.second

/-- The boot sector succeeds if the sectors of the setup code and of the kernel can be
read.  The setup code is then at `0x90200` and the kernel at `0x10000`.  In any case the
rest of the memory is as it was, but for the three variables, the stack and memory of the
BIOS.  The kernel follows the setup code on the drive if that has 18 sectors on a track. -/
theorem bootsect_loads (documented : bios.Documented d own depth) (shallow : depth ≤ 0xd000)
    (free : ∀ a, 0x10000 ≤ a → a < 0xa0000 → ¬ own a) (bootable : d.Bootable) (labels : v.Ok)
    (track : m (0x90000 + v.sectorsPerTrack + 1) = 0) (heads : m (0x90000 + v.maxHeads + 1) = 0)
    (words : regs.Words) (enough : 1024 ≤ fuel) :
    ∃ r, bootsect bios v d.parameters fuel regs m = some r ∧
      (r.1 = true ↔
        (∀ k < 17, d.readable (1 + k) = true) ∧ ∀ k < 1024, d.readable (d.sectors + k) = true) ∧
      (r.1 = true →
        (∀ i < 512 * 17, r.2 (0x90200 + i) = d.data (512 * 1 + i)) ∧
          ∀ i < 512 * 1024, r.2 (0x10000 + i) = d.data (512 * d.sectors + i)) ∧
      ∀ a, ¬ (0x10000 ≤ a ∧ a < 0x90000) → ¬ (0x90200 ≤ a ∧ a < 0x92400) →
        a ≠ 0x90000 + v.sectorsPerTrack → a ≠ 0x90000 + v.maxCylinders → a ≠ 0x90000 + v.maxHeads →
        ¬ Stack depth a → ¬ own a → r.2 a = m a := by
  have ok := bootable.toOk
  have inside := labels.inside
  have setup := bootable.setup
  have kernel := bootable.kernel
  rw [bootsect_eq]
  dsimp only
  have printed : ∀ a, ¬ own a → ¬ Stack depth a →
      callPrintStr bios regs 0xfffc 17 v.strLoadingStart v.printed (withParameters v d.parameters m) a =
        withParameters v d.parameters m a := fun a notOwn notStack =>
    callPrintStr_kept documented _ _ _ notOwn notStack
  generalize callPrintStr bios regs 0xfffc 17 v.strLoadingStart v.printed (withParameters v d.parameters m) =
    m₂ at printed ⊢
  have stored₂ : Stored d v m₂ := (stored_withParameters ok labels track heads).of_sector labels
    fun a low high => printed a (free a (by omega) (by omega)) (by unfold Stack; omega)
  obtain ⟨r₁, returns₁, loaded₁⟩ := callLoadSectors_returns documented ok words stored₂ labels shallow setup
    (by decide) free (by decide) (.inr (by decide)) (by dsimp only; omega : _ ≤ fuel) v.setupLoaded
  have kept₁ : ∀ a, ¬ (0x90200 ≤ a ∧ a < 0x92400) → a ≠ 0x90000 + v.sectorsPerTrack →
      a ≠ 0x90000 + v.maxCylinders → a ≠ 0x90000 + v.maxHeads → ¬ Stack depth a → ¬ own a → r₁.2 a = m a := by
    intro a out spt cyl sides notStack notOwn
    rw [loaded₁.kept a (by dsimp only; omega) notOwn (by unfold Stack at notStack; omega),
      printed a notOwn notStack, withParameters_of_ne spt cyl sides]
  rw [returns₁, Option.bind_some]
  by_cases zero₁ : r₁.1.ax = 0
  · rw [if_neg (not_not.mpr zero₁)]
    have words₁ : r₁.1.Words := by
      have same := loaded₁.regs
      have eq : r₁.1 = { regs with ax := 0 } := by rw [← same, ← zero₁]
      rw [eq]
      unfold Regs.Words at words ⊢
      simp only [List.forall_mem_cons] at words ⊢
      exact ⟨by decide, words.2⟩
    have stored₃ : Stored d v r₁.2 := stored₂.of_sector labels fun a low high =>
      loaded₁.kept a (by dsimp only; omega) (free a (by omega) (by omega)) (by omega)
    obtain ⟨r₂, returns₂, loaded₂⟩ := callLoadSectors_returns documented ok words₁ stored₃ labels shallow kernel
      (by decide) free (by decide) (.inl (by decide)) enough v.kernelLoaded
    rw [returns₂, Option.map_some]
    refine ⟨_, rfl, ?_, fun yes => ⟨fun i lt => ?_, fun i lt => ?_⟩,
      fun a out out' spt cyl sides notStack notOwn => ?_⟩
    · rw [decide_eq_true_iff, loaded₂.zero]
      exact ⟨fun all => ⟨loaded₁.zero.mp zero₁, all⟩, fun both => both.2⟩
    · dsimp only
      rw [loaded₂.kept _ (by dsimp only; omega) (free _ (by omega) (by omega)) (by omega)]
      exact loaded₁.data zero₁ i lt
    · exact loaded₂.data (of_decide_eq_true yes) i lt
    · dsimp only
      rw [loaded₂.kept a (by dsimp only; omega) notOwn (by unfold Stack at notStack; omega)]
      exact kept₁ a out' spt cyl sides notStack notOwn
  · rw [if_pos zero₁]
    refine ⟨_, rfl, iff_of_false Bool.false_ne_true fun both => zero₁ (loaded₁.zero.mpr both.1),
      fun yes => absurd yes Bool.false_ne_true, fun a _ out' spt cyl sides notStack notOwn => ?_⟩
    exact kept₁ a out' spt cyl sides notStack notOwn

/-- A floppy disk of 1440 KiB: the image on it is the boot sector, the setup code and
the kernel. -/
theorem bootsect_loads_floppy :
    let d : Drive := ⟨18, 2, 80, fun i => BitVec.ofNat 8 (i / 512), fun _ => true⟩
    ∃ r, bootsect (plainBios d) endLabels d.parameters 1024 ⟨1, 2, 3, 4, 5, 6, 7, 8⟩ (fun _ => 0) = some r ∧
      r.1 = true ∧ r.2 0x90200 = d.data 512 ∧ r.2 0x10000 = d.data (512 + 512 * 17) ∧
      r.2 0x8ffff = d.data (512 * 18 + (512 * 1024 - 1)) ∧ r.2 0x901ff = 0 := by
  intro d
  obtain ⟨r, booted, works, places, rest⟩ := bootsect_loads (plainBios_documented d BiosMemory)
    (v := endLabels) (m := fun _ => 0) (by decide)
    (fun a low high => by unfold BiosMemory; omega)
    ⟨⟨by decide, by decide, by decide⟩, by decide, by decide, by decide⟩
    ⟨by decide, by decide, by decide, by decide⟩ rfl rfl
    (show Regs.Words ⟨1, 2, 3, 4, 5, 6, 7, 8⟩ by unfold Regs.Words; decide) (le_refl 1024)
  have yes := works.2 ⟨fun _ _ => rfl, fun _ _ => rfl⟩
  obtain ⟨setup, kernel⟩ := places yes
  refine ⟨r, booted, yes, setup 0 (by decide), kernel 0 (by decide), kernel (512 * 1024 - 1) (by decide), ?_⟩
  refine rest _ (by decide) (by decide) (by decide) (by decide) (by decide) ?_ ?_
  · unfold Stack
    decide
  · unfold BiosMemory
    decide

end XcKernel.Boot
