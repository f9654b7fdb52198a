import XcKernel.Lib.Bytes
import XcKernel.Lib.Word

/-!
# The boot sector

The boot sector brings the setup code and the kernel into memory.  `load_sectors`
reads a number of sectors from the drive, as many at
a time as the track and the segment allow: the BIOS reads no further than the end of
a track, and not across a border of 64 KiB.  The cylinder, head and sector of the next
read are counted up by hand, on the stack.

The stack and the variables are bytes of the segment at `0x90000`.  The BIOS is a
parameter: what is documented for function 2 of INT 13h is a hypothesis, and it may
write to memory of its own and to the stack below `sp`.  `call` and `ret` take four bytes,
`push` and `pop` with the suffix `w` two.
-/

namespace XcKernel.Boot

open Word

/-- The bytes of the drive, with its geometry and the sectors that can be read. -/
structure Drive where
  sectors : Nat
  heads : Nat
  cylinders : Nat
  data : Nat → BitVec 8
  readable : Nat → Bool

/-- The number of a sector on the drive. -/
def Drive.lba (d : Drive) (cylinder head sector : Nat) : Nat :=
  (cylinder * d.heads + head) * d.sectors + (sector - 1)

/-- The registers of INT 13h, function 2. -/
structure Request where
  al : Nat
  cl : Nat
  ch : Nat
  dh : Nat
  es : Nat
  bx : Nat
  sp : Nat

/-- Where the sectors go. -/
def Request.base (q : Request) : Nat := 16 * q.es + q.bx

def Request.Target (q : Request) (a : Nat) : Prop := q.base ≤ a ∧ a < q.base + 512 * q.al

/-- The drive has the sectors on one track and they can be read, and their place does
not cross a border of 64 KiB. -/
def Drive.Serves (d : Drive) (q : Request) : Prop :=
  1 ≤ q.al ∧ 1 ≤ q.cl ∧ q.cl + q.al ≤ d.sectors + 1 ∧ q.dh < d.heads ∧ q.ch < d.cylinders ∧
    q.base / 2 ^ 16 = (q.base + 512 * q.al - 1) / 2 ^ 16 ∧
    ∀ k < q.al, d.readable (d.lba q.ch q.dh q.cl + k) = true

instance (d : Drive) (q : Request) : Decidable (d.Serves q) := inferInstanceAs (Decidable (_ ∧ _))

/-- What a read leaves in the carry flag, in `al` and in memory. -/
structure ReadResult where
  carry : Bool
  al : Nat
  mem : Bytes

/-- INT 13h, function 2, and INT 10h with the stack pointer. -/
structure Bios where
  read : Request → Bytes → ReadResult
  video : Nat → Bytes → Bytes

/-- The stack below `sp`, which an interrupt may use. -/
def Scratch (depth sp a : Nat) : Prop := 0x90000 + sp ≤ a + depth ∧ a < 0x90000 + sp

/-- What is documented of the BIOS, with memory of its own and the depth of its stack.
A read is asked for at a place that is neither. -/
structure Bios.Documented (bios : Bios) (d : Drive) (own : Nat → Prop) (depth : Nat) : Prop where
  carry : ∀ (q : Request) (m : Bytes), (∀ a, q.Target a → ¬ own a ∧ ¬ Scratch depth q.sp a) →
    ((bios.read q m).carry = false ↔ d.Serves q)
  data : ∀ (q : Request) (m : Bytes), (∀ a, q.Target a → ¬ own a ∧ ¬ Scratch depth q.sp a) →
    d.Serves q → (bios.read q m).al = q.al ∧
      ∀ i < 512 * q.al, (bios.read q m).mem (q.base + i) = d.data (512 * d.lba q.ch q.dh q.cl + i)
  kept : ∀ (q : Request) (m : Bytes) (a : Nat), ¬ q.Target a → ¬ own a → ¬ Scratch depth q.sp a →
    (bios.read q m).mem a = m a
  video : ∀ (sp : Nat) (m : Bytes) (a : Nat), ¬ own a → ¬ Scratch depth sp a → bios.video sp m a = m a

/-- A word of the segment. -/
def wordAt (m : Bytes) (off : Nat) : Nat :=
  (m (0x90000 + off)).toNat + 256 * (m (0x90000 + off + 1)).toNat

def putByte (m : Bytes) (off v : Nat) : Bytes := m.store (0x90000 + off) (BitVec.ofNat 8 v)

def putWord (m : Bytes) (off v : Nat) : Bytes := putByte (putByte m off v) (off + 1) (v / 256)

/-- The labels of the boot sector: the variables, a string and the places behind the calls. -/
structure Labels where
  sectorsPerTrack : Nat
  maxCylinders : Nat
  maxHeads : Nat
  strLoadingStart : Nat
  printed : Nat
  setupLoaded : Nat
  kernelLoaded : Nat

/-- The registers that are saved. -/
structure Regs where
  ax : Nat
  cx : Nat
  dx : Nat
  bx : Nat
  bp : Nat
  si : Nat
  di : Nat
  es : Nat
  deriving DecidableEq, Repr

/-- `pushaw` with the stack pointer at `sp`, then `pushw %es` -/
def pushAll (regs : Regs) (sp : Nat) (m : Bytes) : Bytes :=
  let m := putWord m (sp - 2) regs.ax
  let m := putWord m (sp - 4) regs.cx
  let m := putWord m (sp - 6) regs.dx
  let m := putWord m (sp - 8) regs.bx
  let m := putWord m (sp - 10) sp
  let m := putWord m (sp - 12) regs.bp
  let m := putWord m (sp - 14) regs.si
  let m := putWord m (sp - 16) regs.di
  putWord m (sp - 18) regs.es

/-- `popw %es` and `popaw`; the stack pointer is `sp` afterwards, and the word that was
pushed for it is skipped. -/
def popAll (sp : Nat) (m : Bytes) : Regs where
  ax := wordAt m (sp - 2)
  cx := wordAt m (sp - 4)
  dx := wordAt m (sp - 6)
  bx := wordAt m (sp - 8)
  bp := wordAt m (sp - 12)
  si := wordAt m (sp - 14)
  di := wordAt m (sp - 16)
  es := wordAt m (sp - 18)

/-- The arguments of `load_sectors` on the stack. -/
structure Frame where
  segment : Nat
  offset : Nat
  rest : Nat
  cylinder : Nat
  head : Nat
  sector : Nat
  deriving DecidableEq, Repr

/-- The arguments, from `bp`. -/
def frameAt (m : Bytes) (bp : Nat) : Frame where
  segment := wordAt m (bp + 16)
  offset := wordAt m (bp + 14)
  rest := wordAt m (bp + 12)
  cylinder := wordAt m (bp + 10)
  head := wordAt m (bp + 8)
  sector := wordAt m (bp + 6)

/-- How many sectors to read: to the end of the track, or the rest, or to the end of
the segment.  `sectors_per_track` is one more than there are. -/
def Frame.count (sectorsPerTrack : Nat) (f : Frame) : Nat :=
  let ax := wrapSub 16 sectorsPerTrack f.sector
  let ax := if ax < f.rest then ax else f.rest
  let bx := if f.offset = 0 then 128 else wrapSub 16 0 f.offset >>> 9
  if ax < bx then ax else bx

/-- What a round writes after a read of `al` sectors: where to go on. -/
def storeNext (v : Labels) (bp : Nat) (f : Frame) (al : Nat) (m : Bytes) : Bytes :=
  let cl := wrap 8 (f.sector % 256 + al)
  let track := cl < wordAt m v.sectorsPerTrack % 256
  let dh := if track then f.head % 256 else wrap 8 (f.head % 256 + 1)
  let m := putByte m (bp + 6) (if track then cl else 1)
  let cylinder := dh < wordAt m v.maxHeads % 256
  let m := putByte m (bp + 8) (if cylinder then dh else 0)
  let m := putByte m (bp + 10) (if cylinder then f.cylinder % 256 else wrap 8 (f.cylinder % 256 + 1))
  let m := putWord m (bp + 12) (wrapSub 16 (wordAt m (bp + 12)) al)
  let ax := wrap 16 (al <<< 9)
  let carry := 2 ^ 16 ≤ f.offset + ax
  let m := putWord m (bp + 14) (if carry then 0 else f.offset + ax)
  putWord m (bp + 16) (if carry then wrap 16 (f.segment + 0x1000) else f.segment)

/-- The request of a round. -/
def Frame.request (f : Frame) (al bp : Nat) : Request :=
  ⟨al, f.sector % 256, f.cylinder % 256, f.head % 256, f.segment, f.offset, bp - 20⟩

/-- One round from `loading_continue`, and whether it reads. -/
def loadRound (bios : Bios) (v : Labels) (bp : Nat) (m : Bytes) : Bool × Bytes :=
  let f := frameAt m bp
  let r := bios.read (f.request (f.count (wordAt m v.sectorsPerTrack) % 256) bp) m
  if r.carry then (false, r.mem) else (true, storeNext v bp f r.al r.mem)

/-- The rounds; `none` if they do not end. -/
def loadLoop (bios : Bios) (v : Labels) (bp : Nat) : (fuel : Nat) → Bytes → Option (Bool × Bytes)
  | 0, _ => none
  | fuel + 1, m =>
    let r := loadRound bios v bp m
    if r.1 = true ∧ wordAt r.2 (bp + 12) ≠ 0 then loadLoop bios v bp fuel r.2 else some r

/-- `load_sectors`, with the return address at `sp`.  What it returns is in `ax`. -/
def loadSectors (bios : Bios) (v : Labels) (fuel : Nat) (regs : Regs) (sp : Nat) (m : Bytes) :
    Option (Regs × Bytes) :=
  let bp := sp - 2
  let m := putWord m bp regs.bp
  let m := pushAll { regs with bp := bp } (bp - 2) m
  let m := putWord m (bp - 2) 0
  (loadLoop bios v bp fuel m).map fun r =>
    let m := if r.1 then r.2 else putWord r.2 (bp - 2) 0xffff
    ({ popAll (bp - 2) m with ax := wordAt m (bp - 2), bp := wordAt m bp }, m)

/-- The call of `load_sectors` with its arguments pushed before, from `sp`. -/
def callLoadSectors (bios : Bios) (v : Labels) (fuel : Nat) (regs : Regs) (sp : Nat) (f : Frame)
    (back : Nat) (m : Bytes) : Option (Regs × Bytes) :=
  let m := putWord m (sp - 2) f.segment
  let m := putWord m (sp - 4) f.offset
  let m := putWord m (sp - 6) f.rest
  let m := putWord m (sp - 8) f.cylinder
  let m := putWord m (sp - 10) f.head
  let m := putWord m (sp - 12) f.sector
  let m := putWord (putWord m (sp - 14) 0) (sp - 16) back
  loadSectors bios v fuel regs (sp - 16) m

/-- The call of `print_str` with its arguments, from `sp`. -/
def callPrintStr (bios : Bios) (regs : Regs) (sp length offset back : Nat) (m : Bytes) : Bytes :=
  let m := putWord m (sp - 2) length
  let m := putWord m (sp - 4) 0x9000
  let m := putWord m (sp - 6) offset
  let m := putWord (putWord m (sp - 8) 0) (sp - 10) back
  let bp := sp - 12
  let m := putWord m bp regs.bp
  let m := pushAll { regs with bp := bp } bp m
  let m := bios.video (bp - 18) m
  let m := putWord m (bp - 20) bp
  bios.video (bp - 20) m

/-- What INT 13h, function 8, leaves in `ch`, `cl` and `dh`. -/
structure DriveParameters where
  ch : Nat
  cl : Nat
  dh : Nat

def Drive.parameters (d : Drive) : DriveParameters where
  ch := (d.cylinders - 1) % 256
  cl := d.sectors + (d.cylinders - 1) / 256 * 64
  dh := d.heads - 1

/-- What the boot sector does from the drive parameters up to the message: the setup code
comes from the second sector on, the kernel from the second head on. -/
def bootsect (bios : Bios) (v : Labels) (p : DriveParameters) (fuel : Nat) (regs : Regs) (m : Bytes) :
    Option (Bool × Bytes) :=
  let m := putByte m v.maxCylinders (wrap 8 (p.ch + 1))
  let m := putByte m v.sectorsPerTrack (wrap 8 ((p.cl &&& 0x3f) + 1))
  let m := putByte m v.maxHeads (wrap 8 (p.dh + 1))
  let m := callPrintStr bios regs 0xfffc 17 v.strLoadingStart v.printed m
  (callLoadSectors bios v fuel regs 0xfffc ⟨0x9000, 0x200, 17, 0, 0, 2⟩ v.setupLoaded m).bind fun r =>
    if r.1.ax ≠ 0 then some (false, r.2)
    else
      (callLoadSectors bios v fuel r.1 0xfffc ⟨0x1000, 0x0000, 1024, 0, 1, 1⟩ v.kernelLoaded r.2).map
        fun r => (r.1.ax = 0, r.2)

variable {bios : Bios} {d : Drive} {own : Nat → Prop} {depth : Nat} {v : Labels} {f : Frame} {regs : Regs}
  {m m' : Bytes} {lba base n off off' bp sp w fuel : Nat}

theorem wordAt_congr (low : m' (0x90000 + off) = m (0x90000 + off))
    (high : m' (0x90000 + off + 1) = m (0x90000 + off + 1)) : wordAt m' off = wordAt m off := by
  rw [wordAt, wordAt, low, high]

theorem putByte_of_ne {a : Nat} (other : a ≠ 0x90000 + off) : putByte m off w a = m a :=
  Bytes.store_of_ne other _

theorem putWord_of_not {a : Nat} (outside : a < 0x90000 + off ∨ 0x90000 + off + 2 ≤ a) :
    putWord m off w a = m a := by
  rw [putWord, putByte_of_ne (by omega), putByte_of_ne (by omega)]

theorem wordAt_putWord_of_not (apart : off' + 2 ≤ off ∨ off + 2 ≤ off') :
    wordAt (putWord m off w) off' = wordAt m off' :=
  wordAt_congr (putWord_of_not (by omega)) (putWord_of_not (by omega))

theorem wordAt_putByte_of_not (apart : off' + 2 ≤ off ∨ off < off') :
    wordAt (putByte m off w) off' = wordAt m off' :=
  wordAt_congr (putByte_of_ne (by omega)) (putByte_of_ne (by omega))

theorem wordAt_putWord (small : w < 2 ^ 16) : wordAt (putWord m off w) off = w := by
  have low : putWord m off w (0x90000 + off) = BitVec.ofNat 8 w := by
    rw [putWord, putByte_of_ne (by omega)]
    exact Bytes.store_self _
  have high : putWord m off w (0x90000 + off + 1) = BitVec.ofNat 8 (w / 256) := Bytes.store_self _
  rw [wordAt, low, high, BitVec.toNat_ofNat, BitVec.toNat_ofNat]
  omega

/-- `movb` to the low byte of a word -/
def setLow (word byte : Nat) : Nat := word / 256 * 256 + byte

theorem wordAt_putByte (small : w < 256) : wordAt (putByte m off w) off = setLow (wordAt m off) w := by
  have low : putByte m off w (0x90000 + off) = BitVec.ofNat 8 w := Bytes.store_self _
  have high : putByte m off w (0x90000 + off + 1) = m (0x90000 + off + 1) := putByte_of_ne (by omega)
  have byte := (m (0x90000 + off)).isLt
  rw [wordAt, low, high, BitVec.toNat_ofNat, setLow, wordAt]
  omega

theorem wordAt_lt (m : Bytes) (off : Nat) : wordAt m off < 2 ^ 16 := by
  have low := (m (0x90000 + off)).isLt
  have high := (m (0x90000 + off + 1)).isLt
  rw [wordAt]
  omega

theorem pushAll_of_not {a : Nat} (room : 18 ≤ sp)
    (outside : a < 0x90000 + (sp - 18) ∨ 0x90000 + sp ≤ a) : pushAll regs sp m a = m a := by
  simp only [pushAll]
  repeat rw [putWord_of_not (by omega)]

theorem popAll_pushAll (room : 18 ≤ sp) (words : ∀ w ∈ [regs.ax, regs.cx, regs.dx, regs.bx, regs.bp, regs.si,
    regs.di, regs.es], w < 2 ^ 16) : popAll sp (pushAll regs sp m) = regs := by
  simp only [List.forall_mem_cons, List.not_mem_nil, false_implies, implies_true, and_true] at words
  obtain ⟨ax, cx, dx, bx, hbp, si, di, es⟩ := words
  cases regs
  simp only [popAll, pushAll, Regs.mk.injEq]
  refine ⟨?_, ?_, ?_, ?_, ?_, ?_, ?_, ?_⟩
  all_goals
    repeat rw [wordAt_putWord_of_not (by omega)]
    exact wordAt_putWord (by assumption)

theorem popAll_congr (room : 18 ≤ sp)
    (same : ∀ a, 0x90000 + (sp - 18) ≤ a → a < 0x90000 + sp → m' a = m a) : popAll sp m' = popAll sp m := by
  have word : ∀ off, sp - 18 ≤ off → off + 2 ≤ sp → wordAt m' off = wordAt m off := fun off low high =>
    wordAt_congr (same _ (by omega) (by omega)) (same _ (by omega) (by omega))
  simp only [popAll, Regs.mk.injEq]
  refine ⟨?_, ?_, ?_, ?_, ?_, ?_, ?_, ?_⟩
  all_goals exact word _ (by omega) (by omega)

end XcKernel.Boot
