import XcKernel.Boot.Bootsect

/-!
# Loading sectors

The arguments on the stack say at every time which sectors are still to be read and
where they go.  A round reads as many as the track and the segment allow and counts on;
the reads do not meet the stack frame and the variables, so the next round finds them.
-/

namespace XcKernel.Boot

open Word

variable {bios : Bios} {d : Drive} {own : Nat → Prop} {depth : Nat} {v : Labels} {f : Frame} {regs : Regs}
  {m m' : Bytes} {lba base n bp fuel : Nat}

/-- The variables after a read of `al` sectors. -/
def Frame.advance (sectorsPerTrack maxHeads : Nat) (f : Frame) (al : Nat) : Frame :=
  let cl := wrap 8 (f.sector % 256 + al)
  let track := cl < sectorsPerTrack % 256
  let dh := if track then f.head % 256 else wrap 8 (f.head % 256 + 1)
  let cylinder := dh < maxHeads % 256
  let ax := wrap 16 (al <<< 9)
  let carry := 2 ^ 16 ≤ f.offset + ax
  { segment := if carry then wrap 16 (f.segment + 0x1000) else f.segment
    offset := if carry then 0 else f.offset + ax
    rest := wrapSub 16 f.rest al
    cylinder := setLow f.cylinder (if cylinder then f.cylinder % 256 else wrap 8 (f.cylinder % 256 + 1))
    head := setLow f.head (if cylinder then dh else 0)
    sector := setLow f.sector (if track then cl else 1) }

theorem Frame.count_eq_min (sectorsPerTrack : Nat) (f : Frame) : f.count sectorsPerTrack =
    min (min (wrapSub 16 sectorsPerTrack f.sector) f.rest)
      (if f.offset = 0 then 128 else wrapSub 16 0 f.offset >>> 9) := by
  have least (a b : Nat) : (if a < b then a else b) = min a b := by split <;> omega
  rw [count, least, least]

/-- A drive that the registers can address. -/
structure Drive.Ok (d : Drive) : Prop where
  sectors : 1 ≤ d.sectors ∧ d.sectors ≤ 63
  heads : 1 ≤ d.heads ∧ d.heads ≤ 255
  cylinders : d.cylinders ≤ 256

/-- The frame asks for the sectors from `lba` on, to be loaded from `base` on. -/
structure Frame.Asks (d : Drive) (f : Frame) (lba base : Nat) : Prop where
  position : d.lba f.cylinder f.head f.sector = lba
  sector : 1 ≤ f.sector ∧ f.sector ≤ d.sectors
  head : f.head < d.heads
  cylinder : f.cylinder < d.cylinders
  place : 16 * f.segment + f.offset = base
  segment : f.segment % 0x1000 = 0
  offset : f.offset % 512 = 0 ∧ f.offset < 2 ^ 16

theorem Frame.Asks.count (asks : f.Asks d lba base) (ok : d.Ok) :
    f.count (d.sectors + 1) = min (min (d.sectors + 1 - f.sector) f.rest) ((2 ^ 16 - f.offset) / 512) := by
  have sectors := ok.sectors
  have sector := asks.sector
  have offset := asks.offset
  have track : wrapSub 16 (d.sectors + 1) f.sector = d.sectors + 1 - f.sector :=
    wrapSub_of_le (by omega) (by omega)
  have segment : (if f.offset = 0 then 128 else wrapSub 16 0 f.offset >>> 9) = (2 ^ 16 - f.offset) / 512 := by
    split
    · omega
    · rw [wrapSub, Nat.shiftRight_eq_div_pow]
      omega
  rw [f.count_eq_min, track, segment]

/-- The next sector in the order of the drive. -/
theorem Drive.lba_advance (d : Drive) (cylinder head n : Nat) {sector : Nat} (low : 1 ≤ sector) :
    (sector + n ≤ d.sectors → d.lba cylinder head (sector + n) = d.lba cylinder head sector + n) ∧
      (sector + n = d.sectors + 1 → d.lba cylinder (head + 1) 1 = d.lba cylinder head sector + n) ∧
      (sector + n = d.sectors + 1 → head + 1 = d.heads →
        d.lba (cylinder + 1) 0 1 = d.lba cylinder head sector + n) := by
  have next : (cylinder * d.heads + (head + 1)) * d.sectors =
      (cylinder * d.heads + head) * d.sectors + d.sectors := by
    rw [← Nat.add_assoc, Nat.succ_mul]
  refine ⟨fun _ => ?_, fun last => ?_, fun last edge => ?_⟩
  · simp only [Drive.lba]
    omega
  · simp only [Drive.lba, next]
    omega
  · have carried : (cylinder + 1) * d.heads + 0 = cylinder * d.heads + (head + 1) := by
      rw [Nat.succ_mul, edge, Nat.add_zero]
    simp only [Drive.lba, carried, next]
    omega

/-- A read within the track and the segment fails on unreadable sectors only. -/
theorem Frame.Asks.serves (bp : Nat) (asks : f.Asks d lba base) (ok : d.Ok) (some : 1 ≤ n)
    (track : f.sector + n ≤ d.sectors + 1) (segment : f.offset + 512 * n ≤ 2 ^ 16) :
    (d.lba (f.request n bp).ch (f.request n bp).dh (f.request n bp).cl = lba ∧ (f.request n bp).base = base) ∧
      (d.Serves (f.request n bp) ↔ ∀ k < n, d.readable (lba + k) = true) := by
  obtain ⟨hlba, sector, head, cylinder, hbase, aligned, offset⟩ := asks
  have sectors := ok.sectors
  have heads := ok.heads
  have cylinders := ok.cylinders
  have border : base / 2 ^ 16 = (base + 512 * n - 1) / 2 ^ 16 := by omega
  have place : (f.request n bp).base = base := hbase
  have position : d.lba (f.cylinder % 256) (f.head % 256) (f.sector % 256) = lba := by
    rw [Nat.mod_eq_of_lt (by omega), Nat.mod_eq_of_lt (by omega), Nat.mod_eq_of_lt (by omega), hlba]
  refine ⟨⟨position, place⟩, ?_⟩
  rw [Drive.Serves, place]
  simp only [Frame.request, position]
  refine ⟨fun h => h.2.2.2.2.2.2, fun h => ⟨some, ?_, ?_, ?_, ?_, border, h⟩⟩ <;> omega

theorem setLow_of_lt {word byte : Nat} (small : word < 256) : setLow word byte = byte := by
  rw [setLow, Nat.div_eq_of_lt small, Nat.zero_mul, Nat.zero_add]

theorem Frame.Asks.advance_place (asks : f.Asks d lba base) (sectorsPerTrack maxHeads : Nat) (few : n ≤ 127)
    (segment : f.offset + 512 * n ≤ 2 ^ 16) (room : base + 512 * n < 2 ^ 20) :
    let f' := f.advance sectorsPerTrack maxHeads n
    16 * f'.segment + f'.offset = base + 512 * n ∧ f'.segment % 0x1000 = 0 ∧ f'.offset % 512 = 0 ∧
      f'.offset < 2 ^ 16 := by
  obtain ⟨-, -, -, -, hbase, aligned, offset⟩ := asks
  have shift : wrap 16 (n <<< 9) = 512 * n := by
    rw [Nat.shiftLeft_eq, wrap_of_lt (by omega)]
    omega
  simp only [Frame.advance, shift]
  by_cases carry : 2 ^ 16 ≤ f.offset + 512 * n
  · rw [if_pos carry, if_pos carry, wrap_of_lt (by omega)]
    omega
  · rw [if_neg carry, if_neg carry]
    omega

theorem Frame.Asks.advance_chs (asks : f.Asks d lba base) (ok : d.Ok)
    (track : f.sector + n ≤ d.sectors + 1) (more : lba + n < d.cylinders * d.heads * d.sectors) :
    let f' := f.advance (d.sectors + 1) d.heads n
    d.lba f'.cylinder f'.head f'.sector = lba + n ∧ (1 ≤ f'.sector ∧ f'.sector ≤ d.sectors) ∧
      f'.head < d.heads ∧ f'.cylinder < d.cylinders := by
  obtain ⟨hlba, sector, head, cylinder, -, -, -⟩ := asks
  have sectors := ok.sectors
  have heads := ok.heads
  have cylinders := ok.cylinders
  obtain ⟨within, nextHead, nextCylinder⟩ := d.lba_advance f.cylinder f.head n sector.1
  rw [hlba] at within nextHead nextCylinder
  have cl : wrap 8 (f.sector % 256 + n) = f.sector + n := by
    rw [Nat.mod_eq_of_lt (by omega), wrap_of_lt (by omega)]
  have low : (d.sectors + 1) % 256 = d.sectors + 1 ∧ d.heads % 256 = d.heads ∧ f.head % 256 = f.head ∧
      f.cylinder % 256 = f.cylinder := by omega
  obtain ⟨lowSectors, lowHeads, lowHead, lowCylinder⟩ := low
  simp only [Frame.advance, cl, lowSectors, lowHeads, lowHead, lowCylinder, setLow_of_lt
    (show f.sector < 256 by omega), setLow_of_lt (show f.head < 256 by omega), setLow_of_lt
    (show f.cylinder < 256 by omega)]
  by_cases same : f.sector + n < d.sectors + 1
  · rw [if_pos same, if_pos same, if_pos head, if_pos head]
    exact ⟨within (by omega), by omega, head, cylinder⟩
  · have last : f.sector + n = d.sectors + 1 := by omega
    rw [if_neg same, if_neg same, wrap_of_lt (by omega)]
    by_cases turn : f.head + 1 < d.heads
    · rw [if_pos turn, if_pos turn]
      exact ⟨nextHead last, by omega, turn, cylinder⟩
    · have edge : f.head + 1 = d.heads := by omega
      -- only the end of the drive has no next cylinder
      have inside : f.cylinder + 1 < d.cylinders := by
        by_contra beyond
        have end_ : f.cylinder + 1 = d.cylinders := by omega
        have whole := nextCylinder last edge
        rw [Drive.lba, end_, Nat.add_zero, Nat.add_zero] at whole
        omega
      rw [if_neg turn, if_neg turn, wrap_of_lt (by omega)]
      exact ⟨nextCylinder last edge, by omega, by omega, inside⟩

/-- The variables count on to the next sector and to the memory behind the last one. -/
theorem Frame.Asks.advance (asks : f.Asks d lba base) (ok : d.Ok)
    (track : f.sector + n ≤ d.sectors + 1) (segment : f.offset + 512 * n ≤ 2 ^ 16)
    (more : lba + n < d.cylinders * d.heads * d.sectors) (room : base + 512 * n < 2 ^ 20) :
    (f.advance (d.sectors + 1) d.heads n).Asks d (lba + n) (base + 512 * n) := by
  have few : n ≤ 127 := by
    have sectors := ok.sectors
    omega
  obtain ⟨hlba, sector, head, cylinder⟩ := asks.advance_chs ok track more
  obtain ⟨hbase, aligned, offset⟩ := asks.advance_place (d.sectors + 1) d.heads few segment room
  exact ⟨hlba, sector, head, cylinder, hbase, aligned, offset⟩

/-- What is left of the request, and that it fits the drive and the memory. -/
structure Frame.Fits (d : Drive) (f : Frame) (lba base : Nat) : Prop extends f.Asks d lba base where
  positive : 1 ≤ f.rest
  word : f.rest < 2 ^ 16
  drive : lba + f.rest ≤ d.cylinders * d.heads * d.sectors
  room : base + 512 * f.rest ≤ 2 ^ 20

theorem ite_lt {c : Prop} [Decidable c] {a b k : Nat} (ha : a < k) (hb : b < k) :
    (if c then a else b) < k := by
  split
  · exact ha
  · exact hb

/-- The words of a frame after its three bytes and its three words are written. -/
theorem frameAt_puts {sector head cylinder rest offset segment : Nat} (hsector : sector < 256)
    (hhead : head < 256) (hcylinder : cylinder < 256) (hrest : rest < 2 ^ 16) (hoffset : offset < 2 ^ 16)
    (hsegment : segment < 2 ^ 16) :
    frameAt (putWord (putWord (putWord (putByte (putByte (putByte m (bp + 6) sector) (bp + 8) head) (bp + 10)
      cylinder) (bp + 12) rest) (bp + 14) offset) (bp + 16) segment) bp =
      ⟨segment, offset, rest, setLow (wordAt m (bp + 10)) cylinder, setLow (wordAt m (bp + 8)) head,
        setLow (wordAt m (bp + 6)) sector⟩ := by
  rw [frameAt, Frame.mk.injEq]
  refine ⟨wordAt_putWord hsegment, ?_, ?_, ?_, ?_, ?_⟩
  · rw [wordAt_putWord_of_not (by omega), wordAt_putWord hoffset]
  · rw [wordAt_putWord_of_not (by omega), wordAt_putWord_of_not (by omega), wordAt_putWord hrest]
  · rw [wordAt_putWord_of_not (by omega), wordAt_putWord_of_not (by omega), wordAt_putWord_of_not (by omega),
      wordAt_putByte hcylinder, wordAt_putByte_of_not (by omega), wordAt_putByte_of_not (by omega)]
  · rw [wordAt_putWord_of_not (by omega), wordAt_putWord_of_not (by omega), wordAt_putWord_of_not (by omega),
      wordAt_putByte_of_not (by omega), wordAt_putByte hhead, wordAt_putByte_of_not (by omega)]
  · rw [wordAt_putWord_of_not (by omega), wordAt_putWord_of_not (by omega), wordAt_putWord_of_not (by omega),
      wordAt_putByte_of_not (by omega), wordAt_putByte_of_not (by omega), wordAt_putByte hsector]

/-- A round leaves the variables of the next one in the frame. -/
theorem frameAt_storeNext (bp : Nat) (below : v.maxHeads + 2 ≤ bp) (al : Nat) :
    frameAt (storeNext v bp (frameAt m bp) al m) bp =
      (frameAt m bp).advance (wordAt m v.sectorsPerTrack) (wordAt m v.maxHeads) al := by
  have heads (b : Nat) : wordAt (putByte m (bp + 6) b) v.maxHeads = wordAt m v.maxHeads :=
    wordAt_putByte_of_not (by omega)
  have rest (b b' b'' : Nat) : wordAt (putByte (putByte (putByte m (bp + 6) b) (bp + 8) b') (bp + 10) b'')
      (bp + 12) = wordAt m (bp + 12) := by
    rw [wordAt_putByte_of_not (by omega), wordAt_putByte_of_not (by omega), wordAt_putByte_of_not (by omega)]
  have byte (b : Nat) : b % 256 < 256 := Nat.mod_lt _ (by decide)
  have next (b : Nat) : wrap 8 b < 256 := wrap_lt 8 b
  have offset : wordAt m (bp + 14) < 2 ^ 16 := wordAt_lt m _
  simp only [storeNext, heads, rest]
  rw [frameAt_puts]
  · rfl
  · exact ite_lt (next _) (by decide)
  · exact ite_lt (ite_lt (byte _) (next _)) (by decide)
  · exact ite_lt (byte _) (next _)
  · exact Nat.mod_lt _ (by decide)
  · by_cases carry : 2 ^ 16 ≤ (frameAt m bp).offset + wrap 16 (al <<< 9)
    · rw [if_pos carry]
      decide
    · rw [if_neg carry]
      exact not_le.mp carry
  · exact ite_lt (wrap_lt 16 _) (wordAt_lt m _)

theorem storeNext_of_not {a : Nat} (outside : a < 0x90000 + bp + 6 ∨ 0x90000 + bp + 18 ≤ a) :
    storeNext v bp f n m a = m a := by
  simp only [storeNext]
  rw [putWord_of_not (by omega), putWord_of_not (by omega), putWord_of_not (by omega),
    putByte_of_ne (by omega), putByte_of_ne (by omega), putByte_of_ne (by omega)]

/-- The stack frame of `load_sectors` and the two variables that it reads. -/
def Live (v : Labels) (bp a : Nat) : Prop :=
  (0x90000 + (bp - 20) ≤ a ∧ a < 0x90000 + bp + 18) ∨
    (0x90000 + v.sectorsPerTrack ≤ a ∧ a < 0x90000 + v.sectorsPerTrack + 2) ∨
    (0x90000 + v.maxHeads ≤ a ∧ a < 0x90000 + v.maxHeads + 2)

/-- The stack has room below `bp`, above the variables, and what is loaded from `lo` to `hi`
meets neither of them nor memory of the BIOS. -/
structure Place (own : Nat → Prop) (depth : Nat) (v : Labels) (bp lo hi : Nat) : Prop where
  room : 20 + depth ≤ bp
  top : bp + 18 ≤ 2 ^ 16
  track : v.sectorsPerTrack + 2 ≤ bp - 20 - depth
  heads : v.maxHeads + 2 ≤ bp - 20 - depth
  free : ∀ a, lo ≤ a → a < hi → ¬ own a ∧ ¬ Live v bp a ∧ ¬ Scratch depth (bp - 20) a
  live : ∀ a, Live v bp a → ¬ own a

/-- The variables say what drive it is; the head count fills its word. -/
structure Stored (d : Drive) (v : Labels) (m : Bytes) : Prop where
  track : wordAt m v.sectorsPerTrack = d.sectors + 1
  heads : wordAt m v.maxHeads = d.heads

/-- The arguments, which the rounds write. -/
def Argument (bp a : Nat) : Prop := 0x90000 + bp + 6 ≤ a ∧ a < 0x90000 + bp + 18

/-- From `m` on some sectors were asked for: the flag says whether all could be read, and
they are in memory then.  What else has changed is the stack, the arguments and memory of
the BIOS. -/
structure SectorsRead (d : Drive) (own : Nat → Prop) (depth bp lba base n : Nat) (m : Bytes)
    (r : Bool × Bytes) : Prop where
  success : r.1 = true ↔ ∀ k < n, d.readable (lba + k) = true
  data : r.1 = true → ∀ i < 512 * n, r.2 (base + i) = d.data (512 * lba + i)
  kept : ∀ a, ¬ (base ≤ a ∧ a < base + 512 * n) → ¬ own a → ¬ Scratch depth (bp - 20) a →
    ¬ Argument bp a → r.2 a = m a

variable {lo hi : Nat} {r r' : Bool × Bytes}

theorem Place.live_kept (place : Place own depth v bp lo hi) (low : lo ≤ base) (high : base + 512 * n ≤ hi)
    (loaded : SectorsRead d own depth bp lba base n m r) {a : Nat} (live : Live v bp a)
    (notArgument : ¬ Argument bp a) : r.2 a = m a := by
  refine loaded.kept a (fun inside => ?_) (place.live a live) ?_ notArgument
  · exact (place.free a (by omega) (by omega)).2.1 live
  · have room := place.room
    have track := place.track
    have heads := place.heads
    simp only [Live, Scratch] at live ⊢
    omega

theorem Stored.of_live (bp : Nat) (stored : Stored d v m) (track : v.sectorsPerTrack + 2 ≤ bp)
    (heads : v.maxHeads + 2 ≤ bp) (kept : ∀ a, Live v bp a → a < 0x90000 + bp → m' a = m a) :
    Stored d v m' := by
  constructor
  · rw [← stored.track]
    exact wordAt_congr (kept _ (.inr (.inl (by omega))) (by omega))
      (kept _ (.inr (.inl (by omega))) (by omega))
  · rw [← stored.heads]
    exact wordAt_congr (kept _ (.inr (.inr (by omega))) (by omega))
      (kept _ (.inr (.inr (by omega))) (by omega))

theorem Place.stored (place : Place own depth v bp lo hi) (low : lo ≤ base) (high : base + 512 * n ≤ hi)
    (loaded : SectorsRead d own depth bp lba base n m r) (stored : Stored d v m) : Stored d v r.2 := by
  have room := place.room
  have track := place.track
  have heads := place.heads
  exact stored.of_live bp (by omega) (by omega) fun a live below =>
    place.live_kept low high loaded live (by unfold Argument; omega)

theorem frameAt_congr (kept : ∀ a, Argument bp a → m' a = m a) : frameAt m' bp = frameAt m bp := by
  have word : ∀ off, bp + 6 ≤ off → off + 2 ≤ bp + 18 → wordAt m' off = wordAt m off := fun off h h' =>
    wordAt_congr (kept _ (by unfold Argument; omega)) (kept _ (by unfold Argument; omega))
  rw [frameAt, frameAt, Frame.mk.injEq]
  refine ⟨?_, ?_, ?_, ?_, ?_, ?_⟩
  all_goals exact word _ (by omega) (by omega)

/-- One request behind another is one request. -/
theorem SectorsRead.trans (place : Place own depth v bp lo hi) (low : lo ≤ base) {n' : Nat}
    (high : base + 512 * (n + n') ≤ hi) (first : SectorsRead d own depth bp lba base n m r) (yes : r.1 = true)
    (second : SectorsRead d own depth bp (lba + n) (base + 512 * n) n' r.2 r') :
    SectorsRead d own depth bp lba base (n + n') m r' := by
  have readable := first.success.mp yes
  refine ⟨second.success.trans ⟨fun later k lt => ?_, fun all k lt => ?_⟩, fun yes' i lt => ?_,
    fun a out notOwn notScratch notArgument => ?_⟩
  · by_cases early : k < n
    · exact readable k early
    · rw [show lba + k = lba + n + (k - n) by omega]
      exact later (k - n) (by omega)
  · rw [Nat.add_assoc]
    exact all (n + k) (by omega)
  · by_cases early : i < 512 * n
    · obtain ⟨notOwn, notLive, notScratch⟩ := place.free (base + i) (by omega) (by omega)
      rw [second.kept _ (by omega) notOwn notScratch fun argument => notLive (.inl ?_)]
      · exact first.data yes i early
      · unfold Argument at argument
        omega
    · have later := second.data yes' (i - 512 * n) (by omega)
      rwa [show base + 512 * n + (i - 512 * n) = base + i by omega,
        show 512 * (lba + n) + (i - 512 * n) = 512 * lba + i by omega] at later
  · rw [second.kept a (by omega) notOwn notScratch notArgument]
    exact first.kept a (by omega) notOwn notScratch notArgument

/-- A read of the drive for a round leaves the frame and the variables alone. -/
theorem Place.read (place : Place own depth v bp lo hi) (documented : bios.Documented d own depth)
    (ok : d.Ok) (asks : f.Asks d lba base) (some : 1 ≤ n) (track : f.sector + n ≤ d.sectors + 1)
    (segment : f.offset + 512 * n ≤ 2 ^ 16) (low : lo ≤ base) (high : base + 512 * n ≤ hi) (m : Bytes) :
    ∃ read, bios.read (f.request n bp) m = read ∧
      (read.carry = false ↔ ∀ k < n, d.readable (lba + k) = true) ∧
      (read.carry = false → read.al = n ∧ ∀ i < 512 * n, read.mem (base + i) = d.data (512 * lba + i)) ∧
      (∀ a, ¬ (base ≤ a ∧ a < base + 512 * n) → ¬ own a → ¬ Scratch depth (bp - 20) a → read.mem a = m a) ∧
      ∀ a, Live v bp a → read.mem a = m a := by
  obtain ⟨⟨position, target⟩, serves⟩ := asks.serves bp ok some track segment
  have inTarget : ∀ a, (f.request n bp).Target a ↔ base ≤ a ∧ a < base + 512 * n := fun a => by
    rw [Request.Target, target]
    rfl
  have clear : ∀ a, (f.request n bp).Target a → ¬ own a ∧ ¬ Scratch depth (f.request n bp).sp a := by
    intro a inside
    rw [inTarget] at inside
    obtain ⟨notOwn, -, notScratch⟩ := place.free a (by omega) (by omega)
    exact ⟨notOwn, notScratch⟩
  have kept : ∀ a, ¬ (base ≤ a ∧ a < base + 512 * n) → ¬ own a → ¬ Scratch depth (bp - 20) a →
      (bios.read (f.request n bp) m).mem a = m a := fun a out notOwn notScratch =>
    documented.kept _ m a (by rwa [inTarget]) notOwn notScratch
  have carries := documented.carry _ m clear
  have data := documented.data _ m clear
  rw [serves] at carries data
  rw [position, target] at data
  refine ⟨_, rfl, carries, fun carry => data (carries.mp carry), kept, fun a live => ?_⟩
  refine kept a (fun inside => (place.free a (by omega) (by omega)).2.1 live) (place.live a live) ?_
  have room := place.room
  have track := place.track
  have heads := place.heads
  simp only [Live, Scratch] at live ⊢
  omega

/-- A round reads some sectors, and the frame asks for the rest if there is one. -/
theorem Place.round (place : Place own depth v bp lo hi) (documented : bios.Documented d own depth)
    (ok : d.Ok) (stored : Stored d v m) (frame : frameAt m bp = f) (fits : f.Fits d lba base) (low : lo ≤ base)
    (high : base + 512 * f.rest ≤ hi) :
    ∃ n, 1 ≤ n ∧ n ≤ f.rest ∧ SectorsRead d own depth bp lba base n m (loadRound bios v bp m) ∧
      ((loadRound bios v bp m).1 = true →
        frameAt (loadRound bios v bp m).2 bp = f.advance (d.sectors + 1) d.heads n ∧
        (f.advance (d.sectors + 1) d.heads n).rest = f.rest - n ∧
        (n < f.rest → (f.advance (d.sectors + 1) d.heads n).Fits d (lba + n) (base + 512 * n))) := by
  obtain ⟨asks, positive, word, drive, room⟩ := fits
  have sectors := ok.sectors
  have sector := asks.sector
  have offset := asks.offset
  have below := place.heads
  have stack := place.room
  have before := place.track
  have count := asks.count ok
  have round : loadRound bios v bp m =
      let r := bios.read (f.request (f.count (d.sectors + 1)) bp) m
      if r.carry then (false, r.mem) else (true, storeNext v bp f r.al r.mem) := by
    rw [loadRound, stored.track, frame, Nat.mod_eq_of_lt (by omega)]
  generalize f.count (d.sectors + 1) = n at count round
  obtain ⟨read, called, carries, data, kept, live⟩ := place.read documented ok asks (n := n) (by omega)
    (by omega) (by omega) low (by omega) m
  rw [called] at round
  refine ⟨n, by omega, by omega, ?_⟩
  cases carry : read.carry with
  | true =>
    rw [round]
    simp only [carry, if_true]
    refine ⟨⟨iff_of_false Bool.false_ne_true fun all => ?_, fun yes => absurd yes Bool.false_ne_true,
      fun a out notOwn notScratch _ => kept a out notOwn notScratch⟩, fun yes => absurd yes Bool.false_ne_true⟩
    rw [carries.mpr all] at carry
    cases carry
  | false =>
    obtain ⟨al, bytes⟩ := data carry
    have same : frameAt read.mem bp = f :=
      (frameAt_congr fun a inside => live a (.inl (by unfold Argument at inside; omega))).trans frame
    have stored' : Stored d v read.mem :=
      stored.of_live bp (by omega) (by omega) fun a isLive _ => live a isLive
    have next := frameAt_storeNext (m := read.mem) (v := v) bp (by omega) n
    rw [same, stored'.track, stored'.heads] at next
    have left : (f.advance (d.sectors + 1) d.heads n).rest = f.rest - n := wrapSub_of_le (by omega) word
    rw [round]
    simp only [carry, Bool.false_eq_true, if_false, al]
    refine ⟨⟨iff_of_true rfl (carries.mp carry), fun _ i lt => ?_,
      fun a out notOwn notScratch notArgument => ?_⟩, fun _ => ⟨next, left, fun more => ?_⟩⟩
    · dsimp only
      rw [storeNext_of_not]
      · exact bytes i lt
      · have notLive := (place.free (base + i) (by omega) (by omega)).2.1
        simp only [Live] at notLive
        omega
    · dsimp only
      rw [storeNext_of_not (by unfold Argument at notArgument; omega)]
      exact kept a out notOwn notScratch
    · refine ⟨asks.advance ok (by omega) (by omega) (by omega) (by omega), ?_, ?_, ?_, ?_⟩
      all_goals rw [left]; omega

/-- The loop ends, and has loaded all that was asked for or has met a sector that cannot be
read. -/
theorem Place.loads (place : Place own depth v bp lo hi) (documented : bios.Documented d own depth)
    (ok : d.Ok) (stored : Stored d v m) (frame : frameAt m bp = f) (fits : f.Fits d lba base) (low : lo ≤ base)
    (high : base + 512 * f.rest ≤ hi) (enough : f.rest ≤ fuel) :
    ∃ r, loadLoop bios v bp fuel m = some r ∧ SectorsRead d own depth bp lba base f.rest m r := by
  induction fuel generalizing m f lba base with
  | zero => exact absurd fits.positive (by omega)
  | succ fuel ih =>
    obtain ⟨n, some, le, loaded, next⟩ := place.round documented ok stored frame fits low high
    rw [loadLoop]
    generalize loadRound bios v bp m = r at loaded next ⊢
    by_cases yes : r.1 = true
    · obtain ⟨frame', left, fits'⟩ := next yes
      have rest : wordAt r.2 (bp + 12) = f.rest - n := left ▸ congrArg Frame.rest frame'
      by_cases last : n = f.rest
      · rw [if_neg (by rw [rest]; omega)]
        exact ⟨r, rfl, last ▸ loaded⟩
      · rw [if_pos ⟨yes, by rw [rest]; omega⟩]
        obtain ⟨r', loop, loaded'⟩ := ih (place.stored low (by omega) loaded stored) frame' (fits' (by omega))
          (by omega) (by rw [left]; omega) (by rw [left]; omega)
        refine ⟨r', loop, ?_⟩
        rw [left] at loaded'
        have whole := loaded.trans place low (by omega) yes loaded'
        rwa [show n + (f.rest - n) = f.rest by omega] at whole
    · rw [if_neg fun both => yes both.1]
      refine ⟨r, rfl, iff_of_false yes fun all => ?_, fun yes' => absurd yes' yes,
        fun a out notOwn notScratch notArgument => loaded.kept a (by omega) notOwn notScratch notArgument⟩
      exact yes (loaded.success.mpr fun k lt => all k (by omega))

/-- All registers are words. -/
def Regs.Words (regs : Regs) : Prop :=
  ∀ w ∈ [regs.ax, regs.cx, regs.dx, regs.bx, regs.bp, regs.si, regs.di, regs.es], w < 2 ^ 16

/-- What `load_sectors` brings back: 0 in `ax` if all sectors could be read, which are in
memory then, and -1 if not.  The other registers are as they were, and so is all memory but
the place of the sectors, the stack and memory of the BIOS. -/
structure Returned (d : Drive) (own : Nat → Prop) (depth bp lba base n : Nat) (regs : Regs) (m : Bytes)
    (r : Regs × Bytes) : Prop where
  zero : r.1.ax = 0 ↔ ∀ k < n, d.readable (lba + k) = true
  minusOne : r.1.ax ≠ 0 → r.1.ax = 0xffff
  data : r.1.ax = 0 → ∀ i < 512 * n, r.2 (base + i) = d.data (512 * lba + i)
  regs : { r.1 with ax := regs.ax } = regs
  kept : ∀ a, ¬ (base ≤ a ∧ a < base + 512 * n) → ¬ own a →
    ¬ (0x90000 + (bp - 20 - depth) ≤ a ∧ a < 0x90000 + bp + 18) → r.2 a = m a

/-- What the first instructions of `load_sectors` leave on the stack. -/
theorem pushed (bp : Nat) (room : 20 ≤ bp) (top : bp < 2 ^ 16) (words : regs.Words) :
    let m₁ := putWord (pushAll { regs with bp := bp } (bp - 2) (putWord m bp regs.bp)) (bp - 2) 0
    (∀ a, a < 0x90000 + (bp - 20) ∨ 0x90000 + bp + 2 ≤ a → m₁ a = m a) ∧
      popAll (bp - 2) m₁ = { regs with bp := bp } ∧ wordAt m₁ bp = regs.bp ∧ wordAt m₁ (bp - 2) = 0 := by
  have all := words
  simp only [Regs.Words, List.forall_mem_cons, List.not_mem_nil, false_implies, implies_true, and_true] at all
  obtain ⟨ax, cx, dx, bx, hbp, si, di, es⟩ := all
  dsimp only
  have above {a : Nat} (out : 0x90000 + bp ≤ a) : putWord (pushAll { regs with bp := bp } (bp - 2)
      (putWord m bp regs.bp)) (bp - 2) 0 a = putWord m bp regs.bp a := by
    rw [putWord_of_not (by omega), pushAll_of_not (by omega) (by omega)]
  refine ⟨fun a out => ?_, ?_, ?_, wordAt_putWord (by decide)⟩
  · rw [putWord_of_not (by omega), pushAll_of_not (by omega) (by omega), putWord_of_not (by omega)]
  · rw [popAll_congr (m := pushAll { regs with bp := bp } (bp - 2) (putWord m bp regs.bp)) (by omega)
      fun a low high => putWord_of_not (by omega)]
    refine popAll_pushAll (by omega) ?_
    simp only [List.forall_mem_cons, List.not_mem_nil, false_implies, implies_true, and_true]
    exact ⟨ax, cx, dx, bx, top, si, di, es⟩
  · exact (wordAt_congr (above (by omega)) (above (by omega))).trans (wordAt_putWord hbp)

/-- `load_sectors` returns. -/
theorem Place.returns (place : Place own depth v bp lo hi) (documented : bios.Documented d own depth)
    (ok : d.Ok) (words : regs.Words) (stored : Stored d v m) (frame : frameAt m bp = f)
    (fits : f.Fits d lba base) (low : lo ≤ base) (high : base + 512 * f.rest ≤ hi) (enough : f.rest ≤ fuel) :
    ∃ r, loadSectors bios v fuel regs (bp + 2) m = some r ∧
      Returned d own depth bp lba base f.rest regs m r := by
  have room := place.room
  have top := place.top
  have track := place.track
  have heads := place.heads
  obtain ⟨outside, pops, saved, local₀⟩ := pushed (m := m) bp (by omega) (by omega) words
  rw [loadSectors, Nat.add_sub_cancel]
  dsimp only
  generalize putWord (pushAll { regs with bp := bp } (bp - 2) (putWord m bp regs.bp)) (bp - 2) 0 = m₁
    at outside pops saved local₀ ⊢
  have frame₁ : frameAt m₁ bp = f :=
    (frameAt_congr fun a inside => outside a (by unfold Argument at inside; omega)).trans frame
  have stored₁ : Stored d v m₁ := by
    constructor
    · rw [← stored.track]
      exact wordAt_congr (outside _ (by omega)) (outside _ (by omega))
    · rw [← stored.heads]
      exact wordAt_congr (outside _ (by omega)) (outside _ (by omega))
  obtain ⟨r, loop, loaded⟩ := place.loads documented ok stored₁ frame₁ fits low high enough
  -- the saved words lie above the stack pointer and below the arguments
  have stack : ∀ a, 0x90000 + (bp - 20) ≤ a → a < 0x90000 + bp + 2 → r.2 a = m₁ a := fun a above below =>
    place.live_kept low high loaded (.inl (by omega)) (by unfold Argument; omega)
  have saved' : wordAt r.2 bp = regs.bp := by
    rw [← saved]
    exact wordAt_congr (stack _ (by omega) (by omega)) (stack _ (by omega) (by omega))
  have kept : ∀ a, ¬ (base ≤ a ∧ a < base + 512 * f.rest) → ¬ own a →
      ¬ (0x90000 + (bp - 20 - depth) ≤ a ∧ a < 0x90000 + bp + 18) → r.2 a = m a := by
    intro a out notOwn notStack
    rw [loaded.kept a out notOwn (by unfold Scratch; omega) (by unfold Argument; omega)]
    exact outside a (by omega)
  rw [loop, Option.map_some]
  refine ⟨_, rfl, ?_⟩
  by_cases yes : r.1 = true
  · have zero : wordAt r.2 (bp - 2) = 0 := by
      rw [← local₀]
      exact wordAt_congr (stack _ (by omega) (by omega)) (stack _ (by omega) (by omega))
    have pops' : popAll (bp - 2) r.2 = { regs with bp := bp } := by
      rw [← pops]
      exact popAll_congr (by omega) fun a above below => stack a (by omega) (by omega)
    simp only [if_pos yes, zero, pops', saved']
    exact ⟨iff_of_true rfl (loaded.success.mp yes), fun bad => absurd rfl bad, fun _ => loaded.data yes,
      rfl, kept⟩
  · have code : wordAt (putWord r.2 (bp - 2) 0xffff) (bp - 2) = 0xffff := wordAt_putWord (by decide)
    have pops' : popAll (bp - 2) (putWord r.2 (bp - 2) 0xffff) = { regs with bp := bp } := by
      rw [← pops]
      refine popAll_congr (by omega) fun a above below => ?_
      rw [putWord_of_not (by omega)]
      exact stack a (by omega) (by omega)
    have saved'' : wordAt (putWord r.2 (bp - 2) 0xffff) bp = regs.bp := by
      rw [wordAt_putWord_of_not (by omega), saved']
    simp only [if_neg yes, code, pops', saved'']
    have bad : ¬ 0xffff = 0 := by decide
    refine ⟨iff_of_false bad fun all => yes (loaded.success.mpr all), fun _ => rfl,
      fun zero => absurd zero bad, rfl, fun a out notOwn notStack => ?_⟩
    dsimp only
    rw [putWord_of_not (by omega)]
    exact kept a out notOwn notStack

/-- `load_sectors` returns 0 if all sectors can be read, and has then put them into
memory as they follow on the drive, across tracks, heads and segments.  If not, it
returns -1.  It brings back the other registers, and writes nowhere else but on the stack. -/
theorem load_sectors_loads (documented : bios.Documented d own depth) (ok : d.Ok)
    (fits : (frameAt m bp).Fits d lba base)
    (place : Place own depth v bp base (base + 512 * (frameAt m bp).rest))
    (stored : Stored d v m) (words : regs.Words) (enough : (frameAt m bp).rest ≤ fuel) :
    ∃ r, loadSectors bios v fuel regs (bp + 2) m = some r ∧
      Returned d own depth bp lba base (frameAt m bp).rest regs m r :=
  place.returns documented ok words stored rfl fits le_rfl le_rfl enough

/-- Bytes from a source over the memory. -/
def copyIn (mem : Bytes) (base size : Nat) (source : Nat → BitVec 8) : Bytes := fun a =>
  if base ≤ a ∧ a < base + size then source (a - base) else mem a

/-- A BIOS that does what is documented.  An interrupt pushes the flags and the return address. -/
def plainBios (d : Drive) : Bios where
  read q m :=
    let m := m.fill (0x90000 + q.sp - 6) 0 6
    if d.Serves q then
      ⟨false, q.al, copyIn m q.base (512 * q.al) fun i => d.data (512 * d.lba q.ch q.dh q.cl + i)⟩
    else ⟨true, 0, m⟩
  video sp m := m.fill (0x90000 + sp - 6) 0 6

theorem plainBios_documented (d : Drive) (own : Nat → Prop) : (plainBios d).Documented d own 6 := by
  have scratch : ∀ (sp a : Nat) (m : Bytes), ¬ Scratch 6 sp a → m.fill (0x90000 + sp - 6) 0 6 a = m a := by
    intro sp a m out
    rw [Bytes.fill_apply, if_neg]
    unfold Scratch at out
    omega
  refine ⟨fun q m _ => ?_, fun q m _ serves => ?_, fun q m a out _ notScratch => ?_,
    fun sp m a _ notScratch => scratch sp a m notScratch⟩
  · by_cases serves : d.Serves q <;> simp [plainBios, serves]
  · simp only [plainBios, if_pos serves, true_and]
    intro i lt
    rw [copyIn, if_pos (by omega), Nat.add_sub_cancel_left]
  · by_cases serves : d.Serves q
    · simp only [plainBios, if_pos serves]
      exact (if_neg out).trans (scratch q.sp a m notScratch)
    · simp only [plainBios, if_neg serves]
      exact scratch q.sp a m notScratch

/-- The memory below 64 KiB and above the conventional memory. -/
def BiosMemory (a : Nat) : Prop := a < 0x10000 ∨ 0xa0000 ≤ a

/-- A boot sector with its variables at the end. -/
def endLabels : Labels := ⟨0x1f0, 0x1f2, 0x1f4, 0x1c0, 0x40, 0x60, 0x80⟩

/-- A request of five sectors over the end of a track, of a cylinder and of a segment. -/
theorem load_sectors_loads_across :
    let d : Drive := ⟨4, 2, 3, fun i => BitVec.ofNat 8 (i / 512), fun _ => true⟩
    let m := putWord (putWord (putWord (putWord (putWord (putWord (putWord (putWord (fun _ => 0xff)
      0x1f0 5) 0x1f4 2) 0xfffa 0x1000) 0xfff8 0xfa00) 0xfff6 5) 0xfff4 0) 0xfff2 1) 0xfff0 3
    ∃ r, loadSectors (plainBios d) endLabels 5 ⟨1, 2, 3, 4, 5, 6, 7, 8⟩ 0xffec m = some r ∧ r.1.ax = 0 ∧
      ∀ i < 2560, r.2 (0x1fa00 + i) = d.data (512 * 6 + i) := by
  intro d m
  have frame : frameAt m 0xffea = ⟨0x1000, 0xfa00, 5, 0, 1, 3⟩ := by decide +kernel
  have fits : (frameAt m 0xffea).Fits d 6 0x1fa00 := by
    rw [frame]
    refine ⟨⟨?_, ?_, ?_, ?_, ?_, ?_, ?_⟩, ?_, ?_, ?_, ?_⟩ <;> decide
  have place : Place BiosMemory 6 endLabels 0xffea 0x1fa00 (0x1fa00 + 512 * 5) := by
    refine ⟨by decide, by decide, by decide, by decide, fun a low high => ?_, fun a live => ?_⟩
    · simp only [BiosMemory, Live, Scratch, endLabels]
      omega
    · simp only [BiosMemory, Live, endLabels] at live ⊢
      omega
  obtain ⟨r, returns, loaded⟩ := load_sectors_loads (plainBios_documented d BiosMemory)
    ⟨by decide, by decide, by decide⟩ fits (by rw [frame]; exact place) ⟨by decide +kernel, by decide +kernel⟩
    (show Regs.Words ⟨1, 2, 3, 4, 5, 6, 7, 8⟩ by unfold Regs.Words; decide)
    (show (frameAt m 0xffea).rest ≤ 5 by rw [frame])
  have zero := loaded.zero.mpr fun _ _ => rfl
  have bytes := loaded.data zero
  rw [frame] at bytes
  exact ⟨r, returns, zero, bytes⟩

end XcKernel.Boot
