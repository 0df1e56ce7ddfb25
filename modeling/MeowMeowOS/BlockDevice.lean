import MeowMeowOS.AnsweringMachines
import MeowMeowOS.Fat16Disk

/-! The disk below the file system. Sectors go through the ports of the drive, one word at a
time, and the device node makes one array of bytes of them. The sector reads and writes of
the file system are those of an abstract disk. -/
namespace MeowMeowOS.BlockDevice
open AnsweringMachines ByteMemory Fat16Disk

/-! ## The drive behind the ports -/

/-- The medium, the registers, and the sector that is under way with the words of it that
have gone through the data port. `drq` is set while words are awaited, `busy` counts the reads
of the status that still show the drive busy, and `latency` has their number for each command. -/
structure Drive where
  total : Nat
  sectors : Nat → Sector
  driveHead : UInt8
  lbaLow : UInt8
  lbaMid : UInt8
  lbaHigh : UInt8
  buffer : Sector
  words : Nat
  writing : Bool
  drq : Bool
  busy : Nat
  commands : Nat
  latency : Nat → Nat

/-- The sector that the registers name, in 28 bits. -/
def Drive.lba (d : Drive) : Nat :=
  d.lbaLow.toNat + d.lbaMid.toNat * 2 ^ 8 + d.lbaHigh.toNat * 2 ^ 16 + d.driveHead.toNat % 16 * 2 ^ 24

/-- A command keeps the drive busy, and words are awaited behind it or not. -/
def Drive.start (d : Drive) (drq : Bool) : Drive :=
  { d with words := 0, drq := drq, busy := d.latency d.commands, commands := d.commands + 1 }

/-- A sector that the medium does not have is refused. -/
def Drive.outb (d : Drive) (port : Nat) (value : UInt8) : Drive :=
  if port = 0x1F6 then { d with driveHead := value }
  else if port = 0x1F3 then { d with lbaLow := value }
  else if port = 0x1F4 then { d with lbaMid := value }
  else if port = 0x1F5 then { d with lbaHigh := value }
  else if port = 0x1F7 ∧ value = 0x20 then
    { d.start (decide (d.lba < d.total)) with buffer := d.sectors d.lba, writing := false }
  else if port = 0x1F7 ∧ value = 0x30 then { d.start (decide (d.lba < d.total)) with writing := true }
  else if port = 0x1F7 then d.start false
  else d

/-- `ATA_SR_BSY`, `ATA_SR_DRQ` or, behind a refusal, `ATA_SR_ERR`. -/
def Drive.status (d : Drive) : UInt8 := if 0 < d.busy then 0x80 else if d.drq = true then 0x08 else 0x01

/-- A read of the status. -/
def Drive.inb (d : Drive) : UInt8 × Drive := (d.status, { d with busy := d.busy - 1 })

def Drive.inw (d : Drive) : Nat × Drive := (readHalf d.buffer (2 * d.words), { d with words := d.words + 1 })

/-- The last word of a sector puts it on the medium. -/
def Drive.outw (d : Drive) (value : Nat) : Drive :=
  let d := { d with buffer := writeHalf d.buffer (2 * d.words) value, words := d.words + 1 }
  if d.words = 256 ∧ d.writing = true ∧
    d.drq = true then { d with sectors := Function.update d.sectors d.lba d.buffer }
  else d

/-! ## The driver -/

/-- `ata_wait_busy_timeout`, with so many reads of the status left. -/
def waitBusy : Nat → Drive → Bool × Drive
  | 0, d => (false, d)
  | n + 1, d => if d.inb.1 &&& 0x80 = 0 then (true, d.inb.2) else waitBusy n d.inb.2

/-- `ata_wait_drq_timeout` -/
def waitDrq : Nat → Drive → Bool × Drive
  | 0, d => (false, d)
  | n + 1, d => if d.inb.1 &&& 0x08 ≠ 0 then (true, d.inb.2) else waitDrq n d.inb.2

def ataWait : Nat := 1000000

def sendCommand (d : Drive) (lba : Nat) (command : UInt8) : Drive :=
  let d := d.outb 0x1F6 (UInt8.ofNat (0xE0 ||| lba / 2 ^ 24 % 16))
  let d := d.outb 0x1F2 1
  let d := d.outb 0x1F3 (UInt8.ofNat lba)
  let d := d.outb 0x1F4 (UInt8.ofNat (lba / 2 ^ 8))
  let d := d.outb 0x1F5 (UInt8.ofNat (lba / 2 ^ 16))
  d.outb 0x1F7 command

/-- What the reads and the writes begin with: whether the drive takes part in the transfer
before a wait times out. -/
def ataCommand (d : Drive) (lba : Nat) (command : UInt8) : Bool × Drive :=
  let (ready, d) := waitBusy ataWait d
  if ready = false then (false, d)
  else
    let (ready, d) := waitBusy ataWait (sendCommand d lba command)
    if ready = false then (false, d) else waitDrq ataWait d

/-- `for (int i = 0; i < 256; i++) ptr[i] = inw(ATA_DATA_PORT);` -/
def readWords : Nat → Nat → Drive → Sector → Drive × Sector
  | 0, _, d, buffer => (d, buffer)
  | n + 1, i, d, buffer => readWords n (i + 1) d.inw.2 (writeHalf buffer (2 * i) d.inw.1)

def writeWords : Nat → Nat → Drive → Sector → Drive
  | 0, _, d, _ => d
  | n + 1, i, d, buffer => writeWords n (i + 1) (d.outw (readHalf buffer (2 * i))) buffer

/-- Behind a wait that times out the buffer is as it was. -/
def ataReadSector (d : Drive) (lba : Nat) (buffer : Sector) : Drive × Sector :=
  let (ready, d) := ataCommand d lba 0x20
  if ready = true then readWords 256 0 d buffer else (d, buffer)

/-- The last command empties the drive's cache. -/
def ataWriteSector (d : Drive) (lba : Nat) (buffer : Sector) : Drive :=
  let (ready, d) := ataCommand d lba 0x30
  if ready = true then (waitBusy ataWait ((writeWords 256 0 d buffer).outb 0x1F7 0xE7)).2 else d

def memcpy (dest : Mem) (destAt : Nat) (src : Mem) (srcAt n : Nat) : Mem :=
  fun x => if destAt ≤ x ∧ x < destAt + n then src (srcAt + (x - destAt)) else dest x

/-- The loop of `ata_vfs_read`, with the buffer for one sector that it keeps on the stack. -/
def ataVfsRead (offset size : Nat) (d : Drive) (sectorBuffer : Sector) (bytesRead : Nat) (buffer : Mem) :
    Drive × Mem × Nat :=
  if bytesRead < size then
    let currentOffset := (offset + bytesRead) % 2 ^ 32
    let bytesToRead := min (512 - currentOffset % 512) (size - bytesRead)
    let read := ataReadSector d (currentOffset / 512) sectorBuffer
    ataVfsRead offset size read.1 read.2 (bytesRead + bytesToRead)
      (memcpy buffer bytesRead read.2 (currentOffset % 512) bytesToRead)
  else (d, buffer, bytesRead)
termination_by size - bytesRead
decreasing_by
  have inside : (offset + bytesRead) % 2 ^ 32 % 512 < 512 := Nat.mod_lt _ (Nat.succ_pos 511)
  omega

/-- The loop of `ata_vfs_write`. A sector that is only written in part is read first. -/
def ataVfsWrite (offset size : Nat) (d : Drive) (sectorBuffer : Sector) (bytesWritten : Nat) (buffer : Mem) :
    Drive × Nat :=
  if bytesWritten < size then
    let currentOffset := (offset + bytesWritten) % 2 ^ 32
    let bytesToWrite := min (512 - currentOffset % 512) (size - bytesWritten)
    let read := if bytesToWrite < 512 then ataReadSector d (currentOffset / 512) sectorBuffer else (d, sectorBuffer)
    let sectorBuffer := memcpy read.2 (currentOffset % 512) buffer bytesWritten bytesToWrite
    ataVfsWrite offset size (ataWriteSector read.1 (currentOffset / 512) sectorBuffer) sectorBuffer
      (bytesWritten + bytesToWrite) buffer
  else (d, bytesWritten)
termination_by size - bytesWritten
decreasing_by
  have inside : (offset + bytesWritten) % 2 ^ 32 % 512 < 512 := Nat.mod_lt _ (Nat.succ_pos 511)
  omega

/-! ## One sector -/

section
variable {d : Drive} {lba : Nat}

theorem head_low (n : Nat) : (UInt8.ofNat (0xE0 ||| n % 16)).toNat % 16 = n % 16 := by
  have all : ∀ k < 16, (UInt8.ofNat (0xE0 ||| k)).toNat % 16 = k := by decide
  exact all _ (Nat.mod_lt _ (Nat.succ_pos 15))

/-- Where a command leaves the registers. -/
def addressed (d : Drive) (lba : Nat) : Drive :=
  { d with
    driveHead := UInt8.ofNat (0xE0 ||| lba / 2 ^ 24 % 16)
    lbaLow := UInt8.ofNat lba
    lbaMid := UInt8.ofNat (lba / 2 ^ 8)
    lbaHigh := UInt8.ofNat (lba / 2 ^ 16) }

theorem addressed_lba (d : Drive) (lba : Nat) : (addressed d lba).lba = lba % 2 ^ 28 := by
  have head := head_low (lba / 2 ^ 24)
  simp only [addressed, Drive.lba, head]
  simp only [UInt8.toNat_ofNat']
  omega

theorem sendCommand_eq (d : Drive) (lba : Nat) (command : UInt8) :
    sendCommand d lba command = (addressed d lba).outb 0x1F7 command := rfl

theorem ataWait_pos : 0 < ataWait := by decide

/-- The drive answers before the driver stops waiting. -/
structure Prompt (d : Drive) : Prop where
  busy : d.busy < ataWait
  latency : ∀ k, d.latency k < ataWait

theorem inb_bsy (free : d.busy = 0) : d.inb.1 &&& 0x80 = 0 := by
  change d.status &&& 0x80 = 0
  rw [Drive.status, if_neg (by omega)]
  split
  all_goals decide

theorem inb_drq (free : d.busy = 0) : d.inb.1 &&& 0x08 ≠ 0 ↔ d.drq = true := by
  change d.status &&& 0x08 ≠ 0 ↔ _
  rw [Drive.status, if_neg (by omega)]
  split
  · rename_i asked
    exact iff_of_true (by decide) asked
  · rename_i refused
    exact iff_of_false (by decide) refused

theorem inb_free (free : d.busy = 0) : d.inb.2 = d := by
  obtain ⟨_⟩ := d
  cases free
  rfl

theorem waitBusy_ready (n : Nat) {d : Drive} (soon : d.busy < n) : waitBusy n d = (true, { d with busy := 0 }) := by
  induction n generalizing d with
  | zero => cases soon
  | succ n ih =>
    rw [waitBusy]
    by_cases free : d.busy = 0
    · have same : d = { d with busy := 0 } := by
        rw [← free]
      rw [if_pos (inb_bsy free), inb_free free, ← same]
    · have working : d.inb.1 = 0x80 := if_pos (Nat.pos_of_ne_zero free)
      have later : d.inb.2.busy < n := by
        change d.busy - 1 < n
        omega
      rw [working, if_neg (by decide), ih later]
      rfl

theorem waitDrq_ready (n : Nat) (free : d.busy = 0) (some : 0 < n) : waitDrq n d = (d.drq, d) := by
  induction n with
  | zero => cases some
  | succ n ih =>
    rw [waitDrq, inb_free free]
    by_cases asked : d.drq = true
    · rw [if_pos ((inb_drq free).mpr asked), asked]
    · rw [if_neg (fun set => asked ((inb_drq free).mp set))]
      cases n with
      | zero => rw [waitDrq, Bool.eq_false_iff.mpr asked]
      | succ n => exact ih (Nat.succ_pos n)

/-- The drive behind the waits of a command. -/
def issued (d : Drive) (lba : Nat) (command : UInt8) : Drive :=
  { sendCommand { d with busy := 0 } lba command with busy := 0 }

/-- A prompt drive takes part in the transfer of a sector that it has. -/
theorem ataCommand_ready (prompt : Prompt d) (lba : Nat) (command : UInt8) :
    ataCommand d lba command = ((issued d lba command).drq, issued d lba command) := by
  have soon : (sendCommand { d with busy := 0 } lba command).busy < ataWait := by
    rw [sendCommand_eq]
    unfold Drive.outb
    repeat' split
    all_goals first | exact prompt.latency _ | exact ataWait_pos
  unfold ataCommand
  rw [waitBusy_ready ataWait prompt.busy]
  dsimp only
  rw [if_neg nofun, waitBusy_ready ataWait soon]
  dsimp only
  rw [if_neg nofun]
  exact waitDrq_ready ataWait rfl ataWait_pos

/-- The drive behind a command to read. -/
def reading (d : Drive) (lba : Nat) : Drive :=
  { addressed d lba with
    buffer := d.sectors (lba % 2 ^ 28), words := 0, writing := false, drq := decide (lba % 2 ^ 28 < d.total), busy := 0,
    commands := d.commands + 1 }

/-- The drive behind a command to write. -/
def storing (d : Drive) (lba : Nat) : Drive :=
  { addressed d lba with
    words := 0, writing := true, drq := decide (lba % 2 ^ 28 < d.total), busy := 0, commands := d.commands + 1 }

theorem issued_read (d : Drive) (lba : Nat) : issued d lba 0x20 = reading d lba := by
  unfold reading
  rw [← addressed_lba d lba]
  rfl

theorem issued_write (d : Drive) (lba : Nat) : issued d lba 0x30 = storing d lba := by
  unfold storing
  rw [← addressed_lba d lba]
  rfl

/-- A word of two bytes is carried over as it is. -/
theorem writeHalf_readHalf (m source : Mem) (a b x : Nat) (inside : x < 2) :
    writeHalf m a (readHalf source b) (a + x) = source (b + x) := by
  have low := (source b).toNat_lt
  have high := (source (b + 1)).toNat_lt
  have cases' : x = 0 ∨ x = 1 := by omega
  rcases cases' with rfl | rfl
  · have same : UInt8.ofNat (readHalf source b) = source b := by
      apply UInt8.toNat_inj.mp
      rw [UInt8.toNat_ofNat', readHalf]
      omega
    simp only [writeHalf, Nat.add_zero, if_true, same]
  · have same : UInt8.ofNat (readHalf source b / 256) = source (b + 1) := by
      apply UInt8.toNat_inj.mp
      rw [UInt8.toNat_ofNat', readHalf]
      omega
    rw [writeHalf, if_neg (by omega), if_pos rfl, same]

theorem writeHalf_other (m : Mem) (a v : Nat) {x : Nat} (apart : x < a ∨ a + 2 ≤ x) : writeHalf m a v x = m x := by
  rw [writeHalf, if_neg (by omega), if_neg (by omega)]

/-- The next words of the drive's sector are in their place. -/
theorem readWords_spec (n i : Nat) (d : Drive) (buffer : Sector) (at' : d.words = i) :
    (readWords n i d buffer).1 = { d with words := i + n } ∧
      ∀ x, (readWords n i d buffer).2 x = if 2 * i ≤ x ∧ x < 2 * (i + n) then d.buffer x else buffer x := by
  induction n generalizing i d buffer with
  | zero =>
    subst at'
    refine ⟨rfl, fun x => ?_⟩
    rw [if_neg (by omega)]
    rfl
  | succ n ih =>
    obtain ⟨drive, bytes⟩ := ih (i + 1) d.inw.2 (writeHalf buffer (2 * i) d.inw.1) (congrArg (· + 1) at')
    refine ⟨drive.trans ?_, fun x => (bytes x).trans ?_⟩
    · rw [show i + 1 + n = i + (n + 1) by omega]
      rfl
    · by_cases later : 2 * (i + 1) ≤ x ∧ x < 2 * (i + 1 + n)
      · rw [if_pos later, if_pos (by omega)]
        rfl
      · rw [if_neg later]
        by_cases here : 2 * i ≤ x ∧ x < 2 * i + 2
        · rw [if_pos (by omega)]
          obtain ⟨k, rfl⟩ := Nat.exists_eq_add_of_le here.1
          have word := writeHalf_readHalf buffer d.buffer (2 * i) (2 * d.words) k (by omega)
          rw [at'] at word
          rw [← word, Drive.inw, at']
        · rw [if_neg (by omega)]
          exact writeHalf_other _ _ _ (by omega)

/-- A sector that the drive does not have leaves the buffer as it was. -/
theorem readSector_spec (prompt : Prompt d) (lba : Nat) (buffer : Sector) :
    (ataReadSector d lba buffer).1.sectors = d.sectors ∧ (ataReadSector d lba buffer).1.total = d.total ∧
      Prompt (ataReadSector d lba buffer).1 ∧ ∀ x, (ataReadSector d lba buffer).2 x =
        if x < 512 ∧ lba % 2 ^ 28 < d.total then d.sectors (lba % 2 ^ 28) x else buffer x := by
  unfold ataReadSector
  rw [ataCommand_ready prompt, issued_read]
  dsimp only
  by_cases has : lba % 2 ^ 28 < d.total
  · obtain ⟨drive, bytes⟩ := readWords_spec 256 0 (reading d lba) buffer rfl
    have asked : (reading d lba).drq = true := decide_eq_true has
    rw [if_pos asked, drive]
    refine ⟨rfl, rfl, ⟨ataWait_pos, prompt.latency⟩, fun x => (bytes x).trans ?_⟩
    by_cases inside : x < 512
    · rw [if_pos (by omega), if_pos ⟨inside, has⟩]
      rfl
    · rw [if_neg (by omega), if_neg fun both => inside both.1]
  · have refused : (reading d lba).drq = false := decide_eq_false has
    rw [if_neg (by rw [refused]; exact Bool.false_ne_true)]
    exact ⟨rfl, rfl, ⟨ataWait_pos, prompt.latency⟩, fun x => (if_neg fun both => has both.2).symm⟩

/-- The drive has taken these words and waits for the rest. -/
structure Taking (d : Drive) (lba i : Nat) (source : Sector) (e : Drive) : Prop where
  sectors : e.sectors = d.sectors
  total : e.total = d.total
  latency : e.latency = d.latency
  lba : e.lba = lba % 2 ^ 28
  words : e.words = i
  writing : e.writing = true
  drq : e.drq = true
  bytes : ∀ x < 2 * i, e.buffer x = source x

theorem outw_taking {e : Drive} {i : Nat} {source : Sector} (taking : Taking d lba i source e) (more : i + 1 < 256) :
    Taking d lba (i + 1) source (e.outw (readHalf source (2 * i))) := by
  obtain ⟨sectors, total, latency, at', words, writing, drq, bytes⟩ := taking
  subst words
  unfold Drive.outw
  dsimp only
  rw [if_neg (by omega)]
  refine ⟨sectors, total, latency, at', rfl, writing, drq, fun x below => ?_⟩
  by_cases here : x < 2 * e.words
  · exact (writeHalf_other _ _ _ (Or.inl here)).trans (bytes x here)
  · obtain ⟨k, rfl⟩ := Nat.exists_eq_add_of_le (Nat.not_lt.mp here)
    exact writeHalf_readHalf _ _ _ _ k (by omega)

theorem writeWords_taking {source : Sector} (n : Nat) {i : Nat} {e : Drive} (taking : Taking d lba i source e)
    (more : i + n < 256) : Taking d lba (i + n) source (writeWords n i e source) := by
  induction n generalizing i e with
  | zero => exact taking
  | succ n ih =>
    rw [show i + (n + 1) = i + 1 + n by omega]
    exact ih (outw_taking taking (by omega)) (by omega)

theorem writeWords_last (n i : Nat) (e : Drive) (source : Sector) :
    writeWords (n + 1) i e source = (writeWords n i e source).outw (readHalf source (2 * (i + n))) := by
  induction n generalizing i e with
  | zero => rfl
  | succ n ih =>
    rw [writeWords, ih, show i + 1 + n = i + (n + 1) by omega]
    rfl

/-- With its last word the sector is on the medium. -/
theorem outw_last {e : Drive} {source : Sector} (taking : Taking d lba 255 source e) :
    (e.outw (readHalf source (2 * 255))).total = d.total ∧
    (e.outw (readHalf source (2 * 255))).latency = d.latency ∧
      ∀ s, ∀ x < 512, (e.outw (readHalf source (2 * 255))).sectors s x =
        if s = lba % 2 ^ 28 then source x else d.sectors s x := by
  obtain ⟨sectors, total, latency, at', words, writing, drq, bytes⟩ := taking
  have whole : ∀ x < 512, writeHalf e.buffer (2 * e.words) (readHalf source (2 * 255)) x = source x := by
    intro x inside
    rw [words]
    by_cases before : x < 510
    · exact (writeHalf_other _ _ _ (by omega)).trans (bytes x (by omega))
    · obtain ⟨k, rfl⟩ : ∃ k, x = 2 * 255 + k := ⟨x - 510, by omega⟩
      exact writeHalf_readHalf _ _ _ _ k (by omega)
  have last : e.words + 1 = 256 := congrArg (· + 1) words
  unfold Drive.outw
  dsimp only
  rw [if_pos ⟨last, writing, drq⟩]
  refine ⟨total, latency, fun s x inside => ?_⟩
  change Function.update e.sectors e.lba _ s x = _
  by_cases same : s = lba % 2 ^ 28
  · rw [same, at', Function.update_self, if_pos rfl]
    exact whole x inside
  · rw [at', Function.update_of_ne same, if_neg same, sectors]

theorem writeSector_spec (prompt : Prompt d) (lba : Nat) (source : Sector) :
    (ataWriteSector d lba source).total = d.total ∧ Prompt (ataWriteSector d lba source) ∧
      ∀ s, ∀ x < 512, (ataWriteSector d lba source).sectors s x =
        if s = lba % 2 ^ 28 ∧ s < d.total then source x else d.sectors s x := by
  unfold ataWriteSector
  rw [ataCommand_ready prompt, issued_write]
  dsimp only
  by_cases has : lba % 2 ^ 28 < d.total
  · have asked : (storing d lba).drq = true := decide_eq_true has
    have start : Taking d lba 0 source (storing d lba) :=
      ⟨rfl, rfl, rfl, addressed_lba d lba, rfl, rfl, asked, fun x none => absurd none (Nat.not_lt_zero x)⟩
    have taken := writeWords_taking 255 start (by decide)
    rw [Nat.zero_add] at taken
    rw [if_pos asked, writeWords_last 255 0, Nat.zero_add]
    obtain ⟨total, latency, stored⟩ := outw_last taken
    generalize (writeWords 255 0 (storing d lba) source).outw (readHalf source (2 * 255)) =
      e at total latency stored ⊢
    have soon : (e.outb 0x1F7 0xE7).busy < ataWait := by
      change e.latency e.commands < ataWait
      rw [latency]
      exact prompt.latency _
    rw [waitBusy_ready ataWait soon]
    refine ⟨total, ⟨ataWait_pos, ?_⟩, fun s x inside => ?_⟩
    · change ∀ k, e.latency k < ataWait
      rw [latency]
      exact prompt.latency
    · change e.sectors s x = _
      rw [stored s x inside]
      by_cases same : s = lba % 2 ^ 28
      · rw [if_pos same, if_pos ⟨same, same ▸ has⟩]
      · rw [if_neg same, if_neg fun both => same both.1]
  · have refused : (storing d lba).drq = false := decide_eq_false has
    rw [if_neg (by rw [refused]; exact Bool.false_ne_true)]
    refine ⟨rfl, ⟨ataWait_pos, prompt.latency⟩, fun s x _ => ?_⟩
    rw [if_neg]
    · rfl
    · rintro ⟨rfl, onDisk⟩
      exact has onDisk

/-! ## The bytes of the device -/

/-- The medium as one array. -/
def bytes (d : Drive) (a : Nat) : UInt8 := d.sectors (a / 512) (a % 512)

/-- How far an address lies behind another, around the end of 32 bits. -/
def distance (offset a : Nat) : Nat := (a + 2 ^ 32 - offset) % 2 ^ 32

/-- The bytes of a request lie on the drive. -/
def OnDrive (total offset start size : Nat) : Prop :=
  ∀ x, start ≤ x → x < size → (offset + x) % 2 ^ 32 / 512 < total

theorem ataVfsRead_spec {offset size : Nat} (sectorBuffer : Sector) (bytesRead : Nat) (buffer : Mem)
    (within : bytesRead ≤ size)
    (d : Drive) (prompt : Prompt d) (onDrive : OnDrive d.total offset bytesRead size) :
    (ataVfsRead offset size d sectorBuffer bytesRead buffer).1.sectors = d.sectors ∧
      (ataVfsRead offset size d sectorBuffer bytesRead buffer).1.total = d.total ∧
      Prompt (ataVfsRead offset size d sectorBuffer bytesRead buffer).1 ∧
      (ataVfsRead offset size d sectorBuffer bytesRead buffer).2.2 = size ∧
      ∀ x, (ataVfsRead offset size d sectorBuffer bytesRead buffer).2.1 x =
        if bytesRead ≤ x ∧ x < size then bytes d ((offset + x) % 2 ^ 32) else buffer x := by
  generalize measured : size - bytesRead = rest
  induction rest using Nat.strong_induction_on generalizing bytesRead sectorBuffer buffer d with
  | _ rest ih =>
    rw [ataVfsRead]
    split
    · rename_i more
      have small : (offset + bytesRead) % 2 ^ 32 % 512 < 512 := Nat.mod_lt _ (Nat.succ_pos 511)
      obtain ⟨sectors, total, prompt', sector⟩ :=
        readSector_spec prompt ((offset + bytesRead) % 2 ^ 32 / 512) sectorBuffer
      dsimp only
      generalize piece : min (512 - (offset + bytesRead) % 2 ^ 32 % 512) (size - bytesRead) = n
      have rest : OnDrive (ataReadSector d ((offset + bytesRead) % 2 ^ 32 / 512) sectorBuffer).1.total offset
          (bytesRead + n) size := by
        rw [total]
        exact fun x behind inside => onDrive x (by omega) inside
      obtain ⟨sectors', total', prompt'', count, copied⟩ := ih (size - (bytesRead + n)) (by omega)
        (ataReadSector d ((offset + bytesRead) % 2 ^ 32 / 512) sectorBuffer).2 (bytesRead + n)
        (memcpy buffer bytesRead (ataReadSector d ((offset + bytesRead) % 2 ^ 32 / 512) sectorBuffer).2
          ((offset + bytesRead) % 2 ^ 32 % 512) n) (by omega)
        (ataReadSector d ((offset + bytesRead) % 2 ^ 32 / 512) sectorBuffer).1 prompt' rest rfl
      refine ⟨sectors'.trans sectors, total'.trans total, prompt'', count, fun x => (copied x).trans ?_⟩
      unfold bytes
      rw [sectors]
      by_cases later : bytesRead + n ≤ x ∧ x < size
      · rw [if_pos later, if_pos (by omega)]
      · rw [if_neg later, memcpy]
        by_cases here : bytesRead ≤ x ∧ x < bytesRead + n
        · have has := onDrive x here.1 (by omega)
          rw [if_pos here, if_pos (by omega), sector, if_pos (by omega)]
          -- the piece lies in one sector
          rw [show (offset + x) % 2 ^ 32 / 512 = (offset + bytesRead) % 2 ^ 32 / 512 % 2 ^ 28 by omega,
            show (offset + x) % 2 ^ 32 % 512 = (offset + bytesRead) % 2 ^ 32 % 512 + (x - bytesRead) by omega]
        · rw [if_neg here, if_neg (by omega)]
    · refine ⟨rfl, rfl, prompt, by dsimp only; omega, fun x => ?_⟩
      rw [if_neg (by omega)]

/-- What one piece of a write does to the array. -/
theorem piece_written {e : Drive} {offset size bytesWritten n : Nat} {sectorBuffer : Sector} (buffer : Mem)
    (written : ∀ s, ∀ x < 512, e.sectors s x = if s = (offset + bytesWritten) % 2 ^ 32 / 512 % 2 ^ 28 ∧
    s < d.total then
      memcpy sectorBuffer ((offset + bytesWritten) % 2 ^ 32 % 512) buffer bytesWritten n x else d.sectors s x)
    (word : offset < 2 ^ 32) (words : size ≤ 2 ^ 32) (more : bytesWritten < size)
    (piece : min (512 - (offset + bytesWritten) % 2 ^ 32 % 512) (size - bytesWritten) = n)
    (loaded : n < 512 → (offset + bytesWritten) % 2 ^ 32 / 512 < d.total →
      ∀ x < 512, sectorBuffer x = d.sectors ((offset + bytesWritten) % 2 ^ 32 / 512) x) :
    ∀ a < 2 ^ 32, bytes e a =
      if bytesWritten ≤ distance offset a ∧ distance offset a < bytesWritten + n ∧ a / 512 < d.total then
        buffer (distance offset a)
      else bytes d a := by
  intro a small
  have inside : a % 512 < 512 := Nat.mod_lt _ (Nat.succ_pos 511)
  have below : (offset + bytesWritten) % 2 ^ 32 % 512 < 512 := Nat.mod_lt _ (Nat.succ_pos 511)
  unfold bytes
  rw [written _ _ inside]
  have named : (offset + bytesWritten) % 2 ^ 32 / 512 % 2 ^ 28 = (offset + bytesWritten) % 2 ^ 32 / 512 := by omega
  rw [named]
  unfold distance
  by_cases onDisk : a / 512 < d.total
  · by_cases same : a / 512 = (offset + bytesWritten) % 2 ^ 32 / 512
    · rw [if_pos ⟨same, onDisk⟩, memcpy]
      by_cases covered : (offset + bytesWritten) % 2 ^ 32 % 512 ≤ a % 512 ∧
        a % 512 < (offset + bytesWritten) % 2 ^ 32 % 512 + n
      · have place : (a + 2 ^ 32 - offset) % 2 ^ 32 =
          bytesWritten + (a % 512 - (offset + bytesWritten) % 2 ^ 32 % 512) := by
          omega
        rw [if_pos covered, place, if_pos ⟨by omega, by omega, onDisk⟩]
      · rw [if_neg covered, if_neg (by omega), loaded (by omega) (same ▸ onDisk) _ inside, same]
    · rw [if_neg fun both => same both.1, if_neg (by omega)]
  · rw [if_neg fun both => onDisk both.2, if_neg fun all => onDisk all.2.2]

theorem ataVfsWrite_spec {offset size : Nat} (word : offset < 2 ^ 32) (words : size ≤ 2 ^ 32) (sectorBuffer : Sector)
    (bytesWritten : Nat) (buffer : Mem) (within : bytesWritten ≤ size) (d : Drive) (prompt : Prompt d) :
    (ataVfsWrite offset size d sectorBuffer bytesWritten buffer).1.total = d.total ∧
      Prompt (ataVfsWrite offset size d sectorBuffer bytesWritten buffer).1 ∧
      (ataVfsWrite offset size d sectorBuffer bytesWritten buffer).2 = size ∧
      ∀ a < 2 ^ 32, bytes (ataVfsWrite offset size d sectorBuffer bytesWritten buffer).1 a =
        if bytesWritten ≤ distance offset a ∧ distance offset a < size ∧
          a / 512 < d.total then buffer (distance offset a)
        else bytes d a := by
  generalize measured : size - bytesWritten = rest
  induction rest using Nat.strong_induction_on generalizing bytesWritten sectorBuffer d with
  | _ rest ih =>
    rw [ataVfsWrite]
    split
    · rename_i more
      have small : (offset + bytesWritten) % 2 ^ 32 % 512 < 512 := Nat.mod_lt _ (Nat.succ_pos 511)
      obtain ⟨sectors, total, prompt', sector⟩ :=
        readSector_spec prompt ((offset + bytesWritten) % 2 ^ 32 / 512) sectorBuffer
      dsimp only
      generalize piece : min (512 - (offset + bytesWritten) % 2 ^ 32 % 512) (size - bytesWritten) = n
      -- the buffer holds what stays of a sector that the drive has
      obtain ⟨u, taken, uSectors, uTotal, uPrompt, loaded⟩ : ∃ u, (if n < 512 then
          ataReadSector d ((offset + bytesWritten) % 2 ^ 32 / 512) sectorBuffer else (d, sectorBuffer)) = u ∧
            u.1.sectors = d.sectors ∧ u.1.total = d.total ∧ Prompt u.1 ∧
            (n < 512 → (offset + bytesWritten) % 2 ^ 32 / 512 < u.1.total →
              ∀ x < 512, u.2 x = u.1.sectors ((offset + bytesWritten) % 2 ^ 32 / 512) x) := by
        refine ⟨_, rfl, ?_⟩
        split
        · refine ⟨sectors, total, prompt', fun _ has x inside => ?_⟩
          rw [total] at has
          rw [sectors, sector, if_pos (by omega), show (offset + bytesWritten) % 2 ^ 32 / 512 % 2 ^ 28 =
            (offset + bytesWritten) % 2 ^ 32 / 512 by omega]
        · rename_i whole
          exact ⟨rfl, rfl, prompt, fun partial' => absurd partial' whole⟩
      rw [taken]
      obtain ⟨kept, promptW, stored⟩ := writeSector_spec uPrompt ((offset + bytesWritten) % 2 ^ 32 / 512)
        (memcpy u.2 ((offset + bytesWritten) % 2 ^ 32 % 512) buffer bytesWritten n)
      have written := piece_written buffer stored word words more piece loaded
      obtain ⟨total', prompt'', count, rest'⟩ := ih (size - (bytesWritten + n)) (by omega)
        (memcpy u.2 ((offset + bytesWritten) % 2 ^ 32 % 512) buffer bytesWritten n) (bytesWritten + n) (by omega)
        (ataWriteSector u.1 ((offset + bytesWritten) % 2 ^ 32 / 512)
          (memcpy u.2 ((offset + bytesWritten) % 2 ^ 32 % 512) buffer bytesWritten n)) promptW rfl
      refine ⟨total'.trans (kept.trans uTotal), prompt'', count, fun a small => (rest' a small).trans ?_⟩
      have same : bytes u.1 a = bytes d a := by
        unfold bytes
        rw [uSectors]
      rw [written a small, kept, uTotal, same]
      by_cases later : bytesWritten + n ≤ distance offset a ∧ distance offset a < size ∧ a / 512 < d.total
      · rw [if_pos later, if_pos (by omega)]
      · rw [if_neg later]
        by_cases here : bytesWritten ≤ distance offset a ∧ distance offset a < bytesWritten + n ∧
          a / 512 < d.total
        · rw [if_pos here, if_pos (by omega)]
        · rw [if_neg here, if_neg (by omega)]
    · refine ⟨rfl, prompt, by dsimp only; omega, fun a _ => ?_⟩
      rw [if_neg (by omega)]

end

/-! ## Every run of requests -/

/-- What is asked of the device node. -/
inductive Request
  | read (offset size : UInt32)
  | write (offset size : UInt32) (buffer : Mem)

/-- The bytes that a read delivers, and what a call returns. -/
abbrev Answer := List UInt8 × Nat

/-- The first bytes of a buffer. -/
def front (n : Nat) (buffer : Mem) : List UInt8 := (List.range n).map buffer

/-- A call of the driver, with what happens to lie on the stack. -/
def Request.run (stack : Mem) (d : Drive) : Request → Drive × Answer
  | .read offset size =>
    let done := ataVfsRead offset.toNat size.toNat d stack 0 stack
    (done.1, front done.2.2 done.2.1, done.2.2)
  | .write offset size buffer =>
    let done := ataVfsWrite offset.toNat size.toNat d stack 0 buffer
    (done.1, [], done.2)

/-- The same of an array of 2^32 bytes of which the first `total` sectors exist. -/
def Request.array (total : Nat) (b : Nat → UInt8) : Request → (Nat → UInt8) × Answer
  | .read offset size => (b, front size.toNat fun x => b ((offset.toNat + x) % 2 ^ 32), size.toNat)
  | .write offset size buffer =>
    (fun a => if distance offset.toNat a < size.toNat ∧
      a / 512 < total then buffer (distance offset.toNat a) else b a,
      [], size.toNat)

/-- The bytes that are read are the drive's. Those that are written may lie behind them. -/
def Request.Given (total : Nat) : Request → Prop
  | .read offset size => OnDrive total offset.toNat 0 size.toNat
  | .write _ _ _ => True

section
variable {d : Drive} {b : Nat → UInt8} {D : Disk}

theorem front_congr {n : Nat} {f g : Mem} (same : ∀ x < n, f x = g x) : front n f = front n g :=
  List.map_congr_left fun x inside => same x (List.mem_range.mp inside)

/-- The drive has this many sectors and answers in time, and the array holds the same bytes. -/
def SameBytes (total : Nat) (d : Drive) (b : Nat → UInt8) : Prop :=
  d.total = total ∧ Prompt d ∧ ∀ a < 2 ^ 32, bytes d a = b a

theorem request_array (stack : Mem) (total : Nat) :
    Simulates (Request.Given total) (SameBytes total) (Request.run stack) (Request.array total) := by
  rintro d b request given ⟨rfl, prompt, same⟩
  cases request with
  | read offset size =>
    obtain ⟨sectors, total, prompt', count, read⟩ := ataVfsRead_spec stack 0 stack (Nat.zero_le _) d prompt given
    refine ⟨⟨total, prompt', fun a small => ?_⟩, ?_⟩
    · simp only [Request.run, Request.array, bytes, sectors]
      exact same a small
    · simp only [Request.run, Request.array, count]
      rw [front_congr fun x inside => ?_]
      rw [read, if_pos ⟨Nat.zero_le x, inside⟩, same _ (Nat.mod_lt _ (Nat.two_pow_pos 32))]
  | write offset size buffer =>
    obtain ⟨total, prompt', count, written⟩ :=
      ataVfsWrite_spec offset.toNat_lt (Nat.le_of_lt size.toNat_lt) stack 0 buffer (Nat.zero_le _) d prompt
    refine ⟨⟨total, prompt', fun a small => ?_⟩, ?_⟩
    · simp only [Request.run, Request.array]
      rw [written a small, same a small]
      simp only [Nat.zero_le, true_and]
    · simp only [Request.run, Request.array, count]

/-- Any requests get from a drive that answers in time what an array of bytes would give them,
whatever lies on the stack, and leave the array on the medium. -/
theorem requests_array (stack : Mem) (requests : List Request) (d : Drive) (prompt : Prompt d)
    (given : ∀ request ∈ requests, request.Given d.total) :
    (answerAll (Request.run stack) d requests).2 = (answerAll (Request.array d.total) (bytes d) requests).2 ∧
      ∀ a < 2 ^ 32, bytes (answerAll (Request.run stack) d requests).1 a =
        (answerAll (Request.array d.total) (bytes d) requests).1 a := by
  obtain ⟨same, answers⟩ := answerAll_simulates (request_array stack d.total) requests given (s := d) (t := bytes d)
    ⟨rfl, prompt, fun _ _ => rfl⟩
  exact ⟨answers, same.2.2⟩

/-- Four sectors, and three reads of the status for each command. -/
def fourSectors : Drive where
  total := 4
  sectors := fun _ x => UInt8.ofNat x
  driveHead := 0
  lbaLow := 0
  lbaMid := 0
  lbaHigh := 0
  buffer := fun _ => 0
  words := 0
  writing := false
  drq := false
  busy := 0
  commands := 0
  latency := fun _ => 3

theorem fourSectors_prompt : Prompt fourSectors := ⟨ataWait_pos, fun _ => (by decide : 3 < ataWait)⟩

/-- A write across the border of two sectors, one behind the last sector, and a read. -/
theorem requests_array_four :
    (answerAll (Request.run fun _ => 0xEE) fourSectors
    [.write 500 20 fun _ => 7, .write 2040 20 fun _ => 9, .read 2039 9]).2 =
      [([], 20), ([], 20), ([0xF7, 9, 9, 9, 9, 9, 9, 9, 9], 9)] := by
  have given : ∀ request ∈ [Request.write 500 20 fun _ => 7, .write 2040 20 fun _ => 9, .read 2039 9],
      request.Given fourSectors.total := by
    simp only [List.forall_mem_cons, List.not_mem_nil, IsEmpty.forall_iff, implies_true, and_true, Request.Given,
      true_and]
    intro x _ inside
    change x < 9 at inside
    change (2039 + x) % 2 ^ 32 / 512 < 4
    omega
  rw [(requests_array (fun _ => 0xEE) _ fourSectors fourSectors_prompt given).1]
  decide

/-! ## The sectors of the file system -/

def kdiskReadSector (stack : Mem) (d : Drive) (lba : UInt32) (buffer : Mem) : Drive × Mem :=
  let done := ataVfsRead (lba.toNat * 512 % 2 ^ 32) 512 d stack 0 buffer
  (done.1, done.2.1)

def kdiskWriteSector (stack : Mem) (d : Drive) (lba : UInt32) (buffer : Mem) : Drive :=
  (ataVfsWrite (lba.toNat * 512 % 2 ^ 32) 512 d stack 0 buffer).1

/-- The drive answers in time and holds the sectors of the abstract disk, as far as byte
offsets reach. -/
def Holds (d : Drive) (D : Disk) : Prop :=
  d.total = D.total ∧ Prompt d ∧ ∀ s < 2 ^ 23, ∀ x < 512, d.sectors s x = D.sectors s x

inductive SectorRequest
  | read (lba : UInt32)
  | write (lba : UInt32) (buffer : Mem)

def SectorRequest.run (stack : Mem) (d : Drive) : SectorRequest → Drive × List UInt8
  | .read lba => ((kdiskReadSector stack d lba stack).1, front 512 (kdiskReadSector stack d lba stack).2)
  | .write lba buffer => (kdiskWriteSector stack d lba buffer, [])

def SectorRequest.abstract (D : Disk) : SectorRequest → Disk × List UInt8
  | .read lba => (D, front 512 (Fat16Disk.kdiskReadSector D lba.toNat))
  | .write lba buffer => (Fat16Disk.kdiskWriteSector D lba.toNat buffer, [])

/-- The sectors that are read are the disk's. -/
def SectorRequest.Given (total : Nat) : SectorRequest → Prop
  | .read lba => lba.toNat % 2 ^ 23 < total
  | .write _ _ => True

theorem holds_bytes (holds : Holds d D) {a : Nat} (small : a < 2 ^ 32) : bytes d a = D.sectors (a / 512) (a % 512) :=
  holds.2.2 (a / 512) (by omega) (a % 512) (Nat.mod_lt _ (Nat.succ_pos 511))

/-- The abstract disk, which never changes its size. -/
def HoldsOf (total : Nat) (d : Drive) (D : Disk) : Prop := D.total = total ∧ Holds d D

theorem sector_refines (stack : Mem) (total : Nat) :
    Simulates (SectorRequest.Given total) (HoldsOf total) (SectorRequest.run stack) SectorRequest.abstract := by
  rintro d D request given ⟨rfl, holds⟩
  cases request with
  | read lba =>
    have onDrive : OnDrive d.total (lba.toNat * 512 % 2 ^ 32) 0 512 := by
      intro x _ inside
      rw [holds.1, show (lba.toNat * 512 % 2 ^ 32 + x) % 2 ^ 32 / 512 = lba.toNat % 2 ^ 23 by omega]
      exact given
    obtain ⟨sectors, total, prompt, -, read⟩ := ataVfsRead_spec stack 0 stack (Nat.zero_le _) d holds.2.1 onDrive
    have same : ∀ x < 512, (kdiskReadSector stack d lba stack).2 x = Fat16Disk.kdiskReadSector D lba.toNat x := by
      intro x inside
      simp only [kdiskReadSector]
      rw [read, if_pos ⟨Nat.zero_le x, inside⟩, holds_bytes holds (Nat.mod_lt _ (Nat.two_pow_pos 32)),
        Fat16Disk.kdiskReadSector,
        show (lba.toNat * 512 % 2 ^ 32 + x) % 2 ^ 32 / 512 = lba.toNat % 2 ^ 23 by omega,
        show (lba.toNat * 512 % 2 ^ 32 + x) % 2 ^ 32 % 512 = x by omega]
    refine ⟨⟨rfl, total.trans holds.1, prompt, fun s small x inside => ?_⟩, ?_⟩
    · simp only [SectorRequest.run, SectorRequest.abstract, kdiskReadSector, sectors]
      exact holds.2.2 s small x inside
    · simp only [SectorRequest.run, SectorRequest.abstract, front_congr same]
  | write lba buffer =>
    have word : lba.toNat * 512 % 2 ^ 32 < 2 ^ 32 := by omega
    obtain ⟨total, prompt, -, written⟩ :=
      ataVfsWrite_spec word (by omega : 512 ≤ 2 ^ 32) stack 0 buffer (Nat.zero_le _) d holds.2.1
    refine ⟨⟨kdiskWrite_total D lba.toNat buffer, ?_, prompt, fun s small x inside => ?_⟩, rfl⟩
    · exact total.trans (holds.1.trans (kdiskWrite_total D lba.toNat buffer).symm)
    · have byte := written (s * 512 + x) (by omega)
      rw [bytes, show (s * 512 + x) / 512 = s by omega, show (s * 512 + x) % 512 = x by omega] at byte
      simp only [SectorRequest.run, SectorRequest.abstract, kdiskWriteSector]
      rw [byte, holds_bytes holds (by omega), show (s * 512 + x) / 512 = s by omega,
        show (s * 512 + x) % 512 = x by omega]
      have after := congrFun (kdiskRead_write D lba.toNat s buffer) x
      rw [Fat16Disk.kdiskReadSector, Nat.mod_eq_of_lt small] at after
      rw [after]
      unfold distance
      by_cases here : s = lba.toNat % 2 ^ 23 ∧ lba.toNat % 2 ^ 23 < D.total
      · have place : (s * 512 + x + 2 ^ 32 - lba.toNat * 512 % 2 ^ 32) % 2 ^ 32 = x := by omega
        rw [place, if_pos ⟨Nat.zero_le x, inside, by rw [holds.1, here.1]; exact here.2⟩, if_pos here]
      · rw [if_neg here, if_neg, Fat16Disk.kdiskReadSector, Nat.mod_eq_of_lt small]
        rintro ⟨-, near, onDisk⟩
        rw [holds.1] at onDisk
        exact here (by omega)

/-- The file system's writes, and its reads of sectors of the disk, in any order, are answered
by the device as by the abstract disk that it holds, and it holds the same disk afterwards. -/
theorem sectors_refine (stack : Mem) (requests : List SectorRequest) (holds : Holds d D)
    (given : ∀ request ∈ requests, request.Given D.total) :
    Holds (answerAll (SectorRequest.run stack) d requests).1 (answerAll SectorRequest.abstract D requests).1 ∧
      (answerAll (SectorRequest.run stack) d requests).2 = (answerAll SectorRequest.abstract D requests).2 := by
  obtain ⟨⟨-, after⟩, answers⟩ :=
    answerAll_simulates (sector_refines stack D.total) requests given ⟨rfl, holds⟩
  exact ⟨after, answers⟩

end

/-- A write of a sector, and a read of the one behind it. -/
theorem sectors_refine_four :
    (answerAll (SectorRequest.run fun _ => 0) fourSectors [.write 1 fun _ => 7, .read 2]).2 =
      (answerAll SectorRequest.abstract ⟨4, fun _ x => UInt8.ofNat x⟩ [.write 1 fun _ => 7, .read 2]).2 := by
  have given : ∀ request ∈ [SectorRequest.write 1 fun _ => 7, .read 2], request.Given 4 := by
    simp only [List.forall_mem_cons, List.not_mem_nil, IsEmpty.forall_iff, implies_true, and_true, SectorRequest.Given,
      true_and]
    decide
  exact (sectors_refine (fun _ => 0) _ ⟨rfl, fourSectors_prompt, fun _ _ _ _ => rfl⟩ given).2

end MeowMeowOS.BlockDevice
