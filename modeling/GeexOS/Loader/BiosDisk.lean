import GeexOS.Library.Halting
import GeexOS.Library.Words

/-!
# Disks behind the BIOS

The loader reads a disk through the interrupt `0x13`.  The firmware is a
function on its registers and on the state of the machine; every call is kept in
a history, so that what the registers of the successful reads denote can be
compared with what was asked for.
-/

namespace GeexOS.BiosDisk

open GeexOS.Words
open GeexOS.Halting

/-- Reduction of a result to an 8-bit unsigned object. -/
def u8 (value : ℕ) : ℕ := value % 2 ^ 8

/-- Reduction of a result to a 16-bit unsigned object. -/
def u16 (value : ℕ) : ℕ := value % 2 ^ 16

/-- The members of `bios_int_registers` that the calls below use. -/
structure BiosIntRegisters where
  eax : ℕ
  es : ℕ
  ds : ℕ
  flags : ℕ
  ebx : ℕ
  ecx : ℕ
  esi : ℕ
  edx : ℕ
  deriving DecidableEq, Repr

/-- The registers after `memset`. -/
def clearedRegisters : BiosIntRegisters := ⟨0, 0, 0, 0, 0, 0, 0, 0⟩

/-- `EFLAGS_IS_SET(regs.flags, EFLAGS_CARRY)`. -/
def BiosIntRegisters.carry (regs : BiosIntRegisters) : Bool :=
  decide (regs.flags % 2 = 1)

structure ExtendedDiskParameters where
  size : ℕ
  flags : ℕ
  cylinders : ℕ
  heads : ℕ
  sectors : ℕ
  totalLBASectors : ℕ
  bytesPerSector : ℕ
  eddPtr : ℕ
  deriving DecidableEq, Repr

structure DiskGeometry where
  heads : ℕ
  cylinders : ℕ
  sectorsPerTrack : ℕ
  totalLBASectors : ℕ
  bytesPerSector : ℕ
  deriving DecidableEq, Repr

/-- The firmware, and the structure at the start of the buffer for its calls. -/
structure Bios (σ : Type) where
  interrupt : ℕ → BiosIntRegisters → σ → BiosIntRegisters × σ
  loadParameters : σ → ExtendedDiskParameters
  storeParameters : ExtendedDiskParameters → σ → σ

/-- One call: the registers it was made with and those it came back with. -/
structure BiosCall where
  intNum : ℕ
  before : BiosIntRegisters
  after : BiosIntRegisters
  deriving DecidableEq, Repr

/-- The machine with the calls made so far. -/
structure Machine (σ : Type) where
  state : σ
  calls : List BiosCall

def biosCallBufferSegment : ℕ := 0x100

def biosCallBufferOffset : ℕ := 0

variable {σ : Type} (bios : Bios σ)

def callInt (intNum : ℕ) (regs : BiosIntRegisters) (machine : Machine σ) :
    BiosIntRegisters × Machine σ :=
  let answer := bios.interrupt intNum regs machine.state
  (answer.1, ⟨answer.2, machine.calls ++ [⟨intNum, regs, answer.1⟩]⟩)

def biosdiskI386ResetController (driveNumber : ℕ) (machine : Machine σ) : Bool × Machine σ :=
  let answer :=
    callInt bios 0x13 { clearedRegisters with eax := 0x0000, edx := driveNumber } machine
  (!answer.1.carry, answer.2)

def biosdiskI386ExtendedmodeSupported (driveNumber : ℕ) (machine : Machine σ) :
    Bool × Machine σ :=
  let answer := callInt bios 0x13
    { clearedRegisters with eax := 0x4100, ebx := 0x55AA, edx := driveNumber } machine
  (!answer.1.carry, answer.2)

def biosdiskI386GetExtendedDriveParameters (driveNumber : ℕ) (machine : Machine σ) :
    Option ExtendedDiskParameters × Machine σ :=
  match biosdiskI386ExtendedmodeSupported bios driveNumber machine with
  | (false, machine) => (none, machine)
  | (true, machine) =>
      let cleared : ExtendedDiskParameters := ⟨30, 0, 0, 0, 0, 0, 0, 0⟩
      let machine := { machine with state := bios.storeParameters cleared machine.state }
      let answer := callInt bios 0x13
        { clearedRegisters with
          eax := 0x4800, edx := driveNumber, ds := biosCallBufferSegment,
          esi := biosCallBufferOffset } machine
      if answer.1.carry then (none, answer.2)
      else (some (bios.loadParameters answer.2.state), answer.2)

/-- What the older call reports: the high bits of the cylinder are shifted out
of the 8-bit object they are put into. -/
def geometryOfRegisters (regs : BiosIntRegisters) : DiskGeometry :=
  let c := u8 ((regs.ecx &&& 0xFF &&& 0xC0) <<< 2)
  let c := u8 (c + (regs.ecx &&& 0xFF00) >>> 8)
  let cylinders := u8 (c + 1)
  let heads := (regs.ebx &&& 0xFF00) >>> 8 + 1
  let sectorsPerTrack := regs.ecx &&& 0xFF &&& 0x3F
  ⟨heads, cylinders, sectorsPerTrack, u32 (cylinders * heads * sectorsPerTrack), 512⟩

def biosdiskI386GetDiskGeometry (driveNumber : ℕ) (machine : Machine σ) :
    Option DiskGeometry × Machine σ :=
  match biosdiskI386GetExtendedDriveParameters bios driveNumber machine with
  | (some extParams, machine) =>
      (some ⟨extParams.heads, extParams.cylinders, extParams.sectors,
        extParams.totalLBASectors, extParams.bytesPerSector⟩, machine)
  | (none, machine) =>
      let answer := callInt bios 0x13
        { clearedRegisters with eax := 0x0800, edx := driveNumber } machine
      if answer.1.carry then (none, answer.2)
      else (some (geometryOfRegisters answer.1), answer.2)

/-! ## Reads by cylinder, head and sector -/

def physicalSector (g : DiskGeometry) (startSector32 : ℕ) : ℕ :=
  u8 (1 + u8 (startSector32 % g.sectorsPerTrack))

def physicalHead (g : DiskGeometry) (startSector32 : ℕ) : ℕ :=
  u8 (startSector32 / g.sectorsPerTrack % g.heads)

def physicalTrack (g : DiskGeometry) (startSector32 : ℕ) : ℕ :=
  startSector32 / g.sectorsPerTrack / g.heads

/-- The sectors of one call: to the end of the track at most. -/
def numberOfSectorsToRead (g : DiskGeometry) (sectorCount physicalSector : ℕ) : ℕ :=
  if 1 < physicalSector then
    if sub32 g.sectorsPerTrack (physicalSector - 1) ≤ sectorCount then
      u8 (sub32 g.sectorsPerTrack (physicalSector - 1))
    else u8 sectorCount
  else if g.sectorsPerTrack ≤ sectorCount then u8 g.sectorsPerTrack
  else u8 sectorCount

/-- The registers of the call `0x02`; the upper bits of the track share a
register with the sector. -/
def chsRegisters (driveNumber track head sector count buffer : ℕ) : BiosIntRegisters :=
  { clearedRegisters with
    eax := 0x02 <<< 8 ||| count
    ecx := (track &&& 0xFF) <<< 8 ||| u8 (sector + (track &&& 0x300) >>> 2)
    edx := head <<< 8 ||| driveNumber
    es := u16 (buffer >>> 4)
    ebx := u16 (buffer &&& 0x0F) }

/-- The loop over the tries; the controller is reset after each that fails. -/
def readTries (driveNumber : ℕ) (regs : BiosIntRegisters) :
    (tries : ℕ) → Machine σ → Bool × Machine σ
  | 0, machine => (false, machine)
  | tries + 1, machine =>
      let answer := callInt bios 0x13 regs machine
      if answer.1.carry then
        readTries driveNumber regs tries
          (biosdiskI386ResetController bios driveNumber answer.2).2
      else (true, answer.2)

/-- The loop over the tracks.  A geometry without sectors or heads divides by
zero; the fuel bounds the number of rounds. -/
def chsLoop (driveNumber : ℕ) (g : DiskGeometry) :
    (fuel startSector32 sectorCount buffer : ℕ) → Machine σ → Outcome (Bool × Machine σ)
  | 0, _, _, _, _ => .error .diverges
  | fuel + 1, startSector32, sectorCount, buffer, machine =>
      if sectorCount = 0 then .ok (true, machine)
      else if g.sectorsPerTrack = 0 ∨ g.heads = 0 then .error .fault
      else
        let sector := physicalSector g startSector32
        let head := physicalHead g startSector32
        let track := physicalTrack g startSector32
        let count := numberOfSectorsToRead g sectorCount sector
        if g.heads ≤ head ∨ g.cylinders ≤ track ∨ u32 (g.sectorsPerTrack + 1) < count + sector ∨
            g.sectorsPerTrack < sector then
          .ok (false, machine)
        else
          match readTries bios driveNumber
              (chsRegisters driveNumber track head sector count buffer) 3 machine with
          | (false, machine) => .ok (false, machine)
          | (true, machine) =>
              chsLoop driveNumber g fuel (u32 (startSector32 + count)) (sub32 sectorCount count)
                (u32 (buffer + u32 (count * g.bytesPerSector))) machine

def biosdiskI386ReadChs (fuel driveNumber startSector sectorCount buffer : ℕ)
    (machine : Machine σ) : Outcome (Bool × Machine σ) :=
  match biosdiskI386GetDiskGeometry bios driveNumber machine with
  | (none, machine) => .ok (false, machine)
  | (some g, machine) =>
      chsLoop bios driveNumber g fuel (u32 startSector) sectorCount buffer machine

/-! ## What the registers denote -/

/-- A read as the firmware understands it. -/
structure ChsRead where
  drive : ℕ
  cylinder : ℕ
  head : ℕ
  sector : ℕ
  count : ℕ
  address : ℕ
  deriving DecidableEq, Repr

def BiosIntRegisters.chsRead (regs : BiosIntRegisters) : ChsRead where
  drive := regs.edx % 256
  cylinder := regs.ecx / 256 % 256 + 256 * (regs.ecx / 64 % 4)
  head := regs.edx / 256 % 256
  sector := regs.ecx % 64
  count := regs.eax % 256
  address := regs.es * 16 + regs.ebx % 2 ^ 16

/-- The call is a read and it was successful. -/
def BiosCall.reads (call : BiosCall) : Bool :=
  call.intNum = 0x13 ∧ call.before.eax / 256 % 256 = 0x02 ∧ call.after.carry = false

/-- The successful reads of a history. -/
def readsOf (calls : List BiosCall) : List ChsRead :=
  (calls.filter BiosCall.reads).map fun call => call.before.chsRead

/-- The number of the sector at which a read starts. -/
def ChsRead.lba (g : DiskGeometry) (read : ChsRead) : ℕ :=
  (read.cylinder * g.heads + read.head) * g.sectorsPerTrack + (read.sector - 1)

/-- The sectors that are read. -/
def ChsRead.sectors (g : DiskGeometry) (read : ChsRead) : List ℕ :=
  List.range' (read.lba g) read.count

/-- The sectors that are read, each with the address it is put at. -/
def ChsRead.transfers (g : DiskGeometry) (read : ChsRead) : List (ℕ × ℕ) :=
  (List.range read.count).map fun index =>
    (read.lba g + index, read.address + index * g.bytesPerSector)

/-- The read stays inside of one track of the disk. -/
structure ChsRead.InTrack (g : DiskGeometry) (read : ChsRead) : Prop where
  cylinder_lt : read.cylinder < g.cylinders
  head_lt : read.head < g.heads
  sector_pos : 1 ≤ read.sector
  sector_le : read.sector ≤ g.sectorsPerTrack
  end_le : read.sector - 1 + read.count ≤ g.sectorsPerTrack

/-- The reads cover the sectors from `start` on, in order and each once.  Where
a sector is put says something only if it has bytes. -/
structure Covers (g : DiskGeometry) (drive start count buffer : ℕ) (reads : List ChsRead) :
    Prop where
  drive_eq : ∀ read ∈ reads, read.drive = drive
  inTrack : ∀ read ∈ reads, read.InTrack g
  sectors_eq : reads.flatMap (ChsRead.sectors g) = List.range' start count
  transfers_eq : 0 < g.bytesPerSector → reads.flatMap (ChsRead.transfers g) =
    (List.range count).map fun index => (start + index, buffer + index * g.bytesPerSector)

/-- A geometry that the registers of the older calls can name. -/
structure ChsGeometry (g : DiskGeometry) : Prop where
  sectors_pos : 1 ≤ g.sectorsPerTrack
  sectors_le : g.sectorsPerTrack ≤ 63
  heads_pos : 1 ≤ g.heads
  heads_le : g.heads ≤ 256
  cylinders_le : g.cylinders ≤ 1024

/-- The number of sectors of the disk. -/
def DiskGeometry.capacity (g : DiskGeometry) : ℕ := g.cylinders * g.heads * g.sectorsPerTrack

end GeexOS.BiosDisk
