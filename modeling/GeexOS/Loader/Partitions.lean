import GeexOS.Loader.FatDirectory

/-!
# Partitions and the volumes on them

The first sector of a disk lists four partitions at most.  A partition is a
device of its own, whose sectors are those of the disk from its first one on.
The first sector of a partition says what volume it holds.
-/

namespace GeexOS.Fat

open GeexOS.Words
open GeexOS.Halting

/-! ## The partition table -/

structure Disk extends DiskDevice where
  /-- The sectors of the disk, if its geometry can be had. -/
  totalLBASectors : Option ℕ

/-- `MBR_Partition`. -/
structure MbrPartition where
  osIndicator : UInt8
  startingLBA : ℕ
  sizeInLBA : ℕ
  deriving DecidableEq, Repr

/-- A device of type `DEVICETYPE_PARTITION`. -/
structure Partition where
  startLBA : ℕ
  endLBA : ℕ
  diskNumber : ℕ
  deriving DecidableEq, Repr

def mbrSignature : ℕ := 0xAA55
def pmbrGptPartition : UInt8 := 0xEE

def mbrPartition (mbr : List UInt8) (i : ℕ) : MbrPartition where
  osIndicator := mbr.getD (446 + 16 * i + 4) 0
  startingLBA := word32 mbr (446 + 16 * i + 8)
  sizeInLBA := word32 mbr (446 + 16 * i + 12)

namespace MbrPartition

def used (partition : MbrPartition) : Bool :=
  partition.osIndicator ≠ 0 && partition.sizeInLBA ≠ 0

/-- The last sector, in 32-bit arithmetic. -/
def endLBA (partition : MbrPartition) : ℕ :=
  sub32 (u32 (partition.startingLBA + partition.sizeInLBA)) 1

end MbrPartition

/-- The loop of `mbr_isValid` over the rest of the table. -/
def validLoop (totalSectors : ℕ) : (valid : Bool) → List MbrPartition → Bool
  | valid, [] => valid
  | valid, partition :: rest =>
      if !partition.used then validLoop totalSectors valid rest
      else if partition.endLBA ≥ totalSectors then false
      else if rest.any fun other => other.used &&
          (u32 (other.startingLBA + other.sizeInLBA) ≥ partition.startingLBA &&
            other.startingLBA ≤ partition.endLBA) then false
      else validLoop totalSectors true rest

def mbrIsValid (mbr : List UInt8) (totalSectors : ℕ) : Bool :=
  word16 mbr 510 = mbrSignature &&
    validLoop totalSectors false ((List.range 4).map (mbrPartition mbr))

/-- The partitions handed to the callback, if the function returns true. -/
def mbrDetectPartitions (disk : Disk) : Option (List Partition) :=
  match disk.totalLBASectors, disk.readSectors 0 1 with
  | some totalSectors, some mbr =>
      if mbrIsValid mbr totalSectors then
        some ((List.range 4).filterMap fun i =>
          let partition := mbrPartition mbr i
          if !partition.used then none
          else if partition.osIndicator = pmbrGptPartition then none
          else some ⟨partition.startingLBA, partition.endLBA, i⟩)
      else none
  | _, _ => none

/-- The sector of the disk that `mbr_read_sectors` asks for. -/
def Partition.parentSector (partition : Partition) (startSector : ℕ) : ℕ :=
  u64 (startSector + partition.startLBA)

/-- A partition, with `mbr_read_sectors` to read it. -/
def partitionDevice (disk : Disk) (partition : Partition) : DiskDevice where
  bytesPerSector := disk.bytesPerSector
  content := fun position =>
    disk.content (partition.startLBA * disk.bytesPerSector + position)
  readable := fun startSector sectorCount =>
    disk.readable (partition.parentSector startSector) sectorCount

/-! ## Mounting -/

/-- `fat_determine_type`; the divisions are by BytesPerSector and SectorsPerCluster. -/
def fatDetermineType (bpb : List UInt8) : Outcome FatType :=
  let bytesPerSector := word16 bpb 11
  let sectorsPerCluster := (bpb.getD 13 0).toNat
  if bytesPerSector = 0 then .error .fault
  else
    let rootDirSectors := word16 bpb 17 * 32 + (bytesPerSector - 1) / bytesPerSector
    let sectorsPerFat := if word16 bpb 22 ≠ 0 then word16 bpb 22 else word32 bpb 36
    let totalSectors := if word16 bpb 19 ≠ 0 then word16 bpb 19 else word32 bpb 32
    let dataSectorCount := sub32 totalSectors
      (u32 (word16 bpb 14 + u32 ((bpb.getD 16 0).toNat * sectorsPerFat) + rootDirSectors))
    let countOfClusters :=
      if sectorsPerCluster ≠ 0 then dataSectorCount / sectorsPerCluster else 0
    if countOfClusters < 4085 then .ok .fat12
    else if countOfClusters < 65525 then .ok .fat16
    else .ok .fat32

/-- `FAT12   `, `FAT16   ` and `FAT32   `. -/
def filesystemType (digits : UInt8 × UInt8) : List UInt8 :=
  [0x46, 0x41, 0x54, digits.1, digits.2, space, space, space]

def fat32Volume (bpb : List UInt8) : MountedVolume where
  bytesPerSector := word16 bpb 11
  sectorsPerCluster := (bpb.getD 13 0).toNat
  fatSectorStart := word16 bpb 14
  activeFatSectorStart := u32 (word16 bpb 14 +
    if word16 bpb 40 &&& 0x80 ≠ 0 then u32 ((word16 bpb 40 &&& 0x0F) * word32 bpb 36) else 0)
  numberOfFats := (bpb.getD 16 0).toNat
  sectorsPerFat := word32 bpb 36
  rootDirSectorStart := 0
  rootDirSectors := 0
  rootDirStartCluster := word32 bpb 44
  dataSectorStart := u32 (word16 bpb 14 + u32 ((bpb.getD 16 0).toNat * word32 bpb 36))
  fatType := .fat32

def fat12Or16Volume (bpb : List UInt8) (fatType : FatType) : MountedVolume :=
  let rootDirSectorStart := u32 (word16 bpb 14 + u32 ((bpb.getD 16 0).toNat * word16 bpb 22))
  let rootDirSectors := u32 (word16 bpb 17 * 32 + (word16 bpb 11 - 1)) / word16 bpb 11
  { bytesPerSector := word16 bpb 11
    sectorsPerCluster := (bpb.getD 13 0).toNat
    fatSectorStart := word16 bpb 14
    activeFatSectorStart := word16 bpb 14
    numberOfFats := (bpb.getD 16 0).toNat
    sectorsPerFat := word16 bpb 22
    rootDirSectorStart := rootDirSectorStart
    rootDirSectors := rootDirSectors
    rootDirStartCluster := 0
    dataSectorStart := u32 (rootDirSectorStart + rootDirSectors)
    fatType := fatType }

/-- `fat_mount`, for a device whose geometry can be had. -/
def fatMount (device : DiskDevice) : Outcome (Option MountedVolume) :=
  match device.readSectors 0 1 with
  | none => .ok none
  | some bpb =>
      if (bpb.drop 54).take 8 ≠ filesystemType (0x31, 0x32) ∧
          (bpb.drop 54).take 8 ≠ filesystemType (0x31, 0x36) ∧
          (bpb.drop 82).take 8 ≠ filesystemType (0x33, 0x32) then .ok none
      else do
        match ← fatDetermineType bpb with
        | .fat32 => .ok (some (fat32Volume bpb))
        | fatType => .ok (some (fat12Or16Volume bpb fatType))

end GeexOS.Fat
