import GeexOS.Library.Halting
import GeexOS.Library.Words

/-!
# The loader's FAT driver

A volume lies on a device that is read in sectors.  The clusters of a file are
listed, when it is opened, in an array; a read takes a leading part of a
cluster, whole clusters along the table on the disk, and a trailing part.
Exhausting the loader's heap stops the loader, so `malloc` does not fail here.
-/

namespace GeexOS.Fat

open GeexOS.Words
open GeexOS.Halting

/-! ## Volumes -/

/-- A device with the bytes on it and the reads that succeed. -/
structure DiskDevice where
  bytesPerSector : ℕ
  content : ℕ → UInt8
  readable : ℕ → ℕ → Bool

/-- The bytes put into the buffer, if the read succeeds. -/
def DiskDevice.readSectors (device : DiskDevice) (startSector sectorCount : ℕ) :
    Option (List UInt8) :=
  if device.readable startSector sectorCount then
    some ((List.range (sectorCount * device.bytesPerSector)).map fun offset =>
      device.content (startSector * device.bytesPerSector + offset))
  else none

inductive FatType where
  | fat12
  | fat16
  | fat32
  deriving DecidableEq, Repr

structure FatVolumeInformation where
  bytesPerSector : ℕ
  sectorsPerCluster : ℕ
  activeFatSectorStart : ℕ
  dataSectorStart : ℕ
  fatType : FatType

structure FilesystemMount where
  device : DiskDevice
  fsContext : Option FatVolumeInformation

structure FatFileInfo where
  filesize : ℕ
  fatChain : List ℕ

structure File where
  mount : Option FilesystemMount
  fsContext : Option FatFileInfo
  filePointer : ℕ

/-- `volume->SectorsPerCluster * volume->BytesPerSector`. -/
def FatVolumeInformation.bytesPerCluster (volume : FatVolumeInformation) : ℕ :=
  u32 (volume.sectorsPerCluster * volume.bytesPerSector)

/-- The first sector of a cluster. -/
def FatVolumeInformation.clusterSector (volume : FatVolumeInformation) (cluster : ℕ) : ℕ :=
  u32 (u32 (sub32 cluster 2 * volume.sectorsPerCluster) + volume.dataSectorStart)

/-- Past the last cluster of a chain. -/
def FatVolumeInformation.endOfChain (volume : FatVolumeInformation) (cluster : ℕ) : Bool :=
  (volume.fatType = .fat12 && cluster ≥ 0xFF8) ||
    (volume.fatType = .fat16 && cluster ≥ 0xFFF8) ||
    (volume.fatType = .fat32 && cluster ≥ 0x0FFFFFF8)

/-! ## The file allocation table -/

/-- A little-endian word in a buffer. -/
def word16 (buffer : List UInt8) (offset : ℕ) : ℕ :=
  (buffer.getD offset 0).toNat + 2 ^ 8 * (buffer.getD (offset + 1) 0).toNat

def word32 (buffer : List UInt8) (offset : ℕ) : ℕ :=
  word16 buffer offset + 2 ^ 16 * word16 buffer (offset + 2)

theorem word16_lt (buffer : List UInt8) (offset : ℕ) : word16 buffer offset < 2 ^ 16 := by
  have hlow := UInt8.toNat_lt (buffer.getD offset 0)
  have hhigh := UInt8.toNat_lt (buffer.getD (offset + 1) 0)
  rw [word16]
  omega

theorem word32_lt (buffer : List UInt8) (offset : ℕ) : word32 buffer offset < 2 ^ 32 := by
  have hlow := word16_lt buffer offset
  have hhigh := word16_lt buffer (offset + 2)
  rw [word32]
  omega

/-- The sectors of the table around byte `fatOffset`, and the place of the byte
in them.  `straddles` says that an entry may go on in the next sector. -/
def readFatSectors (device : DiskDevice) (volume : FatVolumeInformation)
    (fatOffset : ℕ) (straddles : Bool) : Outcome (Option (List UInt8 × ℕ)) :=
  if volume.bytesPerSector = 0 then .error .fault
  else
    let thisFatSecNum :=
      u32 (volume.activeFatSectorStart + fatOffset / volume.bytesPerSector)
    let thisFatEntOffset := fatOffset % volume.bytesPerSector
    let sectorCount :=
      if straddles && thisFatEntOffset = volume.bytesPerSector - 1 then 2 else 1
    .ok ((device.readSectors thisFatSecNum sectorCount).map fun buffer =>
      (buffer, thisFatEntOffset))

/-- The entry of a cluster, or nothing if the table cannot be read. -/
def fatGetFatEntry (device : DiskDevice) (volume : FatVolumeInformation) (cluster : ℕ) :
    Outcome (Option ℕ) :=
  match volume.fatType with
  | .fat12 => do
      let sectors ← readFatSectors device volume (u32 (cluster + cluster / 2)) true
      .ok (sectors.map fun (buffer, offset) =>
        if cluster &&& 1 ≠ 0 then word16 buffer offset >>> 4
        else word16 buffer offset &&& 0xFFF)
  | .fat16 => do
      let sectors ← readFatSectors device volume (u32 (cluster * 2)) false
      .ok (sectors.map fun (buffer, offset) => word16 buffer offset)
  | .fat32 => do
      let sectors ← readFatSectors device volume (u32 (cluster * 4)) false
      .ok (sectors.map fun (buffer, offset) => word32 buffer offset &&& 0x0FFFFFFF)

/-- The count is deterministic in the cluster, so a chain of 32-bit numbers
that has not ended within `2^32` steps does not end. -/
def countLoop (device : DiskDevice) (volume : FatVolumeInformation) :
    (fuel i startCluster : ℕ) → Outcome ℕ
  | 0, _, _ => .error .diverges
  | fuel + 1, i, startCluster =>
      if volume.endOfChain startCluster then .ok i
      else do
        match ← fatGetFatEntry device volume startCluster with
        | none => .ok 0
        | some next => countLoop device volume fuel (u32 (i + 1)) next

def fatCountClustersInChain (device : DiskDevice) (volume : FatVolumeInformation)
    (startCluster : ℕ) : Outcome ℕ :=
  countLoop device volume (2 ^ 32 + 1) 0 startCluster

/-- The remaining iterations of the loop that fills the array. -/
def chainLoop (device : DiskDevice) (volume : FatVolumeInformation) :
    (remaining startCluster : ℕ) → Outcome (Option (List ℕ))
  | 0, _ => .ok (some [])
  | remaining + 1, startCluster =>
      if volume.endOfChain startCluster then .ok (some [startCluster])
      else do
        match ← fatGetFatEntry device volume startCluster with
        | none => .ok none
        | some next =>
            let rest ← chainLoop device volume remaining next
            .ok (rest.map (startCluster :: ·))

def fatGetFatChain (device : DiskDevice) (volume : FatVolumeInformation)
    (startCluster : ℕ) : Outcome (Option (List ℕ)) := do
  let clusterCount ← fatCountClustersInChain device volume startCluster
  chainLoop device volume clusterCount startCluster

/-! ## Clusters -/

/-- `maxClusters` clusters, or fewer if the chain ends.  The bytes of the clusters
before a failing read are in the buffer already.  `tmpbuf` is an array of pointers,
four bytes for each byte of a cluster; the stack is taken to have room for it. -/
def fatReadClusterChain (device : DiskDevice) (volume : FatVolumeInformation) :
    (maxClusters startCluster : ℕ) → Outcome (Bool × List UInt8)
  | 0, _ => .ok (true, [])
  | maxClusters + 1, startCluster =>
      match device.readSectors (volume.clusterSector startCluster)
          volume.sectorsPerCluster with
      | none => .ok (false, [])
      | some tmpbuf => do
          let bytes := tmpbuf.take volume.bytesPerCluster
          match ← fatGetFatEntry device volume startCluster with
          | none => .ok (false, bytes)
          | some next =>
              if volume.endOfChain next then .ok (true, bytes)
              else do
                let (success, rest) ← fatReadClusterChain device volume maxClusters next
                .ok (success, bytes ++ rest)

/-- With the same `tmpbuf` on the stack as `fatReadClusterChain`. -/
def fatReadPartialCluster (device : DiskDevice) (volume : FatVolumeInformation)
    (clusterNumber offset length : ℕ) : Option (List UInt8) :=
  (device.readSectors (volume.clusterSector clusterNumber) volume.sectorsPerCluster).map
    fun tmpbuf => (tmpbuf.drop offset).take length

/-! ## Reading -/

/-- `fi->FATChain[index]`. -/
def FatFileInfo.chainEntry (fi : FatFileInfo) (index : ℕ) : Outcome ℕ :=
  match fi.fatChain[index]? with
  | some cluster => .ok cluster
  | none => .error .fault

/-- The file pointer, the bytes still to read, the bytes read and the buffer. -/
structure Progress where
  filePointer : ℕ
  s : ℕ
  bytesRead : ℕ
  buffer : List UInt8

/-- `s` bytes arrived; the pointer, the rest and the count move by as much. -/
def Progress.advance (progress : Progress) (length : ℕ) (bytes : List UInt8) : Progress where
  filePointer := u32 (progress.filePointer + length)
  s := sub32 progress.s length
  bytesRead := u32 (progress.bytesRead + length)
  buffer := progress.buffer ++ bytes

/-- The remaining bytes of the last cluster.  The rest is cleared before it is
added to the pointer. -/
def readTrailing (device : DiskDevice) (volume : FatVolumeInformation)
    (fi : FatFileInfo) (progress : Progress) : Outcome (ℕ × Progress) :=
  if progress.s > 0 then do
    let clusterNumber ← fi.chainEntry (progress.filePointer / volume.bytesPerCluster)
    match fatReadPartialCluster device volume clusterNumber 0 progress.s with
    | none => .ok (sub32 0 7, progress)
    | some bytes =>
        let bytesRead := u32 (progress.bytesRead + progress.s)
        let s := sub32 progress.s progress.s
        let filePointer := u32 (progress.filePointer + s)
        .ok (bytesRead, ⟨filePointer, s, bytesRead, progress.buffer ++ bytes⟩)
  else .ok (progress.bytesRead, progress)

/-- The full clusters, and what follows them. -/
def readFull (device : DiskDevice) (volume : FatVolumeInformation)
    (fi : FatFileInfo) (progress : Progress) : Outcome (ℕ × Progress) :=
  let numberOfClusters := progress.s / volume.bytesPerCluster
  if progress.s > 0 ∧ numberOfClusters > 0 then do
    let clusterNumber ← fi.chainEntry (progress.filePointer / volume.bytesPerCluster)
    let (success, bytes) ← fatReadClusterChain device volume numberOfClusters clusterNumber
    if success then
      readTrailing device volume fi
        (progress.advance (u32 (numberOfClusters * volume.bytesPerCluster)) bytes)
    else .ok (0, { progress with buffer := progress.buffer ++ bytes })
  else readTrailing device volume fi progress

/-- The bytes up to a cluster boundary, and what follows them. -/
def readLeading (device : DiskDevice) (volume : FatVolumeInformation)
    (fi : FatFileInfo) (progress : Progress) : Outcome (ℕ × Progress) :=
  let offsetInCluster := progress.filePointer % volume.bytesPerCluster
  if offsetInCluster ≠ 0 then do
    let clusterNumber ← fi.chainEntry (progress.filePointer / volume.bytesPerCluster)
    let lengthInCluster :=
      if progress.s > volume.bytesPerCluster - offsetInCluster then
        volume.bytesPerCluster - offsetInCluster
      else progress.s
    match fatReadPartialCluster device volume clusterNumber offsetInCluster
        lengthInCluster with
    | none => .ok (sub32 0 5, progress)
    | some bytes =>
        readFull device volume fi (progress.advance lengthInCluster bytes)
  else readFull device volume fi progress

/-- A read of an open file: the value returned, and the file pointer and the
buffer afterwards. -/
def readOpen (device : DiskDevice) (volume : FatVolumeInformation) (fi : FatFileInfo)
    (filePointer s : ℕ) : Outcome (ℕ × Progress) :=
  if filePointer ≥ fi.filesize then .ok (0, ⟨filePointer, s, 0, []⟩)
  else
    let s :=
      if u32 (filePointer + s) > fi.filesize then sub32 fi.filesize filePointer else s
    if volume.bytesPerCluster = 0 then .error .fault
    else readLeading device volume fi ⟨filePointer, s, 0, []⟩

/-- Returns the value of the call, the bytes put into the buffer, and the file. -/
def fatRead (f : Option File) (s : ℕ) : Outcome (ℕ × List UInt8 × Option File) :=
  match f with
  | none => .ok (sub32 0 1, [], none)
  | some file =>
      match file.mount with
      | none => .ok (sub32 0 2, [], some file)
      | some mount =>
          match mount.fsContext with
          | none => .ok (sub32 0 3, [], some file)
          | some volume =>
              match file.fsContext with
              | none => .ok (sub32 0 4, [], some file)
              | some fi => do
                  let (returned, progress) ←
                    readOpen mount.device volume fi file.filePointer s
                  .ok (returned, progress.buffer,
                    some { file with filePointer := progress.filePointer })

end GeexOS.Fat
