import GeexOS.Loader.FatChains
import GeexOS.Loader.Strings

/-!
# Directories of a FAT volume

A directory is searched entry by entry.  The slots of a long name come in front
of the entry they belong to, the last part of the name first.
-/

namespace GeexOS.Fat

open GeexOS.Words
open GeexOS.Halting
open GeexOS.Strings

/-- What `fat_mount` knows of a volume. -/
structure MountedVolume extends FatVolumeInformation where
  fatSectorStart : ℕ
  numberOfFats : ℕ
  sectorsPerFat : ℕ
  rootDirSectorStart : ℕ
  rootDirSectors : ℕ
  rootDirStartCluster : ℕ

/-- The file information that a search fills in; `FATChain` may be NULL. -/
structure FoundFile where
  attributes : UInt8
  filesize : ℕ
  fatChain : Option (List ℕ)
  deriving DecidableEq, Repr

def attrVolumename : UInt8 := 0x08
def attrDirectory : UInt8 := 0x10
def attrLongName : UInt8 := 0x0F
def space : UInt8 := 0x20
def dot : UInt8 := 0x2E

/-! ## Entries -/

/-- The 32 bytes of an entry, a `FatDirEntry` or a `FatLfnDirentry`. -/
abbrev FatDirEntry := List UInt8

namespace FatDirEntry

def first (entry : FatDirEntry) : UInt8 := entry.getD 0 0
def attributes (entry : FatDirEntry) : UInt8 := entry.getD 11 0
def startCluster (entry : FatDirEntry) : ℕ := word16 entry 20 * 2 ^ 16 + word16 entry 26
def size (entry : FatDirEntry) : ℕ := word32 entry 28

/-- The characters of a slot: `Name0_4`, `Name5_10` and `Name11_12`. -/
def nameChars (entry : FatDirEntry) : List ℕ :=
  [1, 3, 5, 7, 9, 14, 16, 18, 20, 22, 24, 28, 30].map (word16 entry)

end FatDirEntry

/-- The cleared `longNameBuffer`. -/
def noLongName : List UInt8 := List.replicate 265 0

/-- The characters other than 0xFFFF are stored from `index` on. -/
def storeNameChars : (longNameBuffer : List UInt8) → (index : ℕ) → List ℕ →
    Outcome (List UInt8)
  | longNameBuffer, _, [] => .ok longNameBuffer
  | longNameBuffer, index, c :: rest =>
      if c = 0xFFFF then storeNameChars longNameBuffer (index + 1) rest
      else if index < longNameBuffer.length then
        storeNameChars (longNameBuffer.set index (UInt8.ofNat c)) (index + 1) rest
      else .error .fault

/-- The part of a long name that a slot holds. -/
def storeSlot (entry : FatDirEntry) (longNameBuffer : List UInt8) : Outcome (List UInt8) :=
  let sequenceNumber := (entry.first &&& 0x3F) - 1
  storeNameChars longNameBuffer (sequenceNumber.toNat * 13) entry.nameChars

/-- `fat_parseShortFilename`. -/
def fatParseShortFilename (entry : FatDirEntry) : CString :=
  let filename := if entry.first = 0x05 then (entry.take 11).set 0 0xE5 else entry.take 11
  let base := (filename.take 8).takeWhile fun c => c ≠ space
  let extension := filename.drop 8
  let buffer :=
    if extension.getD 0 0 ≠ space then
      base ++ dot :: extension.map fun c => if c = space then 0 else c
    else base
  buffer.takeWhile fun c => c ≠ 0

/-- The loop of `fat_searchDirectoryForFile`.  It does not count the entries, so it
reads on behind the last one. -/
def searchLoop (filename : CString) : List FatDirEntry → (longNameBuffer : List UInt8) →
    Outcome (Option FatDirEntry)
  | [], _ => .error .fault
  | entry :: rest, longNameBuffer =>
      if entry.first = 0 then .ok none
      else if entry.first = 0xE5 then searchLoop filename rest noLongName
      else if entry.attributes = attrLongName then
        if entry.first &&& 0x80 ≠ 0 then searchLoop filename rest longNameBuffer
        else do
          let longNameBuffer ← storeSlot entry longNameBuffer
          searchLoop filename rest longNameBuffer
      else if entry.attributes &&& attrVolumename ≠ 0 then searchLoop filename rest noLongName
      else if stricmp filename (fatParseShortFilename entry) = 0 ∨
          stricmp filename (longNameBuffer.takeWhile fun c => c ≠ 0) = 0 then .ok (some entry)
      else searchLoop filename rest noLongName

/-- The entries that lie in the contents of a directory. -/
def directoryEntries (contents : List UInt8) : List FatDirEntry :=
  (List.range (contents.length / 32)).map fun index => (contents.drop (32 * index)).take 32

def fatSearchDirectoryForFile (device : DiskDevice) (volume : MountedVolume)
    (directoryContents : List UInt8) (directorySize : ℕ) (filename : CString) :
    Outcome (Option FoundFile) :=
  if directorySize / 32 = 0 then .ok none
  else do
    match ← searchLoop filename (directoryEntries directoryContents) noLongName with
    | none => .ok none
    | some entry =>
        let fatChain ← fatGetFatChain device volume.toFatVolumeInformation entry.startCluster
        .ok (some ⟨entry.attributes, entry.size, fatChain⟩)

/-- The size of a directory and its contents, which must not be longer than that. -/
def fatGetDirectoryContents (device : DiskDevice) (volume : MountedVolume) (startCluster : ℕ)
    (rootDirectory : Bool) : Outcome (Option (ℕ × List UInt8)) :=
  if rootDirectory = true ∧ volume.fatType ≠ .fat32 then
    let directorySize := u32 (volume.rootDirSectors * volume.bytesPerSector)
    match device.readSectors volume.rootDirSectorStart volume.rootDirSectors with
    | none => .ok none
    | some contents =>
        if directorySize < contents.length then .error .fault
        else .ok (some (directorySize, contents))
  else do
    let startCluster := if rootDirectory then volume.rootDirStartCluster else startCluster
    let clusters ← fatCountClustersInChain device volume.toFatVolumeInformation startCluster
    let directorySize := u32 (u32 (clusters * volume.sectorsPerCluster) * volume.bytesPerSector)
    let (success, contents) ←
      fatReadClusterChain device volume.toFatVolumeInformation 0xFFFFFFFF startCluster
    if directorySize < contents.length then .error .fault
    else if success then .ok (some (directorySize, contents)) else .ok none

/-! ## Paths -/

def isSeparator (c : UInt8) : Bool := c = backslash || c = slash

def fsGetNumPathParts (path : CString) : ℕ := path.countP isSeparator + 1

def fsGetFirstElementFromPath (path : CString) : CString := path.takeWhile fun c => !isSeparator c

/-- The path behind its first element and the separator. -/
def skipPathPart (path : CString) : CString := (path.dropWhile fun c => !isSeparator c).drop 1

/-- The loop of `fat_findFile` with `remaining` parts behind the first one.  A part
of more than 260 characters is not held by `pathPart`. -/
def findLoop (device : DiskDevice) (volume : MountedVolume) :
    (remaining directoryStartCluster : ℕ) → (rootDirectory : Bool) → (filename : CString) →
    Outcome (Option FoundFile)
  | remaining, directoryStartCluster, rootDirectory, filename =>
      let pathPart := fsGetFirstElementFromPath filename
      if 260 < pathPart.length then .error .fault
      else do
        match ← fatGetDirectoryContents device volume directoryStartCluster rootDirectory with
        | none => .ok none
        | some (directorySize, directoryContents) =>
            match ← fatSearchDirectoryForFile device volume directoryContents directorySize
                pathPart with
            | none => .ok none
            | some fileinfo =>
                match remaining with
                | 0 => .ok (some fileinfo)
                | remaining + 1 =>
                    if fileinfo.attributes &&& attrDirectory = 0 then .ok none
                    else
                      match fileinfo.fatChain with
                      | some (startCluster :: _) =>
                          findLoop device volume remaining startCluster false
                            (skipPathPart filename)
                      | _ => .error .fault

def fatFindFile (device : DiskDevice) (volume : MountedVolume) (filename : CString) :
    Outcome (Option FoundFile) :=
  findLoop device volume (fsGetNumPathParts filename - 1) 0 true filename

end GeexOS.Fat
