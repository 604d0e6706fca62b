import GeexOS.Loader.FatLookup
import GeexOS.Loader.PartitionReads

/-!
# What the first sector of a volume decides

The type of the table follows from the number of clusters, which is what the sectors
come to that neither the tables nor the root directory take up.  The driver counts a
sector for every 32nd part of an entry there, and it divides by numbers of the first
sector that nothing has compared with zero.
-/

namespace GeexOS.Fat

open GeexOS.Words
open GeexOS.Halting
open GeexOS.Strings

/-! ## The number of clusters -/

/-- The type of the table of a volume with so many clusters. -/
def typeOfClusters (clusters : ℕ) : FatType :=
  if clusters < 4085 then .fat12 else if clusters < 65525 then .fat16 else .fat32

section BootParameterBlock

variable (bpb : List UInt8)

def bpbSectorsPerCluster : ℕ := (bpb.getD 13 0).toNat
def bpbSectorsPerFat : ℕ := if word16 bpb 22 ≠ 0 then word16 bpb 22 else word32 bpb 36
def bpbTotalSectors : ℕ := if word16 bpb 19 ≠ 0 then word16 bpb 19 else word32 bpb 32

/-- The reserved sectors and the tables. -/
def tableSectors : ℕ := word16 bpb 14 + (bpb.getD 16 0).toNat * bpbSectorsPerFat bpb

/-- The sectors that `fat_mount` provides for the root directory. -/
def rootDirSectors : ℕ := (word16 bpb 17 * 32 + (word16 bpb 11 - 1)) / word16 bpb 11

def dataSectors : ℕ := bpbTotalSectors bpb - (tableSectors bpb + rootDirSectors bpb)

/-- By how much `fat_determine_type` takes the root directory for larger. -/
def excessSectors : ℕ := word16 bpb 17 * 32 - rootDirSectors bpb

end BootParameterBlock

/-- A boot parameter block of a volume on which the tables have room. -/
structure VolumeParameters where
  bpb : List UInt8
  bytesPerSector_ne : word16 bpb 11 ≠ 0
  sectorsPerCluster_ne : bpbSectorsPerCluster bpb ≠ 0
  fits : tableSectors bpb + rootDirSectors bpb ≤ bpbTotalSectors bpb

/-- The type is that of the number of clusters. -/
def VolumeParameters.TypeCorrect (parameters : VolumeParameters) : Prop :=
  fatDetermineType parameters.bpb =
    .ok (typeOfClusters (dataSectors parameters.bpb / bpbSectorsPerCluster parameters.bpb))

/-- So many clusters are reached with the excess if they are without it. -/
def KeepsThreshold (bpb : List UInt8) (threshold : ℕ) : Prop :=
  threshold * bpbSectorsPerCluster bpb ≤ dataSectors bpb →
    threshold * bpbSectorsPerCluster bpb + excessSectors bpb ≤ dataSectors bpb

/-- The excess makes the number of clusters pass no threshold; where it is greater than
the number of sectors, the difference wraps around to that of a large volume. -/
def VolumeParameters.ExcessHarmless (parameters : VolumeParameters) : Prop :=
  (excessSectors parameters.bpb ≤ dataSectors parameters.bpb ∧
      KeepsThreshold parameters.bpb 4085 ∧ KeepsThreshold parameters.bpb 65525) ∨
    (dataSectors parameters.bpb < excessSectors parameters.bpb ∧
      65525 * bpbSectorsPerCluster parameters.bpb ≤ dataSectors parameters.bpb)

theorem bpbTotalSectors_lt (bpb : List UInt8) : bpbTotalSectors bpb < 2 ^ 32 := by
  have hsmall := word16_lt bpb 19
  have hbig := word32_lt bpb 32
  rw [bpbTotalSectors]
  split <;> omega

/-- The layout of a mounted volume has the same number of sectors for the root. -/
theorem fat12Or16Volume_rootDirSectors (bpb : List UInt8) (fatType : FatType) :
    (fat12Or16Volume bpb fatType).rootDirSectors = rootDirSectors bpb := by
  have hentries := word16_lt bpb 17
  have hbytes := word16_lt bpb 11
  rw [fat12Or16Volume, rootDirSectors]
  dsimp only
  rw [u32_of_lt (by omega)]

theorem typeOfClusters_eq_iff {left right : ℕ} :
    typeOfClusters left = typeOfClusters right ↔
      (4085 ≤ left ↔ 4085 ≤ right) ∧ (65525 ≤ left ↔ 65525 ≤ right) := by
  simp only [typeOfClusters]
  split_ifs <;> simp only [true_iff, false_iff] <;> omega

/-- `fat_determine_type`, in the words of the block. -/
theorem fatDetermineType_eq_ite (bpb : List UInt8) :
    fatDetermineType bpb =
      if word16 bpb 11 = 0 then .error .fault
      else .ok (typeOfClusters
        (if bpbSectorsPerCluster bpb ≠ 0 then
          sub32 (bpbTotalSectors bpb)
            (u32 (word16 bpb 14 + u32 ((bpb.getD 16 0).toNat * bpbSectorsPerFat bpb) +
              (word16 bpb 17 * 32 + (word16 bpb 11 - 1) / word16 bpb 11))) /
                bpbSectorsPerCluster bpb
        else 0)) := by
  have hclass : ∀ clusters, (if clusters < 4085 then .ok .fat12
      else if clusters < 65525 then .ok .fat16 else .ok .fat32 : Outcome FatType) =
        .ok (typeOfClusters clusters) := by
    intro clusters
    rw [typeOfClusters]
    split_ifs <;> rfl
  exact if_congr Iff.rfl rfl (hclass _)

namespace VolumeParameters

variable (parameters : VolumeParameters)

theorem rootDirSectors_le : rootDirSectors parameters.bpb ≤ word16 parameters.bpb 17 * 32 := by
  have hpos := Nat.pos_of_ne_zero parameters.bytesPerSector_ne
  rw [rootDirSectors, Nat.div_le_iff_le_mul hpos]
  have hlarge := Nat.le_mul_of_pos_right (word16 parameters.bpb 17 * 32) hpos
  omega

/-- The sectors that are left for the driver. -/
def countedSectors : ℕ :=
  if excessSectors parameters.bpb ≤ dataSectors parameters.bpb then
    dataSectors parameters.bpb - excessSectors parameters.bpb
  else 2 ^ 32 + dataSectors parameters.bpb - excessSectors parameters.bpb

theorem fatDetermineType_eq :
    fatDetermineType parameters.bpb =
      .ok (typeOfClusters (parameters.countedSectors / bpbSectorsPerCluster parameters.bpb)) := by
  have hroot := parameters.rootDirSectors_le
  have hfits := parameters.fits
  have htotal := bpbTotalSectors_lt parameters.bpb
  have hentries := word16_lt parameters.bpb 17
  have htables : tableSectors parameters.bpb = word16 parameters.bpb 14 +
      (parameters.bpb.getD 16 0).toNat * bpbSectorsPerFat parameters.bpb := rfl
  have hdata : dataSectors parameters.bpb = bpbTotalSectors parameters.bpb -
      (tableSectors parameters.bpb + rootDirSectors parameters.bpb) := rfl
  have hexcess : excessSectors parameters.bpb =
      word16 parameters.bpb 17 * 32 - rootDirSectors parameters.bpb := rfl
  have hround : (word16 parameters.bpb 11 - 1) / word16 parameters.bpb 11 = 0 :=
    Nat.div_eq_of_lt (Nat.sub_lt (Nat.pos_of_ne_zero parameters.bytesPerSector_ne) one_pos)
  have hcount : sub32 (bpbTotalSectors parameters.bpb)
      (u32 (word16 parameters.bpb 14 +
        u32 ((parameters.bpb.getD 16 0).toNat * bpbSectorsPerFat parameters.bpb) +
          word16 parameters.bpb 17 * 32)) = parameters.countedSectors := by
    rw [u32_of_lt (show (parameters.bpb.getD 16 0).toNat * bpbSectorsPerFat parameters.bpb <
      2 ^ 32 by omega), ← htables, countedSectors]
    simp only [sub32, u32]
    split <;> omega
  rw [fatDetermineType_eq_ite, if_neg parameters.bytesPerSector_ne, hround, Nat.add_zero,
    hcount, if_pos parameters.sectorsPerCluster_ne]

theorem typeOfClusters_counted (hle : excessSectors parameters.bpb ≤ dataSectors parameters.bpb) :
    typeOfClusters (parameters.countedSectors / bpbSectorsPerCluster parameters.bpb) =
        typeOfClusters (dataSectors parameters.bpb / bpbSectorsPerCluster parameters.bpb) ↔
      KeepsThreshold parameters.bpb 4085 ∧ KeepsThreshold parameters.bpb 65525 := by
  have hpos := Nat.pos_of_ne_zero parameters.sectorsPerCluster_ne
  have hkeeps : ∀ threshold, (threshold * bpbSectorsPerCluster parameters.bpb ≤
        dataSectors parameters.bpb - excessSectors parameters.bpb ↔
      threshold * bpbSectorsPerCluster parameters.bpb ≤ dataSectors parameters.bpb) ↔
        KeepsThreshold parameters.bpb threshold := by
    intro threshold
    rw [KeepsThreshold]
    constructor
    · intro hsame hdata
      have hcounted := hsame.mpr hdata
      omega
    · refine fun hkeeps => ⟨fun hcounted => by omega, fun hdata => ?_⟩
      have hroom := hkeeps hdata
      omega
  rw [countedSectors, if_pos hle, typeOfClusters_eq_iff]
  simp only [Nat.le_div_iff_mul_le hpos, hkeeps]

/-- Whatever is left after the wrap-around is enough for a large volume. -/
theorem typeOfClusters_wrapped
    (hlt : dataSectors parameters.bpb < excessSectors parameters.bpb) :
    typeOfClusters (parameters.countedSectors / bpbSectorsPerCluster parameters.bpb) =
        typeOfClusters (dataSectors parameters.bpb / bpbSectorsPerCluster parameters.bpb) ↔
      65525 * bpbSectorsPerCluster parameters.bpb ≤ dataSectors parameters.bpb := by
  have hpos := Nat.pos_of_ne_zero parameters.sectorsPerCluster_ne
  have hbyte : bpbSectorsPerCluster parameters.bpb < 256 := UInt8.toNat_lt _
  have hentries := word16_lt parameters.bpb 17
  have hexcess : excessSectors parameters.bpb =
      word16 parameters.bpb 17 * 32 - rootDirSectors parameters.bpb := rfl
  rw [countedSectors, if_neg (Nat.not_le.mpr hlt), typeOfClusters_eq_iff]
  simp only [Nat.le_div_iff_mul_le hpos]
  omega

/-- The type is determined correctly exactly if the excess does no harm. -/
theorem typeCorrect_iff_excessHarmless : parameters.TypeCorrect ↔ parameters.ExcessHarmless := by
  rw [TypeCorrect, fatDetermineType_eq, Except.ok.injEq, ExcessHarmless]
  rcases Nat.lt_or_ge (dataSectors parameters.bpb) (excessSectors parameters.bpb) with hlt | hle
  · rw [typeOfClusters_wrapped parameters hlt]
    have hnot := Nat.not_le.mpr hlt
    simp only [hnot, hlt, false_and, true_and, false_or]
  · rw [typeOfClusters_counted parameters hle]
    have hnot := Nat.not_lt.mpr hle
    simp only [hle, hnot, false_and, true_and, or_false]

end VolumeParameters

/-- A disk of 2880 sectors with 224 entries in the root. -/
def floppyParameters : VolumeParameters where
  bpb := [0xEB, 0x3C, 0x90, 0x4D, 0x53, 0x44, 0x4F, 0x53, 0x35, 0x2E, 0x30, 0, 2, 1, 1, 0, 2,
    224, 0, 0x40, 0x0B, 0xF0, 9, 0, 18, 0, 2, 0, 0, 0, 0, 0, 0, 0, 0, 0]
  bytesPerSector_ne := by decide
  sectorsPerCluster_ne := by decide
  fits := by decide

/-- It is taken for a large volume. -/
theorem floppy_not_typeCorrect : ¬ ∀ parameters : VolumeParameters, parameters.TypeCorrect := by
  intro hall
  have hlarge : fatDetermineType floppyParameters.bpb = .ok .fat32 := by decide
  have hsmall : typeOfClusters (dataSectors floppyParameters.bpb /
      bpbSectorsPerCluster floppyParameters.bpb) = .fat12 := by decide
  have hcorrect := hall floppyParameters
  rw [VolumeParameters.TypeCorrect, hlarge, hsmall] at hcorrect
  cases hcorrect

/-! ## Divisors -/

/-- The divisors of `fat_determine_type`. -/
def determineTypeDivisors (bpb : List UInt8) : List ℕ :=
  word16 bpb 11 ::
    if bpbSectorsPerCluster bpb ≠ 0 then [bpbSectorsPerCluster bpb] else []

/-- `fat_mount` recognises the first sector. -/
def hasFilesystemType (bpb : List UInt8) : Bool :=
  (bpb.drop 54).take 8 = filesystemType (0x31, 0x32) ||
    (bpb.drop 54).take 8 = filesystemType (0x31, 0x36) ||
    (bpb.drop 82).take 8 = filesystemType (0x33, 0x32)

/-- The divisors of `fat_mount` behind the check of the first sector. -/
def mountDivisors (bpb : List UInt8) : List ℕ :=
  determineTypeDivisors bpb ++
    match fatDetermineType bpb with
    | .ok .fat32 => []
    | .ok _ => [word16 bpb 11]
    | .error _ => []

/-- The divisors of `fat_getFatEntry`: a quotient and a remainder. -/
def getFatEntryDivisors (volume : MountedVolume) : List ℕ :=
  [volume.bytesPerSector, volume.bytesPerSector]

def Visit.divisors (volume : MountedVolume) : Visit → List ℕ
  | .fatEntry _ => getFatEntryDivisors volume
  | _ => []

/-- The divisors of `fat_open`, the size of a directory entry apart. -/
def openDivisors (device : DiskDevice) (volume : MountedVolume) (path : CString) : List ℕ :=
  (findFileVisits device volume path).flatMap (Visit.divisors volume)

/-- The divisors of `fat_read`; it divides by the same number later on. -/
def readDivisors (device : DiskDevice) (volume : MountedVolume) (fi : FatFileInfo)
    (filePointer s : ℕ) : List ℕ :=
  if filePointer ≥ fi.filesize then []
  else
    volume.bytesPerCluster ::
      (readVisits device volume fi filePointer s).flatMap (Visit.divisors volume)

/-- What an opened file is read by; a chain that is not there has no clusters. -/
def FoundFile.fileInfo (found : FoundFile) : FatFileInfo :=
  ⟨found.filesize, found.fatChain.getD []⟩

/-- A device whose first sector passes the check. -/
structure ProbedDevice where
  device : DiskDevice
  bpb : List UInt8
  firstSector : device.readSectors 0 1 = some bpb
  recognised : hasFilesystemType bpb = true

/-- Nothing is divided by zero when the volume is mounted and worked with. -/
structure ProbedDevice.DividesSafely (probed : ProbedDevice) : Prop where
  mounting : 0 ∉ mountDivisors probed.bpb
  entry : ∀ volume, fatMount probed.device = .ok (some volume) → 0 ∉ getFatEntryDivisors volume
  opening : ∀ volume, fatMount probed.device = .ok (some volume) → ∀ path,
    0 ∉ openDivisors probed.device volume path
  reading : ∀ volume, fatMount probed.device = .ok (some volume) → ∀ path found,
    fatFindFile probed.device volume path = .ok (some found) → ∀ filePointer s,
      0 ∉ readDivisors probed.device volume found.fileInfo filePointer s

variable {device : DiskDevice} {volume : MountedVolume} {bpb : List UInt8}

theorem zero_notMem_visits {visits : List Visit} (hsector : volume.bytesPerSector ≠ 0) :
    0 ∉ visits.flatMap (Visit.divisors volume) := by
  rw [List.mem_flatMap]
  rintro ⟨visit, _, hmem⟩
  cases visit with
  | fatEntry number =>
      rcases List.mem_cons.mp hmem with hzero | hmem
      · exact hsector hzero.symm
      · exact hsector (List.mem_singleton.mp hmem).symm
  | rootDirectory => cases hmem
  | dataCluster number => cases hmem

theorem hasFilesystemType_eq_true :
    hasFilesystemType bpb = true ↔
      ¬ ((bpb.drop 54).take 8 ≠ filesystemType (0x31, 0x32) ∧
        (bpb.drop 54).take 8 ≠ filesystemType (0x31, 0x36) ∧
        (bpb.drop 82).take 8 ≠ filesystemType (0x33, 0x32)) := by
  simp only [hasFilesystemType, Bool.or_eq_true, decide_eq_true_eq]
  tauto

namespace ProbedDevice

variable (probed : ProbedDevice)

/-- A recognised volume is mounted unless its type cannot be determined. -/
theorem fatMount_eq :
    fatMount probed.device =
      fatDetermineType probed.bpb >>= fun fatType =>
        .ok (some (if fatType = .fat32 then fat32Volume probed.bpb
          else fat12Or16Volume probed.bpb fatType)) := by
  rw [fatMount, probed.firstSector]
  dsimp only
  rw [if_neg (hasFilesystemType_eq_true.mp probed.recognised)]
  congr 1
  funext fatType
  cases fatType <;> rfl

/-- The numbers of a mounted volume are those of the first sector. -/
theorem mounted (hmount : fatMount probed.device = .ok (some volume)) :
    volume.bytesPerSector = word16 probed.bpb 11 ∧
      volume.sectorsPerCluster = bpbSectorsPerCluster probed.bpb := by
  rw [probed.fatMount_eq] at hmount
  obtain ⟨fatType, _, hvolume⟩ := bind_eq_ok.mp hmount
  obtain rfl := Option.some.inj (Except.ok.inj hvolume)
  split <;> exact ⟨rfl, rfl⟩

/-- The volume that is mounted for a sector without sectors in a cluster. -/
def sizelessVolume : MountedVolume := fat12Or16Volume probed.bpb .fat12

/-- A file in the root directory that is not empty: the root has entries, its area is read
into the buffer that is provided for it, the search for the name stops at an entry with a size,
and the walk from its start cluster ends. -/
structure HoldsFile (name : CString) (contents : List UInt8) (stored : FatDirEntry) : Prop where
  name_length : name.length ≤ 260
  one_part : name.countP isSeparator = 0
  entries : word16 probed.bpb 17 ≠ 0
  read : probed.device.readSectors probed.sizelessVolume.rootDirSectorStart
    probed.sizelessVolume.rootDirSectors = some contents
  fits : contents.length ≤
    probed.sizelessVolume.rootDirSectors * probed.sizelessVolume.bytesPerSector
  found : searchLoop name (directoryEntries contents) noLongName = .ok (some stored)
  ends : WalkEnds probed.device probed.sizelessVolume.toFatVolumeInformation stored.startCluster
  size : stored.size ≠ 0

theorem zero_mem_mountDivisors : 0 ∈ mountDivisors probed.bpb ↔ word16 probed.bpb 11 = 0 := by
  rw [mountDivisors, determineTypeDivisors, List.cons_append, List.mem_cons, List.mem_append]
  constructor
  · rintro (hzero | hmem | hmem)
    · exact hzero.symm
    · split at hmem
      · rename_i hne
        exact absurd (List.mem_singleton.mp hmem).symm hne
      · cases hmem
    · split at hmem
      · cases hmem
      · exact (List.mem_singleton.mp hmem).symm
      · cases hmem
  · exact fun hzero => Or.inl hzero.symm

/-- With a sector size only the reads of opened files are left. -/
theorem dividesSafely_iff_reading (hsector : word16 probed.bpb 11 ≠ 0) :
    probed.DividesSafely ↔
      ∀ volume, fatMount probed.device = .ok (some volume) → ∀ path found,
        fatFindFile probed.device volume path = .ok (some found) → ∀ filePointer s,
          0 ∉ readDivisors probed.device volume found.fileInfo filePointer s := by
  have hvolume : ∀ volume, fatMount probed.device = .ok (some volume) →
      volume.bytesPerSector ≠ 0 := by
    intro volume hmount
    rw [(probed.mounted hmount).1]
    exact hsector
  refine ⟨DividesSafely.reading, fun hreading => ⟨mt probed.zero_mem_mountDivisors.mp hsector,
    fun volume hmount => ?_,
    fun volume hmount path => zero_notMem_visits (hvolume volume hmount), hreading⟩⟩
  have hentry := @zero_notMem_visits volume [.fatEntry 0] (hvolume volume hmount)
  simpa [Visit.divisors] using hentry

theorem dividesSafely_of_sectorsPerCluster (hsector : word16 probed.bpb 11 ≠ 0)
    (hcluster : bpbSectorsPerCluster probed.bpb ≠ 0) : probed.DividesSafely := by
  refine (probed.dividesSafely_iff_reading hsector).mpr
    fun volume hmount path found _ filePointer s => ?_
  obtain ⟨hbytes, hsectors⟩ := probed.mounted hmount
  have hword := word16_lt probed.bpb 11
  have hbyte : bpbSectorsPerCluster probed.bpb < 256 := UInt8.toNat_lt _
  have hproduct : bpbSectorsPerCluster probed.bpb * word16 probed.bpb 11 < 2 ^ 32 :=
    Nat.lt_of_lt_of_le (Nat.mul_lt_mul'' hbyte hword) (by norm_num)
  have hne : volume.bytesPerCluster ≠ 0 := by
    rw [FatVolumeInformation.bytesPerCluster, hbytes, hsectors, u32_of_lt hproduct]
    exact Nat.mul_ne_zero hcluster hsector
  rw [readDivisors]
  split
  · exact List.not_mem_nil
  · rw [List.mem_cons, not_or]
    exact ⟨hne.symm, zero_notMem_visits (by rwa [hbytes])⟩

/-- Without sectors in a cluster there is a volume of 12-bit entries. -/
theorem fatMount_of_zero (hsector : word16 probed.bpb 11 ≠ 0)
    (hcluster : bpbSectorsPerCluster probed.bpb = 0) :
    fatMount probed.device = .ok (some probed.sizelessVolume) := by
  rw [probed.fatMount_eq, fatDetermineType_eq_ite, if_neg hsector, if_neg (not_not.mpr hcluster),
    ok_bind]
  rfl

theorem rootDirSectors_sizelessVolume :
    probed.sizelessVolume.rootDirSectors =
      (word16 probed.bpb 17 * 32 + (word16 probed.bpb 11 - 1)) / word16 probed.bpb 11 :=
  fat12Or16Volume_rootDirSectors probed.bpb .fat12

/-- The buffer for the root directory has room for an entry exactly if there are entries. -/
theorem directorySize_sizelessVolume (hsector : word16 probed.bpb 11 ≠ 0) :
    u32 (probed.sizelessVolume.rootDirSectors * probed.sizelessVolume.bytesPerSector) =
        probed.sizelessVolume.rootDirSectors * probed.sizelessVolume.bytesPerSector ∧
      (probed.sizelessVolume.rootDirSectors * probed.sizelessVolume.bytesPerSector / 32 = 0 ↔
        word16 probed.bpb 17 = 0) := by
  have hentries := word16_lt probed.bpb 17
  have hbytes := word16_lt probed.bpb 11
  have hsize : probed.sizelessVolume.bytesPerSector = word16 probed.bpb 11 := rfl
  rw [probed.rootDirSectors_sizelessVolume, hsize]
  have hsplit := Nat.div_add_mod' (word16 probed.bpb 17 * 32 + (word16 probed.bpb 11 - 1))
    (word16 probed.bpb 11)
  have hrest := Nat.mod_lt (word16 probed.bpb 17 * 32 + (word16 probed.bpb 11 - 1))
    (Nat.pos_of_ne_zero hsector)
  by_cases hnone : word16 probed.bpb 17 = 0
  · have hless : word16 probed.bpb 11 - 1 < word16 probed.bpb 11 :=
      Nat.sub_lt (Nat.pos_of_ne_zero hsector) one_pos
    rw [hnone, Nat.zero_mul, Nat.zero_add, Nat.div_eq_of_lt hless, Nat.zero_mul]
    exact ⟨rfl, by simp⟩
  · generalize (word16 probed.bpb 17 * 32 + (word16 probed.bpb 11 - 1)) / word16 probed.bpb 11 *
      word16 probed.bpb 11 = product at hsplit ⊢
    rw [u32_of_lt (by omega)]
    exact ⟨rfl, by omega⟩

/-- Below the root a directory has no bytes, and so no entries. -/
theorem findLoop_below (hcluster : bpbSectorsPerCluster probed.bpb = 0) (remaining start : ℕ)
    (filename : CString) (found : FoundFile) :
    findLoop probed.device probed.sizelessVolume remaining start false filename ≠
      .ok (some found) := by
  intro hopen
  have hsectors : probed.sizelessVolume.sectorsPerCluster = 0 := hcluster
  rw [findLoop] at hopen
  split at hopen
  · cases hopen
  · obtain ⟨contents, hcontents, hsearch⟩ := bind_eq_ok.mp hopen
    cases contents with
    | none => cases hsearch
    | some contents =>
        obtain ⟨directorySize, directoryContents⟩ := contents
        have hempty : directorySize = 0 := by
          rw [fatGetDirectoryContents, if_neg (fun hroot => Bool.false_ne_true hroot.1)]
            at hcontents
          obtain ⟨clusters, -, hcontents⟩ := bind_eq_ok.mp hcontents
          obtain ⟨⟨success, bytes⟩, -, hcontents⟩ := bind_eq_ok.mp hcontents
          dsimp only at hcontents
          rw [hsectors, Nat.mul_zero] at hcontents
          have hzero : u32 (u32 0 * probed.sizelessVolume.bytesPerSector) = 0 := by simp [u32]
          rw [hzero] at hcontents
          split at hcontents
          · cases hcontents
          · split at hcontents
            · exact (Prod.mk.inj (Option.some.inj (Except.ok.inj hcontents))).1.symm
            · cases hcontents
        rw [hempty] at hsearch
        have hnone : fatSearchDirectoryForFile probed.device probed.sizelessVolume
            directoryContents 0 (fsGetFirstElementFromPath filename) = .ok none := rfl
        simp only [hnone, ok_bind] at hsearch
        cases hsearch

theorem listed_iff (hsector : word16 probed.bpb 11 ≠ 0) (cluster : ℕ) :
    (∃ array, fatGetFatChain probed.device probed.sizelessVolume.toFatVolumeInformation cluster =
      .ok array) ↔
        WalkEnds probed.device probed.sizelessVolume.toFatVolumeInformation cluster :=
  fatGetFatChain_returns_iff (Nat.pos_of_ne_zero hsector)

/-- The first directory that is searched is the root area, if it fits its buffer. -/
theorem fatGetDirectoryContents_root_iff (hsector : word16 probed.bpb 11 ≠ 0)
    {directorySize : ℕ} {contents : List UInt8} :
    fatGetDirectoryContents probed.device probed.sizelessVolume 0 true =
        .ok (some (directorySize, contents)) ↔
      probed.device.readSectors probed.sizelessVolume.rootDirSectorStart
          probed.sizelessVolume.rootDirSectors = some contents ∧
        contents.length ≤
          probed.sizelessVolume.rootDirSectors * probed.sizelessVolume.bytesPerSector ∧
        directorySize =
          probed.sizelessVolume.rootDirSectors * probed.sizelessVolume.bytesPerSector := by
  have hkind : true = true ∧ probed.sizelessVolume.fatType ≠ .fat32 :=
    ⟨rfl, fun htype => by cases htype⟩
  rw [fatGetDirectoryContents, if_pos hkind, (probed.directorySize_sizelessVolume hsector).1]
  cases hread : probed.device.readSectors probed.sizelessVolume.rootDirSectorStart
      probed.sizelessVolume.rootDirSectors with
  | none => simp
  | some bytes =>
      dsimp only
      by_cases hlarge : probed.sizelessVolume.rootDirSectors *
          probed.sizelessVolume.bytesPerSector < bytes.length
      · rw [if_pos hlarge]
        refine iff_of_false (fun hfault => by cases hfault) ?_
        rintro ⟨hsame, hfits, -⟩
        obtain rfl := Option.some.inj hsame
        exact absurd hlarge (not_lt.mpr hfits)
      · rw [if_neg hlarge]
        constructor
        · intro hresult
          obtain ⟨rfl, rfl⟩ := Prod.mk.inj (Option.some.inj (Except.ok.inj hresult))
          exact ⟨rfl, not_lt.mp hlarge, rfl⟩
        · rintro ⟨hsame, -, rfl⟩
          obtain rfl := Option.some.inj hsame
          rfl

/-- A file that is opened is one of the root directory. -/
theorem holdsFile_of_open (hsector : word16 probed.bpb 11 ≠ 0)
    (hcluster : bpbSectorsPerCluster probed.bpb = 0) {path : CString} {found : FoundFile}
    (hopen : fatFindFile probed.device probed.sizelessVolume path = .ok (some found))
    (hsize : found.filesize ≠ 0) : ∃ contents stored, probed.HoldsFile path contents stored := by
  obtain ⟨-, hentries⟩ := probed.directorySize_sizelessVolume hsector
  have hcall : fatFindFile probed.device probed.sizelessVolume path =
      findLoop probed.device probed.sizelessVolume (path.countP isSeparator) 0 true path := rfl
  rw [hcall, findLoop] at hopen
  split at hopen
  · cases hopen
  rename_i hlength
  obtain ⟨contents, hcontents, hfind⟩ := bind_eq_ok.mp hopen
  rcases contents with _ | ⟨directorySize, bytes⟩
  · cases hfind
  obtain ⟨hread, hfits, rfl⟩ := (probed.fatGetDirectoryContents_root_iff hsector).mp hcontents
  dsimp only at hfind
  obtain ⟨file, hsearch, hfile⟩ := bind_eq_ok.mp hfind
  cases file with
  | none => cases hfile
  | some file =>
      rcases path_cases path with ⟨hone, -, hfirst⟩ | ⟨hmore, -⟩
      · -- the only component is searched for in the root
        rw [hone] at hfile
        obtain rfl := Option.some.inj (Except.ok.inj hfile)
        rw [fatSearchDirectoryForFile] at hsearch
        split at hsearch
        · cases hsearch
        rename_i hroom
        obtain ⟨stored, hfound, hlist⟩ := bind_eq_ok.mp hsearch
        cases stored with
        | none => cases hlist
        | some stored =>
            obtain ⟨array, harray, hresult⟩ := bind_eq_ok.mp hlist
            obtain rfl := Option.some.inj (Except.ok.inj hresult)
            exact ⟨bytes, stored, hfirst ▸ not_lt.mp hlength, hone,
              fun hnone => hroom (hentries.mpr hnone), hread, hfits,
              hfirst ▸ hfound, (probed.listed_iff hsector _).mp ⟨array, harray⟩, hsize⟩
      · -- below the root nothing is found
        rw [hmore] at hfile
        dsimp only at hfile
        split at hfile
        · cases hfile
        · split at hfile
          · exact absurd hfile (probed.findLoop_below hcluster _ _ _ _)
          · cases hfile

/-- A file of the root directory is opened by its name. -/
theorem HoldsFile.opens {name : CString} {contents : List UInt8} {stored : FatDirEntry}
    (hfile : probed.HoldsFile name contents stored) (hsector : word16 probed.bpb 11 ≠ 0) :
    ∃ array, fatFindFile probed.device probed.sizelessVolume name =
      .ok (some ⟨stored.attributes, stored.size, array⟩) := by
  obtain ⟨-, hentries⟩ := probed.directorySize_sizelessVolume hsector
  obtain ⟨array, harray⟩ := (probed.listed_iff hsector _).mpr hfile.ends
  refine ⟨array, ?_⟩
  have hfirst : fsGetFirstElementFromPath name = name := by
    rcases path_cases name with ⟨_, _, hfirst⟩ | ⟨hmore, _⟩
    · exact hfirst
    · have hone := hfile.one_part
      omega
  have hcall : fatFindFile probed.device probed.sizelessVolume name =
      findLoop probed.device probed.sizelessVolume (name.countP isSeparator) 0 true name := rfl
  have hroot : fatGetDirectoryContents probed.device probed.sizelessVolume 0 true =
      .ok (some (probed.sizelessVolume.rootDirSectors *
        probed.sizelessVolume.bytesPerSector, contents)) :=
    (probed.fatGetDirectoryContents_root_iff hsector).mpr ⟨hfile.read, hfile.fits, rfl⟩
  have hsearch : fatSearchDirectoryForFile probed.device probed.sizelessVolume contents
      (probed.sizelessVolume.rootDirSectors * probed.sizelessVolume.bytesPerSector) name =
        .ok (some ⟨stored.attributes, stored.size, array⟩) := by
    rw [fatSearchDirectoryForFile, if_neg (mt hentries.mp hfile.entries), hfile.found]
    simp only [ok_bind, harray]
  rw [hcall, hfile.one_part, findLoop, hfirst]
  simp only [if_neg (Nat.not_lt.mpr hfile.name_length), hroot, ok_bind, hsearch]

/-- A file that is not empty can be opened exactly if the root directory holds one. -/
theorem opens_iff (hsector : word16 probed.bpb 11 ≠ 0)
    (hcluster : bpbSectorsPerCluster probed.bpb = 0) :
    (∃ path found, fatFindFile probed.device probed.sizelessVolume path = .ok (some found) ∧
        found.filesize ≠ 0) ↔
      ∃ name contents stored, probed.HoldsFile name contents stored := by
  constructor
  · rintro ⟨path, found, hopen, hsize⟩
    exact ⟨path, probed.holdsFile_of_open hsector hcluster hopen hsize⟩
  · rintro ⟨name, contents, stored, hfile⟩
    obtain ⟨array, hopen⟩ := hfile.opens probed hsector
    exact ⟨name, _, hopen, hfile.size⟩

/-- Without sectors in a cluster it is the files with a size that a read divides by zero for. -/
theorem dividesSafely_iff_of_zero (hsector : word16 probed.bpb 11 ≠ 0)
    (hcluster : bpbSectorsPerCluster probed.bpb = 0) :
    probed.DividesSafely ↔ ∀ name contents stored, ¬ probed.HoldsFile name contents stored := by
  have hmounted := probed.fatMount_of_zero hsector hcluster
  have hopens := probed.opens_iff hsector hcluster
  rw [probed.dividesSafely_iff_reading hsector]
  constructor
  · intro hreading name contents stored hfile
    obtain ⟨path, found, hopen, hsize⟩ := hopens.mpr ⟨name, contents, stored, hfile⟩
    have hbytes : probed.sizelessVolume.bytesPerCluster = 0 := by
      rw [FatVolumeInformation.bytesPerCluster, (probed.mounted hmounted).2, hcluster,
        Nat.zero_mul]
      rfl
    refine hreading _ hmounted path found hopen 0 1 ?_
    have hmore : ¬ 0 ≥ found.fileInfo.filesize := fun hend => hsize (Nat.le_zero.mp hend)
    rw [readDivisors, if_neg hmore, hbytes]
    exact List.mem_cons_self
  · intro hnone volume hmount path found hopen filePointer s
    obtain rfl := Option.some.inj (Except.ok.inj (hmounted.symm.trans hmount))
    have hempty : found.filesize = 0 := by
      by_contra hsize
      obtain ⟨name, contents, stored, hfile⟩ := hopens.mp ⟨path, found, hopen, hsize⟩
      exact hnone name contents stored hfile
    have hend : filePointer ≥ found.fileInfo.filesize := hempty.le.trans (Nat.zero_le _)
    rw [readDivisors, if_pos hend]
    exact List.not_mem_nil

/-- The condition: sectors have a size, and so have clusters where a file could be read. -/
def HasSizes : Prop :=
  word16 probed.bpb 11 ≠ 0 ∧ (bpbSectorsPerCluster probed.bpb ≠ 0 ∨
    ∀ name contents stored, ¬ probed.HoldsFile name contents stored)

end ProbedDevice

/-- A sector that holds nothing but `FAT12   `. -/
def sizelessDevice : ProbedDevice where
  device :=
    { bytesPerSector := 512
      content := fun position =>
        if position < 54 then 0 else (filesystemType (0x31, 0x32)).getD (position - 54) 0
      readable := fun _ _ => true }
  bpb := _
  firstSector := rfl
  recognised := by decide +kernel

end GeexOS.Fat
