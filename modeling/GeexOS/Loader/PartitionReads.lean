import GeexOS.Loader.Partitions

/-!
# What is read of a partition

The driver reads the first sector of a volume, the sectors of its table, the
area of the root directory and clusters.  Nothing compares the sectors with the
size of the partition, so they lie in it only if what the volume says of itself
does.
-/

namespace GeexOS.Fat

open GeexOS.Words
open GeexOS.Halting
open GeexOS.Strings

/-- What a read is for. -/
inductive Visit where
  | rootDirectory
  | fatEntry (number : ℕ)
  | dataCluster (number : ℕ)
  deriving DecidableEq, Repr

/-- The sectors around a byte of the table: the first one and how many. -/
def fatSectors (volume : MountedVolume) (fatOffset : ℕ) (straddles : Bool) : ℕ × ℕ :=
  (u32 (volume.activeFatSectorStart + fatOffset / volume.bytesPerSector),
    if straddles && fatOffset % volume.bytesPerSector = volume.bytesPerSector - 1 then 2 else 1)

/-- The first sector and the number of sectors that are asked for. -/
def Visit.request (volume : MountedVolume) : Visit → ℕ × ℕ
  | .rootDirectory => (volume.rootDirSectorStart, volume.rootDirSectors)
  | .fatEntry number =>
      match volume.fatType with
      | .fat12 => fatSectors volume (u32 (number + number / 2)) true
      | .fat16 => fatSectors volume (u32 (number * 2)) false
      | .fat32 => fatSectors volume (u32 (number * 4)) false
  | .dataCluster number => (volume.clusterSector number, volume.sectorsPerCluster)

/-! ## The reads of each function -/

section Visits

variable (device : DiskDevice) (volume : MountedVolume)

/-- The reads of `countLoop`. -/
def countVisits : (fuel startCluster : ℕ) → List Visit
  | 0, _ => []
  | fuel + 1, startCluster =>
      if volume.endOfChain startCluster then []
      else
        .fatEntry startCluster ::
          match fatGetFatEntry device volume.toFatVolumeInformation startCluster with
          | .ok (some next) => countVisits fuel next
          | _ => []

/-- The reads of `chainLoop`. -/
def chainVisits : (remaining startCluster : ℕ) → List Visit
  | 0, _ => []
  | remaining + 1, startCluster =>
      if volume.endOfChain startCluster then []
      else
        .fatEntry startCluster ::
          match fatGetFatEntry device volume.toFatVolumeInformation startCluster with
          | .ok (some next) => chainVisits remaining next
          | _ => []

def getFatChainVisits (startCluster : ℕ) : List Visit :=
  countVisits device volume (2 ^ 32 + 1) startCluster ++
    match fatCountClustersInChain device volume.toFatVolumeInformation startCluster with
    | .ok clusterCount => chainVisits device volume clusterCount startCluster
    | .error _ => []

/-- The reads of `fatReadClusterChain`. -/
def readChainVisits : (maxClusters startCluster : ℕ) → List Visit
  | 0, _ => []
  | maxClusters + 1, startCluster =>
      .dataCluster startCluster ::
        match device.readSectors (volume.clusterSector startCluster) volume.sectorsPerCluster with
        | none => []
        | some _ =>
            .fatEntry startCluster ::
              match fatGetFatEntry device volume.toFatVolumeInformation startCluster with
              | .ok (some next) =>
                  if volume.endOfChain next then [] else readChainVisits maxClusters next
              | _ => []

/-- The reads of `fatGetDirectoryContents`. -/
def directoryVisits (startCluster : ℕ) (rootDirectory : Bool) : List Visit :=
  if rootDirectory = true ∧ volume.fatType ≠ .fat32 then [.rootDirectory]
  else
    let startCluster := if rootDirectory then volume.rootDirStartCluster else startCluster
    countVisits device volume (2 ^ 32 + 1) startCluster ++
      match fatCountClustersInChain device volume.toFatVolumeInformation startCluster with
      | .ok _ => readChainVisits device volume 0xFFFFFFFF startCluster
      | .error _ => []

/-- The reads of `fatSearchDirectoryForFile`. -/
def searchVisits (directoryContents : List UInt8) (directorySize : ℕ) (filename : CString) :
    List Visit :=
  if directorySize / 32 = 0 then []
  else
    match searchLoop filename (directoryEntries directoryContents) noLongName with
    | .ok (some entry) => getFatChainVisits device volume entry.startCluster
    | _ => []

/-- The reads of `findLoop`. -/
def findVisits : (remaining directoryStartCluster : ℕ) → (rootDirectory : Bool) →
    (filename : CString) → List Visit
  | remaining, directoryStartCluster, rootDirectory, filename =>
      let pathPart := fsGetFirstElementFromPath filename
      if 260 < pathPart.length then []
      else
        directoryVisits device volume directoryStartCluster rootDirectory ++
          match fatGetDirectoryContents device volume directoryStartCluster rootDirectory with
          | .ok (some (directorySize, directoryContents)) =>
              searchVisits device volume directoryContents directorySize pathPart ++
                match fatSearchDirectoryForFile device volume directoryContents directorySize
                    pathPart with
                | .ok (some fileinfo) =>
                    match remaining with
                    | 0 => []
                    | remaining + 1 =>
                        if fileinfo.attributes &&& attrDirectory = 0 then []
                        else
                          match fileinfo.fatChain with
                          | some (startCluster :: _) =>
                              findVisits remaining startCluster false (skipPathPart filename)
                          | _ => []
                | _ => []
          | _ => []

def findFileVisits (filename : CString) : List Visit :=
  findVisits device volume (fsGetNumPathParts filename - 1) 0 true filename

/-- The reads of `readTrailing`. -/
def trailingVisits (fi : FatFileInfo) (progress : Progress) : List Visit :=
  if progress.s > 0 then
    match fi.chainEntry (progress.filePointer / volume.bytesPerCluster) with
    | .ok clusterNumber => [.dataCluster clusterNumber]
    | .error _ => []
  else []

/-- The reads of `readFull`. -/
def fullVisits (fi : FatFileInfo) (progress : Progress) : List Visit :=
  let numberOfClusters := progress.s / volume.bytesPerCluster
  if progress.s > 0 ∧ numberOfClusters > 0 then
    match fi.chainEntry (progress.filePointer / volume.bytesPerCluster) with
    | .ok clusterNumber =>
        readChainVisits device volume numberOfClusters clusterNumber ++
          match fatReadClusterChain device volume.toFatVolumeInformation numberOfClusters
              clusterNumber with
          | .ok (true, bytes) => trailingVisits volume fi
              (progress.advance (u32 (numberOfClusters * volume.bytesPerCluster)) bytes)
          | _ => []
    | .error _ => []
  else trailingVisits volume fi progress

/-- The reads of `readLeading`. -/
def leadingVisits (fi : FatFileInfo) (progress : Progress) : List Visit :=
  let offsetInCluster := progress.filePointer % volume.bytesPerCluster
  if offsetInCluster ≠ 0 then
    match fi.chainEntry (progress.filePointer / volume.bytesPerCluster) with
    | .ok clusterNumber =>
        let lengthInCluster :=
          if progress.s > volume.bytesPerCluster - offsetInCluster then
            volume.bytesPerCluster - offsetInCluster
          else progress.s
        .dataCluster clusterNumber ::
          match fatReadPartialCluster device volume.toFatVolumeInformation clusterNumber
              offsetInCluster lengthInCluster with
          | some bytes => fullVisits device volume fi (progress.advance lengthInCluster bytes)
          | none => []
    | .error _ => []
  else fullVisits device volume fi progress

/-- The reads of `readOpen`. -/
def readVisits (fi : FatFileInfo) (filePointer s : ℕ) : List Visit :=
  if filePointer ≥ fi.filesize then []
  else
    let s :=
      if u32 (filePointer + s) > fi.filesize then sub32 fi.filesize filePointer else s
    if volume.bytesPerCluster = 0 then []
    else leadingVisits device volume fi ⟨filePointer, s, 0, []⟩

/-! ## Runs -/

/-- What is done on a mounted partition; the pointer of a file that was opened by a
path may have been moved anywhere before it is read. -/
inductive Operation where
  | openFile (path : CString)
  | readFile (path : CString) (filePointer s : ℕ)

def Operation.visits : Operation → List Visit
  | .openFile path => findFileVisits device volume path
  | .readFile path filePointer s =>
      match fatFindFile device volume path with
      | .ok (some ⟨_, filesize, some fatChain⟩) =>
          readVisits device volume ⟨filesize, fatChain⟩ filePointer s
      | _ => []

end Visits

/-- The reads of a partition that is mounted and worked with. -/
def runRequests (device : DiskDevice) (operations : List Operation) : List (ℕ × ℕ) :=
  (0, 1) ::
    match fatMount device with
    | .ok (some volume) =>
        (operations.flatMap (Operation.visits device volume)).map (Visit.request volume)
    | _ => []

def Partition.sectors (partition : Partition) : ℕ := partition.endLBA + 1 - partition.startLBA

/-- The sectors that the disk is asked for lie in the partition. -/
def Partition.Holds (partition : Partition) (request : ℕ × ℕ) : Prop :=
  ∀ k < request.2, partition.startLBA ≤ partition.parentSector request.1 + k ∧
    partition.parentSector request.1 + k ≤ partition.endLBA

/-- No read of the run leaves the partition. -/
def StaysInside (disk : Disk) (partition : Partition) (operations : List Operation) : Prop :=
  ∀ request ∈ runRequests (partitionDevice disk partition) operations, partition.Holds request

/-! ## What a volume has to say of itself -/

/-- The table in use, the root directory and so many clusters lie in so many sectors. -/
structure LayoutFits (volume : MountedVolume) (sectors clusters : ℕ) : Prop where
  table : volume.activeFatSectorStart + volume.sectorsPerFat ≤ sectors
  root : volume.rootDirSectorStart + volume.rootDirSectors ≤ sectors
  data : volume.dataSectorStart + clusters * volume.sectorsPerCluster ≤ sectors
  numbers : clusters + 2 ≤ 2 ^ 32

/-- The byte of the table behind the entry of a cluster. -/
def entryEnd (fatType : FatType) (number : ℕ) : ℕ :=
  match fatType with
  | .fat12 => number + number / 2 + 2
  | .fat16 => number * 2 + 2
  | .fat32 => number * 4 + 4

/-- The table has an entry of that number, the volume a cluster. -/
def Visit.Valid (volume : MountedVolume) (clusters : ℕ) : Visit → Prop
  | .rootDirectory => True
  | .fatEntry number =>
      entryEnd volume.fatType number ≤ volume.sectorsPerFat * volume.bytesPerSector
  | .dataCluster number => 2 ≤ number ∧ number < clusters + 2

instance (volume : MountedVolume) (clusters : ℕ) (visit : Visit) :
    Decidable (visit.Valid volume clusters) := by
  cases visit <;> unfold Visit.Valid <;> infer_instance

variable {device device' : DiskDevice} {volume : MountedVolume} {disk : Disk}
variable {partition : Partition} {sectors clusters number fatOffset : ℕ} {visit : Visit}

/-! ## Each read -/

theorem fatSectors_inside {straddles : Bool} {width : ℕ}
    (hlayout : LayoutFits volume sectors clusters)
    (hsectors : sectors ≤ 2 ^ 32) (hpos : 0 < volume.bytesPerSector)
    (hend : fatOffset + width ≤ volume.sectorsPerFat * volume.bytesPerSector) (hwidth : 0 < width)
    (hstraddles : straddles = true → 2 ≤ width) :
    (fatSectors volume (u32 fatOffset) straddles).1 +
      (fatSectors volume (u32 fatOffset) straddles).2 ≤ sectors := by
  have htable := hlayout.table
  have hwrap : u32 fatOffset ≤ fatOffset := Nat.mod_le _ _
  have hdiv : u32 fatOffset / volume.bytesPerSector < volume.sectorsPerFat := by
    rw [Nat.div_lt_iff_lt_mul hpos]
    omega
  rw [fatSectors, u32_of_lt (by omega)]
  dsimp only
  split
  · rename_i hboth
    rw [Bool.and_eq_true, decide_eq_true_iff] at hboth
    have hsplit := Nat.div_add_mod' (u32 fatOffset) volume.bytesPerSector
    have htwo := hstraddles hboth.1
    have hnext : u32 fatOffset / volume.bytesPerSector + 1 < volume.sectorsPerFat := by
      refine @Nat.lt_of_mul_lt_mul_right volume.bytesPerSector _ _ ?_
      rw [Nat.add_mul, Nat.one_mul]
      omega
    omega
  · omega

theorem Visit.request_inside (hlayout : LayoutFits volume sectors clusters)
    (hsectors : sectors ≤ 2 ^ 32) (hpos : 0 < volume.bytesPerSector)
    (hvalid : visit.Valid volume clusters) :
    (visit.request volume).1 + (visit.request volume).2 ≤ sectors ∨
      (visit.request volume).2 = 0 := by
  cases visit with
  | rootDirectory => exact Or.inl hlayout.root
  | fatEntry number =>
      rw [Visit.Valid] at hvalid
      left
      rw [Visit.request]
      cases htype : volume.fatType with
      | fat12 =>
          rw [htype] at hvalid
          exact fatSectors_inside hlayout hsectors hpos hvalid (by decide) fun _ => le_rfl
      | fat16 =>
          rw [htype] at hvalid
          exact fatSectors_inside hlayout hsectors hpos hvalid (by decide) fun h => by cases h
      | fat32 =>
          rw [htype] at hvalid
          exact fatSectors_inside hlayout hsectors hpos hvalid (by decide) fun h => by cases h
  | dataCluster number =>
      obtain ⟨htwo, hlt⟩ := hvalid
      have hdata := hlayout.data
      have hnumbers := hlayout.numbers
      rcases Nat.eq_zero_or_pos volume.sectorsPerCluster with hzero | hspc
      · exact Or.inr hzero
      left
      have hlast : (number - 2) * volume.sectorsPerCluster + volume.sectorsPerCluster ≤
          clusters * volume.sectorsPerCluster := by
        rw [← Nat.succ_mul]
        exact Nat.mul_le_mul_right _ (by omega)
      rw [Visit.request, FatVolumeInformation.clusterSector, sub32_of_le (by omega) htwo]
      dsimp only
      rw [u32_of_lt (show (number - 2) * volume.sectorsPerCluster < 2 ^ 32 by omega),
        u32_of_lt (by omega)]
      omega

/-- What lies in the partition for its own numbering does so for the disk's. -/
theorem Partition.holds_of_le {request : ℕ × ℕ} (hnonempty : partition.startLBA ≤ partition.endLBA)
    (hend : partition.endLBA < 2 ^ 32)
    (hinside : request.1 + request.2 ≤ partition.sectors ∨ request.2 = 0) :
    partition.Holds request := by
  intro k hk
  rcases hinside with hle | hzero
  · rw [Partition.sectors] at hle
    rw [Partition.parentSector, u64_of_lt (by omega)]
    omega
  · omega

/-! ## Nothing else is read -/

/-- Both devices answer the reads alike. -/
def Agree (device device' : DiskDevice) (volume : MountedVolume) (visits : List Visit) : Prop :=
  ∀ visit ∈ visits, device.readSectors (visit.request volume).1 (visit.request volume).2 =
    device'.readSectors (visit.request volume).1 (visit.request volume).2

section Agreement

variable {startCluster : ℕ} {rootDirectory : Bool} {filename : CString}

theorem fatGetFatEntry_congr
    (hagree : Agree device device' volume [.fatEntry number]) :
    fatGetFatEntry device volume.toFatVolumeInformation number =
      fatGetFatEntry device' volume.toFatVolumeInformation number := by
  have hread := hagree _ List.mem_cons_self
  rw [Visit.request] at hread
  have hsectors : ∀ fatOffset straddles,
      device.readSectors (fatSectors volume fatOffset straddles).1
          (fatSectors volume fatOffset straddles).2 =
        device'.readSectors (fatSectors volume fatOffset straddles).1
          (fatSectors volume fatOffset straddles).2 →
      readFatSectors device volume.toFatVolumeInformation fatOffset straddles =
        readFatSectors device' volume.toFatVolumeInformation fatOffset straddles := by
    intro fatOffset straddles hsame
    rw [readFatSectors, readFatSectors]
    split
    · rfl
    · rw [fatSectors] at hsame
      simp only [hsame]
  rw [fatGetFatEntry, fatGetFatEntry]
  cases htype : volume.fatType with
  | fat12 =>
      rw [htype] at hread
      simp only [hsectors _ _ hread]
  | fat16 =>
      rw [htype] at hread
      simp only [hsectors _ _ hread]
  | fat32 =>
      rw [htype] at hread
      simp only [hsectors _ _ hread]

theorem Agree.first {visits : List Visit} (hagree : Agree device device' volume (visit :: visits)) :
    Agree device device' volume [visit] :=
  fun _ hmem => hagree _ (List.mem_singleton.mp hmem ▸ List.mem_cons_self)

theorem Agree.rest {visits : List Visit} (hagree : Agree device device' volume (visit :: visits)) :
    Agree device device' volume visits :=
  fun _ hmem => hagree _ (List.mem_cons_of_mem _ hmem)

theorem agree_append {front back : List Visit} :
    Agree device device' volume (front ++ back) ↔
      Agree device device' volume front ∧ Agree device device' volume back :=
  List.forall_mem_append

theorem countLoop_congr {fuel i : ℕ}
    (hagree : Agree device device' volume (countVisits device volume fuel startCluster)) :
    countLoop device volume.toFatVolumeInformation fuel i startCluster =
      countLoop device' volume.toFatVolumeInformation fuel i startCluster := by
  induction fuel generalizing i startCluster with
  | zero => rfl
  | succ fuel ih =>
      rw [countVisits] at hagree
      rw [countLoop, countLoop]
      split
      · rfl
      · rename_i hend
        rw [if_neg hend] at hagree
        rw [← fatGetFatEntry_congr hagree.first]
        cases hentry : fatGetFatEntry device volume.toFatVolumeInformation startCluster with
        | error halt => simp only [error_bind]
        | ok entry =>
            cases entry with
            | none => rfl
            | some next =>
                rw [hentry] at hagree
                exact ih hagree.rest

theorem chainLoop_congr {remaining : ℕ}
    (hagree : Agree device device' volume (chainVisits device volume remaining startCluster)) :
    chainLoop device volume.toFatVolumeInformation remaining startCluster =
      chainLoop device' volume.toFatVolumeInformation remaining startCluster := by
  induction remaining generalizing startCluster with
  | zero => rfl
  | succ remaining ih =>
      rw [chainVisits] at hagree
      rw [chainLoop, chainLoop]
      split
      · rfl
      · rename_i hend
        rw [if_neg hend] at hagree
        rw [← fatGetFatEntry_congr hagree.first]
        cases hentry : fatGetFatEntry device volume.toFatVolumeInformation startCluster with
        | error halt => simp only [error_bind]
        | ok entry =>
            cases entry with
            | none => rfl
            | some next =>
                rw [hentry] at hagree
                simp only [ok_bind, ih hagree.rest]

theorem fatGetFatChain_congr
    (hagree : Agree device device' volume (getFatChainVisits device volume startCluster)) :
    fatGetFatChain device volume.toFatVolumeInformation startCluster =
      fatGetFatChain device' volume.toFatVolumeInformation startCluster := by
  obtain ⟨hcount, hchain⟩ := agree_append.mp hagree
  rw [fatGetFatChain, fatGetFatChain, fatCountClustersInChain, fatCountClustersInChain,
    ← countLoop_congr hcount]
  cases hresult : countLoop device volume.toFatVolumeInformation (2 ^ 32 + 1) 0 startCluster with
  | error halt => simp only [error_bind]
  | ok clusterCount =>
      rw [fatCountClustersInChain, hresult] at hchain
      exact chainLoop_congr hchain

theorem fatReadClusterChain_congr {maxClusters : ℕ}
    (hagree : Agree device device' volume
      (readChainVisits device volume maxClusters startCluster)) :
    fatReadClusterChain device volume.toFatVolumeInformation maxClusters startCluster =
      fatReadClusterChain device' volume.toFatVolumeInformation maxClusters startCluster := by
  induction maxClusters generalizing startCluster with
  | zero => rfl
  | succ maxClusters ih =>
      rw [readChainVisits] at hagree
      have hread := hagree _ List.mem_cons_self
      rw [Visit.request] at hread
      rw [fatReadClusterChain, fatReadClusterChain, ← hread]
      cases htmpbuf : device.readSectors (volume.clusterSector startCluster)
          volume.sectorsPerCluster with
      | none => rfl
      | some tmpbuf =>
          rw [htmpbuf] at hagree
          have hrest := hagree.rest
          dsimp only at hrest ⊢
          rw [← fatGetFatEntry_congr hrest.first]
          cases hentry : fatGetFatEntry device volume.toFatVolumeInformation startCluster with
          | error halt => simp only [error_bind]
          | ok entry =>
              cases entry with
              | none => rfl
              | some next =>
                  rw [hentry] at hrest
                  simp only [ok_bind]
                  split
                  · rfl
                  · rename_i hend
                    have hafter := hrest.rest
                    simp only [hend, Bool.false_eq_true, if_false] at hafter
                    rw [ih hafter]

theorem fatGetDirectoryContents_congr
    (hagree : Agree device device' volume
      (directoryVisits device volume startCluster rootDirectory)) :
    fatGetDirectoryContents device volume startCluster rootDirectory =
      fatGetDirectoryContents device' volume startCluster rootDirectory := by
  rw [directoryVisits] at hagree
  rw [fatGetDirectoryContents, fatGetDirectoryContents]
  split
  · rename_i hroot
    rw [if_pos hroot] at hagree
    have hread := hagree _ List.mem_cons_self
    rw [Visit.request] at hread
    simp only [hread]
  · rename_i hchain
    rw [if_neg hchain] at hagree
    obtain ⟨hcount, hread⟩ := agree_append.mp hagree
    dsimp only at hcount hread ⊢
    rw [fatCountClustersInChain, fatCountClustersInChain, ← countLoop_congr hcount]
    cases hresult : countLoop device volume.toFatVolumeInformation (2 ^ 32 + 1) 0
        (if rootDirectory then volume.rootDirStartCluster else startCluster) with
    | error halt => simp only [error_bind]
    | ok clusters =>
        rw [fatCountClustersInChain, hresult] at hread
        rw [← fatReadClusterChain_congr hread]

theorem fatSearchDirectoryForFile_congr {directoryContents : List UInt8} {directorySize : ℕ}
    (hagree : Agree device device' volume
      (searchVisits device volume directoryContents directorySize filename)) :
    fatSearchDirectoryForFile device volume directoryContents directorySize filename =
      fatSearchDirectoryForFile device' volume directoryContents directorySize filename := by
  rw [searchVisits] at hagree
  rw [fatSearchDirectoryForFile, fatSearchDirectoryForFile]
  split
  · rfl
  · rename_i hsize
    rw [if_neg hsize] at hagree
    cases hsearch : searchLoop filename (directoryEntries directoryContents) noLongName with
    | error halt => simp only [error_bind]
    | ok found =>
        cases found with
        | none => rfl
        | some entry =>
            rw [hsearch] at hagree
            simp only [ok_bind, fatGetFatChain_congr hagree]

theorem findLoop_congr {remaining : ℕ}
    (hagree : Agree device device' volume
      (findVisits device volume remaining startCluster rootDirectory filename)) :
    findLoop device volume remaining startCluster rootDirectory filename =
      findLoop device' volume remaining startCluster rootDirectory filename := by
  induction remaining using Nat.strong_induction_on
    generalizing startCluster rootDirectory filename with
  | _ remaining ih =>
  rw [findVisits.eq_def] at hagree
  rw [findLoop.eq_def, findLoop.eq_def]
  dsimp only at hagree ⊢
  split
  · rfl
  · rename_i hshort
    rw [if_neg hshort] at hagree
    obtain ⟨hdirectory, hrest⟩ := agree_append.mp hagree
    rw [← fatGetDirectoryContents_congr hdirectory]
    cases hcontents : fatGetDirectoryContents device volume startCluster rootDirectory with
    | error halt => simp only [error_bind]
    | ok directory =>
        rcases directory with _ | ⟨directorySize, directoryContents⟩
        · simp only [ok_bind]
        · rw [hcontents] at hrest
          obtain ⟨hsearch, hdown⟩ := agree_append.mp hrest
          simp only [ok_bind]
          rw [← fatSearchDirectoryForFile_congr hsearch]
          cases hresult : fatSearchDirectoryForFile device volume directoryContents
              directorySize (fsGetFirstElementFromPath filename) with
          | error halt => simp only [error_bind]
          | ok found =>
              rcases found with _ | ⟨attributes, filesize, fatChain⟩
              · simp only [ok_bind]
              · rw [hresult] at hdown
                cases remaining with
                | zero => simp only [ok_bind]
                | succ remaining =>
                    simp only [ok_bind]
                    split
                    · rfl
                    · rename_i hkind
                      simp only [hkind, if_false] at hdown
                      rcases fatChain with _ | _ | ⟨cluster, rest⟩
                      · rfl
                      · rfl
                      · exact ih remaining (Nat.lt_succ_self _) hdown

/-- Opening a file depends on what is read of the partition only. -/
theorem fatFindFile_congr
    (hagree : Agree device device' volume (findFileVisits device volume filename)) :
    fatFindFile device volume filename = fatFindFile device' volume filename :=
  findLoop_congr hagree

theorem fatReadPartialCluster_congr {offset length : ℕ}
    (hagree : Agree device device' volume [.dataCluster number]) :
    fatReadPartialCluster device volume.toFatVolumeInformation number offset length =
      fatReadPartialCluster device' volume.toFatVolumeInformation number offset length := by
  have hread := hagree _ List.mem_cons_self
  rw [Visit.request] at hread
  rw [fatReadPartialCluster, fatReadPartialCluster, hread]

theorem readTrailing_congr {fi : FatFileInfo} {progress : Progress}
    (hagree : Agree device device' volume (trailingVisits volume fi progress)) :
    readTrailing device volume.toFatVolumeInformation fi progress =
      readTrailing device' volume.toFatVolumeInformation fi progress := by
  rw [trailingVisits] at hagree
  rw [readTrailing, readTrailing]
  split
  · rename_i hmore
    rw [if_pos hmore] at hagree
    cases hentry : fi.chainEntry (progress.filePointer / volume.bytesPerCluster) with
    | error halt => simp only [error_bind]
    | ok clusterNumber =>
        rw [hentry] at hagree
        simp only [ok_bind, fatReadPartialCluster_congr hagree]
  · rfl

theorem readFull_congr {fi : FatFileInfo} {progress : Progress}
    (hagree : Agree device device' volume (fullVisits device volume fi progress)) :
    readFull device volume.toFatVolumeInformation fi progress =
      readFull device' volume.toFatVolumeInformation fi progress := by
  rw [fullVisits] at hagree
  rw [readFull, readFull]
  dsimp only at hagree ⊢
  split
  · rename_i hmore
    rw [if_pos hmore] at hagree
    cases hentry : fi.chainEntry (progress.filePointer / volume.bytesPerCluster) with
    | error halt => simp only [error_bind]
    | ok clusterNumber =>
        rw [hentry] at hagree
        obtain ⟨hclusters, htrailing⟩ := agree_append.mp hagree
        simp only [ok_bind]
        rw [← fatReadClusterChain_congr hclusters]
        cases hread : fatReadClusterChain device volume.toFatVolumeInformation
            (progress.s / volume.bytesPerCluster) clusterNumber with
        | error halt => simp only [error_bind]
        | ok result =>
            obtain ⟨success, bytes⟩ := result
            rw [hread] at htrailing
            cases success with
            | false => rfl
            | true =>
                simp only [ok_bind, if_true]
                exact readTrailing_congr htrailing
  · rename_i hdone
    rw [if_neg hdone] at hagree
    exact readTrailing_congr hagree

theorem readLeading_congr {fi : FatFileInfo} {progress : Progress}
    (hagree : Agree device device' volume (leadingVisits device volume fi progress)) :
    readLeading device volume.toFatVolumeInformation fi progress =
      readLeading device' volume.toFatVolumeInformation fi progress := by
  rw [leadingVisits] at hagree
  rw [readLeading, readLeading]
  dsimp only at hagree ⊢
  split
  · rename_i hinside
    rw [if_pos hinside] at hagree
    cases hentry : fi.chainEntry (progress.filePointer / volume.bytesPerCluster) with
    | error halt => simp only [error_bind]
    | ok clusterNumber =>
        rw [hentry] at hagree
        simp only [ok_bind]
        rw [← fatReadPartialCluster_congr hagree.first]
        cases hread : fatReadPartialCluster device volume.toFatVolumeInformation clusterNumber
            (progress.filePointer % volume.bytesPerCluster)
            (if progress.s > volume.bytesPerCluster -
                progress.filePointer % volume.bytesPerCluster then
              volume.bytesPerCluster - progress.filePointer % volume.bytesPerCluster
            else progress.s) with
        | none => rfl
        | some bytes =>
            have hfull := hagree.rest
            simp only [hread] at hfull
            exact readFull_congr hfull
  · rename_i hboundary
    rw [if_neg hboundary] at hagree
    exact readFull_congr hagree

/-- So does reading one. -/
theorem readOpen_congr {fi : FatFileInfo} {filePointer s : ℕ}
    (hagree : Agree device device' volume (readVisits device volume fi filePointer s)) :
    readOpen device volume.toFatVolumeInformation fi filePointer s =
      readOpen device' volume.toFatVolumeInformation fi filePointer s := by
  rw [readVisits] at hagree
  rw [readOpen, readOpen]
  dsimp only at hagree ⊢
  split
  · rfl
  · rename_i hbefore
    rw [if_neg hbefore] at hagree
    by_cases hzero : volume.bytesPerCluster = 0
    · rw [if_pos hzero, if_pos hzero]
    · rw [if_neg hzero] at hagree ⊢
      rw [if_neg hzero]
      exact readLeading_congr hagree

end Agreement

/-! ## Staying in the partition -/

theorem endLBA_lt {partitions : List Partition}
    (hdetect : mbrDetectPartitions disk = some partitions)
    (hmem : partition ∈ partitions) : partition.endLBA < 2 ^ 32 := by
  rw [mbrDetectPartitions] at hdetect
  split at hdetect
  · split at hdetect
    · rw [← Option.some.inj hdetect, List.mem_filterMap] at hmem
      obtain ⟨i, _, hpartition⟩ := hmem
      dsimp only at hpartition
      split at hpartition
      · cases hpartition
      · split at hpartition
        · cases hpartition
        · rw [← Option.some.inj hpartition]
          exact sub32_lt _ _
    · cases hdetect
  · cases hdetect

theorem bytesPerSector_pos (hmount : fatMount device = .ok (some volume)) :
    0 < volume.bytesPerSector := by
  rw [fatMount] at hmount
  split at hmount
  · cases hmount
  · rename_i bpb _
    split at hmount
    · cases hmount
    · obtain ⟨fatType, htype, hmount⟩ := bind_eq_ok.mp hmount
      have hpos : 0 < word16 bpb 11 := by
        rw [fatDetermineType] at htype
        dsimp only at htype
        split at htype
        · cases htype
        · omega
      cases fatType <;>
        · obtain rfl := Option.some.inj (Except.ok.inj hmount)
          exact hpos

/-- What a mounted volume says of itself, and the numbers met on the way. -/
structure Sound (device : DiskDevice) (operations : List Operation) (sectors clusters : ℕ)
    (volume : MountedVolume) : Prop where
  layout : LayoutFits volume sectors clusters
  valid : ∀ operation ∈ operations, ∀ visit ∈ operation.visits device volume,
    visit.Valid volume clusters

deriving instance DecidableEq for FatVolumeInformation, MountedVolume

/-- The partition starts with sector 1 and has `low + 256 * high` sectors. -/
def tableByte (low high : UInt8) : ℕ → UInt8
  | 450 => 0x06
  | 454 => 1
  | 458 => low
  | 459 => high
  | 510 => 0x55
  | 511 => 0xAA
  | _ => 0

/-- A volume of 600 sectors: one sector of table, 16 entries in the root. -/
def bootSectorByte : ℕ → UInt8
  | 12 => 0x02
  | 13 => 1
  | 14 => 1
  | 16 => 1
  | 17 => 16
  | 19 => 0x58
  | 20 => 0x02
  | 22 => 1
  | 54 => 0x46
  | 55 => 0x41
  | 56 => 0x54
  | 57 => 0x31
  | 58 => 0x32
  | 59 => space
  | 60 => space
  | 61 => space
  | _ => 0

/-- The file `F` of ten bytes in cluster 2. -/
def fileEntryByte : ℕ → UInt8
  | 0 => 0x46
  | 26 => 2
  | 28 => 10
  | offset => if offset < 11 then space else 0

def fileDisk (low high : UInt8) : Disk where
  bytesPerSector := 512
  content := fun position =>
    match position / 512 with
    | 0 => tableByte low high position
    | 1 => bootSectorByte (position % 512)
    | 2 => [0xF8, 0xFF, 0xFF, 0xFF, 0x0F].getD (position % 512) 0
    | 3 => fileEntryByte (position % 512)
    | _ => 0
  readable := fun startSector sectorCount => startSector + sectorCount ≤ 1000
  totalLBASectors := some 1000

def fileVolume : MountedVolume where
  bytesPerSector := 512
  sectorsPerCluster := 1
  activeFatSectorStart := 1
  dataSectorStart := 3
  fatType := .fat12
  fatSectorStart := 1
  numberOfFats := 1
  sectorsPerFat := 1
  rootDirSectorStart := 2
  rootDirSectors := 1
  rootDirStartCluster := 0

def fileOperations : List Operation := [.openFile [0x46], .readFile [0x46] 0 10]

end GeexOS.Fat
