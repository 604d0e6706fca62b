import GeexOS.Loader.FatFile

/-!
# A single read of a file

The naive reading of a file puts the contents of its clusters one behind the
other and takes a part of them.  A read finds each part on its own: inside the
first cluster, along the table on the disk, and inside the last cluster.
-/

namespace GeexOS.Fat

open GeexOS.Words
open GeexOS.Halting

variable {device : DiskDevice} {volume : FatVolumeInformation} {fi : FatFileInfo}

/-- What `fat_mount` has read into fields of 8 and 16 bits, on a device that does
not fail. -/
structure SoundVolume (device : DiskDevice) (volume : FatVolumeInformation) : Prop where
  sector_eq : device.bytesPerSector = volume.bytesPerSector
  sectorsPerCluster_lt : volume.sectorsPerCluster < 2 ^ 8
  bytesPerSector_lt : volume.bytesPerSector < 2 ^ 16
  readable : ∀ startSector sectorCount, device.readable startSector sectorCount = true

/-- The clusters listed are those that the table leads to, and there are as many
as the size takes. -/
structure ListedFile (device : DiskDevice) (volume : FatVolumeInformation)
    (fi : FatFileInfo) (startCluster : ℕ) : Prop where
  filesize_lt : fi.filesize < 2 ^ 32
  chain : ClusterChain device volume startCluster fi.fatChain
  enough : (fi.filesize + volume.bytesPerCluster - 1) / volume.bytesPerCluster ≤
    fi.fatChain.length

/-- The bytes of the sectors of a cluster. -/
def clusterContents (device : DiskDevice) (volume : FatVolumeInformation) (cluster : ℕ) :
    List UInt8 :=
  (List.range (volume.sectorsPerCluster * volume.bytesPerSector)).map fun offset =>
    device.content (volume.clusterSector cluster * volume.bytesPerSector + offset)

/-- The contents of the clusters from `start` on. -/
def naiveRead (device : DiskDevice) (volume : FatVolumeInformation) (fi : FatFileInfo)
    (start length : ℕ) : List UInt8 :=
  ((fi.fatChain.flatMap (clusterContents device volume)).drop start).take length

/-- The byte at a position of the contents. -/
def contentsByte (device : DiskDevice) (volume : FatVolumeInformation) (chain : List ℕ)
    (position : ℕ) : UInt8 :=
  device.content (volume.clusterSector (chain.getD (position / volume.clusterSize) 0) *
    volume.bytesPerSector + position % volume.clusterSize)

theorem clusterContents_eq {chain : List ℕ} {index cluster : ℕ}
    (hcluster : chain[index]? = some cluster) :
    clusterContents device volume cluster =
      bytesFrom (contentsByte device volume chain) (index * volume.clusterSize)
        volume.clusterSize := by
  refine List.map_congr_left fun offset hoffset => ?_
  have hlow : offset < volume.clusterSize := List.mem_range.mp hoffset
  obtain ⟨hdiv, hmod⟩ := block_div_mod index hlow
  rw [contentsByte, hdiv, hmod, List.getD_eq_getElem?_getD, hcluster, Option.getD_some]

/-- The clusters behind the first ones hold the bytes behind those. -/
theorem flatMap_clusterContents (front back : List ℕ) :
    back.flatMap (clusterContents device volume) =
      bytesFrom (contentsByte device volume (front ++ back)) (front.length * volume.clusterSize)
        (back.length * volume.clusterSize) := by
  induction back generalizing front with
  | nil => simp
  | cons cluster rest ih =>
      have hcluster : (front ++ cluster :: rest)[front.length]? = some cluster := by simp
      have hrest := ih (front ++ [cluster])
      rw [List.append_assoc, List.singleton_append, List.length_append, List.length_singleton,
        Nat.add_mul, Nat.one_mul] at hrest
      rw [List.flatMap_cons, List.length_cons, Nat.add_mul, Nat.one_mul,
        Nat.add_comm _ volume.clusterSize, bytesFrom_add, clusterContents_eq hcluster, hrest]

theorem naiveRead_eq {start length : ℕ}
    (hend : start + length ≤ fi.fatChain.length * volume.clusterSize) :
    naiveRead device volume fi start length =
      bytesFrom (contentsByte device volume fi.fatChain) start length := by
  have hall : fi.fatChain.flatMap (clusterContents device volume) = _ :=
    flatMap_clusterContents [] fi.fatChain
  rw [naiveRead, hall, List.length_nil, Nat.zero_mul, List.nil_append, take_drop_bytesFrom hend,
    Nat.zero_add]

namespace SoundVolume

theorem bytesPerCluster_eq (hvolume : SoundVolume device volume) :
    volume.bytesPerCluster = volume.clusterSize := by
  have hproduct := Nat.mul_lt_mul'' hvolume.sectorsPerCluster_lt hvolume.bytesPerSector_lt
  exact u32_of_lt (hproduct.trans (by decide))

theorem delivers (hvolume : SoundVolume device volume) {startCluster : ℕ}
    (hfile : ListedFile device volume fi startCluster) (hpos : 0 < volume.bytesPerCluster) :
    FileDelivers device volume fi (contentsByte device volume fi.fatChain) where
  bytesPerCluster_eq := hvolume.bytesPerCluster_eq
  clusterSize_pos := hvolume.bytesPerCluster_eq ▸ hpos
  filesize_lt := hfile.filesize_lt
  covers := by
    have henough := hfile.enough
    rw [Nat.div_le_iff_le_mul_add_pred hpos, hvolume.bytesPerCluster_eq, Nat.mul_comm] at henough
    rw [hvolume.bytesPerCluster_eq] at hpos
    omega
  sectors := fun index cluster _ hcluster => by
    rw [DiskDevice.readSectors, if_pos (hvolume.readable _ _), hvolume.sector_eq,
      ← clusterContents_eq hcluster]
    rfl
  entry := fun _ _ hcluster => hfile.chain.entry hcluster

end SoundVolume

/-- A read returns the bytes from the pointer on that a naive reading finds. -/
theorem fatRead_eq_naiveRead {startCluster filePointer s : ℕ} (hvolume : SoundVolume device volume)
    (hpos : 0 < volume.bytesPerCluster) (hfile : ListedFile device volume fi startCluster)
    (hpointer : filePointer ≤ fi.filesize) (hwrap : filePointer + s < 2 ^ 32) :
    ∃ after, fatRead (openedFile device volume fi filePointer) s =
        .ok (min s (fi.filesize - filePointer),
          naiveRead device volume fi filePointer (min s (fi.filesize - filePointer)), after) ∧
      (naiveRead device volume fi filePointer (min s (fi.filesize - filePointer))).length =
        min s (fi.filesize - filePointer) := by
  have hdelivers := hvolume.delivers hfile hpos
  have hend : filePointer + min s (fi.filesize - filePointer) ≤
      fi.fatChain.length * volume.clusterSize := by
    have hcovers := hdelivers.covers
    omega
  rw [naiveRead_eq hend]
  exact ⟨_, hdelivers.fatRead_eq hpointer hwrap, length_bytesFrom _ _⟩

/-- Seven of the ten bytes in a cluster. -/
theorem fatRead_eq_naiveRead_sevenBytes :
    ∃ after, fatRead (openedFile blankDevice blankVolume (oneCluster 10) 3) 20 =
        .ok (7, naiveRead blankDevice blankVolume (oneCluster 10) 3 7, after) ∧
      (naiveRead blankDevice blankVolume (oneCluster 10) 3 7).length = 7 :=
  fatRead_eq_naiveRead ⟨rfl, by decide, by decide, fun _ _ => rfl⟩ (by decide)
    ⟨by decide, .cons rfl fatGetFatEntry_blank .nil, by decide⟩ (by decide) (by decide)

end GeexOS.Fat
