import GeexOS.Loader.Fat
import Mathlib.Data.List.Range
import Mathlib.Tactic.Ring
import Mathlib.Tactic.NormNum

/-!
# Reading a file of a FAT volume

The clusters of an open file hold its bytes one after the other.  A read
delivers the bytes at the file pointer, but where it ends with a part of a
cluster that it began at the cluster's start, the pointer stays behind.
-/

namespace GeexOS.Fat

open GeexOS.Words
open GeexOS.Halting

variable {device : DiskDevice} {volume : FatVolumeInformation} {fi : FatFileInfo}

/-! ## Chains -/

/-- The clusters met from `cluster` on, as many as the list has, none of which
is an end mark. -/
inductive ClusterChain (device : DiskDevice) (volume : FatVolumeInformation) :
    ℕ → List ℕ → Prop
  | nil {cluster : ℕ} : ClusterChain device volume cluster []
  | cons {cluster next : ℕ} {rest : List ℕ}
      (hend : volume.endOfChain cluster = false)
      (hentry : fatGetFatEntry device volume cluster = .ok (some next))
      (hrest : ClusterChain device volume next rest) :
      ClusterChain device volume cluster (cluster :: rest)

/-- What the counting loop has seen. -/
theorem countLoop_eq_ok {fuel i startCluster count : ℕ}
    (hcount : countLoop device volume fuel i startCluster = .ok count) :
    count = 0 ∨ ∃ chain, ClusterChain device volume startCluster chain ∧
      count = if chain = [] then i else u32 (i + chain.length) := by
  induction fuel generalizing i startCluster with
  | zero => simp [countLoop] at hcount
  | succ fuel ih =>
      rw [countLoop] at hcount
      split at hcount
      · right
        refine ⟨[], .nil, ?_⟩
        rw [if_pos rfl]
        exact (Except.ok.inj hcount).symm
      · rename_i hend
        obtain ⟨entry, hentry, hcount⟩ := bind_eq_ok.mp hcount
        cases entry with
        | none => exact Or.inl (Except.ok.inj hcount).symm
        | some next =>
            rcases ih hcount with hzero | ⟨chain, hchain, hlength⟩
            · exact Or.inl hzero
            right
            refine ⟨startCluster :: chain, .cons (by simpa using hend) hentry hchain, ?_⟩
            rw [if_neg (List.cons_ne_nil _ _), hlength]
            split
            · rename_i hnil
              simp [hnil]
            · simp only [u32, List.length_cons]
              omega

theorem countLoop_step {fuel i cluster next : ℕ} (hfuel : 0 < fuel)
    (hend : volume.endOfChain cluster = false)
    (hentry : fatGetFatEntry device volume cluster = .ok (some next)) :
    countLoop device volume fuel i cluster =
      countLoop device volume (fuel - 1) (u32 (i + 1)) next := by
  obtain ⟨fuel, rfl⟩ : ∃ less, fuel = less + 1 := ⟨fuel - 1, by omega⟩
  rw [countLoop, hend, hentry]
  rfl

theorem countLoop_end {fuel i cluster : ℕ} (hfuel : 0 < fuel)
    (hend : volume.endOfChain cluster = true) :
    countLoop device volume fuel i cluster = .ok i := by
  obtain ⟨fuel, rfl⟩ : ∃ less, fuel = less + 1 := ⟨fuel - 1, by omega⟩
  rw [countLoop, if_pos hend]

/-- The array is a part of the chain. -/
theorem chainLoop_eq_ok {remaining startCluster : ℕ} {chain array : List ℕ}
    (hchain : ClusterChain device volume startCluster chain)
    (hlength : remaining ≤ chain.length)
    (harray : chainLoop device volume remaining startCluster = .ok (some array)) :
    ClusterChain device volume startCluster array := by
  induction remaining generalizing startCluster chain array with
  | zero =>
      rw [chainLoop, Except.ok.injEq, Option.some.injEq] at harray
      rw [← harray]
      exact .nil
  | succ remaining ih =>
      cases hchain with
      | nil => simp at hlength
      | @cons _ next rest hend hentry hrest =>
          rw [chainLoop, hend, hentry] at harray
          simp only [Bool.false_eq_true, if_false, ok_bind] at harray
          obtain ⟨tail, htail, hmap⟩ := bind_eq_ok.mp harray
          cases tail with
          | none => simp at hmap
          | some tail =>
              simp only [Option.map_some, Except.ok.injEq, Option.some.injEq] at hmap
              rw [← hmap]
              exact .cons hend hentry (ih hrest (Nat.le_of_succ_le_succ hlength) htail)

theorem fatGetFatChain_eq_ok {startCluster : ℕ} {array : List ℕ}
    (harray : fatGetFatChain device volume startCluster = .ok (some array)) :
    ClusterChain device volume startCluster array := by
  obtain ⟨count, hcount, harray⟩ := bind_eq_ok.mp harray
  rcases countLoop_eq_ok hcount with rfl | ⟨chain, hchain, hlength⟩
  · rw [chainLoop, Except.ok.injEq, Option.some.injEq] at harray
    rw [← harray]
    exact .nil
  · refine chainLoop_eq_ok hchain ?_ harray
    rw [hlength]
    split
    · exact Nat.zero_le _
    · rw [Nat.zero_add]
      exact Nat.mod_le _ _

/-- An entry of the chain leads to the next one. -/
theorem ClusterChain.entry {startCluster index cluster : ℕ} {chain : List ℕ}
    (hchain : ClusterChain device volume startCluster chain)
    (hindex : chain[index]? = some cluster) :
    ∃ next, fatGetFatEntry device volume cluster = .ok (some next) ∧
      ∀ other, chain[index + 1]? = some other →
        other = next ∧ volume.endOfChain next = false := by
  induction hchain generalizing index with
  | nil => simp at hindex
  | @cons start next rest hend hentry hrest ih =>
      cases index with
      | zero =>
          simp only [List.getElem?_cons_zero, Option.some.injEq] at hindex
          subst hindex
          refine ⟨next, hentry, fun other hother => ?_⟩
          cases hrest with
          | nil => simp at hother
          | @cons _ after tail hend' _ _ =>
              simp only [List.getElem?_cons_succ, List.getElem?_cons_zero,
                Option.some.injEq] at hother
              exact ⟨hother.symm, hend'⟩
      | succ index =>
          simp only [List.getElem?_cons_succ] at hindex ⊢
          exact ih hindex

/-! ## The bytes of a file -/

/-- `SectorsPerCluster * BytesPerSector`, in unbounded arithmetic. -/
def FatVolumeInformation.clusterSize (volume : FatVolumeInformation) : ℕ :=
  volume.sectorsPerCluster * volume.bytesPerSector

/-- The place of a cluster on the device. -/
def FatVolumeInformation.clusterStart (volume : FatVolumeInformation) (cluster : ℕ) : ℕ :=
  ((cluster - 2) * volume.sectorsPerCluster + volume.dataSectorStart) *
    volume.bytesPerSector

def fileByte (device : DiskDevice) (volume : FatVolumeInformation) (fi : FatFileInfo)
    (position : ℕ) : UInt8 :=
  device.content (volume.clusterStart (fi.fatChain.getD (position / volume.clusterSize) 0) +
    position % volume.clusterSize)

def fileBytes (device : DiskDevice) (volume : FatVolumeInformation) (fi : FatFileInfo)
    (start length : ℕ) : List UInt8 :=
  (List.range length).map fun index => fileByte device volume fi (start + index)

/-- A file on a sound volume whose chain covers its size.  The clusters that hold
the file can be read. -/
structure OpenFile (device : DiskDevice) (volume : FatVolumeInformation)
    (fi : FatFileInfo) (startCluster : ℕ) : Prop where
  sector_eq : device.bytesPerSector = volume.bytesPerSector
  clusterSize_pos : 0 < volume.clusterSize
  clusterSize_lt : volume.clusterSize < 2 ^ 32
  filesize_lt : fi.filesize < 2 ^ 32
  chain_eq : fatGetFatChain device volume startCluster = .ok (some fi.fatChain)
  covers : fi.filesize ≤ fi.fatChain.length * volume.clusterSize
  clusters : ∀ index cluster, index * volume.clusterSize < fi.filesize →
    fi.fatChain[index]? = some cluster →
      2 ≤ cluster ∧ cluster < 2 ^ 32 ∧
      (cluster - 2) * volume.sectorsPerCluster + volume.dataSectorStart < 2 ^ 32 ∧
      device.readable (volume.clusterSector cluster) volume.sectorsPerCluster = true

/-- What a read is to deliver of the bytes of a file. -/
def bytesFrom (byte : ℕ → UInt8) (start length : ℕ) : List UInt8 :=
  (List.range length).map fun index => byte (start + index)

/-- The block that a position lies in, and the place inside of it. -/
theorem block_div_mod {size offset : ℕ} (index : ℕ) (hoffset : offset < size) :
    (index * size + offset) / size = index ∧ (index * size + offset) % size = offset := by
  constructor
  · rw [Nat.mul_comm, Nat.mul_add_div (Nat.zero_lt_of_lt hoffset), Nat.div_eq_of_lt hoffset,
      Nat.add_zero]
  · rw [Nat.mul_comm, Nat.mul_add_mod, Nat.mod_eq_of_lt hoffset]

/-- A file whose clusters are read with these bytes, one behind the other. -/
structure FileDelivers (device : DiskDevice) (volume : FatVolumeInformation)
    (fi : FatFileInfo) (byte : ℕ → UInt8) : Prop where
  bytesPerCluster_eq : volume.bytesPerCluster = volume.clusterSize
  clusterSize_pos : 0 < volume.clusterSize
  filesize_lt : fi.filesize < 2 ^ 32
  covers : fi.filesize ≤ fi.fatChain.length * volume.clusterSize
  sectors : ∀ index cluster, index * volume.clusterSize < fi.filesize →
    fi.fatChain[index]? = some cluster →
      device.readSectors (volume.clusterSector cluster) volume.sectorsPerCluster =
        some (bytesFrom byte (index * volume.clusterSize) volume.clusterSize)
  entry : ∀ index cluster, fi.fatChain[index]? = some cluster →
    ∃ next, fatGetFatEntry device volume cluster = .ok (some next) ∧
      ∀ other, fi.fatChain[index + 1]? = some other →
        other = next ∧ volume.endOfChain next = false

variable {byte : ℕ → UInt8}

@[simp]
theorem length_bytesFrom (start length : ℕ) : (bytesFrom byte start length).length = length := by
  simp [bytesFrom]

@[simp]
theorem bytesFrom_zero (start : ℕ) : bytesFrom byte start 0 = [] := rfl

theorem bytesFrom_add (byte : ℕ → UInt8) (start front back : ℕ) :
    bytesFrom byte start (front + back) =
      bytesFrom byte start front ++ bytesFrom byte (start + front) back := by
  simp only [bytesFrom, List.range_add, List.map_append, List.map_map]
  congr 1
  refine List.map_congr_left fun index _ => ?_
  simp only [Function.comp_apply, Nat.add_assoc]

/-- A part of a run of bytes. -/
theorem take_drop_bytesFrom {start length offset part : ℕ} (hpart : offset + part ≤ length) :
    ((bytesFrom byte start length).drop offset).take part =
      bytesFrom byte (start + offset) part := by
  obtain ⟨rest, rfl⟩ := Nat.exists_eq_add_of_le hpart
  rw [Nat.add_assoc, bytesFrom_add, bytesFrom_add]
  rw [List.drop_left' (length_bytesFrom _ _), List.take_left' (length_bytesFrom _ _)]

theorem fileBytes_eq (start length : ℕ) :
    fileBytes device volume fi start length =
      bytesFrom (fileByte device volume fi) start length := rfl

@[simp]
theorem length_fileBytes (start length : ℕ) :
    (fileBytes device volume fi start length).length = length :=
  length_bytesFrom start length

/-! ## The pointer -/

/-- The bytes by which the pointer stays behind: what a read takes of its last
cluster, if it comes there from the boundary in front of it. -/
def lag (clusterSize filePointer length : ℕ) : ℕ :=
  if filePointer % clusterSize ≠ 0 ∧ length ≤ clusterSize - filePointer % clusterSize then 0
  else (filePointer + length) % clusterSize

theorem lag_boundary {clusterSize index : ℕ} (length : ℕ) :
    lag clusterSize (index * clusterSize) length = length % clusterSize := by
  rw [lag, Nat.mul_mod_left, if_neg (fun hand => hand.1 rfl), Nat.add_comm,
    Nat.add_mul_mod_self_right]

theorem sub_lag_boundary {clusterSize index : ℕ} (length : ℕ) :
    index * clusterSize + length - lag clusterSize (index * clusterSize) length =
      (index + length / clusterSize) * clusterSize := by
  have hsplit := Nat.div_add_mod' length clusterSize
  rw [lag_boundary, Nat.add_mul]
  omega

theorem lag_zero (clusterSize filePointer : ℕ) : lag clusterSize filePointer 0 = 0 := by
  rw [lag]
  split
  · rfl
  · rename_i hnot
    by_contra hne
    exact hnot ⟨hne, Nat.zero_le _⟩

theorem lag_eq_zero_iff {clusterSize filePointer length : ℕ} (hsize : 0 < clusterSize) :
    lag clusterSize filePointer length = 0 ↔
      filePointer + length = filePointer ∨ (filePointer + length) % clusterSize = 0 ∨
        filePointer % clusterSize ≠ 0 ∧
          (filePointer + length) / clusterSize = filePointer / clusterSize := by
  have hsplit := Nat.div_add_mod' filePointer clusterSize
  have hlow := Nat.mod_lt filePointer hsize
  have hsplit' := Nat.div_add_mod' (filePointer + length) clusterSize
  have hlow' := Nat.mod_lt (filePointer + length) hsize
  rw [lag]
  split
  · rename_i hinside
    apply iff_of_true rfl
    by_cases hfits : length < clusterSize - filePointer % clusterSize
    · -- the end is in the same cluster
      have hdiv : (filePointer + length) / clusterSize = filePointer / clusterSize := by
        rw [Nat.div_eq_iff hsize, Nat.mul_comm]
        have hcomm := Nat.mul_comm clusterSize (filePointer / clusterSize)
        omega
      exact Or.inr (Or.inr ⟨hinside.1, hdiv⟩)
    · have hend : filePointer + length = (filePointer / clusterSize + 1) * clusterSize := by
        rw [Nat.add_mul, Nat.one_mul]
        omega
      exact Or.inr (Or.inl (by rw [hend, Nat.mul_mod_left]))
  · rename_i houtside
    constructor
    · exact fun hzero => Or.inr (Or.inl hzero)
    · rintro (hempty | hzero | ⟨hne, hdiv⟩)
      · obtain rfl : length = 0 := by omega
        by_contra hne
        exact houtside ⟨hne, Nat.zero_le _⟩
      · exact hzero
      · rw [hdiv] at hsplit'
        exact absurd ⟨hne, by omega⟩ houtside

/-! ## Reads -/

namespace FileDelivers

/-- Every part of the file lies in some cluster of the chain. -/
theorem exists_cluster (hfile : FileDelivers device volume fi byte) {index : ℕ}
    (hindex : index * volume.clusterSize < fi.filesize) :
    ∃ cluster, fi.fatChain[index]? = some cluster := by
  have hlt : index < fi.fatChain.length :=
    Nat.lt_of_mul_lt_mul_right (hindex.trans_le hfile.covers)
  exact ⟨_, List.getElem?_eq_getElem hlt⟩

theorem readPartialCluster_eq (hfile : FileDelivers device volume fi byte)
    {index cluster offset length : ℕ} (hindex : index * volume.clusterSize < fi.filesize)
    (hcluster : fi.fatChain[index]? = some cluster)
    (hlength : offset + length ≤ volume.clusterSize) :
    fatReadPartialCluster device volume cluster offset length =
      some (bytesFrom byte (index * volume.clusterSize + offset) length) := by
  rw [fatReadPartialCluster, hfile.sectors _ _ hindex hcluster, Option.map_some,
    take_drop_bytesFrom hlength]

/-- Whole clusters come along the table on the disk. -/
theorem readClusterChain_eq (hfile : FileDelivers device volume fi byte)
    {index cluster : ℕ} (hcluster : fi.fatChain[index]? = some cluster)
    (maxClusters : ℕ) (hrange : (index + maxClusters) * volume.clusterSize ≤ fi.filesize) :
    fatReadClusterChain device volume maxClusters cluster =
      .ok (true, bytesFrom byte (index * volume.clusterSize)
        (maxClusters * volume.clusterSize)) := by
  have hpos := hfile.clusterSize_pos
  induction maxClusters generalizing index cluster with
  | zero => simp [fatReadClusterChain]
  | succ maxClusters ih =>
      have hsum : (index + (maxClusters + 1)) * volume.clusterSize =
          index * volume.clusterSize + volume.clusterSize +
            maxClusters * volume.clusterSize := by ring
      have hindex : index * volume.clusterSize < fi.filesize := by omega
      obtain ⟨next, hentry, hnext⟩ := hfile.entry _ _ hcluster
      have htake : (bytesFrom byte (index * volume.clusterSize)
          volume.clusterSize).take volume.clusterSize =
          bytesFrom byte (index * volume.clusterSize) volume.clusterSize :=
        List.take_of_length_le (by simp)
      have hsize : (maxClusters + 1) * volume.clusterSize =
          volume.clusterSize + maxClusters * volume.clusterSize := by ring
      rw [fatReadClusterChain, hfile.sectors _ _ hindex hcluster]
      simp only [hfile.bytesPerCluster_eq, htake, hentry, ok_bind]
      rw [hsize, bytesFrom_add]
      cases maxClusters with
      | zero => simp [fatReadClusterChain]
      | succ maxClusters =>
          have hmore : (index + 1) * volume.clusterSize < fi.filesize := by
            have hstep : (maxClusters + 1) * volume.clusterSize =
                volume.clusterSize + maxClusters * volume.clusterSize := by ring
            rw [Nat.add_mul, Nat.one_mul]
            omega
          obtain ⟨other, hother⟩ := hfile.exists_cluster hmore
          obtain ⟨rfl, hend⟩ := hnext other hother
          have hrest := ih hother (by rw [Nat.add_assoc, Nat.add_comm 1]; exact hrange)
          rw [hend, hrest]
          simp [Nat.add_mul]

theorem chainEntry_eq {index cluster : ℕ} (hcluster : fi.fatChain[index]? = some cluster) :
    fi.chainEntry index = .ok cluster := by
  rw [FatFileInfo.chainEntry, hcluster]

/-- From a cluster boundary the trailing part arrives, and the pointer stays. -/
theorem readTrailing_eq (hfile : FileDelivers device volume fi byte)
    (index bytesRead : ℕ) (buffer : List UInt8) {s : ℕ} (hsize : s ≤ volume.clusterSize)
    (hend : index * volume.clusterSize + s ≤ fi.filesize) (hread : bytesRead + s < 2 ^ 32) :
    ∃ rest, readTrailing device volume fi
        ⟨index * volume.clusterSize, s, bytesRead, buffer⟩ =
      .ok (bytesRead + s, ⟨index * volume.clusterSize, rest, bytesRead + s,
        buffer ++ bytesFrom byte (index * volume.clusterSize) s⟩) := by
  by_cases hpos : s > 0
  · have hindex : index * volume.clusterSize < fi.filesize := by omega
    obtain ⟨cluster, hcluster⟩ := hfile.exists_cluster hindex
    have hdiv : index * volume.clusterSize / volume.clusterSize = index :=
      Nat.mul_div_cancel _ hfile.clusterSize_pos
    have hpart := hfile.readPartialCluster_eq hindex hcluster
      (show 0 + s ≤ volume.clusterSize by omega)
    have hlt := hindex.trans hfile.filesize_lt
    have hsub : sub32 s s = 0 := by
      rw [sub32_of_le (by omega) le_rfl, Nat.sub_self]
    refine ⟨0, ?_⟩
    rw [readTrailing, if_pos hpos]
    simp only [hfile.bytesPerCluster_eq, hdiv, chainEntry_eq hcluster, ok_bind, hpart, hsub,
      Nat.add_zero, u32_of_lt hread, u32_of_lt hlt]
  · obtain rfl : s = 0 := by omega
    exact ⟨0, by simp [readTrailing]⟩

/-- From a cluster boundary everything arrives, and the pointer moves to the
last boundary. -/
theorem readFull_eq (hfile : FileDelivers device volume fi byte)
    (index bytesRead : ℕ) (buffer : List UInt8) {s : ℕ}
    (hend : index * volume.clusterSize + s ≤ fi.filesize) (hread : bytesRead + s < 2 ^ 32) :
    ∃ rest, readFull device volume fi
        ⟨index * volume.clusterSize, s, bytesRead, buffer⟩ =
      .ok (bytesRead + s, ⟨(index + s / volume.clusterSize) * volume.clusterSize, rest,
        bytesRead + s,
        buffer ++ bytesFrom byte (index * volume.clusterSize) s⟩) := by
  have hpos := hfile.clusterSize_pos
  have hlt := hfile.filesize_lt
  have hsplit := Nat.div_add_mod' s volume.clusterSize
  have hlow := Nat.mod_lt s hpos
  have hboundary : (index + s / volume.clusterSize) * volume.clusterSize =
      index * volume.clusterSize + s / volume.clusterSize * volume.clusterSize :=
    Nat.add_mul _ _ _
  rw [readFull]
  simp only [hfile.bytesPerCluster_eq]
  by_cases hmany : s > 0 ∧ s / volume.clusterSize > 0
  · rw [if_pos hmany]
    set count := s / volume.clusterSize
    have hone : volume.clusterSize ≤ count * volume.clusterSize :=
      Nat.le_mul_of_pos_left _ hmany.2
    obtain ⟨cluster, hcluster⟩ := hfile.exists_cluster
      (show index * volume.clusterSize < fi.filesize by omega)
    have hdiv : index * volume.clusterSize / volume.clusterSize = index :=
      Nat.mul_div_cancel _ hpos
    have hchain := hfile.readClusterChain_eq hcluster count (by omega)
    have hcount : u32 (count * volume.clusterSize) = count * volume.clusterSize :=
      u32_of_lt (by omega)
    obtain ⟨rest, htrailing⟩ := hfile.readTrailing_eq (index + count)
      (bytesRead + count * volume.clusterSize)
      (buffer ++ bytesFrom byte (index * volume.clusterSize)
        (count * volume.clusterSize))
      (show s % volume.clusterSize ≤ volume.clusterSize by omega) (by omega) (by omega)
    have hadvance : (Progress.mk (index * volume.clusterSize) s bytesRead buffer).advance
        (count * volume.clusterSize) (bytesFrom byte
          (index * volume.clusterSize) (count * volume.clusterSize)) =
        ⟨(index + count) * volume.clusterSize, s % volume.clusterSize,
          bytesRead + count * volume.clusterSize, buffer ++ bytesFrom byte
            (index * volume.clusterSize) (count * volume.clusterSize)⟩ := by
      have hrest : sub32 s (count * volume.clusterSize) = s % volume.clusterSize := by
        rw [sub32_of_le (by omega) (by omega)]
        omega
      simp only [Progress.advance]
      rw [hrest, hboundary, u32_of_lt (by omega), u32_of_lt (by omega)]
    have hsum : bytesRead + count * volume.clusterSize + s % volume.clusterSize =
        bytesRead + s := by omega
    have hbytes : bytesFrom byte (index * volume.clusterSize) s =
        bytesFrom byte (index * volume.clusterSize)
            (count * volume.clusterSize) ++
          bytesFrom byte ((index + count) * volume.clusterSize)
            (s % volume.clusterSize) := by
      rw [hboundary, ← bytesFrom_add, hsplit]
    refine ⟨rest, ?_⟩
    simp only [hdiv, chainEntry_eq hcluster, ok_bind, hchain, if_true, hcount, hadvance,
      htrailing, hsum, hbytes, List.append_assoc]
  · rw [if_neg hmany]
    have hsmall : s / volume.clusterSize = 0 := by
      by_contra hne
      refine hmany ⟨?_, Nat.pos_of_ne_zero hne⟩
      by_contra hzero
      obtain rfl : s = 0 := by omega
      simp at hne
    obtain ⟨rest, htrailing⟩ := hfile.readTrailing_eq index bytesRead buffer
      (show s ≤ volume.clusterSize by rw [hsmall] at hsplit; omega) hend hread
    refine ⟨rest, ?_⟩
    rw [hsmall, Nat.add_zero]
    exact htrailing

theorem readFull_zero (device : DiskDevice) (volume : FatVolumeInformation)
    (fi : FatFileInfo) (filePointer bytesRead : ℕ) (buffer : List UInt8) :
    readFull device volume fi ⟨filePointer, 0, bytesRead, buffer⟩ =
      .ok (bytesRead, ⟨filePointer, 0, bytesRead, buffer⟩) := by
  simp [readFull, readTrailing]

/-- From inside a cluster everything arrives, first up to its end. -/
theorem readLeading_inside (hfile : FileDelivers device volume fi byte)
    {index offset s : ℕ} (hpos : offset ≠ 0) (hoffset : offset < volume.clusterSize)
    (hpointer : index * volume.clusterSize + offset < fi.filesize)
    (hend : index * volume.clusterSize + offset + s ≤ fi.filesize) :
    ∃ rest, readLeading device volume fi
        ⟨index * volume.clusterSize + offset, s, 0, []⟩ =
      .ok (s, ⟨index * volume.clusterSize + offset + s -
          lag volume.clusterSize (index * volume.clusterSize + offset) s, rest, s,
        bytesFrom byte (index * volume.clusterSize + offset) s⟩) := by
  have hlt := hfile.filesize_lt
  have hdiv : (index * volume.clusterSize + offset) / volume.clusterSize = index := by
    rw [Nat.mul_comm, Nat.mul_add_div hfile.clusterSize_pos, Nat.div_eq_of_lt hoffset,
      Nat.add_zero]
  have hmod : (index * volume.clusterSize + offset) % volume.clusterSize = offset := by
    rw [Nat.mul_comm, Nat.mul_add_mod, Nat.mod_eq_of_lt hoffset]
  have hindex : index * volume.clusterSize < fi.filesize := by omega
  obtain ⟨cluster, hcluster⟩ := hfile.exists_cluster hindex
  have hlead : ∀ length, offset + length ≤ volume.clusterSize → length ≤ s →
      fatReadPartialCluster device volume cluster offset length =
        some (bytesFrom byte (index * volume.clusterSize + offset) length) ∧
      (Progress.mk (index * volume.clusterSize + offset) s 0 []).advance length
        (bytesFrom byte (index * volume.clusterSize + offset) length) =
      ⟨index * volume.clusterSize + offset + length, s - length, length,
        bytesFrom byte (index * volume.clusterSize + offset) length⟩ := by
    intro length hlength hle
    refine ⟨hfile.readPartialCluster_eq hindex hcluster hlength, ?_⟩
    simp only [Progress.advance]
    rw [u32_of_lt (by omega), sub32_of_le (by omega) hle, u32_of_lt (by omega)]
    simp
  rw [readLeading]
  simp only [hfile.bytesPerCluster_eq, hmod, hdiv, ne_eq, hpos, not_false_eq_true, if_true,
    chainEntry_eq hcluster, ok_bind]
  by_cases hshort : s ≤ volume.clusterSize - offset
  · obtain ⟨hpart, hadvance⟩ := hlead s (by omega) le_rfl
    have hlag : lag volume.clusterSize (index * volume.clusterSize + offset) s = 0 := by
      rw [lag, hmod, if_pos ⟨hpos, hshort⟩]
    refine ⟨0, ?_⟩
    rw [if_neg (not_lt.mpr hshort), hpart, hlag]
    simp only [hadvance, Nat.sub_self, readFull_zero, Nat.sub_zero]
  · obtain ⟨hpart, hadvance⟩ := hlead (volume.clusterSize - offset) (by omega) (by omega)
    have hnext : index * volume.clusterSize + offset + (volume.clusterSize - offset) =
        (index + 1) * volume.clusterSize := by
      rw [Nat.add_mul, Nat.one_mul]
      omega
    obtain ⟨more, hmore⟩ : ∃ more, s = volume.clusterSize - offset + more :=
      ⟨s - (volume.clusterSize - offset), by omega⟩
    have hlag : lag volume.clusterSize (index * volume.clusterSize + offset) s =
        lag volume.clusterSize ((index + 1) * volume.clusterSize) more := by
      rw [lag_boundary, lag, hmod, if_neg (fun hand => hshort hand.2), hmore, ← Nat.add_assoc,
        hnext, Nat.add_comm, Nat.add_mul_mod_self_right]
    have hbytes : bytesFrom byte (index * volume.clusterSize + offset) s =
        bytesFrom byte (index * volume.clusterSize + offset)
            (volume.clusterSize - offset) ++
          bytesFrom byte ((index + 1) * volume.clusterSize) more := by
      rw [hmore, bytesFrom_add, hnext]
    have hsum : index * volume.clusterSize + offset + s =
        (index + 1) * volume.clusterSize + more := by omega
    obtain ⟨rest, hfull⟩ := hfile.readFull_eq (index + 1) (volume.clusterSize - offset)
      (bytesFrom byte (index * volume.clusterSize + offset)
        (volume.clusterSize - offset)) (show (index + 1) * volume.clusterSize + more ≤
          fi.filesize by omega) (by omega)
    have hrest : s - (volume.clusterSize - offset) = more := by omega
    refine ⟨rest, ?_⟩
    rw [if_pos (not_le.mp hshort), hpart, hlag, hsum, sub_lag_boundary, hbytes]
    simp only [hadvance, hnext, hrest, hfull, ← hmore]

/-- From anywhere in the file everything arrives. -/
theorem readLeading_eq (hfile : FileDelivers device volume fi byte)
    {filePointer s : ℕ} (hpointer : filePointer < fi.filesize)
    (hend : filePointer + s ≤ fi.filesize) :
    ∃ rest, readLeading device volume fi ⟨filePointer, s, 0, []⟩ =
      .ok (s, ⟨filePointer + s - lag volume.clusterSize filePointer s, rest, s,
        bytesFrom byte filePointer s⟩) := by
  have hlt := hfile.filesize_lt
  have hsplit := Nat.div_add_mod' filePointer volume.clusterSize
  have hlow := Nat.mod_lt filePointer hfile.clusterSize_pos
  generalize filePointer / volume.clusterSize = index at hsplit
  generalize filePointer % volume.clusterSize = offset at hsplit hlow
  subst hsplit
  by_cases hboundary : offset = 0
  · subst hboundary
    simp only [Nat.add_zero] at hpointer hend ⊢
    obtain ⟨rest, hfull⟩ := hfile.readFull_eq index 0 [] hend (by omega)
    rw [Nat.zero_add, List.nil_append] at hfull
    refine ⟨rest, ?_⟩
    rw [readLeading, hfile.bytesPerCluster_eq, Nat.mul_mod_left, sub_lag_boundary]
    exact hfull
  · exact hfile.readLeading_inside hboundary hlow hpointer hend

/-- What a read delivers, and where it leaves the pointer. -/
theorem readOpen_eq (hfile : FileDelivers device volume fi byte)
    {filePointer s : ℕ} (hpointer : filePointer ≤ fi.filesize)
    (hwrap : filePointer + s < 2 ^ 32) :
    ∃ rest, readOpen device volume fi filePointer s =
      .ok (min s (fi.filesize - filePointer),
        ⟨filePointer + min s (fi.filesize - filePointer) - lag volume.clusterSize
            filePointer (min s (fi.filesize - filePointer)), rest,
          min s (fi.filesize - filePointer),
          bytesFrom byte filePointer (min s (fi.filesize - filePointer))⟩) := by
  have hlt := hfile.filesize_lt
  by_cases hend : filePointer = fi.filesize
  · refine ⟨s, ?_⟩
    rw [readOpen, if_pos hend.ge, hend, Nat.sub_self, Nat.min_zero, lag_zero]
    rfl
  · have hclamp : (if u32 (filePointer + s) > fi.filesize
        then sub32 fi.filesize filePointer else s) = min s (fi.filesize - filePointer) := by
      rw [u32_of_lt hwrap, sub32_of_le hlt hpointer]
      split <;> omega
    have hsize : volume.bytesPerCluster ≠ 0 := by
      rw [hfile.bytesPerCluster_eq]
      exact hfile.clusterSize_pos.ne'
    rw [readOpen, if_neg (by omega), hclamp]
    simp only [if_neg hsize]
    exact hfile.readLeading_eq (by omega) (by omega)

end FileDelivers

/-- A cluster of the chain is the part of the file that belongs to it. -/
theorem OpenFile.readSectors_eq {startCluster : ℕ}
    (hfile : OpenFile device volume fi startCluster)
    {index cluster : ℕ} (hindex : index * volume.clusterSize < fi.filesize)
    (hcluster : fi.fatChain[index]? = some cluster) :
    device.readSectors (volume.clusterSector cluster) volume.sectorsPerCluster =
      some (fileBytes device volume fi (index * volume.clusterSize) volume.clusterSize) := by
  obtain ⟨htwo, hlt, hsector, hreadable⟩ := hfile.clusters index cluster hindex hcluster
  have hplace : volume.clusterSector cluster * device.bytesPerSector =
      volume.clusterStart cluster := by
    rw [FatVolumeInformation.clusterSector, sub32_of_le hlt htwo,
      u32_of_lt (Nat.lt_of_le_of_lt (Nat.le_add_right _ _) hsector), u32_of_lt hsector,
      hfile.sector_eq]
    rfl
  rw [DiskDevice.readSectors, if_pos hreadable, hplace, hfile.sector_eq]
  refine congrArg some (List.map_congr_left fun offset hoffset => ?_)
  have hlow : offset < volume.clusterSize := List.mem_range.mp hoffset
  obtain ⟨hdiv, hmod⟩ := block_div_mod index hlow
  simp [fileByte, hdiv, hmod, hcluster]

theorem OpenFile.delivers {startCluster : ℕ} (hfile : OpenFile device volume fi startCluster) :
    FileDelivers device volume fi (fileByte device volume fi) where
  bytesPerCluster_eq := u32_of_lt hfile.clusterSize_lt
  clusterSize_pos := hfile.clusterSize_pos
  filesize_lt := hfile.filesize_lt
  covers := hfile.covers
  sectors := fun _ _ hindex hcluster => hfile.readSectors_eq hindex hcluster
  entry := fun _ _ hcluster => (fatGetFatChain_eq_ok hfile.chain_eq).entry hcluster

/-! ## Sequences of reads -/

/-- The file pointer of an open file. -/
def position (f : Option File) : ℕ := (f.map File.filePointer).getD 0

structure ReadCall where
  before : Option File
  returned : ℕ
  buffer : List UInt8
  after : Option File

/-- One read after the other. -/
def fatReads : Option File → List ℕ → Outcome (List ReadCall)
  | _, [] => .ok []
  | f, s :: rest => do
      let (returned, buffer, after) ← fatRead f s
      let calls ← fatReads after rest
      .ok (⟨f, returned, buffer, after⟩ :: calls)

/-- The file opened from a volume. -/
def openedFile (device : DiskDevice) (volume : FatVolumeInformation) (fi : FatFileInfo)
    (filePointer : ℕ) : Option File :=
  some ⟨some ⟨device, some volume⟩, some fi, filePointer⟩

/-- The reads deliver the bytes of the file from the pointer on, and each moves
the pointer by what it returned. -/
structure ReadsCompose (device : DiskDevice) (volume : FatVolumeInformation)
    (fi : FatFileInfo) (filePointer : ℕ) (sizes : List ℕ) (calls : List ReadCall) :
    Prop where
  calls_eq : fatReads (openedFile device volume fi filePointer) sizes = .ok calls
  bytes_eq : calls.flatMap (fun call => call.buffer.take call.returned) =
    fileBytes device volume fi filePointer (min sizes.sum (fi.filesize - filePointer))
  advances : ∀ call ∈ calls, position call.after = position call.before + call.returned

/-- No end of a read wraps. -/
def NoWrap (filesize : ℕ) : (filePointer : ℕ) → List ℕ → Prop
  | _, [] => True
  | filePointer, s :: rest =>
      filePointer + s < 2 ^ 32 ∧ NoWrap filesize (min (filePointer + s) filesize) rest

/-- Every read ends where it began, at a cluster boundary, or inside the cluster
it began in the middle of. -/
def EndsCleanly (clusterSize filesize : ℕ) : (filePointer : ℕ) → List ℕ → Prop
  | _, [] => True
  | filePointer, s :: rest =>
      (min (filePointer + s) filesize = filePointer ∨
          min (filePointer + s) filesize % clusterSize = 0 ∨
          filePointer % clusterSize ≠ 0 ∧
            min (filePointer + s) filesize / clusterSize = filePointer / clusterSize) ∧
        EndsCleanly clusterSize filesize (min (filePointer + s) filesize) rest

/-- The return value, the bytes and the file after a read. -/
theorem FileDelivers.fatRead_eq {filePointer s : ℕ} (hfile : FileDelivers device volume fi byte)
    (hpointer : filePointer ≤ fi.filesize) (hwrap : filePointer + s < 2 ^ 32) :
    fatRead (openedFile device volume fi filePointer) s =
      .ok (min s (fi.filesize - filePointer),
        bytesFrom byte filePointer (min s (fi.filesize - filePointer)),
        openedFile device volume fi (filePointer + min s (fi.filesize - filePointer) -
          lag volume.clusterSize filePointer (min s (fi.filesize - filePointer)))) := by
  obtain ⟨rest, hread⟩ := hfile.readOpen_eq hpointer hwrap
  simp only [fatRead, openedFile, hread, ok_bind]

theorem OpenFile.fatRead_eq {startCluster filePointer s : ℕ}
    (hfile : OpenFile device volume fi startCluster) (hpointer : filePointer ≤ fi.filesize)
    (hwrap : filePointer + s < 2 ^ 32) :
    fatRead (openedFile device volume fi filePointer) s =
      .ok (min s (fi.filesize - filePointer),
        fileBytes device volume fi filePointer (min s (fi.filesize - filePointer)),
        openedFile device volume fi (filePointer + min s (fi.filesize - filePointer) -
          lag volume.clusterSize filePointer (min s (fi.filesize - filePointer)))) :=
  hfile.delivers.fatRead_eq hpointer hwrap

theorem min_add_eq {filePointer s filesize : ℕ} (hpointer : filePointer ≤ filesize) :
    min (filePointer + s) filesize = filePointer + min s (filesize - filePointer) := by
  omega

/-- The bytes that `s` and then `total` more deliver. -/
theorem fileBytes_then (device : DiskDevice) (volume : FatVolumeInformation) (s total : ℕ)
    {filePointer : ℕ} (hpointer : filePointer ≤ fi.filesize) :
    fileBytes device volume fi filePointer (min (s + total) (fi.filesize - filePointer)) =
      fileBytes device volume fi filePointer (min s (fi.filesize - filePointer)) ++
        fileBytes device volume fi (min (filePointer + s) fi.filesize)
          (min total (fi.filesize - min (filePointer + s) fi.filesize)) := by
  have hsum : min (s + total) (fi.filesize - filePointer) =
      min s (fi.filesize - filePointer) +
        min total (fi.filesize - min (filePointer + s) fi.filesize) := by omega
  rw [hsum, fileBytes_eq, bytesFrom_add, min_add_eq hpointer]
  rfl

theorem lag_eq_zero_of_advance {clusterSize filePointer length : ℕ}
    (hadvance : filePointer + length - lag clusterSize filePointer length =
      filePointer + length) : lag clusterSize filePointer length = 0 := by
  have hle : lag clusterSize filePointer length ≤ filePointer + length := by
    rw [lag]
    split
    · exact Nat.zero_le _
    · exact Nat.mod_le _ _
  omega

/-- A read that keeps up with what it returns, and reads that compose after it,
compose. -/
theorem ReadsCompose.cons {filePointer s length : ℕ} {rest : List ℕ}
    {calls : List ReadCall} (hpointer : filePointer ≤ fi.filesize)
    (hlength : length = min s (fi.filesize - filePointer))
    (hread : fatRead (openedFile device volume fi filePointer) s =
      .ok (length, fileBytes device volume fi filePointer length,
        openedFile device volume fi (filePointer + length)))
    (hcalls : ReadsCompose device volume fi (filePointer + length) rest calls) :
    ReadsCompose device volume fi filePointer (s :: rest)
      (⟨openedFile device volume fi filePointer, length,
        fileBytes device volume fi filePointer length,
        openedFile device volume fi (filePointer + length)⟩ :: calls) where
  calls_eq := by
    simp only [fatReads, hread, ok_bind, hcalls.calls_eq]
  bytes_eq := by
    have hsum := fileBytes_then device volume s rest.sum hpointer
    rw [min_add_eq hpointer, ← hlength] at hsum
    have htake : (fileBytes device volume fi filePointer length).take length =
        fileBytes device volume fi filePointer length :=
      List.take_of_length_le (length_fileBytes _ _).le
    rw [List.flatMap_cons, htake, hcalls.bytes_eq, List.sum_cons, hsum]
  advances := by
    rintro call (_ | ⟨_, hmem⟩)
    · rfl
    · exact hcalls.advances call hmem

/-- Reads compose exactly if every one of them ends cleanly. -/
theorem readsCompose_iff_endsCleanly {startCluster filePointer : ℕ} {sizes : List ℕ}
    (hfile : OpenFile device volume fi startCluster) (hpointer : filePointer ≤ fi.filesize)
    (hwrap : NoWrap fi.filesize filePointer sizes) :
    (∃ calls, ReadsCompose device volume fi filePointer sizes calls) ↔
      EndsCleanly volume.clusterSize fi.filesize filePointer sizes := by
  induction sizes generalizing filePointer with
  | nil =>
      refine iff_of_true ⟨[], rfl, ?_, by simp⟩ trivial
      simp [fileBytes_eq]
  | cons s rest ih =>
      obtain ⟨hfirst, hrest⟩ := hwrap
      have hread := hfile.fatRead_eq hpointer hfirst
      have htail := ih (min_le_right _ _) hrest
      rw [EndsCleanly, ← htail]
      simp only [min_add_eq hpointer]
      generalize hlength : min s (fi.filesize - filePointer) = length at hread
      rw [← lag_eq_zero_iff hfile.clusterSize_pos]
      constructor
      · rintro ⟨calls, hcalls, hbytes, hadvances⟩
        simp only [fatReads, hread, ok_bind] at hcalls
        obtain ⟨later, hlater, hcons⟩ := bind_eq_ok.mp hcalls
        rw [Except.ok.injEq] at hcons
        subst hcons
        have hlag := lag_eq_zero_of_advance (hadvances _ List.mem_cons_self)
        rw [hlag, Nat.sub_zero] at hlater
        refine ⟨hlag, later, hlater, ?_, fun call hmem =>
          hadvances call (List.mem_cons_of_mem _ hmem)⟩
        have hsum := fileBytes_then device volume s rest.sum hpointer
        have htake : (fileBytes device volume fi filePointer length).take length =
            fileBytes device volume fi filePointer length :=
          List.take_of_length_le (length_fileBytes _ _).le
        rw [min_add_eq hpointer, hlength] at hsum
        rw [List.flatMap_cons, List.sum_cons, hsum, htake] at hbytes
        exact List.append_cancel_left hbytes
      · rintro ⟨hlag, calls, hcalls⟩
        rw [hlag, Nat.sub_zero] at hread
        exact ⟨_, hcalls.cons hpointer hlength.symm hread⟩

/-! ## Volumes all of whose bytes are `0xFF` -/

/-- Every entry of the table is an end mark. -/
def blankDevice : DiskDevice where
  bytesPerSector := 512
  content := fun _ => 0xFF
  readable := fun _ _ => true

def blankVolume : FatVolumeInformation where
  bytesPerSector := 512
  sectorsPerCluster := 1
  activeFatSectorStart := 1
  dataSectorStart := 64
  fatType := .fat16

/-- A file in cluster 2. -/
def oneCluster (filesize : ℕ) : FatFileInfo := ⟨filesize, [2]⟩

theorem readSectors_blank (startSector sectorCount : ℕ) :
    blankDevice.readSectors startSector sectorCount =
      some (List.replicate (sectorCount * 512) 0xFF) := by
  have hreadable : blankDevice.readable startSector sectorCount = true := rfl
  have hbytes : (List.range (sectorCount * 512)).map (fun _ => (0xFF : UInt8)) =
      List.replicate (sectorCount * 512) 0xFF := by
    rw [List.map_const', List.length_range]
  rw [DiskDevice.readSectors, if_pos hreadable]
  exact congrArg some hbytes

theorem fatGetFatEntry_blank :
    fatGetFatEntry blankDevice blankVolume 2 = .ok (some 0xFFFF) := by
  have hread : readFatSectors blankDevice blankVolume (u32 (2 * 2)) false =
      .ok (some (List.replicate 512 0xFF, 4)) := by
    simp only [readFatSectors, readSectors_blank]
    rfl
  have hbyte : ∀ offset < 512, (List.replicate 512 (0xFF : UInt8)).getD offset 0 = 0xFF :=
    fun offset hoffset => List.getD_replicate _ hoffset
  have hword : word16 (List.replicate 512 0xFF) 4 = 0xFFFF := by
    rw [word16, hbyte 4 (by norm_num), hbyte 5 (by norm_num)]
    rfl
  have htype : blankVolume.fatType = .fat16 := rfl
  simp only [fatGetFatEntry, htype, hread, ok_bind, Option.map_some, hword]

theorem fatGetFatChain_blank :
    fatGetFatChain blankDevice blankVolume 2 = .ok (some [2]) := by
  have hend : blankVolume.endOfChain 2 = false := rfl
  have hcount : fatCountClustersInChain blankDevice blankVolume 2 = .ok 1 := by
    rw [fatCountClustersInChain,
      countLoop_step (Nat.succ_pos _) hend fatGetFatEntry_blank,
      countLoop_end (by norm_num) (by rfl)]
    rfl
  have hloop : chainLoop blankDevice blankVolume 1 2 = .ok (some [2]) := by
    rw [chainLoop, hend, fatGetFatEntry_blank]
    rfl
  simp only [fatGetFatChain, hcount, ok_bind, hloop]

theorem oneCluster_openFile {filesize : ℕ} (hfilesize : filesize ≤ 512) :
    OpenFile blankDevice blankVolume (oneCluster filesize) 2 where
  sector_eq := rfl
  clusterSize_pos := by norm_num [FatVolumeInformation.clusterSize, blankVolume]
  clusterSize_lt := by norm_num [FatVolumeInformation.clusterSize, blankVolume]
  filesize_lt := by
    simp only [oneCluster]
    omega
  chain_eq := fatGetFatChain_blank
  covers := by
    simp only [oneCluster, List.length_singleton, FatVolumeInformation.clusterSize,
      blankVolume]
    omega
  clusters := fun index cluster _ hcluster => by
    have hmem := List.mem_of_getElem? hcluster
    rw [oneCluster, List.mem_singleton] at hmem
    rw [hmem]
    exact ⟨le_rfl, by norm_num, by norm_num [blankVolume], rfl⟩

/-- The blank device, with an entry of the table that leads from cluster 2 to cluster 3. -/
def linkedDevice : DiskDevice where
  bytesPerSector := 512
  content := fun position => if position = 516 then 3 else if position = 517 then 0 else 0xFF
  readable := fun _ _ => true

theorem fatGetFatEntry_linked :
    fatGetFatEntry linkedDevice blankVolume 2 = .ok (some 3) ∧
      fatGetFatEntry linkedDevice blankVolume 3 = .ok (some 0xFFFF) := by
  decide +kernel

theorem fatGetFatChain_linked :
    fatGetFatChain linkedDevice blankVolume 2 = .ok (some [2, 3]) := by
  obtain ⟨hfirst, hsecond⟩ := fatGetFatEntry_linked
  have hcount : fatCountClustersInChain linkedDevice blankVolume 2 = .ok 2 := by
    rw [fatCountClustersInChain, countLoop_step (Nat.succ_pos _) rfl hfirst,
      countLoop_step (by norm_num) rfl hsecond, countLoop_end (by norm_num) rfl]
    rfl
  have hloop : chainLoop linkedDevice blankVolume 2 2 = .ok (some [2, 3]) := by
    have hlast : chainLoop linkedDevice blankVolume 1 3 = .ok (some [3]) := by
      rw [chainLoop, show blankVolume.endOfChain 3 = false from rfl, hsecond]
      rfl
    rw [chainLoop, show blankVolume.endOfChain 2 = false from rfl, hfirst]
    exact congrArg (fun rest => rest >>= fun rest => .ok (rest.map (2 :: ·))) hlast
  simp only [fatGetFatChain, hcount, ok_bind, hloop]

theorem twoClusters_openFile : OpenFile linkedDevice blankVolume ⟨1024, [2, 3]⟩ 2 where
  sector_eq := rfl
  clusterSize_pos := by decide
  clusterSize_lt := by decide
  filesize_lt := by norm_num
  chain_eq := fatGetFatChain_linked
  covers := by decide
  clusters := fun index cluster _ hcluster => by
    have hmem := List.mem_of_getElem? hcluster
    rw [List.mem_cons, List.mem_singleton] at hmem
    rcases hmem with rfl | rfl <;> exact ⟨by decide, by decide, by decide, rfl⟩

/-- Three reads: up to the cluster boundary, the rest, and one at the end. -/
theorem readsCompose_iff_endsCleanly_twoClusters :
    ∃ calls, ReadsCompose linkedDevice blankVolume ⟨1024, [2, 3]⟩ 0 [512, 600, 7] calls :=
  (@readsCompose_iff_endsCleanly _ _ _ _ _ [512, 600, 7] twoClusters_openFile (Nat.zero_le _)
    ⟨by decide, by decide, by decide, trivial⟩).mpr
    ⟨Or.inr (Or.inl rfl), Or.inr (Or.inl rfl), Or.inl rfl, trivial⟩

/-- A file of ten bytes is read whole, and the pointer stays at its start. -/
theorem tenBytes_not_readsCompose :
    ¬ ∀ (device : DiskDevice) (volume : FatVolumeInformation) (fi : FatFileInfo)
      (startCluster filePointer : ℕ) (sizes : List ℕ),
      OpenFile device volume fi startCluster → filePointer ≤ fi.filesize →
      NoWrap fi.filesize filePointer sizes →
      ∃ calls, ReadsCompose device volume fi filePointer sizes calls := by
  intro hall
  have hfile : OpenFile blankDevice blankVolume (oneCluster 10) 2 :=
    oneCluster_openFile (by norm_num)
  obtain ⟨calls, hcalls, _, hadvances⟩ := hall _ _ _ 2 0 [10] hfile (Nat.zero_le _)
    ⟨by norm_num, trivial⟩
  have hread := hfile.fatRead_eq (Nat.zero_le _) (show 0 + 10 < 2 ^ 32 by norm_num)
  simp only [fatReads, hread, ok_bind, Except.ok.injEq] at hcalls
  subst hcalls
  have hhead := hadvances _ List.mem_cons_self
  simp [position, openedFile, oneCluster, lag, blankVolume,
    FatVolumeInformation.clusterSize] at hhead

end GeexOS.Fat
