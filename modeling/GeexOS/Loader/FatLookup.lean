import GeexOS.Loader.FatMatching

/-!
# Looking up a path

The components of a path lead from the root through directories to an entry.
The parent entry of a directory below the root names the root by cluster 0.
-/

namespace GeexOS.Fat

open GeexOS.Words
open GeexOS.Halting
open GeexOS.Strings
open GeexOS.Walks

/-! ## Volumes that are in order -/

/-- A cluster that lies on the device. -/
structure OnDevice (device : DiskDevice) (volume : FatVolumeInformation) (cluster : ℕ) : Prop where
  two_le : 2 ≤ cluster
  cluster_lt : cluster < 2 ^ 32
  sector_lt : (cluster - 2) * volume.sectorsPerCluster + volume.dataSectorStart < 2 ^ 32
  readable : device.readable (volume.clusterSector cluster) volume.sectorsPerCluster = true

def clusterBytes (device : DiskDevice) (volume : FatVolumeInformation) (cluster : ℕ) :
    List UInt8 :=
  (List.range volume.clusterSize).map fun offset =>
    device.content (volume.clusterStart cluster + offset)

/-- The directory that starts at a cluster. -/
structure DirectoryAt (device : DiskDevice) (volume : FatVolumeInformation) (cluster : ℕ)
    (chain : List ℕ) (entries : List DirectoryEntry) : Prop where
  complete : CompleteChain device volume cluster chain
  size_lt : chain.length * volume.clusterSize < 2 ^ 32
  listing : Listing (directoryEntries (chain.flatMap (clusterBytes device volume))) entries

/-- The root directory has an area of its own on FAT12 and FAT16 volumes. -/
structure RootArea (device : DiskDevice) (volume : MountedVolume) (entries : List DirectoryEntry) :
    Prop where
  size_lt : volume.rootDirSectors * volume.bytesPerSector < 2 ^ 32
  listing : Listing (directoryEntries ((List.range (volume.rootDirSectors *
    device.bytesPerSector)).map fun offset =>
      device.content (volume.rootDirSectorStart * device.bytesPerSector + offset))) entries

def DirectoryEntry.isDirectory (entry : DirectoryEntry) : Bool :=
  entry.attributes &&& attrDirectory ≠ 0

/-- The directories below the root by their first cluster; the root is 0. -/
inductive Reachable (tree : ℕ → List DirectoryEntry) : ℕ → Prop
  | root : Reachable tree 0
  | step {directory : ℕ} {entry : DirectoryEntry} (hdirectory : Reachable tree directory)
      (hmem : entry ∈ tree directory) (hattribute : entry.isDirectory = true) :
      Reachable tree entry.startCluster

/-- A volume with these entries in its directories. -/
structure WellFormed (device : DiskDevice) (volume : MountedVolume)
    (tree : ℕ → List DirectoryEntry) : Prop where
  sector_eq : device.bytesPerSector = volume.bytesPerSector
  clusterSize_pos : 0 < volume.clusterSize
  clusterSize_lt : volume.clusterSize < 2 ^ 32
  rootArea : volume.fatType ≠ .fat32 → RootArea device volume (tree 0)
  rootChain : volume.fatType = .fat32 → ∃ chain,
    DirectoryAt device volume.toFatVolumeInformation volume.rootDirStartCluster chain (tree 0)
  directories : ∀ directory, Reachable tree directory → directory ≠ 0 → ∃ chain,
    DirectoryAt device volume.toFatVolumeInformation directory chain (tree directory)
  chains : ∀ directory, Reachable tree directory → ∀ entry ∈ tree directory,
    entry.startCluster ≠ 0 → ∃ clusters,
      CompleteChain device volume.toFatVolumeInformation entry.startCluster
        (entry.startCluster :: clusters)

/-- The device delivers the sectors of a directory; the root is 0. -/
structure Delivered (device : DiskDevice) (volume : MountedVolume) (directory : ℕ) : Prop where
  rootArea : directory = 0 → volume.fatType ≠ .fat32 →
    device.readable volume.rootDirSectorStart volume.rootDirSectors = true
  rootChain : directory = 0 → volume.fatType = .fat32 → ∀ chain,
    CompleteChain device volume.toFatVolumeInformation volume.rootDirStartCluster chain →
      ∀ cluster ∈ chain, OnDevice device volume.toFatVolumeInformation cluster
  clusters : directory ≠ 0 → ∀ chain,
    CompleteChain device volume.toFatVolumeInformation directory chain →
      ∀ cluster ∈ chain, OnDevice device volume.toFatVolumeInformation cluster

/-! ## What a path names -/

/-- The entry that the components lead to from a directory on. -/
def lookup (tree : ℕ → List DirectoryEntry) : (directory : ℕ) → List CString →
    Option DirectoryEntry
  | _, [] => none
  | directory, [name] => (tree directory).find? fun entry => entry.Named name
  | directory, name :: next :: rest =>
      match (tree directory).find? fun entry => entry.Named name with
      | none => none
      | some entry =>
          if entry.isDirectory then lookup tree entry.startCluster (next :: rest) else none

/-- The directories that are searched on the way. -/
def searched (tree : ℕ → List DirectoryEntry) : (directory : ℕ) → List CString → List ℕ
  | _, [] => []
  | directory, name :: rest =>
      directory :: match (tree directory).find? fun entry => entry.Named name with
        | none => []
        | some entry => if entry.isDirectory then searched tree entry.startCluster rest else []

/-- The entries that are found on the way. -/
def met (tree : ℕ → List DirectoryEntry) : (directory : ℕ) → List CString → List DirectoryEntry
  | _, [] => []
  | directory, name :: rest =>
      match (tree directory).find? fun entry => entry.Named name with
      | none => []
      | some entry => entry :: if entry.isDirectory then met tree entry.startCluster rest else []

def pathParts (path : CString) : List CString := path.splitOnP isSeparator

/-- The lookup fails, or fills in the entry with all of its clusters. -/
def Fills (device : DiskDevice) (volume : MountedVolume) (found : Option DirectoryEntry)
    (outcome : Outcome (Option FoundFile)) : Prop :=
  match found with
  | none => outcome = .ok none
  | some entry => ∃ chain,
      CompleteChain device volume.toFatVolumeInformation entry.startCluster chain ∧
        outcome = .ok (some ⟨entry.attributes, entry.size, some chain⟩)

/-- The directories under the names that the search compares. -/
def shown (tree : ℕ → List DirectoryEntry) (directory : ℕ) : List DirectoryEntry :=
  (tree directory).map DirectoryEntry.cut

/-- Where an entry on the way has start cluster 0, the walk from there ends. -/
def EmptyEnd (device : DiskDevice) (volume : MountedVolume) (entries : List DirectoryEntry) :
    Prop :=
  ∀ entry ∈ entries, entry.startCluster = 0 → WalkEnds device volume.toFatVolumeInformation 0

/-- No entry, or entries with the same attributes, size and clusters. -/
def SameFile (device : DiskDevice) (volume : MountedVolume) :
    (found wanted : Option DirectoryEntry) → Prop
  | none, none => True
  | some entry, some wanted =>
      entry.attributes = wanted.attributes ∧ entry.size = wanted.size ∧ ∃ chain,
        CompleteChain device volume.toFatVolumeInformation entry.startCluster chain ∧
          CompleteChain device volume.toFatVolumeInformation wanted.startCluster chain
  | _, _ => False

/-- The root is searched in the beginning only, and what is searched can be read. -/
structure Direct (device : DiskDevice) (volume : MountedVolume) (tree : ℕ → List DirectoryEntry)
    (directory : ℕ) (parts : List CString) : Prop where
  away : ∀ before ∈ (searched (shown tree) directory parts).tail, before ≠ 0
  delivered : ∀ before ∈ searched (shown tree) directory parts, Delivered device volume before

variable {device : DiskDevice} {volume : FatVolumeInformation} {mounted : MountedVolume}
variable {tree : ℕ → List DirectoryEntry} {entries : List DirectoryEntry}
variable {entry : DirectoryEntry} {found wanted : Option DirectoryEntry}
variable {cluster next directory remaining : ℕ} {chain : List ℕ} {path name : CString}

/-! ## Contents -/

theorem OnDevice.readSectors_eq (hcluster : OnDevice device volume cluster)
    (hsector : device.bytesPerSector = volume.bytesPerSector) :
    device.readSectors (volume.clusterSector cluster) volume.sectorsPerCluster =
      some (clusterBytes device volume cluster) := by
  have hplace : volume.clusterSector cluster * device.bytesPerSector =
      volume.clusterStart cluster := by
    rw [FatVolumeInformation.clusterSector, sub32_of_le hcluster.cluster_lt hcluster.two_le,
      u32_of_lt (Nat.lt_of_le_of_lt (Nat.le_add_right _ _) hcluster.sector_lt),
      u32_of_lt hcluster.sector_lt, hsector]
    rfl
  rw [DiskDevice.readSectors, if_pos hcluster.readable, hplace, hsector]
  rfl

theorem CompleteChain.fatReadClusterChain_eq (hchain : CompleteChain device volume cluster chain)
    (hsector : device.bytesPerSector = volume.bytesPerSector)
    (hsize : volume.clusterSize < 2 ^ 32) (hne : chain ≠ [])
    (hclusters : ∀ cluster ∈ chain, OnDevice device volume cluster) {maxClusters : ℕ}
    (hmax : chain.length ≤ maxClusters) :
    fatReadClusterChain device volume maxClusters cluster =
      .ok (true, chain.flatMap (clusterBytes device volume)) := by
  induction hchain generalizing maxClusters with
  | ended _ => exact absurd rfl hne
  | @cons cluster next rest hend hentry hrest ih =>
      obtain ⟨hcluster, hothers⟩ := List.forall_mem_cons.mp hclusters
      obtain ⟨less, rfl⟩ := Nat.exists_eq_add_of_le' (Nat.zero_lt_of_lt hmax)
      have htake : (clusterBytes device volume cluster).take volume.bytesPerCluster =
          clusterBytes device volume cluster := by
        have hbytes : volume.bytesPerCluster = volume.clusterSize := u32_of_lt hsize
        apply List.take_of_length_le
        rw [clusterBytes, List.length_map, List.length_range, hbytes]
      rw [fatReadClusterChain, hcluster.readSectors_eq hsector, hentry]
      simp only [ok_bind, htake]
      cases hrest with
      | ended hlast => simp [hlast]
      | @cons _ after tail hgoing _ _ =>
          rw [if_neg (by simp [hgoing]), ih (by simp) hothers (Nat.le_of_succ_le_succ hmax)]
          rfl

theorem Listing.ne_nil {stored : List FatDirEntry} (hlisting : Listing stored entries) :
    stored ≠ [] := by
  cases hlisting <;> simp

theorem length_ge_of_listing {contents : List UInt8}
    (hlisting : Listing (directoryEntries contents) entries) : contents.length / 32 ≠ 0 := by
  intro hzero
  apply hlisting.ne_nil
  rw [directoryEntries, hzero]
  rfl

/-- Reading a directory delivers these entries. -/
def Delivers (device : DiskDevice) (volume : MountedVolume) (startCluster : ℕ)
    (rootDirectory : Bool) (entries : List DirectoryEntry) : Prop :=
  ∃ contents, fatGetDirectoryContents device volume startCluster rootDirectory =
      .ok (some (contents.length, contents)) ∧ Listing (directoryEntries contents) entries

theorem RootArea.delivers (hroot : RootArea device mounted entries)
    (hreadable : device.readable mounted.rootDirSectorStart mounted.rootDirSectors = true)
    (hsector : device.bytesPerSector = mounted.bytesPerSector) (htype : mounted.fatType ≠ .fat32) :
    Delivers device mounted 0 true entries := by
  refine ⟨_, ?_, hroot.listing⟩
  have hlength : ∀ length (content : ℕ → UInt8),
      ((List.range length).map content).length = length := by simp
  rw [fatGetDirectoryContents, if_pos ⟨rfl, htype⟩, DiskDevice.readSectors, if_pos hreadable]
  simp only [hlength]
  rw [hsector, u32_of_lt hroot.size_lt, if_neg (Nat.lt_irrefl _)]

theorem DirectoryAt.delivers {startCluster : ℕ} {rootDirectory : Bool}
    (hdirectory : DirectoryAt device mounted.toFatVolumeInformation cluster chain entries)
    (hclusters : ∀ cluster ∈ chain, OnDevice device mounted.toFatVolumeInformation cluster)
    (hsector : device.bytesPerSector = mounted.bytesPerSector)
    (hpos : 0 < mounted.clusterSize) (hsize : mounted.clusterSize < 2 ^ 32)
    (hkind : ¬ (rootDirectory = true ∧ mounted.fatType ≠ .fat32))
    (hstart : (if rootDirectory then mounted.rootDirStartCluster else startCluster) = cluster) :
    Delivers device mounted startCluster rootDirectory entries := by
  refine ⟨_, ?_, hdirectory.listing⟩
  have hbytes : 0 < mounted.bytesPerSector := Nat.pos_of_mul_pos_left hpos
  have hne : chain ≠ [] := by
    rintro rfl
    exact length_ge_of_listing hdirectory.listing (by simp)
  have hlength : (chain.flatMap (clusterBytes device mounted.toFatVolumeInformation)).length =
      chain.length * mounted.clusterSize := by
    rw [List.length_flatMap]
    simp [clusterBytes]
  have hproduct : chain.length * mounted.sectorsPerCluster * mounted.bytesPerSector < 2 ^ 32 := by
    rw [Nat.mul_assoc]
    exact hdirectory.size_lt
  have hwords : u32 (u32 (chain.length * mounted.sectorsPerCluster) * mounted.bytesPerSector) =
      chain.length * mounted.clusterSize := by
    rw [u32_of_lt (Nat.lt_of_le_of_lt (Nat.le_mul_of_pos_right _ hbytes) hproduct),
      u32_of_lt hproduct, Nat.mul_assoc]
    rfl
  have hmax : chain.length ≤ 0xFFFFFFFF := (hdirectory.complete.length_lt hbytes).le
  rw [fatGetDirectoryContents, if_neg hkind]
  simp only [hstart]
  rw [hdirectory.complete.fatCountClustersInChain_eq hbytes, ok_bind,
    hdirectory.complete.fatReadClusterChain_eq hsector hsize hne hclusters hmax]
  simp only [ok_bind, hwords, hlength, Nat.lt_irrefl, if_false, if_true]

theorem WellFormed.root_delivers (hvolume : WellFormed device mounted tree)
    (hread : Delivered device mounted 0) : Delivers device mounted 0 true (tree 0) := by
  by_cases htype : mounted.fatType = .fat32
  · obtain ⟨chain, hroot⟩ := hvolume.rootChain htype
    exact hroot.delivers (hread.rootChain rfl htype chain hroot.complete) hvolume.sector_eq
      hvolume.clusterSize_pos hvolume.clusterSize_lt (fun hkind => hkind.2 htype) rfl
  · exact (hvolume.rootArea htype).delivers (hread.rootArea rfl htype) hvolume.sector_eq htype

theorem WellFormed.delivers (hvolume : WellFormed device mounted tree)
    (hdirectory : Reachable tree directory) (hne : directory ≠ 0)
    (hread : Delivered device mounted directory) :
    Delivers device mounted directory false (tree directory) := by
  obtain ⟨chain, hat⟩ := hvolume.directories directory hdirectory hne
  exact hat.delivers (hread.clusters hne chain hat.complete) hvolume.sector_eq
    hvolume.clusterSize_pos hvolume.clusterSize_lt (fun hkind => Bool.false_ne_true hkind.1) rfl

/-! ## Splitting a path -/

/-- Both ways to take a path apart come to the same component. -/
theorem path_cases (path : CString) :
    (path.countP isSeparator = 0 ∧ pathParts path = [path] ∧
        fsGetFirstElementFromPath path = path) ∨
      path.countP isSeparator = (skipPathPart path).countP isSeparator + 1 ∧
        pathParts path = fsGetFirstElementFromPath path :: pathParts (skipPathPart path) := by
  have hall : ∀ c ∈ fsGetFirstElementFromPath path, isSeparator c = false := by
    intro c hmem
    simpa using List.mem_takeWhile_imp hmem
  have hsplit : fsGetFirstElementFromPath path ++ path.dropWhile (fun c => !isSeparator c) = path :=
    List.takeWhile_append_dropWhile
  cases hrest : path.dropWhile fun c => !isSeparator c with
  | nil =>
      rw [hrest, List.append_nil] at hsplit
      rw [hsplit] at hall
      refine Or.inl ⟨?_, List.splitOnP_eq_singleton hall, hsplit⟩
      rw [List.countP_eq_zero]
      intro c hmem
      rw [hall c hmem]
      exact Bool.false_ne_true
  | cons separator rest =>
      have hseparator : isSeparator separator = true := by
        have hhead := @List.head_dropWhile_not _ (fun c => !isSeparator c) path
          (by rw [hrest]; simp)
        simpa [hrest] using hhead
      have hskip : skipPathPart path = rest := by
        rw [skipPathPart, hrest]
        rfl
      rw [hrest] at hsplit
      refine Or.inr ⟨?_, ?_⟩
      · have hnone : (fsGetFirstElementFromPath path).countP isSeparator = 0 :=
          List.countP_eq_zero.mpr fun c hmem => by rw [hall c hmem]; exact Bool.false_ne_true
        conv_lhs => rw [← hsplit]
        rw [hskip, List.countP_append, List.countP_cons_of_pos hseparator, hnone, Nat.zero_add]
      · have hparts := List.splitOnP_append_cons_of_forall_mem hall separator hseparator rest
        rw [hsplit] at hparts
        rw [hskip]
        exact hparts

/-! ## The whole path -/

/-- A part of a path that `fat_findFile` can hold. -/
def PartOk (name : CString) : Prop := name ≠ [] ∧ name.length ≤ 260 ∧ 0 ∉ name

instance (name : CString) : Decidable (PartOk name) := inferInstanceAs (Decidable (_ ∧ _ ∧ _))

theorem WellFormed.bytesPerSector_pos (hvolume : WellFormed device mounted tree) :
    0 < mounted.bytesPerSector := Nat.pos_of_mul_pos_left hvolume.clusterSize_pos

theorem WellFormed.chain_of_mem (hvolume : WellFormed device mounted tree)
    (hdirectory : Reachable tree directory) (hmem : entry ∈ shown tree directory)
    (hne : entry.startCluster ≠ 0) : ∃ clusters,
      CompleteChain device mounted.toFatVolumeInformation entry.startCluster
        (entry.startCluster :: clusters) := by
  obtain ⟨listed, hlisted, rfl⟩ := List.mem_map.mp hmem
  exact hvolume.chains directory hdirectory listed hlisted hne

theorem Reachable.step_shown (hdirectory : Reachable tree directory)
    (hmem : entry ∈ shown tree directory) (hkind : entry.isDirectory = true) :
    Reachable tree entry.startCluster := by
  obtain ⟨listed, hlisted, rfl⟩ := List.mem_map.mp hmem
  have hreached : Reachable tree listed.startCluster := hdirectory.step hlisted hkind
  exact hreached

/-- The round for a directory searches it for the first part of the path. -/
theorem searches_part {contents : List UInt8}
    (hlisting : Listing (directoryEntries contents) (tree directory)) (hname : PartOk name) :
    fatSearchDirectoryForFile device mounted contents contents.length name =
      fillIn device mounted.toFatVolumeInformation
        ((shown tree directory).find? fun entry => entry.Named name) := by
  rw [fatSearchDirectoryForFile_kept device mounted hlisting.kept (length_ge_of_listing hlisting)
    hname.1 hname.2.2, shown, List.find?_map]
  have hsame : ∀ found : Option DirectoryEntry,
      fillIn device mounted.toFatVolumeInformation (found.map DirectoryEntry.cut) =
        fillIn device mounted.toFatVolumeInformation found := by
    rintro (_ | entry) <;> rfl
  rw [hsame]
  rfl

/-- The chain of an entry on the way is listed exactly if it ends where it has to start at
cluster 0. -/
theorem WellFormed.lists_iff (hvolume : WellFormed device mounted tree)
    (hdirectory : Reachable tree directory) (hmem : entry ∈ shown tree directory) :
    (∃ array, fatGetFatChain device mounted.toFatVolumeInformation entry.startCluster =
      .ok array) ↔
        (entry.startCluster = 0 → WalkEnds device mounted.toFatVolumeInformation 0) := by
  have hreturns := @fatGetFatChain_returns_iff device mounted.toFatVolumeInformation
    entry.startCluster hvolume.bytesPerSector_pos
  by_cases hzero : entry.startCluster = 0
  · rw [hreturns, hzero]
    exact ⟨fun hends _ => hends, fun hends => hends rfl⟩
  · obtain ⟨clusters, hcomplete⟩ := hvolume.chain_of_mem hdirectory hmem hzero
    exact iff_of_true ⟨_, hcomplete.fatGetFatChain_eq hvolume.bytesPerSector_pos⟩
      fun heq => absurd heq hzero

theorem searched_step {part : CString} {rest : List CString}
    (hfound : (tree directory).find? (fun entry => entry.Named part) = some entry)
    (hkind : entry.isDirectory = true) :
    searched tree directory (part :: rest) =
        directory :: searched tree entry.startCluster rest ∧
      met tree directory (part :: rest) = entry :: met tree entry.startCluster rest := by
  rw [searched, met, hfound]
  simp only [hkind, if_true, and_self]

/-- What holds on the way on holds on its rest. -/
theorem Direct.rest {part : CString} {rest : List CString}
    (hdirect : Direct device mounted tree directory (part :: rest)) (hne : rest ≠ [])
    (hfound : (shown tree directory).find? (fun entry => entry.Named part) = some entry)
    (hkind : entry.isDirectory = true) :
    entry.startCluster ≠ 0 ∧ Delivered device mounted entry.startCluster ∧
      Direct device mounted tree entry.startCluster rest := by
  obtain ⟨hsearched, -⟩ := @searched_step _ _ _ _ rest hfound hkind
  obtain ⟨next, after, rfl⟩ := List.exists_cons_of_ne_nil hne
  have hfirst : entry.startCluster ∈ searched (shown tree) entry.startCluster (next :: after) := by
    rw [searched]
    exact List.mem_cons_self
  have haway := hdirect.away
  have hread := hdirect.delivered
  rw [hsearched] at haway hread
  exact ⟨haway _ hfirst, hread _ (List.mem_cons_of_mem _ hfirst),
    fun before hmem => haway before (List.mem_of_mem_tail hmem),
    fun before hmem => hread before (List.mem_cons_of_mem _ hmem)⟩

/-- The lookup is the one among the entries as the search compares them. -/
structure LooksUp (device : DiskDevice) (volume : MountedVolume) (found : Option DirectoryEntry)
    (way : List DirectoryEntry) (outcome : Outcome (Option FoundFile)) : Prop where
  ends : EmptyEnd device volume way →
    outcome = fillIn device volume.toFatVolumeInformation found
  halts : ¬ EmptyEnd device volume way → ∃ halt, outcome = .error halt

theorem fillIn_of_listed {array : Option (List ℕ)}
    (harray : fatGetFatChain device volume entry.startCluster = .ok array) :
    fillIn device volume (some entry) = .ok (some ⟨entry.attributes, entry.size, array⟩) := by
  rw [fillIn, harray]
  rfl

theorem fillIn_halts
    (hnone : ¬ ∃ array, fatGetFatChain device volume entry.startCluster = .ok array) :
    ∃ halt, fillIn device volume (some entry) = .error halt := by
  cases hresult : fatGetFatChain device volume entry.startCluster with
  | ok array => exact absurd ⟨array, hresult⟩ hnone
  | error halt => exact ⟨halt, by rw [fillIn, hresult]; rfl⟩

theorem emptyEnd_cons {way : List DirectoryEntry} :
    EmptyEnd device mounted (entry :: way) ↔
      (entry.startCluster = 0 → WalkEnds device mounted.toFatVolumeInformation 0) ∧
        EmptyEnd device mounted way :=
  List.forall_mem_cons

theorem emptyEnd_nil : EmptyEnd device mounted [] := by
  intro entry hmem
  cases hmem

/-- Where the search of a directory is the last one, the way on is the entry it finds. -/
theorem LooksUp.of_last {next : Option FoundFile → Outcome (Option FoundFile)}
    (hlists : (∃ array, fatGetFatChain device mounted.toFatVolumeInformation entry.startCluster =
      .ok array) ↔
        (entry.startCluster = 0 → WalkEnds device mounted.toFatVolumeInformation 0))
    (hnext : ∀ array, fatGetFatChain device mounted.toFatVolumeInformation entry.startCluster =
      .ok array → next (some ⟨entry.attributes, entry.size, array⟩) =
        fillIn device mounted.toFatVolumeInformation found) :
    LooksUp device mounted found [entry]
      (fillIn device mounted.toFatVolumeInformation (some entry) >>= next) := by
  have hway : EmptyEnd device mounted [entry] ↔
      (entry.startCluster = 0 → WalkEnds device mounted.toFatVolumeInformation 0) := by
    rw [emptyEnd_cons, and_iff_left emptyEnd_nil]
  constructor
  · intro hends
    obtain ⟨array, harray⟩ := hlists.mpr (hway.mp hends)
    rw [fillIn_of_listed harray, ok_bind]
    exact hnext array harray
  · intro hnot
    obtain ⟨halt, hhalt⟩ := fillIn_halts (mt (hlists.trans hway.symm).mp hnot)
    exact ⟨halt, by rw [hhalt]; rfl⟩

theorem findLoop_looksUp (hvolume : WellFormed device mounted tree)
    (hdirectory : Reachable tree directory) {rootDirectory : Bool} {startCluster : ℕ}
    (hdelivers : Delivers device mounted startCluster rootDirectory (tree directory))
    (hparts : ∀ part ∈ pathParts path, PartOk part)
    (hdirect : Direct device mounted tree directory (pathParts path)) :
    LooksUp device mounted (lookup (shown tree) directory (pathParts path))
      (met (shown tree) directory (pathParts path))
      (findLoop device mounted (path.countP isSeparator) startCluster rootDirectory path) := by
  obtain ⟨contents, hcontents, hlisting⟩ := hdelivers
  induction hcount : path.countP isSeparator
    generalizing path directory rootDirectory startCluster contents with
  | zero =>
      rcases path_cases path with ⟨_, hsingle, hfirst⟩ | ⟨hmore, _⟩
      · rw [hsingle] at hparts hdirect ⊢
        have hpart := List.forall_mem_singleton.mp hparts
        have hsearch := @searches_part device mounted tree directory path contents hlisting hpart
        rw [findLoop, hfirst]
        simp only [if_neg (Nat.not_lt.mpr hpart.2.1), hcontents, ok_bind, hsearch]
        rw [lookup, met]
        cases hfound : (shown tree directory).find? fun entry => entry.Named path with
        | none => exact ⟨fun _ => rfl, fun hway => absurd emptyEnd_nil hway⟩
        | some entry =>
            have hlists := hvolume.lists_iff hdirectory (List.mem_of_find?_eq_some hfound)
            dsimp only
            rw [met, ite_self]
            exact LooksUp.of_last hlists fun array harray => (fillIn_of_listed harray).symm
      · omega
  | succ remaining ih =>
      rcases path_cases path with ⟨hnone, _⟩ | ⟨hmore, hcons⟩
      · omega
      rw [hcons] at hparts hdirect ⊢
      obtain ⟨hpart, hothers⟩ := List.forall_mem_cons.mp hparts
      have hsearch := @searches_part device mounted tree directory _ contents hlisting hpart
      have hne : pathParts (skipPathPart path) ≠ [] := List.splitOnP_ne_nil _ _
      obtain ⟨next, after, hafter⟩ := List.exists_cons_of_ne_nil hne
      rw [findLoop]
      simp only [if_neg (Nat.not_lt.mpr hpart.2.1), hcontents, ok_bind, hsearch]
      rw [hafter, lookup, met, ← hafter]
      cases hfound : (shown tree directory).find? fun entry =>
          entry.Named (fsGetFirstElementFromPath path) with
      | none => exact ⟨fun _ => rfl, fun hway => absurd emptyEnd_nil hway⟩
      | some entry =>
          have hmem := List.mem_of_find?_eq_some hfound
          have hlists := hvolume.lists_iff hdirectory hmem
          dsimp only
          by_cases hkind : entry.isDirectory = true
          · -- one level down
            obtain ⟨hzero, hread, hrest⟩ := hdirect.rest hne hfound hkind
            obtain ⟨clusters, hcomplete⟩ := hvolume.chain_of_mem hdirectory hmem hzero
            have hreached := hdirectory.step_shown hmem hkind
            obtain ⟨inner, hinner, hinside⟩ := hvolume.delivers hreached hzero hread
            have hlevel := ih hreached hothers hrest inner hinner hinside (by omega)
            rw [if_pos hkind, if_pos hkind,
              fillIn_of_listed (hcomplete.fatGetFatChain_eq hvolume.bytesPerSector_pos)]
            simp only [ok_bind]
            rw [if_neg (by simpa [DirectoryEntry.isDirectory] using hkind)]
            have hway : EmptyEnd device mounted
                (entry :: met (shown tree) entry.startCluster (pathParts (skipPathPart path))) ↔
                EmptyEnd device mounted
                  (met (shown tree) entry.startCluster (pathParts (skipPathPart path))) := by
              rw [emptyEnd_cons]
              exact and_iff_right fun heq => absurd heq hzero
            exact ⟨fun hends => hlevel.ends (hway.mp hends),
              fun hnot => hlevel.halts (mt hway.mpr hnot)⟩
          · have hfile : entry.attributes &&& attrDirectory = 0 := by
              simpa [DirectoryEntry.isDirectory] using hkind
            rw [if_neg hkind, if_neg hkind]
            exact LooksUp.of_last hlists fun array _ => if_pos hfile

/-- An entry that a path names is in a directory of the tree. -/
theorem mem_of_lookup {entriesOf : ℕ → List DirectoryEntry} {parts : List CString}
    (hstep : ∀ directory entry, Reachable tree directory → entry ∈ entriesOf directory →
      entry.isDirectory = true → Reachable tree entry.startCluster)
    (hdirectory : Reachable tree directory)
    (hfound : lookup entriesOf directory parts = some entry) :
    ∃ before, Reachable tree before ∧ entry ∈ entriesOf before := by
  induction parts generalizing directory with
  | nil => cases hfound
  | cons name rest ih =>
      cases rest with
      | nil => exact ⟨directory, hdirectory, List.mem_of_find?_eq_some hfound⟩
      | cons next rest =>
          rw [lookup] at hfound
          split at hfound
          · cases hfound
          · rename_i first hfirst
            split at hfound
            · rename_i hkind
              exact ih (hstep _ _ hdirectory (List.mem_of_find?_eq_some hfirst) hkind) hfound
            · cases hfound

/-- What is filled in for an entry on the volume is the file that is wanted exactly if it is the
same file. -/
theorem WellFormed.fills_iff (hvolume : WellFormed device mounted tree)
    (hfound : ∀ entry, found = some entry → ∃ before, Reachable tree before ∧
      entry ∈ shown tree before)
    (hwanted : ∀ entry, wanted = some entry → ∃ before, Reachable tree before ∧
      entry ∈ tree before) :
    Fills device mounted wanted (fillIn device mounted.toFatVolumeInformation found) ↔
      SameFile device mounted found wanted := by
  have hsector := hvolume.bytesPerSector_pos
  cases found with
  | none =>
      cases wanted with
      | none => simp [Fills, fillIn, SameFile]
      | some wanted => simp [Fills, fillIn, SameFile]
  | some entry =>
      obtain ⟨before, hbefore, hmem⟩ := hfound entry rfl
      cases wanted with
      | none =>
          refine iff_of_false (fun hnone => ?_) id
          cases hlist : fatGetFatChain device mounted.toFatVolumeInformation entry.startCluster <;>
            simp [Fills, fillIn, hlist] at hnone
      | some wanted =>
          obtain ⟨place, hplace, hwantedMem⟩ := hwanted wanted rfl
          constructor
          · rintro ⟨chain, hcomplete, houtcome⟩
            obtain ⟨array, harray, hfile⟩ := bind_eq_ok.mp houtcome
            simp only [Except.ok.injEq, Option.some.injEq, FoundFile.mk.injEq] at hfile
            obtain ⟨hattributes, hsize, rfl⟩ := hfile
            refine ⟨hattributes, hsize, chain, ?_, hcomplete⟩
            by_cases hzero : entry.startCluster = 0
            · -- only an entry without clusters is listed from cluster 0
              have hsame : wanted.startCluster = 0 := by
                by_contra hne
                obtain ⟨clusters, hstart⟩ := hvolume.chains place hplace wanted hwantedMem hne
                rw [hcomplete.unique hstart] at harray
                exact hne ((eq_of_fatGetFatChain harray).trans hzero)
              rwa [hzero, ← hsame]
            · obtain ⟨clusters, hstart⟩ := hvolume.chain_of_mem hbefore hmem hzero
              have hlisted := hstart.fatGetFatChain_eq hsector
              rw [hlisted, Except.ok.injEq, Option.some.injEq] at harray
              rwa [← harray]
          · rintro ⟨hattributes, hsize, chain, hcomplete, hwantedChain⟩
            refine ⟨chain, hwantedChain, ?_⟩
            rw [fillIn_of_listed (hcomplete.fatGetFatChain_eq hsector), hattributes, hsize]

/-- A path that does not lead back into the root is looked up as it should be exactly if the
chains from cluster 0 on the way end and the names that the search compares lead to the same
file. -/
theorem fatFindFile_fills_iff (hvolume : WellFormed device mounted tree)
    (hparts : ∀ part ∈ pathParts path, PartOk part)
    (hdirect : Direct device mounted tree 0 (pathParts path)) :
    Fills device mounted (lookup tree 0 (pathParts path)) (fatFindFile device mounted path) ↔
      EmptyEnd device mounted (met (shown tree) 0 (pathParts path)) ∧
        SameFile device mounted (lookup (shown tree) 0 (pathParts path))
          (lookup tree 0 (pathParts path)) := by
  have hroot : 0 ∈ searched (shown tree) 0 (pathParts path) := by
    obtain ⟨first, rest, hcons⟩ := List.exists_cons_of_ne_nil
      (List.splitOnP_ne_nil isSeparator path)
    rw [pathParts, hcons, searched]
    exact List.mem_cons_self
  have hlooksUp := findLoop_looksUp hvolume .root
    (hvolume.root_delivers (hdirect.delivered 0 hroot)) hparts hdirect
  have hcall : fatFindFile device mounted path =
      findLoop device mounted (path.countP isSeparator) 0 true path := rfl
  rw [hcall]
  by_cases hway : EmptyEnd device mounted (met (shown tree) 0 (pathParts path))
  · rw [hlooksUp.ends hway, and_iff_right hway]
    exact hvolume.fills_iff
      (fun entry hfound => mem_of_lookup (fun _ _ => Reachable.step_shown) .root hfound)
      (fun entry hfound => mem_of_lookup (fun _ _ => Reachable.step) .root hfound)
  · obtain ⟨halt, hhalt⟩ := hlooksUp.halts hway
    rw [hhalt]
    refine iff_of_false (fun hfills => ?_) fun hboth => hway hboth.1
    cases hwanted : lookup tree 0 (pathParts path) with
    | none =>
        rw [hwanted] at hfills
        cases hfills
    | some wanted =>
        rw [hwanted] at hfills
        obtain ⟨_, _, hfile⟩ := hfills
        cases hfile

/-! ## A volume with one directory -/

def storedDirectory (name : List UInt8) (cluster : UInt8) : FatDirEntry :=
  pad 11 name ++ attrDirectory :: List.replicate 14 0 ++ [cluster, 0, 0, 0, 0, 0]

def storedSpaced : FatDirEntry := pad 11 [0x41, space, 0x42] ++ 0x20 :: List.replicate 20 0

/-- One sector each for the table, the root and the directory. -/
def smallDevice : DiskDevice where
  bytesPerSector := 512
  content := fun position =>
    match position / 512 with
    | 1 => [0xF8, 0xFF, 0xFF, 0xFF, 0x0F].getD (position % 512) 0
    | 2 => (storedDirectory [0x44] 2 ++ storedSpaced).getD (position % 512) 0
    | 3 => (storedDirectory [dot] 2 ++ storedDirectory [dot, dot] 0).getD (position % 512) 0
    | _ => 0
  readable := fun startSector sectorCount => startSector + sectorCount ≤ 4

def smallVolume : MountedVolume where
  bytesPerSector := 512
  sectorsPerCluster := 1
  activeFatSectorStart := 1
  dataSectorStart := 3
  fatType := .fat12
  fatSectorStart := 1
  numberOfFats := 1
  sectorsPerFat := 1
  rootDirSectorStart := 2
  rootDirSectors := 1
  rootDirStartCluster := 0

def plainDirectory (name : CString) (startCluster : ℕ) : DirectoryEntry :=
  ⟨name, [], [], attrDirectory, 0, startCluster⟩

def spacedFile : DirectoryEntry := ⟨[0x41, space, 0x42], [], [], 0x20, 0, 0⟩

/-- `D`, and in it its own entry and the one of the root; behind it an empty file `A B`. -/
def smallTree : ℕ → List DirectoryEntry
  | 0 => [plainDirectory [0x44] 2, spacedFile]
  | 2 => [plainDirectory [dot] 2, plainDirectory [dot, dot] 0]
  | _ => []

theorem noSlots : LongNameSlots [] [] := ⟨by decide, by decide, by decide, by simp, .nil⟩

theorem stores_plainDirectory {name : CString} {cluster : UInt8}
    (hname : name = [0x44] ∧ cluster = 2 ∨ name = [dot] ∧ cluster = 2 ∨
      name = [dot, dot] ∧ cluster = 0) :
    Stores (plainDirectory name cluster.toNat) (storedDirectory name cluster) := by
  rcases hname with ⟨rfl, rfl⟩ | ⟨rfl, rfl⟩ | ⟨rfl, rfl⟩ <;>
    constructor <;> decide +kernel

theorem stores_spacedFile : Stores spacedFile storedSpaced := by
  constructor <;> decide +kernel

theorem smallTree_listing :
    Listing (storedDirectory [0x44] 2 :: storedSpaced :: List.replicate 14 (List.replicate 32 0))
        (smallTree 0) ∧
      Listing (storedDirectory [dot] 2 :: storedDirectory [dot, dot] 0 ::
        List.replicate 14 (List.replicate 32 0)) (smallTree 2) := by
  have hblank : ∀ n, Listing (List.replicate (n + 1) (List.replicate 32 0)) [] :=
    fun _ => .ended rfl
  refine ⟨.live noSlots (@stores_plainDirectory [0x44] 2 (by decide))
    (.live noSlots stores_spacedFile (hblank 13)), ?_⟩
  exact .live noSlots (@stores_plainDirectory [dot] 2 (by decide))
    (.live noSlots (@stores_plainDirectory [dot, dot] 0 (by decide)) (hblank 13))

theorem smallChain : CompleteChain smallDevice smallVolume.toFatVolumeInformation 2 [2] :=
  @CompleteChain.cons _ _ _ 0xFFF _ rfl (by decide +kernel) (.ended (by decide))

theorem smallTree_startCluster {entry : DirectoryEntry} (hdirectory : directory = 0 ∨ directory = 2)
    (hmem : entry ∈ smallTree directory) : entry.startCluster = 0 ∨ entry.startCluster = 2 := by
  have hentries : ∀ entry ∈ smallTree 0 ++ smallTree 2,
      entry.startCluster = 0 ∨ entry.startCluster = 2 := by decide
  refine hentries entry (List.mem_append.mpr ?_)
  rcases hdirectory with rfl | rfl
  · exact Or.inl hmem
  · exact Or.inr hmem

theorem smallTree_directory (hdirectory : Reachable smallTree directory) :
    directory = 0 ∨ directory = 2 := by
  induction hdirectory with
  | root => exact Or.inl rfl
  | step _ hmem _ ih => exact smallTree_startCluster ih hmem

/-- The entries of a directory, byte by byte. -/
theorem directoryEntries_map_range (count : ℕ) (content : ℕ → UInt8) :
    directoryEntries ((List.range (count * 32)).map content) =
      (List.range count).map fun index =>
        (List.range 32).map fun k => content (32 * index + k) := by
  rw [directoryEntries, List.length_map, List.length_range, Nat.mul_div_cancel _ (by decide)]
  apply List.map_congr_left
  intro index hindex
  have hlt : index < count := List.mem_range.mp hindex
  rw [← List.map_drop, ← List.map_take, List.range_eq_range', List.drop_range',
    List.take_range'_of_length_ge (by omega), List.range'_eq_map_range, List.map_map, Nat.mul_one,
    Nat.zero_add]
  rfl

theorem smallVolume_wellFormed : WellFormed smallDevice smallVolume smallTree where
  sector_eq := rfl
  clusterSize_pos := by decide
  clusterSize_lt := by decide
  rootArea := fun _ => by
    refine ⟨by decide, ?_⟩
    have hentries : (List.range 16).map (fun index => (List.range 32).map fun k =>
        smallDevice.content (2 * 512 + (32 * index + k))) =
        storedDirectory [0x44] 2 :: storedSpaced :: List.replicate 14 (List.replicate 32 0) := by
      decide +kernel
    have hlisting := smallTree_listing.1
    rwa [← hentries, ← directoryEntries_map_range 16 fun k => smallDevice.content (2 * 512 + k)]
      at hlisting
  rootChain := fun htype => by cases htype
  directories := fun directory hdirectory hne => by
    obtain rfl := (smallTree_directory hdirectory).resolve_left hne
    refine ⟨[2], smallChain, by decide, ?_⟩
    · have hentries : (List.range 16).map (fun index => (List.range 32).map fun k =>
          smallDevice.content (3 * 512 + (32 * index + k))) =
          storedDirectory [dot] 2 :: storedDirectory [dot, dot] 0 ::
            List.replicate 14 (List.replicate 32 0) := by
        decide +kernel
      have hlisting := smallTree_listing.2
      rw [← hentries, ← directoryEntries_map_range 16 fun k => smallDevice.content (3 * 512 + k)]
        at hlisting
      rwa [List.flatMap_singleton]
  chains := fun directory hdirectory entry hmem hne => by
    rw [(smallTree_startCluster (smallTree_directory hdirectory) hmem).resolve_left hne]
    exact ⟨[], smallChain⟩

theorem smallVolume_delivered (hdirectory : directory = 0 ∨ directory = 2) :
    Delivered smallDevice smallVolume directory where
  rootArea := fun _ _ => by decide
  rootChain := fun _ htype => by cases htype
  clusters := fun hne chain hchain => by
    obtain rfl := hdirectory.resolve_left hne
    rw [hchain.unique smallChain, List.forall_mem_singleton]
    exact ⟨by decide, by decide, by decide, by decide⟩

/-- `D/.`. -/
def intoDirectory : CString := [0x44, slash, dot]

theorem fatFindFile_fills_iff_intoDirectory :
    Fills smallDevice smallVolume (lookup smallTree 0 (pathParts intoDirectory))
        (fatFindFile smallDevice smallVolume intoDirectory) ↔
      EmptyEnd smallDevice smallVolume (met (shown smallTree) 0 (pathParts intoDirectory)) ∧
        SameFile smallDevice smallVolume (lookup (shown smallTree) 0 (pathParts intoDirectory))
          (lookup smallTree 0 (pathParts intoDirectory)) := by
  have hway : ∀ before ∈ searched (shown smallTree) 0 (pathParts intoDirectory),
      before = 0 ∨ before = 2 := by
    decide +kernel
  exact fatFindFile_fills_iff smallVolume_wellFormed (by decide +kernel)
    ⟨by decide +kernel, fun before hmem => smallVolume_delivered (hway before hmem)⟩

/-- `D/../D`. -/
def throughRoot : CString := [0x44, slash, dot, dot, slash, 0x44]

/-- The parent of `D` is searched where cluster 0 would lie, and there is the table. -/
theorem throughRoot_not_filled :
    ¬ ∀ (device : DiskDevice) (volume : MountedVolume) (tree : ℕ → List DirectoryEntry)
      (path : CString), WellFormed device volume tree →
      (∀ directory, Reachable tree directory → Delivered device volume directory) →
      (∀ part ∈ pathParts path, PartOk part) →
        Fills device volume (lookup tree 0 (pathParts path)) (fatFindFile device volume path) := by
  intro hall
  have hfills := hall smallDevice smallVolume smallTree throughRoot smallVolume_wellFormed
    (fun _ hdirectory => smallVolume_delivered (smallTree_directory hdirectory))
    (by decide +kernel)
  have hfound : lookup smallTree 0 (pathParts throughRoot) = some (plainDirectory [0x44] 2) := by
    decide +kernel
  have hmissed : fatFindFile smallDevice smallVolume throughRoot = .ok none := by decide +kernel
  rw [hfound, hmissed] at hfills
  obtain ⟨chain, _, hfile⟩ := hfills
  cases hfile

end GeexOS.Fat
