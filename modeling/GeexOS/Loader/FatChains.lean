import GeexOS.Library.Walks
import GeexOS.Loader.FatFile

/-!
# Walking a chain of clusters

The loops over a chain stop at an end mark or at a read that fails.  What the
table on the disk says decides whether they come to one.
-/

namespace GeexOS.Fat

open GeexOS.Words
open GeexOS.Halting
open GeexOS.Walks

variable {device : DiskDevice} {volume : FatVolumeInformation}
variable {startCluster cluster next fuel i entries n : ℕ}

/-! ## Rounds of the loops -/

/-- The entries that `fat_countClustersInChain` looks up. -/
def countRounds (device : DiskDevice) (volume : FatVolumeInformation) :
    (fuel startCluster : ℕ) → ℕ
  | 0, _ => 0
  | fuel + 1, startCluster =>
      if volume.endOfChain startCluster then 0
      else
        match fatGetFatEntry device volume startCluster with
        | .ok (some next) => countRounds device volume fuel next + 1
        | _ => 1

/-- The clusters that `fat_readClusterChain` asks the device for. -/
def readRounds (device : DiskDevice) (volume : FatVolumeInformation) :
    (maxClusters startCluster : ℕ) → ℕ
  | 0, _ => 0
  | maxClusters + 1, startCluster =>
      match device.readSectors (volume.clusterSector startCluster)
          volume.sectorsPerCluster with
      | none => 1
      | some _ =>
          match fatGetFatEntry device volume startCluster with
          | .ok (some next) =>
              if volume.endOfChain next then 1
              else readRounds device volume maxClusters next + 1
          | _ => 1

/-- The counting loop comes back and has looked up at most so many entries. -/
def CountsWithin (device : DiskDevice) (volume : FatVolumeInformation)
    (startCluster entries : ℕ) : Prop :=
  (∃ count, fatCountClustersInChain device volume startCluster = .ok count) ∧
    countRounds device volume (2 ^ 32 + 1) startCluster ≤ entries

/-- `fat_getFatChain` comes back, and neither its count nor the loop behind it
takes more rounds. -/
def ListsWithin (device : DiskDevice) (volume : FatVolumeInformation)
    (startCluster entries : ℕ) : Prop :=
  (∃ array, fatGetFatChain device volume startCluster = .ok array) ∧
    countRounds device volume (2 ^ 32 + 1) startCluster ≤ entries ∧
    ∀ count, fatCountClustersInChain device volume startCluster = .ok count → count ≤ entries

/-- A directory is read in at most so many rounds. -/
def ReadsWithin (device : DiskDevice) (volume : FatVolumeInformation)
    (startCluster entries : ℕ) : Prop :=
  (∃ result, fatReadClusterChain device volume 0xFFFFFFFF startCluster = .ok result) ∧
    readRounds device volume 0xFFFFFFFF startCluster ≤ entries

/-! ## The walk along the table -/

/-- The cluster that the table names behind a cluster, if it can be read and
names one. -/
def nextCluster (device : DiskDevice) (volume : FatVolumeInformation) (cluster : ℕ) :
    Option ℕ :=
  match fatGetFatEntry device volume cluster with
  | .ok (some next) => if volume.endOfChain next then none else some next
  | _ => none

def firstCluster (volume : FatVolumeInformation) (startCluster : ℕ) : Option ℕ :=
  if volume.endOfChain startCluster then none else some startCluster

/-- The next cluster to read: none if this one cannot be read. -/
def nextRead (device : DiskDevice) (volume : FatVolumeInformation) (cluster : ℕ) : Option ℕ :=
  if device.readable (volume.clusterSector cluster) volume.sectorsPerCluster then
    nextCluster device volume cluster
  else none

/-- The walk from a cluster along the table comes to an end. -/
def WalkEnds (device : DiskDevice) (volume : FatVolumeInformation) (cluster : ℕ) : Prop :=
  ∃ n, StopsAfter (nextCluster device volume) (firstCluster volume cluster) n

/-- Only a volume without a sector size makes the lookup fault. -/
theorem exists_fatGetFatEntry (device : DiskDevice) (hsector : 0 < volume.bytesPerSector)
    (cluster : ℕ) :
    ∃ entry, fatGetFatEntry device volume cluster = .ok entry := by
  have hread : ∀ fatOffset straddles, ∃ sectors,
      readFatSectors device volume fatOffset straddles = .ok sectors := by
    intro fatOffset straddles
    rw [readFatSectors, if_neg hsector.ne']
    exact ⟨_, rfl⟩
  rw [fatGetFatEntry]
  cases volume.fatType with
  | fat12 =>
      obtain ⟨sectors, hsectors⟩ := hread (u32 (cluster + cluster / 2)) true
      exact ⟨_, by rw [hsectors]; rfl⟩
  | fat16 =>
      obtain ⟨sectors, hsectors⟩ := hread (u32 (cluster * 2)) false
      exact ⟨_, by rw [hsectors]; rfl⟩
  | fat32 =>
      obtain ⟨sectors, hsectors⟩ := hread (u32 (cluster * 4)) false
      exact ⟨_, by rw [hsectors]; rfl⟩

theorem lt_of_endOfChain (hend : volume.endOfChain cluster = false) : cluster < 0x0FFFFFF8 := by
  simp only [FatVolumeInformation.endOfChain, Bool.or_eq_false_iff, decide_eq_false_iff_not,
    Bool.and_eq_false_iff] at hend
  cases htype : volume.fatType <;> simp [htype] at hend <;> omega

theorem nextCluster_of_entry (hentry : fatGetFatEntry device volume cluster = .ok (some next)) :
    nextCluster device volume cluster = firstCluster volume next := by
  rw [nextCluster, hentry]
  rfl

theorem nextCluster_of_unreadable (hentry : fatGetFatEntry device volume cluster = .ok none) :
    nextCluster device volume cluster = none := by
  rw [nextCluster, hentry]

theorem lt_of_mem_firstCluster (hfirst : firstCluster volume startCluster = some cluster) :
    cluster < 0x0FFFFFF8 := by
  rw [firstCluster] at hfirst
  split at hfirst
  · cases hfirst
  · rename_i hend
    rw [← Option.some.inj hfirst]
    exact lt_of_endOfChain (by simpa using hend)

theorem lt_of_nextCluster (hsector : 0 < volume.bytesPerSector)
    (hnext : nextCluster device volume cluster = some next) : next < 0x0FFFFFF8 := by
  obtain ⟨entry, hentry⟩ := exists_fatGetFatEntry device hsector cluster
  cases entry with
  | none =>
      rw [nextCluster_of_unreadable hentry] at hnext
      cases hnext
  | some other =>
      rw [nextCluster_of_entry hentry] at hnext
      exact lt_of_mem_firstCluster hnext

/-- All cluster numbers behind the first one are numbers of the table. -/
theorem met_subset {step : ℕ → Option ℕ} {first : Option ℕ}
    (hstep : ∀ cluster next, step cluster = some next → next < 0x0FFFFFF8) :
    met step first ⊆ {cluster | first = some cluster} ∪ {cluster | cluster < 0x0FFFFFF8} := by
  rintro cluster ⟨n, hn⟩
  cases n with
  | zero => exact Or.inl hn
  | succ n =>
      obtain ⟨before, _, hcluster⟩ := Option.bind_eq_some_iff.mp hn
      exact Or.inr (hstep before cluster hcluster)

theorem finite_first (first : Option ℕ) : {cluster : ℕ | first = some cluster}.Finite :=
  Set.Subsingleton.finite fun _ hleft _ hright => Option.some.inj (hleft.symm.trans hright)

theorem finite_met {step : ℕ → Option ℕ} (first : Option ℕ)
    (hstep : ∀ cluster next, step cluster = some next → next < 0x0FFFFFF8) :
    (met step first).Finite :=
  Set.Finite.subset (Set.Finite.union (finite_first first) (Set.finite_lt_nat _))
    (met_subset hstep)

/-- A walk that stops does so long before the counters of the loops run out. -/
theorem stopsAfter_lt {step : ℕ → Option ℕ} {first : Option ℕ}
    (hstep : ∀ cluster next, step cluster = some next → next < 0x0FFFFFF8)
    (hstops : StopsAfter step first n) : n < 0xFFFFFFFF := by
  have hrange : {cluster : ℕ | cluster < 0x0FFFFFF8}.ncard = 0x0FFFFFF8 := by
    have hcoe : {cluster : ℕ | cluster < 0x0FFFFFF8} = (Finset.range 0x0FFFFFF8 : Set ℕ) := by
      ext cluster
      simp
    rw [hcoe, Set.ncard_coe_finset, Finset.card_range]
  have hfirst : {cluster : ℕ | first = some cluster}.ncard ≤ 1 :=
    (Set.ncard_le_one (finite_first first)).mpr fun _ hleft _ hright =>
      Option.some.inj (hleft.symm.trans hright)
  have hunion := Set.ncard_union_le {cluster : ℕ | first = some cluster}
    {cluster : ℕ | cluster < 0x0FFFFFF8}
  have hsubset := Set.ncard_le_ncard (met_subset hstep)
    (Set.Finite.union (finite_first first) (Set.finite_lt_nat _))
  rw [hstops.ncard_met] at hsubset
  omega

/-! ## Counting -/

theorem countRounds_eq (hsector : 0 < volume.bytesPerSector) (fuel startCluster : ℕ) :
    countRounds device volume fuel startCluster =
      rounds (nextCluster device volume) fuel (firstCluster volume startCluster) := by
  induction fuel generalizing startCluster with
  | zero => rfl
  | succ fuel ih =>
      rw [countRounds, firstCluster]
      split
      · rfl
      · obtain ⟨entry, hentry⟩ := exists_fatGetFatEntry device hsector startCluster
        rw [hentry, rounds]
        cases entry with
        | none => rw [nextCluster_of_unreadable hentry, rounds_none]
        | some next => rw [nextCluster_of_entry hentry, ← ih]

/-- The loop comes back if the walk stops, with a count of at most the clusters
it has met. -/
theorem countLoop_of_stopsAfter (i : ℕ) (hsector : 0 < volume.bytesPerSector)
    (hstops : StopsAfter (nextCluster device volume) (firstCluster volume startCluster) n)
    (hfuel : n < fuel) :
    ∃ count, countLoop device volume fuel i startCluster = .ok count ∧ count ≤ i + n := by
  induction fuel generalizing startCluster n i with
  | zero => exact absurd hfuel (Nat.not_lt_zero _)
  | succ fuel ih =>
      rw [firstCluster] at hstops
      rw [countLoop]
      split
      · exact ⟨i, rfl, Nat.le_add_right _ _⟩
      · rename_i hend
        rw [if_neg hend] at hstops
        obtain ⟨m, rfl, hnext⟩ := stopsAfter_some_iff.mp hstops
        obtain ⟨entry, hentry⟩ := exists_fatGetFatEntry device hsector startCluster
        rw [hentry, ok_bind]
        cases entry with
        | none => exact ⟨0, rfl, Nat.zero_le _⟩
        | some next =>
            rw [nextCluster_of_entry hentry] at hnext
            obtain ⟨count, hcount, hle⟩ := ih (u32 (i + 1)) hnext (Nat.lt_of_succ_lt_succ hfuel)
            have hwrap : u32 (i + 1) ≤ i + 1 := Nat.mod_le _ _
            exact ⟨count, hcount, by omega⟩

/-- The loop comes back only if the walk stops. -/
theorem stopsAfter_of_countLoop (hsector : 0 < volume.bytesPerSector) {count : ℕ}
    (hcount : countLoop device volume fuel i startCluster = .ok count) :
    ∃ n ≤ fuel, StopsAfter (nextCluster device volume) (firstCluster volume startCluster) n := by
  induction fuel generalizing startCluster i with
  | zero => cases hcount
  | succ fuel ih =>
      rw [firstCluster]
      rw [countLoop] at hcount
      split at hcount
      · rename_i hend
        rw [if_pos hend]
        exact ⟨0, Nat.zero_le _, stopsAfter_none⟩
      · rename_i hend
        rw [if_neg hend]
        obtain ⟨entry, hentry⟩ := exists_fatGetFatEntry device hsector startCluster
        rw [hentry, ok_bind] at hcount
        cases entry with
        | none =>
            refine ⟨1, Nat.succ_le_succ (Nat.zero_le _), stopsAfter_some_iff.mpr ⟨0, rfl, ?_⟩⟩
            rw [nextCluster_of_unreadable hentry]
            exact stopsAfter_none
        | some next =>
            obtain ⟨n, hn, hstops⟩ := ih hcount
            refine ⟨n + 1, Nat.succ_le_succ hn, stopsAfter_some_iff.mpr ⟨n, rfl, ?_⟩⟩
            rwa [nextCluster_of_entry hentry]

theorem countsWithin_iff (hsector : 0 < volume.bytesPerSector) :
    CountsWithin device volume startCluster entries ↔
      EndsWithin (nextCluster device volume) (firstCluster volume startCluster) entries := by
  have hstep : ∀ cluster next, nextCluster device volume cluster = some next →
      next < 0x0FFFFFF8 := fun _ _ => lt_of_nextCluster hsector
  rw [← exists_stopsAfter_le_iff (finite_met _ hstep), CountsWithin, countRounds_eq hsector]
  constructor
  · rintro ⟨⟨count, hcount⟩, hrounds⟩
    obtain ⟨n, hn, hstops⟩ := stopsAfter_of_countLoop hsector hcount
    rw [hstops.rounds_eq hn] at hrounds
    exact ⟨n, hrounds, hstops⟩
  · rintro ⟨n, hn, hstops⟩
    have hlt := stopsAfter_lt hstep hstops
    obtain ⟨count, hcount, _⟩ :=
      countLoop_of_stopsAfter 0 hsector hstops (show n < 2 ^ 32 + 1 by omega)
    exact ⟨⟨count, hcount⟩, (hstops.rounds_eq (by omega)).trans_le hn⟩

/-! ## Listing -/

theorem exists_chainLoop (device : DiskDevice) (hsector : 0 < volume.bytesPerSector)
    (remaining startCluster : ℕ) :
    ∃ array, chainLoop device volume remaining startCluster = .ok array := by
  induction remaining generalizing startCluster with
  | zero => exact ⟨_, rfl⟩
  | succ remaining ih =>
      rw [chainLoop]
      split
      · exact ⟨_, rfl⟩
      · obtain ⟨entry, hentry⟩ := exists_fatGetFatEntry device hsector startCluster
        rw [hentry, ok_bind]
        cases entry with
        | none => exact ⟨_, rfl⟩
        | some next =>
            obtain ⟨rest, hrest⟩ := ih next
            simp only [hrest, ok_bind]
            exact ⟨_, rfl⟩

theorem listsWithin_iff (hsector : 0 < volume.bytesPerSector) :
    ListsWithin device volume startCluster entries ↔
      EndsWithin (nextCluster device volume) (firstCluster volume startCluster) entries := by
  have hstep : ∀ cluster next, nextCluster device volume cluster = some next →
      next < 0x0FFFFFF8 := fun _ _ => lt_of_nextCluster hsector
  rw [← countsWithin_iff hsector]
  constructor
  · rintro ⟨⟨array, harray⟩, hrounds, _⟩
    obtain ⟨count, hcount, _⟩ := bind_eq_ok.mp harray
    exact ⟨⟨count, hcount⟩, hrounds⟩
  · rintro ⟨⟨count, hcount⟩, hrounds⟩
    obtain ⟨n, hn, hstops⟩ := stopsAfter_of_countLoop hsector hcount
    have hlt := stopsAfter_lt hstep hstops
    obtain ⟨array, harray⟩ := exists_chainLoop device hsector count startCluster
    refine ⟨⟨array, by rw [fatGetFatChain, hcount, ok_bind, harray]⟩, hrounds, ?_⟩
    intro other hother
    obtain ⟨small, hsmall, hle⟩ :=
      countLoop_of_stopsAfter 0 hsector hstops (show n < 2 ^ 32 + 1 by omega)
    rw [countRounds_eq hsector, hstops.rounds_eq hn] at hrounds
    obtain rfl : small = other := Except.ok.inj (hsmall.symm.trans hother)
    omega

/-- The clusters of a chain are listed exactly if the walk along the table stops. -/
theorem fatGetFatChain_returns_iff (hsector : 0 < volume.bytesPerSector) :
    (∃ array, fatGetFatChain device volume startCluster = .ok array) ↔
      WalkEnds device volume startCluster := by
  have hstep : ∀ cluster next, nextCluster device volume cluster = some next →
      next < 0x0FFFFFF8 := fun _ _ => lt_of_nextCluster hsector
  constructor
  · rintro ⟨array, harray⟩
    obtain ⟨count, hcount, _⟩ := bind_eq_ok.mp harray
    obtain ⟨n, _, hstops⟩ := stopsAfter_of_countLoop hsector hcount
    exact ⟨n, hstops⟩
  · rintro ⟨n, hstops⟩
    have hlt := stopsAfter_lt hstep hstops
    obtain ⟨count, hcount, _⟩ :=
      countLoop_of_stopsAfter 0 hsector hstops (show n < 2 ^ 32 + 1 by omega)
    obtain ⟨array, harray⟩ := exists_chainLoop device hsector count startCluster
    exact ⟨array, by rw [fatGetFatChain, fatCountClustersInChain, hcount, ok_bind, harray]⟩

/-- What is listed begins with the first cluster. -/
theorem eq_of_chainLoop {remaining first : ℕ} {rest : List ℕ}
    (hloop : chainLoop device volume remaining startCluster = .ok (some (first :: rest))) :
    first = startCluster := by
  cases remaining with
  | zero => simp [chainLoop] at hloop
  | succ remaining =>
      rw [chainLoop] at hloop
      split at hloop
      · simp only [Except.ok.injEq, Option.some.injEq, List.cons.injEq] at hloop
        exact hloop.1.symm
      · obtain ⟨entry, _, hloop⟩ := bind_eq_ok.mp hloop
        cases entry with
        | none => simp at hloop
        | some next =>
            obtain ⟨tail, _, hloop⟩ := bind_eq_ok.mp hloop
            obtain ⟨clusters, _, hcons⟩ := Option.map_eq_some_iff.mp (Except.ok.inj hloop)
            exact (List.cons.inj hcons).1.symm

theorem eq_of_fatGetFatChain {first : ℕ} {rest : List ℕ}
    (hlist : fatGetFatChain device volume startCluster = .ok (some (first :: rest))) :
    first = startCluster := by
  obtain ⟨count, _, hloop⟩ := bind_eq_ok.mp hlist
  exact eq_of_chainLoop hloop

/-! ## Reading -/

theorem exists_fatReadClusterChain (device : DiskDevice) (hsector : 0 < volume.bytesPerSector)
    (maxClusters startCluster : ℕ) :
    ∃ result, fatReadClusterChain device volume maxClusters startCluster = .ok result := by
  induction maxClusters generalizing startCluster with
  | zero => exact ⟨_, rfl⟩
  | succ maxClusters ih =>
      rw [fatReadClusterChain]
      split
      · exact ⟨_, rfl⟩
      · obtain ⟨entry, hentry⟩ := exists_fatGetFatEntry device hsector startCluster
        simp only [hentry, ok_bind]
        cases entry with
        | none => exact ⟨_, rfl⟩
        | some next =>
            obtain ⟨rest, hrest⟩ := ih next
            simp only [hrest, ok_bind]
            split
            · exact ⟨_, rfl⟩
            · exact ⟨_, rfl⟩

theorem readRounds_eq (hsector : 0 < volume.bytesPerSector) (maxClusters startCluster : ℕ) :
    readRounds device volume maxClusters startCluster =
      rounds (nextRead device volume) maxClusters (some startCluster) := by
  induction maxClusters generalizing startCluster with
  | zero => rfl
  | succ maxClusters ih =>
      have hreadable : device.readSectors (volume.clusterSector startCluster)
          volume.sectorsPerCluster = none ↔
          ¬ device.readable (volume.clusterSector startCluster) volume.sectorsPerCluster := by
        rw [DiskDevice.readSectors]
        split
        · rename_i hread
          simp [hread]
        · rename_i hread
          simp [hread]
      rw [readRounds, rounds, nextRead]
      split
      · rename_i hfails
        rw [if_neg (hreadable.mp hfails), rounds_none]
      · rename_i hsome
        rw [if_pos (by
          by_contra hnot
          rw [hreadable.mpr hnot] at hsome
          cases hsome)]
        obtain ⟨entry, hentry⟩ := exists_fatGetFatEntry device hsector startCluster
        rw [hentry]
        cases entry with
        | none => rw [nextCluster_of_unreadable hentry, rounds_none]
        | some next =>
            rw [nextCluster_of_entry hentry, firstCluster]
            simp only
            split
            · rw [rounds_none]
            · rw [ih]

theorem readsWithin_iff (hsector : 0 < volume.bytesPerSector) :
    ReadsWithin device volume startCluster entries ↔
      EndsWithin (nextRead device volume) (some startCluster) entries ∨
        0xFFFFFFFF ≤ entries := by
  have hstep : ∀ cluster next, nextRead device volume cluster = some next →
      next < 0x0FFFFFF8 := by
    intro cluster next hnext
    rw [nextRead] at hnext
    split at hnext
    · exact lt_of_nextCluster hsector hnext
    · cases hnext
  have hfinite := finite_met (some startCluster) hstep
  have hreturns := exists_fatReadClusterChain device hsector 0xFFFFFFFF startCluster
  rw [← exists_stopsAfter_le_iff hfinite, ReadsWithin, readRounds_eq hsector,
    and_iff_right hreturns]
  constructor
  · intro hrounds
    by_cases hstops : ∃ n, StopsAfter (nextRead device volume) (some startCluster) n
    · obtain ⟨n, hstops⟩ := hstops
      rw [hstops.rounds_eq (stopsAfter_lt hstep hstops).le] at hrounds
      exact Or.inl ⟨n, hrounds, hstops⟩
    · rw [rounds_of_going fun m hm => hstops
        ((exists_stopsAfter hm).imp fun _ hboth => hboth.2)] at hrounds
      exact Or.inr hrounds
  · rintro (⟨n, hn, hstops⟩ | hlarge)
    · rwa [hstops.rounds_eq (stopsAfter_lt hstep hstops).le]
    · exact (rounds_le _ _).trans hlarge

/-- For a table of `entries` entries: counting and listing a chain and reading
a directory come back within as many rounds exactly if the walks they make come
to an end before they repeat themselves, and meet no more clusters outside the
table than they leave entries out.  Reading also stops when its counter does. -/
theorem chainsEndWithin_iff (hsector : 0 < volume.bytesPerSector) :
    CountsWithin device volume startCluster entries ∧
        ListsWithin device volume startCluster entries ∧
        ReadsWithin device volume startCluster entries ↔
      EndsWithin (nextCluster device volume) (firstCluster volume startCluster) entries ∧
        (EndsWithin (nextRead device volume) (some startCluster) entries ∨
          0xFFFFFFFF ≤ entries) := by
  rw [countsWithin_iff hsector, listsWithin_iff hsector, readsWithin_iff hsector, ← and_assoc,
    and_self_iff]

/-- A chain that stays inside the table and meets no cluster twice. -/
theorem countsWithin_of_acyclic (hsector : 0 < volume.bytesPerSector)
    (hinside : ∀ cluster ∈ met (nextCluster device volume) (firstCluster volume startCluster),
      cluster < entries)
    (hacyclic : Acyclic (nextCluster device volume) (firstCluster volume startCluster)) :
    CountsWithin device volume startCluster entries :=
  (countsWithin_iff hsector).mpr (endsWithin_of_inside hinside hacyclic)

/-! ## Complete chains -/

/-- All clusters from `cluster` on, up to an end mark of the table. -/
inductive CompleteChain (device : DiskDevice) (volume : FatVolumeInformation) :
    ℕ → List ℕ → Prop
  | ended {cluster : ℕ} (hend : volume.endOfChain cluster = true) :
      CompleteChain device volume cluster []
  | cons {cluster next : ℕ} {rest : List ℕ} (hend : volume.endOfChain cluster = false)
      (hentry : fatGetFatEntry device volume cluster = .ok (some next))
      (hrest : CompleteChain device volume next rest) :
      CompleteChain device volume cluster (cluster :: rest)

variable {chain : List ℕ}

namespace CompleteChain

theorem stopsAfter (hchain : CompleteChain device volume cluster chain) :
    StopsAfter (nextCluster device volume) (firstCluster volume cluster) chain.length := by
  induction hchain with
  | ended hend =>
      rw [firstCluster, if_pos hend]
      exact stopsAfter_none
  | cons hend hentry _ ih =>
      rw [firstCluster, if_neg (by simp [hend])]
      refine stopsAfter_some_iff.mpr ⟨_, rfl, ?_⟩
      rwa [nextCluster_of_entry hentry]

theorem length_lt (hchain : CompleteChain device volume cluster chain)
    (hsector : 0 < volume.bytesPerSector) : chain.length < 0xFFFFFFFF :=
  stopsAfter_lt (fun _ _ => lt_of_nextCluster hsector) hchain.stopsAfter

theorem countLoop_eq (hchain : CompleteChain device volume cluster chain) {fuel i : ℕ}
    (hfuel : chain.length < fuel) (hcount : i + chain.length < 2 ^ 32) :
    countLoop device volume fuel i cluster = .ok (i + chain.length) := by
  induction hchain generalizing fuel i with
  | ended hend => exact countLoop_end (Nat.zero_lt_of_lt hfuel) hend
  | cons hend hentry _ ih =>
      rw [List.length_cons] at hfuel hcount
      rw [countLoop_step (Nat.zero_lt_of_lt hfuel) hend hentry, u32_of_lt (by omega),
        ih (by omega) (by omega), List.length_cons]
      congr 1
      omega

theorem chainLoop_eq (hchain : CompleteChain device volume cluster chain) :
    chainLoop device volume chain.length cluster = .ok (some chain) := by
  induction hchain with
  | ended _ => rfl
  | cons hend hentry _ ih =>
      rw [List.length_cons, chainLoop, if_neg (by simp [hend]), hentry]
      simp only [ok_bind, ih]
      rfl

theorem fatCountClustersInChain_eq (hchain : CompleteChain device volume cluster chain)
    (hsector : 0 < volume.bytesPerSector) :
    fatCountClustersInChain device volume cluster = .ok chain.length := by
  have hlength := hchain.length_lt hsector
  rw [fatCountClustersInChain, hchain.countLoop_eq (by omega) (by omega), Nat.zero_add]

theorem fatGetFatChain_eq (hchain : CompleteChain device volume cluster chain)
    (hsector : 0 < volume.bytesPerSector) :
    fatGetFatChain device volume cluster = .ok (some chain) := by
  rw [fatGetFatChain, hchain.fatCountClustersInChain_eq hsector, ok_bind, hchain.chainLoop_eq]

/-- The table gives a cluster one chain only. -/
theorem unique {chain' : List ℕ} (hchain : CompleteChain device volume cluster chain)
    (hchain' : CompleteChain device volume cluster chain') : chain = chain' := by
  induction hchain generalizing chain' with
  | ended hend =>
      cases hchain' with
      | ended _ => rfl
      | cons hgoing _ _ => rw [hend] at hgoing; cases hgoing
  | cons hgoing hentry _ ih =>
      cases hchain' with
      | ended hend => rw [hend] at hgoing; cases hgoing
      | cons _ hentry' hrest' =>
          obtain rfl := Option.some.inj (Except.ok.inj (hentry.symm.trans hentry'))
          rw [ih hrest']

/-- Entries are looked up on volumes with a sector size only. -/
theorem bytesPerSector_pos {rest : List ℕ}
    (hchain : CompleteChain device volume cluster (cluster :: rest)) :
    0 < volume.bytesPerSector := by
  by_contra hzero
  have hnone : volume.bytesPerSector = 0 := Nat.eq_zero_of_not_pos hzero
  cases hchain with
  | cons _ hentry _ =>
      rw [fatGetFatEntry] at hentry
      simp only [readFatSectors, if_pos hnone, error_bind] at hentry
      cases htype : volume.fatType <;> simp [htype] at hentry

end CompleteChain

/-! ## A cluster that is its own successor -/

def fat16Volume : FatVolumeInformation where
  bytesPerSector := 512
  sectorsPerCluster := 1
  activeFatSectorStart := 1
  dataSectorStart := 3
  fatType := .fat16

/-- The entry of cluster 2 names cluster 2. -/
def cyclicDevice : DiskDevice where
  bytesPerSector := 512
  content := fun position => if position = 512 + 4 then 2 else 0
  readable := fun startSector _ => startSector < 1000

theorem cyclicDevice_entry : fatGetFatEntry cyclicDevice fat16Volume 2 = .ok (some 2) := by
  decide +kernel

theorem chainsEndWithin_iff_cyclicDevice :
    CountsWithin cyclicDevice fat16Volume 2 256 ∧ ListsWithin cyclicDevice fat16Volume 2 256 ∧
        ReadsWithin cyclicDevice fat16Volume 2 256 ↔
      EndsWithin (nextCluster cyclicDevice fat16Volume) (firstCluster fat16Volume 2) 256 ∧
        (EndsWithin (nextRead cyclicDevice fat16Volume) (some 2) 256 ∨ 0xFFFFFFFF ≤ 256) :=
  chainsEndWithin_iff (by decide)

/-- Counting the clusters of this chain never ends. -/
theorem cyclicDevice_not_counted :
    ¬ ∀ (device : DiskDevice) (volume : FatVolumeInformation) (startCluster : ℕ),
      0 < volume.bytesPerSector → ∃ entries, CountsWithin device volume startCluster entries := by
  intro hall
  obtain ⟨_, ⟨count, hcount⟩, _⟩ := hall cyclicDevice fat16Volume 2 (by decide)
  have hfirst : firstCluster fat16Volume 2 = some 2 := rfl
  have hwalk : ∀ n, walk (nextCluster cyclicDevice fat16Volume) (some 2) n = some 2 := by
    intro n
    induction n with
    | zero => rfl
    | succ n ih => rw [walk, ih, Option.bind_some, nextCluster_of_entry cyclicDevice_entry, hfirst]
  obtain ⟨n, _, hstops⟩ := stopsAfter_of_countLoop (by decide) hcount
  rw [hfirst] at hstops
  have hstopped := hstops.stopped
  rw [hwalk n] at hstopped
  cases hstopped

end GeexOS.Fat
