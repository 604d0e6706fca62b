import GeexOS.Library.HeapLedger
import GeexOS.Loader.FatLookup

/-!
# The blocks of an open file

Opening a file allocates its two records, the contents of each directory on the way and
the chain of each entry that is found.  Every function gives back what it does not hand
on, except for the first one: the records of a file that is not found stay behind.
-/

namespace GeexOS.Fat

open GeexOS.Words
open GeexOS.Halting
open GeexOS.Strings
open GeexOS.HeapLedger

/-! ## The functions with their blocks -/

section Blocks

variable (device : DiskDevice) (volume : MountedVolume)

/-- `fat_getFatChain`: the block of the chain, and the chain. -/
def fatGetFatChainTraced (startCluster : ℕ) (ledger : Ledger) :
    Outcome (Option (ℕ × List ℕ) × Ledger) := do
  let clusterCount ← fatCountClustersInChain device volume.toFatVolumeInformation startCluster
  let fatArray := ledger.next
  let ledger := ledger.malloc
  match ← chainLoop device volume.toFatVolumeInformation clusterCount startCluster with
  | none => do
      let ledger ← ledger.free (some fatArray)
      .ok (none, ledger)
  | some chain => .ok (some (fatArray, chain), ledger)

/-- `fat_searchDirectoryForFile`: the block at `FATChain`, and the file information. -/
def fatSearchDirectoryForFileTraced (directoryContents : List UInt8) (directorySize : ℕ)
    (filename : CString) (ledger : Ledger) :
    Outcome (Option (Option ℕ × FoundFile) × Ledger) :=
  if directorySize / 32 = 0 then .ok (none, ledger)
  else do
    match ← searchLoop filename (directoryEntries directoryContents) noLongName with
    | none => .ok (none, ledger)
    | some entry => do
        let (fatChain, ledger) ← fatGetFatChainTraced device volume entry.startCluster ledger
        .ok (some (fatChain.map Prod.fst,
          ⟨entry.attributes, entry.size, fatChain.map Prod.snd⟩), ledger)

/-- `fat_getDirectoryContents`: the block of the contents, their size and the contents. -/
def fatGetDirectoryContentsTraced (startCluster : ℕ) (rootDirectory : Bool) (ledger : Ledger) :
    Outcome (Option (ℕ × ℕ × List UInt8) × Ledger) :=
  if rootDirectory = true ∧ volume.fatType ≠ .fat32 then
    let directorySize := u32 (volume.rootDirSectors * volume.bytesPerSector)
    let directoryContents := ledger.next
    let ledger := ledger.malloc
    match device.readSectors volume.rootDirSectorStart volume.rootDirSectors with
    | none => do
        let ledger ← ledger.free (some directoryContents)
        .ok (none, ledger)
    | some contents =>
        if directorySize < contents.length then .error .fault
        else .ok (some (directoryContents, directorySize, contents), ledger)
  else do
    let startCluster := if rootDirectory then volume.rootDirStartCluster else startCluster
    let clusters ← fatCountClustersInChain device volume.toFatVolumeInformation startCluster
    let directorySize := u32 (u32 (clusters * volume.sectorsPerCluster) * volume.bytesPerSector)
    let directoryContents := ledger.next
    let ledger := ledger.malloc
    let (success, contents) ←
      fatReadClusterChain device volume.toFatVolumeInformation 0xFFFFFFFF startCluster
    if directorySize < contents.length then .error .fault
    else if success then .ok (some (directoryContents, directorySize, contents), ledger)
    else do
      let ledger ← ledger.free (some directoryContents)
      .ok (none, ledger)

/-- The loop of `fat_findFile`. -/
def findLoopTraced :
    (remaining directoryStartCluster : ℕ) → (rootDirectory : Bool) → (filename : CString) →
    Ledger → Outcome (Option (Option ℕ × FoundFile) × Ledger)
  | remaining, directoryStartCluster, rootDirectory, filename, ledger =>
      let pathPart := fsGetFirstElementFromPath filename
      if 260 < pathPart.length then .error .fault
      else do
        let (directory, ledger) ←
          fatGetDirectoryContentsTraced device volume directoryStartCluster rootDirectory ledger
        match directory with
        | none => .ok (none, ledger)
        | some (directoryBuffer, directorySize, directoryContents) => do
            let (found, ledger) ← fatSearchDirectoryForFileTraced device volume
              directoryContents directorySize pathPart ledger
            let ledger ← ledger.free (some directoryBuffer)
            match found with
            | none => .ok (none, ledger)
            | some (block, fileinfo) =>
                match remaining with
                | 0 => .ok (some (block, fileinfo), ledger)
                | remaining + 1 =>
                    if fileinfo.attributes &&& attrDirectory = 0 then do
                      let ledger ← ledger.free block
                      .ok (none, ledger)
                    else
                      match fileinfo.fatChain with
                      | some (startCluster :: _) => do
                          let ledger ← ledger.free block
                          findLoopTraced remaining startCluster false (skipPathPart filename)
                            ledger
                      | _ => .error .fault

def fatFindFileTraced (filename : CString) (ledger : Ledger) :
    Outcome (Option (Option ℕ × FoundFile) × Ledger) :=
  findLoopTraced device volume (fsGetNumPathParts filename - 1) 0 true filename ledger

/-- The blocks of a `FILE` and its `FatFileInfo`, and what these hold. -/
structure OpenedFile where
  file : ℕ
  fileInfo : ℕ
  fatChain : Option ℕ
  found : FoundFile

/-- `fat_open`; no file means that it returned NULL. -/
def fatOpenTraced (path : CString) (ledger : Ledger) : Outcome (Option OpenedFile × Ledger) := do
  let file := ledger.next
  let ledger := ledger.malloc
  let fileInfo := ledger.next
  let ledger := ledger.malloc
  let (found, ledger) ← fatFindFileTraced device volume path ledger
  match found with
  | none => .ok (none, ledger)
  | some (fatChain, found) => .ok (some ⟨file, fileInfo, fatChain, found⟩, ledger)

end Blocks

/-! ## What each function holds in the end -/

/-- The block that comes with a result. -/
def resultBlock {α : Type} : Option (ℕ × α) → Finset ℕ
  | none => ∅
  | some (block, _) => {block}

/-- The block of the chain, if there is one. -/
def chainBlock : Option (Option ℕ × FoundFile) → Finset ℕ
  | some (some block, _) => {block}
  | _ => ∅

variable {device : DiskDevice} {volume : MountedVolume} {ledger before : Ledger}
variable {startCluster directorySize remaining : ℕ} {rootDirectory : Bool}
variable {contents : List UInt8} {filename path : CString}

theorem holds_malloc (ledger : Ledger) : Holds ledger ledger.malloc {ledger.next} :=
  (Holds.refl ledger).malloc

/-- A block that is given back at once leaves no trace. -/
theorem tracks_give_back {α β : Type} {erase : α → β} {kept : α → Finset ℕ}
    {result : α} {value : β} (hkept : kept result = ∅) (hvalue : erase result = value) :
    Tracks ledger erase kept
      (ledger.malloc.free (some ledger.next) >>= fun after => .ok (result, after))
      (.ok value) := by
  refine .bind_free (holds_malloc ledger) (Finset.mem_singleton_self _) fun after hafter => ?_
  refine .ok hvalue ?_
  rwa [hkept, ← Finset.erase_singleton ledger.next]

theorem fatGetFatChainTraced_tracks :
    Tracks ledger (Option.map Prod.snd) resultBlock
      (fatGetFatChainTraced device volume startCluster ledger)
      (fatGetFatChain device volume.toFatVolumeInformation startCluster) := by
  refine .bind_plain fun clusterCount _ => ?_
  cases chainLoop device volume.toFatVolumeInformation clusterCount startCluster with
  | error halt => exact .error halt
  | ok chain =>
      cases chain with
      | none => exact tracks_give_back rfl rfl
      | some chain => exact .ok rfl (holds_malloc ledger)

theorem fatSearchDirectoryForFileTraced_tracks :
    Tracks ledger (Option.map Prod.snd) chainBlock
      (fatSearchDirectoryForFileTraced device volume contents directorySize filename ledger)
      (fatSearchDirectoryForFile device volume contents directorySize filename) := by
  rw [fatSearchDirectoryForFileTraced, fatSearchDirectoryForFile]
  split
  · exact .ok rfl (.refl ledger)
  refine .bind_plain fun entry _ => ?_
  cases entry with
  | none => exact .ok rfl (.refl ledger)
  | some entry =>
      refine .bind (.refl ledger) fatGetFatChainTraced_tracks fun fatChain after _ hafter => ?_
      refine .ok rfl ?_
      rw [Finset.union_empty] at hafter
      cases fatChain with
      | none => exact hafter
      | some block => exact hafter

theorem fatGetDirectoryContentsTraced_tracks :
    Tracks ledger (Option.map Prod.snd) resultBlock
      (fatGetDirectoryContentsTraced device volume startCluster rootDirectory ledger)
      (fatGetDirectoryContents device volume startCluster rootDirectory) := by
  rw [fatGetDirectoryContentsTraced, fatGetDirectoryContents]
  split
  · cases device.readSectors volume.rootDirSectorStart volume.rootDirSectors with
    | none => exact tracks_give_back rfl rfl
    | some contents =>
        dsimp only
        split
        · exact .error _
        · exact .ok rfl (holds_malloc ledger)
  · refine .bind_plain fun clusters _ => .bind_plain fun read _ => ?_
    obtain ⟨success, contents⟩ := read
    dsimp only
    split
    · exact .error _
    · split
      · exact .ok rfl (holds_malloc ledger)
      · exact tracks_give_back rfl rfl

/-- Giving back the chain, which is a null pointer if it could not be read. -/
theorem tracks_free_chain {α β : Type} {erase : α → β} {kept : α → Finset ℕ}
    {block : Option ℕ} {fileinfo : FoundFile} {next : Ledger → Outcome (α × Ledger)}
    {plain : Outcome β} (hheld : Holds before ledger (chainBlock (some (block, fileinfo))))
    (hnext : ∀ after, Holds before after ∅ → Tracks before erase kept (next after) plain) :
    Tracks before erase kept (ledger.free block >>= next) plain := by
  cases block with
  | none => exact hnext ledger hheld
  | some block =>
      refine .bind_free hheld (Finset.mem_singleton_self block) fun after hafter => ?_
      rw [chainBlock, Finset.erase_singleton] at hafter
      exact hnext after hafter

/-- On every way out of the loop the contents of the directories and the chains of the
directories have been given back. -/
theorem findLoopTraced_tracks :
    Tracks ledger (Option.map Prod.snd) chainBlock
      (findLoopTraced device volume remaining startCluster rootDirectory filename ledger)
      (findLoop device volume remaining startCluster rootDirectory filename) := by
  induction remaining using Nat.strong_induction_on
    generalizing startCluster rootDirectory filename ledger with
  | _ remaining ih =>
      rw [findLoopTraced, findLoop]
      dsimp only
      split
      · exact .error _
      refine .bind (.refl ledger) fatGetDirectoryContentsTraced_tracks
        fun directory after _ hdirectory => ?_
      rw [Finset.union_empty] at hdirectory
      cases directory with
      | none => exact .ok rfl hdirectory
      | some directory =>
          obtain ⟨directoryBuffer, directorySize, directoryContents⟩ := directory
          refine .bind hdirectory fatSearchDirectoryForFileTraced_tracks
            fun found after hapart hfound => ?_
          have hblock : resultBlock (some (directoryBuffer, directorySize, directoryContents)) =
              {directoryBuffer} := rfl
          rw [hblock] at hapart hfound
          have hbuffer : directoryBuffer ∈ chainBlock found ∪ {directoryBuffer} :=
            Finset.mem_union_right _ (Finset.mem_singleton_self _)
          refine .bind_free hfound hbuffer fun after hafter => ?_
          rw [Finset.erase_union_distrib, Finset.erase_singleton, Finset.union_empty,
            Finset.erase_eq_of_notMem (Finset.disjoint_singleton_right.mp hapart)] at hafter
          cases found with
          | none => exact .ok rfl hafter
          | some found =>
              obtain ⟨block, fileinfo⟩ := found
              cases remaining with
              | zero => exact .ok rfl hafter
              | succ remaining =>
                  dsimp only [Option.map_some]
                  split
                  · exact tracks_free_chain hafter fun after hafter => .ok rfl hafter
                  · cases fileinfo.fatChain with
                    | none => exact .error _
                    | some chain =>
                        cases chain with
                        | nil => exact .error _
                        | cons startCluster _ =>
                            exact tracks_free_chain hafter fun after hafter =>
                              .of_holds hafter (ih remaining (Nat.lt_succ_self remaining))

theorem fatFindFileTraced_tracks :
    Tracks ledger (Option.map Prod.snd) chainBlock
      (fatFindFileTraced device volume filename ledger) (fatFindFile device volume filename) :=
  findLoopTraced_tracks

/-! ## Opening a file -/

/-- The blocks of an opened file, or the two records if none was opened. -/
def openBlocks (ledger : Ledger) : Option OpenedFile → Finset ℕ
  | none => {ledger.next + 1, ledger.next}
  | some opened =>
      chainBlock (some (opened.fatChain, opened.found)) ∪ {opened.fileInfo, opened.file}

theorem fatOpenTraced_holds {opened : Option OpenedFile} {after : Ledger}
    (hopen : fatOpenTraced device volume path ledger = .ok (opened, after)) :
    Holds ledger after (openBlocks ledger opened) := by
  have hrecords : Holds ledger ledger.malloc.malloc {ledger.next + 1, ledger.next} :=
    (holds_malloc ledger).malloc
  obtain ⟨⟨found, after'⟩, hfound, hlast⟩ := bind_eq_ok.mp hopen
  have hholds : Holds ledger.malloc.malloc after' (chainBlock found) := by
    rcases @fatFindFileTraced_tracks device volume ledger.malloc.malloc path with
      ⟨_, _, hresult, _, hholds⟩ | ⟨_, herror, _⟩
    · obtain ⟨rfl, rfl⟩ := Prod.mk.inj (Except.ok.inj (hfound.symm.trans hresult))
      exact hholds
    · cases hfound.symm.trans herror
  have hboth := hrecords.trans hholds
  cases found with
  | none =>
      obtain ⟨rfl, rfl⟩ := Prod.mk.inj (Except.ok.inj hlast)
      have hnone : chainBlock none = ∅ := rfl
      rwa [hnone, Finset.empty_union] at hboth
  | some found =>
      obtain ⟨rfl, rfl⟩ := Prod.mk.inj (Except.ok.inj hlast)
      exact hboth

/-- A call of `fat_open` that returns NULL. -/
structure FailedOpen where
  device : DiskDevice
  volume : MountedVolume
  path : CString
  before : Ledger
  after : Ledger
  failed : fatOpenTraced device volume path before = .ok (none, after)

/-- The heap is as it was. -/
def FailedOpen.LeavesHeap (call : FailedOpen) : Prop := call.after.live = call.before.live

/-- Exactly the two records stay behind, and nothing was given back that was live before. -/
theorem FailedOpen.live_eq (call : FailedOpen) :
    call.after.live = {call.before.next + 1, call.before.next} ∪ call.before.live :=
  (fatOpenTraced_holds call.failed).live_eq

/-- No failing call leaves the heap as it was. -/
theorem FailedOpen.not_leavesHeap (call : FailedOpen) : ¬ call.LeavesHeap :=
  (fatOpenTraced_holds call.failed).live_ne (Finset.mem_insert_self _ _)

def emptyLedger : Ledger := ⟨0, ∅, by simp⟩

/-- `D/../D` is not found on the small volume. -/
theorem throughRoot_not_leavesHeap : ¬ ∀ call : FailedOpen, call.LeavesHeap := by
  intro hall
  have hmissed : fatFindFile smallDevice smallVolume throughRoot = .ok none := by decide +kernel
  rcases @fatFindFileTraced_tracks smallDevice smallVolume emptyLedger.malloc.malloc
    throughRoot with ⟨found, after, hresult, hplain, _⟩ | ⟨halt, _, hplain⟩
  · have hnone : found = none :=
      Option.map_eq_none_iff.mp (Except.ok.inj (hplain.symm.trans hmissed))
    have hopen : fatOpenTraced smallDevice smallVolume throughRoot emptyLedger =
        .ok (none, after) := by
      rw [hnone] at hresult
      simp only [fatOpenTraced, hresult, ok_bind]
    have hholds := fatOpenTraced_holds hopen
    exact hholds.live_ne (Finset.mem_insert_self _ _)
      (hall ⟨smallDevice, smallVolume, throughRoot, emptyLedger, after, hopen⟩)
  · cases hplain.symm.trans hmissed

end GeexOS.Fat
