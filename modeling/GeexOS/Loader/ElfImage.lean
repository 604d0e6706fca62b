import GeexOS.Loader.PageTables
import Mathlib.Data.Set.Disjoint
import Mathlib.Order.CompletePartialOrder
import Mathlib.Order.Interval.Set.Disjoint

/-!
# Loading the segments of an ELF file

The loader allocates one physical range for all LOAD segments, reads them into
it and maps each of them.  Where a segment lands is computed from its distance
to the lowest address, the mapping from its start and its length on their own.
-/

namespace GeexOS.Elf

open GeexOS.Words
open GeexOS.Halting
open GeexOS.ByteMemory
open GeexOS.PhysicalMemory
open GeexOS.PageTables

/-- The fields of a program header that the loader uses. -/
structure Elf32Phdr where
  type : ℕ
  offset : ℕ
  vaddr : ℕ
  filesz : ℕ
  memsz : ℕ
  flags : ℕ
  deriving DecidableEq, Repr

def ptLoad : ℕ := 1
def pfW : ℕ := 2

/-- The file behind `imageFile`. -/
structure File where
  size : ℕ
  bytes : ℕ → UInt8

/-- What was read from the file before. -/
structure LoaderContext where
  phdrs : List Elf32Phdr
  entry : ℕ

structure LoadedImage where
  physicalBase : ℕ
  virtualBase : ℕ
  originalBase : ℕ
  virtualEntryPoint : ℕ
  sizeOfImage : ℕ
  deriving DecidableEq, Repr

/-- The loop of `elf32_getImageSize`. -/
def boundsLoop : List Elf32Phdr → (minVaddr maxVaddr : ℕ) → ℕ × ℕ
  | [], minVaddr, maxVaddr => (minVaddr, maxVaddr)
  | phdr :: rest, minVaddr, maxVaddr =>
      if phdr.type = ptLoad then
        boundsLoop rest (if phdr.vaddr < minVaddr then phdr.vaddr else minVaddr)
          (if u32 (phdr.vaddr + phdr.memsz) > maxVaddr then u32 (phdr.vaddr + phdr.memsz)
            else maxVaddr)
      else boundsLoop rest minVaddr maxVaddr

/-- Returns the size of the image and the lowest address; a size of 0 means
that there is none. -/
def elf32GetImageSize (phdrs : List Elf32Phdr) : ℕ × ℕ :=
  let (minVaddr, maxVaddr) := boundsLoop phdrs 0xFFFFFFFF 0
  if minVaddr > maxVaddr then (0, minVaddr)
  else (sub32 (u32 (pageEnd maxVaddr)) (u32 (pageStart minVaddr)), minVaddr)

/-- Where the image goes in the address space, if anywhere. -/
def findVirtualBase (state : LoaderState) (minAddr totalImageSize : ℕ) : Outcome (Option ℕ) :=
  if state.pagingIsRangeFreeNonPAE minAddr totalImageSize then .ok (some minAddr)
  else do
    let found ← state.pagingFindFreeRangeNonPAE minAddr totalImageSize
    .ok (if u32 found = 0 then none else some (u32 found))

/-- The file pointer after `seek(imageFile, offset, SEEK_SET)`; the offset is
passed as a `long`. -/
def File.seekSet (file : File) (offset : ℕ) : ℕ :=
  if offset < 2 ^ 31 then min offset file.size else 0

/-- The bytes that `read` delivers of a segment. -/
def File.delivered (file : File) (phdr : Elf32Phdr) : ℕ :=
  min phdr.filesz (file.size - file.seekSet phdr.offset)

/-- `seek` and `read`; false for a short read. -/
def readSegment (file : File) (phdr : Elf32Phdr) (targetAddress : ℕ) (bytes : Memory) :
    Bool × Memory :=
  if phdr.filesz > 0 then
    (file.delivered phdr = phdr.filesz,
      writeBytes bytes targetAddress (file.delivered phdr) fun i =>
        file.bytes (file.seekSet phdr.offset + i))
  else (true, bytes)

/-- `memset` of the part that is not in the file. -/
def clearRest (phdr : Elf32Phdr) (targetAddress : ℕ) (bytes : Memory) : Memory :=
  if phdr.memsz > phdr.filesz then
    writeBytes bytes (u32 (targetAddress + phdr.filesz)) (phdr.memsz - phdr.filesz) fun _ => 0
  else bytes

/-- One round of the loop over the LOAD headers; false if the loading ends. -/
def loadSegment (file : File) (physicalBase originalVirtualBase virtualBase : ℕ)
    (phdr : Elf32Phdr) (state : LoaderState) : Outcome (Bool × LoaderState) :=
  let targetAddress := u32 (physicalBase + sub32 phdr.vaddr originalVirtualBase)
  let (success, bytes) := readSegment file phdr targetAddress state.bytes
  if success then do
    let state ← LoaderState.pagingMapRangeNonPAE targetAddress
      (u32 (sub32 phdr.vaddr originalVirtualBase + virtualBase)) phdr.memsz false
      (phdr.flags &&& pfW = pfW)
      { state with bytes := clearRest phdr targetAddress bytes }
    .ok (true, state)
  else .ok (false, { state with bytes := bytes })

def loadSegments (file : File) (physicalBase originalVirtualBase virtualBase : ℕ) :
    List Elf32Phdr → LoaderState → Outcome (Bool × LoaderState)
  | [], state => .ok (true, state)
  | phdr :: rest, state =>
      if phdr.type = ptLoad then do
        let (success, state) ←
          loadSegment file physicalBase originalVirtualBase virtualBase phdr state
        if success then
          loadSegments file physicalBase originalVirtualBase virtualBase rest state
        else .ok (false, state)
      else loadSegments file physicalBase originalVirtualBase virtualBase rest state

/-- `elf_loadElf32File`; no image means that it returned false. -/
def elfLoadElf32File (file : File) (memType : MemoryType) (context : LoaderContext)
    (state : LoaderState) : Outcome (Option LoadedImage × LoaderState) :=
  let (totalImageSize, minAddr) := elf32GetImageSize context.phdrs
  if totalImageSize = 0 then .ok (none, state)
  else do
    let base ← findVirtualBase state minAddr totalImageSize
    match base with
    | none => .ok (none, state)
    | some virtualBase => do
        let (physicalBase, memory) ← memoryAllocate state.memory totalImageSize memType
        if physicalBase = 0 then .ok (none, { state with memory := memory })
        else do
          let (success, state) ← loadSegments file physicalBase minAddr virtualBase
            context.phdrs { state with memory := memory }
          let image : LoadedImage := ⟨physicalBase, virtualBase, minAddr,
            u32 (sub32 context.entry minAddr + virtualBase), totalImageSize⟩
          .ok (if success then some image else none, state)

/-! ## What loading is for -/

/-- The addresses of a segment. -/
def Elf32Phdr.range (phdr : Elf32Phdr) : Set ℕ := Set.Ico phdr.vaddr (phdr.vaddr + phdr.memsz)

/-- LOAD segments of 32-bit addresses that do not overlap, at places of the file
that `seek` finds. -/
structure SegmentsOk (phdrs : List Elf32Phdr) : Prop where
  offset_lt : ∀ phdr ∈ phdrs, phdr.type = ptLoad → phdr.offset < 2 ^ 31
  filesz_le : ∀ phdr ∈ phdrs, phdr.type = ptLoad → phdr.filesz ≤ phdr.memsz
  end_lt : ∀ phdr ∈ phdrs, phdr.type = ptLoad → phdr.vaddr + phdr.memsz < 2 ^ 32
  disjoint : phdrs.Pairwise fun left right =>
    left.type = ptLoad → right.type = ptLoad → Disjoint left.range right.range

/-- Byte `k` of a segment. -/
def Elf32Phdr.byte (file : File) (phdr : Elf32Phdr) (k : ℕ) : UInt8 :=
  if k < phdr.filesz then file.bytes (phdr.offset + k) else 0

/-- The segments are seen through the page tables. -/
def ImageMapped (file : File) (phdrs : List Elf32Phdr) (image : LoadedImage)
    (state : LoaderState) : Prop :=
  ∀ phdr ∈ phdrs, phdr.type = ptLoad → ∀ k < phdr.memsz, ∃ physical,
    state.translate (phdr.vaddr - image.originalBase + image.virtualBase + k) = some physical ∧
      state.bytes physical = phdr.byte file k

/-- They are seen where they were put. -/
def ImagePlaced (file : File) (phdrs : List Elf32Phdr) (image : LoadedImage)
    (state : LoaderState) : Prop :=
  ∀ phdr ∈ phdrs, phdr.type = ptLoad → ∀ k < phdr.memsz,
    state.translate (phdr.vaddr - image.originalBase + image.virtualBase + k) =
        some (image.physicalBase + (phdr.vaddr - image.originalBase) + k) ∧
      state.bytes (image.physicalBase + (phdr.vaddr - image.originalBase) + k) = phdr.byte file k

/-- The lowest LOAD segment starts with a page. -/
def LowestAligned (phdrs : List Elf32Phdr) : Prop :=
  ∀ lowest ∈ phdrs, lowest.type = ptLoad →
    (∀ other ∈ phdrs, other.type = ptLoad → lowest.vaddr ≤ other.vaddr) →
      lowest.vaddr % 4096 = 0

/-- `page` is one of the pages from the first of the segment on that its length
is rounded up to. -/
def Elf32Phdr.Maps (phdr : Elf32Phdr) (page : ℕ) : Prop :=
  phdr.type = ptLoad ∧ phdr.vaddr / 4096 ≤ page ∧
    page < phdr.vaddr / 4096 + (phdr.memsz + 4095) / 4096

/-- The condition on the program headers. -/
def PagesMapped (phdrs : List Elf32Phdr) : Prop :=
  ∀ phdr ∈ phdrs, phdr.type = ptLoad → ∀ k < phdr.memsz,
    LowestAligned phdrs ∧ ∃ other ∈ phdrs, other.Maps ((phdr.vaddr + k) / 4096)

/-! ## Size of the image -/

variable {phdrs : List Elf32Phdr} {minVaddr maxVaddr totalImageSize minAddr : ℕ}

theorem boundsLoop_spec {lowest highest : ℕ}
    (hsegments : ∀ phdr ∈ phdrs, phdr.type = ptLoad → phdr.vaddr + phdr.memsz < 2 ^ 32)
    (hhighest : highest < 2 ^ 32)
    (hloop : boundsLoop phdrs lowest highest = (minVaddr, maxVaddr)) :
    minVaddr ≤ lowest ∧ highest ≤ maxVaddr ∧ maxVaddr < 2 ^ 32 ∧
      (∀ phdr ∈ phdrs, phdr.type = ptLoad →
        minVaddr ≤ phdr.vaddr ∧ phdr.vaddr + phdr.memsz ≤ maxVaddr) ∧
      (minVaddr = lowest ∨ ∃ phdr ∈ phdrs, phdr.type = ptLoad ∧ phdr.vaddr = minVaddr) := by
  induction phdrs generalizing lowest highest with
  | nil =>
      obtain ⟨rfl, rfl⟩ := Prod.mk.inj hloop
      exact ⟨le_rfl, le_rfl, hhighest, by simp, Or.inl rfl⟩
  | cons phdr rest ih =>
      have hrest : ∀ other ∈ rest, other.type = ptLoad → other.vaddr + other.memsz < 2 ^ 32 :=
        fun other hmem => hsegments other (List.mem_cons_of_mem _ hmem)
      rw [boundsLoop] at hloop
      by_cases hload : phdr.type = ptLoad
      · have hend := hsegments phdr List.mem_cons_self hload
        rw [if_pos hload, u32_of_lt hend] at hloop
        obtain ⟨hlow, hhigh, hmax, hall, hattained⟩ :=
          ih hrest (by split <;> omega) hloop
        have hlow' : minVaddr ≤ phdr.vaddr ∧ minVaddr ≤ lowest := by
          split at hlow <;> omega
        have hhigh' : phdr.vaddr + phdr.memsz ≤ maxVaddr ∧ highest ≤ maxVaddr := by
          split at hhigh <;> omega
        refine ⟨hlow'.2, hhigh'.2, hmax, fun other hmem hother => ?_, ?_⟩
        · rcases List.mem_cons.mp hmem with rfl | hmem
          · exact ⟨hlow'.1, hhigh'.1⟩
          · exact hall other hmem hother
        · rcases hattained with heq | ⟨other, hmem, hother, heq⟩
          · split at heq
            · exact Or.inr ⟨phdr, List.mem_cons_self, hload, heq.symm⟩
            · exact Or.inl heq
          · exact Or.inr ⟨other, List.mem_cons_of_mem _ hmem, hother, heq⟩
      · rw [if_neg hload] at hloop
        obtain ⟨hlow, hhigh, hmax, hall, hattained⟩ := ih hrest hhighest hloop
        refine ⟨hlow, hhigh, hmax, fun other hmem hother => ?_, ?_⟩
        · rcases List.mem_cons.mp hmem with rfl | hmem
          · exact absurd hother hload
          · exact hall other hmem hother
        · exact hattained.imp id fun ⟨other, hmem, hother⟩ =>
            ⟨other, List.mem_cons_of_mem _ hmem, hother⟩

/-- Whole pages from the page of the lowest address on hold all segments. -/
structure ImageBounds (phdrs : List Elf32Phdr) (minAddr pages : ℕ) : Prop where
  minAddr_lt : minAddr < 2 ^ 32
  pages_lt : pages < 2 ^ 20
  low : ∀ phdr ∈ phdrs, phdr.type = ptLoad → minAddr ≤ phdr.vaddr
  high : ∀ phdr ∈ phdrs, phdr.type = ptLoad →
    phdr.vaddr + phdr.memsz ≤ (minAddr / 4096 + pages) * 4096
  lowest : ∀ phdr ∈ phdrs, phdr.type = ptLoad → 0 < phdr.memsz →
    ∃ lowest ∈ phdrs, lowest.type = ptLoad ∧ lowest.vaddr = minAddr

theorem elf32GetImageSize_bounds
    (hsegments : ∀ phdr ∈ phdrs, phdr.type = ptLoad → phdr.vaddr + phdr.memsz < 2 ^ 32)
    (hsize : elf32GetImageSize phdrs = (totalImageSize, minAddr)) (hne : totalImageSize ≠ 0) :
    ∃ pages, totalImageSize = pages * 4096 ∧ ImageBounds phdrs minAddr pages := by
  obtain ⟨lowest, highest, hloop⟩ : ∃ lowest highest,
      boundsLoop phdrs 0xFFFFFFFF 0 = (lowest, highest) := ⟨_, _, rfl⟩
  obtain ⟨hlow, _, hmax, hall, hattained⟩ :=
    boundsLoop_spec hsegments (Nat.two_pow_pos 32) hloop
  simp only [elf32GetImageSize, hloop] at hsize
  split at hsize
  · exact absurd (Prod.mk.inj hsize).1.symm hne
  rename_i hordered
  obtain ⟨hdifference, rfl⟩ := Prod.mk.inj hsize
  have hstart : pageStart lowest = lowest / 4096 * 4096 := pageStart_eq (by omega)
  have hend : pageEnd highest = (highest + 4095) / 4096 * 4096 := by
    have hnowrap : u64 (highest + 4095) = highest + 4095 := u64_of_lt (by omega)
    change pageStart (u64 (highest + 4095)) = _
    rw [hnowrap]
    exact pageStart_eq (by omega)
  have htotal : totalImageSize = ((highest + 4095) / 4096 - lowest / 4096) * 4096 := by
    rw [← hdifference, hstart, hend] at hne ⊢
    simp only [sub32, u32] at hne ⊢
    omega
  refine ⟨_, htotal, by omega, ?_, fun phdr hmem hload => (hall phdr hmem hload).1,
    fun phdr hmem hload => ?_, fun phdr hmem hload hpos => ?_⟩
  · have hlt : totalImageSize < 2 ^ 32 := by
      rw [← hdifference]
      exact u32_lt _
    omega
  · have hphdr := (hall phdr hmem hload).2
    omega
  · refine hattained.resolve_left fun heq => ?_
    have hphdr := hall phdr hmem hload
    have hlast := hsegments phdr hmem hload
    omega

/-! ## One segment -/

variable {file : File} {phdr : Elf32Phdr} {done rest : List Elf32Phdr}
variable {pages first virtualBase address k : ℕ} {state after : LoaderState}
variable {bytes bytes' : Memory}

theorem File.seekSet_of_lt (file : File) {offset : ℕ} (hoffset : offset < 2 ^ 31) :
    file.seekSet offset = min offset file.size := if_pos hoffset

/-- What `read` and `memset` leave in memory. -/
theorem readSegment_bytes (hoffset : phdr.offset < 2 ^ 31) (hfilesz : phdr.filesz ≤ phdr.memsz)
    (haddress : address + phdr.memsz < 2 ^ 32)
    (hread : readSegment file phdr address bytes = (true, bytes')) :
    (∀ k < phdr.memsz, clearRest phdr address bytes' (address + k) = phdr.byte file k) ∧
      ∀ position, position < address ∨ address + phdr.memsz ≤ position →
        clearRest phdr address bytes' position = bytes position := by
  have hstart : u32 (address + phdr.filesz) = address + phdr.filesz := u32_of_lt (by omega)
  have hfile : (∀ k < phdr.filesz, bytes' (address + k) = file.bytes (phdr.offset + k)) ∧
      ∀ position, position < address ∨ address + phdr.filesz ≤ position →
        bytes' position = bytes position := by
    rw [readSegment] at hread
    split at hread
    · rename_i hpos
      obtain ⟨hdelivered, rfl⟩ := Prod.mk.inj hread
      have hlength := of_decide_eq_true hdelivered
      have hposition : file.seekSet phdr.offset = phdr.offset := by
        rw [File.delivered, file.seekSet_of_lt hoffset] at hlength
        rw [file.seekSet_of_lt hoffset]
        omega
      rw [hlength, hposition]
      refine ⟨fun k hk => ?_, fun position houtside => writeBytes_of_notMem houtside⟩
      rw [writeBytes_of_mem (Nat.le_add_right _ _) (by omega), Nat.add_sub_cancel_left]
    · obtain ⟨_, rfl⟩ := Prod.mk.inj hread
      exact ⟨fun k hk => by omega, fun _ _ => rfl⟩
  rw [clearRest, hstart]
  refine ⟨fun k hk => ?_, fun position houtside => ?_⟩
  · by_cases hpart : k < phdr.filesz
    · rw [Elf32Phdr.byte, if_pos hpart]
      split
      · rw [writeBytes_of_notMem (Or.inl (by omega)), hfile.1 k hpart]
      · exact hfile.1 k hpart
    · rw [Elf32Phdr.byte, if_neg hpart, if_pos (by omega)]
      exact writeBytes_of_mem (by omega) (by omega)
  · split
    · rw [writeBytes_of_notMem (by omega), hfile.2 position (by omega)]
    · exact hfile.2 position (by omega)

/-- The places that were chosen for an image. -/
structure ImagePlace (phdrs : List Elf32Phdr) (minAddr pages first virtualBase : ℕ) : Prop where
  bounds : ImageBounds phdrs minAddr pages
  physical_le : (first + pages) * 4096 ≤ 0xFFFFFFFF
  virtual_lt : virtualBase < 2 ^ 32
  virtual_mod : virtualBase % 4096 = minAddr % 4096

/-- The state after the segments in `done`. -/
structure Loading (file : File) (minAddr pages first virtualBase : ℕ) (done : List Elf32Phdr)
    (state : LoaderState) : Prop where
  directory : DirectoryOk state
  in_use : ∀ j < pages, InUse state (first + j)
  bytes : ∀ phdr ∈ done, phdr.type = ptLoad → ∀ k < phdr.memsz,
    state.bytes (first * 4096 + (phdr.vaddr - minAddr) + k) = phdr.byte file k
  frames : minAddr % 4096 = 0 → ∀ j < pages, ∀ frame,
    state.frameOf (LoaderState.pageIndex (virtualBase + 4096 * j)) = some frame ↔
      frame = first + j ∧ ∃ phdr ∈ done, phdr.Maps (minAddr / 4096 + j)

/-- What `loadSegment` does to the state, for a segment at an address and its place in the
virtual address space. -/
structure SegmentLoaded (file : File) (phdr : Elf32Phdr) (address virtual : ℕ)
    (state after : LoaderState) : Prop where
  directory : DirectoryOk after
  in_use : ∀ page, InUse state page → InUse after page
  own : ∀ k < phdr.memsz, InUse state ((address + k) / 4096) →
    after.bytes (address + k) = phdr.byte file k
  others : ∀ position, InUse state (position / 4096) →
    position < address ∨ address + phdr.memsz ≤ position →
      after.bytes position = state.bytes position
  mapped : ∀ i < (phdr.memsz + 4095) / 4096,
    after.frameOf (LoaderState.pageIndex (virtual + 4096 * i)) =
      some (LoaderState.pageIndex (address + 4096 * i))
  unmapped : ∀ page, (∀ i < (phdr.memsz + 4095) / 4096,
    page ≠ LoaderState.pageIndex (virtual + 4096 * i)) → after.frameOf page = state.frameOf page

theorem loadSegment_loaded {physicalBase minAddr : ℕ} (hlow : minAddr ≤ phdr.vaddr)
    (hend : physicalBase + (phdr.vaddr - minAddr) + phdr.memsz < 2 ^ 32)
    (hvaddr : phdr.vaddr < 2 ^ 32) (hmemsz : phdr.memsz ≤ 0xFFFFF000)
    (hoffset : phdr.offset < 2 ^ 31) (hfilesz : phdr.filesz ≤ phdr.memsz)
    (hstate : DirectoryOk state)
    (hcall : loadSegment file physicalBase minAddr virtualBase phdr state = .ok (true, after)) :
    SegmentLoaded file phdr (physicalBase + (phdr.vaddr - minAddr))
      (u32 (phdr.vaddr - minAddr + virtualBase)) state after := by
  have hdistance : sub32 phdr.vaddr minAddr = phdr.vaddr - minAddr := sub32_of_le hvaddr hlow
  have htarget : u32 (physicalBase + (phdr.vaddr - minAddr)) =
      physicalBase + (phdr.vaddr - minAddr) := u32_of_lt (by omega)
  rw [loadSegment, hdistance, htarget] at hcall
  obtain ⟨success, bytes', hread⟩ : ∃ success bytes', readSegment file phdr
      (physicalBase + (phdr.vaddr - minAddr)) state.bytes = (success, bytes') := ⟨_, _, rfl⟩
  simp only [hread] at hcall
  split at hcall
  case isFalse => cases hcall
  rename_i hsuccess
  rw [hsuccess] at hread
  obtain ⟨after', hmap, hlast⟩ := bind_eq_ok.mp hcall
  obtain ⟨_, rfl⟩ := Prod.mk.inj (Except.ok.inj hlast)
  obtain ⟨hown, hothers⟩ := readSegment_bytes hoffset hfilesz hend hread
  have hread' : DirectoryOk { state with
      bytes := clearRest phdr (physicalBase + (phdr.vaddr - minAddr)) bytes' } :=
    ⟨hstate.allocator, hstate.in_use, hstate.distinct⟩
  obtain ⟨hdirectory, hkeeps, hmapped, hunmapped⟩ :=
    hread'.mapRange hmemsz (by omega) (u32_lt _) hmap
  exact {
    directory := hdirectory
    in_use := hkeeps.in_use
    own := fun k hk hin => (hkeeps.bytes _ hin).trans (hown k hk)
    others := fun position hin houtside =>
      (hkeeps.bytes _ hin).trans (hothers position houtside)
    mapped := hmapped
    unmapped := hunmapped }

/-- The bytes of a segment lie outside of each later one. -/
theorem SegmentsOk.outside {other : Elf32Phdr} (hsegments : SegmentsOk (done ++ phdr :: rest))
    (hother : other ∈ done) (hload' : other.type = ptLoad) (hload : phdr.type = ptLoad)
    (hk : k < other.memsz) :
    other.vaddr + k < phdr.vaddr ∨ phdr.vaddr + phdr.memsz ≤ other.vaddr + k := by
  have hpairwise := hsegments.disjoint
  rw [List.pairwise_append] at hpairwise
  have hdisjoint : Disjoint other.range phdr.range :=
    hpairwise.2.2 other hother phdr List.mem_cons_self hload' hload
  have hin : other.vaddr + k ∈ other.range :=
    ⟨Nat.le_add_right _ _, Nat.add_lt_add_left hk other.vaddr⟩
  have hout : ¬ (phdr.vaddr ≤ other.vaddr + k ∧ other.vaddr + k < phdr.vaddr + phdr.memsz) :=
    Set.disjoint_left.mp hdisjoint hin
  omega

/-- The pages of the image that show a segment's frames are those it maps. -/
theorem SegmentLoaded.frame_iff {j frame : ℕ} (hload : phdr.type = ptLoad)
    (hlow : minAddr ≤ phdr.vaddr)
    (hhigh : phdr.vaddr + phdr.memsz ≤ (minAddr / 4096 + pages) * 4096)
    (hphysical : (first + pages) * 4096 ≤ 0xFFFFFFFF)
    (hmod : virtualBase % 4096 = minAddr % 4096) (haligned : minAddr % 4096 = 0)
    (hj : j < pages)
    (hloaded : SegmentLoaded file phdr (first * 4096 + (phdr.vaddr - minAddr))
      (u32 (phdr.vaddr - minAddr + virtualBase)) state after) :
    after.frameOf (LoaderState.pageIndex (virtualBase + 4096 * j)) = some frame ↔
      frame = first + j ∧ phdr.Maps (minAddr / 4096 + j) ∨
        ¬ phdr.Maps (minAddr / 4096 + j) ∧
          state.frameOf (LoaderState.pageIndex (virtualBase + 4096 * j)) = some frame := by
  by_cases hmaps : phdr.Maps (minAddr / 4096 + j)
  · obtain ⟨_, hfrom, hto⟩ := id hmaps
    have hvirtualPage : LoaderState.pageIndex (u32 (phdr.vaddr - minAddr + virtualBase) +
        4096 * (minAddr / 4096 + j - phdr.vaddr / 4096)) =
          LoaderState.pageIndex (virtualBase + 4096 * j) := by
      simp only [LoaderState.pageIndex, u32]
      omega
    have hphysicalPage : LoaderState.pageIndex (first * 4096 + (phdr.vaddr - minAddr) +
        4096 * (minAddr / 4096 + j - phdr.vaddr / 4096)) = first + j := by
      simp only [LoaderState.pageIndex]
      omega
    rw [← hvirtualPage, hloaded.mapped _ (by omega), hphysicalPage, Option.some.injEq]
    simp only [hmaps, and_true, not_true_eq_false, false_and, or_false, eq_comm]
  · rw [hloaded.unmapped _ fun i hi heq => hmaps ⟨hload, ?_, ?_⟩]
    · simp only [hmaps, and_false, not_false_eq_true, true_and, false_or]
    all_goals
      simp only [LoaderState.pageIndex, u32] at heq
      omega

theorem Loading.segment (hplace : ImagePlace phdrs minAddr pages first virtualBase)
    (hsegments : SegmentsOk phdrs) (hphdrs : phdrs = done ++ phdr :: rest)
    (hload : phdr.type = ptLoad)
    (hstate : Loading file minAddr pages first virtualBase done state)
    (hcall : loadSegment file (first * 4096) minAddr virtualBase phdr state =
      .ok (true, after)) :
    Loading file minAddr pages first virtualBase (done ++ [phdr]) after := by
  subst hphdrs
  have hmem : phdr ∈ done ++ phdr :: rest := List.mem_append_right _ List.mem_cons_self
  have hlow := hplace.bounds.low phdr hmem hload
  have hhigh := hplace.bounds.high phdr hmem hload
  have hend := hsegments.end_lt phdr hmem hload
  have hpages := hplace.bounds.pages_lt
  have hphysical := hplace.physical_le
  have hloaded := loadSegment_loaded hlow (by omega) (by omega) (by omega)
    (hsegments.offset_lt phdr hmem hload) (hsegments.filesz_le phdr hmem hload)
    hstate.directory hcall
  refine ⟨hloaded.directory, fun j hj => hloaded.in_use _ (hstate.in_use j hj),
    fun other hother hload' k hk => ?_, fun haligned j hj frame => ?_⟩
  · have hother' : other ∈ done ++ phdr :: rest := by
      rw [List.append_cons]
      exact List.mem_append_left rest hother
    have hlow' := hplace.bounds.low other hother' hload'
    have hhigh' := hplace.bounds.high other hother' hload'
    have hpage : (first * 4096 + (other.vaddr - minAddr) + k) / 4096 =
        first + ((other.vaddr - minAddr) + k) / 4096 := by omega
    have hin := hpage ▸ hstate.in_use _ (by omega)
    rcases List.mem_append.mp hother with hdone | hnew
    · have houtside := hsegments.outside hdone hload' hload hk
      rw [hloaded.others _ hin (by omega)]
      exact hstate.bytes other hdone hload' k hk
    · rw [List.mem_singleton.mp hnew] at hk hin ⊢
      exact hloaded.own k hk hin
  · rw [hloaded.frame_iff hload hlow hhigh hphysical hplace.virtual_mod haligned hj,
      hstate.frames haligned j hj frame]
    by_cases hmaps : phdr.Maps (minAddr / 4096 + j) <;> simp [hmaps]

/-! ## All segments -/

/-- Headers of other types change nothing. -/
theorem Loading.skip (hload : phdr.type ≠ ptLoad)
    (hstate : Loading file minAddr pages first virtualBase done state) :
    Loading file minAddr pages first virtualBase (done ++ [phdr]) state where
  directory := hstate.directory
  in_use := hstate.in_use
  bytes := fun other hother hload' => by
    rcases List.mem_append.mp hother with hdone | hnew
    · exact hstate.bytes other hdone hload'
    · exact absurd (List.mem_singleton.mp hnew ▸ hload') hload
  frames := fun haligned j hj frame => by
    refine (hstate.frames haligned j hj frame).trans (and_congr_right fun _ => ?_)
    simp [Elf32Phdr.Maps, hload]

theorem Loading.segments (hplace : ImagePlace phdrs minAddr pages first virtualBase)
    (hsegments : SegmentsOk phdrs) (hphdrs : phdrs = done ++ rest)
    (hstate : Loading file minAddr pages first virtualBase done state)
    (hcall : loadSegments file (first * 4096) minAddr virtualBase rest state =
      .ok (true, after)) :
    Loading file minAddr pages first virtualBase phdrs after := by
  induction rest generalizing done state with
  | nil =>
      obtain ⟨_, rfl⟩ := Prod.mk.inj (Except.ok.inj hcall)
      rwa [hphdrs, List.append_nil]
  | cons phdr rest ih =>
      have hphdrs' : phdrs = (done ++ [phdr]) ++ rest := by
        rw [hphdrs, List.append_assoc, List.singleton_append]
      rw [loadSegments] at hcall
      by_cases hload : phdr.type = ptLoad
      · rw [if_pos hload] at hcall
        obtain ⟨⟨success, middle⟩, hsegment, hrest⟩ := bind_eq_ok.mp hcall
        cases success with
        | false => cases hrest
        | true => exact ih hphdrs' (hstate.segment hplace hsegments hphdrs hload hsegment) hrest
      · rw [if_neg hload] at hcall
        exact ih hphdrs' (hstate.skip hload) hcall

/-- The address space is free where the image goes. -/
theorem findVirtualBase_eq_ok (hminAddr : minAddr < 2 ^ 32) (hpages : pages < 2 ^ 20)
    (hcall : findVirtualBase state minAddr (pages * 4096) = .ok (some virtualBase)) :
    virtualBase < 2 ^ 32 ∧ virtualBase % 4096 = minAddr % 4096 ∧
      ∀ j < pages, state.frameOf (LoaderState.pageIndex (virtualBase + 4096 * j)) = none := by
  rw [findVirtualBase] at hcall
  split at hcall
  · rename_i hfree
    obtain rfl := Option.some.inj (Except.ok.inj hcall)
    exact ⟨hminAddr, rfl, fun j hj => isRangeFree_eq_true (by omega) hminAddr hfree (by omega)⟩
  · obtain ⟨found, hfind, hlast⟩ := bind_eq_ok.mp hcall
    have hlast := Except.ok.inj hlast
    split at hlast
    · cases hlast
    · rename_i hne
      obtain rfl := Option.some.inj hlast
      rcases findFreeRange_eq_ok (Nat.dvd_mul_left 4096 pages) (by omega) hfind with
        rfl | ⟨hmod, hfree⟩
      · exact absurd rfl hne
      · refine ⟨u32_lt found, ?_, fun j hj => ?_⟩
        · rw [← hmod, u32]
          omega
        · have hindex : LoaderState.pageIndex (u32 found + 4096 * j) =
              LoaderState.pageIndex (found + 4096 * j) := by
            simp only [LoaderState.pageIndex, u32]
            omega
          rw [hindex]
          exact hfree j (by omega)

/-- The physical range is allocated and nothing is loaded. -/
theorem loading_nil {memory : MemoryState} {memType : MemoryType} (hstate : DirectoryOk state)
    (htype : memType ≠ .free)
    (heffect : AllocationEffect state.memory memory pages first memType)
    (hfree : ∀ j < pages,
      state.frameOf (LoaderState.pageIndex (virtualBase + 4096 * j)) = none) :
    Loading file minAddr pages first virtualBase [] { state with memory := memory } where
  directory := hstate.setMemory htype heffect
  in_use := fun j hj => by
    refine ⟨?_, ?_⟩
    · change memory.lowestPhysicalPage ≤ first + j
      rw [heffect.lowest_eq]
      exact heffect.lowest_le.trans (Nat.le_add_right _ _)
    · change memory.pageType (first + j) ≠ .free
      rw [heffect.table_eq _ (heffect.lowest_le.trans (Nat.le_add_right _ _)),
        if_pos ⟨Nat.le_add_right _ _, Nat.add_lt_add_left hj first⟩]
      exact htype
  bytes := fun phdr hmem => absurd hmem List.not_mem_nil
  frames := fun _ j hj frame => by
    change state.frameOf _ = some frame ↔ _
    rw [hfree j hj]
    simp

/-- What a load that succeeds has done. -/
theorem elfLoadElf32File_loading {memType : MemoryType} {context : LoaderContext}
    {image : LoadedImage} (hsegments : SegmentsOk context.phdrs) (hstate : DirectoryOk state)
    (htype : memType ≠ .free)
    (hload : elfLoadElf32File file memType context state = .ok (some image, after)) :
    ∃ pages first, image.physicalBase = first * 4096 ∧
      ImagePlace context.phdrs image.originalBase pages first image.virtualBase ∧
      Loading file image.originalBase pages first image.virtualBase context.phdrs after := by
  obtain ⟨totalImageSize, minAddr, hsize⟩ : ∃ totalImageSize minAddr,
      elf32GetImageSize context.phdrs = (totalImageSize, minAddr) := ⟨_, _, rfl⟩
  simp only [elfLoadElf32File, hsize] at hload
  split at hload
  · cases hload
  rename_i hne
  obtain ⟨pages, rfl, hbounds⟩ := elf32GetImageSize_bounds hsegments.end_lt hsize hne
  obtain ⟨base, hbase, hload⟩ := bind_eq_ok.mp hload
  cases base with
  | none => cases hload
  | some virtualBase =>
      obtain ⟨⟨physicalBase, memory⟩, hallocate, hload⟩ := bind_eq_ok.mp hload
      simp only at hload
      split at hload
      · cases hload
      obtain ⟨⟨success, after'⟩, hloaded, hlast⟩ := bind_eq_ok.mp hload
      cases success with
      | false => cases hlast
      | true =>
          obtain ⟨himage, rfl⟩ := Prod.mk.inj (Except.ok.inj hlast)
          obtain rfl := Option.some.inj himage
          have hpages := hbounds.pages_lt
          obtain ⟨first, haddress, heffect⟩ :=
            memoryAllocate_eq_ok hstate.allocator (by omega) hallocate
          rw [show pages * 4096 / archPagesize = pages from Nat.mul_div_cancel _ (by decide)]
            at heffect
          obtain rfl : physicalBase = first * 4096 := haddress
          obtain ⟨hvirtual, hmod, hfree⟩ :=
            findVirtualBase_eq_ok hbounds.minAddr_lt hbounds.pages_lt hbase
          have hplace : ImagePlace context.phdrs minAddr pages first virtualBase :=
            ⟨hbounds, heffect.below_4GiB, hvirtual, hmod⟩
          exact ⟨pages, first, rfl, hplace,
            (loading_nil hstate htype heffect hfree).segments hplace hsegments rfl hloaded⟩

/-! ## The image through the page tables -/

/-- The page of a byte of a segment, counted from the first of the image. -/
theorem ImagePlace.page_of_byte (hplace : ImagePlace phdrs minAddr pages first virtualBase)
    (hmem : phdr ∈ phdrs) (hload : phdr.type = ptLoad) (hk : k < phdr.memsz) :
    ∃ j < pages, minAddr / 4096 + j = (phdr.vaddr + k) / 4096 := by
  have hlow := hplace.bounds.low phdr hmem hload
  have hhigh := hplace.bounds.high phdr hmem hload
  exact ⟨(phdr.vaddr + k) / 4096 - minAddr / 4096, by omega, by omega⟩

theorem ImagePlace.lowestAligned (hplace : ImagePlace phdrs minAddr pages first virtualBase)
    (haligned : minAddr % 4096 = 0) (hmem : phdr ∈ phdrs) (hload : phdr.type = ptLoad)
    (hk : k < phdr.memsz) : LowestAligned phdrs := by
  intro lowest hlowest hload' hleast
  obtain ⟨other, hother, hload'', hvaddr⟩ :=
    hplace.bounds.lowest phdr hmem hload (Nat.zero_lt_of_lt hk)
  have hle := hleast other hother hload''
  have hge := hplace.bounds.low lowest hlowest hload'
  rw [show lowest.vaddr = minAddr by omega]
  exact haligned

theorem ImagePlace.minAddr_aligned (hplace : ImagePlace phdrs minAddr pages first virtualBase)
    (haligned : LowestAligned phdrs) (hmem : phdr ∈ phdrs) (hload : phdr.type = ptLoad)
    (hk : k < phdr.memsz) : minAddr % 4096 = 0 := by
  obtain ⟨other, hother, hload', hvaddr⟩ :=
    hplace.bounds.lowest phdr hmem hload (Nat.zero_lt_of_lt hk)
  rw [← hvaddr]
  refine haligned other hother hload' fun third hthird hload'' => ?_
  rw [hvaddr]
  exact hplace.bounds.low third hthird hload''

/-- The segments are seen where they were put exactly if the pages that the
loader maps are those it has to. -/
theorem loadedImage_iff {memType : MemoryType} {context : LoaderContext} {image : LoadedImage}
    (hsegments : SegmentsOk context.phdrs) (hrun : PagingRun state) (htype : memType ≠ .free)
    (hload : elfLoadElf32File file memType context state = .ok (some image, after)) :
    (ImagePlaced file context.phdrs image after ↔ PagesMapped context.phdrs) ∧
      (PagesMapped context.phdrs → ImageMapped file context.phdrs image after) := by
  obtain ⟨pages, first, hphysical, hplace, hloaded⟩ :=
    elfLoadElf32File_loading hsegments hrun.directoryOk htype hload
  have hmod := hplace.virtual_mod
  have hplaced : PagesMapped context.phdrs → ImagePlaced file context.phdrs image after := by
    intro hmapped phdr hmem hload k hk
    obtain ⟨haligned, hmaps⟩ := hmapped phdr hmem hload k hk
    have hzero := hplace.minAddr_aligned haligned hmem hload hk
    obtain ⟨j, hj, hpage⟩ := hplace.page_of_byte hmem hload hk
    have hlow := hplace.bounds.low phdr hmem hload
    rw [← hpage] at hmaps
    have hframe := (hloaded.frames hzero j hj (first + j)).mpr ⟨rfl, hmaps⟩
    have hindex : LoaderState.pageIndex (phdr.vaddr - image.originalBase + image.virtualBase + k) =
        LoaderState.pageIndex (image.virtualBase + 4096 * j) := by
      simp only [LoaderState.pageIndex]
      omega
    rw [hphysical]
    refine ⟨?_, hloaded.bytes phdr hmem hload k hk⟩
    have haddress : (first + j) * 4096 +
        (phdr.vaddr - image.originalBase + image.virtualBase + k) % 4096 =
          first * 4096 + (phdr.vaddr - image.originalBase) + k := by omega
    rw [LoaderState.translate, hindex, hframe, Option.map_some, haddress]
  refine ⟨⟨fun himage phdr hmem hload k hk => ?_, hplaced⟩,
    fun hmapped phdr hmem hload k hk => ⟨_, hplaced hmapped phdr hmem hload k hk⟩⟩
  obtain ⟨htranslate, _⟩ := himage phdr hmem hload k hk
  obtain ⟨frame, hframe, haddress⟩ := Option.map_eq_some_iff.mp htranslate
  have hlow := hplace.bounds.low phdr hmem hload
  have hzero : image.originalBase % 4096 = 0 := by
    rw [hphysical] at haddress
    omega
  obtain ⟨j, hj, hpage⟩ := hplace.page_of_byte hmem hload hk
  have hindex : LoaderState.pageIndex (phdr.vaddr - image.originalBase + image.virtualBase + k) =
      LoaderState.pageIndex (image.virtualBase + 4096 * j) := by
    simp only [LoaderState.pageIndex]
    omega
  rw [hindex] at hframe
  obtain ⟨_, hmaps⟩ := (hloaded.frames hzero j hj frame).mp hframe
  rw [hpage] at hmaps
  exact ⟨hplace.lowestAligned hzero hmem hload hk, hmaps⟩

/-- 63 free pages and no page tables. -/
def freshState : LoaderState where
  memory := ⟨1, 64, 0, fun _ => ⟨.free, 0⟩⟩
  bytes := fun _ => 0
  pageDirectory := fun _ => 0
  tables := fun _ _ => .zero

/-- The first `pages` of them taken for the kernel. -/
def freshMemory (pages : ℕ) : MemoryState :=
  { freshState.memory with
    pageLookupTable :=
      memoryMarkLoop .geexOSKernelExecutable pages 0 freshState.memory.pageLookupTable }

theorem freshState_run : PagingRun freshState := .allocate ⟨by decide, by decide⟩

/-- A file of `0x2000` bytes. -/
def shortFile : File := ⟨0x2000, fun offset => UInt8.ofNat offset⟩

/-- The first page of the kernel. -/
def text : Elf32Phdr := ⟨ptLoad, 0x1000, 0x100000, 0x100, 0x180, 5⟩

/-- Data that begins near the end of a page, with a length of less than a page. -/
def data : Elf32Phdr := ⟨ptLoad, 0x1100, 0x101F00, 0x200, 0x200, 6⟩

theorem text_segmentsOk : SegmentsOk [text] :=
  ⟨by simp [text], by simp [text], by simp [text], List.pairwise_singleton _ _⟩

theorem text_loaded : ∃ image after,
    elfLoadElf32File shortFile .geexOSKernelExecutable ⟨[text], 0x100000⟩ freshState =
      .ok (some image, after) := by
  have hsize : elf32GetImageSize [text] = (0x1000, 0x100000) := by decide
  have hbase : findVirtualBase freshState 0x100000 0x1000 = .ok (some 0x100000) := rfl
  have htarget : u32 (0x1000 + sub32 text.vaddr 0x100000) = 0x1000 := by decide
  have hvirtual : u32 (sub32 text.vaddr 0x100000 + 0x100000) = 0x100000 := by decide
  have hfind : memoryFindAvailablePages freshState.memory 1 = .ok 1 := rfl
  have hmark : memoryMarkPages freshState.memory 1 1 .geexOSKernelExecutable =
      .ok (freshMemory 1) := rfl
  have hallocate : memoryAllocate freshState.memory 0x1000 .geexOSKernelExecutable =
      .ok (0x1000, freshMemory 1) :=
    memoryAllocate_of_steps (by decide) (by decide) hfind hmark (by decide)
  simp only [elfLoadElf32File, hsize, hbase, hallocate, ok_bind, loadSegments, loadSegment,
    htarget, hvirtual]
  exact ⟨_, _, rfl⟩

theorem loadedImage_iff_text :
    ∃ image after,
      (ImagePlaced shortFile [text] image after ↔ PagesMapped [text]) ∧
        (PagesMapped [text] → ImageMapped shortFile [text] image after) := by
  obtain ⟨image, after, hload⟩ := text_loaded
  exact ⟨image, after, loadedImage_iff text_segmentsOk freshState_run (by decide) hload⟩

theorem textAndData_segmentsOk : SegmentsOk [text, data] := by
  have hdisjoint : Disjoint text.range data.range := by
    rw [Set.disjoint_left]
    intro address htext hdata
    have hbelow : address < 0x100180 := htext.2
    have habove : 0x101F00 ≤ address := hdata.1
    omega
  exact ⟨by simp [text, data], by simp [text, data], by simp [text, data],
    by simpa using fun _ _ => hdisjoint⟩

theorem textAndData_loaded : ∃ after,
    elfLoadElf32File shortFile .geexOSKernelExecutable ⟨[text, data], 0x100000⟩ freshState =
      .ok (some ⟨0x1000, 0x100000, 0x100000, 0x100000, 0x3000⟩, after) := by
  have hsize : elf32GetImageSize [text, data] = (0x3000, 0x100000) := by decide
  have hbase : findVirtualBase freshState 0x100000 0x3000 = .ok (some 0x100000) := rfl
  have htarget : u32 (0x1000 + sub32 text.vaddr 0x100000) = 0x1000 := by decide
  have hvirtual : u32 (sub32 text.vaddr 0x100000 + 0x100000) = 0x100000 := by decide
  have htarget' : u32 (0x1000 + sub32 data.vaddr 0x100000) = 0x2F00 := by decide
  have hvirtual' : u32 (sub32 data.vaddr 0x100000 + 0x100000) = 0x101F00 := by decide
  have hfind : memoryFindAvailablePages freshState.memory 3 = .ok 1 := rfl
  have hmark : memoryMarkPages freshState.memory 1 3 .geexOSKernelExecutable =
      .ok (freshMemory 3) := rfl
  have hallocate : memoryAllocate freshState.memory 0x3000 .geexOSKernelExecutable =
      .ok (0x1000, freshMemory 3) :=
    memoryAllocate_of_steps (by decide) (by decide) hfind hmark (by decide)
  simp only [elfLoadElf32File, hsize, hbase, hallocate, ok_bind, loadSegments, loadSegment,
    htarget, hvirtual, htarget', hvirtual']
  exact ⟨_, rfl⟩

/-- The second page of the data is not mapped. -/
theorem data_not_mapped :
    ¬ ∀ (file : File) (memType : MemoryType) (context : LoaderContext) (state after : LoaderState)
      (image : LoadedImage), SegmentsOk context.phdrs → PagingRun state → memType ≠ .free →
      elfLoadElf32File file memType context state = .ok (some image, after) →
      ImageMapped file context.phdrs image after := by
  intro hall
  obtain ⟨after, hload⟩ := textAndData_loaded
  have hmapped := hall _ _ _ _ _ _ textAndData_segmentsOk freshState_run (by decide) hload
  obtain ⟨physical, htranslate, _⟩ := hmapped data (by simp) rfl 0x100 (by decide)
  obtain ⟨frame, hframe, _⟩ := Option.map_eq_some_iff.mp htranslate
  obtain ⟨pages, first, _, hplace, hloaded⟩ :=
    elfLoadElf32File_loading textAndData_segmentsOk freshState_run.directoryOk (by decide) hload
  have hthird : 2 < pages := by
    have hhigh := hplace.bounds.high data (by simp) rfl
    simp only [data] at hhigh
    omega
  -- neither length reaches the third page
  obtain ⟨_, phdr, hmem, hmaps⟩ := (hloaded.frames rfl 2 hthird frame).mp hframe
  simp only [List.mem_cons, List.not_mem_nil, or_false] at hmem
  rcases hmem with rfl | rfl <;> exact absurd hmaps (by unfold Elf32Phdr.Maps; decide)

end GeexOS.Elf
