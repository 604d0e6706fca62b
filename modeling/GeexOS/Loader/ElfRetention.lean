import GeexOS.Loader.ElfLoading
import GeexOS.Loader.ElfWrites

/-!
# Physical pages while files are loaded

Nothing that loading does gives a physical page back.  A page that is marked, for an
image or for a page table, stays marked through everything that follows, nested calls
included.
-/

namespace GeexOS.ImageLoading

open GeexOS.Words
open GeexOS.Halting
open GeexOS.ByteMemory
open GeexOS.PhysicalMemory
open GeexOS.PageTables
open GeexOS.HeapLedger
open GeexOS.Strings

variable {memory memory' memory'' : MemoryState} {loader loader' : LoaderState}
variable {state state' : LoadState} {type : MemoryType} {size address : ℕ}

/-- Pages that are taken stay taken. -/
structure Retains (before after : MemoryState) : Prop where
  lowest_eq : after.lowestPhysicalPage = before.lowestPhysicalPage
  taken : ∀ page, before.lowestPhysicalPage ≤ page → before.pageType page ≠ .free →
    after.pageType page ≠ .free

namespace Retains

theorem refl (memory : MemoryState) : Retains memory memory := ⟨rfl, fun _ _ => id⟩

theorem trans (hfirst : Retains memory memory') (hsecond : Retains memory' memory'') :
    Retains memory memory'' where
  lowest_eq := hsecond.lowest_eq.trans hfirst.lowest_eq
  taken := fun page hlow htaken =>
    hsecond.taken page (hfirst.lowest_eq.symm ▸ hlow) (hfirst.taken page hlow htaken)

end Retains

/-- A page that was free and is not any more. -/
structure Takes (before after : MemoryState) (page : ℕ) : Prop where
  lowest_le : before.lowestPhysicalPage ≤ page
  below : page < before.highestPhysicalPage
  was_free : before.pageType page = .free
  taken : after.pageType page ≠ .free

theorem Takes.retained {page : ℕ} (htakes : Takes memory memory' page)
    (hfirst : Retains memory memory') (hretains : Retains memory' memory'') :
    Takes memory memory'' page where
  lowest_le := htakes.lowest_le
  below := htakes.below
  was_free := htakes.was_free
  taken := hretains.taken page (hfirst.lowest_eq.symm ▸ htakes.lowest_le) htakes.taken

/-! ## The allocator -/

theorem memoryAllocate_steps
    (hcall : memoryAllocate memory size type = .ok (address, memory')) :
    ∃ first, memoryFindAvailablePages memory (pageStart size / archPagesize) = .ok first ∧
      memoryMarkPages memory first (pageStart size / archPagesize) type = .ok memory' := by
  rw [memoryAllocate] at hcall
  split at hcall
  · cases hcall
  obtain ⟨first, hfind, hcall⟩ := bind_eq_ok.mp hcall
  obtain ⟨marked, hmark, hcall⟩ := bind_eq_ok.mp hcall
  split at hcall
  · cases hcall
  · obtain ⟨-, rfl⟩ := Prod.mk.inj (Except.ok.inj hcall)
    exact ⟨first, hfind, hmark⟩

theorem memoryAllocate_retains (htype : type ≠ .free)
    (hcall : memoryAllocate memory size type = .ok (address, memory')) :
    Retains memory memory' := by
  obtain ⟨first, -, hmark⟩ := memoryAllocate_steps hcall
  obtain ⟨-, hlowest, -, htable⟩ := memoryMarkPages_eq_ok hmark
  refine ⟨hlowest, fun page hlow htaken => ?_⟩
  rw [htable page hlow]
  split
  · exact htype
  · exact htaken

/-- An allocation of a page or more takes a page. -/
theorem memoryAllocate_takes (htype : type ≠ .free) (hpages : pageStart size / archPagesize ≠ 0)
    (hcall : memoryAllocate memory size type = .ok (address, memory')) :
    ∃ page, Takes memory memory' page := by
  obtain ⟨first, hfind, hmark⟩ := memoryAllocate_steps hcall
  generalize pageStart size / archPagesize = pages at hpages hfind hmark
  have hordered : memory.lowestPhysicalPage ≤ memory.highestPhysicalPage := by
    by_contra hgt
    have hnone : memory.itemCount = 0 := Nat.sub_eq_zero_of_le (Nat.le_of_lt (Nat.not_le.mp hgt))
    rw [memoryFindAvailablePages, hnone] at hfind
    cases hfind
  obtain ⟨hlow, hhigh, hfree⟩ := memoryFindAvailablePages_eq_ok hordered hfind
  obtain ⟨-, -, -, htable⟩ := memoryMarkPages_eq_ok hmark
  refine ⟨first, hlow, by omega, hfree first le_rfl (by omega), ?_⟩
  rw [htable first hlow, if_pos ⟨le_rfl, by omega⟩]
  exact htype

/-! ## Mapping -/

theorem map_retains {physical virtual : ℕ} {usermode writable : Bool}
    (hcall : loader.pagingMapVirtualMemoryNonPAE physical virtual usermode writable =
      .ok loader') : Retains loader.memory loader'.memory := by
  obtain ⟨middle, htable, hafter⟩ := bind_eq_ok.mp hcall
  obtain rfl := Except.ok.inj hafter
  change Retains loader.memory middle.memory
  rw [LoaderState.getTable] at htable
  split at htable
  · obtain rfl := Except.ok.inj htable
    exact .refl _
  · obtain ⟨⟨newPageTbl, memory⟩, hallocate, hmiddle⟩ := bind_eq_ok.mp htable
    obtain rfl := Except.ok.inj hmiddle
    exact memoryAllocate_retains (by decide) hallocate

theorem mapLoop_retains {rounds physical virtual : ℕ} {usermode writable : Bool}
    (hcall : LoaderState.mapLoop usermode writable rounds physical virtual loader =
      .ok loader') : Retains loader.memory loader'.memory := by
  induction rounds generalizing physical virtual loader with
  | zero =>
      obtain rfl := Except.ok.inj hcall
      exact .refl _
  | succ rounds ih =>
      obtain ⟨middle, hmap, hrest⟩ := bind_eq_ok.mp hcall
      exact (map_retains hmap).trans (ih hrest)

theorem mapRange_retains {physical virtual len : ℕ} {usermode writable : Bool}
    (hcall : loader.pagingMapRangeNonPAE physical virtual len usermode writable =
      .ok loader') : Retains loader.memory loader'.memory :=
  mapLoop_retains hcall

/-! ## Segments -/

section Segments

variable {file : Elf.File} {physicalBase originalVirtualBase virtualBase : ℕ} {success : Bool}

theorem loadSegment_retains {phdr : Elf.Elf32Phdr}
    (hcall : Elf.loadSegment file physicalBase originalVirtualBase virtualBase phdr loader =
      .ok (success, loader')) : Retains loader.memory loader'.memory := by
  obtain ⟨delivered, bytes, hread⟩ : ∃ delivered bytes, Elf.readSegment file phdr
      (u32 (physicalBase + Words.sub32 phdr.vaddr originalVirtualBase)) loader.bytes =
        (delivered, bytes) := ⟨_, _, rfl⟩
  simp only [Elf.loadSegment, hread] at hcall
  split at hcall
  · obtain ⟨middle, hmap, hafter⟩ := bind_eq_ok.mp hcall
    obtain ⟨-, rfl⟩ := Prod.mk.inj (Except.ok.inj hafter)
    have hmapped := mapRange_retains hmap
    exact hmapped
  · obtain ⟨-, rfl⟩ := Prod.mk.inj (Except.ok.inj hcall)
    exact .refl _

theorem loadSegments_retains {phdrs : List Elf.Elf32Phdr}
    (hcall : Elf.loadSegments file physicalBase originalVirtualBase virtualBase phdrs loader =
      .ok (success, loader')) : Retains loader.memory loader'.memory := by
  induction phdrs generalizing loader with
  | nil =>
      obtain ⟨-, rfl⟩ := Prod.mk.inj (Except.ok.inj hcall)
      exact .refl _
  | cons phdr rest ih =>
      rw [Elf.loadSegments] at hcall
      split at hcall
      · obtain ⟨⟨loaded, middle⟩, hsegment, hrest⟩ := bind_eq_ok.mp hcall
        have hfirst := loadSegment_retains hsegment
        dsimp only at hrest
        split at hrest
        · exact hfirst.trans (ih hrest)
        · obtain ⟨-, rfl⟩ := Prod.mk.inj (Except.ok.inj hrest)
          exact hfirst
      · exact ih hcall

end Segments

/-! ## One file -/

/-- `elf_loadElf32File` returns before it calls `memory_allocate`. -/
def StopsBeforeAllocating (phdrs : List Elf.Elf32Phdr) (loader : LoaderState) : Prop :=
  (Elf.elf32GetImageSize phdrs).1 = 0 ∨
    Elf.findVirtualBase loader (Elf.elf32GetImageSize phdrs).2 (Elf.elf32GetImageSize phdrs).1 =
      .ok none

section OneFile

variable {file : Elf.File} {memType : MemoryType} {context : Elf.LoaderContext}
variable {info : Option Elf.LoadedImage}

/-- Until then nothing has changed. -/
theorem elfLoadElf32File_of_stops (hstops : StopsBeforeAllocating context.phdrs loader) :
    Elf.elfLoadElf32File file memType context loader = .ok (none, loader) := by
  simp only [Elf.elfLoadElf32File]
  rcases hstops with hsize | hbase
  · rw [if_pos hsize]
  · split
    · rfl
    · rw [hbase, ok_bind]

/-- The size of an image is a number of whole pages. -/
theorem pages_ne_zero {phdrs : List Elf.Elf32Phdr} (hsize : (Elf.elf32GetImageSize phdrs).1 ≠ 0) :
    pageStart (Elf.elf32GetImageSize phdrs).1 / archPagesize ≠ 0 := by
  obtain ⟨size, minAddr, heq⟩ : ∃ size minAddr, Elf.elf32GetImageSize phdrs = (size, minAddr) :=
    ⟨_, _, rfl⟩
  obtain ⟨hlt, hdvd, -⟩ := Elf.elf32GetImageSize_spec heq
  rw [heq] at hsize ⊢
  rw [pageStart_div (hlt.trans (by decide))]
  exact (Nat.div_pos (Nat.le_of_dvd (Nat.pos_of_ne_zero hsize) hdvd) (by decide)).ne'

/-- Behind that a page has been taken, however the call goes on. -/
theorem elfLoadElf32File_takes (htype : memType ≠ .free)
    (hstops : ¬ StopsBeforeAllocating context.phdrs loader)
    (hcall : Elf.elfLoadElf32File file memType context loader = .ok (info, loader')) :
    Retains loader.memory loader'.memory ∧ ∃ page, Takes loader.memory loader'.memory page := by
  rw [StopsBeforeAllocating, not_or] at hstops
  obtain ⟨hsize, hbase⟩ := hstops
  simp only [Elf.elfLoadElf32File, if_neg hsize] at hcall
  obtain ⟨base, hfound, hcall⟩ := bind_eq_ok.mp hcall
  cases base with
  | none => exact absurd hfound hbase
  | some virtualBase =>
      obtain ⟨⟨physicalBase, memory⟩, hallocate, hcall⟩ := bind_eq_ok.mp hcall
      have hretains := memoryAllocate_retains htype hallocate
      obtain ⟨page, htakes⟩ := memoryAllocate_takes htype (pages_ne_zero hsize) hallocate
      dsimp only at hcall
      split at hcall
      · obtain ⟨-, rfl⟩ := Prod.mk.inj (Except.ok.inj hcall)
        exact ⟨hretains, page, htakes⟩
      · obtain ⟨⟨success, middle⟩, hsegments, hcall⟩ := bind_eq_ok.mp hcall
        obtain ⟨-, rfl⟩ := Prod.mk.inj (Except.ok.inj hcall)
        have hloaded := loadSegments_retains hsegments
        exact ⟨hretains.trans hloaded, page, htakes.retained hretains hloaded⟩

theorem elfLoadElf32File_retains (htype : memType ≠ .free)
    (hcall : Elf.elfLoadElf32File file memType context loader = .ok (info, loader')) :
    Retains loader.memory loader'.memory := by
  by_cases hstops : StopsBeforeAllocating context.phdrs loader
  · rw [elfLoadElf32File_of_stops hstops] at hcall
    obtain ⟨-, rfl⟩ := Prod.mk.inj (Except.ok.inj hcall)
    exact .refl _
  · exact (elfLoadElf32File_takes htype hstops hcall).1

end OneFile

/-! ## Linking -/

section Linking

variable {machine : Machine} {loadFile : CString → LoadState → Outcome (Option ℕ × LoadState)}
variable {result : Option ℕ} {success : Bool} {context neededImages d j image : ℕ}

/-- A call of `elf_loadFile` that returns retains the pages. -/
def LoadsRetaining (loadFile : CString → LoadState → Outcome (Option ℕ × LoadState)) : Prop :=
  ∀ filename state result state', loadFile filename state = .ok (result, state') →
    Retains state.loader.memory state'.loader.memory

theorem importImage_retains {libname : CString} (hload : LoadsRetaining loadFile)
    (hcall : importImage loadFile libname state = .ok (result, state')) :
    Retains state.loader.memory state'.loader.memory := by
  rw [importImage] at hcall
  split at hcall
  · obtain ⟨-, rfl⟩ := Prod.mk.inj (Except.ok.inj hcall)
    exact .refl _
  · exact hload _ _ _ _ hcall

theorem neededLoop_retains {fuel : ℕ} (hload : LoadsRetaining loadFile)
    (hcall : neededLoop machine loadFile context neededImages fuel d j state =
      .ok (success, state')) : Retains state.loader.memory state'.loader.memory := by
  induction fuel generalizing d j state with
  | zero => cases hcall
  | succ fuel ih =>
      rw [neededLoop] at hcall
      dsimp only at hcall
      split at hcall
      · obtain ⟨-, rfl⟩ := Prod.mk.inj (Except.ok.inj hcall)
        exact .refl _
      split at hcall
      · obtain ⟨libname, -, hcall⟩ := bind_eq_ok.mp hcall
        obtain ⟨⟨imported, middle⟩, himport, hcall⟩ := bind_eq_ok.mp hcall
        have hfirst := importImage_retains hload himport
        cases imported with
        | none =>
            obtain ⟨-, rfl⟩ := Prod.mk.inj (Except.ok.inj hcall)
            exact hfirst
        | some block =>
            have hrest := ih hcall
            exact hfirst.trans hrest
      · exact ih hcall

theorem doRelocation_retains {relCount rel : ℕ}
    (hcall : doRelocation machine image relCount rel neededImages state = .ok (success, state')) :
    Retains state.loader.memory state'.loader.memory := by
  rw [doRelocation] at hcall
  split at hcall
  · obtain ⟨⟨applied, memory⟩, -, hcall⟩ := bind_eq_ok.mp hcall
    obtain ⟨-, rfl⟩ := Prod.mk.inj (Except.ok.inj hcall)
    exact .refl _
  · obtain ⟨-, rfl⟩ := Prod.mk.inj (Except.ok.inj hcall)
    exact .refl _

theorem applyRelocations_retains
    (hcall : applyRelocations machine image context neededImages state = .ok (success, state')) :
    Retains state.loader.memory state'.loader.memory := by
  obtain ⟨⟨applied, middle⟩, hrel, hcall⟩ := bind_eq_ok.mp hcall
  have hfirst := doRelocation_retains hrel
  dsimp only at hcall
  split at hcall
  · exact hfirst.trans (doRelocation_retains hcall)
  · obtain ⟨-, rfl⟩ := Prod.mk.inj (Except.ok.inj hcall)
    exact hfirst

theorem loadNeeded_retains {neededCount : ℕ} (hload : LoadsRetaining loadFile)
    (hcall : loadNeeded machine loadFile context neededImages d neededCount state =
      .ok (success, state')) : Retains state.loader.memory state'.loader.memory := by
  rw [loadNeeded] at hcall
  split at hcall
  · exact neededLoop_retains hload hcall
  · obtain ⟨-, rfl⟩ := Prod.mk.inj (Except.ok.inj hcall)
    exact .refl _

theorem linkLibraries_retains {neededCount : ℕ} (hload : LoadsRetaining loadFile)
    (hcall : linkLibraries machine loadFile image context d neededCount state =
      .ok (success, state')) : Retains state.loader.memory state'.loader.memory := by
  obtain ⟨⟨loaded, middle⟩, hneeded, hcall⟩ := bind_eq_ok.mp hcall
  have hfirst := loadNeeded_retains hload hneeded
  dsimp only at hcall
  split at hcall
  · obtain ⟨⟨applied, last⟩, hrelocate, hcall⟩ := bind_eq_ok.mp hcall
    obtain ⟨heap, -, hcall⟩ := bind_eq_ok.mp hcall
    obtain ⟨-, rfl⟩ := Prod.mk.inj (Except.ok.inj hcall)
    have hsecond := applyRelocations_retains hrelocate
    exact hfirst.trans hsecond
  · obtain ⟨-, rfl⟩ := Prod.mk.inj (Except.ok.inj hcall)
    exact hfirst

theorem elfLinkElf32File_retains {phdrs : List Elf.Elf32Phdr} (hload : LoadsRetaining loadFile)
    (hcall : elfLinkElf32File machine loadFile image context phdrs state =
      .ok (success, state')) : Retains state.loader.memory state'.loader.memory := by
  have hfailed : ∀ bytes, (Except.ok (false, state.setBytes bytes) : Outcome _) =
      .ok (success, state') → Retains state.loader.memory state'.loader.memory := by
    intro bytes heq
    obtain ⟨-, rfl⟩ := Prod.mk.inj (Except.ok.inj heq)
    exact .refl _
  rw [elfLinkElf32File] at hcall
  split at hcall
  · exact hfailed state.loader.bytes hcall
  dsimp only at hcall
  split at hcall
  · exact hfailed state.loader.bytes hcall
  obtain ⟨⟨neededCount, memory⟩, -, hcall⟩ := bind_eq_ok.mp hcall
  cases neededCount with
  | none => exact hfailed memory hcall
  | some neededCount =>
      dsimp only at hcall
      split at hcall
      · exact hfailed memory hcall
      split at hcall
      · exact hfailed memory hcall
      split at hcall
      · exact hfailed memory hcall
      · have hlinked := linkLibraries_retains hload hcall
        exact hlinked

end Linking

/-! ## Nested calls -/

section Loading

variable {machine : Machine} {files : FileSet} {path : CString} {memType : MemoryType}

/-- What opening a file leaves alone. -/
structure OpenKeeps (state state' : LoadState) : Prop where
  loader_eq : state'.loader = state.loader
  images_eq : state'.images = state.images

/-- The ways out of `findMount`.  The block with the name of the device is given back. -/
inductive FindsMount (files : FileSet) (path : CString) (state : LoadState) :
    Option Mount → LoadState → Prop
  | noDevice (hpath : closing ∉ path) : FindsMount files path state none state
  | mounted {heap : Ledger} {mount : Mount} (hpath : closing ∈ path)
      (hheap : HoldsEach state.heap heap []) (hmount : mountOf path state.mounts = some mount) :
      FindsMount files path state (some mount) { state with heap := heap }
  | unmountable {heap : Ledger} (hheap : HoldsEach state.heap heap [])
      (hunmounted : mountOf path state.mounts = none)
      (hfails : ∀ device, diskGetDeviceByName files path = some device →
        Fat.fatMount device = .ok none) :
      FindsMount files path state none { state with heap := heap }
  | newMount {heap : Ledger} {device : Fat.DiskDevice} {volume : Fat.MountedVolume}
      (hpath : closing ∈ path) (hheap : HoldsEach state.heap heap [])
      (hunmounted : mountOf path state.mounts = none)
      (hdevice : diskGetDeviceByName files path = some device)
      (hvolume : Fat.fatMount device = .ok (some volume)) :
      FindsMount files path state (some ⟨deviceName path, device, volume⟩)
        { state with
          heap := heap.malloc.malloc
          mounts := ⟨deviceName path, device, volume⟩ :: state.mounts }

theorem findMount_finds {found : Option Mount}
    (hcall : findMount files path state = .ok (found, state')) :
    FindsMount files path state found state' := by
  rw [findMount] at hcall
  split at hcall
  · rename_i hpath
    obtain ⟨rfl, rfl⟩ := Prod.mk.inj (Except.ok.inj hcall)
    exact .noDevice hpath
  rename_i hpath
  obtain ⟨heap, hfree, hcall⟩ := bind_eq_ok.mp hcall
  obtain ⟨freed, hfreed, hheap⟩ := (HoldsEach.malloc state.heap).free
  obtain rfl := Except.ok.inj (hfreed.symm.trans hfree)
  split at hcall
  · rename_i mount hmount
    obtain ⟨rfl, rfl⟩ := Prod.mk.inj (Except.ok.inj hcall)
    exact .mounted (not_not.mp hpath) hheap hmount
  rename_i hunmounted
  split at hcall
  · rename_i hdevice
    obtain ⟨rfl, rfl⟩ := Prod.mk.inj (Except.ok.inj hcall)
    exact .unmountable hheap hunmounted fun device hsome => (by cases hdevice.symm.trans hsome)
  rename_i device hdevice
  obtain ⟨mounted, hmounted, hcall⟩ := bind_eq_ok.mp hcall
  cases mounted with
  | none =>
      obtain ⟨rfl, rfl⟩ := Prod.mk.inj (Except.ok.inj hcall)
      refine .unmountable hheap hunmounted fun device' hsome => ?_
      obtain rfl := Option.some.inj (hdevice.symm.trans hsome)
      exact hmounted
  | some volume =>
      obtain ⟨rfl, rfl⟩ := Prod.mk.inj (Except.ok.inj hcall)
      exact .newMount (not_not.mp hpath) hheap hunmounted hdevice hmounted

theorem findMount_keeps {found : Option Mount}
    (hcall : findMount files path state = .ok (found, state')) : OpenKeeps state state' := by
  cases findMount_finds hcall <;> exact ⟨rfl, rfl⟩

theorem fsOpen_keeps {opened : Option (Fat.OpenedFile × Elf.File)}
    (hcall : fsOpen files path state = .ok (opened, state')) : OpenKeeps state state' := by
  obtain ⟨⟨found, middle⟩, hfound, hcall⟩ := bind_eq_ok.mp hcall
  obtain ⟨hloader, himages⟩ := findMount_keeps hfound
  cases found with
  | none =>
      obtain ⟨-, rfl⟩ := Prod.mk.inj (Except.ok.inj hcall)
      exact ⟨hloader, himages⟩
  | some mount =>
      obtain ⟨⟨file, heap⟩, -, hcall⟩ := bind_eq_ok.mp hcall
      obtain ⟨-, rfl⟩ := Prod.mk.inj (Except.ok.inj hcall)
      exact ⟨hloader, himages⟩

theorem loadImage_retains {loadFile : CString → LoadState → Outcome (Option ℕ × LoadState)}
    {file : Elf.File} {elfClass : UInt8} {block : ℕ} {result : LoadResult}
    (htype : memType ≠ .free) (hload : LoadsRetaining loadFile)
    (hcall : loadImage machine loadFile file memType elfClass block state = .ok result) :
    Retains state.loader.memory result.state.loader.memory := by
  rw [loadImage] at hcall
  split at hcall
  · obtain rfl := Except.ok.inj hcall
    exact .refl _
  dsimp only at hcall
  split at hcall
  · obtain rfl := Except.ok.inj hcall
    exact .refl _
  split at hcall
  · obtain rfl := Except.ok.inj hcall
    exact .refl _
  split at hcall
  · obtain rfl := Except.ok.inj hcall
    exact .refl _
  obtain ⟨⟨info, loader⟩, hsegments, hcall⟩ := bind_eq_ok.mp hcall
  have hfirst := elfLoadElf32File_retains htype hsegments
  cases info with
  | none =>
      obtain rfl := Except.ok.inj hcall
      exact hfirst
  | some info =>
      obtain ⟨⟨success, linked⟩, hlink, hcall⟩ := bind_eq_ok.mp hcall
      obtain rfl := Except.ok.inj hcall
      have hsecond := elfLinkElf32File_retains hload hlink
      exact hfirst.trans hsecond

/-- However many files a call loads, no page is given back. -/
theorem elfLoadFile_retains {fuel : ℕ} {result : Option ℕ} (htype : memType ≠ .free)
    (hcall : elfLoadFile machine fuel memType path state = .ok (result, state')) :
    Retains state.loader.memory state'.loader.memory := by
  induction fuel generalizing memType path state result state' with
  | zero => cases hcall
  | succ fuel ih =>
      have hnested : LoadsRetaining (elfLoadFile machine fuel .geexOSKernelLibrary) :=
        fun _ _ _ _ hcall => ih (by decide) hcall
      obtain ⟨⟨imageFile, opened⟩, hopen, hcall⟩ := bind_eq_ok.mp hcall
      have hopened : Retains state.loader.memory opened.loader.memory := by
        rw [(fsOpen_keeps hopen).loader_eq]
        exact .refl _
      dsimp only at hcall
      split at hcall
      · obtain ⟨-, rfl⟩ := Prod.mk.inj (Except.ok.inj hcall)
        exact hopened
      split at hcall
      · obtain ⟨heap, -, hcall⟩ := bind_eq_ok.mp hcall
        obtain ⟨-, rfl⟩ := Prod.mk.inj (Except.ok.inj hcall)
        exact hopened
      obtain ⟨loaded, hloaded, hcall⟩ := bind_eq_ok.mp hcall
      have hsecond := loadImage_retains htype hnested hloaded
      obtain ⟨heap, -, hcall⟩ := bind_eq_ok.mp hcall
      split at hcall
      · obtain ⟨-, rfl⟩ := Prod.mk.inj (Except.ok.inj hcall)
        exact hopened.trans hsecond
      · obtain ⟨freed, -, hcall⟩ := bind_eq_ok.mp hcall
        obtain ⟨-, rfl⟩ := Prod.mk.inj (Except.ok.inj hcall)
        exact hopened.trans hsecond

end Loading

end GeexOS.ImageLoading
