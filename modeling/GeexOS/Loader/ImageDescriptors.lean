import GeexOS.Library.Linked
import GeexOS.Loader.BootBlock
import GeexOS.Loader.ElfImage

/-!
# The loader block's image descriptors

A loaded image is put in front of the others.  The list ends with the image that
was loaded first, which is the kernel's executable; the descriptors are written
from the front of the list on, and the first one gets the mark of the kernel.
-/

namespace GeexOS.BootBlock

open GeexOS.Words
open GeexOS.Halting
open GeexOS.ByteMemory
open GeexOS.Linked
open GeexOS.PhysicalMemory
open GeexOS.PageTables

/-! ## The list of images -/

/-- `struct list_head`. -/
structure ListHead where
  next : ℕ
  prev : ℕ
  deriving DecidableEq, Repr

/-- The list heads in memory, by their addresses. -/
abbrev ListHeads := ℕ → ListHead

def setNext (links : ListHeads) (entry next : ℕ) : ListHeads :=
  Function.update links entry { links entry with next := next }

def setPrev (links : ListHeads) (entry prev : ℕ) : ListHeads :=
  Function.update links entry { links entry with prev := prev }

/-- `__list_add`. -/
def listInsert (new prev next : ℕ) (links : ListHeads) : ListHeads :=
  let links := setPrev links next new
  let links := setNext links new next
  let links := setPrev links new prev
  setNext links prev new

def listAdd (new head : ℕ) (links : ListHeads) : ListHeads :=
  listInsert new head (links head).next links

def listEmpty (head : ℕ) (links : ListHeads) : Bool := (links head).next = head

/-- `LoadedImage`, without the link that puts it into the list. -/
structure LoadedImage extends Elf.LoadedImage where
  name : List UInt8
  deriving DecidableEq, Repr

/-- The place of `Link` in a `LoadedImage`. -/
def linkOffset : ℕ := 68

def linkOf (image : ℕ) : ℕ := image + linkOffset

/-- `list_entry` for the images. -/
def listEntry (link : ℕ) : ℕ := link - linkOffset

/-- The list heads and the images in memory; `loaderLoadedImages` is where the head of
the list lies. -/
structure ImageList where
  loaderLoadedImages : ℕ
  links : ListHeads
  images : ℕ → LoadedImage

namespace ImageList

/-- `LIST_HEAD(loader_loadedImages)`. -/
def new (loaderLoadedImages : ℕ) (links : ListHeads) (images : ℕ → LoadedImage) : ImageList where
  loaderLoadedImages := loaderLoadedImages
  links := Function.update links loaderLoadedImages ⟨loaderLoadedImages, loaderLoadedImages⟩
  images := images

/-- What loading an image into the block at `loaded.1` leaves of it. -/
def load (list : ImageList) (loaded : ℕ × LoadedImage) : ImageList :=
  { list with
    links := listAdd (linkOf loaded.1) list.loaderLoadedImages list.links
    images := Function.update list.images loaded.1 loaded.2 }

/-- The list after the images were loaded, the first one first. -/
def loadAll (loaderLoadedImages : ℕ) (links : ListHeads) (images : ℕ → LoadedImage)
    (loads : List (ℕ × LoadedImage)) : ImageList :=
  loads.foldl load (new loaderLoadedImages links images)

/-- The last image of the list; none stands for NULL. -/
def loaderGetExecutable (list : ImageList) : Option ℕ :=
  if !listEmpty list.loaderLoadedImages list.links then
    some (listEntry (list.links list.loaderLoadedImages).prev)
  else none

end ImageList

/-! ## The block -/

/-- `LOADED_IMAGE`. -/
structure ImageDescriptor where
  name : List UInt8
  physicalBase : ℕ
  virtualBase : ℕ
  virtualEntryPoint : ℕ
  sizeOfImage : ℕ
  isKernelImage : Bool
  deriving DecidableEq, Repr

def maxImageDescriptors : ℕ := 32
def sizeofLoaderBlock : ℕ := 2716
def envInfoAddress : ℕ := 0xE0004000

def ImageDescriptor.of (image : LoadedImage) (isKernelImage : Bool) : ImageDescriptor where
  name := image.name
  physicalBase := image.physicalBase
  virtualBase := image.virtualBase
  virtualEntryPoint := image.virtualEntryPoint
  sizeOfImage := image.sizeOfImage
  isKernelImage := isKernelImage

/-- The loop over the images; `room` descriptors are left, `i` are written and `link` is
the link of the image that comes next. -/
def describeLoop (list : ImageList) : (room i link : ℕ) → Outcome (List ImageDescriptor)
  | 0, _, link =>
      if link = list.loaderLoadedImages then .ok []
      else .error (.panic "GXLDR: No more space left for loaded image descriptors")
  | room + 1, i, link =>
      if link = list.loaderLoadedImages then .ok []
      else do
        let descriptors ← describeLoop list room (i + 1) (list.links link).next
        .ok (.of (list.images (listEntry link)) (i = 0) :: descriptors)

def describeImages (list : ImageList) : Outcome (List ImageDescriptor) :=
  describeLoop list maxImageDescriptors 0 (list.links list.loaderLoadedImages).next

/-- A descriptor in the memory of the block. -/
def ImageDescriptor.store (descriptor : ImageDescriptor) (address : ℕ) (bytes : Memory) :
    Memory :=
  let bytes := writeBytes bytes address 32 fun index => descriptor.name.getD index 0
  let bytes := writeBytes bytes (address + 32) 8 (byteOf descriptor.physicalBase)
  let bytes := writeBytes bytes (address + 40) 8 (byteOf descriptor.virtualBase)
  let bytes := writeBytes bytes (address + 48) 8 (byteOf descriptor.virtualEntryPoint)
  let bytes := store32 bytes (address + 56) descriptor.sizeOfImage
  store32 bytes (address + 60) (if descriptor.isKernelImage then 1 else 0)

def MemoryDescriptor.store (descriptor : MemoryDescriptor) (address : ℕ) (bytes : Memory) :
    Memory :=
  let bytes := writeBytes bytes address 8 (byteOf descriptor.start)
  let bytes := writeBytes bytes (address + 8) 8 (byteOf descriptor.length)
  store32 bytes (address + 16) descriptor.type

/-- The elements of an array, each of `size` bytes. -/
def storeArray {α : Type} (store : α → ℕ → Memory → Memory) (size : ℕ) :
    List α → (address : ℕ) → Memory → Memory
  | [], _, bytes => bytes
  | element :: rest, address, bytes =>
      storeArray store size rest (address + size) (store element address bytes)

/-- `RSD PTR `. -/
def rsdpSignature : List UInt8 := [0x52, 0x53, 0x44, 0x20, 0x50, 0x54, 0x52, 0x20]

/-- Every sixteenth address below 1 MiB is looked at. -/
def loaderFindAndMapACPITables (bytes : Memory) : ℕ :=
  match (List.range 0x10000).find? fun index =>
      (List.range 8).map (fun i => bytes (16 * index + i)) = rsdpSignature with
  | some index => 16 * index
  | none => 2 ^ 64 - 1

/-- All of the loader block; each count is the length of its list. -/
structure PopulatedLoaderBlock extends LoaderBlock where
  loaderBlockSize : ℕ
  loadedImages : List ImageDescriptor
  acpiRDSPDescriptor : ℕ

def loaderAllocateAndPopulateLoaderBlock (list : ImageList) (state : LoaderState) :
    Outcome (PopulatedLoaderBlock × LoaderState) := do
  let (loaderBlock, memory) ←
    memoryAllocate state.memory sizeofLoaderBlock .geexOSKernelEnvironmentInformation
  let cleared := writeBytes state.bytes loaderBlock sizeofLoaderBlock fun _ => 0
  let state ← LoaderState.pagingMapVirtualMemoryNonPAE loaderBlock envInfoAddress false false
    { state with memory := memory, bytes := cleared }
  let images ← describeImages list
  let bytes := store32 state.bytes loaderBlock sizeofLoaderBlock
  let bytes := writeBytes bytes (loaderBlock + 4) 2 (byteOf images.length)
  let bytes := storeArray ImageDescriptor.store 64 images (loaderBlock + 8) bytes
  let acpi := loaderFindAndMapACPITables bytes
  let built ← loaderBuildPhysicalMemoryMap state.memory ⟨[], 0⟩
  let bytes := writeBytes bytes (loaderBlock + 2056) 2 (byteOf built.memoryDescriptors.length)
  let bytes := storeArray MemoryDescriptor.store 20 built.memoryDescriptors (loaderBlock + 2060)
    bytes
  let bytes := writeBytes bytes (loaderBlock + 2700) 8 (byteOf acpi)
  let bytes := writeBytes bytes (loaderBlock + 2708) 8 (byteOf (upperMemoryBoundary state.memory))
  .ok ({ memoryDescriptors := built.memoryDescriptors
         upperMemoryBoundary := upperMemoryBoundary state.memory
         loaderBlockSize := sizeofLoaderBlock
         loadedImages := images
         acpiRDSPDescriptor := acpi },
    { state with bytes := bytes })

/-! ## What the list holds -/

variable {list : ImageList} {order loads libraries : List (ℕ × LoadedImage)}
variable {loaded executable : ℕ × LoadedImage} {head new other : ℕ} {links : ListHeads}

/-- The list goes through the images of `order`, and its head knows the last one. -/
structure ImageList.Represents (list : ImageList) (order : List (ℕ × LoadedImage)) : Prop where
  chain : Chain (fun link => (list.links link).next) list.loaderLoadedImages
    (list.links list.loaderLoadedImages).next (order.map fun loaded => linkOf loaded.1)
  prev_eq : (list.links list.loaderLoadedImages).prev =
    (order.map fun loaded => linkOf loaded.1).getLastD list.loaderLoadedImages
  images_eq : ∀ loaded ∈ order, list.images loaded.1 = loaded.2

/-- The images lie in blocks of their own, and the head of the list in none of them. -/
structure SeparateBlocks (head : ℕ) (loads : List (ℕ × LoadedImage)) : Prop where
  nodup : (loads.map Prod.fst).Nodup
  head_ne : ∀ loaded ∈ loads, linkOf loaded.1 ≠ head

@[simp]
theorem listEntry_linkOf (image : ℕ) : listEntry (linkOf image) = image :=
  Nat.add_sub_cancel ..

theorem linkOf_injective : Function.Injective linkOf := fun _ _ => Nat.add_right_cancel

theorem next_setNext (links : ListHeads) (entry next link : ℕ) :
    (setNext links entry next link).next = if link = entry then next else (links link).next := by
  rw [setNext, Function.update_apply]
  split <;> rfl

@[simp]
theorem next_setPrev (links : ListHeads) (entry prev link : ℕ) :
    (setPrev links entry prev link).next = (links link).next := by
  rw [setPrev, Function.update_apply]
  split
  · rename_i heq
    rw [heq]
  · rfl

@[simp]
theorem prev_setNext (links : ListHeads) (entry next link : ℕ) :
    (setNext links entry next link).prev = (links link).prev := by
  rw [setNext, Function.update_apply]
  split
  · rename_i heq
    rw [heq]
  · rfl

theorem prev_setPrev (links : ListHeads) (entry prev link : ℕ) :
    (setPrev links entry prev link).prev = if link = entry then prev else (links link).prev := by
  rw [setPrev, Function.update_apply]
  split <;> rfl

theorem next_listAdd (new head link : ℕ) (links : ListHeads) :
    (listAdd new head links link).next =
      if link = head then new else if link = new then (links head).next
      else (links link).next := by
  simp only [listAdd, listInsert, next_setNext, next_setPrev]

theorem prev_listAdd_head (hnew : new ≠ head) (links : ListHeads) :
    (listAdd new head links head).prev =
      if head = (links head).next then new else (links head).prev := by
  simp only [listAdd, listInsert, prev_setNext, prev_setPrev, if_neg hnew.symm]

theorem represents_new (head : ℕ) (links : ListHeads) (images : ℕ → LoadedImage) :
    (ImageList.new head links images).Represents [] := by
  refine ⟨?_, ?_, fun _ hmem => absurd hmem List.not_mem_nil⟩
  · simp [ImageList.new, chain_nil]
  · simp [ImageList.new]

namespace ImageList.Represents

/-- Loading an image puts it in front. -/
theorem load (hlist : list.Represents order)
    (hblocks : SeparateBlocks list.loaderLoadedImages (loaded :: order)) :
    (list.load loaded).Represents (loaded :: order) := by
  have hhead : linkOf loaded.1 ≠ list.loaderLoadedImages :=
    hblocks.head_ne loaded List.mem_cons_self
  have hfresh : ∀ other ∈ order, other.1 ≠ loaded.1 := fun other hmem heq =>
    (List.nodup_cons.mp hblocks.nodup).1 (heq ▸ List.mem_map_of_mem hmem)
  refine ⟨?_, ?_, fun other hmem => ?_⟩
  · have hnext : (listAdd (linkOf loaded.1) list.loaderLoadedImages list.links
        list.loaderLoadedImages).next = linkOf loaded.1 := by
      rw [next_listAdd, if_pos rfl]
    simp only [ImageList.load, hnext]
    refine hlist.chain.push hhead ?_ fun link hmem => ?_
    · rw [next_listAdd, if_neg hhead, if_pos rfl]
    · obtain ⟨other, hother, rfl⟩ := List.mem_map.mp hmem
      rw [next_listAdd, if_neg (hlist.chain.ne_stop hmem),
        if_neg fun heq => hfresh other hother (linkOf_injective heq)]
  · have hempty : list.loaderLoadedImages = (list.links list.loaderLoadedImages).next ↔
        order = [] := by
      rw [eq_comm, hlist.chain.start_eq_stop_iff, List.map_eq_nil_iff]
    simp only [ImageList.load, prev_listAdd_head hhead, hempty, List.map_cons,
      List.getLastD_cons]
    split
    · rename_i hnil
      rw [hnil, List.map_nil, List.getLastD_nil]
    · rename_i hne
      obtain ⟨first, rest, rfl⟩ := List.exists_cons_of_ne_nil hne
      rw [hlist.prev_eq, List.map_cons, List.getLastD_cons, List.getLastD_cons]
  · rcases List.mem_cons.mp hmem with rfl | hmem
    · exact Function.update_self ..
    · rw [← hlist.images_eq other hmem]
      exact Function.update_of_ne (hfresh other hmem) ..

end ImageList.Represents

/-- After any number of loads, the list goes from the last one to the first. -/
theorem represents_loadAll (links : ListHeads) (images : ℕ → LoadedImage)
    (hblocks : SeparateBlocks head loads) :
    (ImageList.loadAll head links images loads).Represents loads.reverse ∧
      (ImageList.loadAll head links images loads).loaderLoadedImages = head := by
  induction loads using List.reverseRecOn with
  | nil => exact ⟨represents_new head links images, rfl⟩
  | append_singleton front loaded ih =>
      have hfront : SeparateBlocks head front :=
        ⟨hblocks.nodup.sublist ((List.sublist_append_left ..).map _),
          fun other hmem => hblocks.head_ne other (List.mem_append_left _ hmem)⟩
      obtain ⟨hlist, hhead⟩ := ih hfront
      rw [ImageList.loadAll, List.foldl_append, List.foldl_cons, List.foldl_nil,
        List.reverse_append]
      refine ⟨hlist.load ⟨?_, fun other hmem => ?_⟩, hhead⟩
      · have hnodup := List.nodup_reverse.mpr hblocks.nodup
        rwa [← List.map_reverse, List.reverse_append] at hnodup
      · rw [hhead]
        refine hblocks.head_ne other ?_
        rcases List.mem_cons.mp hmem with rfl | hmem
        · exact List.mem_append_right _ (List.mem_singleton_self _)
        · exact List.mem_append_left _ (List.mem_reverse.mp hmem)

/-- The image that was loaded first is the executable. -/
theorem ImageList.Represents.getExecutable
    (hlist : list.Represents (order ++ [executable])) :
    list.loaderGetExecutable = some executable.1 := by
  have hne : (list.links list.loaderLoadedImages).next ≠ list.loaderLoadedImages := by
    rw [ne_eq, hlist.chain.start_eq_stop_iff]
    simp
  simp [ImageList.loaderGetExecutable, listEmpty, hne, hlist.prev_eq]

/-! ## The marks -/

theorem describeLoop_eq {room i link : ℕ}
    (hchain : Chain (fun link => (list.links link).next) list.loaderLoadedImages link
      (order.map fun loaded => linkOf loaded.1))
    (himages : ∀ loaded ∈ order, list.images loaded.1 = loaded.2)
    (hroom : order.length ≤ room) :
    describeLoop list room i link =
      .ok (order.mapIdx fun index loaded => .of loaded.2 (i + index = 0)) := by
  induction order generalizing room i link with
  | nil =>
      have hlink := chain_nil.mp hchain
      cases room <;> simp [describeLoop, hlink]
  | cons loaded rest ih =>
      obtain ⟨rfl, hne, hrest⟩ := chain_cons.mp hchain
      cases room with
      | zero => simp at hroom
      | succ room =>
          have hloop := ih (i := i + 1) hrest
            (fun other hmem => himages other (List.mem_cons_of_mem _ hmem))
            (Nat.le_of_succ_le_succ hroom)
          rw [describeLoop, if_neg hne, hloop, listEntry_linkOf,
            himages loaded List.mem_cons_self, List.mapIdx_cons]
          simp [Nat.add_right_comm, Nat.add_assoc]

/-- One descriptor for each of the loaded images, in the order of the list, and the mark
is on that of the image that `loader_getExecutable` returns. -/
def KernelMarked (list : ImageList) (loads : List (ℕ × LoadedImage))
    (descriptors : List ImageDescriptor) : Prop :=
  ∃ order : List (ℕ × LoadedImage), ∃ kernel : ℕ, order.Perm loads ∧
    Chain (fun link => (list.links link).next) list.loaderLoadedImages
      (list.links list.loaderLoadedImages).next (order.map fun loaded => linkOf loaded.1) ∧
    list.loaderGetExecutable = some kernel ∧ kernel ∈ loads.map Prod.fst ∧
    descriptors = order.map fun loaded => .of loaded.2 (loaded.1 = kernel)

/-- The descriptors for a list of images, the first one with the mark. -/
def firstMarked (order : List (ℕ × LoadedImage)) : List ImageDescriptor :=
  order.mapIdx fun index loaded => .of loaded.2 (index = 0)

theorem ImageList.Represents.describeImages_eq (hlist : list.Represents order)
    (hlength : order.length ≤ maxImageDescriptors) :
    describeImages list = .ok (firstMarked order) := by
  rw [describeImages, describeLoop_eq hlist.chain hlist.images_eq hlength]
  simp [firstMarked]

/-- The mark is on the image in front, which is the executable only if it is alone. -/
theorem ImageList.Represents.kernelMarked_iff
    (hlist : list.Represents (libraries.reverse ++ [executable]))
    (hnodup : ((executable :: libraries).map Prod.fst).Nodup) :
    KernelMarked list (executable :: libraries) (firstMarked (libraries.reverse ++ [executable])) ↔
      libraries = [] := by
  constructor
  · rintro ⟨order, kernel, -, hchain, hkernel, -, hdescriptors⟩
    rw [hlist.getExecutable, Option.some.injEq] at hkernel
    have horder : order.map Prod.fst = (libraries.reverse ++ [executable]).map Prod.fst := by
      have hsame := hchain.unique hlist.chain
      refine List.map_injective_iff.mpr linkOf_injective ?_
      rwa [List.map_map, List.map_map]
    rcases List.eq_nil_or_concat libraries with hnil | ⟨front, newest, rfl⟩
    · exact hnil
    exfalso
    obtain ⟨first, rest, rfl⟩ : ∃ first rest, order = first :: rest := by
      cases order with
      | nil => simp at horder
      | cons first rest => exact ⟨first, rest, rfl⟩
    rw [List.concat_eq_append, List.reverse_append] at horder hdescriptors
    simp only [List.reverse_cons, List.reverse_nil, List.nil_append, List.cons_append,
      List.map_cons, List.cons.injEq] at horder
    have hmark : first.1 = kernel := by
      have hfirst := congrArg (fun descriptors => descriptors.head?.map (·.isKernelImage))
        hdescriptors
      simpa [firstMarked, ImageDescriptor.of, List.mapIdx_cons] using hfirst
    simp only [List.map_cons, List.nodup_cons] at hnodup
    refine hnodup.1 ?_
    rw [hkernel, ← hmark, horder.1]
    simp
  · rintro rfl
    refine ⟨[executable], executable.1, List.Perm.refl _, hlist.chain, hlist.getExecutable,
      List.mem_cons_self, ?_⟩
    simp [firstMarked]

/-- The images of a loader block are what the loop writes. -/
theorem loadedImages_eq {state after : LoaderState} {block : PopulatedLoaderBlock}
    {descriptors : List ImageDescriptor} (himages : describeImages list = .ok descriptors)
    (hblock : loaderAllocateAndPopulateLoaderBlock list state = .ok (block, after)) :
    block.loadedImages = descriptors := by
  rw [loaderAllocateAndPopulateLoaderBlock] at hblock
  obtain ⟨allocated, -, hblock⟩ := bind_eq_ok.mp hblock
  obtain ⟨mapped, -, hblock⟩ := bind_eq_ok.mp hblock
  rw [himages, ok_bind] at hblock
  obtain ⟨built, -, hblock⟩ := bind_eq_ok.mp hblock
  rw [Except.ok.injEq, Prod.mk.injEq] at hblock
  rw [← hblock.1]

/-- The loader block marks the executable, and it alone, exactly if no library was loaded. -/
theorem loaderBlock_kernelMarked_iff (links : ListHeads) (images : ℕ → LoadedImage)
    (state : LoaderState) (hlibraries : libraries.length ≤ 31)
    (hblocks : SeparateBlocks head (executable :: libraries)) :
    ∃ descriptors,
      describeImages (.loadAll head links images (executable :: libraries)) = .ok descriptors ∧
      (∀ block after, loaderAllocateAndPopulateLoaderBlock
          (.loadAll head links images (executable :: libraries)) state = .ok (block, after) →
        block.loadedImages = descriptors) ∧
      (KernelMarked (.loadAll head links images (executable :: libraries))
        (executable :: libraries) descriptors ↔ libraries = []) := by
  have hlist := (represents_loadAll links images hblocks).1
  rw [List.reverse_cons] at hlist
  have himages := hlist.describeImages_eq (by
    rw [List.length_append, List.length_reverse, List.length_singleton]
    exact Nat.succ_le_succ hlibraries)
  exact ⟨_, himages, fun block after hblock => loadedImages_eq himages hblock,
    hlist.kernelMarked_iff hblocks.nodup⟩

/-- `gxoskrnl.elf`, loaded to 1 MiB. -/
def kernelLoad : ℕ × LoadedImage :=
  (0x8000,
    { physicalBase := 0x100000
      virtualBase := 0xC0000000
      originalBase := 0xC0000000
      virtualEntryPoint := 0xC0001000
      sizeOfImage := 0x20000
      name := [0x67, 0x78, 0x6F, 0x73, 0x6B, 0x72, 0x6E, 0x6C, 0x2E, 0x65, 0x6C, 0x66] ++
        List.replicate 20 0 })

/-- `hal.so`, loaded behind it. -/
def halLoad : ℕ × LoadedImage :=
  (0x8100,
    { physicalBase := 0x120000
      virtualBase := 0xC0020000
      originalBase := 0
      virtualEntryPoint := 0xC0020000
      sizeOfImage := 0x8000
      name := [0x68, 0x61, 0x6C, 0x2E, 0x73, 0x6F] ++ List.replicate 26 0 })

theorem separateBlocks_halLoad : SeparateBlocks 0x7000 [kernelLoad, halLoad] :=
  ⟨by decide, by decide⟩

/-- With a library, the mark is on the library. -/
theorem library_marked :
    ¬ ∀ (head : ℕ) (links : ListHeads) (images : ℕ → LoadedImage) (executable : ℕ × LoadedImage)
      (libraries : List (ℕ × LoadedImage)), libraries.length ≤ 31 →
      SeparateBlocks head (executable :: libraries) → ∀ descriptors,
      describeImages (.loadAll head links images (executable :: libraries)) = .ok descriptors →
      KernelMarked (.loadAll head links images (executable :: libraries))
        (executable :: libraries) descriptors := by
  intro hall
  have hlist := (represents_loadAll (fun _ => ⟨0, 0⟩) (fun _ => kernelLoad.2)
    separateBlocks_halLoad).1
  have hmarked := hall 0x7000 (fun _ => ⟨0, 0⟩) (fun _ => kernelLoad.2) kernelLoad [halLoad]
    (by decide) separateBlocks_halLoad _ (hlist.describeImages_eq (by decide))
  exact List.cons_ne_nil _ _ ((hlist.kernelMarked_iff separateBlocks_halLoad.nodup).mp hmarked)

theorem loaderBlock_kernelMarked_iff_halLoad :
    ∃ descriptors,
      describeImages (.loadAll 0x7000 (fun _ => ⟨0, 0⟩) (fun _ => kernelLoad.2)
        [kernelLoad, halLoad]) = .ok descriptors ∧
      (∀ block after, loaderAllocateAndPopulateLoaderBlock
          (.loadAll 0x7000 (fun _ => ⟨0, 0⟩) (fun _ => kernelLoad.2) [kernelLoad, halLoad])
          Elf.freshState = .ok (block, after) →
        block.loadedImages = descriptors) ∧
      (KernelMarked (.loadAll 0x7000 (fun _ => ⟨0, 0⟩) (fun _ => kernelLoad.2)
        [kernelLoad, halLoad]) [kernelLoad, halLoad] descriptors ↔ [halLoad] = []) :=
  loaderBlock_kernelMarked_iff _ _ Elf.freshState (by decide) separateBlocks_halLoad

end GeexOS.BootBlock
