import GeexOS.Loader.ElfHash
import GeexOS.Loader.ElfHeaders
import GeexOS.Loader.ElfLibraries
import GeexOS.Loader.ElfRelocation
import GeexOS.Loader.FatOpen
import GeexOS.Loader.Partitions

/-!
# Loading image files

Loading a file opens it, reads its headers, puts its segments into memory of their
own, maps them and links them; linking loads the libraries that are needed.  On the
way it takes blocks of the heap, physical pages, virtual pages and a place in the
list of images.
-/

namespace GeexOS.ImageLoading

open GeexOS.Words
open GeexOS.Halting
open GeexOS.ByteMemory
open GeexOS.PhysicalMemory
open GeexOS.PageTables
open GeexOS.Strings
open GeexOS.HeapLedger
open GeexOS.Elf (Elf32Ehdr Elf32Phdr)

/-! ## What the loader works on -/

/-- The disk devices by their names, and what `read` delivers of a file that was
found. -/
structure FileSet where
  devices : List (CString × Fat.DiskDevice)
  contents : Fat.DiskDevice → Fat.MountedVolume → Fat.FoundFile → Elf.File

/-- An entry of `FsMountList`. -/
structure Mount where
  name : CString
  device : Fat.DiskDevice
  volume : Fat.MountedVolume

/-- An entry of `loader_loadedImages`: the block of its record, and the name in it. -/
structure ImageEntry where
  block : ℕ
  name : CString
  deriving DecidableEq, Repr

/-- Where the heap's blocks and the head of the list of images lie. -/
structure Machine where
  files : FileSet
  placeOf : ℕ → ℕ
  loadedImages : ℕ

structure LoadState where
  loader : LoaderState
  heap : Ledger
  mounts : List Mount
  images : List ImageEntry

def LoadState.setBytes (state : LoadState) (bytes : Memory) : LoadState :=
  { state with loader := { state.loader with bytes := bytes } }

def LoadState.malloc (state : LoadState) : LoadState :=
  { state with heap := state.heap.malloc }

/-! ## Opening and closing -/

/-- `)`. -/
def closing : UInt8 := 0x29

/-- The part of a path that `open` takes for the name of the device. -/
def deviceName (path : CString) : CString := (path.takeWhile fun c => c != closing) ++ [closing]

/-- The rest, behind one slash or backslash. -/
def fileName (path : CString) : CString :=
  match path.drop (deviceName path).length with
  | [] => []
  | c :: rest => if Fat.isSeparator c then rest else c :: rest

def mountOf (path : CString) (mounts : List Mount) : Option Mount :=
  mounts.find? fun mount => mount.name = deviceName path

/-- `disk_getDeviceByName`. -/
def diskGetDeviceByName (files : FileSet) (path : CString) : Option Fat.DiskDevice :=
  (files.devices.find? fun device => device.1 = deviceName path).map Prod.snd

/-- `open` up to the file system's own function: the mount. -/
def findMount (files : FileSet) (path : CString) (state : LoadState) :
    Outcome (Option Mount × LoadState) :=
  if closing ∉ path then .ok (none, state)
  else do
    let devicename := state.heap.next
    let heap := state.heap.malloc
    let heap ← heap.free (some devicename)
    match mountOf path state.mounts with
    | some mount => .ok (some mount, { state with heap := heap })
    | none =>
        match diskGetDeviceByName files path with
        | none => .ok (none, { state with heap := heap })
        | some device => do
            match ← Fat.fatMount device with
            | none => .ok (none, { state with heap := heap })
            | some volume =>
                -- the volume information and the mount
                let mount : Mount := ⟨deviceName path, device, volume⟩
                .ok (some mount,
                  { state with heap := heap.malloc.malloc, mounts := mount :: state.mounts })

/-- `open`: the blocks of the file and what it holds. -/
def fsOpen (files : FileSet) (path : CString) (state : LoadState) :
    Outcome (Option (Fat.OpenedFile × Elf.File) × LoadState) := do
  let (found, state) ← findMount files path state
  match found with
  | none => .ok (none, state)
  | some mount => do
      let (opened, heap) ←
        Fat.fatOpenTraced mount.device mount.volume (fileName path) state.heap
      .ok (opened.map fun opened =>
        (opened, files.contents mount.device mount.volume opened.found),
          { state with heap := heap })

/-- The blocks that `fat_close` gives back. -/
def fileBlocks (opened : Fat.OpenedFile) : List (Option ℕ) :=
  [opened.fatChain, some opened.fileInfo, some opened.file]

/-! ## Headers -/

def einident : ℕ := 16
def elfclass32 : UInt8 := 1
def elfclass64 : UInt8 := 2

/-- The class in `e_ident`, if the file starts like an ELF file of a known class. -/
def elfClass (file : Elf.File) : Option UInt8 :=
  if min einident file.size ≠ einident then none
  else if file.bytes 0 ≠ 0x7F ∨ file.bytes 1 ≠ 0x45 ∨ file.bytes 2 ≠ 0x4C ∨ file.bytes 3 ≠ 0x46 then
    none
  else if file.bytes 4 ≠ elfclass64 ∧ file.bytes 4 ≠ elfclass32 then none
  else some (file.bytes 4)

/-- `context->phdrs` in its block; behind the block the heap goes on. -/
def contextPhdrs (header : Elf32Ehdr) (block : List UInt8) (address : ℕ) (bytes : Memory) :
    List Elf32Phdr :=
  (List.range header.phnum).map fun i =>
    Elf.elf32Phdr (Elf.phdrEntry block (fun k => bytes (address + k)) i)

/-! ## Linking -/

def ptDynamic : ℕ := 2
def dtNull : ℕ := 0
def dtNeeded : ℕ := 1
def dtPltrelsz : ℕ := 2
def dtHash : ℕ := 4
def dtStrtab : ℕ := 5
def dtSymtab : ℕ := 6
def dtRela : ℕ := 7
def dtSymbolic : ℕ := 16
def dtRel : ℕ := 17
def dtRelsz : ℕ := 18
def dtPltrel : ℕ := 20
def dtJmprel : ℕ := 23
def sizeofElf32Dyn : ℕ := 8
def sizeofElf32Rel : ℕ := 8

/-- What the `switch` does for an entry of the dynamic section; none if linking ends. -/
def storeDynamic (image context tag value : ℕ) (memory : Memory) : Option Memory :=
  if tag = dtPltrel then if value ≠ dtRel then none else some memory
  else if tag = dtRela then none
  else if tag = dtJmprel then
    some (store32 memory (context + 16) (Elf.imageAddress memory image value))
  else if tag = dtPltrelsz then some (store32 memory (context + 12) (value / sizeofElf32Rel))
  else if tag = dtRel then
    some (store32 memory (context + 24) (Elf.imageAddress memory image value))
  else if tag = dtRelsz then some (store32 memory (context + 20) (value / sizeofElf32Rel))
  else if tag = dtSymtab then
    some (store32 memory (context + 32) (Elf.imageAddress memory image value))
  else if tag = dtStrtab then
    some (store32 memory (context + 28) (Elf.imageAddress memory image value))
  else if tag = dtHash then some (Elf.linkHash memory image context value)
  else if tag = dtSymbolic then some (writeBytes memory (context + 52) 1 fun _ => 1)
  else some memory

/-- The loop through the dynamic section: how many libraries are needed. -/
def dynamicLoop (image context : ℕ) : (fuel d neededCount : ℕ) → Memory →
    Outcome (Option ℕ × Memory)
  | 0, _, _, _ => .error .diverges
  | fuel + 1, d, neededCount, memory =>
      let tag := load32 memory d
      if tag = dtNull then .ok (some neededCount, memory)
      else
        match storeDynamic image context tag (load32 memory (d + 4)) memory with
        | none => .ok (none, memory)
        | some memory =>
            dynamicLoop image context fuel (u32 (d + sizeofElf32Dyn))
              (if tag = dtNeeded then u32 (neededCount + 1) else neededCount) memory

/-- The string at an address. -/
def stringAt (memory : Memory) : (fuel address : ℕ) → Outcome CString
  | 0, _ => .error .diverges
  | fuel + 1, address =>
      if memory address = 0 then .ok []
      else do
        let rest ← stringAt memory fuel (u32 (address + 1))
        .ok (memory address :: rest)

/-- `loader_isImageLoaded`, with the image. -/
def loaderIsImageLoaded (name : CString) (images : List ImageEntry) : Option ImageEntry :=
  images.find? fun image => stricmp name image.name = 0

section Linking

variable (machine : Machine) (loadFile : CString → LoadState → Outcome (Option ℕ × LoadState))

/-- Gets or loads the image of a library: the block of its record. -/
def importImage (libname : CString) (state : LoadState) : Outcome (Option ℕ × LoadState) :=
  match loaderIsImageLoaded libname state.images with
  | some image => .ok (some image.block, state)
  | none => loadFile (Libraries.fullPath libname) state

/-- The loop that loads all needed libraries. -/
def neededLoop (context neededImages : ℕ) : (fuel d j : ℕ) → LoadState →
    Outcome (Bool × LoadState)
  | 0, _, _, _ => .error .diverges
  | fuel + 1, d, j, state => do
      let memory := state.loader.bytes
      if load32 memory d = dtNull then .ok (true, state)
      else if load32 memory d = dtNeeded then do
        let libname ← stringAt memory (2 ^ 32)
          (u32 (Elf.contextStrtab memory context + load32 memory (d + 4)))
        let (imported, state) ← importImage loadFile libname state
        match imported with
        | none => .ok (false, state)
        | some block =>
            neededLoop context neededImages fuel (u32 (d + sizeofElf32Dyn)) (j + 1)
              (state.setBytes (store32 state.loader.bytes (u32 (neededImages + 4 * j))
                (machine.placeOf block)))
      else neededLoop context neededImages fuel (u32 (d + sizeofElf32Dyn)) j state

/-- The head of the list of images, as `list_add` and `list_del` leave it. -/
def linkHead (images : List ImageEntry) (memory : Memory) : Memory :=
  let link : Option ImageEntry → ℕ := fun image =>
    match image with
    | none => machine.loadedImages
    | some image => machine.placeOf image.block + Elf.imageLinkOffset
  store32 (store32 memory machine.loadedImages (link images.head?)) (machine.loadedImages + 4)
    (link images.getLast?)

/-- `elf_elf32doRelocation`, unless there is nothing to relocate. -/
def doRelocation (image relCount rel neededImages : ℕ) (state : LoadState) :
    Outcome (Bool × LoadState) :=
  if relCount > 0 ∧ rel ≠ 0 then do
    let (success, memory) ← Elf.elfElf32DoRelocation
      (linkHead machine state.images state.loader.bytes) machine.loadedImages image relCount rel
      neededImages
    .ok (success, state.setBytes memory)
  else .ok (true, state)

/-- Both kinds of relocations, one after the other. -/
def applyRelocations (image context neededImages : ℕ) (state : LoadState) :
    Outcome (Bool × LoadState) := do
  let (success, state) ← doRelocation machine image (load32 state.loader.bytes (context + 20))
    (load32 state.loader.bytes (context + 24)) neededImages state
  if success then
    doRelocation machine image (load32 state.loader.bytes (context + 12))
      (load32 state.loader.bytes (context + 16)) neededImages state
  else .ok (false, state)

def loadNeeded (context neededImages d neededCount : ℕ) (state : LoadState) :
    Outcome (Bool × LoadState) :=
  if neededCount > 0 then neededLoop machine loadFile context neededImages (2 ^ 32) d 0 state
  else .ok (true, state)

/-- The part of `elf_linkElf32File` behind the loop through the dynamic section.  The array
stays behind if a library cannot be loaded. -/
def linkLibraries (image context d neededCount : ℕ) (state : LoadState) :
    Outcome (Bool × LoadState) := do
  let block := state.heap.next
  let neededImages := machine.placeOf block
  let bytes := writeBytes state.loader.bytes neededImages (u32 (4 * (neededCount + 1))) fun _ => 0
  let (loaded, state) ←
    loadNeeded machine loadFile context neededImages d neededCount (state.malloc.setBytes bytes)
  if loaded then do
    let (success, state) ← applyRelocations machine image context neededImages state
    let heap ← state.heap.free (some block)
    .ok (success, { state with heap := heap })
  else .ok (false, state)

/-- `elf_linkElf32File`. -/
def elfLinkElf32File (image context : ℕ) (phdrs : List Elf32Phdr) (state : LoadState) :
    Outcome (Bool × LoadState) :=
  match phdrs.find? fun phdr => phdr.type = ptDynamic with
  | none => .ok (false, state)
  | some phdr =>
      let memory := state.loader.bytes
      let virtual := u64 (Elf.imageVirtualBase memory image +
        Words.sub64 phdr.vaddr (Elf.imageOriginalBase memory image))
      if state.loader.pagingIsRangeFreeNonPAE virtual phdr.memsz then .ok (false, state)
      else do
        let d := Elf.imageAddress memory image phdr.vaddr
        let (neededCount, memory) ← dynamicLoop image context (2 ^ 32) d 0 memory
        let state := state.setBytes memory
        match neededCount with
        | none => .ok (false, state)
        | some neededCount =>
            if Elf.contextNbucket memory context = 0 then .ok (false, state)
            else if Elf.contextStrtab memory context = 0 then .ok (false, state)
            else if Elf.contextSymtab memory context = 0 then .ok (false, state)
            else linkLibraries machine loadFile image context d neededCount state

end Linking

/-! ## Loading -/

def store64 (memory : Memory) (address value : ℕ) : Memory :=
  writeBytes memory address 8 (byteOf value)

/-- The record and the context of a new image, in front of the list. -/
def addImage (machine : Machine) (filename : CString) (state : LoadState) : LoadState :=
  let block := state.heap.next
  let image := machine.placeOf block
  let context := machine.placeOf (block + 1)
  let bytes := writeBytes state.loader.bytes image Elf.sizeofLoadedImage fun _ => 0
  let bytes := writeBytes bytes context 56 fun _ => 0
  { state.malloc.malloc.setBytes (store32 bytes (image + 80) context) with
    images := ⟨block, (fsGetFilename filename).take 31⟩ :: state.images }

/-- What `elf_loadElf32File` puts into the record. -/
def storeImage (image : ℕ) (info : Elf.LoadedImage) (memory : Memory) : Memory :=
  let memory := store64 memory (image + 32) info.physicalBase
  let memory := store64 memory (image + 40) info.virtualBase
  store64 memory (image + 48) info.originalBase

/-- Whether the image was loaded, the blocks at `context->header` and `context->phdrs`,
and the state. -/
structure LoadResult where
  success : Bool
  header : Option ℕ
  phdrs : Option ℕ
  state : LoadState

/-- The part of `elf_loadFile` behind `list_add`, for the image whose record is `block`. -/
def loadImage (machine : Machine) (loadFile : CString → LoadState → Outcome (Option ℕ × LoadState))
    (file : Elf.File) (memType : MemoryType) (elfClass : UInt8) (block : ℕ) (state : LoadState) :
    Outcome LoadResult :=
  if elfClass = elfclass64 then .ok ⟨false, none, none, state⟩
  else
    let headerBlock := state.heap.next
    let state := state.malloc
    match Elf.elfGetElf32Header file with
    | none => .ok ⟨false, some headerBlock, none, state⟩
    | some header =>
        if u32 (header.phentsize * header.phnum) > 16 * 1024 then
          .ok ⟨false, some headerBlock, none, state⟩
        else
          let phdrsBlock := state.heap.next
          let state := state.malloc
          match Elf.elfGetElf32Phdrs file header with
          | none => .ok ⟨false, some headerBlock, some phdrsBlock, state⟩
          | some phdrs => do
              let address := machine.placeOf phdrsBlock
              let (info, loader) ← Elf.elfLoadElf32File file memType
                ⟨contextPhdrs header phdrs address state.loader.bytes, header.entry⟩ state.loader
              let state := { state with loader := loader }
              match info with
              | none => .ok ⟨false, some headerBlock, some phdrsBlock, state⟩
              | some info => do
                  let image := machine.placeOf block
                  let state := state.setBytes (storeImage image info state.loader.bytes)
                  let (success, state) ← elfLinkElf32File machine loadFile image
                    (machine.placeOf (block + 1))
                    (contextPhdrs header phdrs address state.loader.bytes) state
                  .ok ⟨success, some headerBlock, some phdrsBlock, state⟩

/-- `elf_loadFile`, with as many nested calls as there is fuel for: the block of the
image's record, or none if it returned false. -/
def elfLoadFile (machine : Machine) : (fuel : ℕ) → (memType : MemoryType) → CString → LoadState →
    Outcome (Option ℕ × LoadState)
  | 0, _, _, _ => .error .diverges
  | fuel + 1, memType, filename, state => do
      let (imageFile, state) ← fsOpen machine.files filename state
      match imageFile with
      | none => .ok (none, state)
      | some (opened, file) =>
          match elfClass file with
          | none => do
              let heap ← state.heap.freeAll (fileBlocks opened)
              .ok (none, { state with heap := heap })
          | some elfClass => do
              let block := state.heap.next
              let result ← loadImage machine (elfLoadFile machine fuel .geexOSKernelLibrary) file
                memType elfClass block (addImage machine filename state)
              let state := result.state
              let heap ← state.heap.freeAll (fileBlocks opened)
              if result.success then .ok (some block, { state with heap := heap })
              else do
                let heap ← heap.freeAll [result.header, result.phdrs, some (block + 1), some block]
                .ok (none,
                  { state with
                    heap := heap
                    images := state.images.eraseP fun image => image.block = block })

end GeexOS.ImageLoading
