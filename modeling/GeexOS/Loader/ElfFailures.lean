import GeexOS.Loader.ElfRetention

/-!
# Image loads that fail

A call that returns false closes the file, frees what it allocated for the image and
takes it off the list.  The pages, the mappings and the libraries it has loaded by then
stay, so only a call that ends before it allocates pages is undone.
-/

namespace GeexOS.ImageLoading

open GeexOS.Words
open GeexOS.Halting
open GeexOS.ByteMemory
open GeexOS.PhysicalMemory
open GeexOS.PageTables
open GeexOS.Strings
open GeexOS.HeapLedger

/-- A call of `elf_loadFile` that returns false.  No caller asks for free pages. -/
structure FailedLoad where
  machine : Machine
  fuel : ℕ
  memType : MemoryType
  path : CString
  before : LoadState
  after : LoadState
  type_ne : memType ≠ .free
  failed : elfLoadFile machine fuel memType path before = .ok (none, after)

/-- The images and the heap's blocks are those from before, and what was a free page or
an unmapped one is so again. -/
structure Undone (before after : LoadState) : Prop where
  images : after.images = before.images
  pages : ∀ page, before.loader.memory.Managed page → before.loader.memory.pageType page = .free →
    after.loader.memory.pageType page = .free
  mappings : ∀ page, before.loader.frameOf page = none → after.loader.frameOf page = none
  heap : after.heap.live = before.heap.live

def FailedLoad.Undone (call : FailedLoad) : Prop := ImageLoading.Undone call.before call.after

/-! ## The condition -/

/-- The path names no device, or one that is not mounted and cannot be. -/
def NoMount (files : FileSet) (path : CString) (state : LoadState) : Prop :=
  closing ∉ path ∨ mountOf path state.mounts = none ∧
    ∀ device, diskGetDeviceByName files path = some device → Fat.fatMount device = .ok none

/-- The headers are not accepted, or there is no size or no place for the image.  The
program headers lie in the second block from here. -/
def HeadersRejected (machine : Machine) (file : Elf.File) (elfClass : UInt8) (state : LoadState) :
    Prop :=
  elfClass = elfclass64 ∨ Elf.elfGetElf32Header file = none ∨
    ∃ header, Elf.elfGetElf32Header file = some header ∧
      (Elf.elfGetElf32Phdrs file header = none ∨
        ∃ phdrs, Elf.elfGetElf32Phdrs file header = some phdrs ∧
          StopsBeforeAllocating (contextPhdrs header phdrs
            (machine.placeOf (state.heap.next + 1)) state.loader.bytes) state.loader)

/-- The file is no image, or it is rejected once its record is in the list. -/
def Rejected (machine : Machine) (path : CString) (file : Elf.File) (state : LoadState) : Prop :=
  ∀ class', elfClass file = some class' →
    HeadersRejected machine file class' (addImage machine path state)

/-- Nothing can be opened, or a file of a mounted volume is opened and rejected. -/
def FailedLoad.EndsInTime (call : FailedLoad) : Prop :=
  NoMount call.machine.files call.path call.before ∨
    mountOf call.path call.before.mounts ≠ none ∧ ∃ opened state,
      fsOpen call.machine.files call.path call.before = .ok (some opened, state) ∧
        Rejected call.machine call.path opened.2 state

variable {machine : Machine} {files : FileSet} {path : CString} {memType : MemoryType}
variable {state state' : LoadState} {before ledger after : Ledger} {file : Elf.File}

/-! ## Opening -/

theorem findMount_holds {found : Option Mount}
    (hcall : findMount files path state = .ok (found, state')) :
    ∃ held, HoldsEach state.heap state'.heap held ∧
      (found = none → NoMount files path state ∧ held = []) ∧
      (found ≠ none → ¬ NoMount files path state ∧
        (held = [] ↔ mountOf path state.mounts ≠ none)) := by
  cases findMount_finds hcall with
  | noDevice hpath => exact ⟨[], .refl _, fun _ => ⟨Or.inl hpath, rfl⟩, fun hne => absurd rfl hne⟩
  | mounted hpath hheap hmount =>
      refine ⟨[], hheap, fun hnone => (by cases hnone), fun _ => ⟨?_, by simp [hmount]⟩⟩
      rintro (hnot | ⟨hnone, -⟩)
      · exact hnot hpath
      · cases hmount.symm.trans hnone
  | unmountable hheap hunmounted hfails =>
      exact ⟨[], hheap, fun _ => ⟨Or.inr ⟨hunmounted, hfails⟩, rfl⟩, fun hne => absurd rfl hne⟩
  | newMount hpath hheap hunmounted hdevice hvolume =>
      refine ⟨_, (hheap.trans (.malloc _)).trans (.malloc _), fun hnone => (by cases hnone),
        fun _ => ⟨?_, by simp [hunmounted]⟩⟩
      rintro (hnot | ⟨-, hfails⟩)
      · exact hnot hpath
      · cases hvolume.symm.trans (hfails _ hdevice)

/-- An opened file holds the blocks that closing it gives back. -/
theorem fatOpenTraced_holdsEach {device : Fat.DiskDevice} {volume : Fat.MountedVolume}
    {opened : Option Fat.OpenedFile}
    (hcall : Fat.fatOpenTraced device volume path ledger = .ok (opened, after)) :
    ∃ held, HoldsEach ledger after held ∧ (opened = none → held ≠ []) ∧
      ∀ file, opened = some file → held.Perm (fileBlocks file).reduceOption := by
  have hrecords := (HoldsEach.malloc ledger).trans (.malloc ledger.malloc)
  obtain ⟨⟨found, after'⟩, hfound, hlast⟩ := bind_eq_ok.mp hcall
  have hchain : Holds ledger.malloc.malloc after' (Fat.chainBlock found) := by
    rcases @Fat.fatFindFileTraced_tracks device volume ledger.malloc.malloc path with
      ⟨_, _, hresult, _, hholds⟩ | ⟨_, herror, _⟩
    · obtain ⟨rfl, rfl⟩ := Prod.mk.inj (Except.ok.inj (hfound.symm.trans hresult))
      exact hholds
    · cases hfound.symm.trans herror
  match found, hchain with
  | none, hchain =>
      have hnone : HoldsEach ledger.malloc.malloc after' [] := ⟨hchain, List.nodup_nil⟩
      obtain ⟨rfl, rfl⟩ := Prod.mk.inj (Except.ok.inj hlast)
      exact ⟨_, hrecords.trans hnone, fun _ => by simp, fun file hfile => by cases hfile⟩
  | some (none, info), hchain =>
      have hnone : HoldsEach ledger.malloc.malloc after' [] := ⟨hchain, List.nodup_nil⟩
      obtain ⟨rfl, rfl⟩ := Prod.mk.inj (Except.ok.inj hlast)
      refine ⟨_, hrecords.trans hnone, fun hnone => (by cases hnone), fun file hfile => ?_⟩
      obtain rfl := Option.some.inj hfile
      exact List.Perm.swap _ _ _
  | some (some block, info), hchain =>
      have hblock : HoldsEach ledger.malloc.malloc after' [block] :=
        ⟨hchain, List.nodup_singleton block⟩
      obtain ⟨rfl, rfl⟩ := Prod.mk.inj (Except.ok.inj hlast)
      refine ⟨_, hrecords.trans hblock, fun hnone => (by cases hnone), fun file hfile => ?_⟩
      obtain rfl := Option.some.inj hfile
      exact (List.reverse_perm _).symm

/-- If nothing is opened, only a call without a mount holds no blocks. -/
theorem fsOpen_none (hopen : fsOpen files path state = .ok (none, state')) :
    ∃ held, HoldsEach state.heap state'.heap held ∧ (held = [] ↔ NoMount files path state) := by
  obtain ⟨⟨found, middle⟩, hfound, hopen⟩ := bind_eq_ok.mp hopen
  obtain ⟨held, hheld, hnone, hsome⟩ := findMount_holds hfound
  cases found with
  | none =>
      obtain ⟨-, rfl⟩ := Prod.mk.inj (Except.ok.inj hopen)
      obtain ⟨hmount, rfl⟩ := hnone rfl
      exact ⟨[], hheld, iff_of_true rfl hmount⟩
  | some mount =>
      obtain ⟨hmount, -⟩ := hsome (by simp)
      obtain ⟨⟨opened, heap⟩, htraced, hopen⟩ := bind_eq_ok.mp hopen
      obtain ⟨hopened, rfl⟩ := Prod.mk.inj (Except.ok.inj hopen)
      obtain ⟨records, hrecords, hmissed, -⟩ := fatOpenTraced_holdsEach htraced
      have hleft := hmissed (Option.map_eq_none_iff.mp hopened)
      refine ⟨_, hheld.trans hrecords, iff_of_false (fun hempty => ?_) hmount⟩
      exact hleft (List.append_eq_nil_iff.mp hempty).2

/-- If a file is opened, its blocks are held, and those of a mount that is new. -/
theorem fsOpen_some {opened : Fat.OpenedFile}
    (hopen : fsOpen files path state = .ok (some (opened, file), state')) :
    ¬ NoMount files path state ∧ ∃ rest,
      HoldsEach state.heap state'.heap ((fileBlocks opened).reduceOption ++ rest) ∧
        (rest = [] ↔ mountOf path state.mounts ≠ none) := by
  obtain ⟨⟨found, middle⟩, hfound, hopen⟩ := bind_eq_ok.mp hopen
  obtain ⟨held, hheld, -, hsome⟩ := findMount_holds hfound
  cases found with
  | none => cases hopen
  | some mount =>
      obtain ⟨hmount, hempty⟩ := hsome (by simp)
      obtain ⟨⟨traced, heap⟩, htraced, hopen⟩ := bind_eq_ok.mp hopen
      obtain ⟨hopened, rfl⟩ := Prod.mk.inj (Except.ok.inj hopen)
      obtain ⟨file', hfile', hpair⟩ := Option.map_eq_some_iff.mp hopened
      obtain ⟨rfl, -⟩ := Prod.mk.inj hpair
      obtain ⟨records, hrecords, -, hfound⟩ := fatOpenTraced_holdsEach htraced
      have hblocks := hfound file' hfile'
      exact ⟨hmount, held, (hheld.trans hrecords).perm
        ((List.Perm.append_left _ hblocks).trans List.perm_append_comm), hempty⟩

/-! ## Files that are rejected -/

theorem elfGetElf32Phdrs_of_large {header : Elf.Elf32Ehdr}
    (hlarge : u32 (header.phentsize * header.phnum) > 16 * 1024) :
    Elf.elfGetElf32Phdrs file header = none := by
  simp only [Elf.elfGetElf32Phdrs, if_pos hlarge]

/-- `list_del` takes the record off again. -/
theorem addImage_removed : ((addImage machine path state).images.eraseP fun image =>
    image.block = state.heap.next) = state.images := by
  simp [addImage]

/-- If the segments are not loaded, the blocks of the headers are there. -/
theorem loadImage_of_unloaded
    {loadFile : CString → LoadState → Outcome (Option ℕ × LoadState)} {class' : UInt8} {block : ℕ}
    {header : Elf.Elf32Ehdr} {phdrs : List UInt8} {loader : LoaderState}
    (hclass : class' ≠ elfclass64) (hheader : Elf.elfGetElf32Header file = some header)
    (hphdrs : Elf.elfGetElf32Phdrs file header = some phdrs)
    (hsegments : Elf.elfLoadElf32File file memType
      ⟨contextPhdrs header phdrs (machine.placeOf (state.heap.next + 1)) state.loader.bytes,
        header.entry⟩ state.loader = .ok (none, loader)) :
    loadImage machine loadFile file memType class' block state =
      .ok ⟨false, some state.heap.next, some (state.heap.next + 1),
        { state.malloc.malloc with loader := loader }⟩ := by
  have hsmall : ¬ u32 (header.phentsize * header.phnum) > 16 * 1024 := by
    intro hlarge
    rw [elfGetElf32Phdrs_of_large hlarge] at hphdrs
    cases hphdrs
  rw [loadImage, if_neg hclass]
  simp only [hheader, if_neg hsmall, hphdrs]
  exact bind_eq_ok.mpr ⟨_, hsegments, rfl⟩

/-- The loading ends with nothing but blocks of the heap. -/
theorem loadImage_of_rejected {loadFile : CString → LoadState → Outcome (Option ℕ × LoadState)}
    {class' : UInt8} {block : ℕ} (hrejected : HeadersRejected machine file class' state) :
    ∃ header phdrs state', loadImage machine loadFile file memType class' block state =
        .ok ⟨false, header, phdrs, state'⟩ ∧
      state'.loader = state.loader ∧ state'.images = state.images ∧
        HoldsEach state.heap state'.heap [header, phdrs].reduceOption := by
  have hone := HoldsEach.malloc state.heap
  have htwo := hone.trans (.malloc state.heap.malloc)
  by_cases hclass : class' = elfclass64
  · exact ⟨none, none, state, if_pos hclass, rfl, rfl, .refl _⟩
  rcases hrejected.resolve_left hclass with
    hnone | ⟨header, hheader, hnone | ⟨phdrs, hphdrs, hstops⟩⟩
  · rw [loadImage, if_neg hclass]
    simp only [hnone]
    exact ⟨_, _, _, rfl, rfl, rfl, hone⟩
  · rw [loadImage, if_neg hclass]
    simp only [hheader]
    by_cases hlarge : u32 (header.phentsize * header.phnum) > 16 * 1024
    · rw [if_pos hlarge]
      exact ⟨_, _, _, rfl, rfl, rfl, hone⟩
    rw [if_neg hlarge]
    simp only [hnone]
    exact ⟨_, _, _, rfl, rfl, rfl, htwo⟩
  · have hsegments := @elfLoadElf32File_of_stops state.loader file memType
      ⟨contextPhdrs header phdrs (machine.placeOf (state.heap.next + 1)) state.loader.bytes,
        header.entry⟩ hstops
    exact ⟨_, _, _, loadImage_of_unloaded hclass hheader hphdrs hsegments, rfl, rfl, htwo⟩

/-- An image that is not rejected takes a page. -/
theorem loadImage_takes {loadFile : CString → LoadState → Outcome (Option ℕ × LoadState)}
    {class' : UInt8} {block : ℕ} {result : LoadResult} (htype : memType ≠ .free)
    (hload : LoadsRetaining loadFile) (haccepted : ¬ HeadersRejected machine file class' state)
    (hcall : loadImage machine loadFile file memType class' block state = .ok result) :
    ∃ page, Takes state.loader.memory result.state.loader.memory page := by
  rw [HeadersRejected, not_or, not_or] at haccepted
  obtain ⟨hclass, hheader, hphdrs⟩ := haccepted
  rw [loadImage, if_neg hclass] at hcall
  dsimp only at hcall
  split at hcall
  · rename_i hnone
    exact absurd hnone hheader
  rename_i header hsome
  split at hcall
  · rename_i hlarge
    exact absurd ⟨header, hsome, Or.inl (elfGetElf32Phdrs_of_large hlarge)⟩ hphdrs
  split at hcall
  · rename_i hnone
    exact absurd ⟨header, hsome, Or.inl hnone⟩ hphdrs
  rename_i phdrs hread
  obtain ⟨⟨info, loader⟩, hsegments, hcall⟩ := bind_eq_ok.mp hcall
  have hgoesOn : ¬ StopsBeforeAllocating (contextPhdrs header phdrs
      (machine.placeOf (state.heap.next + 1)) state.loader.bytes) state.loader := fun hstops =>
    hphdrs ⟨header, hsome, Or.inr ⟨phdrs, hread, hstops⟩⟩
  obtain ⟨hfirst, page, htakes⟩ := elfLoadElf32File_takes htype hgoesOn hsegments
  cases info with
  | none =>
      obtain rfl := Except.ok.inj hcall
      exact ⟨page, htakes⟩
  | some info =>
      obtain ⟨⟨success, linked⟩, hlink, hcall⟩ := bind_eq_ok.mp hcall
      obtain rfl := Except.ok.inj hcall
      have hsecond := elfLinkElf32File_retains hload hlink
      exact ⟨page, htakes.retained hfirst hsecond⟩

/-! ## Calls that fail -/

section Calls

variable {fuel : ℕ} {opened : Fat.OpenedFile} {rest : List ℕ}

/-- `out_error`, when the image is in the list: its blocks and those of the file are given
back. -/
theorem elfLoadFile_of_loadImage {class' : UInt8} {header phdrs : Option ℕ} {loaded : LoadState}
    (hopen : fsOpen machine.files path state = .ok (some (opened, file), state'))
    (hclass : elfClass file = some class')
    (hload : loadImage machine (elfLoadFile machine fuel .geexOSKernelLibrary) file memType class'
      state'.heap.next (addImage machine path state') = .ok ⟨false, header, phdrs, loaded⟩)
    (hblocks : HoldsEach (addImage machine path state').heap loaded.heap
      [header, phdrs].reduceOption)
    (hheld : HoldsEach before state'.heap ((fileBlocks opened).reduceOption ++ rest)) :
    ∃ after, elfLoadFile machine (fuel + 1) memType path state = .ok (none, after) ∧
      after.loader = loaded.loader ∧
      (after.images = loaded.images.eraseP fun image => image.block = state'.heap.next) ∧
      HoldsEach before after.heap rest := by
  have hrecord := (HoldsEach.malloc state'.heap).trans (.malloc state'.heap.malloc)
  have hall := (hheld.trans hrecord).trans hblocks
  have hfirst : ((fileBlocks opened).reduceOption ++ rest ++
      [state'.heap.next, state'.heap.next + 1] ++ [header, phdrs].reduceOption).Perm
      ((fileBlocks opened).reduceOption ++ ([header, phdrs].reduceOption ++
        [state'.heap.next + 1, state'.heap.next] ++ rest)) := by
    rw [List.append_assoc, List.append_assoc]
    refine List.Perm.append_left _ (List.perm_append_comm.trans (List.Perm.append_right _ ?_))
    exact List.perm_append_comm.trans (List.Perm.append_left _ (List.Perm.swap _ _ _))
  obtain ⟨heap, hclosed, hheap⟩ := (hall.perm hfirst).freeAll
  have hgiven : [header, phdrs, some (state'.heap.next + 1), some state'.heap.next].reduceOption =
      [header, phdrs].reduceOption ++ [state'.heap.next + 1, state'.heap.next] :=
    List.reduceOption_append [header, phdrs] _
  rw [← hgiven] at hheap
  obtain ⟨freed, hfreed, hlast⟩ := hheap.freeAll
  rw [elfLoadFile, hopen, ok_bind]
  simp only [hclass]
  exact ⟨_, bind_eq_ok.mpr ⟨_, hload, bind_eq_ok.mpr ⟨heap, hclosed,
    bind_eq_ok.mpr ⟨freed, hfreed, rfl⟩⟩⟩, rfl, rfl, hlast⟩

/-- A file that is rejected leaves the blocks that were held before. -/
theorem elfLoadFile_of_rejected
    (hopen : fsOpen machine.files path state = .ok (some (opened, file), state'))
    (hrejected : Rejected machine path file state')
    (hheld : HoldsEach before state'.heap ((fileBlocks opened).reduceOption ++ rest)) :
    ∃ after, elfLoadFile machine (fuel + 1) memType path state = .ok (none, after) ∧
      after.loader.memory = state'.loader.memory ∧
      (∀ page, after.loader.frameOf page = state'.loader.frameOf page) ∧
      after.images = state'.images ∧ HoldsEach before after.heap rest := by
  cases hclass : elfClass file with
  | none =>
      obtain ⟨heap, hclosed, hheap⟩ := hheld.freeAll
      rw [elfLoadFile, hopen, ok_bind]
      simp only [hclass]
      exact ⟨_, bind_eq_ok.mpr ⟨heap, hclosed, rfl⟩, rfl, fun _ => rfl, rfl, hheap⟩
  | some class' =>
      obtain ⟨header, phdrs, loaded, hload, hloader, himages, hblocks⟩ :=
        @loadImage_of_rejected machine memType _ file
          (elfLoadFile machine fuel .geexOSKernelLibrary) class' state'.heap.next
          (hrejected class' hclass)
      obtain ⟨after, hcall, hkept, hremoved, hheap⟩ :=
        elfLoadFile_of_loadImage hopen hclass hload hblocks hheld
      rw [hloader] at hkept
      refine ⟨after, hcall, by rw [hkept]; rfl, by rw [hkept]; exact fun _ => rfl, ?_, hheap⟩
      rw [hremoved, himages]
      exact addImage_removed

/-- A file that is not rejected costs a page. -/
theorem elfLoadFile_takes {result : Option ℕ} {final : LoadState} (htype : memType ≠ .free)
    (hopen : fsOpen machine.files path state = .ok (some (opened, file), state'))
    (haccepted : ¬ Rejected machine path file state')
    (hcall : elfLoadFile machine (fuel + 1) memType path state = .ok (result, final)) :
    ∃ page, Takes state.loader.memory final.loader.memory page := by
  rw [Rejected] at haccepted
  push Not at haccepted
  obtain ⟨class', hclass, haccepted⟩ := haccepted
  have hnested : LoadsRetaining (elfLoadFile machine fuel .geexOSKernelLibrary) :=
    fun _ _ _ _ hcall => elfLoadFile_retains (by decide) hcall
  rw [elfLoadFile, hopen, ok_bind] at hcall
  simp only [hclass] at hcall
  obtain ⟨loaded, hloaded, hcall⟩ := bind_eq_ok.mp hcall
  obtain ⟨page, htakes⟩ := loadImage_takes htype hnested haccepted hloaded
  have hloader := (fsOpen_keeps hopen).loader_eq
  have hmemory : (addImage machine path state').loader.memory = state.loader.memory := by
    change state'.loader.memory = _
    rw [hloader]
  rw [hmemory] at htakes
  obtain ⟨heap, -, hcall⟩ := bind_eq_ok.mp hcall
  split at hcall
  · obtain ⟨-, rfl⟩ := Prod.mk.inj (Except.ok.inj hcall)
    exact ⟨page, htakes⟩
  · obtain ⟨freed, -, hcall⟩ := bind_eq_ok.mp hcall
    obtain ⟨-, rfl⟩ := Prod.mk.inj (Except.ok.inj hcall)
    exact ⟨page, htakes⟩

end Calls

/-- A call that has taken nothing but blocks is undone if none of them is left. -/
theorem undone_iff_nil {before after : LoadState} {held : List ℕ}
    (hmemory : after.loader.memory = before.loader.memory)
    (hframes : ∀ page, after.loader.frameOf page = before.loader.frameOf page)
    (himages : after.images = before.images) (hheld : HoldsEach before.heap after.heap held) :
    Undone before after ↔ held = [] := by
  constructor
  · intro hundone
    by_contra hne
    exact hheld.live_ne hne hundone.heap
  · rintro rfl
    exact {
      images := himages
      pages := fun page _ hfree => by rwa [hmemory]
      mappings := fun page hnone => by rwa [hframes]
      heap := hheld.live_eq }

theorem not_undone_of_takes {before after : LoadState} {page : ℕ}
    (htakes : Takes before.loader.memory after.loader.memory page) : ¬ Undone before after :=
  fun hundone => htakes.taken
    (hundone.pages page ⟨htakes.lowest_le, htakes.below⟩ htakes.was_free)

/-- A failing call is undone exactly if it ends before it allocates pages, and has mounted
nothing and missed no file by then. -/
theorem FailedLoad.undone_iff_endsInTime (call : FailedLoad) : call.Undone ↔ call.EndsInTime := by
  obtain ⟨machine, fuel, memType, path, before, after, htype, hcall⟩ := call
  change ImageLoading.Undone before after ↔ NoMount machine.files path before ∨
    mountOf path before.mounts ≠ none ∧ ∃ opened state,
      fsOpen machine.files path before = .ok (some opened, state) ∧
        Rejected machine path opened.2 state
  obtain ⟨fuel, rfl⟩ : ∃ fewer, fuel = fewer + 1 := by
    cases fuel with
    | zero => cases hcall
    | succ fewer => exact ⟨fewer, rfl⟩
  obtain ⟨⟨imageFile, middle⟩, hopen, hlast⟩ := bind_eq_ok.mp hcall
  obtain ⟨hloader, himages⟩ := fsOpen_keeps hopen
  match imageFile with
  | none =>
      obtain ⟨-, rfl⟩ := Prod.mk.inj (Except.ok.inj hlast)
      obtain ⟨held, hheld, hmount⟩ := fsOpen_none hopen
      have hframes : ∀ page, middle.loader.frameOf page = before.loader.frameOf page := by
        rw [hloader]
        exact fun _ => rfl
      rw [undone_iff_nil (by rw [hloader]) hframes himages hheld, hmount]
      refine (or_iff_left ?_).symm
      rintro ⟨-, opened, state, hsome, -⟩
      cases hopen.symm.trans hsome
  | some (opened, file) =>
      obtain ⟨hmount, rest, hheld, hrest⟩ := fsOpen_some hopen
      rw [or_iff_right hmount]
      by_cases hrejected : Rejected machine path file middle
      · obtain ⟨final, hfinal, hmemory, hframes, hkept, hfreed⟩ :=
          @elfLoadFile_of_rejected machine path memType before middle before.heap file fuel opened
            rest hopen hrejected hheld
        obtain ⟨-, rfl⟩ := Prod.mk.inj (Except.ok.inj (hfinal.symm.trans hcall))
        rw [hloader] at hmemory hframes
        rw [undone_iff_nil hmemory hframes (hkept.trans himages) hfreed, hrest]
        exact ⟨fun hmounted => ⟨hmounted, _, _, hopen, hrejected⟩, And.left⟩
      · obtain ⟨page, htakes⟩ := elfLoadFile_takes htype hopen hrejected hcall
        refine iff_of_false (not_undone_of_takes htakes) ?_
        rintro ⟨-, opened', state, hsome, hstate⟩
        obtain ⟨hsame, rfl⟩ := Prod.mk.inj (Except.ok.inj (hopen.symm.trans hsome))
        obtain rfl := Option.some.inj hsame
        exact hrejected hstate

/-! ## A file that is too short -/

/-- The headers of an image with one segment, of which the file should have 256 bytes. -/
def shortImage : List UInt8 :=
  [0x7F, 0x45, 0x4C, 0x46, 1] ++ List.replicate 11 0 ++ [3, 0, 3, 0] ++ List.replicate 20 0 ++
    [52, 0, 32, 0, 1, 0] ++ List.replicate 6 0 ++
    [1, 0, 0, 0, 0, 0, 0, 0, 0, 0, 0x10, 0, 0, 0, 0, 0] ++
    [0, 1, 0, 0, 0, 1, 0, 0, 5, 0, 0, 0, 0, 0, 0, 0]

/-- The small volume with the image in place of the directory. -/
def imageDevice : Fat.DiskDevice :=
  { Fat.smallDevice with
    content := fun position =>
      match position / 512 with
      | 1 => [0xF8, 0xFF, 0xFF, 0xFF, 0x0F].getD (position % 512) 0
      | 2 => (Fat.pad 11 [0x4B] ++ 0x20 :: List.replicate 14 0 ++ [2, 0, 84, 0, 0, 0]).getD
          (position % 512) 0
      | 3 => shortImage.getD (position % 512) 0
      | _ => 0 }

/-- `hd(0,0)`. -/
def imageDisk : CString := [0x68, 0x64, 0x28, 0x30, 0x2C, 0x30, 0x29]

/-- `hd(0,0)/K`. -/
def imagePath : CString := imageDisk ++ [0x2F, 0x4B]

def imageMachine : Machine where
  files :=
    { devices := []
      contents := fun device volume found => ⟨found.filesize, Fat.fileByte device
        volume.toFatVolumeInformation ⟨found.filesize, found.fatChain.getD []⟩⟩ }
  placeOf := fun block => 0x8000 + 0x400 * block
  loadedImages := 0x7000

def imageFile : Elf.File :=
  imageMachine.files.contents imageDevice Fat.smallVolume ⟨0x20, 84, some [2]⟩

def imageState : LoadState where
  loader := Elf.freshState
  heap := Fat.emptyLedger
  mounts := [⟨imageDisk, imageDevice, Fat.smallVolume⟩]
  images := []

def imageHeader : Elf.Elf32Ehdr := ⟨3, 3, 0, 0, 52, 32, 1⟩
def imagePhdr : Elf.Elf32Phdr := ⟨1, 0, 0x100000, 256, 256, 5⟩

/-- The program header is the whole block. -/
theorem imageContext (address : ℕ) (bytes : Memory) :
    contextPhdrs imageHeader (shortImage.drop 52) address bytes = [imagePhdr] := by
  have hentry : Elf.phdrEntry (shortImage.drop 52) (fun k => bytes (address + k)) 0 =
      shortImage.drop 52 := rfl
  have hphdr : Elf.elf32Phdr (shortImage.drop 52) = imagePhdr := by decide +kernel
  change [Elf.elf32Phdr (Elf.phdrEntry (shortImage.drop 52) (fun k => bytes (address + k)) 0)] = _
  rw [hentry, hphdr]

/-- The page is allocated before the segment is read. -/
theorem imageFile_unloaded (bytes : Memory) : ∃ after,
    Elf.elfLoadElf32File imageFile .geexOSKernelExecutable ⟨[imagePhdr], 0⟩
      { Elf.freshState with bytes := bytes } = .ok (none, after) ∧
        after.memory = Elf.freshMemory 1 := by
  have hsize : Elf.elf32GetImageSize [imagePhdr] = (0x1000, 0x100000) := by decide
  have hplace : Elf.freshState.pagingIsRangeFreeNonPAE 0x100000 0x1000 = true := rfl
  have hbase : Elf.findVirtualBase { Elf.freshState with bytes := bytes } 0x100000 0x1000 =
      .ok (some 0x100000) := if_pos hplace
  have hfind : memoryFindAvailablePages Elf.freshState.memory 1 = .ok 1 := rfl
  have hmark : memoryMarkPages Elf.freshState.memory 1 1 .geexOSKernelExecutable =
      .ok (Elf.freshMemory 1) := rfl
  have hallocate : memoryAllocate Elf.freshState.memory 0x1000 .geexOSKernelExecutable =
      .ok (0x1000, Elf.freshMemory 1) :=
    memoryAllocate_of_steps (by decide) (by decide) hfind hmark (by decide)
  simp only [Elf.elfLoadElf32File, hsize, hbase, hallocate, ok_bind, Elf.loadSegments,
    Elf.loadSegment]
  exact ⟨_, rfl, rfl⟩

theorem imageFile_opened : ∃ opened state, fsOpen imageMachine.files imagePath imageState =
    .ok (some (opened, imageFile), state) := by
  have hlook : Fat.fatFindFile imageDevice Fat.smallVolume (fileName imagePath) =
      .ok (some ⟨0x20, 84, some [2]⟩) := by decide +kernel
  obtain ⟨heap, hheap, -⟩ := (HoldsEach.malloc imageState.heap).free
  have hmount : findMount imageMachine.files imagePath imageState =
      .ok (some ⟨imageDisk, imageDevice, Fat.smallVolume⟩,
        { imageState with heap := heap }) := by
    have hpath : closing ∈ imagePath := by decide
    rw [findMount, if_neg (not_not.mpr hpath)]
    exact bind_eq_ok.mpr ⟨heap, hheap, rfl⟩
  rcases @Fat.fatFindFileTraced_tracks imageDevice Fat.smallVolume heap.malloc.malloc
    (fileName imagePath) with ⟨found, after, hresult, hplain, -⟩ | ⟨halt, -, hplain⟩
  · obtain ⟨⟨chain, info⟩, rfl, rfl⟩ :=
      Option.map_eq_some_iff.mp (Except.ok.inj (hplain.symm.trans hlook))
    refine ⟨⟨heap.next, heap.next + 1, chain, ⟨0x20, 84, some [2]⟩⟩, _,
      bind_eq_ok.mpr ⟨_, hmount, bind_eq_ok.mpr ⟨_, bind_eq_ok.mpr ⟨_, hresult, rfl⟩, rfl⟩⟩⟩
  · cases hplain.symm.trans hlook

/-- The call fails behind the allocation. -/
theorem imageFile_fails : ∃ after, elfLoadFile imageMachine 1 .geexOSKernelExecutable imagePath
    imageState = .ok (none, after) ∧ after.loader.memory = Elf.freshMemory 1 := by
  obtain ⟨opened, state, hopen⟩ := imageFile_opened
  obtain ⟨-, rest, hheld, -⟩ := fsOpen_some hopen
  have hloader : state.loader = Elf.freshState := (fsOpen_keeps hopen).loader_eq
  have hclass : elfClass imageFile = some elfclass32 := by decide +kernel
  have hheader : Elf.elfGetElf32Header imageFile = some imageHeader := by decide +kernel
  have hphdrs : Elf.elfGetElf32Phdrs imageFile imageHeader = some (shortImage.drop 52) := by
    decide +kernel
  obtain ⟨loader, hsegments, hmemory⟩ :=
    imageFile_unloaded (addImage imageMachine imagePath state).loader.bytes
  have hadded : (addImage imageMachine imagePath state).loader =
      { Elf.freshState with bytes := (addImage imageMachine imagePath state).loader.bytes } := by
    rw [← hloader]
    rfl
  rw [← hadded, ← imageContext] at hsegments
  have hload := @loadImage_of_unloaded imageMachine .geexOSKernelExecutable _ imageFile
    (elfLoadFile imageMachine 0 .geexOSKernelLibrary) elfclass32 state.heap.next _ _ _ (by decide)
    hheader hphdrs hsegments
  have hblocks := (HoldsEach.malloc (addImage imageMachine imagePath state).heap).trans
    (.malloc (addImage imageMachine imagePath state).heap.malloc)
  obtain ⟨after, hcall, hafter, -⟩ := elfLoadFile_of_loadImage hopen hclass hload hblocks hheld
  exact ⟨after, hcall, by rw [hafter]; exact hmemory⟩

/-- The page that was allocated for the segment stays. -/
theorem shortImage_not_undone : ¬ ∀ call : FailedLoad, call.Undone := by
  intro hall
  obtain ⟨after, hcall, hmemory⟩ := imageFile_fails
  have hundone : Undone imageState after :=
    hall ⟨imageMachine, 1, .geexOSKernelExecutable, imagePath, imageState, after, by decide, hcall⟩
  have hfree := hundone.pages 1 ⟨by decide, by decide⟩ rfl
  rw [hmemory] at hfree
  exact absurd hfree (by decide)

end GeexOS.ImageLoading
