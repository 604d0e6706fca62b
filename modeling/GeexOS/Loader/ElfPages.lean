import GeexOS.Loader.ElfWrites
import GeexOS.Loader.PresentPages

/-!
# The pages an image takes

An image is mapped to pages that were free: the test that comes before counts
whole pages from the lowest address on, and every segment, rounded on its own,
stays among them.  No image takes a page of the stack or of another image.
-/

namespace GeexOS.Elf

open GeexOS.Words
open GeexOS.Halting
open GeexOS.ByteMemory
open GeexOS.PhysicalMemory
open GeexOS.PageTables

/-- Program headers whose LOAD segments are not longer in the file than in memory
and do not wrap around. -/
structure SegmentsFit (phdrs : List Elf32Phdr) : Prop where
  filesz_le : ∀ phdr ∈ phdrs, phdr.type = ptLoad → phdr.filesz ≤ phdr.memsz
  end_le : ∀ phdr ∈ phdrs, phdr.type = ptLoad → phdr.vaddr + phdr.memsz ≤ 2 ^ 32 - 4096

/-- The pages that a segment is mapped to. -/
def Elf32Phdr.pages (phdr : Elf32Phdr) (originalVirtualBase virtualBase : ℕ) : Set ℕ :=
  rangePages (u32 (sub32 phdr.vaddr originalVirtualBase + virtualBase)) phdr.memsz

/-- The pages that an image is mapped to. -/
def imagePages (phdrs : List Elf32Phdr) (image : LoadedImage) : Set ℕ :=
  {page | ∃ phdr ∈ phdrs, phdr.type = ptLoad ∧
    page ∈ phdr.pages image.originalBase image.virtualBase}

variable {file : File} {phdrs : List Elf32Phdr} {phdr : Elf32Phdr} {reserved : Set ℕ}
variable {state after : LoaderState} {physicalBase originalVirtualBase virtualBase : ℕ}
variable {pages first page : ℕ} {success : Bool}

/-! ## Mapping the segments -/

theorem loadSegment_mapsPages (hstate : TablesOk reserved state)
    (hmemsz : phdr.memsz ≤ 0xFFFFF000)
    (hcall : loadSegment file physicalBase originalVirtualBase virtualBase phdr state =
      .ok (success, after)) :
    MapsPages reserved state after
      (if success then phdr.pages originalVirtualBase virtualBase else ∅) := by
  have hbytes : ∀ bytes, TablesOk reserved { state with bytes := bytes } := fun bytes =>
    ⟨hstate.allocator, hstate.taken, hstate.reserved_taken, hstate.apart⟩
  rw [loadSegment] at hcall
  obtain ⟨full, bytes, hread⟩ : ∃ full bytes, readSegment file phdr
      (u32 (physicalBase + sub32 phdr.vaddr originalVirtualBase)) state.bytes =
        (full, bytes) := ⟨_, _, rfl⟩
  simp only [hread] at hcall
  cases full with
  | false =>
      obtain ⟨rfl, rfl⟩ := Prod.mk.inj (Except.ok.inj hcall)
      exact (MapsPages.refl (hbytes bytes)).of_setMemory
  | true =>
      obtain ⟨mapped, hmap, hlast⟩ := bind_eq_ok.mp hcall
      obtain ⟨rfl, rfl⟩ := Prod.mk.inj (Except.ok.inj hlast)
      exact ((hbytes _).mapRange hmemsz (u32_lt _) (u32_lt _) hmap).of_setMemory

/-- The loop maps pages of the LOAD segments only, and all of them if it comes
to its end. -/
theorem loadSegments_mapsPages (hstate : TablesOk reserved state)
    (hmemsz : ∀ phdr ∈ phdrs, phdr.type = ptLoad → phdr.memsz ≤ 0xFFFFF000)
    (hcall : loadSegments file physicalBase originalVirtualBase virtualBase phdrs state =
      .ok (success, after)) :
    ∃ mapped, MapsPages reserved state after mapped ∧
      (∀ page ∈ mapped, ∃ phdr ∈ phdrs, phdr.type = ptLoad ∧
        page ∈ phdr.pages originalVirtualBase virtualBase) ∧
      (success = true → ∀ phdr ∈ phdrs, phdr.type = ptLoad →
        phdr.pages originalVirtualBase virtualBase ⊆ mapped) := by
  induction phdrs generalizing state with
  | nil =>
      obtain ⟨_, rfl⟩ := Prod.mk.inj (Except.ok.inj hcall)
      exact ⟨∅, .refl hstate, by simp, by simp⟩
  | cons phdr rest ih =>
      have hmemsz' : ∀ other ∈ rest, other.type = ptLoad → other.memsz ≤ 0xFFFFF000 :=
        fun other hmem => hmemsz other (List.mem_cons_of_mem _ hmem)
      rw [loadSegments] at hcall
      by_cases hload : phdr.type = ptLoad
      · rw [if_pos hload] at hcall
        obtain ⟨⟨goesOn, middle⟩, hsegment, hrest⟩ := bind_eq_ok.mp hcall
        have hfirst := loadSegment_mapsPages hstate (hmemsz phdr List.mem_cons_self hload) hsegment
        cases goesOn with
        | false =>
            obtain ⟨rfl, rfl⟩ := Prod.mk.inj (Except.ok.inj hrest)
            exact ⟨_, hfirst, by simp, by simp⟩
        | true =>
            obtain ⟨mapped, hmapped, hsub, hall⟩ := ih hfirst.tablesOk hmemsz' hrest
            refine ⟨_, hfirst.trans hmapped, fun page hpage => ?_,
              fun hsuccess other hmem hother => ?_⟩
            · rcases hpage with hpage | hpage
              · exact ⟨phdr, List.mem_cons_self, hload, hpage⟩
              · obtain ⟨other, hmem, hother⟩ := hsub page hpage
                exact ⟨other, List.mem_cons_of_mem _ hmem, hother⟩
            · rcases List.mem_cons.mp hmem with rfl | hmem
              · exact Set.subset_union_left
              · exact (hall hsuccess other hmem hother).trans Set.subset_union_right
      · rw [if_neg hload] at hcall
        obtain ⟨mapped, hmapped, hsub, hall⟩ := ih hstate hmemsz' hcall
        refine ⟨mapped, hmapped, fun page hpage => ?_, fun hsuccess other hmem hother => ?_⟩
        · obtain ⟨other, hmem, hother⟩ := hsub page hpage
          exact ⟨other, List.mem_cons_of_mem _ hmem, hother⟩
        · rcases List.mem_cons.mp hmem with rfl | hmem
          · exact absurd hother hload
          · exact hall hsuccess other hmem hother

/-! ## Among the pages that were tested -/

/-- The pages of a segment, rounded from its own start, are pages of the image. -/
theorem pages_subset (hbounds : ImageBounds phdrs originalVirtualBase pages)
    (hend : phdr.vaddr + phdr.memsz < 2 ^ 32) (hmem : phdr ∈ phdrs) (hload : phdr.type = ptLoad)
    (hmod : virtualBase % 4096 = originalVirtualBase % 4096)
    (hpage : page ∈ phdr.pages originalVirtualBase virtualBase) :
    ∃ j < pages, page = LoaderState.pageIndex (virtualBase + 4096 * j) := by
  obtain ⟨i, hi, rfl⟩ := hpage
  have hlow := hbounds.low phdr hmem hload
  have hhigh := hbounds.high phdr hmem hload
  have hoffset : sub32 phdr.vaddr originalVirtualBase = phdr.vaddr - originalVirtualBase :=
    sub32_of_le (by omega) hlow
  refine ⟨phdr.vaddr / 4096 - originalVirtualBase / 4096 + i, by omega, ?_⟩
  rw [hoffset]
  simp only [LoaderState.pageIndex, u32]
  omega

/-- What a call has done with the page directory. -/
structure LoadEffect (phdrs : List Elf32Phdr) (state after : LoaderState)
    (result : Option LoadedImage) : Prop where
  tablesOk : TablesOk ∅ after
  stays : ∀ page, state.entryOf page ≠ none → after.entryOf page ≠ none
  untouched : ∀ page entry, state.entryOf page = some entry → after.entryOf page = some entry
  was_free : ∀ image, result = some image → ∀ page ∈ imagePages phdrs image,
    state.entryOf page = none
  present : ∀ image, result = some image → ∀ page ∈ imagePages phdrs image,
    after.entryOf page ≠ none

theorem LoadEffect.refl (hstate : TablesOk ∅ state) : LoadEffect phdrs state state none :=
  ⟨hstate, fun _ => id, fun _ _ => id, by simp, by simp⟩

theorem elfLoadElf32File_effect {memType : MemoryType} {context : LoaderContext}
    {result : Option LoadedImage} (hsegments : SegmentsFit context.phdrs)
    (hstate : TablesOk ∅ state) (htype : memType ≠ .free)
    (hload : elfLoadElf32File file memType context state = .ok (result, after)) :
    LoadEffect context.phdrs state after result := by
  have hend : ∀ phdr ∈ context.phdrs, phdr.type = ptLoad → phdr.vaddr + phdr.memsz < 2 ^ 32 :=
    fun phdr hmem hphdr => lt_of_le_of_lt (hsegments.end_le phdr hmem hphdr) (by decide)
  obtain ⟨totalImageSize, minAddr, hsize⟩ : ∃ totalImageSize minAddr,
      elf32GetImageSize context.phdrs = (totalImageSize, minAddr) := ⟨_, _, rfl⟩
  simp only [elfLoadElf32File, hsize] at hload
  split at hload
  · obtain ⟨rfl, rfl⟩ := Prod.mk.inj (Except.ok.inj hload)
    exact .refl hstate
  rename_i hne
  obtain ⟨pages, rfl, hbounds⟩ := elf32GetImageSize_bounds hend hsize hne
  have hpages := hbounds.pages_lt
  obtain ⟨base, hbase, hload⟩ := bind_eq_ok.mp hload
  cases base with
  | none =>
      obtain ⟨rfl, rfl⟩ := Prod.mk.inj (Except.ok.inj hload)
      exact .refl hstate
  | some virtualBase =>
      obtain ⟨⟨physicalBase, memory⟩, hallocate, hload⟩ := bind_eq_ok.mp hload
      obtain ⟨first, haddress, heffect⟩ :=
        memoryAllocate_eq_ok hstate.allocator (by omega) hallocate
      rw [show pages * 4096 / archPagesize = pages from Nat.mul_div_cancel _ (by decide)]
        at heffect
      have hplan := hstate.reserve htype heffect
      simp only at hload
      split at hload
      · obtain ⟨rfl, rfl⟩ := Prod.mk.inj (Except.ok.inj hload)
        exact ⟨hplan.release, fun _ => id, fun _ _ => id, by simp, by simp⟩
      obtain ⟨⟨success, after'⟩, hloaded, hlast⟩ := bind_eq_ok.mp hload
      obtain ⟨hresult, rfl⟩ := Prod.mk.inj (Except.ok.inj hlast)
      obtain ⟨_, hmod, hfree⟩ := findVirtualBase_eq_ok hbounds.minAddr_lt hpages hbase
      obtain ⟨mapped, hmapped, hsub, hall⟩ := loadSegments_mapsPages hplan
        (fun phdr hmem hphdr => by
          have hbound := hsegments.end_le phdr hmem hphdr
          omega) hloaded
      have hsegment : ∀ phdr ∈ context.phdrs, phdr.type = ptLoad →
          ∀ page ∈ phdr.pages minAddr virtualBase, state.entryOf page = none := by
        intro phdr hmem hphdr page hpage
        obtain ⟨j, hj, rfl⟩ :=
          pages_subset hbounds (hend phdr hmem hphdr) hmem hphdr hmod hpage
        exact entryOf_eq_none (hfree j hj)
      have huntouched : Untouched state after' :=
        hmapped.of_setMemory.untouched state (.refl state) fun page hpage => by
          obtain ⟨phdr, hmem, hphdr, hpage⟩ := hsub page hpage
          exact hsegment phdr hmem hphdr page hpage
      refine ⟨hmapped.tablesOk.release, hmapped.stays, fun page entry hentry =>
        huntouched.entryOf hentry, fun image himage page hpage => ?_,
        fun image himage page hpage => ?_⟩
      all_goals
        cases success with
        | false =>
            rw [← hresult] at himage
            cases himage
        | true =>
            rw [← hresult] at himage
            obtain rfl := Option.some.inj himage
            obtain ⟨phdr, hmem, hphdr, hpage⟩ := hpage
            first
              | exact hsegment phdr hmem hphdr page hpage
              | exact hmapped.present page (hall rfl phdr hmem hphdr hpage)

/-- The segments are written to pages that never belong to a table. -/
theorem LoadPlan.writes_apart {memType : MemoryType} {plan : LoadPlan} {write : Write}
    {position index : ℕ} (hsegments : SegmentsFit phdrs) (hstate : TablesOk ∅ state)
    (htype : memType ≠ .free) (hplan : loadPlan memType phdrs state = .ok (some plan))
    (hloaded : loadSegments file plan.physicalBase plan.originalVirtualBase plan.virtualBase
      phdrs plan.state = .ok (success, after))
    (hwrite : write ∈ plan.writes file phdrs) (hcovers : write.Covers position)
    (htable : after.hasTable index = true) : position / 4096 ≠ after.tableOf index / 4096 := by
  have hend : ∀ phdr ∈ phdrs, phdr.type = ptLoad → phdr.vaddr + phdr.memsz < 2 ^ 32 :=
    fun phdr hmem hload => lt_of_le_of_lt (hsegments.end_le phdr hmem hload) (by decide)
  have hsound := LoadPlan.sound hstate.allocator hplan
  obtain ⟨totalImageSize, minAddr, hsize⟩ : ∃ totalImageSize minAddr,
      elf32GetImageSize phdrs = (totalImageSize, minAddr) := ⟨_, _, rfl⟩
  simp only [loadPlan, hsize] at hplan
  split at hplan
  · cases hplan
  rename_i hne
  obtain ⟨pages, rfl, hbounds⟩ := elf32GetImageSize_bounds hend hsize hne
  have hpages := hbounds.pages_lt
  obtain ⟨base, hbase, hplan⟩ := bind_eq_ok.mp hplan
  cases base with
  | none => cases hplan
  | some virtualBase =>
      obtain ⟨⟨physicalBase, memory⟩, hallocate, hplan⟩ := bind_eq_ok.mp hplan
      simp only at hplan
      split at hplan
      · cases hplan
      obtain rfl := Option.some.inj (Except.ok.inj hplan)
      obtain ⟨first, rfl, heffect⟩ :=
        memoryAllocate_eq_ok hstate.allocator (by omega) hallocate
      rw [show pages * 4096 / archPagesize = pages from Nat.mul_div_cancel _ (by decide)]
        at heffect
      obtain ⟨_, hmapped, _⟩ := loadSegments_mapsPages (hstate.reserve htype heffect)
        (fun phdr hmem hload => by
          have hbound := hsegments.end_le phdr hmem hload
          omega) hloaded
      have hinside := (loadWrites_inside_iff (fun phdr hmem hload => by
          have hfilesz := hsegments.filesz_le phdr hmem hload
          have hlast := hend phdr hmem hload
          exact ⟨by omega, by omega, by omega⟩) hsound.low hsound.end_lt).mpr
        (fun front phdr back hsplit hload _ => by
          have hmem : phdr ∈ phdrs := hsplit ▸ List.mem_append_right _ List.mem_cons_self
          exact Elf32Phdr.fits_of_filesz_le hbounds hmem hload
            (hsegments.filesz_le phdr hmem hload)) write hwrite
      obtain ⟨hfrom, hto⟩ := hcovers
      obtain ⟨hlow, hhigh⟩ := hinside (by omega)
      intro heq
      apply hmapped.tablesOk.apart index htable
      rw [← heq]
      simp only [archPagesize] at hlow hhigh
      exact ⟨by omega, by omega⟩

/-! ## The loader -/

/-- The loader's states with the pages of the stack and of the images: any page
directory, then the stack, then one image after the other. -/
inductive LoaderRun : LoaderState → List (Set ℕ) → Prop
  | start {state : LoaderState} (hstate : TablesOk ∅ state) : LoaderRun state []
  | stack {state after : LoaderState} {physical virtual len : ℕ} {usermode writable : Bool}
      (hstate : TablesOk ∅ state) (hlen : len ≤ 0xFFFFF000) (hphysical : physical < 2 ^ 32)
      (hvirtual : virtual < 2 ^ 32)
      (hcall : state.pagingMapRangeNonPAE physical virtual len usermode writable = .ok after) :
      LoaderRun after [rangePages virtual len]
  | load {file : File} {memType : MemoryType} {context : LoaderContext}
      {state after : LoaderState} {result : Option LoadedImage} {regions : List (Set ℕ)}
      (hrun : LoaderRun state regions) (hsegments : SegmentsFit context.phdrs)
      (htype : memType ≠ .free)
      (hload : elfLoadElf32File file memType context state = .ok (result, after)) :
      LoaderRun after ((result.map (imagePages context.phdrs)).toList ++ regions)
  | memoryAllocate {state : LoaderState} {memory : MemoryState} {size address : ℕ}
      {type : MemoryType} {regions : List (Set ℕ)} (hrun : LoaderRun state regions)
      (hsize : size < 2 ^ 32)
      (hcall : PhysicalMemory.memoryAllocate state.memory size type = .ok (address, memory)) :
      LoaderRun { state with memory := memory } regions
  | write {state : LoaderState} {regions : List (Set ℕ)} (hrun : LoaderRun state regions)
      (bytes : Memory) : LoaderRun { state with bytes := bytes } regions

/-- What holds in every state of the loader. -/
structure RegionsOk (state : LoaderState) (regions : List (Set ℕ)) : Prop where
  tablesOk : TablesOk ∅ state
  present : ∀ region ∈ regions, ∀ page ∈ region, state.entryOf page ≠ none
  disjoint : regions.Pairwise Disjoint

/-- A new image takes no page of the regions. -/
theorem LoadEffect.disjoint {result : Option LoadedImage} {regions : List (Set ℕ)}
    (heffect : LoadEffect phdrs state after result) (hregions : RegionsOk state regions)
    {image : LoadedImage} (hresult : result = some image) {region : Set ℕ}
    (hregion : region ∈ regions) : Disjoint (imagePages phdrs image) region := by
  rw [Set.disjoint_left]
  intro page hpage hother
  exact hregions.present region hregion page hother (heffect.was_free image hresult page hpage)

theorem LoaderRun.regionsOk {regions : List (Set ℕ)} (hrun : LoaderRun state regions) :
    RegionsOk state regions := by
  induction hrun with
  | start hstate => exact ⟨hstate, by simp, List.Pairwise.nil⟩
  | stack hstate hlen hphysical hvirtual hcall =>
      have hmapped := hstate.mapRange hlen hphysical hvirtual hcall
      exact ⟨hmapped.tablesOk, by simpa using hmapped.present, List.pairwise_singleton _ _⟩
  | @load file memType context state after result regions hrun hsegments htype hload ih =>
      have heffect := elfLoadElf32File_effect hsegments ih.tablesOk htype hload
      have hstays : ∀ region ∈ regions, ∀ page ∈ region, after.entryOf page ≠ none :=
        fun region hregion page hpage => heffect.stays page (ih.present region hregion page hpage)
      cases result with
      | none => exact ⟨heffect.tablesOk, hstays, ih.disjoint⟩
      | some image =>
          refine ⟨heffect.tablesOk, fun region hregion => ?_,
            List.pairwise_cons.mpr ⟨fun region hregion => ?_, ih.disjoint⟩⟩
          · rcases List.mem_cons.mp hregion with rfl | hregion
            · exact heffect.present image rfl
            · exact hstays region hregion
          · exact heffect.disjoint ih rfl hregion
  | memoryAllocate hrun hsize hcall ih =>
      obtain ⟨first, _, heffect⟩ := memoryAllocate_eq_ok ih.tablesOk.allocator hsize hcall
      exact ⟨ih.tablesOk.setMemory heffect _, ih.present, ih.disjoint⟩
  | write hrun bytes ih =>
      exact ⟨⟨ih.tablesOk.allocator, ih.tablesOk.taken, by simp, by simp⟩, ih.present,
        ih.disjoint⟩

/-- Loading an image leaves the present pages as they are, so that no two images
and no image and the stack share a page. -/
theorem elfLoadElf32File_untouched {memType : MemoryType} {context : LoaderContext}
    {result : Option LoadedImage} {regions : List (Set ℕ)}
    (hsegments : SegmentsFit context.phdrs) (hrun : LoaderRun state regions)
    (htype : memType ≠ .free)
    (hload : elfLoadElf32File file memType context state = .ok (result, after)) :
    (∀ page entry, state.entryOf page = some entry → after.entryOf page = some entry) ∧
      regions.Pairwise Disjoint ∧
      ∀ image, result = some image → ∀ region ∈ regions,
        Disjoint (imagePages context.phdrs image) region := by
  have hregions := hrun.regionsOk
  have heffect := elfLoadElf32File_effect hsegments hregions.tablesOk htype hload
  exact ⟨heffect.untouched, hregions.disjoint, fun image himage region hregion =>
    heffect.disjoint hregions himage hregion⟩

/-- The page table of the stack, and the pages of an image behind it. -/
def stackMemory (pages : ℕ) : MemoryState :=
  { freshState.memory with
    pageLookupTable := memoryMarkLoop .geexOSKernelExecutable pages 1
      (memoryMarkLoop .geexOSPageStructures 1 0 freshState.memory.pageLookupTable) }

/-- The stack is mapped and the kernel loaded. -/
theorem stack_mapped : ∃ state image after, LoaderRun state [rangePages 0xE0000000 0x4000] ∧
    elfLoadElf32File shortFile .geexOSKernelExecutable ⟨[text], 0x100000⟩ state =
      .ok (some image, after) := by
  have hrun := freshState_run.directoryOk
  obtain ⟨state, hcall, hmemory, hbase, habsent⟩ : ∃ state,
      freshState.pagingMapRangeNonPAE 0x5000 0xE0000000 0x4000 false true = .ok state ∧
      state.memory = stackMemory 0 ∧
      findVirtualBase state 0x100000 0x1000 = .ok (some 0x100000) ∧
      state.hasTable 0 = false :=
    ⟨_, rfl, rfl, rfl, rfl⟩
  have hsize : elf32GetImageSize [text] = (0x1000, 0x100000) := by decide
  have hfind : memoryFindAvailablePages (stackMemory 0) 1 = .ok 2 := rfl
  have hmark : memoryMarkPages (stackMemory 0) 2 1 .geexOSKernelExecutable =
      .ok (stackMemory 1) := rfl
  have hallocate : memoryAllocate (stackMemory 0) 0x1000 .geexOSKernelExecutable =
      .ok (0x2000, stackMemory 1) :=
    memoryAllocate_of_steps (by decide) (by decide) hfind hmark (by decide)
  obtain ⟨memory, htable⟩ : ∃ memory,
      memoryAllocate (stackMemory 1) 4096 .geexOSPageStructures = .ok (0x3000, memory) := by
    have hfind : memoryFindAvailablePages (stackMemory 1) 1 = .ok 3 := rfl
    exact ⟨_, memoryAllocate_of_steps (by decide) (by decide) hfind rfl (by decide)⟩
  have htarget : u32 (0x2000 + sub32 text.vaddr 0x100000) = 0x2000 := by decide
  have hvirtual : u32 (sub32 text.vaddr 0x100000 + 0x100000) = 0x100000 := by decide
  have hread : (readSegment shortFile text 0x2000 state.bytes).1 = true := rfl
  have hrounds : alignedLength text.memsz / 4096 = 1 := by decide
  have hindex : pdirIndex (pageAlignDown 0x100000) = 0 := by decide
  have hloaded : ∃ image after, elfLoadElf32File shortFile .geexOSKernelExecutable
      ⟨[text], 0x100000⟩ state = .ok (some image, after) := by
    rw [LoaderState.hasTable] at habsent
    simp only [elfLoadElf32File, hsize, hbase, hmemory, hallocate, ok_bind, loadSegments,
      loadSegment, htarget, hvirtual, hread, LoaderState.pagingMapRangeNonPAE, hrounds,
      LoaderState.mapLoop, LoaderState.pagingMapVirtualMemoryNonPAE, hindex, LoaderState.getTable,
      LoaderState.hasTable, habsent, LoaderState.allocateTable, htable]
    exact ⟨_, _, rfl⟩
  obtain ⟨image, after, hload⟩ := hloaded
  refine ⟨state, image, after, .stack ⟨hrun.allocator, fun index htable => ?_, by simp, by simp⟩
    (by decide) (by decide) (by decide) hcall, hload⟩
  simp [freshState, LoaderState.hasTable] at htable

theorem elfLoadElf32File_untouched_text :
    ∃ (state after : LoaderState) (image : LoadedImage),
      (∀ page entry, state.entryOf page = some entry → after.entryOf page = some entry) ∧
        Disjoint (imagePages [text] image) (rangePages 0xE0000000 0x4000) := by
  obtain ⟨state, image, after, hrun, hload⟩ := stack_mapped
  have hsegments : SegmentsFit [text] := ⟨by simp [text], by simp [text]⟩
  obtain ⟨huntouched, _, hdisjoint⟩ :=
    elfLoadElf32File_untouched hsegments hrun (by decide) hload
  exact ⟨state, after, image, huntouched, hdisjoint image rfl _ (List.mem_singleton_self _)⟩

end GeexOS.Elf
