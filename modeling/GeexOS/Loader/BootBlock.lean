import GeexOS.Loader.PhysicalMemory

/-!
# The loader block's memory descriptors

Before it starts the kernel, the loader run-length encodes its page lookup
table into at most 32 descriptors.  Runs of types the kernel may reuse are not
recorded, and the encoding stops one page before the end of the table.
-/

namespace GeexOS.BootBlock

open GeexOS.Words
open GeexOS.Halting
open GeexOS.PhysicalMemory

/-- A descriptor as it lies in memory: the type is the enumerator's value. -/
structure MemoryDescriptor where
  start : ℕ
  length : ℕ
  type : ℕ
  deriving DecidableEq, Repr

/-- The part of the loader block that describes physical memory; the
descriptor count is the length of the list. -/
structure LoaderBlock where
  memoryDescriptors : List MemoryDescriptor
  upperMemoryBoundary : ℕ
  deriving DecidableEq, Repr

def maxMemoryDescriptors : ℕ := 32

/-- The cases of the switch that write a descriptor. -/
def recorded : MemoryType → Bool
  | .free | .loaderExecutable | .loaderTemporary | .loaderStack | .loaderHeap
  | .pageLookupTable => false
  | .bad | .special | .unusable | .firmware | .geexOSPageStructures
  | .geexOSPageDirectory | .geexOSKernelEnvironmentInformation
  | .geexOSKernelExecutable | .geexOSKernelStack | .geexOSKernelLibrary => true

def loaderAddPhysicalMemoryBlock (block : LoaderBlock) (start length : ℕ)
    (type : MemoryType) : Outcome LoaderBlock :=
  if block.memoryDescriptors.length ≥ maxMemoryDescriptors then
    .error (.panic "GXLDR: No more space left for memory descriptors")
  else if recorded type then
    .ok { block with
      memoryDescriptors :=
        block.memoryDescriptors ++ [⟨start, length, type.number⟩] }
  else .ok block

/-- The pointer returned by `memory_getMemoryMap`. -/
def memoryGetMemoryMap (state : MemoryState) : ℕ := state.tableAddress

/-- What `memory_getMemoryMap` stores through `noEntries`. -/
def memoryMapElementCount (state : MemoryState) : ℕ := u32 state.itemCount

/-- The run-length loop; `remaining` items from `index` on are still to be
looked at. -/
def buildLoop (mmap : ℕ → PageLookupTableItem) (elementCount : ℕ) :
    (remaining index pagesCount lastPageIndex : ℕ) → (lastPageType : MemoryType) →
      LoaderBlock → Outcome LoaderBlock
  | 0, _, _, _, _, block => .ok block
  | remaining + 1, index, pagesCount, lastPageIndex, lastPageType, block =>
      if (mmap index).type = lastPageType ∧ index ≠ elementCount - 1 then
        buildLoop mmap elementCount remaining (index + 1) (pagesCount + 1)
          lastPageIndex lastPageType block
      else do
        let block ← loaderAddPhysicalMemoryBlock block lastPageIndex pagesCount
          lastPageType
        buildLoop mmap elementCount remaining (index + 1) 1 index
          (mmap index).type block

def loaderBuildPhysicalMemoryMap (state : MemoryState) (block : LoaderBlock) :
    Outcome LoaderBlock :=
  if memoryGetMemoryMap state = 0 then
    .error (.panic "GXLDR: Unable to retrieve memory map")
  else
    buildLoop state.pageLookupTable (memoryMapElementCount state)
      (memoryMapElementCount state) 0 0 0 (state.pageLookupTable 0).type block

/-- `(memory_getHighestPhysicalPage()+1) * arch_pagesize` in 64 bits. -/
def upperMemoryBoundary (state : MemoryState) : ℕ :=
  u64 (u64 (state.highestPhysicalPage + 1) * archPagesize)

/-! ## What the descriptors say -/

def MemoryDescriptor.Covers (descriptor : MemoryDescriptor) (page : ℕ) : Prop :=
  descriptor.start ≤ page ∧ page < descriptor.start + descriptor.length

/-- The descriptors encode the recorded pages below `limit`, each page once. -/
structure Encodes (mmap : ℕ → PageLookupTableItem) (limit : ℕ)
    (descriptors : List MemoryDescriptor) : Prop where
  sound : ∀ descriptor ∈ descriptors, ∀ page, descriptor.Covers page →
    page < limit ∧ recorded (mmap page).type = true ∧
      descriptor.type = (mmap page).type.number
  complete : ∀ page, page < limit → recorded (mmap page).type = true →
    ∃ descriptor ∈ descriptors, descriptor.Covers page
  bounded : ∀ descriptor ∈ descriptors,
    descriptor.start + descriptor.length ≤ limit
  ordered : descriptors.Pairwise fun left right =>
    left.start + left.length ≤ right.start

theorem encodes_nil (mmap : ℕ → PageLookupTableItem) : Encodes mmap 0 [] :=
  ⟨by simp, by simp, by simp, List.Pairwise.nil⟩

/-- Adding the block of a run extends the encoding by the run. -/
theorem Encodes.addBlock {mmap : ℕ → PageLookupTableItem} {start count : ℕ}
    {type : MemoryType} {block after : LoaderBlock}
    (hencodes : Encodes mmap start block.memoryDescriptors)
    (hrun : ∀ page, start ≤ page → page < start + count →
      (mmap page).type = type)
    (hadd : loaderAddPhysicalMemoryBlock block start count type = .ok after) :
    Encodes mmap (start + count) after.memoryDescriptors := by
  simp only [loaderAddPhysicalMemoryBlock] at hadd
  split at hadd
  · simp at hadd
  by_cases htype : recorded type = true
  · rw [if_pos htype, Except.ok.injEq] at hadd
    subst hadd
    refine ⟨?_, ?_, ?_, ?_⟩
    · intro descriptor hmem page hcovers
      rcases List.mem_append.mp hmem with hold | hnew
      · have hsound := hencodes.sound descriptor hold page hcovers
        exact ⟨by omega, hsound.2⟩
      · rw [List.mem_singleton] at hnew
        subst hnew
        rw [hrun page hcovers.1 hcovers.2]
        exact ⟨hcovers.2, htype, rfl⟩
    · intro page hpage hrecorded
      by_cases hold : page < start
      · obtain ⟨descriptor, hmem, hcovers⟩ :=
          hencodes.complete page hold hrecorded
        exact ⟨descriptor, List.mem_append_left _ hmem, hcovers⟩
      · exact ⟨_, List.mem_append_right _ (List.mem_singleton_self _),
          not_lt.mp hold, hpage⟩
    · intro descriptor hmem
      rcases List.mem_append.mp hmem with hold | hnew
      · have hbounded := hencodes.bounded descriptor hold
        omega
      · rw [List.mem_singleton] at hnew
        subst hnew
        exact le_rfl
    · refine List.pairwise_append.mpr
        ⟨hencodes.ordered, List.pairwise_singleton _ _, ?_⟩
      intro left hleft right hright
      rw [List.mem_singleton] at hright
      subst hright
      exact hencodes.bounded left hleft
  · rw [if_neg htype, Except.ok.injEq] at hadd
    subst hadd
    refine ⟨?_, ?_, ?_, hencodes.ordered⟩
    · intro descriptor hmem page hcovers
      have hsound := hencodes.sound descriptor hmem page hcovers
      exact ⟨by omega, hsound.2⟩
    · intro page hpage hrecorded
      by_cases hold : page < start
      · exact hencodes.complete page hold hrecorded
      · rw [hrun page (by omega) hpage] at hrecorded
        exact absurd hrecorded htype
    · intro descriptor hmem
      have hbounded := hencodes.bounded descriptor hmem
      omega

/-- The loop invariant: everything before `lastPageIndex` is encoded, and the
pages from there to `index` form one run of `lastPageType`.  At the last item
the pending run is always written, so the last page stays out. -/
theorem buildLoop_encodes {mmap : ℕ → PageLookupTableItem}
    {elementCount remaining index pagesCount lastPageIndex : ℕ}
    {lastPageType : MemoryType} {block after : LoaderBlock}
    (hremaining : index + remaining = elementCount)
    (hpending : lastPageIndex + pagesCount = index)
    (hrun : ∀ page, lastPageIndex ≤ page → page < index →
      (mmap page).type = lastPageType)
    (hencodes : Encodes mmap lastPageIndex block.memoryDescriptors)
    (hbuild : buildLoop mmap elementCount remaining index pagesCount
      lastPageIndex lastPageType block = .ok after)
    (hsome : 0 < remaining) :
    Encodes mmap (elementCount - 1) after.memoryDescriptors := by
  induction remaining generalizing index pagesCount lastPageIndex lastPageType block with
  | zero => omega
  | succ remaining ih =>
      rw [buildLoop] at hbuild
      split at hbuild
      · rename_i hsame
        refine ih (by omega) (by omega) ?_ hencodes hbuild (by omega)
        intro page hlow hhigh
        rcases Nat.lt_succ_iff_lt_or_eq.mp hhigh with hlt | heq
        · exact hrun page hlow hlt
        · exact heq ▸ hsame.1
      · obtain ⟨middle, hadd, hrest⟩ := bind_eq_ok.mp hbuild
        have hmiddle := hencodes.addBlock
          (fun page hlow hhigh => hrun page hlow (by omega)) hadd
        rw [hpending] at hmiddle
        by_cases hlast : remaining = 0
        · subst hlast
          rw [buildLoop, Except.ok.injEq] at hrest
          have hindex : elementCount - 1 = index := by omega
          rw [hindex, ← hrest]
          exact hmiddle
        · refine ih (by omega) (by omega) ?_ hmiddle hrest (by omega)
          intro page hlow hhigh
          have hpage : page = index := by omega
          rw [hpage]

/-- The finished block encodes every page of the table but the last. -/
theorem loaderBuildPhysicalMemoryMap_encodes {state : MemoryState}
    {boundary : ℕ} {after : LoaderBlock}
    (hbuild : loaderBuildPhysicalMemoryMap state ⟨[], boundary⟩ = .ok after) :
    Encodes state.pageLookupTable (memoryMapElementCount state - 1)
      after.memoryDescriptors := by
  rw [loaderBuildPhysicalMemoryMap] at hbuild
  split at hbuild
  · simp at hbuild
  by_cases hempty : memoryMapElementCount state = 0
  · rw [hempty, buildLoop, Except.ok.injEq] at hbuild
    rw [hempty, ← hbuild]
    exact encodes_nil _
  · refine buildLoop_encodes (Nat.zero_add _) rfl ?_ (encodes_nil _) hbuild
      (Nat.pos_of_ne_zero hempty)
    intro page hlow hhigh
    omega

/-! ## Page by page -/

instance (descriptor : MemoryDescriptor) (page : ℕ) : Decidable (descriptor.Covers page) :=
  inferInstanceAs (Decidable (_ ∧ _))

/-- The types of the descriptors that cover a page. -/
def coveringTypes (descriptors : List MemoryDescriptor) (page : ℕ) : List ℕ :=
  (descriptors.filter fun descriptor => descriptor.Covers page).map MemoryDescriptor.type

/-- Every page of the table with a recorded type is covered by one descriptor,
of that type, and no other page of the table is covered. -/
def ExactlyEncodes (mmap : ℕ → PageLookupTableItem) (itemCount : ℕ)
    (descriptors : List MemoryDescriptor) : Prop :=
  ∀ page < itemCount, coveringTypes descriptors page =
    if recorded (mmap page).type then [(mmap page).type.number] else []

/-- Ordered blocks cover a page at most once. -/
theorem filter_covers_of_mem {descriptors : List MemoryDescriptor}
    {descriptor : MemoryDescriptor} {page : ℕ}
    (hordered : descriptors.Pairwise fun left right =>
      left.start + left.length ≤ right.start)
    (hmem : descriptor ∈ descriptors) (hcovers : descriptor.Covers page) :
    (descriptors.filter fun other => other.Covers page) = [descriptor] := by
  induction descriptors with
  | nil => exact absurd hmem List.not_mem_nil
  | cons first rest ih =>
      obtain ⟨hfirst, hrest⟩ := List.pairwise_cons.mp hordered
      rcases List.mem_cons.mp hmem with rfl | hlater
      · have hnone : (rest.filter fun other => other.Covers page) = [] := by
          rw [List.filter_eq_nil_iff]
          intro other hother hboth
          have happart := hfirst other hother
          have hlow := (of_decide_eq_true hboth).1
          exact absurd hcovers.2 (by omega)
        rw [List.filter_cons_of_pos (by simpa using hcovers), hnone]
      · have hbefore : ¬ first.Covers page := by
          intro hboth
          have happart := hfirst descriptor hlater
          have hhigh := hboth.2
          have hlow := hcovers.1
          omega
        rw [List.filter_cons_of_neg (by simpa using hbefore), ih hrest hlater]

theorem Encodes.coveringTypes_eq {mmap : ℕ → PageLookupTableItem} {limit : ℕ}
    {descriptors : List MemoryDescriptor} (hencodes : Encodes mmap limit descriptors)
    (page : ℕ) : coveringTypes descriptors page =
      if page < limit ∧ recorded (mmap page).type then [(mmap page).type.number]
      else [] := by
  split
  · rename_i hrecorded
    obtain ⟨descriptor, hmem, hcovers⟩ :=
      hencodes.complete page hrecorded.1 hrecorded.2
    rw [coveringTypes, filter_covers_of_mem hencodes.ordered hmem hcovers,
      List.map_singleton, (hencodes.sound descriptor hmem page hcovers).2.2]
  · rename_i hnot
    rw [coveringTypes, List.map_eq_nil_iff, List.filter_eq_nil_iff]
    intro descriptor hmem hcovers
    have hsound := hencodes.sound descriptor hmem page (of_decide_eq_true hcovers)
    exact hnot ⟨hsound.1, hsound.2.1⟩

/-- The descriptors encode the table if the pages behind the loop's last but
one step have no recorded type; below `2^32` items that is the last page. -/
theorem loaderBuildPhysicalMemoryMap_exact_iff {state : MemoryState} {boundary : ℕ}
    {after : LoaderBlock}
    (hbuild : loaderBuildPhysicalMemoryMap state ⟨[], boundary⟩ = .ok after) :
    ExactlyEncodes state.pageLookupTable state.itemCount after.memoryDescriptors ↔
      ∀ page < state.itemCount, memoryMapElementCount state - 1 ≤ page →
        recorded (state.pageLookupTable page).type = false := by
  have hencodes := loaderBuildPhysicalMemoryMap_encodes hbuild
  constructor
  · intro hexact page hpage hlast
    have htypes := hexact page hpage
    rw [hencodes.coveringTypes_eq, if_neg (by omega)] at htypes
    cases hrecorded : recorded (state.pageLookupTable page).type with
    | false => rfl
    | true => simp [hrecorded] at htypes
  · intro hclear page hpage
    rw [hencodes.coveringTypes_eq]
    by_cases hlast : page < memoryMapElementCount state - 1
    · simp only [hlast, true_and]
    · simp [hlast, hclear page hpage (not_lt.mp hlast)]

/-- A page of firmware with a free one behind it. -/
def firmwareThenFree : MemoryState where
  lowestPhysicalPage := 0
  highestPhysicalPage := 2
  tableAddress := 0x100000
  pageLookupTable := fun page => memoryMarkItem (if page = 0 then .firmware else .free)

theorem loaderBuildPhysicalMemoryMap_exact_iff_firmwareThenFree :
    ExactlyEncodes firmwareThenFree.pageLookupTable firmwareThenFree.itemCount
        [⟨0, 1, 8⟩] ↔
      ∀ page < firmwareThenFree.itemCount,
        memoryMapElementCount firmwareThenFree - 1 ≤ page →
        recorded (firmwareThenFree.pageLookupTable page).type = false :=
  loaderBuildPhysicalMemoryMap_exact_iff
    (show loaderBuildPhysicalMemoryMap firmwareThenFree ⟨[], 0⟩ =
      .ok ⟨[⟨0, 1, 8⟩], 0⟩ from rfl)

/-- The single page of a table is not described, whatever its type is. -/
theorem last_page_not_encoded :
    ¬ ∀ (state : MemoryState) (boundary : ℕ) (after : LoaderBlock),
      1 ≤ state.itemCount →
      loaderBuildPhysicalMemoryMap state ⟨[], boundary⟩ = .ok after →
      ExactlyEncodes state.pageLookupTable state.itemCount after.memoryDescriptors := by
  intro hall
  have hexact := hall ⟨0, 1, 0x100000, fun _ => memoryMarkItem .firmware⟩ 0
    ⟨[⟨0, 0, 8⟩], 0⟩ (by decide) rfl
  exact absurd (hexact 0 (by decide)) (by decide)

end GeexOS.BootBlock
