import GeexOS.Loader.BootBlock
import GeexOS.Kernel.FrameRuns

/-!
# Hand-off of reserved memory from the loader to the kernel

The loader writes each descriptor's type with its own enumeration and the
kernel reads the number back with another one, which lacks `unusable`.  This
module follows a page from the loader's table to the kernel's frame bitmap.
-/

namespace GeexOS.Handoff

open GeexOS.Words
open GeexOS.Halting
open GeexOS.PhysicalMemory
open GeexOS.BootBlock
open GeexOS.PhysicalAllocator

/-- The kernel's enumeration of memory types. -/
inductive KernelMemoryType where
  | free
  | bad
  | special
  | loaderExecutable
  | loaderTemporary
  | loaderStack
  | loaderHeap
  | firmware
  | pageLookupTable
  | geexOSPageStructures
  | geexOSPageDirectory
  | geexOSKernelEnvironmentInformation
  | geexOSKernelExecutable
  | geexOSKernelStack
  | geexOSKernelLibrary
  deriving DecidableEq, Repr

def KernelMemoryType.number (type : KernelMemoryType) : ℕ := type.ctorIdx

/-- The labels of `x86HAL::Initialize` that fall through to the marking loop. -/
def markedLabels : List KernelMemoryType :=
  [.bad, .special, .firmware, .geexOSKernelEnvironmentInformation,
    .geexOSKernelExecutable, .geexOSKernelStack, .geexOSKernelLibrary]

/-- The switch on the number found in the descriptor. -/
def switchMarks (number : ℕ) : Bool :=
  (markedLabels.map KernelMemoryType.number).contains number

/-- The marking loop over page numbers `a`, a 32-bit variable, while
`a < limit`.  No 32-bit variable takes more than `2^32` values. -/
def markLoop (limit : ℕ) :
    (fuel a : ℕ) → BitfieldPhysicalMemoryAllocator →
      Outcome BitfieldPhysicalMemoryAllocator
  | 0, _, _ => .error .diverges
  | fuel + 1, a, allocator =>
      if a < limit then do
        let allocator ← allocator.markAsUsed (u32 (a * pageSize))
        markLoop limit fuel (u32 (a + 1)) allocator
      else .ok allocator

def markDescriptor (descriptor : MemoryDescriptor)
    (allocator : BitfieldPhysicalMemoryAllocator) :
    Outcome BitfieldPhysicalMemoryAllocator :=
  if switchMarks descriptor.type then
    markLoop (u64 (descriptor.start + descriptor.length)) (2 ^ 32 + 1)
      (u32 descriptor.start) allocator
  else .ok allocator

def markDescriptors :
    List MemoryDescriptor → BitfieldPhysicalMemoryAllocator →
      Outcome BitfieldPhysicalMemoryAllocator
  | [], allocator => .ok allocator
  | descriptor :: rest, allocator => do
      let allocator ← markDescriptor descriptor allocator
      markDescriptors rest allocator

/-- The part of `x86HAL::Initialize` that builds the frame allocator from the
loader block; the installed memory is a 32-bit number. -/
def x86HALInitialize (block : LoaderBlock) :
    Outcome BitfieldPhysicalMemoryAllocator :=
  markDescriptors block.memoryDescriptors
    (.new (u32 block.upperMemoryBoundary))

/-- The types the kernel has to keep away from its frame allocator. -/
def reserved : MemoryType → Bool
  | .bad | .special | .firmware | .geexOSKernelEnvironmentInformation
  | .geexOSKernelExecutable | .geexOSKernelStack | .geexOSKernelLibrary => true
  | _ => false

/-! ## The frames that get marked -/

/-- `after` uses the frames `before` uses and those of `pages`, whose
addresses are taken modulo the 32-bit address space. -/
structure MarksPages (before after : BitfieldPhysicalMemoryAllocator)
    (pages : ℕ → Prop) : Prop where
  nFrames_eq : after.nFrames = before.nFrames
  wellFormed : after.WellFormed
  used_iff : ∀ frame, frame < before.nFrames →
    (after.Used frame ↔
      (∃ page, pages page ∧ page % 2 ^ 20 = frame) ∨ before.Used frame)

theorem MarksPages.none {allocator : BitfieldPhysicalMemoryAllocator}
    {pages : ℕ → Prop} (hallocator : allocator.WellFormed)
    (hpages : ∀ page, ¬ pages page) : MarksPages allocator allocator pages := by
  refine ⟨rfl, hallocator, fun frame _ => ?_⟩
  simp [hpages]

theorem MarksPages.trans
    {before middle after : BitfieldPhysicalMemoryAllocator}
    {first second both : ℕ → Prop} (hfirst : MarksPages before middle first)
    (hsecond : MarksPages middle after second)
    (hboth : ∀ page, both page ↔ first page ∨ second page) :
    MarksPages before after both := by
  refine ⟨hsecond.nFrames_eq.trans hfirst.nFrames_eq, hsecond.wellFormed, ?_⟩
  intro frame hframe
  rw [hsecond.used_iff frame (hfirst.nFrames_eq ▸ hframe),
    hfirst.used_iff frame hframe]
  simp only [hboth]
  constructor
  · rintro (⟨page, hpage, heq⟩ | ⟨page, hpage, heq⟩ | hused)
    · exact Or.inl ⟨page, Or.inr hpage, heq⟩
    · exact Or.inl ⟨page, Or.inl hpage, heq⟩
    · exact Or.inr hused
  · rintro (⟨page, hpage | hpage, heq⟩ | hused)
    · exact Or.inr (Or.inl ⟨page, hpage, heq⟩)
    · exact Or.inl ⟨page, hpage, heq⟩
    · exact Or.inr (Or.inr hused)

/-- The frame of a page's 32-bit address. -/
theorem u32_mul_div_pageSize (page : ℕ) :
    u32 (page * pageSize) / pageSize = page % 2 ^ 20 := by
  simp only [u32, pageSize]
  omega

theorem markAsUsed_marksPages {before after : BitfieldPhysicalMemoryAllocator}
    {page : ℕ} (hbefore : before.WellFormed)
    (hmark : before.markAsUsed (u32 (page * pageSize)) = .ok after) :
    MarksPages before after (fun other => other = page) := by
  have hspec := BitfieldPhysicalMemoryAllocator.markAsUsed_eq_ok hbefore hmark
  rw [u32_mul_div_pageSize] at hspec
  rcases hspec with ⟨_, _, hmarked⟩ | ⟨habove, rfl⟩
  · refine ⟨hmarked.nFrames_eq, hmarked.wellFormed, fun frame _ => ?_⟩
    rw [hmarked.used_iff]
    simp [eq_comm]
  · refine ⟨rfl, hbefore, fun frame hframe => ?_⟩
    have hne : page % 2 ^ 20 ≠ frame := by omega
    simp only [exists_eq_left, hne, false_or]

/-- The loop marks the pages from `a` up to the limit. -/
theorem markLoop_marksPages {limit fuel a : ℕ}
    {before after : BitfieldPhysicalMemoryAllocator} (hlimit : limit < 2 ^ 32)
    (ha : a ≤ limit) (hbefore : before.WellFormed)
    (hloop : markLoop limit fuel a before = .ok after) :
    MarksPages before after (fun page => a ≤ page ∧ page < limit) := by
  induction fuel generalizing a before with
  | zero => simp [markLoop] at hloop
  | succ fuel ih =>
      rw [markLoop] at hloop
      split at hloop
      · rename_i hmore
        obtain ⟨middle, hmark, hrest⟩ := bind_eq_ok.mp hloop
        have hfirst := markAsUsed_marksPages hbefore hmark
        rw [u32_of_lt (by omega)] at hrest
        apply hfirst.trans (ih (by omega) hfirst.wellFormed hrest)
        intro page
        omega
      · rename_i hdone
        rw [Except.ok.injEq] at hloop
        subst hloop
        apply MarksPages.none hbefore
        intro page hpage
        omega

/-- Pages of the descriptors that the kernel's switch marks. -/
def MarkedBy (descriptors : List MemoryDescriptor) (page : ℕ) : Prop :=
  ∃ descriptor ∈ descriptors,
    switchMarks descriptor.type = true ∧ descriptor.Covers page

theorem markDescriptor_marksPages {descriptor : MemoryDescriptor}
    {before after : BitfieldPhysicalMemoryAllocator}
    (hbound : descriptor.start + descriptor.length < 2 ^ 32)
    (hbefore : before.WellFormed)
    (hmark : markDescriptor descriptor before = .ok after) :
    MarksPages before after (MarkedBy [descriptor]) := by
  rw [markDescriptor] at hmark
  split at hmark
  · rename_i hswitch
    rw [u64_of_lt (by omega), u32_of_lt (by omega)] at hmark
    have hloop := markLoop_marksPages hbound (by omega) hbefore hmark
    refine ⟨hloop.nFrames_eq, hloop.wellFormed, fun frame hframe => ?_⟩
    rw [hloop.used_iff frame hframe]
    simp [MarkedBy, MemoryDescriptor.Covers, hswitch]
  · rename_i hswitch
    rw [Except.ok.injEq] at hmark
    subst hmark
    apply MarksPages.none hbefore
    rintro page ⟨other, hmem, hother, _⟩
    rw [List.mem_singleton] at hmem
    exact hswitch (hmem ▸ hother)

theorem markDescriptors_marksPages {descriptors : List MemoryDescriptor}
    {before after : BitfieldPhysicalMemoryAllocator}
    (hbound : ∀ descriptor ∈ descriptors,
      descriptor.start + descriptor.length < 2 ^ 32)
    (hbefore : before.WellFormed)
    (hmark : markDescriptors descriptors before = .ok after) :
    MarksPages before after (MarkedBy descriptors) := by
  induction descriptors generalizing before with
  | nil =>
      rw [markDescriptors, Except.ok.injEq] at hmark
      subst hmark
      exact MarksPages.none hbefore (by simp [MarkedBy])
  | cons descriptor rest ih =>
      obtain ⟨middle, hfirst, hrest⟩ := bind_eq_ok.mp hmark
      have hhead := markDescriptor_marksPages
        (hbound _ List.mem_cons_self) hbefore hfirst
      refine hhead.trans (ih (fun other hmem =>
        hbound other (List.mem_cons_of_mem _ hmem)) hhead.wellFormed hrest) ?_
      intro page
      simp [MarkedBy]

/-! ## The types that survive the translation -/

/-- The loader's types whose number the kernel's switch marks. -/
def arrives : MemoryType → Bool
  | .bad | .unusable | .geexOSPageDirectory
  | .geexOSKernelEnvironmentInformation | .geexOSKernelExecutable
  | .geexOSKernelStack => true
  | _ => false

/-- The reserved types whose number means something else to the kernel. -/
def lost : MemoryType → Bool
  | .special | .firmware | .geexOSKernelLibrary => true
  | _ => false

theorem arrives_eq (type : MemoryType) :
    arrives type = (recorded type && switchMarks type.number) := by
  cases type <;> decide

theorem reserved_eq_true_iff (type : MemoryType) :
    reserved type = true ↔
      lost type = true ∨ (reserved type = true ∧ arrives type = true) := by
  cases type <;> decide

theorem lost_reserved {type : MemoryType} (hlost : lost type = true) :
    reserved type = true :=
  (reserved_eq_true_iff type).mpr (Or.inl hlost)

theorem markedBy_iff {mmap : ℕ → PageLookupTableItem} {limit : ℕ}
    {descriptors : List MemoryDescriptor}
    (hencodes : Encodes mmap limit descriptors) (page : ℕ) :
    MarkedBy descriptors page ↔
      page < limit ∧ arrives (mmap page).type = true := by
  rw [arrives_eq, Bool.and_eq_true]
  constructor
  · rintro ⟨descriptor, hmem, hswitch, hcovers⟩
    obtain ⟨hlimit, hrecorded, htype⟩ :=
      hencodes.sound descriptor hmem page hcovers
    exact ⟨hlimit, hrecorded, htype ▸ hswitch⟩
  · rintro ⟨hlimit, hrecorded, hswitch⟩
    obtain ⟨descriptor, hmem, hcovers⟩ :=
      hencodes.complete page hlimit hrecorded
    obtain ⟨_, _, htype⟩ := hencodes.sound descriptor hmem page hcovers
    exact ⟨descriptor, hmem, htype ▸ hswitch, hcovers⟩

/-- After `Initialize`, a managed frame is in use exactly if some page whose
type arrived has this frame. -/
theorem x86HALInitialize_used_iff {state : MemoryState} {block : LoaderBlock}
    {boundary : ℕ} {allocator : BitfieldPhysicalMemoryAllocator}
    (hbuild : loaderBuildPhysicalMemoryMap state ⟨[], 0⟩ = .ok block)
    (hsetup : x86HALInitialize
      { block with upperMemoryBoundary := boundary } = .ok allocator) :
    allocator.WellFormed ∧ allocator.nFrames < 2 ^ 20 ∧
      ∀ frame, frame < allocator.nFrames →
        (allocator.Used frame ↔
          ∃ page, (page + 1 < memoryMapElementCount state ∧
            arrives (state.pageLookupTable page).type = true) ∧
            page % 2 ^ 20 = frame) := by
  have hencodes := loaderBuildPhysicalMemoryMap_encodes hbuild
  have hcount : memoryMapElementCount state < 2 ^ 32 := u32_lt _
  have hmarks := markDescriptors_marksPages (fun descriptor hmem => by
      have := hencodes.bounded descriptor hmem
      omega)
    (BitfieldPhysicalMemoryAllocator.new_wellFormed _) hsetup
  refine ⟨hmarks.wellFormed, ?_, fun frame hframe => ?_⟩
  · rw [hmarks.nFrames_eq]
    have := u32_lt (u32 boundary * 1024)
    simp only [BitfieldPhysicalMemoryAllocator.new, pageSize]
    omega
  · rw [hmarks.used_iff frame (hmarks.nFrames_eq ▸ hframe)]
    simp only [BitfieldPhysicalMemoryAllocator.not_used_new, or_false,
      markedBy_iff hencodes, Nat.lt_sub_iff_add_lt]

/-! ## What the kernel does afterwards -/

/-- A step of the running kernel that does not give `frame` back. -/
inductive FrameStep (frame : ℕ) : BitfieldPhysicalMemoryAllocator →
    BitfieldPhysicalMemoryAllocator → Prop where
  | allocate {before after : BitfieldPhysicalMemoryAllocator} {address : ℕ}
      (halFullyInitialized : Bool)
      (hcall : before.allocateFrame halFullyInitialized = .ok (address, after)) :
      FrameStep frame before after
  | deallocate {before after : BitfieldPhysicalMemoryAllocator}
      (physAddr : ℕ) (hother : physAddr / pageSize ≠ frame)
      (hcall : before.deallocateFrame physAddr = .ok after) :
      FrameStep frame before after
  | mark {before after : BitfieldPhysicalMemoryAllocator} (physAddr : ℕ)
      (hcall : before.markAsUsed physAddr = .ok after) :
      FrameStep frame before after

/-- `frame` is in use, and stays so: no later `AllocateFrame` returns it. -/
def Kept (allocator : BitfieldPhysicalMemoryAllocator) (frame : ℕ) : Prop :=
  allocator.Used frame ∧
    ∀ later, Relation.ReflTransGen (FrameStep frame) allocator later →
      ∀ halFullyInitialized address after,
        later.allocateFrame halFullyInitialized = .ok (address, after) →
        address ≠ frame * pageSize

theorem FrameStep.preserves_used {frame : ℕ}
    {before after : BitfieldPhysicalMemoryAllocator}
    (hstep : FrameStep frame before after)
    (hbefore : before.WellFormed ∧ before.nFrames < 2 ^ 20 ∧ before.Used frame) :
    after.WellFormed ∧ after.nFrames < 2 ^ 20 ∧ after.Used frame := by
  obtain ⟨hwellFormed, hsmall, hused⟩ := hbefore
  cases hstep with
  | allocate halFullyInitialized hcall =>
      obtain ⟨_, _, _, _, hmarked⟩ :=
        BitfieldPhysicalMemoryAllocator.allocateFrame_eq_ok hwellFormed hcall
      exact ⟨hmarked.wellFormed, hmarked.nFrames_eq ▸ hsmall,
        (hmarked.used_iff frame).mpr (Or.inr hused)⟩
  | deallocate physAddr hother hcall =>
      obtain ⟨frames, hclear, hafter⟩ := bind_eq_ok.mp hcall
      obtain ⟨_, hupdate⟩ := DataStructures.Bitfield.clearBit_eq_ok hclear
      rw [Except.ok.injEq] at hafter
      subst hafter
      refine ⟨hupdate.numElements_eq.trans hwellFormed, hsmall, ?_⟩
      rw [BitfieldPhysicalMemoryAllocator.Used, hupdate.bit_eq,
        if_neg (Ne.symm hother)]
      exact hused
  | mark physAddr hcall =>
      rcases BitfieldPhysicalMemoryAllocator.markAsUsed_eq_ok hwellFormed hcall
        with ⟨_, _, hmarked⟩ | ⟨_, rfl⟩
      · exact ⟨hmarked.wellFormed, hmarked.nFrames_eq ▸ hsmall,
          (hmarked.used_iff frame).mpr (Or.inr hused)⟩
      · exact ⟨hwellFormed, hsmall, hused⟩

theorem used_of_frameSteps {frame : ℕ}
    {before after : BitfieldPhysicalMemoryAllocator}
    (hrun : Relation.ReflTransGen (FrameStep frame) before after)
    (hbefore : before.WellFormed ∧ before.nFrames < 2 ^ 20 ∧ before.Used frame) :
    after.WellFormed ∧ after.nFrames < 2 ^ 20 ∧ after.Used frame := by
  induction hrun with
  | refl => exact hbefore
  | tail _ hstep ih => exact hstep.preserves_used ih

theorem kept_of_used {allocator : BitfieldPhysicalMemoryAllocator} {frame : ℕ}
    (hallocator : allocator.WellFormed) (hsmall : allocator.nFrames < 2 ^ 20)
    (hused : allocator.Used frame) : Kept allocator frame := by
  refine ⟨hused, fun later hrun halFullyInitialized address after hcall => ?_⟩
  obtain ⟨hwellFormed, hbound, hstill⟩ :=
    used_of_frameSteps hrun ⟨hallocator, hsmall, hused⟩
  obtain ⟨other, hother, haddress, hclear, _⟩ :=
    BitfieldPhysicalMemoryAllocator.allocateFrame_eq_ok hwellFormed hcall
  intro heq
  have hframe : other = frame := by
    rw [haddress, u32_of_lt (by simp only [pageSize]; omega)] at heq
    exact Nat.eq_of_mul_eq_mul_right (by decide) heq
  exact hclear (hframe ▸ hstill)

/-- Every reserved page below the end of the encoding is kept from the
kernel's frame allocator. -/
def HandedOver (state : MemoryState)
    (allocator : BitfieldPhysicalMemoryAllocator) : Prop :=
  ∀ page, page + 1 < memoryMapElementCount state →
    reserved (state.pageLookupTable page).type = true →
    page < allocator.nFrames → Kept allocator page

/-- The hand-off keeps every reserved page exactly if no managed page is
special, firmware or a kernel library.  Above 4 GiB the frame of such a page
may still be marked through a page whose address wraps onto it. -/
theorem handedOver_iff {state : MemoryState} {block : LoaderBlock}
    {boundary : ℕ} {allocator : BitfieldPhysicalMemoryAllocator}
    (hbuild : loaderBuildPhysicalMemoryMap state ⟨[], 0⟩ = .ok block)
    (hsetup : x86HALInitialize
      { block with upperMemoryBoundary := boundary } = .ok allocator) :
    HandedOver state allocator ↔
      ∀ page, page + 1 < memoryMapElementCount state →
        lost (state.pageLookupTable page).type = true →
        page < allocator.nFrames →
        ∃ other, (other + 1 < memoryMapElementCount state ∧
          arrives (state.pageLookupTable other).type = true) ∧
          other % 2 ^ 20 = page := by
  obtain ⟨hwellFormed, hsmall, hused⟩ :=
    x86HALInitialize_used_iff hbuild hsetup
  constructor
  · intro hover page hpage hlost hframe
    exact (hused page hframe).mp
      (hover page hpage (lost_reserved hlost) hframe).1
  · intro hwrapped page hpage hreserved hframe
    apply kept_of_used hwellFormed hsmall
    rw [hused page hframe]
    rcases (reserved_eq_true_iff _).mp hreserved with hlost | ⟨_, harrives⟩
    · exact hwrapped page hpage hlost hframe
    · exact ⟨page, ⟨hpage, harrives⟩, Nat.mod_eq_of_lt (by omega)⟩

/-- Three pages of one type, the last of which is never encoded. -/
def uniformState (type : MemoryType) : MemoryState where
  lowestPhysicalPage := 0
  highestPhysicalPage := 3
  tableAddress := 0x100000
  pageLookupTable := fun _ => memoryMarkItem type

theorem handedOver_iff_kernelStack :
    ∃ allocator, HandedOver (uniformState .geexOSKernelStack) allocator ↔
      ∀ page, page + 1 < memoryMapElementCount (uniformState .geexOSKernelStack) →
        lost ((uniformState .geexOSKernelStack).pageLookupTable page).type = true →
        page < allocator.nFrames →
        ∃ other,
          (other + 1 < memoryMapElementCount (uniformState .geexOSKernelStack) ∧
            arrives
              ((uniformState .geexOSKernelStack).pageLookupTable other).type =
                true) ∧
          other % 2 ^ 20 = page :=
  ⟨_, handedOver_iff
    (show loaderBuildPhysicalMemoryMap (uniformState .geexOSKernelStack) ⟨[], 0⟩ =
      .ok ⟨[⟨0, 2, 14⟩], 0⟩ from rfl)
    (show x86HALInitialize ⟨[⟨0, 2, 14⟩], 0x4000⟩ = .ok _ from rfl)⟩

/-- Firmware pages reach the kernel as number 8, its `pageLookupTable`, and
stay free. -/
theorem firmware_not_handedOver :
    ¬ ∀ (state : MemoryState) (block : LoaderBlock) (boundary : ℕ)
      (allocator : BitfieldPhysicalMemoryAllocator),
      loaderBuildPhysicalMemoryMap state ⟨[], 0⟩ = .ok block →
      x86HALInitialize { block with upperMemoryBoundary := boundary } =
        .ok allocator →
      HandedOver state allocator := by
  intro hall
  have hover := hall (uniformState .firmware) ⟨[⟨0, 2, 8⟩], 0⟩ 0x4000
    (.new 0x4000) rfl rfl
  have hused := (hover 0 (by decide) rfl (by decide)).1
  exact BitfieldPhysicalMemoryAllocator.not_used_new 0x4000 0 hused

/-! ## Installed memory -/

/-- The allocator manages the frames below the boundary and no others. -/
structure ManagesInstalled (allocator : BitfieldPhysicalMemoryAllocator)
    (boundary : ℕ) : Prop where
  total : u32 (allocator.nFrames * pageSize) = boundary
  below : ∀ taken later halFullyInitialized address after,
    Relation.ReflTransGen FrameCall ⟨allocator, taken⟩ later →
    later.allocator.allocateFrame halFullyInitialized = .ok (address, after) →
    address + pageSize ≤ boundary
  manageable : ∀ frame, (frame + 1) * pageSize ≤ boundary → frame < allocator.nFrames

theorem markAsUsed_nFrames_eq {before after : BitfieldPhysicalMemoryAllocator}
    {physAddr : ℕ} (hmark : before.markAsUsed physAddr = .ok after) :
    after.nFrames = before.nFrames := by
  simp only [BitfieldPhysicalMemoryAllocator.markAsUsed] at hmark
  split at hmark
  · obtain ⟨isSet, _, hrest⟩ := bind_eq_ok.mp hmark
    cases isSet with
    | true => simp at hrest
    | false =>
        obtain ⟨frames, _, hafter⟩ := bind_eq_ok.mp hrest
        rw [Except.ok.injEq] at hafter
        rw [← hafter]
  · rw [Except.ok.injEq] at hmark
    rw [hmark]

theorem markLoop_nFrames_eq {limit fuel a : ℕ}
    {before after : BitfieldPhysicalMemoryAllocator}
    (hloop : markLoop limit fuel a before = .ok after) :
    after.nFrames = before.nFrames := by
  induction fuel generalizing a before with
  | zero => simp [markLoop] at hloop
  | succ fuel ih =>
      rw [markLoop] at hloop
      split at hloop
      · obtain ⟨middle, hmark, hrest⟩ := bind_eq_ok.mp hloop
        exact (ih hrest).trans (markAsUsed_nFrames_eq hmark)
      · rw [Except.ok.injEq] at hloop
        rw [hloop]

theorem markDescriptors_nFrames_eq {descriptors : List MemoryDescriptor}
    {before after : BitfieldPhysicalMemoryAllocator}
    (hmark : markDescriptors descriptors before = .ok after) :
    after.nFrames = before.nFrames := by
  induction descriptors generalizing before with
  | nil =>
      rw [markDescriptors, Except.ok.injEq] at hmark
      rw [hmark]
  | cons descriptor rest ih =>
      obtain ⟨middle, hfirst, hrest⟩ := bind_eq_ok.mp hmark
      apply (ih hrest).trans
      rw [markDescriptor] at hfirst
      split at hfirst
      · exact markLoop_nFrames_eq hfirst
      · rw [Except.ok.injEq] at hfirst
        rw [hfirst]

/-- The constructor takes the bytes it gets for kilobytes: only the remainder
of the pages modulo 1024 arrives, and each of them counts 1024 times. -/
theorem new_nFrames_of_bytes (pages : ℕ) :
    (BitfieldPhysicalMemoryAllocator.new (u32 (pages * pageSize))).nFrames =
      pages % 1024 * 1024 := by
  simp only [BitfieldPhysicalMemoryAllocator.new, u32, pageSize]
  omega

/-- For no amount of memory does the kernel manage what is installed. -/
theorem x86HALInitialize_not_managesInstalled {state : MemoryState} {block : LoaderBlock}
    {allocator : BitfieldPhysicalMemoryAllocator}
    (hpages : state.highestPhysicalPage < 2 ^ 20 - 1)
    (hboundary : block.upperMemoryBoundary = upperMemoryBoundary state)
    (hsetup : x86HALInitialize block = .ok allocator) :
    allocator.nFrames = (state.highestPhysicalPage + 1) % 1024 * 1024 ∧
      ¬ ManagesInstalled allocator block.upperMemoryBoundary := by
  have hbytes : upperMemoryBoundary state = (state.highestPhysicalPage + 1) * pageSize := by
    have hpage : archPagesize = pageSize := rfl
    rw [upperMemoryBoundary, u64_of_lt (by omega : state.highestPhysicalPage + 1 < 2 ^ 64),
      hpage]
    exact u64_of_lt (by simp only [pageSize]; omega)
  have hcount : allocator.nFrames = (state.highestPhysicalPage + 1) % 1024 * 1024 := by
    rw [markDescriptors_nFrames_eq hsetup, hboundary, hbytes,
      new_nFrames_of_bytes]
  refine ⟨hcount, fun hmanages => ?_⟩
  have htotal := hmanages.total
  rw [hcount, hboundary, hbytes, u32_of_lt (by simp only [pageSize]; omega)] at htotal
  have hsame := Nat.eq_of_mul_eq_mul_right (by decide) htotal
  -- a multiple of 1024 pages has no remainder
  omega

/-- 128 MiB of memory. -/
def installed128 : MemoryState where
  lowestPhysicalPage := 0
  highestPhysicalPage := 0x7FFF
  tableAddress := 0x100000
  pageLookupTable := fun _ => memoryMarkItem .free

theorem x86HALInitialize_not_managesInstalled_128 :
    (BitfieldPhysicalMemoryAllocator.new 0x8000000).nFrames =
        (installed128.highestPhysicalPage + 1) % 1024 * 1024 ∧
      ¬ ManagesInstalled (.new 0x8000000) 0x8000000 := by
  have hboundary : 0x8000000 = upperMemoryBoundary installed128 := by decide
  exact x86HALInitialize_not_managesInstalled (by decide)
    (show LoaderBlock.upperMemoryBoundary ⟨[], 0x8000000⟩ = _ from hboundary)
    (show x86HALInitialize ⟨[], 0x8000000⟩ = .ok (.new 0x8000000) from rfl)

/-- With 128 MiB the kernel has no frame at all. -/
theorem installed128_not_managed :
    ¬ ∀ (state : MemoryState) (block : LoaderBlock)
      (allocator : BitfieldPhysicalMemoryAllocator),
      state.highestPhysicalPage < 2 ^ 20 - 1 →
      block.upperMemoryBoundary = upperMemoryBoundary state →
      x86HALInitialize block = .ok allocator →
      ManagesInstalled allocator block.upperMemoryBoundary := by
  intro hall
  have hmanages := hall installed128 ⟨[], 0x8000000⟩ (.new 0x8000000) (by decide) rfl rfl
  exact absurd (hmanages.manageable 0 (by decide)) (by decide)

end GeexOS.Handoff
