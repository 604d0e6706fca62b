import GeexOS.Kernel.Bitfield
import GeexOS.Library.Words

/-!
# The kernel's physical frame allocator

One bit per frame.  A frame is handed out by setting the first cleared bit,
and reserved by setting its own.
-/

namespace GeexOS.PhysicalAllocator

open GeexOS.Words
open GeexOS.Halting
open GeexOS.DataStructures

def pageSize : ℕ := 4096

structure BitfieldPhysicalMemoryAllocator where
  frames : Bitfield
  nFrames : ℕ

namespace BitfieldPhysicalMemoryAllocator

/-- The constructor: `memorySize * 1024 / PAGE_SIZE` in 32-bit arithmetic. -/
def new (memorySize : ℕ) : BitfieldPhysicalMemoryAllocator where
  frames := Bitfield.new (u32 (memorySize * 1024) / pageSize)
  nFrames := u32 (memorySize * 1024) / pageSize

def allocateFrame (halFullyInitialized : Bool)
    (allocator : BitfieldPhysicalMemoryAllocator) :
    Outcome (ℕ × BitfieldPhysicalMemoryAllocator) :=
  if !halFullyInitialized then
    .error (.assertion
      "Allocation of physical memory is only possible after the HAL was fully initialized")
  else
    let pageIndex := allocator.frames.getFirstClearedIndex
    if pageIndex = 0xFFFFFFFF then
      .error (.panic "Desperately out of memory: No more frames left to allocate")
    else do
      let frames ← allocator.frames.setBit pageIndex
      .ok (u32 (pageIndex * pageSize), { allocator with frames := frames })

def deallocateFrame (allocator : BitfieldPhysicalMemoryAllocator)
    (physAddr : ℕ) : Outcome BitfieldPhysicalMemoryAllocator := do
  let frames ← allocator.frames.clearBit (physAddr / pageSize)
  .ok { allocator with frames := frames }

/-- The bound is `<=`, as the source has it. -/
def markAsUsed (allocator : BitfieldPhysicalMemoryAllocator) (physAddr : ℕ) :
    Outcome BitfieldPhysicalMemoryAllocator :=
  if physAddr / pageSize ≤ allocator.nFrames then do
    let isSet ← allocator.frames.isBitSet (physAddr / pageSize)
    if isSet then
      .error (.panic "Frame at << hex << physAddr << already was marked as used")
    else do
      let frames ← allocator.frames.setBit (physAddr / pageSize)
      .ok { allocator with frames := frames }
  else .ok allocator

def isFree (allocator : BitfieldPhysicalMemoryAllocator) (physAddr : ℕ) :
    Outcome Bool :=
  if physAddr / pageSize ≤ allocator.nFrames then do
    let isSet ← allocator.frames.isBitSet (physAddr / pageSize)
    .ok (!isSet)
  else .ok false

/-- The bitfield has one element per frame. -/
def WellFormed (allocator : BitfieldPhysicalMemoryAllocator) : Prop :=
  allocator.frames.numElements = allocator.nFrames

def Used (allocator : BitfieldPhysicalMemoryAllocator) (frame : ℕ) : Prop :=
  allocator.frames.bit frame = true

theorem new_wellFormed (memorySize : ℕ) : (new memorySize).WellFormed := rfl

theorem not_used_new (memorySize frame : ℕ) :
    ¬ (new memorySize).Used frame := by
  simp [Used, new]

/-- `after` is `before` with one more frame in use. -/
structure Marked (before after : BitfieldPhysicalMemoryAllocator)
    (frame : ℕ) : Prop where
  nFrames_eq : after.nFrames = before.nFrames
  wellFormed : after.WellFormed
  used_iff : ∀ other, after.Used other ↔ other = frame ∨ before.Used other

theorem marked_of_setBit {allocator : BitfieldPhysicalMemoryAllocator}
    {frames : Bitfield} {frame : ℕ} (hallocator : allocator.WellFormed)
    (hset : allocator.frames.setBit frame = .ok frames) :
    Marked allocator { allocator with frames := frames } frame := by
  obtain ⟨_, hupdate⟩ := Bitfield.setBit_eq_ok hset
  refine ⟨rfl, hupdate.numElements_eq.trans hallocator, fun other => ?_⟩
  simp only [Used, hupdate.bit_eq]
  by_cases heq : other = frame <;> simp [heq]

/-- A returning `MarkAsUsed` marked the frame of the address, which was not in
use before, or ignored an address above all frames. -/
theorem markAsUsed_eq_ok {allocator after : BitfieldPhysicalMemoryAllocator}
    {physAddr : ℕ} (hallocator : allocator.WellFormed)
    (hmark : allocator.markAsUsed physAddr = .ok after) :
    (physAddr / pageSize < allocator.nFrames ∧
      ¬ allocator.Used (physAddr / pageSize) ∧
      Marked allocator after (physAddr / pageSize)) ∨
    (allocator.nFrames < physAddr / pageSize ∧ after = allocator) := by
  simp only [markAsUsed] at hmark
  split at hmark
  · left
    obtain ⟨isSet, hisSet, hrest⟩ := bind_eq_ok.mp hmark
    by_cases hbound : physAddr / pageSize < allocator.frames.numElements
    · rw [Bitfield.isBitSet_of_lt hbound, Except.ok.injEq] at hisSet
      cases isSet with
      | true => simp at hrest
      | false =>
          obtain ⟨frames, hset, hafter⟩ := bind_eq_ok.mp hrest
          rw [Except.ok.injEq] at hafter
          refine ⟨hallocator ▸ hbound, ?_, ?_⟩
          · simp [Used, hisSet]
          · exact hafter ▸ marked_of_setBit hallocator hset
    · rw [Bitfield.isBitSet_of_le (by omega)] at hisSet
      simp at hisSet
  · rename_i habove
    rw [Except.ok.injEq] at hmark
    exact Or.inr ⟨by omega, hmark.symm⟩

/-- `AllocateFrame` hands out a frame that was not in use. -/
theorem allocateFrame_eq_ok {allocator after : BitfieldPhysicalMemoryAllocator}
    {halFullyInitialized : Bool} {address : ℕ}
    (hallocator : allocator.WellFormed)
    (hallocate : allocator.allocateFrame halFullyInitialized =
      .ok (address, after)) :
    ∃ frame, frame < allocator.nFrames ∧ address = u32 (frame * pageSize) ∧
      ¬ allocator.Used frame ∧ Marked allocator after frame := by
  simp only [allocateFrame] at hallocate
  split at hallocate
  · simp at hallocate
  split at hallocate
  · simp at hallocate
  rename_i hfound
  obtain ⟨frames, hset, hrest⟩ := bind_eq_ok.mp hallocate
  simp only [Except.ok.injEq, Prod.mk.injEq] at hrest
  obtain ⟨rfl, rfl⟩ := hrest
  have hclear := allocator.frames.getFirstClearedIndex_spec.resolve_left hfound
  have hbound := (Bitfield.setBit_eq_ok hset).1
  refine ⟨_, hallocator ▸ hbound, rfl, ?_, marked_of_setBit hallocator hset⟩
  simp [Used, hclear]

/-- A returning `DeallocateFrame` gives back the frame of the address. -/
theorem deallocateFrame_eq_ok {allocator after : BitfieldPhysicalMemoryAllocator}
    {physAddr : ℕ} (hallocator : allocator.WellFormed)
    (hdeallocate : allocator.deallocateFrame physAddr = .ok after) :
    after.nFrames = allocator.nFrames ∧ after.WellFormed ∧
      ∀ other, after.Used other ↔
        other ≠ physAddr / pageSize ∧ allocator.Used other := by
  obtain ⟨frames, hclear, hafter⟩ := bind_eq_ok.mp hdeallocate
  obtain ⟨_, hupdate⟩ := Bitfield.clearBit_eq_ok hclear
  rw [Except.ok.injEq] at hafter
  subst hafter
  refine ⟨rfl, hupdate.numElements_eq.trans hallocator, fun other => ?_⟩
  simp only [Used, hupdate.bit_eq]
  by_cases heq : other = physAddr / pageSize <;> simp [heq]

/-- `IsFree` reads the bit of a managed frame. -/
theorem isFree_of_lt {allocator : BitfieldPhysicalMemoryAllocator} {physAddr : ℕ}
    (hallocator : allocator.WellFormed) (hframe : physAddr / pageSize < allocator.nFrames) :
    allocator.isFree physAddr = .ok (!allocator.frames.bit (physAddr / pageSize)) := by
  have hbound : physAddr / pageSize < allocator.frames.numElements :=
    hframe.trans_eq hallocator.symm
  rw [isFree, if_pos hframe.le, Bitfield.isBitSet_of_lt hbound]
  rfl

/-- The constructor makes fewer frames than a 32-bit address space has. -/
theorem nFrames_new_lt (memorySize : ℕ) : (new memorySize).nFrames < 2 ^ 20 := by
  have hbytes := u32_lt (memorySize * 1024)
  simp only [new, pageSize]
  omega

end BitfieldPhysicalMemoryAllocator

end GeexOS.PhysicalAllocator
