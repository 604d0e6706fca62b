import GeexOS.Kernel.PhysicalAllocator
import Mathlib.Logic.Relation

/-!
# Addresses that are not managed

`MarkAsUsed` and `IsFree` are asked about any address.  Their own test lets one frame
more through than the bitfield has bits for.
-/

namespace GeexOS.PhysicalAllocator

open GeexOS.Halting
open GeexOS.DataStructures
open BitfieldPhysicalMemoryAllocator

variable {allocator after : BitfieldPhysicalMemoryAllocator} {memorySize physAddr : ℕ}

/-- A call that comes back. -/
inductive AllocatorCall :
    BitfieldPhysicalMemoryAllocator → BitfieldPhysicalMemoryAllocator → Prop
  | markAsUsed {allocator after : BitfieldPhysicalMemoryAllocator} {physAddr : ℕ}
      (hcall : allocator.markAsUsed physAddr = .ok after) : AllocatorCall allocator after
  | allocateFrame {allocator after : BitfieldPhysicalMemoryAllocator}
      {halFullyInitialized : Bool} {address : ℕ}
      (hcall : allocator.allocateFrame halFullyInitialized = .ok (address, after)) :
      AllocatorCall allocator after
  | deallocateFrame {allocator after : BitfieldPhysicalMemoryAllocator} {physAddr : ℕ}
      (hcall : allocator.deallocateFrame physAddr = .ok after) : AllocatorCall allocator after

theorem AllocatorCall.wellFormed (hcall : AllocatorCall allocator after)
    (hallocator : allocator.WellFormed) : after.WellFormed := by
  cases hcall with
  | markAsUsed hcall =>
      rcases markAsUsed_eq_ok hallocator hcall with ⟨-, -, hmarked⟩ | ⟨-, rfl⟩
      · exact hmarked.wellFormed
      · exact hallocator
  | allocateFrame hcall =>
      obtain ⟨_, -, -, -, hmarked⟩ := allocateFrame_eq_ok hallocator hcall
      exact hmarked.wellFormed
  | deallocateFrame hcall => exact (deallocateFrame_eq_ok hallocator hcall).2.1

theorem AllocatorCall.wellFormed_run
    (hrun : Relation.ReflTransGen AllocatorCall (new memorySize) allocator) :
    allocator.WellFormed := by
  induction hrun with
  | refl => exact new_wellFormed memorySize
  | tail _ hcall ih => exact hcall.wellFormed ih

/-- No assertion fails, and an address outside of the managed memory is ignored. -/
structure IgnoresForeign (allocator : BitfieldPhysicalMemoryAllocator) (physAddr : ℕ) : Prop where
  markAsUsed : allocator.markAsUsed physAddr ≠ .error outOfBounds
  isFree : allocator.isFree physAddr ≠ .error outOfBounds
  foreign : ¬ physAddr / pageSize < allocator.nFrames →
    allocator.markAsUsed physAddr = .ok allocator ∧ allocator.isFree physAddr = .ok false

/-! ## Three kinds of addresses -/

theorem ignoresForeign_of_lt (hallocator : allocator.WellFormed)
    (hmanaged : physAddr / pageSize < allocator.nFrames) : IgnoresForeign allocator physAddr := by
  have hbound : physAddr / pageSize < allocator.frames.numElements :=
    hmanaged.trans_eq hallocator.symm
  refine ⟨?_, ?_, fun hforeign => absurd hmanaged hforeign⟩
  · obtain ⟨frames, hset, -⟩ := Bitfield.setBit_of_lt hbound
    rw [BitfieldPhysicalMemoryAllocator.markAsUsed, if_pos hmanaged.le,
      Bitfield.isBitSet_of_lt hbound, ok_bind]
    split
    · exact fun herror => absurd (Except.error.inj herror) (by decide)
    · rw [hset, ok_bind]
      exact fun herror => by cases herror
  · rw [isFree_of_lt hallocator hmanaged]
    exact fun herror => by cases herror

theorem ignoresForeign_of_gt (habove : allocator.nFrames < physAddr / pageSize) :
    IgnoresForeign allocator physAddr := by
  have hmark : allocator.markAsUsed physAddr = .ok allocator := if_neg habove.not_ge
  have hfree : allocator.isFree physAddr = .ok false := if_neg habove.not_ge
  refine ⟨?_, ?_, fun _ => ⟨hmark, hfree⟩⟩
  · rw [hmark]
    exact fun herror => by cases herror
  · rw [hfree]
    exact fun herror => by cases herror

/-- The frame directly behind the last one is let through. -/
theorem isFree_of_eq (hallocator : allocator.WellFormed)
    (hnext : physAddr / pageSize = allocator.nFrames) :
    allocator.isFree physAddr = .error outOfBounds := by
  have hbound : allocator.frames.numElements ≤ physAddr / pageSize :=
    (hallocator.trans hnext.symm).le
  rw [BitfieldPhysicalMemoryAllocator.isFree, if_pos hnext.le, Bitfield.isBitSet_of_le hbound]
  rfl

/-- Foreign addresses are ignored exactly if they are not in the frame behind the last. -/
theorem ignoresForeign_iff
    (hrun : Relation.ReflTransGen AllocatorCall (new memorySize) allocator) :
    IgnoresForeign allocator physAddr ↔ physAddr / pageSize ≠ allocator.nFrames := by
  have hallocator := AllocatorCall.wellFormed_run hrun
  constructor
  · exact fun hignores hnext => hignores.isFree (isFree_of_eq hallocator hnext)
  · intro hne
    rcases Nat.lt_or_gt_of_ne hne with hmanaged | habove
    · exact ignoresForeign_of_lt hallocator hmanaged
    · exact ignoresForeign_of_gt habove

/-- 32 frames, the first of them reserved, and an address far behind. -/
theorem ignoresForeign_iff_reserved :
    ∃ allocator, IgnoresForeign allocator 0x40000 ↔ 0x40000 / pageSize ≠ allocator.nFrames :=
  ⟨_, ignoresForeign_iff (.single (.markAsUsed (show (new 128).markAsUsed 0 = .ok _ from rfl)))⟩

/-- With 128 KiB of memory the address `0x20000` is directly behind. -/
theorem nextFrame_not_ignored :
    ¬ ∀ (memorySize physAddr : ℕ) (allocator : BitfieldPhysicalMemoryAllocator),
      physAddr < 2 ^ 32 → Relation.ReflTransGen AllocatorCall (new memorySize) allocator →
        IgnoresForeign allocator physAddr := by
  intro hall
  have hignores := hall 128 0x20000 (new 128) (by norm_num) .refl
  exact hignores.isFree (isFree_of_eq (new_wellFormed 128) rfl)

end GeexOS.PhysicalAllocator
