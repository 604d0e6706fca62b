import GeexOS.Kernel.PhysicalAllocator
import Mathlib.Data.Set.Insert
import Mathlib.Logic.Relation

/-!
# The frame allocator as a set of frames

The bits of the bitmap stand for a set: the frames that were handed out or
reserved and not given back.  Every call edits one frame of this set.
-/

namespace GeexOS.PhysicalAllocator

open GeexOS.Words
open GeexOS.Halting
open GeexOS.DataStructures
open BitfieldPhysicalMemoryAllocator

/-- An allocator, and the frames its callers hold or have reserved. -/
structure FrameState where
  allocator : BitfieldPhysicalMemoryAllocator
  taken : Set ℕ

/-- One call that comes back.  Only frames that are taken are given back. -/
inductive FrameCall : FrameState → FrameState → Prop
  | markAsUsed {allocator after : BitfieldPhysicalMemoryAllocator} {taken : Set ℕ}
      {physAddr : ℕ} (hcall : allocator.markAsUsed physAddr = .ok after) :
      FrameCall ⟨allocator, taken⟩ ⟨after, insert (physAddr / pageSize) taken⟩
  | allocateFrame {allocator after : BitfieldPhysicalMemoryAllocator} {taken : Set ℕ}
      {halFullyInitialized : Bool} {address : ℕ}
      (hcall : allocator.allocateFrame halFullyInitialized = .ok (address, after)) :
      FrameCall ⟨allocator, taken⟩ ⟨after, insert (address / pageSize) taken⟩
  | deallocateFrame {allocator after : BitfieldPhysicalMemoryAllocator} {taken : Set ℕ}
      {physAddr : ℕ} (htaken : physAddr / pageSize ∈ taken)
      (hcall : allocator.deallocateFrame physAddr = .ok after) :
      FrameCall ⟨allocator, taken⟩ ⟨after, taken \ {physAddr / pageSize}⟩

/-- The bitmap is the set of taken frames. -/
structure Represents (state : FrameState) : Prop where
  wellFormed : state.allocator.WellFormed
  nFrames_lt : state.allocator.nFrames < 2 ^ 20
  used_iff : ∀ frame < state.allocator.nFrames,
    state.allocator.Used frame ↔ frame ∈ state.taken

theorem represents_new (memorySize : ℕ) : Represents ⟨new memorySize, ∅⟩ where
  wellFormed := new_wellFormed memorySize
  nFrames_lt := nFrames_new_lt memorySize
  used_iff := fun frame _ => by simp [not_used_new]

variable {state state' : FrameState} {address physAddr frame : ℕ}

/-- One more frame in use is one more frame taken. -/
theorem Represents.insert {after : BitfieldPhysicalMemoryAllocator}
    (hstate : Represents state) (hmarked : Marked state.allocator after frame) :
    Represents ⟨after, insert frame state.taken⟩ where
  wellFormed := hmarked.wellFormed
  nFrames_lt := hmarked.nFrames_eq ▸ hstate.nFrames_lt
  used_iff := fun other hother => by
    rw [hmarked.used_iff, hstate.used_iff other (hmarked.nFrames_eq ▸ hother),
      Set.mem_insert_iff]

/-- The frame that is handed out was not taken. -/
theorem Represents.fresh {after : BitfieldPhysicalMemoryAllocator}
    {halFullyInitialized : Bool} (hstate : Represents state)
    (hcall : state.allocator.allocateFrame halFullyInitialized = .ok (address, after)) :
    ∃ frame < state.allocator.nFrames, address = frame * pageSize ∧
      frame ∉ state.taken ∧ Marked state.allocator after frame := by
  obtain ⟨frame, hframe, haddress, hclear, hmarked⟩ :=
    allocateFrame_eq_ok hstate.wellFormed hcall
  have hsmall := hstate.nFrames_lt
  rw [u32_of_lt (by simp only [pageSize]; omega)] at haddress
  exact ⟨frame, hframe, haddress, (hstate.used_iff frame hframe).not.mp hclear, hmarked⟩

/-- Every call keeps bitmap and set together. -/
theorem FrameCall.represents (hcall : FrameCall state state')
    (hstate : Represents state) : Represents state' := by
  cases hcall with
  | @markAsUsed allocator after taken physAddr hcall =>
      rcases markAsUsed_eq_ok hstate.wellFormed hcall with ⟨_, _, hmarked⟩ |
        ⟨habove, rfl⟩
      · exact hstate.insert hmarked
      · -- an address above all frames marks nothing
        refine ⟨hstate.wellFormed, hstate.nFrames_lt, fun frame hframe => ?_⟩
        have hne : frame ≠ physAddr / pageSize := (hframe.trans habove).ne
        rw [hstate.used_iff frame hframe, Set.mem_insert_iff]
        exact (or_iff_right hne).symm
  | @allocateFrame allocator after taken halFullyInitialized address hcall =>
      obtain ⟨frame, _, rfl, _, hmarked⟩ := hstate.fresh hcall
      rw [Nat.mul_div_cancel frame (by decide)]
      exact hstate.insert hmarked
  | @deallocateFrame allocator after taken physAddr htaken hcall =>
      obtain ⟨hcount, hwellFormed, hused⟩ :=
        deallocateFrame_eq_ok hstate.wellFormed hcall
      refine ⟨hwellFormed, hcount ▸ hstate.nFrames_lt, fun frame hframe => ?_⟩
      rw [hused, hstate.used_iff frame (hcount ▸ hframe), Set.mem_sdiff,
        Set.mem_singleton_iff, and_comm]

theorem FrameCall.represents_run (hrun : Relation.ReflTransGen FrameCall state state')
    (hstate : Represents state) : Represents state' := by
  induction hrun with
  | refl => exact hstate
  | tail _ hcall ih => exact hcall.represents ih

/-- `IsFree` answers for the set. -/
theorem Represents.isFree_eq (hstate : Represents state)
    (hframe : physAddr < state.allocator.nFrames * pageSize) :
    ∃ free, state.allocator.isFree physAddr = .ok free ∧
      (free = true ↔ physAddr / pageSize ∉ state.taken) := by
  have hindex : physAddr / pageSize < state.allocator.nFrames :=
    Nat.div_lt_of_lt_mul (by rwa [Nat.mul_comm])
  refine ⟨_, isFree_of_lt hstate.wellFormed hindex, ?_⟩
  rw [← hstate.used_iff _ hindex, Used]
  simp

/-- What the callers may rely on in every state a run reaches. -/
structure HandsOutOnce (state : FrameState) : Prop where
  fresh : ∀ halFullyInitialized address after,
    state.allocator.allocateFrame halFullyInitialized = .ok (address, after) →
      pageSize ∣ address ∧ address < state.allocator.nFrames * pageSize ∧
        address / pageSize ∉ state.taken
  isFree : ∀ physAddr < state.allocator.nFrames * pageSize,
    ∃ free, state.allocator.isFree physAddr = .ok free ∧
      (free = true ↔ physAddr / pageSize ∉ state.taken)
  deallocate : ∀ frame after, frame / pageSize ∈ state.taken →
    state.allocator.deallocateFrame frame = .ok after →
      after.nFrames = state.allocator.nFrames ∧
        ∀ physAddr < state.allocator.nFrames * pageSize,
          after.isFree physAddr =
            if physAddr / pageSize = frame / pageSize then .ok true
            else state.allocator.isFree physAddr

theorem Represents.handsOutOnce (hstate : Represents state) : HandsOutOnce state where
  fresh := fun halFullyInitialized address after hcall => by
    obtain ⟨frame, hframe, rfl, hfresh, _⟩ := hstate.fresh hcall
    rw [Nat.mul_div_cancel frame (by decide)]
    exact ⟨dvd_mul_left _ _, Nat.mul_lt_mul_of_pos_right hframe (by decide), hfresh⟩
  isFree := fun _ hframe => hstate.isFree_eq hframe
  deallocate := fun frame after _ hcall => by
    obtain ⟨hcount, hwellFormed, hused⟩ := deallocateFrame_eq_ok hstate.wellFormed hcall
    refine ⟨hcount, fun physAddr hbound => ?_⟩
    have hindex : physAddr / pageSize < state.allocator.nFrames :=
      Nat.div_lt_of_lt_mul (by rwa [Nat.mul_comm])
    have hbit := hused (physAddr / pageSize)
    rw [isFree_of_lt hwellFormed (hcount.symm ▸ hindex), isFree_of_lt hstate.wellFormed hindex]
    simp only [Used] at hbit
    split
    · rename_i hsame
      have hclear : after.frames.bit (physAddr / pageSize) = false := by
        rw [← Bool.not_eq_true, hbit]
        exact fun hboth => hboth.1 hsame
      rw [hclear]
      rfl
    · rename_i hother
      rw [Bool.eq_iff_iff.mpr (hbit.trans (and_iff_right hother))]

/-- In every run no frame is handed out while it is taken, and the bitmap
answers for each frame on its own. -/
theorem handsOutOnce_of_run {memorySize : ℕ}
    (hrun : Relation.ReflTransGen FrameCall ⟨new memorySize, ∅⟩ state) :
    HandsOutOnce state :=
  (FrameCall.represents_run hrun (represents_new memorySize)).handsOutOnce

/-- 32 frames, the first one reserved, the second one handed out. -/
theorem handsOutOnce_of_run_twoFrames :
    ∃ after, HandsOutOnce ⟨after, insert (4096 / pageSize) (insert (0 / pageSize) ∅)⟩ :=
  ⟨_, handsOutOnce_of_run
    (.tail (.single (.markAsUsed (show (new 128).markAsUsed 0 = .ok _ from rfl)))
      (.allocateFrame (show allocateFrame true _ = .ok (4096, _) from rfl)))⟩

end GeexOS.PhysicalAllocator
