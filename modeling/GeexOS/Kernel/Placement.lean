import GeexOS.Kernel.PhysicalAllocator

/-!
# The placement allocator

Before there is a heap, memory comes from a region behind the kernel image and is never
given back.  The limit is checked before the pointer is aligned.
-/

namespace GeexOS.Placement

open GeexOS.Words
open GeexOS.Halting
open GeexOS.PhysicalAllocator (pageSize)

def kernelPlacementSize : ℕ := 0x200000

/-- `PAGEALIGN_MASK`. -/
def pagealignMask : ℕ := 0xFFFFF000

/-- The `.placement` section of the linker script.  It lies below the other regions of
the kernel. -/
structure PlacementRegion where
  placement : ℕ
  aligned : placement % pageSize = 0
  fits : placement + kernelPlacementSize < 2 ^ 32

structure PlacementAllocator where
  placementAddress : ℕ
  deriving DecidableEq, Repr

namespace PlacementAllocator

/-- The constructor. -/
def new (region : PlacementRegion) : PlacementAllocator := ⟨region.placement⟩

def getPlacementAllocatedSize (allocator : PlacementAllocator) (region : PlacementRegion) : ℕ :=
  sub32 allocator.placementAddress region.placement

/-- The placement address after the alignment step of `Allocate`. -/
def alignedAddress (allocator : PlacementAllocator) (pageAlign : Bool) : ℕ :=
  if pageAlign = true ∧ allocator.placementAddress % pageSize ≠ 0 then
    u32 ((allocator.placementAddress &&& pagealignMask) + pageSize)
  else allocator.placementAddress

def allocate (allocator : PlacementAllocator) (region : PlacementRegion) (len : ℕ)
    (pageAlign : Bool) : Outcome (ℕ × PlacementAllocator) :=
  if kernelPlacementSize < u32 (allocator.getPlacementAllocatedSize region + len) then
    .error (.panic "Placement region overflow")
  else
    let tmp := allocator.alignedAddress pageAlign
    .ok (tmp, ⟨u32 (tmp + len)⟩)

end PlacementAllocator

open PlacementAllocator

variable {region : PlacementRegion} {allocator after : PlacementAllocator}
  {pageAlign : Bool} {len : ℕ}

/-- A block that was handed out. -/
structure PlacementBlock where
  start : ℕ
  len : ℕ

def PlacementBlock.Contains (block : PlacementBlock) (address : ℕ) : Prop :=
  block.start ≤ address ∧ address < block.start + block.len

/-- What a caller expects of a block. -/
structure WellPlaced (region : PlacementRegion) (earlier : List PlacementBlock)
    (pageAlign : Bool) (block : PlacementBlock) : Prop where
  above : region.placement ≤ block.start
  below : block.start + block.len ≤ region.placement + kernelPlacementSize
  disjoint : ∀ other ∈ earlier, ∀ address, ¬ (block.Contains address ∧ other.Contains address)
  aligned : pageAlign = true → block.start % pageSize = 0

/-- Every call of the sequence that comes back returns a block as expected. -/
def RunWellPlaced (region : PlacementRegion) :
    PlacementAllocator → List PlacementBlock → List (ℕ × Bool) → Prop
  | _, _, [] => True
  | allocator, earlier, (len, pageAlign) :: calls =>
      match allocator.allocate region len pageAlign with
      | .error _ => True
      | .ok (address, after) =>
          WellPlaced region earlier pageAlign ⟨address, len⟩ ∧
            RunWellPlaced region after (⟨address, len⟩ :: earlier) calls

/-- The allocated size with the padding of an aligned call. -/
def paddedSize (region : PlacementRegion) (allocator : PlacementAllocator)
    (pageAlign : Bool) : ℕ :=
  if pageAlign = true then
    (allocator.getPlacementAllocatedSize region + (pageSize - 1)) / pageSize * pageSize
  else allocator.getPlacementAllocatedSize region

/-- The block fits behind the padding, or the check refuses it. -/
def FitsOrPanics (region : PlacementRegion) (allocator : PlacementAllocator) (len : ℕ)
    (pageAlign : Bool) : Prop :=
  paddedSize region allocator pageAlign + len ≤ kernelPlacementSize ∨
    kernelPlacementSize < u32 (allocator.getPlacementAllocatedSize region + len)

/-- Every call of the sequence fits, or is refused. -/
def RunFits (region : PlacementRegion) : PlacementAllocator → List (ℕ × Bool) → Prop
  | _, [] => True
  | allocator, (len, pageAlign) :: calls =>
      FitsOrPanics region allocator len pageAlign ∧
        match allocator.allocate region len pageAlign with
        | .error _ => True
        | .ok (_, after) => RunFits region after calls

/-! ## One call -/

/-- The pointer stays in the region, behind all blocks. -/
structure Bumped (region : PlacementRegion) (allocator : PlacementAllocator)
    (earlier : List PlacementBlock) : Prop where
  above : region.placement ≤ allocator.placementAddress
  below : allocator.placementAddress ≤ region.placement + kernelPlacementSize
  behind : ∀ other ∈ earlier, other.start + other.len ≤ allocator.placementAddress

theorem Bumped.new (region : PlacementRegion) : Bumped region (.new region) [] where
  above := le_rfl
  below := Nat.le_add_right _ _
  behind := fun _ hmem => absurd hmem List.not_mem_nil

variable {earlier : List PlacementBlock}

theorem Bumped.allocatedSize (hbumped : Bumped region allocator earlier) :
    region.placement + allocator.getPlacementAllocatedSize region =
      allocator.placementAddress := by
  have hbelow := hbumped.below.trans_lt region.fits
  rw [getPlacementAllocatedSize, sub32_of_le hbelow hbumped.above]
  exact Nat.add_sub_cancel' hbumped.above

/-- The aligned pointer is the padded size away from the start. -/
theorem Bumped.alignedAddress_eq (hbumped : Bumped region allocator earlier) (pageAlign : Bool) :
    allocator.alignedAddress pageAlign =
      region.placement + paddedSize region allocator pageAlign := by
  have hsize := hbumped.allocatedSize
  have hbelow := hbumped.below
  have hfits := region.fits
  have haligned := region.aligned
  simp only [kernelPlacementSize, pageSize] at hbelow hfits haligned
  cases pageAlign with
  | false => exact hsize.symm
  | true =>
      have hmask : allocator.placementAddress &&& pagealignMask =
          allocator.placementAddress / 2 ^ 12 * 2 ^ 12 :=
        @land_mask _ 12 32 (hbelow.trans_lt hfits) (by decide)
      simp only [alignedAddress, paddedSize, if_true, true_and, hmask, pageSize]
      split
      · rw [u32_of_lt (by omega)]
        omega
      · omega

/-- The padding alone never leaves the region: its size is a number of pages. -/
theorem Bumped.paddedSize_le (hbumped : Bumped region allocator earlier) (pageAlign : Bool) :
    allocator.getPlacementAllocatedSize region ≤ paddedSize region allocator pageAlign ∧
      paddedSize region allocator pageAlign ≤ kernelPlacementSize := by
  have hsize := hbumped.allocatedSize
  have hbelow := hbumped.below
  simp only [kernelPlacementSize] at hbelow ⊢
  simp only [paddedSize, pageSize]
  split <;> omega

theorem Bumped.aligned (hbumped : Bumped region allocator earlier) :
    allocator.alignedAddress true % pageSize = 0 := by
  have haligned := region.aligned
  rw [hbumped.alignedAddress_eq, paddedSize, if_pos rfl]
  simp only [pageSize] at haligned ⊢
  omega

/-- A returned block is as expected exactly if it fits behind the padding. -/
theorem Bumped.wellPlaced_iff (hbumped : Bumped region allocator earlier) :
    WellPlaced region earlier pageAlign ⟨allocator.alignedAddress pageAlign, len⟩ ↔
      paddedSize region allocator pageAlign + len ≤ kernelPlacementSize := by
  have hsize := hbumped.allocatedSize
  have hpadded := hbumped.paddedSize_le pageAlign
  rw [hbumped.alignedAddress_eq]
  constructor
  · intro hplaced
    have hbelow := hplaced.below
    simp only at hbelow
    omega
  · intro hfits
    refine ⟨Nat.le_add_right _ _, by simp only; omega, fun other hother address hboth => ?_,
      fun halign => ?_⟩
    · have hbehind := hbumped.behind other hother
      obtain ⟨⟨hlow, -⟩, -, hhigh⟩ := hboth
      simp only at hlow
      omega
    · subst halign
      have haligned := hbumped.aligned
      rwa [hbumped.alignedAddress_eq] at haligned

/-- A block that fits keeps the pointer in the region. -/
theorem Bumped.step (hbumped : Bumped region allocator earlier)
    (hfits : paddedSize region allocator pageAlign + len ≤ kernelPlacementSize) :
    Bumped region ⟨u32 (allocator.alignedAddress pageAlign + len)⟩
      (⟨allocator.alignedAddress pageAlign, len⟩ :: earlier) := by
  have hsize := hbumped.allocatedSize
  have hpadded := hbumped.paddedSize_le pageAlign
  have hregion := region.fits
  rw [hbumped.alignedAddress_eq, u32_of_lt (by omega)]
  refine ⟨by simp only; omega, by simp only; omega, fun other hother => ?_⟩
  rcases List.mem_cons.mp hother with rfl | hmem
  · exact le_rfl
  · have hbehind := hbumped.behind other hmem
    simp only
    omega

/-- A page-aligned pointer needs no padding. -/
theorem Bumped.paddedSize_of_aligned (hbumped : Bumped region allocator earlier)
    (haligned : pageSize ∣ allocator.placementAddress) (pageAlign : Bool) :
    region.placement + paddedSize region allocator pageAlign = allocator.placementAddress := by
  have hsize := hbumped.allocatedSize
  have hregion := region.aligned
  simp only [paddedSize, pageSize] at *
  split <;> omega

/-- Whole pages are handed out exactly if they fit behind the padding. -/
theorem Bumped.allocate_pages (hbumped : Bumped region allocator earlier) (hpages : pageSize ∣ len)
    (hlen : len ≤ kernelPlacementSize) :
    (kernelPlacementSize < paddedSize region allocator true + len ∧
      allocator.allocate region len true = .error (.panic "Placement region overflow")) ∨
      ∃ address after, allocator.allocate region len true = .ok (address, after) ∧
        pageSize ∣ address ∧ allocator.placementAddress ≤ address ∧
        after.placementAddress = address + len ∧
        paddedSize region after true = paddedSize region allocator true + len ∧
        Bumped region after (⟨address, len⟩ :: earlier) := by
  have hsize := hbumped.allocatedSize
  have hbelow := hbumped.below
  have hregion := region.fits
  have hpadded := hbumped.paddedSize_le true
  rw [allocate, u32_of_lt (by simp only [kernelPlacementSize] at *; omega)]
  split
  · rename_i hrefused
    exact Or.inl ⟨by omega, rfl⟩
  · rename_i hpasses
    have hfits : paddedSize region allocator true + len ≤ kernelPlacementSize := by
      simp only [paddedSize, if_true]
      simp only [pageSize, kernelPlacementSize] at *
      omega
    have hstep := hbumped.step hfits
    have haddress := hbumped.alignedAddress_eq true
    have haligned : pageSize ∣ allocator.alignedAddress true :=
      Nat.dvd_of_mod_eq_zero hbumped.aligned
    have hpointer : u32 (allocator.alignedAddress true + len) =
        allocator.alignedAddress true + len := u32_of_lt (by omega)
    refine Or.inr ⟨_, _, rfl, haligned, by omega, hpointer, ?_, hstep⟩
    have hafter := hstep.paddedSize_of_aligned
      (by simp only [hpointer]; exact Nat.dvd_add haligned hpages) true
    simp only [hpointer] at hafter ⊢
    omega

/-! ## Runs -/

theorem Bumped.run_iff (hbumped : Bumped region allocator earlier) (calls : List (ℕ × Bool)) :
    RunWellPlaced region allocator earlier calls ↔ RunFits region allocator calls := by
  induction calls generalizing allocator earlier with
  | nil => exact Iff.rfl
  | cons call calls ih =>
      obtain ⟨len, pageAlign⟩ := call
      by_cases hpanic :
          kernelPlacementSize < u32 (allocator.getPlacementAllocatedSize region + len)
      · have hcall : allocator.allocate region len pageAlign =
            .error (.panic "Placement region overflow") := if_pos hpanic
        simp only [RunWellPlaced, RunFits, hcall]
        exact iff_of_true trivial ⟨Or.inr hpanic, trivial⟩
      · have hcall : allocator.allocate region len pageAlign =
            .ok (allocator.alignedAddress pageAlign,
              ⟨u32 (allocator.alignedAddress pageAlign + len)⟩) := if_neg hpanic
        simp only [RunWellPlaced, RunFits, hcall, hbumped.wellPlaced_iff, FitsOrPanics,
          or_iff_left hpanic]
        exact and_congr_right fun hfits => ih (hbumped.step hfits)

/-- A sequence of calls stays in the region exactly if every block fits behind its
padding or is refused. -/
theorem runWellPlaced_iff (region : PlacementRegion) (calls : List (ℕ × Bool)) :
    RunWellPlaced region (.new region) [] calls ↔ RunFits region (.new region) calls :=
  (Bumped.new region).run_iff calls

/-- `KERNEL_PLACEMENT_START`. -/
def kernelPlacement : PlacementRegion := ⟨0xC0200000, by decide, by decide⟩

/-- One byte is taken, then 4 GiB less one byte: their sum is zero. -/
theorem hugeBlock_not_wellPlaced :
    ¬ ∀ (region : PlacementRegion) (calls : List (ℕ × Bool)),
      (∀ call ∈ calls, call.1 < 2 ^ 32) → RunWellPlaced region (.new region) [] calls := by
  intro hall
  have hplaced := hall kernelPlacement [(1, false), (0xFFFFFFFF, false)] (by decide)
  rw [(Bumped.new kernelPlacement).run_iff] at hplaced
  obtain ⟨-, hfits, -⟩ := hplaced
  rcases hfits with hfits | hpanic
  · exact absurd hfits (by decide)
  · exact absurd hpanic (by decide)

end GeexOS.Placement
