import GeexOS.Kernel.BuddyRegion
import GeexOS.Library.DyadicTiling
import GeexOS.Library.Linked
import Mathlib.Data.List.Nodup
import Mathlib.Tactic.IntervalCases

/-!
# The partition invariant of a buddy region

Free and allocated blocks tile the region.  The bit of a block's first page
separates the two kinds; bits of pages inside a block may be stale.  A block in
the hands of an operation is in no list, and nothing is said about its bit.
-/

namespace GeexOS.Buddy

open GeexOS.Words
open GeexOS.Halting
open GeexOS.DataStructures
open GeexOS.Linked
open GeexOS.Dyadic

/-! ## Lists of blocks -/

/-- Adding a block to one of several lists adds it to their concatenation. -/
theorem flatMap_perm_cons {α β : Type*} {indices : List α} {lists lists' : α → List β}
    {index : α} {value : β} (hnodup : indices.Nodup) (hmem : index ∈ indices)
    (hperm : (lists' index).Perm (value :: lists index))
    (hother : ∀ other, other ≠ index → lists' other = lists other) :
    (indices.flatMap lists').Perm (value :: indices.flatMap lists) := by
  induction indices with
  | nil => simp at hmem
  | cons first rest ih =>
      rw [List.nodup_cons] at hnodup
      rw [List.flatMap_cons, List.flatMap_cons]
      by_cases heq : first = index
      · subst heq
        have hrest : rest.flatMap lists' = rest.flatMap lists := by
          refine List.flatMap_congr fun other hother' => hother other ?_
          exact fun hsame => hnodup.1 (hsame ▸ hother')
        rw [hrest]
        exact hperm.append_right _
      · have htail : index ∈ rest := (List.mem_cons.mp hmem).resolve_left (Ne.symm heq)
        rw [hother first heq]
        exact ((ih hnodup.2 htail).append_left _).trans List.perm_middle

namespace BuddyAllocatedMemoryRegion

def nextElement (region : BuddyAllocatedMemoryRegion) (element : ℕ) : ℕ :=
  (region.elements element).next

/-- The block of the given order at an address, relative to the region. -/
def blockAt (region : BuddyAllocatedMemoryRegion) (address order : ℕ) : Block :=
  ⟨address - region.startAddress, order⟩

/-- The blocks on the free lists, whose addresses are `cells order`. -/
def freeBlocks (region : BuddyAllocatedMemoryRegion) (cells : ℕ → List ℕ) :
    List Block :=
  (List.range (region.maxOrder + 1)).flatMap fun order =>
    (cells order).map fun address => region.blockAt address order

/-- The bit of a block's first page. -/
def blockBit (region : BuddyAllocatedMemoryRegion) (block : Block) : Bool :=
  region.elementsAllocated.bit (block.start / pageSize)

end BuddyAllocatedMemoryRegion

open BuddyAllocatedMemoryRegion

/-- What the constructor fixes. -/
structure Placed (region : BuddyAllocatedMemoryRegion) : Prop where
  start_pos : 0 < region.startAddress
  start_aligned : pageSize ∣ region.startAddress
  size_eq : region.size = 2 ^ region.maxOrder
  minOrder_eq : region.minOrder = pageShift
  minOrder_le : pageShift ≤ region.maxOrder
  maxOrder_lt : region.maxOrder < 32
  end_lt : region.startAddress + 2 ^ region.maxOrder < 2 ^ 32
  bits_le : 2 ^ (region.maxOrder - pageShift) ≤ region.elementsAllocated.numElements

/-- The two regions are one region at two times. -/
structure SamePlace (region region' : BuddyAllocatedMemoryRegion) : Prop where
  startAddress_eq : region'.startAddress = region.startAddress
  size_eq : region'.size = region.size
  maxOrder_eq : region'.maxOrder = region.maxOrder
  minOrder_eq : region'.minOrder = region.minOrder
  numElements_eq :
    region'.elementsAllocated.numElements = region.elementsAllocated.numElements

variable {region region' region'' : BuddyAllocatedMemoryRegion}
variable {cells cells' : ℕ → List ℕ} {live live' held held' : List Block}
variable {block other : Block}
variable {address order i j : ℕ}

theorem SamePlace.refl (region : BuddyAllocatedMemoryRegion) :
    SamePlace region region := ⟨rfl, rfl, rfl, rfl, rfl⟩

theorem SamePlace.trans (hfirst : SamePlace region region')
    (hsecond : SamePlace region' region'') : SamePlace region region'' :=
  ⟨hsecond.startAddress_eq.trans hfirst.startAddress_eq,
    hsecond.size_eq.trans hfirst.size_eq,
    hsecond.maxOrder_eq.trans hfirst.maxOrder_eq,
    hsecond.minOrder_eq.trans hfirst.minOrder_eq,
    hsecond.numElements_eq.trans hfirst.numElements_eq⟩

theorem Placed.congr (hplaced : Placed region) (hsame : SamePlace region region') :
    Placed region' := by
  obtain ⟨hstart, hsize, hmax, hmin, hbits⟩ := hsame
  constructor
  · exact hstart ▸ hplaced.start_pos
  · exact hstart ▸ hplaced.start_aligned
  · rw [hsize, hmax, hplaced.size_eq]
  · exact hmin.trans hplaced.minOrder_eq
  · exact hmax ▸ hplaced.minOrder_le
  · exact hmax ▸ hplaced.maxOrder_lt
  · exact hstart ▸ hmax ▸ hplaced.end_lt
  · exact hbits ▸ hmax ▸ hplaced.bits_le

theorem SamePlace.freeBlocks_eq (hsame : SamePlace region region')
    (cells : ℕ → List ℕ) : region'.freeBlocks cells = region.freeBlocks cells := by
  simp only [freeBlocks, blockAt, hsame.startAddress_eq, hsame.maxOrder_eq]

theorem mem_freeBlocks :
    block ∈ region.freeBlocks cells ↔
      ∃ order ≤ region.maxOrder, ∃ address ∈ cells order,
        region.blockAt address order = block := by
  simp only [freeBlocks, List.mem_flatMap, List.mem_map, List.mem_range, Nat.lt_succ_iff]

theorem mem_blocks_of_free (hi : i ≤ region.maxOrder) (hmem : address ∈ cells i) :
    region.blockAt address i ∈ held ++ (region.freeBlocks cells ++ live) :=
  List.mem_append_right _ (List.mem_append_left _
    (mem_freeBlocks.mpr ⟨i, hi, address, hmem, rfl⟩))

/-- Putting one more address on a free list adds its block. -/
theorem freeBlocks_perm_cons (hi : i ≤ region.maxOrder)
    (hperm : (cells' i).Perm (address :: cells i))
    (hother : ∀ other, other ≠ i → cells' other = cells other) :
    (region.freeBlocks cells').Perm
      (region.blockAt address i :: region.freeBlocks cells) := by
  refine flatMap_perm_cons List.nodup_range (List.mem_range.mpr (Nat.lt_succ_of_le hi)) ?_ ?_
  · exact (hperm.map fun address => region.blockAt address i)
  · intro other hne
    rw [hother other hne]

/-! ## The invariant -/

/-- `cells` are the addresses on the free lists; the free, the live and the
held blocks tile the region. -/
structure Partition (region : BuddyAllocatedMemoryRegion) (cells : ℕ → List ℕ)
    (live held : List Block) : Prop where
  placed : Placed region
  chain : ∀ order ≤ region.maxOrder,
    Chain region.nextElement 0 (region.freeElements order) (cells order)
  element_order : ∀ order ≤ region.maxOrder, ∀ address ∈ cells order,
    (region.elements address).order = order
  start_le : ∀ order ≤ region.maxOrder, ∀ address ∈ cells order,
    region.startAddress ≤ address
  tiling : Tiling region.maxOrder (held ++ (region.freeBlocks cells ++ live))
  order_ge : ∀ block ∈ held ++ (region.freeBlocks cells ++ live),
    pageShift ≤ block.order
  free_bit : ∀ block ∈ region.freeBlocks cells, region.blockBit block = false
  live_bit : ∀ block ∈ live, region.blockBit block = true

namespace Partition

/-- Blocks of at least a page are told apart by their first pages. -/
theorem eq_of_page (hpartition : Partition region cells live held)
    (hblock : block ∈ held ++ (region.freeBlocks cells ++ live))
    (hother : other ∈ held ++ (region.freeBlocks cells ++ live))
    (hpage : block.start / pageSize = other.start / pageSize) : block = other := by
  apply hpartition.tiling.eq_of_start hblock hother
  have hfirst : pageSize ∣ block.start :=
    (pow_dvd_pow 2 (hpartition.order_ge block hblock)).trans
      (hpartition.tiling.aligned block hblock)
  have hsecond : pageSize ∣ other.start :=
    (pow_dvd_pow 2 (hpartition.order_ge other hother)).trans
      (hpartition.tiling.aligned other hother)
  rw [← Nat.div_mul_cancel hfirst, ← Nat.div_mul_cancel hsecond, hpage]

/-- The first page of a block has a bit. -/
theorem page_lt (hpartition : Partition region cells live held)
    (hblock : block ∈ held ++ (region.freeBlocks cells ++ live)) :
    block.start / pageSize < region.elementsAllocated.numElements := by
  have hstart := hpartition.tiling.start_lt hblock
  have hpow : 2 ^ region.maxOrder = 2 ^ (region.maxOrder - pageShift) * pageSize := by
    rw [show pageSize = 2 ^ pageShift from rfl, ← pow_add,
      Nat.sub_add_cancel hpartition.placed.minOrder_le]
  rw [hpow] at hstart
  exact (Nat.div_lt_of_lt_mul (by rwa [Nat.mul_comm])).trans_le
    hpartition.placed.bits_le

/-- The address of a block lies in the address space, and so does its end. -/
theorem address_lt (hpartition : Partition region cells live held)
    (hblock : block ∈ held ++ (region.freeBlocks cells ++ live)) :
    region.startAddress + block.start + 2 ^ block.order < 2 ^ 32 := by
  have hinside := hpartition.tiling.inside block hblock
  have hend := hpartition.placed.end_lt
  omega

/-- The bit index the code computes for an address is the block's page. -/
theorem getBitmapIndex_eq (hpartition : Partition region cells live held)
    (hstart : region.startAddress ≤ address)
    (hblock : region.blockAt address order ∈
      held ++ (region.freeBlocks cells ++ live)) :
    region.getBitmapIndex address =
      (region.blockAt address order).start / pageSize := by
  have hlt := hpartition.address_lt hblock
  simp only [blockAt] at hlt
  have hpos := Nat.two_pow_pos order
  rw [getBitmapIndex, sub32_of_le (by omega) hstart]
  rfl

theorem isElementFree_eq (hpartition : Partition region cells live held)
    (hstart : region.startAddress ≤ address)
    (hblock : region.blockAt address order ∈
      held ++ (region.freeBlocks cells ++ live)) :
    region.isElementFree address =
      .ok (!region.blockBit (region.blockAt address order)) := by
  rw [isElementFree, hpartition.getBitmapIndex_eq hstart hblock,
    Bitfield.isBitSet_of_lt (hpartition.page_lt hblock), ok_bind]
  rfl

/-- Addresses of the free lists determine their list. -/
theorem order_unique (hpartition : Partition region cells live held)
    (hi : i ≤ region.maxOrder) (hj : j ≤ region.maxOrder)
    (hleft : address ∈ cells i) (hright : address ∈ cells j) : i = j := by
  have heq := hpartition.tiling.eq_of_start (mem_blocks_of_free hi hleft)
    (mem_blocks_of_free hj hright) rfl
  exact congrArg Block.order heq

/-- A held block starts at no address of a free list. -/
theorem held_notMem (hpartition : Partition region cells live (block :: held))
    (hi : i ≤ region.maxOrder) (hmem : address ∈ cells i) :
    region.startAddress + block.start ≠ address := by
  intro heq
  have hapart := (List.pairwise_cons.mp hpartition.tiling.disjoint).1
    (region.blockAt address i) (mem_blocks_of_free hi hmem)
  have hstart : (region.blockAt address i).start = block.start := by
    simp only [blockAt]
    omega
  exact Set.disjoint_left.mp hapart block.start_mem_range
    (hstart ▸ (region.blockAt address i).start_mem_range)

/-! ## Changes that leave the partition alone -/

theorem perm_held (hpartition : Partition region cells live held)
    (hperm : held.Perm held') : Partition region cells live held' :=
  { hpartition with
    tiling := hpartition.tiling.perm (hperm.append_right _)
    order_ge := fun block hmem =>
      hpartition.order_ge block ((hperm.append_right _).mem_iff.mpr hmem) }

/-- Memory outside the free blocks may change. -/
theorem elements_congr (hpartition : Partition region cells live held)
    {elements' : ℕ → BuddyElement}
    (hsame : ∀ order ≤ region.maxOrder, ∀ address ∈ cells order,
      elements' address = region.elements address) :
    Partition { region with elements := elements' } cells live held :=
  { hpartition with
    placed := hpartition.placed.congr ⟨rfl, rfl, rfl, rfl, rfl⟩
    chain := fun order horder => (hpartition.chain order horder).congr
      fun address hmem => by
        simp only [nextElement, hsame order horder address hmem]
    element_order := fun order horder address hmem => by
      simp only [hsame order horder address hmem]
      exact hpartition.element_order order horder address hmem }

/-- The bit of a held block may change. -/
theorem bits_congr (hpartition : Partition region cells live (block :: held))
    {bits : Bitfield} {value : Bool}
    (hupdate : BitUpdate region.elementsAllocated bits (block.start / pageSize) value) :
    Partition { region with elementsAllocated := bits } cells live (block :: held) := by
  have hbit : ∀ other ∈ held ++ (region.freeBlocks cells ++ live),
      bits.bit (other.start / pageSize) = region.blockBit other := by
    intro other hmem
    rw [hupdate.bit_eq, if_neg]
    · rfl
    · intro hpage
      have heq := hpartition.eq_of_page (List.mem_cons_of_mem _ hmem)
        List.mem_cons_self hpage
      have hnodup := hpartition.tiling.nodup
      exact (List.nodup_cons.mp hnodup).1 (heq ▸ hmem)
  exact
    { hpartition with
      placed := hpartition.placed.congr ⟨rfl, rfl, rfl, rfl, hupdate.numElements_eq⟩
      free_bit := fun other hmem =>
        (hbit other (List.mem_append_right _ (List.mem_append_left _ hmem))).trans
          (hpartition.free_bit other hmem)
      live_bit := fun other hmem =>
        (hbit other (List.mem_append_right _ (List.mem_append_right _ hmem))).trans
          (hpartition.live_bit other hmem) }

/-! ## Blocks changing hands -/

/-- A held block whose bit is set becomes live. -/
theorem adopt (hpartition : Partition region cells live (block :: held))
    (hbit : region.blockBit block = true) :
    Partition region cells (block :: live) held := by
  have hperm : (block :: held ++ (region.freeBlocks cells ++ live)).Perm
      (held ++ (region.freeBlocks cells ++ block :: live)) := by
    have hmiddle : (region.freeBlocks cells ++ block :: live).Perm
        (block :: (region.freeBlocks cells ++ live)) := List.perm_middle
    exact (List.perm_middle.symm).trans (hmiddle.symm.append_left held)
  exact
    { hpartition with
      tiling := hpartition.tiling.perm hperm
      order_ge := fun other hmem =>
        hpartition.order_ge other (hperm.mem_iff.mpr hmem)
      live_bit := fun other hmem => by
        rcases List.mem_cons.mp hmem with rfl | hmem
        · exact hbit
        · exact hpartition.live_bit other hmem }

/-- A live block is taken back. -/
theorem release (hpartition : Partition region cells live held)
    (hlive : live.Perm (block :: live')) :
    Partition region cells live' (block :: held) := by
  have hperm : (held ++ (region.freeBlocks cells ++ live)).Perm
      (block :: held ++ (region.freeBlocks cells ++ live')) := by
    have hmiddle : (region.freeBlocks cells ++ live).Perm
        (block :: (region.freeBlocks cells ++ live')) :=
      (hlive.append_left _).trans List.perm_middle
    exact (hmiddle.append_left held).trans List.perm_middle
  exact
    { hpartition with
      tiling := hpartition.tiling.perm hperm
      order_ge := fun other hmem =>
        hpartition.order_ge other (hperm.mem_iff.mpr hmem)
      live_bit := fun other hmem =>
        hpartition.live_bit other (hlive.mem_iff.mpr (List.mem_cons_of_mem _ hmem)) }

/-- Cutting a held block of more than a page into its halves. -/
theorem split {start : ℕ}
    (hpartition : Partition region cells live (⟨start, order + 1⟩ :: held))
    (horder : pageShift ≤ order) :
    Partition region cells live (⟨start, order⟩ :: ⟨start + 2 ^ order, order⟩ :: held) :=
  { hpartition with
    tiling := hpartition.tiling.split
    order_ge := fun block hmem => by
      rcases List.mem_cons.mp hmem with rfl | hmem
      · exact horder
      rcases List.mem_cons.mp hmem with rfl | hmem
      · exact horder
      · exact hpartition.order_ge block (List.mem_cons_of_mem _ hmem) }

/-- Joining a held block with its held buddy. -/
theorem join_buddy {start : ℕ}
    (hpartition : Partition region cells live
      (⟨start, order⟩ :: ⟨buddy start order, order⟩ :: held)) :
    Partition region cells live (⟨min start (buddy start order), order + 1⟩ :: held) :=
  { hpartition with
    tiling := hpartition.tiling.join_buddy
      (hpartition.tiling.aligned _ List.mem_cons_self)
    order_ge := fun block hmem => by
      rcases List.mem_cons.mp hmem with rfl | hmem
      · exact (hpartition.order_ge _ List.mem_cons_self).trans (Nat.le_succ order)
      · exact hpartition.order_ge block
          (List.mem_cons_of_mem _ (List.mem_cons_of_mem _ hmem)) }

end Partition

end GeexOS.Buddy
