import GeexOS.Kernel.BuddyRuns

/-!
# The bitmap of a region with larger blocks

The constructor makes room for a bit for every block of the minimum order; the bits
that are used are those of the pages that blocks start with.
-/

namespace GeexOS.Buddy

open GeexOS.Words
open GeexOS.Halting
open GeexOS.DataStructures
open GeexOS.Dyadic
open BuddyAllocatedMemoryRegion

variable {elements : ℕ → BuddyElement} {region : BuddyAllocatedMemoryRegion} {block other : Block}
variable {start exponent minimumOrder : ℕ}

/-- A block that a region can be cut into. -/
structure InRegion (region : BuddyAllocatedMemoryRegion) (block : Block) : Prop where
  minOrder_le : region.minOrder ≤ block.order
  aligned : 2 ^ block.order ∣ block.start
  inside : block.start + 2 ^ block.order ≤ 2 ^ region.maxOrder

/-- The index of the bit for a block. -/
def blockIndex (region : BuddyAllocatedMemoryRegion) (block : Block) : ℕ :=
  region.getBitmapIndex (region.startAddress + block.start)

/-- The bitmap has a bit for every block, and blocks that share no position do not share
their bits. -/
structure BitmapCovers (region : BuddyAllocatedMemoryRegion) : Prop where
  index_lt : ∀ block, InRegion region block →
    blockIndex region block < region.elementsAllocated.numElements
  index_ne : ∀ block other, InRegion region block → InRegion region other →
    Block.Apart block other → blockIndex region block ≠ blockIndex region other

/-! ## Construction -/

/-- What the constructor makes of its arguments. -/
structure Configured (region : BuddyAllocatedMemoryRegion)
    (start exponent minimumOrder : ℕ) : Prop where
  startAddress_eq : region.startAddress = start
  size_eq : region.size = 2 ^ exponent
  maxOrder_eq : region.maxOrder = exponent
  minOrder_eq : region.minOrder = minimumOrder
  freeElements_eq : region.freeElements = Function.update (fun _ => 0) exponent start
  elementsAllocated_eq :
    region.elementsAllocated = Bitfield.new (numBlocks exponent minimumOrder)
  element_eq : region.elements start = ⟨exponent, 0⟩
  start_aligned : pageSize ∣ start
  end_lt : start + 2 ^ exponent < 2 ^ 32

theorem new_configured (hstart : start < 2 ^ 32) (hexponent : exponent < 32)
    (hnew : new elements start (2 ^ exponent) minimumOrder = .ok region) :
    Configured region start exponent minimumOrder := by
  have hsize : 2 ^ exponent < 2 ^ 32 := Nat.pow_lt_pow_right (by norm_num) hexponent
  unfold new at hnew
  split at hnew
  · simp at hnew
  split at hnew
  · simp at hnew
  split at hnew
  · simp at hnew
  rename_i haligned _ _
  obtain ⟨pages, hmap, hnew⟩ := bind_eq_ok.mp hnew
  split at hnew
  · simp at hnew
  rename_i hmem
  have hend := end_lt_of_mapFreshPages hstart hsize hmap (not_not.mp hmem)
  rw [maxOrderLoop_pow hexponent.le, Nat.zero_add] at hnew
  obtain rfl := Except.ok.inj hnew
  exact ⟨rfl, rfl, rfl, rfl, rfl, rfl, Function.update_self _ _ _,
    Nat.dvd_of_mod_eq_zero (not_not.mp haligned), hend⟩

/-- The number of blocks, while `1 << maxOrder` is positive. -/
theorem numBlocks_eq : ∀ maxOrder < 31, ∀ minOrder ≤ maxOrder,
    numBlocks maxOrder minOrder = 2 ^ (maxOrder - minOrder) := by
  decide +kernel

/-- `1 << 31` is negative, and the quotient becomes a large number. -/
theorem le_numBlocks_top : ∀ minOrder < 31, 2 ^ 19 ≤ numBlocks 31 minOrder := by
  decide +kernel

theorem numBlocks_self : ∀ order < 32, numBlocks order order = 1 := by
  decide +kernel

/-! ## Indices -/

theorem blockIndex_of_lt (haddress : region.startAddress + block.start < 2 ^ 32) :
    blockIndex region block = block.start / pageSize := by
  rw [blockIndex, getBitmapIndex, sub32_of_le haddress (Nat.le_add_right _ _),
    Nat.add_sub_cancel_left]
  rfl

theorem Configured.blockIndex_eq (hconfigured : Configured region start exponent minimumOrder)
    (hinside : block.start < 2 ^ exponent) : blockIndex region block = block.start / pageSize := by
  have hend := hconfigured.end_lt
  apply blockIndex_of_lt
  rw [hconfigured.startAddress_eq]
  omega

namespace InRegion

variable (hblock : InRegion region block)

include hblock

theorem start_lt : block.start < 2 ^ region.maxOrder :=
  Nat.lt_of_lt_of_le (Nat.lt_add_of_pos_right (Nat.two_pow_pos _)) hblock.inside

/-- Blocks start at multiples of the smallest size. -/
theorem minOrder_dvd : 2 ^ region.minOrder ∣ block.start :=
  (pow_dvd_pow 2 hblock.minOrder_le).trans hblock.aligned

/-- The last place for a start. -/
theorem start_le : block.start + 2 ^ region.minOrder ≤ 2 ^ region.maxOrder :=
  Nat.le_trans (Nat.add_le_add_left (Nat.pow_le_pow_right two_pos hblock.minOrder_le) _)
    hblock.inside

end InRegion

theorem Configured.index_ne (hconfigured : Configured region start exponent minimumOrder)
    (hminimum : pageShift ≤ minimumOrder) (hblock : InRegion region block)
    (hother : InRegion region other) (hapart : Block.Apart block other) :
    blockIndex region block ≠ blockIndex region other := by
  have hpage : ∀ {block}, InRegion region block → pageSize ∣ block.start := by
    intro block hblock
    have hsmallest : 2 ^ pageShift ∣ 2 ^ region.minOrder := by
      rw [hconfigured.minOrder_eq]
      exact pow_dvd_pow 2 hminimum
    exact hsmallest.trans hblock.minOrder_dvd
  have hlt : ∀ {block}, InRegion region block → block.start < 2 ^ exponent := by
    intro block hblock
    have hstart := hblock.start_lt
    rwa [hconfigured.maxOrder_eq] at hstart
  rw [hconfigured.blockIndex_eq (hlt hblock), hconfigured.blockIndex_eq (hlt hother)]
  intro hindex
  have hstart : block.start = other.start := by
    rw [← Nat.div_mul_cancel (hpage hblock), hindex, Nat.div_mul_cancel (hpage hother)]
  exact Set.disjoint_left.mp hapart block.start_mem_range
    (hstart ▸ other.start_mem_range)

/-- The blocks of a region have bits in every bitmap with a bit for each page. -/
theorem Configured.index_lt_of_pages (hconfigured : Configured region start exponent minimumOrder)
    (hblock : InRegion region block) (hlow : pageShift ≤ exponent)
    (hbits : 2 ^ (exponent - pageShift) ≤ region.elementsAllocated.numElements) :
    blockIndex region block < region.elementsAllocated.numElements := by
  have hstart := hblock.start_lt
  have hpages : 2 ^ exponent = 2 ^ (exponent - pageShift) * pageSize := by
    rw [show pageSize = 2 ^ pageShift from rfl, ← pow_add, Nat.sub_add_cancel hlow]
  rw [hconfigured.maxOrder_eq] at hstart
  rw [hconfigured.blockIndex_eq hstart]
  rw [hpages] at hstart
  exact Nat.lt_of_lt_of_le (Nat.div_lt_of_lt_mul (by rwa [Nat.mul_comm])) hbits

/-- The bitmap has a bit for each page where the smallest block is a page, and where the
number of blocks came out negative. -/
theorem pages_le_numBlocks (hminimum : pageShift ≤ minimumOrder) (hle : minimumOrder ≤ exponent)
    (hexponent : exponent < 32)
    (hfits : minimumOrder = pageShift ∨ (exponent = 31 ∧ minimumOrder < 31)) :
    2 ^ (exponent - pageShift) ≤ numBlocks exponent minimumOrder := by
  rcases hfits with rfl | ⟨rfl, htop⟩
  · exact le_numBlocks hle hexponent
  · exact le_numBlocks_top minimumOrder htop

/-- The upper half of a region with blocks of more than a page has no bit. -/
theorem Configured.upper_half (hconfigured : Configured region start exponent minimumOrder)
    (hminimum : pageShift < minimumOrder) (hlt : minimumOrder < exponent)
    (hexponent : exponent < 31) :
    InRegion region ⟨2 ^ (exponent - 1), exponent - 1⟩ ∧
      region.elementsAllocated.numElements ≤
        blockIndex region ⟨2 ^ (exponent - 1), exponent - 1⟩ := by
  have hhalves : 2 ^ exponent = 2 ^ (exponent - 1) + 2 ^ (exponent - 1) := by
    rw [← Nat.two_mul, ← pow_succ', Nat.sub_add_cancel (by omega)]
  have hpos := Nat.two_pow_pos (exponent - 1)
  constructor
  · refine ⟨?_, dvd_rfl, ?_⟩
    · rw [hconfigured.minOrder_eq]
      exact Nat.le_sub_one_of_lt hlt
    · rw [hconfigured.maxOrder_eq, hhalves]
  · have hpages : 2 ^ (exponent - 1) / 2 ^ pageShift = 2 ^ (exponent - 1 - pageShift) :=
      Nat.pow_div (by omega) two_pos
    rw [hconfigured.blockIndex_eq (by simp only [hhalves]; omega), hconfigured.elementsAllocated_eq]
    simp only [Bitfield.new]
    rw [numBlocks_eq exponent hexponent minimumOrder hlt.le,
      show pageSize = 2 ^ pageShift from rfl, hpages]
    exact Nat.pow_le_pow_right two_pos (by omega)

/-- With one block there is one start. -/
theorem Configured.index_lt_of_single (hconfigured : Configured region start exponent exponent)
    (hexponent : exponent < 32) (hblock : InRegion region block) :
    blockIndex region block < region.elementsAllocated.numElements := by
  have hstart := hblock.start_le
  rw [hconfigured.minOrder_eq, hconfigured.maxOrder_eq] at hstart
  have hzero : block.start = 0 := by omega
  have hpos := Nat.two_pow_pos exponent
  rw [hconfigured.blockIndex_eq (by omega), hzero, Nat.zero_div, hconfigured.elementsAllocated_eq]
  simp only [Bitfield.new]
  rw [numBlocks_self exponent hexponent]
  exact one_pos

/-- The configurations whose bitmap is large enough. -/
theorem Configured.bitmapCovers_iff (hconfigured : Configured region start exponent minimumOrder)
    (hminimum : pageShift ≤ minimumOrder) (hle : minimumOrder ≤ exponent)
    (hexponent : exponent < 32) :
    BitmapCovers region ↔
      minimumOrder = pageShift ∨ minimumOrder = exponent ∨ exponent = 31 := by
  constructor
  · intro hcovers
    by_contra hnone
    obtain ⟨hblock, hindex⟩ :=
      hconfigured.upper_half (by omega) (by omega) (by omega)
    exact absurd (hcovers.index_lt _ hblock) (not_lt.mpr hindex)
  · intro hfits
    refine ⟨fun block hblock => ?_, fun block other hblock hother hapart =>
      hconfigured.index_ne hminimum hblock hother hapart⟩
    by_cases hsingle : minimumOrder = exponent
    · subst hsingle
      exact hconfigured.index_lt_of_single hexponent hblock
    · refine hconfigured.index_lt_of_pages hblock (by omega) ?_
      rw [hconfigured.elementsAllocated_eq]
      exact pages_le_numBlocks hminimum hle hexponent (by omega)

end GeexOS.Buddy
