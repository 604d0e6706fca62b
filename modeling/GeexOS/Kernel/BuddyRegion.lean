import GeexOS.Kernel.Bitfield
import GeexOS.Library.Words

/-!
# The buddy allocated memory region

A free block stores its order and the next free block of that order in its own
first bytes.  One bit per page says whether a block that starts there is
allocated.  Pages of the region are mapped on first access, so the elements can
be read and written wherever a block starts.
-/

namespace GeexOS.Buddy

open GeexOS.Words
open GeexOS.Halting
open GeexOS.DataStructures

def pageSize : ℕ := 4096
def pageShift : ℕ := 12

structure BuddyElement where
  order : ℕ
  next : ℕ
  deriving DecidableEq, Repr

/-- The region object, with the elements that lie in the region's memory. -/
structure BuddyAllocatedMemoryRegion where
  startAddress : ℕ
  size : ℕ
  maxOrder : ℕ
  minOrder : ℕ
  freeElements : ℕ → ℕ
  elementsAllocated : Bitfield
  elements : ℕ → BuddyElement

def isPowerOf2 (n : ℕ) : Bool := n &&& sub32 n 1 = 0

/-! ## Construction -/

/-- The pages `MapFreshPages` maps. -/
def mapFreshPages (startAddress size start length : ℕ) : Outcome (List ℕ) :=
  if start % pageSize ≠ 0 ∨ length % pageSize ≠ 0 then
    .error (.assertion ("Start address and length of region to be equipped with " ++
      "fresh pages must be page aligned"))
  else if start < startAddress ∨ u32 (startAddress + size) < u32 (start + length) then
    .error (.panic "Arguments out of bounds")
  else
    .ok ((List.range ((u32 (start + length) - start) / pageSize)).map
      fun page => start + page * pageSize)

/-- `while(RegionSize > 1)`; a 32-bit size is used up after 32 shifts. -/
def maxOrderLoop : (fuel regionSize maxOrder : ℕ) → ℕ
  | 0, _, maxOrder => maxOrder
  | fuel + 1, regionSize, maxOrder =>
      if regionSize > 1 then maxOrderLoop fuel (regionSize / 2) (maxOrder + 1)
      else maxOrder

/-- `(1 << maxOrder) / (1 << minOrder)` on signed 32-bit integers. -/
def numBlocks (maxOrder minOrder : ℕ) : ℕ :=
  ((1#32 <<< maxOrder).sdiv (1#32 <<< minOrder)).toNat

/-- The constructor.  `elements` is what the region's memory holds before.  The allocation of
the bitmap and of the array of lists is left out; it panics for a region of `2^31` bytes,
whose number of blocks is a negative quotient. -/
def new (elements : ℕ → BuddyElement) (regionStart regionSize minimumOrder : ℕ) :
    Outcome BuddyAllocatedMemoryRegion :=
  if regionStart % pageSize ≠ 0 then
    .error (.assertion "Start address needs to be page aligned.")
  else if regionSize % pageSize ≠ 0 then
    .error (.assertion "Size of a region must be a multiple of the page size.")
  else if !isPowerOf2 regionSize then
    .error (.assertion "RegionSize must be power of 2")
  else do
    let maxOrder := maxOrderLoop 32 regionSize 0
    let pages ← mapFreshPages regionStart regionSize regionStart pageSize
    -- without its page the first element faults, and the handler maps as little
    if regionStart ∉ pages then .error .fault
    else
      .ok
        { startAddress := regionStart
          size := regionSize
          maxOrder := maxOrder
          minOrder := minimumOrder
          freeElements := Function.update (fun _ => 0) maxOrder regionStart
          elementsAllocated := Bitfield.new (numBlocks maxOrder minimumOrder)
          elements := Function.update elements regionStart ⟨maxOrder, 0⟩ }

namespace BuddyAllocatedMemoryRegion

/-! ## The bitmap -/

def getBitmapIndex (region : BuddyAllocatedMemoryRegion) (buddyStart : ℕ) : ℕ :=
  sub32 buddyStart region.startAddress / 2 ^ pageShift

def markElementFree (region : BuddyAllocatedMemoryRegion) (buddyStart : ℕ) :
    Outcome BuddyAllocatedMemoryRegion := do
  let bits ← region.elementsAllocated.clearBit (region.getBitmapIndex buddyStart)
  .ok { region with elementsAllocated := bits }

def markElementAllocated (region : BuddyAllocatedMemoryRegion) (buddyStart : ℕ) :
    Outcome BuddyAllocatedMemoryRegion := do
  let bits ← region.elementsAllocated.setBit (region.getBitmapIndex buddyStart)
  .ok { region with elementsAllocated := bits }

def isElementFree (region : BuddyAllocatedMemoryRegion) (buddyStart : ℕ) :
    Outcome Bool := do
  let isSet ← region.elementsAllocated.isBitSet (region.getBitmapIndex buddyStart)
  .ok !isSet

/-! ## Allocation -/

/-- `element->order = order; element->next = freeElements[order];
freeElements[order] = element`. -/
def pushElement (region : BuddyAllocatedMemoryRegion) (order element : ℕ) :
    BuddyAllocatedMemoryRegion :=
  { region with
    elements :=
      Function.update region.elements element ⟨order, region.freeElements order⟩
    freeElements := Function.update region.freeElements order element }

/-- `freeElements[i] = ret->next`. -/
def popElement (region : BuddyAllocatedMemoryRegion) (i : ℕ) :
    BuddyAllocatedMemoryRegion :=
  { region with
    freeElements := Function.update region.freeElements i
      (region.elements (region.freeElements i)).next }

/-- The smallest order from `order` on with a free block. -/
def findOrder (region : BuddyAllocatedMemoryRegion) (order : ℕ) : Option ℕ :=
  (List.range' order (region.maxOrder + 1 - order)).find? fun i =>
    region.freeElements i ≠ 0

/-- The loop that splits a block of order `order + steps` down to `order`; the
upper halves become free. -/
def splitLoop (returnAddress order : ℕ) :
    (steps : ℕ) → BuddyAllocatedMemoryRegion → Outcome BuddyAllocatedMemoryRegion
  | 0, region => .ok region
  | steps + 1, region => do
      let i := order + steps
      let buddy := u32 (returnAddress + 1 <<< i)
      let region ← region.markElementFree buddy
      splitLoop returnAddress order steps (region.pushElement i buddy)

def orderTooLarge : Halt := .assertion "Order must not be greater than maximum order"

/-- `ASSERT` makes text of its argument as it stands, and prints no number here. -/
def orderTooLargeToFree : Halt :=
  .assertion "Order must not be greater than maximum order << dec << maxOrder"

/-- Returns zero if no block is large enough. -/
def allocateBuddy (region : BuddyAllocatedMemoryRegion) (order : ℕ) :
    Outcome (ℕ × BuddyAllocatedMemoryRegion) :=
  let order := u32 (order + region.minOrder)
  if order > region.maxOrder then .error orderTooLarge
  else
    match region.findOrder order with
    | none => .ok (0, region)
    | some i => do
        let ret := region.freeElements i
        let region ← (region.popElement i).markElementAllocated ret
        let region ← splitLoop ret order (i - order) region
        .ok (ret, region)

/-! ## Deallocation -/

/-- The search of `RemoveFromList` behind the head.  `cur` is dereferenced
before it is compared with the null pointer. -/
def removeLoop (elements : ℕ → BuddyElement) (toRemove : ℕ) :
    (fuel cur : ℕ) → Outcome (ℕ → BuddyElement)
  | 0, _ => .error .diverges
  | fuel + 1, cur =>
      if cur = 0 then .error .fault
      else if (elements cur).next = 0 then .ok elements
      else if (elements cur).next = toRemove then
        .ok (Function.update elements cur
          { elements cur with next := (elements toRemove).next })
      else removeLoop elements toRemove fuel (elements cur).next

/-- `RemoveFromList(&freeElements[order], toRemove)`.  A list in a 32-bit
address space that does not end within `2^32` steps does not end. -/
def removeFromList (region : BuddyAllocatedMemoryRegion) (order toRemove : ℕ) :
    Outcome BuddyAllocatedMemoryRegion :=
  if region.freeElements order = toRemove then .ok (region.popElement order)
  else do
    let elements ← removeLoop region.elements toRemove (2 ^ 32)
      (region.freeElements order)
    .ok { region with elements := elements }

def buddyOf (region : BuddyAllocatedMemoryRegion) (block order : ℕ) : ℕ :=
  u32 ((sub32 block region.startAddress ^^^ 1 <<< order) + region.startAddress)

/-- `block->order = order`. -/
def setOrder (region : BuddyAllocatedMemoryRegion) (block order : ℕ) :
    BuddyAllocatedMemoryRegion :=
  { region with
    elements := Function.update region.elements block
      { region.elements block with order := order } }

/-- The merging loop, `remaining` orders below the maximum; returns the merged
block and its order. -/
def mergeLoop : (remaining order block : ℕ) → BuddyAllocatedMemoryRegion →
    Outcome (ℕ × ℕ × BuddyAllocatedMemoryRegion)
  | 0, order, block, region => .ok (block, order, region)
  | remaining + 1, order, block, region => do
      let buddy := region.buddyOf block order
      let free ← region.isElementFree buddy
      if !free then .ok (block, order, region)
      else if (region.elements buddy).order ≠ order then .ok (block, order, region)
      else do
        let region ← region.removeFromList order buddy
        let block := if buddy < block then buddy else block
        mergeLoop remaining (order + 1) block (region.setOrder block (order + 1))

def freeBuddy (region : BuddyAllocatedMemoryRegion) (addr order : ℕ) :
    Outcome BuddyAllocatedMemoryRegion :=
  if addr = 0 then .error (.assertion "Address to free must not be 0")
  else
    let order := u32 (order + region.minOrder)
    if order > region.maxOrder then .error orderTooLargeToFree
    else do
      let free ← region.isElementFree addr
      if free then .error (.assertion "Element already is free")
      else do
        let (block, order, region) ←
          mergeLoop (region.maxOrder - order) order addr region
        let region ← (region.setOrder block order).markElementFree block
        .ok (region.pushElement order block)

end BuddyAllocatedMemoryRegion

end GeexOS.Buddy
