import GeexOS.Kernel.BuddyRuns
import GeexOS.Kernel.HashTableOperations
import GeexOS.Kernel.SlabGeometry

/-!
# Slab caches: objects

A cache keeps each slab on one of three lists.  A slab's free slots are chained
through its array of free indices.  Small and large caches differ in how they
make a slab, find the slab of an object and give a slab back.
-/

namespace GeexOS.SlabAllocator

open GeexOS.Words
open GeexOS.Halting
open GeexOS.DataStructures

/-- The three lists of a cache. -/
inductive SlabList where
  | full
  | partlyUsed
  | free
  deriving DecidableEq, Repr

/-- A cache and the memory it works on: the headers, links and arrays of the
slabs by slab address, the buddy region with its live allocations, and the hash
table of a large cache.  `created` records the slabs that were made and not
released. -/
structure CacheState where
  cache : SlabCache
  links : Links
  slabs : ℕ → Slab
  freeArrays : ℕ → ℕ → ℕ
  buddy : Buddy.BuddyState
  hashTable : BHashTable
  created : Finset ℕ

def invalidMagic : Halt :=
  .assertion "Slabs magic value doesn't indicate it's valid"

/-- `AllocateBuddy`, with the record of what is live. -/
def allocateBuddy (buddy : Buddy.BuddyState) (order : ℕ) : Outcome (ℕ × Buddy.BuddyState) := do
  let (ret, region) ← buddy.region.allocateBuddy order
  .ok (ret, ⟨region, if ret = 0 then buddy.live else ⟨ret, order⟩ :: buddy.live⟩)

/-- `FreeBuddy`, with the record of what is live. -/
def freeBuddy (buddy : Buddy.BuddyState) (addr order : ℕ) : Outcome Buddy.BuddyState := do
  let region ← buddy.region.freeBuddy addr order
  .ok ⟨region, buddy.live.erase ⟨addr, order⟩⟩

/-- `for(i = 0; i < count; i++) array[i] = i + 1`. -/
def linkFreeArray (array : ℕ → ℕ) : (count : ℕ) → ℕ → ℕ
  | 0 => array
  | count + 1 => Function.update (linkFreeArray array count) count (count + 1)

/-- The array of a new slab. -/
def initFreeArray (array : ℕ → ℕ) (objectsPerSlab : ℕ) : ℕ → ℕ :=
  Function.update (linkFreeArray array (sub32 objectsPerSlab 1)) (sub32 objectsPerSlab 1)
    slabBufEnd

namespace CacheState

def list (state : CacheState) : SlabList → DoublyLinkedList
  | .full => state.cache.fullSlabList
  | .partlyUsed => state.cache.partialSlabList
  | .free => state.cache.freeSlabList

def setList (state : CacheState) (list : DoublyLinkedList) (links : Links) :
    SlabList → CacheState
  | .full => { state with cache := { state.cache with fullSlabList := list }, links := links }
  | .partlyUsed =>
      { state with cache := { state.cache with partialSlabList := list }, links := links }
  | .free => { state with cache := { state.cache with freeSlabList := list }, links := links }

def removeFrom (state : CacheState) (source : SlabList) (slab : ℕ) : CacheState :=
  let (list, links) := (state.list source).remove state.links slab
  state.setList list links source

def prependTo (state : CacheState) (target : SlabList) (slab : ℕ) : Outcome CacheState := do
  let (list, links) ← (state.list target).prepend state.links slab
  .ok (state.setList list links target)

/-- `if(...) { source.Remove(slab); target.Prepend(slab); }`. -/
def moveIf (condition : Bool) (source target : SlabList) (slab : ℕ) (state : CacheState) :
    Outcome CacheState :=
  if condition then (state.removeFrom source slab).prependTo target slab else .ok state

def setSlab (state : CacheState) (address : ℕ) (slab : Slab) : CacheState :=
  { state with slabs := Function.update state.slabs address slab }

def setFreeArray (state : CacheState) (address : ℕ) (array : ℕ → ℕ) : CacheState :=
  { state with freeArrays := Function.update state.freeArrays address array }

/-- A null slab faults, any other needs its magic value. -/
def checkMagic (state : CacheState) (slab : ℕ) : Outcome Unit :=
  if slab = 0 then .error .fault
  else if (state.slabs slab).magicValid ≠ slabMagicValid then .error invalidMagic
  else .ok ()

def getNonEmptySlab (grow : CacheState → Outcome (ℕ × CacheState)) (state : CacheState) :
    Outcome (ℕ × CacheState) :=
  if state.cache.partialSlabList.isEmpty then
    if state.cache.freeSlabList.isEmpty then grow state
    else .ok (state.cache.freeSlabList.head, state)
  else .ok (state.cache.partialSlabList.head, state)

/-- The part of `AllocateObject` behind `GetNonEmptySlab`. -/
def takeObject (slab : ℕ) (state : CacheState) : Outcome (ℕ × CacheState) := do
  state.checkMagic slab
  let state ← state.moveIf (state.slabs slab).isEmpty .free .partlyUsed slab
  let header := state.slabs slab
  let allocatedObject := u32 (header.objectStart + header.freeIndex * state.cache.objSize)
  let state := state.setSlab slab { header with
    freeIndex := state.freeArrays slab header.freeIndex, inUse := u32 (header.inUse + 1) }
  let state ← state.moveIf (state.slabs slab).isFull .partlyUsed .full slab
  .ok (allocatedObject, { state with cache := { state.cache with
    objectsAllocated := u32 (state.cache.objectsAllocated + 1) } })

def allocateObject (grow : CacheState → Outcome (ℕ × CacheState)) (state : CacheState) :
    Outcome (ℕ × CacheState) := do
  let (slab, state) ← getNonEmptySlab grow state
  takeObject slab state

/-- The middle part of `FreeObject`.  The division faults for objects of no
size. -/
def putObject (slab object : ℕ) (state : CacheState) : Outcome CacheState := do
  state.checkMagic slab
  let state ← state.moveIf (state.slabs slab).isFull .full .partlyUsed slab
  if state.cache.objSize = 0 then .error .fault
  else do
    let header := state.slabs slab
    let objectIndex := sub32 object header.objectStart / state.cache.objSize
    let state := state.setFreeArray slab
      (Function.update (state.freeArrays slab) objectIndex header.freeIndex)
    let state := state.setSlab slab { header with
      freeIndex := objectIndex, inUse := sub32 header.inUse 1 }
    state.moveIf (state.slabs slab).isEmpty .partlyUsed .free slab

/-- `objectsAllocated--`. -/
def countFreed (state : CacheState) : CacheState :=
  { state with cache := { state.cache with
    objectsAllocated := sub32 state.cache.objectsAllocated 1 } }

/-- `ReleaseUnusedMemory`. -/
def releaseUnusedMemory (releaseSlab : ℕ → CacheState → Outcome CacheState) :
    (fuel : ℕ) → CacheState → Outcome CacheState
  | 0, _ => .error .diverges
  | fuel + 1, state =>
      let curSlab := state.cache.freeSlabList.head
      if curSlab = 0 then .ok state
      else do
        let state ← releaseSlab curSlab (state.removeFrom .free curSlab)
        releaseUnusedMemory releaseSlab fuel state

/-- A new header and its array. -/
def initSlab (state : CacheState) (address : ℕ) (slab : Slab) : CacheState :=
  { state with
    slabs := Function.update state.slabs address slab
    freeArrays := Function.update state.freeArrays address
      (initFreeArray (state.freeArrays address) state.cache.objectsPerSlab)
    created := insert address state.created }

/-- Takes a slab out of the books and its magic value away. -/
def retireSlab (state : CacheState) (slab : ℕ) : CacheState :=
  { state with
    slabs := Function.update state.slabs slab { state.slabs slab with magicValid := 0 }
    created := state.created.erase slab }

end CacheState

open CacheState

/-! ## Small caches -/

namespace SmallCache

def grow (state : CacheState) : Outcome (ℕ × CacheState) := do
  let (newSlab, buddy) ← allocateBuddy state.buddy state.cache.order
  if newSlab = 0 then .error .fault
  else do
    let state := { state with buddy := buddy }.initSlab newSlab (initialSlab state.cache newSlab)
    let state ← state.prependTo .free newSlab
    .ok (newSlab, state)

def allocateObject (state : CacheState) : Outcome (ℕ × CacheState) :=
  state.allocateObject grow

def freeObject (object : ℕ) (state : CacheState) : Outcome CacheState := do
  let state ← state.putObject (object &&& pagealignMask) object
  .ok state.countFreed

def releaseSlab (slab : ℕ) (state : CacheState) : Outcome CacheState := do
  state.checkMagic slab
  let state := state.retireSlab slab
  let buddy ← freeBuddy state.buddy slab state.cache.order
  .ok { state with buddy := buddy }

def releaseUnusedMemory (state : CacheState) : Outcome CacheState :=
  state.releaseUnusedMemory releaseSlab addresses

end SmallCache

/-! ## Large caches -/

/-- What the size caches hand out during one call: a block for the slab's
descriptor, and the contents of the blocks for the hash table. -/
structure Supply where
  descriptor : ℕ
  firstTable : ℕ → ℕ
  newTable : ℕ → ℕ → ℕ

namespace LargeCache

def lowerBoundary (addr size : ℕ) : ℕ := addr &&& (2 ^ 32 - size)

/-- `HashTableDefinition::HashKey`. -/
def hashKey (order key : ℕ) : ℕ :=
  lowerBoundary key (1 <<< pageShift <<< order) >>> order >>> pageShift

def hashDefinition (order : ℕ) (slabs : ℕ → Slab) : HashTableDefinition ℕ where
  hashKey := hashKey order
  keyOf := fun value => (slabs value).objectStart
  compare := fun key value => decide ((slabs value).objectStart = key)
  hashKey_of_compare := fun _ _ hcompare => by rw [of_decide_eq_true hcompare]

def definitionOf (state : CacheState) : HashTableDefinition ℕ :=
  hashDefinition state.cache.order state.slabs

/-- The size caches serve the new array; the old one goes back to them. -/
def resizeHashTableIfNeeded (newTable : ℕ → ℕ) (state : CacheState) : Outcome CacheState := do
  let hashSize ← state.hashTable.resizeNeeded
  if hashSize = 0 then .ok state
  else do
    let again ← state.hashTable.resizeNeeded
    if again = hashSize then do
      let (_, table) ←
        state.hashTable.resize (definitionOf state) newTable hashSize true
      .ok { state with hashTable := table }
    else .ok state

def grow (supply : Supply) (state : CacheState) : Outcome (ℕ × CacheState) := do
  let slab := supply.descriptor
  let (objectStart, buddy) ← allocateBuddy state.buddy state.cache.order
  let state := { state with buddy := buddy }.initSlab slab ⟨objectStart, 0, 0, slabMagicValid⟩
  let state ← state.prependTo .free slab
  let (_, table) ←
    state.hashTable.insert (definitionOf state) false (some supply.firstTable) slab
  let state ← resizeHashTableIfNeeded (supply.newTable slab) { state with hashTable := table }
  .ok (slab, state)

def allocateObject (supply : Supply) (state : CacheState) : Outcome (ℕ × CacheState) :=
  state.allocateObject (grow supply)

def freeObject (supply : Supply) (object : ℕ) (state : CacheState) : Outcome CacheState := do
  let slab ← state.hashTable.lookup (definitionOf state)
    (lowerBoundary object (1 <<< pageShift <<< state.cache.order))
  let state ← state.putObject slab object
  let state ← resizeHashTableIfNeeded (supply.newTable slab) state
  .ok state.countFreed

def releaseSlab (supply : Supply) (slab : ℕ) (state : CacheState) : Outcome CacheState := do
  state.checkMagic slab
  let state := state.retireSlab slab
  let (_, table) ← state.hashTable.remove (definitionOf state) false none slab
  let buddy ← freeBuddy state.buddy (state.slabs slab).objectStart state.cache.order
  resizeHashTableIfNeeded (supply.newTable slab)
    { state with hashTable := table, buddy := buddy }

def releaseUnusedMemory (supply : Supply) (state : CacheState) : Outcome CacheState :=
  state.releaseUnusedMemory (releaseSlab supply) addresses

end LargeCache

end GeexOS.SlabAllocator
