import GeexOS.Library.Buckets
import GeexOS.Library.Halting
import GeexOS.Library.Words

/-!
# The kernel's chained hash table

The elements carry the links of their chains, so a table is an array of chain
heads.  It is resized by relinking every element into a new array.
-/

namespace GeexOS.DataStructures

open GeexOS.Words
open GeexOS.Halting
open GeexOS.Linked
open GeexOS.Buckets

/-- The definition a table is instantiated with.  Elements are addresses; `Hash`
of an element is `HashKey` of the key it is hashed by, and `Compare` accepts keys
with this hash only. -/
structure HashTableDefinition (Key : Type) where
  hashKey : Key → ℕ
  keyOf : ℕ → Key
  compare : Key → ℕ → Bool
  hashKey_of_compare : ∀ key value, compare key value = true →
    hashKey key = hashKey (keyOf value)

def HashTableDefinition.hash {Key : Type} (definition : HashTableDefinition Key)
    (value : ℕ) : ℕ := definition.hashKey (definition.keyOf value)

/-- A block of memory used as an array of pointers. -/
structure Buffer where
  cells : ℕ → ℕ
  bytes : ℕ

namespace Buffer

def read (buffer : Buffer) (i : ℕ) : Outcome ℕ :=
  if 4 * (i + 1) ≤ buffer.bytes then .ok (buffer.cells i) else .error .fault

def write (buffer : Buffer) (i value : ℕ) : Outcome Buffer :=
  if 4 * (i + 1) ≤ buffer.bytes then
    .ok { buffer with cells := Function.update buffer.cells i value }
  else .error .fault

/-- `for(size_t i = 0; i < newSize; i++) newStorage[i] = NULL`. -/
def clear (buffer : Buffer) : (newSize : ℕ) → Outcome Buffer
  | 0 => .ok buffer
  | newSize + 1 => do
      let buffer ← buffer.clear newSize
      buffer.write newSize 0

end Buffer

/-- The table, and the link fields of all elements. -/
structure BHashTable where
  curTableSize : ℕ
  curItemCount : ℕ
  storage : Option Buffer
  links : ℕ → ℕ

def kMinimumSize : ℕ := 8

/-- A chain has no more elements than there are addresses. -/
def addresses : ℕ := 2 ^ 32

def bucketOf (hash tableSize : ℕ) : ℕ := hash &&& sub32 tableSize 1

namespace BHashTable

variable {Key : Type} (definition : HashTableDefinition Key)

/-- The constructors: nothing is allocated yet. -/
def new (links : ℕ → ℕ) : BHashTable := ⟨0, 0, none, links⟩

/-- The loop of `Lookup`. -/
def lookupLoop (key : Key) (links : ℕ → ℕ) : (fuel slot : ℕ) → Outcome ℕ
  | 0, _ => .error .diverges
  | fuel + 1, slot =>
      if slot = 0 then .ok 0
      else if definition.compare key slot then .ok slot
      else lookupLoop key links fuel (links slot)

def readStorage (table : BHashTable) (i : ℕ) : Outcome ℕ :=
  match table.storage with
  | none => .error .fault
  | some storage => storage.read i

def writeStorage (table : BHashTable) (i value : ℕ) : Outcome BHashTable :=
  match table.storage with
  | none => .error .fault
  | some storage => do
      let storage ← storage.write i value
      .ok { table with storage := some storage }

def lookup (table : BHashTable) (key : Key) : Outcome ℕ :=
  if table.curTableSize = 0 then .ok 0
  else do
    let slot ← table.readStorage (bucketOf (definition.hashKey key) table.curTableSize)
    lookupLoop definition key table.links addresses slot

/-- `_Insert`: the value becomes the head of its chain. -/
def insertInto (tableSize value : ℕ) (target : Buffer) (links : ℕ → ℕ) :
    Outcome (Buffer × (ℕ → ℕ)) := do
  let index := bucketOf (definition.hash value) tableSize
  let head ← target.read index
  let target ← target.write index value
  .ok (target, Function.update links value head)

/-- The inner loop of `_Resize`. -/
def moveBucket (newSize : ℕ) : (fuel bucket : ℕ) → Buffer → (ℕ → ℕ) →
    Outcome (Buffer × (ℕ → ℕ))
  | 0, _, _, _ => .error .diverges
  | fuel + 1, bucket, newStorage, links =>
      if bucket = 0 then .ok (newStorage, links)
      else do
        let next := links bucket
        let (newStorage, links) ← insertInto definition newSize bucket newStorage links
        moveBucket newSize fuel next newStorage links

/-- The outer loop of `_Resize`, over the buckets from `i` on. -/
def moveBuckets (newSize : ℕ) (storage : Buffer) : (remaining i : ℕ) → Buffer → (ℕ → ℕ) →
    Outcome (Buffer × (ℕ → ℕ))
  | 0, _, newStorage, links => .ok (newStorage, links)
  | remaining + 1, i, newStorage, links => do
      let bucket ← storage.read i
      let (newStorage, links) ← moveBucket definition newSize addresses bucket newStorage links
      moveBuckets newSize storage remaining (i + 1) newStorage links

/-- The second `_Resize`. -/
def resizeTo (table : BHashTable) (newStorage : Buffer) (newSize : ℕ) : Outcome BHashTable := do
  let newStorage ← newStorage.clear newSize
  match table.storage with
  | none => .ok { table with curTableSize := newSize, storage := some newStorage }
  | some storage =>
      let (newStorage, links) ←
        moveBuckets definition newSize storage table.curTableSize 0 newStorage table.links
      .ok { table with
        curTableSize := newSize, storage := some newStorage, links := links }

/-- The first `_Resize`.  `allocation` is what `Allocate` returns: no block, or
a block of the requested size with any contents. -/
def tryResize (table : BHashTable) (allocation : Option (ℕ → ℕ)) (newSize : ℕ) :
    Outcome (Bool × BHashTable) :=
  match allocation with
  | none => .ok (false, table)
  | some cells => do
      let table ← table.resizeTo definition ⟨cells, u32 (4 * newSize)⟩ newSize
      .ok (true, table)

/-- The end of `Insert`. -/
def insertLast (table : BHashTable) (value : ℕ) : Outcome BHashTable :=
  match table.storage with
  | none => .error .fault
  | some storage => do
      let (storage, links) ←
        insertInto definition table.curTableSize value storage table.links
      .ok { table with
        curItemCount := u32 (table.curItemCount + 1)
        storage := some storage
        links := links }

/-- `Insert`, without the check for duplicates. -/
def insert (autoExpand : Bool) (allocation : Option (ℕ → ℕ)) (table : BHashTable)
    (value : ℕ) : Outcome (Bool × BHashTable) := do
  let (ready, table) ←
    if table.curTableSize = 0 then table.tryResize definition allocation kMinimumSize
    else if autoExpand ∧ u32 (table.curTableSize * 200) / 256 ≤ table.curItemCount then do
      let (_, table) ← table.tryResize definition allocation (u32 (table.curTableSize * 2))
      .ok (true, table)
    else .ok (true, table)
  if ready then do
    let table ← table.insertLast definition value
    .ok (true, table)
  else .ok (false, table)

/-- The loop of `Remove`; it tells whether it took the value out. -/
def removeLoop (value index : ℕ) : (fuel previous slot : ℕ) → BHashTable →
    Outcome (Bool × BHashTable)
  | 0, _, _, _ => .error .diverges
  | fuel + 1, previous, slot, table =>
      if slot = 0 then .ok (false, table)
      else
        let next := table.links slot
        if value = slot then
          if previous ≠ 0 then
            .ok (true, { table with links := Function.update table.links previous next })
          else do
            let table ← table.writeStorage index next
            .ok (true, table)
        else removeLoop value index fuel slot next table

/-- `Remove`, without the check for duplicates. -/
def remove (autoExpand : Bool) (allocation : Option (ℕ → ℕ)) (table : BHashTable)
    (value : ℕ) : Outcome (Bool × BHashTable) := do
  let index := bucketOf (definition.hash value) table.curTableSize
  let slot ← table.readStorage index
  let (found, table) ← removeLoop value index addresses 0 slot table
  if !found then .ok (false, table)
  else
    let table := { table with curItemCount := sub32 table.curItemCount 1 }
    if autoExpand ∧ kMinimumSize < table.curTableSize ∧
        table.curItemCount < u32 (table.curTableSize * 50) / 256 then do
      let (_, table) ← table.tryResize definition allocation (table.curTableSize / 2)
      .ok (true, table)
    else .ok (true, table)

/-- `while(curItemCount >= size * 200 / 256) size <<= 1`; after 32 shifts the
size is 0 and stays there. -/
def growLoop (curItemCount : ℕ) : (fuel size : ℕ) → Outcome ℕ
  | 0, _ => .error .diverges
  | fuel + 1, size =>
      if u32 (size * 200) / 256 ≤ curItemCount then growLoop curItemCount fuel (u32 (size * 2))
      else .ok size

/-- `while(curItemCount < size * 50 / 256) size >>= 1`. -/
def shrinkLoop (curItemCount : ℕ) : (fuel size : ℕ) → Outcome ℕ
  | 0, _ => .error .diverges
  | fuel + 1, size =>
      if curItemCount < u32 (size * 50) / 256 then shrinkLoop curItemCount fuel (size / 2)
      else .ok size

/-- The size, in pointers, that `ResizeNeeded` computes. -/
def neededSize (table : BHashTable) : Outcome ℕ :=
  let size := table.curTableSize
  if size = 0 ∨ u32 (size * 200) / 256 ≤ table.curItemCount then
    growLoop table.curItemCount 33 (if size = 0 then kMinimumSize else size)
  else if kMinimumSize < size ∧ table.curItemCount < u32 (size * 50) / 256 then do
    let shrunk ← shrinkLoop table.curItemCount 33 size
    .ok (if shrunk < kMinimumSize then kMinimumSize else shrunk)
  else .ok size

def resizeNeeded (table : BHashTable) : Outcome ℕ := do
  let size ← table.neededSize
  if size = table.curTableSize then .ok 0 else .ok (u32 (size * 4))

/-- `Resize` with a block of `size` bytes. -/
def resize (table : BHashTable) (allocation : ℕ → ℕ) (size : ℕ) (force : Bool) :
    Outcome (Bool × BHashTable) := do
  let rejected ←
    if force then .ok false
    else do
      let needed ← table.resizeNeeded
      .ok (size ≠ needed)
  if rejected then .ok (false, table)
  else do
    let table ← table.resizeTo definition ⟨allocation, size⟩ (size / 4)
    .ok (true, table)

end BHashTable

end GeexOS.DataStructures
