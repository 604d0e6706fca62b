import GeexOS.Kernel.DoublyLinkedList
import GeexOS.Library.Words

/-!
# Slab caches: data, sizing and creation

A cache hands out objects of one size from slabs, which are buddy blocks.  The
slab header and the array of free indices lie inside the block for small
objects and outside it for large ones.
-/

namespace GeexOS.SlabAllocator

open GeexOS.Words
open GeexOS.Halting
open GeexOS.DataStructures

def pageSize : ℕ := 4096
def pageShift : ℕ := 12
def slabMaxNamelen : ℕ := 40
def slabMaxOrder : ℕ := 5

/-- `SLAB_LIMIT`: objects above an eighth of a page are meant to be off-slab. -/
def slabLimit : ℕ := pageSize >>> 3

/-- `SLAB_BUF_END`, the end marker of a free list. -/
def slabBufEnd : ℕ := 0xFFFFFFFF

def slabMagicValid : ℕ := 0xDEADCAFE

/-- `sizeof(Slab)`: two links, the cache and four more 32-bit words. -/
def sizeofSlab : ℕ := 28

/-- The fields of a slab header other than its links. -/
structure Slab where
  objectStart : ℕ
  freeIndex : ℕ
  inUse : ℕ
  magicValid : ℕ
  deriving DecidableEq, Repr

def Slab.isFull (slab : Slab) : Bool := slab.freeIndex = slabBufEnd

def Slab.isEmpty (slab : Slab) : Bool := slab.inUse = 0

structure SlabCache where
  fullSlabList : DoublyLinkedList
  partialSlabList : DoublyLinkedList
  freeSlabList : DoublyLinkedList
  name : List UInt8
  objSize : ℕ
  order : ℕ
  objectsPerSlab : ℕ
  objectsAllocated : ℕ
  deriving DecidableEq, Repr

/-! ## Sizing -/

/-- `ALIGN_TO_VAL`: in 32 bits, `~(boundary - 1)` is `2^32 - boundary`. -/
def alignToVal (value boundary : ℕ) : ℕ :=
  u32 (value + boundary + (2 ^ 32 - 1)) &&& (2 ^ 32 - boundary)

/-- `while(size < align/2) align /= 2`; a 32-bit alignment is gone after 32
halvings. -/
def reduceAlign (size : ℕ) : (fuel align : ℕ) → ℕ
  | 0, align => align
  | fuel + 1, align =>
      if size < align / 2 then reduceAlign size fuel (align / 2) else align

/-- Bytes that `i` objects take with their share of the management data. -/
def usedBytes (objSize headSize freeArraySizePerElement i : ℕ) : ℕ :=
  u32 (i * objSize + headSize + freeArraySizePerElement * i)

/-- The counting loop of `EstimateNrObjects`.  Without wrap-around it ends
after at most one object per byte. -/
def estimateLoop (objSize headSize freeArraySizePerElement total : ℕ) :
    (fuel i : ℕ) → Outcome ℕ
  | 0, _ => .error .diverges
  | fuel + 1, i =>
      if usedBytes objSize headSize freeArraySizePerElement i ≤ total then
        estimateLoop objSize headSize freeArraySizePerElement total fuel (i + 1)
      else .ok i

/-- Returns the number of objects and the wastage. -/
def estimateNrObjects (order objSize : ℕ) : Outcome (ℕ × ℕ) := do
  let total := 1 <<< order <<< pageShift
  let headSize := if objSize < slabLimit then sizeofSlab else 0
  let freeArraySizePerElement := if objSize < slabLimit then 4 else 0
  let i ← estimateLoop objSize headSize freeArraySizePerElement total (total + 2) 0
  let nr := if i ≠ 0 then i - 1 else i
  .ok (nr, total - usedBytes objSize headSize freeArraySizePerElement nr)

/-- The loop over slab orders: the first order that holds an object. -/
def orderLoop (size : ℕ) : (remaining ord : ℕ) → Outcome (ℕ × ℕ × ℕ)
  | 0, ord => .ok (0, 0, ord)
  | remaining + 1, ord => do
      let (nr, wastage) ← estimateNrObjects ord size
      if nr ≠ 0 then .ok (nr, wastage, ord)
      else orderLoop size remaining (ord + 1)

/-- What `GetObjectCount` returns and stores through its pointers. -/
structure ObjectCount where
  nr : ℕ
  objSize : ℕ
  order : ℕ
  left : ℕ
  deriving DecidableEq, Repr

def getObjectCount (objSize align : ℕ) : Outcome ObjectCount := do
  let align := reduceAlign objSize 32 align
  let size := if align ≠ 0 then alignToVal objSize align else objSize
  let (nr, wastage, ord) ← orderLoop size (slabMaxOrder + 1) 0
  .ok ⟨nr, size, ord, wastage⟩

/-! ## Creation -/

/-- `strcpy(name, Name)` behind `objSize` has been set: the terminator of a
name of 40 characters falls on the lowest byte of `objSize`. -/
def strcpyName (name : List UInt8) (objSize : ℕ) : ℕ :=
  if name.length < slabMaxNamelen then objSize else objSize / 256 * 256

/-- The constructor of `SlabCache`. -/
def slabCache (name : List UInt8) (align size : ℕ) : Outcome SlabCache := do
  let count ← getObjectCount size align
  if count.nr = 0 ∨ count.order > slabMaxOrder then
    .error (.panic ("Unable to initialize SLAB cache " ++
      String.ofList (name.map fun c => Char.ofNat c.toNat)))
  else
    .ok
      { fullSlabList := .empty
        partialSlabList := .empty
        freeSlabList := .empty
        name := name
        objSize := strcpyName name count.objSize
        order := count.order
        objectsPerSlab := count.nr
        objectsAllocated := 0 }

/-- The loop of `GetOrder`; a 32-bit size is gone after 32 shifts. -/
def getOrderLoop : (fuel size order : ℕ) → ℕ
  | 0, _, order => order
  | fuel + 1, size, order =>
      if size / 2 ≠ 0 then getOrderLoop fuel (size / 2) (u32 (order + 1))
      else u32 (order + 1)

/-- `GetOrder`: the order starts from `(size_t)-1`. -/
def getOrder (size : ℕ) : ℕ :=
  getOrderLoop 32 (sub32 size 1 / 2 ^ (pageShift - 1)) (2 ^ 32 - 1)

inductive Cache where
  | small (cache : SlabCache)
  | large (cache : SlabCache)

/-- `SlabAllocator::CreateCache`.  `buffer` is the address the allocation of
the cache object returned: of `AllocateFromSizeSlabs` for a large cache, of
`cacheHead` for a small one. -/
def createCache (cacheList : List SlabCache) (buffer : ℕ)
    (cacheName : Option (List UInt8)) (objectSize alignment : ℕ) :
    Outcome (Option Cache) :=
  match cacheName with
  | none => .ok none
  | some name =>
      if name.length > slabMaxNamelen then .ok none
      else if getOrder objectSize > slabMaxOrder then .ok none
      else if cacheList.any (fun cache => cache.name == name) then .ok none
      else if buffer = 0 then .ok none
      else if objectSize > slabLimit then do
        let cache ← slabCache name alignment objectSize
        .ok (some (.large cache))
      else do
        let cache ← slabCache name alignment objectSize
        .ok (some (.small cache))

end GeexOS.SlabAllocator
