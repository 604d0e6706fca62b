import GeexOS.Library.ByteMemory
import GeexOS.Loader.PhysicalMemory

/-!
# The loader's heap

The heap record is followed by the data area.  Every chunk of the area starts
with a size word; the word behind it links the free chunks and belongs to the
caller in a live one.
-/

namespace GeexOS.Heap

open GeexOS.Words
open GeexOS.Halting
open GeexOS.ByteMemory
open GeexOS.PhysicalMemory

/-- `sizeof(size_t)`. -/
def sizeofSize : ℕ := 4

/-- `sizeof(struct __freelist)`. -/
def sizeofFreelist : ℕ := 8

/-- `sizeof(Heap)`. -/
def sizeofHeap : ℕ := 16

/-! ## Fields -/

def heapMaxSize (memory : Memory) (heap : ℕ) : ℕ := load32 memory heap

/-- The address of `heap->Freelist`. -/
def freelistSlot (heap : ℕ) : ℕ := heap + 4

def heapFreelist (memory : Memory) (heap : ℕ) : ℕ := load32 memory (freelistSlot heap)

def setFreelist (memory : Memory) (heap chunk : ℕ) : Memory :=
  store32 memory (freelistSlot heap) chunk

/-- `counter++`. -/
def increment (memory : Memory) (counter : ℕ) : Memory :=
  store32 memory counter (u32 (load32 memory counter + 1))

/-- `chunk->sz`. -/
def chunkSize (memory : Memory) (chunk : ℕ) : ℕ := load32 memory chunk

def setSize (memory : Memory) (chunk size : ℕ) : Memory := store32 memory chunk size

/-- `&chunk->nx`. -/
def nextSlot (chunk : ℕ) : ℕ := u32 (chunk + sizeofSize)

/-- `chunk->nx`. -/
def chunkNext (memory : Memory) (chunk : ℕ) : ℕ := load32 memory (nextSlot chunk)

def setNext (memory : Memory) (chunk next : ℕ) : Memory :=
  store32 memory (nextSlot chunk) next

/-! ## Creation -/

/-- Returns the heap, the allocator's state and the memory. -/
def heapCreate (state : MemoryState) (memory : Memory) (maxSize : ℕ) :
    Outcome (ℕ × MemoryState × Memory) := do
  let maxSize := u32 (pageEnd maxSize)
  let (heap, state) ← memoryAllocate state maxSize .loaderHeap
  let memory := store32 memory heap maxSize
  let memory := setFreelist memory heap 0
  let memory := store32 memory (heap + 8) 0
  let memory := store32 memory (heap + 12) 0
  let dataSpace := sub32 (sub32 maxSize sizeofHeap) sizeofSize
  let firstBlock := u32 (heap + sizeofHeap)
  let memory := setSize memory firstBlock dataSpace
  let memory := setNext memory firstBlock 0
  .ok (heap, state, setFreelist memory heap firstBlock)

/-! ## Allocation -/

/-- What the walk over the free list ends with: a chunk of exactly the size, or
the smallest larger one, of size zero if there is none; each with the chunk in
front of it. -/
inductive Found where
  | exact (chunk predecessor : ℕ)
  | closest (size chunk predecessor : ℕ)

/-- The walk.  A list in a 32-bit address space that does not end within `2^32`
steps does not end. -/
def searchLoop (memory : Memory) (len : ℕ) :
    (fuel fp1 fp2 s sfp1 sfp2 : ℕ) → Outcome Found
  | 0, _, _, _, _, _ => .error .diverges
  | fuel + 1, fp1, fp2, s, sfp1, sfp2 =>
      if fp1 = 0 then .ok (.closest s sfp1 sfp2)
      else if chunkSize memory fp1 < len then
        searchLoop memory len fuel (chunkNext memory fp1) fp1 s sfp1 sfp2
      else if chunkSize memory fp1 = len then .ok (.exact fp1 fp2)
      else if s = 0 ∨ chunkSize memory fp1 < s then
        searchLoop memory len fuel (chunkNext memory fp1) fp1
          (chunkSize memory fp1) fp1 fp2
      else searchLoop memory len fuel (chunkNext memory fp1) fp1 s sfp1 sfp2

/-- `if(predecessor) predecessor->nx = chunk->nx; else heap->Freelist = chunk->nx`. -/
def disconnect (memory : Memory) (heap chunk predecessor : ℕ) : Memory :=
  if predecessor ≠ 0 then setNext memory predecessor (chunkNext memory chunk)
  else setFreelist memory heap (chunkNext memory chunk)

/-- The chunk found is taken off the list, or cut if enough is left over. -/
def handOut (memory : Memory) (heap len : ℕ) : Found → Outcome (ℕ × Memory)
  | .exact fp1 fp2 => .ok (nextSlot fp1, disconnect memory heap fp1 fp2)
  | .closest s sfp1 sfp2 =>
      if s = 0 then .error (.panic "Heap is full")
      else if sub32 s len < sizeofFreelist then
        .ok (nextSlot sfp1, disconnect memory heap sfp1 sfp2)
      else
        let s := sub32 s len
        let upper := u32 (sfp1 + s)
        let memory := setSize memory upper len
        .ok (nextSlot upper, setSize memory sfp1 (sub32 s sizeofSize))

def heapAlloc (memory : Memory) (heap len : ℕ) : Outcome (ℕ × Memory) := do
  let len :=
    if len < sizeofFreelist - sizeofSize then sizeofFreelist - sizeofSize else len
  let memory := increment memory (heap + 8)
  let found ← searchLoop memory len (2 ^ 32) (heapFreelist memory heap) 0 0 0 0
  handOut memory heap len found

/-! ## Deallocation -/

/-- The chunk ends where `upper` starts. -/
def adjacent (memory : Memory) (lower upper : ℕ) : Bool :=
  u32 (nextSlot lower + chunkSize memory lower) = upper

/-- `lower->sz += upper->sz + sizeof(size_t); lower->nx = upper->nx`. -/
def assimilate (memory : Memory) (lower upper : ℕ) : Memory :=
  let memory := setSize memory lower
    (u32 (chunkSize memory lower + u32 (chunkSize memory upper + sizeofSize)))
  setNext memory lower (chunkNext memory upper)

/-- The walk to the first free chunk behind `fpnew`, with its predecessor. -/
def insertLoop (memory : Memory) (fpnew : ℕ) : (fuel fp1 fp2 : ℕ) → Outcome (ℕ × ℕ)
  | 0, _, _ => .error .diverges
  | fuel + 1, fp1, fp2 =>
      if fp1 = 0 then .ok (0, fp2)
      else if fp1 < fpnew then insertLoop memory fpnew fuel (chunkNext memory fp1) fp1
      else .ok (fp1, fp2)

/-- `lower->nx = upper`, and the upper chunk is assimilated if it is adjacent. -/
def connect (memory : Memory) (lower upper : ℕ) : Memory :=
  let memory := setNext memory lower upper
  if adjacent memory lower upper then assimilate memory lower upper else memory

/-- What follows the walk: the new chunk between `fp2` and `fp1`. -/
def relink (memory : Memory) (heap fpnew fp1 fp2 : ℕ) : Memory :=
  if fp1 ≠ 0 then
    let memory := connect memory fpnew fp1
    if fp2 = 0 then setFreelist memory heap fpnew else connect memory fp2 fpnew
  else connect memory fp2 fpnew

/-- The trivial case for an empty list does not return. -/
def heapFree (memory : Memory) (heap p : ℕ) : Outcome Memory :=
  if p = 0 then .ok memory
  else do
    let memory := increment memory (heap + 12)
    let fpnew := sub32 p sizeofSize
    let memory := setNext memory fpnew 0
    let memory :=
      if heapFreelist memory heap = 0 then setFreelist memory heap fpnew else memory
    let (fp1, fp2) ← insertLoop memory fpnew (2 ^ 32) (heapFreelist memory heap) 0
    .ok (relink memory heap fpnew fp1 fp2)

end GeexOS.Heap
