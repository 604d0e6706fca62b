import GeexOS.Kernel.SlabExhaustion

/-!
# The size caches

Behind `kmalloc` stand nine caches, one for each power of two from 32 to 8192.  A request
is served by the first one whose objects hold it together with a pointer, which is kept in
front of the memory that is returned and leads back to the cache.
-/

namespace GeexOS.SlabAllocator

open GeexOS.Words
open GeexOS.Halting
open GeexOS.DataStructures

/-- `cacheSizes`, with the entry that ends it. -/
def cacheSizes : List ℕ :=
  [1 <<< 5, 1 <<< 6, 1 <<< 7, 1 <<< 8, 1 <<< 9, 1 <<< 10, 1 <<< 11, 1 <<< 12, 1 <<< 13, 0]

def cacheSize (i : ℕ) : ℕ := cacheSizes.getD i 0

/-- `sizeof(SlabCache*)`. -/
def sizeofPointer : ℕ := 4

/-- `while(cacheSizes[i].size != 0 && totalSize > cacheSizes[i].size) i++`. -/
def searchSize (totalSize : ℕ) : List ℕ → ℕ → ℕ
  | [], i => i
  | size :: sizes, i =>
      if size ≠ 0 ∧ totalSize > size then searchSize totalSize sizes (i + 1) else i

/-- The entry that a request selects; the sum is one of 32 bits. -/
def sizeClass (size : ℕ) : ℕ := searchSize (u32 (size + sizeofPointer)) cacheSizes 0

/-- `CreateCache` makes caches for large objects off-slab. -/
def sizeKind (i : ℕ) : CacheKind := if cacheSize i > slabLimit then .large else .small

def noSuitableCache (size : ℕ) : Halt :=
  .panic ("No suitable cache size for object with size " ++ toString size ++ " found")

def notCreated (size : ℕ) : Halt :=
  .panic ("SlabCache for objects with size " ++ toString size ++ " could not be created")

/-- The caches with their addresses, the region that they share, and the words of memory
in which the pointers to them are kept. -/
structure SizeCaches where
  pointers : ℕ → ℕ
  caches : ℕ → CacheState
  buddy : Buddy.BuddyState
  words : ℕ → ℕ

namespace SizeCaches

def cacheAt (sizes : SizeCaches) (i : ℕ) : CacheState :=
  { sizes.caches i with buddy := sizes.buddy }

def setCache (sizes : SizeCaches) (i : ℕ) (state : CacheState) : SizeCaches :=
  { sizes with caches := Function.update sizes.caches i state, buddy := state.buddy }

/-- `*object = cacheSizes[i].cache`.  The header of a small slab begins with its link to the
next one, and lies where the object does if nothing was reserved for it. -/
def storePointer (sizes : SizeCaches) (i object : ℕ) : Outcome SizeCaches :=
  if object = 0 then .error .fault
  else
    let state := sizes.caches i
    let links :=
      if sizeKind i = .small ∧ object ∈ state.created then
        setNext state.links object (sizes.pointers i)
      else state.links
    .ok { sizes with
      caches := Function.update sizes.caches i { state with links := links }
      words := Function.update sizes.words object (sizes.pointers i) }

/-- `*object`, which is the link of a header if the header lies there. -/
def loadPointer (sizes : SizeCaches) (object : ℕ) : ℕ :=
  match (List.range 9).find? fun i => sizeKind i = .small ∧ object ∈ (sizes.caches i).created with
  | none => sizes.words object
  | some i => ((sizes.caches i).links object).next

/-- What a large cache asks of the size caches for itself is in `supply`. -/
def allocateFromSizeSlabs (supply : Supply) (size : ℕ) (sizes : SizeCaches) :
    Outcome (ℕ × SizeCaches) :=
  let i := sizeClass size
  if cacheSize i = 0 ∨ sizes.pointers i = 0 then
    .error (noSuitableCache size)
  else do
    let (object, state) ← (sizeKind i).allocateObject supply (sizes.cacheAt i)
    let sizes ← (sizes.setCache i state).storePointer i object
    .ok (u32 (object + sizeofPointer), sizes)

/-- A call through a word that is no pointer to a cache faults. -/
def freeFromSizeSlabs (supply : Supply) (address : ℕ) (sizes : SizeCaches) :
    Outcome SizeCaches :=
  let object := sub32 address sizeofPointer
  match (List.range 9).find? fun i => sizes.pointers i = sizes.loadPointer object with
  | none => .error .fault
  | some i => do
      let state ← (sizeKind i).freeObject supply object (sizes.cacheAt i)
      .ok (sizes.setCache i state)

end SizeCaches

/-! ## Making the caches -/

/-- `itoa` with base 10, for numbers of at most nine digits. -/
def itoa : (digits n : ℕ) → List UInt8
  | 0, _ => []
  | digits + 1, n =>
      if n < 10 then [UInt8.ofNat (48 + n)] else itoa digits (n / 10) ++ [UInt8.ofNat (48 + n % 10)]

/-- `"size-"` and the size. -/
def sizeName (size : ℕ) : List UInt8 := [115, 105, 122, 101, 45] ++ itoa 9 size

/-- The loop of `InitializeSizeCaches`.  `buffers` are the addresses that `CreateCache`
gets for the cache objects. -/
def createSizeCaches (buffers : ℕ → ℕ) : List ℕ → List SlabCache → Outcome (List SlabCache)
  | [], caches => .ok caches
  | size :: sizes, caches =>
      if size = 0 then .ok caches
      else do
        match ← createCache caches (buffers caches.length) (some (sizeName size)) size 0 with
        | none => .error (notCreated size)
        | some (.small cache) => createSizeCaches buffers sizes (caches ++ [cache])
        | some (.large cache) => createSizeCaches buffers sizes (caches ++ [cache])

def initializeSizeCaches (buffers : ℕ → ℕ) : Outcome (List SlabCache) :=
  createSizeCaches buffers cacheSizes []

/-- A size cache as it is made. -/
def sizeCache (i : ℕ) : SlabCache where
  fullSlabList := .empty
  partialSlabList := .empty
  freeSlabList := .empty
  name := sizeName (cacheSize i)
  objSize := cacheSize i
  order := [0, 0, 0, 0, 0, 0, 0, 0, 1].getD i 0
  objectsPerSlab := [113, 59, 30, 15, 8, 4, 2, 1, 1].getD i 0
  objectsAllocated := 0

theorem createCache_of_ne_zero {buffer : ℕ} (hbuffer : buffer ≠ 0) (caches : List SlabCache)
    (name : Option (List UInt8)) (objectSize alignment : ℕ) :
    createCache caches buffer name objectSize alignment =
      createCache caches 1 name objectSize alignment := by
  cases name with
  | none => rfl
  | some name => simp only [createCache, if_neg hbuffer, if_neg Nat.one_ne_zero]

theorem createSizeCaches_of_ne_zero {buffers : ℕ → ℕ} (hbuffers : ∀ i, buffers i ≠ 0)
    (sizes : List ℕ) (caches : List SlabCache) :
    createSizeCaches buffers sizes caches = createSizeCaches (fun _ => 1) sizes caches := by
  induction sizes generalizing caches with
  | nil => rfl
  | cons size sizes ih =>
      simp only [createSizeCaches, createCache_of_ne_zero (hbuffers _), ih]

/-- All nine caches are made. -/
theorem initializeSizeCaches_eq {buffers : ℕ → ℕ} (hbuffers : ∀ i, buffers i ≠ 0) :
    initializeSizeCaches buffers = .ok ((List.range 9).map sizeCache) := by
  rw [initializeSizeCaches, createSizeCaches_of_ne_zero hbuffers]
  rfl

/-! ## The search -/

/-- The search ends at the first entry that is large enough, or at the end. -/
theorem searchSize_spec {totalSize : ℕ} {sizes : List ℕ} (hend : 0 ∈ sizes) (start : ℕ) :
    ∃ k, searchSize totalSize sizes start = start + k ∧ k < sizes.length ∧
      (sizes.getD k 0 = 0 ∨ totalSize ≤ sizes.getD k 0) ∧
        ∀ j < k, sizes.getD j 0 < totalSize := by
  induction sizes generalizing start with
  | nil => exact absurd hend List.not_mem_nil
  | cons size sizes ih =>
      rw [searchSize]
      split
      · rename_i hsmall
        have hrest : 0 ∈ sizes := (List.mem_cons.mp hend).resolve_left hsmall.1.symm
        obtain ⟨k, hsearch, hlt, hfound, hbefore⟩ := ih hrest (start + 1)
        refine ⟨k + 1, by rw [hsearch, Nat.add_right_comm, Nat.add_assoc],
          Nat.succ_lt_succ hlt, hfound, fun j hj => ?_⟩
        cases j with
        | zero => exact hsmall.2
        | succ j => exact hbefore j (Nat.lt_of_succ_lt_succ hj)
      · rename_i hstop
        refine ⟨0, rfl, Nat.succ_pos _, ?_, fun j hj => absurd hj (Nat.not_lt_zero j)⟩
        rw [List.getD_cons_zero]
        omega

/-- A request that does not wrap selects the smallest cache that holds it. -/
theorem sizeClass_spec {size : ℕ} (hsize : size + sizeofPointer < 2 ^ 32) :
    cacheSize (sizeClass size) = 0 ∨ sizeClass size < 9 ∧
      size + sizeofPointer ≤ cacheSize (sizeClass size) ∧
      ∀ j < sizeClass size, cacheSize j < size + sizeofPointer := by
  obtain ⟨k, hsearch, hlt, hfound, hbefore⟩ :=
    @searchSize_spec (size + sizeofPointer) cacheSizes (by decide) 0
  have hclass : sizeClass size = k := by
    rw [sizeClass, u32_of_lt hsize, hsearch, Nat.zero_add]
  rw [hclass]
  refine hfound.imp id fun hholds => ⟨?_, hholds, hbefore⟩
  by_contra hlast
  have hnine : k = 9 := le_antisymm (Nat.le_of_lt_succ hlt) (not_lt.mp hlast)
  subst hnine
  exact absurd hholds (Nat.not_succ_le_zero _)

end GeexOS.SlabAllocator
