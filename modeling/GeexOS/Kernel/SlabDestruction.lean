import GeexOS.Kernel.SlabRuns

/-!
# Destroying a cache

What one cache obtains from the rest of the allocator and gives back: its own
object, the blocks of its slabs, and for a large cache the descriptors, the free
arrays and the array of its hash table.
-/

namespace GeexOS.SlabAllocator

open GeexOS.Words
open GeexOS.Halting
open GeexOS.DataStructures
open CacheState

/-- `AllocateObject` of other caches: it returns an object that is not live.
`contents` is what the memory at an address holds. -/
structure ObjectSource where
  object : Finset ℕ → ℕ
  object_notMem : ∀ live, object live ∉ live
  contents : ℕ → ℕ → ℕ

/-- The live objects of `cacheHead` and of the size caches, and the caches on
`cacheList` with their addresses. -/
structure AllocatorState where
  headObjects : Finset ℕ
  sizeObjects : Finset ℕ
  cacheList : List (ℕ × SlabCache)

/-- A cache that was created, with the addresses of its own object, of the arrays
of its slabs and of the array of its hash table.  `accessedFreed` records an access
to an object or a slab of the cache that was freed before. -/
structure CreatedCache where
  allocator : AllocatorState
  kind : CacheKind
  address : ℕ
  state : CacheState
  freeArray : ℕ → ℕ
  storage : Option ℕ
  accessedFreed : Bool

namespace CreatedCache

def objects (cache : CreatedCache) : Finset ℕ :=
  match cache.kind with
  | .small => cache.allocator.headObjects
  | .large => cache.allocator.sizeObjects

/-- Accesses a member of the cache. -/
def accessThis (cache : CreatedCache) : CreatedCache :=
  { cache with accessedFreed := cache.accessedFreed || decide (cache.address ∉ cache.objects) }

/-- The header of a small slab lies in its block, that of a large one is an object
of a size cache. -/
def slabIsLive (cache : CreatedCache) (slab : ℕ) : Bool :=
  match cache.kind with
  | .small => decide (⟨slab, cache.state.cache.order⟩ ∈ cache.state.buddy.live)
  | .large => decide (slab ∈ cache.allocator.sizeObjects)

/-- Accesses a slab. -/
def accessSlab (slab : ℕ) (cache : CreatedCache) : CreatedCache :=
  { cache with accessedFreed := cache.accessedFreed || !cache.slabIsLive slab }

def allocateFromSizeSlabs (source : ObjectSource) (cache : CreatedCache) : ℕ × CreatedCache :=
  let address := source.object cache.allocator.sizeObjects
  (address, { cache with allocator := { cache.allocator with
    sizeObjects := insert address cache.allocator.sizeObjects } })

/-- The word before an object names its size cache; before other addresses there
is no such word. -/
def freeFromSizeSlabs (address : ℕ) (cache : CreatedCache) : Outcome CreatedCache :=
  if address ∈ cache.allocator.sizeObjects then
    .ok { cache with allocator := { cache.allocator with
      sizeObjects := cache.allocator.sizeObjects.erase address } }
  else .error .fault

/-! ## The calls of large caches -/

/-- `_Resize` leaves `oldTable` alone when there is no array yet. -/
def resizeHashTableIfNeeded (source : ObjectSource) (cache : CreatedCache) :
    Outcome CreatedCache := do
  let cache := cache.accessThis
  let hashSize ← cache.state.hashTable.resizeNeeded
  if hashSize = 0 then .ok cache
  else do
    let (newBuffer, cache) := cache.allocateFromSizeSlabs source
    let again ← cache.state.hashTable.resizeNeeded
    if again = hashSize then do
      let (_, table) ← cache.state.hashTable.resize (LargeCache.definitionOf cache.state)
        (source.contents newBuffer) hashSize true
      match cache.storage with
      | none => .error .fault
      | some oldTable =>
          freeFromSizeSlabs oldTable { cache with
            state := { cache.state with hashTable := table }, storage := some newBuffer }
    else .ok cache

/-- The first `Insert` allocates the array of the table. -/
def allocateStorage (source : ObjectSource) (cache : CreatedCache) : CreatedCache :=
  if cache.state.hashTable.curTableSize = 0 then
    let (newStorage, cache) := cache.allocateFromSizeSlabs source
    { cache with storage := some newStorage }
  else cache

def insertSlab (source : ObjectSource) (slab : ℕ) (cache : CreatedCache) :
    Outcome CreatedCache := do
  let cache := cache.allocateStorage source
  let (_, table) ← cache.state.hashTable.insert (LargeCache.definitionOf cache.state) false
    (some (source.contents (cache.storage.getD 0))) slab
  .ok { cache with state := { cache.state with hashTable := table } }

def growLarge (source : ObjectSource) (cache : CreatedCache) : Outcome (ℕ × CreatedCache) := do
  let cache := cache.accessThis
  let (slab, cache) := cache.allocateFromSizeSlabs source
  let (objectStart, buddy) ← allocateBuddy cache.state.buddy cache.state.cache.order
  let (array, cache) := cache.allocateFromSizeSlabs source
  let state := { cache.state with buddy := buddy }.initSlab slab
    ⟨objectStart, 0, 0, slabMagicValid⟩
  let state ← state.prependTo .free slab
  let cache ← insertSlab source slab { cache with
    state := state, freeArray := Function.update cache.freeArray slab array }
  let cache ← cache.resizeHashTableIfNeeded source
  .ok (slab, cache)

def releaseLarge (source : ObjectSource) (slab : ℕ) (cache : CreatedCache) :
    Outcome CreatedCache := do
  let cache := cache.accessThis.accessSlab slab
  cache.state.checkMagic slab
  let state := cache.state.retireSlab slab
  let (_, table) ← state.hashTable.remove (LargeCache.definitionOf state) false none slab
  let cache ← freeFromSizeSlabs (cache.freeArray slab)
    { cache with state := { state with hashTable := table } }
  let cache := cache.accessThis.accessSlab slab
  let buddy ← freeBuddy cache.state.buddy (cache.state.slabs slab).objectStart
    cache.state.cache.order
  let cache ← freeFromSizeSlabs slab
    { cache with state := { cache.state with buddy := buddy } }
  cache.resizeHashTableIfNeeded source

/-! ## The calls of any cache -/

def grow (source : ObjectSource) (cache : CreatedCache) : Outcome (ℕ × CreatedCache) :=
  match cache.kind with
  | .small => do
      let (slab, state) ← SmallCache.grow cache.state
      .ok (slab, { cache.accessThis with state := state })
  | .large => cache.growLarge source

def getNonEmptySlab (source : ObjectSource) (cache : CreatedCache) :
    Outcome (ℕ × CreatedCache) :=
  let cache := cache.accessThis
  if cache.state.cache.partialSlabList.isEmpty then
    if cache.state.cache.freeSlabList.isEmpty then cache.grow source
    else .ok (cache.state.cache.freeSlabList.head, cache)
  else .ok (cache.state.cache.partialSlabList.head, cache)

def allocateObject (source : ObjectSource) (cache : CreatedCache) :
    Outcome (ℕ × CreatedCache) := do
  let (slab, cache) ← cache.getNonEmptySlab source
  let cache := cache.accessThis.accessSlab slab
  let (object, state) ← takeObject slab cache.state
  .ok (object, { cache with state := state })

def freeObject (source : ObjectSource) (object : ℕ) (cache : CreatedCache) :
    Outcome CreatedCache :=
  match cache.kind with
  | .small => do
      let cache := cache.accessThis.accessSlab (object &&& pagealignMask)
      let state ← SmallCache.freeObject object cache.state
      .ok { cache with state := state }
  | .large => do
      let cache := cache.accessThis
      let slab ← cache.state.hashTable.lookup (LargeCache.definitionOf cache.state)
        (LargeCache.lowerBoundary object (1 <<< pageShift <<< cache.state.cache.order))
      let cache := cache.accessSlab slab
      let state ← cache.state.putObject slab object
      let cache ← resizeHashTableIfNeeded source { cache with state := state }
      .ok { cache.accessThis with state := cache.state.countFreed }

def releaseSlab (source : ObjectSource) (slab : ℕ) (cache : CreatedCache) :
    Outcome CreatedCache :=
  match cache.kind with
  | .small => do
      let cache := cache.accessThis.accessSlab slab
      let state ← SmallCache.releaseSlab slab cache.state
      .ok { cache with state := state }
  | .large => cache.releaseLarge source slab

def releaseUnusedMemory (source : ObjectSource) : (fuel : ℕ) → CreatedCache →
    Outcome CreatedCache
  | 0, _ => .error .diverges
  | fuel + 1, cache =>
      let cache := cache.accessThis
      let curSlab := cache.state.cache.freeSlabList.head
      if curSlab = 0 then .ok cache
      else do
        let cache ← releaseSlab source curSlab
          { cache with state := cache.state.removeFrom .free curSlab }
        releaseUnusedMemory source fuel cache

/-- A loop of `Destroy`. -/
def destroySlabs (source : ObjectSource) : (fuel curSlab : ℕ) → CreatedCache →
    Outcome CreatedCache
  | 0, _, _ => .error .diverges
  | fuel + 1, curSlab, cache =>
      if curSlab = 0 then .ok cache
      else do
        let cache := cache.accessSlab curSlab
        let nextSlab := (cache.state.links curSlab).next
        let cache ← cache.releaseSlab source curSlab
        destroySlabs source fuel nextSlab cache

/-- `SlabCache::Destroy`. -/
def destroyLists (source : ObjectSource) (cache : CreatedCache) : Outcome CreatedCache := do
  let cache := cache.accessThis
  let cache ← destroySlabs source addresses cache.state.cache.freeSlabList.head cache
  let cache := cache.accessThis
  let cache ← destroySlabs source addresses cache.state.cache.partialSlabList.head cache
  let cache := cache.accessThis
  destroySlabs source addresses cache.state.cache.fullSlabList.head cache

/-- `Destroy`; that of a large cache ends with the destructor of the hash table. -/
def destroy (source : ObjectSource) (cache : CreatedCache) : Outcome CreatedCache :=
  match cache.kind with
  | .small => cache.destroyLists source
  | .large => do
      let cache ← cache.destroyLists source
      let cache := cache.accessThis
      match cache.storage with
      | none => .ok cache
      | some storage => cache.freeFromSizeSlabs storage

/-- `cacheList.Remove(cache)`, which reads the links of the cache. -/
def removeFromList (cache : CreatedCache) : CreatedCache :=
  let cache := cache.accessThis
  { cache with allocator := { cache.allocator with
    cacheList := cache.allocator.cacheList.eraseP fun entry => entry.1 = cache.address } }

/-- `if(cache->objSize > SLAB_LIMIT) FreeFromSizeSlabs(cache)`. -/
def freeThis (cache : CreatedCache) : Outcome CreatedCache :=
  if slabLimit < cache.state.cache.objSize then cache.freeFromSizeSlabs cache.address
  else .ok cache

/-- `SlabAllocator::DestroyCache`. -/
def destroyCache (source : ObjectSource) (cache : CreatedCache) : Outcome CreatedCache := do
  let cache ← cache.removeFromList.freeThis
  cache.destroy source

end CreatedCache

/-- `SlabAllocator::CreateCache`, with the region and the memory the new cache
works on. -/
def AllocatorState.createCache (allocator : AllocatorState) (heads sizes : ObjectSource)
    (memory : CacheState) (freeArray : ℕ → ℕ) (cacheName : Option (List UInt8))
    (objectSize alignment : ℕ) : Outcome (Option CreatedCache) := do
  let buffer := if slabLimit < objectSize then sizes.object allocator.sizeObjects
    else heads.object allocator.headObjects
  let created ← SlabAllocator.createCache (allocator.cacheList.map Prod.snd) buffer cacheName
    objectSize alignment
  match created with
  | none => .ok none
  | some (.small cache) =>
      .ok (some
        { allocator := { allocator with
            headObjects := insert buffer allocator.headObjects
            cacheList := allocator.cacheList ++ [(buffer, cache)] }
          kind := .small
          address := buffer
          state := { memory with
            cache := cache, hashTable := .new memory.hashTable.links, created := ∅ }
          freeArray := freeArray
          storage := none
          accessedFreed := false })
  | some (.large cache) =>
      .ok (some
        { allocator := { allocator with
            sizeObjects := insert buffer allocator.sizeObjects
            cacheList := allocator.cacheList ++ [(buffer, cache)] }
          kind := .large
          address := buffer
          state := { memory with
            cache := cache, hashTable := .new memory.hashTable.links, created := ∅ }
          freeArray := freeArray
          storage := none
          accessedFreed := false })

/-! ## The slabs of the cache -/

namespace CreatedCache

variable {source : ObjectSource} {cache cache' : CreatedCache} {slab object address : ℕ}

theorem free_eq_ok (hcall : cache.freeFromSizeSlabs address = .ok cache') :
    address ∈ cache.allocator.sizeObjects ∧
      cache' = { cache with allocator := { cache.allocator with
        sizeObjects := cache.allocator.sizeObjects.erase address } } := by
  rw [freeFromSizeSlabs] at hcall
  split at hcall
  · rename_i hmem
    exact ⟨hmem, (Except.ok.inj hcall).symm⟩
  · cases hcall

theorem resizeHashTableIfNeeded_state
    (hcall : cache.resizeHashTableIfNeeded source = .ok cache') :
    ∃ contents, LargeCache.resizeHashTableIfNeeded contents cache.state = .ok cache'.state := by
  obtain ⟨hashSize, hneeded, hcall⟩ := bind_eq_ok.mp hcall
  have hneeded' : cache.state.hashTable.resizeNeeded = .ok hashSize := hneeded
  split at hcall
  · rename_i hzero
    rw [← Except.ok.inj hcall]
    refine ⟨fun _ => 0, ?_⟩
    rw [LargeCache.resizeHashTableIfNeeded, hneeded', ok_bind, if_pos hzero]
    rfl
  rename_i hne
  obtain ⟨again, hagain, hcall⟩ := bind_eq_ok.mp hcall
  have hsame : again = hashSize := Except.ok.inj (hagain.symm.trans hneeded)
  rw [if_pos hsame] at hcall
  obtain ⟨⟨done, table⟩, hresize, hcall⟩ := bind_eq_ok.mp hcall
  dsimp only at hcall
  split at hcall
  · cases hcall
  · obtain ⟨_, rfl⟩ := free_eq_ok hcall
    refine ⟨source.contents (source.object cache.allocator.sizeObjects), ?_⟩
    rw [LargeCache.resizeHashTableIfNeeded, hneeded', ok_bind, if_neg hne, ok_bind, if_pos rfl]
    exact bind_eq_ok.mpr ⟨(done, table), hresize, rfl⟩

theorem allocateStorage_state (source : ObjectSource) (cache : CreatedCache) :
    (cache.allocateStorage source).state = cache.state := by
  rw [allocateStorage]
  split <;> rfl

theorem insertSlab_state (hcall : cache.insertSlab source slab = .ok cache') :
    ∃ contents done table, cache.state.hashTable.insert (LargeCache.definitionOf cache.state)
        false (some contents) slab = .ok (done, table) ∧
      cache'.state = { cache.state with hashTable := table } := by
  obtain ⟨⟨done, table⟩, hinsert, hcall⟩ := bind_eq_ok.mp hcall
  rw [allocateStorage_state] at hinsert
  refine ⟨_, done, table, hinsert, ?_⟩
  rw [← Except.ok.inj hcall]
  simp only [allocateStorage_state]

theorem growLarge_state (hcall : cache.growLarge source = .ok (slab, cache')) :
    ∃ supply, LargeCache.grow supply cache.state = .ok (slab, cache'.state) := by
  obtain ⟨⟨objectStart, buddy⟩, hbuddy, hcall⟩ := bind_eq_ok.mp hcall
  obtain ⟨state, hprepend, hcall⟩ := bind_eq_ok.mp hcall
  obtain ⟨inserted, hinsert, hcall⟩ := bind_eq_ok.mp hcall
  obtain ⟨resized, hresize, hcall⟩ := bind_eq_ok.mp hcall
  obtain ⟨rfl, rfl⟩ := Prod.mk.inj (Except.ok.inj hcall)
  obtain ⟨first, done, table, htable, hstate⟩ := insertSlab_state hinsert
  obtain ⟨contents, hcontents⟩ := resizeHashTableIfNeeded_state hresize
  refine ⟨⟨source.object cache.allocator.sizeObjects, first, fun _ => contents⟩, ?_⟩
  rw [hstate] at hcontents
  refine bind_eq_ok.mpr ⟨(objectStart, buddy), hbuddy, bind_eq_ok.mpr ⟨state, hprepend, ?_⟩⟩
  refine bind_eq_ok.mpr ⟨(done, table), htable, ?_⟩
  exact bind_eq_ok.mpr ⟨_, hcontents, rfl⟩

theorem releaseLarge_state (hcall : cache.releaseLarge source slab = .ok cache') :
    ∃ supply, LargeCache.releaseSlab supply slab cache.state = .ok cache'.state := by
  obtain ⟨_, hcheck, hcall⟩ := bind_eq_ok.mp hcall
  obtain ⟨⟨done, table⟩, hremove, hcall⟩ := bind_eq_ok.mp hcall
  obtain ⟨freed, hfree, hcall⟩ := bind_eq_ok.mp hcall
  obtain ⟨buddy, hbuddy, hcall⟩ := bind_eq_ok.mp hcall
  obtain ⟨freed', hfree', hcall⟩ := bind_eq_ok.mp hcall
  obtain ⟨_, rfl⟩ := free_eq_ok hfree
  obtain ⟨_, rfl⟩ := free_eq_ok hfree'
  obtain ⟨contents, hcontents⟩ := resizeHashTableIfNeeded_state hcall
  refine ⟨⟨0, contents, fun _ => contents⟩, ?_⟩
  refine bind_eq_ok.mpr ⟨(), hcheck, bind_eq_ok.mpr ⟨(done, table), hremove, ?_⟩⟩
  exact bind_eq_ok.mpr ⟨buddy, hbuddy, hcontents⟩

theorem getNonEmptySlab_state {growSlabs : CacheState → Outcome (ℕ × CacheState)}
    (hcall : cache.getNonEmptySlab source = .ok (slab, cache'))
    (hgrow : cache.accessThis.grow source = .ok (slab, cache') →
      growSlabs cache.state = .ok (slab, cache'.state)) :
    CacheState.getNonEmptySlab growSlabs cache.state = .ok (slab, cache'.state) := by
  have hstate : cache.accessThis.state = cache.state := rfl
  simp only [getNonEmptySlab, hstate] at hcall
  rw [CacheState.getNonEmptySlab]
  split at hcall
  · rename_i hpartly
    rw [if_pos hpartly]
    split at hcall
    · rename_i hfree
      rw [if_pos hfree]
      exact hgrow hcall
    · rename_i hfree
      obtain ⟨rfl, rfl⟩ := Prod.mk.inj (Except.ok.inj hcall)
      rw [if_neg hfree, hstate]
  · rename_i hpartly
    obtain ⟨rfl, rfl⟩ := Prod.mk.inj (Except.ok.inj hcall)
    rw [if_neg hpartly, hstate]

theorem grow_state (hcall : cache.grow source = .ok (slab, cache')) :
    ∃ supply, (match cache.kind with
      | .small => SmallCache.grow cache.state
      | .large => LargeCache.grow supply cache.state) = .ok (slab, cache'.state) := by
  rw [grow] at hcall
  split at hcall
  · obtain ⟨⟨slab', state⟩, hgrow, hcall⟩ := bind_eq_ok.mp hcall
    obtain ⟨rfl, rfl⟩ := Prod.mk.inj (Except.ok.inj hcall)
    exact ⟨noSupply, hgrow⟩
  · exact growLarge_state hcall

/-- A call of a created cache is the call of its slabs. -/
theorem allocateObject_state (hcall : cache.allocateObject source = .ok (object, cache')) :
    ∃ supply, cache.kind.allocateObject supply cache.state = .ok (object, cache'.state) := by
  obtain ⟨⟨slab, middle⟩, hslab, hcall⟩ := bind_eq_ok.mp hcall
  obtain ⟨⟨taken, state⟩, htake, hcall⟩ := bind_eq_ok.mp hcall
  obtain ⟨rfl, rfl⟩ := Prod.mk.inj (Except.ok.inj hcall)
  obtain ⟨supply, hsupply⟩ : ∃ supply, cache.accessThis.grow source = .ok (slab, middle) →
      (match cache.kind with
        | .small => SmallCache.grow cache.state
        | .large => LargeCache.grow supply cache.state) = .ok (slab, middle.state) := by
    by_cases hgrow : cache.accessThis.grow source = .ok (slab, middle)
    · obtain ⟨supply, hstate⟩ := grow_state hgrow
      exact ⟨supply, fun _ => hstate⟩
    · exact ⟨noSupply, fun hcall => absurd hcall hgrow⟩
  refine ⟨supply, ?_⟩
  cases hkind : cache.kind with
  | small =>
      rw [hkind] at hsupply
      exact bind_eq_ok.mpr ⟨_, getNonEmptySlab_state hslab hsupply, htake⟩
  | large =>
      rw [hkind] at hsupply
      exact bind_eq_ok.mpr ⟨_, getNonEmptySlab_state hslab hsupply, htake⟩

theorem freeObject_state (hcall : cache.freeObject source object = .ok cache') :
    ∃ supply, cache.kind.freeObject supply object cache.state = .ok cache'.state := by
  rw [freeObject] at hcall
  split at hcall
  · rename_i hkind
    obtain ⟨state, hfree, hcall⟩ := bind_eq_ok.mp hcall
    rw [← Except.ok.inj hcall, hkind]
    exact ⟨noSupply, hfree⟩
  · rename_i hkind
    obtain ⟨slab, hlookup, hcall⟩ := bind_eq_ok.mp hcall
    obtain ⟨state, hput, hcall⟩ := bind_eq_ok.mp hcall
    obtain ⟨resized, hresize, hcall⟩ := bind_eq_ok.mp hcall
    obtain ⟨contents, hcontents⟩ := resizeHashTableIfNeeded_state hresize
    rw [← Except.ok.inj hcall, hkind]
    refine ⟨⟨0, contents, fun _ => contents⟩, ?_⟩
    refine bind_eq_ok.mpr ⟨slab, hlookup, bind_eq_ok.mpr ⟨state, hput, ?_⟩⟩
    exact bind_eq_ok.mpr ⟨_, hcontents, rfl⟩

theorem releaseSlab_state (hcall : cache.releaseSlab source slab = .ok cache') :
    ∃ supply, (match cache.kind with
      | .small => SmallCache.releaseSlab slab cache.state
      | .large => LargeCache.releaseSlab supply slab cache.state) = .ok cache'.state := by
  rw [releaseSlab] at hcall
  split at hcall
  · obtain ⟨state, hrelease, hcall⟩ := bind_eq_ok.mp hcall
    rw [← Except.ok.inj hcall]
    exact ⟨noSupply, hrelease⟩
  · exact releaseLarge_state hcall

end CreatedCache

end GeexOS.SlabAllocator
