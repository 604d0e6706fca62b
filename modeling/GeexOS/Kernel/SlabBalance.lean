import GeexOS.Kernel.SlabDestruction
import Mathlib.Data.Finset.Fold

/-!
# What is left of a destroyed cache

`DestroyCache` frees the object of a large cache before the cache works on its
lists for the last time, and never frees that of a small one.
-/

namespace GeexOS.SlabAllocator

open GeexOS.Words
open GeexOS.Halting
open GeexOS.DataStructures
open CacheState

/-! ## What every call keeps -/

namespace CreatedCache

variable {source : ObjectSource} {cache cache' cache'' : CreatedCache} {slab address fuel : ℕ}

/-- The object of a large cache is freed at most where the next access notices. -/
def Loose (cache : CreatedCache) : Prop :=
  cache.kind = .large → cache.accessedFreed = true ∨
    cache.address ∉ cache.allocator.sizeObjects ∨ cache.storage ≠ some cache.address

/-- The object of a large cache is live and not the array of its hash table. -/
def Held (cache : CreatedCache) : Prop :=
  cache.kind = .large → cache.accessedFreed = true ∨
    (cache.address ∈ cache.allocator.sizeObjects ∧ cache.storage ≠ some cache.address)

/-- What a call of a cache does to its surroundings: the objects of `cacheHead` stay
as they are, and no access to freed memory is forgotten. -/
structure Frame (cache cache' : CreatedCache) : Prop where
  kind : cache'.kind = cache.kind
  address : cache'.address = cache.address
  headObjects : cache'.allocator.headObjects = cache.allocator.headObjects
  accessedFreed : cache.accessedFreed = true → cache'.accessedFreed = true

theorem Held.loose (hheld : Held cache) : Loose cache := fun hkind =>
  (hheld hkind).imp id fun hboth => Or.inr hboth.2

theorem Frame.refl (cache : CreatedCache) : Frame cache cache := ⟨rfl, rfl, rfl, id⟩

theorem Frame.trans (hframe : Frame cache cache') (hframe' : Frame cache' cache'') :
    Frame cache cache'' where
  kind := hframe'.kind.trans hframe.kind
  address := hframe'.address.trans hframe.address
  headObjects := hframe'.headObjects.trans hframe.headObjects
  accessedFreed := fun hfreed => hframe'.accessedFreed (hframe.accessedFreed hfreed)

theorem accessThis_frame (cache : CreatedCache) : Frame cache cache.accessThis :=
  ⟨rfl, rfl, rfl, fun hfreed => by rw [accessThis, hfreed, Bool.true_or]⟩

theorem accessSlab_frame (slab : ℕ) (cache : CreatedCache) :
    Frame cache (cache.accessSlab slab) :=
  ⟨rfl, rfl, rfl, fun hfreed => by rw [accessSlab, hfreed, Bool.true_or]⟩

/-- An access to a member notices that the object was freed. -/
theorem Loose.accessThis (hloose : Loose cache) : Held cache.accessThis := by
  intro hkind
  have hobjects : cache.objects = cache.allocator.sizeObjects := by
    rw [objects, show cache.kind = .large from hkind]
  by_cases hlive : cache.address ∈ cache.allocator.sizeObjects
  · rcases hloose hkind with hfreed | hgone | hother
    · exact Or.inl ((accessThis_frame cache).accessedFreed hfreed)
    · exact absurd hlive hgone
    · exact Or.inr ⟨hlive, hother⟩
  · left
    rw [CreatedCache.accessThis, hobjects]
    exact (Bool.or_eq_true _ _).mpr (Or.inr (decide_eq_true hlive))

theorem Held.accessSlab (hheld : Held cache) (slab : ℕ) : Held (cache.accessSlab slab) :=
  fun hkind => (hheld hkind).imp (accessSlab_frame slab cache).accessedFreed id

theorem Loose.accessSlab (hloose : Loose cache) (slab : ℕ) : Loose (cache.accessSlab slab) :=
  fun hkind => (hloose hkind).imp (accessSlab_frame slab cache).accessedFreed id

theorem Held.allocate (hheld : Held cache) (source : ObjectSource) :
    Held (cache.allocateFromSizeSlabs source).2 := fun hkind =>
  (hheld hkind).imp id fun hboth => ⟨Finset.mem_insert_of_mem hboth.1, hboth.2⟩

/-- A new array is not the object of the cache. -/
theorem Held.setStorage (hheld : Held cache) (source : ObjectSource) (state : CacheState) :
    Held { (cache.allocateFromSizeSlabs source).2 with
      state := state, storage := some (cache.allocateFromSizeSlabs source).1 } := fun hkind =>
  (hheld hkind).imp id fun hboth => by
    refine ⟨Finset.mem_insert_of_mem hboth.1, fun heq => ?_⟩
    have hsame : source.object cache.allocator.sizeObjects = cache.address := Option.some.inj heq
    exact source.object_notMem _ (hsame ▸ hboth.1)

theorem free_frame (hcall : cache.freeFromSizeSlabs address = .ok cache') :
    Frame cache cache' := by
  obtain ⟨_, rfl⟩ := free_eq_ok hcall
  exact ⟨rfl, rfl, rfl, id⟩

theorem Loose.free (hloose : Loose cache)
    (hcall : cache.freeFromSizeSlabs address = .ok cache') : Loose cache' := by
  obtain ⟨_, rfl⟩ := free_eq_ok hcall
  exact fun hkind => (hloose hkind).imp id fun hrest => hrest.imp
    (fun hgone hmem => hgone (Finset.mem_of_mem_erase hmem)) id

/-- A call that frames its surroundings and keeps the object of the cache. -/
structure Kept (cache cache' : CreatedCache) : Prop where
  frame : Frame cache cache'
  loose : Loose cache → Loose cache'

theorem Kept.refl (cache : CreatedCache) : Kept cache cache := ⟨Frame.refl cache, id⟩

theorem Kept.trans (hkept : Kept cache cache') (hkept' : Kept cache' cache'') :
    Kept cache cache'' :=
  ⟨hkept.frame.trans hkept'.frame, fun hloose => hkept'.loose (hkept.loose hloose)⟩

instance : Trans Kept Kept Kept := ⟨Kept.trans⟩

theorem accessThis_kept (cache : CreatedCache) : Kept cache cache.accessThis :=
  ⟨accessThis_frame cache, fun hloose => hloose.accessThis.loose⟩

theorem accessSlab_kept (slab : ℕ) (cache : CreatedCache) :
    Kept cache (cache.accessSlab slab) :=
  ⟨accessSlab_frame slab cache, fun hloose => hloose.accessSlab slab⟩

theorem free_kept (hcall : cache.freeFromSizeSlabs address = .ok cache') : Kept cache cache' :=
  ⟨free_frame hcall, fun hloose => hloose.free hcall⟩

/-- The state of the slabs does not matter. -/
theorem setState_kept (cache : CreatedCache) (state : CacheState) :
    Kept cache { cache with state := state } :=
  ⟨⟨rfl, rfl, rfl, id⟩, id⟩

theorem resizeHashTableIfNeeded_kept
    (hcall : cache.resizeHashTableIfNeeded source = .ok cache') : Kept cache cache' := by
  obtain ⟨hashSize, _, hcall⟩ := bind_eq_ok.mp hcall
  split at hcall
  · rw [← Except.ok.inj hcall]
    exact accessThis_kept cache
  obtain ⟨again, _, hcall⟩ := bind_eq_ok.mp hcall
  split at hcall
  · obtain ⟨⟨_, table⟩, _, hcall⟩ := bind_eq_ok.mp hcall
    dsimp only at hcall
    split at hcall
    · cases hcall
    · have hfree := free_kept hcall
      refine ⟨(accessThis_frame cache).trans (Frame.trans ?_ hfree.frame),
        fun hloose => hfree.loose ?_⟩
      · exact ⟨rfl, rfl, rfl, id⟩
      · exact (hloose.accessThis.setStorage source _).loose
  · rw [← Except.ok.inj hcall]
    exact ⟨(accessThis_frame cache).trans ⟨rfl, rfl, rfl, id⟩,
      fun hloose => (hloose.accessThis.allocate source).loose⟩

theorem allocateStorage_kept (source : ObjectSource) (cache : CreatedCache) :
    Frame cache (cache.allocateStorage source) ∧
      (Held cache → Held (cache.allocateStorage source)) := by
  rw [allocateStorage]
  split
  · exact ⟨⟨rfl, rfl, rfl, id⟩, fun hheld => hheld.setStorage source cache.state⟩
  · exact ⟨Frame.refl cache, id⟩

theorem insertSlab_kept (hcall : cache.insertSlab source slab = .ok cache') :
    Frame cache cache' ∧ (Held cache → Held cache') := by
  obtain ⟨⟨_, table⟩, _, hcall⟩ := bind_eq_ok.mp hcall
  obtain ⟨hframe, hheld⟩ := allocateStorage_kept source cache
  rw [← Except.ok.inj hcall]
  exact ⟨hframe.trans ⟨rfl, rfl, rfl, id⟩, hheld⟩

theorem growLarge_kept (hcall : cache.growLarge source = .ok (slab, cache')) :
    Kept cache cache' := by
  obtain ⟨⟨objectStart, buddy⟩, _, hcall⟩ := bind_eq_ok.mp hcall
  obtain ⟨state, _, hcall⟩ := bind_eq_ok.mp hcall
  obtain ⟨inserted, hinsert, hcall⟩ := bind_eq_ok.mp hcall
  obtain ⟨resized, hresize, hcall⟩ := bind_eq_ok.mp hcall
  obtain ⟨_, rfl⟩ := Prod.mk.inj (Except.ok.inj hcall)
  obtain ⟨hframe, hheld⟩ := insertSlab_kept hinsert
  have hresized := resizeHashTableIfNeeded_kept hresize
  refine ⟨((accessThis_frame cache).trans (Frame.trans ?_ hframe)).trans hresized.frame,
    fun hloose => hresized.loose (hheld ?_).loose⟩
  · exact ⟨rfl, rfl, rfl, id⟩
  · exact (hloose.accessThis.allocate source).allocate source

theorem releaseLarge_kept (hcall : cache.releaseLarge source slab = .ok cache') :
    Kept cache cache' := by
  obtain ⟨_, _, hcall⟩ := bind_eq_ok.mp hcall
  obtain ⟨⟨_, table⟩, _, hcall⟩ := bind_eq_ok.mp hcall
  obtain ⟨freed, hfree, hcall⟩ := bind_eq_ok.mp hcall
  obtain ⟨buddy, _, hcall⟩ := bind_eq_ok.mp hcall
  obtain ⟨freed', hfree', hcall⟩ := bind_eq_ok.mp hcall
  have hfirst : Kept cache (cache.accessThis.accessSlab slab) :=
    (accessThis_kept cache).trans (accessSlab_kept slab _)
  have hmiddle : Kept freed (freed.accessThis.accessSlab slab) :=
    (accessThis_kept freed).trans (accessSlab_kept slab _)
  calc Kept cache _ := hfirst.trans (setState_kept _ _)
    Kept _ freed := free_kept hfree
    Kept _ _ := hmiddle.trans (setState_kept _ _)
    Kept _ freed' := free_kept hfree'
    Kept _ cache' := resizeHashTableIfNeeded_kept hcall

theorem grow_kept (hcall : cache.grow source = .ok (slab, cache')) : Kept cache cache' := by
  rw [grow] at hcall
  split at hcall
  · obtain ⟨⟨_, state⟩, _, hcall⟩ := bind_eq_ok.mp hcall
    obtain ⟨_, rfl⟩ := Prod.mk.inj (Except.ok.inj hcall)
    exact (accessThis_kept cache).trans (setState_kept _ state)
  · exact growLarge_kept hcall

theorem getNonEmptySlab_kept (hcall : cache.getNonEmptySlab source = .ok (slab, cache')) :
    Kept cache cache' := by
  have hthis := accessThis_kept cache
  simp only [getNonEmptySlab] at hcall
  split at hcall
  · split at hcall
    · exact hthis.trans (grow_kept hcall)
    · obtain ⟨_, rfl⟩ := Prod.mk.inj (Except.ok.inj hcall)
      exact hthis
  · obtain ⟨_, rfl⟩ := Prod.mk.inj (Except.ok.inj hcall)
    exact hthis

theorem allocateObject_kept {object : ℕ}
    (hcall : cache.allocateObject source = .ok (object, cache')) : Kept cache cache' := by
  obtain ⟨⟨slab, middle⟩, hslab, hcall⟩ := bind_eq_ok.mp hcall
  obtain ⟨⟨_, state⟩, _, hcall⟩ := bind_eq_ok.mp hcall
  obtain ⟨_, rfl⟩ := Prod.mk.inj (Except.ok.inj hcall)
  calc Kept cache middle := getNonEmptySlab_kept hslab
    Kept _ middle.accessThis := accessThis_kept middle
    Kept _ _ := (accessSlab_kept slab _).trans (setState_kept _ state)

theorem freeObject_kept {object : ℕ} (hcall : cache.freeObject source object = .ok cache') :
    Kept cache cache' := by
  rw [freeObject] at hcall
  have hthis := accessThis_kept cache
  split at hcall
  · obtain ⟨state, _, hcall⟩ := bind_eq_ok.mp hcall
    rw [← Except.ok.inj hcall]
    exact (hthis.trans (accessSlab_kept _ _)).trans (setState_kept _ state)
  · obtain ⟨slab, _, hcall⟩ := bind_eq_ok.mp hcall
    obtain ⟨state, _, hcall⟩ := bind_eq_ok.mp hcall
    obtain ⟨resized, hresize, hcall⟩ := bind_eq_ok.mp hcall
    rw [← Except.ok.inj hcall]
    calc Kept cache _ := (hthis.trans (accessSlab_kept slab _)).trans (setState_kept _ state)
      Kept _ resized := resizeHashTableIfNeeded_kept hresize
      Kept _ _ := (accessThis_kept resized).trans (setState_kept _ _)

theorem releaseSlab_kept (hcall : cache.releaseSlab source slab = .ok cache') :
    Kept cache cache' := by
  rw [releaseSlab] at hcall
  split at hcall
  · obtain ⟨state, _, hcall⟩ := bind_eq_ok.mp hcall
    rw [← Except.ok.inj hcall]
    exact ((accessThis_kept cache).trans (accessSlab_kept slab _)).trans (setState_kept _ state)
  · exact releaseLarge_kept hcall

theorem releaseUnusedMemory_kept (hcall : cache.releaseUnusedMemory source fuel = .ok cache') :
    Kept cache cache' := by
  induction fuel generalizing cache with
  | zero => cases hcall
  | succ fuel ih =>
      have hthis := accessThis_kept cache
      simp only [releaseUnusedMemory] at hcall
      split at hcall
      · rw [← Except.ok.inj hcall]
        exact hthis
      · obtain ⟨middle, hrelease, hcall⟩ := bind_eq_ok.mp hcall
        calc Kept cache _ := hthis.trans (setState_kept _ _)
          Kept _ middle := releaseSlab_kept hrelease
          Kept _ cache' := ih hcall

theorem destroySlabs_kept (hcall : cache.destroySlabs source fuel slab = .ok cache') :
    Kept cache cache' := by
  induction fuel generalizing cache slab with
  | zero => cases hcall
  | succ fuel ih =>
      rw [destroySlabs] at hcall
      split at hcall
      · rw [← Except.ok.inj hcall]
        exact Kept.refl cache
      · obtain ⟨middle, hrelease, hcall⟩ := bind_eq_ok.mp hcall
        calc Kept cache _ := accessSlab_kept slab cache
          Kept _ middle := releaseSlab_kept hrelease
          Kept _ cache' := ih hcall

/-- `Destroy` begins with an access to the lists of the cache. -/
theorem destroyLists_kept (hcall : cache.destroyLists source = .ok cache') :
    Kept cache.accessThis cache' := by
  obtain ⟨first, hfree, hcall⟩ := bind_eq_ok.mp hcall
  obtain ⟨second, hpartial, hfull⟩ := bind_eq_ok.mp hcall
  calc Kept cache.accessThis first := destroySlabs_kept hfree
    Kept _ first.accessThis := accessThis_kept first
    Kept _ second := destroySlabs_kept hpartial
    Kept _ second.accessThis := accessThis_kept second
    Kept _ cache' := destroySlabs_kept hfull

/-! ## Destroying -/

theorem destroy_frame (hcall : cache.destroy source = .ok cache') :
    Frame cache.accessThis cache' := by
  rw [destroy] at hcall
  split at hcall
  · exact (destroyLists_kept hcall).frame
  · obtain ⟨middle, hlists, hcall⟩ := bind_eq_ok.mp hcall
    have hframe := (destroyLists_kept hlists).frame.trans (accessThis_frame middle)
    dsimp only at hcall
    split at hcall
    · rw [← Except.ok.inj hcall]
      exact hframe
    · exact hframe.trans (free_frame hcall)

/-- `Destroy` of a large cache does not give back the object of the cache. -/
theorem Loose.destroy (hloose : Loose cache) (hkind : cache.kind = .large)
    (hcall : cache.destroy source = .ok cache') :
    cache'.accessedFreed = true ∨ cache'.address ∈ cache'.allocator.sizeObjects := by
  rw [CreatedCache.destroy, hkind] at hcall
  obtain ⟨middle, hlists, hcall⟩ := bind_eq_ok.mp hcall
  have hkept := destroyLists_kept hlists
  have hheld : Held middle.accessThis := (hkept.loose hloose.accessThis.loose).accessThis
  have hkind' : middle.accessThis.kind = .large := hkept.frame.kind.trans hkind
  dsimp only at hcall
  split at hcall
  · rw [← Except.ok.inj hcall]
    exact (hheld hkind').imp id And.left
  · rename_i storage hstorage
    obtain ⟨_, rfl⟩ := free_eq_ok hcall
    refine (hheld hkind').imp id fun hboth => Finset.mem_erase.mpr ⟨fun heq => ?_, hboth.1⟩
    exact hboth.2 (hstorage.trans (congrArg some heq.symm))

/-- A large cache that was freed notices the first access. -/
theorem accessThis_of_notMem (hkind : cache.kind = .large)
    (hgone : cache.address ∉ cache.allocator.sizeObjects) :
    cache.accessThis.accessedFreed = true := by
  rw [accessThis, objects, hkind]
  exact (Bool.or_eq_true _ _).mpr (Or.inr (decide_eq_true hgone))

theorem removeFromList_loose (hloose : Loose cache) : Loose cache.removeFromList :=
  hloose.accessThis.loose

/-- What `DestroyCache` does about the object of a large cache: it frees the object
before the last accesses or not at all. -/
theorem Loose.destroyCache (hloose : Loose cache) (hkind : cache.kind = .large)
    (hcall : cache.destroyCache source = .ok cache') :
    cache'.accessedFreed = true ∨ cache'.address ∈ cache'.allocator.sizeObjects := by
  obtain ⟨middle, hfree, hdestroy⟩ := bind_eq_ok.mp hcall
  rw [freeThis] at hfree
  split at hfree
  · obtain ⟨_, rfl⟩ := free_eq_ok hfree
    left
    refine (destroy_frame hdestroy).accessedFreed (accessThis_of_notMem hkind ?_)
    exact Finset.notMem_erase _ _
  · rw [← Except.ok.inj hfree] at hdestroy
    exact (removeFromList_loose hloose).destroy hkind hdestroy

/-- `DestroyCache` does not call `cacheHead`. -/
theorem destroyCache_headObjects (hcall : cache.destroyCache source = .ok cache') :
    cache'.allocator.headObjects = cache.allocator.headObjects ∧
      cache'.address = cache.address := by
  obtain ⟨middle, hfree, hdestroy⟩ := bind_eq_ok.mp hcall
  have hmiddle : middle.allocator.headObjects = cache.allocator.headObjects ∧
      middle.address = cache.address := by
    rw [freeThis] at hfree
    split at hfree
    · obtain ⟨_, rfl⟩ := free_eq_ok hfree
      exact ⟨rfl, rfl⟩
    · rw [← Except.ok.inj hfree]
      exact ⟨rfl, rfl⟩
  have hframe := (accessThis_frame middle).trans (destroy_frame hdestroy)
  exact ⟨hframe.headObjects.trans hmiddle.1, hframe.address.trans hmiddle.2⟩

end CreatedCache

/-- A call of the cache that comes back. -/
inductive CreatedCacheStep : CreatedCache → CreatedCache → Prop
  | allocateObject {cache cache' : CreatedCache} {object : ℕ} (source : ObjectSource)
      (hcall : cache.allocateObject source = .ok (object, cache')) :
      CreatedCacheStep cache cache'
  | freeObject {cache cache' : CreatedCache} (source : ObjectSource) (object : ℕ)
      (hcall : cache.freeObject source object = .ok cache') : CreatedCacheStep cache cache'
  | releaseUnusedMemory {cache cache' : CreatedCache} (source : ObjectSource)
      (hcall : cache.releaseUnusedMemory source addresses = .ok cache') :
      CreatedCacheStep cache cache'

open CreatedCache

variable {cache cache' created : CreatedCache} {allocator : AllocatorState}
variable {heads sizes source : ObjectSource} {memory : CacheState} {freeArray : ℕ → ℕ}
variable {cacheName : Option (List UInt8)} {objectSize alignment : ℕ}

theorem CreatedCacheStep.kept (hstep : CreatedCacheStep cache cache') : Kept cache cache' := by
  cases hstep with
  | allocateObject source hcall => exact allocateObject_kept hcall
  | freeObject source object hcall => exact freeObject_kept hcall
  | releaseUnusedMemory source hcall => exact releaseUnusedMemory_kept hcall

theorem kept_of_run (hrun : Relation.ReflTransGen CreatedCacheStep cache cache') :
    Kept cache cache' := by
  induction hrun with
  | refl => exact Kept.refl cache
  | tail _ hstep ih => exact ih.trans hstep.kept

theorem createCache_large {cacheList : List SlabCache} {buffer : ℕ} {slabCache : SlabCache}
    (hcall : createCache cacheList buffer cacheName objectSize alignment =
      .ok (some (.large slabCache))) : slabLimit < objectSize := by
  cases cacheName with
  | none => cases hcall
  | some name =>
      rw [createCache] at hcall
      -- the name, the order, the names on the list and the buffer may be refused
      iterate 4
        split at hcall
        · cases hcall
      split at hcall
      · assumption
      · obtain ⟨small, _, hsmall⟩ := bind_eq_ok.mp hcall
        cases Option.some.inj (Except.ok.inj hsmall)

/-- The object of a new cache was not live before. -/
theorem createCache_object
    (hcreate : allocator.createCache heads sizes memory freeArray cacheName objectSize alignment =
      .ok (some created)) :
    (created.kind = .large ∧ created.storage = none ∧
        created.address ∉ allocator.sizeObjects) ∨
      (created.address ∉ allocator.headObjects ∧
        created.allocator.headObjects = insert created.address allocator.headObjects) := by
  obtain ⟨result, hcall, hcreate⟩ := bind_eq_ok.mp hcreate
  cases result with
  | none =>
      simp only [Except.ok.injEq, reduceCtorEq] at hcreate
  | some result =>
      cases result with
      | large slabCache =>
          simp only [Except.ok.injEq, Option.some.injEq] at hcreate
          subst hcreate
          refine Or.inl ⟨rfl, rfl, ?_⟩
          simp only [if_pos (createCache_large hcall)]
          exact sizes.object_notMem _
      | small slabCache =>
          obtain ⟨_, _, _, _, hsize, _⟩ := createCache_small hcall
          simp only [Except.ok.injEq, Option.some.injEq] at hcreate
          subst hcreate
          refine Or.inr ⟨?_, rfl⟩
          simp only [if_neg (Nat.not_lt.mpr hsize)]
          exact heads.object_notMem _

/-- The cache gave back what it obtained: the objects of `cacheHead` and of the size
caches are those from before, and no block of a slab is left.  Blocks that the
other caches keep are not among these. -/
structure Balanced (allocator : AllocatorState) (blocks : List Buddy.Allocation)
    (cache : CreatedCache) : Prop where
  headObjects : cache.allocator.headObjects = allocator.headObjects
  sizeObjects : cache.allocator.sizeObjects = allocator.sizeObjects
  blocks : ∀ block, block ∈ cache.state.buddy.live ↔ block ∈ blocks
  cacheList : ∀ entry ∈ cache.allocator.cacheList, entry.1 ≠ cache.address
  accesses : cache.accessedFreed = false

/-- No cache is balanced after `DestroyCache`. -/
theorem not_balanced_of_destroyCache
    (hcreate : allocator.createCache heads sizes memory freeArray cacheName objectSize alignment =
      .ok (some created))
    (hrun : Relation.ReflTransGen CreatedCacheStep created cache) (source : ObjectSource) :
    ¬ ∃ after, cache.destroyCache source = .ok after ∧
      Balanced allocator memory.buddy.live after := by
  rintro ⟨after, hdestroy, hbalanced⟩
  have hkept := kept_of_run hrun
  obtain ⟨hheads, haddress⟩ := destroyCache_headObjects hdestroy
  have hsame : after.address = created.address := haddress.trans hkept.frame.address
  rcases createCache_object hcreate with ⟨hkind, hstorage, hnew⟩ | ⟨hnew, hobjects⟩
  · have hloose : Loose created := fun _ => Or.inr (Or.inr (by simp [hstorage]))
    rcases (hkept.loose hloose).destroyCache (hkept.frame.kind.trans hkind) hdestroy with
      hfreed | hlive
    · rw [hbalanced.accesses] at hfreed
      cases hfreed
    · rw [hbalanced.sizeObjects, hsame] at hlive
      exact hnew hlive
  · have hleft : created.address ∈ after.allocator.headObjects := by
      rw [hheads, hkept.frame.headObjects, hobjects]
      exact Finset.mem_insert_self _ _
    rw [hbalanced.headObjects] at hleft
    exact hnew hleft

/-- The object after the last one, from `0x200000` on. -/
def nextObject : ObjectSource where
  object := fun live => live.fold max 0 id + 0x200000
  object_notMem := fun live hmem => by
    have hle : live.fold max 0 id + 0x200000 ≤ live.fold max 0 id :=
      (Finset.le_fold_max _).2 (.inr ⟨_, hmem, le_rfl⟩)
    omega
  contents := fun _ _ => 0

def noCaches : AllocatorState := ⟨∅, ∅, []⟩

/-- The cache `"a"` for objects of 32 bytes, as it comes from `CreateCache`. -/
def newSmallCache : SlabCache where
  fullSlabList := .empty
  partialSlabList := .empty
  freeSlabList := .empty
  name := [97]
  objSize := 32
  order := 0
  objectsPerSlab := 113
  objectsAllocated := 0

/-- The first cache of an allocator, at its address. -/
def firstCache : CreatedCache :=
  ⟨⟨{0x200000}, ∅, [(0x200000, newSmallCache)]⟩, .small, 0x200000, newSmall newSmallCache,
    fun _ => 0, none, false⟩

theorem createCache_firstCache :
    noCaches.createCache nextObject nextObject (newSmall newSmallCache) (fun _ => 0) (some [97])
      32 0 = .ok (some firstCache) := by
  rfl

/-- The first cache after one `AllocateObject`. -/
theorem not_balanced_of_destroyCache_firstCache :
    ∃ used, used.state.cache.objectsAllocated = 1 ∧
      ¬ ∃ after, CreatedCache.destroyCache nextObject used = .ok after ∧
        Balanced noCaches [] after := by
  have hstep : CreatedCacheStep firstCache _ := .allocateObject nextObject
    (show firstCache.allocateObject nextObject = .ok (0x1001e0, _) from rfl)
  exact ⟨_, rfl, not_balanced_of_destroyCache createCache_firstCache (.single hstep) nextObject⟩

/-- Everything but its object comes back from the first cache. -/
example : (firstCache.allocateObject nextObject >>= fun used =>
    used.2.destroyCache nextObject >>= fun after =>
      .ok (after.state.buddy.live, after.allocator.sizeObjects.card,
        after.allocator.headObjects.card, after.allocator.cacheList.length,
        after.accessedFreed)) = .ok ([], 0, 1, 0, false) := by
  rfl

/-- The object of the first cache is still live after `DestroyCache`. -/
theorem not_balanced :
    ¬ ∀ (allocator : AllocatorState) (heads sizes source : ObjectSource) (memory : CacheState)
      (freeArray : ℕ → ℕ) (cacheName : Option (List UInt8)) (objectSize alignment : ℕ)
      (created cache : CreatedCache),
      allocator.createCache heads sizes memory freeArray cacheName objectSize alignment =
        .ok (some created) →
      Relation.ReflTransGen CreatedCacheStep created cache →
      ∃ after, cache.destroyCache source = .ok after ∧
        Balanced allocator memory.buddy.live after := by
  intro hall
  obtain ⟨after, hdestroy, hbalanced⟩ := hall noCaches nextObject nextObject nextObject
    (newSmall newSmallCache) (fun _ => 0) (some [97]) 32 0 firstCache firstCache
    createCache_firstCache .refl
  have hleft := (destroyCache_headObjects hdestroy).1
  rw [hbalanced.headObjects] at hleft
  exact absurd hleft (by decide)

end GeexOS.SlabAllocator
