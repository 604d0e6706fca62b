import GeexOS.Kernel.HashTableSizing
import GeexOS.Kernel.SlabLayout

/-!
# The calls of small and large caches

Every call of a cache returns and keeps the invariant, as long as the region
has blocks and the size caches serve what a large cache asks for.
-/

namespace GeexOS.SlabAllocator

open GeexOS.Words
open GeexOS.Halting
open GeexOS.Linked
open GeexOS.DataStructures
open CacheState

variable {state state' : CacheState} {lists : SlabList → List ℕ} {chains : ℕ → List ℕ}
variable {live : Finset ℕ} {slab address order object i : ℕ}
variable {buddy buddy' : Buddy.BuddyState} {supply : Supply}

/-! ## Small caches -/

/-- The objects of a small cache end with the page their header starts. -/
structure SmallLayout (state : CacheState) : Prop where
  layout : Layout id state
  order_eq : state.cache.order = 0
  room : state.cache.objSize * state.cache.objectsPerSlab ≤ pageSize

theorem SmallLayout.same (hlayout : SmallLayout state) (hsame : SameSlabs state state') :
    SmallLayout state' where
  layout := hlayout.layout.same hsame
  order_eq := hsame.order_eq.trans hlayout.order_eq
  room := by
    rw [hsame.objSize_eq, hsame.objectsPerSlab_eq]
    exact hlayout.room

theorem SmallLayout.objectStart_eq (hlayout : SmallLayout state)
    (hend : address + pageSize < 2 ^ 32) :
    objectStart state.cache address =
      address + (pageSize - state.cache.objSize * state.cache.objectsPerSlab) := by
  have hshift : (1 <<< 0 <<< pageShift : ℕ) = pageSize := by decide
  have hroom := hlayout.room
  simp only [objectStart, hlayout.order_eq, hshift, sub32, u32, pageSize] at *
  omega

/-- `Grow` adds a slab all of whose slots are free. -/
theorem SmallLayout.grow (hlayout : SmallLayout state)
    (hcache : CacheInvariant state lists chains live)
    (hcall : allocateBuddy state.buddy state.cache.order = .ok (address, buddy'))
    (haddress : address ≠ 0) :
    ∃ state' lists' chains', SmallCache.grow state = .ok (address, state') ∧
      SmallLayout state' ∧ CacheInvariant state' lists' chains' live ∧
      address ∈ state'.created ∧ chains' address ≠ [] := by
  obtain ⟨hregion, hlive, hother, haligned, hend⟩ :=
    hlayout.layout.allocateBuddy hcall haddress
  have hnew : address ∉ state.created := fun hmem => hother address hmem rfl
  have hpage : 2 ^ (state.cache.order + pageShift) = pageSize := by
    rw [hlayout.order_eq]
    rfl
  have hroom := hlayout.room
  have hstart : (initialSlab state.cache address).objectStart = _ :=
    hlayout.objectStart_eq (hpage ▸ hend)
  have hlow : address ≤ (initialSlab state.cache address).objectStart := by
    rw [hstart]
    exact Nat.le_add_right _ _
  have hhigh : (initialSlab state.cache address).objectStart +
      state.cache.objSize * state.cache.objectsPerSlab ≤
        address + 2 ^ (state.cache.order + pageShift) := by
    rw [hstart, hpage]
    omega
  have hheader : NewHeader state (initialSlab state.cache address) :=
    hlayout.layout.newHeader hother haligned hend rfl rfl rfl
      ((Nat.pos_of_ne_zero haddress).trans_le hlow) hlow hhigh
  have hlayout' := hlayout.layout.initSlab hnew hregion
    (fun block hmem => hlive ▸ List.mem_cons_of_mem _ hmem) (hlive ▸ List.mem_cons_self)
    hother hlow hhigh
  have hcache' := hcache.congr_outside buddy' state.hashTable
  obtain ⟨state', lists', hprepend, hsame, hcache''⟩ :=
    hcache'.addSlab haddress hnew ⟨hheader.magic, rfl, rfl, hheader.start_pos, hheader.area_le,
      hheader.apart⟩
  refine ⟨state', lists', _, ?_, ⟨?_, ?_, ?_⟩, hcache'', ?_, ?_⟩
  · simp only [SmallCache.grow, hcall, ok_bind, if_neg haddress]
    exact bind_eq_ok.mpr ⟨state', hprepend, rfl⟩
  · have hid : Function.update id address address = (id : ℕ → ℕ) :=
      Function.update_eq_self address id
    rw [hid] at hlayout'
    exact hlayout'.same hsame.sameSlabs
  · exact hsame.order_eq.trans hlayout.order_eq
  · rw [hsame.objSize_eq, hsame.objectsPerSlab_eq]
    exact hroom
  · rw [hsame.created_eq]
    exact Finset.mem_insert_self _ _
  · rw [Function.update_self, List.ne_nil_iff_length_pos, List.length_range]
    exact hcache.slots.objects_pos

theorem SmallLayout.allocateObject (hlayout : SmallLayout state)
    (hcache : CacheInvariant state lists chains live) (hgrowable : Growable state) :
    ∃ object state' lists' chains', SmallCache.allocateObject state = .ok (object, state') ∧
      SmallLayout state' ∧ object ∉ live ∧
        CacheInvariant state' lists' chains' (insert object live) := by
  refine hcache.allocateObject hlayout (fun _ _ hsame hkept => hkept.same hsame)
    fun hpartly hfree => ?_
  obtain ⟨address, buddy', hcall, haddress⟩ := hgrowable hpartly hfree
  exact ⟨address, hlayout.grow hcache hcall haddress⟩

theorem SmallLayout.freeObject_same (hlayout : SmallLayout state)
    (hcache : CacheInvariant state lists chains live) (hobject : object ∈ live) :
    ∃ state' lists' chains', SmallCache.freeObject object state = .ok state' ∧
      SameSlabs state state' ∧ CacheInvariant state' lists' chains' (live.erase object) := by
  obtain ⟨slab, hslab, i, hi, hused, rfl⟩ := (hcache.slots.live object).mp hobject
  obtain ⟨state', lists', hcall, hsame, hcount, hcache'⟩ := hcache.putObject hslab hi hused
  have hpage : pagealignMask = 2 ^ 32 - 2 ^ (state.cache.order + pageShift) := by
    rw [hlayout.order_eq]
    rfl
  have hbase : slot state slab i &&& pagealignMask = slab := by
    rw [hpage]
    exact hlayout.layout.land_mask_slot hcache hslab hi
  rw [← countFreed_eq hobject hcache.slots.card_lt hcount] at hcache'
  refine ⟨state'.countFreed, lists', _, ?_, hsame.trans (countFreed_sameSlabs state'), hcache'⟩
  rw [SmallCache.freeObject, hbase, hcall, ok_bind]

theorem SmallLayout.freeObject (hlayout : SmallLayout state)
    (hcache : CacheInvariant state lists chains live) (hobject : object ∈ live) :
    ∃ state' lists' chains', SmallCache.freeObject object state = .ok state' ∧
      SmallLayout state' ∧ CacheInvariant state' lists' chains' (live.erase object) := by
  obtain ⟨state', lists', chains', hcall, hsame, hcache'⟩ :=
    hlayout.freeObject_same hcache hobject
  exact ⟨state', lists', chains', hcall, hlayout.same hsame, hcache'⟩

/-- A slab of the free list goes back to the region. -/
theorem SmallLayout.releaseSlab (hlayout : SmallLayout state)
    (hcache : CacheInvariant state lists chains live) (hmem : slab ∈ lists .free) :
    ∃ state' lists', SmallCache.releaseSlab slab (state.removeFrom .free slab) = .ok state' ∧
      SmallLayout state' ∧ CacheInvariant state' lists' chains live ∧
        state'.created = state.created.erase slab := by
  obtain ⟨hcheck, hsame, lists', hcache'⟩ := hcache.retireSlab hmem
  have hslab := (hcache.created slab).mpr ⟨.free, hmem⟩
  obtain ⟨hlayout', horder, hroom⟩ := hlayout.same hsame.sameSlabs
  obtain ⟨buddy', hcall, hlayout''⟩ := hlayout'.retireSlab (hsame.created_eq ▸ hslab)
  refine ⟨_, lists', ?_, ⟨hlayout'', horder, hroom⟩, hcache'.congr_outside buddy' _, ?_⟩
  · rw [SmallCache.releaseSlab, hcheck, ok_bind]
    exact bind_eq_ok.mpr ⟨buddy', hcall, rfl⟩
  · exact congrArg (Finset.erase · slab) hsame.created_eq

theorem SmallLayout.releaseUnusedMemory (hlayout : SmallLayout state)
    (hcache : CacheInvariant state lists chains live) :
    ∃ state' lists', SmallCache.releaseUnusedMemory state = .ok state' ∧ SmallLayout state' ∧
      CacheInvariant state' lists' chains live := by
  rw [SmallCache.releaseUnusedMemory]
  have hfuel := hlayout.layout.card_lt
  generalize addresses = fuel at hfuel ⊢
  exact CacheInvariant.releaseUnusedMemory
    (fun _ _ hlayout hcache _ hmem => hlayout.releaseSlab hcache hmem) hlayout hcache hfuel

/-! ## Large caches -/

/-- Where the objects of the slabs start. -/
def objectStarts (state : CacheState) (slab : ℕ) : ℕ := (state.slabs slab).objectStart

theorem hash_definitionOf (state : CacheState) (slab : ℕ) :
    (LargeCache.definitionOf state).hash slab =
      LargeCache.hashKey state.cache.order (objectStarts state slab) := rfl

/-- The objects of a large cache start with their block.  The hash table holds
the slabs by this address. -/
structure LargeLayout (state : CacheState) : Prop where
  layout : Layout (objectStarts state) state
  room : state.cache.objSize * state.cache.objectsPerSlab ≤
    2 ^ (state.cache.order + pageShift)
  table : Requested (LargeCache.definitionOf state) state.hashTable state.created

theorem SameSlabs.objectStarts_eq (hsame : SameSlabs state state') :
    objectStarts state' = objectStarts state := funext hsame.objectStart_eq

theorem LargeLayout.same (hlayout : LargeLayout state) (hsame : SameSlabs state state') :
    LargeLayout state' where
  layout := by
    rw [hsame.objectStarts_eq]
    exact hlayout.layout.same hsame
  room := by
    rw [hsame.objSize_eq, hsame.objectsPerSlab_eq, hsame.order_eq]
    exact hlayout.room
  table := by
    rw [hsame.hashTable_eq, hsame.created_eq]
    refine hlayout.table.congr_definition fun slab _ => ?_
    rw [hash_definitionOf, hash_definitionOf, hsame.order_eq, hsame.objectStarts_eq]

/-- The layout does not depend on the hash table. -/
theorem Layout.setTable {blockOf : ℕ → ℕ} (hlayout : Layout blockOf state) (table : BHashTable) :
    Layout blockOf { state with hashTable := table } :=
  ⟨hlayout.region, hlayout.order_le, hlayout.block, hlayout.inside, hlayout.distinct⟩

theorem LargeLayout.resizeHashTableIfNeeded (hlayout : LargeLayout state)
    (newTable : ℕ → ℕ) :
    ∃ table, LargeCache.resizeHashTableIfNeeded newTable state =
        .ok { state with hashTable := table } ∧
      LargeLayout { state with hashTable := table } := by
  obtain ⟨bytes, hneeded, hresize⟩ := hlayout.table.resize newTable
  rw [LargeCache.resizeHashTableIfNeeded, hneeded, ok_bind]
  by_cases hzero : bytes = 0
  · exact ⟨state.hashTable, if_pos hzero, hlayout⟩
  · obtain ⟨table, hcall, htable⟩ := hresize hzero
    refine ⟨table, ?_, hlayout.layout.setTable table, hlayout.room, htable⟩
    rw [if_neg hzero, ok_bind, if_pos rfl, hcall, ok_bind]

/-- What the size caches hand out for a new slab is not in use. -/
structure Supply.Fits (supply : Supply) (state : CacheState) : Prop where
  ne_zero : supply.descriptor ≠ 0
  lt : supply.descriptor < 2 ^ 32
  fresh : supply.descriptor ∉ state.created

theorem objectStarts_initSlab (state : CacheState) (address : ℕ) (header : Slab) :
    objectStarts (state.initSlab address header) =
      Function.update (objectStarts state) address header.objectStart := by
  funext slab
  by_cases heq : slab = address
  · rw [heq, Function.update_self, objectStarts, initSlab_slabs]
  · rw [Function.update_of_ne heq, objectStarts, initSlab_slabs_of_ne header heq, objectStarts]

/-- `Grow` adds a slab and finds it in the hash table from then on. -/
theorem LargeLayout.grow (hlayout : LargeLayout state)
    (hcache : CacheInvariant state lists chains live)
    (hcall : allocateBuddy state.buddy state.cache.order = .ok (address, buddy'))
    (haddress : address ≠ 0) (hsupply : supply.Fits state) :
    ∃ slab state' lists' chains', LargeCache.grow supply state = .ok (slab, state') ∧
      LargeLayout state' ∧ CacheInvariant state' lists' chains' live ∧
      slab ∈ state'.created ∧ chains' slab ≠ [] := by
  obtain ⟨hregion, hlive, hother, haligned, hend⟩ :=
    hlayout.layout.allocateBuddy hcall haddress
  have hroom := hlayout.room
  have hheader : NewHeader state ⟨address, 0, 0, slabMagicValid⟩ :=
    hlayout.layout.newHeader hother haligned hend rfl rfl rfl (Nat.pos_of_ne_zero haddress)
      (le_refl address) (Nat.add_le_add_left hroom address)
  have hlayout₁ := hlayout.layout.initSlab hsupply.fresh hregion
    (fun block hmem => hlive ▸ List.mem_cons_of_mem _ hmem) (hlive ▸ List.mem_cons_self) hother
    (show address ≤ (Slab.mk address 0 0 slabMagicValid).objectStart from le_refl address)
    (Nat.add_le_add_left hroom address)
  have hstarts := objectStarts_initSlab { state with buddy := buddy' } supply.descriptor
    ⟨address, 0, 0, slabMagicValid⟩
  have hcache₁ := hcache.congr_outside buddy' state.hashTable
  obtain ⟨state₂, lists₂, hprepend, hsame, hcache₂⟩ :=
    hcache₁.addSlab hsupply.ne_zero hsupply.fresh ⟨hheader.magic, rfl, rfl, hheader.start_pos,
      hheader.area_le, hheader.apart⟩
  have hlayout₂ := hlayout₁.same hsame.sameSlabs
  have hcreated : state₂.created = insert supply.descriptor state.created := hsame.created_eq
  have hstarts₂ := hsame.sameSlabs.objectStarts_eq.trans hstarts
  change objectStarts state₂ = Function.update (objectStarts state) _ _ at hstarts₂
  have horder₂ : state₂.cache.order = state.cache.order := hsame.order_eq
  -- the new header does not change where the old slabs are hashed to
  have htable : Requested (LargeCache.definitionOf state₂) state.hashTable state.created := by
    refine hlayout.table.congr_definition fun slab hmem => ?_
    have hother : slab ≠ supply.descriptor := fun heq => hsupply.fresh (heq ▸ hmem)
    rw [hash_definitionOf, hash_definitionOf, horder₂, hstarts₂, Function.update_of_ne hother]
  obtain ⟨table, hinsert, htable'⟩ := htable.insert hsupply.ne_zero hsupply.lt hsupply.fresh
    (hcreated ▸ hlayout₂.card_le) supply.firstTable
  have hlayout₃ : LargeLayout { state₂ with hashTable := table } := by
    refine ⟨?_, ?_, ?_⟩
    · change Layout (objectStarts state₂) _
      rw [hstarts₂]
      exact hlayout₂.setTable table
    · change state₂.cache.objSize * state₂.cache.objectsPerSlab ≤ 2 ^ (state₂.cache.order + _)
      rwa [hsame.objSize_eq, hsame.objectsPerSlab_eq, horder₂]
    · change Requested (LargeCache.definitionOf state₂) table state₂.created
      rwa [hcreated]
  obtain ⟨table', hresize, hlayout₄⟩ :=
    hlayout₃.resizeHashTableIfNeeded (supply.newTable supply.descriptor)
  refine ⟨supply.descriptor, _, lists₂, _, ?_, hlayout₄,
    hcache₂.congr_outside state₂.buddy table', ?_, ?_⟩
  · simp only [LargeCache.grow, hcall, ok_bind]
    refine bind_eq_ok.mpr ⟨state₂, hprepend, bind_eq_ok.mpr ⟨(true, table), ?_,
      bind_eq_ok.mpr ⟨_, hresize, rfl⟩⟩⟩
    rw [hsame.hashTable_eq]
    exact hinsert
  · change supply.descriptor ∈ state₂.created
    rw [hcreated]
    exact Finset.mem_insert_self _ _
  · rw [Function.update_self, List.ne_nil_iff_length_pos, List.length_range]
    exact hcache.slots.objects_pos

theorem LargeLayout.allocateObject (hlayout : LargeLayout state)
    (hcache : CacheInvariant state lists chains live) (hgrowable : Growable state)
    (hsupply : supply.Fits state) :
    ∃ object state' lists' chains', LargeCache.allocateObject supply state =
        .ok (object, state') ∧
      LargeLayout state' ∧ object ∉ live ∧
        CacheInvariant state' lists' chains' (insert object live) := by
  refine hcache.allocateObject hlayout (fun _ _ hsame hkept => hkept.same hsame)
    fun hpartly hfree => ?_
  obtain ⟨address, buddy', hcall, haddress⟩ := hgrowable hpartly hfree
  exact hlayout.grow hcache hcall haddress hsupply

theorem lowerBoundary_eq (order : ℕ) :
    LargeCache.lowerBoundary address (1 <<< pageShift <<< order) =
      address &&& (2 ^ 32 - 2 ^ (order + pageShift)) := by
  have hshift : (1 <<< pageShift <<< order : ℕ) = 2 ^ (order + pageShift) := by
    rw [Nat.shiftLeft_eq, Nat.shiftLeft_eq, Nat.one_mul, ← pow_add, Nat.add_comm]
  rw [LargeCache.lowerBoundary, hshift]

/-- The hash table leads from an object to its slab. -/
theorem LargeLayout.lookup_slot (hlayout : LargeLayout state)
    (hcache : CacheInvariant state lists chains live) (hslab : slab ∈ state.created)
    (hi : i < state.cache.objectsPerSlab) :
    state.hashTable.lookup (LargeCache.definitionOf state)
      (LargeCache.lowerBoundary (slot state slab i) (1 <<< pageShift <<< state.cache.order)) =
        .ok slab := by
  rw [lowerBoundary_eq, hlayout.layout.land_mask_slot hcache hslab hi]
  refine hlayout.table.lookup hslab (decide_eq_true rfl) fun other hother hcompare => ?_
  exact hlayout.layout.distinct other hother slab hslab (of_decide_eq_true hcompare)

theorem LargeLayout.freeObject (hlayout : LargeLayout state)
    (hcache : CacheInvariant state lists chains live) (hobject : object ∈ live) :
    ∃ state' lists' chains', LargeCache.freeObject supply object state = .ok state' ∧
      LargeLayout state' ∧ CacheInvariant state' lists' chains' (live.erase object) := by
  obtain ⟨slab, hslab, i, hi, hused, rfl⟩ := (hcache.slots.live object).mp hobject
  obtain ⟨middle, lists', hcall, hsame, hcount, hcache'⟩ := hcache.putObject hslab hi hused
  have hlookup := hlayout.lookup_slot hcache hslab hi
  obtain ⟨table, hresize, hlayout'⟩ :=
    (hlayout.same hsame).resizeHashTableIfNeeded (supply.newTable slab)
  have hcount' : ({ middle with hashTable := table } : CacheState).cache.objectsAllocated =
      live.card := hcount
  have hcache'' : CacheInvariant (setAllocated { middle with hashTable := table }
      (live.erase (slot state slab i)).card) lists' (Function.update chains slab (i :: chains slab))
        (live.erase (slot state slab i)) := hcache'.congr_outside middle.buddy table
  rw [← countFreed_eq hobject hcache.slots.card_lt hcount'] at hcache''
  refine ⟨_, lists', _, ?_, hlayout'.same (countFreed_sameSlabs _), hcache''⟩
  rw [LargeCache.freeObject, hlookup, ok_bind, hcall, ok_bind, hresize, ok_bind]

theorem objectStarts_retireSlab (state : CacheState) (slab : ℕ) :
    objectStarts (state.retireSlab slab) = objectStarts state := by
  funext other
  by_cases heq : other = slab
  · simp [objectStarts, CacheState.retireSlab, heq]
  · simp [objectStarts, CacheState.retireSlab, Function.update_of_ne heq]

theorem LargeLayout.releaseSlab (hlayout : LargeLayout state)
    (hcache : CacheInvariant state lists chains live) (hmem : slab ∈ lists .free) :
    ∃ state' lists', LargeCache.releaseSlab supply slab (state.removeFrom .free slab) =
        .ok state' ∧
      LargeLayout state' ∧ CacheInvariant state' lists' chains live ∧
        state'.created = state.created.erase slab := by
  obtain ⟨hcheck, hsame, lists', hcache'⟩ := hcache.retireSlab hmem
  have hslab := (hcache.created slab).mpr ⟨.free, hmem⟩
  have hlayout₁ := hlayout.same hsame.sameSlabs
  have hslab₁ : slab ∈ (state.removeFrom .free slab).created := hsame.created_eq ▸ hslab
  obtain ⟨buddy', hfree, hlayout₂⟩ := hlayout₁.layout.retireSlab hslab₁
  have hstarts := objectStarts_retireSlab (state.removeFrom .free slab) slab
  have htable : Requested (LargeCache.definitionOf ((state.removeFrom .free slab).retireSlab slab))
      (state.removeFrom .free slab).hashTable (state.removeFrom .free slab).created := by
    refine hlayout₁.table.congr_definition fun other _ => ?_
    rw [hash_definitionOf, hash_definitionOf, hstarts]
    rfl
  obtain ⟨table, hremove, htable'⟩ := htable.remove hslab₁
  have hlayout₃ : LargeLayout { (state.removeFrom .free slab).retireSlab slab with
      hashTable := table, buddy := buddy' } := by
    refine ⟨?_, hlayout₁.room, htable'⟩
    change Layout (objectStarts ((state.removeFrom .free slab).retireSlab slab)) _
    rw [hstarts]
    exact hlayout₂.setTable table
  obtain ⟨table', hresize, hlayout₄⟩ :=
    hlayout₃.resizeHashTableIfNeeded (supply.newTable slab)
  refine ⟨_, lists', ?_, hlayout₄, hcache'.congr_outside buddy' table', ?_⟩
  · have hbase : (((state.removeFrom .free slab).retireSlab slab).slabs slab).objectStart =
        objectStarts (state.removeFrom .free slab) slab := congrFun hstarts slab
    rw [LargeCache.releaseSlab, hcheck, ok_bind]
    refine bind_eq_ok.mpr ⟨(true, table), hremove, bind_eq_ok.mpr ⟨buddy', ?_, hresize⟩⟩
    rw [hbase]
    exact hfree
  · exact congrArg (Finset.erase · slab) hsame.created_eq

theorem LargeLayout.releaseUnusedMemory (hlayout : LargeLayout state)
    (hcache : CacheInvariant state lists chains live) :
    ∃ state' lists', LargeCache.releaseUnusedMemory supply state = .ok state' ∧
      LargeLayout state' ∧ CacheInvariant state' lists' chains live := by
  rw [LargeCache.releaseUnusedMemory]
  have hfuel := hlayout.layout.card_lt
  generalize addresses = fuel at hfuel ⊢
  exact CacheInvariant.releaseUnusedMemory
    (fun _ _ hlayout hcache _ hmem => hlayout.releaseSlab hcache hmem) hlayout hcache hfuel

end GeexOS.SlabAllocator
