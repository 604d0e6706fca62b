import GeexOS.Kernel.SlabRuns

/-!
# Caches on an exhausted region

`AllocateBuddy` returns NULL when the region has no block, and both kinds of caches go on
with it.  A small cache writes its header to address 0; a large cache has taken its
descriptor before and enters a slab that has no block.
-/

namespace GeexOS.SlabAllocator

open GeexOS.Words
open GeexOS.Halting
open GeexOS.Linked
open GeexOS.DataStructures
open CacheState

/-- No slab is on a list of slabs with free slots, and the region has no block. -/
structure Exhausted (state : CacheState) : Prop where
  partly_isEmpty : state.cache.partialSlabList.isEmpty = true
  free_isEmpty : state.cache.freeSlabList.isEmpty = true
  noBlock : ∃ buddy', allocateBuddy state.buddy state.cache.order = .ok (0, buddy')

/-- The call returns NULL and the cache is what it was. -/
def Reported (state : CacheState) (outcome : Outcome (ℕ × CacheState)) : Prop :=
  ∃ state', outcome = .ok (0, state') ∧ (∀ which, state'.list which = state.list which) ∧
    state'.hashTable = state.hashTable ∧
      state'.cache.objectsAllocated = state.cache.objectsAllocated

variable {state state' middle : CacheState} {slab object : ℕ} {supply : Supply}
variable {kind : CacheKind}

/-! ## What a call that comes back has done -/

theorem setSlab_sameSlabs {header : Slab}
    (hstart : header.objectStart = (state.slabs slab).objectStart) :
    SameSlabs state (state.setSlab slab header) := by
  have hedit := editSlab_sameSlabs (state.freeArrays slab) hstart
  rwa [editSlab, setFreeArray, Function.update_eq_self] at hedit

/-- The object is the first free slot of the slab, and it is counted. -/
theorem takeObject_eq_ok (hcall : takeObject slab state = .ok (object, state')) :
    object = u32 ((state.slabs slab).objectStart +
        (state.slabs slab).freeIndex * state.cache.objSize) ∧
      state'.cache.objectsAllocated = u32 (state.cache.objectsAllocated + 1) ∧
      SameSlabs state state' := by
  obtain ⟨_, -, hcall⟩ := bind_eq_ok.mp hcall
  obtain ⟨state₁, hmove₁, hcall⟩ := bind_eq_ok.mp hcall
  obtain ⟨state₂, hmove₂, hcall⟩ := bind_eq_ok.mp hcall
  obtain ⟨rfl, rfl⟩ := Prod.mk.inj (Except.ok.inj hcall)
  have hsame₁ := moveIf_same hmove₁
  have hsame₂ := moveIf_same hmove₂
  have htaken : SameSlabs state₁ (state₁.setSlab slab (takenHeader state₁ slab)) :=
    setSlab_sameSlabs rfl
  have hsame := hsame₁.sameSlabs.trans (htaken.trans hsame₂.sameSlabs)
  refine ⟨?_, ?_, hsame.trans (setAllocated_sameSlabs state₂ _)⟩
  · rw [hsame₁.slabs_eq, hsame₁.objSize_eq]
  · rw [← hsame₁.objectsAllocated_eq]
    exact congrArg (fun count => u32 (count + 1)) hsame₂.objectsAllocated_eq

/-- A small slab lies in the block that `AllocateBuddy` returned. -/
theorem SmallCache.grow_eq_ok (hcall : SmallCache.grow state = .ok (slab, state')) :
    ∃ buddy', allocateBuddy state.buddy state.cache.order = .ok (slab, buddy') ∧ slab ≠ 0 ∧
      SameButLists ({ state with buddy := buddy' }.initSlab slab (initialSlab state.cache slab))
        state' := by
  obtain ⟨⟨newSlab, buddy'⟩, hblock, hcall⟩ := bind_eq_ok.mp hcall
  simp only at hcall
  split at hcall
  · cases hcall
  · rename_i hne
    obtain ⟨after, hprepend, hcall⟩ := bind_eq_ok.mp hcall
    obtain ⟨rfl, rfl⟩ := Prod.mk.inj (Except.ok.inj hcall)
    exact ⟨buddy', hblock, hne, prependTo_same hprepend⟩

theorem resizeHashTableIfNeeded_keeps {newTable : ℕ → ℕ}
    (hcall : LargeCache.resizeHashTableIfNeeded newTable state = .ok state') :
    ∃ table, state' = { state with hashTable := table } := by
  obtain ⟨hashSize, -, hcall⟩ := bind_eq_ok.mp hcall
  split at hcall
  · cases hcall
    exact ⟨_, rfl⟩
  · obtain ⟨again, -, hcall⟩ := bind_eq_ok.mp hcall
    split at hcall
    · obtain ⟨result, -, hcall⟩ := bind_eq_ok.mp hcall
      cases hcall
      exact ⟨_, rfl⟩
    · cases hcall
      exact ⟨_, rfl⟩

/-- A large slab is described by the descriptor that was served, whatever `AllocateBuddy`
returned. -/
theorem LargeCache.grow_eq_ok (hcall : LargeCache.grow supply state = .ok (slab, state')) :
    slab = supply.descriptor ∧ ∃ objectStart buddy' middle table,
      allocateBuddy state.buddy state.cache.order = .ok (objectStart, buddy') ∧
      SameButLists ({ state with buddy := buddy' }.initSlab slab
        ⟨objectStart, 0, 0, slabMagicValid⟩) middle ∧
      state' = { middle with hashTable := table } := by
  obtain ⟨⟨objectStart, buddy'⟩, hblock, hcall⟩ := bind_eq_ok.mp hcall
  obtain ⟨middle, hprepend, hcall⟩ := bind_eq_ok.mp hcall
  obtain ⟨⟨inserted, table⟩, -, hcall⟩ := bind_eq_ok.mp hcall
  obtain ⟨resized, hresize, hcall⟩ := bind_eq_ok.mp hcall
  obtain ⟨rfl, rfl⟩ := Prod.mk.inj (Except.ok.inj hcall)
  obtain ⟨table', rfl⟩ := resizeHashTableIfNeeded_keeps hresize
  exact ⟨rfl, objectStart, buddy', middle, table', hblock, prependTo_same hprepend, rfl⟩

/-! ## Nothing is reported -/

/-- Full slabs are on neither of the two lists. -/
theorem CacheInvariant.exhausted {lists : SlabList → List ℕ} {chains : ℕ → List ℕ}
    {live : Finset ℕ} (hcache : CacheInvariant state lists chains live)
    (hfull : ∀ slab ∈ state.created, (state.slabs slab).isFull = true)
    (hblock : ∃ buddy', allocateBuddy state.buddy state.cache.order = .ok (0, buddy')) :
    Exhausted state := by
  have hchain : ∀ which, ∀ slab ∈ lists which, chains slab = [] := by
    intro which slab hmem
    have hslab := (hcache.created slab).mpr ⟨which, hmem⟩
    have hend : (state.slabs slab).freeIndex = slabBufEnd := of_decide_eq_true (hfull slab hslab)
    exact (hcache.slots.slab slab hslab).chain.start_eq_stop_iff.mp hend
  refine ⟨?_, ?_, hblock⟩
  · refine (hcache.linked.represents .partlyUsed).isEmpty_iff.mpr ?_
    refine List.eq_nil_iff_forall_not_mem.mpr fun slab hmem => ?_
    exact (hcache.fits .partlyUsed slab hmem).1 (hchain .partlyUsed slab hmem)
  · refine (hcache.linked.represents .free).isEmpty_iff.mpr ?_
    refine List.eq_nil_iff_forall_not_mem.mpr fun slab hmem => ?_
    have hslab := (hcache.created slab).mpr ⟨.free, hmem⟩
    have hfirst := (hcache.slots.slab slab hslab).mem_of_unused (hcache.fits .free slab hmem)
      hcache.slots.objects_pos
    rw [hchain .free slab hmem] at hfirst
    exact List.not_mem_nil hfirst

theorem Exhausted.getNonEmptySlab_eq (hexhausted : Exhausted state)
    (grow : CacheState → Outcome (ℕ × CacheState)) :
    getNonEmptySlab grow state = grow state := by
  rw [getNonEmptySlab, if_pos hexhausted.partly_isEmpty, if_pos hexhausted.free_isEmpty]

/-- The header of the slab is written to address 0. -/
theorem Exhausted.smallCache_faults (hexhausted : Exhausted state) :
    SmallCache.allocateObject state = .error .fault := by
  obtain ⟨buddy', hblock⟩ := hexhausted.noBlock
  rw [SmallCache.allocateObject, CacheState.allocateObject, hexhausted.getNonEmptySlab_eq,
    SmallCache.grow, hblock]
  rfl

/-- The result is NULL, but it is the first object of a slab that was entered. -/
theorem Exhausted.largeCache_enters (hexhausted : Exhausted state)
    (hcall : LargeCache.allocateObject supply state = .ok (object, state')) :
    object = 0 ∧ supply.descriptor ∈ state'.created ∧
      state'.cache.objectsAllocated = u32 (state.cache.objectsAllocated + 1) := by
  obtain ⟨⟨slab, middle⟩, hgrow, htake⟩ := bind_eq_ok.mp hcall
  rw [hexhausted.getNonEmptySlab_eq] at hgrow
  obtain ⟨rfl, objectStart, buddy, after, table, hblock, hsame, rfl⟩ :=
    LargeCache.grow_eq_ok hgrow
  obtain ⟨buddy', hnone⟩ := hexhausted.noBlock
  obtain ⟨rfl, rfl⟩ := Prod.mk.inj (Except.ok.inj (hblock.symm.trans hnone))
  obtain ⟨hobject, hcount, hsame'⟩ := takeObject_eq_ok htake
  refine ⟨?_, ?_, ?_⟩
  · simp only [hsame.slabs_eq, initSlab_slabs, Nat.zero_mul, Nat.add_zero] at hobject
    exact hobject
  · rw [hsame'.created_eq]
    change _ ∈ after.created
    rw [hsame.created_eq]
    exact Finset.mem_insert_self _ _
  · rw [hcount]
    exact congrArg (fun count => u32 (count + 1)) hsame.objectsAllocated_eq

theorem u32_succ_ne (count : ℕ) : u32 (count + 1) ≠ count := by
  rw [u32]
  omega

/-- A cache never reports that the region is exhausted. -/
theorem exhaustion_not_reported (hexhausted : Exhausted state) (supply : Supply) :
    ¬ Reported state (kind.allocateObject supply state) := by
  rintro ⟨state', hreturns, -, -, hcount⟩
  cases kind with
  | small =>
      have hfault : CacheKind.small.allocateObject supply state = .error .fault :=
        hexhausted.smallCache_faults
      rw [hfault] at hreturns
      cases hreturns
  | large =>
      obtain ⟨-, -, hcounted⟩ := hexhausted.largeCache_enters hreturns
      exact u32_succ_ne _ (hcounted.symm.trans hcount)

/-- A cache for 256 bytes without slabs, on a page that is in use. -/
def noPageLeft : CacheState :=
  match allocateBuddy ⟨Buddy.onePage, []⟩ 0 with
  | .ok (_, buddy) => { newSmall size256 with buddy := buddy }
  | .error _ => newSmall size256

theorem noPageLeft_newCache : NewCache .small noPageLeft where
  region := ⟨fun _ => ⟨0, 0⟩, 0x100000, 12, Buddy.onePage, by decide, by decide, by decide,
    by decide, by decide, rfl, .tail .refl (.allocate (show 0 + Buddy.pageShift < 2 ^ 32 by decide)
      (show Buddy.onePage.allocateBuddy 0 = .ok (0x100000, _) from rfl) (by decide))⟩
  order_le := by decide
  room := ⟨rfl, by decide⟩
  objects := by decide
  lists := fun which => by cases which <;> rfl
  allocated := rfl
  table := ⟨_, rfl⟩
  created := rfl

theorem noPageLeft_exhausted : Exhausted noPageLeft := ⟨rfl, rfl, _, rfl⟩

theorem exhaustion_not_reported_noPageLeft :
    ¬ Reported noPageLeft (CacheKind.small.allocateObject noSupply noPageLeft) :=
  exhaustion_not_reported noPageLeft_exhausted noSupply

/-- The first `AllocateObject` of the cache writes to address 0. -/
theorem noPageLeft_not_reported :
    ¬ ∀ (kind : CacheKind) (state : CacheState) (use : CacheUse) (supply : Supply),
      NewCache kind state → state.cache.objSize ≠ 0 →
      Relation.ReflTransGen (CacheStep kind) ⟨state, ∅⟩ use →
      kind.Served supply use.state →
      (∀ slab ∈ use.state.created, (use.state.slabs slab).isFull = true) →
      (∃ buddy', allocateBuddy use.state.buddy use.state.cache.order = .ok (0, buddy')) →
      Reported use.state (kind.allocateObject supply use.state) := by
  intro hall
  obtain ⟨state', hreturns, -⟩ := hall .small noPageLeft _ noSupply noPageLeft_newCache
    (by decide) .refl trivial (fun slab hmem => absurd hmem (Finset.notMem_empty slab))
    noPageLeft_exhausted.noBlock
  have hfault := noPageLeft_exhausted.smallCache_faults
  exact absurd (hreturns.symm.trans hfault) fun herror => by cases herror

end GeexOS.SlabAllocator
