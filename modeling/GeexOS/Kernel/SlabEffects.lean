import GeexOS.Kernel.SlabExhaustion

/-!
# What the calls of a cache do to a shared region

Caches share one buddy region.  A call takes blocks that were not live and gives back only
blocks of its own cache, and the objects of a slab stay where they are.
-/

namespace GeexOS.SlabAllocator

open GeexOS.Words
open GeexOS.Halting
open GeexOS.DataStructures
open CacheState

/-- The block of a slab, as the region knows it. -/
def CacheKind.allocationOf (kind : CacheKind) (state : CacheState) (slab : ℕ) :
    Buddy.Allocation :=
  ⟨kind.blockOf state slab, state.cache.order⟩

/-- What a call of a cache does to its slabs and to the region. -/
structure CallEffect (kind : CacheKind) (state state' : CacheState) : Prop where
  objSize_eq : state'.cache.objSize = state.cache.objSize
  order_eq : state'.cache.order = state.cache.order
  objectsPerSlab_eq : state'.cache.objectsPerSlab = state.cache.objectsPerSlab
  objectStart_eq : ∀ slab ∈ state.created, slab ∈ state'.created →
    (state'.slabs slab).objectStart = (state.slabs slab).objectStart
  created : ∀ slab ∈ state'.created, slab ∈ state.created ∨
    (kind.allocationOf state' slab ∉ state.buddy.live ∧ (kind = .small →
      (state'.slabs slab).objectStart = objectStart state.cache slab))
  kept : ∀ allocation ∈ state.buddy.live,
    (∀ slab ∈ state.created, allocation ≠ kind.allocationOf state slab) →
      allocation ∈ state'.buddy.live

variable {kind : CacheKind} {state state' middle : CacheState} {supply : Supply}
variable {lists : SlabList → List ℕ} {chains : ℕ → List ℕ} {live : Finset ℕ}
variable {slab object : ℕ}

theorem SameSlabs.allocationOf_eq (hsame : SameSlabs state state') (slab : ℕ) :
    kind.allocationOf state' slab = kind.allocationOf state slab := by
  have hblock : kind.blockOf state' slab = kind.blockOf state slab := by
    cases kind with
    | small => rfl
    | large => exact hsame.objectStart_eq slab
  rw [CacheKind.allocationOf, CacheKind.allocationOf, hblock, hsame.order_eq]

theorem SameSlabs.callEffect (hsame : SameSlabs state state') : CallEffect kind state state' where
  objSize_eq := hsame.objSize_eq
  order_eq := hsame.order_eq
  objectsPerSlab_eq := hsame.objectsPerSlab_eq
  objectStart_eq := fun slab _ _ => hsame.objectStart_eq slab
  created := fun _ hmem => Or.inl (hsame.created_eq ▸ hmem)
  kept := fun _ hmem _ => hsame.buddy_eq ▸ hmem

theorem CallEffect.trans_same (heffect : CallEffect kind state middle)
    (hsame : SameSlabs middle state') : CallEffect kind state state' where
  objSize_eq := hsame.objSize_eq.trans heffect.objSize_eq
  order_eq := hsame.order_eq.trans heffect.order_eq
  objectsPerSlab_eq := hsame.objectsPerSlab_eq.trans heffect.objectsPerSlab_eq
  objectStart_eq := fun slab hmem hmem' => by
    rw [hsame.created_eq] at hmem'
    exact (hsame.objectStart_eq slab).trans (heffect.objectStart_eq slab hmem hmem')
  created := fun slab hmem => by
    rw [hsame.created_eq] at hmem
    rw [hsame.allocationOf_eq, hsame.objectStart_eq]
    exact heffect.created slab hmem
  kept := fun allocation hmem hother => by
    rw [hsame.buddy_eq]
    exact heffect.kept allocation hmem hother

/-- The hash table does not matter here. -/
theorem CallEffect.setTable (heffect : CallEffect kind state state') (table : BHashTable) :
    CallEffect kind state { state' with hashTable := table } :=
  ⟨heffect.objSize_eq, heffect.order_eq, heffect.objectsPerSlab_eq, heffect.objectStart_eq,
    fun slab hmem => by
      cases kind <;> exact heffect.created slab hmem,
    heffect.kept⟩

/-! ## AllocateObject -/

theorem allocateBuddy_keeps {buddy buddy' : Buddy.BuddyState} {address order : ℕ}
    (hcall : allocateBuddy buddy order = .ok (address, buddy')) :
    ∀ allocation ∈ buddy.live, allocation ∈ buddy'.live := by
  obtain ⟨⟨ret, region⟩, -, hcall⟩ := bind_eq_ok.mp hcall
  obtain ⟨-, rfl⟩ := Prod.mk.inj (Except.ok.inj hcall)
  intro allocation hmem
  simp only
  split
  · exact hmem
  · exact List.mem_cons_of_mem _ hmem

/-- A slab that is entered with a block which was not live. -/
theorem callEffect_initSlab {buddy' : Buddy.BuddyState} {header : Slab}
    (hslab : slab ∉ state.created)
    (hkept : ∀ allocation ∈ state.buddy.live, allocation ∈ buddy'.live)
    (hfresh : kind.allocationOf ({ state with buddy := buddy' }.initSlab slab header) slab ∉
      state.buddy.live)
    (hstart : kind = .small → header.objectStart = objectStart state.cache slab) :
    CallEffect kind state ({ state with buddy := buddy' }.initSlab slab header) where
  objSize_eq := rfl
  order_eq := rfl
  objectsPerSlab_eq := rfl
  objectStart_eq := fun other hmem _ => by
    have hne : other ≠ slab := fun heq => hslab (heq ▸ hmem)
    rw [initSlab_slabs_of_ne header hne]
  created := fun other hmem => by
    rcases Finset.mem_insert.mp hmem with rfl | hmem
    · right
      rw [initSlab_slabs]
      exact ⟨hfresh, hstart⟩
    · exact Or.inl hmem
  kept := fun allocation hmem _ => hkept allocation hmem

/-- A new small slab lies at the start of its block. -/
theorem SmallLayout.grow_effect (hlayout : SmallLayout state)
    (hcall : SmallCache.grow state = .ok (slab, state')) :
    CallEffect .small state state' ∧
      ∃ buddy', allocateBuddy state.buddy state.cache.order = .ok (slab, buddy') ∧ slab ≠ 0 := by
  obtain ⟨buddy', hblock, hne, hsame⟩ := SmallCache.grow_eq_ok hcall
  refine ⟨CallEffect.trans_same ?_ hsame.sameSlabs, buddy', hblock, hne⟩
  obtain ⟨cells, hregion⟩ := hlayout.layout.region
  obtain ⟨-, -, hfresh⟩ := hregion.allocateBuddy hlayout.layout.order_le hblock
  obtain ⟨-, -, hother, -, -⟩ := hlayout.layout.allocateBuddy hblock hne
  exact callEffect_initSlab (fun hmem => hother slab hmem rfl) (allocateBuddy_keeps hblock)
    (hfresh hne).2 fun _ => rfl

/-- The objects of a new large slab lie in its block, if there is one. -/
theorem LargeLayout.grow_effect (hlayout : LargeLayout state) (hserved : supply.Fits state)
    (hcall : LargeCache.grow supply state = .ok (slab, state'))
    (hstart : (state'.slabs slab).objectStart ≠ 0) :
    CallEffect .large state state' ∧
      ∃ address buddy', allocateBuddy state.buddy state.cache.order = .ok (address, buddy') ∧
        address ≠ 0 := by
  obtain ⟨rfl, objectStart, buddy', middle, table, hblock, hsame, rfl⟩ :=
    LargeCache.grow_eq_ok hcall
  have hheader : (middle.slabs supply.descriptor).objectStart = objectStart := by
    rw [hsame.slabs_eq, initSlab_slabs]
  have hne : objectStart ≠ 0 := hheader ▸ hstart
  refine ⟨CallEffect.setTable (CallEffect.trans_same ?_ hsame.sameSlabs) table,
    objectStart, buddy', hblock, hne⟩
  obtain ⟨cells, hregion⟩ := hlayout.layout.region
  obtain ⟨-, -, hfresh⟩ := hregion.allocateBuddy hlayout.layout.order_le hblock
  refine callEffect_initSlab hserved.fresh (allocateBuddy_keeps hblock) ?_ fun hkind => by
    cases hkind
  rw [CacheKind.allocationOf, CacheKind.blockOf.eq_def, initSlab_slabs]
  exact (hfresh hne).2

/-- A slab was on one of the lists, or the cache has grown. -/
theorem getNonEmptySlab_eq_ok {grow : CacheState → Outcome (ℕ × CacheState)}
    (hcall : getNonEmptySlab grow state = .ok (slab, middle)) :
    (middle = state ∧ Growable state) ∨ grow state = .ok (slab, middle) := by
  rw [getNonEmptySlab] at hcall
  split at hcall
  · split at hcall
    · exact Or.inr hcall
    · rename_i hfree
      obtain ⟨-, rfl⟩ := Prod.mk.inj (Except.ok.inj hcall)
      exact Or.inl ⟨rfl, fun _ hempty => absurd hempty hfree⟩
  · rename_i hpartly
    obtain ⟨-, rfl⟩ := Prod.mk.inj (Except.ok.inj hcall)
    exact Or.inl ⟨rfl, fun hempty => absurd hempty hpartly⟩

/-- An object that is not NULL lies in a block. -/
theorem allocateObject_effect (hlayout : kind.LayoutOk state)
    (hserved : kind.Served supply state)
    (hcall : kind.allocateObject supply state = .ok (object, state')) (hobject : object ≠ 0) :
    CallEffect kind state state' ∧ Growable state := by
  cases kind with
  | small =>
      obtain ⟨⟨slab, middle⟩, hslab, htake⟩ := bind_eq_ok.mp hcall
      obtain ⟨-, -, hsame⟩ := takeObject_eq_ok htake
      rcases getNonEmptySlab_eq_ok hslab with ⟨rfl, hgrowable⟩ | hgrow
      · exact ⟨hsame.callEffect, hgrowable⟩
      · obtain ⟨heffect, buddy', hblock⟩ := SmallLayout.grow_effect hlayout hgrow
        exact ⟨heffect.trans_same hsame, fun _ _ => ⟨slab, buddy', hblock⟩⟩
  | large =>
      obtain ⟨⟨slab, middle⟩, hslab, htake⟩ := bind_eq_ok.mp hcall
      obtain ⟨hslot, -, hsame⟩ := takeObject_eq_ok htake
      rcases getNonEmptySlab_eq_ok hslab with ⟨rfl, hgrowable⟩ | hgrow
      · exact ⟨hsame.callEffect, hgrowable⟩
      · obtain ⟨rfl, objectStart, buddy', after, table, -, hlists, rfl⟩ :=
          LargeCache.grow_eq_ok hgrow
        have hheader : after.slabs supply.descriptor = ⟨objectStart, 0, 0, slabMagicValid⟩ := by
          rw [hlists.slabs_eq, initSlab_slabs]
        simp only [hheader, Nat.zero_mul, Nat.add_zero] at hslot
        have hstart : (after.slabs supply.descriptor).objectStart ≠ 0 := by
          rw [hheader]
          rintro rfl
          exact hobject hslot
        obtain ⟨heffect, hblock⟩ := LargeLayout.grow_effect hlayout hserved hgrow hstart
        exact ⟨heffect.trans_same hsame, fun _ _ => hblock⟩

/-! ## FreeObject -/

theorem putObject_eq_ok (hcall : putObject slab object state = .ok state') :
    SameSlabs state state' := by
  obtain ⟨_, -, hcall⟩ := bind_eq_ok.mp hcall
  obtain ⟨state₁, hmove₁, hcall⟩ := bind_eq_ok.mp hcall
  split at hcall
  · cases hcall
  · refine (moveIf_same hmove₁).sameSlabs.trans (.trans ?_ (moveIf_same hcall).sameSlabs)
    exact editSlab_sameSlabs _ rfl

/-- Taking an object back leaves the region alone. -/
theorem freeObject_effect (hcall : kind.freeObject supply object state = .ok state') :
    CallEffect kind state state' ∧ state'.buddy = state.buddy ∧
      state'.created = state.created := by
  cases kind with
  | small =>
      obtain ⟨middle, hput, hcall⟩ := bind_eq_ok.mp hcall
      obtain rfl := Except.ok.inj hcall
      have hsame := (putObject_eq_ok hput).trans (countFreed_sameSlabs middle)
      exact ⟨hsame.callEffect, hsame.buddy_eq, hsame.created_eq⟩
  | large =>
      obtain ⟨slab, -, hcall⟩ := bind_eq_ok.mp hcall
      obtain ⟨middle, hput, hcall⟩ := bind_eq_ok.mp hcall
      obtain ⟨resized, hresize, hcall⟩ := bind_eq_ok.mp hcall
      obtain rfl := Except.ok.inj hcall
      obtain ⟨table, rfl⟩ := resizeHashTableIfNeeded_keeps hresize
      have hsame := putObject_eq_ok hput
      have hcounted := countFreed_sameSlabs { middle with hashTable := table }
      exact ⟨(hsame.callEffect.setTable table).trans_same hcounted,
        hcounted.buddy_eq.trans hsame.buddy_eq, hcounted.created_eq.trans hsame.created_eq⟩

/-! ## ReleaseUnusedMemory -/

/-- Blocks are given back, and only blocks of the cache. -/
structure Shrinks (kind : CacheKind) (state state' : CacheState) : Prop where
  objSize_eq : state'.cache.objSize = state.cache.objSize
  order_eq : state'.cache.order = state.cache.order
  objectsPerSlab_eq : state'.cache.objectsPerSlab = state.cache.objectsPerSlab
  objectStart_eq : ∀ slab, (state'.slabs slab).objectStart = (state.slabs slab).objectStart
  created : state'.created ⊆ state.created
  kept : ∀ allocation ∈ state.buddy.live,
    (∀ slab ∈ state.created, allocation ≠ kind.allocationOf state slab) →
      allocation ∈ state'.buddy.live

theorem Shrinks.allocationOf_eq (hshrinks : Shrinks kind state state') (slab : ℕ) :
    kind.allocationOf state' slab = kind.allocationOf state slab := by
  have hblock : kind.blockOf state' slab = kind.blockOf state slab := by
    cases kind with
    | small => rfl
    | large => exact hshrinks.objectStart_eq slab
  rw [CacheKind.allocationOf, CacheKind.allocationOf, hblock, hshrinks.order_eq]

theorem Shrinks.callEffect (hshrinks : Shrinks kind state state') :
    CallEffect kind state state' where
  objSize_eq := hshrinks.objSize_eq
  order_eq := hshrinks.order_eq
  objectsPerSlab_eq := hshrinks.objectsPerSlab_eq
  objectStart_eq := fun slab _ _ => hshrinks.objectStart_eq slab
  created := fun _ hmem => Or.inl (hshrinks.created hmem)
  kept := hshrinks.kept

theorem Shrinks.refl (kind : CacheKind) (state : CacheState) : Shrinks kind state state :=
  ⟨rfl, rfl, rfl, fun _ => rfl, Finset.Subset.refl _, fun _ hmem _ => hmem⟩

theorem Shrinks.trans (hfirst : Shrinks kind state middle)
    (hsecond : Shrinks kind middle state') : Shrinks kind state state' where
  objSize_eq := hsecond.objSize_eq.trans hfirst.objSize_eq
  order_eq := hsecond.order_eq.trans hfirst.order_eq
  objectsPerSlab_eq := hsecond.objectsPerSlab_eq.trans hfirst.objectsPerSlab_eq
  objectStart_eq := fun slab =>
    (hsecond.objectStart_eq slab).trans (hfirst.objectStart_eq slab)
  created := hsecond.created.trans hfirst.created
  kept := fun allocation hmem hother =>
    hsecond.kept allocation (hfirst.kept allocation hmem hother) fun slab hslab => by
      rw [hfirst.allocationOf_eq]
      exact hother slab (hfirst.created hslab)

theorem freeBuddy_keeps {buddy buddy' : Buddy.BuddyState} {address order : ℕ}
    (hcall : freeBuddy buddy address order = .ok buddy') {allocation : Buddy.Allocation}
    (hmem : allocation ∈ buddy.live) (hne : allocation ≠ ⟨address, order⟩) :
    allocation ∈ buddy'.live := by
  obtain ⟨region, -, hcall⟩ := bind_eq_ok.mp hcall
  obtain rfl := Except.ok.inj hcall
  exact (List.mem_erase_of_ne hne).mpr hmem

theorem SameSlabs.shrinks (hsame : SameSlabs state state') : Shrinks kind state state' where
  objSize_eq := hsame.objSize_eq
  order_eq := hsame.order_eq
  objectsPerSlab_eq := hsame.objectsPerSlab_eq
  objectStart_eq := hsame.objectStart_eq
  created := hsame.created_eq.subset
  kept := fun _ hmem _ => hsame.buddy_eq ▸ hmem

theorem retireSlab_shrinks (hslab : slab ∈ state.created) {buddy' : Buddy.BuddyState}
    (hfree : freeBuddy state.buddy (kind.blockOf state slab) state.cache.order = .ok buddy')
    (table : BHashTable) :
    Shrinks kind state { state.retireSlab slab with hashTable := table, buddy := buddy' } where
  objSize_eq := rfl
  order_eq := rfl
  objectsPerSlab_eq := rfl
  objectStart_eq := fun other => congrFun (objectStarts_retireSlab state slab) other
  created := Finset.erase_subset _ _
  kept := fun _ hmem hother => freeBuddy_keeps hfree hmem (hother slab hslab)

theorem removeFrom_shrinks (state : CacheState) (slab : ℕ) :
    Shrinks kind state (state.removeFrom .free slab) :=
  (removeFrom_same state .free slab).sameSlabs.shrinks

theorem SmallCache.releaseSlab_shrinks (hslab : slab ∈ state.created)
    (hcall : SmallCache.releaseSlab slab (state.removeFrom .free slab) = .ok state') :
    Shrinks .small state state' := by
  refine (removeFrom_shrinks state slab).trans ?_
  rw [← (removeFrom_same state .free slab).created_eq] at hslab
  obtain ⟨_, -, hcall⟩ := bind_eq_ok.mp hcall
  obtain ⟨buddy', hfree, hcall⟩ := bind_eq_ok.mp hcall
  obtain rfl := Except.ok.inj hcall
  exact @retireSlab_shrinks .small _ _ hslab _ hfree _

theorem LargeCache.releaseSlab_shrinks (hslab : slab ∈ state.created)
    (hcall : LargeCache.releaseSlab supply slab (state.removeFrom .free slab) = .ok state') :
    Shrinks .large state state' := by
  refine (removeFrom_shrinks state slab).trans ?_
  rw [← (removeFrom_same state .free slab).created_eq] at hslab
  -- only the magic value of the header has changed
  have hstart := congrFun (objectStarts_retireSlab (state.removeFrom .free slab) slab) slab
  obtain ⟨_, -, hcall⟩ := bind_eq_ok.mp hcall
  obtain ⟨⟨removed, table⟩, -, hcall⟩ := bind_eq_ok.mp hcall
  obtain ⟨buddy', hfree, hresize⟩ := bind_eq_ok.mp hcall
  obtain ⟨table', rfl⟩ := resizeHashTableIfNeeded_keeps hresize
  rw [objectStarts] at hstart
  rw [hstart] at hfree
  exact @retireSlab_shrinks .large _ _ hslab _ hfree table'

theorem CacheInvariant.releases_shrinks {kept : CacheState → Prop}
    {releaseSlab : ℕ → CacheState → Outcome CacheState}
    (hrelease : ∀ state lists, kept state → CacheInvariant state lists chains live →
      ∀ slab ∈ lists .free, ∃ state' lists',
        releaseSlab slab (state.removeFrom .free slab) = .ok state' ∧ kept state' ∧
          CacheInvariant state' lists' chains live ∧ state'.created = state.created.erase slab)
    (hshrinks : ∀ before after slab, slab ∈ before.created →
      releaseSlab slab (before.removeFrom .free slab) = .ok after → Shrinks kind before after)
    {fuel : ℕ} (hkept : kept state) (hcache : CacheInvariant state lists chains live)
    (hfuel : state.created.card < fuel)
    (hcall : state.releaseUnusedMemory releaseSlab fuel = .ok state') :
    Shrinks kind state state' := by
  have hboth : ∀ before lists, kept before ∧ Shrinks kind state before →
      CacheInvariant before lists chains live → ∀ slab ∈ lists .free, ∃ after lists',
        releaseSlab slab (before.removeFrom .free slab) = .ok after ∧
          (kept after ∧ Shrinks kind state after) ∧ CacheInvariant after lists' chains live ∧
            after.created = before.created.erase slab := by
    intro before lists hbefore hcache slab hmem
    obtain ⟨after, lists', hcall, hkept', hcache', hcreated⟩ :=
      hrelease before lists hbefore.1 hcache slab hmem
    have hstep := hshrinks before after slab ((hcache.created slab).mpr ⟨.free, hmem⟩) hcall
    exact ⟨after, lists', hcall, ⟨hkept', hbefore.2.trans hstep⟩, hcache', hcreated⟩
  obtain ⟨after, _, hreturns, ⟨-, hafter⟩, -⟩ :=
    CacheInvariant.releaseUnusedMemory hboth ⟨hkept, .refl kind state⟩ hcache hfuel
  obtain rfl := Except.ok.inj (hreturns.symm.trans hcall)
  exact hafter

/-- Only blocks of free slabs are given back. -/
theorem releaseUnusedMemory_shrinks (hlayout : kind.LayoutOk state)
    (hcache : CacheInvariant state lists chains live)
    (hcall : kind.releaseUnusedMemory supply state = .ok state') : Shrinks kind state state' := by
  cases kind with
  | small =>
      have hfuel := (SmallLayout.layout hlayout).card_lt
      exact CacheInvariant.releases_shrinks
        (fun _ _ hlayout hcache _ hmem => SmallLayout.releaseSlab hlayout hcache hmem)
        (fun _ _ _ hslab hcall => SmallCache.releaseSlab_shrinks hslab hcall)
        hlayout hcache hfuel hcall
  | large =>
      have hfuel := (LargeLayout.layout hlayout).card_lt
      exact CacheInvariant.releases_shrinks
        (fun _ _ hlayout hcache _ hmem => LargeLayout.releaseSlab hlayout hcache hmem)
        (fun _ _ _ hslab hcall => LargeCache.releaseSlab_shrinks hslab hcall)
        hlayout hcache hfuel hcall

end GeexOS.SlabAllocator
