import GeexOS.Kernel.SlabOperations

/-!
# Slabs that come and go

A new slab has all its slots in its chain and joins the free list.  Only slabs
of the free list are released, and these hold no live object.
-/

namespace GeexOS.SlabAllocator

open GeexOS.Words
open GeexOS.Halting
open GeexOS.Linked
open GeexOS.DataStructures
open CacheState

variable {state state' : CacheState} {lists : SlabList → List ℕ} {chains : ℕ → List ℕ}
variable {live : Finset ℕ} {slab address : ℕ}

/-! ## New slabs -/

theorem linkFreeArray_of_lt (array : ℕ → ℕ) {count i : ℕ} (hi : i < count) :
    linkFreeArray array count i = i + 1 := by
  induction count with
  | zero => exact absurd hi (Nat.not_lt_zero i)
  | succ count ih =>
      rw [linkFreeArray]
      rcases Nat.lt_succ_iff_lt_or_eq.mp hi with hlt | rfl
      · rw [Function.update_of_ne hlt.ne, ih hlt]
      · exact Function.update_self ..

/-- The slots of a new slab are free in ascending order. -/
theorem initFreeArray_chain (array : ℕ → ℕ) {objects : ℕ} (hpos : 0 < objects)
    (hle : objects ≤ slabBufEnd) :
    Chain (initFreeArray array objects) slabBufEnd 0 (List.range objects) := by
  have hlast : sub32 objects 1 = objects - 1 :=
    sub32_of_le (hle.trans_lt (by decide)) hpos
  have hnext : ∀ i < objects, initFreeArray array objects i =
      if i + 1 = objects then slabBufEnd else i + 1 := by
    intro i hi
    rw [initFreeArray, hlast]
    by_cases heq : i + 1 = objects
    · have hindex : i = objects - 1 := by omega
      rw [if_pos heq, hindex, Function.update_self]
    · rw [if_neg heq, Function.update_of_ne (by omega), linkFreeArray_of_lt array (by omega)]
  have hfrom : ∀ rest start, start + rest + 1 = objects →
      Chain (initFreeArray array objects) slabBufEnd start (List.range' start (rest + 1)) := by
    intro rest
    induction rest with
    | zero =>
        intro start hend
        rw [List.range'_succ, chain_cons, hnext start (by omega), if_pos hend]
        exact ⟨rfl, by omega, chain_nil.mpr rfl⟩
    | succ rest ih =>
        intro start hend
        rw [List.range'_succ, chain_cons, hnext start (by omega), if_neg (by omega)]
        exact ⟨rfl, by omega, ih (start + 1) (by omega)⟩
  obtain ⟨rest, rfl⟩ := Nat.exists_eq_succ_of_ne_zero hpos.ne'
  rw [List.range_eq_range']
  exact hfrom rest 0 (by omega)

/-- A header at the start of its life. -/
structure NewHeader (state : CacheState) (header : Slab) : Prop where
  magic : header.magicValid = slabMagicValid
  freeIndex : header.freeIndex = 0
  inUse : header.inUse = 0
  start_pos : 0 < header.objectStart
  area_le : header.objectStart + state.cache.objSize * state.cache.objectsPerSlab ≤ 2 ^ 32
  apart : ∀ slab ∈ state.created,
    header.objectStart + state.cache.objSize * state.cache.objectsPerSlab ≤
        (state.slabs slab).objectStart ∨
      (state.slabs slab).objectStart + state.cache.objSize * state.cache.objectsPerSlab ≤
        header.objectStart

@[simp]
theorem initSlab_slabs (header : Slab) :
    (state.initSlab address header).slabs address = header := Function.update_self ..

theorem initSlab_slabs_of_ne {other : ℕ} (header : Slab) (hne : other ≠ address) :
    (state.initSlab address header).slabs other = state.slabs other :=
  Function.update_of_ne hne _ _

@[simp]
theorem initSlab_freeArrays (header : Slab) :
    (state.initSlab address header).freeArrays address =
      initFreeArray (state.freeArrays address) state.cache.objectsPerSlab :=
  Function.update_self ..

theorem initSlab_freeArrays_of_ne {other : ℕ} (header : Slab) (hne : other ≠ address) :
    (state.initSlab address header).freeArrays other = state.freeArrays other :=
  Function.update_of_ne hne _ _

theorem Slots.initSlab (hslots : Slots state chains live) (hnew : address ∉ state.created)
    {header : Slab} (hheader : NewHeader state header) :
    Slots (state.initSlab address header)
      (Function.update chains address (List.range state.cache.objectsPerSlab)) live := by
  have hold : ∀ slab ∈ state.created, slab ≠ address := fun slab hmem heq => hnew (heq ▸ hmem)
  refine ⟨hslots.objSize_pos, hslots.objects_pos, hslots.objects_le, fun slab hmem => ?_,
    fun left hleft right hright hne => ?_, fun object => ?_⟩
  · rcases Finset.mem_insert.mp hmem with rfl | hmem
    · rw [Function.update_self]
      refine ⟨?_, ?_, ?_, ?_, fun i hi => List.mem_range.mp hi, ?_⟩
      · simpa using hheader.magic
      · simpa using hheader.start_pos
      · simpa [CacheState.initSlab] using hheader.area_le
      · simpa [hheader.freeIndex] using
          initFreeArray_chain (state.freeArrays slab) hslots.objects_pos hslots.objects_le
      · simp [hheader.inUse, CacheState.initSlab]
    · obtain ⟨hmagic, hpos, harea, hchain, hchainLt, hsum⟩ := hslots.slab slab hmem
      have hne := hold slab hmem
      rw [Function.update_of_ne hne]
      constructor <;> simpa only [initSlab_slabs_of_ne header hne,
        initSlab_freeArrays_of_ne header hne]
  · rw [AreasApart]
    rcases Finset.mem_insert.mp hleft with rfl | hleft'
    · have hright' := (Finset.mem_insert.mp hright).resolve_left (Ne.symm hne)
      rw [initSlab_slabs, initSlab_slabs_of_ne header (Ne.symm hne)]
      exact hheader.apart right hright'
    · rw [initSlab_slabs_of_ne header (hold left hleft')]
      rcases Finset.mem_insert.mp hright with rfl | hright'
      · rw [initSlab_slabs]
        exact (hheader.apart left hleft').symm
      · rw [initSlab_slabs_of_ne header (hold right hright')]
        exact hslots.apart left hleft' right hright' hne
  · rw [hslots.live]
    constructor
    · rintro ⟨slab, hmem, i, hi, hused, rfl⟩
      have hne := hold slab hmem
      refine ⟨slab, Finset.mem_insert_of_mem hmem, i, hi, ?_, ?_⟩
      · rwa [Function.update_of_ne hne]
      · rw [slot, slot, initSlab_slabs_of_ne header hne]
        rfl
    · rintro ⟨slab, hmem, i, hi, hused, rfl⟩
      rcases Finset.mem_insert.mp hmem with rfl | hmem
      · rw [Function.update_self, List.mem_range] at hused
        exact absurd hi hused
      · have hne := hold slab hmem
        rw [Function.update_of_ne hne] at hused
        refine ⟨slab, hmem, i, hi, hused, ?_⟩
        rw [slot, slot, initSlab_slabs_of_ne header hne]
        rfl

/-- A new slab is put on the free list. -/
theorem CacheInvariant.addSlab (hcache : CacheInvariant state lists chains live)
    (hne : address ≠ 0) (hnew : address ∉ state.created) {header : Slab}
    (hheader : NewHeader state header) :
    ∃ state' lists', (state.initSlab address header).prependTo .free address = .ok state' ∧
      SameButLists (state.initSlab address header) state' ∧
      CacheInvariant state' lists'
        (Function.update chains address (List.range state.cache.objectsPerSlab)) live := by
  have hunlisted : ∀ which, address ∉ lists which := fun which hmem =>
    hnew ((hcache.created address).mpr ⟨which, hmem⟩)
  have hlinked : Linked (state.initSlab address header) lists :=
    hcache.linked.of_eq rfl fun which => by cases which <;> rfl
  obtain ⟨state', lists', hcall, hsame, hlinked', hlists⟩ :=
    hlinked.prependTo .free hunlisted hne
  refine ⟨state', lists', hcall, hsame, hlinked', fun slab => ?_, fun which slab hmem => ?_,
    (hcache.slots.initSlab hnew hheader).congr hsame,
    hsame.objectsAllocated_eq.trans hcache.count⟩
  · rw [hsame.created_eq]
    simp only [hlists]
    change slab ∈ insert address state.created ↔ _
    rw [Finset.mem_insert, hcache.created]
    constructor
    · rintro (heq | ⟨which, hmem⟩)
      · exact ⟨.free, Or.inl ⟨heq, rfl⟩⟩
      · exact ⟨which, Or.inr hmem⟩
    · rintro ⟨which, ⟨heq, _⟩ | hmem⟩
      · exact Or.inl heq
      · exact Or.inr ⟨which, hmem⟩
  · rw [hsame.slabs_eq]
    rcases (hlists which slab).mp hmem with ⟨rfl, rfl⟩ | hmem
    · rw [initSlab_slabs]
      exact hheader.inUse
    · have hother : slab ≠ address := fun heq => hunlisted which (heq ▸ hmem)
      rw [initSlab_slabs_of_ne header hother, Function.update_of_ne hother]
      exact hcache.fits which slab hmem

/-! ## Released slabs -/

/-- All slots of an unused slab are in its chain. -/
theorem SlabOk.mem_of_unused {freeSlots : List ℕ} (hslab : SlabOk state slab freeSlots)
    (hinUse : (state.slabs slab).inUse = 0) {i : ℕ} (hi : i < state.cache.objectsPerSlab) :
    i ∈ freeSlots := by
  by_contra hused
  exact (hslab.inUse_pos hi hused).ne' hinUse

theorem Slots.retireSlab (hslots : Slots state chains live) (hslab : slab ∈ state.created)
    (hinUse : (state.slabs slab).inUse = 0) : Slots (state.retireSlab slab) chains live := by
  have hkept : ∀ other, other ≠ slab →
      (state.retireSlab slab).slabs other = state.slabs other := fun other hne =>
    Function.update_of_ne hne _ _
  refine ⟨hslots.objSize_pos, hslots.objects_pos, hslots.objects_le, fun other hmem => ?_,
    fun left hleft right hright hne => ?_, fun object => ?_⟩
  · obtain ⟨hne, hmem⟩ := Finset.mem_erase.mp hmem
    obtain ⟨hmagic, hpos, harea, hchain, hchainLt, hsum⟩ := hslots.slab other hmem
    constructor <;> simpa only [hkept other hne]
  · obtain ⟨hleftNe, hleft⟩ := Finset.mem_erase.mp hleft
    obtain ⟨hrightNe, hright⟩ := Finset.mem_erase.mp hright
    rw [AreasApart, hkept left hleftNe, hkept right hrightNe]
    exact hslots.apart left hleft right hright hne
  · rw [hslots.live]
    constructor
    · rintro ⟨other, hmem, i, hi, hused, rfl⟩
      have hne : other ≠ slab := by
        rintro rfl
        exact hused ((hslots.slab other hmem).mem_of_unused hinUse hi)
      refine ⟨other, Finset.mem_erase.mpr ⟨hne, hmem⟩, i, hi, hused, ?_⟩
      rw [slot, slot, hkept other hne]
      rfl
    · rintro ⟨other, hmem, i, hi, hused, rfl⟩
      obtain ⟨hne, hmem⟩ := Finset.mem_erase.mp hmem
      refine ⟨other, hmem, i, hi, hused, ?_⟩
      rw [slot, slot, hkept other hne]
      rfl

/-- A slab of the free list is taken off and retired. -/
theorem CacheInvariant.retireSlab (hcache : CacheInvariant state lists chains live)
    (hmem : slab ∈ lists .free) :
    (state.removeFrom .free slab).checkMagic slab = .ok () ∧
      SameButLists state (state.removeFrom .free slab) ∧
      ∃ lists', CacheInvariant ((state.removeFrom .free slab).retireSlab slab) lists' chains
        live := by
  have hslab : slab ∈ state.created := (hcache.created slab).mpr ⟨.free, hmem⟩
  have hinUse : (state.slabs slab).inUse = 0 := hcache.fits .free slab hmem
  have hne : slab ≠ 0 := (hcache.linked.represents .free).segment.ne_zero hmem
  obtain ⟨hsame, lists', hlinked, hlists⟩ := hcache.linked.removeFrom hmem
  have hslots := (hcache.slots.congr hsame).retireSlab (hsame.created_eq.symm ▸ hslab)
    (hsame.slabs_eq.symm ▸ hinUse)
  refine ⟨?_, hsame, lists', hlinked.of_eq rfl fun which => by cases which <;> rfl,
    fun other => ?_, fun which other hother => ?_, hslots,
    hsame.objectsAllocated_eq.trans hcache.count⟩
  · have hmagic := (hcache.slots.slab slab hslab).magic
    rw [← hsame.slabs_eq] at hmagic
    rw [checkMagic, if_neg hne, if_neg (not_not.mpr hmagic)]
  · simp only [CacheState.retireSlab, Finset.mem_erase, hsame.created_eq, hcache.created, hlists,
      exists_and_left]
  · obtain ⟨hother', hmem'⟩ := (hlists which other).mp hother
    have hkept : ((state.removeFrom .free slab).retireSlab slab).slabs other =
        state.slabs other := by
      rw [← hsame.slabs_eq]
      exact Function.update_of_ne hother' _ _
    rw [hkept]
    exact hcache.fits which other hmem'

/-- The invariant does not look at the region and the hash table. -/
theorem CacheInvariant.congr_outside (hcache : CacheInvariant state lists chains live)
    (buddy : Buddy.BuddyState) (hashTable : BHashTable) :
    CacheInvariant { state with buddy := buddy, hashTable := hashTable } lists chains live where
  linked := hcache.linked.of_eq rfl fun which => by cases which <;> rfl
  created := hcache.created
  fits := hcache.fits
  slots := by
    obtain ⟨hpos, hobjects, hle, hslab, hapart, hlive⟩ := hcache.slots
    refine ⟨hpos, hobjects, hle, fun slab hmem => ?_, hapart, hlive⟩
    obtain ⟨hmagic, hstart, harea, hchain, hchainLt, hsum⟩ := hslab slab hmem
    exact ⟨hmagic, hstart, harea, hchain, hchainLt, hsum⟩
  count := hcache.count

end GeexOS.SlabAllocator
