import GeexOS.Kernel.SlabGrowth

/-!
# Slabs in blocks of a buddy region

A slab's objects lie in one live block of the region.  Blocks are aligned to
their size, so a mask leads from an object to its block, and slabs of one cache
do not overlap.
-/

namespace GeexOS.SlabAllocator

open GeexOS.Words
open GeexOS.Halting
open GeexOS.Linked
open GeexOS.DataStructures
open CacheState

variable {state state' : CacheState} {lists : SlabList → List ℕ} {chains : ℕ → List ℕ}
variable {live : Finset ℕ} {slab address order object i : ℕ}
variable {buddy buddy' : Buddy.BuddyState} {cells : ℕ → List ℕ}

/-! ## Blocks of the region -/

/-- The region's blocks partition it, and its start is aligned for every order
of a slab. -/
structure RegionOk (buddy : Buddy.BuddyState) (cells : ℕ → List ℕ) : Prop where
  invariant : Buddy.Invariant buddy cells
  start_aligned : 2 ^ (pageShift + slabMaxOrder) ∣ buddy.region.startAddress

theorem RegionOk.step (hbuddy : RegionOk buddy cells)
    (hstep : Buddy.BuddyStep Buddy.NoWrap buddy buddy') : ∃ cells', RegionOk buddy' cells' := by
  obtain ⟨cells', hinvariant, hsame, _⟩ := hstep.invariant hbuddy.invariant
  exact ⟨cells', hinvariant, hsame.startAddress_eq ▸ hbuddy.start_aligned⟩

theorem RegionOk.mem_blocks (hbuddy : RegionOk buddy cells) {allocation : Buddy.Allocation}
    (hmem : allocation ∈ buddy.live) :
    buddy.region.blockAt allocation.address (allocation.order + pageShift) ∈
      [] ++ (buddy.region.freeBlocks cells ++ buddy.live.map (Buddy.Allocation.block
        buddy.region)) := by
  refine List.mem_append_right _ (List.mem_append_right _ (List.mem_map.mpr ⟨_, hmem, ?_⟩))
  rw [Buddy.block_of_placed hbuddy.invariant.partition.placed]
  rfl

/-- Where a live block of a slab lies. -/
theorem RegionOk.block (hbuddy : RegionOk buddy cells) (horder : order ≤ slabMaxOrder)
    (hmem : ⟨address, order⟩ ∈ buddy.live) :
    0 < address ∧ 2 ^ (order + pageShift) ∣ address ∧
      address + 2 ^ (order + pageShift) < 2 ^ 32 := by
  have hpartition := hbuddy.invariant.partition
  have hblock := hbuddy.mem_blocks hmem
  have habove : buddy.region.startAddress ≤ address := hbuddy.invariant.live_above _ hmem
  have haligned := hpartition.tiling.aligned _ hblock
  have hend := hpartition.address_lt hblock
  simp only [Buddy.BuddyAllocatedMemoryRegion.blockAt] at haligned hend
  have hstart : 2 ^ (order + pageShift) ∣ buddy.region.startAddress := by
    refine (Nat.pow_dvd_pow 2 ?_).trans hbuddy.start_aligned
    omega
  have hsum := Nat.dvd_add hstart haligned
  rw [Nat.add_sub_cancel' habove] at hend hsum
  exact ⟨hpartition.placed.start_pos.trans_le habove, hsum, hend⟩

theorem RegionOk.live_apart_of_le (hbuddy : RegionOk buddy cells)
    {left right : Buddy.Allocation} (hleft : left ∈ buddy.live) (hright : right ∈ buddy.live)
    (hne : left ≠ right) (hle : left.address ≤ right.address) :
    left.address + 2 ^ (left.order + pageShift) ≤ right.address := by
  have hlow := hbuddy.invariant.live_above left hleft
  by_contra hoverlap
  have hinside : right.address - buddy.region.startAddress ∈
      (buddy.region.blockAt left.address (left.order + pageShift)).range := by
    rw [Dyadic.Block.mem_range]
    simp only [Buddy.BuddyAllocatedMemoryRegion.blockAt]
    omega
  have hsame := hbuddy.invariant.partition.tiling.eq_of_mem_range (hbuddy.mem_blocks hleft)
    (hbuddy.mem_blocks hright) hinside (Dyadic.Block.start_mem_range _)
  obtain ⟨hstart, horder⟩ := Dyadic.Block.mk.inj hsame
  refine hne ?_
  obtain ⟨address, order⟩ := left
  obtain ⟨address', order'⟩ := right
  simp only at hlow hle hstart horder
  obtain rfl : order = order' := Nat.add_right_cancel horder
  obtain rfl : address = address' := by omega
  rfl

/-- Two live blocks do not overlap. -/
theorem RegionOk.live_apart (hbuddy : RegionOk buddy cells) {left right : Buddy.Allocation}
    (hleft : left ∈ buddy.live) (hright : right ∈ buddy.live) (hne : left ≠ right) :
    left.address + 2 ^ (left.order + pageShift) ≤ right.address ∨
      right.address + 2 ^ (right.order + pageShift) ≤ left.address :=
  (le_total left.address right.address).imp (hbuddy.live_apart_of_le hleft hright hne)
    (hbuddy.live_apart_of_le hright hleft (Ne.symm hne))

/-- `AllocateBuddy` is a step of the region whether there is a block or not. -/
theorem buddyStep_of_allocateBuddy (horder : order ≤ slabMaxOrder)
    (hcall : allocateBuddy buddy order = .ok (address, buddy')) :
    Buddy.BuddyStep Buddy.NoWrap buddy buddy' ∧
      (address ≠ 0 → buddy'.live = ⟨address, order⟩ :: buddy.live) := by
  obtain ⟨⟨ret, region⟩, hregion, hresult⟩ := bind_eq_ok.mp hcall
  simp only [Except.ok.injEq, Prod.mk.injEq] at hresult
  obtain ⟨rfl, rfl⟩ := hresult
  have hwrap : Buddy.NoWrap order := by
    simp only [Buddy.NoWrap, Buddy.pageShift, slabMaxOrder] at *
    omega
  by_cases hzero : ret = 0
  · rw [hzero] at hregion
    rw [if_pos hzero]
    exact ⟨.exhausted hwrap hregion, fun hne => absurd hzero hne⟩
  · rw [if_neg hzero]
    exact ⟨.allocate hwrap hregion hzero, fun _ => rfl⟩

/-- A block that `AllocateBuddy` returns was not live. -/
theorem RegionOk.allocateBuddy (hbuddy : RegionOk buddy cells) (horder : order ≤ slabMaxOrder)
    (hcall : allocateBuddy buddy order = .ok (address, buddy')) :
    ∃ cells', RegionOk buddy' cells' ∧ (address ≠ 0 →
      buddy'.live = ⟨address, order⟩ :: buddy.live ∧ ⟨address, order⟩ ∉ buddy.live) := by
  obtain ⟨hstep, hlive⟩ := buddyStep_of_allocateBuddy horder hcall
  obtain ⟨cells', hok⟩ := hbuddy.step hstep
  refine ⟨cells', hok, fun hne => ⟨hlive hne, fun hmem => ?_⟩⟩
  have hnodup := hok.invariant.partition.tiling.nodup
  rw [List.nil_append] at hnodup
  have hblocks := (List.nodup_append.mp hnodup).2.1
  rw [hlive hne, List.map_cons, List.nodup_cons] at hblocks
  exact hblocks.1 (List.mem_map_of_mem hmem)

/-- A live block can be given back. -/
theorem RegionOk.freeBuddy (hbuddy : RegionOk buddy cells)
    (hmem : ⟨address, order⟩ ∈ buddy.live) :
    ∃ buddy' cells', freeBuddy buddy address order = .ok buddy' ∧ RegionOk buddy' cells' ∧
      buddy'.live = buddy.live.erase ⟨address, order⟩ := by
  obtain ⟨region, hregion⟩ := hbuddy.invariant.calls_return.2 _ hmem
  obtain ⟨before, blocks⟩ := buddy
  obtain ⟨front, back, _, hsplit, herase⟩ := List.exists_erase_eq hmem
  simp only at hsplit herase hregion
  have hstep : Buddy.BuddyStep Buddy.NoWrap ⟨before, front ++ ⟨address, order⟩ :: back⟩
      ⟨region, front ++ back⟩ := .free hregion
  rw [← hsplit, ← herase] at hstep
  obtain ⟨cells', hok⟩ := hbuddy.step hstep
  exact ⟨_, cells', by rw [SlabAllocator.freeBuddy, hregion, ok_bind], hok, rfl⟩

theorem RegionOk.nodup (hbuddy : RegionOk buddy cells) : buddy.live.Nodup := by
  have hnodup := hbuddy.invariant.partition.tiling.nodup
  rw [List.nil_append] at hnodup
  exact List.Nodup.of_map _ (List.nodup_append.mp hnodup).2.1

/-- Different multiples of a size are that far apart. -/
theorem apart_of_dvd {size left right : ℕ} (hleft : size ∣ left) (hright : size ∣ right)
    (hne : left ≠ right) : left + size ≤ right ∨ right + size ≤ left := by
  obtain ⟨i, rfl⟩ := hleft
  obtain ⟨j, rfl⟩ := hright
  have hdiffer : i ≠ j := fun heq => hne (heq ▸ rfl)
  rcases Nat.lt_or_gt_of_ne hdiffer with hlt | hgt
  · exact Or.inl (Nat.mul_le_mul_left size hlt)
  · exact Or.inr (Nat.mul_le_mul_left size hgt)

/-- A mask rounds an address inside a block down to the block. -/
theorem land_mask_of_mem {base k : ℕ} (hk : k ≤ 32) (hbase : 2 ^ k ∣ base)
    (hend : base + 2 ^ k < 2 ^ 32) (hlow : base ≤ address) (hhigh : address < base + 2 ^ k) :
    address &&& (2 ^ 32 - 2 ^ k) = base := by
  obtain ⟨factor, rfl⟩ := hbase
  rw [land_mask (hhigh.trans hend) hk, Nat.mul_comm]
  congr 1
  rw [← Nat.mul_succ] at hhigh
  exact Nat.div_eq_of_lt_le (by rwa [Nat.mul_comm]) (by rwa [Nat.mul_comm])

/-! ## Slabs in their blocks -/

/-- The memory a slab's objects lie in. -/
structure Layout (blockOf : ℕ → ℕ) (state : CacheState) : Prop where
  region : ∃ cells, RegionOk state.buddy cells
  order_le : state.cache.order ≤ slabMaxOrder
  block : ∀ slab ∈ state.created, ⟨blockOf slab, state.cache.order⟩ ∈ state.buddy.live
  inside : ∀ slab ∈ state.created, blockOf slab ≤ (state.slabs slab).objectStart ∧
    (state.slabs slab).objectStart + state.cache.objSize * state.cache.objectsPerSlab ≤
      blockOf slab + 2 ^ (state.cache.order + pageShift)
  distinct : ∀ left ∈ state.created, ∀ right ∈ state.created,
    blockOf left = blockOf right → left = right

variable {blockOf : ℕ → ℕ}

theorem Layout.block_place (hlayout : Layout blockOf state) (hslab : slab ∈ state.created) :
    0 < blockOf slab ∧ 2 ^ (state.cache.order + pageShift) ∣ blockOf slab ∧
      blockOf slab + 2 ^ (state.cache.order + pageShift) < 2 ^ 32 := by
  obtain ⟨cells, hregion⟩ := hlayout.region
  exact hregion.block hlayout.order_le (hlayout.block slab hslab)

theorem Layout.same (hlayout : Layout blockOf state) (hsame : SameSlabs state state') :
    Layout blockOf state' := by
  obtain ⟨hregion, horder, hblock, hinside, hdistinct⟩ := hlayout
  refine ⟨?_, ?_, fun slab hslab => ?_, fun slab hslab => ?_, ?_⟩
  · rwa [hsame.buddy_eq]
  · rwa [hsame.order_eq]
  · rw [hsame.buddy_eq, hsame.order_eq]
    exact hblock slab (hsame.created_eq ▸ hslab)
  · rw [hsame.objectStart_eq, hsame.objSize_eq, hsame.objectsPerSlab_eq, hsame.order_eq]
    exact hinside slab (hsame.created_eq ▸ hslab)
  · rwa [hsame.created_eq]

/-- The block of a slab is found from every object in it. -/
theorem Layout.land_mask_slot (hlayout : Layout blockOf state)
    (hcache : CacheInvariant state lists chains live) (hslab : slab ∈ state.created)
    (hi : i < state.cache.objectsPerSlab) :
    slot state slab i &&& (2 ^ 32 - 2 ^ (state.cache.order + pageShift)) = blockOf slab := by
  obtain ⟨_, haligned, hend⟩ := hlayout.block_place hslab
  obtain ⟨hlow, hhigh⟩ := hlayout.inside slab hslab
  have hslot := slot_add_le state slab hi
  have hpos := hcache.slots.objSize_pos
  have horder : state.cache.order ≤ 5 := hlayout.order_le
  refine land_mask_of_mem (by rw [pageShift]; omega) haligned hend ?_ ?_
  · exact hlow.trans (Nat.le_add_right _ _)
  · omega

/-- What `AllocateBuddy` returns for a new slab. -/
theorem Layout.allocateBuddy (hlayout : Layout blockOf state)
    (hcall : allocateBuddy state.buddy state.cache.order = .ok (address, buddy'))
    (haddress : address ≠ 0) :
    (∃ cells, RegionOk buddy' cells) ∧
      buddy'.live = ⟨address, state.cache.order⟩ :: state.buddy.live ∧
      (∀ slab ∈ state.created, blockOf slab ≠ address) ∧
      2 ^ (state.cache.order + pageShift) ∣ address ∧
      address + 2 ^ (state.cache.order + pageShift) < 2 ^ 32 := by
  obtain ⟨cells, hregion⟩ := hlayout.region
  obtain ⟨cells', hregion', hfresh⟩ := hregion.allocateBuddy hlayout.order_le hcall
  obtain ⟨hlive, hnotLive⟩ := hfresh haddress
  have hmem : ⟨address, state.cache.order⟩ ∈ buddy'.live := hlive ▸ List.mem_cons_self
  obtain ⟨_, haligned, hend⟩ := hregion'.block hlayout.order_le hmem
  refine ⟨⟨cells', hregion'⟩, hlive, fun slab hslab heq => hnotLive ?_, haligned, hend⟩
  rw [← heq]
  exact hlayout.block slab hslab

/-- A header for objects in a block of their own. -/
theorem Layout.newHeader (hlayout : Layout blockOf state) {header : Slab} {base : ℕ}
    (hother : ∀ slab ∈ state.created, blockOf slab ≠ base)
    (haligned : 2 ^ (state.cache.order + pageShift) ∣ base)
    (hend : base + 2 ^ (state.cache.order + pageShift) < 2 ^ 32)
    (hmagic : header.magicValid = slabMagicValid) (hfree : header.freeIndex = 0)
    (hinUse : header.inUse = 0) (hpos : 0 < header.objectStart)
    (hlow : base ≤ header.objectStart)
    (hhigh : header.objectStart + state.cache.objSize * state.cache.objectsPerSlab ≤
      base + 2 ^ (state.cache.order + pageShift)) : NewHeader state header := by
  refine ⟨hmagic, hfree, hinUse, hpos, by omega, fun slab hslab => ?_⟩
  obtain ⟨_, haligned', _⟩ := hlayout.block_place hslab
  obtain ⟨hlow', hhigh'⟩ := hlayout.inside slab hslab
  rcases apart_of_dvd haligned haligned' (hother slab hslab).symm with hapart | hapart
  · exact Or.inl (hhigh.trans (hapart.trans hlow'))
  · exact Or.inr (hhigh'.trans (hapart.trans hlow))

theorem Layout.initSlab (hlayout : Layout blockOf state) {header : Slab} {base : ℕ}
    (hnew : address ∉ state.created) (hregion : ∃ cells, RegionOk buddy' cells)
    (hlive : ∀ block ∈ state.buddy.live, block ∈ buddy'.live)
    (hbase : ⟨base, state.cache.order⟩ ∈ buddy'.live)
    (hother : ∀ slab ∈ state.created, blockOf slab ≠ base)
    (hlow : base ≤ header.objectStart)
    (hhigh : header.objectStart + state.cache.objSize * state.cache.objectsPerSlab ≤
      base + 2 ^ (state.cache.order + pageShift)) :
    Layout (Function.update blockOf address base)
      ({ state with buddy := buddy' }.initSlab address header) := by
  have hold : ∀ slab ∈ state.created, slab ≠ address := fun slab hmem heq => hnew (heq ▸ hmem)
  refine ⟨hregion, hlayout.order_le, fun slab hslab => ?_, fun slab hslab => ?_,
    fun left hleft right hright => ?_⟩
  · rcases Finset.mem_insert.mp hslab with rfl | hmem
    · rw [Function.update_self]
      exact hbase
    · rw [Function.update_of_ne (hold slab hmem)]
      exact hlive _ (hlayout.block slab hmem)
  · rcases Finset.mem_insert.mp hslab with rfl | hmem
    · rw [Function.update_self, initSlab_slabs]
      exact ⟨hlow, hhigh⟩
    · rw [Function.update_of_ne (hold slab hmem),
        initSlab_slabs_of_ne header (hold slab hmem)]
      exact hlayout.inside slab hmem
  · rcases Finset.mem_insert.mp hleft with rfl | hleft' <;>
      rcases Finset.mem_insert.mp hright with rfl | hright'
    · exact fun _ => rfl
    · rw [Function.update_self, Function.update_of_ne (hold right hright')]
      exact fun heq => absurd heq.symm (hother right hright')
    · rw [Function.update_self, Function.update_of_ne (hold left hleft')]
      exact fun heq => absurd heq (hother left hleft')
    · rw [Function.update_of_ne (hold left hleft'), Function.update_of_ne (hold right hright')]
      exact hlayout.distinct left hleft' right hright'

/-- The block of a released slab goes back to the region. -/
theorem Layout.retireSlab (hlayout : Layout blockOf state) (hslab : slab ∈ state.created) :
    ∃ buddy', freeBuddy state.buddy (blockOf slab) state.cache.order = .ok buddy' ∧
      Layout blockOf { state.retireSlab slab with buddy := buddy' } := by
  obtain ⟨cells, hregion⟩ := hlayout.region
  obtain ⟨buddy', cells', hcall, hregion', hlive⟩ :=
    hregion.freeBuddy (hlayout.block slab hslab)
  have hkept : ∀ other ∈ state.created.erase slab, other ≠ slab ∧ other ∈ state.created :=
    fun other hmem => Finset.mem_erase.mp hmem
  refine ⟨buddy', hcall, ⟨cells', hregion'⟩, hlayout.order_le, fun other hmem => ?_,
    fun other hmem => ?_, fun left hleft right hright => ?_⟩
  · obtain ⟨hne, hmem⟩ := hkept other hmem
    change _ ∈ buddy'.live
    rw [hlive, List.Nodup.mem_erase_iff hregion.nodup]
    refine ⟨fun heq => hne ?_, hlayout.block other hmem⟩
    exact hlayout.distinct other hmem slab hslab (congrArg Buddy.Allocation.address heq)
  · obtain ⟨hne, hmem⟩ := hkept other hmem
    have hslabs : (state.retireSlab slab).slabs other = state.slabs other :=
      Function.update_of_ne hne _ _
    rw [hslabs]
    exact hlayout.inside other hmem
  · exact hlayout.distinct left (hkept left hleft).2 right (hkept right hright).2

/-- There are no more slabs than pages. -/
theorem Layout.card_le (hlayout : Layout blockOf state) : state.created.card ≤ 2 ^ 20 := by
  have hpage : ∀ slab ∈ state.created, 2 ^ pageShift ∣ blockOf slab := fun slab hmem =>
    (Nat.pow_dvd_pow 2 (Nat.le_add_left _ _)).trans (hlayout.block_place hmem).2.1
  have hmaps : Set.MapsTo (fun slab => blockOf slab / 2 ^ pageShift) state.created
      (Finset.range (2 ^ 20)) := by
    intro slab hmem
    have hend := (hlayout.block_place hmem).2.2
    rw [Finset.coe_range, Set.mem_Iio]
    exact Nat.div_lt_of_lt_mul (lt_of_le_of_lt (Nat.le_add_right _ _) hend)
  have hinjective : Set.InjOn (fun slab => blockOf slab / 2 ^ pageShift) state.created := by
    intro left hleft right hright heq
    apply hlayout.distinct left hleft right hright
    exact (Nat.div_left_inj (hpage left hleft) (hpage right hright)).mp heq
  simpa using Finset.card_le_card_of_injOn _ hmaps hinjective

theorem Layout.card_lt (hlayout : Layout blockOf state) : state.created.card < addresses :=
  hlayout.card_le.trans_lt (Nat.pow_lt_pow_right (by decide) (by decide))

/-! ## Calls -/

/-- If the cache has to grow there is a block for it. -/
def Growable (state : CacheState) : Prop :=
  state.cache.partialSlabList.isEmpty = true → state.cache.freeSlabList.isEmpty = true →
    ∃ address buddy', allocateBuddy state.buddy state.cache.order = .ok (address, buddy') ∧
      address ≠ 0

/-- `GetNonEmptySlab` finds a slab with a free slot or grows the cache. -/
theorem getNonEmptySlab_cases (hcache : CacheInvariant state lists chains live)
    (grow : CacheState → Outcome (ℕ × CacheState)) :
    (∃ slab, getNonEmptySlab grow state = .ok (slab, state) ∧ slab ∈ state.created ∧
        chains slab ≠ []) ∨
      (getNonEmptySlab grow state = grow state ∧ state.cache.partialSlabList.isEmpty = true ∧
        state.cache.freeSlabList.isEmpty = true) := by
  have hpartly := hcache.linked.represents .partlyUsed
  have hfree := hcache.linked.represents .free
  have hpartlyEmpty := hpartly.isEmpty_iff
  have hfreeEmpty := hfree.isEmpty_iff
  simp only [list] at hpartly hfree hpartlyEmpty hfreeEmpty
  rw [getNonEmptySlab]
  cases hlist : lists .partlyUsed with
  | cons slab others =>
      have hmem : slab ∈ lists .partlyUsed := hlist ▸ List.mem_cons_self
      have hhead : state.cache.partialSlabList.head = slab := by
        rw [hpartly.head_eq, hlist]
        rfl
      rw [if_neg (by rw [hpartlyEmpty, hlist]; exact List.cons_ne_nil _ _), hhead]
      exact Or.inl ⟨slab, rfl, (hcache.created slab).mpr ⟨_, hmem⟩,
        (hcache.fits .partlyUsed slab hmem).1⟩
  | nil =>
      have hempty := hpartlyEmpty.mpr hlist
      rw [if_pos hempty]
      cases hlist' : lists .free with
      | cons slab others =>
          have hmem : slab ∈ lists .free := hlist' ▸ List.mem_cons_self
          have hslab := (hcache.created slab).mpr ⟨_, hmem⟩
          have hhead : state.cache.freeSlabList.head = slab := by
            rw [hfree.head_eq, hlist']
            rfl
          rw [if_neg (by rw [hfreeEmpty, hlist']; exact List.cons_ne_nil _ _), hhead]
          have hfirst := (hcache.slots.slab slab hslab).mem_of_unused
            (hcache.fits .free slab hmem) hcache.slots.objects_pos
          exact Or.inl ⟨slab, rfl, hslab, List.ne_nil_of_mem hfirst⟩
      | nil =>
          have hempty' := hfreeEmpty.mpr hlist'
          rw [if_pos hempty']
          exact Or.inr ⟨rfl, hempty, hempty'⟩

section Calls

variable {kept : CacheState → Prop}

/-- `GetNonEmptySlab` returns a slab that has a free slot. -/
theorem CacheInvariant.getNonEmptySlab (hcache : CacheInvariant state lists chains live)
    (hkept : kept state) {grow : CacheState → Outcome (ℕ × CacheState)}
    (hgrow : state.cache.partialSlabList.isEmpty = true →
      state.cache.freeSlabList.isEmpty = true → ∃ slab state' lists' chains',
        grow state = .ok (slab, state') ∧ kept state' ∧
          CacheInvariant state' lists' chains' live ∧ slab ∈ state'.created ∧ chains' slab ≠ []) :
    ∃ slab middle lists' chains', CacheState.getNonEmptySlab grow state = .ok (slab, middle) ∧
      kept middle ∧ CacheInvariant middle lists' chains' live ∧ slab ∈ middle.created ∧
        chains' slab ≠ [] := by
  rcases getNonEmptySlab_cases hcache grow with ⟨slab, hfound, hslab, hchain⟩ |
    ⟨hgrows, hpartly, hfree⟩
  · exact ⟨slab, state, lists, chains, hfound, hkept, hcache, hslab, hchain⟩
  · rw [hgrows]
    exact hgrow hpartly hfree

/-- `AllocateObject` returns a slot that was free. -/
theorem CacheInvariant.allocateObject (hcache : CacheInvariant state lists chains live)
    (hkept : kept state) (hsame : ∀ before after, SameSlabs before after → kept before → kept after)
    {grow : CacheState → Outcome (ℕ × CacheState)}
    (hgrow : state.cache.partialSlabList.isEmpty = true →
      state.cache.freeSlabList.isEmpty = true → ∃ slab state' lists' chains',
        grow state = .ok (slab, state') ∧ kept state' ∧
          CacheInvariant state' lists' chains' live ∧ slab ∈ state'.created ∧ chains' slab ≠ []) :
    ∃ object state' lists' chains', state.allocateObject grow = .ok (object, state') ∧
      kept state' ∧ object ∉ live ∧
        CacheInvariant state' lists' chains' (insert object live) := by
  obtain ⟨slab, middle, lists₁, chains₁, hfound, hkept₁, hcache₁, hslab, hchain⟩ :=
    hcache.getNonEmptySlab hkept hgrow
  obtain ⟨i, rest, hchain⟩ := List.exists_cons_of_ne_nil hchain
  obtain ⟨state', lists', hcall, hfresh, hsame', hcache'⟩ := hcache₁.takeObject hslab hchain
  exact ⟨_, state', lists', _, bind_eq_ok.mpr ⟨(slab, middle), hfound, hcall⟩,
    hsame _ _ hsame' hkept₁, hfresh, hcache'⟩

theorem setAllocated_sameSlabs (state : CacheState) (count : ℕ) :
    SameSlabs state (setAllocated state count) :=
  ⟨fun _ => rfl, rfl, rfl, rfl, rfl, rfl, rfl⟩

theorem countFreed_sameSlabs (state : CacheState) : SameSlabs state state.countFreed := by
  rw [countFreed]
  exact setAllocated_sameSlabs state _

theorem countFreed_eq (hlive : object ∈ live) (hcard : live.card < 2 ^ 32)
    (hcount : state.cache.objectsAllocated = live.card) :
    state.countFreed = setAllocated state (live.erase object).card := by
  have hpos : 1 ≤ live.card := Finset.card_pos.mpr ⟨object, hlive⟩
  rw [countFreed, setAllocated, hcount, sub32_of_le hcard hpos, Finset.card_erase_of_mem hlive]

/-- Every slab of the free list is released. -/
theorem CacheInvariant.releaseUnusedMemory {releaseSlab : ℕ → CacheState → Outcome CacheState}
    (hrelease : ∀ state lists, kept state → CacheInvariant state lists chains live →
      ∀ slab ∈ lists .free, ∃ state' lists',
        releaseSlab slab (state.removeFrom .free slab) = .ok state' ∧ kept state' ∧
          CacheInvariant state' lists' chains live ∧ state'.created = state.created.erase slab)
    {fuel : ℕ} (hkept : kept state) (hcache : CacheInvariant state lists chains live)
    (hfuel : state.created.card < fuel) :
    ∃ state' lists', state.releaseUnusedMemory releaseSlab fuel = .ok state' ∧ kept state' ∧
      CacheInvariant state' lists' chains live := by
  induction fuel generalizing state lists with
  | zero => exact absurd hfuel (Nat.not_lt_zero _)
  | succ fuel ih =>
      have hfree := hcache.linked.represents .free
      have hhead : state.cache.freeSlabList.head = (lists .free).headD 0 := hfree.head_eq
      rw [CacheState.releaseUnusedMemory, hhead]
      cases hlist : lists .free with
      | nil => exact ⟨state, lists, if_pos rfl, hkept, hcache⟩
      | cons slab others =>
          have hmem : slab ∈ lists .free := hlist ▸ List.mem_cons_self
          have hne : slab ≠ 0 := hfree.segment.ne_zero hmem
          have hslab := (hcache.created slab).mpr ⟨.free, hmem⟩
          obtain ⟨middle, lists₁, hcall, hkept₁, hcache₁, hcreated⟩ :=
            hrelease state lists hkept hcache slab hmem
          have hless : middle.created.card < fuel := by
            rw [hcreated, Finset.card_erase_of_mem hslab]
            have hpos := Finset.card_pos.mpr ⟨slab, hslab⟩
            omega
          obtain ⟨state', lists', hrest, hdone⟩ := ih hkept₁ hcache₁ hless
          refine ⟨state', lists', ?_, hdone⟩
          simp only [List.headD_cons, hne, if_false, hcall, ok_bind, hrest]

end Calls

end GeexOS.SlabAllocator
