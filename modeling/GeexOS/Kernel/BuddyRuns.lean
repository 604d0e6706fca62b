import GeexOS.Kernel.BuddyOperations
import Mathlib.Logic.Relation

/-!
# Runs of a buddy region

The clients of a region allocate blocks, give live blocks back with the order
they asked for, and write anywhere outside the free blocks.
-/

namespace GeexOS.Buddy

open GeexOS.Words
open GeexOS.Halting
open GeexOS.DataStructures
open GeexOS.Linked
open GeexOS.Dyadic
open BuddyAllocatedMemoryRegion

/-! ## Construction -/

theorem maxOrderLoop_pow {exponent fuel : ℕ} (hfuel : exponent ≤ fuel) (maxOrder : ℕ) :
    maxOrderLoop fuel (2 ^ exponent) maxOrder = maxOrder + exponent := by
  induction exponent generalizing fuel maxOrder with
  | zero =>
      cases fuel with
      | zero => rfl
      | succ fuel => simp [maxOrderLoop]
  | succ exponent ih =>
      obtain ⟨fuel, rfl⟩ : ∃ less, fuel = less + 1 := ⟨fuel - 1, by omega⟩
      have hpos := Nat.two_pow_pos exponent
      have hhalf : 2 ^ (exponent + 1) / 2 = 2 ^ exponent := by
        rw [pow_succ]
        omega
      have hlarge : 2 ^ (exponent + 1) > 1 := by
        rw [pow_succ]
        omega
      rw [maxOrderLoop, if_pos hlarge, hhalf, ih (Nat.le_of_succ_le_succ hfuel)]
      omega

/-- The bitmap has a bit for every page. -/
theorem le_numBlocks {maxOrder : ℕ} (hlow : pageShift ≤ maxOrder)
    (hhigh : maxOrder < 32) :
    2 ^ (maxOrder - pageShift) ≤ numBlocks maxOrder pageShift := by
  have hlow' : 12 ≤ maxOrder := hlow
  interval_cases maxOrder <;> decide

/-- A region that got its first page does not reach the end of the address
space. -/
theorem end_lt_of_mapFreshPages {start size : ℕ} {pages : List ℕ}
    (hstart : start < 2 ^ 32) (hsize : size < 2 ^ 32)
    (hmap : mapFreshPages start size start pageSize = .ok pages)
    (hmem : start ∈ pages) : start + size < 2 ^ 32 := by
  unfold mapFreshPages at hmap
  split at hmap
  · simp at hmap
  split at hmap
  · simp at hmap
  rename_i hbounds
  obtain rfl := Except.ok.inj hmap
  obtain ⟨page, hpage, _⟩ := List.mem_map.mp hmem
  rw [List.mem_range] at hpage
  have hpos : 0 < (u32 (start + pageSize) - start) / pageSize :=
    (Nat.zero_le page).trans_lt hpage
  simp only [u32, pageSize] at hbounds hpos
  omega

/-- With one block on one list the free blocks are that block. -/
theorem freeBlocks_single {region : BuddyAllocatedMemoryRegion} {order : ℕ}
    (horder : order ≤ region.maxOrder) (address : ℕ) :
    (region.freeBlocks (Function.update (fun _ => []) order [address])).Perm
      [region.blockAt address order] := by
  have hnone : region.freeBlocks (fun _ => []) = [] := by simp [freeBlocks]
  have hperm : (region.freeBlocks (Function.update (fun _ => []) order [address])).Perm
      (region.blockAt address order :: region.freeBlocks (fun _ => [])) :=
    freeBlocks_perm_cons horder (by rw [Function.update_self])
      (fun other hne => Function.update_of_ne hne _ _)
  rwa [hnone] at hperm

/-- A new region is one free block. -/
theorem new_eq_ok {elements : ℕ → BuddyElement} {start exponent : ℕ}
    {region : BuddyAllocatedMemoryRegion} (hpos : 0 < start) (hstart : start < 2 ^ 32)
    (hlow : pageShift ≤ exponent) (hhigh : exponent < 32)
    (hnew : new elements start (2 ^ exponent) pageShift = .ok region) :
    ∃ cells, Partition region cells [] [] ∧ Unfragmented region cells := by
  have hsize : 2 ^ exponent < 2 ^ 32 := Nat.pow_lt_pow_right (by norm_num) hhigh
  unfold new at hnew
  split at hnew
  · simp at hnew
  split at hnew
  · simp at hnew
  split at hnew
  · simp at hnew
  rename_i haligned _ _
  obtain ⟨pages, hmap, hnew⟩ := bind_eq_ok.mp hnew
  split at hnew
  · simp at hnew
  rename_i hmem
  have hend := end_lt_of_mapFreshPages hstart hsize hmap (not_not.mp hmem)
  rw [maxOrderLoop_pow hhigh.le, Nat.zero_add] at hnew
  have hperm := freeBlocks_single (le_refl region.maxOrder) start
  obtain rfl := Except.ok.inj hnew
  simp only [blockAt, Nat.sub_self] at hperm
  have hcell : ∀ order, ∀ address ∈ Function.update (fun _ => []) exponent [start] order,
      order = exponent ∧ address = start := by
    intro order address hmem
    by_cases heq : order = exponent
    · rw [heq, Function.update_self, List.mem_singleton] at hmem
      exact ⟨heq, hmem⟩
    · rw [Function.update_of_ne heq] at hmem
      simp at hmem
  refine ⟨Function.update (fun _ => []) exponent [start], ⟨?_, ?_, ?_, ?_, ?_, ?_, ?_, ?_⟩, ?_⟩
  · exact ⟨hpos, Nat.dvd_of_mod_eq_zero (not_not.mp haligned), rfl, rfl, hlow, hhigh, hend,
      le_numBlocks hlow hhigh⟩
  · intro order _
    by_cases heq : order = exponent
    · subst heq
      simp only [Function.update_self]
      refine chain_cons.mpr ⟨rfl, hpos.ne', chain_nil.mpr ?_⟩
      simp [nextElement]
    · simp only [Function.update_of_ne heq]
      exact chain_nil.mpr rfl
  · intro order _ address hmem
    obtain ⟨rfl, rfl⟩ := hcell order address hmem
    simp
  · intro order _ address hmem
    exact (hcell order address hmem).2.ge
  · rw [List.nil_append, List.append_nil]
    exact (Tiling.single exponent).perm hperm.symm
  · intro block hmem
    rw [List.nil_append, List.append_nil, hperm.mem_iff, List.mem_singleton] at hmem
    rw [hmem]
    exact hlow
  · intro block _
    exact Bitfield.bit_new _ _
  · simp
  · intro block hmem horder
    rw [hperm.mem_iff, List.mem_singleton] at hmem
    rw [hmem] at horder
    exact absurd horder (lt_irrefl _)

/-! ## Steps -/

/-- A pair of an address and the order it was allocated with. -/
structure Allocation where
  address : ℕ
  order : ℕ
  deriving DecidableEq, Repr

/-- The block an allocation stands for. -/
def Allocation.block (region : BuddyAllocatedMemoryRegion) (allocation : Allocation) :
    Block :=
  region.blockAt allocation.address (allocation.order + region.minOrder)

/-- A region with the allocations that have not been given back. -/
structure BuddyState where
  region : BuddyAllocatedMemoryRegion
  live : List Allocation

/-- The address belongs to a block on the free list of that order. -/
def OnFreeList (region : BuddyAllocatedMemoryRegion) (order address : ℕ) : Prop :=
  ∃ cells, Chain region.nextElement 0 (region.freeElements order) cells ∧
    address ∈ cells

/-- One call, or one write by the owners of blocks.  `admissible` restricts the
orders that are asked for. -/
inductive BuddyStep (admissible : ℕ → Prop) : BuddyState → BuddyState → Prop
  | allocate {region region' : BuddyAllocatedMemoryRegion} {live : List Allocation}
      {order ret : ℕ} (hadmissible : admissible order)
      (hcall : region.allocateBuddy order = .ok (ret, region')) (hret : ret ≠ 0) :
      BuddyStep admissible ⟨region, live⟩ ⟨region', ⟨ret, order⟩ :: live⟩
  | exhausted {region region' : BuddyAllocatedMemoryRegion} {live : List Allocation}
      {order : ℕ} (hadmissible : admissible order)
      (hcall : region.allocateBuddy order = .ok (0, region')) :
      BuddyStep admissible ⟨region, live⟩ ⟨region', live⟩
  | free {region region' : BuddyAllocatedMemoryRegion} {front back : List Allocation}
      {allocation : Allocation}
      (hcall : region.freeBuddy allocation.address allocation.order = .ok region') :
      BuddyStep admissible ⟨region, front ++ allocation :: back⟩ ⟨region', front ++ back⟩
  | write {region : BuddyAllocatedMemoryRegion} {live : List Allocation}
      {elements' : ℕ → BuddyElement}
      (houtside : ∀ order ≤ region.maxOrder, ∀ address, OnFreeList region order address →
        ∀ position, address ≤ position → position < address + 2 ^ order →
          elements' position = region.elements position) :
      BuddyStep admissible ⟨region, live⟩ ⟨{ region with elements := elements' }, live⟩

/-- The free and the allocated blocks cut the region into disjoint aligned
pieces, and the bit of a block's first page says which kind it is. -/
structure Partitioned (state : BuddyState) (cells : ℕ → List ℕ) : Prop where
  size_eq : state.region.size = 2 ^ state.region.maxOrder
  lists : ∀ order ≤ state.region.maxOrder,
    Chain state.region.nextElement 0 (state.region.freeElements order) (cells order)
  free_above : ∀ order ≤ state.region.maxOrder, ∀ address ∈ cells order,
    state.region.startAddress ≤ address
  live_above : ∀ allocation ∈ state.live,
    state.region.startAddress ≤ allocation.address
  tiling : Tiling state.region.maxOrder
    (state.region.freeBlocks cells ++ state.live.map (Allocation.block state.region))
  free_bit : ∀ block ∈ state.region.freeBlocks cells,
    state.region.blockBit block = false
  live_bit : ∀ allocation ∈ state.live,
    state.region.blockBit (allocation.block state.region) = true

/-- The invariant that runs keep. -/
structure Invariant (state : BuddyState) (cells : ℕ → List ℕ) : Prop where
  partition : Partition state.region cells
    (state.live.map (Allocation.block state.region)) []
  live_above : ∀ allocation ∈ state.live,
    state.region.startAddress ≤ allocation.address

theorem Invariant.partitioned {state : BuddyState} {cells : ℕ → List ℕ}
    (hinvariant : Invariant state cells) : Partitioned state cells where
  size_eq := hinvariant.partition.placed.size_eq
  lists := hinvariant.partition.chain
  free_above := hinvariant.partition.start_le
  live_above := hinvariant.live_above
  tiling := hinvariant.partition.tiling
  free_bit := hinvariant.partition.free_bit
  live_bit := fun _ hmem =>
    hinvariant.partition.live_bit _ (List.mem_map_of_mem hmem)

theorem SamePlace.block_eq {region region' : BuddyAllocatedMemoryRegion}
    (hsame : SamePlace region region') :
    Allocation.block region' = Allocation.block region := by
  funext allocation
  simp only [Allocation.block, hsame.blockAt_eq, hsame.minOrder_eq]

theorem block_of_placed {region : BuddyAllocatedMemoryRegion} (hplaced : Placed region)
    (allocation : Allocation) :
    allocation.block region =
      region.blockAt allocation.address (allocation.order + pageShift) := by
  rw [Allocation.block, hplaced.minOrder_eq]

/-- An order whose sum with the minimum order fits into 32 bits. -/
def NoWrap (order : ℕ) : Prop := order + pageShift < 2 ^ 32

theorem le_of_allocateBuddy_eq_ok {region region' : BuddyAllocatedMemoryRegion}
    {order ret : ℕ} (hplaced : Placed region) (hwrap : NoWrap order)
    (hcall : region.allocateBuddy order = .ok (ret, region')) :
    order + pageShift ≤ region.maxOrder := by
  have hsum : u32 (order + region.minOrder) = order + pageShift := by
    rw [hplaced.minOrder_eq]
    exact u32_of_lt hwrap
  by_contra hgt
  simp [allocateBuddy, hsum, not_le.mp hgt] at hcall

/-- Every step keeps the invariant and the place of the region. -/
theorem BuddyStep.invariant {state state' : BuddyState} {cells : ℕ → List ℕ}
    (hstep : BuddyStep NoWrap state state') (hinvariant : Invariant state cells) :
    ∃ cells', Invariant state' cells' ∧ SamePlace state.region state'.region ∧
      (Unfragmented state.region cells → Unfragmented state'.region cells') := by
  obtain ⟨hpartition, habove⟩ := hinvariant
  cases hstep with
  | @allocate region region' live order ret hwrap hcall hret =>
      have horder := le_of_allocateBuddy_eq_ok hpartition.placed hwrap hcall
      rcases hpartition.allocateBuddy horder with ⟨hnone, _⟩ |
        ⟨ret', region'', cells', hsome, hstart, hsame, hresult, hkept⟩
      · rw [hcall, Except.ok.injEq, Prod.mk.injEq] at hnone
        exact absurd hnone.1 hret
      · rw [hcall, Except.ok.injEq, Prod.mk.injEq] at hsome
        obtain ⟨rfl, rfl⟩ := hsome
        refine ⟨cells', ⟨?_, fun allocation hmem => ?_⟩, hsame, hkept⟩
        · simp only [List.map_cons, hsame.block_eq]
          rw [block_of_placed hpartition.placed]
          exact hresult
        · simp only [hsame.startAddress_eq]
          rcases List.mem_cons.mp hmem with rfl | hmem
          · exact hstart
          · exact habove allocation hmem
  | @exhausted region region' live order hwrap hcall =>
      have horder := le_of_allocateBuddy_eq_ok hpartition.placed hwrap hcall
      rcases hpartition.allocateBuddy horder with ⟨hnone, _⟩ |
        ⟨ret', region'', cells', hsome, hstart, hsame, hresult, hkept⟩
      · rw [hcall, Except.ok.injEq, Prod.mk.injEq] at hnone
        obtain ⟨_, rfl⟩ := hnone
        exact ⟨cells, ⟨hpartition, habove⟩, .refl _, id⟩
      · rw [hcall, Except.ok.injEq, Prod.mk.injEq] at hsome
        rw [← hsome.1] at hstart
        exact absurd hpartition.placed.start_pos (not_lt.mpr hstart)
  | @free region region' front back allocation hcall =>
      have hmem : allocation ∈ front ++ allocation :: back := by simp
      have hlive : ((front ++ allocation :: back).map (Allocation.block region)).Perm
          (region.blockAt allocation.address (allocation.order + pageShift) ::
            (front ++ back).map (Allocation.block region)) := by
        have hperm : (front ++ allocation :: back).Perm (allocation :: (front ++ back)) :=
          List.perm_middle
        have hmap := hperm.map (Allocation.block region)
        rwa [List.map_cons, block_of_placed hpartition.placed] at hmap
      obtain ⟨region'', cells', hfree, hsame, hresult, hkept⟩ :=
        hpartition.freeBuddy (habove allocation hmem) hlive
      rw [hcall, Except.ok.injEq] at hfree
      subst hfree
      refine ⟨cells', ⟨?_, fun other hother => ?_⟩, hsame, hkept⟩
      · simp only [hsame.block_eq]
        exact hresult
      · simp only [hsame.startAddress_eq]
        apply habove other
        rcases List.mem_append.mp hother with hfront | hback
        · exact List.mem_append_left _ hfront
        · exact List.mem_append_right _ (List.mem_cons_of_mem _ hback)
  | @write region live elements' houtside =>
      refine ⟨cells, ⟨hpartition.elements_congr fun order horder address hmem => ?_, habove⟩,
        ⟨rfl, rfl, rfl, rfl, rfl⟩,
        fun hunfragmented => hunfragmented.congr ⟨rfl, rfl, rfl, rfl, rfl⟩⟩
      exact houtside order horder address ⟨_, hpartition.chain order horder, hmem⟩ address
        le_rfl (Nat.lt_add_of_pos_right (Nat.two_pow_pos order))

/-- What runs of a region reach. -/
abbrev BuddyRun (admissible : ℕ → Prop) : BuddyState → BuddyState → Prop :=
  Relation.ReflTransGen (BuddyStep admissible)

theorem BuddyRun.invariant {initial state : BuddyState} {cells : ℕ → List ℕ}
    (hrun : BuddyRun NoWrap initial state) (hinitial : Invariant initial cells) :
    ∃ cells', Invariant state cells' ∧
      (Unfragmented initial.region cells → Unfragmented state.region cells') := by
  induction hrun with
  | refl => exact ⟨cells, hinitial, id⟩
  | tail _ hstep ih =>
      obtain ⟨cells', hinvariant, hkept⟩ := ih
      obtain ⟨cells'', hinvariant', _, hkept'⟩ := hstep.invariant hinvariant
      exact ⟨cells'', hinvariant', fun hunfragmented => hkept' (hkept hunfragmented)⟩

/-- The invariant also lets every legitimate call come back. -/
theorem Invariant.calls_return {state : BuddyState} {cells : ℕ → List ℕ}
    (hinvariant : Invariant state cells) :
    (∀ order, order + pageShift ≤ state.region.maxOrder →
        ∃ result, state.region.allocateBuddy order = .ok result) ∧
      ∀ allocation ∈ state.live,
        ∃ result, state.region.freeBuddy allocation.address allocation.order =
          .ok result := by
  refine ⟨fun order horder => ?_, fun allocation hmem => ?_⟩
  · rcases hinvariant.partition.allocateBuddy horder with ⟨hnone, _⟩ | ⟨_, _, _, hsome, _⟩
    · exact ⟨_, hnone⟩
    · exact ⟨_, hsome⟩
  · obtain ⟨front, back, hsplit⟩ := List.append_of_mem hmem
    have hperm : (front ++ allocation :: back).Perm (allocation :: (front ++ back)) :=
      List.perm_middle
    have hlive := hperm.map (Allocation.block state.region)
    rw [← hsplit, List.map_cons, block_of_placed hinvariant.partition.placed] at hlive
    obtain ⟨region', _, hfree, _⟩ :=
      hinvariant.partition.freeBuddy (hinvariant.live_above allocation hmem) hlive
    exact ⟨region', hfree⟩

/-- In every run in which no requested order wraps, free and allocated blocks
partition the region after every call. -/
theorem partitioned_of_run {elements : ℕ → BuddyElement} {start size : ℕ}
    {initial : BuddyAllocatedMemoryRegion} {state : BuddyState}
    (hpos : 0 < start) (hstart : start < 2 ^ 32)
    (hsize : ∃ exponent < 32, size = 2 ^ exponent) (hpage : pageSize ≤ size)
    (hnew : new elements start size pageShift = .ok initial)
    (hrun : BuddyRun NoWrap ⟨initial, []⟩ state) :
    ∃ cells, Partitioned state cells := by
  obtain ⟨exponent, hhigh, rfl⟩ := hsize
  have hlow : pageShift ≤ exponent := by
    have hpow : 2 ^ pageShift ≤ 2 ^ exponent := hpage
    exact (Nat.pow_le_pow_iff_right (by norm_num)).mp hpow
  obtain ⟨cells, hpartition, _⟩ := new_eq_ok hpos hstart hlow hhigh hnew
  obtain ⟨cells', hinvariant, _⟩ := hrun.invariant ⟨hpartition, by simp⟩
  exact ⟨cells', hinvariant.partitioned⟩

/-- A region of two pages, one of them allocated. -/
def twoPages : BuddyAllocatedMemoryRegion where
  startAddress := 0x100000
  size := 0x2000
  maxOrder := 13
  minOrder := 12
  freeElements := Function.update (fun _ => 0) 13 0x100000
  elementsAllocated := Bitfield.new 2
  elements := Function.update (fun _ => ⟨0, 0⟩) 0x100000 ⟨13, 0⟩

theorem partitioned_of_run_twoPages :
    ∃ region', ∃ cells, Partitioned ⟨region', [⟨0x100000, 0⟩]⟩ cells :=
  ⟨_, partitioned_of_run (by decide) (by decide) ⟨13, by decide, rfl⟩ (by decide)
    (show new (fun _ => ⟨0, 0⟩) 0x100000 0x2000 pageShift = .ok twoPages from rfl)
    (.single (.allocate (by decide : 0 + pageShift < 2 ^ 32)
      (show twoPages.allocateBuddy 0 = .ok (0x100000, _) from rfl) (by decide)))⟩

/-- A region of one page. -/
def onePage : BuddyAllocatedMemoryRegion where
  startAddress := 0x100000
  size := 0x1000
  maxOrder := 12
  minOrder := 12
  freeElements := Function.update (fun _ => 0) 12 0x100000
  elementsAllocated := Bitfield.new 1
  elements := Function.update (fun _ => ⟨0, 0⟩) 0x100000 ⟨12, 0⟩

/-- Order `0xFFFFFFFF` wraps to 11 and passes the assertion: the page is split
in halves, and freeing the upper half clears the bit of the lower one. -/
theorem wrapping_order_not_partitioned :
    ¬ ∀ (elements : ℕ → BuddyElement) (start size : ℕ)
      (initial : BuddyAllocatedMemoryRegion) (state : BuddyState),
      0 < start → start < 2 ^ 32 → (∃ exponent < 32, size = 2 ^ exponent) →
      pageSize ≤ size → new elements start size pageShift = .ok initial →
      BuddyRun (fun order => order < 2 ^ 32) ⟨initial, []⟩ state →
      ∃ cells, Partitioned state cells := by
  intro hall
  obtain ⟨cells, hpartitioned⟩ := hall (fun _ => ⟨0, 0⟩) 0x100000 0x1000 onePage
    ⟨_, [⟨0x100000, 0xFFFFFFFF⟩]⟩ (by decide) (by decide) ⟨12, by decide, rfl⟩
    (by decide) rfl
    (.single (.allocate (by decide)
      (show onePage.allocateBuddy 0xFFFFFFFF = .ok (0x100000, _) from rfl) (by decide)))
  have hbit := hpartitioned.live_bit ⟨0x100000, 0xFFFFFFFF⟩ List.mem_cons_self
  exact absurd hbit (by decide)

end GeexOS.Buddy
