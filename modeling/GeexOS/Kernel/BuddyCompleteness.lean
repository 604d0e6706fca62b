import GeexOS.Kernel.BuddyRuns

/-!
# Completeness of a buddy region

Free blocks are merged as far as they can be: no two buddies are free at the
same order.  A request is therefore refused only if every place for it is taken,
and a region without live blocks is one free block again.
-/

namespace GeexOS.Buddy

open GeexOS.Words
open GeexOS.Halting
open GeexOS.DataStructures
open GeexOS.Linked
open GeexOS.Dyadic
open BuddyAllocatedMemoryRegion

variable {state : BuddyState} {cells : ℕ → List ℕ}

/-- Nothing is fragmented that could be one block. -/
structure Complete (state : BuddyState) (cells : ℕ → List ℕ) : Prop where
  lists : ∀ order ≤ state.region.maxOrder,
    Chain state.region.nextElement 0 (state.region.freeElements order) (cells order)
  free_above : ∀ order ≤ state.region.maxOrder, ∀ address ∈ cells order,
    state.region.startAddress ≤ address
  no_buddies : ∀ i < state.region.maxOrder, ∀ address ∈ cells i,
    state.region.startAddress + ((address - state.region.startAddress) ^^^ 2 ^ i) ∉ cells i
  null_iff : ∀ order, order + state.region.minOrder ≤ state.region.maxOrder →
    ((∃ region', state.region.allocateBuddy order = .ok (0, region')) ↔
      ∀ offset, 2 ^ (order + state.region.minOrder) ∣ offset →
        offset + 2 ^ (order + state.region.minOrder) ≤ state.region.size →
        ∃ allocation ∈ state.live, ¬ Block.Apart ⟨offset, order + state.region.minOrder⟩
          (allocation.block state.region))
  all_free : state.live = [] →
    state.region.freeElements state.region.maxOrder = state.region.startAddress ∧
      cells state.region.maxOrder = [state.region.startAddress] ∧
      ∀ i < state.region.maxOrder, cells i = []

/-- The block of an address on a free list. -/
theorem mem_freeBlocks_of_cells {region : BuddyAllocatedMemoryRegion} {i address : ℕ}
    (hi : i ≤ region.maxOrder) (hmem : address ∈ cells i) :
    region.blockAt address i ∈ region.freeBlocks cells :=
  mem_freeBlocks.mpr ⟨i, hi, address, hmem, rfl⟩

theorem Unfragmented.no_buddies {region : BuddyAllocatedMemoryRegion}
    (hunfragmented : Unfragmented region cells) {i address : ℕ} (hi : i < region.maxOrder)
    (hmem : address ∈ cells i) :
    region.startAddress + ((address - region.startAddress) ^^^ 2 ^ i) ∉ cells i := by
  intro hbuddy
  have hblock := mem_freeBlocks_of_cells hi.le hbuddy
  have heq : region.blockAt (region.startAddress +
      ((address - region.startAddress) ^^^ 2 ^ i)) i =
      ⟨buddy (region.blockAt address i).start i, i⟩ := by
    simp only [blockAt, Nat.add_sub_cancel_left, buddy]
  rw [heq] at hblock
  exact hunfragmented _ (mem_freeBlocks_of_cells hi.le hmem) hi hblock

/-- A refused request has no place: a place without live blocks would be part of
a free block that is large enough. -/
theorem Invariant.taken_of_refused (hinvariant : Invariant state cells)
    (hunfragmented : Unfragmented state.region cells) {order offset : ℕ}
    (hempty : ∀ i, order + pageShift ≤ i → i ≤ state.region.maxOrder → cells i = [])
    (haligned : 2 ^ (order + pageShift) ∣ offset)
    (hinside : offset + 2 ^ (order + pageShift) ≤ 2 ^ state.region.maxOrder) :
    ∃ allocation ∈ state.live,
      ¬ Block.Apart ⟨offset, order + pageShift⟩ (allocation.block state.region) := by
  by_contra hclear
  have htiling := hinvariant.partition.tiling
  rw [List.nil_append] at htiling
  have hapart : ∀ other ∈ state.live.map (Allocation.block state.region),
      Block.Apart ⟨offset, order + pageShift⟩ other := by
    intro other hother
    obtain ⟨allocation, hlive, rfl⟩ := List.mem_map.mp hother
    by_contra hmeets
    exact hclear ⟨allocation, hlive, hmeets⟩
  obtain ⟨block, hmem, hlarge⟩ := htiling.exists_order_ge ⟨offset, order + pageShift⟩
    hunfragmented haligned hinside hapart
  obtain ⟨i, hi, address, haddress, rfl⟩ := mem_freeBlocks.mp hmem
  rw [hempty i hlarge hi] at haddress
  exact absurd haddress List.not_mem_nil

/-- A block that is handed out had its place free. -/
theorem place_of_granted {region' : BuddyAllocatedMemoryRegion} {cells' : ℕ → List ℕ}
    {order ret : ℕ}
    (hsame : SamePlace state.region region')
    (hresult : Partition region' cells' (state.region.blockAt ret (order + pageShift) ::
      state.live.map (Allocation.block state.region)) []) :
    2 ^ (order + pageShift) ∣ ret - state.region.startAddress ∧
      ret - state.region.startAddress + 2 ^ (order + pageShift) ≤
        2 ^ state.region.maxOrder ∧
      ∀ allocation ∈ state.live, Block.Apart
        ⟨ret - state.region.startAddress, order + pageShift⟩
        (allocation.block state.region) := by
  have htiling := hresult.tiling
  rw [List.nil_append] at htiling
  have hmem : state.region.blockAt ret (order + pageShift) ∈ region'.freeBlocks cells' ++
      state.region.blockAt ret (order + pageShift) ::
        state.live.map (Allocation.block state.region) :=
    List.mem_append_right _ List.mem_cons_self
  refine ⟨htiling.aligned _ hmem, ?_, fun allocation hlive => ?_⟩
  · rw [← hsame.maxOrder_eq]
    exact htiling.inside _ hmem
  · have hlater := (List.pairwise_append.mp htiling.disjoint).2.1
    exact (List.pairwise_cons.mp hlater).1 _ (List.mem_map_of_mem hlive)

theorem Invariant.null_iff (hinvariant : Invariant state cells)
    (hunfragmented : Unfragmented state.region cells) {order : ℕ}
    (horder : order + pageShift ≤ state.region.maxOrder) :
    (∃ region', state.region.allocateBuddy order = .ok (0, region')) ↔
      ∀ offset, 2 ^ (order + pageShift) ∣ offset →
        offset + 2 ^ (order + pageShift) ≤ 2 ^ state.region.maxOrder →
        ∃ allocation ∈ state.live,
          ¬ Block.Apart ⟨offset, order + pageShift⟩ (allocation.block state.region) := by
  rcases hinvariant.partition.allocateBuddy horder with ⟨hnone, hempty⟩ |
    ⟨ret, region', cells', hsome, hstart, hsame, hresult, _⟩
  · exact iff_of_true ⟨_, hnone⟩ fun offset haligned hinside =>
      hinvariant.taken_of_refused hunfragmented hempty haligned hinside
  · refine iff_of_false ?_ fun htaken => ?_
    · rintro ⟨region'', hnull⟩
      rw [hsome, Except.ok.injEq, Prod.mk.injEq] at hnull
      have hpos := hinvariant.partition.placed.start_pos
      omega
    · obtain ⟨haligned, hinside, hclear⟩ := place_of_granted hsame hresult
      obtain ⟨allocation, hlive, hmeets⟩ := htaken _ haligned hinside
      exact hmeets (hclear allocation hlive)

/-- Without live blocks the region is one free block. -/
theorem Invariant.all_free (hinvariant : Invariant state cells)
    (hunfragmented : Unfragmented state.region cells) (hlive : state.live = []) :
    cells state.region.maxOrder = [state.region.startAddress] ∧
      ∀ i < state.region.maxOrder, cells i = [] := by
  have hpartition := hinvariant.partition
  have htiling := hpartition.tiling
  rw [List.nil_append, hlive, List.map_nil] at htiling
  obtain ⟨block, hmem, hlarge⟩ := htiling.exists_order_ge ⟨0, state.region.maxOrder⟩
    hunfragmented (dvd_zero _) (by simp) (by simp)
  rw [List.append_nil] at htiling
  have horder : block.order = state.region.maxOrder :=
    le_antisymm (htiling.order_le hmem) hlarge
  have hinside := htiling.inside block hmem
  have hzero : block.start = 0 := by
    rw [horder] at hinside
    omega
  -- it covers everything, so every free block is this one
  have hall : ∀ i ≤ state.region.maxOrder, ∀ address ∈ cells i,
      i = state.region.maxOrder ∧ address = state.region.startAddress := by
    intro i hi address haddress
    have hother := mem_freeBlocks_of_cells hi haddress
    have hrange : (state.region.blockAt address i).start ∈ block.range := by
      rw [Block.mem_range, hzero, horder, Nat.zero_add]
      exact ⟨Nat.zero_le _, htiling.start_lt hother⟩
    have heq := htiling.eq_of_mem_range hmem hother hrange (Block.start_mem_range _)
    have hstarts := congrArg Block.start heq
    have horders := congrArg Block.order heq
    have habove := hpartition.start_le i hi address haddress
    simp only [blockAt] at hstarts horders
    omega
  obtain ⟨i, hi, address, haddress, _⟩ := mem_freeBlocks.mp hmem
  obtain ⟨rfl, rfl⟩ := hall i hi address haddress
  refine ⟨?_, fun i hi' => List.eq_nil_iff_forall_not_mem.mpr fun address hother => ?_⟩
  · have hsingle := List.eq_replicate_of_mem fun other hother =>
      (hall _ le_rfl other hother).2
    have hnodup := (hpartition.chain _ le_rfl).nodup
    have hlength : (cells state.region.maxOrder).length = 1 := by
      refine le_antisymm ?_ (List.length_pos_of_mem haddress)
      rw [hsingle] at hnodup
      exact List.nodup_replicate.mp hnodup
    rw [hsingle, hlength, List.replicate_one]
  · exact hi'.ne (hall i hi'.le address hother).1

theorem Invariant.complete (hinvariant : Invariant state cells)
    (hunfragmented : Unfragmented state.region cells) : Complete state cells where
  lists := hinvariant.partition.chain
  free_above := hinvariant.partition.start_le
  no_buddies := fun _ hi _ hmem => hunfragmented.no_buddies hi hmem
  null_iff := by
    rw [hinvariant.partition.placed.minOrder_eq, hinvariant.partition.placed.size_eq]
    exact fun order horder => hinvariant.null_iff hunfragmented horder
  all_free := fun hlive => by
    obtain ⟨hwhole, hnone⟩ := hinvariant.all_free hunfragmented hlive
    have hchain := hinvariant.partition.chain _ le_rfl
    rw [hwhole] at hchain
    exact ⟨(chain_cons.mp hchain).1, hwhole, hnone⟩

/-- In every run in which no requested order wraps, the free blocks are merged
as far as they can be. -/
theorem complete_of_run {elements : ℕ → BuddyElement} {start size : ℕ}
    {initial : BuddyAllocatedMemoryRegion} {state : BuddyState}
    (hpos : 0 < start) (hstart : start < 2 ^ 32)
    (hsize : ∃ exponent < 32, size = 2 ^ exponent) (hpage : pageSize ≤ size)
    (hnew : new elements start size pageShift = .ok initial)
    (hrun : BuddyRun NoWrap ⟨initial, []⟩ state) :
    ∃ cells, Complete state cells := by
  obtain ⟨exponent, hhigh, rfl⟩ := hsize
  have hlow : pageShift ≤ exponent := by
    have hpow : 2 ^ pageShift ≤ 2 ^ exponent := hpage
    exact (Nat.pow_le_pow_iff_right (by norm_num)).mp hpow
  obtain ⟨cells, hpartition, hunfragmented⟩ := new_eq_ok hpos hstart hlow hhigh hnew
  obtain ⟨cells', hinvariant, hkept⟩ := hrun.invariant ⟨hpartition, by simp⟩
  exact ⟨cells', hinvariant.complete (hkept hunfragmented)⟩

/-- The region of two pages, with the first page given back. -/
theorem complete_of_run_twoPages :
    ∃ region', ∃ cells, Complete ⟨region', []⟩ cells :=
  ⟨_, complete_of_run (by decide) (by decide) ⟨13, by decide, rfl⟩ (by decide)
    (show new (fun _ => ⟨0, 0⟩) 0x100000 0x2000 pageShift = .ok twoPages from rfl)
    (.tail (.single (.allocate (by decide : 0 + pageShift < 2 ^ 32)
      (show twoPages.allocateBuddy 0 = .ok (0x100000, _) from rfl) (by decide)))
      (show BuddyStep NoWrap ⟨_, [] ++ ⟨0x100000, 0⟩ :: []⟩ ⟨_, [] ++ []⟩ from .free rfl))⟩

/-- The page of `onePage` after its first quarter was allocated. -/
def quarterTaken : BuddyAllocatedMemoryRegion :=
  { onePage with
    freeElements := Function.update
      (Function.update (Function.update onePage.freeElements 12 0) 11 0x100800) 10 0x100400
    elementsAllocated := ⟨1, Function.update
      (Function.update (Function.update (Bitfield.new 1).field 0 1#32) 0 0#32) 0 0#32⟩
    elements := Function.update
      (Function.update onePage.elements 0x100800 ⟨11, 0⟩) 0x100400 ⟨10, 0⟩ }

/-- Its second half was allocated as well. -/
def halfTaken : BuddyAllocatedMemoryRegion :=
  { quarterTaken with
    freeElements := Function.update quarterTaken.freeElements 11 0
    elementsAllocated := ⟨1, Function.update quarterTaken.elementsAllocated.field 0 1#32⟩ }

/-- Orders that wrap to 10 and 11 put blocks of less than a page on the free
lists.  All of them share the bit of the page, so the second quarter counts as
allocated when the first one is given back, and the two stay apart. -/
theorem wrapping_order_not_complete :
    ¬ ∀ (elements : ℕ → BuddyElement) (start size : ℕ)
      (initial : BuddyAllocatedMemoryRegion) (state : BuddyState),
      0 < start → start < 2 ^ 32 → (∃ exponent < 32, size = 2 ^ exponent) →
      pageSize ≤ size → new elements start size pageShift = .ok initial →
      BuddyRun (fun order => order < 2 ^ 32) ⟨initial, []⟩ state →
      ∃ cells, Complete state cells := by
  intro hall
  have hquarter : BuddyStep (fun order => order < 2 ^ 32) ⟨onePage, []⟩
      ⟨quarterTaken, [⟨0x100000, 0xFFFFFFFE⟩]⟩ :=
    .allocate (by decide) (show onePage.allocateBuddy 0xFFFFFFFE = _ from rfl) (by decide)
  have hhalf : BuddyStep (fun order => order < 2 ^ 32)
      ⟨quarterTaken, [⟨0x100000, 0xFFFFFFFE⟩]⟩
      ⟨halfTaken, [⟨0x100800, 0xFFFFFFFF⟩] ++ ⟨0x100000, 0xFFFFFFFE⟩ :: []⟩ :=
    .allocate (by decide) (show quarterTaken.allocateBuddy 0xFFFFFFFF = _ from rfl)
      (by decide)
  obtain ⟨cells, hcomplete⟩ := hall (fun _ => ⟨0, 0⟩) 0x100000 0x1000 onePage
    ⟨_, [⟨0x100800, 0xFFFFFFFF⟩] ++ []⟩ (by decide) (by decide) ⟨12, by decide, rfl⟩
    (by decide) rfl (((Relation.ReflTransGen.single hquarter).tail hhalf).tail
      (.free (show halfTaken.freeBuddy 0x100000 0xFFFFFFFE = .ok _ from rfl)))
  have hlist := (hcomplete.lists 10 (by decide)).unique
    (chain_cons.mpr ⟨rfl, by decide, chain_cons.mpr ⟨rfl, by decide, chain_nil.mpr rfl⟩⟩)
  have hnone := hcomplete.no_buddies 10 (by decide) 0x100000
  rw [hlist] at hnone
  exact hnone (by decide) (by decide)

end GeexOS.Buddy
