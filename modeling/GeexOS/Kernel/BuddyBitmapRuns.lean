import GeexOS.Kernel.BuddyBitmap

/-!
# Runs of a region with larger blocks

Apart from the orders in calls, a region does not look at its minimum order: it does what
the region with the same lists and a minimum order of one page does.
-/

namespace GeexOS.Buddy

open GeexOS.Words
open GeexOS.Halting
open GeexOS.DataStructures
open GeexOS.Linked
open GeexOS.Dyadic
open BuddyAllocatedMemoryRegion

def withMinOrder (minOrder : ℕ) (region : BuddyAllocatedMemoryRegion) :
    BuddyAllocatedMemoryRegion :=
  { region with minOrder := minOrder }

variable {region region' : BuddyAllocatedMemoryRegion} {minOrder order order' : ℕ}

/-! ## The operations -/

theorem withMinOrder_markElementFree (minOrder : ℕ) (region : BuddyAllocatedMemoryRegion)
    (address : ℕ) :
    (withMinOrder minOrder region).markElementFree address =
      (region.markElementFree address).map (withMinOrder minOrder) := by
  have hbits : (withMinOrder minOrder region).elementsAllocated.clearBit
      ((withMinOrder minOrder region).getBitmapIndex address) =
      region.elementsAllocated.clearBit (region.getBitmapIndex address) := rfl
  rw [markElementFree, markElementFree, hbits]
  cases region.elementsAllocated.clearBit (region.getBitmapIndex address) <;> rfl

theorem withMinOrder_markElementAllocated (minOrder : ℕ) (region : BuddyAllocatedMemoryRegion)
    (address : ℕ) :
    (withMinOrder minOrder region).markElementAllocated address =
      (region.markElementAllocated address).map (withMinOrder minOrder) := by
  have hbits : (withMinOrder minOrder region).elementsAllocated.setBit
      ((withMinOrder minOrder region).getBitmapIndex address) =
      region.elementsAllocated.setBit (region.getBitmapIndex address) := rfl
  rw [markElementAllocated, markElementAllocated, hbits]
  cases region.elementsAllocated.setBit (region.getBitmapIndex address) <;> rfl

theorem withMinOrder_splitLoop (minOrder returnAddress order steps : ℕ)
    (region : BuddyAllocatedMemoryRegion) :
    splitLoop returnAddress order steps (withMinOrder minOrder region) =
      (splitLoop returnAddress order steps region).map (withMinOrder minOrder) := by
  induction steps generalizing region with
  | zero => rfl
  | succ steps ih =>
      rw [splitLoop, splitLoop, withMinOrder_markElementFree]
      cases region.markElementFree (u32 (returnAddress + 1 <<< (order + steps))) with
      | error halt => rfl
      | ok marked => exact ih (marked.pushElement _ _)

theorem withMinOrder_removeFromList (minOrder : ℕ) (region : BuddyAllocatedMemoryRegion)
    (order toRemove : ℕ) :
    (withMinOrder minOrder region).removeFromList order toRemove =
      (region.removeFromList order toRemove).map (withMinOrder minOrder) := by
  have helements : (withMinOrder minOrder region).elements = region.elements := rfl
  have hlists : (withMinOrder minOrder region).freeElements = region.freeElements := rfl
  rw [removeFromList, removeFromList, hlists, helements]
  split
  · rfl
  · cases removeLoop region.elements toRemove (2 ^ 32) (region.freeElements order) <;> rfl

theorem withMinOrder_mergeLoop (minOrder remaining order block : ℕ)
    (region : BuddyAllocatedMemoryRegion) :
    mergeLoop remaining order block (withMinOrder minOrder region) =
      (mergeLoop remaining order block region).map fun result =>
        (result.1, result.2.1, withMinOrder minOrder result.2.2) := by
  induction remaining generalizing order block region with
  | zero => rfl
  | succ remaining ih =>
      have hbuddy : (withMinOrder minOrder region).buddyOf block order =
          region.buddyOf block order := rfl
      have hfree : (withMinOrder minOrder region).isElementFree (region.buddyOf block order) =
          region.isElementFree (region.buddyOf block order) := rfl
      have helements : (withMinOrder minOrder region).elements = region.elements := rfl
      rw [mergeLoop, mergeLoop]
      simp only [hbuddy, hfree, helements, withMinOrder_removeFromList]
      cases region.isElementFree (region.buddyOf block order) with
      | error halt => rfl
      | ok free =>
          simp only [ok_bind]
          split
          · rfl
          · split
            · rfl
            · cases region.removeFromList order (region.buddyOf block order) with
              | error halt => rfl
              | ok removed => exact ih _ _ (removed.setOrder _ _)

theorem withMinOrder_allocateBuddy (hsum : order' + minOrder = order + region.minOrder) :
    (withMinOrder minOrder region).allocateBuddy order' =
      (region.allocateBuddy order).map fun result =>
        (result.1, withMinOrder minOrder result.2) := by
  have hmax : (withMinOrder minOrder region).maxOrder = region.maxOrder := rfl
  have hfind : ∀ order, (withMinOrder minOrder region).findOrder order = region.findOrder order :=
    fun _ => rfl
  have hlists : (withMinOrder minOrder region).freeElements = region.freeElements := rfl
  have hpop : ∀ i, (withMinOrder minOrder region).popElement i =
      withMinOrder minOrder (region.popElement i) := fun _ => rfl
  have hmin : (withMinOrder minOrder region).minOrder = minOrder := rfl
  rw [allocateBuddy, allocateBuddy, hmin, hsum, hmax]
  simp only [hfind, hlists, hpop, withMinOrder_markElementAllocated]
  split
  · rfl
  · cases region.findOrder (u32 (order + region.minOrder)) with
    | none => rfl
    | some i =>
        dsimp only
        cases (region.popElement i).markElementAllocated (region.freeElements i) with
        | error halt => rfl
        | ok marked =>
            have hsplit := withMinOrder_splitLoop minOrder (region.freeElements i)
              (u32 (order + region.minOrder)) (i - u32 (order + region.minOrder)) marked
            simp only [Except.map, ok_bind, hsplit]
            cases splitLoop (region.freeElements i) (u32 (order + region.minOrder))
              (i - u32 (order + region.minOrder)) marked <;> rfl

theorem withMinOrder_freeBuddy (hsum : order' + minOrder = order + region.minOrder) (address : ℕ) :
    (withMinOrder minOrder region).freeBuddy address order' =
      (region.freeBuddy address order).map (withMinOrder minOrder) := by
  have hmax : (withMinOrder minOrder region).maxOrder = region.maxOrder := rfl
  have hfree : (withMinOrder minOrder region).isElementFree address =
      region.isElementFree address := rfl
  have hmin : (withMinOrder minOrder region).minOrder = minOrder := rfl
  rw [freeBuddy, freeBuddy, hmin, hsum, hmax]
  simp only [hfree, withMinOrder_mergeLoop]
  split
  · rfl
  split
  · rfl
  cases region.isElementFree address with
  | error halt => rfl
  | ok free =>
      simp only [ok_bind]
      split
      · rfl
      · cases mergeLoop (region.maxOrder - u32 (order + region.minOrder))
          (u32 (order + region.minOrder)) address region with
        | error halt => rfl
        | ok result =>
            have hset : (withMinOrder minOrder result.2.2).setOrder result.1 result.2.1 =
                withMinOrder minOrder (result.2.2.setOrder result.1 result.2.1) := rfl
            simp only [Except.map, ok_bind, hset, withMinOrder_markElementFree]
            cases (result.2.2.setOrder result.1 result.2.1).markElementFree result.1 <;> rfl

/-- No call changes the minimum order. -/
theorem minOrder_of_allocateBuddy {ret : ℕ}
    (hcall : region.allocateBuddy order = .ok (ret, region')) :
    region'.minOrder = region.minOrder := by
  have hsame : region.allocateBuddy order = (region.allocateBuddy order).map fun result =>
      (result.1, withMinOrder region.minOrder result.2) := withMinOrder_allocateBuddy rfl
  rw [hcall] at hsame
  have hresult : region' = withMinOrder region.minOrder region' :=
    congrArg Prod.snd (Except.ok.inj hsame)
  rw [hresult]
  rfl

theorem minOrder_of_freeBuddy {address : ℕ}
    (hcall : region.freeBuddy address order = .ok region') :
    region'.minOrder = region.minOrder := by
  have hsame : region.freeBuddy address order =
      (region.freeBuddy address order).map (withMinOrder region.minOrder) :=
    withMinOrder_freeBuddy rfl address
  rw [hcall] at hsame
  rw [Except.ok.inj hsame]
  rfl

/-! ## The bits of a run -/

/-- No call on the region asks for a bit that the bitmap does not have, and the blocks that
exist have bits of their own. -/
structure BitmapFits (state : BuddyState) : Prop where
  allocate : ∀ order, order + state.region.minOrder < 2 ^ 32 →
    state.region.allocateBuddy order ≠ .error outOfBounds
  free : ∀ allocation ∈ state.live,
    state.region.freeBuddy allocation.address allocation.order ≠ .error outOfBounds
  blocks : ∃ cells,
    (∀ order ≤ state.region.maxOrder,
      Chain state.region.nextElement 0 (state.region.freeElements order) (cells order)) ∧
    (∀ block ∈ state.region.freeBlocks cells ++ state.live.map (Allocation.block state.region),
      blockIndex state.region block < state.region.elementsAllocated.numElements) ∧
    (state.region.freeBlocks cells ++
      state.live.map (Allocation.block state.region)).Pairwise fun block other =>
        blockIndex state.region block ≠ blockIndex state.region other

variable {minimumOrder : ℕ} {state state' : BuddyState}

/-- An allocation with its order counted from that of a page. -/
def Allocation.inPages (minimumOrder : ℕ) (allocation : Allocation) : Allocation :=
  ⟨allocation.address, allocation.order + (minimumOrder - pageShift)⟩

def BuddyState.inPages (minimumOrder : ℕ) (state : BuddyState) : BuddyState :=
  ⟨withMinOrder pageShift state.region, state.live.map (Allocation.inPages minimumOrder)⟩

/-- Orders that do not wrap around with the minimum order of the region. -/
def Admissible (minimumOrder order : ℕ) : Prop := order + minimumOrder < 2 ^ 32

/-- The order that is looked for is the same in pages and in smallest blocks. -/
theorem order_inPages (hminimum : pageShift ≤ minimumOrder)
    (hminOrder : region.minOrder = minimumOrder) (order : ℕ) :
    order + (minimumOrder - pageShift) + pageShift = order + region.minOrder := by
  rw [hminOrder, Nat.add_assoc, Nat.sub_add_cancel hminimum]

theorem Admissible.noWrap (hadmissible : Admissible minimumOrder order)
    (hminimum : pageShift ≤ minimumOrder) : NoWrap (order + (minimumOrder - pageShift)) := by
  rw [NoWrap, Nat.add_assoc, Nat.sub_add_cancel hminimum]
  exact hadmissible

theorem BuddyStep.inPages (hminimum : pageShift ≤ minimumOrder)
    (hstep : BuddyStep (Admissible minimumOrder) state state')
    (hminOrder : state.region.minOrder = minimumOrder) :
    BuddyStep NoWrap (state.inPages minimumOrder) (state'.inPages minimumOrder) ∧
      state'.region.minOrder = minimumOrder := by
  cases hstep with
  | @allocate region region' live order ret hadmissible hcall hret =>
      have hpages := withMinOrder_allocateBuddy (order_inPages hminimum hminOrder order)
      rw [hcall] at hpages
      exact ⟨.allocate (hadmissible.noWrap hminimum) hpages hret,
        (minOrder_of_allocateBuddy hcall).trans hminOrder⟩
  | @exhausted region region' live order hadmissible hcall =>
      have hpages := withMinOrder_allocateBuddy (order_inPages hminimum hminOrder order)
      rw [hcall] at hpages
      exact ⟨.exhausted (hadmissible.noWrap hminimum) hpages,
        (minOrder_of_allocateBuddy hcall).trans hminOrder⟩
  | @free region region' front back allocation hcall =>
      have hpages := withMinOrder_freeBuddy (order_inPages hminimum hminOrder allocation.order)
        allocation.address
      rw [hcall] at hpages
      refine ⟨?_, (minOrder_of_freeBuddy hcall).trans hminOrder⟩
      simp only [BuddyState.inPages, List.map_append, List.map_cons]
      exact .free hpages
  | @write region live elements' houtside =>
      exact ⟨.write houtside, hminOrder⟩

theorem BuddyRun.inPages {initial : BuddyState} (hminimum : pageShift ≤ minimumOrder)
    (hrun : BuddyRun (Admissible minimumOrder) initial state)
    (hminOrder : initial.region.minOrder = minimumOrder) :
    BuddyRun NoWrap (initial.inPages minimumOrder) (state.inPages minimumOrder) ∧
      state.region.minOrder = minimumOrder := by
  induction hrun with
  | refl => exact ⟨.refl, hminOrder⟩
  | tail _ hstep ih =>
      obtain ⟨hrun, hminOrder⟩ := ih
      obtain ⟨hstep, hminOrder⟩ := hstep.inPages hminimum hminOrder
      exact ⟨hrun.tail hstep, hminOrder⟩

theorem ne_outOfBounds_of_ok {α : Type} {outcome : Outcome α} {value : α}
    (hok : outcome = .ok value) : outcome ≠ .error outOfBounds := by
  rw [hok]
  exact fun herror => by cases herror

theorem ne_outOfBounds_of_orderTooLarge {α : Type} {outcome : Outcome α}
    (hlarge : outcome = .error orderTooLarge) : outcome ≠ .error outOfBounds := by
  rw [hlarge]
  intro herror
  have hne : orderTooLarge ≠ outOfBounds := by decide
  exact hne (Except.error.inj herror)

theorem ok_of_map_ok {α β : Type} {outcome : Outcome α} {f : α → β} {result : β}
    (hmap : outcome.map f = .ok result) : ∃ value, outcome = .ok value := by
  cases outcome with
  | error halt => cases hmap
  | ok value => exact ⟨value, rfl⟩

theorem inPages_block (hminimum : pageShift ≤ minimumOrder)
    (hminOrder : region.minOrder = minimumOrder) (live : List Allocation) :
    (live.map (Allocation.inPages minimumOrder)).map
        (Allocation.block (withMinOrder pageShift region)) =
      live.map (Allocation.block region) := by
  rw [List.map_map]
  refine List.map_congr_left fun allocation _ => ?_
  simp only [Function.comp_apply, Allocation.block, Allocation.inPages, withMinOrder, blockAt]
  congr 1
  omega

/-- A region that is a partition in pages has its bits. -/
theorem Invariant.bitmapFits {cells : ℕ → List ℕ} (hminimum : pageShift ≤ minimumOrder)
    (hinvariant : Invariant (state.inPages minimumOrder) cells)
    (hminOrder : state.region.minOrder = minimumOrder) : BitmapFits state := by
  have hsum := order_inPages hminimum hminOrder
  have hpartition := hinvariant.partition
  have hlive := inPages_block hminimum hminOrder state.live
  simp only [BuddyState.inPages, hlive] at hpartition
  obtain ⟨hallocate, hfree⟩ := hinvariant.calls_return
  have hindex : ∀ block ∈ state.region.freeBlocks cells ++
      state.live.map (Allocation.block state.region),
      blockIndex state.region block = block.start / pageSize := by
    intro block hblock
    have hlt := hpartition.address_lt hblock
    exact blockIndex_of_lt (Nat.lt_of_le_of_lt (Nat.le_add_right _ _) hlt)
  refine ⟨fun order hwrap => ?_, fun allocation hmem => ?_, cells, hpartition.chain, ?_, ?_⟩
  · by_cases horder : order + state.region.minOrder ≤ state.region.maxOrder
    · obtain ⟨result, hresult⟩ :=
        hallocate (order + (minimumOrder - pageShift)) (by rw [hsum]; exact horder)
      have hpages := withMinOrder_allocateBuddy (hsum order)
      obtain ⟨value, hvalue⟩ := ok_of_map_ok (hpages.symm.trans hresult)
      exact ne_outOfBounds_of_ok hvalue
    · refine ne_outOfBounds_of_orderTooLarge ?_
      rw [allocateBuddy, u32_of_lt hwrap, if_pos (not_le.mp horder)]
  · obtain ⟨result, hresult⟩ := hfree _ (List.mem_map_of_mem hmem)
    have hpages := withMinOrder_freeBuddy (hsum allocation.order) allocation.address
    obtain ⟨value, hvalue⟩ := ok_of_map_ok (hpages.symm.trans hresult)
    exact ne_outOfBounds_of_ok hvalue
  · intro block hblock
    rw [hindex block hblock]
    exact hpartition.page_lt hblock
  · refine hpartition.tiling.disjoint.imp_of_mem ?_
    intro block other hblock hother hapart hsame
    rw [hindex block hblock, hindex other hother] at hsame
    have heq := hpartition.eq_of_page hblock hother hsame
    subst heq
    exact Set.disjoint_left.mp hapart block.start_mem_range block.start_mem_range

/-! ## A region with one block -/

/-- A region whose only block is free or allocated. -/
structure Single (start exponent : ℕ) (state : BuddyState) : Prop where
  start_pos : 0 < start
  start_lt : start < 2 ^ 32
  exponent_lt : exponent < 32
  startAddress_eq : state.region.startAddress = start
  maxOrder_eq : state.region.maxOrder = exponent
  minOrder_eq : state.region.minOrder = exponent
  numElements_eq : state.region.elementsAllocated.numElements = 1
  lower_eq : ∀ order < exponent, state.region.freeElements order = 0
  content : (state.live = [] ∧ state.region.freeElements exponent = start ∧
      state.region.elements start = ⟨exponent, 0⟩) ∨
    (state.live = [⟨start, 0⟩] ∧ state.region.freeElements exponent = 0 ∧
      state.region.elementsAllocated.bit 0 = true)

namespace Single

variable {start exponent : ℕ} {live : List Allocation}

theorem getBitmapIndex_eq (hsingle : Single start exponent state) :
    state.region.getBitmapIndex start = 0 := by
  rw [getBitmapIndex, hsingle.startAddress_eq, sub32_of_le hsingle.start_lt le_rfl,
    Nat.sub_self, Nat.zero_div]

/-- Every order but the lowest is refused. -/
theorem allocateBuddy_of_pos (hsingle : Single start exponent state) (hpos : 0 < order)
    (hadmissible : Admissible exponent order) :
    state.region.allocateBuddy order = .error orderTooLarge := by
  have horder : u32 (order + state.region.minOrder) = order + exponent := by
    rw [hsingle.minOrder_eq]
    exact u32_of_lt hadmissible
  have hlarge : order + exponent > state.region.maxOrder := by
    rw [hsingle.maxOrder_eq]
    exact Nat.lt_add_of_pos_left hpos
  rw [allocateBuddy, horder, if_pos hlarge]

theorem order_eq (hsingle : Single start exponent state) :
    u32 (0 + state.region.minOrder) = exponent := by
  have hlt := hsingle.exponent_lt
  rw [Nat.zero_add, hsingle.minOrder_eq]
  exact u32_of_lt (by omega)

theorem findOrder_eq (hsingle : Single start exponent state) :
    state.region.findOrder exponent =
      if state.region.freeElements exponent ≠ 0 then some exponent else none := by
  have hone : exponent + 1 - exponent = 1 := by omega
  rw [findOrder, hsingle.maxOrder_eq, hone, List.range'_one, List.find?_singleton]
  simp

/-- The free block is handed out. -/
theorem allocateBuddy_free (hsingle : Single start exponent ⟨region, live⟩)
    (hfree : region.freeElements exponent = start)
    (helement : region.elements start = ⟨exponent, 0⟩) :
    ∃ region', region.allocateBuddy 0 = .ok (start, region') ∧
      Single start exponent ⟨region', [⟨start, 0⟩]⟩ := by
  obtain ⟨bits, hset, hupdate⟩ := Bitfield.setBit_of_lt
    (show 0 < region.elementsAllocated.numElements by rw [hsingle.numElements_eq]; exact one_pos)
  have hfind := hsingle.findOrder_eq
  simp only [hfree, ne_eq, hsingle.start_pos.ne', not_false_eq_true, if_true] at hfind
  have hindex : (region.popElement exponent).getBitmapIndex start = 0 :=
    hsingle.getBitmapIndex_eq
  have hbits : (region.popElement exponent).elementsAllocated = region.elementsAllocated := rfl
  refine ⟨{ region.popElement exponent with elementsAllocated := bits }, ?_, ?_⟩
  · rw [allocateBuddy, hsingle.order_eq, if_neg (not_lt.mpr hsingle.maxOrder_eq.ge), hfind]
    dsimp only
    rw [hfree, markElementAllocated, hindex, hbits, hset, ok_bind, ok_bind, Nat.sub_self]
    rfl
  · refine
      { hsingle with
        numElements_eq := hupdate.numElements_eq.trans hsingle.numElements_eq
        lower_eq := fun order horder => ?_
        content := Or.inr ⟨rfl, ?_, ?_⟩ }
    · simp only [popElement]
      rw [Function.update_of_ne horder.ne]
      exact hsingle.lower_eq order horder
    · simp only [popElement]
      rw [Function.update_self, hfree, helement]
    · rw [hupdate.bit_eq, if_pos rfl]

/-- Without a free block there is nothing to hand out. -/
theorem allocateBuddy_none (hsingle : Single start exponent ⟨region, live⟩)
    (hnone : region.freeElements exponent = 0) : region.allocateBuddy 0 = .ok (0, region) := by
  have hfind := hsingle.findOrder_eq
  simp only [hnone, ne_eq, not_true_eq_false, if_false] at hfind
  rw [allocateBuddy, hsingle.order_eq, if_neg (not_lt.mpr hsingle.maxOrder_eq.ge), hfind]

/-- All that one request can do. -/
theorem allocateBuddy_cases (hsingle : Single start exponent ⟨region, live⟩)
    (hadmissible : Admissible exponent order) :
    region.allocateBuddy order = .error orderTooLarge ∨
      region.allocateBuddy order = .ok (0, region) ∨
      (order = 0 ∧ live = [] ∧ ∃ region', region.allocateBuddy order = .ok (start, region') ∧
        Single start exponent ⟨region', [⟨start, 0⟩]⟩) := by
  rcases Nat.eq_zero_or_pos order with rfl | hpos
  · rcases hsingle.content with ⟨hlive, hfree, helement⟩ | ⟨_, hnone, _⟩
    · exact Or.inr (Or.inr ⟨rfl, hlive, hsingle.allocateBuddy_free hfree helement⟩)
    · exact Or.inr (Or.inl (hsingle.allocateBuddy_none hnone))
  · exact Or.inl (hsingle.allocateBuddy_of_pos hpos hadmissible)

/-- The allocated block is taken back. -/
theorem freeBuddy_eq (hsingle : Single start exponent ⟨region, live⟩)
    (hnone : region.freeElements exponent = 0)
    (hbit : region.elementsAllocated.bit 0 = true) :
    ∃ region', region.freeBuddy start 0 = .ok region' ∧ Single start exponent ⟨region', []⟩ := by
  have hone : 0 < region.elementsAllocated.numElements := by
    rw [hsingle.numElements_eq]
    exact one_pos
  obtain ⟨bits, hclear, hupdate⟩ := Bitfield.clearBit_of_lt hone
  have hindex := hsingle.getBitmapIndex_eq
  have hallocated : region.isElementFree start = .ok false := by
    rw [isElementFree, hindex, Bitfield.isBitSet_of_lt hone, ok_bind, hbit]
    rfl
  have hmarked : (region.setOrder start exponent).markElementFree start =
      .ok { region.setOrder start exponent with elementsAllocated := bits } := by
    have hsame : (region.setOrder start exponent).elementsAllocated.clearBit
        ((region.setOrder start exponent).getBitmapIndex start) =
        region.elementsAllocated.clearBit (region.getBitmapIndex start) := rfl
    rw [markElementFree, hsame, hindex, hclear, ok_bind]
  refine ⟨pushElement { region.setOrder start exponent with elementsAllocated := bits }
    exponent start, ?_, ?_⟩
  · rw [freeBuddy, if_neg hsingle.start_pos.ne', hsingle.order_eq,
      if_neg (not_lt.mpr hsingle.maxOrder_eq.ge), hallocated, ok_bind, if_neg Bool.false_ne_true,
      hsingle.maxOrder_eq, Nat.sub_self, mergeLoop, ok_bind]
    dsimp only
    rw [hmarked, ok_bind]
  · refine
      { hsingle with
        numElements_eq := hupdate.numElements_eq.trans hsingle.numElements_eq
        lower_eq := fun order horder => ?_
        content := Or.inl ⟨rfl, ?_, ?_⟩ }
    · simp only [pushElement, setOrder]
      rw [Function.update_of_ne horder.ne]
      exact hsingle.lower_eq order horder
    · simp only [pushElement]
      rw [Function.update_self]
    · simp only [pushElement, setOrder]
      rw [Function.update_self, hnone]

/-- The free block is the one cell of the lists. -/
theorem onFreeList (hsingle : Single start exponent ⟨region, live⟩)
    (hfree : region.freeElements exponent = start)
    (helement : region.elements start = ⟨exponent, 0⟩) :
    Chain region.nextElement 0 (region.freeElements exponent) [start] := by
  rw [hfree]
  refine chain_cons.mpr ⟨rfl, hsingle.start_pos.ne', chain_nil.mpr ?_⟩
  rw [nextElement, helement]

theorem step (hsingle : Single start exponent state)
    (hstep : BuddyStep (Admissible exponent) state state') : Single start exponent state' := by
  cases hstep with
  | @allocate region region' live order ret hadmissible hcall hret =>
      rcases hsingle.allocateBuddy_cases hadmissible with
        hlarge | hnone | ⟨rfl, rfl, region'', hallocate, hresult⟩
      · exact absurd (hcall.symm.trans hlarge) (fun h => by cases h)
      · exact absurd (congrArg Prod.fst (Except.ok.inj (hcall.symm.trans hnone))) hret
      · rw [hcall, Except.ok.injEq, Prod.mk.injEq] at hallocate
        obtain ⟨rfl, rfl⟩ := hallocate
        exact hresult
  | @exhausted region region' live order hadmissible hcall =>
      rcases hsingle.allocateBuddy_cases hadmissible with
        hlarge | hnone | ⟨_, _, region'', hallocate, _⟩
      · exact absurd (hcall.symm.trans hlarge) (fun h => by cases h)
      · obtain rfl : region' = region :=
          congrArg Prod.snd (Except.ok.inj (hcall.symm.trans hnone))
        exact hsingle
      · have hzero := congrArg Prod.fst (Except.ok.inj (hallocate.symm.trans hcall))
        exact absurd hzero hsingle.start_pos.ne'
  | @free region region' front back allocation hcall =>
      rcases hsingle.content with ⟨hlive, _⟩ | ⟨hlive, hnone, hbit⟩
      · exact absurd hlive (by simp)
      · obtain ⟨rfl, rfl, rfl⟩ : front = [] ∧ allocation = ⟨start, 0⟩ ∧ back = [] := by
          simpa [List.append_eq_singleton_iff] using hlive
        obtain ⟨region'', hfree, hresult⟩ := hsingle.freeBuddy_eq hnone hbit
        rw [hcall] at hfree
        obtain rfl := Except.ok.inj hfree
        exact hresult
  | @write region live elements' houtside =>
      rcases hsingle.content with ⟨hlive, hfree, helement⟩ | hallocated
      · have hsame : elements' start = region.elements start :=
          houtside exponent hsingle.maxOrder_eq.ge start
            ⟨[start], hsingle.onFreeList hfree helement, List.mem_singleton_self start⟩ start
            le_rfl (Nat.lt_add_of_pos_right (Nat.two_pow_pos exponent))
        exact { hsingle with content := Or.inl ⟨hlive, hfree, hsame.trans helement⟩ }
      · exact { hsingle with content := Or.inr hallocated }

theorem run {initial : BuddyState} (hsingle : Single start exponent initial)
    (hrun : BuddyRun (Admissible exponent) initial state) : Single start exponent state := by
  induction hrun with
  | refl => exact hsingle
  | tail _ hstep ih => exact ih.step hstep

/-- The one block, free or allocated. -/
theorem blocks_eq (hsingle : Single start exponent ⟨region, live⟩) :
    ∃ cells, (∀ order ≤ region.maxOrder,
        Chain region.nextElement 0 (region.freeElements order) (cells order)) ∧
      region.freeBlocks cells ++ live.map (Allocation.block region) = [⟨0, exponent⟩] := by
  have hblock : ∀ order, region.blockAt start order = ⟨0, order⟩ := by
    intro order
    rw [blockAt, hsingle.startAddress_eq, Nat.sub_self]
  have hlower : ∀ order ≤ region.maxOrder, order ≠ exponent →
      region.freeElements order = 0 := by
    intro order horder hne
    rw [hsingle.maxOrder_eq] at horder
    exact hsingle.lower_eq order (lt_of_le_of_ne horder hne)
  rcases hsingle.content with ⟨hlive, hfree, helement⟩ | ⟨hlive, hnone, _⟩
  · refine ⟨Function.update (fun _ => []) exponent [start], fun order horder => ?_, ?_⟩
    · by_cases heq : order = exponent
      · subst heq
        rw [Function.update_self]
        exact hsingle.onFreeList hfree helement
      · rw [Function.update_of_ne heq]
        exact chain_nil.mpr (hlower order horder heq)
    · have hperm := freeBlocks_single hsingle.maxOrder_eq.ge start
      simp only at hlive
      rw [hlive, List.map_nil, List.append_nil, List.perm_singleton.mp hperm, hblock]
  · refine ⟨fun _ => [], fun order horder => chain_nil.mpr ?_, ?_⟩
    · by_cases heq : order = exponent
      · rw [heq]
        exact hnone
      · exact hlower order horder heq
    · have hnoBlocks : region.freeBlocks (fun _ => []) = [] := by simp [freeBlocks]
      simp only at hlive
      rw [hnoBlocks, hlive, List.nil_append, List.map_singleton, Allocation.block, Nat.zero_add,
        hsingle.minOrder_eq, hblock]

/-- The one block uses the one bit. -/
theorem bitmapFits (hsingle : Single start exponent state) : BitmapFits state := by
  obtain ⟨region, live⟩ := state
  refine ⟨fun order hwrap => ?_, fun allocation hmem => ?_, ?_⟩
  · rw [hsingle.minOrder_eq] at hwrap
    rcases hsingle.allocateBuddy_cases hwrap with hlarge | hnone | ⟨_, _, region', hresult, _⟩
    · exact ne_outOfBounds_of_orderTooLarge hlarge
    · exact ne_outOfBounds_of_ok hnone
    · exact ne_outOfBounds_of_ok hresult
  · rcases hsingle.content with ⟨hlive, _⟩ | ⟨hlive, hnone, hbit⟩
    · exact absurd hmem (hlive ▸ List.not_mem_nil)
    · rw [hlive, List.mem_singleton] at hmem
      obtain ⟨region', hfree, _⟩ := hsingle.freeBuddy_eq hnone hbit
      rw [hmem]
      exact ne_outOfBounds_of_ok hfree
  · have hindex : blockIndex region ⟨0, exponent⟩ < region.elementsAllocated.numElements := by
      have hstart : region.startAddress + 0 < 2 ^ 32 := by
        rw [hsingle.startAddress_eq]
        exact hsingle.start_lt
      rw [blockIndex_of_lt hstart, hsingle.numElements_eq, Nat.zero_div]
      exact one_pos
    obtain ⟨cells, hchain, hblocks⟩ := hsingle.blocks_eq
    refine ⟨cells, hchain, ?_, ?_⟩
    · rw [hblocks]
      intro block hmem
      rw [List.mem_singleton.mp hmem]
      exact hindex
    · rw [hblocks]
      exact List.pairwise_singleton _ _

end Single

/-! ## A region at the null address -/

/-- The only block cannot be told from the end of a list. -/
structure Nothing (state : BuddyState) : Prop where
  live_eq : state.live = []
  freeElements_eq : ∀ order, state.region.freeElements order = 0

namespace Nothing

theorem allocateBuddy_cases (hnothing : Nothing state) :
    state.region.allocateBuddy order = .error orderTooLarge ∨
      state.region.allocateBuddy order = .ok (0, state.region) := by
  have hfind : ∀ order, state.region.findOrder order = none := by
    intro order
    simp [findOrder, hnothing.freeElements_eq]
  rw [allocateBuddy]
  split
  · exact Or.inl rfl
  · rw [hfind]
    exact Or.inr rfl

theorem step {admissible : ℕ → Prop} (hnothing : Nothing state)
    (hstep : BuddyStep admissible state state') : Nothing state' := by
  cases hstep with
  | @allocate region region' live order ret _ hcall hret =>
      rcases hnothing.allocateBuddy_cases with herror | hnone
      · exact absurd (hcall.symm.trans herror) (fun h => by cases h)
      · exact absurd (congrArg Prod.fst (Except.ok.inj (hcall.symm.trans hnone))) hret
  | @exhausted region region' live order _ hcall =>
      rcases hnothing.allocateBuddy_cases with herror | hnone
      · exact absurd (hcall.symm.trans herror) (fun h => by cases h)
      · obtain rfl : region' = region :=
          congrArg Prod.snd (Except.ok.inj (hcall.symm.trans hnone))
        exact hnothing
  | @free region region' front back allocation _ =>
      exact absurd hnothing.live_eq (by simp)
  | write _ => exact ⟨hnothing.live_eq, hnothing.freeElements_eq⟩

theorem run {admissible : ℕ → Prop} {initial : BuddyState} (hnothing : Nothing initial)
    (hrun : BuddyRun admissible initial state) : Nothing state := by
  induction hrun with
  | refl => exact hnothing
  | tail _ hstep ih => exact ih.step hstep

theorem bitmapFits (hnothing : Nothing state) : BitmapFits state := by
  have hnoBlocks : state.region.freeBlocks (fun _ => []) = [] := by simp [freeBlocks]
  refine ⟨fun order _ => ?_, fun allocation hmem => ?_, fun _ => [], fun order _ => ?_, ?_, ?_⟩
  · rcases hnothing.allocateBuddy_cases with herror | hnone
    · exact ne_outOfBounds_of_orderTooLarge herror
    · exact ne_outOfBounds_of_ok hnone
  · exact absurd hmem (hnothing.live_eq ▸ List.not_mem_nil)
  · exact chain_nil.mpr (hnothing.freeElements_eq order)
  · rw [hnoBlocks, hnothing.live_eq]
    exact fun block hmem => absurd hmem List.not_mem_nil
  · rw [hnoBlocks, hnothing.live_eq]
    exact List.Pairwise.nil

end Nothing

/-! ## New regions -/

section New

variable {elements : ℕ → BuddyElement} {start size exponent : ℕ}

/-- The minimum order of a new region matters to its bitmap only. -/
theorem new_withMinOrder (hnew : new elements start size minimumOrder = .ok region)
    (minOrder : ℕ) : new elements start size minOrder = .ok
      { region with
        minOrder := minOrder
        elementsAllocated := Bitfield.new (numBlocks region.maxOrder minOrder) } := by
  unfold new at hnew ⊢
  split at hnew
  · simp at hnew
  split at hnew
  · simp at hnew
  split at hnew
  · simp at hnew
  rename_i haligned hmultiple hpower
  obtain ⟨pages, hmap, hnew⟩ := bind_eq_ok.mp hnew
  split at hnew
  · simp at hnew
  rename_i hmem
  rw [if_neg haligned, if_neg hmultiple, if_neg hpower, hmap]
  simp only [ok_bind]
  rw [if_neg hmem]
  obtain rfl := Except.ok.inj hnew
  rfl

/-- A cleared bitmap with enough bits is as good as another. -/
theorem Partition.withBitmap {cells : ℕ → List ℕ} {numElements : ℕ}
    (hpartition : Partition region cells [] [])
    (hbits : 2 ^ (region.maxOrder - pageShift) ≤ numElements) :
    Partition { region with elementsAllocated := Bitfield.new numElements } cells [] [] :=
  { hpartition with
    placed := { hpartition.placed with bits_le := hbits }
    free_bit := fun _ _ => Bitfield.bit_new _ _
    live_bit := fun _ hmem => absurd hmem List.not_mem_nil }

variable (hconfigured : Configured region start exponent minimumOrder)

include hconfigured

/-- A bitmap with a bit for every page serves all runs. -/
theorem Configured.bitmapFits_of_pages (hpos : 0 < start) (hexponent : exponent < 32)
    (hnew : new elements start (2 ^ exponent) minimumOrder = .ok region)
    (hminimum : pageShift ≤ minimumOrder) (hle : minimumOrder ≤ exponent)
    (hbits : 2 ^ (exponent - pageShift) ≤ numBlocks exponent minimumOrder)
    (hrun : BuddyRun (Admissible minimumOrder) ⟨region, []⟩ state) : BitmapFits state := by
  have hstart : start < 2 ^ 32 := Nat.lt_of_le_of_lt (Nat.le_add_right _ _) hconfigured.end_lt
  obtain ⟨cells, hpartition, _⟩ := new_eq_ok hpos hstart (hminimum.trans hle) hexponent
    (new_withMinOrder hnew pageShift)
  have hpages : Partition (withMinOrder pageShift region) cells [] [] := by
    have hbitmap := hpartition.withBitmap
      (show _ ≤ numBlocks exponent minimumOrder by
        simp only [hconfigured.maxOrder_eq]
        exact hbits)
    rwa [← hconfigured.elementsAllocated_eq] at hbitmap
  have hinitial : Invariant (BuddyState.inPages minimumOrder ⟨region, []⟩) cells :=
    ⟨hpages, fun _ hmem => absurd hmem List.not_mem_nil⟩
  obtain ⟨hrun, hminOrder⟩ := hrun.inPages hminimum hconfigured.minOrder_eq
  obtain ⟨cells', hinvariant, _⟩ := hrun.invariant hinitial
  exact hinvariant.bitmapFits hminimum hminOrder

theorem Configured.nothing (hzero : start = 0) : Nothing ⟨region, []⟩ where
  live_eq := rfl
  freeElements_eq := fun order => by
    simp only [hconfigured.freeElements_eq, hzero, Function.update_apply, ite_self]

theorem Configured.single (hpos : 0 < start) (hexponent : exponent < 32)
    (hsame : minimumOrder = exponent) : Single start exponent ⟨region, []⟩ where
  start_pos := hpos
  start_lt := Nat.lt_of_le_of_lt (Nat.le_add_right _ _) hconfigured.end_lt
  exponent_lt := hexponent
  startAddress_eq := hconfigured.startAddress_eq
  maxOrder_eq := hconfigured.maxOrder_eq
  minOrder_eq := hconfigured.minOrder_eq.trans hsame
  numElements_eq := by
    simp only [hconfigured.elementsAllocated_eq, hsame, Bitfield.new]
    exact numBlocks_self exponent hexponent
  lower_eq := fun order horder => by
    simp only [hconfigured.freeElements_eq]
    exact Function.update_of_ne horder.ne _ _
  content := by
    refine Or.inl ⟨rfl, ?_, hconfigured.element_eq⟩
    simp only [hconfigured.freeElements_eq, Function.update_self]

/-- Half of a new region can only come from the whole region. -/
theorem Configured.findOrder_half (hpos : 0 < start) (hlt : 0 < exponent) :
    region.findOrder (exponent - 1) = some exponent := by
  have htwo : exponent + 1 - (exponent - 1) = 2 := by omega
  have hnext : exponent - 1 + 1 = exponent := by omega
  have hne : exponent - 1 ≠ exponent := by omega
  rw [findOrder, hconfigured.maxOrder_eq, htwo, List.range'_succ, List.range'_one, hnext,
    hconfigured.freeElements_eq]
  simp [List.find?, hpos.ne', hne]

theorem Configured.markElementAllocated_start (hle : minimumOrder ≤ exponent)
    (hexponent : exponent < 31) :
    ∃ bits : Bitfield, bits.numElements = region.elementsAllocated.numElements ∧
      (region.popElement exponent).markElementAllocated start =
        .ok { region.popElement exponent with elementsAllocated := bits } := by
  have hstart : start < 2 ^ 32 := Nat.lt_of_le_of_lt (Nat.le_add_right _ _) hconfigured.end_lt
  have hindex : (region.popElement exponent).getBitmapIndex start = 0 := by
    have hsame : (region.popElement exponent).getBitmapIndex start =
        region.getBitmapIndex start := rfl
    rw [hsame, getBitmapIndex, hconfigured.startAddress_eq, sub32_of_le hstart le_rfl,
      Nat.sub_self, Nat.zero_div]
  have hbit : 0 < region.elementsAllocated.numElements := by
    rw [hconfigured.elementsAllocated_eq, Bitfield.new, numBlocks_eq _ hexponent _ hle]
    exact Nat.two_pow_pos _
  obtain ⟨bits, hset, hupdate⟩ := Bitfield.setBit_of_lt hbit
  have hsame : (region.popElement exponent).elementsAllocated = region.elementsAllocated := rfl
  refine ⟨bits, hupdate.numElements_eq, ?_⟩
  rw [markElementAllocated, hindex, hsame, hset, ok_bind]

/-- The upper half of the region has no bit. -/
theorem Configured.markElementFree_half (hminimum : pageShift < minimumOrder)
    (hlt : minimumOrder < exponent) (hexponent : exponent < 31) {bits : Bitfield}
    (hbits : bits.numElements = region.elementsAllocated.numElements) :
    markElementFree { region.popElement exponent with elementsAllocated := bits }
      (start + 2 ^ (exponent - 1)) = .error outOfBounds := by
  obtain ⟨_, hindex⟩ := hconfigured.upper_half hminimum hlt hexponent
  rw [blockIndex, hconfigured.startAddress_eq, ← hbits] at hindex
  have hclear : bits.clearBit (region.getBitmapIndex (start + 2 ^ (exponent - 1))) =
      .error outOfBounds := if_neg (not_lt.mpr hindex)
  rw [markElementFree]
  exact congrArg (· >>= _) hclear

/-- In the other configurations the first request for half of the region asks for a bit
that the bitmap does not have. -/
theorem Configured.allocateBuddy_half (hpos : 0 < start) (hminimum : pageShift < minimumOrder)
    (hlt : minimumOrder < exponent) (hexponent : exponent < 31) :
    region.allocateBuddy (exponent - 1 - minimumOrder) = .error outOfBounds := by
  have hend := hconfigured.end_lt
  have hhalf : 2 ^ (exponent - 1) < 2 ^ exponent :=
    Nat.pow_lt_pow_right one_lt_two (by omega)
  have horder : u32 (exponent - 1 - minimumOrder + region.minOrder) = exponent - 1 := by
    rw [hconfigured.minOrder_eq, Nat.sub_add_cancel (by omega)]
    exact u32_of_lt (by omega)
  have hfree : region.freeElements exponent = start := by
    rw [hconfigured.freeElements_eq, Function.update_self]
  have hfind := hconfigured.findOrder_half hpos (by omega)
  obtain ⟨bits, hbits, hallocated⟩ := hconfigured.markElementAllocated_start hlt.le hexponent
  have hbuddy : u32 (start + 1 <<< (exponent - 1 + 0)) = start + 2 ^ (exponent - 1) := by
    rw [Nat.add_zero, Nat.one_shiftLeft]
    exact u32_of_lt (by omega)
  have hsplit : splitLoop start (exponent - 1) 1
      { region.popElement exponent with elementsAllocated := bits } = .error outOfBounds := by
    rw [splitLoop, hbuddy, hconfigured.markElementFree_half hminimum hlt hexponent hbits,
      error_bind]
  have hone : exponent - (exponent - 1) = 1 := by omega
  -- the bit of the first half is there, that of the second is missing
  rw [allocateBuddy, horder, hconfigured.maxOrder_eq, if_neg (by omega), hfind]
  dsimp only
  rw [hfree, hallocated, ok_bind, hone, hsplit, error_bind]

end New

/-- The bitmap is large enough, and stays so in every run without wrapping orders, for
regions of blocks of a page, for regions of a single block, and for those of 2 GiB. -/
theorem bitmap_fits_iff {elements : ℕ → BuddyElement} {start exponent : ℕ}
    (hstart : start < 2 ^ 32) (hexponent : exponent < 32) (hminimum : pageShift ≤ minimumOrder)
    (hle : minimumOrder ≤ exponent)
    (hnew : new elements start (2 ^ exponent) minimumOrder = .ok region) :
    (BitmapCovers region ∧
      ∀ state, BuddyRun (Admissible minimumOrder) ⟨region, []⟩ state → BitmapFits state) ↔
      minimumOrder = pageShift ∨ minimumOrder = exponent ∨ exponent = 31 := by
  have hconfigured := new_configured hstart hexponent hnew
  rw [← hconfigured.bitmapCovers_iff hminimum hle hexponent]
  refine ⟨And.left, fun hcovers => ⟨hcovers, fun state hrun => ?_⟩⟩
  have hfits := (hconfigured.bitmapCovers_iff hminimum hle hexponent).mp hcovers
  rcases Nat.eq_zero_or_pos start with hzero | hpos
  · exact ((hconfigured.nothing hzero).run hrun).bitmapFits
  · by_cases hsame : minimumOrder = exponent
    · have hsingle := hconfigured.single hpos hexponent hsame
      rw [hsame] at hrun
      exact (hsingle.run hrun).bitmapFits
    · have hbits := pages_le_numBlocks hminimum hle hexponent (by omega)
      exact hconfigured.bitmapFits_of_pages hpos hexponent hnew hminimum hle hbits hrun

theorem bitmap_fits_iff_twoPages :
    (BitmapCovers twoPages ∧
      ∀ state, BuddyRun (Admissible pageShift) ⟨twoPages, []⟩ state → BitmapFits state) ↔
      pageShift = pageShift ∨ pageShift = 13 ∨ 13 = 31 :=
  bitmap_fits_iff (by decide) (by decide) le_rfl (by decide)
    (show new (fun _ => ⟨0, 0⟩) 0x100000 (2 ^ 13) pageShift = .ok twoPages from rfl)

/-- A region of four pages in blocks of two. -/
def fourPages : BuddyAllocatedMemoryRegion where
  startAddress := 0x100000
  size := 0x4000
  maxOrder := 14
  minOrder := 13
  freeElements := Function.update (fun _ => 0) 14 0x100000
  elementsAllocated := Bitfield.new 2
  elements := Function.update (fun _ => ⟨0, 0⟩) 0x100000 ⟨14, 0⟩

/-- The first split asks for the bit of page 2 in a bitmap of two bits. -/
theorem fourPages_not_fits :
    new (fun _ => ⟨0, 0⟩) 0x100000 (2 ^ 14) 13 = .ok fourPages ∧
      ¬ (BitmapCovers fourPages ∧
        ∀ state, BuddyRun (Admissible 13) ⟨fourPages, []⟩ state → BitmapFits state) := by
  refine ⟨rfl, fun hfits => ?_⟩
  have hnew := hfits.2 ⟨fourPages, []⟩ .refl
  have hallocate : fourPages.allocateBuddy 0 = .error outOfBounds := rfl
  exact hnew.allocate 0 (by decide) hallocate

end GeexOS.Buddy
