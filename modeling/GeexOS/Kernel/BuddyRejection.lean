import GeexOS.Kernel.BuddyRuns

/-!
# Rejecting what is not allocated

`FreeBuddy` looks at the bit of the page it is given.  A block that merges with
a lower buddy leaves the bit of its own first page set, so the check accepts the
address again; no other step does that.
-/

namespace GeexOS.Buddy

open GeexOS.Words
open GeexOS.Halting
open GeexOS.DataStructures
open GeexOS.Dyadic
open BuddyAllocatedMemoryRegion

variable {region region' : BuddyAllocatedMemoryRegion} {cells : ℕ → List ℕ}
variable {address order block page i : ℕ} {state state' : BuddyState}

def alreadyFree : Halt := .assertion "Element already is free"

/-- The call stops at the check of the bit, or at the check of the order in
front of it. -/
def Rejects (region : BuddyAllocatedMemoryRegion) (address order : ℕ) : Prop :=
  region.freeBuddy address order =
    .error (if region.maxOrder < u32 (order + region.minOrder) then orderTooLargeToFree
      else alreadyFree)

/-- The buddy of the order is free as a whole; the test of the merging loop. -/
def BuddyFree (region : BuddyAllocatedMemoryRegion) (address order : ℕ) : Prop :=
  region.isElementFree (region.buddyOf address order) = .ok true ∧
    (region.elements (region.buddyOf address order)).order = order

/-- From its order on, the buddies of the block are free up to one in front of
it. -/
def MergesDown (region : BuddyAllocatedMemoryRegion) (address order : ℕ) : Prop :=
  ∃ i, order ≤ i ∧ i < region.maxOrder ∧ (∀ j, order ≤ j → j ≤ i → BuddyFree region address j) ∧
    region.buddyOf address i < address

/-! ## Bits -/

theorem bit_of_markElementFree (hmark : region.markElementFree address = .ok region') :
    region'.elementsAllocated.bit page =
      if page = region.getBitmapIndex address then false
      else region.elementsAllocated.bit page := by
  obtain ⟨bits, hclear, hregion⟩ := bind_eq_ok.mp hmark
  cases hregion
  exact (Bitfield.clearBit_eq_ok hclear).2.bit_eq page

theorem bit_of_new {elements : ℕ → BuddyElement} {start size minimumOrder : ℕ}
    (hnew : new elements start size minimumOrder = .ok region) :
    region.elementsAllocated.bit page = false := by
  unfold new at hnew
  split at hnew
  · cases hnew
  split at hnew
  · cases hnew
  split at hnew
  · cases hnew
  obtain ⟨pages, -, hnew⟩ := bind_eq_ok.mp hnew
  split at hnew
  · cases hnew
  · cases hnew
    exact Bitfield.bit_new _ _

/-- Splitting a block only clears bits. -/
theorem bit_of_splitLoop {ret steps : ℕ} (hsplit : splitLoop ret order steps region = .ok region')
    (hbit : region'.elementsAllocated.bit page = true) :
    region.elementsAllocated.bit page = true := by
  induction steps generalizing region with
  | zero =>
      cases hsplit
      exact hbit
  | succ steps ih =>
      obtain ⟨marked, hmark, hrest⟩ := bind_eq_ok.mp hsplit
      have hmarked : marked.elementsAllocated.bit page = true :=
        @ih (marked.pushElement _ _) hrest
      rw [bit_of_markElementFree hmark] at hmarked
      split at hmarked
      · exact absurd hmarked Bool.false_ne_true
      · exact hmarked

/-- An allocation sets the bit of the block it hands out and no other. -/
theorem bit_of_allocateBuddy {ret : ℕ} (hcall : region.allocateBuddy order = .ok (ret, region'))
    (hret : ret ≠ 0) (hbit : region'.elementsAllocated.bit page = true) :
    page = region.getBitmapIndex ret ∨ region.elementsAllocated.bit page = true := by
  rw [BuddyAllocatedMemoryRegion.allocateBuddy] at hcall
  simp only at hcall
  split at hcall
  · cases hcall
  split at hcall
  · cases hcall
    exact absurd rfl hret
  · next i hfind =>
      obtain ⟨marked, hmark, hcall⟩ := bind_eq_ok.mp hcall
      obtain ⟨split, hsplit, hcall⟩ := bind_eq_ok.mp hcall
      cases hcall
      have hmarked := bit_of_splitLoop hsplit hbit
      obtain ⟨bits, hset, hregion⟩ := bind_eq_ok.mp hmark
      cases hregion
      rw [(Bitfield.setBit_eq_ok hset).2.bit_eq page] at hmarked
      split at hmarked
      · next hpage => exact Or.inl hpage
      · exact Or.inr hmarked

/-- A call that finds no block changes nothing. -/
theorem allocateBuddy_eq_zero (hcall : region.allocateBuddy order = .ok (0, region')) :
    region' = region := by
  rw [BuddyAllocatedMemoryRegion.allocateBuddy] at hcall
  simp only at hcall
  split at hcall
  · cases hcall
  split at hcall
  · cases hcall
    rfl
  · next i hfind =>
      obtain ⟨marked, -, hcall⟩ := bind_eq_ok.mp hcall
      obtain ⟨split, -, hcall⟩ := bind_eq_ok.mp hcall
      have hzero := (Prod.mk.inj (Except.ok.inj hcall)).1
      exact absurd hzero (findOrder_eq_some hfind).2.2

/-! ## The merging loop -/

/-- What a removal or a new order changes is not what the loop tests. -/
structure SameTests (region region' : BuddyAllocatedMemoryRegion) : Prop where
  startAddress_eq : region'.startAddress = region.startAddress
  maxOrder_eq : region'.maxOrder = region.maxOrder
  bits_eq : region'.elementsAllocated = region.elementsAllocated

theorem SameTests.buddyOf_eq (hsame : SameTests region region') :
    region'.buddyOf address order = region.buddyOf address order := by
  rw [buddyOf, hsame.startAddress_eq]
  rfl

theorem SameTests.isElementFree_eq (hsame : SameTests region region') :
    region'.isElementFree address = region.isElementFree address := by
  rw [isElementFree, getBitmapIndex, hsame.startAddress_eq, hsame.bits_eq]
  rfl

theorem order_of_removeLoop {elements elements' : ℕ → BuddyElement} {toRemove fuel cur : ℕ}
    (hremove : removeLoop elements toRemove fuel cur = .ok elements') (element : ℕ) :
    (elements' element).order = (elements element).order := by
  induction fuel generalizing cur with
  | zero => cases hremove
  | succ fuel ih =>
      rw [removeLoop] at hremove
      split at hremove
      · cases hremove
      split at hremove
      · cases hremove
        rfl
      split at hremove
      · cases hremove
        by_cases heq : element = cur
        · rw [heq, Function.update_self]
        · rw [Function.update_of_ne heq]
      · exact ih hremove

theorem removeFromList_eq_ok {toRemove : ℕ}
    (hremove : region.removeFromList order toRemove = .ok region') :
    SameTests region region' ∧
      ∀ element, (region'.elements element).order = (region.elements element).order := by
  rw [removeFromList] at hremove
  split at hremove
  · cases hremove
    exact ⟨⟨rfl, rfl, rfl⟩, fun _ => rfl⟩
  · obtain ⟨elements, hloop, hregion⟩ := bind_eq_ok.mp hremove
    cases hregion
    exact ⟨⟨rfl, rfl, rfl⟩, order_of_removeLoop hloop⟩

/-- A block is not its own buddy. -/
theorem buddyOf_ne (hstart : region.startAddress ≤ address) (haddress : address < 2 ^ 32)
    (horder : order < 32) : region.buddyOf address order ≠ address := by
  have hmask : 1 <<< order < 2 ^ 32 := by
    rw [Nat.shiftLeft_eq, Nat.one_mul]
    exact Nat.pow_lt_pow_right (by norm_num) horder
  have hoffset : address - region.startAddress < 2 ^ 32 := by omega
  have hxor := Nat.xor_lt_two_pow hoffset hmask
  have hne : (address - region.startAddress) ^^^ 1 <<< order ≠ address - region.startAddress := by
    intro heq
    have hzero : 1 <<< order = 0 := by
      have hcancel := congrArg (fun value => (address - region.startAddress) ^^^ value) heq
      simp at hcancel
    rw [Nat.shiftLeft_eq, Nat.one_mul] at hzero
    exact (Nat.two_pow_pos order).ne' hzero
  rw [buddyOf, sub32_of_le haddress hstart]
  generalize (address - region.startAddress) ^^^ 1 <<< order = other at hxor hne
  simp only [u32]
  omega

theorem SameTests.trans {region'' : BuddyAllocatedMemoryRegion}
    (hfirst : SameTests region region') (hsecond : SameTests region' region'') :
    SameTests region region'' :=
  ⟨hsecond.startAddress_eq.trans hfirst.startAddress_eq,
    hsecond.maxOrder_eq.trans hfirst.maxOrder_eq, hsecond.bits_eq.trans hfirst.bits_eq⟩

/-- One round of the loop: it ends here, or it goes on with the merged block. -/
theorem mergeLoop_succ {remaining order' : ℕ}
    (hloop : mergeLoop (remaining + 1) order address region = .ok (block, order', region')) :
    (¬ BuddyFree region address order ∧ block = address ∧ region' = region) ∨
      BuddyFree region address order ∧
        ∃ removed merged, SameTests region removed ∧
          merged = (if region.buddyOf address order < address then region.buddyOf address order
            else address) ∧
          (∀ element, element ≠ merged →
            (removed.elements element).order = (region.elements element).order) ∧
          mergeLoop remaining (order + 1) merged removed = .ok (block, order', region') := by
  rw [mergeLoop] at hloop
  obtain ⟨free, hfree, hloop⟩ := bind_eq_ok.mp hloop
  cases free with
  | false =>
      rw [Bool.not_false, if_pos rfl] at hloop
      cases hloop
      refine Or.inl ⟨fun hbuddy => ?_, rfl, rfl⟩
      rw [hbuddy.1] at hfree
      cases hfree
  | true =>
      rw [Bool.not_true, if_neg Bool.false_ne_true] at hloop
      split at hloop
      · next hother =>
          cases hloop
          exact Or.inl ⟨fun hbuddy => hother hbuddy.2, rfl, rfl⟩
      · next hsame =>
          obtain ⟨removed, hremove, hloop⟩ := bind_eq_ok.mp hloop
          obtain ⟨htests, horders⟩ := removeFromList_eq_ok hremove
          refine Or.inr ⟨⟨hfree, not_not.mp hsame⟩, _, _,
            htests.trans (show SameTests removed (removed.setOrder _ (order + 1)) from
              ⟨rfl, rfl, rfl⟩), rfl, fun element hne => ?_, hloop⟩
          rw [setOrder]
          simp only
          rw [Function.update_of_ne hne]
          exact horders element

theorem mergeLoop_le {remaining order' : ℕ}
    (hloop : mergeLoop remaining order address region = .ok (block, order', region')) :
    block ≤ address ∧ SameTests region region' := by
  induction remaining generalizing region address order with
  | zero =>
      cases hloop
      exact ⟨le_rfl, rfl, rfl, rfl⟩
  | succ remaining ih =>
      rcases mergeLoop_succ hloop with ⟨-, rfl, rfl⟩ | ⟨-, removed, merged, htests, rfl, -, hrest⟩
      · exact ⟨le_rfl, rfl, rfl, rfl⟩
      · obtain ⟨hle, htests'⟩ := ih hrest
        refine ⟨hle.trans ?_, htests.trans htests'⟩
        split
        · next hlower => exact hlower.le
        · exact le_rfl

/-- After a round with a higher buddy, the rest of the loop takes a lower one exactly if the
whole loop does. -/
theorem SameTests.mergesDown_iff {removed : BuddyAllocatedMemoryRegion}
    (htests : SameTests region removed) (hfree : BuddyFree region address order)
    (hhigher : ¬ region.buddyOf address order < address)
    (hbuddy : ∀ j, order + 1 ≤ j → j < region.maxOrder →
      (BuddyFree removed address j ↔ BuddyFree region address j)) :
    MergesDown removed address (order + 1) ↔ MergesDown region address order := by
  constructor
  · rintro ⟨i, hlow, hhigh, hbuddies, hfront⟩
    rw [htests.maxOrder_eq] at hhigh
    rw [htests.buddyOf_eq] at hfront
    refine ⟨i, by omega, hhigh, fun j hj hji => ?_, hfront⟩
    rcases Nat.lt_or_eq_of_le hj with hlt | rfl
    · exact (hbuddy j hlt (by omega)).mp (hbuddies j hlt hji)
    · exact hfree
  · rintro ⟨i, hlow, hhigh, hbuddies, hfront⟩
    have hne : i ≠ order := by
      rintro rfl
      exact hhigher hfront
    refine ⟨i, by omega, by rwa [htests.maxOrder_eq], fun j hj hji => ?_, ?_⟩
    · exact (hbuddy j hj (by omega)).mpr (hbuddies j (by omega) hji)
    · rwa [htests.buddyOf_eq]

/-- The merged block starts where the block did exactly if the loop never takes
a lower buddy. -/
theorem mergeLoop_eq_iff {remaining order' : ℕ} (hstart : region.startAddress ≤ address)
    (haddress : address < 2 ^ 32) (hmax : region.maxOrder < 32)
    (hremaining : order + remaining = region.maxOrder)
    (hloop : mergeLoop remaining order address region = .ok (block, order', region')) :
    block = address ↔ ¬ MergesDown region address order := by
  induction remaining generalizing region order with
  | zero =>
      cases hloop
      refine iff_of_true rfl ?_
      rintro ⟨i, hlow, hhigh, -⟩
      omega
  | succ remaining ih =>
      rcases mergeLoop_succ hloop with ⟨hnot, rfl, rfl⟩ |
        ⟨hfree, removed, merged, htests, hmerged, horders, hrest⟩
      · refine iff_of_true rfl ?_
        rintro ⟨i, hlow, -, hbuddies, -⟩
        exact hnot (hbuddies order le_rfl hlow)
      · by_cases hlower : region.buddyOf address order < address
        · rw [if_pos hlower] at hmerged
          have hle := (mergeLoop_le hrest).1
          refine iff_of_false (by omega) (not_not.mpr ⟨order, le_rfl, by omega, ?_, hlower⟩)
          intro j hlow hhigh
          rwa [le_antisymm hhigh hlow]
        · rw [if_neg hlower] at hmerged
          subst hmerged
          have hbuddy : ∀ j, order + 1 ≤ j → j < region.maxOrder →
              (BuddyFree removed merged j ↔ BuddyFree region merged j) := by
            intro j hlow hhigh
            have hne := buddyOf_ne hstart haddress (show j < 32 by omega)
            rw [BuddyFree, BuddyFree, htests.buddyOf_eq, htests.isElementFree_eq,
              horders _ hne]
          rw [ih (htests.startAddress_eq ▸ hstart) (htests.maxOrder_eq ▸ hmax)
            (by rw [htests.maxOrder_eq]; omega) hrest, not_iff_not]
          exact htests.mergesDown_iff hfree hlower hbuddy

/-! ## The check -/

/-- What a call that returns has done: only the bit of the merged block is
cleared. -/
theorem freeBuddy_eq_ok (hfree : region.freeBuddy address order = .ok region') :
    u32 (order + region.minOrder) ≤ region.maxOrder ∧
      ∃ block order' merged,
        mergeLoop (region.maxOrder - u32 (order + region.minOrder))
          (u32 (order + region.minOrder)) address region = .ok (block, order', merged) ∧
        ∀ page, region'.elementsAllocated.bit page =
          if page = region.getBitmapIndex block then false
          else region.elementsAllocated.bit page := by
  rw [BuddyAllocatedMemoryRegion.freeBuddy] at hfree
  split at hfree
  · cases hfree
  simp only at hfree
  split at hfree
  · cases hfree
  next horder =>
    obtain ⟨free, -, hfree⟩ := bind_eq_ok.mp hfree
    split at hfree
    · cases hfree
    obtain ⟨⟨block, order', merged⟩, hloop, hfree⟩ := bind_eq_ok.mp hfree
    obtain ⟨marked, hmark, hfree⟩ := bind_eq_ok.mp hfree
    cases hfree
    refine ⟨not_lt.mp horder, block, order', merged, hloop, fun page => ?_⟩
    have htests := (mergeLoop_le hloop).2
    have hindex : (merged.setOrder block order').getBitmapIndex block =
        region.getBitmapIndex block := by
      rw [getBitmapIndex, getBitmapIndex, ← htests.startAddress_eq]
      rfl
    have hbit := @bit_of_markElementFree _ _ block page hmark
    rw [hindex] at hbit
    have hbits : (merged.setOrder block order').elementsAllocated = region.elementsAllocated :=
      htests.bits_eq
    rw [hbits] at hbit
    exact hbit

theorem isElementFree_ne_alreadyFree : region.isElementFree address ≠ .error alreadyFree := by
  rw [isElementFree]
  by_cases hindex : region.getBitmapIndex address < region.elementsAllocated.numElements
  · rw [Bitfield.isBitSet_of_lt hindex]
    exact fun herror => by cases herror
  · rw [Bitfield.isBitSet_of_le (not_lt.mp hindex), error_bind]
    decide

theorem removeLoop_ne_alreadyFree {elements : ℕ → BuddyElement} {toRemove fuel cur : ℕ} :
    removeLoop elements toRemove fuel cur ≠ .error alreadyFree := by
  induction fuel generalizing cur with
  | zero => exact fun herror => by cases herror
  | succ fuel ih =>
      rw [removeLoop]
      split
      · exact fun herror => by cases herror
      split
      · exact fun herror => by cases herror
      split
      · exact fun herror => by cases herror
      · exact ih

theorem error_of_bind {α β : Type} {outcome : Outcome α} {next : α → Outcome β} {halt : Halt}
    (herror : (outcome >>= next) = .error halt) :
    outcome = .error halt ∨ ∃ value, outcome = .ok value ∧ next value = .error halt := by
  cases outcome with
  | error other =>
      rw [error_bind] at herror
      exact Or.inl (congrArg Except.error (Except.error.inj herror))
  | ok value => exact Or.inr ⟨value, rfl, herror⟩

theorem removeFromList_ne_alreadyFree {toRemove : ℕ} :
    region.removeFromList order toRemove ≠ .error alreadyFree := by
  intro herror
  rw [removeFromList] at herror
  split at herror
  · cases herror
  · rcases error_of_bind herror with hloop | ⟨_, _, hok⟩
    · exact removeLoop_ne_alreadyFree hloop
    · cases hok

theorem mergeLoop_ne_alreadyFree {remaining : ℕ} :
    mergeLoop remaining order address region ≠ .error alreadyFree := by
  induction remaining generalizing region address order with
  | zero => exact fun herror => by cases herror
  | succ remaining ih =>
      intro herror
      rw [mergeLoop] at herror
      rcases error_of_bind herror with hfree | ⟨free, -, herror⟩
      · exact isElementFree_ne_alreadyFree hfree
      split at herror
      · cases herror
      split at herror
      · cases herror
      rcases error_of_bind herror with hremove | ⟨removed, -, herror⟩
      · exact removeFromList_ne_alreadyFree hremove
      · exact ih herror

theorem markElementFree_ne_alreadyFree : region.markElementFree address ≠ .error alreadyFree := by
  rw [markElementFree, Bitfield.clearBit]
  split
  · exact fun herror => by cases herror
  · exact fun herror => absurd (Except.error.inj herror) (by decide)

/-- With the bit set the call gets past its check. -/
theorem freeBuddy_ne_alreadyFree (hset : region.isElementFree address = .ok false) :
    region.freeBuddy address order ≠ .error alreadyFree := by
  intro herror
  rw [BuddyAllocatedMemoryRegion.freeBuddy] at herror
  split at herror
  · exact absurd (Except.error.inj herror) (by decide)
  simp only at herror
  split at herror
  · exact absurd (Except.error.inj herror) (by decide)
  rw [hset, ok_bind, if_neg Bool.false_ne_true] at herror
  rcases error_of_bind herror with hloop | ⟨_, -, herror⟩
  · exact mergeLoop_ne_alreadyFree hloop
  rcases error_of_bind herror with hmark | ⟨_, -, herror⟩
  · exact markElementFree_ne_alreadyFree hmark
  · cases herror

/-- An address of a page of the region. -/
structure PageOf (region : BuddyAllocatedMemoryRegion) (address : ℕ) : Prop where
  aligned : pageSize ∣ address
  start_le : region.startAddress ≤ address
  lt_end : address < region.startAddress + region.size

theorem PageOf.isElementFree_eq (hpage : PageOf region address) (hplaced : Placed region) :
    region.isElementFree address =
      .ok (!region.elementsAllocated.bit (region.getBitmapIndex address)) := by
  obtain ⟨-, hlow, hhigh⟩ := hpage
  rw [hplaced.size_eq] at hhigh
  have hend := hplaced.end_lt
  have hpow : 2 ^ region.maxOrder = 2 ^ (region.maxOrder - pageShift) * 2 ^ pageShift := by
    rw [← pow_add, Nat.sub_add_cancel hplaced.minOrder_le]
  have hindex : region.getBitmapIndex address < region.elementsAllocated.numElements := by
    rw [getBitmapIndex, sub32_of_le (by omega) hlow]
    exact (Nat.div_lt_of_lt_mul (by rw [Nat.mul_comm, ← hpow]; omega)).trans_le hplaced.bits_le
  rw [isElementFree, Bitfield.isBitSet_of_lt hindex, ok_bind]

/-- An address is rejected with every order exactly if its bit is clear. -/
theorem PageOf.rejects_iff (hpage : PageOf region address) (hplaced : Placed region) :
    (∀ order, Rejects region address order) ↔
      region.elementsAllocated.bit (region.getBitmapIndex address) = false := by
  have hfree := hpage.isElementFree_eq hplaced
  constructor
  · intro hrejects
    have hzero := hrejects 0
    have hmin : u32 (0 + region.minOrder) = pageShift := by
      rw [Nat.zero_add, hplaced.minOrder_eq]
      rfl
    rw [Rejects, hmin, if_neg (not_lt.mpr hplaced.minOrder_le)] at hzero
    by_contra hset
    rw [Bool.not_eq_false] at hset
    rw [hset] at hfree
    exact freeBuddy_ne_alreadyFree hfree hzero
  · intro hclear order
    rw [hclear] at hfree
    have hne : address ≠ 0 := by
      have hpos := hplaced.start_pos
      have hle := hpage.start_le
      omega
    rw [Rejects, BuddyAllocatedMemoryRegion.freeBuddy, if_neg hne]
    simp only
    split
    · rfl
    · rw [hfree, ok_bind, Bool.not_false, if_pos rfl]
      rfl

/-! ## Runs -/

/-- Everything that is not a live block is rejected. -/
def RejectsOthers (state : BuddyState) : Prop :=
  ∀ address, PageOf state.region address →
    (∀ allocation ∈ state.live, allocation.address ≠ address) →
      ∀ order, Rejects state.region address order

/-- The step gives back a block that merges with a lower buddy. -/
def MergesDownStep (state state' : BuddyState) : Prop :=
  ∃ (region region' : BuddyAllocatedMemoryRegion) (front back : List Allocation)
    (allocation : Allocation),
    state = ⟨region, front ++ allocation :: back⟩ ∧ state' = ⟨region', front ++ back⟩ ∧
      region.freeBuddy allocation.address allocation.order = .ok region' ∧
      MergesDown region allocation.address (u32 (allocation.order + region.minOrder))

/-- No bit is set but those of the live blocks. -/
def NoStaleBit (state : BuddyState) : Prop :=
  ∀ address, PageOf state.region address →
    (∀ allocation ∈ state.live, allocation.address ≠ address) →
      state.region.elementsAllocated.bit (state.region.getBitmapIndex address) = false

theorem rejectsOthers_iff {state : BuddyState} (hplaced : Placed state.region) :
    RejectsOthers state ↔ NoStaleBit state := by
  refine forall_congr' fun address => forall_congr' fun hpage => forall_congr' fun _ => ?_
  exact hpage.rejects_iff hplaced

theorem SamePlace.pageOf_iff (hsame : SamePlace region region') :
    PageOf region' address ↔ PageOf region address := by
  constructor
  · rintro ⟨haligned, hlow, hhigh⟩
    rw [hsame.startAddress_eq] at hlow hhigh
    rw [hsame.size_eq] at hhigh
    exact ⟨haligned, hlow, hhigh⟩
  · rintro ⟨haligned, hlow, hhigh⟩
    refine ⟨haligned, ?_, ?_⟩
    · rwa [hsame.startAddress_eq]
    · rwa [hsame.startAddress_eq, hsame.size_eq]

theorem SamePlace.getBitmapIndex_eq (hsame : SamePlace region region') :
    region'.getBitmapIndex address = region.getBitmapIndex address := by
  rw [getBitmapIndex, hsame.startAddress_eq]
  rfl

/-- Pages are told apart by their bits. -/
theorem PageOf.eq_of_index {other : ℕ} (hpage : PageOf region address)
    (hother : PageOf region other) (hplaced : Placed region)
    (hindex : region.getBitmapIndex address = region.getBitmapIndex other) : address = other := by
  have hend := hplaced.end_lt
  have hleft := hpage.lt_end
  have hright := hother.lt_end
  rw [hplaced.size_eq] at hleft hright
  rw [getBitmapIndex, getBitmapIndex, sub32_of_le (by omega) hpage.start_le,
    sub32_of_le (by omega) hother.start_le] at hindex
  have hfirst := Nat.dvd_sub hpage.aligned hplaced.start_aligned
  have hsecond := Nat.dvd_sub hother.aligned hplaced.start_aligned
  have hsame := Nat.div_left_inj hfirst hsecond |>.mp hindex
  have hlow := hpage.start_le
  have hlow' := hother.start_le
  omega

/-- A block starts at a page of the region. -/
theorem Partition.pageOf {live held : List Block}
    (hpartition : Partition region cells live held) (hlow : region.startAddress ≤ address)
    (hblock : region.blockAt address order ∈ held ++ (region.freeBlocks cells ++ live)) :
    PageOf region address := by
  have hplaced := hpartition.placed
  have hstart := hpartition.tiling.start_lt hblock
  have hdvd : pageSize ∣ (region.blockAt address order).start :=
    (pow_dvd_pow 2 (hpartition.order_ge _ hblock)).trans
      (hpartition.tiling.aligned _ hblock)
  simp only [blockAt] at hstart hdvd
  refine ⟨?_, hlow, by rw [hplaced.size_eq]; omega⟩
  rw [← Nat.sub_add_cancel hlow]
  exact Nat.dvd_add hdvd hplaced.start_aligned

theorem Invariant.mem_blocks {state : BuddyState} (_ : Invariant state cells)
    {allocation : Allocation} (hmem : allocation ∈ state.live) :
    allocation.block state.region ∈
      [] ++ (state.region.freeBlocks cells ++ state.live.map (Allocation.block state.region)) :=
  List.mem_append_right [] (List.mem_append_right _ (List.mem_map_of_mem hmem))

theorem Invariant.pageOf {state : BuddyState} (hinvariant : Invariant state cells)
    {allocation : Allocation} (hmem : allocation ∈ state.live) :
    PageOf state.region allocation.address :=
  hinvariant.partition.pageOf (hinvariant.live_above allocation hmem)
    (hinvariant.mem_blocks hmem)

/-- The bit of a live block is set. -/
theorem Invariant.bit_live {state : BuddyState} (hinvariant : Invariant state cells)
    {allocation : Allocation} (hmem : allocation ∈ state.live) :
    state.region.elementsAllocated.bit (state.region.getBitmapIndex allocation.address) =
      true := by
  rw [hinvariant.partition.getBitmapIndex_eq (hinvariant.live_above allocation hmem)
    (hinvariant.mem_blocks hmem)]
  exact hinvariant.partition.live_bit _ (List.mem_map_of_mem hmem)

/-- A block that is given back is not live any more. -/
theorem Invariant.address_ne {front back : List Allocation} {allocation : Allocation}
    (hinvariant : Invariant ⟨region, front ++ allocation :: back⟩ cells) :
    ∀ other ∈ front ++ back, other.address ≠ allocation.address := by
  intro other hmem heq
  have hperm : (front ++ allocation :: back).Perm (allocation :: (front ++ back)) :=
    List.perm_middle
  have htiling := hinvariant.partition.tiling
  rw [List.nil_append] at htiling
  have hlive := (hperm.map (Allocation.block region)).nodup_iff.mp
    (List.nodup_append.mp htiling.nodup).2.1
  have hblock : ∀ held ∈ front ++ allocation :: back, held.block region ∈
      region.freeBlocks cells ++ (front ++ allocation :: back).map (Allocation.block region) :=
    fun held hheld => List.mem_append_right _ (List.mem_map_of_mem hheld)
  have hsame : other.block region = allocation.block region :=
    htiling.eq_of_start (hblock other (hperm.mem_iff.mpr (List.mem_cons_of_mem _ hmem)))
      (hblock allocation (hperm.mem_iff.mpr List.mem_cons_self))
      (by simp only [Allocation.block, blockAt, heq])
  exact (List.nodup_cons.mp hlive).1 (hsame ▸ List.mem_map_of_mem hmem)

theorem Invariant.order_le {allocation : Allocation} (hinvariant : Invariant state cells)
    (hmem : allocation ∈ state.live) : allocation.order + pageShift ≤ state.region.maxOrder := by
  have hle := hinvariant.partition.tiling.order_le (hinvariant.mem_blocks hmem)
  rwa [block_of_placed hinvariant.partition.placed] at hle

/-- The order of a live block as `FreeBuddy` counts it. -/
theorem Invariant.order_eq {allocation : Allocation} (hinvariant : Invariant state cells)
    (hmem : allocation ∈ state.live) :
    u32 (allocation.order + state.region.minOrder) = allocation.order + pageShift := by
  have hle := hinvariant.order_le hmem
  have hmax := hinvariant.partition.placed.maxOrder_lt
  rw [hinvariant.partition.placed.minOrder_eq]
  exact u32_of_lt (by omega)

/-- The merged block starts at a page. -/
theorem Invariant.pageOf_merged {front back : List Allocation} {allocation : Allocation}
    {order' : ℕ} {merged : BuddyAllocatedMemoryRegion}
    (hinvariant : Invariant ⟨region, front ++ allocation :: back⟩ cells)
    (hloop : mergeLoop (region.maxOrder - (allocation.order + pageShift))
      (allocation.order + pageShift) allocation.address region = .ok (block, order', merged)) :
    PageOf region block := by
  have hmem : allocation ∈ front ++ allocation :: back := by simp
  have hpartition := hinvariant.partition
  have hperm : (front ++ allocation :: back).Perm (allocation :: (front ++ back)) :=
    List.perm_middle
  have hlive := hperm.map (Allocation.block region)
  rw [List.map_cons, block_of_placed hpartition.placed] at hlive
  obtain ⟨block', _, merged', cells', hrun, hsame, hlow, hheld, -⟩ :=
    mergeLoop_spec (hpartition.release hlive) (hinvariant.live_above allocation hmem)
      (Nat.add_sub_cancel' (hinvariant.order_le hmem))
  rw [hloop] at hrun
  cases hrun
  rw [← hsame.pageOf_iff]
  rw [← hsame.blockAt_eq] at hheld
  exact hheld.pageOf (hsame.startAddress_eq ▸ hlow) List.mem_cons_self

/-- The step that gives a block back leaves no bit set exactly if it does not
merge down. -/
theorem Invariant.noStaleBit_free_iff {front back : List Allocation} {allocation : Allocation}
    (hinvariant : Invariant ⟨region, front ++ allocation :: back⟩ cells)
    (hstale : NoStaleBit ⟨region, front ++ allocation :: back⟩)
    (hfree : region.freeBuddy allocation.address allocation.order = .ok region')
    (hsame : SamePlace region region') :
    NoStaleBit ⟨region', front ++ back⟩ ↔
      ¬ MergesDown region allocation.address (u32 (allocation.order + region.minOrder)) := by
  have hplaced : Placed region := hinvariant.partition.placed
  have hmem : allocation ∈ front ++ allocation :: back := by simp
  have hpage : PageOf region allocation.address := hinvariant.pageOf hmem
  have hend := hplaced.end_lt
  have hhigh := hpage.lt_end
  rw [hplaced.size_eq] at hhigh
  obtain ⟨horder, block, order', merged, hloop, hbits⟩ := freeBuddy_eq_ok hfree
  rw [← mergeLoop_eq_iff hpage.start_le (by omega) hplaced.maxOrder_lt
    (Nat.add_sub_cancel' horder) hloop]
  constructor
  · intro hclear
    -- the bit of the block was set, and only that of the merged block is cleared
    have hbit := hclear allocation.address (hsame.pageOf_iff.mpr hpage) hinvariant.address_ne
    simp only [hsame.getBitmapIndex_eq, hbits] at hbit
    split at hbit
    · next hindex =>
        rw [hinvariant.order_eq hmem] at hloop
        exact ((hpage.eq_of_index (hinvariant.pageOf_merged hloop) hplaced) hindex).symm
    · rw [hinvariant.bit_live hmem] at hbit
      exact absurd hbit.symm Bool.false_ne_true
  · rintro rfl address hother hlive
    have hpage' := hsame.pageOf_iff.mp hother
    simp only [hsame.getBitmapIndex_eq, hbits]
    split
    · rfl
    · next hne =>
        refine hstale address hpage' fun other hmem heq => ?_
        rcases List.mem_append.mp hmem with hfront | hback
        · exact hlive other (List.mem_append_left _ hfront) heq
        · rcases List.mem_cons.mp hback with rfl | hback
          · exact hne (by rw [heq])
          · exact hlive other (List.mem_append_right _ hback) heq

/-- A step that does not merge down leaves no bit set. -/
theorem BuddyStep.noStaleBit (hstep : BuddyStep NoWrap state state')
    (hinvariant : Invariant state cells) (hstale : NoStaleBit state)
    (hup : ¬ MergesDownStep state state') : NoStaleBit state' := by
  obtain ⟨_, hinvariant', hsame, -⟩ := hstep.invariant hinvariant
  cases hstep with
  | @allocate region region' live order ret hwrap hcall hret =>
      intro address hpage hlive
      have hpage' := hsame.pageOf_iff.mp hpage
      rw [hsame.getBitmapIndex_eq]
      by_contra hset
      rw [Bool.not_eq_false] at hset
      rcases bit_of_allocateBuddy hcall hret hset with hindex | hbit
      · have hmem : (⟨ret, order⟩ : Allocation) ∈ ⟨ret, order⟩ :: live := List.mem_cons_self
        have hret' : PageOf region ret := hsame.pageOf_iff.mp (hinvariant'.pageOf hmem)
        exact hlive _ hmem
          ((hpage'.eq_of_index hret' hinvariant.partition.placed hindex).symm)
      · have hclear := hstale address hpage' fun other hmem =>
          hlive other (List.mem_cons_of_mem _ hmem)
        rw [hclear] at hbit
        exact Bool.false_ne_true hbit
  | @exhausted region region' live order hwrap hcall =>
      rw [allocateBuddy_eq_zero hcall]
      exact hstale
  | @free region region' front back allocation hcall =>
      exact (hinvariant.noStaleBit_free_iff hstale hcall hsame).mpr fun hdown =>
        hup ⟨region, region', front, back, allocation, rfl, rfl, hcall, hdown⟩
  | write houtside =>
      exact fun address hpage hlive => hstale address (hsame.pageOf_iff.mp hpage) hlive

/-- A step that merges down leaves a bit set. -/
theorem MergesDownStep.not_noStaleBit (hdown : MergesDownStep state state')
    (hinvariant : Invariant state cells) (hstale : NoStaleBit state) : ¬ NoStaleBit state' := by
  obtain ⟨region, region', front, back, allocation, rfl, rfl, hcall, hdown⟩ := hdown
  have hstep : BuddyStep NoWrap ⟨region, front ++ allocation :: back⟩ ⟨region', front ++ back⟩ :=
    .free hcall
  obtain ⟨_, -, hsame, -⟩ := hstep.invariant hinvariant
  rw [hinvariant.noStaleBit_free_iff hstale hcall hsame]
  exact not_not.mpr hdown

variable {states : ℕ → BuddyState} {n : ℕ} {cells₀ : ℕ → List ℕ}

theorem trace_invariant (hinitial : Invariant (states 0) cells₀)
    (hsteps : ∀ k < n, BuddyStep NoWrap (states k) (states (k + 1))) :
    ∀ k ≤ n, ∃ cells, Invariant (states k) cells := by
  intro k hk
  induction k with
  | zero => exact ⟨cells₀, hinitial⟩
  | succ k ih =>
      obtain ⟨cells, hinvariant⟩ := ih (Nat.le_of_succ_le hk)
      obtain ⟨cells', hinvariant', -⟩ := (hsteps k hk).invariant hinvariant
      exact ⟨cells', hinvariant'⟩

theorem trace_noStaleBit_iff (hinitial : Invariant (states 0) cells₀)
    (hstale : NoStaleBit (states 0))
    (hsteps : ∀ k < n, BuddyStep NoWrap (states k) (states (k + 1))) :
    (∀ k ≤ n, NoStaleBit (states k)) ↔ ∀ k < n, ¬ MergesDownStep (states k) (states (k + 1)) := by
  have hinvariant := trace_invariant hinitial hsteps
  constructor
  · intro hclear k hk hdown
    obtain ⟨cells, hcells⟩ := hinvariant k hk.le
    exact hdown.not_noStaleBit hcells (hclear k hk.le) (hclear (k + 1) hk)
  · intro hup k hk
    induction k with
    | zero => exact hstale
    | succ k ih =>
        obtain ⟨cells, hcells⟩ := hinvariant k (Nat.le_of_succ_le hk)
        exact (hsteps k hk).noStaleBit hcells (ih (Nat.le_of_succ_le hk)) (hup k hk)

/-- In a run everything that is not a live block is rejected in every state
exactly if no block given back merges with a lower buddy. -/
theorem rejectsOthers_iff_not_mergesDown {elements : ℕ → BuddyElement} {start size : ℕ}
    {initial : BuddyAllocatedMemoryRegion}
    (hpos : 0 < start) (hstart : start < 2 ^ 32)
    (hsize : ∃ exponent < 32, size = 2 ^ exponent) (hpage : pageSize ≤ size)
    (hnew : new elements start size pageShift = .ok initial)
    (hfirst : states 0 = ⟨initial, []⟩)
    (hsteps : ∀ k < n, BuddyStep NoWrap (states k) (states (k + 1))) :
    (∀ k ≤ n, RejectsOthers (states k)) ↔
      ∀ k < n, ¬ MergesDownStep (states k) (states (k + 1)) := by
  obtain ⟨exponent, hhigh, rfl⟩ := hsize
  have hlow : pageShift ≤ exponent := by
    have hpow : 2 ^ pageShift ≤ 2 ^ exponent := hpage
    exact (Nat.pow_le_pow_iff_right (by norm_num)).mp hpow
  obtain ⟨cells, hpartition, -⟩ := new_eq_ok hpos hstart hlow hhigh hnew
  have hinitial : Invariant (states 0) cells := by
    rw [hfirst]
    exact ⟨hpartition, List.forall_mem_nil _⟩
  have hstale : NoStaleBit (states 0) := by
    intro address _ _
    rw [hfirst]
    exact bit_of_new hnew
  rw [← trace_noStaleBit_iff hinitial hstale hsteps]
  refine forall_congr' fun k => forall_congr' fun hk => ?_
  obtain ⟨cells', hinvariant⟩ := trace_invariant hinitial hsteps k hk
  exact rejectsOthers_iff hinvariant.partition.placed

/-! ## Two pages -/

/-- The region that a call returns. -/
def regionOf (outcome : Outcome BuddyAllocatedMemoryRegion) : BuddyAllocatedMemoryRegion :=
  match outcome with
  | .ok region => region
  | .error _ => twoPages

def oneAllocated : BuddyAllocatedMemoryRegion := regionOf ((twoPages.allocateBuddy 0).map Prod.snd)

def givenBack : BuddyAllocatedMemoryRegion := regionOf (oneAllocated.freeBuddy 0x100000 0)

/-- The lower page is handed out and given back; it merges with the upper one. -/
def upwardTrace : ℕ → BuddyState
  | 0 => ⟨twoPages, []⟩
  | 1 => ⟨oneAllocated, [⟨0x100000, 0⟩]⟩
  | _ => ⟨givenBack, []⟩

theorem upwardTrace_steps : ∀ k < 2, BuddyStep NoWrap (upwardTrace k) (upwardTrace (k + 1)) := by
  intro k hk
  interval_cases k
  · exact .allocate (by decide : 0 + pageShift < 2 ^ 32)
      (show twoPages.allocateBuddy 0 = .ok (0x100000, oneAllocated) from rfl) (by decide)
  · exact @BuddyStep.free _ oneAllocated givenBack [] [] ⟨0x100000, 0⟩ rfl

theorem rejectsOthers_iff_not_mergesDown_upward :
    (∀ k ≤ 2, RejectsOthers (upwardTrace k)) ↔
      ∀ k < 2, ¬ MergesDownStep (upwardTrace k) (upwardTrace (k + 1)) :=
  rejectsOthers_iff_not_mergesDown (by decide) (by decide) ⟨13, by decide, rfl⟩ (by decide)
    (show new (fun _ => ⟨0, 0⟩) 0x100000 0x2000 pageShift = .ok twoPages from rfl) rfl
    upwardTrace_steps

def bothAllocated : BuddyAllocatedMemoryRegion :=
  regionOf ((oneAllocated.allocateBuddy 0).map Prod.snd)

def upperAllocated : BuddyAllocatedMemoryRegion := regionOf (bothAllocated.freeBuddy 0x100000 0)

def mergedDown : BuddyAllocatedMemoryRegion := regionOf (upperAllocated.freeBuddy 0x101000 0)

/-- Both pages are handed out and given back, the upper one last; its address is
accepted once more. -/
theorem mergedDown_accepts_again :
    ¬ ∀ (elements : ℕ → BuddyElement) (start size : ℕ)
      (initial : BuddyAllocatedMemoryRegion) (state : BuddyState),
      0 < start → start < 2 ^ 32 → (∃ exponent < 32, size = 2 ^ exponent) →
      pageSize ≤ size → new elements start size pageShift = .ok initial →
      BuddyRun NoWrap ⟨initial, []⟩ state → RejectsOthers state := by
  intro hall
  have hone : BuddyRun NoWrap ⟨twoPages, []⟩ ⟨oneAllocated, [⟨0x100000, 0⟩]⟩ :=
    .single (.allocate (by decide : 0 + pageShift < 2 ^ 32)
      (show twoPages.allocateBuddy 0 = .ok (0x100000, oneAllocated) from rfl) (by decide))
  have hboth : BuddyRun NoWrap ⟨twoPages, []⟩ ⟨bothAllocated, [⟨0x101000, 0⟩, ⟨0x100000, 0⟩]⟩ :=
    hone.tail (.allocate (by decide : 0 + pageShift < 2 ^ 32)
      (show oneAllocated.allocateBuddy 0 = .ok (0x101000, bothAllocated) from rfl) (by decide))
  have hupper : BuddyRun NoWrap ⟨twoPages, []⟩ ⟨upperAllocated, [⟨0x101000, 0⟩]⟩ :=
    hboth.tail (@BuddyStep.free _ bothAllocated upperAllocated [⟨0x101000, 0⟩] []
      ⟨0x100000, 0⟩ rfl)
  have hmerged : BuddyRun NoWrap ⟨twoPages, []⟩ ⟨mergedDown, []⟩ :=
    hupper.tail (@BuddyStep.free _ upperAllocated mergedDown [] [] ⟨0x101000, 0⟩ rfl)
  have hrejects := hall (fun _ => ⟨0, 0⟩) 0x100000 0x2000 twoPages ⟨mergedDown, []⟩
    (by decide) (by decide) ⟨13, by decide, rfl⟩ (by decide) rfl hmerged
  have hagain : Rejects mergedDown 0x101000 0 :=
    hrejects 0x101000 ⟨by decide, by decide, by decide⟩ (List.forall_mem_nil _) 0
  have hset : mergedDown.isElementFree 0x101000 = .ok false := rfl
  exact freeBuddy_ne_alreadyFree hset hagain

end GeexOS.Buddy
