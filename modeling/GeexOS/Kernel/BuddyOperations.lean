import GeexOS.Kernel.BuddyPartition

/-!
# The operations of a buddy region keep the partition

One lemma for each elementary change of the free lists, one for each loop, and
from these the specifications of `AllocateBuddy` and `FreeBuddy`.
-/

namespace GeexOS.Buddy

open GeexOS.Words
open GeexOS.Halting
open GeexOS.DataStructures
open GeexOS.Linked
open GeexOS.Dyadic
open BuddyAllocatedMemoryRegion

variable {region region' : BuddyAllocatedMemoryRegion}
variable {cells cells' : ℕ → List ℕ} {live live' held held' : List Block}
variable {block other : Block} {front back rest : List ℕ}
variable {address order i j : ℕ}

/-! ## Changes of a free list -/

theorem freeBlocks_shrink (hi : i ≤ region.maxOrder)
    (hperm : (cells i).Perm (address :: rest)) :
    (region.freeBlocks cells).Perm
      (region.blockAt address i :: region.freeBlocks (Function.update cells i rest)) :=
  freeBlocks_perm_cons hi (by rwa [Function.update_self])
    (fun _ hne => (Function.update_of_ne hne _ _).symm)

theorem freeBlocks_push (hi : i ≤ region.maxOrder) :
    (region.freeBlocks (Function.update cells i (address :: cells i))).Perm
      (region.blockAt address i :: region.freeBlocks cells) :=
  freeBlocks_perm_cons hi (by rw [Function.update_self])
    (fun _ hne => Function.update_of_ne hne _ _)

/-- No two buddies are free at the same order. -/
def Unfragmented (region : BuddyAllocatedMemoryRegion) (cells : ℕ → List ℕ) : Prop :=
  Coalesced region.maxOrder (region.freeBlocks cells)

theorem Unfragmented.congr (hunfragmented : Unfragmented region cells)
    (hsame : SamePlace region region') : Unfragmented region' cells := by
  rw [Unfragmented, hsame.freeBlocks_eq, hsame.maxOrder_eq]
  exact hunfragmented

theorem Unfragmented.shrink (hunfragmented : Unfragmented region cells)
    (hi : i ≤ region.maxOrder) (hperm : (cells i).Perm (address :: rest)) :
    Unfragmented region (Function.update cells i rest) :=
  hunfragmented.subset fun _ hmem =>
    (freeBlocks_shrink hi hperm).mem_iff.mpr (List.mem_cons_of_mem _ hmem)

theorem Unfragmented.push (hunfragmented : Unfragmented region cells)
    (hi : i ≤ region.maxOrder)
    (hbuddy : i < region.maxOrder →
      ⟨buddy (region.blockAt address i).start i, i⟩ ∉ region.freeBlocks cells) :
    Unfragmented (region.pushElement i address)
      (Function.update cells i (address :: cells i)) :=
  Coalesced.insert hunfragmented hbuddy (freeBlocks_push hi)

namespace Partition

/-- What remains to be shown when a block leaves a free list: the links. -/
theorem shrink (hpartition : Partition region cells live held)
    (hi : i ≤ region.maxOrder) (hperm : (cells i).Perm (address :: rest))
    {freeElements' : ℕ → ℕ} {elements' : ℕ → BuddyElement}
    (hchain : ∀ order ≤ region.maxOrder,
      Chain (fun element => (elements' element).next) 0 (freeElements' order)
        (Function.update cells i rest order))
    (horder : ∀ element, (elements' element).order = (region.elements element).order) :
    Partition { region with freeElements := freeElements', elements := elements' }
      (Function.update cells i rest) live (region.blockAt address i :: held) := by
  have hfree := freeBlocks_shrink hi hperm
  have hall : (held ++ (region.freeBlocks cells ++ live)).Perm
      (region.blockAt address i :: held ++
        (region.freeBlocks (Function.update cells i rest) ++ live)) :=
    ((hfree.append_right live).append_left held).trans List.perm_middle
  have hsubset : ∀ order, ∀ element ∈ Function.update cells i rest order,
      element ∈ cells order := by
    intro order element hmem
    by_cases heq : order = i
    · subst heq
      rw [Function.update_self] at hmem
      exact hperm.mem_iff.mpr (List.mem_cons_of_mem _ hmem)
    · rwa [Function.update_of_ne heq] at hmem
  exact
    { placed := hpartition.placed.congr ⟨rfl, rfl, rfl, rfl, rfl⟩
      chain := hchain
      element_order := fun order hle element hmem =>
        (horder element).trans (hpartition.element_order order hle element
          (hsubset order element hmem))
      start_le := fun order hle element hmem =>
        hpartition.start_le order hle element (hsubset order element hmem)
      tiling := hpartition.tiling.perm hall
      order_ge := fun block hmem =>
        hpartition.order_ge block (hall.mem_iff.mpr hmem)
      free_bit := fun block hmem =>
        hpartition.free_bit block (hfree.mem_iff.mpr (List.mem_cons_of_mem _ hmem))
      live_bit := hpartition.live_bit }

/-- Taking the first block off a free list. -/
theorem pop (hpartition : Partition region cells live held)
    (hi : i ≤ region.maxOrder) (hcells : cells i = address :: rest) :
    Partition (region.popElement i) (Function.update cells i rest) live
      (region.blockAt address i :: held) := by
  have hlist := hpartition.chain i hi
  rw [hcells] at hlist
  obtain ⟨hhead, _, hrest⟩ := chain_cons.mp hlist
  refine hpartition.shrink hi (by rw [hcells]) ?_ (fun _ => rfl)
  intro order hle
  by_cases heq : order = i
  · subst heq
    rw [Function.update_self, Function.update_self, hhead]
    exact hrest
  · rw [Function.update_of_ne heq, Function.update_of_ne heq]
    exact hpartition.chain order hle

/-- Putting a held block with a cleared bit on its free list. -/
theorem push (hpartition : Partition region cells live
      (region.blockAt address i :: held))
    (hi : i ≤ region.maxOrder) (hstart : region.startAddress ≤ address)
    (hclear : region.blockBit (region.blockAt address i) = false) :
    Partition (region.pushElement i address)
      (Function.update cells i (address :: cells i)) live held := by
  have hfresh : ∀ order ≤ region.maxOrder, address ∉ cells order := by
    intro order hle hmem
    apply hpartition.held_notMem hle hmem
    simp only [blockAt]
    omega
  have hfree : (region.freeBlocks (Function.update cells i (address :: cells i))).Perm
      (region.blockAt address i :: region.freeBlocks cells) := freeBlocks_push hi
  have hall : (region.blockAt address i :: held ++
      (region.freeBlocks cells ++ live)).Perm
      (held ++ (region.freeBlocks
        (Function.update cells i (address :: cells i)) ++ live)) :=
    List.perm_middle.symm.trans ((hfree.symm.append_right live).append_left held)
  have hlinks : ∀ order ≤ region.maxOrder, ∀ element ∈ cells order,
      (region.pushElement i address).elements element = region.elements element := by
    intro order hle element hmem
    have hne : element ≠ address := fun heq => hfresh order hle (heq ▸ hmem)
    exact Function.update_of_ne hne _ _
  have hself : (region.pushElement i address).elements address =
      ⟨i, region.freeElements i⟩ := Function.update_self _ _ _
  constructor
  · exact hpartition.placed.congr ⟨rfl, rfl, rfl, rfl, rfl⟩
  · intro order hle
    by_cases heq : order = i
    · subst heq
      simp only [pushElement, Function.update_self]
      refine (hpartition.chain order hle).push ?_ ?_ ?_
      · have hpos := hpartition.placed.start_pos
        omega
      · exact congrArg BuddyElement.next hself
      · exact fun element hmem => congrArg BuddyElement.next (hlinks order hle element hmem)
    · simp only [pushElement, Function.update_of_ne heq]
      exact (hpartition.chain order hle).congr fun element hmem =>
        congrArg BuddyElement.next (hlinks order hle element hmem)
  · intro order hle element hmem
    by_cases heq : order = i
    · subst heq
      rw [Function.update_self] at hmem
      rcases List.mem_cons.mp hmem with rfl | hmem
      · rw [hself]
      · rw [hlinks order hle element hmem]
        exact hpartition.element_order order hle element hmem
    · rw [Function.update_of_ne heq] at hmem
      rw [hlinks order hle element hmem]
      exact hpartition.element_order order hle element hmem
  · intro order hle element hmem
    by_cases heq : order = i
    · subst heq
      rw [Function.update_self] at hmem
      rcases List.mem_cons.mp hmem with rfl | hmem
      · exact hstart
      · exact hpartition.start_le order hle element hmem
    · rw [Function.update_of_ne heq] at hmem
      exact hpartition.start_le order hle element hmem
  · exact hpartition.tiling.perm hall
  · exact fun block hmem => hpartition.order_ge block (hall.mem_iff.mpr hmem)
  · intro block hmem
    rcases List.mem_cons.mp (hfree.mem_iff.mp hmem) with rfl | hmem
    · exact hclear
    · exact hpartition.free_bit block hmem
  · exact hpartition.live_bit

end Partition

/-- The walk to the predecessor of the element to remove. -/
theorem removeLoop_eq {elements : ℕ → BuddyElement} {cur predecessor toRemove fuel : ℕ}
    (hchain : Chain (fun element => (elements element).next) 0 cur
      (front ++ predecessor :: toRemove :: back))
    (hfuel : front.length < fuel) :
    removeLoop elements toRemove fuel cur =
      .ok (Function.update elements predecessor
        { elements predecessor with next := (elements toRemove).next }) := by
  induction front generalizing cur fuel with
  | nil =>
      obtain ⟨fuel, rfl⟩ : ∃ less, fuel = less + 1 :=
        ⟨fuel - 1, by simp only [List.length_nil] at hfuel; omega⟩
      obtain ⟨hcur, hne, htail⟩ := chain_cons.mp hchain
      obtain ⟨hnext, hremove, _⟩ := chain_cons.mp htail
      rw [hcur, removeLoop, if_neg hne, hnext, if_neg hremove, if_pos rfl]
  | cons first front ih =>
      obtain ⟨fuel, rfl⟩ : ∃ less, fuel = less + 1 :=
        ⟨fuel - 1, by simp only [List.length_cons] at hfuel; omega⟩
      have hnodup := hchain.nodup
      obtain ⟨hcur, hne, htail⟩ := chain_cons.mp hchain
      have hsecond : (elements first).next ∈ front ++ [predecessor] := by
        cases front with
        | nil => exact List.mem_singleton.mpr (chain_cons.mp htail).1
        | cons second front =>
            rw [(chain_cons.mp htail).1]
            exact List.mem_append_left _ List.mem_cons_self
      have hremove : (elements first).next ≠ toRemove := by
        intro heq
        have hlast : toRemove ∉ front ++ [predecessor] := by
          have hsplit : first :: front ++ predecessor :: toRemove :: back =
              first :: (front ++ [predecessor]) ++ toRemove :: back := by simp
          rw [hsplit, List.nodup_append] at hnodup
          exact fun hmem => hnodup.2.2 toRemove (List.mem_cons_of_mem _ hmem)
            toRemove List.mem_cons_self rfl
        exact hlast (heq ▸ hsecond)
      have hzero : (elements first).next ≠ 0 := by
        intro heq
        have hempty := htail.start_eq_stop_iff.mp heq
        simp at hempty
      rw [hcur, removeLoop, if_neg hne, if_neg hzero, if_neg hremove]
      exact ih htail (by simp only [List.length_cons] at hfuel; omega)

/-- A free list in the address space is shorter than the walk's bound. -/
theorem Partition.length_lt (hpartition : Partition region cells live held)
    (hi : i ≤ region.maxOrder) : (cells i).length ≤ 2 ^ 32 :=
  length_le_of_nodup (hpartition.chain i hi).nodup fun address hmem => by
    have hstart := hpartition.start_le i hi address hmem
    have hlt := hpartition.address_lt
      (mem_blocks_of_free hi hmem : _ ∈ held ++ (region.freeBlocks cells ++ live))
    have hpos := Nat.two_pow_pos i
    simp only [blockAt] at hlt
    omega

/-- A cell behind the first one has a predecessor. -/
theorem exists_predecessor {first : ℕ} (hmem : address ∈ rest) :
    ∃ front predecessor back, first :: rest = front ++ predecessor :: address :: back := by
  obtain ⟨before, back, rfl⟩ := List.append_of_mem hmem
  refine ⟨(first :: before).dropLast, (first :: before).getLast (by simp), back, ?_⟩
  calc first :: (before ++ address :: back)
      = (first :: before) ++ address :: back := rfl
    _ = ((first :: before).dropLast ++ [(first :: before).getLast (by simp)]) ++
          address :: back := by rw [List.dropLast_append_getLast]
    _ = (first :: before).dropLast ++ (first :: before).getLast (by simp) ::
          address :: back := List.append_assoc _ _ _

theorem perm_unlink (front : List ℕ) (predecessor address : ℕ) (back : List ℕ) :
    (front ++ predecessor :: address :: back).Perm (address :: (front ++ predecessor :: back)) :=
  ((List.Perm.swap _ _ _).append_left front).trans List.perm_middle

/-- The next element of a block is skipped. -/
def unlinkElement (region : BuddyAllocatedMemoryRegion) (predecessor address : ℕ) :
    BuddyAllocatedMemoryRegion :=
  { region with
    elements := Function.update region.elements predecessor
      { region.elements predecessor with next := (region.elements address).next } }

/-- Unlinking a block from the one before it on its list. -/
theorem Partition.unlink {predecessor : ℕ} (hpartition : Partition region cells live held)
    (hi : i ≤ region.maxOrder) (hcells : cells i = front ++ predecessor :: address :: back) :
    Partition (unlinkElement region predecessor address)
      (Function.update cells i (front ++ predecessor :: back)) live
      (region.blockAt address i :: held) := by
  refine hpartition.shrink hi (hcells ▸ perm_unlink front predecessor address back)
    (fun order hle => ?_) fun element => ?_
  · by_cases hsame : order = i
    · subst hsame
      have hlist := hpartition.chain order hi
      rw [hcells] at hlist
      rw [Function.update_self]
      refine hlist.unlink ?_ fun other _ hne => ?_
      · rw [Function.update_self]
        rfl
      · rw [Function.update_of_ne hne]
        rfl
    · rw [Function.update_of_ne hsame]
      refine (hpartition.chain order hle).congr fun element helement => ?_
      have hne : element ≠ predecessor := by
        rintro rfl
        refine hsame (hpartition.order_unique hle hi helement ?_)
        rw [hcells]
        exact List.mem_append_right front List.mem_cons_self
      rw [Function.update_of_ne hne]
      rfl
  · by_cases hsame : element = predecessor
    · subst hsame
      rw [Function.update_self]
    · rw [Function.update_of_ne hsame]

/-- Removing a free block from its list, wherever it is. -/
theorem Partition.removeFromList (hpartition : Partition region cells live held)
    (hi : i ≤ region.maxOrder) (hmem : address ∈ cells i) :
    ∃ region' cells', region.removeFromList i address = .ok region' ∧
      SamePlace region region' ∧
      region'.elementsAllocated = region.elementsAllocated ∧
      Partition region' cells' live (region.blockAt address i :: held) ∧
      (Unfragmented region cells → Unfragmented region' cells') := by
  have hlist := hpartition.chain i hi
  cases hcells : cells i with
  | nil =>
      rw [hcells] at hmem
      exact absurd hmem List.not_mem_nil
  | cons first rest =>
      rw [hcells] at hlist
      obtain ⟨hhead, _, _⟩ := chain_cons.mp hlist
      by_cases heq : first = address
      · subst heq
        exact ⟨region.popElement i, _,
          by rw [BuddyAllocatedMemoryRegion.removeFromList, if_pos hhead],
          ⟨rfl, rfl, rfl, rfl, rfl⟩, rfl, hpartition.pop hi hcells,
          fun hunfragmented => hunfragmented.shrink hi (by rw [hcells])⟩
      · rw [hcells] at hmem
        have hrest : address ∈ rest := (List.mem_cons.mp hmem).resolve_left (Ne.symm heq)
        obtain ⟨front, predecessor, back, hwhole⟩ := @exists_predecessor _ _ first hrest
        rw [hwhole] at hlist hcells
        have hlength := hpartition.length_lt hi
        rw [hcells, List.length_append, List.length_cons] at hlength
        have hperm : (cells i).Perm (address :: (front ++ predecessor :: back)) :=
          hcells ▸ perm_unlink front predecessor address back
        refine ⟨unlinkElement region predecessor address, _, ?_, ⟨rfl, rfl, rfl, rfl, rfl⟩, rfl,
          hpartition.unlink hi hcells, fun hunfragmented => hunfragmented.shrink hi hperm⟩
        rw [BuddyAllocatedMemoryRegion.removeFromList,
          if_neg (fun h => heq (hhead.symm.trans h)), removeLoop_eq hlist (by omega), ok_bind]
        rfl

/-! ## The bit of a held block -/

theorem SamePlace.blockAt_eq (hsame : SamePlace region region') (address order : ℕ) :
    region'.blockAt address order = region.blockAt address order := by
  simp only [blockAt, hsame.startAddress_eq]

/-- After the bit of a held block has been written, other held blocks have
their old bits. -/
theorem Partition.marked
    (hpartition : Partition region cells live (block :: held)) {bits : Bitfield}
    {value : Bool}
    (hupdate : BitUpdate region.elementsAllocated bits (block.start / pageSize) value) :
    ({ region with elementsAllocated := bits } : BuddyAllocatedMemoryRegion).blockBit
        block = value ∧
      ∀ other ∈ held,
        ({ region with elementsAllocated := bits } : BuddyAllocatedMemoryRegion).blockBit
          other = region.blockBit other := by
  refine ⟨?_, fun other hmem => ?_⟩
  · exact (hupdate.bit_eq _).trans (if_pos rfl)
  · refine (hupdate.bit_eq _).trans (if_neg fun hpage => ?_)
    have heq := hpartition.eq_of_page
      (List.mem_append_left _ (List.mem_cons_of_mem _ hmem)) List.mem_cons_self hpage
    exact (List.nodup_cons.mp hpartition.tiling.nodup).1
      (heq ▸ List.mem_append_left _ hmem)

theorem Partition.markElementFree
    (hpartition : Partition region cells live (region.blockAt address i :: held))
    (hstart : region.startAddress ≤ address) :
    ∃ region', region.markElementFree address = .ok region' ∧
      SamePlace region region' ∧
      Partition region' cells live (region.blockAt address i :: held) ∧
      region'.blockBit (region.blockAt address i) = false ∧
      ∀ other ∈ held, region'.blockBit other = region.blockBit other := by
  obtain ⟨bits, hclear, hupdate⟩ :=
    Bitfield.clearBit_of_lt (hpartition.page_lt List.mem_cons_self)
  obtain ⟨hself, hothers⟩ := hpartition.marked hupdate
  refine ⟨{ region with elementsAllocated := bits }, ?_,
    ⟨rfl, rfl, rfl, rfl, hupdate.numElements_eq⟩, hpartition.bits_congr hupdate, hself, hothers⟩
  rw [BuddyAllocatedMemoryRegion.markElementFree,
    hpartition.getBitmapIndex_eq hstart List.mem_cons_self, hclear, ok_bind]

theorem Partition.markElementAllocated
    (hpartition : Partition region cells live (region.blockAt address i :: held))
    (hstart : region.startAddress ≤ address) :
    ∃ region', region.markElementAllocated address = .ok region' ∧
      SamePlace region region' ∧
      Partition region' cells live (region.blockAt address i :: held) ∧
      region'.blockBit (region.blockAt address i) = true := by
  obtain ⟨bits, hset, hupdate⟩ :=
    Bitfield.setBit_of_lt (hpartition.page_lt List.mem_cons_self)
  refine ⟨{ region with elementsAllocated := bits }, ?_,
    ⟨rfl, rfl, rfl, rfl, hupdate.numElements_eq⟩, hpartition.bits_congr hupdate,
    (hpartition.marked hupdate).1⟩
  rw [BuddyAllocatedMemoryRegion.markElementAllocated,
    hpartition.getBitmapIndex_eq hstart List.mem_cons_self, hset, ok_bind]

/-! ## Allocation -/

/-- The lower half of a split block is not free while it is held. -/
theorem Partition.upper_buddy_notMem {start : ℕ} {upper : Block}
    (hpartition : Partition region cells live (upper :: ⟨start, order⟩ :: held))
    (heven : 2 ^ (order + 1) ∣ start) :
    ⟨buddy (start + 2 ^ order) order, order⟩ ∉ region.freeBlocks cells := by
  rw [← buddy_of_even heven, buddy_buddy]
  intro hmem
  have hnodup := (List.nodup_cons.mp hpartition.tiling.nodup).2
  exact (List.nodup_cons.mp hnodup).1
    (List.mem_append_right held (List.mem_append_left live hmem))

/-- Splitting a held, marked block down to the requested order. -/
theorem splitLoop_spec {steps : ℕ}
    (hpartition : Partition region cells live [region.blockAt address (order + steps)])
    (hstart : region.startAddress ≤ address) (horder : pageShift ≤ order)
    (hbit : region.blockBit (region.blockAt address order) = true) :
    ∃ region' cells', splitLoop address order steps region = .ok region' ∧
      SamePlace region region' ∧
      Partition region' cells' live [region.blockAt address order] ∧
      region'.blockBit (region.blockAt address order) = true ∧
      (Unfragmented region cells → Unfragmented region' cells') := by
  induction steps generalizing region cells with
  | zero => exact ⟨region, cells, rfl, .refl region, hpartition, hbit, id⟩
  | succ steps ih =>
      have hwhole : Partition region cells live
          [⟨address - region.startAddress, order + steps + 1⟩] := hpartition
      have hhalves := (hwhole.split (Nat.le_add_right_of_le horder)).perm_held
        (List.Perm.swap _ _ _)
      have hlt := hhalves.address_lt List.mem_cons_self
      have hpos := Nat.two_pow_pos (order + steps)
      have hbuddy : u32 (address + 1 <<< (order + steps)) =
          address + 2 ^ (order + steps) := by
        simp only at hlt
        rw [Nat.shiftLeft_eq, Nat.one_mul]
        exact u32_of_lt (by omega)
      have hupper : region.blockAt (address + 2 ^ (order + steps)) (order + steps) =
          ⟨address - region.startAddress + 2 ^ (order + steps), order + steps⟩ := by
        simp only [blockAt, Block.mk.injEq, and_true]
        omega
      rw [← hupper] at hhalves
      have hbelow := hstart.trans (Nat.le_add_right address (2 ^ (order + steps)))
      obtain ⟨marked, hmark, hsame, hmarked, hclear, hkeep⟩ :=
        hhalves.markElementFree hbelow
      rw [← hsame.blockAt_eq] at hmarked hclear
      have hpushed := hmarked.push (hmarked.tiling.order_le List.mem_cons_self)
        (hsame.startAddress_eq ▸ hbelow) hclear
      have hplace : SamePlace region
          (marked.pushElement (order + steps) (address + 2 ^ (order + steps))) :=
        hsame.trans ⟨rfl, rfl, rfl, rfl, rfl⟩
      have hlower : marked.blockBit (region.blockAt address order) = true :=
        (hkeep _ List.mem_cons_self).trans hbit
      have hblock : (⟨address - region.startAddress, order + steps⟩ : Block) =
          (marked.pushElement (order + steps)
            (address + 2 ^ (order + steps))).blockAt address (order + steps) :=
        (hplace.blockAt_eq address (order + steps)).symm
      rw [hblock] at hpushed
      rw [← hplace.blockAt_eq] at hlower
      obtain ⟨region', cells', hloop, hsame', hresult, hbit', hkept⟩ :=
        ih hpushed (hplace.startAddress_eq ▸ hstart) hlower
      rw [hplace.blockAt_eq] at hresult hbit'
      refine ⟨region', cells', ?_, hplace.trans hsame', hresult, hbit', ?_⟩
      · rw [splitLoop, hbuddy, hmark, ok_bind, hloop]
      · intro hunfragmented
        refine hkept ((hunfragmented.congr hsame).push
          (hmarked.tiling.order_le List.mem_cons_self) fun _ => ?_)
        -- the buddy of the upper half is the lower half, which is held
        rw [hsame.blockAt_eq, hupper]
        exact hmarked.upper_buddy_notMem (hwhole.tiling.aligned _ List.mem_cons_self)

theorem findOrder_eq_none (hfind : region.findOrder order = none) :
    ∀ i, order ≤ i → i ≤ region.maxOrder → region.freeElements i = 0 := by
  intro i hlow hhigh
  have hnone := List.find?_eq_none.mp hfind i
    (List.mem_range'_1.mpr ⟨hlow, by omega⟩)
  simpa using hnone

theorem findOrder_eq_some (hfind : region.findOrder order = some i) :
    order ≤ i ∧ i ≤ region.maxOrder ∧ region.freeElements i ≠ 0 := by
  have hmem := List.mem_range'_1.mp (List.mem_of_find?_eq_some hfind)
  have hfree := List.find?_some hfind
  refine ⟨hmem.1, by omega, by simpa using hfree⟩

/-- `AllocateBuddy` of an order whose sum with the minimum order does not wrap
hands out a new block, or reports that there is none. -/
theorem Partition.allocateBuddy (hpartition : Partition region cells live [])
    (horder : order + pageShift ≤ region.maxOrder) :
    (region.allocateBuddy order = .ok (0, region) ∧
        ∀ i, order + pageShift ≤ i → i ≤ region.maxOrder → cells i = []) ∨
      ∃ ret region' cells', region.allocateBuddy order = .ok (ret, region') ∧
        region.startAddress ≤ ret ∧ SamePlace region region' ∧
        Partition region' cells'
          (region.blockAt ret (order + pageShift) :: live) [] ∧
        (Unfragmented region cells → Unfragmented region' cells') := by
  have hlt := hpartition.placed.maxOrder_lt
  have hsum : u32 (order + region.minOrder) = order + pageShift := by
    rw [hpartition.placed.minOrder_eq]
    exact u32_of_lt (by omega)
  simp only [BuddyAllocatedMemoryRegion.allocateBuddy, hsum,
    if_neg (not_lt.mpr horder)]
  cases hfind : region.findOrder (order + pageShift) with
  | none =>
      refine Or.inl ⟨rfl, fun i hlow hhigh => ?_⟩
      exact (hpartition.chain i hhigh).start_eq_stop_iff.mp
        (findOrder_eq_none hfind i hlow hhigh)
  | some i =>
      right
      obtain ⟨hlow, hhigh, hne⟩ := findOrder_eq_some hfind
      have hchain := hpartition.chain i hhigh
      cases hcells : cells i with
      | nil => exact absurd (hchain.start_eq_stop_iff.mpr hcells) hne
      | cons ret rest =>
          rw [hcells] at hchain
          have hhead : region.freeElements i = ret := (chain_cons.mp hchain).1
          have hret : ret ∈ cells i := hcells ▸ List.mem_cons_self
          have hstart := hpartition.start_le i hhigh ret hret
          obtain ⟨steps, rfl⟩ := Nat.exists_eq_add_of_le hlow
          obtain ⟨marked, hmark, hsame, hmarked, hbit⟩ :=
            (hpartition.pop hhigh hcells).markElementAllocated hstart
          have hpop : SamePlace region (region.popElement (order + pageShift + steps)) :=
            ⟨rfl, rfl, rfl, rfl, rfl⟩
          have hplace := hpop.trans hsame
          rw [hpop.blockAt_eq, ← hplace.blockAt_eq] at hmarked
          have hbit' : marked.blockBit (marked.blockAt ret (order + pageShift)) = true := by
            rw [hplace.blockAt_eq]
            exact hbit
          obtain ⟨region', cells', hloop, hsame', hresult, hbit', hkept⟩ :=
            splitLoop_spec hmarked (hplace.startAddress_eq ▸ hstart)
              (Nat.le_add_left _ _) hbit'
          rw [hplace.blockAt_eq] at hresult hbit'
          refine ⟨ret, region', cells', ?_, hstart, hplace.trans hsame',
            hresult.adopt hbit', fun hunfragmented => hkept ?_⟩
          · simp only [hhead, hmark, ok_bind, Nat.add_sub_cancel_left, hloop]
          · exact (hunfragmented.shrink hhigh (by rw [hcells])).congr hplace

/-! ## Deallocation -/

/-- The address the code computes for the buddy. -/
theorem Partition.buddyOf_eq (hpartition : Partition region cells live held)
    (hstart : region.startAddress ≤ address) (horder : order < region.maxOrder)
    (hblock : region.blockAt address order ∈
      held ++ (region.freeBlocks cells ++ live)) :
    region.buddyOf address order =
      region.startAddress + buddy (address - region.startAddress) order := by
  have hlt := hpartition.address_lt hblock
  have hinside := buddy_lt (hpartition.tiling.aligned _ hblock) horder
    (hpartition.tiling.start_lt hblock)
  have hend := hpartition.placed.end_lt
  have hpos := Nat.two_pow_pos order
  simp only [blockAt] at hlt hinside
  rw [buddyOf, sub32_of_le (by omega) hstart, Nat.shiftLeft_eq, Nat.one_mul, ← buddy]
  rw [u32_of_lt (by omega), Nat.add_comm]

theorem BuddyAllocatedMemoryRegion.setOrder_samePlace
    (region : BuddyAllocatedMemoryRegion) (address order : ℕ) :
    SamePlace region (region.setOrder address order) := ⟨rfl, rfl, rfl, rfl, rfl⟩

/-- `block->order = order` on a held block. -/
theorem Partition.setOrder
    (hpartition : Partition region cells live (region.blockAt address i :: held))
    (hstart : region.startAddress ≤ address) :
    Partition (region.setOrder address order) cells live
      (region.blockAt address i :: held) := by
  refine hpartition.elements_congr fun j hj element hmem => ?_
  refine Function.update_of_ne (fun heq => ?_) _ _
  refine hpartition.held_notMem hj hmem ?_
  simp only [blockAt]
  omega

/-- A block of the tiling with a cleared bit that is not held is free. -/
theorem Partition.mem_free_of_bit
    (hpartition : Partition region cells live [block])
    (hother : other ∈ [block] ++ (region.freeBlocks cells ++ live))
    (hne : other.start ≠ block.start) (hbit : region.blockBit other = false) :
    other ∈ region.freeBlocks cells := by
  rcases List.mem_append.mp hother with hheld | hmem
  · exact absurd (congrArg Block.start (List.mem_singleton.mp hheld)) hne
  · rcases List.mem_append.mp hmem with hfree | hlive
    · exact hfree
    · rw [hpartition.live_bit other hlive] at hbit
      exact Bool.noConfusion hbit

/-- A held block and its held buddy become one block of the next order. -/
theorem Partition.merge {buddyAddress : ℕ} (hplace : SamePlace region region')
    (hpartition : Partition region' cells live
      [region.blockAt buddyAddress order, region.blockAt address order])
    (hstart : region.startAddress ≤ address)
    (hbuddy : buddyAddress =
      region.startAddress + buddy (address - region.startAddress) order)
    {merged : ℕ} (hmerged : merged =
      if buddyAddress < address then buddyAddress else address) :
    region.startAddress ≤ merged ∧
      Partition (region'.setOrder merged (order + 1)) cells live
        [(region'.setOrder merged (order + 1)).blockAt merged (order + 1)] := by
  have hbelow : region.startAddress ≤ merged := by
    rw [hmerged]
    split <;> omega
  refine ⟨hbelow, ?_⟩
  have hother : region.blockAt buddyAddress order =
      ⟨buddy (address - region.startAddress) order, order⟩ := by
    simp only [blockAt, Block.mk.injEq, and_true]
    omega
  rw [hother] at hpartition
  have hjoined := (hpartition.perm_held (List.Perm.swap _ _ _)).join_buddy
  have hmin : (⟨min (address - region.startAddress)
      (buddy (address - region.startAddress) order), order + 1⟩ : Block) =
      region'.blockAt merged (order + 1) := by
    simp only [blockAt, hplace.startAddress_eq, Block.mk.injEq, and_true]
    rw [hmerged]
    split <;> omega
  rw [hmin] at hjoined
  exact hjoined.setOrder (hplace.startAddress_eq ▸ hbelow)

/-- A free block is in the list of its order. -/
theorem Partition.mem_cells (hpartition : Partition region cells live held)
    (hmem : block ∈ region.freeBlocks cells)
    (haddress : address = region.startAddress + block.start) :
    block.order ≤ region.maxOrder ∧ address ∈ cells block.order := by
  obtain ⟨i, hi, element, helement, rfl⟩ := mem_freeBlocks.mp hmem
  have hle := hpartition.start_le i hi element helement
  obtain rfl : address = element := by
    simp only [blockAt] at haddress
    omega
  exact ⟨hi, helement⟩

/-- At the buddy of a held block the loop finds the free buddy of the same order, or
nothing that it takes for one. -/
theorem Partition.buddy_found
    (hpartition : Partition region cells live [region.blockAt address order])
    (hstart : region.startAddress ≤ address) (hlt : order < region.maxOrder) :
    ∃ free, region.isElementFree (region.buddyOf address order) = .ok free ∧
      (free = true ∧ (region.elements (region.buddyOf address order)).order = order ∧
          region.buddyOf address order ∈ cells order ∨
        ¬ (free = true ∧ (region.elements (region.buddyOf address order)).order = order) ∧
          ⟨buddy (region.blockAt address order).start order, order⟩ ∉
            region.freeBlocks cells) := by
  have hself : region.blockAt address order ∈
      [region.blockAt address order] ++ (region.freeBlocks cells ++ live) :=
    List.mem_cons_self
  have hbuddy := hpartition.buddyOf_eq hstart hlt hself
  have hbelow : region.startAddress ≤ region.buddyOf address order := by
    rw [hbuddy]
    exact Nat.le_add_right _ _
  -- whatever starts at the buddy decides by its bit and its order
  obtain ⟨other, hother, hotherStart, _⟩ := hpartition.tiling.exists_at_buddy hself hlt
  have hplace : region.buddyOf address order = region.startAddress + other.start := by
    rw [hbuddy, hotherStart]
  have hblock : region.blockAt (region.buddyOf address order) other.order = other := by
    rw [hplace]
    simp [blockAt]
  have hfree := hpartition.isElementFree_eq hbelow (hblock.symm ▸ hother)
  rw [hblock] at hfree
  refine ⟨_, hfree, ?_⟩
  by_cases hmem : ⟨buddy (region.blockAt address order).start order, order⟩ ∈
      region.freeBlocks cells
  · have hsame : other = ⟨buddy (region.blockAt address order).start order, order⟩ :=
      hpartition.tiling.eq_of_start hother
        (List.mem_append_right _ (List.mem_append_left live hmem)) hotherStart
    rw [← hsame] at hmem
    obtain ⟨hle, hcell⟩ := hpartition.mem_cells hmem hplace
    have horder : other.order = order := congrArg Block.order hsame
    rw [horder] at hle hcell
    exact Or.inl ⟨by rw [hpartition.free_bit _ hmem]; rfl,
      hpartition.element_order order hle _ hcell, hcell⟩
  · refine Or.inr ⟨fun hfound => hmem ?_, hmem⟩
    obtain ⟨hbit, hsame⟩ := hfound
    have hfreeBlock := hpartition.mem_free_of_bit hother
      (by rw [hotherStart]; exact buddy_ne) ((Bool.not_eq_true' _).mp hbit)
    obtain ⟨hle, hcell⟩ := hpartition.mem_cells hfreeBlock hplace
    have horder : other.order = order :=
      (hpartition.element_order other.order hle _ hcell).symm.trans hsame
    change ⟨buddy (address - region.startAddress) order, order⟩ ∈ region.freeBlocks cells
    rw [← hotherStart, ← horder]
    exact hfreeBlock

/-- Merging a held block with its free buddies. -/
theorem mergeLoop_spec {remaining : ℕ}
    (hpartition : Partition region cells live [region.blockAt address order])
    (hstart : region.startAddress ≤ address)
    (hremaining : order + remaining = region.maxOrder) :
    ∃ block' order' region' cells',
      mergeLoop remaining order address region = .ok (block', order', region') ∧
      SamePlace region region' ∧ region.startAddress ≤ block' ∧
      Partition region' cells' live [region.blockAt block' order'] ∧
      (order' < region.maxOrder →
        ⟨buddy (region.blockAt block' order').start order', order'⟩ ∉
          region'.freeBlocks cells') ∧
      (Unfragmented region cells → Unfragmented region' cells') := by
  induction remaining generalizing region cells address order with
  | zero =>
      exact ⟨address, order, region, cells, rfl, .refl region, hstart, hpartition,
        fun hlt => absurd hlt (by omega), id⟩
  | succ remaining ih =>
      have hlt : order < region.maxOrder := by omega
      obtain ⟨free, hfree, hfound⟩ := hpartition.buddy_found hstart hlt
      rw [mergeLoop, hfree, ok_bind]
      rcases hfound with ⟨rfl, hsame, hmem⟩ | ⟨hnot, hfinal⟩
      · -- the buddy leaves its list, and the loop goes on with both
        have hbuddy := hpartition.buddyOf_eq hstart hlt List.mem_cons_self
        obtain ⟨removed, cells₁, hremove, hplace, _, hremoved, hshrunk⟩ :=
          hpartition.removeFromList hlt.le hmem
        obtain ⟨hmergedStart, hmerged⟩ := hremoved.merge hplace hstart hbuddy rfl
        have hplace' := hplace.trans (removed.setOrder_samePlace
          (if region.buddyOf address order < address then region.buddyOf address order
            else address) (order + 1))
        obtain ⟨block', order', region', cells', hloop, hsame', hbelow', hresult,
          hfinal, hkept⟩ :=
          ih hmerged (hplace'.startAddress_eq ▸ hmergedStart)
            (by rw [hplace'.maxOrder_eq]; omega)
        rw [hplace'.blockAt_eq] at hresult hfinal
        rw [hplace'.maxOrder_eq] at hfinal
        refine ⟨block', order', region', cells', ?_, hplace'.trans hsame',
          hplace'.startAddress_eq ▸ hbelow', hresult, hfinal, fun hunfragmented =>
          hkept ((hshrunk hunfragmented).congr (removed.setOrder_samePlace _ _))⟩
        simp only [Bool.not_true, Bool.false_eq_true, if_false]
        rw [if_neg (not_not.mpr hsame), hremove, ok_bind, hloop]
      · refine ⟨address, order, region, cells, ?_, .refl region, hstart, hpartition,
          fun _ => hfinal, id⟩
        cases free with
        | false => rfl
        | true =>
            simp only [Bool.not_true, Bool.false_eq_true, if_false]
            rw [if_pos fun hsame => hnot ⟨rfl, hsame⟩]

/-- `FreeBuddy` of a live block with its own order takes the block back. -/
theorem Partition.freeBuddy (hpartition : Partition region cells live [])
    (hstart : region.startAddress ≤ address)
    (hlive : live.Perm (region.blockAt address (order + pageShift) :: live')) :
    ∃ region' cells', region.freeBuddy address order = .ok region' ∧
      SamePlace region region' ∧ Partition region' cells' live' [] ∧
      (Unfragmented region cells → Unfragmented region' cells') := by
  have hmem : region.blockAt address (order + pageShift) ∈ live :=
    hlive.mem_iff.mpr List.mem_cons_self
  have hblock : region.blockAt address (order + pageShift) ∈
      [] ++ (region.freeBlocks cells ++ live) :=
    List.mem_append_right [] (List.mem_append_right _ hmem)
  have hmax := hpartition.placed.maxOrder_lt
  have horder : order + pageShift ≤ region.maxOrder := hpartition.tiling.order_le hblock
  have hsum : u32 (order + region.minOrder) = order + pageShift := by
    rw [hpartition.placed.minOrder_eq]
    exact u32_of_lt (by omega)
  have hzero : address ≠ 0 := by
    have hpos := hpartition.placed.start_pos
    omega
  have hfree := hpartition.isElementFree_eq hstart hblock
  rw [hpartition.live_bit _ hmem] at hfree
  obtain ⟨block, merged, region₁, cells₁, hloop, hplace, hbelow, hheld, hfinal, hkept⟩ :=
    mergeLoop_spec (hpartition.release hlive) hstart (Nat.add_sub_cancel' horder)
  rw [← hplace.blockAt_eq] at hheld
  have hplace₂ := hplace.trans (region₁.setOrder_samePlace block merged)
  have hset : Partition (region₁.setOrder block merged) cells₁ live'
      [(region₁.setOrder block merged).blockAt block merged] :=
    hheld.setOrder (hplace.startAddress_eq ▸ hbelow)
  obtain ⟨region₃, hmark, hplace₃, hclear, hbit, _⟩ :=
    hset.markElementFree (hplace₂.startAddress_eq ▸ hbelow)
  rw [← hplace₃.blockAt_eq] at hclear hbit
  have hplace' := hplace₂.trans hplace₃
  have hpushed := hclear.push (hclear.tiling.order_le List.mem_cons_self)
    (hplace'.startAddress_eq ▸ hbelow) hbit
  refine ⟨region₃.pushElement merged block, _, ?_,
    hplace'.trans ⟨rfl, rfl, rfl, rfl, rfl⟩, hpushed, fun hunfragmented => ?_⟩
  · rw [BuddyAllocatedMemoryRegion.freeBuddy, if_neg hzero]
    simp only [hsum, if_neg (not_lt.mpr horder), hfree, ok_bind, Bool.not_true,
      Bool.false_eq_true, if_false, hloop, hmark]
  · have hplace₁ : SamePlace region₁ region₃ :=
      (region₁.setOrder_samePlace block merged).trans hplace₃
    refine ((hkept hunfragmented).congr hplace₁).push
      (hclear.tiling.order_le List.mem_cons_self) fun hlt => ?_
    rw [hplace'.blockAt_eq, hplace₁.freeBlocks_eq]
    exact hfinal (hplace'.maxOrder_eq ▸ hlt)

end GeexOS.Buddy
