import GeexOS.Loader.PageLookupTable

/-!
# Where the page lookup table is put

The table is to lie in one free item below 4 GiB.  The loader takes the first
item that starts there and has as many pages as the table needs, and it puts the
table at the end of the item or at the end of the first 4 GiB.  It never goes on
to another item, and 0 is both an address and the sign for no place.
-/

namespace GeexOS.PageLookupTable

open GeexOS.Words
open GeexOS.PhysicalMemory
open GeexOS.FirmwareMap

/-! ## Places -/

def startByte (item : FirmwareMemoryMapItem) : ℕ := item.basePage * 4096

/-- The byte behind the last byte of an item. -/
def endByte (item : FirmwareMemoryMapItem) : ℕ := item.endPage * 4096

/-- The bytes from `address` on lie in one free item and below 4 GiB. -/
def Placed (items : List FirmwareMemoryMapItem) (size address : ℕ) : Prop :=
  ∃ item ∈ items, item.type = .free ∧ startByte item ≤ address ∧
    address + size ≤ endByte item ∧ address + size ≤ 2 ^ 32

/-- `size` bytes of the item lie below 4 GiB. -/
structure HasRoom (size : ℕ) (item : FirmwareMemoryMapItem) : Prop where
  free : item.type = .free
  inside : startByte item + size ≤ endByte item
  below : startByte item + size ≤ 2 ^ 32

/-- The first item that the loop takes. -/
def FirstTaken (totalTableSize : ℕ) (items : List FirmwareMemoryMapItem)
    (cur : FirmwareMemoryMapItem) : Prop :=
  ∃ front back, items = front ++ cur :: back ∧
    (∀ other ∈ front, ¬ Qualifies totalTableSize other) ∧ Qualifies totalTableSize cur

/-- The arithmetic of `tablePlace` comes out right for an item with room: either the item
goes on for another table behind 4 GiB and does not have just the room in front of it, or it
ends there at most and not with the table at address 0.  What is compared is the end as the
64 bits of an address show it. -/
def RoomFound (size : ℕ) (cur : FirmwareMemoryMapItem) : Prop :=
  (u64 (endByte cur) < size ∨ 2 ^ 32 + size ≤ u64 (endByte cur)) ∧
      startByte cur + size ≠ 2 ^ 32 ∨
    startByte cur + size ≤ u64 (endByte cur) ∧ u64 (endByte cur) ≤ 2 ^ 32 ∧
      u64 (endByte cur) ≠ size

/-- The arithmetic gives 0 for an item without room. -/
def NoRoomFound (size : ℕ) (cur : FirmwareMemoryMapItem) : Prop :=
  u64 (endByte cur) = u64 size ∨
    2 ^ 32 ≤ sub64 (u64 (endByte cur)) (u64 size) ∧
      (sub64 (2 ^ 32) (u64 size) ≤ u64 (startByte cur) ∨ 2 ^ 32 ∣ size)

/-- The condition on the item that the loop takes. -/
structure PlaceRight (size : ℕ) (cur : FirmwareMemoryMapItem) : Prop where
  room : HasRoom size cur → RoomFound size cur
  noRoom : ¬ HasRoom size cur → NoRoomFound size cur

variable {items front back : List FirmwareMemoryMapItem} {cur other : FirmwareMemoryMapItem}
variable {size address : ℕ}

theorem exists_placed_iff :
    (∃ address, Placed items size address) ↔ ∃ item ∈ items, HasRoom size item := by
  constructor
  · rintro ⟨address, item, hmem, hfree, hstart, hend, hbelow⟩
    exact ⟨item, hmem, hfree, by omega, by omega⟩
  · rintro ⟨item, hmem, hroom⟩
    exact ⟨startByte item, item, hmem, hroom.free, le_rfl, hroom.inside, hroom.below⟩

theorem endByte_eq (item : FirmwareMemoryMapItem) :
    endByte item = startByte item + item.pageCount * 4096 :=
  Nat.add_mul ..

theorem endByte_le_startByte (hbehind : cur.endPage ≤ other.basePage) :
    endByte cur ≤ startByte other :=
  Nat.mul_le_mul_right 4096 hbehind

theorem HasRoom.qualifies (hroom : HasRoom size other) (hpos : 0 < size) :
    Qualifies (u64 size) other := by
  have hinside := hroom.inside
  have hbelow := hroom.below
  rw [endByte_eq] at hinside
  have hstart : startByte other < 2 ^ 32 := by
    clear hinside
    omega
  have hsmall : size < 2 ^ 63 := by
    clear hinside
    omega
  have hcount : (size + 4095) / 4096 ≤ other.pageCount := by
    clear hbelow hsmall hstart
    omega
  have hsize : u64 size = size := u64_of_lt (hsmall.trans (by norm_num))
  have hword : u64 (startByte other) = startByte other := u64_of_lt (hstart.trans (by norm_num))
  rw [Qualifies, hsize, pageEnd_div hsmall]
  exact ⟨hroom.free, hcount, hword.le.trans (Nat.le_of_lt_succ hstart)⟩

/-- An item that the loop takes before one with room has room itself. -/
theorem HasRoom.of_behind (hroom : HasRoom size other) (hcur : Qualifies (u64 size) cur)
    (hbehind : cur.endPage ≤ other.basePage) : HasRoom size cur := by
  have hbelow := hroom.below
  obtain ⟨hfree, hcount, -⟩ := hcur
  have hsmall : size < 2 ^ 63 := by omega
  rw [u64_of_lt (hsmall.trans (by norm_num)), pageEnd_div hsmall] at hcount
  have hfits : size ≤ cur.pageCount * 4096 := by
    clear hbelow hsmall
    omega
  have hend := endByte_le_startByte hbehind
  have hlength := endByte_eq cur
  refine ⟨hfree, ?_, ?_⟩
  · rw [hlength]
    exact Nat.add_le_add_left hfits _
  · calc startByte cur + size ≤ endByte cur := by
          rw [hlength]
          exact Nat.add_le_add_left hfits _
      _ ≤ startByte other + size := hend.trans (Nat.le_add_right _ _)
      _ ≤ 2 ^ 32 := hbelow

/-- If there is room at all, there is room in the item that the loop takes. -/
theorem HasRoom.of_mem (hsorted : Sorted (front ++ cur :: back)) (hpos : 0 < size)
    (hfront : ∀ other ∈ front, ¬ Qualifies (u64 size) other) (hcur : Qualifies (u64 size) cur)
    (hmem : other ∈ front ++ cur :: back) (hroom : HasRoom size other) : HasRoom size cur := by
  rcases List.mem_append.mp hmem with hmem | hmem
  · exact absurd (hroom.qualifies hpos) (hfront other hmem)
  · rcases List.mem_cons.mp hmem with rfl | hmem
    · exact hroom
    · exact hroom.of_behind hcur (hsorted.behind hmem).1

/-! ## The place in an item -/

theorem tablePlace_def (hend : cur.endPage < 2 ^ 64) :
    tablePlace (u64 size) cur =
      if 2 ^ 32 ≤ sub64 (u64 (endByte cur)) (u64 size) then
        if u64 (startByte cur) < sub64 (2 ^ 32) (u64 size) then
          u32 (sub64 (2 ^ 32) (u64 size))
        else 0
      else u32 (sub64 (u64 (endByte cur)) (u64 size)) := by
  have hpages : u64 (cur.basePage + cur.pageCount) = cur.endPage := u64_of_lt hend
  rw [tablePlace, hpages]
  rfl

/-- Without room, 0 is the right result. -/
theorem tablePlace_eq_zero_iff (hend : cur.endPage < 2 ^ 64) :
    tablePlace (u64 size) cur = 0 ↔ NoRoomFound size cur := by
  have hdvd : u32 (sub64 (2 ^ 32) (u64 size)) = 0 ↔ 2 ^ 32 ∣ size := by
    simp only [u32, sub64, u64]
    omega
  rw [tablePlace_def hend, NoRoomFound]
  split
  · rename_i hlarge
    have hne : u64 (endByte cur) ≠ u64 size := by
      intro heq
      have hzero : sub64 (u64 size) (u64 size) = 0 := by
        simp only [sub64, u64]
        omega
      rw [heq, hzero] at hlarge
      exact absurd hlarge (by norm_num)
    split
    · rw [hdvd]
      omega
    · omega
  · rename_i hsmall
    simp only [u32, sub64, u64] at hsmall ⊢
    omega

/-- A place that ends no later than the item that the loop takes is in this item. -/
theorem Placed.startByte_le (hsorted : Sorted (front ++ cur :: back)) (hpos : 0 < size)
    (hfront : ∀ other ∈ front, ¬ Qualifies (u64 size) other)
    (hplaced : Placed (front ++ cur :: back) size address) (hend : address + size ≤ endByte cur) :
    startByte cur ≤ address := by
  obtain ⟨item, hmem, hfree, hstart, hinside, hbelow⟩ := hplaced
  have hroom : HasRoom size item := ⟨hfree, by omega, by omega⟩
  rcases List.mem_append.mp hmem with hmem | hmem
  · exact absurd (hroom.qualifies hpos) (hfront item hmem)
  rcases List.mem_cons.mp hmem with rfl | hmem
  · exact hstart
  · have hbehind := endByte_le_startByte (hsorted.behind hmem).1
    omega

/-- With room, the result is a place exactly under the condition. -/
theorem tablePlace_placed_iff (hsorted : Sorted (front ++ cur :: back)) (hpos : 0 < size)
    (hfront : ∀ other ∈ front, ¬ Qualifies (u64 size) other) (hroom : HasRoom size cur) :
    (tablePlace (u64 size) cur ≠ 0 ∧
        Placed (front ++ cur :: back) size (tablePlace (u64 size) cur)) ↔
      RoomFound size cur := by
  have hmem : cur ∈ front ++ cur :: back := List.mem_append_right _ List.mem_cons_self
  have hinside := hroom.inside
  have hbelow := hroom.below
  have hsize : u64 size = size := u64_of_lt (by omega)
  have hstart : u64 (startByte cur) = startByte cur := u64_of_lt (by omega)
  have htop : sub64 (2 ^ 32) size = 2 ^ 32 - size := sub64_of_le (by norm_num) (by omega)
  have hwrapped : u64 (endByte cur) ≤ endByte cur := Nat.mod_le _ _
  have hlt : u64 (endByte cur) < 2 ^ 64 := Nat.mod_lt _ (by norm_num)
  have hcarry : u64 (endByte cur) = endByte cur ∨ 2 ^ 64 ≤ endByte cur :=
    (Nat.lt_or_ge (endByte cur) (2 ^ 64)).imp_left u64_of_lt
  rw [tablePlace_def (hsorted.endPage_lt cur hmem), hsize, hstart, htop, RoomFound]
  generalize u64 (endByte cur) = last at *
  have hloc : sub64 last size = if size ≤ last then last - size else 2 ^ 64 + last - size := by
    split
    · rename_i hle
      exact sub64_of_le hlt hle
    · simp only [sub64, u64]
      omega
  rw [hloc]
  by_cases hlarge : last < size ∨ 2 ^ 32 + size ≤ last
  · -- the end of the item lies so far up that the table goes to 4 GiB
    have hloc : 2 ^ 32 ≤ if size ≤ last then last - size else 2 ^ 64 + last - size := by
      split <;> omega
    rw [if_pos hloc]
    by_cases hfits : startByte cur < 2 ^ 32 - size
    · rw [if_pos hfits, u32_of_lt (by omega)]
      refine iff_of_true ⟨by omega, cur, hmem, hroom.free, by omega, by omega, by omega⟩ ?_
      exact Or.inl ⟨hlarge, by omega⟩
    · rw [if_neg hfits]
      exact iff_of_false (fun h => h.1 rfl) (by omega)
  · -- the table ends with the item
    rw [if_pos (show size ≤ last by omega), if_neg (by omega), u32_of_lt (by omega)]
    constructor
    · rintro ⟨hne, hplaced⟩
      have hlow := hplaced.startByte_le hsorted hpos hfront (by omega)
      obtain ⟨item, -, -, -, -, hfour⟩ := hplaced
      exact Or.inr ⟨by omega, by omega, by omega⟩
    · rintro (⟨hlast, -⟩ | ⟨hlow, hfour, hne⟩)
      · exact absurd hlast hlarge
      · exact ⟨by omega, cur, hmem, hroom.free, by omega, by omega, by omega⟩

/-! ## The whole search -/

/-- What the search is for: an address in one free item and below 4 GiB where there is one,
and 0 otherwise. -/
structure FindsPlace (items : List FirmwareMemoryMapItem) (totalPageCount : ℕ) : Prop where
  placed : (∃ address, Placed items (totalPageCount * pageLookupTableItemSize) address) →
    memoryFindPageLookupTableLocation totalPageCount items ≠ 0 ∧
      Placed items (totalPageCount * pageLookupTableItemSize)
        (memoryFindPageLookupTableLocation totalPageCount items)
  zero : (¬ ∃ address, Placed items (totalPageCount * pageLookupTableItemSize) address) →
    memoryFindPageLookupTableLocation totalPageCount items = 0

/-- The search decides by one item alone. -/
theorem findsPlace_iff (hsorted : Sorted items) {totalPageCount : ℕ} (hpos : 0 < totalPageCount) :
    FindsPlace items totalPageCount ↔
      ∀ cur, FirstTaken (u64 (totalPageCount * pageLookupTableItemSize)) items cur →
        PlaceRight (totalPageCount * pageLookupTableItemSize) cur := by
  have hsize : 0 < totalPageCount * pageLookupTableItemSize := Nat.mul_pos hpos (by decide)
  constructor
  · rintro hfinds cur ⟨front, back, rfl, hfront, hcur⟩
    have hmem : cur ∈ front ++ cur :: back := List.mem_append_right _ List.mem_cons_self
    have hresult : memoryFindPageLookupTableLocation totalPageCount (front ++ cur :: back) =
        tablePlace (u64 (totalPageCount * pageLookupTableItemSize)) cur := by
      rw [memoryFindPageLookupTableLocation, findLoop_append _ hfront, findLoop_take _ hcur]
    refine ⟨fun hroom => ?_, fun hnone => ?_⟩
    · have hplaced := hfinds.placed (exists_placed_iff.mpr ⟨cur, hmem, hroom⟩)
      rw [hresult] at hplaced
      exact (tablePlace_placed_iff hsorted hsize hfront hroom).mp hplaced
    · rw [← tablePlace_eq_zero_iff (hsorted.endPage_lt cur hmem), ← hresult]
      refine hfinds.zero fun hplaced => hnone ?_
      obtain ⟨item, hitem, hroom⟩ := exists_placed_iff.mp hplaced
      exact hroom.of_mem hsorted hsize hfront hcur hitem
  · intro hright
    rcases findLoop_spec (u64 (totalPageCount * pageLookupTableItemSize)) items with
      ⟨hnone, hzero⟩ | ⟨front, cur, back, rfl, hfront, hcur, hresult⟩
    · refine ⟨fun hplaced => ?_, fun _ => hzero⟩
      obtain ⟨item, hitem, hroom⟩ := exists_placed_iff.mp hplaced
      exact absurd (hroom.qualifies hsize) (hnone item hitem)
    · have hcorrect := hright cur ⟨front, back, rfl, hfront, hcur⟩
      have hmem : cur ∈ front ++ cur :: back := List.mem_append_right _ List.mem_cons_self
      refine ⟨fun hplaced => ?_, fun hnone => ?_⟩
      · obtain ⟨item, hitem, hroom⟩ := exists_placed_iff.mp hplaced
        have hroom := hroom.of_mem hsorted hsize hfront hcur hitem
        rw [memoryFindPageLookupTableLocation, hresult]
        exact (tablePlace_placed_iff hsorted hsize hfront hroom).mpr (hcorrect.room hroom)
      · rw [memoryFindPageLookupTableLocation, hresult,
          tablePlace_eq_zero_iff (hsorted.endPage_lt cur hmem)]
        exact hcorrect.noRoom fun hroom => hnone (exists_placed_iff.mpr ⟨cur, hmem, hroom⟩)

/-- The condition for an item that the loop takes, where no address and no size leaves
64 bits. -/
theorem placeRight_iff_of_lt (hcur : Qualifies (u64 size) cur) (hend : endByte cur < 2 ^ 64)
    (hsize : size < 2 ^ 63) :
    PlaceRight size cur ↔
      (HasRoom size cur →
        2 ^ 32 + size ≤ endByte cur ∧ startByte cur + size ≠ 2 ^ 32 ∨
          endByte cur ≤ 2 ^ 32 ∧ endByte cur ≠ size) ∧
      (¬ HasRoom size cur →
        endByte cur = size ∨
          2 ^ 32 + size ≤ endByte cur ∧ (size ≤ 2 ^ 32 ∨ 2 ^ 32 ∣ size)) := by
  have hword : u64 size = size := u64_of_lt (hsize.trans (by norm_num))
  have hlength := endByte_eq cur
  have hstart : startByte cur < 2 ^ 32 := by
    have hbase := hcur.2.2
    have hbytes : u64 (startByte cur) = startByte cur := u64_of_lt (by omega)
    exact Nat.lt_succ_of_le (hbytes ▸ hbase)
  have hinside : startByte cur + size ≤ endByte cur := by
    have hcount := hcur.2.1
    rw [hword, pageEnd_div hsize] at hcount
    rw [hlength]
    clear hstart hend hsize hword hlength
    omega
  have hroom : (HasRoom size cur → RoomFound size cur) ↔ (HasRoom size cur →
      2 ^ 32 + size ≤ endByte cur ∧ startByte cur + size ≠ 2 ^ 32 ∨
        endByte cur ≤ 2 ^ 32 ∧ endByte cur ≠ size) := by
    refine imp_congr_right fun _ => ?_
    rw [RoomFound, u64_of_lt hend]
    omega
  have hnone : (¬ HasRoom size cur → NoRoomFound size cur) ↔ (¬ HasRoom size cur →
      endByte cur = size ∨
        2 ^ 32 + size ≤ endByte cur ∧ (size ≤ 2 ^ 32 ∨ 2 ^ 32 ∣ size)) := by
    refine imp_congr_right fun hnone => ?_
    have habove : 2 ^ 32 < startByte cur + size :=
      Nat.lt_of_not_le fun hbelow => hnone ⟨hcur.1, hinside, hbelow⟩
    have hloc : sub64 (endByte cur) size = endByte cur - size := sub64_of_le hend (by omega)
    have htop : sub64 (2 ^ 32) size ≤ startByte cur ↔ size ≤ 2 ^ 32 := by
      simp only [sub64, u64]
      omega
    rw [NoRoomFound, u64_of_lt hend, hword, u64_of_lt (by omega), hloc, htop]
    omega
  rw [← hroom, ← hnone]
  exact ⟨fun hright => ⟨hright.room, hright.noRoom⟩, fun h => ⟨h.1, h.2⟩⟩

/-- Free memory from 1 MiB on that ends one page behind 4 GiB. -/
def acrossFourGiB : List FirmwareMemoryMapItem := [⟨.free, 0x100, 0xFFF01⟩]

theorem acrossFourGiB_sorted : Sorted acrossFourGiB :=
  ⟨⟨by decide, List.pairwise_singleton _ _⟩, by decide⟩

/-- The table is put at the end of the item, two pages below 4 GiB and one behind. -/
theorem acrossFourGiB_misplaced :
    ¬ ∀ (items : List FirmwareMemoryMapItem) (totalPageCount : ℕ), Sorted items →
      0 < totalPageCount → FindsPlace items totalPageCount := by
  intro hall
  have hfinds := hall acrossFourGiB 1024 acrossFourGiB_sorted (by decide)
  have hresult : memoryFindPageLookupTableLocation 1024 acrossFourGiB = 0xFFFFE000 := by
    decide +kernel
  obtain ⟨-, item, -, -, -, -, hbelow⟩ := hfinds.placed
    ⟨0x100000, _, List.mem_cons_self, rfl, by decide, by decide, by decide⟩
  rw [hresult] at hbelow
  exact absurd hbelow (by decide)

theorem findsPlace_iff_acrossFourGiB :
    FindsPlace acrossFourGiB 1024 ↔
      ∀ cur, FirstTaken (u64 (1024 * pageLookupTableItemSize)) acrossFourGiB cur →
        PlaceRight (1024 * pageLookupTableItemSize) cur :=
  findsPlace_iff acrossFourGiB_sorted (by decide)

end GeexOS.PageLookupTable
