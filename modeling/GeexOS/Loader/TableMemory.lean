import GeexOS.Loader.PageLookupPlacement
import GeexOS.Library.ByteMemory

/-!
# The page lookup table in the loader's memory

`memory_init` writes the items through 32-bit pointers into the memory that the
loader lies in as well.  Behind 4 GiB the table goes on at address 0, and a table
that comes to the loader's stack, code or data overwrites them.  As long as it
does not, the memory holds the items of the table in `PageLookupTable`.
-/

namespace GeexOS.TableMemory

open GeexOS.Words
open GeexOS.Halting
open GeexOS.ByteMemory
open GeexOS.RangeMap
open GeexOS.PhysicalMemory
open GeexOS.FirmwareMap
open GeexOS.PageLookupTable

/-- `GXLDR_STACKTOP - GXLDR_STACKSIZE`: from here on the memory is the loader's. -/
def loaderStart : ℕ := 0x9000 - 0x1000

/-- The loader ends in front of the symbol `end`, in the memory that real mode
reaches.  Behind `GXLDR_EXEC_BASE` there are the 32 items of 20 bytes of
`FirmwareMemoryMap` at least. -/
structure LoaderMemory where
  endAddress : ℕ
  map_le : 0x9000 + 640 ≤ endAddress
  end_le : endAddress ≤ 0x100000

/-- A byte of the loader's stack, code or data. -/
def LoaderMemory.Owns (loader : LoaderMemory) (address : ℕ) : Prop :=
  loaderStart ≤ address ∧ address < loader.endAddress

instance (loader : LoaderMemory) (address : ℕ) : Decidable (loader.Owns address) :=
  inferInstanceAs (Decidable (_ ∧ _))

/-- The allocator's globals and the memory. -/
structure State where
  lowestPhysicalPage : ℕ
  highestPhysicalPage : ℕ
  pageLookupTable : ℕ
  memory : Memory

/-- The bytes of a `PageLookupTableItem`: the enumerator, then the length. -/
def itemBytes (item : PageLookupTableItem) : Memory := fun index =>
  if index < 4 then byteOf item.type.number index else byteOf item.length (index - 4)

/-- `*cur = item`. -/
def storeItem (memory : Memory) (cur : ℕ) (item : PageLookupTableItem) : Memory :=
  fun position =>
    if sub32 position cur < pageLookupTableItemSize then itemBytes item (sub32 position cur)
    else memory position

/-- The loop of `memory_mark_pages`; it faults if it overwrites the loader. -/
def markLoop (loader : LoaderMemory) (type : MemoryType) :
    (count cur : ℕ) → Memory → Outcome Memory
  | 0, _, memory => .ok memory
  | count + 1, cur, memory =>
      if ∃ index < pageLookupTableItemSize, loader.Owns (u32 (cur + index)) then .error .fault
      else
        markLoop loader type count (u32 (cur + pageLookupTableItemSize))
          (storeItem memory cur (memoryMarkItem type))

/-- `memory_mark_pages`; the pointer to the first item has 32 bits. -/
def memoryMarkPages (loader : LoaderMemory) (state : State) (start count : ℕ)
    (type : MemoryType) : Outcome State :=
  if start < state.lowestPhysicalPage ∨
      u64 (start + count + (2 ^ 64 - 1)) > state.highestPhysicalPage then
    .error markOutOfBounds
  else do
    let memory ← markLoop loader type count
      (u32 (state.pageLookupTable +
        (start - state.lowestPhysicalPage) * pageLookupTableItemSize)) state.memory
    return { state with memory := memory }

/-- The calls one after the other. -/
def markAll (loader : LoaderMemory) : List Mark → State → Outcome State
  | [], state => .ok state
  | mark :: rest, state => do
      let state ← memoryMarkPages loader state mark.start mark.count mark.type
      markAll loader rest state

/-- `memory_init`, with the calls of `memory_mark_pages` as `initMarks` lists them. -/
def memoryInit (loader : LoaderMemory) (map : ℕ → FirmwareMemoryMapItem) (memory : Memory) :
    Outcome State :=
  match readItems map maxMemoryMapEntries 0 with
  | none => .error .fault
  | some items =>
      let bounds := initialState items fun _ => memoryMarkItem .unusable
      markAll loader (initMarks items bounds)
        ⟨bounds.lowestPhysicalPage, bounds.highestPhysicalPage, bounds.tableAddress, memory⟩

/-! ## What the memory holds -/

/-- The memory as a pointer sees it. -/
def window (memory : Memory) (base : ℕ) : Memory := fun position => memory (u32 (base + position))

/-- The item at an index of a table. -/
structure HoldsItem (memory : Memory) (base index : ℕ) (item : PageLookupTableItem) : Prop where
  type : load32 (window memory base) (index * pageLookupTableItemSize) = item.type.number
  length : load64 (window memory base) (index * pageLookupTableItemSize + 4) = item.length

/-- The number in the `type` field of a page's item. -/
def State.pageType (state : State) (page : ℕ) : ℕ :=
  load32 (window state.memory state.pageLookupTable)
    ((page - state.lowestPhysicalPage) * pageLookupTableItemSize)

/-- The `length` field of a page's item. -/
def State.pageLength (state : State) (page : ℕ) : ℕ :=
  load64 (window state.memory state.pageLookupTable)
    ((page - state.lowestPhysicalPage) * pageLookupTableItemSize + 4)

/-- The table has a byte in the page, which may be one behind 4 GiB. -/
def State.Occupies (state : State) (page : ℕ) : Prop :=
  ∃ index < (state.highestPhysicalPage - state.lowestPhysicalPage) * pageLookupTableItemSize,
    u32 (state.pageLookupTable + index) / archPagesize = page

instance (state : State) (page : ℕ) : Decidable (state.Occupies page) :=
  inferInstanceAs (Decidable (∃ index < _, _))

/-- The type that the map gives to a page behind the table. -/
def describedType (items : List FirmwareMemoryMapItem) (state : State) (page : ℕ) :
    MemoryType :=
  if state.Occupies page then .pageLookupTable else (typeAt items page).getD .unusable

/-- `memory_init` returns, and every page below the highest one has the type
that the map gives to it, or the table's. -/
def Describes (loader : LoaderMemory) (map : ℕ → FirmwareMemoryMapItem) (memory : Memory)
    (items : List FirmwareMemoryMapItem) : Prop :=
  ∃ after, memoryInit loader map memory = .ok after ∧
    ∀ page < after.highestPhysicalPage,
      after.pageType page = (describedType items after page).number ∧
        (after.pageLength page = 0 ↔ after.pageType page = MemoryType.free.number)

variable {loader : LoaderMemory} {map : ℕ → FirmwareMemoryMapItem} {memory memory' : Memory}
variable {items front back : List FirmwareMemoryMapItem} {cur item : FirmwareMemoryMapItem}
variable {state after : State} {mark : Mark} {marks : List Mark} {type : MemoryType}
variable {base index other count page : ℕ} {stored held : PageLookupTableItem}

/-! ## Storing an item -/

theorem number_lt (type : MemoryType) : type.number < 16 := by
  cases type <;> decide

theorem number_injective {left right : MemoryType} (hsame : left.number = right.number) :
    left = right := by
  revert hsame
  cases left <;> cases right <;> decide

theorem load32_itemBytes (stored : PageLookupTableItem) :
    load32 (itemBytes stored) 0 = stored.type.number := by
  have hlt := number_lt stored.type
  simp only [load32, load16, itemBytes, Nat.zero_add, Nat.reduceAdd, Nat.reduceLT, if_true,
    toNat_byteOf]
  omega

theorem load64_itemBytes (hlength : stored.length < 2 ^ 32) :
    load64 (itemBytes stored) 4 = stored.length := by
  simp only [load64, load32, load16, itemBytes, Nat.reduceAdd, Nat.reduceLT, if_false,
    Nat.reduceSub, toNat_byteOf]
  omega

/-- Seen through the pointer, an item in the first 4 GiB of the table is stored in one piece. -/
theorem window_storeItem {position : ℕ}
    (hindex : (index + 1) * pageLookupTableItemSize ≤ 2 ^ 32) (hposition : position < 2 ^ 32) :
    window (storeItem memory (u32 (base + index * pageLookupTableItemSize)) stored) base position =
      writeBytes (window memory base) (index * pageLookupTableItemSize) pageLookupTableItemSize
        (itemBytes stored) position := by
  have hoffset : sub32 (u32 (base + position)) (u32 (base + index * pageLookupTableItemSize)) =
      if index * pageLookupTableItemSize ≤ position then
        position - index * pageLookupTableItemSize
      else 2 ^ 32 + position - index * pageLookupTableItemSize := by
    rw [Nat.add_mul] at hindex
    simp only [sub32, u32]
    split <;> omega
  rw [Nat.add_mul, Nat.one_mul] at hindex
  rw [window, storeItem, hoffset]
  by_cases hlow : index * pageLookupTableItemSize ≤ position
  · rw [if_pos hlow]
    by_cases hhigh : position < index * pageLookupTableItemSize + pageLookupTableItemSize
    · rw [if_pos (by omega), writeBytes_of_mem hlow hhigh]
    · rw [if_neg (by omega), writeBytes_of_notMem (by omega), window]
  · rw [if_neg hlow, if_neg (by omega), writeBytes_of_notMem (by omega), window]

theorem holdsItem_storeItem_self (hindex : (index + 1) * pageLookupTableItemSize ≤ 2 ^ 32)
    (hlength : stored.length < 2 ^ 32) :
    HoldsItem (storeItem memory (u32 (base + index * pageLookupTableItemSize)) stored) base index
      stored := by
  have hitem : ∀ offset < pageLookupTableItemSize,
      window (storeItem memory (u32 (base + index * pageLookupTableItemSize)) stored) base
        (index * pageLookupTableItemSize + offset) = itemBytes stored offset := by
    intro offset hoffset
    have hbound : index * pageLookupTableItemSize + offset < 2 ^ 32 := by
      rw [Nat.add_mul] at hindex
      omega
    rw [window_storeItem hindex hbound, writeBytes_of_mem (Nat.le_add_right _ _)
      (Nat.add_lt_add_left hoffset _), Nat.add_sub_cancel_left]
  constructor
  · rw [← load32_itemBytes stored]
    refine load32_eq_of_bytes fun offset hoffset => ?_
    rw [Nat.zero_add]
    exact hitem offset (hoffset.trans (by decide))
  · rw [← load64_itemBytes hlength]
    refine load64_eq_of_bytes fun offset hoffset => ?_
    rw [Nat.add_assoc]
    exact hitem (4 + offset) (Nat.add_lt_add_left hoffset 4)

/-- The other items of the first 4 GiB stay what they are. -/
theorem holdsItem_storeItem_of_ne (hindex : (index + 1) * pageLookupTableItemSize ≤ 2 ^ 32)
    (hother : (other + 1) * pageLookupTableItemSize ≤ 2 ^ 32) (hne : other ≠ index) :
    HoldsItem (storeItem memory (u32 (base + index * pageLookupTableItemSize)) stored) base other
      held ↔ HoldsItem memory base other held := by
  have hbyte : ∀ offset < pageLookupTableItemSize,
      window (storeItem memory (u32 (base + index * pageLookupTableItemSize)) stored) base
        (other * pageLookupTableItemSize + offset) =
      window memory base (other * pageLookupTableItemSize + offset) := by
    intro offset hoffset
    have hbound : other * pageLookupTableItemSize + offset < 2 ^ 32 := by
      rw [Nat.add_mul] at hother
      omega
    rw [window_storeItem hindex hbound, writeBytes_of_notMem]
    have hsize : pageLookupTableItemSize = 12 := rfl
    rw [hsize] at hoffset ⊢
    omega
  have htype : load32 (window (storeItem memory (u32 (base + index * pageLookupTableItemSize))
      stored) base) (other * pageLookupTableItemSize) =
        load32 (window memory base) (other * pageLookupTableItemSize) :=
    load32_congr fun offset hoffset => hbyte offset (hoffset.trans (by decide))
  have hlength : load64 (window (storeItem memory (u32 (base + index * pageLookupTableItemSize))
      stored) base) (other * pageLookupTableItemSize + 4) =
        load64 (window memory base) (other * pageLookupTableItemSize + 4) := by
    refine load64_eq_of_bytes fun offset hoffset => ?_
    rw [Nat.add_assoc]
    exact hbyte (4 + offset) (Nat.add_lt_add_left hoffset 4)
  constructor
  · rintro ⟨hnumber, hword⟩
    exact ⟨htype.symm.trans hnumber, hlength.symm.trans hword⟩
  · rintro ⟨hnumber, hword⟩
    exact ⟨htype.trans hnumber, hlength.trans hword⟩

/-! ## One call -/

/-- The bytes of `count` items from `cur` on, none of them the loader's. -/
def Clear (loader : LoaderMemory) (cur count : ℕ) : Prop :=
  ∀ index < count * pageLookupTableItemSize, ¬ loader.Owns (u32 (cur + index))

theorem u32_add_u32 (left right : ℕ) : u32 (u32 left + right) = u32 (left + right) :=
  Nat.mod_add_mod _ _ _

/-- The loop gets through exactly if it leaves the loader alone. -/
theorem markLoop_returns_iff (count cur : ℕ) (memory : Memory) :
    (∃ memory', markLoop loader type count cur memory = .ok memory') ↔
      Clear loader cur count := by
  induction count generalizing cur memory with
  | zero => simp [markLoop, Clear]
  | succ count ih =>
      rw [markLoop]
      by_cases howned : ∃ index < pageLookupTableItemSize, loader.Owns (u32 (cur + index))
      · rw [if_pos howned]
        obtain ⟨index, hindex, howns⟩ := howned
        refine iff_of_false (by simp) fun hclear => hclear index ?_ howns
        rw [Nat.add_mul]
        omega
      · rw [if_neg howned, ih]
        constructor
        · intro hrest index hindex
          by_cases hfirst : index < pageLookupTableItemSize
          · exact fun howns => howned ⟨index, hfirst, howns⟩
          · have hnext := hrest (index - pageLookupTableItemSize) (by
              rw [Nat.add_mul] at hindex
              omega)
            rwa [u32_add_u32, Nat.add_assoc, Nat.add_sub_cancel' (not_lt.mp hfirst)] at hnext
        · intro hclear index hindex
          have hnext := hclear (pageLookupTableItemSize + index) (by
            rw [Nat.add_mul]
            omega)
          rwa [← Nat.add_assoc, ← u32_add_u32] at hnext

theorem memoryMarkItem_length_lt (type : MemoryType) : (memoryMarkItem type).length < 2 ^ 32 := by
  rw [memoryMarkItem]
  dsimp only
  split <;> norm_num

/-- The loop writes the items of its range and no other. -/
theorem markLoop_holdsItem (hend : (index + count) * pageLookupTableItemSize ≤ 2 ^ 32)
    (hloop : markLoop loader type count (u32 (base + index * pageLookupTableItemSize)) memory =
      .ok memory') (hother : (other + 1) * pageLookupTableItemSize ≤ 2 ^ 32) :
    (index ≤ other ∧ other < index + count → HoldsItem memory' base other (memoryMarkItem type)) ∧
      (¬ (index ≤ other ∧ other < index + count) → ∀ held,
        (HoldsItem memory' base other held ↔ HoldsItem memory base other held)) := by
  induction count generalizing index memory with
  | zero =>
      obtain rfl := Except.ok.inj hloop
      exact ⟨fun hrange => by omega, fun _ _ => Iff.rfl⟩
  | succ count ih =>
      rw [markLoop] at hloop
      split at hloop
      · exact absurd hloop (by simp)
      · have hnext : u32 (u32 (base + index * pageLookupTableItemSize) + pageLookupTableItemSize) =
            u32 (base + (index + 1) * pageLookupTableItemSize) := by
          rw [u32_add_u32, Nat.add_assoc, Nat.add_mul, Nat.one_mul]
        rw [hnext] at hloop
        have hindex : (index + 1) * pageLookupTableItemSize ≤ 2 ^ 32 :=
          (Nat.mul_le_mul_right _ (by omega)).trans hend
        obtain ⟨hinside, houtside⟩ := ih (by rwa [Nat.add_right_comm, Nat.add_assoc]) hloop
        by_cases hhead : other = index
        · subst hhead
          refine ⟨fun _ => ?_, fun hrange => absurd ⟨le_rfl, by omega⟩ hrange⟩
          exact (houtside (by omega) _).mpr
            (holdsItem_storeItem_self hindex (memoryMarkItem_length_lt type))
        · refine ⟨fun hrange => hinside (by omega), fun hrange held => ?_⟩
          rw [houtside (by omega), holdsItem_storeItem_of_ne hindex hother hhead]

/-- A call that passes the bounds check writes its items or faults. -/
theorem memoryMarkPages_eq (hlowest : state.lowestPhysicalPage = 0)
    (hhighest : state.highestPhysicalPage + 1 < 2 ^ 64)
    (hfits : mark.Fits state.highestPhysicalPage) :
    memoryMarkPages loader state mark.start mark.count mark.type =
      (markLoop loader mark.type mark.count
        (u32 (state.pageLookupTable + mark.start * pageLookupTableItemSize)) state.memory).map
          fun memory => { state with memory := memory } := by
  obtain ⟨hpos, hend⟩ := hfits
  have hlast : u64 (mark.start + mark.count + (2 ^ 64 - 1)) = mark.start + mark.count - 1 := by
    simp only [u64]
    omega
  rw [memoryMarkPages, hlowest, hlast, if_neg (by omega), Nat.sub_zero]
  cases markLoop loader mark.type mark.count
    (u32 (state.pageLookupTable + mark.start * pageLookupTableItemSize)) state.memory <;> rfl

/-! ## All calls -/

/-- The calls return exactly if none of them touches the loader. -/
theorem markAll_returns_iff (hlowest : state.lowestPhysicalPage = 0)
    (hhighest : state.highestPhysicalPage + 1 < 2 ^ 64)
    (hfits : ∀ mark ∈ marks, mark.Fits state.highestPhysicalPage) :
    (∃ after, markAll loader marks state = .ok after) ↔
      ∀ mark ∈ marks, Clear loader
        (u32 (state.pageLookupTable + mark.start * pageLookupTableItemSize)) mark.count := by
  induction marks generalizing state with
  | nil => simp [markAll]
  | cons mark rest ih =>
      obtain ⟨hmark, hrest⟩ := List.forall_mem_cons.mp hfits
      have hreturns := @markLoop_returns_iff loader mark.type mark.count
        (u32 (state.pageLookupTable + mark.start * pageLookupTableItemSize)) state.memory
      rw [markAll, memoryMarkPages_eq hlowest hhighest hmark, List.forall_mem_cons, ← hreturns]
      cases hloop : markLoop loader mark.type mark.count
          (u32 (state.pageLookupTable + mark.start * pageLookupTableItemSize)) state.memory with
      | error halt => simp [Except.map]
      | ok memory =>
          have hnext := @ih { state with memory := memory } hlowest hhighest hrest
          exact hnext.trans (by simp)

/-- What a call that returns leaves behind. -/
theorem markAll_cons (hlowest : state.lowestPhysicalPage = 0)
    (hhighest : state.highestPhysicalPage + 1 < 2 ^ 64)
    (hfits : mark.Fits state.highestPhysicalPage)
    (hall : markAll loader (mark :: marks) state = .ok after) :
    ∃ memory', markLoop loader mark.type mark.count
        (u32 (state.pageLookupTable + mark.start * pageLookupTableItemSize)) state.memory =
          .ok memory' ∧ markAll loader marks { state with memory := memory' } = .ok after := by
  rw [markAll, memoryMarkPages_eq hlowest hhighest hfits] at hall
  cases hloop : markLoop loader mark.type mark.count
      (u32 (state.pageLookupTable + mark.start * pageLookupTableItemSize)) state.memory with
  | error halt =>
      rw [hloop] at hall
      exact absurd hall (by simp [Except.map])
  | ok memory =>
      rw [hloop] at hall
      exact ⟨memory, rfl, hall⟩

/-- Only the memory changes. -/
theorem markAll_globals (hlowest : state.lowestPhysicalPage = 0)
    (hhighest : state.highestPhysicalPage + 1 < 2 ^ 64)
    (hfits : ∀ mark ∈ marks, mark.Fits state.highestPhysicalPage)
    (hall : markAll loader marks state = .ok after) :
    after = { state with memory := after.memory } := by
  induction marks generalizing state with
  | nil =>
      obtain rfl := Except.ok.inj hall
      rfl
  | cons mark rest ih =>
      obtain ⟨hmark, hrest⟩ := List.forall_mem_cons.mp hfits
      obtain ⟨memory, -, hnext⟩ := markAll_cons hlowest hhighest hmark hall
      exact @ih { state with memory := memory } hlowest hhighest hrest hnext

/-- A page that held an item or that a call covers holds the item that the calls leave it. -/
theorem markAll_holdsItem (hlowest : state.lowestPhysicalPage = 0)
    (hend : (state.highestPhysicalPage + 1) * pageLookupTableItemSize ≤ 2 ^ 32)
    (hfits : ∀ mark ∈ marks, mark.Fits state.highestPhysicalPage)
    (hall : markAll loader marks state = .ok after) (hpage : page ≤ state.highestPhysicalPage)
    (hwritten : HoldsItem state.memory state.pageLookupTable page held ∨
      ∃ mark ∈ marks, mark.Covers page) :
    HoldsItem after.memory state.pageLookupTable page (itemAfter marks page held) := by
  induction marks generalizing state held with
  | nil =>
      obtain rfl := Except.ok.inj hall
      exact hwritten.resolve_right (by simp)
  | cons mark rest ih =>
      obtain ⟨hmark, hrest⟩ := List.forall_mem_cons.mp hfits
      have hhighest : state.highestPhysicalPage + 1 < 2 ^ 64 :=
        ((Nat.le_mul_of_pos_right _ (by decide)).trans hend).trans_lt (by norm_num)
      obtain ⟨memory, hloop, hnext⟩ := markAll_cons hlowest hhighest hmark hall
      obtain ⟨hinside, houtside⟩ := markLoop_holdsItem
        ((Nat.mul_le_mul_right _ hmark.2).trans hend) hloop
        ((Nat.mul_le_mul_right _ (Nat.succ_le_succ hpage)).trans hend)
      rw [itemAfter_cons]
      refine @ih { state with memory := memory } _ hlowest hend hrest hnext hpage ?_
      by_cases hcovers : mark.Covers page
      · rw [if_pos hcovers]
        exact Or.inl (hinside hcovers)
      · rw [if_neg hcovers]
        rcases hwritten with hheld | ⟨other, hmem, hother⟩
        · exact Or.inl ((houtside hcovers held).mpr hheld)
        · rcases List.mem_cons.mp hmem with rfl | hlater
          · exact absurd hother hcovers
          · exact Or.inr ⟨other, hlater, hother⟩

/-! ## The loader is left alone -/

/-- From this address on there is room for `size` bytes below 4 GiB and in front of the
item behind them, or the bytes go around the loader. -/
theorem clear_of_le {start : ℕ} (hbase : loader.endAddress ≤ base)
    (hend : base + (start + count) * pageLookupTableItemSize ≤ 2 ^ 32 + pageLookupTableItemSize) :
    Clear loader (u32 (base + start * pageLookupTableItemSize)) count := by
  intro index hindex
  have hmap := loader.map_le
  have hsize : pageLookupTableItemSize = 12 := rfl
  rw [u32_add_u32, LoaderMemory.Owns, loaderStart]
  rw [Nat.add_mul] at hend
  simp only [u32]
  omega

/-- A table with more bytes than the loader leaves in 4 GiB comes to the loader. -/
theorem size_le_of_clear (hbase : base < 2 ^ 32) (hclear : Clear loader base count) :
    (count + 1) * pageLookupTableItemSize ≤ 2 ^ 32 := by
  by_contra hlarge
  have hmap := loader.map_le
  have hsize : pageLookupTableItemSize = 12 := rfl
  have hstack := hclear (u32 (0x8000 + 2 ^ 32 - base))
  have himage := hclear (u32 (0x9000 + 2 ^ 32 - base))
  simp only [LoaderMemory.Owns, loaderStart, u32, hsize] at hstack himage hlarge
  omega

/-- A table over the first bytes of the memory is short. -/
theorem size_le_of_clear_low (hbase : base ≤ loaderStart) (hclear : Clear loader base count) :
    base + count * pageLookupTableItemSize ≤ loaderStart := by
  by_contra hlarge
  have hmap := loader.map_le
  have hstart := hclear (loaderStart - base)
  have hlow : loaderStart = 0x8000 := rfl
  simp only [LoaderMemory.Owns, u32, hlow] at hstart hlarge hbase
  omega

/-! ## The place of the table -/

/-- The item has as many bytes as the table and starts below 4 GiB. -/
structure CanHold (size : ℕ) (item : FirmwareMemoryMapItem) : Prop where
  free : item.type = .free
  below : startByte item < 2 ^ 32
  inside : startByte item + size ≤ endByte item

instance (size : ℕ) (item : FirmwareMemoryMapItem) : Decidable (CanHold size item) :=
  decidable_of_iff (item.type = .free ∧ startByte item < 2 ^ 32 ∧
    startByte item + size ≤ endByte item)
    ⟨fun ⟨hfree, hbelow, hinside⟩ => ⟨hfree, hbelow, hinside⟩,
      fun hcanHold => ⟨hcanHold.free, hcanHold.below, hcanHold.inside⟩⟩

/-- The table is put in the item and ends below 4 GiB: the item ends there itself, or it has
more bytes than the table in front of 4 GiB and at least as many behind. -/
def Suits (size : ℕ) (cur : FirmwareMemoryMapItem) : Prop :=
  endByte cur ≤ 2 ^ 32 ∨ startByte cur + size < 2 ^ 32 ∧ 2 ^ 32 + size ≤ endByte cur

/-- The first item that can hold the table suits it. -/
def FirstSuits (items : List FirmwareMemoryMapItem) : Prop :=
  ∃ front cur back, items = front ++ cur :: back ∧
    (∀ other ∈ front, ¬ CanHold (tableSize items) other) ∧ CanHold (tableSize items) cur ∧
      Suits (tableSize items) cur

/-- The map that the loader builds: its own pages come first, and the table's type is not
one of the firmware's. -/
structure BuiltMap (loader : LoaderMemory) (items : List FirmwareMemoryMapItem) : Prop where
  free_behind : ∀ item ∈ items, item.type = .free → loader.endAddress ≤ startByte item
  no_table : ∀ item ∈ items, item.type ≠ .pageLookupTable

/-- The item that the loop takes, and the place in it. -/
structure Taken (items : List FirmwareMemoryMapItem) (cur : FirmwareMemoryMapItem) : Prop where
  first : ∃ front back, items = front ++ cur :: back ∧
    ∀ other ∈ front, ¬ CanHold (tableSize items) other
  canHold : CanHold (tableSize items) cur
  place : findLoop (tableSize items) items =
    if 2 ^ 32 ≤ endByte cur - tableSize items then
      if startByte cur < 2 ^ 32 - tableSize items then 2 ^ 32 - tableSize items else 0
    else endByte cur - tableSize items

variable {size : ℕ}

theorem tableSize_pos (hpos : 1 ≤ highestFreePage items) : 0 < tableSize items :=
  Nat.mul_pos hpos (by decide)

theorem tableSize_lt_of_le (hend : (highestFreePage items + 1) * pageLookupTableItemSize ≤ 2 ^ 32) :
    tableSize items < 2 ^ 32 := by
  have hmore : tableSize items < (highestFreePage items + 1) * pageLookupTableItemSize :=
    Nat.mul_lt_mul_of_pos_right (Nat.lt_succ_self _) (by decide)
  exact hmore.trans_le hend

theorem canHold_iff_qualifies (hsmall : size < 2 ^ 32) (hbelow : startByte cur < 2 ^ 32) :
    CanHold size cur ↔ Qualifies size cur := by
  have hword : u64 (startByte cur) = startByte cur := u64_of_lt (hbelow.trans (by norm_num))
  have hlength := endByte_eq cur
  rw [Qualifies, pageEnd_div (hsmall.trans (by norm_num))]
  constructor
  · rintro ⟨hfree, -, hinside⟩
    refine ⟨hfree, by omega, hword.le.trans (by omega)⟩
  · rintro ⟨hfree, hcount, -⟩
    exact ⟨hfree, hbelow, by omega⟩

/-- The place in an item, without the words. -/
theorem tablePlace_of_canHold (hcur : CanHold size cur) (hpos : 0 < size) (hsmall : size < 2 ^ 32)
    (hend : endByte cur < 2 ^ 64) :
    tablePlace size cur =
      if 2 ^ 32 ≤ endByte cur - size then
        if startByte cur < 2 ^ 32 - size then 2 ^ 32 - size else 0
      else endByte cur - size := by
  have hbelow := hcur.below
  have hinside := hcur.inside
  have hsize : u64 size = size := u64_of_lt (hsmall.trans (by norm_num))
  have hstart : u64 (startByte cur) = startByte cur := u64_of_lt (hbelow.trans (by norm_num))
  have htop : sub64 (2 ^ 32) size = 2 ^ 32 - size := sub64_of_le (by norm_num) hsmall.le
  have hloc : sub64 (endByte cur) size = endByte cur - size := sub64_of_le hend (by omega)
  have hpages : cur.endPage < 2 ^ 64 :=
    (Nat.le_mul_of_pos_right cur.endPage (by norm_num : 0 < 4096)).trans_lt hend
  have hplace := @tablePlace_def cur size hpages
  rw [hsize, hstart, u64_of_lt hend, htop, hloc] at hplace
  rw [hplace]
  by_cases hlarge : 2 ^ 32 ≤ endByte cur - size
  · rw [if_pos hlarge, if_pos hlarge, u32_of_lt (by omega)]
  · rw [if_neg hlarge, if_neg hlarge, u32_of_lt (by omega)]

theorem endByte_le_highest (hsorted : Sorted items) (hmem : cur ∈ items)
    (hfree : cur.type = .free) : endByte cur ≤ (highestFreePage items + 1) * 4096 :=
  Nat.mul_le_mul_right 4096 ((memoryCountUsablePages_spec hsorted).2.1 cur hmem hfree)

/-- The search takes the first item that can hold the table. -/
theorem taken_of_first (hsorted : Sorted items) (hpos : 1 ≤ highestFreePage items)
    (hsmall : tableSize items < 2 ^ 32) (hsplit : items = front ++ cur :: back)
    (hfront : ∀ other ∈ front, ¬ CanHold (tableSize items) other)
    (hcur : CanHold (tableSize items) cur) : Taken items cur := by
  refine ⟨⟨front, back, hsplit, hfront⟩, hcur, ?_⟩
  have hbytes : tableSize items = highestFreePage items * 12 := rfl
  have hskip : ∀ other ∈ front, ¬ Qualifies (tableSize items) other := by
    intro other hmem hother
    rw [hsplit] at hsorted
    have hbefore := (List.pairwise_append.mp hsorted.ordered.sorted).2.2 other hmem cur
      List.mem_cons_self
    have hpages := hsorted.ordered.nonempty other (List.mem_append_left _ hmem)
    have hbelow : startByte other < 2 ^ 32 :=
      (Nat.mul_le_mul_right 4096 (hpages.le.trans hbefore)).trans_lt hcur.below
    exact hfront other hmem ((canHold_iff_qualifies hsmall hbelow).mpr hother)
  have htake := (canHold_iff_qualifies hsmall hcur.below).mp hcur
  have hresult : findLoop (tableSize items) items = tablePlace (tableSize items) cur := by
    conv_lhs => rw [hsplit]
    rw [findLoop_append _ (hsplit ▸ hskip), ← hsplit, findLoop_take back htake]
  have hend := endByte_le_highest hsorted (hsplit ▸ List.mem_append_right _ List.mem_cons_self)
    hcur.free
  rw [hresult]
  exact tablePlace_of_canHold hcur (tableSize_pos hpos) hsmall (by omega)

theorem exists_taken (hsorted : Sorted items) (hpos : 1 ≤ highestFreePage items)
    (hsmall : tableSize items < 2 ^ 32) (hhold : ∃ item ∈ items, CanHold (tableSize items) item) :
    ∃ cur, Taken items cur := by
  obtain ⟨item, hmem, hitem⟩ := hhold
  obtain ⟨first, hfirst⟩ : ∃ first, items.find? (fun other =>
      decide (CanHold (tableSize items) other)) = some first :=
    Option.isSome_iff_exists.mp (List.find?_isSome.mpr ⟨item, hmem, decide_eq_true hitem⟩)
  obtain ⟨hcanHold, front, back, hsplit, hfront⟩ := List.find?_eq_some_iff_append.mp hfirst
  exact ⟨first, taken_of_first hsorted hpos hsmall hsplit
    (fun other hother => by simpa using hfront other hother) (of_decide_eq_true hcanHold)⟩

/-! ## What `memory_init` does -/

/-- The state in front of the first call. -/
def initialGlobals (items : List FirmwareMemoryMapItem) (memory : Memory) : State :=
  ⟨0, highestFreePage items, findLoop (u64 (tableSize items)) items, memory⟩

/-- The calls are those for a table of items. -/
theorem memoryInit_eq (hread : readItems map maxMemoryMapEntries 0 = some items)
    (hsorted : Sorted items) :
    memoryInit loader map memory =
      markAll loader (roundMarks items ++ [tableMark items]) (initialGlobals items memory) := by
  rw [memoryInit, hread]
  dsimp only
  rw [initMarks_eq hsorted, initialState_eq hsorted, initialGlobals]

theorem initMarks_fits (hsorted : Sorted items) (hpos : 1 ≤ highestFreePage items)
    (hsmall : tableSize items < 2 ^ 32) :
    ∀ mark ∈ roundMarks items ++ [tableMark items], mark.Fits (highestFreePage items) := by
  have hsize : u64 (tableSize items) = tableSize items :=
    u64_of_lt (hsmall.trans (by norm_num))
  have htable := tablePages_initMarks hsorted hpos hsmall
  rw [List.forall_mem_append, List.forall_mem_singleton, tableMark, hsize, u32_of_lt hsmall]
  exact ⟨roundMarks_fits hsorted hpos, htable.count_pos, htable.end_le⟩

theorem findLoop_lt (totalTableSize : ℕ) (items : List FirmwareMemoryMapItem) :
    findLoop totalTableSize items < 2 ^ 32 := by
  rcases findLoop_spec totalTableSize items with ⟨-, hzero⟩ | ⟨_, cur, _, -, -, -, hplace⟩
  · rw [hzero]
    exact Nat.two_pow_pos 32
  · rw [hplace, tablePlace]
    split
    · split
      · exact u32_lt _
      · exact Nat.two_pow_pos 32
    · exact u32_lt _

/-- If the first round returns, the table does not come to the loader. -/
theorem clear_of_memoryInit (hread : readItems map maxMemoryMapEntries 0 = some items)
    (hsorted : Sorted items) (hpos : 1 ≤ highestFreePage items)
    (hinit : memoryInit loader map memory = .ok after) :
    Clear loader (findLoop (u64 (tableSize items)) items) (highestFreePage items) := by
  have hlowest : (initialGlobals items memory).lowestPhysicalPage = 0 := rfl
  have hhighest : (initialGlobals items memory).highestPhysicalPage + 1 < 2 ^ 64 :=
    highestFreePage_lt hsorted
  have hfirst : (⟨0, highestFreePage items, .unusable⟩ : Mark).Fits
      (initialGlobals items memory).highestPhysicalPage :=
    roundMarks_fits hsorted hpos _ List.mem_cons_self
  rw [memoryInit_eq hread hsorted, roundMarks, List.cons_append] at hinit
  obtain ⟨memory', hloop, -⟩ := markAll_cons hlowest hhighest hfirst hinit
  have hclear := (markLoop_returns_iff _ _ _).mp ⟨memory', hloop⟩
  have hplace : u32 ((initialGlobals items memory).pageLookupTable +
      0 * pageLookupTableItemSize) = findLoop (u64 (tableSize items)) items := by
    rw [Nat.zero_mul, Nat.add_zero]
    exact u32_of_lt (findLoop_lt _ _)
  rwa [hplace] at hclear

instance (page address size : ℕ) : Decidable (Intersects page address size) :=
  inferInstanceAs (Decidable (_ ∧ _))

/-- The type that the calls give to a page. -/
def writtenType (items : List FirmwareMemoryMapItem) (page : ℕ) : MemoryType :=
  if Intersects page (findLoop (tableSize items) items) (tableSize items) then .pageLookupTable
  else (typeAt items page).getD .unusable

theorem itemAfter_initMarks (hsorted : Sorted items) (hpos : 1 ≤ highestFreePage items)
    (hsmall : tableSize items < 2 ^ 32) (hpage : page < highestFreePage items)
    (held : PageLookupTableItem) :
    itemAfter (roundMarks items ++ [tableMark items]) page held =
      memoryMarkItem (writtenType items page) := by
  have hsize : u64 (tableSize items) = tableSize items :=
    u64_of_lt (hsmall.trans (by norm_num))
  have htable := (tablePages_initMarks hsorted hpos hsmall).occupied page
  have hcovers : (tableMark items).Covers page ↔
      Intersects page (findLoop (tableSize items) items) (tableSize items) := by
    rw [tableMark, hsize, u32_of_lt hsmall]
    exact htable.symm
  rw [itemAfter_append, itemAfter_roundMarks hsorted hpage, itemAfter_cons, writtenType]
  by_cases hinside : Intersects page (findLoop (tableSize items) items) (tableSize items)
  · rw [if_pos (hcovers.mpr hinside), if_pos hinside]
    rfl
  · rw [if_neg (mt hcovers.mp hinside), if_neg hinside]
    rfl

/-- If `memory_init` returns, every page below the highest one has the type of the last
call that covers it. -/
theorem memoryInit_holdsItem (hread : readItems map maxMemoryMapEntries 0 = some items)
    (hsorted : Sorted items) (hpos : 1 ≤ highestFreePage items)
    (hend : (highestFreePage items + 1) * pageLookupTableItemSize ≤ 2 ^ 32)
    (hinit : memoryInit loader map memory = .ok after) :
    after = initialGlobals items after.memory ∧
      ∀ page < highestFreePage items,
        HoldsItem after.memory (findLoop (u64 (tableSize items)) items) page
          (memoryMarkItem (writtenType items page)) := by
  have hsmall := tableSize_lt_of_le hend
  have hlowest : (initialGlobals items memory).lowestPhysicalPage = 0 := rfl
  have hhighest : (initialGlobals items memory).highestPhysicalPage = highestFreePage items := rfl
  have hfits := initMarks_fits hsorted hpos hsmall
  rw [← hhighest] at hfits hend
  rw [memoryInit_eq hread hsorted] at hinit
  refine ⟨markAll_globals hlowest (highestFreePage_lt hsorted) hfits hinit, fun page hpage => ?_⟩
  have hcovered : (⟨0, highestFreePage items, .unusable⟩ : Mark).Covers page :=
    ⟨Nat.zero_le page, by rwa [Nat.zero_add]⟩
  have hwritten : ∃ mark ∈ roundMarks items ++ [tableMark items], mark.Covers page :=
    ⟨_, List.mem_append_left _ List.mem_cons_self, hcovered⟩
  have hitem := @markAll_holdsItem _ _ _ _ page (memoryMarkItem .unusable) hlowest hend hfits
    hinit hpage.le (Or.inr hwritten)
  rwa [itemAfter_initMarks hsorted hpos hsmall hpage] at hitem

/-- The memory holds the table of items. -/
theorem memoryInit_refines (hread : readItems map maxMemoryMapEntries 0 = some items)
    (hsorted : Sorted items) (hpos : 1 ≤ highestFreePage items)
    (hinit : memoryInit loader map memory = .ok after) (contents : ℕ → PageLookupTableItem) :
    ∃ state : MemoryState, PageLookupTable.memoryInit map contents = .ok state ∧
      after.lowestPhysicalPage = state.lowestPhysicalPage ∧
      after.highestPhysicalPage = state.highestPhysicalPage ∧
      after.pageLookupTable = state.tableAddress ∧
      ∀ page < state.itemCount,
        HoldsItem after.memory after.pageLookupTable page (state.pageLookupTable page) := by
  have hclear := clear_of_memoryInit hread hsorted hpos hinit
  have hend := size_le_of_clear (findLoop_lt _ _) hclear
  have hsmall := tableSize_lt_of_le hend
  obtain ⟨hglobals, hitems⟩ := memoryInit_holdsItem hread hsorted hpos hend hinit
  obtain ⟨before, hbefore⟩ : ∃ before, before = initialState items contents := ⟨_, rfl⟩
  obtain ⟨hlowest, hhighest, haddress⟩ : before.lowestPhysicalPage = 0 ∧
      before.highestPhysicalPage = highestFreePage items ∧
      before.tableAddress = findLoop (u64 (tableSize items)) items := by
    rw [hbefore, initialState_eq hsorted]
    exact ⟨rfl, rfl, rfl⟩
  have hfits : ∀ mark ∈ initMarks items before, mark.Fits before.highestPhysicalPage := by
    rw [hhighest, hbefore, initMarks_eq hsorted]
    exact initMarks_fits hsorted hpos hsmall
  have hrun := markAll_of_fits hlowest (hhighest ▸ highestFreePage_lt hsorted) hfits
  have hcall : PageLookupTable.memoryInit map contents =
      PageLookupTable.markAll (initMarks items before) before := by
    rw [PageLookupTable.memoryInit, hread]
    dsimp only
    rw [← hbefore]
  refine ⟨_, hcall.trans hrun, ?_⟩
  rw [MemoryState.itemCount]
  dsimp only
  rw [hlowest, hhighest, haddress, hglobals]
  refine ⟨rfl, rfl, rfl, fun page hpage => ?_⟩
  rw [hbefore, initMarks_eq hsorted, itemAfter_initMarks hsorted hpos hsmall hpage]
  exact hitems page hpage

/-! ## When the table is the one that the map describes -/

theorem mem_of_typeAt (htype : typeAt items page = some type) :
    ∃ item ∈ items, item.type = type := by
  obtain ⟨item, hitem, hsame⟩ := Option.map_eq_some_iff.mp htype
  exact ⟨item, List.mem_of_find?_eq_some hitem, hsame⟩

theorem pageType_eq (hglobals : after = initialGlobals items after.memory)
    (hitem : HoldsItem after.memory (findLoop (u64 (tableSize items)) items) page
      (memoryMarkItem type)) :
    after.pageType page = type.number ∧ (after.pageLength page = 0 ↔ type = .free) := by
  have hlength := hitem.length
  have hnumber := hitem.type
  rw [hglobals, State.pageType, State.pageLength]
  refine ⟨hnumber, ?_⟩
  simp only [initialGlobals, Nat.sub_zero]
  rw [hlength]
  exact memoryMarkItem_length type

theorem occupies_iff (hglobals : after = initialGlobals items after.memory) :
    after.Occupies page ↔ ∃ index < tableSize items,
      u32 (findLoop (u64 (tableSize items)) items + index) / archPagesize = page := by
  rw [hglobals]
  rfl

/-- A table that goes on behind 4 GiB occupies page 0, which is not marked. -/
theorem end_le_of_describes (hbuilt : BuiltMap loader items) (hsmall : tableSize items < 2 ^ 32)
    (hclear : Clear loader (findLoop (tableSize items) items) (highestFreePage items))
    (hglobals : after = initialGlobals items after.memory)
    (hitem : HoldsItem after.memory (findLoop (u64 (tableSize items)) items) 0
      (memoryMarkItem (writtenType items 0)))
    (hdescribed : after.pageType 0 = (describedType items after 0).number) :
    findLoop (tableSize items) items + tableSize items ≤ 2 ^ 32 := by
  by_contra hwraps
  have hlt := findLoop_lt (tableSize items) items
  have hsize : u64 (tableSize items) = tableSize items :=
    u64_of_lt (hsmall.trans (by norm_num))
  have hoccupied : after.Occupies 0 := by
    rw [occupies_iff hglobals, hsize]
    refine ⟨2 ^ 32 - findLoop (tableSize items) items, by omega, ?_⟩
    rw [Nat.add_sub_cancel' hlt.le, u32, Nat.mod_self, Nat.zero_div]
  have htable : writtenType items 0 = .pageLookupTable := by
    rw [(pageType_eq hglobals hitem).1, describedType, if_pos hoccupied] at hdescribed
    exact number_injective hdescribed
  rw [writtenType] at htable
  split at htable
  · rename_i hinside
    have hlow : findLoop (tableSize items) items ≤ loaderStart := by
      have hbefore := hinside.2
      simp only [archPagesize, loaderStart] at hbefore ⊢
      omega
    have hshort := size_le_of_clear_low hlow hclear
    have hbytes : tableSize items = highestFreePage items * pageLookupTableItemSize := rfl
    rw [hbytes] at hwraps
    exact hwraps (hshort.trans (by decide))
  · cases htype : typeAt items 0 with
    | none =>
        rw [htype] at htable
        exact absurd htable (by decide)
    | some type =>
        rw [htype, Option.getD_some] at htable
        obtain ⟨item, hmem, hsame⟩ := mem_of_typeAt htype
        exact hbuilt.no_table item hmem (hsame.trans htable)

theorem firstSuits_of_describes (hread : readItems map maxMemoryMapEntries 0 = some items)
    (hsorted : Sorted items) (hpos : 1 ≤ highestFreePage items)
    (hhold : ∃ item ∈ items, CanHold (tableSize items) item) (hbuilt : BuiltMap loader items)
    (hdescribes : Describes loader map memory items) : FirstSuits items := by
  obtain ⟨after, hinit, hpages⟩ := hdescribes
  have hclear := clear_of_memoryInit hread hsorted hpos hinit
  have hend := size_le_of_clear (findLoop_lt _ _) hclear
  have hsmall := tableSize_lt_of_le hend
  have hsize : u64 (tableSize items) = tableSize items :=
    u64_of_lt (hsmall.trans (by norm_num))
  obtain ⟨hglobals, hitems⟩ := memoryInit_holdsItem hread hsorted hpos hend hinit
  have hhighest : after.highestPhysicalPage = highestFreePage items := by rw [hglobals]; rfl
  rw [hsize] at hclear
  have hbelow := end_le_of_describes hbuilt hsmall hclear hglobals (hitems 0 hpos)
    (hpages 0 (hhighest ▸ hpos)).1
  obtain ⟨cur, htaken⟩ := exists_taken hsorted hpos hsmall hhold
  obtain ⟨front, back, hsplit, hfront⟩ := htaken.first
  refine ⟨front, cur, back, hsplit, hfront, htaken.canHold, ?_⟩
  have hplace := htaken.place
  have hinside := htaken.canHold.inside
  rw [Suits]
  split at hplace
  · split at hplace
    · exact Or.inr ⟨by omega, by omega⟩
    · -- the table at address 0
      have hcur : cur ∈ items := hsplit ▸ List.mem_append_right _ List.mem_cons_self
      have hlast := endByte_le_highest hsorted hcur htaken.canHold.free
      have hshort := size_le_of_clear_low (hplace.le.trans (Nat.zero_le _)) hclear
      simp only [pageLookupTableItemSize, loaderStart] at hshort
      omega
  · exact Or.inl (by omega)

/-- The place in an item that suits the table. -/
theorem Taken.place_of_suits (htaken : Taken items cur) (hsuits : Suits (tableSize items) cur)
    (hpos : 0 < tableSize items) :
    startByte cur ≤ findLoop (tableSize items) items ∧
      findLoop (tableSize items) items + tableSize items ≤ 2 ^ 32 := by
  have hinside := htaken.canHold.inside
  have hbelow := htaken.canHold.below
  rw [htaken.place]
  rcases hsuits with hends | ⟨hfront, hbehind⟩
  · rw [if_neg (by omega)]
    omega
  · rw [if_pos (by omega), if_pos (by omega)]
    omega

/-- A page that the table occupies is one that the call for the table marks. -/
theorem describedType_eq (hglobals : after = initialGlobals items after.memory)
    (hpos : 0 < tableSize items) (hsmall : tableSize items < 2 ^ 32)
    (hend : findLoop (tableSize items) items + tableSize items ≤ 2 ^ 32) (page : ℕ) :
    describedType items after page = writtenType items page := by
  have hsize : u64 (tableSize items) = tableSize items :=
    u64_of_lt (hsmall.trans (by norm_num))
  have hsame : after.Occupies page ↔
      Intersects page (findLoop (tableSize items) items) (tableSize items) := by
    rw [occupies_iff hglobals, hsize, Intersects, archPagesize]
    constructor
    · rintro ⟨index, hindex, rfl⟩
      rw [u32_of_lt (by omega)]
      omega
    · rintro ⟨hlow, hhigh⟩
      refine ⟨page * 4096 - findLoop (tableSize items) items, by omega, ?_⟩
      rw [u32_of_lt (by omega)]
      omega
  rw [describedType, writtenType]
  simp only [hsame]

theorem describes_of_firstSuits (hread : readItems map maxMemoryMapEntries 0 = some items)
    (hsorted : Sorted items) (hpos : 1 ≤ highestFreePage items) (hbuilt : BuiltMap loader items)
    (hfirst : FirstSuits items) : Describes loader map memory items := by
  obtain ⟨front, cur, back, hsplit, hfront, hcur, hsuits⟩ := hfirst
  have hbytes : tableSize items = highestFreePage items * pageLookupTableItemSize := rfl
  have hmem : cur ∈ items := hsplit ▸ List.mem_append_right _ List.mem_cons_self
  have hinside := hcur.inside
  have hsmall : tableSize items < 2 ^ 32 := by
    simp only [pageLookupTableItemSize] at hbytes
    rcases hsuits with hends | ⟨hbefore, -⟩ <;> omega
  have hsize : u64 (tableSize items) = tableSize items :=
    u64_of_lt (hsmall.trans (by norm_num))
  have htaken := taken_of_first hsorted hpos hsmall hsplit hfront hcur
  obtain ⟨hstart, hbelow⟩ := htaken.place_of_suits hsuits (tableSize_pos hpos)
  have hbehind : loader.endAddress ≤ findLoop (tableSize items) items :=
    (hbuilt.free_behind cur hmem hcur.free).trans hstart
  have hend : (highestFreePage items + 1) * pageLookupTableItemSize ≤ 2 ^ 32 := by
    have hmap := loader.map_le
    have hsize : pageLookupTableItemSize = 12 := rfl
    rw [Nat.add_mul, ← hbytes]
    omega
  -- no call comes to the loader
  have hlowest : (initialGlobals items memory).lowestPhysicalPage = 0 := rfl
  have hfits := initMarks_fits hsorted hpos hsmall
  obtain ⟨after, hinit⟩ : ∃ after, memoryInit loader map memory = .ok after := by
    rw [memoryInit_eq hread hsorted]
    refine (markAll_returns_iff hlowest (highestFreePage_lt hsorted) hfits).mpr fun mark hmark =>
      clear_of_le ?_ ?_
    · rw [initialGlobals, hsize]
      exact hbehind
    · have hcount := Nat.mul_le_mul_right pageLookupTableItemSize (hfits mark hmark).2
      rw [Nat.add_mul (highestFreePage items), ← hbytes, Nat.one_mul] at hcount
      rw [initialGlobals, hsize]
      dsimp only
      omega
  obtain ⟨hglobals, hitems⟩ := memoryInit_holdsItem hread hsorted hpos hend hinit
  have hhighest : after.highestPhysicalPage = highestFreePage items := by rw [hglobals]; rfl
  refine ⟨after, hinit, fun page hpage => ?_⟩
  obtain ⟨hnumber, hlength⟩ := pageType_eq hglobals (hitems page (hhighest ▸ hpage))
  rw [describedType_eq hglobals (tableSize_pos hpos) hsmall hbelow, hnumber]
  exact ⟨rfl, hlength.trans ⟨congrArg MemoryType.number, number_injective⟩⟩

/-- `memory_init` builds the table that the map describes exactly if the first item that can
hold the table suits it. -/
theorem describes_iff_firstSuits (hread : readItems map maxMemoryMapEntries 0 = some items)
    (hsorted : Sorted items) (hpos : 1 ≤ highestFreePage items)
    (hhold : ∃ item ∈ items, CanHold (tableSize items) item) (hbuilt : BuiltMap loader items) :
    Describes loader map memory items ↔ FirstSuits items :=
  ⟨firstSuits_of_describes hread hsorted hpos hhold hbuilt,
    describes_of_firstSuits hread hsorted hpos hbuilt⟩

/-! ## The map that the loader builds -/

theorem readItems_drop {table : ℕ → FirmwareMemoryMapItem} {spare remaining slot : ℕ}
    (hholds : Holds table items spare) (hsorted : Sorted items) (hslot : slot ≤ items.length)
    (hroom : items.length < slot + remaining) :
    readItems table remaining slot = some (items.drop slot) := by
  induction remaining generalizing slot with
  | zero => omega
  | succ remaining ih =>
      rw [readItems]
      rcases hslot.lt_or_eq with hlt | rfl
      · have hitem := hholds.slot slot _ (List.getElem?_eq_getElem hlt)
        rw [hitem, if_pos (hsorted.pageCount_pos (List.getElem_mem hlt)), ih hlt (by omega),
          Option.map_some, ← List.drop_eq_getElem_cons hlt]
      · rw [if_neg (hholds.unused _ le_rfl (Nat.le_add_right _ _)).not_gt, List.drop_length]

/-- The pages in front of the loader's end have types of their own. -/
theorem endAddress_le_of_typeAt (hloader : typeAt (firmwareItems loader.endAddress) page = none) :
    loader.endAddress ≤ page * 4096 := by
  have hmap := loader.map_le
  rw [typeAt_eq_none_iff, itemAt, lookup_eq_none_iff] at hloader
  simp only [firmwareItems, List.mem_cons, List.not_mem_nil, or_false, forall_eq_or_imp,
    forall_eq, FirmwareMemoryMapItem.endPage, archPagesize] at hloader
  omega

/-- What the firmware reports is entered behind the loader's own pages, so `memory_init` finds
a map of this kind. -/
theorem builtMap_of_build {answers : List BiosMemoryMap} (hsound : ∀ map ∈ answers, map.Sound)
    (hfits : Fits loader.endAddress answers) :
    ∃ table items, memI386BuildMemoryMap loader.endAddress answers = .ok table ∧
      readItems table maxMemoryMapEntries 0 = some items ∧ Sorted items ∧
        BuiltMap loader items := by
  have hmap := loader.map_le
  have hreal := loader.end_le
  have hlow : 0x9000 ≤ loader.endAddress := by omega
  have hhigh : loader.endAddress < 2 ^ 32 := by omega
  have hzero : typeAt (firmwareItems loader.endAddress) 0 ≠ none := by
    simp [typeAt, itemAt, lookup, firmwareItems, FirmwareMemoryMapItem.endPage]
  obtain ⟨table, items, hbuild, hdetected⟩ :=
    (detected_initialMap hlow hhigh).run hsound hzero hfits
  have hsorted := hdetected.sorted
  have htype : ∀ item ∈ items, typeAt (firmwareItems loader.endAddress ++
      answers.map firmwareRange) item.basePage = some item.type := by
    intro item hmem
    obtain ⟨front, back, rfl⟩ := List.append_of_mem hmem
    rw [← hdetected.typeAt_eq, typeAt, itemAt, lookup_append, lookup_eq_none_of_le fun other
      hother => (List.pairwise_append.mp hsorted.ordered.sorted).2.2 other hother item
        List.mem_cons_self, Option.none_or,
      lookup_cons_of_mem le_rfl (hsorted.ordered.nonempty item hmem), Option.map_some]
  refine ⟨table, items, hbuild, ?_, hsorted, fun item hmem hfree => ?_, fun item hmem => ?_⟩
  · exact readItems_drop hdetected.holds hsorted (Nat.zero_le _)
      (by simpa using hdetected.room)
  · have hrecorded := htype item hmem
    cases hloader : typeAt (firmwareItems loader.endAddress) item.basePage with
    | none => exact endAddress_le_of_typeAt hloader
    | some type =>
        rw [typeAt, itemAt_append, Option.map_or, ← typeAt, hloader, Option.some_or, hfree,
          Option.some.injEq] at hrecorded
        obtain ⟨own, hown, hsame⟩ := mem_of_typeAt hloader
        exact absurd (hsame.trans hrecorded) (type_firmwareItems_ne hown)
  · obtain ⟨other, hother, hsame⟩ := mem_of_typeAt (htype item hmem)
    rw [← hsame]
    rcases List.mem_append.mp hother with hown | hreported
    · simp only [firmwareItems, List.mem_cons, List.not_mem_nil, or_false] at hown
      rcases hown with rfl | rfl | rfl | rfl | rfl <;> simp
    · obtain ⟨map, -, rfl⟩ := List.mem_map.mp hreported
      rw [firmwareRange]
      dsimp only
      split
      · decide
      · split <;> decide

/-- The loader's own pages, 8 MiB of free memory behind them, and the firmware below 4 GiB. -/
def eightMebibytes : List FirmwareMemoryMapItem :=
  firmwareItems 0x10000 ++ [⟨.free, 0x100, 0x700⟩, ⟨.special, 0xFFFC0, 0x40⟩]

theorem describes_iff_firstSuits_eightMebibytes :
    Describes ⟨0x10000, by decide, by decide⟩
        (fun slot => (eightMebibytes[slot]?).getD ⟨.free, 0, 0⟩) (fun _ => 0) eightMebibytes ↔
      FirstSuits eightMebibytes :=
  describes_iff_firstSuits (by decide) ⟨⟨by decide, by decide⟩, by decide⟩ (by decide)
    (by decide) ⟨by decide, by decide⟩

/-- A table that ends one page behind 4 GiB is not marked in page 0. -/
theorem acrossFourGiB_not_describes :
    ¬ ∀ (loader : LoaderMemory) (map : ℕ → FirmwareMemoryMapItem) (memory : Memory)
      (items : List FirmwareMemoryMapItem), readItems map maxMemoryMapEntries 0 = some items →
      Sorted items → 1 ≤ highestFreePage items →
      (∃ item ∈ items, CanHold (tableSize items) item) → BuiltMap loader items →
      Describes loader map memory items := by
  intro hall
  have hread : readItems (fun slot => (acrossFourGiB[slot]?).getD ⟨.free, 0, 0⟩)
      maxMemoryMapEntries 0 = some acrossFourGiB := by decide
  have hpos : 1 ≤ highestFreePage acrossFourGiB := by decide
  have hhold : ∃ item ∈ acrossFourGiB, CanHold (tableSize acrossFourGiB) item := by decide
  have hbuilt : BuiltMap ⟨0x10000, by decide, by decide⟩ acrossFourGiB :=
    ⟨by decide, by decide⟩
  obtain ⟨front, cur, back, hsplit, -, -, hsuits⟩ :=
    firstSuits_of_describes hread acrossFourGiB_sorted hpos hhold hbuilt
      (hall _ _ (fun _ => 0) _ hread acrossFourGiB_sorted hpos hhold hbuilt)
  obtain rfl : cur = ⟨.free, 0x100, 0xFFF01⟩ := by
    rw [← List.mem_singleton, ← acrossFourGiB, hsplit]
    exact List.mem_append_right _ List.mem_cons_self
  rw [Suits] at hsuits
  exact absurd hsuits (by decide)

end GeexOS.TableMemory
