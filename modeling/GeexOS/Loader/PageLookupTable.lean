import GeexOS.Loader.FirmwareScan

/-!
# Setting up the page lookup table

`memoryInit` takes the highest page from the firmware's map, looks for a place
for the table and marks the pages in three rounds: all of them as unusable, then
each item of the map, then the table itself.  The bounds check of the marking
counts the highest page in, the size of the table does not.
-/

namespace GeexOS.PageLookupTable

open GeexOS.Words
open GeexOS.Halting
open GeexOS.PhysicalMemory
open GeexOS.FirmwareMap
open GeexOS.RangeMap

/-- `sizeof(PageLookupTableItem)`: an enumerator and a 64-bit word, which has an
alignment of 4 on i386. -/
def pageLookupTableItemSize : ℕ := 12

/-- The loop of `memory_count_usable_pages`. -/
def countLoop : List FirmwareMemoryMapItem → (highestPhysicalPage lowestPhysicalPage : ℕ) → ℕ × ℕ
  | [], highestPhysicalPage, lowestPhysicalPage => (highestPhysicalPage, lowestPhysicalPage)
  | cur :: rest, highestPhysicalPage, lowestPhysicalPage =>
      countLoop rest
        (if u64 (cur.basePage + cur.pageCount) > highestPhysicalPage then
          if cur.type = .free then sub64 (u64 (cur.basePage + cur.pageCount)) 1
          else highestPhysicalPage
        else highestPhysicalPage)
        (if cur.basePage < lowestPhysicalPage then cur.basePage else lowestPhysicalPage)

/-- `memory_count_usable_pages`: the highest and the lowest page. -/
def memoryCountUsablePages (items : List FirmwareMemoryMapItem) : ℕ × ℕ := countLoop items 0 0

/-- The place at the end of an item that is large enough, below 4 GiB; 0 stands
for no place. -/
def tablePlace (totalTableSize : ℕ) (cur : FirmwareMemoryMapItem) : ℕ :=
  let loc := sub64 (u64 (u64 (cur.basePage + cur.pageCount) * archPagesize)) totalTableSize
  if loc > 0xFFFFFFFF then
    if sub64 0x100000000 totalTableSize > u64 (cur.basePage * archPagesize) then
      u32 (sub64 0x100000000 totalTableSize)
    else 0
  else u32 loc

/-- The loop of `memory_find_page_lookup_table_location` over the items. -/
def findLoop (totalTableSize : ℕ) : List FirmwareMemoryMapItem → ℕ
  | [] => 0
  | cur :: rest =>
      let totalTableSizeInPages := pageEnd totalTableSize / archPagesize
      if cur.type ≠ .free then findLoop totalTableSize rest
      else if cur.pageCount < totalTableSizeInPages then findLoop totalTableSize rest
      else if u64 (cur.basePage * archPagesize) > 0xFFFFFFFF then findLoop totalTableSize rest
      else tablePlace totalTableSize cur

def memoryFindPageLookupTableLocation (totalPageCount : ℕ)
    (items : List FirmwareMemoryMapItem) : ℕ :=
  findLoop (u64 (totalPageCount * pageLookupTableItemSize)) items

/-- The arguments of a call of `memory_mark_pages`. -/
structure Mark where
  start : ℕ
  count : ℕ
  type : MemoryType
  deriving DecidableEq, Repr

/-- The calls one after the other. -/
def markAll : List Mark → MemoryState → Outcome MemoryState
  | [], state => .ok state
  | mark :: rest, state => do
      let state ← memoryMarkPages state mark.start mark.count mark.type
      markAll rest state

/-- The allocator's globals before the first page is marked; `contents` is what
the memory at the place of the table holds. -/
def initialState (items : List FirmwareMemoryMapItem) (contents : ℕ → PageLookupTableItem) :
    MemoryState :=
  let (highestPhysicalPage, lowestPhysicalPage) := memoryCountUsablePages items
  ⟨lowestPhysicalPage, highestPhysicalPage,
    memoryFindPageLookupTableLocation (sub64 highestPhysicalPage lowestPhysicalPage) items,
    contents⟩

/-- The calls that `memory_init` makes for a state: all pages, the items, the
table. -/
def initMarks (items : List FirmwareMemoryMapItem) (state : MemoryState) : List Mark :=
  let usablePages := sub64 state.highestPhysicalPage state.lowestPhysicalPage
  let lookupTableStartPage := pageNum (pageStart state.tableAddress)
  let lookupTablePageLen := pageNum (pageEnd (u32 (u64 (usablePages * pageLookupTableItemSize))))
  ⟨state.lowestPhysicalPage, usablePages, .unusable⟩ ::
    ((items.filter fun cur => cur.basePage < state.highestPhysicalPage).map fun cur =>
      ⟨cur.basePage, cur.pageCount, cur.type⟩) ++
    [⟨lookupTableStartPage, lookupTablePageLen, .pageLookupTable⟩]

/-- `memory_init`; the loops over the map fault if they leave the array.  The table is taken to
lie apart from the map and the rest of the loader, in one piece: see `TableMemory` for the rest. -/
def memoryInit (map : ℕ → FirmwareMemoryMapItem) (contents : ℕ → PageLookupTableItem) :
    Outcome MemoryState :=
  match readItems map maxMemoryMapEntries 0 with
  | none => .error .fault
  | some items =>
      let state := initialState items contents
      markAll (initMarks items state) state

variable {map : ℕ → FirmwareMemoryMapItem} {items : List FirmwareMemoryMapItem}
variable {item : FirmwareMemoryMapItem} {contents : ℕ → PageLookupTableItem}
variable {state after : MemoryState} {mark : Mark} {marks : List Mark} {page : ℕ}

/-! ## Bounds -/

theorem countLoop_spec (hsorted : ∀ item ∈ items, item.endPage < 2 ^ 64 ∧ 0 < item.pageCount)
    {highest lowest highest' lowest' : ℕ}
    (hloop : countLoop items highest lowest = (highest', lowest')) :
    highest ≤ highest' ∧
      (∀ item ∈ items, item.type = .free → item.endPage ≤ highest' + 1) ∧
      (highest' = highest ∨ ∃ item ∈ items, item.type = .free ∧ item.endPage = highest' + 1) ∧
      lowest' ≤ lowest := by
  induction items generalizing highest lowest with
  | nil =>
      obtain ⟨rfl, rfl⟩ := Prod.mk.inj hloop
      exact ⟨le_rfl, by simp, Or.inl rfl, le_rfl⟩
  | cons cur rest ih =>
      obtain ⟨⟨hend, hpos⟩, hrest⟩ := List.forall_mem_cons.mp hsorted
      simp only [FirmwareMemoryMapItem.endPage] at hend
      have hless : cur.basePage + cur.pageCount > 0 → sub64 (cur.basePage + cur.pageCount) 1 =
          cur.basePage + cur.pageCount - 1 := fun hone => sub64_of_le hend hone
      rw [countLoop, u64_of_lt hend, hless (by omega)] at hloop
      obtain ⟨hhighest, hall, hattained, hlowest⟩ := ih hrest hloop
      have hlow : lowest' ≤ lowest := by
        split at hlowest <;> omega
      by_cases hfree : cur.type = .free
      · rw [if_pos hfree] at hhighest hattained
        have hmore : highest ≤ highest' ∧ cur.basePage + cur.pageCount ≤ highest' + 1 := by
          split at hhighest <;> omega
        refine ⟨hmore.1, List.forall_mem_cons.mpr ⟨fun _ => hmore.2, hall⟩, ?_, hlow⟩
        rcases hattained with heq | ⟨item, hmem, hitem⟩
        · split at heq
          · refine Or.inr ⟨cur, List.mem_cons_self, hfree, ?_⟩
            simp only [FirmwareMemoryMapItem.endPage]
            omega
          · exact Or.inl heq
        · exact Or.inr ⟨item, List.mem_cons_of_mem _ hmem, hitem⟩
      · rw [if_neg hfree, ite_self] at hhighest hattained
        refine ⟨hhighest, List.forall_mem_cons.mpr ⟨fun hcur => absurd hcur hfree, hall⟩, ?_,
          hlow⟩
        rcases hattained with heq | ⟨item, hmem, hitem⟩
        · exact Or.inl heq
        · exact Or.inr ⟨item, List.mem_cons_of_mem _ hmem, hitem⟩

/-- The last page of the topmost free item; 0 if there is none. -/
def highestFreePage (items : List FirmwareMemoryMapItem) : ℕ := (memoryCountUsablePages items).1

theorem memoryCountUsablePages_spec (hsorted : Sorted items) :
    memoryCountUsablePages items = (highestFreePage items, 0) ∧
      (∀ item ∈ items, item.type = .free → item.endPage ≤ highestFreePage items + 1) ∧
      (highestFreePage items = 0 ∨
        ∃ item ∈ items, item.type = .free ∧ item.endPage = highestFreePage items + 1) := by
  obtain ⟨highest, lowest, hcount⟩ : ∃ highest lowest,
      memoryCountUsablePages items = (highest, lowest) := ⟨_, _, rfl⟩
  obtain ⟨_, hall, hattained, hlowest⟩ := countLoop_spec
    (fun item hmem => ⟨hsorted.endPage_lt item hmem, hsorted.pageCount_pos hmem⟩) hcount
  obtain rfl : lowest = 0 := Nat.le_zero.mp hlowest
  rw [highestFreePage, hcount]
  exact ⟨rfl, hall, hattained⟩

/-- An item that starts below the highest page does not reach beyond it. -/
theorem endPage_le_of_lt (hsorted : Sorted items) (hmem : item ∈ items)
    (hbase : item.basePage < highestFreePage items) :
    item.endPage ≤ highestFreePage items + 1 := by
  obtain ⟨_, _, hzero | ⟨top, htop, _, hend⟩⟩ := memoryCountUsablePages_spec hsorted
  · omega
  · have htopBase := hsorted.ordered.nonempty top htop
    rcases hsorted.ordered.eq_or_apart hmem htop with rfl | hbefore | hbehind
    · exact hend.le
    · omega
    · omega

/-! ## Marking -/

/-- The mark changes the item of the page. -/
def Mark.Covers (mark : Mark) (page : ℕ) : Prop :=
  mark.start ≤ page ∧ page < mark.start + mark.count

instance (mark : Mark) (page : ℕ) : Decidable (mark.Covers page) :=
  inferInstanceAs (Decidable (_ ∧ _))

/-- The item of a page after the marks. -/
def itemAfter (marks : List Mark) (page : ℕ) (item : PageLookupTableItem) : PageLookupTableItem :=
  marks.foldl (fun item mark => if mark.Covers page then memoryMarkItem mark.type else item) item

theorem itemAfter_cons (mark : Mark) (rest : List Mark) (page : ℕ) (item : PageLookupTableItem) :
    itemAfter (mark :: rest) page item =
      itemAfter rest page (if mark.Covers page then memoryMarkItem mark.type else item) := rfl

theorem itemAfter_append (front back : List Mark) (page : ℕ) (item : PageLookupTableItem) :
    itemAfter (front ++ back) page item = itemAfter back page (itemAfter front page item) :=
  List.foldl_append

/-- The marks that pass the bounds check for pages from 0 to the highest one. -/
def Mark.Fits (mark : Mark) (highestPhysicalPage : ℕ) : Prop :=
  0 < mark.count ∧ mark.start + mark.count ≤ highestPhysicalPage + 1

theorem memoryMarkPages_of_fits (hlowest : state.lowestPhysicalPage = 0)
    (hhighest : state.highestPhysicalPage + 1 < 2 ^ 64)
    (hfits : mark.Fits state.highestPhysicalPage) :
    memoryMarkPages state mark.start mark.count mark.type =
      .ok { state with
        pageLookupTable := fun index =>
          if mark.Covers index then memoryMarkItem mark.type
          else state.pageLookupTable index } := by
  obtain ⟨hpos, hend⟩ := hfits
  have hlast : u64 (mark.start + mark.count + (2 ^ 64 - 1)) = mark.start + mark.count - 1 := by
    simp only [u64]
    omega
  have htable : memoryMarkLoop mark.type mark.count mark.start state.pageLookupTable =
      fun index => if mark.Covers index then memoryMarkItem mark.type
        else state.pageLookupTable index := by
    funext index
    exact memoryMarkLoop_apply _ _ _ _ _
  rw [memoryMarkPages, hlowest, hlast, if_neg (by omega), Nat.sub_zero, htable]

theorem markAll_of_fits (hlowest : state.lowestPhysicalPage = 0)
    (hhighest : state.highestPhysicalPage + 1 < 2 ^ 64)
    (hfits : ∀ mark ∈ marks, mark.Fits state.highestPhysicalPage) :
    markAll marks state = .ok { state with
      pageLookupTable := fun index => itemAfter marks index (state.pageLookupTable index) } := by
  induction marks generalizing state with
  | nil => rfl
  | cons mark rest ih =>
      obtain ⟨hmark, hrest⟩ := List.forall_mem_cons.mp hfits
      rw [markAll, memoryMarkPages_of_fits hlowest hhighest hmark, ok_bind]
      exact ih hlowest hhighest hrest

theorem Sorted.of_cons (hsorted : Sorted (item :: items)) : Sorted items :=
  ⟨⟨fun other hmem => hsorted.ordered.nonempty other (List.mem_cons_of_mem _ hmem),
    (List.pairwise_cons.mp hsorted.ordered.sorted).2⟩,
    fun other hmem => hsorted.endPage_lt other (List.mem_cons_of_mem _ hmem)⟩

/-- The round over the items gives a page the type of the item that covers it. -/
theorem itemAfter_items (hsorted : Sorted items) {highest : ℕ} (hpage : page < highest)
    (before : PageLookupTableItem) :
    itemAfter ((items.filter fun cur => cur.basePage < highest).map fun cur =>
        ⟨cur.basePage, cur.pageCount, cur.type⟩) page before =
      ((typeAt items page).map memoryMarkItem).getD before := by
  induction items generalizing before with
  | nil => rfl
  | cons cur rest ih =>
      have hrest := Sorted.of_cons hsorted
      by_cases hcovers : cur.basePage ≤ page ∧ page < cur.endPage
      · have hnone : typeAt rest page = none := by
          rw [typeAt, itemAt, lookup_eq_none_of_lt, Option.map_none]
          intro other hmem
          have hafter := (List.pairwise_cons.mp hsorted.ordered.sorted).1 other hmem
          omega
        have hsome : typeAt (cur :: rest) page = some cur.type := by
          rw [typeAt, itemAt, lookup_cons_of_mem hcovers.1 hcovers.2, Option.map_some]
        have hlow : cur.basePage < highest := hcovers.1.trans_lt hpage
        have hmark : Mark.Covers ⟨cur.basePage, cur.pageCount, cur.type⟩ page := hcovers
        rw [List.filter_cons, if_pos (decide_eq_true hlow), List.map_cons, itemAfter_cons,
          if_pos hmark, ih hrest, hnone, hsome]
        rfl
      · have hsame : typeAt (cur :: rest) page = typeAt rest page := by
          rw [typeAt, itemAt, lookup_cons_of_notMem hcovers]
          rfl
        rw [hsame]
        by_cases hlow : cur.basePage < highest
        · have hmark : ¬ Mark.Covers ⟨cur.basePage, cur.pageCount, cur.type⟩ page := hcovers
          rw [List.filter_cons, if_pos (decide_eq_true hlow), List.map_cons, itemAfter_cons,
            if_neg hmark]
          exact ih hrest before
        · rw [List.filter_cons, if_neg (by simpa using hlow)]
          exact ih hrest before

/-! ## The place of the table -/

/-- The loop takes the item. -/
def Qualifies (totalTableSize : ℕ) (cur : FirmwareMemoryMapItem) : Prop :=
  cur.type = .free ∧ pageEnd totalTableSize / archPagesize ≤ cur.pageCount ∧
    u64 (cur.basePage * archPagesize) ≤ 0xFFFFFFFF

theorem findLoop_take {totalTableSize : ℕ} {cur : FirmwareMemoryMapItem}
    (rest : List FirmwareMemoryMapItem) (hcur : Qualifies totalTableSize cur) :
    findLoop totalTableSize (cur :: rest) = tablePlace totalTableSize cur := by
  obtain ⟨hfree, hcount, hbase⟩ := hcur
  rw [findLoop]
  simp only [not_not.mpr hfree, if_false, if_neg (not_lt.mpr hcount), if_neg (not_lt.mpr hbase)]

theorem findLoop_skip {totalTableSize : ℕ} {cur : FirmwareMemoryMapItem}
    (rest : List FirmwareMemoryMapItem) (hcur : ¬ Qualifies totalTableSize cur) :
    findLoop totalTableSize (cur :: rest) = findLoop totalTableSize rest := by
  rw [findLoop]
  split
  · rfl
  · rename_i hfree
    split
    · rfl
    · rename_i hcount
      split
      · rfl
      · rename_i hbase
        exact absurd ⟨not_not.mp hfree, not_lt.mp hcount, not_lt.mp hbase⟩ hcur

theorem findLoop_append {totalTableSize : ℕ} {front : List FirmwareMemoryMapItem}
    (rest : List FirmwareMemoryMapItem)
    (hfront : ∀ other ∈ front, ¬ Qualifies totalTableSize other) :
    findLoop totalTableSize (front ++ rest) = findLoop totalTableSize rest := by
  induction front with
  | nil => rfl
  | cons cur front ih =>
      obtain ⟨hcur, hfront⟩ := List.forall_mem_cons.mp hfront
      rw [List.cons_append, findLoop_skip _ hcur, ih hfront]

theorem findLoop_spec (totalTableSize : ℕ) (items : List FirmwareMemoryMapItem) :
    ((∀ cur ∈ items, ¬ Qualifies totalTableSize cur) ∧ findLoop totalTableSize items = 0) ∨
      ∃ front cur back, items = front ++ cur :: back ∧
        (∀ other ∈ front, ¬ Qualifies totalTableSize other) ∧ Qualifies totalTableSize cur ∧
        findLoop totalTableSize items = tablePlace totalTableSize cur := by
  induction items with
  | nil => exact Or.inl ⟨by simp, rfl⟩
  | cons cur rest ih =>
      by_cases hcur : Qualifies totalTableSize cur
      · exact Or.inr ⟨[], cur, rest, rfl, by simp, hcur, findLoop_take rest hcur⟩
      · rw [findLoop_skip rest hcur]
        rcases ih with ⟨hnone, hzero⟩ | ⟨front, found, back, rfl, hfront, hfound, hplace⟩
        · exact Or.inl ⟨List.forall_mem_cons.mpr ⟨hcur, hnone⟩, hzero⟩
        · exact Or.inr ⟨cur :: front, found, back, rfl,
            List.forall_mem_cons.mpr ⟨hcur, hfront⟩, hfound, hplace⟩

theorem pageEnd_div {address : ℕ} (haddress : address < 2 ^ 63) :
    pageEnd address / archPagesize = (address + 4095) / 4096 := by
  have hnowrap : u64 (address + (archPagesize - 1)) = address + 4095 :=
    u64_of_lt (by simp only [archPagesize]; omega)
  rw [pageEnd, hnowrap, pageStart_div (by omega), archPagesize]

/-- The table ends with the item or at 4 GiB; otherwise there is no place. -/
theorem tablePlace_eq {totalTableSize : ℕ} (hpos : 0 < totalTableSize)
    (hsize : totalTableSize < 2 ^ 32) (hend : item.endPage < 2 ^ 52)
    (hcount : totalTableSize ≤ item.pageCount * 4096) :
    tablePlace totalTableSize item < 2 ^ 32 ∧
      (tablePlace totalTableSize item = 0 ∧ 2 ^ 32 ≤ item.endPage * 4096 ∨
        tablePlace totalTableSize item + totalTableSize = item.endPage * 4096 ∨
        tablePlace totalTableSize item + totalTableSize = 2 ^ 32 ∧
          2 ^ 32 ≤ item.endPage * 4096) := by
  have hlast : u64 (item.basePage + item.pageCount) = item.endPage := by
    simp only [FirmwareMemoryMapItem.endPage] at hend ⊢
    exact u64_of_lt (by omega)
  have hbytes : u64 (item.endPage * archPagesize) = item.endPage * 4096 := by
    simp only [archPagesize]
    exact u64_of_lt (by omega)
  have hroom : totalTableSize ≤ item.endPage * 4096 :=
    hcount.trans (Nat.mul_le_mul_right 4096 (Nat.le_add_left _ _))
  have hloc : sub64 (item.endPage * 4096) totalTableSize = item.endPage * 4096 - totalTableSize :=
    sub64_of_le (by omega) hroom
  have htop : sub64 0x100000000 totalTableSize = 0x100000000 - totalTableSize :=
    sub64_of_le (by decide) (by omega)
  have hword : u32 (0x100000000 - totalTableSize) = 0x100000000 - totalTableSize :=
    u32_of_lt (by omega)
  rw [tablePlace, hlast, hbytes, hloc, htop, hword]
  split
  · split
    · exact ⟨by omega, Or.inr (Or.inr ⟨by omega, by omega⟩)⟩
    · exact ⟨by omega, Or.inl ⟨rfl, by omega⟩⟩
  · rw [u32_of_lt (by omega)]
    exact ⟨by omega, Or.inr (Or.inl (by omega))⟩

/-! ## The table after `memory_init` -/

/-- The number of bytes of the table. -/
def tableSize (items : List FirmwareMemoryMapItem) : ℕ :=
  highestFreePage items * pageLookupTableItemSize

theorem highestFreePage_lt (hsorted : Sorted items) : highestFreePage items + 1 < 2 ^ 64 := by
  obtain ⟨_, _, hzero | ⟨top, htop, _, hend⟩⟩ := memoryCountUsablePages_spec hsorted
  · omega
  · have hbound := hsorted.endPage_lt top htop
    omega

theorem initialState_eq (hsorted : Sorted items) (contents : ℕ → PageLookupTableItem) :
    initialState items contents = ⟨0, highestFreePage items,
      findLoop (u64 (tableSize items)) items, contents⟩ := by
  have hlt := highestFreePage_lt hsorted
  have hpages : sub64 (highestFreePage items) 0 = highestFreePage items :=
    sub64_of_le (by omega) (Nat.zero_le _)
  rw [initialState, (memoryCountUsablePages_spec hsorted).1]
  dsimp only
  rw [hpages, memoryFindPageLookupTableLocation, tableSize]

/-- The place of the table: it ends with a page of the memory below the highest
page, or there is none. -/
theorem findLoop_place (hsorted : Sorted items) (hpos : 0 < highestFreePage items)
    (hsize : tableSize items < 2 ^ 32) :
    findLoop (tableSize items) items < 2 ^ 32 ∧
      (findLoop (tableSize items) items = 0 ∨
        4096 ∣ findLoop (tableSize items) items + tableSize items ∧
          findLoop (tableSize items) items + tableSize items ≤
            (highestFreePage items + 1) * 4096) := by
  obtain ⟨_, hall, _⟩ := memoryCountUsablePages_spec hsorted
  have hbytes : tableSize items = highestFreePage items * 12 := rfl
  rcases findLoop_spec (tableSize items) items with
    ⟨_, hzero⟩ | ⟨front, cur, back, hsplit, _, ⟨hfree, hcount, _⟩, hplace⟩
  · rw [hzero]
    exact ⟨Nat.two_pow_pos 32, Or.inl rfl⟩
  · have hend := hall cur (by rw [hsplit]; simp) hfree
    rw [pageEnd_div (by omega)] at hcount
    rw [hplace]
    obtain ⟨hlt, hcase⟩ :=
      @tablePlace_eq cur (tableSize items) (by omega) hsize (by omega) (by omega)
    refine ⟨hlt, hcase.imp And.left ?_⟩
    rintro (hitem | ⟨hfour, hitem⟩)
    · exact ⟨by omega, by omega⟩
    · exact ⟨by omega, by omega⟩

/-- The pages of the table: from the one of its first byte on, as many as its
size is rounded up to. -/
structure TablePages (items : List FirmwareMemoryMapItem) (address start count : ℕ) : Prop where
  count_pos : 0 < count
  end_le : start + count ≤ highestFreePage items + 1
  occupied : ∀ page, Intersects page address (tableSize items) ↔
    start ≤ page ∧ page < start + count

theorem tablePages_initMarks (hsorted : Sorted items) (hpos : 0 < highestFreePage items)
    (hsize : tableSize items < 2 ^ 32) :
    TablePages items (findLoop (tableSize items) items)
      (pageNum (pageStart (findLoop (tableSize items) items)))
      (pageNum (pageEnd (tableSize items))) := by
  have hbytes : tableSize items = highestFreePage items * 12 := rfl
  obtain ⟨hlt, hplace⟩ := findLoop_place hsorted hpos hsize
  obtain ⟨address, haddress⟩ : ∃ address, findLoop (tableSize items) items = address := ⟨_, rfl⟩
  rw [haddress] at hlt hplace ⊢
  rw [pageNum, pageNum, pageEnd_div (by omega), pageStart_div (by omega), archPagesize]
  refine ⟨by omega, by omega, fun page => ?_⟩
  simp only [Intersects, archPagesize]
  rcases hplace with hzero | ⟨hdvd, _⟩ <;> omega

/-- The calls of the first two rounds. -/
def roundMarks (items : List FirmwareMemoryMapItem) : List Mark :=
  ⟨0, highestFreePage items, .unusable⟩ ::
    ((items.filter fun cur => cur.basePage < highestFreePage items).map fun cur =>
      ⟨cur.basePage, cur.pageCount, cur.type⟩)

/-- The call for the table. -/
def tableMark (items : List FirmwareMemoryMapItem) : Mark :=
  ⟨pageNum (pageStart (findLoop (u64 (tableSize items)) items)),
    pageNum (pageEnd (u32 (u64 (tableSize items)))), .pageLookupTable⟩

theorem initMarks_eq (hsorted : Sorted items) (contents : ℕ → PageLookupTableItem) :
    initMarks items (initialState items contents) = roundMarks items ++ [tableMark items] := by
  have hlt := highestFreePage_lt hsorted
  have hpages : sub64 (highestFreePage items) 0 = highestFreePage items :=
    sub64_of_le (by omega) (Nat.zero_le _)
  rw [initMarks, initialState_eq hsorted contents]
  dsimp only
  rw [hpages]
  rfl

/-- The first two rounds pass the bounds check. -/
theorem roundMarks_fits (hsorted : Sorted items) (hpos : 0 < highestFreePage items) :
    ∀ mark ∈ roundMarks items, mark.Fits (highestFreePage items) := by
  intro mark hmem
  rcases List.mem_cons.mp hmem with rfl | hitems
  · exact ⟨hpos, by dsimp only; omega⟩
  · obtain ⟨cur, hcur, rfl⟩ := List.mem_map.mp hitems
    obtain ⟨hmem, hlow⟩ := List.mem_filter.mp hcur
    exact ⟨hsorted.pageCount_pos hmem, endPage_le_of_lt hsorted hmem (of_decide_eq_true hlow)⟩

theorem itemAfter_roundMarks (hsorted : Sorted items) (hpage : page < highestFreePage items)
    (before : PageLookupTableItem) :
    itemAfter (roundMarks items) page before =
      memoryMarkItem ((typeAt items page).getD .unusable) := by
  have hall : Mark.Covers ⟨0, highestFreePage items, .unusable⟩ page :=
    ⟨Nat.zero_le page, by rwa [Nat.zero_add]⟩
  rw [roundMarks, itemAfter_cons, if_pos hall, itemAfter_items hsorted hpage]
  cases typeAt items page <;> rfl

theorem memoryMarkItem_length (type : MemoryType) :
    (memoryMarkItem type).length = 0 ↔ (memoryMarkItem type).type = .free := by
  rw [memoryMarkItem]
  by_cases hfree : type = .free <;> simp [hfree]

end GeexOS.PageLookupTable
