import GeexOS.Library.ByteMemory
import GeexOS.Loader.PhysicalMemory

/-!
# Page tables of the loader

The loader fills a page directory while paging is still off.  A page table is a
page of its own from the physical allocator, reached by its physical address.
-/

namespace GeexOS.PageTables

open GeexOS.Words
open GeexOS.Halting
open GeexOS.ByteMemory
open GeexOS.PhysicalMemory

/-- The fields of a table entry that the loader sets. -/
structure Page where
  present : Bool
  rw : Bool
  user : Bool
  frame : ℕ
  deriving DecidableEq, Repr

def Page.zero : Page := ⟨false, false, false, 0⟩

/-- What the loader works on: the page allocator, the bytes of physical memory,
the page directory and the tables by their addresses. -/
structure LoaderState where
  memory : MemoryState
  bytes : Memory
  pageDirectory : ℕ → ℕ
  tables : ℕ → ℕ → Page

def pageAlignMask : ℕ := 0xFFFFF000
def pageAlign (x : ℕ) : ℕ := (x &&& pageAlignMask) + 4096
def pageAlignDown (x : ℕ) : ℕ := x &&& pageAlignMask

/-- `len = IS_PAGE_ALIGNED(len) ? len : PAGE_ALIGN(len)`. -/
def alignedLength (len : ℕ) : ℕ := if len % 4096 = 0 then len else u32 (pageAlign len)

def pdirIndex (virtual : ℕ) : ℕ := (virtual >>> 22) &&& 0x3FF
def ptblIndex (virtual : ℕ) : ℕ := (virtual >>> 12) &&& 0x3FF

namespace LoaderState

def hasTable (state : LoaderState) (index : ℕ) : Bool := state.pageDirectory index &&& 1 ≠ 0

def tableOf (state : LoaderState) (index : ℕ) : ℕ :=
  state.pageDirectory index &&& pageAlignMask

/-- A new page table, cleared and entered into the directory. -/
def allocateTable (state : LoaderState) (index : ℕ) : Outcome LoaderState := do
  let (newPageTbl, memory) ← memoryAllocate state.memory 4096 .geexOSPageStructures
  .ok
    { memory := memory
      bytes := writeBytes state.bytes newPageTbl 4096 fun _ => 0
      pageDirectory := Function.update state.pageDirectory index (newPageTbl ||| 3)
      tables := Function.update state.tables newPageTbl fun _ => .zero }

/-- The table for an entry of the directory. -/
def getTable (state : LoaderState) (index : ℕ) : Outcome LoaderState :=
  if state.hasTable index then .ok state else state.allocateTable index

def setEntry (state : LoaderState) (ptbl index : ℕ) (page : Page) : LoaderState :=
  let table := Function.update (state.tables ptbl) index page
  { state with tables := Function.update state.tables ptbl table }

def pagingMapVirtualMemoryNonPAE (physical virtual : ℕ) (usermode writable : Bool)
    (state : LoaderState) : Outcome LoaderState := do
  let state ← state.getTable (pdirIndex virtual)
  .ok (state.setEntry (state.tableOf (pdirIndex virtual)) (ptblIndex virtual)
    ⟨true, writable, usermode, (physical >>> 12) &&& 0xFFFFF⟩)

/-- The loop of `paging_mapRangeNonPAE`, one round for each page. -/
def mapLoop (usermode writable : Bool) : (rounds physical virtual : ℕ) → LoaderState →
    Outcome LoaderState
  | 0, _, _, state => .ok state
  | rounds + 1, physical, virtual, state => do
      let state ← state.pagingMapVirtualMemoryNonPAE physical virtual usermode writable
      mapLoop usermode writable rounds (u64 (physical + 4096)) (u64 (virtual + 4096)) state

def pagingMapRangeNonPAE (physical virtual len : ℕ) (usermode writable : Bool)
    (state : LoaderState) : Outcome LoaderState :=
  mapLoop usermode writable (alignedLength len / 4096) (pageAlignDown physical)
    (pageAlignDown virtual) state

def pagingIsAddressPresentNonPAE (state : LoaderState) (virtual : ℕ) : Bool :=
  if state.hasTable (pdirIndex virtual) then
    (state.tables (state.tableOf (pdirIndex virtual)) (ptblIndex virtual)).present
  else false

def rangeFreeLoop (state : LoaderState) : (rounds virtual : ℕ) → Bool
  | 0, _ => true
  | rounds + 1, virtual =>
      if state.pagingIsAddressPresentNonPAE virtual then false
      else rangeFreeLoop state rounds (u64 (virtual + 4096))

def pagingIsRangeFreeNonPAE (state : LoaderState) (virtual len : ℕ) : Bool :=
  state.rangeFreeLoop (alignedLength len / 4096) (pageAlignDown virtual)

/-- The search of `paging_findFreeRangeNonPAE`. -/
def findFreeLoop (state : LoaderState) (size : ℕ) :
    (fuel curAddr continousFreeSpace : ℕ) → Outcome ℕ
  | 0, _, _ => .error .diverges
  | fuel + 1, curAddr, continousFreeSpace =>
      if curAddr = 0 then .ok 0
      else if continousFreeSpace ≥ size then .ok (sub64 curAddr size)
      else if state.pagingIsAddressPresentNonPAE curAddr then
        findFreeLoop state size fuel (u64 (curAddr + 4096)) 0
      else findFreeLoop state size fuel (u64 (curAddr + 4096)) (u32 (continousFreeSpace + 4096))

/-- After `2^64` rounds every address was looked at. -/
def pagingFindFreeRangeNonPAE (state : LoaderState) (base size : ℕ) : Outcome ℕ :=
  state.findFreeLoop size (2 ^ 64) base 0

/-! ## Translation -/

/-- The frame a page of the 32-bit address space is mapped to. -/
def frameOf (state : LoaderState) (page : ℕ) : Option ℕ :=
  if state.hasTable (page / 1024) then
    let entry := state.tables (state.tableOf (page / 1024)) (page % 1024)
    if entry.present then some entry.frame else none
  else none

/-- The entry of a page of the 32-bit address space, if it is present. -/
def entryOf (state : LoaderState) (page : ℕ) : Option Page :=
  if state.hasTable (page / 1024) then
    let entry := state.tables (state.tableOf (page / 1024)) (page % 1024)
    if entry.present then some entry else none
  else none

/-- The page of an address of the 32-bit address space. -/
def pageIndex (virtual : ℕ) : ℕ := virtual / 4096 % 2 ^ 20

/-- The physical address a virtual one leads to. -/
def translate (state : LoaderState) (virtual : ℕ) : Option ℕ :=
  (state.frameOf (pageIndex virtual)).map fun frame => frame * 4096 + virtual % 4096

end LoaderState

open LoaderState

/-! ## Words -/

variable {state after : LoaderState} {physical virtual address page index len : ℕ}

theorem pdirIndex_eq (virtual : ℕ) : pdirIndex virtual = pageIndex virtual / 1024 := by
  have hmask : (0x3FF : ℕ) = 2 ^ 10 - 1 := rfl
  rw [pdirIndex, hmask, Nat.and_two_pow_sub_one_eq_mod, Nat.shiftRight_eq_div_pow, pageIndex]
  omega

theorem ptblIndex_eq (virtual : ℕ) : ptblIndex virtual = pageIndex virtual % 1024 := by
  have hmask : (0x3FF : ℕ) = 2 ^ 10 - 1 := rfl
  rw [ptblIndex, hmask, Nat.and_two_pow_sub_one_eq_mod, Nat.shiftRight_eq_div_pow, pageIndex]
  omega

theorem frame_eq (physical : ℕ) : (physical >>> 12) &&& 0xFFFFF = pageIndex physical := by
  have hmask : (0xFFFFF : ℕ) = 2 ^ 20 - 1 := rfl
  rw [hmask, Nat.and_two_pow_sub_one_eq_mod, Nat.shiftRight_eq_div_pow, pageIndex]

theorem pageAlignDown_eq (haddress : address < 2 ^ 32) :
    pageAlignDown address = address / 4096 * 4096 :=
  land_mask haddress (show 12 ≤ 32 by decide)

/-- The number of pages that a length is rounded up to. -/
theorem alignedLength_div (hlen : len ≤ 0xFFFFF000) :
    alignedLength len / 4096 = (len + 4095) / 4096 := by
  rw [alignedLength]
  split
  · omega
  · rename_i hunaligned
    have hdown : len &&& pageAlignMask = len / 4096 * 4096 :=
      pageAlignDown_eq (hlen.trans_lt (by decide))
    rw [pageAlign, hdown, u32]
    omega

theorem alignedLength_lt (hlen : len < 2 ^ 32) : alignedLength len < 2 ^ 32 := by
  rw [alignedLength]
  split
  · exact hlen
  · exact u32_lt _

/-- The address of a table is found behind its flags. -/
theorem entry_eq (hdvd : 4096 ∣ address) (haddress : address < 2 ^ 32) :
    (address ||| 3) &&& 1 ≠ 0 ∧ (address ||| 3) &&& pageAlignMask = address := by
  obtain ⟨factor, rfl⟩ := hdvd
  have hsum : 4096 * factor ||| 3 = 4096 * factor + 3 :=
    (Nat.two_pow_add_eq_or_of_lt (show 3 < 2 ^ 12 by decide) factor).symm
  have hdown : (4096 * factor + 3) &&& pageAlignMask = (4096 * factor + 3) / 4096 * 4096 :=
    pageAlignDown_eq (by omega)
  rw [hsum, hdown, Nat.and_one_is_mod]
  omega

theorem frameOf_eq (state : LoaderState) (page : ℕ) :
    state.frameOf page = (state.entryOf page).map Page.frame := by
  rw [frameOf, entryOf]
  split
  · simp only
    split <;> rfl
  · rfl

theorem isAddressPresent_eq (state : LoaderState) (virtual : ℕ) :
    state.pagingIsAddressPresentNonPAE virtual = (state.frameOf (pageIndex virtual)).isSome := by
  rw [pagingIsAddressPresentNonPAE, frameOf, pdirIndex_eq, ptblIndex_eq]
  split
  · simp only
    split <;> simp_all
  · rfl

/-! ## Tables -/

/-- A page that the allocator keeps and that is not free. -/
def InUse (state : LoaderState) (page : ℕ) : Prop :=
  state.memory.lowestPhysicalPage ≤ page ∧ state.memory.pageType page ≠ .free

/-- Every table has a page of its own. -/
structure DirectoryOk (state : LoaderState) : Prop where
  allocator : state.memory.WellFormed
  in_use : ∀ index, state.hasTable index = true → InUse state (state.tableOf index / 4096)
  distinct : ∀ index, state.hasTable index = true → ∀ other, state.hasTable other = true →
    state.tableOf index = state.tableOf other → index = other

/-- Pages in use stay in use, with what they hold. -/
structure Keeps (before after : LoaderState) : Prop where
  in_use : ∀ page, InUse before page → InUse after page
  bytes : ∀ address, InUse before (address / 4096) → after.bytes address = before.bytes address

theorem Keeps.refl (state : LoaderState) : Keeps state state := ⟨fun _ => id, fun _ _ => rfl⟩

theorem Keeps.trans {before middle after : LoaderState} (hfirst : Keeps before middle)
    (hsecond : Keeps middle after) : Keeps before after where
  in_use := fun page hpage => hsecond.in_use page (hfirst.in_use page hpage)
  bytes := fun address hpage =>
    (hsecond.bytes address (hfirst.in_use _ hpage)).trans (hfirst.bytes address hpage)

/-- The page an allocation took was free before. -/
theorem ne_of_inUse {before after : MemoryState} {pages first : ℕ} {type : MemoryType}
    (heffect : AllocationEffect before after pages first type)
    (hmemory : state.memory = before) (hpage : InUse state page) :
    page < first ∨ first + pages ≤ page := by
  by_contra hinside
  have hfree := heffect.was_free page (by omega) (by omega)
  rw [← hmemory] at hfree
  exact hpage.2 hfree

/-- Other allocations leave the tables alone. -/
theorem DirectoryOk.setMemory (hstate : DirectoryOk state) {memory : MemoryState}
    {pages first : ℕ} {type : MemoryType} (htype : type ≠ .free)
    (heffect : AllocationEffect state.memory memory pages first type) :
    DirectoryOk { state with memory := memory } where
  allocator := heffect.wellFormed hstate.allocator
  in_use := fun index htable => by
    obtain ⟨hlow, hused⟩ := hstate.in_use index htable
    refine ⟨?_, heffect.pageType_ne_free htype hlow hused⟩
    change memory.lowestPhysicalPage ≤ _
    rwa [heffect.lowest_eq]
  distinct := hstate.distinct

/-- What a new page table at page `first` changes. -/
structure NewTable (before after : LoaderState) (index first : ℕ) : Prop where
  below_4GiB : (first + 1) * 4096 ≤ 0xFFFFFFFF
  allocation : AllocationEffect before.memory after.memory 1 first .geexOSPageStructures
  bytes : after.bytes = writeBytes before.bytes (first * 4096) 4096 fun _ => 0
  tables : after.tables = Function.update before.tables (first * 4096) fun _ => .zero
  hasTable : after.hasTable index = true
  tableOf : after.tableOf index = first * 4096
  others : ∀ other, other ≠ index → after.hasTable other = before.hasTable other ∧
    after.tableOf other = before.tableOf other

theorem allocateTable_eq_ok (hmemory : state.memory.WellFormed)
    (hcall : state.allocateTable index = .ok after) :
    ∃ first, NewTable state after index first := by
  obtain ⟨⟨newPageTbl, memory⟩, hallocate, hafter⟩ := bind_eq_ok.mp hcall
  obtain ⟨first, haddress, heffect⟩ := memoryAllocate_eq_ok hmemory (by decide) hallocate
  have hpages : 4096 / archPagesize = 1 := rfl
  rw [hpages] at heffect
  have hbelow : (first + 1) * 4096 ≤ 0xFFFFFFFF := heffect.below_4GiB
  obtain rfl : newPageTbl = first * 4096 := haddress
  obtain ⟨hpresent, hentry⟩ := entry_eq (Nat.dvd_mul_left 4096 first) (by omega)
  obtain rfl := Except.ok.inj hafter
  refine ⟨first, hbelow, heffect, rfl, rfl, ?_, ?_, fun other hne => ?_⟩
  · simp only [LoaderState.hasTable, Function.update_self]
    exact decide_eq_true hpresent
  · simp only [LoaderState.tableOf, Function.update_self, hentry]
  · constructor <;>
      simp only [LoaderState.hasTable, LoaderState.tableOf, Function.update_of_ne hne]

namespace NewTable

variable {first : ℕ}

/-- The page was free before. -/
theorem ne_of_inUse (hnew : NewTable state after index first) (hpage : InUse state page) :
    page ≠ first := by
  have hapart := PageTables.ne_of_inUse hnew.allocation rfl hpage
  omega

theorem keeps (hnew : NewTable state after index first) : Keeps state after where
  in_use := fun page hpage => by
    rw [InUse, hnew.allocation.lowest_eq]
    exact ⟨hpage.1, hnew.allocation.pageType_ne_free (by decide) hpage.1 hpage.2⟩
  bytes := fun address hpage => by
    have hne := hnew.ne_of_inUse hpage
    rw [hnew.bytes]
    exact writeBytes_of_notMem (by omega)

theorem inUse_first (hnew : NewTable state after index first) : InUse after first := by
  have hlowest := hnew.allocation.lowest_le
  rw [InUse, hnew.allocation.lowest_eq, hnew.allocation.table_eq first hlowest,
    if_pos ⟨le_rfl, Nat.lt_succ_self first⟩]
  exact ⟨hlowest, by decide⟩

end NewTable

/-- Mapping a page writes to no page in use but its table. -/
theorem map_keeps (hmemory : state.memory.WellFormed) {usermode writable : Bool}
    (hcall : state.pagingMapVirtualMemoryNonPAE physical virtual usermode writable =
      .ok after) :
    after.memory.WellFormed ∧ Keeps state after := by
  obtain ⟨middle, htable, hafter⟩ := bind_eq_ok.mp hcall
  obtain rfl := Except.ok.inj hafter
  rw [LoaderState.getTable] at htable
  split at htable
  · obtain rfl := Except.ok.inj htable
    exact ⟨hmemory, fun _ => id, fun _ _ => rfl⟩
  · obtain ⟨first, hnew⟩ := allocateTable_eq_ok hmemory htable
    exact ⟨hnew.allocation.wellFormed hmemory, hnew.keeps.in_use, hnew.keeps.bytes⟩

theorem mapLoop_keeps (hmemory : state.memory.WellFormed) {usermode writable : Bool}
    {rounds : ℕ}
    (hcall : LoaderState.mapLoop usermode writable rounds physical virtual state = .ok after) :
    after.memory.WellFormed ∧ Keeps state after := by
  induction rounds generalizing physical virtual state with
  | zero =>
      obtain rfl := Except.ok.inj hcall
      exact ⟨hmemory, .refl state⟩
  | succ rounds ih =>
      obtain ⟨middle, hmap, hrest⟩ := bind_eq_ok.mp hcall
      obtain ⟨hmiddle, hkeeps⟩ := map_keeps hmemory hmap
      obtain ⟨hafter, hkeeps'⟩ := ih hmiddle hrest
      exact ⟨hafter, hkeeps.trans hkeeps'⟩

/-- A new table maps nothing. -/
theorem DirectoryOk.allocateTable (hstate : DirectoryOk state)
    (htable : state.hasTable index = false) (hcall : state.allocateTable index = .ok after) :
    DirectoryOk after ∧ Keeps state after ∧ after.hasTable index = true ∧
      ∀ page, after.entryOf page = state.entryOf page := by
  obtain ⟨first, hnew⟩ := allocateTable_eq_ok hstate.allocator hcall
  have hfar : ∀ other, state.hasTable other = true → state.tableOf other ≠ first * 4096 := by
    intro other hother heq
    have hused := hstate.in_use other hother
    rw [heq, Nat.mul_div_cancel _ (by decide)] at hused
    exact hnew.ne_of_inUse hused rfl
  refine ⟨⟨hnew.allocation.wellFormed hstate.allocator, fun other hpresent => ?_,
    fun left hleft right hright heq => ?_⟩, hnew.keeps, hnew.hasTable, fun page => ?_⟩
  · by_cases heq : other = index
    · rw [heq, hnew.tableOf, Nat.mul_div_cancel _ (by decide)]
      exact hnew.inUse_first
    · rw [(hnew.others other heq).1] at hpresent
      rw [(hnew.others other heq).2]
      exact hnew.keeps.in_use _ (hstate.in_use other hpresent)
  · by_cases hleftNew : left = index <;> by_cases hrightNew : right = index
    · rw [hleftNew, hrightNew]
    · rw [(hnew.others right hrightNew).1] at hright
      rw [hleftNew, hnew.tableOf, (hnew.others right hrightNew).2] at heq
      exact absurd heq.symm (hfar right hright)
    · rw [(hnew.others left hleftNew).1] at hleft
      rw [hrightNew, hnew.tableOf, (hnew.others left hleftNew).2] at heq
      exact absurd heq (hfar left hleft)
    · rw [(hnew.others left hleftNew).1] at hleft
      rw [(hnew.others right hrightNew).1] at hright
      rw [(hnew.others left hleftNew).2, (hnew.others right hrightNew).2] at heq
      exact hstate.distinct left hleft right hright heq
  · by_cases heq : page / 1024 = index
    · rw [entryOf, entryOf, heq, hnew.hasTable, hnew.tableOf, htable, hnew.tables,
        Function.update_self]
      rfl
    · rw [entryOf, entryOf, (hnew.others _ heq).1, (hnew.others _ heq).2, hnew.tables]
      by_cases hpresent : state.hasTable (page / 1024) = true
      · rw [Function.update_of_ne (hfar _ hpresent)]
      · rw [if_neg hpresent, if_neg hpresent]

/-- Entering a page into its table. -/
theorem DirectoryOk.setEntry (hstate : DirectoryOk state)
    (htable : state.hasTable (page / 1024) = true) (entry : Page)
    (hpresent : entry.present = true) :
    DirectoryOk (state.setEntry (state.tableOf (page / 1024)) (page % 1024) entry) ∧
      ∀ other, (state.setEntry (state.tableOf (page / 1024)) (page % 1024) entry).entryOf other =
        if other = page then some entry else state.entryOf other := by
  refine ⟨⟨hstate.allocator, hstate.in_use, hstate.distinct⟩, fun other => ?_⟩
  have hdirectory : ∀ index,
      (state.setEntry (state.tableOf (page / 1024)) (page % 1024) entry).hasTable index =
          state.hasTable index ∧
        (state.setEntry (state.tableOf (page / 1024)) (page % 1024) entry).tableOf index =
          state.tableOf index := fun _ => ⟨rfl, rfl⟩
  rw [entryOf, (hdirectory _).1, (hdirectory _).2, LoaderState.setEntry]
  simp only
  by_cases hsame : other / 1024 = page / 1024
  · rw [hsame, if_pos htable, Function.update_self]
    by_cases heq : other = page
    · rw [if_pos heq, heq, Function.update_self, if_pos hpresent]
    · have hindex : other % 1024 ≠ page % 1024 := by omega
      rw [if_neg heq, Function.update_of_ne hindex, entryOf, hsame, if_pos htable]
  · have heq : other ≠ page := fun heq => hsame (heq ▸ rfl)
    rw [if_neg heq, entryOf]
    by_cases hother : state.hasTable (other / 1024) = true
    · have hfar : state.tableOf (other / 1024) ≠ state.tableOf (page / 1024) :=
        fun htables => hsame (hstate.distinct _ hother _ htable htables)
      rw [if_pos hother, if_pos hother, Function.update_of_ne hfar]
    · rw [if_neg hother, if_neg hother]

/-- One page of the address space is mapped. -/
theorem DirectoryOk.map (hstate : DirectoryOk state) {usermode writable : Bool}
    (hcall : state.pagingMapVirtualMemoryNonPAE physical virtual usermode writable =
      .ok after) :
    DirectoryOk after ∧ Keeps state after ∧ ∀ page, after.entryOf page =
      if page = pageIndex virtual then some ⟨true, writable, usermode, pageIndex physical⟩
      else state.entryOf page := by
  obtain ⟨middle, htable, hafter⟩ := bind_eq_ok.mp hcall
  rw [pdirIndex_eq, LoaderState.getTable] at htable
  obtain ⟨hmiddle, hkeeps, hpresent, hentries⟩ : DirectoryOk middle ∧ Keeps state middle ∧
      middle.hasTable (pageIndex virtual / 1024) = true ∧
      ∀ page, middle.entryOf page = state.entryOf page := by
    split at htable
    · rename_i hpresent
      obtain rfl := Except.ok.inj htable
      exact ⟨hstate, .refl state, hpresent, fun _ => rfl⟩
    · rename_i habsent
      exact hstate.allocateTable (Bool.not_eq_true _ ▸ habsent) htable
  obtain ⟨hok, hentry⟩ := hmiddle.setEntry hpresent
    ⟨true, writable, usermode, (physical >>> 12) &&& 0xFFFFF⟩ rfl
  rw [pdirIndex_eq, ptblIndex_eq] at hafter
  obtain rfl := Except.ok.inj hafter
  refine ⟨hok, hkeeps.trans ⟨fun _ => id, fun _ _ => rfl⟩, fun page => ?_⟩
  rw [hentry, hentries, frame_eq]

/-! ## Ranges -/

/-- Rounds of the loop map consecutive pages. -/
theorem DirectoryOk.mapLoop {usermode writable : Bool} {rounds : ℕ} (hrounds : rounds ≤ 2 ^ 20)
    (hstate : DirectoryOk state)
    (hcall : LoaderState.mapLoop usermode writable rounds physical virtual state = .ok after) :
    DirectoryOk after ∧ Keeps state after ∧
      (∀ i < rounds, after.entryOf (pageIndex (virtual + 4096 * i)) =
        some ⟨true, writable, usermode, pageIndex (physical + 4096 * i)⟩) ∧
      ∀ page, (∀ i < rounds, page ≠ pageIndex (virtual + 4096 * i)) →
        after.entryOf page = state.entryOf page := by
  induction rounds generalizing physical virtual state with
  | zero =>
      obtain rfl := Except.ok.inj hcall
      exact ⟨hstate, .refl state, fun i hi => absurd hi (Nat.not_lt_zero i), fun _ _ => rfl⟩
  | succ rounds ih =>
      obtain ⟨middle, hmap, hrest⟩ := bind_eq_ok.mp hcall
      obtain ⟨hmiddle, hkeeps, hentries⟩ := hstate.map hmap
      obtain ⟨hafter, hkeeps', hmapped, hothers⟩ := ih (by omega) hmiddle hrest
      have hshift : ∀ address i, pageIndex (u64 (address + 4096) + 4096 * i) =
          pageIndex (address + 4096 * (i + 1)) := by
        intro address i
        simp only [pageIndex, u64]
        omega
      simp only [hshift] at hmapped hothers
      refine ⟨hafter, hkeeps.trans hkeeps', fun i hi => ?_, fun page hpage => ?_⟩
      · cases i with
        | zero =>
            rw [hothers _ fun i hi => ?_, hentries, Nat.mul_zero, Nat.add_zero, if_pos rfl,
              Nat.add_zero]
            simp only [pageIndex]
            omega
        | succ i => exact hmapped i (Nat.lt_of_succ_lt_succ hi)
      · rw [hothers page fun i hi => hpage (i + 1) (Nat.succ_lt_succ hi), hentries, if_neg]
        have hfirst := hpage 0 (Nat.succ_pos rounds)
        rwa [Nat.mul_zero, Nat.add_zero] at hfirst

/-- What the call leaves in the tables, whatever number of pages it takes for the length. -/
theorem DirectoryOk.mapRange_entries {usermode writable : Bool} (hphysical : physical < 2 ^ 32)
    (hvirtual : virtual < 2 ^ 32) (hlen : len < 2 ^ 32) (hstate : DirectoryOk state)
    (hcall : state.pagingMapRangeNonPAE physical virtual len usermode writable = .ok after) :
    DirectoryOk after ∧ Keeps state after ∧
      (∀ i < alignedLength len / 4096, after.entryOf (pageIndex (virtual + 4096 * i)) =
        some ⟨true, writable, usermode, pageIndex (physical + 4096 * i)⟩) ∧
      ∀ page, (∀ i < alignedLength len / 4096, page ≠ pageIndex (virtual + 4096 * i)) →
        after.entryOf page = state.entryOf page := by
  rw [pagingMapRangeNonPAE, pageAlignDown_eq hphysical, pageAlignDown_eq hvirtual] at hcall
  have hdown : ∀ address i, pageIndex (address / 4096 * 4096 + 4096 * i) =
      pageIndex (address + 4096 * i) := by
    intro address i
    simp only [pageIndex]
    omega
  have hrounds := alignedLength_lt hlen
  obtain ⟨hafter, hkeeps, hmapped, hothers⟩ := hstate.mapLoop (by omega) hcall
  simp only [hdown] at hmapped hothers
  exact ⟨hafter, hkeeps, hmapped, hothers⟩

theorem DirectoryOk.mapRange {usermode writable : Bool} (hlen : len ≤ 0xFFFFF000)
    (hphysical : physical < 2 ^ 32) (hvirtual : virtual < 2 ^ 32) (hstate : DirectoryOk state)
    (hcall : state.pagingMapRangeNonPAE physical virtual len usermode writable = .ok after) :
    DirectoryOk after ∧ Keeps state after ∧
      (∀ i < (len + 4095) / 4096, after.frameOf (pageIndex (virtual + 4096 * i)) =
        some (pageIndex (physical + 4096 * i))) ∧
      ∀ page, (∀ i < (len + 4095) / 4096, page ≠ pageIndex (virtual + 4096 * i)) →
        after.frameOf page = state.frameOf page := by
  obtain ⟨hafter, hkeeps, hmapped, hothers⟩ :=
    hstate.mapRange_entries hphysical hvirtual (hlen.trans_lt (by decide)) hcall
  rw [alignedLength_div hlen] at hmapped hothers
  refine ⟨hafter, hkeeps, fun i hi => ?_, fun page hpage => ?_⟩
  · rw [frameOf_eq, hmapped i hi]
    rfl
  · rw [frameOf_eq, frameOf_eq, hothers page hpage]

/-- The loader's states from `paging_allocateNonPAE` on. -/
inductive PagingRun : LoaderState → Prop
  | allocate {memory : MemoryState} {bytes : Memory} {tables : ℕ → ℕ → Page}
      (hmemory : memory.WellFormed) : PagingRun ⟨memory, bytes, fun _ => 0, tables⟩
  | mapRange {state after : LoaderState} {physical virtual len : ℕ} {usermode writable : Bool}
      (hrun : PagingRun state) (hlen : len ≤ 0xFFFFF000) (hphysical : physical < 2 ^ 32)
      (hvirtual : virtual < 2 ^ 32)
      (hcall : state.pagingMapRangeNonPAE physical virtual len usermode writable = .ok after) :
      PagingRun after
  | memoryAllocate {state : LoaderState} {memory : MemoryState} {size address : ℕ}
      {type : MemoryType} (hrun : PagingRun state) (hsize : size < 2 ^ 32) (htype : type ≠ .free)
      (hcall : PhysicalMemory.memoryAllocate state.memory size type = .ok (address, memory)) :
      PagingRun { state with memory := memory }
  | write {state : LoaderState} (hrun : PagingRun state) (bytes : Memory) :
      PagingRun { state with bytes := bytes }

theorem PagingRun.directoryOk (hrun : PagingRun state) : DirectoryOk state := by
  induction hrun with
  | allocate hmemory =>
      refine ⟨hmemory, fun index htable => ?_, fun index htable => ?_⟩ <;>
        simp [hasTable] at htable
  | mapRange _ hlen hphysical hvirtual hcall ih =>
      exact (ih.mapRange hlen hphysical hvirtual hcall).1
  | memoryAllocate _ hsize htype hcall ih =>
      obtain ⟨first, _, heffect⟩ := memoryAllocate_eq_ok ih.allocator hsize hcall
      exact ih.setMemory htype heffect
  | write _ bytes ih => exact ⟨ih.allocator, ih.in_use, ih.distinct⟩

/-! ## Free ranges -/

theorem rangeFreeLoop_eq_true_iff {rounds : ℕ} :
    state.rangeFreeLoop rounds virtual = true ↔
      ∀ i < rounds, state.frameOf (pageIndex (virtual + 4096 * i)) = none := by
  induction rounds generalizing virtual with
  | zero => exact iff_of_true rfl fun i hi => absurd hi (Nat.not_lt_zero i)
  | succ rounds ih =>
      have hshift : ∀ i, pageIndex (u64 (virtual + 4096) + 4096 * i) =
          pageIndex (virtual + 4096 * (i + 1)) := by
        intro i
        simp only [pageIndex, u64]
        omega
      rw [rangeFreeLoop, isAddressPresent_eq]
      cases hframe : state.frameOf (pageIndex virtual) with
      | some frame =>
          refine iff_of_false (by simp) fun hfree => ?_
          have hfirst := hfree 0 (Nat.succ_pos rounds)
          rw [Nat.mul_zero, Nat.add_zero, hframe] at hfirst
          cases hfirst
      | none =>
          rw [if_neg (by simp), ih]
          simp only [hshift]
          constructor
          · intro hrest i hi
            cases i with
            | zero => rwa [Nat.mul_zero, Nat.add_zero]
            | succ i => exact hrest i (Nat.lt_of_succ_lt_succ hi)
          · exact fun hfree i hi => hfree (i + 1) (Nat.succ_lt_succ hi)

/-- The query examines as many pages as the length is rounded up to. -/
theorem isRangeFree_eq_true_iff (hvirtual : virtual < 2 ^ 32) :
    state.pagingIsRangeFreeNonPAE virtual len = true ↔
      ∀ i < alignedLength len / 4096, state.frameOf (pageIndex (virtual + 4096 * i)) = none := by
  have hdown : ∀ i, pageIndex (virtual / 4096 * 4096 + 4096 * i) =
      pageIndex (virtual + 4096 * i) := by
    intro i
    simp only [pageIndex]
    omega
  rw [pagingIsRangeFreeNonPAE, pageAlignDown_eq hvirtual, rangeFreeLoop_eq_true_iff]
  simp only [hdown]

theorem isRangeFree_eq_true (hlen : len ≤ 0xFFFFF000) (hvirtual : virtual < 2 ^ 32)
    (hfree : state.pagingIsRangeFreeNonPAE virtual len = true) {i : ℕ}
    (hi : i < (len + 4095) / 4096) : state.frameOf (pageIndex (virtual + 4096 * i)) = none := by
  rw [isRangeFree_eq_true_iff hvirtual, alignedLength_div hlen] at hfree
  exact hfree i hi

/-- The pages counted as free lie before the current address, whatever has
wrapped around in between. -/
def CountedFree (state : LoaderState) (curAddr pages : ℕ) : Prop :=
  ∀ i, 1 ≤ i → i ≤ pages → state.frameOf (pageIndex (curAddr + (2 ^ 64 - 4096 * i))) = none

theorem countedFree_zero (curAddr : ℕ) : CountedFree state curAddr 0 := by
  intro i hlow hhigh
  omega

/-- An absent page is counted. -/
theorem CountedFree.advance {curAddr pages : ℕ} (hfree : CountedFree state curAddr pages)
    (hpages : pages < 2 ^ 20) (habsent : state.frameOf (pageIndex curAddr) = none) :
    CountedFree state (u64 (curAddr + 4096)) (pages + 1) := by
  intro i hlow hhigh
  rcases Nat.eq_or_lt_of_le hlow with rfl | hmore
  · have hcurrent : pageIndex (u64 (curAddr + 4096) + (2 ^ 64 - 4096 * 1)) =
        pageIndex curAddr := by
      simp only [pageIndex, u64]
      omega
    rw [hcurrent]
    exact habsent
  · have hshift : pageIndex (u64 (curAddr + 4096) + (2 ^ 64 - 4096 * i)) =
        pageIndex (curAddr + (2 ^ 64 - 4096 * (i - 1))) := by
      simp only [pageIndex, u64]
      omega
    rw [hshift]
    exact hfree (i - 1) (by omega) (by omega)

/-- The counted pages follow the address that the search returns. -/
theorem CountedFree.frameOf_eq_none {curAddr pages i : ℕ} (hfree : CountedFree state curAddr pages)
    (hpages : pages < 2 ^ 20) (hi : i < pages) :
    state.frameOf (pageIndex (sub64 curAddr (4096 * pages) + 4096 * i)) = none := by
  have hindex : pageIndex (sub64 curAddr (4096 * pages) + 4096 * i) =
      pageIndex (curAddr + (2 ^ 64 - 4096 * (pages - i))) := by
    simp only [pageIndex, sub64, u64]
    omega
  rw [hindex]
  exact hfree (pages - i) (by omega) (by omega)

theorem findFreeLoop_eq_ok {size fuel curAddr pages result : ℕ} (hsize : 4096 ∣ size)
    (hlt : size < 2 ^ 32) (hpages : 4096 * pages ≤ size) (hfree : CountedFree state curAddr pages)
    (hcall : state.findFreeLoop size fuel curAddr (4096 * pages) = .ok result) :
    result = 0 ∨ (result % 4096 = curAddr % 4096 ∧
      ∀ i < size / 4096, state.frameOf (pageIndex (result + 4096 * i)) = none) := by
  induction fuel generalizing curAddr pages with
  | zero => cases hcall
  | succ fuel ih =>
      have hcount : pages < 2 ^ 20 := by omega
      have hnext : u64 (curAddr + 4096) % 4096 = curAddr % 4096 := by
        simp only [u64]
        omega
      rw [← hnext]
      rw [findFreeLoop] at hcall
      split at hcall
      · exact Or.inl (Except.ok.inj hcall).symm
      split at hcall
      · rename_i henough
        obtain rfl : 4096 * pages = size := le_antisymm hpages henough
        rw [← Except.ok.inj hcall, Nat.mul_div_cancel_left pages (by decide)]
        refine Or.inr ⟨?_, fun i hi => hfree.frameOf_eq_none hcount hi⟩
        rw [hnext]
        simp only [sub64, u64]
        omega
      · rename_i hmore
        split at hcall
        · exact @ih _ 0 (Nat.zero_le size) (countedFree_zero _) hcall
        · rename_i hpresent
          have habsent : state.frameOf (pageIndex curAddr) = none := by
            simpa [isAddressPresent_eq] using hpresent
          have hadvance : u32 (4096 * pages + 4096) = 4096 * (pages + 1) := by
            rw [← Nat.mul_succ]
            exact u32_of_lt (by omega)
          rw [hadvance] at hcall
          exact ih (by omega) (hfree.advance hcount habsent) hcall

theorem findFreeRange_eq_ok {base size result : ℕ} (hsize : 4096 ∣ size) (hlt : size < 2 ^ 32)
    (hcall : state.pagingFindFreeRangeNonPAE base size = .ok result) :
    result = 0 ∨ (result % 4096 = base % 4096 ∧
      ∀ i < size / 4096, state.frameOf (pageIndex (result + 4096 * i)) = none) := by
  rw [pagingFindFreeRangeNonPAE] at hcall
  generalize 2 ^ 64 = fuel at hcall
  exact @findFreeLoop_eq_ok state size fuel base 0 result hsize hlt (Nat.zero_le size)
    (countedFree_zero base) hcall

end GeexOS.PageTables
