import GeexOS.Library.Words
import GeexOS.Library.Halting
import Mathlib.Data.List.Basic
import Mathlib.Logic.Function.Basic
import Mathlib.Logic.Relation

/-!
# Physical page allocation of the loader

The loader keeps one lookup-table item for every physical page between the
lowest and the highest page it knows of.  `memoryAllocate` rounds a request to
pages, takes the first run of free pages that is long enough and marks it.
-/

namespace GeexOS.PhysicalMemory

open GeexOS.Words
open GeexOS.Halting

inductive MemoryType where
  | free
  | bad
  | unusable
  | special
  | loaderExecutable
  | loaderTemporary
  | loaderStack
  | loaderHeap
  | firmware
  | pageLookupTable
  | geexOSPageStructures
  | geexOSPageDirectory
  | geexOSKernelEnvironmentInformation
  | geexOSKernelExecutable
  | geexOSKernelStack
  | geexOSKernelLibrary
  deriving DecidableEq, Repr

def archPagesize : ℕ := 4096

/-- `PAGE_START`: the mask is the 64-bit complement of `arch_pagesize - 1`. -/
def pageStart (address : ℕ) : ℕ := address &&& (2 ^ 64 - archPagesize)

/-- `PAGE_END`, in 64-bit arithmetic. -/
def pageEnd (address : ℕ) : ℕ := pageStart (u64 (address + (archPagesize - 1)))

/-- `PAGENUM`. -/
def pageNum (address : ℕ) : ℕ := address / archPagesize

structure PageLookupTableItem where
  type : MemoryType
  length : ℕ
  deriving DecidableEq, Repr

/-- The allocator's globals.  The table is the memory behind its pointer, so
that a write past the last item is visible in the model. -/
structure MemoryState where
  lowestPhysicalPage : ℕ
  highestPhysicalPage : ℕ
  tableAddress : ℕ
  pageLookupTable : ℕ → PageLookupTableItem

/-- Number of items `memory_init` made room for. -/
def MemoryState.itemCount (state : MemoryState) : ℕ :=
  state.highestPhysicalPage - state.lowestPhysicalPage

/-- Type recorded for a physical page. -/
def MemoryState.pageType (state : MemoryState) (page : ℕ) : MemoryType :=
  (state.pageLookupTable (page - state.lowestPhysicalPage)).type

/-- The enumerator's value: enumerators count from zero in source order. -/
def MemoryType.number (type : MemoryType) : ℕ := type.ctorIdx

/-- `page` is one of the pages the table has an item for. -/
def MemoryState.Managed (state : MemoryState) (page : ℕ) : Prop :=
  state.lowestPhysicalPage ≤ page ∧ page < state.highestPhysicalPage

def memoryMarkItem (type : MemoryType) : PageLookupTableItem where
  type := type
  length := if type = .free then 0 else 1

/-- The marking loop: `count` items from index `current` on. -/
def memoryMarkLoop (type : MemoryType) :
    (count current : ℕ) → (ℕ → PageLookupTableItem) → ℕ → PageLookupTableItem
  | 0, _, table => table
  | count + 1, current, table =>
      memoryMarkLoop type count (current + 1)
        (Function.update table current (memoryMarkItem type))

def markOutOfBounds : Halt := .panic <|
  "MM: memory_mark_pages() start or count out of bounds:\n" ++
  "start: 0x%X, count: 0x%X, type: %s\n" ++
  "lowestPhysicalPage: 0x%X, highestPhysicalPage: 0x%X"

def memoryMarkPages (state : MemoryState) (start count : ℕ)
    (type : MemoryType) : Outcome MemoryState :=
  if start < state.lowestPhysicalPage ∨
      u64 (start + count + (2 ^ 64 - 1)) > state.highestPhysicalPage then
    .error markOutOfBounds
  else
    .ok { state with
      pageLookupTable := memoryMarkLoop type count
        (start - state.lowestPhysicalPage) state.pageLookupTable }

/-- The scan of `memory_find_available_pages`: `remaining` items from `index`
on are still to be looked at, `currentFree` free ones precede `index`. -/
def memoryFindLoop (table : ℕ → PageLookupTableItem) (count : ℕ) :
    (remaining index currentFree : ℕ) → Option ℕ
  | 0, _, _ => none
  | remaining + 1, index, currentFree =>
      let newFree := if (table index).type = .free then currentFree + 1 else 0
      if newFree ≥ count then some (index + 1 - newFree)
      else memoryFindLoop table count remaining (index + 1) newFree

def memoryFindAvailablePages (state : MemoryState) (count : ℕ) : Outcome ℕ :=
  match memoryFindLoop state.pageLookupTable count state.itemCount 0 0 with
  | some index => .ok (state.lowestPhysicalPage + index)
  | none => .error (.panic
      "MM: memory_find_available_pages() tried to find 0x%X free pages, can't find enough")

/-- Returns the address handed out and the table afterwards.  The page count
is rounded with `PAGE_START`, as the source has it. -/
def memoryAllocate (state : MemoryState) (size : ℕ) (type : MemoryType) :
    Outcome (ℕ × MemoryState) :=
  if size = 0 then
    .error (.panic "MM: memory_allocate() size was <= 0")
  else do
    let pagesNeeded := pageStart size / archPagesize
    let firstFreePage ← memoryFindAvailablePages state pagesNeeded
    let marked ← memoryMarkPages state firstFreePage pagesNeeded type
    if u64 ((firstFreePage + pagesNeeded) * archPagesize) > 0xFFFFFFFF then
      .error (.panic "MM: Trying to allocate memory at addresses bigger than 32 bit")
    else
      .ok (u32 (firstFreePage * archPagesize), marked)

/-! ## Rounding and the two loops -/

theorem pageStart_eq {address : ℕ} (haddress : address < 2 ^ 64) :
    pageStart address = address / archPagesize * archPagesize :=
  land_mask haddress (show 12 ≤ 64 by norm_num)

theorem pageStart_div {size : ℕ} (hsize : size < 2 ^ 64) :
    pageStart size / archPagesize = size / archPagesize := by
  rw [pageStart_eq hsize, Nat.mul_div_cancel _ (by norm_num [archPagesize])]

theorem memoryMarkLoop_apply (type : MemoryType) (count current : ℕ)
    (table : ℕ → PageLookupTableItem) (index : ℕ) :
    memoryMarkLoop type count current table index =
      if current ≤ index ∧ index < current + count then memoryMarkItem type
      else table index := by
  induction count generalizing current table with
  | zero =>
      have hempty : ¬ (current ≤ index ∧ index < current + 0) := by omega
      rw [memoryMarkLoop, if_neg hempty]
  | succ count ih =>
      rw [memoryMarkLoop, ih]
      by_cases hhead : index = current
      · subst hhead
        simp
      · rw [Function.update_of_ne hhead]
        have hrange : (current + 1 ≤ index ∧ index < current + 1 + count) ↔
            (current ≤ index ∧ index < current + (count + 1)) := by omega
        simp only [hrange]

/-- The scan returns the start of a run of free items that lies in the part
of the table it looked at.  `hseen` is the loop invariant: the last
`currentFree` items before `index` are free. -/
theorem memoryFindLoop_eq_some {table : ℕ → PageLookupTableItem}
    {count remaining index currentFree found : ℕ}
    (hcurrent : currentFree ≤ index)
    (hseen : ∀ item, index - currentFree ≤ item → item < index →
      (table item).type = .free)
    (hfound : memoryFindLoop table count remaining index currentFree =
      some found) :
    found + count ≤ index + remaining ∧
      ∀ item, found ≤ item → item < found + count →
        (table item).type = .free := by
  induction remaining generalizing index currentFree with
  | zero => simp [memoryFindLoop] at hfound
  | succ remaining ih =>
      simp only [memoryFindLoop] at hfound
      by_cases hfree : (table index).type = .free
      · have hextended : ∀ item, index + 1 - (currentFree + 1) ≤ item →
            item < index + 1 → (table item).type = .free := by
          intro item hlow hhigh
          rcases Nat.lt_succ_iff_lt_or_eq.mp hhigh with hlt | heq
          · exact hseen item (by omega) hlt
          · exact heq ▸ hfree
        rw [if_pos hfree] at hfound
        by_cases hdone : currentFree + 1 ≥ count
        · rw [if_pos hdone, Option.some.injEq] at hfound
          refine ⟨by omega, fun item hlow hhigh => ?_⟩
          exact hextended item (by omega) (by omega)
        · rw [if_neg hdone] at hfound
          have hrest := ih (by omega) hextended hfound
          exact ⟨by omega, hrest.2⟩
      · rw [if_neg hfree] at hfound
        by_cases hdone : 0 ≥ count
        · rw [if_pos hdone, Option.some.injEq] at hfound
          exact ⟨by omega, fun item hlow hhigh => by omega⟩
        · rw [if_neg hdone] at hfound
          have hrest := ih (Nat.zero_le _) (fun item hlow hhigh => by omega) hfound
          exact ⟨by omega, hrest.2⟩

/-! ## One allocation -/

/-- What `memory_init` leaves behind: the page numbers are those of a 64-bit
address space. -/
structure MemoryState.WellFormed (state : MemoryState) : Prop where
  ordered : state.lowestPhysicalPage ≤ state.highestPhysicalPage
  addressable : state.highestPhysicalPage < 2 ^ 52

/-- `page` shares a byte with `[address, address + size)`. -/
def Intersects (page address size : ℕ) : Prop :=
  page * archPagesize < address + size ∧ address < (page + 1) * archPagesize

/-- Everything a returning `memoryAllocate` has done, in terms of the number
of whole pages in the request. -/
structure AllocationEffect (before after : MemoryState) (pages first : ℕ)
    (type : MemoryType) : Prop where
  lowest_le : before.lowestPhysicalPage ≤ first
  le_highest : first + pages ≤ before.highestPhysicalPage
  below_4GiB : (first + pages) * archPagesize ≤ 0xFFFFFFFF
  was_free : ∀ page, first ≤ page → page < first + pages →
    before.pageType page = .free
  lowest_eq : after.lowestPhysicalPage = before.lowestPhysicalPage
  highest_eq : after.highestPhysicalPage = before.highestPhysicalPage
  table_eq : ∀ page, before.lowestPhysicalPage ≤ page →
    after.pageType page =
      if first ≤ page ∧ page < first + pages then type else before.pageType page

theorem memoryFindAvailablePages_eq_ok {state : MemoryState} {count first : ℕ}
    (hordered : state.lowestPhysicalPage ≤ state.highestPhysicalPage)
    (hfind : memoryFindAvailablePages state count = .ok first) :
    state.lowestPhysicalPage ≤ first ∧
      first + count ≤ state.highestPhysicalPage ∧
      ∀ page, first ≤ page → page < first + count →
        state.pageType page = .free := by
  simp only [memoryFindAvailablePages] at hfind
  cases hloop : memoryFindLoop state.pageLookupTable count state.itemCount 0 0 with
  | none => simp [hloop] at hfind
  | some index =>
      simp only [hloop, Except.ok.injEq] at hfind
      have hspec := memoryFindLoop_eq_some (Nat.zero_le 0)
        (fun item hlow hhigh => by omega) hloop
      have hcount : state.itemCount =
          state.highestPhysicalPage - state.lowestPhysicalPage := rfl
      refine ⟨by omega, by omega, fun page hlow hhigh => ?_⟩
      exact hspec.2 (page - state.lowestPhysicalPage) (by omega) (by omega)

theorem memoryMarkPages_eq_ok {state marked : MemoryState} {start count : ℕ}
    {type : MemoryType}
    (hmark : memoryMarkPages state start count type = .ok marked) :
    state.lowestPhysicalPage ≤ start ∧
      marked.lowestPhysicalPage = state.lowestPhysicalPage ∧
      marked.highestPhysicalPage = state.highestPhysicalPage ∧
      ∀ page, state.lowestPhysicalPage ≤ page →
        marked.pageType page =
          if start ≤ page ∧ page < start + count then type
          else state.pageType page := by
  simp only [memoryMarkPages] at hmark
  split at hmark
  · simp at hmark
  · rename_i hbounds
    rw [Except.ok.injEq] at hmark
    subst hmark
    have hstart : state.lowestPhysicalPage ≤ start := by omega
    refine ⟨hstart, rfl, rfl, fun page hpage => ?_⟩
    simp only [MemoryState.pageType, memoryMarkLoop_apply]
    have hrange : (start - state.lowestPhysicalPage ≤
          page - state.lowestPhysicalPage ∧
        page - state.lowestPhysicalPage <
          start - state.lowestPhysicalPage + count) ↔
        (start ≤ page ∧ page < start + count) := by omega
    by_cases hin : start ≤ page ∧ page < start + count
    · rw [if_pos (hrange.mpr hin), if_pos hin]
      rfl
    · rw [if_neg (mt hrange.mp hin), if_neg hin]

/-- The steps of a call that returns. -/
theorem memoryAllocate_of_steps {state marked : MemoryState}
    {size pages first : ℕ} {type : MemoryType} (hsize : 0 < size)
    (hpages : pageStart size / archPagesize = pages)
    (hfind : memoryFindAvailablePages state pages = .ok first)
    (hmark : memoryMarkPages state first pages type = .ok marked)
    (hbelow : (first + pages) * archPagesize ≤ 0xFFFFFFFF) :
    memoryAllocate state size type = .ok (first * archPagesize, marked) := by
  have hwrap : u64 ((first + pages) * archPagesize) =
      (first + pages) * archPagesize := u64_of_lt (by omega)
  have haddress : u32 (first * archPagesize) = first * archPagesize :=
    u32_of_lt (by simp only [archPagesize] at hbelow ⊢; omega)
  rw [memoryAllocate, if_neg hsize.ne', hpages]
  simp [hfind, hmark, hwrap, haddress, not_lt.mpr hbelow]

/-- A returning call took `size / arch_pagesize` whole pages. -/
theorem memoryAllocate_eq_ok {state after : MemoryState} {size address : ℕ}
    {type : MemoryType} (hstate : state.WellFormed) (hsize : size < 2 ^ 32)
    (hallocate : memoryAllocate state size type = .ok (address, after)) :
    ∃ first, address = first * archPagesize ∧
      AllocationEffect state after (size / archPagesize) first type := by
  simp only [memoryAllocate] at hallocate
  split at hallocate
  · simp at hallocate
  · rw [pageStart_div (by omega)] at hallocate
    obtain ⟨first, hfind, hrest⟩ := bind_eq_ok.mp hallocate
    obtain ⟨marked, hmark, hcheck⟩ := bind_eq_ok.mp hrest
    obtain ⟨hlow, hhigh, hfree⟩ :=
      memoryFindAvailablePages_eq_ok hstate.ordered hfind
    obtain ⟨_, hlowest, hhighest, htable⟩ := memoryMarkPages_eq_ok hmark
    have hnowrap : (first + size / archPagesize) * archPagesize < 2 ^ 64 := by
      have := hstate.addressable
      simp only [archPagesize] at hhigh ⊢
      omega
    rw [u64_of_lt hnowrap] at hcheck
    split at hcheck
    · simp at hcheck
    · rename_i hbelow
      simp only [Except.ok.injEq, Prod.mk.injEq] at hcheck
      obtain ⟨haddress, rfl⟩ := hcheck
      refine ⟨first, ?_, ?_⟩
      · rw [← haddress]
        apply u32_of_lt
        simp only [archPagesize] at hbelow ⊢
        omega
      · exact
          { lowest_le := hlow
            le_highest := hhigh
            below_4GiB := by omega
            was_free := hfree
            lowest_eq := hlowest
            highest_eq := hhighest
            table_eq := htable }

theorem AllocationEffect.wellFormed {before after : MemoryState}
    {pages first : ℕ} {type : MemoryType}
    (heffect : AllocationEffect before after pages first type)
    (hbefore : before.WellFormed) : after.WellFormed where
  ordered := by
    rw [heffect.lowest_eq, heffect.highest_eq]
    exact hbefore.ordered
  addressable := by
    rw [heffect.highest_eq]
    exact hbefore.addressable

/-- An allocation never frees a page: what was in use stays in use. -/
theorem AllocationEffect.pageType_ne_free {before after : MemoryState}
    {pages first page : ℕ} {type : MemoryType}
    (heffect : AllocationEffect before after pages first type)
    (htype : type ≠ .free) (hpage : before.lowestPhysicalPage ≤ page)
    (hused : before.pageType page ≠ .free) : after.pageType page ≠ .free := by
  rw [heffect.table_eq page hpage]
  split
  · exact htype
  · exact hused

/-! ## Runs of allocations -/

/-- Arguments of one call, as its callers pass them. -/
structure Request where
  size : ℕ
  type : MemoryType
  size_pos : 0 < size
  size_lt : size < 2 ^ 32
  type_ne_free : type ≠ .free

/-- One call that came back, with the table before and after it. -/
structure Allocation where
  request : Request
  address : ℕ
  before : MemoryState
  after : MemoryState

/-- The calls of a run that returned, in order; a run that panics ends with
the last call before the panic. -/
inductive AllocationRun : MemoryState → List Allocation → MemoryState → Prop where
  | nil (state : MemoryState) : AllocationRun state [] state
  | cons {before after final : MemoryState} {address : ℕ}
      {calls : List Allocation} (request : Request)
      (hcall : memoryAllocate before request.size request.type =
        .ok (address, after))
      (hrest : AllocationRun after calls final) :
      AllocationRun before (⟨request, address, before, after⟩ :: calls) final

/-- The call handed out free pages only and marked exactly these. -/
structure Allocation.Correct (call : Allocation) : Prop where
  aligned : archPagesize ∣ call.address
  was_free : ∀ page, Intersects page call.address call.request.size →
    call.before.Managed page ∧ call.before.pageType page = .free
  is_marked : ∀ page, Intersects page call.address call.request.size →
    call.after.pageType page = call.request.type
  others_unchanged : ∀ page, call.before.lowestPhysicalPage ≤ page →
    ¬ Intersects page call.address call.request.size →
    call.after.pageType page = call.before.pageType page

def Allocation.DisjointFrom (left right : Allocation) : Prop :=
  left.address + left.request.size ≤ right.address ∨
    right.address + right.request.size ≤ left.address

/-- Every call is correct, the byte ranges are pairwise disjoint, and none
touches a page that was in use when the run began. -/
structure RunCorrect (initial : MemoryState) (calls : List Allocation) : Prop where
  correct : ∀ call ∈ calls, call.Correct
  disjoint : calls.Pairwise Allocation.DisjointFrom
  avoids_used : ∀ call ∈ calls, ∀ page, initial.lowestPhysicalPage ≤ page →
    initial.pageType page ≠ .free →
    ¬ Intersects page call.address call.request.size

theorem intersects_iff_of_dvd {page first size : ℕ}
    (hsize : archPagesize ∣ size) :
    Intersects page (first * archPagesize) size ↔
      first ≤ page ∧ page < first + size / archPagesize := by
  obtain ⟨pages, rfl⟩ := hsize
  simp only [Intersects, archPagesize]
  omega

/-- A call for whole pages is correct. -/
theorem Allocation.correct_of_dvd {request : Request} {address : ℕ}
    {before after : MemoryState} (hbefore : before.WellFormed)
    (hcall : memoryAllocate before request.size request.type =
      .ok (address, after))
    (hdvd : archPagesize ∣ request.size) :
    Allocation.Correct ⟨request, address, before, after⟩ := by
  obtain ⟨first, rfl, heffect⟩ :=
    memoryAllocate_eq_ok hbefore request.size_lt hcall
  have hlowest := heffect.lowest_le
  have hhighest := heffect.le_highest
  constructor
  · exact Dvd.intro_left _ rfl
  · intro page hpage
    rw [intersects_iff_of_dvd hdvd] at hpage
    have hmanaged : before.Managed page := ⟨by omega, by omega⟩
    exact ⟨hmanaged, heffect.was_free page hpage.1 hpage.2⟩
  · intro page hpage
    rw [intersects_iff_of_dvd hdvd] at hpage
    have hmanaged : before.lowestPhysicalPage ≤ page := by omega
    rw [heffect.table_eq page hmanaged, if_pos hpage]
  · intro page hmanaged hpage
    rw [intersects_iff_of_dvd hdvd] at hpage
    rw [heffect.table_eq page hmanaged, if_neg hpage]

/-- A call for a size that is not a whole number of pages leaves its last page
unmarked, and so is not correct. -/
theorem Allocation.not_correct_of_not_dvd {request : Request} {address : ℕ}
    {before after : MemoryState} (hbefore : before.WellFormed)
    (hcall : memoryAllocate before request.size request.type =
      .ok (address, after))
    (hdvd : ¬ archPagesize ∣ request.size) :
    ¬ Allocation.Correct ⟨request, address, before, after⟩ := by
  intro hcorrect
  obtain ⟨first, rfl, heffect⟩ :=
    memoryAllocate_eq_ok hbefore request.size_lt hcall
  -- the page behind the whole pages still holds the end of the range
  let last := first + request.size / archPagesize
  have hlast : Intersects last (first * archPagesize) request.size := by
    have hmod : request.size % archPagesize ≠ 0 :=
      fun hzero => hdvd (Nat.dvd_of_mod_eq_zero hzero)
    simp only [Intersects, archPagesize, last] at hmod ⊢
    omega
  have hlow : before.lowestPhysicalPage ≤ last :=
    heffect.lowest_le.trans (Nat.le_add_right _ _)
  have hunmarked : after.pageType last = before.pageType last := by
    rw [heffect.table_eq last hlow, if_neg (by omega)]
  have hfree := (hcorrect.was_free last hlast).2
  have hmarked := hcorrect.is_marked last hlast
  exact request.type_ne_free (by
    rw [← hmarked]
    exact hunmarked.trans hfree)

/-- Pages in use stay in use and are not handed out in the rest of the run. -/
theorem AllocationRun.avoids_used {initial final : MemoryState}
    {calls : List Allocation} (hrun : AllocationRun initial calls final)
    (hinitial : initial.WellFormed)
    (hdvd : ∀ call ∈ calls, archPagesize ∣ call.request.size)
    {page : ℕ} (hpage : initial.lowestPhysicalPage ≤ page)
    (hused : initial.pageType page ≠ .free) :
    ∀ call ∈ calls, ¬ Intersects page call.address call.request.size := by
  induction hrun with
  | nil => simp
  | @cons before after final address calls request hcall hrest ih =>
      obtain ⟨first, haddress, heffect⟩ :=
        memoryAllocate_eq_ok hinitial request.size_lt hcall
      have hcorrect := Allocation.correct_of_dvd hinitial hcall
        (hdvd _ List.mem_cons_self)
      intro call hmem
      rcases List.mem_cons.mp hmem with rfl | htail
      · intro hintersects
        exact hused (hcorrect.was_free page hintersects).2
      · refine ih (heffect.wellFormed hinitial)
          (fun call hcall => hdvd call (List.mem_cons_of_mem _ hcall)) ?_ ?_
          call htail
        · rw [heffect.lowest_eq]
          exact hpage
        · exact heffect.pageType_ne_free request.type_ne_free hpage hused

/-- Ranges that share no page share no byte. -/
theorem disjointFrom_of_no_common_page {left right : Allocation}
    (hleft : 0 < left.request.size) (hright : 0 < right.request.size)
    (hpages : ∀ page, Intersects page left.address left.request.size →
      ¬ Intersects page right.address right.request.size) :
    left.DisjointFrom right := by
  by_contra hoverlap
  simp only [Allocation.DisjointFrom, not_or, not_le] at hoverlap
  let byte := max left.address right.address
  refine hpages (byte / archPagesize) ?_ ?_ <;>
    simp only [Intersects, archPagesize, byte] <;>
    omega

theorem AllocationRun.runCorrect_of_dvd {initial final : MemoryState}
    {calls : List Allocation} (hrun : AllocationRun initial calls final)
    (hinitial : initial.WellFormed)
    (hdvd : ∀ call ∈ calls, archPagesize ∣ call.request.size) :
    RunCorrect initial calls := by
  induction hrun with
  | nil => exact ⟨by simp, List.Pairwise.nil, by simp⟩
  | @cons before after final address calls request hcall hrest ih =>
      obtain ⟨first, haddress, heffect⟩ :=
        memoryAllocate_eq_ok hinitial request.size_lt hcall
      have hcorrect := Allocation.correct_of_dvd hinitial hcall
        (hdvd _ List.mem_cons_self)
      have hafter := heffect.wellFormed hinitial
      have htail : ∀ call ∈ calls, archPagesize ∣ call.request.size :=
        fun call hmem => hdvd call (List.mem_cons_of_mem _ hmem)
      have hind := ih hafter htail
      refine ⟨?_, ?_, ?_⟩
      · rintro call hmem
        rcases List.mem_cons.mp hmem with rfl | hmem
        · exact hcorrect
        · exact hind.correct call hmem
      · refine List.pairwise_cons.mpr ⟨fun call hmem => ?_, hind.disjoint⟩
        apply disjointFrom_of_no_common_page request.size_pos
          call.request.size_pos
        -- the first call's pages are in use afterwards, so later calls avoid them
        intro page hpage
        have hmanaged := (hcorrect.was_free page hpage).1.1
        have hmarked := hcorrect.is_marked page hpage
        refine hrest.avoids_used hafter htail ?_ ?_ call hmem
        · rw [heffect.lowest_eq]
          exact hmanaged
        · exact hmarked ▸ request.type_ne_free
      · intro call hmem page hpage hused
        exact (AllocationRun.cons request hcall hrest).avoids_used hinitial
          hdvd hpage hused call hmem

/-- A run of allocations is correct exactly if every size in it is a whole
number of pages. -/
theorem runCorrect_iff_dvd {initial final : MemoryState}
    {calls : List Allocation} (hinitial : initial.WellFormed)
    (hrun : AllocationRun initial calls final) :
    RunCorrect initial calls ↔
      ∀ call ∈ calls, archPagesize ∣ call.request.size := by
  constructor
  · intro hcorrect
    have hcalls := hcorrect.correct
    clear hcorrect
    induction hrun with
    | nil => simp
    | @cons before after final address calls request hcall hrest ih =>
        obtain ⟨first, haddress, heffect⟩ :=
          memoryAllocate_eq_ok hinitial request.size_lt hcall
        intro call hmem
        rcases List.mem_cons.mp hmem with rfl | hmem
        · by_contra hdvd
          exact Allocation.not_correct_of_not_dvd hinitial hcall hdvd
            (hcalls _ List.mem_cons_self)
        · exact ih (heffect.wellFormed hinitial)
            (fun call hmem => hcalls call (List.mem_cons_of_mem _ hmem))
            call hmem
  · exact hrun.runCorrect_of_dvd hinitial

/-- A table of four pages, the first of which belongs to the firmware. -/
def firmwarePageState : MemoryState where
  lowestPhysicalPage := 0
  highestPhysicalPage := 4
  tableAddress := 0x3fd0
  pageLookupTable := fun index =>
    memoryMarkItem (if index = 0 then .firmware else .free)

theorem firmwarePageState_wellFormed : firmwarePageState.WellFormed :=
  ⟨by decide, by decide⟩

def twoPageRequest : Request where
  size := 8192
  type := .geexOSKernelStack
  size_pos := by decide
  size_lt := by decide
  type_ne_free := by decide

/-- `sizeof(LOADER_BLOCK)` bytes, as `loader_allocateAndPopulateLoaderBlock`
asks for them. -/
def loaderBlockRequest : Request where
  size := 2716
  type := .geexOSKernelEnvironmentInformation
  size_pos := by decide
  size_lt := by decide
  type_ne_free := by decide

theorem runCorrect_iff_dvd_twoPages :
    ∃ after, RunCorrect firmwarePageState
        [⟨twoPageRequest, 4096, firmwarePageState, after⟩] ↔
      ∀ call ∈ [Allocation.mk twoPageRequest 4096 firmwarePageState after],
        archPagesize ∣ call.request.size :=
  ⟨_, runCorrect_iff_dvd firmwarePageState_wellFormed
    (.cons twoPageRequest
      (memoryAllocate_of_steps (by decide)
        (show pageStart twoPageRequest.size / archPagesize = 2 by decide)
        (show memoryFindAvailablePages firmwarePageState 2 = .ok 1 from rfl)
        rfl (by decide)) (.nil _))⟩

/-- The loader block is smaller than a page, so the call marks no page at all:
it hands out page 1 and leaves it free. -/
theorem loaderBlock_not_runCorrect :
    ¬ ∀ (initial final : MemoryState) (calls : List Allocation),
      initial.WellFormed → AllocationRun initial calls final →
        RunCorrect initial calls := by
  intro hall
  have hcall : memoryAllocate firmwarePageState loaderBlockRequest.size
      loaderBlockRequest.type = .ok (4096, firmwarePageState) :=
    memoryAllocate_of_steps (by decide)
      (show pageStart loaderBlockRequest.size / archPagesize = 0 by decide)
      (show memoryFindAvailablePages firmwarePageState 0 = .ok 1 from rfl)
      rfl (by decide)
  have hrun := hall _ _ _ firmwarePageState_wellFormed
    (.cons loaderBlockRequest hcall (.nil _))
  exact Allocation.not_correct_of_not_dvd firmwarePageState_wellFormed hcall
    (by decide) (hrun.correct _ List.mem_cons_self)

end GeexOS.PhysicalMemory
