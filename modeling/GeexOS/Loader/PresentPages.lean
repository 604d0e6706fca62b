import GeexOS.Loader.PageTables
import Mathlib.Order.Interval.Set.Defs
import Mathlib.Data.Set.Insert

/-!
# Pages that are present

Whatever a page directory holds, mapping further pages leaves the entries of
the present ones alone as long as the pages it maps were not among them.  Two
entries of the directory may share a table; what matters is that new tables lie
in memory of their own.
-/

namespace GeexOS.PageTables

open GeexOS.Words
open GeexOS.Halting
open GeexOS.ByteMemory
open GeexOS.PhysicalMemory
open LoaderState

/-- The allocator does not hand out the page. -/
def Taken (state : LoaderState) (page : ℕ) : Prop :=
  state.memory.Managed page → state.memory.pageType page ≠ .free

/-- The allocator hands out no page of a table, and none of the reserved pages,
which are no tables. -/
structure TablesOk (reserved : Set ℕ) (state : LoaderState) : Prop where
  allocator : state.memory.WellFormed
  taken : ∀ index, state.hasTable index = true → Taken state (state.tableOf index / 4096)
  reserved_taken : ∀ page ∈ reserved, Taken state page
  apart : ∀ index, state.hasTable index = true → state.tableOf index / 4096 ∉ reserved

variable {initial state middle after : LoaderState} {reserved : Set ℕ} {entry : Page}
variable {physical virtual len page index first : ℕ} {usermode writable : Bool}

theorem entryOf_of_table (htable : state.hasTable (page / 1024) = true)
    (hpresent : (state.tables (state.tableOf (page / 1024)) (page % 1024)).present = true) :
    state.entryOf page = some (state.tables (state.tableOf (page / 1024)) (page % 1024)) := by
  rw [entryOf, if_pos htable]
  simp only [hpresent, if_true]

theorem entryOf_eq_some (hentry : state.entryOf page = some entry) :
    state.hasTable (page / 1024) = true ∧ entry.present = true ∧
      state.tables (state.tableOf (page / 1024)) (page % 1024) = entry := by
  rw [entryOf] at hentry
  split at hentry
  · rename_i htable
    simp only at hentry
    split at hentry
    · rename_i hpresent
      obtain rfl := Option.some.inj hentry
      exact ⟨htable, hpresent, rfl⟩
    · cases hentry
  · cases hentry

theorem entryOf_eq_none (habsent : state.frameOf page = none) : state.entryOf page = none := by
  rwa [frameOf_eq, Option.map_eq_none_iff] at habsent

/-! ## New tables -/

namespace NewTable

theorem ne_of_taken (hnew : NewTable state after index first) (hpage : Taken state page) :
    page ≠ first := by
  rintro rfl
  have hmanaged : state.memory.Managed page :=
    ⟨hnew.allocation.lowest_le, hnew.allocation.le_highest⟩
  exact hpage hmanaged (hnew.allocation.was_free page le_rfl (Nat.lt_succ_self page))

theorem address_ne (hnew : NewTable state after index first) {address : ℕ}
    (haddress : Taken state (address / 4096)) : address ≠ first * 4096 := by
  rintro rfl
  rw [Nat.mul_div_cancel _ (by decide)] at haddress
  exact hnew.ne_of_taken haddress rfl

end NewTable

/-- An allocation takes no page that was taken. -/
theorem taken_of_allocation {memory : MemoryState} {pages : ℕ} {type : MemoryType}
    (heffect : AllocationEffect state.memory memory pages first type)
    (hpage : Taken state page) (hmemory : after.memory = memory) : Taken after page := by
  intro hmanaged
  rw [hmemory] at hmanaged ⊢
  have hmanaged' : state.memory.Managed page := by
    rwa [MemoryState.Managed, heffect.lowest_eq, heffect.highest_eq] at hmanaged
  have hused := hpage hmanaged'
  rw [heffect.table_eq page hmanaged'.1, if_neg fun hinside => ?_]
  · exact hused
  · exact hused (heffect.was_free page hinside.1 hinside.2)

/-- The pages of an allocation are taken. -/
theorem taken_of_allocated {memory : MemoryState} {pages : ℕ} {type : MemoryType}
    (htype : type ≠ .free) (heffect : AllocationEffect state.memory memory pages first type)
    (hfirst : first ≤ page) (hlast : page < first + pages) (hmemory : after.memory = memory) :
    Taken after page := by
  intro _
  rw [hmemory, heffect.table_eq page (heffect.lowest_le.trans hfirst), if_pos ⟨hfirst, hlast⟩]
  exact htype

theorem TablesOk.allocateTable (hstate : TablesOk reserved state)
    (hnew : NewTable state after index first) : TablesOk reserved after where
  allocator := hnew.allocation.wellFormed hstate.allocator
  taken := fun other htable => by
    by_cases heq : other = index
    · rw [heq, hnew.tableOf, Nat.mul_div_cancel _ (by decide)]
      exact taken_of_allocated (by decide) hnew.allocation le_rfl (Nat.lt_succ_self first) rfl
    · rw [(hnew.others other heq).1] at htable
      rw [(hnew.others other heq).2]
      exact taken_of_allocation hnew.allocation (hstate.taken other htable) rfl
  reserved_taken := fun page hpage =>
    taken_of_allocation hnew.allocation (hstate.reserved_taken page hpage) rfl
  apart := fun other htable hpage => by
    by_cases heq : other = index
    · rw [heq, hnew.tableOf, Nat.mul_div_cancel _ (by decide)] at hpage
      exact hnew.ne_of_taken (hstate.reserved_taken first hpage) rfl
    · rw [(hnew.others other heq).1] at htable
      rw [(hnew.others other heq).2] at hpage
      exact hstate.apart other htable hpage

/-- A new table leaves the entries in the others alone. -/
theorem TablesOk.entryOf_allocateTable (hstate : TablesOk reserved state)
    (habsent : state.hasTable index = false) (hnew : NewTable state after index first)
    (hentry : state.entryOf page = some entry) : after.entryOf page = some entry := by
  obtain ⟨htable, hpresent, rfl⟩ := entryOf_eq_some hentry
  have hne : page / 1024 ≠ index := by
    rintro rfl
    rw [habsent] at htable
    cases htable
  have hsame : after.tables (after.tableOf (page / 1024)) (page % 1024) =
      state.tables (state.tableOf (page / 1024)) (page % 1024) := by
    rw [(hnew.others _ hne).2, hnew.tables,
      Function.update_of_ne (hnew.address_ne (hstate.taken _ htable))]
  rw [← hsame] at hpresent ⊢
  exact entryOf_of_table ((hnew.others _ hne).1.trans htable) hpresent

/-! ## Pages that stay as they were -/

/-- The present pages of the first state are as they were. -/
structure Untouched (initial state : LoaderState) : Prop where
  tables : ∀ index, initial.hasTable index = true →
    state.hasTable index = true ∧ state.tableOf index = initial.tableOf index
  fresh : ∀ index, initial.hasTable index = false → state.hasTable index = true →
    ∀ other, initial.hasTable other = true → state.tableOf index ≠ initial.tableOf other
  entries : ∀ page entry, initial.entryOf page = some entry →
    state.tables (initial.tableOf (page / 1024)) (page % 1024) = entry

theorem Untouched.refl (state : LoaderState) : Untouched state state where
  tables := fun _ htable => ⟨htable, rfl⟩
  fresh := fun _ habsent hpresent => by
    rw [habsent] at hpresent
    cases hpresent
  entries := fun _ _ hentry => (entryOf_eq_some hentry).2.2

theorem Untouched.entryOf (huntouched : Untouched initial state)
    (hentry : initial.entryOf page = some entry) : state.entryOf page = some entry := by
  obtain ⟨htable, hpresent, _⟩ := entryOf_eq_some hentry
  obtain ⟨htable', haddress⟩ := huntouched.tables _ htable
  have hsame := huntouched.entries page entry hentry
  rw [← haddress] at hsame
  rw [entryOf_of_table htable' (hsame ▸ hpresent), hsame]

theorem Untouched.allocateTable (huntouched : Untouched initial state)
    (hstate : TablesOk reserved state) (habsent : state.hasTable index = false)
    (hnew : NewTable state after index first) : Untouched initial after := by
  have hne : ∀ other, initial.hasTable other = true → other ≠ index := by
    rintro other hother rfl
    rw [(huntouched.tables other hother).1] at habsent
    cases habsent
  have hfar : ∀ other, initial.hasTable other = true → initial.tableOf other ≠ first * 4096 := by
    intro other hother
    obtain ⟨htable, haddress⟩ := huntouched.tables other hother
    rw [← haddress]
    exact hnew.address_ne (hstate.taken other htable)
  refine ⟨fun other hother => ?_, fun other hnone htable third hthird => ?_,
    fun page entry hentry => ?_⟩
  · rw [(hnew.others other (hne other hother)).1, (hnew.others other (hne other hother)).2]
    exact huntouched.tables other hother
  · by_cases heq : other = index
    · rw [heq, hnew.tableOf]
      exact (hfar third hthird).symm
    · rw [(hnew.others other heq).1] at htable
      rw [(hnew.others other heq).2]
      exact huntouched.fresh other hnone htable third hthird
  · obtain ⟨htable, _⟩ := entryOf_eq_some hentry
    rw [hnew.tables, Function.update_of_ne (hfar _ htable)]
    exact huntouched.entries page entry hentry

/-- Entering a page that was not present overwrites none that was, not even
through a shared table. -/
theorem Untouched.setEntry (huntouched : Untouched initial state)
    (hpage : initial.entryOf page = none) (hmapped : state.hasTable (page / 1024) = true) :
    Untouched initial
      (state.setEntry (state.tableOf (page / 1024)) (page % 1024) entry) where
  tables := huntouched.tables
  fresh := huntouched.fresh
  entries := fun other old hold => by
    obtain ⟨htable, hpresent, hslot⟩ := entryOf_eq_some hold
    rw [← huntouched.entries other old hold, LoaderState.setEntry]
    dsimp only
    by_cases hsame : initial.tableOf (other / 1024) = state.tableOf (page / 1024)
    · rw [hsame, Function.update_self]
      refine Function.update_of_ne (fun hindex => ?_) _ _
      cases hinitial : initial.hasTable (page / 1024) with
      | false => exact huntouched.fresh _ hinitial hmapped _ htable hsame.symm
      | true =>
          rw [(huntouched.tables _ hinitial).2] at hsame
          rw [hsame, hindex] at hslot
          rw [entryOf_of_table hinitial (hslot.symm ▸ hpresent)] at hpage
          cases hpage
    · rw [Function.update_of_ne hsame]

/-! ## Mapping -/

/-- What mapping pages leaves behind: they are present, and what was present
still is. -/
structure MapsPages (reserved : Set ℕ) (state after : LoaderState) (pages : Set ℕ) : Prop where
  tablesOk : TablesOk reserved after
  present : ∀ page ∈ pages, after.entryOf page ≠ none
  stays : ∀ page, state.entryOf page ≠ none → after.entryOf page ≠ none
  untouched : ∀ initial, Untouched initial state → (∀ page ∈ pages, initial.entryOf page = none) →
    Untouched initial after

theorem MapsPages.refl (hstate : TablesOk reserved state) : MapsPages reserved state state ∅ where
  tablesOk := hstate
  present := fun _ hpage => absurd hpage (Set.notMem_empty _)
  stays := fun _ => id
  untouched := fun _ huntouched _ => huntouched

/-- Only the tables of the first state count. -/
theorem MapsPages.of_setMemory {memory : MemoryState} {bytes : Memory} {pages : Set ℕ}
    (hmaps : MapsPages reserved { state with memory := memory, bytes := bytes } after pages) :
    MapsPages reserved state after pages where
  tablesOk := hmaps.tablesOk
  present := hmaps.present
  stays := hmaps.stays
  untouched := fun initial huntouched =>
    hmaps.untouched initial ⟨huntouched.tables, huntouched.fresh, huntouched.entries⟩

theorem MapsPages.trans {pages pages' : Set ℕ} (hfirst : MapsPages reserved state middle pages)
    (hsecond : MapsPages reserved middle after pages') :
    MapsPages reserved state after (pages ∪ pages') where
  tablesOk := hsecond.tablesOk
  present := fun page hpage =>
    hpage.elim (fun hpage => hsecond.stays page (hfirst.present page hpage))
      (hsecond.present page)
  stays := fun page hpage => hsecond.stays page (hfirst.stays page hpage)
  untouched := fun initial huntouched habsent =>
    hsecond.untouched initial
      (hfirst.untouched initial huntouched fun page hpage => habsent page (Or.inl hpage))
      fun page hpage => habsent page (Or.inr hpage)

theorem TablesOk.getTable (hstate : TablesOk reserved state)
    (hcall : state.getTable index = .ok after) :
    MapsPages reserved state after ∅ ∧ after.hasTable index = true := by
  rw [LoaderState.getTable] at hcall
  split at hcall
  · rename_i htable
    obtain rfl := Except.ok.inj hcall
    exact ⟨.refl hstate, htable⟩
  · rename_i habsent
    obtain ⟨first, hnew⟩ := allocateTable_eq_ok hstate.allocator hcall
    refine ⟨⟨hstate.allocateTable hnew, fun _ hpage => absurd hpage (Set.notMem_empty _),
      fun page hpage => ?_, fun initial huntouched _ =>
        huntouched.allocateTable hstate (Bool.not_eq_true _ ▸ habsent) hnew⟩, hnew.hasTable⟩
    obtain ⟨entry, hentry⟩ := Option.ne_none_iff_exists'.mp hpage
    rw [hstate.entryOf_allocateTable (Bool.not_eq_true _ ▸ habsent) hnew hentry]
    exact Option.some_ne_none entry

theorem TablesOk.setEntry (hstate : TablesOk reserved state)
    (htable : state.hasTable (page / 1024) = true) (hpresent : entry.present = true) :
    MapsPages reserved state
      (state.setEntry (state.tableOf (page / 1024)) (page % 1024) entry) {page} := by
  have hslot : ∀ address slot,
      (state.setEntry (state.tableOf (page / 1024)) (page % 1024) entry).tables address slot =
        if address = state.tableOf (page / 1024) ∧ slot = page % 1024 then entry
        else state.tables address slot := by
    intro address slot
    rw [LoaderState.setEntry]
    dsimp only
    by_cases haddress : address = state.tableOf (page / 1024)
    · rw [haddress, Function.update_self]
      by_cases hindex : slot = page % 1024
      · rw [hindex, Function.update_self, if_pos ⟨rfl, rfl⟩]
      · rw [Function.update_of_ne hindex, if_neg fun hboth => hindex hboth.2]
    · rw [Function.update_of_ne haddress, if_neg fun hboth => haddress hboth.1]
  -- an entry that is present in its slot is seen
  have hseen : ∀ other, state.hasTable (other / 1024) = true →
      ((state.setEntry (state.tableOf (page / 1024)) (page % 1024) entry).tables
        (state.tableOf (other / 1024)) (other % 1024)).present = true →
      (state.setEntry (state.tableOf (page / 1024)) (page % 1024) entry).entryOf other ≠ none := by
    intro other htable' hpresent'
    rw [@entryOf_of_table (state.setEntry (state.tableOf (page / 1024)) (page % 1024) entry)
      other htable' hpresent']
    exact Option.some_ne_none _
  refine ⟨⟨hstate.allocator, hstate.taken, hstate.reserved_taken, hstate.apart⟩,
    fun other hother => ?_, fun other hother => ?_, fun initial huntouched habsent =>
      huntouched.setEntry (habsent page rfl) htable⟩
  · obtain rfl := Set.mem_singleton_iff.mp hother
    apply hseen other htable
    rw [hslot, if_pos ⟨rfl, rfl⟩]
    exact hpresent
  · obtain ⟨old, hold⟩ := Option.ne_none_iff_exists'.mp hother
    obtain ⟨htable', hpresent', holdSlot⟩ := entryOf_eq_some hold
    apply hseen other htable'
    rw [hslot]
    split
    · exact hpresent
    · rw [holdSlot]
      exact hpresent'

theorem TablesOk.map (hstate : TablesOk reserved state)
    (hcall : state.pagingMapVirtualMemoryNonPAE physical virtual usermode writable =
      .ok after) : MapsPages reserved state after {pageIndex virtual} := by
  obtain ⟨middle, htable, hafter⟩ := bind_eq_ok.mp hcall
  rw [pdirIndex_eq] at htable
  obtain ⟨hmiddle, hpresent⟩ := hstate.getTable htable
  rw [pdirIndex_eq, ptblIndex_eq] at hafter
  obtain rfl := Except.ok.inj hafter
  have hmapped := hmiddle.trans (hmiddle.tablesOk.setEntry hpresent
    (show (Page.mk true writable usermode ((physical >>> 12) &&& 0xFFFFF)).present = true from rfl))
  rwa [Set.empty_union] at hmapped

/-- The pages that a range of addresses reaches from its first page on. -/
def rangePages (virtual len : ℕ) : Set ℕ :=
  {page | ∃ i < (len + 4095) / 4096, page = pageIndex (virtual + 4096 * i)}

theorem TablesOk.mapLoop (hstate : TablesOk reserved state) {rounds : ℕ}
    (hcall : LoaderState.mapLoop usermode writable rounds physical virtual state = .ok after) :
    MapsPages reserved state after
      {page | ∃ i < rounds, page = pageIndex (virtual + 4096 * i)} := by
  induction rounds generalizing physical virtual state with
  | zero =>
      obtain rfl := Except.ok.inj hcall
      have hnone : {page | ∃ i < 0, page = pageIndex (virtual + 4096 * i)} = (∅ : Set ℕ) :=
        Set.eq_empty_of_forall_notMem fun page hpage =>
          hpage.elim fun i hi => absurd hi.1 (Nat.not_lt_zero i)
      rw [hnone]
      exact .refl hstate
  | succ rounds ih =>
      obtain ⟨middle, hmap, hrest⟩ := bind_eq_ok.mp hcall
      have hfirst := hstate.map hmap
      have hall := hfirst.trans (ih hfirst.tablesOk hrest)
      have hsplit : {page | ∃ i < rounds + 1, page = pageIndex (virtual + 4096 * i)} =
          {pageIndex virtual} ∪
            {page | ∃ i < rounds, page = pageIndex (u64 (virtual + 4096) + 4096 * i)} := by
        ext page
        have hshift : ∀ i, pageIndex (u64 (virtual + 4096) + 4096 * i) =
            pageIndex (virtual + 4096 * (i + 1)) := by
          intro i
          simp only [pageIndex, u64]
          omega
        simp only [hshift, Set.mem_ofPred_eq, Set.mem_union, Set.mem_singleton_iff]
        constructor
        · rintro ⟨i, hi, rfl⟩
          cases i with
          | zero => exact Or.inl (by rw [Nat.mul_zero, Nat.add_zero])
          | succ i => exact Or.inr ⟨i, Nat.lt_of_succ_lt_succ hi, rfl⟩
        · rintro (rfl | ⟨i, hi, rfl⟩)
          · exact ⟨0, Nat.succ_pos rounds, by rw [Nat.mul_zero, Nat.add_zero]⟩
          · exact ⟨i + 1, Nat.succ_lt_succ hi, rfl⟩
      rw [hsplit]
      exact hall

theorem TablesOk.mapRange (hlen : len ≤ 0xFFFFF000) (hphysical : physical < 2 ^ 32)
    (hvirtual : virtual < 2 ^ 32) (hstate : TablesOk reserved state)
    (hcall : state.pagingMapRangeNonPAE physical virtual len usermode writable = .ok after) :
    MapsPages reserved state after (rangePages virtual len) := by
  rw [pagingMapRangeNonPAE, alignedLength_div hlen, pageAlignDown_eq hphysical,
    pageAlignDown_eq hvirtual] at hcall
  have hdown : ∀ i, pageIndex (virtual / 4096 * 4096 + 4096 * i) =
      pageIndex (virtual + 4096 * i) := by
    intro i
    simp only [pageIndex]
    omega
  have hmapped := hstate.mapLoop hcall
  simp only [hdown] at hmapped
  exact hmapped

/-- Allocating and writing memory leaves the tables alone. -/
theorem TablesOk.setMemory (hstate : TablesOk reserved state) {memory : MemoryState} {pages : ℕ}
    {type : MemoryType} (heffect : AllocationEffect state.memory memory pages first type)
    (bytes : Memory) : TablesOk reserved { state with memory := memory, bytes := bytes } where
  allocator := heffect.wellFormed hstate.allocator
  taken := fun index htable => taken_of_allocation heffect (hstate.taken index htable) rfl
  reserved_taken := fun page hpage =>
    taken_of_allocation heffect (hstate.reserved_taken page hpage) rfl
  apart := hstate.apart

/-- An allocation whose pages stay with the caller. -/
theorem TablesOk.reserve (hstate : TablesOk ∅ state) {memory : MemoryState} {pages : ℕ}
    {type : MemoryType} (htype : type ≠ .free)
    (heffect : AllocationEffect state.memory memory pages first type) :
    TablesOk (Set.Ico first (first + pages)) { state with memory := memory } where
  allocator := heffect.wellFormed hstate.allocator
  taken := fun index htable => taken_of_allocation heffect (hstate.taken index htable) rfl
  reserved_taken := fun _ hpage => taken_of_allocated htype heffect hpage.1 hpage.2 rfl
  apart := fun index htable hpage =>
    hstate.taken index htable
      ⟨heffect.lowest_le.trans hpage.1, lt_of_lt_of_le hpage.2 heffect.le_highest⟩
      (heffect.was_free _ hpage.1 hpage.2)

theorem TablesOk.release (hstate : TablesOk reserved state) : TablesOk ∅ state :=
  ⟨hstate.allocator, hstate.taken, by simp, by simp⟩

end GeexOS.PageTables
