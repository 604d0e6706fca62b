import GeexOS.Loader.PageLookupTable

/-!
# Writes to the page lookup table

The table has an item for every page below the highest one, and the marking
lets the highest one through.  What is written behind the last item is decided
by the shape of the topmost free item of the map, and later by the page ranges
that are marked.  The table is taken to lie apart from the memory map and from the
loader; a table at address 0, or one that goes on there behind 4 GiB, need not
(`TableMemory`).
-/

namespace GeexOS.PageLookupTable

open GeexOS.Words
open GeexOS.Halting
open GeexOS.PhysicalMemory
open GeexOS.FirmwareMap
open GeexOS.RangeMap

/-- `memory_mark_pages` does not panic. -/
def Mark.Passes (mark : Mark) (state : MemoryState) : Prop :=
  ¬ (mark.start < state.lowestPhysicalPage ∨
    u64 (mark.start + mark.count + (2 ^ 64 - 1)) > state.highestPhysicalPage)

instance (mark : Mark) (state : MemoryState) : Decidable (mark.Passes state) :=
  inferInstanceAs (Decidable (¬ (_ ∨ _)))

/-- The loop of `memory_mark_pages` writes items of the table only. -/
def Mark.Inside (mark : Mark) (state : MemoryState) : Prop :=
  ∀ index, mark.start - state.lowestPhysicalPage ≤ index →
    index < mark.start - state.lowestPhysicalPage + mark.count → index < state.itemCount

/-- The calls that write: those before the first one that panics. -/
def performed (state : MemoryState) (marks : List Mark) : List Mark :=
  marks.takeWhile fun mark => mark.Passes state

/-- The topmost free item is page 0 alone, or one page that the table is not
placed in. -/
def TopFits (items : List FirmwareMemoryMapItem) : Prop :=
  ∀ top ∈ items, top.type = .free →
    (∀ other ∈ items, other.type = .free → other.endPage ≤ top.endPage) →
    top.endPage = 1 ∨ top.pageCount = 1 ∧
      (342 ≤ top.basePage ∨ ∃ other ∈ items, other.type = .free ∧ other ≠ top)

variable {map : ℕ → FirmwareMemoryMapItem} {items : List FirmwareMemoryMapItem}
variable {item top : FirmwareMemoryMapItem} {contents : ℕ → PageLookupTableItem}
variable {state after : MemoryState} {mark : Mark} {marks later : List Mark}

/-! ## One call -/

/-- A call returns exactly if it passes, and writes the items it stands for. -/
theorem memoryMarkPages_eq_ok_iff :
    memoryMarkPages state mark.start mark.count mark.type = .ok after ↔
      mark.Passes state ∧ after = { state with
        pageLookupTable := memoryMarkLoop mark.type mark.count
          (mark.start - state.lowestPhysicalPage) state.pageLookupTable } := by
  rw [memoryMarkPages, Mark.Passes]
  split
  · rename_i hbounds
    exact iff_of_false (by simp) fun hboth => hboth.1 hbounds
  · rename_i hbounds
    rw [Except.ok.injEq, eq_comm]
    exact (and_iff_right hbounds).symm

theorem inside_iff (hlowest : state.lowestPhysicalPage = 0) :
    mark.Inside state ↔
      mark.count = 0 ∨ mark.start + mark.count ≤ state.highestPhysicalPage := by
  rw [Mark.Inside, MemoryState.itemCount, hlowest, Nat.sub_zero, Nat.sub_zero]
  constructor
  · intro hinside
    by_contra hout
    have hlast := hinside (mark.start + mark.count - 1) (by omega) (by omega)
    omega
  · intro hend index hlow hhigh
    omega

theorem passes_of_fits (hlowest : state.lowestPhysicalPage = 0)
    (hhighest : state.highestPhysicalPage + 1 < 2 ^ 64)
    (hfits : mark.Fits state.highestPhysicalPage) : mark.Passes state := by
  obtain ⟨hpos, hend⟩ := hfits
  rw [Mark.Passes, hlowest]
  simp only [u64]
  omega

theorem forall_performed_append (hall : ∀ mark ∈ marks, mark.Passes state)
    (property : Mark → Prop) :
    (∀ other ∈ performed state (marks ++ [mark]), property other) ↔
      (∀ other ∈ marks, property other) ∧ (mark.Passes state → property mark) := by
  have hpass : ∀ other ∈ marks, decide (other.Passes state) = true :=
    fun other hmem => decide_eq_true (hall other hmem)
  rw [performed, List.takeWhile_append_of_pos hpass, List.forall_mem_append]
  refine and_congr_right fun _ => ?_
  by_cases hlast : mark.Passes state <;> simp [hlast]

/-! ## The calls of `memory_init` -/

/-- The topmost free item. -/
structure Topmost (items : List FirmwareMemoryMapItem) (top : FirmwareMemoryMapItem) : Prop where
  mem : top ∈ items
  free : top.type = .free
  endPage_eq : top.endPage = highestFreePage items + 1

/-- Other items that start below the highest page end in front of it. -/
theorem Topmost.endPage_le (htop : Topmost items top) (hsorted : Sorted items)
    (hmem : item ∈ items) (hbase : item.basePage ≤ highestFreePage items) (hne : item ≠ top) :
    item.endPage ≤ top.basePage := by
  have hend := htop.endPage_eq
  rcases hsorted.ordered.eq_or_apart hmem htop.mem with heq | hbefore | hbehind
  · exact absurd heq hne
  · exact hbefore
  · omega

/-- The other free items end in front of it. -/
theorem Topmost.endPage_le_of_free (htop : Topmost items top) (hsorted : Sorted items)
    (hmem : item ∈ items) (hfree : item.type = .free) (hne : item ≠ top) :
    item.endPage ≤ top.basePage := by
  obtain ⟨_, hall, _⟩ := memoryCountUsablePages_spec hsorted
  have hlast := hall item hmem hfree
  have hnonempty := hsorted.ordered.nonempty item hmem
  exact htop.endPage_le hsorted hmem (by omega) hne

/-- The rounds over all pages and over the items stay inside exactly if the
topmost item is a single page. -/
theorem roundMarks_inside_iff (hsorted : Sorted items) (htop : Topmost items top)
    (hlowest : state.lowestPhysicalPage = 0)
    (hhighest : state.highestPhysicalPage = highestFreePage items) :
    (∀ mark ∈ roundMarks items, mark.Inside state) ↔ top.pageCount = 1 := by
  have hend := htop.endPage_eq
  have hpos := hsorted.pageCount_pos htop.mem
  simp only [FirmwareMemoryMapItem.endPage] at hend
  rw [roundMarks, List.forall_mem_cons, inside_iff hlowest, hhighest]
  constructor
  · rintro ⟨_, hitems⟩
    by_contra hmore
    have hlow : top.basePage < highestFreePage items := by omega
    have hmark := hitems _ (List.mem_map.mpr ⟨top, List.mem_filter.mpr
      ⟨htop.mem, decide_eq_true hlow⟩, rfl⟩)
    rw [inside_iff hlowest, hhighest] at hmark
    dsimp only at hmark
    omega
  · intro hone
    refine ⟨Or.inr (by dsimp only; omega), fun mark hmem => ?_⟩
    obtain ⟨cur, hcur, rfl⟩ := List.mem_map.mp hmem
    obtain ⟨hmem, hlow⟩ := List.mem_filter.mp hcur
    have hlow := of_decide_eq_true hlow
    have hne : cur ≠ top := by
      rintro rfl
      omega
    have hbound := htop.endPage_le hsorted hmem hlow.le hne
    simp only [FirmwareMemoryMapItem.endPage] at hbound
    rw [inside_iff hlowest, hhighest]
    dsimp only
    omega

/-- Wherever the table is, it begins below 4 GiB and has no more bytes. -/
theorem tableMark_lt (items : List FirmwareMemoryMapItem) :
    (tableMark items).start < 2 ^ 20 ∧ (tableMark items).count ≤ 2 ^ 20 := by
  have hplace : ∀ size cur, tablePlace size cur < 2 ^ 32 := by
    intro size cur
    rw [tablePlace]
    split
    · split
      · exact u32_lt _
      · exact Nat.two_pow_pos 32
    · exact u32_lt _
  have haddress : findLoop (u64 (tableSize items)) items < 2 ^ 32 := by
    rcases findLoop_spec (u64 (tableSize items)) items with
      ⟨_, hzero⟩ | ⟨_, cur, _, _, _, _, hfound⟩
    · rw [hzero]
      exact Nat.two_pow_pos 32
    · rw [hfound]
      exact hplace _ cur
  have hbytes := u32_lt (u64 (tableSize items))
  rw [tableMark, pageNum, pageNum, pageEnd_div (by omega), pageStart_div (by omega), archPagesize]
  exact ⟨by dsimp only; omega, by dsimp only; omega⟩

/-- The pages of a table that is smaller than 32 MiB. -/
theorem tableMark_eq (hsorted : Sorted items) (hpos : 0 < highestFreePage items)
    (hsmall : highestFreePage items < 2 ^ 21) :
    tableMark items = ⟨findLoop (tableSize items) items / 4096,
      (tableSize items + 4095) / 4096, .pageLookupTable⟩ := by
  have hbytes : tableSize items = highestFreePage items * 12 := rfl
  have haddress := (findLoop_place hsorted hpos (by omega)).1
  rw [tableMark, u64_of_lt (by omega), u32_of_lt (by omega), pageNum, pageNum,
    pageEnd_div (by omega), pageStart_div (by omega), archPagesize]

/-- Another item than the topmost one holds the table below the highest page. -/
theorem Topmost.tablePlace_below (htop : Topmost items top) (hsorted : Sorted items)
    (hpos : 0 < highestFreePage items) (hsmall : highestFreePage items < 2 ^ 21)
    (hmem : item ∈ items) (hfree : item.type = .free) (hne : item ≠ top)
    (hroom : (tableSize items + 4095) / 4096 ≤ item.pageCount) :
    tablePlace (tableSize items) item / 4096 + (tableSize items + 4095) / 4096 ≤
      highestFreePage items := by
  have hbytes : tableSize items = highestFreePage items * 12 := rfl
  have hend := htop.endPage_eq
  have hpages := hsorted.pageCount_pos htop.mem
  simp only [FirmwareMemoryMapItem.endPage] at hend
  have hbound := htop.endPage_le_of_free hsorted hmem hfree hne
  obtain ⟨_, hcase⟩ := @tablePlace_eq item (tableSize items) (by omega) (by omega) (by omega)
    (by omega)
  omega

/-- A table of one page comes to the topmost item only if no other item is free. -/
theorem Topmost.eq_of_free {front back : List FirmwareMemoryMapItem}
    (htop : Topmost items top) (hsorted : Sorted items)
    (hpos : 0 < highestFreePage items) (hone : top.pageCount = 1)
    (hsmall : highestFreePage items < 342)
    (hsplit : items = front ++ top :: back)
    (hfront : ∀ other ∈ front, ¬ Qualifies (tableSize items) other)
    (hmem : item ∈ items) (hfree : item.type = .free) : item = top := by
  by_contra hne
  have hbytes : tableSize items = highestFreePage items * 12 := rfl
  have hend := htop.endPage_eq
  have hbefore := htop.endPage_le_of_free hsorted hmem hfree hne
  have hpages := hsorted.pageCount_pos hmem
  simp only [FirmwareMemoryMapItem.endPage] at hend hbefore
  have hqualifies : Qualifies (tableSize items) item := by
    refine ⟨hfree, ?_, ?_⟩
    · rw [pageEnd_div (by omega)]
      omega
    · rw [archPagesize, u64_of_lt (by omega)]
      omega
  rw [hsplit] at hmem hsorted
  rcases List.mem_append.mp hmem with hfirst | hrest
  · exact hfront item hfirst hqualifies
  · rcases List.mem_cons.mp hrest with rfl | hback
    · exact hne rfl
    · have hafter := (hsorted.behind hback).1
      simp only [FirmwareMemoryMapItem.endPage] at hafter
      omega

/-- The table stays off the highest page exactly if it is not in the last item. -/
theorem tableMark_inside_iff (hsorted : Sorted items) (htop : Topmost items top)
    (hpos : 0 < highestFreePage items) (hone : top.pageCount = 1)
    (hlowest : state.lowestPhysicalPage = 0)
    (hhighest : state.highestPhysicalPage = highestFreePage items) :
    ((tableMark items).Passes state → (tableMark items).Inside state) ↔
      342 ≤ top.basePage ∨ ∃ other ∈ items, other.type = .free ∧ other ≠ top := by
  have hend := htop.endPage_eq
  have hbase : top.basePage = highestFreePage items := by
    simp only [FirmwareMemoryMapItem.endPage] at hend
    omega
  have hbytes : tableSize items = highestFreePage items * 12 := rfl
  rw [inside_iff hlowest, hhighest, hbase]
  obtain ⟨hstart, hcount⟩ := tableMark_lt items
  by_cases hlarge : 2 ^ 21 ≤ highestFreePage items
  · exact iff_of_true (fun _ => Or.inr (by omega)) (Or.inl (by omega))
  rw [tableMark_eq hsorted hpos (by omega)]
  dsimp only
  rcases findLoop_spec (tableSize items) items with
    ⟨hnone, hzero⟩ | ⟨front, cur, back, hsplit, hfront, ⟨hfree, hroom, _⟩, hfound⟩
  · rw [hzero]
    refine iff_of_true (fun _ => Or.inr (by omega)) (Or.inl ?_)
    by_contra hsmall
    refine hnone top htop.mem ⟨htop.free, ?_, ?_⟩
    · rw [pageEnd_div (by omega)]
      omega
    · rw [hbase, archPagesize, u64_of_lt (by omega)]
      omega
  · have hmem : cur ∈ items := by
      rw [hsplit]
      simp
    rw [pageEnd_div (by omega)] at hroom
    rw [hfound]
    by_cases hsame : cur = top
    · subst hsame
      have hsmall : highestFreePage items < 342 := by omega
      obtain ⟨_, hcase⟩ := @tablePlace_eq cur (tableSize items) (by omega) (by omega) (by omega)
        (by omega)
      refine iff_of_false (fun hinside => ?_) ?_
      · have hlast := hinside
          (passes_of_fits hlowest (by omega) ⟨by dsimp only; omega, by dsimp only; omega⟩)
        omega
      · rintro (hlow | ⟨other, hother, hfree', hne⟩)
        · omega
        · exact hne (htop.eq_of_free hsorted hpos hone hsmall hsplit hfront hother hfree')
    · exact iff_of_true
        (fun _ => Or.inr (htop.tablePlace_below hsorted hpos (by omega) hmem hfree hsame hroom))
        (Or.inr ⟨cur, hmem, hfree, hsame⟩)

theorem topFits_iff (hsorted : Sorted items) (htop : Topmost items top)
    (hpos : 0 < highestFreePage items) :
    TopFits items ↔ top.pageCount = 1 ∧
      (342 ≤ top.basePage ∨ ∃ other ∈ items, other.type = .free ∧ other ≠ top) := by
  obtain ⟨_, hall, _⟩ := memoryCountUsablePages_spec hsorted
  have hend := htop.endPage_eq
  constructor
  · intro hfits
    refine (hfits top htop.mem htop.free fun other hother hfree => ?_).resolve_left (by omega)
    rw [hend]
    exact hall other hother hfree
  · intro hcase other hother hfree hhighest
    have hsame : other = top := by
      by_contra hne
      have hlast := hhighest top htop.mem htop.free
      have hbound := hall other hother hfree
      have hnonempty := hsorted.ordered.nonempty other hother
      have htopEnd := htop.endPage_le hsorted hother (by omega) hne
      have htopNonempty := hsorted.ordered.nonempty top htop.mem
      omega
    rw [hsame]
    exact Or.inr hcase

/-- `memory_init` writes items of the table only, exactly if the topmost free item
is as it has to be. -/
theorem initMarks_inside_iff (hsorted : Sorted items) (contents : ℕ → PageLookupTableItem) :
    (∀ mark ∈ performed (initialState items contents)
          (initMarks items (initialState items contents)),
        mark.Inside (initialState items contents)) ↔ TopFits items := by
  have hlt := highestFreePage_lt hsorted
  have hstate := initialState_eq hsorted contents
  obtain ⟨state, heq⟩ : ∃ state, initialState items contents = state := ⟨_, rfl⟩
  obtain ⟨hlowest, hhighest⟩ : state.lowestPhysicalPage = 0 ∧
      state.highestPhysicalPage = highestFreePage items := by
    rw [← heq, hstate]
    exact ⟨rfl, rfl⟩
  have hmarks := initMarks_eq hsorted contents
  rw [heq] at hmarks ⊢
  obtain ⟨_, hall, hattained⟩ := memoryCountUsablePages_spec hsorted
  rcases Nat.eq_zero_or_pos (highestFreePage items) with hzero | hpos
  · -- the first call panics
    refine iff_of_true (fun mark hmem => ?_) fun top htop hfree _ => Or.inl ?_
    · have hfirst : ¬ Mark.Passes ⟨0, highestFreePage items, .unusable⟩ state := by
        rw [Mark.Passes, hlowest, hhighest, hzero]
        decide
      rw [hmarks, performed, roundMarks, List.cons_append,
        List.takeWhile_cons_of_neg (by simpa using hfirst)] at hmem
      exact absurd hmem List.not_mem_nil
    · have hend := hall top htop hfree
      have hnonempty := hsorted.ordered.nonempty top htop
      omega
  · obtain ⟨top, hmem, hfree, hend⟩ := hattained.resolve_left hpos.ne'
    have htop : Topmost items top := ⟨hmem, hfree, hend⟩
    have hpass : ∀ mark ∈ roundMarks items, mark.Passes state := fun mark hmark =>
      passes_of_fits hlowest (by omega) (hhighest ▸ roundMarks_fits hsorted hpos mark hmark)
    rw [hmarks, forall_performed_append hpass, topFits_iff hsorted htop hpos,
      roundMarks_inside_iff hsorted htop hlowest hhighest]
    exact and_congr_right fun hone =>
      tableMark_inside_iff hsorted htop hpos hone hlowest hhighest

/-- Every item that is written during `memory_init` and by the later calls is one
of the table, exactly if the topmost free item is as it has to be and no later
call marks the highest page. -/
theorem tableWrites_inside_iff (hsorted : Sorted items) (contents : ℕ → PageLookupTableItem)
    (hlater : ∀ mark ∈ later, 1 ≤ mark.count ∧ mark.Passes (initialState items contents)) :
    (∀ mark ∈ performed (initialState items contents)
          (initMarks items (initialState items contents)) ++ later,
        mark.Inside (initialState items contents)) ↔
      TopFits items ∧ ∀ mark ∈ later, mark.start + mark.count ≤ highestFreePage items := by
  rw [List.forall_mem_append, initMarks_inside_iff hsorted contents]
  refine and_congr_right fun _ => forall₂_congr fun mark hmem => ?_
  obtain ⟨hpos, _⟩ := hlater mark hmem
  rw [inside_iff (by rw [initialState_eq hsorted]), initialState_eq hsorted]
  dsimp only
  omega

/-- The calls do not move the bounds: later calls meet the ones of `memory_init`. -/
theorem markAll_bounds (hmarks : markAll marks state = .ok after) :
    (∀ mark ∈ marks, mark.Passes state) ∧
      after.lowestPhysicalPage = state.lowestPhysicalPage ∧
      after.highestPhysicalPage = state.highestPhysicalPage ∧
      after.tableAddress = state.tableAddress := by
  induction marks generalizing state with
  | nil =>
      obtain rfl := Except.ok.inj hmarks
      exact ⟨by simp, rfl, rfl, rfl⟩
  | cons mark rest ih =>
      obtain ⟨middle, hmark, hrest⟩ := bind_eq_ok.mp hmarks
      obtain ⟨hpass, rfl⟩ := memoryMarkPages_eq_ok_iff.mp hmark
      obtain ⟨hall, hbounds⟩ := ih hrest
      exact ⟨List.forall_mem_cons.mpr ⟨hpass, hall⟩, hbounds⟩

/-! ## Two pages -/

/-- Two free pages. -/
def twoPages : List FirmwareMemoryMapItem := [⟨.free, 0, 2⟩]

theorem twoPages_sorted : Sorted twoPages :=
  ⟨⟨by decide, List.pairwise_singleton _ _⟩, by decide⟩

/-- No item in memory. -/
def noItems : ℕ → PageLookupTableItem := fun _ => ⟨.free, 0⟩

theorem tableWrites_inside_iff_twoPages :
    (∀ mark ∈ performed (initialState twoPages noItems)
          (initMarks twoPages (initialState twoPages noItems)) ++ [⟨0, 1, .firmware⟩],
        mark.Inside (initialState twoPages noItems)) ↔
      TopFits twoPages ∧ ∀ mark ∈ ([⟨0, 1, .firmware⟩] : List Mark),
        mark.start + mark.count ≤ highestFreePage twoPages :=
  tableWrites_inside_iff twoPages_sorted noItems fun mark hmem => by
    rw [List.mem_singleton.mp hmem]
    exact ⟨le_rfl, by decide⟩

/-- The table has one item, the free pages are two. -/
theorem twoPages_write_behind_table :
    ¬ ∀ (map : ℕ → FirmwareMemoryMapItem) (items : List FirmwareMemoryMapItem)
      (contents : ℕ → PageLookupTableItem),
      readItems map maxMemoryMapEntries 0 = some items → Sorted items →
      ∀ mark ∈ performed (initialState items contents)
          (initMarks items (initialState items contents)),
        mark.Inside (initialState items contents) := by
  intro hall
  have hread : readItems (fun slot => if slot = 0 then ⟨.free, 0, 2⟩ else ⟨.free, 0, 0⟩)
      maxMemoryMapEntries 0 = some twoPages := by decide
  have hmem : (⟨0, 2, .free⟩ : Mark) ∈ performed (initialState twoPages noItems)
      (initMarks twoPages (initialState twoPages noItems)) := by
    decide +kernel
  have hinside := hall _ twoPages noItems hread twoPages_sorted ⟨0, 2, .free⟩ hmem 1
    (by decide) (by decide)
  exact absurd hinside (by decide)

end GeexOS.PageLookupTable
