import GeexOS.Kernel.PagingRuns
import GeexOS.Kernel.Placement
import GeexOS.Kernel.UserspaceDirectory
import GeexOS.Loader.PageTables

/-!
# Taking over the page tables of the loader

`Init` copies the loader's tables into the placement region.  Loader and kernel declare
the word of an entry on their own, and look it up on their own.
-/

namespace GeexOS.Takeover

open GeexOS.Words
open GeexOS.Halting
open GeexOS.PageTables
open GeexOS.Paging
open GeexOS.Paging.X86Paging
open GeexOS.Placement
open GeexOS.PhysicalAllocator (pageSize)

/-- `struct page` of the loader. -/
def loaderPage (word : BitVec 32) : Page where
  present := word.getLsbD 0
  rw := word.getLsbD 1
  user := word.getLsbD 2
  frame := (word >>> 12).toNat

/-- `x86Page` of the kernel. -/
def kernelPage (word : BitVec 32) : X86Page where
  present := word.getLsbD 0
  rw := word.getLsbD 1
  user := word.getLsbD 2
  frame := word.extractLsb' 12 20

/-- An address of the placement region. -/
def InRegion (region : PlacementRegion) (address : ℕ) : Prop :=
  region.placement ≤ address ∧ address < region.placement + kernelPlacementSize

/-- The pages of the directory and of its tables. -/
def IsTablePage (state : LoaderState) (directory page : ℕ) : Prop :=
  page = directory / 4096 ∨ ∃ i < 1024, state.hasTable i = true ∧ page = state.tableOf i / 4096

/-- What the loader leaves: a directory, to which `cr3` points, with tables that are mapped
to themselves, and memory of its own for every page of the placement region. -/
structure LoaderImage (region : PlacementRegion) where
  state : LoaderState
  cr3 : ℕ
  words : ℕ → ℕ → BitVec 32
  cr3_aligned : cr3 % 4096 = 0
  directory_eq : ∀ i < 1024, state.pageDirectory i = (words cr3 i).toNat
  tables_eq : ∀ table index, state.tables table index = loaderPage (words table index)
  entries : ∀ i < 1024, state.pageDirectory i = 0 ∨ state.pageDirectory i &&& 1 = 1
  identity : ∀ page, IsTablePage state cr3 page → state.frameOf page = some page
  mapped : ∀ page, InRegion region (page * 4096) →
    ∃ frame, state.frameOf page = some frame ∧ ¬ IsTablePage state cr3 frame
  distinct : ∀ page other, InRegion region (page * 4096) → InRegion region (other * 4096) →
    state.frameOf page = state.frameOf other → page = other

/-- The memory of the tables as the kernel reads it. -/
def LoaderImage.memory {region : PlacementRegion} (image : LoaderImage region) (table index : ℕ) :
    X86Page :=
  kernelPage (image.words table index)

/-- `sizeof(x86PageTable)`. -/
def sizeofPageTable : ℕ := 4096

/-- Over the tables of the loader, which are read where they are. -/
def earlyFindPhysicalAddress (directory : ℕ → ℕ) (pageTables : ℕ → ℕ → X86Page) (virt : ℕ) : ℕ :=
  let table := directory (pdIndex virt) &&& 0xFFFFF000
  u32 ((pageTables table (ptIndex virt)).frameAddress + (virt &&& 0xFFF))

/-- The body of the loop of `Init`. -/
def takeTable (region : PlacementRegion) (directory : ℕ → ℕ)
    (state : X86Paging × PlacementAllocator) (i : ℕ) : Outcome (X86Paging × PlacementAllocator) :=
  if directory i = 0 then .ok state
  else do
    let table := directory i &&& 0xFFFFF000
    let (ourTable, allocator) ← state.2.allocate region sizeofPageTable true
    let (_, paging) := { state.1 with newTables := fun _ => ourTable }.newPageTable
    let paging := { paging with
      pageTables := Function.update paging.pageTables ourTable (paging.pageTables table) }
    let physicalOfTable := earlyFindPhysicalAddress directory paging.pageTables ourTable
    let paging ← paging.setTable i ourTable (physicalOfTable ||| 0x3)
    .ok (paging, allocator)

def init (region : PlacementRegion) (allocator : PlacementAllocator) (directory : ℕ → ℕ)
    (pageTables : ℕ → ℕ → X86Page) : Outcome (X86Paging × PlacementAllocator) := do
  let (_, allocator) ← allocator.allocate region sizeofPageDirectory true
  (List.range' 1 1023).foldlM (takeTable region directory)
    (newDirectory pageTables fun _ => 0, allocator)

/-- A later call; a table that it makes comes from the placement region, too. -/
def applyPlaced (region : PlacementRegion) (state : X86Paging × PlacementAllocator)
    (operation : PagingOperation) : Outcome (X86Paging × PlacementAllocator) :=
  if state.1.tables (pdIndex operation.virt) = 0 then do
    let (table, allocator) ← state.2.allocate region sizeofPageTable true
    let paging ← operation.apply { state.1 with newTables := fun _ => table }
    .ok (paging, allocator)
  else do
    let paging ← operation.apply state.1
    .ok (paging, state.2)

variable {region : PlacementRegion} {image : LoaderImage region} {allocator : PlacementAllocator}
variable {earlier : List PlacementBlock} {paging : X86Paging} {i table : ℕ}

/-! ## The two declarations -/

theorem kernelPage_frame (word : BitVec 32) :
    (kernelPage word).frame.toNat = (loaderPage word).frame := by
  have hword := word.isLt
  simp only [kernelPage, loaderPage, BitVec.extractLsb'_toNat, BitVec.toNat_ushiftRight]
  rw [Nat.shiftRight_eq_div_pow]
  omega

namespace LoaderImage

/-- An entry of the directory is used exactly if it is not zero. -/
theorem hasTable_iff (image : LoaderImage region) (hi : i < 1024) :
    image.state.hasTable i = true ↔ image.state.pageDirectory i ≠ 0 := by
  rw [LoaderState.hasTable, decide_eq_true_iff]
  rcases image.entries i hi with hzero | hpresent
  · simp [hzero]
  · rw [hpresent]
    refine iff_of_true (by decide) fun hzero => ?_
    rw [hzero] at hpresent
    cases hpresent

theorem tableOf_eq (image : LoaderImage region) (i : ℕ) :
    image.state.pageDirectory i &&& 0xFFFFF000 = image.state.tableOf i := rfl

/-- The loader's translation, in the words of the kernel. -/
theorem frameOf_eq (image : LoaderImage region) {page : ℕ} (hpage : page < 2 ^ 20) :
    image.state.frameOf page =
      if image.state.pageDirectory (page / 1024) = 0 then none
      else if (image.memory (image.state.tableOf (page / 1024)) (page % 1024)).present then
        some (image.memory (image.state.tableOf (page / 1024)) (page % 1024)).frame.toNat
      else none := by
  have htable := image.hasTable_iff (show page / 1024 < 1024 by omega)
  rw [LoaderState.frameOf, image.tables_eq, memory, kernelPage_frame]
  by_cases hzero : image.state.pageDirectory (page / 1024) = 0
  · rw [if_pos hzero, if_neg fun hhas => htable.mp hhas hzero]
  · rw [if_neg hzero, if_pos (htable.mpr hzero)]
    rfl

theorem pageDirectory_lt (image : LoaderImage region) (hi : i < 1024) :
    image.state.pageDirectory i < 2 ^ 32 := by
  rw [image.directory_eq i hi]
  exact BitVec.isLt _

/-- The directory and its tables do not lie in the placement region. -/
theorem not_inRegion_of_page (image : LoaderImage region) (haligned : table % 4096 = 0)
    (hpage : IsTablePage image.state image.cr3 (table / 4096)) : ¬ InRegion region table := by
  intro hregion
  have hstart : table / 4096 * 4096 = table := Nat.div_mul_cancel (Nat.dvd_of_mod_eq_zero haligned)
  obtain ⟨frame, hframe, hother⟩ := image.mapped (table / 4096) (by rwa [hstart])
  have hsame := Option.some.inj ((image.identity _ hpage).symm.trans hframe)
  exact hother (hsame ▸ hpage)

theorem tableOf_not_inRegion (image : LoaderImage region) (hi : i < 1024)
    (htable : image.state.hasTable i = true) : ¬ InRegion region (image.state.tableOf i) := by
  have hdown : image.state.tableOf i = image.state.pageDirectory i / 4096 * 4096 :=
    pageAlignDown_eq (image.pageDirectory_lt hi)
  refine image.not_inRegion_of_page ?_ (Or.inr ⟨i, hi, htable, rfl⟩)
  rw [hdown]
  exact Nat.mul_mod_left _ _

theorem cr3_not_inRegion (image : LoaderImage region) : ¬ InRegion region image.cr3 :=
  image.not_inRegion_of_page image.cr3_aligned (Or.inl rfl)

end LoaderImage

/-! ## The copies -/

variable {state : X86Paging × PlacementAllocator} {next remaining : ℕ}

/-- The table of an index is a copy of the loader's, in a block of its own. -/
structure OwnTable (image : LoaderImage region) (state : X86Paging × PlacementAllocator) (i : ℕ) :
    Prop where
  ne_zero : state.1.tables i ≠ 0
  inRegion : InRegion region (state.1.tables i)
  below : state.1.tables i + sizeofPageTable ≤ state.2.placementAddress
  aligned : pageSize ∣ state.1.tables i
  contents : state.1.pageTables (state.1.tables i) = image.memory (image.state.tableOf i)
  physical : state.1.tablesPhysical i =
    earlyFindPhysicalAddress image.state.pageDirectory image.memory (state.1.tables i) ||| 3

/-- Outside of the placement region memory is as it was. -/
structure Confined (region : PlacementRegion) (memory : ℕ → ℕ → X86Page)
    (state : X86Paging × PlacementAllocator) : Prop where
  bumped : ∃ earlier, Bumped region state.2 earlier
  outside : ∀ table, ¬ InRegion region table → state.1.pageTables table = memory table

/-- What holds when the loop comes to an index. -/
structure Taken (image : LoaderImage region) (next : ℕ) (state : X86Paging × PlacementAllocator) :
    Prop extends Confined region image.memory state where
  pointer_pos : 0 < state.2.placementAddress
  absent : ∀ j, j = 0 ∨ next ≤ j ∨ image.state.pageDirectory j = 0 →
    state.1.tables j = 0 ∧ state.1.tablesPhysical j = 0
  own : ∀ j, 0 < j → j < next → image.state.pageDirectory j ≠ 0 → OwnTable image state j

/-- A new table lies in the region, behind the pointer. -/
theorem allocate_table (hbumped : Bumped region allocator earlier) :
    (kernelPlacementSize < paddedSize region allocator true + sizeofPageTable ∧
      allocator.allocate region sizeofPageTable true =
        .error (.panic "Placement region overflow")) ∨
      ∃ ourTable after, allocator.allocate region sizeofPageTable true = .ok (ourTable, after) ∧
        InRegion region ourTable ∧ pageSize ∣ ourTable ∧
        allocator.placementAddress ≤ ourTable ∧
        after.placementAddress = ourTable + sizeofPageTable ∧
        paddedSize region after true = paddedSize region allocator true + sizeofPageTable ∧
        Bumped region after (⟨ourTable, sizeofPageTable⟩ :: earlier) := by
  rcases hbumped.allocate_pages (dvd_refl sizeofPageTable) (by decide) with hpanic |
    ⟨ourTable, after, hallocate, haligned, hbehind, hpointer, hpadded, hbumped'⟩
  · exact Or.inl hpanic
  · have hend := hbumped'.below
    rw [hpointer] at hend
    refine Or.inr ⟨ourTable, after, hallocate, ⟨hbumped.above.trans hbehind, ?_⟩, haligned,
      hbehind, hpointer, hpadded, hbumped'⟩
    exact (Nat.lt_add_of_pos_right (by decide)).trans_le hend

/-- The page of an address of the region. -/
theorem InRegion.page (hregion : InRegion region table) :
    InRegion region (pageOf table * 4096) := by
  obtain ⟨hlow, hhigh⟩ := hregion
  have haligned := region.aligned
  simp only [InRegion, pageOf, pageSize] at *
  omega

theorem InRegion.lt (hregion : InRegion region table) : table < 2 ^ 32 :=
  hregion.2.trans region.fits

/-- The loader has a table for the region. -/
theorem LoaderImage.hasTable_of_inRegion (image : LoaderImage region)
    (hregion : InRegion region table) : image.state.hasTable (pdIndex table) = true := by
  obtain ⟨frame, hframe, -⟩ := image.mapped (pageOf table) hregion.page
  rw [image.hasTable_iff (pdIndex_lt hregion.lt), pdIndex_eq]
  intro hzero
  rw [image.frameOf_eq (pageOf_lt hregion.lt), if_pos hzero] at hframe
  cases hframe

/-- The early lookup reads a table of the loader, which the copies leave alone. -/
theorem LoaderImage.earlyFind_eq (image : LoaderImage region) {pageTables : ℕ → ℕ → X86Page}
    (houtside : ∀ table, ¬ InRegion region table → pageTables table = image.memory table)
    (hregion : InRegion region table) :
    earlyFindPhysicalAddress image.state.pageDirectory pageTables table =
      earlyFindPhysicalAddress image.state.pageDirectory image.memory table := by
  have hfar := image.tableOf_not_inRegion (pdIndex_lt hregion.lt)
    (image.hasTable_of_inRegion hregion)
  rw [earlyFindPhysicalAddress, earlyFindPhysicalAddress, image.tableOf_eq, houtside _ hfar]

/-- The early lookup gives the address that the loader maps the table to. -/
theorem LoaderImage.translate_of_inRegion (image : LoaderImage region)
    (hregion : InRegion region table) (haligned : pageSize ∣ table) :
    ∃ frame < 2 ^ 20, image.state.translate table = some (frame * 4096) ∧
      earlyFindPhysicalAddress image.state.pageDirectory image.memory table = frame * 4096 := by
  have hlt := hregion.lt
  have hzero : table % 4096 = 0 := Nat.mod_eq_zero_of_dvd haligned
  have hindex : LoaderState.pageIndex table = pageOf table := by
    simp only [LoaderState.pageIndex, pageOf]
    omega
  have htable := (image.hasTable_iff (pdIndex_lt hlt)).mp (image.hasTable_of_inRegion hregion)
  obtain ⟨frame, hframe, -⟩ := image.mapped (pageOf table) hregion.page
  have hframe' := hframe
  rw [pdIndex_eq] at htable
  rw [image.frameOf_eq (pageOf_lt hlt), if_neg htable] at hframe'
  split at hframe'
  · obtain rfl := Option.some.inj hframe'
    have hbits := BitVec.isLt
      (image.memory (image.state.tableOf (pageOf table / 1024)) (pageOf table % 1024)).frame
    refine ⟨_, hbits, ?_, ?_⟩
    · rw [LoaderState.translate, hindex, hframe, Option.map_some, hzero, Nat.add_zero]
    · simp only [earlyFindPhysicalAddress, image.tableOf_eq, X86Page.frameAddress,
        Nat.shiftLeft_eq, offset_eq, hzero, Nat.add_zero]
      rw [pdIndex_eq, ptIndex_eq]
      exact u32_of_lt (by omega)
  · cases hframe'

/-- A new table at the pointer leaves the earlier ones as they are. -/
theorem OwnTable.keep {state' : X86Paging × PlacementAllocator} {j : ℕ}
    (hown : OwnTable image state j) (htables : state'.1.tables j = state.1.tables j)
    (hphysical : state'.1.tablesPhysical j = state.1.tablesPhysical j)
    (hcontents : state'.1.pageTables (state.1.tables j) = state.1.pageTables (state.1.tables j))
    (hpointer : state.2.placementAddress ≤ state'.2.placementAddress) :
    OwnTable image state' j where
  ne_zero := htables ▸ hown.ne_zero
  inRegion := htables ▸ hown.inRegion
  below := htables ▸ hown.below.trans hpointer
  aligned := htables ▸ hown.aligned
  contents := by rw [htables, hcontents, hown.contents]
  physical := by rw [htables, hphysical, hown.physical]

/-- What was absent for the next index was absent before, and is not this one. -/
theorem Taken.absent_of_succ (hstate : Taken image next state) {j : ℕ}
    (hj : j = 0 ∨ next + 1 ≤ j ∨ image.state.pageDirectory j = 0) :
    state.1.tables j = 0 ∧ state.1.tablesPhysical j = 0 := by
  refine hstate.absent j ?_
  rcases hj with hj | hj | hj
  · exact Or.inl hj
  · exact Or.inr (Or.inl (Nat.le_of_succ_le hj))
  · exact Or.inr (Or.inr hj)

/-- An unused entry is passed over. -/
theorem Taken.skip (hstate : Taken image next state)
    (hzero : image.state.pageDirectory next = 0) : Taken image (next + 1) state := by
  refine ⟨hstate.toConfined, hstate.pointer_pos, fun j hj => hstate.absent_of_succ hj,
    fun j hj hlt hne => hstate.own j hj ?_ hne⟩
  have hother : j ≠ next := by
    rintro rfl
    exact hne hzero
  omega

/-- An iteration is that of `copyTable`, with a table from the placement region and the early
lookup for its address. -/
theorem takeTable_eq_copyTable {directory : ℕ → ℕ} {allocator' : PlacementAllocator}
    {ourTable : ℕ} (hused : directory next ≠ 0)
    (hallocate : state.2.allocate region sizeofPageTable true = .ok (ourTable, allocator')) :
    takeTable region directory state next =
      copyTable directory
        (earlyFindPhysicalAddress directory (Function.update
          (Function.update state.1.pageTables ourTable fun _ => X86Page.zero) ourTable
            (Function.update state.1.pageTables ourTable (fun _ => X86Page.zero)
              (directory next &&& 0xFFFFF000))))
        { state.1 with newTables := fun _ => ourTable } next >>= fun paging =>
          .ok (paging, allocator') := by
  rw [takeTable, copyTable, if_neg hused, if_neg hused, hallocate]
  rfl

/-- A table of the loader is copied to the place that the allocator returns. -/
theorem Taken.take (hstate : Taken image next state) (hpos : 0 < next) (hnext : next < 1024)
    (hused : image.state.pageDirectory next ≠ 0) {ourTable : ℕ}
    {allocator' : PlacementAllocator} {earlier : List PlacementBlock}
    (hallocate : state.2.allocate region sizeofPageTable true = .ok (ourTable, allocator'))
    (hregion : InRegion region ourTable) (haligned : pageSize ∣ ourTable)
    (hbehind : state.2.placementAddress ≤ ourTable)
    (hpointer : allocator'.placementAddress = ourTable + sizeofPageTable)
    (hbumped : Bumped region allocator' earlier) :
    ∃ state', takeTable region image.state.pageDirectory state next = .ok state' ∧
      Taken image (next + 1) state' := by
  have hfar := image.tableOf_not_inRegion hnext ((image.hasTable_iff hnext).mpr hused)
  have hsource : image.state.tableOf next ≠ ourTable := by
    rintro rfl
    exact hfar hregion
  have hcontents := hstate.outside _ hfar
  have houtside : ∀ table, ¬ InRegion region table →
      Function.update state.1.pageTables ourTable
        (image.memory (image.state.tableOf next)) table = image.memory table := by
    intro table hout
    have hother : table ≠ ourTable := fun heq => hout (heq ▸ hregion)
    rw [Function.update_of_ne hother, hstate.outside table hout]
  rw [takeTable_eq_copyTable hused hallocate, copyTable, if_neg hused]
  simp only [ok_bind, newPageTable, X86Paging.setTable, if_pos hnext, image.tableOf_eq,
    Function.update_idem, Function.update_of_ne hsource, hcontents,
    image.earlyFind_eq houtside hregion]
  refine ⟨_, rfl, ⟨⟨_, hbumped⟩, houtside⟩, ?_, fun j hj => ?_, fun j hj hjlt hne => ?_⟩
  · rw [hpointer]
    exact Nat.add_pos_right _ (by decide)
  · have hother : j ≠ next := by
      rintro rfl
      rcases hj with hj | hj | hj
      · omega
      · omega
      · exact hused hj
    simp only [Function.update_of_ne hother]
    exact hstate.absent_of_succ hj
  · by_cases hsame : j = next
    · subst hsame
      refine ⟨?_, ?_, ?_, ?_, ?_, ?_⟩ <;> simp only [Function.update_self]
      · exact (hstate.pointer_pos.trans_le hbehind).ne'
      · exact hregion
      · exact hpointer.ge
      · exact haligned
    · have hown := hstate.own j hj (by omega) hne
      have hbelow := hown.below
      have hapart : state.1.tables j ≠ ourTable := by
        simp only [sizeofPageTable] at hbelow
        omega
      refine hown.keep ?_ ?_ ?_ (hbehind.trans (hpointer ▸ Nat.le_add_right _ _)) <;>
        simp only [Function.update_of_ne hsame, Function.update_of_ne hapart]

theorem takeTable_allocator {ourTable : ℕ} {allocator' : PlacementAllocator}
    {state' : X86Paging × PlacementAllocator} (hused : image.state.pageDirectory next ≠ 0)
    (hallocate : state.2.allocate region sizeofPageTable true = .ok (ourTable, allocator'))
    (hcall : takeTable region image.state.pageDirectory state next = .ok state') :
    state'.2 = allocator' := by
  rw [takeTable_eq_copyTable hused hallocate] at hcall
  obtain ⟨paging, -, hcall⟩ := bind_eq_ok.mp hcall
  rw [← Except.ok.inj hcall]

/-- The bytes that the tables of the next indices need. -/
def tablesSize (directory : ℕ → ℕ) (next remaining : ℕ) : ℕ :=
  (List.range' next remaining).countP (fun i => directory i ≠ 0) * sizeofPageTable

theorem tablesSize_succ (directory : ℕ → ℕ) (next remaining : ℕ) :
    tablesSize directory next (remaining + 1) =
      (if directory next = 0 then 0 else sizeofPageTable) +
        tablesSize directory (next + 1) remaining := by
  rw [tablesSize, List.range'_succ, List.countP_cons, tablesSize, Nat.add_mul, Nat.add_comm]
  by_cases hzero : directory next = 0 <;> simp [hzero]

/-- One index takes the room of its table, or the machine stops for want of it. -/
theorem Taken.step (hstate : Taken image next state) (hpos : 0 < next) (hnext : next < 1024) :
    (kernelPlacementSize < paddedSize region state.2 true +
        (if image.state.pageDirectory next = 0 then 0 else sizeofPageTable) ∧
      takeTable region image.state.pageDirectory state next =
        .error (.panic "Placement region overflow")) ∨
      ∃ state', takeTable region image.state.pageDirectory state next = .ok state' ∧
        paddedSize region state'.2 true = paddedSize region state.2 true +
          (if image.state.pageDirectory next = 0 then 0 else sizeofPageTable) ∧
        Taken image (next + 1) state' := by
  by_cases hzero : image.state.pageDirectory next = 0
  · rw [if_pos hzero]
    exact Or.inr ⟨state, by rw [takeTable, if_pos hzero], (Nat.add_zero _).symm, hstate.skip hzero⟩
  · rw [if_neg hzero]
    obtain ⟨earlier, hbumped⟩ := hstate.bumped
    rcases allocate_table hbumped with ⟨hfull, hpanic⟩ |
      ⟨ourTable, allocator', hallocate, hregion, haligned, hbehind, hpointer, hpadded, hbumped'⟩
    · exact Or.inl ⟨hfull, by rw [takeTable, if_neg hzero, hpanic, error_bind]⟩
    · obtain ⟨state', hcall, htaken⟩ :=
        hstate.take hpos hnext hzero hallocate hregion haligned hbehind hpointer hbumped'
      refine Or.inr ⟨state', hcall, ?_, htaken⟩
      rw [takeTable_allocator hzero hallocate hcall, hpadded]

theorem Taken.loop (hstate : Taken image next state) (hpos : 0 < next)
    (hend : next + remaining ≤ 1024) :
    (kernelPlacementSize < paddedSize region state.2 true +
        tablesSize image.state.pageDirectory next remaining ∧
      (List.range' next remaining).foldlM (takeTable region image.state.pageDirectory) state =
        .error (.panic "Placement region overflow")) ∨
      ∃ state', (List.range' next remaining).foldlM (takeTable region image.state.pageDirectory)
          state = .ok state' ∧
        paddedSize region state'.2 true = paddedSize region state.2 true +
          tablesSize image.state.pageDirectory next remaining ∧
        Taken image (next + remaining) state' := by
  induction remaining generalizing next state with
  | zero => exact Or.inr ⟨state, rfl, by simp [tablesSize], hstate⟩
  | succ remaining ih =>
      rw [List.range'_succ, List.foldlM_cons, tablesSize_succ, ← Nat.add_assoc]
      rcases hstate.step hpos (by omega) with ⟨hfull, hpanic⟩ |
        ⟨middle, hmiddle, hpadded, htaken⟩
      · exact Or.inl ⟨Nat.lt_add_right _ hfull, by rw [hpanic, error_bind]⟩
      · rw [hmiddle, ok_bind, ← hpadded]
        have hshift : next + 1 + remaining = next + (remaining + 1) := by omega
        rw [← hshift]
        exact ih htaken (Nat.succ_pos next) (by omega)

/-- The new directory and the copies fit behind what the allocator has handed out. -/
def HasRoom (region : PlacementRegion) (allocator : PlacementAllocator) (directory : ℕ → ℕ) :
    Prop :=
  paddedSize region allocator true + sizeofPageDirectory + tablesSize directory 1 1023 ≤
    kernelPlacementSize

/-- `Init` takes all tables over but the first if there is room for them, and panics if
there is none. -/
theorem init_taken (hbumped : Bumped region allocator earlier) (image : LoaderImage region) :
    (¬ HasRoom region allocator image.state.pageDirectory ∧
      init region allocator image.state.pageDirectory image.memory =
        .error (.panic "Placement region overflow")) ∨
      HasRoom region allocator image.state.pageDirectory ∧
      ∃ state, init region allocator image.state.pageDirectory image.memory = .ok state ∧
        Taken image 1024 state := by
  rw [init, HasRoom]
  rcases hbumped.allocate_pages (show pageSize ∣ sizeofPageDirectory by decide) (by decide) with
    ⟨hfull, hpanic⟩ | ⟨directory, allocator', hallocate, -, -, hpointer, hpadded, hbumped'⟩
  · exact Or.inl ⟨by omega, by rw [hpanic, error_bind]⟩
  · have htaken : Taken image 1 (newDirectory image.memory fun _ => 0, allocator') := by
      refine ⟨⟨⟨_, hbumped'⟩, fun _ _ => rfl⟩, ?_, fun _ _ => ⟨rfl, rfl⟩, ?_⟩
      · rw [hpointer]
        exact Nat.add_pos_right _ (by decide)
      · exact fun j hj hlt => absurd hlt (by omega)
    rw [hallocate, ok_bind, ← hpadded]
    rcases @Taken.loop _ _ _ _ 1023 htaken Nat.one_pos (by decide) with ⟨hfull, hpanic⟩ |
      ⟨state, hreturns, hpadded', hlast⟩
    · exact Or.inl ⟨not_le.mpr hfull, hpanic⟩
    · obtain ⟨later, hlater⟩ := hlast.bumped
      rw [← hpadded']
      exact Or.inr ⟨(hlater.paddedSize_le true).2, state, hreturns, hlast⟩

/-! ## Translation -/

/-- The kernel translates as the loader does from 4 MiB on, and maps nothing below.  The
processor finds the tables where the loader maps them. -/
structure TakenOver (image : LoaderImage region) (paging : X86Paging) : Prop where
  above : ∀ address, 2 ^ 22 ≤ address → address < 2 ^ 32 →
    paging.getPhysicalAddress address = (image.state.translate address).getD 0 ∧
      paging.isPresent address = (image.state.translate address).isSome
  below : ∀ address < 2 ^ 22,
    paging.getPhysicalAddress address = 0 ∧ paging.isPresent address = false
  physical : ∀ i < 1024, paging.tables i ≠ 0 →
    image.state.translate (paging.tables i) = some (paging.tablesPhysical i &&& 0xFFFFF000)

variable {page : ℕ}

theorem Taken.entryOf_below (hstate : Taken image next state) (hpage : page < 1024) :
    entryOf state.1 page = none := by
  have hfirst : page / 1024 = 0 := Nat.div_eq_of_lt hpage
  exact entryOf_of_none (hstate.absent _ (Or.inl hfirst)).1

theorem Taken.frameOf_eq (hstate : Taken image 1024 state) (hlow : 1024 ≤ page)
    (hpage : page < 2 ^ 20) :
    image.state.frameOf page = (entryOf state.1 page).map fun entry => entry.frame.toNat := by
  rw [image.frameOf_eq hpage]
  by_cases hzero : image.state.pageDirectory (page / 1024) = 0
  · rw [if_pos hzero, entryOf_of_none (hstate.absent _ (Or.inr (Or.inr hzero))).1]
    rfl
  · have hown := hstate.own (page / 1024) (by omega) (by omega) hzero
    rw [if_neg hzero, entryOf_of_table state.1 rfl hown.ne_zero, hown.contents]
    split <;> rfl

/-- Every table in the directory is a copy. -/
theorem Taken.ownTable (hstate : Taken image next state) (hi : i < next)
    (htable : state.1.tables i ≠ 0) : OwnTable image state i := by
  have hpos : 0 < i := Nat.pos_of_ne_zero fun hfirst =>
    htable (hstate.absent i (Or.inl hfirst)).1
  exact hstate.own i hpos hi fun hzero => htable (hstate.absent i (Or.inr (Or.inr hzero))).1

theorem Taken.present (hstate : Taken image 1024 state) (hi : i < 1024)
    (htable : state.1.tables i ≠ 0) : state.1.tablesPhysical i &&& 0x1 = 1 := by
  rw [(hstate.ownTable hi htable).physical]
  exact status_present _

/-- From 4 MiB on the two lookups agree. -/
theorem Taken.translate_eq (hstate : Taken image 1024 state) {address : ℕ}
    (hlow : 2 ^ 22 ≤ address) (haddress : address < 2 ^ 32) :
    state.1.getPhysicalAddress address = (image.state.translate address).getD 0 ∧
      state.1.isPresent address = (image.state.translate address).isSome := by
  have hindex : LoaderState.pageIndex address = pageOf address := by
    simp only [LoaderState.pageIndex, pageOf]
    omega
  have hframe := hstate.frameOf_eq (show 1024 ≤ pageOf address by
    rw [pageOf]
    omega) (pageOf_lt haddress)
  rw [getPhysicalAddress_eq, isPresent_eq_isSome (fun i hi => hstate.present hi) haddress,
    LoaderState.translate, hindex, hframe, offset_eq]
  cases hentry : entryOf state.1 (pageOf address) with
  | none => exact ⟨rfl, rfl⟩
  | some entry =>
      refine ⟨?_, rfl⟩
      simp only [X86Page.frameAddress, Nat.shiftLeft_eq]
      rfl

/-- The processor's walk masks the status bits away. -/
theorem Taken.tablesPhysical_eq (hstate : Taken image 1024 state) (hi : i < 1024)
    (htable : state.1.tables i ≠ 0) :
    image.state.translate (state.1.tables i) = some (state.1.tablesPhysical i &&& 0xFFFFF000) := by
  have hown := hstate.ownTable hi htable
  obtain ⟨frame, hlt, htranslate, hearly⟩ :=
    image.translate_of_inRegion hown.inRegion hown.aligned
  obtain ⟨-, hmask⟩ := entry_eq (Nat.dvd_mul_left 4096 frame) (by omega)
  rw [hown.physical, hearly, htranslate]
  exact congrArg some hmask.symm

theorem Taken.takenOver (hstate : Taken image 1024 state) : TakenOver image state.1 where
  above := fun _ hlow haddress => hstate.translate_eq hlow haddress
  below := fun address hlow => by
    have hnone : entryOf state.1 (pageOf address) = none := hstate.entryOf_below (by
      rw [pageOf]
      omega)
    rw [getPhysicalAddress_eq, isPresent_eq_isSome (fun i hi => hstate.present hi) (by omega),
      hnone]
    exact ⟨rfl, rfl⟩
  physical := fun _ hi htable => hstate.tablesPhysical_eq hi htable

/-! ## Later calls -/

/-- Every table that the kernel knows lies in the placement region. -/
structure Owned (region : PlacementRegion) (memory : ℕ → ℕ → X86Page)
    (state : X86Paging × PlacementAllocator) : Prop extends Confined region memory state where
  tables : ∀ i, state.1.tables i ≠ 0 → InRegion region (state.1.tables i)

theorem Taken.owned (hstate : Taken image 1024 state) : Owned region image.memory state where
  toConfined := hstate.toConfined
  tables := fun i htable => by
    have hi : i < 1024 := by
      by_contra hlarge
      exact htable (hstate.absent i (Or.inr (Or.inl (not_lt.mp hlarge)))).1
    exact (hstate.ownTable hi htable).inRegion

variable {memory : ℕ → ℕ → X86Page} {state' : X86Paging × PlacementAllocator}
variable {operation : PagingOperation} {operations : List PagingOperation}

/-- A call writes one entry of the table that it got. -/
theorem apply_eq_ok {after : X86Paging} (hcall : operation.apply paging = .ok after) :
    ∃ table middle index entry,
      paging.getTable (pdIndex operation.virt) = .ok (table, middle) ∧
        after = middle.writePage table index entry := by
  cases operation with
  | map virt phys readwrite usermode =>
      obtain ⟨⟨table, middle⟩, htable, hafter⟩ := bind_eq_ok.mp hcall
      exact ⟨table, middle, _, _, htable, (Except.ok.inj hafter).symm⟩
  | unmap virt =>
      obtain ⟨⟨table, middle⟩, htable, hafter⟩ := bind_eq_ok.mp hcall
      exact ⟨table, middle, _, _, htable, (Except.ok.inj hafter).symm⟩

/-- Memory changes in the table only that the call got. -/
theorem apply_pageTables {after : X86Paging} (hcall : operation.apply paging = .ok after)
    (htable : paging.tables (pdIndex operation.virt) ≠ 0 ∧
        InRegion region (paging.tables (pdIndex operation.virt)) ∨
      paging.tables (pdIndex operation.virt) = 0 ∧ InRegion region (paging.newTables 0)) :
    (∀ i, after.tables i = paging.tables i ∨ InRegion region (after.tables i)) ∧
      ∀ other, ¬ InRegion region other → after.pageTables other = paging.pageTables other := by
  obtain ⟨table, middle, index, entry, hget, rfl⟩ := apply_eq_ok hcall
  rcases getTable_cases hget with ⟨hsome, rfl, rfl⟩ | ⟨hnone, rfl, htables, hmemory⟩
  · have hregion := (htable.resolve_right fun hnone => hsome hnone.1).2
    refine ⟨fun i => Or.inl rfl, fun other houtside => Function.update_of_ne ?_ _ _⟩
    rintro rfl
    exact houtside hregion
  · have hregion := (htable.resolve_left fun hsome => hsome.1 hnone).2
    refine ⟨fun i => ?_, fun other houtside => ?_⟩
    · simp only [X86Paging.writePage, htables]
      by_cases heq : i = pdIndex operation.virt
      · rw [heq, Function.update_self]
        exact Or.inr hregion
      · exact Or.inl (Function.update_of_ne heq _ _)
    · have hother : other ≠ paging.newTables 0 := fun heq => houtside (heq ▸ hregion)
      exact (Function.update_of_ne hother _ _).trans (hmemory other hother)

theorem Owned.of_writes (hstate : Owned region memory state) {after : X86Paging}
    {allocator' : PlacementAllocator} (hbumped : Bumped region allocator' earlier)
    (htables : ∀ i, after.tables i = state.1.tables i ∨ InRegion region (after.tables i))
    (hmemory : ∀ other, ¬ InRegion region other →
      after.pageTables other = state.1.pageTables other) :
    Owned region memory (after, allocator') := by
  refine ⟨⟨⟨_, hbumped⟩, fun other houtside => ?_⟩, fun i hne => ?_⟩
  · exact (hmemory other houtside).trans (hstate.outside other houtside)
  · rcases htables i with hsame | hnew
    · simp only [hsame] at hne ⊢
      exact hstate.tables i hne
    · exact hnew

theorem Owned.apply (hstate : Owned region memory state)
    (hcall : applyPlaced region state operation = .ok state') : Owned region memory state' := by
  obtain ⟨earlier, hbumped⟩ := hstate.bumped
  rw [applyPlaced] at hcall
  split at hcall
  · rename_i hnone
    rcases allocate_table hbumped with ⟨-, hpanic⟩ |
      ⟨table, allocator', hallocate, hregion, -, -, -, -, hbumped'⟩
    · rw [hpanic, error_bind] at hcall
      cases hcall
    · rw [hallocate, ok_bind] at hcall
      obtain ⟨paging, hpaging, hlast⟩ := bind_eq_ok.mp hcall
      obtain rfl := Except.ok.inj hlast
      obtain ⟨htables, hmemory⟩ := apply_pageTables hpaging (Or.inr ⟨hnone, hregion⟩)
      exact hstate.of_writes hbumped' htables hmemory
  · rename_i hsome
    obtain ⟨paging, hpaging, hlast⟩ := bind_eq_ok.mp hcall
    obtain rfl := Except.ok.inj hlast
    obtain ⟨htables, hmemory⟩ :=
      apply_pageTables hpaging (Or.inl ⟨hsome, hstate.tables _ hsome⟩)
    exact hstate.of_writes hbumped htables hmemory

theorem Owned.run (hstate : Owned region memory state)
    (hcalls : operations.foldlM (applyPlaced region) state = .ok state') :
    Owned region memory state' := by
  induction operations generalizing state with
  | nil =>
      obtain rfl := Except.ok.inj hcalls
      exact hstate
  | cons operation operations ih =>
      rw [List.foldlM_cons] at hcalls
      obtain ⟨middle, hcall, hrest⟩ := bind_eq_ok.mp hcalls
      exact ih (hstate.apply hcall) hrest

/-- The directory of the loader and its tables are what they were. -/
def LoaderImage.Untouched (image : LoaderImage region) (paging : X86Paging) : Prop :=
  paging.pageTables image.cr3 = image.memory image.cr3 ∧
    ∀ i < 1024, image.state.hasTable i = true →
      paging.pageTables (image.state.tableOf i) = image.memory (image.state.tableOf i)

theorem Owned.untouched (hstate : Owned region image.memory state) :
    image.Untouched state.1 :=
  ⟨hstate.outside _ image.cr3_not_inRegion, fun _ hi htable =>
    hstate.outside _ (image.tableOf_not_inRegion hi htable)⟩

/-- `Init` panics exactly if the placement region has no room for the directory and the
copies.  Otherwise the kernel translates as the loader does from 4 MiB on, and no later call
writes to the loader's tables. -/
theorem init_takesOver (hbumped : Bumped region allocator earlier) (image : LoaderImage region) :
    (¬ HasRoom region allocator image.state.pageDirectory ∧
      init region allocator image.state.pageDirectory image.memory =
        .error (.panic "Placement region overflow")) ∨
      HasRoom region allocator image.state.pageDirectory ∧
      ∃ state, init region allocator image.state.pageDirectory image.memory = .ok state ∧
        TakenOver image state.1 ∧
        ∀ (operations : List PagingOperation) (state' : X86Paging × PlacementAllocator),
          operations.foldlM (applyPlaced region) state = .ok state' →
            image.Untouched state'.1 := by
  rcases init_taken hbumped image with hpanic | ⟨hroom, state, hinit, htaken⟩
  · exact Or.inl hpanic
  · exact Or.inr ⟨hroom, state, hinit, htaken.takenOver, fun operations state' hcalls =>
      (htaken.owned.run hcalls).untouched⟩

/-- A directory with the first 4 MiB mapped to themselves and once more at 3 GiB. -/
def lowWords (table index : ℕ) : BitVec 32 :=
  if table = 0x3000 then
    if index = 0 then 0x4003 else if index = 0x300 then 0x5003 else 0
  else BitVec.ofNat 32 (index * 4096 + 3)

def lowState : LoaderState where
  memory := ⟨1, 64, 0, fun _ => ⟨.free, 0⟩⟩
  bytes := fun _ => 0
  pageDirectory := fun i => (lowWords 0x3000 i).toNat
  tables := fun table index => loaderPage (lowWords table index)

theorem lowState_frameOf (hpage : page / 1024 = 0 ∨ page / 1024 = 0x300) :
    lowState.frameOf page = some (page % 1024) := by
  have hword : ∀ table index, table ≠ 0x3000 → index < 1024 →
      (loaderPage (lowWords table index)).present = true ∧
        (loaderPage (lowWords table index)).frame = index := by
    intro table index htable hindex
    rw [lowWords, if_neg htable, loaderPage, BitVec.getLsbD_ofNat, BitVec.toNat_ushiftRight,
      BitVec.toNat_ofNat, Nat.shiftRight_eq_div_pow]
    refine ⟨?_, ?_⟩
    · have hodd : (index * 4096 + 3).testBit 0 = true := by
        rw [Nat.testBit_zero]
        exact decide_eq_true (by omega)
      rw [hodd]
      rfl
    · simp only
      omega
  have htable : lowState.hasTable (page / 1024) = true ∧
      lowState.tableOf (page / 1024) ≠ 0x3000 := by
    rcases hpage with hfirst | hsecond
    · rw [hfirst]
      decide
    · rw [hsecond]
      decide
  obtain ⟨hpresent, hframe⟩ := hword _ (page % 1024) htable.2 (Nat.mod_lt _ (by decide))
  rw [LoaderState.frameOf, if_pos htable.1]
  exact (if_pos hpresent).trans (congrArg some hframe)

theorem lowState_isTablePage (hpage : IsTablePage lowState 0x3000 page) :
    page = 3 ∨ page = 4 ∨ page = 5 := by
  rcases hpage with hdirectory | ⟨i, hi, htable, hpage⟩
  · exact Or.inl hdirectory
  · right
    by_cases hfirst : i = 0
    · subst hfirst
      exact Or.inl hpage
    · by_cases hsecond : i = 0x300
      · subst hsecond
        exact Or.inr hpage
      · have hnone : lowState.pageDirectory i = 0 := by
          simp [lowState, lowWords, hfirst, hsecond]
        rw [LoaderState.hasTable, hnone] at htable
        cases htable

theorem lowState_entries (i : ℕ) :
    lowState.pageDirectory i = 0 ∨ lowState.pageDirectory i &&& 1 = 1 := by
  simp only [lowState, lowWords, if_true]
  split
  · exact Or.inr (by decide)
  · split
    · exact Or.inr (by decide)
    · exact Or.inl rfl

/-- The pages of the placement region lie in the second window. -/
theorem lowState_placed (hregion : InRegion kernelPlacement (page * 4096)) :
    page / 1024 = 0x300 ∧ page % 1024 = page - 0xc0000 ∧ 6 ≤ page % 1024 := by
  simp only [InRegion, kernelPlacement, kernelPlacementSize] at hregion
  omega

theorem lowState_identity (hpage : IsTablePage lowState 0x3000 page) :
    lowState.frameOf page = some page := by
  have hlow := lowState_isTablePage hpage
  rw [lowState_frameOf (by omega)]
  exact congrArg some (by omega)

theorem lowState_mapped (hregion : InRegion kernelPlacement (page * 4096)) :
    ∃ frame, lowState.frameOf page = some frame ∧ ¬ IsTablePage lowState 0x3000 frame := by
  obtain ⟨hwindow, -, hlow⟩ := lowState_placed hregion
  refine ⟨page % 1024, lowState_frameOf (Or.inr hwindow), fun htable => ?_⟩
  have htables := lowState_isTablePage htable
  omega

theorem lowState_distinct {other : ℕ} (hpage : InRegion kernelPlacement (page * 4096))
    (hother : InRegion kernelPlacement (other * 4096))
    (hsame : lowState.frameOf page = lowState.frameOf other) : page = other := by
  obtain ⟨hwindow, hframe, -⟩ := lowState_placed hpage
  obtain ⟨hwindow', hframe', -⟩ := lowState_placed hother
  rw [lowState_frameOf (Or.inr hwindow), lowState_frameOf (Or.inr hwindow'),
    Option.some.injEq] at hsame
  omega

def lowImage : LoaderImage kernelPlacement where
  state := lowState
  cr3 := 0x3000
  words := lowWords
  cr3_aligned := rfl
  directory_eq := fun _ _ => rfl
  tables_eq := fun _ _ => rfl
  entries := fun i _ => lowState_entries i
  identity := fun _ hpage => lowState_identity hpage
  mapped := fun _ hregion => lowState_mapped hregion
  distinct := fun _ _ hpage hother hsame => lowState_distinct hpage hother hsame

theorem lowImage_hasRoom :
    HasRoom kernelPlacement (.new kernelPlacement) lowImage.state.pageDirectory := by
  rw [HasRoom]
  decide +kernel

/-- From the first call of the placement allocator on. -/
theorem init_takesOver_lowImage :
    ∃ state,
      init kernelPlacement (.new kernelPlacement) lowImage.state.pageDirectory
        lowImage.memory = .ok state ∧
      TakenOver lowImage state.1 ∧
      ∀ (operations : List PagingOperation) (state' : X86Paging × PlacementAllocator),
        operations.foldlM (applyPlaced kernelPlacement) state = .ok state' →
          lowImage.Untouched state'.1 :=
  ((init_takesOver (Bumped.new kernelPlacement) lowImage).resolve_left fun hpanic =>
    hpanic.1 lowImage_hasRoom).2

end GeexOS.Takeover
