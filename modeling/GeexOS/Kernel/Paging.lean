import GeexOS.Library.Halting
import GeexOS.Library.Words
import Mathlib.Data.Nat.Bitwise
import Mathlib.Logic.Function.Basic
import Mathlib.Tactic.Ring

/-!
# Page tables

The upper ten bits of an address select a page table, the next ten a page in
it.  Tables are made when they are needed first.  Seen from outside the two
levels are one map from pages to frames, and every call edits one page of it.
-/

namespace GeexOS.Paging

open GeexOS.Words
open GeexOS.Halting

/-- The bits of an entry that paging uses; the frame has 20 bits. -/
structure X86Page where
  present : Bool
  rw : Bool
  user : Bool
  frame : BitVec 20
  deriving DecidableEq, Repr

namespace X86Page

/-- The constructor. -/
def zero : X86Page := ⟨false, false, false, 0⟩

/-- `Frame()`. -/
def frameAddress (page : X86Page) : ℕ := page.frame.toNat <<< 12

/-- `Frame(a)`. -/
def setFrame (page : X86Page) (a : ℕ) : X86Page :=
  { page with frame := BitVec.ofNat 20 ((a >>> 12) &&& 0xFFFFF) }

end X86Page

/-- The current directory and the page tables in memory, by their addresses.
`newTables` are the addresses that `new x86PageTable()` is going to return. -/
structure X86Paging where
  tablesPhysical : ℕ → ℕ
  tables : ℕ → ℕ
  pageTables : ℕ → ℕ → X86Page
  newTables : ℕ → ℕ

/-- Index into the directory. -/
def pdIndex (virtualaddr : ℕ) : ℕ := virtualaddr >>> 22

/-- Index into the page table. -/
def ptIndex (virtualaddr : ℕ) : ℕ := (virtualaddr >>> 12) &&& 0x03FF

namespace X86Paging

/-- `new (true) x86PageTable()`: the constructor clears the entries. -/
def newPageTable (paging : X86Paging) : ℕ × X86Paging :=
  (paging.newTables 0,
    { paging with
      pageTables :=
        Function.update paging.pageTables (paging.newTables 0) fun _ => X86Page.zero
      newTables := fun call => paging.newTables (call + 1) })

def setTable (paging : X86Paging) (index table tablePhysical : ℕ) : Outcome X86Paging :=
  if index < 1024 then
    .ok { paging with
      tablesPhysical := Function.update paging.tablesPhysical index tablePhysical
      tables := Function.update paging.tables index table }
  else .error (.assertion "Index out of range")

def getPhysicalAddress (paging : X86Paging) (virtualaddr : ℕ) : ℕ :=
  let offset := virtualaddr &&& 0xFFF
  let pt := paging.tables (pdIndex virtualaddr)
  if pt = 0 then 0
  else
    let p := paging.pageTables pt (ptIndex virtualaddr)
    if !p.present then 0 else u32 (p.frameAddress + offset)

/-- `GetTable(index, true)`. -/
def getTable (paging : X86Paging) (index : ℕ) : Outcome (ℕ × X86Paging) :=
  if paging.tables index = 0 then do
    let (t, paging) := paging.newPageTable
    let physicalPageTableAddress := paging.getPhysicalAddress t
    let paging ← paging.setTable index t (physicalPageTableAddress ||| 0x3)
    .ok (paging.tables index, paging)
  else .ok (paging.tables index, paging)

/-- Writing an entry of a page table. -/
def writePage (paging : X86Paging) (table index : ℕ) (page : X86Page) : X86Paging :=
  { paging with
    pageTables := Function.update paging.pageTables table
      (Function.update (paging.pageTables table) index page) }

def mapAddress (paging : X86Paging) (virt phys : ℕ) (readwrite usermode : Bool) :
    Outcome X86Paging := do
  let (t, paging) ← paging.getTable (pdIndex virt)
  let p := paging.pageTables t (ptIndex virt)
  let p := if !p.present then { p with present := true } else p
  .ok (paging.writePage t (ptIndex virt)
    { p.setFrame phys with rw := readwrite, user := usermode })

def unmapAddress (paging : X86Paging) (virt : ℕ) : Outcome X86Paging := do
  let (t, paging) ← paging.getTable (pdIndex virt)
  let p := paging.pageTables t (ptIndex virt)
  .ok (paging.writePage t (ptIndex virt)
    { ({ p with present := false } : X86Page).setFrame 0 with rw := false })

def isPresent (paging : X86Paging) (virt : ℕ) : Bool :=
  let t := paging.tables (pdIndex virt)
  if t ≠ 0 ∧ paging.tablesPhysical (pdIndex virt) &&& 0x1 = 1 then
    (paging.pageTables t (ptIndex virt)).present
  else false

/-! ## Making a directory -/

/-- The constructor of the directory. -/
def newDirectory (pageTables : ℕ → ℕ → X86Page) (newTables : ℕ → ℕ) : X86Paging where
  tablesPhysical := fun _ => 0
  tables := fun _ => 0
  pageTables := pageTables
  newTables := newTables

/-- The body of the loop of `Init` copies one of the loader's tables, whose
directory entry carries status bits. -/
def copyTable (loaderTables physicalOf : ℕ → ℕ) (paging : X86Paging) (i : ℕ) :
    Outcome X86Paging :=
  if loaderTables i = 0 then .ok paging
  else do
    let table := loaderTables i &&& 0xFFFFF000
    let (ourTable, paging) := paging.newPageTable
    let paging := { paging with
      pageTables := Function.update paging.pageTables ourTable (paging.pageTables table) }
    paging.setTable i ourTable (physicalOf ourTable ||| 0x3)

/-- `Init`: the first 4 MiB are not taken over from the loader. -/
def init (loaderTables physicalOf : ℕ → ℕ) (pageTables : ℕ → ℕ → X86Page)
    (newTables : ℕ → ℕ) : Outcome X86Paging :=
  (List.range' 1 1023).foldlM (copyTable loaderTables physicalOf)
    (newDirectory pageTables newTables)

end X86Paging

open X86Paging

/-! ## Addresses -/

/-- Number of the page an address lies in. -/
def pageOf (address : ℕ) : ℕ := address / 4096

theorem pdIndex_eq (address : ℕ) : pdIndex address = pageOf address / 1024 := by
  rw [pdIndex, pageOf, Nat.shiftRight_eq_div_pow, Nat.div_div_eq_div_mul]

theorem ptIndex_eq (address : ℕ) : ptIndex address = pageOf address % 1024 := by
  rw [ptIndex, pageOf, Nat.shiftRight_eq_div_pow]
  exact Nat.and_two_pow_sub_one_eq_mod _ 10

theorem offset_eq (address : ℕ) : address &&& 0xFFF = address % 4096 :=
  Nat.and_two_pow_sub_one_eq_mod address 12

theorem pageOf_lt {address : ℕ} (haddress : address < 2 ^ 32) : pageOf address < 2 ^ 20 := by
  rw [pageOf]
  omega

theorem pdIndex_lt {address : ℕ} (haddress : address < 2 ^ 32) : pdIndex address < 1024 := by
  rw [pdIndex_eq, pageOf]
  omega

theorem shiftLeft_land_shiftRight (value mask shift : ℕ) :
    ((value >>> shift) &&& mask) <<< shift = value &&& (mask <<< shift) := by
  apply Nat.eq_of_testBit_eq
  intro bit
  by_cases hbit : shift ≤ bit
  · simp [Nat.testBit_shiftLeft, Nat.testBit_and, Nat.testBit_shiftRight, hbit,
      Nat.add_sub_cancel' hbit]
  · simp [Nat.testBit_shiftLeft, Nat.testBit_and, hbit]

/-- The frame that an entry gets is the physical address without its offset. -/
theorem frameAddress_setFrame (page : X86Page) (phys : ℕ) :
    (page.setFrame phys).frameAddress = phys &&& 0xFFFFF000 := by
  have hframe : (page.setFrame phys).frame.toNat = (phys >>> 12) &&& 0xFFFFF := by
    rw [X86Page.setFrame, BitVec.toNat_ofNat]
    exact Nat.mod_eq_of_lt (Nat.and_lt_two_pow _ (by norm_num))
  have hmask : (0xFFFFF : ℕ) <<< 12 = 0xFFFFF000 := by decide
  rw [X86Page.frameAddress, hframe, shiftLeft_land_shiftRight, hmask]

theorem frameAddress_le (page : X86Page) : page.frameAddress + 4096 ≤ 2 ^ 32 := by
  have hframe := page.frame.isLt
  rw [X86Page.frameAddress, Nat.shiftLeft_eq]
  omega

/-! ## The directory as a map from pages to entries -/

/-- The entry of a page that is mapped. -/
def entryOf (paging : X86Paging) (page : ℕ) : Option X86Page :=
  if paging.tables (page / 1024) = 0 then none
  else
    let entry := paging.pageTables (paging.tables (page / 1024)) (page % 1024)
    if entry.present then some entry else none

/-- Tables have the present bit, no two indices share one, and the tables that
are going to be made are new. -/
structure WellFormed (paging : X86Paging) : Prop where
  present : ∀ i < 1024, paging.tables i ≠ 0 → paging.tablesPhysical i &&& 0x1 = 1
  distinct : ∀ i < 1024, ∀ j < 1024, paging.tables i ≠ 0 →
    paging.tables i = paging.tables j → i = j
  new_ne_zero : ∀ call, paging.newTables call ≠ 0
  new_notMem : ∀ call, ∀ i < 1024, paging.tables i ≠ paging.newTables call
  new_injective : Function.Injective paging.newTables

variable {paging paging' : X86Paging} {virt phys page index table : ℕ}

theorem entryOf_of_table (paging : X86Paging) (htable : paging.tables (page / 1024) = table)
    (hnonzero : table ≠ 0) :
    entryOf paging page =
      if (paging.pageTables table (page % 1024)).present then
        some (paging.pageTables table (page % 1024))
      else none := by
  rw [entryOf, htable, if_neg hnonzero]

theorem entryOf_of_none (htable : paging.tables (page / 1024) = 0) :
    entryOf paging page = none := by
  rw [entryOf, if_pos htable]

theorem getPhysicalAddress_eq (paging : X86Paging) (address : ℕ) :
    paging.getPhysicalAddress address =
      match entryOf paging (pageOf address) with
      | some entry => entry.frameAddress + (address &&& 0xFFF)
      | none => 0 := by
  rw [getPhysicalAddress, entryOf, pdIndex_eq, ptIndex_eq]
  split
  · rfl
  · rename_i htable
    cases hpresent : (paging.pageTables (paging.tables (pageOf address / 1024))
        (pageOf address % 1024)).present with
    | false => simp [hpresent]
    | true =>
        have hframe := frameAddress_le (paging.pageTables
          (paging.tables (pageOf address / 1024)) (pageOf address % 1024))
        have hoffset : address &&& 0xFFF < 4096 := by
          rw [offset_eq]
          omega
        simp only [hpresent, Bool.not_true, Bool.false_eq_true, if_false, if_true]
        exact u32_of_lt (by omega)

theorem isPresent_eq_isSome
    (hpresent : ∀ i < 1024, paging.tables i ≠ 0 → paging.tablesPhysical i &&& 0x1 = 1)
    {address : ℕ} (haddress : address < 2 ^ 32) :
    paging.isPresent address = (entryOf paging (pageOf address)).isSome := by
  rw [isPresent, entryOf]
  have hindex := pdIndex_lt haddress
  rw [pdIndex_eq] at hindex ⊢
  rw [ptIndex_eq]
  by_cases htable : paging.tables (pageOf address / 1024) = 0
  · simp [htable]
  · simp only [if_pos (And.intro htable (hpresent _ hindex htable)), if_neg htable]
    split <;> simp_all

theorem WellFormed.isPresent_eq (hpaging : WellFormed paging) {address : ℕ}
    (haddress : address < 2 ^ 32) :
    paging.isPresent address = (entryOf paging (pageOf address)).isSome :=
  isPresent_eq_isSome hpaging.present haddress

/-- The status bits of a table that the kernel enters. -/
theorem status_present (tablePhysical : ℕ) : (tablePhysical ||| 0x3) &&& 0x1 = 1 := by
  rw [Nat.and_or_distrib_right]
  rcases Nat.mod_two_eq_zero_or_one tablePhysical with heven | hodd
  · rw [Nat.and_one_is_mod, heven]
    rfl
  · rw [Nat.and_one_is_mod, hodd]
    rfl

/-- A new table in the directory. -/
theorem WellFormed.setTable (hpaging : WellFormed paging) (index : ℕ)
    (contents : ℕ → X86Page) (tablePhysical : ℕ) :
    WellFormed
      { tablesPhysical :=
          Function.update paging.tablesPhysical index (tablePhysical ||| 0x3)
        tables := Function.update paging.tables index (paging.newTables 0)
        pageTables := Function.update paging.pageTables (paging.newTables 0) contents
        newTables := fun call => paging.newTables (call + 1) } := by
  constructor
  · intro i hi htable
    by_cases heq : i = index
    · simp only [heq, Function.update_self]
      exact status_present tablePhysical
    · simp only [Function.update_of_ne heq] at htable ⊢
      exact hpaging.present i hi htable
  · intro i hi j hj htable hsame
    by_cases hleft : i = index <;> by_cases hright : j = index
    · rw [hleft, hright]
    · simp only [hleft, Function.update_self, Function.update_of_ne hright] at hsame
      exact absurd hsame.symm (hpaging.new_notMem 0 j hj)
    · simp only [hright, Function.update_self, Function.update_of_ne hleft] at hsame
      exact absurd hsame (hpaging.new_notMem 0 i hi)
    · simp only [Function.update_of_ne hleft, Function.update_of_ne hright] at htable hsame
      exact hpaging.distinct i hi j hj htable hsame
  · exact fun call => hpaging.new_ne_zero (call + 1)
  · intro call i hi
    by_cases heq : i = index
    · simp only [heq, Function.update_self]
      exact fun hsame => absurd (hpaging.new_injective hsame) (Nat.succ_ne_zero call).symm
    · simp only [Function.update_of_ne heq]
      exact hpaging.new_notMem (call + 1) i hi
  · exact fun left right hsame => Nat.succ_injective (hpaging.new_injective hsame)

/-- `GetTable(index, true)` returns the table of the index, and a table that it
makes has no mapped page. -/
theorem WellFormed.getTable (hpaging : WellFormed paging) (hindex : index < 1024) :
    ∃ paging', paging.getTable index = .ok (paging'.tables index, paging') ∧
      WellFormed paging' ∧ paging'.tables index ≠ 0 ∧
      ∀ page < 2 ^ 20, entryOf paging' page = entryOf paging page := by
  rw [X86Paging.getTable]
  split
  · rename_i hnone
    have hnew := hpaging.new_ne_zero 0
    simp only [newPageTable, X86Paging.setTable, if_pos hindex, ok_bind]
    refine ⟨_, rfl, hpaging.setTable index _ _, ?_, fun page hpage => ?_⟩
    · simpa only [Function.update_self] using hnew
    · by_cases heq : page / 1024 = index
      · subst heq
        rw [entryOf_of_none hnone, entryOf_of_table _ (Function.update_self _ _ _) hnew]
        simp [X86Page.zero]
      · have hother := hpaging.new_notMem 0 (page / 1024) (by omega)
        simp only [entryOf, Function.update_of_ne heq, Function.update_of_ne hother]
  · rename_i htable
    exact ⟨paging, rfl, hpaging, htable, fun _ _ => rfl⟩

/-- The table is there already, or it is made. -/
theorem getTable_cases (hcall : paging.getTable index = .ok (table, paging')) :
    (paging.tables index ≠ 0 ∧ table = paging.tables index ∧ paging' = paging) ∨
      paging.tables index = 0 ∧ table = paging.newTables 0 ∧
        paging'.tables = Function.update paging.tables index table ∧
        ∀ other, other ≠ table → paging'.pageTables other = paging.pageTables other := by
  rw [X86Paging.getTable] at hcall
  split at hcall
  · rename_i hnone
    right
    obtain ⟨middle, hset, hlast⟩ := bind_eq_ok.mp hcall
    rw [X86Paging.setTable] at hset
    split at hset
    · obtain rfl := Except.ok.inj hset
      obtain ⟨rfl, rfl⟩ := Prod.mk.inj (Except.ok.inj hlast)
      refine ⟨hnone, Function.update_self .., ?_, fun other hother => ?_⟩
      · simp only [Function.update_self]
      · simp only [Function.update_self] at hother ⊢
        exact Function.update_of_ne hother _ _
    · cases hset
  · rename_i htable
    obtain ⟨rfl, rfl⟩ := Prod.mk.inj (Except.ok.inj hcall)
    exact Or.inl ⟨htable, rfl, rfl⟩

/-- Writing the entry of a page changes this page only. -/
theorem WellFormed.writePage (hpaging : WellFormed paging) (hpage : page < 2 ^ 20)
    (htable : paging.tables (page / 1024) ≠ 0) (entry : X86Page) :
    WellFormed (paging.writePage (paging.tables (page / 1024)) (page % 1024) entry) ∧
      ∀ other < 2 ^ 20,
        entryOf (paging.writePage (paging.tables (page / 1024)) (page % 1024) entry) other =
          if other = page then (if entry.present then some entry else none)
          else entryOf paging other := by
  refine ⟨⟨hpaging.present, hpaging.distinct, hpaging.new_ne_zero, hpaging.new_notMem,
    hpaging.new_injective⟩, fun other hother => ?_⟩
  by_cases hdirectory : other / 1024 = page / 1024
  · have hsame : paging.tables (other / 1024) = paging.tables (page / 1024) := by
      rw [hdirectory]
    have hwrite := entryOf_of_table
      (paging.writePage (paging.tables (page / 1024)) (page % 1024) entry) hsame htable
    rw [hwrite, entryOf_of_table paging hsame htable]
    simp only [X86Paging.writePage, Function.update_self]
    by_cases hindex : other % 1024 = page % 1024
    · have heq : other = page := by omega
      rw [if_pos heq, hindex, Function.update_self]
    · have hne : other ≠ page := fun heq => hindex (by rw [heq])
      rw [if_neg hne, Function.update_of_ne hindex]
  · have hne : other ≠ page := fun heq => hdirectory (by rw [heq])
    rw [if_neg hne]
    by_cases hnone : paging.tables (other / 1024) = 0
    · rw [entryOf_of_none hnone]
      exact entryOf_of_none hnone
    · have hapart : paging.tables (other / 1024) ≠ paging.tables (page / 1024) := fun hsame =>
        hdirectory (hpaging.distinct _ (by omega) _ (by omega) hnone hsame)
      simp only [entryOf, X86Paging.writePage, Function.update_of_ne hapart]

/-! ## The two operations -/

/-- What `MapAddress` makes of an entry, whatever it was. -/
theorem mapped_eq (page : X86Page) (phys : ℕ) (readwrite usermode : Bool) :
    ({ (if !page.present then { page with present := true } else page).setFrame phys with
      rw := readwrite, user := usermode } : X86Page) =
      { X86Page.zero.setFrame phys with
        present := true, rw := readwrite, user := usermode } := by
  cases hpresent : page.present <;> simp [X86Page.setFrame, hpresent]

/-- `MapAddress` maps the page of the address and no other. -/
theorem WellFormed.mapAddress (hpaging : WellFormed paging) (hvirt : virt < 2 ^ 32)
    (phys : ℕ) (readwrite usermode : Bool) :
    ∃ paging' entry, paging.mapAddress virt phys readwrite usermode = .ok paging' ∧
      WellFormed paging' ∧ entry.frameAddress = phys &&& 0xFFFFF000 ∧
      entry.rw = readwrite ∧ entry.user = usermode ∧
      ∀ page < 2 ^ 20, entryOf paging' page =
        if page = pageOf virt then some entry else entryOf paging page := by
  obtain ⟨middle, htable, hmiddle, hnonzero, hsame⟩ := hpaging.getTable (pdIndex_lt hvirt)
  rw [X86Paging.mapAddress]
  simp only [htable, ok_bind, mapped_eq]
  rw [pdIndex_eq] at hnonzero ⊢
  rw [ptIndex_eq]
  obtain ⟨hwritten, hentries⟩ := hmiddle.writePage (pageOf_lt hvirt) hnonzero
    { X86Page.zero.setFrame phys with present := true, rw := readwrite, user := usermode }
  refine ⟨_, { X86Page.zero.setFrame phys with
    present := true, rw := readwrite, user := usermode }, rfl, hwritten,
    frameAddress_setFrame X86Page.zero phys, rfl, rfl, fun page hpage => ?_⟩
  rw [hentries page hpage, hsame page hpage]
  rfl

/-- `UnmapAddress` unmaps the page of the address and no other. -/
theorem WellFormed.unmapAddress (hpaging : WellFormed paging) (hvirt : virt < 2 ^ 32) :
    ∃ paging', paging.unmapAddress virt = .ok paging' ∧ WellFormed paging' ∧
      ∀ page < 2 ^ 20, entryOf paging' page =
        if page = pageOf virt then none else entryOf paging page := by
  obtain ⟨middle, htable, hmiddle, hnonzero, hsame⟩ := hpaging.getTable (pdIndex_lt hvirt)
  rw [X86Paging.unmapAddress]
  simp only [htable, ok_bind]
  rw [pdIndex_eq] at hnonzero ⊢
  rw [ptIndex_eq]
  obtain ⟨hwritten, hentries⟩ := hmiddle.writePage (pageOf_lt hvirt) hnonzero
    { ({ middle.pageTables (middle.tables (pageOf virt / 1024)) (pageOf virt % 1024) with
      present := false } : X86Page).setFrame 0 with rw := false }
  refine ⟨_, rfl, hwritten, fun page hpage => ?_⟩
  rw [hentries page hpage, hsame page hpage]
  rfl

/-! ## Directories that are made from scratch -/

theorem wellFormed_newDirectory (pageTables : ℕ → ℕ → X86Page) {newTables : ℕ → ℕ}
    (hnonzero : ∀ call, newTables call ≠ 0) (hinjective : Function.Injective newTables) :
    WellFormed (newDirectory pageTables newTables) where
  present := fun _ _ htable => absurd rfl htable
  distinct := fun _ _ _ _ htable => absurd rfl htable
  new_ne_zero := hnonzero
  new_notMem := fun call _ _ => (hnonzero call).symm
  new_injective := hinjective

theorem WellFormed.copyTable (hpaging : WellFormed paging) (hindex : index < 1024)
    (loaderTables physicalOf : ℕ → ℕ) :
    ∃ paging', X86Paging.copyTable loaderTables physicalOf paging index = .ok paging' ∧
      WellFormed paging' := by
  rw [X86Paging.copyTable]
  split
  · exact ⟨paging, rfl, hpaging⟩
  · simp only [newPageTable, X86Paging.setTable, if_pos hindex, Function.update_idem]
    exact ⟨_, rfl, hpaging.setTable index _ _⟩

/-- The directory that `Init` makes is well formed, whatever the loader left. -/
theorem init_wellFormed (loaderTables physicalOf : ℕ → ℕ) (pageTables : ℕ → ℕ → X86Page)
    {newTables : ℕ → ℕ} (hnonzero : ∀ call, newTables call ≠ 0)
    (hinjective : Function.Injective newTables) :
    ∃ paging, X86Paging.init loaderTables physicalOf pageTables newTables = .ok paging ∧
      WellFormed paging := by
  have hloop : ∀ (indices : List ℕ) (paging : X86Paging), (∀ i ∈ indices, i < 1024) →
      WellFormed paging →
      ∃ paging', indices.foldlM (X86Paging.copyTable loaderTables physicalOf) paging =
        .ok paging' ∧ WellFormed paging' := by
    intro indices
    induction indices with
    | nil => exact fun paging _ hpaging => ⟨paging, rfl, hpaging⟩
    | cons i rest ih =>
        intro paging hbound hpaging
        obtain ⟨middle, hcopy, hmiddle⟩ :=
          hpaging.copyTable (hbound i List.mem_cons_self) loaderTables physicalOf
        obtain ⟨paging', hrest, hpaging'⟩ :=
          ih middle (fun j hmem => hbound j (List.mem_cons_of_mem _ hmem)) hmiddle
        exact ⟨paging', by rw [List.foldlM_cons, hcopy, ok_bind, hrest], hpaging'⟩
  refine hloop _ _ (fun i hmem => ?_) (wellFormed_newDirectory pageTables hnonzero hinjective)
  rw [List.mem_range'_1] at hmem
  omega

end GeexOS.Paging
