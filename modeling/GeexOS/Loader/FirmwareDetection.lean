import GeexOS.Loader.FirmwareMap

/-!
# Detection of the firmware memory map

The loader enters its own pages into the table and adds what the BIOS reports.
Every page belongs to the first range that covers it after rounding, so a free
page is usable memory only where the rounding does not reach beyond it.
-/

namespace GeexOS.FirmwareMap

open GeexOS.Words
open GeexOS.Halting
open GeexOS.PhysicalMemory
open GeexOS.RangeMap

/-- A descriptor as the BIOS writes it. -/
structure BiosMemoryMap where
  baseAddress : ℕ
  length : ℕ
  type : ℕ
  deriving DecidableEq, Repr

def biosMemoryUsable : ℕ := 1

def biosMemoryBad : ℕ := 5

def maxMemoryMapEntries : ℕ := 32

/-- The static items, and the executable's one; `endAddress` is the linker's
symbol `end`. -/
def firmwareItems (endAddress : ℕ) : List FirmwareMemoryMapItem :=
  [⟨.loaderTemporary, 0, 1⟩, ⟨.loaderTemporary, 0x1000 / archPagesize, 6⟩,
    ⟨.loaderStack, (0x8000 - 0x1000) / archPagesize, 1⟩,
    ⟨.loaderStack, (0x9000 - 0x1000) / archPagesize, 1⟩,
    ⟨.loaderExecutable, 0x9000 / archPagesize, endAddress / archPagesize⟩]

/-- The table after `memset` has cleared the slots behind the static items. -/
def initialMap (endAddress : ℕ) : ℕ → FirmwareMemoryMapItem :=
  fun slot => ((firmwareItems endAddress)[slot]?).getD ⟨.free, 0, 0⟩

/-- The range that is added for a descriptor: base and length are rounded on
their own. -/
def firmwareRange (map : BiosMemoryMap) : FirmwareMemoryMapItem where
  type :=
    if map.type = biosMemoryUsable then .free
    else if map.type = biosMemoryBad then .bad
    else .special
  basePage := pageStart map.baseAddress / archPagesize
  pageCount := pageEnd map.length / archPagesize

/-- The loop over the answers of the BIOS; the last one ends the loop. -/
def memI386E820Detect :
    List BiosMemoryMap → (ℕ → FirmwareMemoryMapItem) → Outcome (ℕ → FirmwareMemoryMapItem)
  | [], table => .ok table
  | map :: rest, table => do
      let range := firmwareRange map
      let (_, table) ← memoryAddMapEntry table maxMemoryMapEntries range.basePage
        range.pageCount range.type
      memI386E820Detect rest table

def memI386BuildMemoryMap (endAddress : ℕ) (answers : List BiosMemoryMap) :
    Outcome (ℕ → FirmwareMemoryMapItem) :=
  memI386E820Detect answers (initialMap endAddress)

/-! ## What is recorded -/

/-- An item in front of the end of the table gives this type to the page. -/
def Recorded (table : ℕ → FirmwareMemoryMapItem) (page : ℕ) (type : MemoryType) : Prop :=
  ∃ slot, (∀ earlier ≤ slot, (table earlier).pageCount ≠ 0) ∧
    (table slot).basePage ≤ page ∧ page < (table slot).endPage ∧ (table slot).type = type

variable {table : ℕ → FirmwareMemoryMapItem} {items items' placed : List FirmwareMemoryMapItem}
variable {answers : List BiosMemoryMap} {map : BiosMemoryMap}
variable {base size spare page endAddress : ℕ} {type : MemoryType}

theorem Holds.recorded_iff (hholds : Holds table items spare) (hsorted : Sorted items) :
    Recorded table page type ↔ typeAt items page = some type := by
  constructor
  · rintro ⟨slot, hbefore, hlow, hhigh, rfl⟩
    have hslot : slot < items.length := by
      by_contra hge
      exact hbefore items.length (not_lt.mp hge)
        (hholds.unused items.length le_rfl (Nat.le_add_right _ _))
    have hitem := hholds.slot slot _ (List.getElem?_eq_getElem hslot)
    rw [hitem] at hlow hhigh ⊢
    obtain ⟨front, back, hsplit, hlength⟩ : ∃ front back,
        items = front ++ items[slot] :: back ∧ front.length = slot :=
      ⟨items.take slot, items.drop (slot + 1), by simp, by simp [hslot.le]⟩
    generalize items[slot] = item at hsplit hlow hhigh ⊢
    rw [hsplit] at hsorted ⊢
    have hfront := (List.pairwise_append.mp hsorted.ordered.sorted).2.2
    rw [typeAt, itemAt, lookup_append, lookup_eq_none_of_le fun other hmem =>
      (hfront other hmem item List.mem_cons_self).trans hlow, Option.none_or,
      lookup_cons_of_mem hlow hhigh, Option.map_some]
  · intro htype
    obtain ⟨item, hlookup, rfl⟩ := Option.map_eq_some_iff.mp htype
    have hmem := List.mem_of_find?_eq_some hlookup
    have hinside := List.find?_some hlookup
    simp only [decide_eq_true_eq] at hinside
    obtain ⟨slot, hslot, hitem⟩ := List.getElem_of_mem hmem
    have hheld := hholds.slot slot item (by rw [List.getElem?_eq_getElem hslot, hitem])
    refine ⟨slot, fun earlier hearlier => ?_, hheld ▸ hinside.1, hheld ▸ hinside.2, by
      rw [hheld]⟩
    have hbound : earlier < items.length := hearlier.trans_lt hslot
    rw [hholds.slot earlier _ (List.getElem?_eq_getElem hbound)]
    exact (hsorted.pageCount_pos (List.getElem_mem hbound)).ne'

/-! ## Ranges without pages -/

/-- A range whose page count wrapped to zero adds nothing if its page is
covered. -/
theorem memoryAddMapEntry_zero {maxEntries : ℕ} (hholds : Holds table items spare)
    (hsorted : Sorted items) (hroom : items.length < maxEntries) (hbase : base < 2 ^ 64)
    (hcovered : itemAt items base ≠ none) :
    memoryAddMapEntry table maxEntries base 0 type = .ok (items.length, table) := by
  obtain ⟨front, back, rfl, hfront, hback, hsearch⟩ :=
    searchLoop_start base hholds hsorted hroom
  obtain ⟨item, hitem⟩ := Option.ne_none_iff_exists'.mp hcovered
  rw [itemAt, lookup_append, lookup_eq_none_of_le hfront, Option.none_or] at hitem
  have hmem := List.mem_of_find?_eq_some hitem
  have hinside := List.find?_some hitem
  simp only [decide_eq_true_eq] at hinside
  rw [memoryAddMapEntry, memoryAddMapEntryLoop, hsearch]
  simp only [if_neg (not_le.mpr hroom)]
  cases back with
  | nil => exact absurd hmem List.not_mem_nil
  | cons first rest =>
      have hfirst : first.basePage ≤ base := by
        rcases List.mem_cons.mp hmem with rfl | hrest
        · exact hinside.1
        · have hafter := (hsorted.behind hrest).1
          have hnonempty := hsorted.ordered.right.nonempty first List.mem_cons_self
          omega
      have hlength : (front ++ first :: rest).length - front.length = rest.length + 1 := by simp
      have hend := hback first List.mem_cons_self
      rw [hlength, trimLoop, hholds.at_length, if_pos hfirst,
        hsorted.u64_endPage (by simp), Nat.add_zero, u64_of_lt hbase, if_pos hend.le]

/-! ## The first range wins -/

theorem typeAt_eq_none_iff : typeAt items page = none ↔ itemAt items page = none :=
  Option.map_eq_none_iff

theorem itemAt_append (front back : List FirmwareMemoryMapItem) (page : ℕ) :
    itemAt (front ++ back) page = (itemAt front page).or (itemAt back page) :=
  lookup_append

theorem typeAt_concat (items : List FirmwareMemoryMapItem) (range : FirmwareMemoryMapItem)
    (page : ℕ) : typeAt (items ++ [range]) page =
      (typeAt items page).or
        (if range.basePage ≤ page ∧ page < range.endPage then some range.type else none) := by
  rw [typeAt, itemAt, lookup_append, Option.map_or]
  congr 1
  split
  · rename_i hinside
    rw [lookup_cons_of_mem hinside.1 hinside.2, Option.map_some]
  · rename_i houtside
    rw [lookup_cons_of_notMem houtside]
    rfl

/-- The gaps depend on the covered pages only. -/
theorem gapCount_congr (base size : ℕ)
    (hsame : ∀ page, typeAt items page = typeAt items' page) :
    gapCount items base size = gapCount items' base size := by
  have hnone : ∀ page, itemAt items page = none ↔ itemAt items' page = none := by
    intro page
    rw [← typeAt_eq_none_iff, hsame, typeAt_eq_none_iff]
  refine congrArg Finset.card (Finset.ext fun page => ?_)
  rw [mem_gapStarts, mem_gapStarts]
  exact and_congr_right fun _ => and_congr (hnone page) (or_congr_right (hnone _).not)

/-- The table holds sorted items that say what the first of the ranges says
that were placed. -/
structure Detected (table : ℕ → FirmwareMemoryMapItem) (items placed : List FirmwareMemoryMapItem) :
    Prop where
  holds : Holds table items (maxMemoryMapEntries - 1 - items.length)
  room : items.length < maxMemoryMapEntries
  sorted : Sorted items
  typeAt_eq : ∀ page, typeAt items page = typeAt placed page

/-- A descriptor of at least one byte that does not wrap around. -/
structure BiosMemoryMap.Sound (map : BiosMemoryMap) : Prop where
  length_pos : 0 < map.length
  length_lt : map.length < 2 ^ 64
  end_le : map.baseAddress + map.length ≤ 2 ^ 64

theorem BiosMemoryMap.Sound.basePage_eq (hsound : map.Sound) :
    (firmwareRange map).basePage = map.baseAddress / archPagesize := by
  have hpos := hsound.length_pos
  have hend := hsound.end_le
  exact pageStart_div (by omega)

theorem pageCount_firmwareRange (map : BiosMemoryMap) :
    (firmwareRange map).pageCount = u64 (map.length + (archPagesize - 1)) / archPagesize :=
  pageStart_div (Nat.mod_lt _ (by norm_num))

theorem BiosMemoryMap.Sound.endPage_lt (hsound : map.Sound) :
    (firmwareRange map).basePage + (firmwareRange map).pageCount < 2 ^ 64 := by
  have hpos := hsound.length_pos
  have hend := hsound.end_le
  rw [hsound.basePage_eq, pageCount_firmwareRange]
  simp only [u64, archPagesize]
  omega

/-- Only a range at page zero can round to a count of zero. -/
theorem BiosMemoryMap.Sound.basePage_eq_zero (hsound : map.Sound)
    (hcount : (firmwareRange map).pageCount = 0) : (firmwareRange map).basePage = 0 := by
  have hpos := hsound.length_pos
  have hlength := hsound.length_lt
  have hend := hsound.end_le
  rw [pageCount_firmwareRange] at hcount
  rw [hsound.basePage_eq]
  simp only [u64, archPagesize] at hcount ⊢
  omega

/-- One answer of the BIOS. -/
theorem Detected.add (hdetected : Detected table items placed) (hsound : map.Sound)
    (hzero : typeAt placed 0 ≠ none)
    (hroom : items.length + gapCount placed (firmwareRange map).basePage
      (firmwareRange map).pageCount < maxMemoryMapEntries) :
    ∃ table' items', memoryAddMapEntry table maxMemoryMapEntries (firmwareRange map).basePage
        (firmwareRange map).pageCount (firmwareRange map).type = .ok (items'.length, table') ∧
      items'.length ≤ items.length + gapCount placed (firmwareRange map).basePage
        (firmwareRange map).pageCount ∧
      Detected table' items' (placed ++ [firmwareRange map]) := by
  rcases Nat.eq_zero_or_pos (firmwareRange map).pageCount with hcount | hcount
  · have hbase := hsound.basePage_eq_zero hcount
    have hcovered : itemAt items 0 ≠ none := by
      rwa [Ne, ← typeAt_eq_none_iff, hdetected.typeAt_eq]
    refine ⟨table, items, ?_, Nat.le_add_right _ _,
      ⟨hdetected.holds, hdetected.room, hdetected.sorted, fun page => ?_⟩⟩
    · rw [hcount, hbase]
      exact memoryAddMapEntry_zero hdetected.holds hdetected.sorted hdetected.room
        (by norm_num) hcovered
    · have houtside : ¬ ((firmwareRange map).basePage ≤ page ∧
          page < (firmwareRange map).endPage) := by
        simp only [FirmwareMemoryMapItem.endPage]
        omega
      rw [typeAt_concat, if_neg houtside, Option.or_none, hdetected.typeAt_eq]
  · have hsame := gapCount_congr (firmwareRange map).basePage
      (firmwareRange map).pageCount hdetected.typeAt_eq
    have hgaps := hroom
    rw [← hsame] at hgaps ⊢
    obtain ⟨table', items', hcall, hbound, hheld, hextends⟩ :=
      memoryAddMapEntryLoop_spec (firmwareRange map).type hdetected.holds hdetected.sorted
        (show items.length + (maxMemoryMapEntries - 1 - items.length) < maxMemoryMapEntries by
          omega)
        (show _ ≤ maxMemoryMapEntries - 1 - items.length by omega)
        (show _ < maxMemoryMapEntries + 1 by omega) hcount hsound.endPage_lt
    refine ⟨table', items', hcall, hbound, ⟨?_, by omega, hextends.sorted, fun page => ?_⟩⟩
    · have hspare : items.length + (maxMemoryMapEntries - 1 - items.length) - items'.length =
          maxMemoryMapEntries - 1 - items'.length := by omega
      rwa [← hspare]
    · rw [typeAt_concat, hextends.typeAt_eq, hdetected.typeAt_eq]
      rfl

/-- The items that adding the ranges takes. -/
def neededItems : (placed : List FirmwareMemoryMapItem) → List FirmwareMemoryMapItem → ℕ
  | _, [] => 0
  | placed, range :: rest =>
      gapCount placed range.basePage range.pageCount + neededItems (placed ++ [range]) rest

theorem Detected.run (hdetected : Detected table items placed)
    (hsound : ∀ map ∈ answers, map.Sound) (hzero : typeAt placed 0 ≠ none)
    (hroom : items.length + neededItems placed (answers.map firmwareRange) <
      maxMemoryMapEntries) :
    ∃ table' items', memI386E820Detect answers table = .ok table' ∧
      Detected table' items' (placed ++ answers.map firmwareRange) := by
  induction answers generalizing table items placed with
  | nil => exact ⟨table, items, rfl, by simpa using hdetected⟩
  | cons map rest ih =>
      rw [List.map_cons, neededItems] at hroom
      obtain ⟨table', items', hcall, hbound, hnext⟩ :=
        hdetected.add (hsound map List.mem_cons_self) hzero (by omega)
      have hstill : typeAt (placed ++ [firmwareRange map]) 0 ≠ none := by
        obtain ⟨type, htype⟩ := Option.ne_none_iff_exists'.mp hzero
        rw [typeAt_concat, htype, Option.some_or]
        exact Option.some_ne_none type
      obtain ⟨table'', items'', hrest, hlast⟩ :=
        ih hnext (fun other hmem => hsound other (List.mem_cons_of_mem _ hmem)) hstill
          (by omega)
      refine ⟨table'', items'', ?_, ?_⟩
      · rw [memI386E820Detect]
        simp only [hcall, ok_bind]
        exact hrest
      · rw [List.map_cons]
        rwa [List.append_assoc, List.singleton_append] at hlast

theorem detected_initialMap (hlow : 0x9000 ≤ endAddress) (hhigh : endAddress < 2 ^ 32) :
    Detected (initialMap endAddress) (firmwareItems endAddress) (firmwareItems endAddress) where
  holds := by
    refine ⟨fun slot item hitem => ?_, fun slot hslot _ => ?_⟩
    · rw [initialMap, hitem, Option.getD_some]
    · rw [initialMap, List.getElem?_eq_none hslot, Option.getD_none]
  room := (show 5 < 32 by norm_num)
  sorted := by
    have hpages : 9 ≤ endAddress / 4096 := by omega
    constructor
    · constructor
      · simp only [firmwareItems, List.mem_cons, List.not_mem_nil, or_false, forall_eq_or_imp,
          forall_eq, FirmwareMemoryMapItem.endPage, archPagesize]
        omega
      · simp [firmwareItems, FirmwareMemoryMapItem.endPage, archPagesize]
    · simp only [firmwareItems, List.mem_cons, List.not_mem_nil, or_false, forall_eq_or_imp,
        forall_eq, FirmwareMemoryMapItem.endPage, archPagesize]
      omega
  typeAt_eq := fun _ => rfl

/-- The descriptors, with their pieces and the end of the table, have room. -/
def Fits (endAddress : ℕ) (answers : List BiosMemoryMap) : Prop :=
  (firmwareItems endAddress).length +
    neededItems (firmwareItems endAddress) (answers.map firmwareRange) < maxMemoryMapEntries

/-- The finished table records for every page what the first range says. -/
theorem memI386BuildMemoryMap_recorded (hlow : 0x9000 ≤ endAddress)
    (hhigh : endAddress < 2 ^ 32) (hsound : ∀ map ∈ answers, map.Sound)
    (hfits : Fits endAddress answers) :
    ∃ table, memI386BuildMemoryMap endAddress answers = .ok table ∧
      ∀ page type, Recorded table page type ↔
        typeAt (firmwareItems endAddress ++ answers.map firmwareRange) page = some type := by
  have hzero : typeAt (firmwareItems endAddress) 0 ≠ none := by
    simp [typeAt, itemAt, lookup, firmwareItems, FirmwareMemoryMapItem.endPage]
  obtain ⟨table, items, hbuild, hdetected⟩ :=
    (detected_initialMap hlow hhigh).run hsound hzero hfits
  refine ⟨table, hbuild, fun page type => ?_⟩
  rw [hdetected.holds.recorded_iff hdetected.sorted, hdetected.typeAt_eq]

/-! ## Free pages -/

def BiosMemoryMap.Contains (map : BiosMemoryMap) (address : ℕ) : Prop :=
  map.baseAddress ≤ address ∧ address < map.baseAddress + map.length

/-- Every byte of the page is in a usable descriptor. -/
def UsablePage (answers : List BiosMemoryMap) (page : ℕ) : Prop :=
  ∀ address, address / archPagesize = page →
    ∃ map ∈ answers, map.type = biosMemoryUsable ∧ map.Contains address

/-- Free pages are usable memory as a whole, and nothing else. -/
def FreeIsUsable (answers : List BiosMemoryMap) (table : ℕ → FirmwareMemoryMapItem) : Prop :=
  ∀ page, Recorded table page .free → UsablePage answers page ∧
    ∀ map ∈ answers, map.type ≠ biosMemoryUsable →
      ∀ address, address / archPagesize = page → ¬ map.Contains address

/-- The rounded range of the descriptor is the first one to reach the page. -/
def ReachesFirst (endAddress : ℕ) (before : List BiosMemoryMap) (map : BiosMemoryMap)
    (page : ℕ) : Prop :=
  map.baseAddress / archPagesize ≤ page ∧
    page < map.baseAddress / archPagesize +
      u64 (map.length + (archPagesize - 1)) / archPagesize ∧
    typeAt (firmwareItems endAddress ++ before.map firmwareRange) page = none

theorem type_firmwareItems_ne {item : FirmwareMemoryMapItem}
    (hmem : item ∈ firmwareItems endAddress) : item.type ≠ .free := by
  simp only [firmwareItems, List.mem_cons, List.not_mem_nil, or_false] at hmem
  rcases hmem with rfl | rfl | rfl | rfl | rfl <;> simp

theorem type_firmwareRange_eq_free_iff :
    (firmwareRange map).type = .free ↔ map.type = biosMemoryUsable := by
  rw [firmwareRange]
  split
  · rename_i husable
    simp [husable]
  · rename_i hother
    split <;> simp [hother]

theorem BiosMemoryMap.Sound.covers_iff (hsound : map.Sound) :
    ((firmwareRange map).basePage ≤ page ∧ page < (firmwareRange map).endPage) ↔
      map.baseAddress / archPagesize ≤ page ∧
        page < map.baseAddress / archPagesize +
          u64 (map.length + (archPagesize - 1)) / archPagesize := by
  rw [FirmwareMemoryMapItem.endPage, hsound.basePage_eq, pageCount_firmwareRange]

/-- A page is free exactly if a usable descriptor reaches it first. -/
theorem typeAt_eq_free_iff (hsound : ∀ map ∈ answers, map.Sound) :
    typeAt (firmwareItems endAddress ++ answers.map firmwareRange) page = some .free ↔
      ∃ before map after, answers = before ++ map :: after ∧
        map.type = biosMemoryUsable ∧ ReachesFirst endAddress before map page := by
  constructor
  · intro htype
    obtain ⟨item, hitem, hfree⟩ := Option.map_eq_some_iff.mp htype
    rw [itemAt_append] at hitem
    cases hloader : itemAt (firmwareItems endAddress) page with
    | some other =>
        rw [hloader, Option.some_or, Option.some.injEq] at hitem
        subst hitem
        exact absurd hfree (type_firmwareItems_ne (List.mem_of_find?_eq_some hloader))
    | none =>
        rw [hloader, Option.none_or, itemAt, lookup, List.find?_eq_some_iff_append] at hitem
        obtain ⟨hcovers, front, back, hsplit, hfront⟩ := hitem
        obtain ⟨before, rest, rfl, rfl, hrest⟩ := List.map_eq_append_iff.mp hsplit
        obtain ⟨map, after, rfl, rfl, _⟩ := List.map_eq_cons_iff.mp hrest
        have hinside := (hsound map (by simp)).covers_iff.mp (of_decide_eq_true hcovers)
        refine ⟨before, map, after, rfl, type_firmwareRange_eq_free_iff.mp hfree,
          hinside.1, hinside.2, ?_⟩
        rw [typeAt_eq_none_iff, itemAt_append, hloader, Option.none_or, itemAt,
          lookup_eq_none_iff]
        intro other hmem hboth
        have houtside := hfront other hmem
        rw [decide_eq_true hboth] at houtside
        exact absurd houtside (by decide)
  · rintro ⟨before, map, after, rfl, husable, hlow, hhigh, hnone⟩
    have hcovers := (hsound map (by simp)).covers_iff.mpr ⟨hlow, hhigh⟩
    rw [typeAt_eq_none_iff] at hnone
    rw [List.map_append, List.map_cons, ← List.append_assoc, typeAt, itemAt_append, hnone,
      Option.none_or, itemAt, lookup_cons_of_mem hcovers.1 hcovers.2, Option.map_some,
      type_firmwareRange_eq_free_iff.mpr husable]

/-- Every page that a usable descriptor reaches first consists of usable
bytes. -/
def ReachedAreUsable (endAddress : ℕ) (answers : List BiosMemoryMap) : Prop :=
  ∀ before map after, answers = before ++ map :: after → map.type = biosMemoryUsable →
    ∀ page, ReachesFirst endAddress before map page → UsablePage answers page

/-- No byte is in two descriptors. -/
def DisjointBytes (answers : List BiosMemoryMap) : Prop :=
  answers.Pairwise fun left right =>
    ∀ address, ¬ (left.Contains address ∧ right.Contains address)

theorem DisjointBytes.eq_of_contains (hdisjoint : DisjointBytes answers)
    {left right : BiosMemoryMap}
    {address : ℕ} (hleft : left ∈ answers) (hright : right ∈ answers)
    (hfirst : left.Contains address) (hsecond : right.Contains address) : left = right := by
  by_contra hne
  have hsymm : Std.Symm fun left right : BiosMemoryMap =>
      ∀ address, ¬ (left.Contains address ∧ right.Contains address) :=
    ⟨fun left right hapart address hboth => hapart address ⟨hboth.2, hboth.1⟩⟩
  exact List.Pairwise.forall hdisjoint hleft hright hne address ⟨hfirst, hsecond⟩

theorem freeIsUsable_of_recorded (hsound : ∀ map ∈ answers, map.Sound)
    (hdisjoint : DisjointBytes answers)
    (hrecorded : ∀ page type, Recorded table page type ↔
      typeAt (firmwareItems endAddress ++ answers.map firmwareRange) page = some type) :
    FreeIsUsable answers table ↔ ReachedAreUsable endAddress answers := by
  constructor
  · intro hsafe before map after hsplit husable page hreaches
    have htype :=
      (typeAt_eq_free_iff hsound).mpr ⟨before, map, after, hsplit, husable, hreaches⟩
    exact (hsafe page ((hrecorded page .free).mpr htype)).1
  · intro hreach page hfree
    obtain ⟨before, map, after, hsplit, husable, hreaches⟩ :=
      (typeAt_eq_free_iff hsound).mp ((hrecorded page .free).mp hfree)
    have hpage := hreach before map after hsplit husable page hreaches
    refine ⟨hpage, fun other hother hunusable address haddress hinside => ?_⟩
    -- the byte is in a usable descriptor already
    obtain ⟨owner, howner, howned, hcontains⟩ := hpage address haddress
    have hsame := hdisjoint.eq_of_contains howner hother hcontains hinside
    exact hunusable (hsame ▸ howned)

/-- Usable descriptors made of whole pages reach their own bytes only. -/
theorem reachedAreUsable_of_aligned (hsound : ∀ map ∈ answers, map.Sound)
    (haligned : ∀ map ∈ answers, map.type = biosMemoryUsable →
      archPagesize ∣ map.baseAddress ∧ archPagesize ∣ map.length) :
    ReachedAreUsable endAddress answers := by
  rintro before map after rfl husable page ⟨hlow, hhigh, _⟩ address haddress
  have hmem : map ∈ before ++ map :: after := by simp
  obtain ⟨⟨first, hfirst⟩, ⟨count, hcount⟩⟩ := haligned map hmem husable
  have hpos := (hsound map hmem).length_pos
  have hlength := (hsound map hmem).length_lt
  refine ⟨map, hmem, husable, ?_, ?_⟩
  · simp only [archPagesize] at hlow haddress hfirst
    omega
  · simp only [archPagesize, u64] at hlow hhigh haddress hfirst hcount
    omega

/-- The free pages of the table are usable exactly if every page that a usable
descriptor reaches first after rounding consists of usable bytes. -/
theorem freeIsUsable_iff (hlow : 0x9000 ≤ endAddress) (hhigh : endAddress < 2 ^ 32)
    (hsound : ∀ map ∈ answers, map.Sound) (hdisjoint : DisjointBytes answers)
    (hfits : Fits endAddress answers) :
    ∃ table, memI386BuildMemoryMap endAddress answers = .ok table ∧
      (FreeIsUsable answers table ↔ ReachedAreUsable endAddress answers) := by
  obtain ⟨table, hbuild, hrecorded⟩ :=
    memI386BuildMemoryMap_recorded hlow hhigh hsound hfits
  exact ⟨table, hbuild, freeIsUsable_of_recorded hsound hdisjoint hrecorded⟩

/-- Usable low memory, a reserved page behind it, and usable memory from 1 MiB on. -/
def wholePages : List BiosMemoryMap :=
  [⟨0, 0x9F000, biosMemoryUsable⟩, ⟨0x9F000, 0x1000, 2⟩, ⟨0x100000, 0x8000, biosMemoryUsable⟩]

theorem wholePages_disjoint : DisjointBytes wholePages := by
  refine List.pairwise_cons.mpr ⟨fun other hmem address hboth => ?_,
    List.pairwise_pair.mpr fun address hboth => ?_⟩
  · rcases List.mem_pair.mp hmem with rfl | rfl <;>
      simp only [BiosMemoryMap.Contains] at hboth <;> omega
  · simp only [BiosMemoryMap.Contains] at hboth
    omega

theorem freeIsUsable_iff_wholePages :
    ∃ table, memI386BuildMemoryMap 0x20000 wholePages = .ok table ∧
      FreeIsUsable wholePages table := by
  have hsound : ∀ map ∈ wholePages, map.Sound := by
    intro map hmem
    simp only [wholePages, List.mem_cons, List.not_mem_nil, or_false] at hmem
    rcases hmem with rfl | rfl | rfl <;> exact ⟨by decide, by decide, by decide⟩
  have hfits : Fits 0x20000 wholePages := by
    unfold Fits
    decide +kernel
  have haligned : ∀ map ∈ wholePages, map.type = biosMemoryUsable →
      archPagesize ∣ map.baseAddress ∧ archPagesize ∣ map.length := by
    decide +kernel
  have hexact := freeIsUsable_iff (by norm_num) (by norm_num) hsound wholePages_disjoint hfits
  exact hexact.imp fun table hboth =>
    ⟨hboth.1, hboth.2.mpr (reachedAreUsable_of_aligned hsound haligned)⟩

theorem freeIsUsable_of_aligned (hlow : 0x9000 ≤ endAddress) (hhigh : endAddress < 2 ^ 32)
    (hsound : ∀ map ∈ answers, map.Sound) (hdisjoint : DisjointBytes answers)
    (hfits : Fits endAddress answers)
    (haligned : ∀ map ∈ answers, map.type = biosMemoryUsable →
      archPagesize ∣ map.baseAddress ∧ archPagesize ∣ map.length) :
    ∃ table, memI386BuildMemoryMap endAddress answers = .ok table ∧
      FreeIsUsable answers table := by
  obtain ⟨table, hbuild, hrecorded⟩ :=
    memI386BuildMemoryMap_recorded hlow hhigh hsound hfits
  exact ⟨table, hbuild, (freeIsUsable_of_recorded hsound hdisjoint hrecorded).mpr
    (reachedAreUsable_of_aligned hsound haligned)⟩

/-- Low memory up to the extended BIOS data area, as firmware reports it. -/
def lowMemory : List BiosMemoryMap :=
  [⟨0, 0x9FC00, biosMemoryUsable⟩, ⟨0x9FC00, 0x400, 2⟩]

/-- The page that low memory shares with the BIOS data area is recorded as
free. -/
theorem shared_page_not_usable :
    ¬ ∀ (endAddress : ℕ) (answers : List BiosMemoryMap), 0x9000 ≤ endAddress →
      endAddress < 2 ^ 32 → (∀ map ∈ answers, map.Sound) → DisjointBytes answers →
      Fits endAddress answers →
      ∃ table, memI386BuildMemoryMap endAddress answers = .ok table ∧
        FreeIsUsable answers table := by
  intro hall
  have hsound : ∀ map ∈ lowMemory, map.Sound := by
    intro map hmem
    simp only [lowMemory, List.mem_cons, List.not_mem_nil, or_false] at hmem
    rcases hmem with rfl | rfl <;> exact ⟨by decide, by decide, by decide⟩
  have hdisjoint : DisjointBytes lowMemory := by
    refine List.pairwise_pair.mpr fun address hboth => ?_
    have hfirst := hboth.1.2
    have hsecond := hboth.2.1
    simp only at hfirst hsecond
    omega
  have hfits : Fits 0x20000 lowMemory := by
    unfold Fits
    decide +kernel
  obtain ⟨table, hbuild, hsafe⟩ :=
    hall 0x20000 lowMemory (by decide) (by decide) hsound hdisjoint hfits
  obtain ⟨table', hbuild', hrecorded⟩ :=
    memI386BuildMemoryMap_recorded (by decide) (by decide) hsound hfits
  rw [hbuild, Except.ok.injEq] at hbuild'
  subst hbuild'
  have hfree : Recorded table 0x9F .free := (hrecorded _ _).mpr (by decide)
  exact (hsafe 0x9F hfree).2 ⟨0x9FC00, 0x400, 2⟩ (by decide) (by decide) 0x9FC00 (by decide)
    ⟨by decide, by decide⟩

end GeexOS.FirmwareMap
