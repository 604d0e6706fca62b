import GeexOS.Library.RangeMap
import GeexOS.Loader.PhysicalMemory

/-!
# The firmware memory map

The loader keeps the pages the firmware reports in a table that is sorted by
page and ends with an item without pages.  A new range never replaces what the
table says already: it is cut into the pieces that fill the gaps.
-/

namespace GeexOS.FirmwareMap

open GeexOS.Words
open GeexOS.Halting
open GeexOS.PhysicalMemory
open GeexOS.RangeMap

structure FirmwareMemoryMapItem where
  type : MemoryType
  basePage : ℕ
  pageCount : ℕ
  deriving DecidableEq, Repr

/-- The page behind the last page of an item. -/
def FirmwareMemoryMapItem.endPage (item : FirmwareMemoryMapItem) : ℕ :=
  item.basePage + item.pageCount

/-- The first loop: `remaining` slots from `c` on are still to be looked at.
Returns the place of insertion and the number of items. -/
def searchLoop (map : ℕ → FirmwareMemoryMapItem) (base : ℕ) :
    (remaining c i : ℕ) → ℕ × ℕ
  | 0, c, i => (i, c)
  | remaining + 1, c, i =>
      if (map c).pageCount ≠ 0 then
        if u64 ((map i).basePage + (map i).pageCount) ≤ base then
          searchLoop map base remaining (c + 1) (i + 1)
        else searchLoop map base remaining (c + 1) i
      else (i, c)

/-- The second loop, `remaining` items before the end of the table, cuts what
the table covers from the front of the range; `none` if nothing is left. -/
def trimLoop (map : ℕ → FirmwareMemoryMapItem) :
    (remaining i base size : ℕ) → Option (ℕ × ℕ × ℕ)
  | 0, i, base, size => some (i, base, size)
  | remaining + 1, i, base, size =>
      if (map i).basePage ≤ base then
        let nextBase := u64 ((map i).basePage + (map i).pageCount)
        if u64 (base + size) ≤ nextBase then none
        else trimLoop map remaining (i + 1) nextBase (sub64 size (sub64 nextBase base))
      else some (i, base, size)

/-- `memmove(&map[i+1], &map[i], (c-i)*sizeof(map[0]))`, with the `memmove` of C. -/
def moveDown (map : ℕ → FirmwareMemoryMapItem) (i c : ℕ) : ℕ → FirmwareMemoryMapItem :=
  fun slot => if i < slot ∧ slot ≤ c then map (slot - 1) else map slot

/-- The function and its calls of itself; each of them finds one more item. -/
def memoryAddMapEntryLoop (maxEntries : ℕ) (type : MemoryType) :
    (fuel : ℕ) → (ℕ → FirmwareMemoryMapItem) → (base size : ℕ) →
      Outcome (ℕ × (ℕ → FirmwareMemoryMapItem))
  | 0, _, _, _ => .error .diverges
  | fuel + 1, map, base, size =>
      let (i, c) := searchLoop map base maxEntries 0 0
      if c ≥ maxEntries then .ok (c, map)
      else
        match trimLoop map (c - i) i base size with
        | none => .ok (c, map)
        | some (i, base, size) =>
            if i < c then
              let moved := moveDown map i c
              let room := sub64 (moved (i + 1)).basePage base
              let count := if size < room then size else room
              let map := Function.update moved i ⟨type, base, count⟩
              if size > count then
                memoryAddMapEntryLoop maxEntries type fuel map (u64 (base + count))
                  (sub64 size count)
              else .ok (c + 1, map)
            else .ok (c + 1, Function.update map i ⟨type, base, size⟩)

/-- Returns the number of items and the table afterwards. -/
def memoryAddMapEntry (map : ℕ → FirmwareMemoryMapItem)
    (maxEntries base size : ℕ) (type : MemoryType) :
    Outcome (ℕ × (ℕ → FirmwareMemoryMapItem)) :=
  memoryAddMapEntryLoop maxEntries type (maxEntries + 1) map base size

/-! ## The table as a list of items -/

/-- The table starts with the items, and no item is in the next slots up to
the `spare`-th one. -/
structure Holds (map : ℕ → FirmwareMemoryMapItem) (items : List FirmwareMemoryMapItem)
    (spare : ℕ) : Prop where
  slot : ∀ i item, items[i]? = some item → map i = item
  unused : ∀ i, items.length ≤ i → i ≤ items.length + spare → (map i).pageCount = 0

/-- Items with pages, sorted and disjoint, in the address space. -/
structure Sorted (items : List FirmwareMemoryMapItem) : Prop where
  ordered : Ordered FirmwareMemoryMapItem.basePage FirmwareMemoryMapItem.endPage items
  endPage_lt : ∀ item ∈ items, item.endPage < 2 ^ 64

/-- The item that covers a page. -/
abbrev itemAt (items : List FirmwareMemoryMapItem) (page : ℕ) :
    Option FirmwareMemoryMapItem :=
  lookup FirmwareMemoryMapItem.basePage FirmwareMemoryMapItem.endPage items page

/-- The type the table gives to a page. -/
def typeAt (items : List FirmwareMemoryMapItem) (page : ℕ) : Option MemoryType :=
  (itemAt items page).map FirmwareMemoryMapItem.type

/-- The gaps the items leave in a range. -/
abbrev gapCount (items : List FirmwareMemoryMapItem) (base size : ℕ) : ℕ :=
  gaps FirmwareMemoryMapItem.basePage FirmwareMemoryMapItem.endPage items base (base + size)

variable {map : ℕ → FirmwareMemoryMapItem}
variable {items front back : List FirmwareMemoryMapItem} {item : FirmwareMemoryMapItem}
variable {maxEntries base size spare page : ℕ} {type : MemoryType}

theorem Holds.at_length (hholds : Holds map (front ++ item :: back) spare) :
    map front.length = item :=
  hholds.slot _ _ (by simp)

theorem Sorted.u64_endPage (hsorted : Sorted items) (hmem : item ∈ items) :
    u64 (item.basePage + item.pageCount) = item.endPage :=
  u64_of_lt (hsorted.endPage_lt item hmem)

theorem Sorted.pageCount_pos (hsorted : Sorted items) (hmem : item ∈ items) :
    0 < item.pageCount := by
  have hlt := hsorted.ordered.nonempty item hmem
  simp only [FirmwareMemoryMapItem.endPage] at hlt
  omega

/-- An item lies behind each one in front of it. -/
theorem Sorted.behind {other : FirmwareMemoryMapItem}
    (hsorted : Sorted (front ++ item :: back)) (hother : other ∈ back) :
    item.endPage ≤ other.basePage ∧ item.endPage < other.endPage := by
  have hright := hsorted.ordered.right
  have hafter := (List.pairwise_cons.mp hright.sorted).1 other hother
  exact ⟨hafter, hafter.trans_lt (hright.nonempty other (List.mem_cons_of_mem _ hother))⟩

/-- An item behind one that ends behind `base` does so as well. -/
theorem Sorted.base_lt_endPage (hsorted : Sorted (front ++ item :: back))
    (hitem : base < item.endPage) : ∀ other ∈ item :: back, base < other.endPage := by
  intro other hmem
  rcases List.mem_cons.mp hmem with rfl | hother
  · exact hitem
  · exact hitem.trans (hsorted.behind hother).2

/-- The loop counts the items and finds the first one that ends behind the
base: in `settled` are the items it has counted that end before. -/
theorem searchLoop_spec {settled counted rest : List FirmwareMemoryMapItem} {remaining : ℕ}
    (hholds : Holds map (settled ++ counted ++ rest) spare)
    (hsorted : Sorted (settled ++ counted ++ rest))
    (hremaining : rest.length < remaining)
    (hsettled : ∀ item ∈ settled, item.endPage ≤ base)
    (hcounted : ∀ item ∈ counted, base < item.endPage) :
    ∃ front back, settled ++ counted ++ rest = front ++ back ∧
      (∀ item ∈ front, item.endPage ≤ base) ∧ (∀ item ∈ back, base < item.endPage) ∧
      searchLoop map base remaining (settled ++ counted).length settled.length =
        (front.length, (settled ++ counted ++ rest).length) := by
  induction rest generalizing settled counted remaining with
  | nil =>
      obtain ⟨less, rfl⟩ : ∃ less, remaining = less + 1 := ⟨remaining - 1, by omega⟩
      have hzero := hholds.unused (settled ++ counted).length (by simp) (by simp)
      refine ⟨settled, counted, by simp, hsettled, hcounted, ?_⟩
      rw [searchLoop, if_neg (not_not.mpr hzero), List.append_nil]
  | cons item rest ih =>
      obtain ⟨less, rfl⟩ : ∃ less, remaining = less + 1 := ⟨remaining - 1, by omega⟩
      have hless : rest.length < less := Nat.lt_of_succ_lt_succ hremaining
      have hmem : item ∈ settled ++ counted ++ item :: rest := by simp
      have hslot : map (settled ++ counted).length = item := hholds.at_length
      have hpos := hsorted.pageCount_pos hmem
      rw [searchLoop, hslot, if_pos hpos.ne']
      cases counted with
      | nil =>
          rw [List.append_nil] at hslot hsorted hholds ⊢
          rw [hslot, hsorted.u64_endPage (by simp)]
          split
          · rename_i hbefore
            have hsplit : settled ++ item :: rest = settled ++ [item] ++ [] ++ rest := by
              simp
            rw [hsplit] at hholds hsorted ⊢
            obtain ⟨front, back, heq, hfront, hback, hloop⟩ := ih hholds hsorted
              hless (by
                intro other hother
                rcases List.mem_append.mp hother with hother | hother
                · exact hsettled other hother
                · rwa [List.mem_singleton.mp hother])
              (by simp)
            refine ⟨front, back, heq, hfront, hback, ?_⟩
            rw [← hloop]
            simp
          · rename_i hbehind
            have hsplit : settled ++ item :: rest = settled ++ [item] ++ rest := by simp
            rw [hsplit] at hholds hsorted ⊢
            obtain ⟨front, back, heq, hfront, hback, hloop⟩ := ih hholds hsorted
              hless hsettled (by simpa using hbehind)
            refine ⟨front, back, heq, hfront, hback, ?_⟩
            rw [← hloop]
            simp
      | cons first counted =>
          have hfirst : map settled.length = first := by
            rw [List.append_assoc] at hholds
            exact hholds.at_length
          have hbehind := hcounted first List.mem_cons_self
          rw [hfirst, hsorted.u64_endPage (by simp), if_neg (not_le.mpr hbehind)]
          have hsplit : settled ++ first :: counted ++ item :: rest =
              settled ++ (first :: counted ++ [item]) ++ rest := by simp
          have hitem : base < item.endPage := by
            rw [List.append_assoc] at hsorted
            exact hsorted.base_lt_endPage hbehind item (by simp)
          rw [hsplit] at hholds hsorted ⊢
          obtain ⟨front, back, heq, hfront, hback, hloop⟩ := ih hholds hsorted
            hless hsettled (by
              intro other hother
              rcases List.mem_append.mp hother with hother | hother
              · exact hcounted other hother
              · rwa [List.mem_singleton.mp hother])
          refine ⟨front, back, heq, hfront, hback, ?_⟩
          rw [← hloop]
          simp [Nat.add_assoc]

/-- The pages from a covered start on, up to where the next pages are covered. -/
theorem covered_extend {middle bound : ℕ}
    (hfirst : ∀ page, base ≤ page → page < middle → itemAt items page ≠ none)
    (hrest : ∀ page, middle ≤ page → page < bound → itemAt items page ≠ none) :
    ∀ page, base ≤ page → page < bound → itemAt items page ≠ none := by
  intro page hlow hhigh
  rcases Nat.lt_or_ge page middle with hinside | hbehind
  · exact hfirst page hlow hinside
  · exact hrest page hbehind hhigh

/-- What the trimming leaves: nothing, if every page is covered, or a range
that starts on a free page in front of the remaining items. -/
theorem trimLoop_spec (hholds : Holds map (front ++ back) spare)
    (hsorted : Sorted (front ++ back)) (hsize : 0 < size) (hwrap : base + size < 2 ^ 64)
    (hfront : ∀ item ∈ front, item.endPage ≤ base)
    (hback : ∀ item ∈ back, base < item.endPage) :
    (trimLoop map back.length front.length base size = none ∧
      ∀ page, base ≤ page → page < base + size → itemAt (front ++ back) page ≠ none) ∨
    ∃ front' back' base' size',
      trimLoop map back.length front.length base size = some (front'.length, base', size') ∧
      front ++ back = front' ++ back' ∧ base ≤ base' ∧ 0 < size' ∧
      base' + size' = base + size ∧ (∀ item ∈ front', item.endPage ≤ base') ∧
      (∀ item ∈ back', base' < item.basePage) ∧
      ∀ page, base ≤ page → page < base' → itemAt (front ++ back) page ≠ none := by
  induction back generalizing front base size with
  | nil =>
      refine Or.inr ⟨front, [], base, size, rfl, rfl, le_rfl, hsize, rfl, hfront, by simp, ?_⟩
      intro page hlow hhigh
      omega
  | cons item rest ih =>
      have hmem : item ∈ front ++ item :: rest := by simp
      have hend := hsorted.endPage_lt item hmem
      have hlater := hback item List.mem_cons_self
      have hlast : ∀ other ∈ rest, item.endPage ≤ other.basePage ∧ item.endPage < other.endPage :=
        fun other hother => hsorted.behind hother
      rw [List.length_cons, trimLoop, hholds.at_length, hsorted.u64_endPage hmem,
        u64_of_lt hwrap]
      split
      · rename_i hbefore
        have hcovers : ∀ page, base ≤ page → page < item.endPage →
            itemAt (front ++ item :: rest) page ≠ none := by
          intro page hlow hhigh hnone
          exact lookup_eq_none_iff.mp hnone item hmem ⟨hbefore.trans hlow, hhigh⟩
        dsimp only
        split
        · rename_i hwhole
          exact Or.inl ⟨rfl, fun page hlow hhigh => hcovers page hlow (by omega)⟩
        · rename_i hrest
          rw [sub64_of_le hend hlater.le, sub64_of_le (by omega) (by omega)]
          have hsplit : front ++ item :: rest = front ++ [item] ++ rest := by simp
          have hlength : front.length + 1 = (front ++ [item]).length := by simp
          have hsum : item.endPage + (size - (item.endPage - base)) = base + size := by omega
          have hfront' : ∀ other ∈ front ++ [item], other.endPage ≤ item.endPage := by
            intro other hother
            rcases List.mem_append.mp hother with hother | hother
            · exact (hfront other hother).trans hlater.le
            · rw [List.mem_singleton.mp hother]
          rw [hsplit] at hholds hsorted hcovers ⊢
          rw [hlength]
          have hcase := ih hholds hsorted (by omega) (hsum ▸ hwrap) hfront'
            fun other hother => (hlast other hother).2
          rw [hsum] at hcase
          rcases hcase with ⟨hnone, hall⟩ | ⟨front', back', base', size', hsome, heq, hbase,
            hpos, htotal, hfront', hback', hall⟩
          · exact Or.inl ⟨hnone, covered_extend hcovers hall⟩
          · exact Or.inr ⟨front', back', base', size', hsome, heq, by omega, hpos, htotal,
              hfront', hback', covered_extend hcovers hall⟩
      · rename_i hbehind
        refine Or.inr ⟨front, item :: rest, base, size, rfl, rfl, le_rfl, hsize, rfl, hfront,
          ?_, fun page hlow hhigh => by omega⟩
        intro other hother
        rcases List.mem_cons.mp hother with rfl | hother
        · exact not_le.mp hbehind
        · exact hlater.trans_le (hlast other hother).1

/-! ## Inserting a piece -/

theorem moveDown_self (map : ℕ → FirmwareMemoryMapItem) (c : ℕ) : moveDown map c c = map := by
  funext slot
  rw [moveDown, if_neg (by omega)]

/-- Moving the items behind the place down and writing the new one there. -/
theorem Holds.insert (hholds : Holds map (front ++ back) (spare + 1))
    (item : FirmwareMemoryMapItem) :
    Holds (Function.update (moveDown map front.length (front ++ back).length)
      front.length item) (front ++ item :: back) spare := by
  constructor
  · intro i other hother
    rcases Nat.lt_trichotomy i front.length with hlow | rfl | hhigh
    · rw [List.getElem?_append_left hlow] at hother
      rw [Function.update_of_ne hlow.ne, moveDown, if_neg (by omega)]
      apply hholds.slot i other
      rw [List.getElem?_append_left hlow, hother]
    · rw [List.getElem?_append_right le_rfl, Nat.sub_self, List.getElem?_cons_zero,
        Option.some.injEq] at hother
      rw [Function.update_self, hother]
    · obtain ⟨j, rfl⟩ : ∃ j, i = front.length + j + 1 := ⟨i - front.length - 1, by omega⟩
      have hindex : front.length + j + 1 - front.length = j + 1 := by omega
      rw [List.getElem?_append_right (by omega), hindex, List.getElem?_cons_succ] at hother
      have hbound := (List.getElem?_eq_some_iff.mp hother).1
      rw [Function.update_of_ne hhigh.ne', moveDown,
        if_pos ⟨hhigh, by rw [List.length_append]; omega⟩, Nat.add_sub_cancel]
      apply hholds.slot _ _
      rw [List.getElem?_append_right (by omega), Nat.add_sub_cancel_left, hother]
  · intro i hlow hhigh
    rw [List.length_append, List.length_cons] at hlow hhigh
    rw [Function.update_of_ne (by omega), moveDown,
      if_neg (by rw [List.length_append]; omega)]
    exact hholds.unused i (by rw [List.length_append]; omega)
      (by rw [List.length_append]; omega)

/-- A free place between the items of `front` and of `back`. -/
theorem itemAt_eq_none (hfront : ∀ item ∈ front, item.endPage ≤ page)
    (hback : ∀ item ∈ back, page < item.basePage) : itemAt (front ++ back) page = none := by
  rw [itemAt, lookup_append, lookup_eq_none_of_le hfront, lookup_eq_none_of_lt hback]
  rfl

/-- `items'` are the items with the free pages of a range added. -/
structure Extends (items items' : List FirmwareMemoryMapItem) (base size : ℕ)
    (type : MemoryType) : Prop where
  sorted : Sorted items'
  typeAt_eq : ∀ page, typeAt items' page =
    (typeAt items page).or (if base ≤ page ∧ page < base + size then some type else none)

/-- One piece between `front` and `back`, where the range was trimmed before
it. -/
theorem extends_insert (type : MemoryType) (hsorted : Sorted (front ++ back))
    {first count : ℕ}
    (hcount : 0 < count) (hend : first + count < 2 ^ 64)
    (hfront : ∀ item ∈ front, item.endPage ≤ first)
    (hback : ∀ item ∈ back, first + count ≤ item.basePage) (hbase : base ≤ first)
    (hcovered : ∀ page, base ≤ page → page < first → itemAt (front ++ back) page ≠ none) :
    Extends (front ++ back) (front ++ ⟨type, first, count⟩ :: back) base
      (first + count - base) type := by
  have hpiece : (⟨type, first, count⟩ : FirmwareMemoryMapItem).endPage = first + count := rfl
  refine ⟨⟨hsorted.ordered.insert ?_ hfront hback, ?_⟩, fun page => ?_⟩
  · rw [hpiece]
    exact Nat.lt_add_of_pos_right hcount
  · intro item hmem
    rcases List.mem_append.mp hmem with hmem | hmem
    · exact hsorted.endPage_lt item (List.mem_append_left _ hmem)
    rcases List.mem_cons.mp hmem with rfl | hmem
    · exact hend
    · exact hsorted.endPage_lt item (List.mem_append_right _ hmem)
  · rw [typeAt, itemAt, lookup_insert hfront, hpiece]
    split
    · rename_i hinside
      have hfree : itemAt (front ++ back) page = none :=
        itemAt_eq_none (fun item hmem => (hfront item hmem).trans hinside.1)
          (fun item hmem => hinside.2.trans_le (hback item hmem))
      rw [typeAt, hfree, if_pos (by simp only at hinside; omega)]
      rfl
    · rename_i houtside
      split
      · rename_i hinside
        have hbefore : page < first := by
          simp only at houtside
          omega
        obtain ⟨item, hitem⟩ := Option.ne_none_iff_exists'.mp (hcovered page hinside.1 hbefore)
        have htype : typeAt (front ++ back) page = some item.type := by
          rw [typeAt, hitem, Option.map_some]
        change typeAt (front ++ back) page = _
        rw [htype, Option.some_or]
      · rw [Option.or_none, typeAt]

theorem Extends.trans {items' items'' : List FirmwareMemoryMapItem} {first : ℕ}
    (hfirst : Extends items items' base (first - base) type)
    (hsecond : Extends items' items'' first (base + size - first) type)
    (hbase : base ≤ first) (hlast : first ≤ base + size) :
    Extends items items'' base size type := by
  refine ⟨hsecond.sorted, fun page => ?_⟩
  rw [hsecond.typeAt_eq, hfirst.typeAt_eq, Option.or_assoc]
  congr 1
  by_cases hleft : base ≤ page ∧ page < base + (first - base)
  · have hwhole : base ≤ page ∧ page < base + size := by omega
    rw [if_pos hleft, if_pos hwhole, Option.some_or]
  · rw [if_neg hleft, Option.none_or]
    refine if_congr ?_ rfl rfl
    omega

/-- The first loop from its start. -/
theorem searchLoop_start (base : ℕ) (hholds : Holds map items spare) (hsorted : Sorted items)
    (hroom : items.length < maxEntries) :
    ∃ front back, items = front ++ back ∧ (∀ item ∈ front, item.endPage ≤ base) ∧
      (∀ item ∈ back, base < item.endPage) ∧
      searchLoop map base maxEntries 0 0 = (front.length, items.length) := by
  have hnone : ∀ item ∈ ([] : List FirmwareMemoryMapItem), item.endPage ≤ base := by simp
  have hnone' : ∀ item ∈ ([] : List FirmwareMemoryMapItem), base < item.endPage := by simp
  exact searchLoop_spec (show Holds map ([] ++ [] ++ items) spare from hholds)
    (show Sorted ([] ++ [] ++ items) from hsorted) hroom hnone hnone'

/-- The place and the length of the piece that one call inserts. -/
structure Piece (items front back : List FirmwareMemoryMapItem) (base size first count : ℕ) :
    Prop where
  split : items = front ++ back
  base_le : base ≤ first
  count_pos : 0 < count
  end_le : first + count ≤ base + size
  front_le : ∀ item ∈ front, item.endPage ≤ first
  le_back : ∀ item ∈ back, first + count ≤ item.basePage
  covered : ∀ page, base ≤ page → page < first → itemAt items page ≠ none
  next_covered : first + count < base + size → itemAt items (first + count) ≠ none

/-- One call returns at once if the range is covered.  Otherwise it inserts
the first piece and goes on behind it. -/
theorem memoryAddMapEntryLoop_step {fuel : ℕ} (hholds : Holds map items spare)
    (hsorted : Sorted items) (hroom : items.length < maxEntries)
    (hsize : 0 < size) (hwrap : base + size < 2 ^ 64) :
    (memoryAddMapEntryLoop maxEntries type (fuel + 1) map base size =
        .ok (items.length, map) ∧
      ∀ page, base ≤ page → page < base + size → itemAt items page ≠ none) ∨
    ∃ front back first count, Piece items front back base size first count ∧
      memoryAddMapEntryLoop maxEntries type (fuel + 1) map base size =
        if first + count < base + size then
          memoryAddMapEntryLoop maxEntries type fuel
            (Function.update (moveDown map front.length items.length) front.length
              ⟨type, first, count⟩) (first + count) (base + size - (first + count))
        else .ok (items.length + 1,
          Function.update (moveDown map front.length items.length) front.length
            ⟨type, first, count⟩) := by
  obtain ⟨front, back, rfl, hfront, hback, hsearch⟩ := searchLoop_start base hholds hsorted hroom
  have hlength : (front ++ back).length - front.length = back.length := by simp
  rw [memoryAddMapEntryLoop, hsearch]
  simp only [if_neg (not_le.mpr hroom), hlength]
  rcases trimLoop_spec hholds hsorted hsize hwrap hfront hback with ⟨hnone, hall⟩ |
    ⟨front', back', first, rest, hsome, hsplit, hbase, hrest, htotal, hfront', hback', hall⟩
  · rw [hnone]
    exact Or.inl ⟨rfl, hall⟩
  · rw [hsome, hsplit]
    rw [hsplit] at hholds hsorted hall
    apply Or.inr
    cases back' with
    | nil =>
        -- behind all items the whole rest is one piece
        refine ⟨front', [], first, rest, ⟨rfl, hbase, hrest, htotal.le, hfront', by simp,
          hall, fun hlt => absurd htotal hlt.ne⟩, ?_⟩
        simp [moveDown_self, htotal]
    | cons item tail =>
        have hitem := hback' item List.mem_cons_self
        have hmem : item ∈ front' ++ item :: tail := by simp
        have hend := hsorted.endPage_lt item hmem
        have hnonempty := hsorted.ordered.nonempty item hmem
        have hmoved : moveDown map front'.length (front' ++ item :: tail).length
            (front'.length + 1) = item := by
          rw [moveDown, if_pos (by simp), Nat.add_sub_cancel]
          exact hholds.at_length
        have hplace : front'.length < (front' ++ item :: tail).length := by simp
        have hlater : ∀ other ∈ item :: tail, item.basePage ≤ other.basePage := by
          intro other hother
          rcases List.mem_cons.mp hother with rfl | hother
          · exact le_rfl
          · exact hnonempty.le.trans (hsorted.behind hother).1
        simp only [if_pos hplace, hmoved, sub64_of_le (by omega : item.basePage < 2 ^ 64) hitem.le]
        rcases Nat.lt_or_ge rest (item.basePage - first) with hshort | hlong
        · refine ⟨front', item :: tail, first, rest, ⟨rfl, hbase, hrest, htotal.le, hfront',
            fun other hother => ?_, hall, fun hlt => absurd htotal hlt.ne⟩, ?_⟩
          · have hother := hlater other hother
            omega
          · rw [if_pos hshort, if_neg (lt_irrefl _), if_neg (by omega)]
        · have hcount : first + (item.basePage - first) = item.basePage := by omega
          refine ⟨front', item :: tail, first, item.basePage - first, ⟨rfl, hbase, by omega,
            by omega, hfront', fun other hother => ?_, hall, fun hlt hnone => ?_⟩, ?_⟩
          · rw [hcount]
            exact hlater other hother
          · rw [hcount] at hnone
            exact lookup_eq_none_iff.mp hnone item hmem ⟨le_rfl, hnonempty⟩
          · rw [if_neg (not_lt.mpr hlong), u64_of_lt (by omega),
              sub64_of_le (by omega) (by omega)]
            have hleft : base + size - (first + (item.basePage - first)) =
                rest - (item.basePage - first) := by omega
            rw [hleft]
            refine if_congr ?_ rfl rfl
            omega

theorem Piece.free {front back : List FirmwareMemoryMapItem} {first count : ℕ}
    (hpiece : Piece items front back base size first count) : itemAt items first = none := by
  have hpos := hpiece.count_pos
  rw [hpiece.split]
  exact itemAt_eq_none hpiece.front_le fun item hmem =>
    (Nat.lt_add_of_pos_right hpos).trans_le (hpiece.le_back item hmem)

theorem Piece.gapCount_pos {front back : List FirmwareMemoryMapItem} {first count : ℕ}
    (hpiece : Piece items front back base size first count) : 0 < gapCount items base size := by
  have hpos := hpiece.count_pos
  have hend := hpiece.end_le
  exact gaps_pos_of_free hpiece.base_le (by omega) hpiece.covered hpiece.free

/-- Behind an inserted piece there is one gap less. -/
theorem Piece.gapCount_lt {front back : List FirmwareMemoryMapItem} {first count : ℕ}
    (type : MemoryType) (hpiece : Piece items front back base size first count)
    (hmore : first + count < base + size) :
    gapCount (front ++ ⟨type, first, count⟩ :: back) (first + count)
      (base + size - (first + count)) < gapCount items base size := by
  have hpos := hpiece.count_pos
  have hfree := hpiece.free
  have hcovered := hpiece.covered
  have hnext := hpiece.next_covered hmore
  have hlast : first + count + (base + size - (first + count)) = base + size := by omega
  rw [gapCount, gapCount, hlast]
  rw [hpiece.split] at hfree hcovered hnext ⊢
  exact gaps_insert_lt (⟨type, first, count⟩ : FirmwareMemoryMapItem) hpiece.front_le hpiece.base_le
    (Nat.lt_add_of_pos_right hpos) (show first < base + size by omega) hcovered hfree hnext

/-- A range that is covered adds nothing. -/
theorem extends_self (hsorted : Sorted items)
    (hcovered : ∀ page, base ≤ page → page < base + size → itemAt items page ≠ none) :
    Extends items items base size type := by
  refine ⟨hsorted, fun page => ?_⟩
  split
  · rename_i hinside
    obtain ⟨item, hitem⟩ := Option.ne_none_iff_exists'.mp (hcovered page hinside.1 hinside.2)
    rw [typeAt, hitem, Option.map_some, Option.some_or]
  · rw [Option.or_none]

/-- The call and its calls of itself fill the gaps one after the other, each
with an item of its own. -/
theorem memoryAddMapEntryLoop_spec {fuel : ℕ} (type : MemoryType) (hholds : Holds map items spare)
    (hsorted : Sorted items) (hroom : items.length + spare < maxEntries)
    (hgaps : gapCount items base size ≤ spare) (hfuel : gapCount items base size < fuel)
    (hsize : 0 < size) (hwrap : base + size < 2 ^ 64) :
    ∃ map' items',
      memoryAddMapEntryLoop maxEntries type fuel map base size = .ok (items'.length, map') ∧
      items'.length ≤ items.length + gapCount items base size ∧
      Holds map' items' (items.length + spare - items'.length) ∧
      Extends items items' base size type := by
  induction fuel generalizing map items spare base size with
  | zero => exact absurd hfuel (Nat.not_lt_zero _)
  | succ fuel ih =>
      rcases memoryAddMapEntryLoop_step hholds hsorted
        (show items.length < maxEntries by omega) hsize hwrap with
        ⟨hreturn, hcovered⟩ | ⟨front, back, first, count, hpiece, hreturn⟩
      · refine ⟨map, items, hreturn, Nat.le_add_right _ _, ?_, extends_self hsorted hcovered⟩
        rwa [Nat.add_sub_cancel_left]
      · have hpos := hpiece.gapCount_pos
        have hend := hpiece.end_le
        have hbase := hpiece.base_le
        have hsplit := hpiece.split
        obtain ⟨less, rfl⟩ : ∃ less, spare = less + 1 := ⟨spare - 1, by omega⟩
        rw [hsplit] at hholds hsorted hreturn
        have hholds' := hholds.insert (⟨type, first, count⟩ : FirmwareMemoryMapItem)
        have hextends := extends_insert type hsorted hpiece.count_pos (by omega)
          hpiece.front_le hpiece.le_back hbase (hsplit ▸ hpiece.covered)
        have hlength : (front ++ ⟨type, first, count⟩ :: back).length = items.length + 1 := by
          rw [hsplit, List.length_append, List.length_append, List.length_cons]
          omega
        rw [hreturn]
        split
        · rename_i hmore
          have hless := hpiece.gapCount_lt type hmore
          have hrestSize : 0 < base + size - (first + count) := by omega
          have hrestEnd : first + count + (base + size - (first + count)) = base + size := by
            omega
          obtain ⟨map', items', hloop, hbound, hheld, hrest⟩ := ih hholds' hextends.sorted
            (by omega) (Nat.le_of_lt_succ (hless.trans_le hgaps))
            (Nat.lt_of_lt_of_le hless (Nat.le_of_lt_succ hfuel)) hrestSize
            (hrestEnd.trans_lt hwrap)
          refine ⟨map', items', hloop, by omega, ?_, ?_⟩
          · have hsame : items.length + (less + 1) =
                (front ++ ⟨type, first, count⟩ :: back).length + less := by omega
            rwa [hsame]
          · rw [hsplit]
            exact hextends.trans hrest (by omega) hend
        · rename_i hlast
          refine ⟨_, front ++ ⟨type, first, count⟩ :: back, by rw [← hsplit, ← hlength],
            by omega, ?_, ?_⟩
          · have hsame : items.length + (less + 1) -
                (front ++ ⟨type, first, count⟩ :: back).length = less := by omega
            rwa [hsame, hsplit]
          · have hwhole : first + count - base = size := by omega
            rw [hsplit]
            rwa [hwhole] at hextends

/-- A table of sorted items with room for every gap and an end: adding a range
fills its gaps, keeps the old types, and returns the number of items. -/
theorem memoryAddMapEntry_extends (type : MemoryType)
    (hholds : Holds map items (gapCount items base size)) (hsorted : Sorted items)
    (hroom : items.length + gapCount items base size < maxEntries)
    (hsize : 0 < size) (hwrap : base + size < 2 ^ 64) :
    ∃ map' items', memoryAddMapEntry map maxEntries base size type =
        .ok (items'.length, map') ∧
      items'.length < maxEntries ∧ Holds map' items' 0 ∧
      Extends items items' base size type := by
  obtain ⟨map', items', hloop, hbound, hheld, hextends⟩ :=
    memoryAddMapEntryLoop_spec type hholds hsorted hroom le_rfl
      (show gapCount items base size < maxEntries + 1 by omega) hsize hwrap
  have hlast := hheld.unused items'.length le_rfl (Nat.le_add_right _ _)
  refine ⟨map', items', hloop, by omega, ⟨hheld.slot, fun i hlow hhigh => ?_⟩, hextends⟩
  have hi : i = items'.length := by omega
  rwa [hi]

/-- Six pages around an item of two. -/
theorem memoryAddMapEntry_extends_sixPages :
    ∃ map' items',
      memoryAddMapEntry (fun slot => if slot = 0 then ⟨.special, 2, 2⟩ else ⟨.free, 0, 0⟩)
        32 0 6 .free = .ok (items'.length, map') ∧ items'.length < 32 ∧
      Holds map' items' 0 ∧ Extends [⟨.special, 2, 2⟩] items' 0 6 .free := by
  have hgaps : gapCount [⟨.special, 2, 2⟩] 0 6 = 2 := by decide
  refine memoryAddMapEntry_extends .free ⟨?_, ?_⟩ ⟨⟨by decide, List.pairwise_singleton _ _⟩,
    by decide⟩ (by rw [hgaps]; decide) (by decide) (by decide)
  · intro i item hitem
    cases i with
    | zero => simpa using hitem
    | succ i => simp at hitem
  · intro i hlow _
    have hslot : i ≠ 0 := by
      rw [List.length_singleton] at hlow
      omega
    rw [if_neg hslot]

end GeexOS.FirmwareMap
