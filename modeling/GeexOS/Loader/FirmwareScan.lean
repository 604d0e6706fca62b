import GeexOS.Loader.FirmwareDetection

/-!
# Reading the firmware memory map

The readers of the table stop at the first item without pages.  Nothing writes
this end: it is there as long as the last slot is not filled, and it comes too
early if an empty range is entered in front of an item.  Every call, also one
that the function makes of itself, is looked at on its own.
-/

namespace GeexOS.FirmwareMap

open GeexOS.Words
open GeexOS.Halting
open GeexOS.PhysicalMemory

/-- The items that `for (cur = map; cur->PageCount > 0; cur++)` visits; none if
the loop leaves the array of `remaining` more slots. -/
def readItems (map : ℕ → FirmwareMemoryMapItem) :
    (remaining slot : ℕ) → Option (List FirmwareMemoryMapItem)
  | 0, _ => none
  | remaining + 1, slot =>
      if (map slot).pageCount > 0 then
        (readItems map remaining (slot + 1)).map (map slot :: ·)
      else some []

/-- There is an item without pages, and only such items follow one. -/
def ReadableToEnd (maxEntries : ℕ) (map : ℕ → FirmwareMemoryMapItem) : Prop :=
  (∃ slot < maxEntries, (map slot).pageCount = 0) ∧
    ∀ slot later, slot < later → later < maxEntries → (map slot).pageCount = 0 →
      (map later).pageCount = 0

/-- The table and the arguments when `memory_add_map_entry` is entered. -/
structure AddCall where
  map : ℕ → FirmwareMemoryMapItem
  base : ℕ
  size : ℕ
  type : MemoryType

/-- What one call does: the number it returns unless it calls itself, the table,
and the call of itself. -/
def AddCall.step (maxEntries : ℕ) (call : AddCall) :
    ℕ × (ℕ → FirmwareMemoryMapItem) × Option AddCall :=
  let (i, c) := searchLoop call.map call.base maxEntries 0 0
  if c ≥ maxEntries then (c, call.map, none)
  else
    match trimLoop call.map (c - i) i call.base call.size with
    | none => (c, call.map, none)
    | some (i, base, size) =>
        if i < c then
          let moved := moveDown call.map i c
          let room := sub64 (moved (i + 1)).basePage base
          let count := if size < room then size else room
          let map := Function.update moved i ⟨call.type, base, count⟩
          (c + 1, map,
            if size > count then
              some ⟨map, u64 (base + count), sub64 size count, call.type⟩
            else none)
        else (c + 1, Function.update call.map i ⟨call.type, base, size⟩, none)

def AddCall.after (maxEntries : ℕ) (call : AddCall) : ℕ → FirmwareMemoryMapItem :=
  (call.step maxEntries).2.1

/-- The call and the calls that it makes of itself. -/
def AddCall.calls (maxEntries : ℕ) : (fuel : ℕ) → AddCall → List AddCall
  | 0, _ => []
  | fuel + 1, call =>
      call :: match (call.step maxEntries).2.2 with
        | none => []
        | some next => next.calls maxEntries fuel

/-- All calls while the ranges are entered one after the other. -/
def addCalls (maxEntries : ℕ) :
    List FirmwareMemoryMapItem → (ℕ → FirmwareMemoryMapItem) → List AddCall
  | [], _ => []
  | range :: rest, map =>
      AddCall.calls maxEntries (maxEntries + 1)
          ⟨map, range.basePage, range.pageCount, range.type⟩ ++
        match memoryAddMapEntry map maxEntries range.basePage range.pageCount range.type with
        | .ok (_, map) => addCalls maxEntries rest map
        | .error _ => []

/-- The function is its steps. -/
theorem memoryAddMapEntryLoop_eq (maxEntries fuel : ℕ) (call : AddCall) :
    memoryAddMapEntryLoop maxEntries call.type (fuel + 1) call.map call.base call.size =
      match (call.step maxEntries).2.2 with
      | none => .ok ((call.step maxEntries).1, call.after maxEntries)
      | some next => memoryAddMapEntryLoop maxEntries next.type fuel next.map next.base
          next.size := by
  rw [memoryAddMapEntryLoop, AddCall.after, AddCall.step]
  obtain ⟨i, c, hsearch⟩ : ∃ i c, searchLoop call.map call.base maxEntries 0 0 = (i, c) :=
    ⟨_, _, rfl⟩
  simp only [hsearch]
  split
  · rfl
  · cases trimLoop call.map (c - i) i call.base call.size with
    | none => rfl
    | some left =>
        obtain ⟨i, base, size⟩ := left
        dsimp only
        by_cases hinsert : i < c
        · simp only [if_pos hinsert]
          by_cases hmore : size >
              (if size < sub64 (moveDown call.map i c (i + 1)).basePage base then size
                else sub64 (moveDown call.map i c (i + 1)).basePage base)
          · simp only [if_pos hmore]
          · simp only [if_neg hmore]
        · simp only [if_neg hinsert]

/-! ## The condition -/

/-- The number of items in front of the first empty slot. -/
def AddCall.itemCount (maxEntries : ℕ) (call : AddCall) : ℕ :=
  ((List.range maxEntries).takeWhile fun slot => (call.map slot).pageCount ≠ 0).length

/-- The end of an item, a 64-bit word. -/
def AddCall.endAt (call : AddCall) (slot : ℕ) : ℕ :=
  u64 ((call.map slot).basePage + (call.map slot).pageCount)

/-- The items from `first`, the first one that ends behind the base, up to `last` leave no
gap, and `last` reaches the end of the range. -/
structure AddCall.CoveredBy (call : AddCall) (first last : ℕ) : Prop where
  before : ∀ slot < first, call.endAt slot ≤ call.base
  behind : call.base < call.endAt first
  starts : (call.map first).basePage ≤ call.base
  follows : ∀ slot, first ≤ slot → slot < last →
    (call.map (slot + 1)).basePage ≤ call.endAt slot
  ends : u64 (call.base + call.size) ≤ call.endAt last

/-- The items cover the range. -/
def AddCall.Covered (maxEntries : ℕ) (call : AddCall) : Prop :=
  ∃ first last, first ≤ last ∧ last < call.itemCount maxEntries ∧ call.CoveredBy first last

/-- The table stays readable: the range is covered, or it has pages and there
are two empty slots, or it has none and no item ends behind its base. -/
def AddCall.Ok (maxEntries : ℕ) (call : AddCall) : Prop :=
  call.Covered maxEntries ∨
    if call.size = 0 then ∀ slot < call.itemCount maxEntries, call.endAt slot ≤ call.base
    else call.itemCount maxEntries + 1 < maxEntries

/-- `count` items in front of empty slots. -/
structure Readable (maxEntries : ℕ) (map : ℕ → FirmwareMemoryMapItem) (count : ℕ) : Prop where
  count_lt : count < maxEntries
  item : ∀ slot < count, (map slot).pageCount ≠ 0
  empty : ∀ slot, count ≤ slot → slot < maxEntries → (map slot).pageCount = 0

variable {map : ℕ → FirmwareMemoryMapItem} {maxEntries count base size : ℕ} {call : AddCall}

theorem Readable.readableToEnd (hmap : Readable maxEntries map count) :
    ReadableToEnd maxEntries map := by
  refine ⟨⟨count, hmap.count_lt, hmap.empty count le_rfl hmap.count_lt⟩,
    fun slot later hlater hbound hempty => ?_⟩
  have hslot : count ≤ slot := by
    by_contra hlt
    exact hmap.item slot (not_le.mp hlt) hempty
  exact hmap.empty later (by omega) hbound

theorem ReadableToEnd.exists_readable (hmap : ReadableToEnd maxEntries map) :
    ∃ count, Readable maxEntries map count := by
  obtain ⟨hexists, hfollow⟩ := hmap
  obtain ⟨hbound, hempty⟩ := Nat.find_spec hexists
  refine ⟨Nat.find hexists, hbound, fun slot hslot hzero => ?_, fun slot hslot hlt => ?_⟩
  · exact Nat.find_min hexists hslot ⟨hslot.trans hbound, hzero⟩
  · rcases hslot.eq_or_lt with rfl | hslot
    · exact hempty
    · exact hfollow _ slot hslot hlt hempty

/-- The readers visit all items and stop inside the array. -/
theorem Readable.readItems (hmap : Readable maxEntries map count) :
    readItems map maxEntries 0 = some ((List.range count).map map) := by
  have hscan : ∀ left remaining slot, slot + left = count → left < remaining →
      FirmwareMap.readItems map remaining slot = some ((List.range' slot left).map map) := by
    intro left
    induction left with
    | zero =>
        intro remaining slot hslot hremaining
        obtain ⟨less, rfl⟩ := Nat.exists_eq_succ_of_ne_zero hremaining.ne'
        have hzero := hmap.empty slot (by omega) (by have := hmap.count_lt; omega)
        rw [FirmwareMap.readItems, if_neg (by omega)]
        rfl
    | succ left ih =>
        intro remaining slot hslot hremaining
        obtain ⟨less, rfl⟩ := Nat.exists_eq_succ_of_ne_zero (Nat.ne_zero_of_lt hremaining)
        have hpos := hmap.item slot (by omega)
        rw [FirmwareMap.readItems, if_pos (Nat.pos_of_ne_zero hpos),
          ih less (slot + 1) (by omega) (by omega), Option.map_some, List.range'_succ,
          List.map_cons]
  rw [hscan count maxEntries 0 (Nat.zero_add count) hmap.count_lt, List.range_eq_range']

/-! ## The two loops -/

/-- The search counts the items and finds the first one behind the base. -/
theorem Readable.searchLoop (hmap : Readable maxEntries map count) (base : ℕ) :
    ∃ i ≤ count, searchLoop map base maxEntries 0 0 = (i, count) ∧
      (∀ slot < i, u64 ((map slot).basePage + (map slot).pageCount) ≤ base) ∧
      (i < count → base < u64 ((map i).basePage + (map i).pageCount)) := by
  have hloop : ∀ remaining c i, c + remaining = maxEntries → i ≤ c → c ≤ count →
      (∀ slot < i, u64 ((map slot).basePage + (map slot).pageCount) ≤ base) →
      (i < c → base < u64 ((map i).basePage + (map i).pageCount)) →
      ∃ i' ≤ count, FirmwareMap.searchLoop map base remaining c i = (i', count) ∧
        (∀ slot < i', u64 ((map slot).basePage + (map slot).pageCount) ≤ base) ∧
        (i' < count → base < u64 ((map i').basePage + (map i').pageCount)) := by
    intro remaining
    induction remaining with
    | zero =>
        intro c i hsum _ hc
        have hlt := hmap.count_lt
        omega
    | succ remaining ih =>
        intro c i hsum hi hc hbefore hbehind
        rw [FirmwareMap.searchLoop]
        by_cases hitem : c < count
        · rw [if_pos (hmap.item c hitem)]
          split
          · rename_i hends
            have hic : i = c := by
              by_contra hne
              have hlt := hbehind (by omega)
              omega
            subst hic
            refine ih (i + 1) (i + 1) (by omega) le_rfl hitem (fun slot hslot => ?_)
              (fun hlt => absurd hlt (lt_irrefl _))
            rcases Nat.lt_succ_iff_lt_or_eq.mp hslot with hslot | rfl
            · exact hbefore slot hslot
            · exact hends
          · rename_i hends
            exact ih (c + 1) i (by omega) (by omega) hitem hbefore
              fun _ => not_le.mp hends
        · have hzero := hmap.empty c (by omega) (by omega)
          rw [if_neg (not_not.mpr hzero)]
          obtain rfl : c = count := by omega
          exact ⟨i, hi, rfl, hbefore, hbehind⟩
  exact hloop maxEntries 0 0 (Nat.zero_add _) le_rfl (Nat.zero_le _)
    (fun _ hslot => absurd hslot (Nat.not_lt_zero _)) (fun hlt => absurd hlt (lt_irrefl 0))

/-- The items in front of the first empty slot are those of the table. -/
theorem Readable.itemCount_eq (hmap : Readable maxEntries call.map count) :
    call.itemCount maxEntries = count := by
  have hsplit : List.range maxEntries =
      List.range count ++ List.range' count (maxEntries - count) := by
    have happend := @List.range'_append_1 0 count (maxEntries - count)
    rw [Nat.zero_add, Nat.add_sub_cancel' hmap.count_lt.le] at happend
    rw [List.range_eq_range', List.range_eq_range', happend]
  have hrest : List.range' count (maxEntries - count) =
      count :: List.range' (count + 1) (maxEntries - count - 1) := by
    obtain ⟨less, hless⟩ := Nat.exists_eq_succ_of_ne_zero (Nat.sub_ne_zero_of_lt hmap.count_lt)
    rw [hless, List.range'_succ, Nat.succ_sub_one]
  rw [AddCall.itemCount, hsplit, List.takeWhile_append_of_pos (fun slot hslot => by
    simpa using hmap.item slot (List.mem_range.mp hslot)), hrest, List.takeWhile_cons_of_neg
    (by simpa using hmap.empty count le_rfl hmap.count_lt), List.append_nil, List.length_range]

/-- Trimming leaves nothing exactly if items without a gap reach the end of the range. -/
theorem trimLoop_eq_none_iff {remaining i : ℕ} (hbase : base < 2 ^ 64) :
    trimLoop map remaining i base size = none ↔
      (map i).basePage ≤ base ∧ ∃ last, i ≤ last ∧ last < i + remaining ∧
        (∀ slot, i ≤ slot → slot < last →
          (map (slot + 1)).basePage ≤ u64 ((map slot).basePage + (map slot).pageCount)) ∧
        u64 (base + size) ≤ u64 ((map last).basePage + (map last).pageCount) := by
  induction remaining generalizing i base size with
  | zero =>
      rw [trimLoop]
      refine iff_of_false (Option.some_ne_none _) ?_
      rintro ⟨-, last, hlow, hhigh, -⟩
      omega
  | succ remaining ih =>
      have hnext : u64 ((map i).basePage + (map i).pageCount) < 2 ^ 64 :=
        Nat.mod_lt _ (Nat.two_pow_pos 64)
      have hend : u64 (u64 ((map i).basePage + (map i).pageCount) +
          sub64 size (sub64 (u64 ((map i).basePage + (map i).pageCount)) base)) =
          u64 (base + size) := by
        simp only [sub64, u64] at hnext ⊢
        omega
      rw [trimLoop]
      by_cases hstarts : (map i).basePage ≤ base
      · rw [if_pos hstarts]
        dsimp only
        by_cases hreaches : u64 (base + size) ≤ u64 ((map i).basePage + (map i).pageCount)
        · rw [if_pos hreaches]
          exact iff_of_true rfl ⟨hstarts, i, le_rfl, by omega, fun slot _ _ => by omega, hreaches⟩
        · rw [if_neg hreaches, ih hnext, hend]
          constructor
          · rintro ⟨hfirst, last, hlow, hhigh, hfollows, hends⟩
            refine ⟨hstarts, last, by omega, by omega, fun slot hslot hlt => ?_, hends⟩
            rcases hslot.eq_or_lt with rfl | hslot
            · exact hfirst
            · exact hfollows slot hslot hlt
          · rintro ⟨-, last, hlow, hhigh, hfollows, hends⟩
            have hlater : i < last := by
              refine hlow.lt_of_ne ?_
              rintro rfl
              exact hreaches hends
            exact ⟨hfollows i le_rfl hlater, last, hlater, by omega,
              fun slot hslot hlt => hfollows slot (by omega) hlt, hends⟩
      · rw [if_neg hstarts]
        exact iff_of_false (Option.some_ne_none _) fun hcovers => hstarts hcovers.1

/-- What is left of a range with pages has pages. -/
theorem trimLoop_eq_some {remaining i i' base' size' : ℕ} (hbase : base < 2 ^ 64)
    (htrim : trimLoop map remaining i base size = some (i', base', size')) :
    i ≤ i' ∧ i' ≤ i + remaining ∧ base' < 2 ^ 64 ∧
      (i' < i + remaining → base' < (map i').basePage) ∧
      (i' = i ∧ base' = base ∧ size' = size ∨ size' ≠ 0) := by
  induction remaining generalizing i base size with
  | zero =>
      obtain ⟨rfl, rfl, rfl⟩ : i = i' ∧ base = base' ∧ size = size' := by
        simpa [trimLoop] using htrim
      exact ⟨le_rfl, le_rfl, hbase, fun hlt => absurd hlt (lt_irrefl _), Or.inl ⟨rfl, rfl, rfl⟩⟩
  | succ remaining ih =>
      rw [trimLoop] at htrim
      split at htrim
      · dsimp only at htrim
        split at htrim
        · cases htrim
        · rename_i hleft
          have hnext : u64 ((map i).basePage + (map i).pageCount) < 2 ^ 64 :=
            Nat.mod_lt _ (Nat.two_pow_pos 64)
          obtain ⟨hlow, hhigh, hbound, hbehind, hrest⟩ := ih hnext htrim
          refine ⟨by omega, by omega, hbound, fun hlt => hbehind (by omega), Or.inr ?_⟩
          rcases hrest with ⟨_, _, rfl⟩ | hne
          · intro hzero
            simp only [sub64, u64] at hzero hleft
            omega
          · exact hne
      · rename_i hbehind
        obtain ⟨rfl, rfl, rfl⟩ : i = i' ∧ base = base' ∧ size = size' := by
          simpa using htrim
        exact ⟨le_rfl, Nat.le_add_right _ _, hbase, fun _ => not_le.mp hbehind,
          Or.inl ⟨rfl, rfl, rfl⟩⟩

/-- Trimming leaves an empty range as it is, if it starts in front of the end of the first
item looked at. -/
theorem trimLoop_empty {remaining i : ℕ} (hbase : base < 2 ^ 64)
    (hends : 0 < remaining → base < u64 ((map i).basePage + (map i).pageCount))
    (hleft : trimLoop map remaining i base 0 ≠ none) :
    trimLoop map remaining i base 0 = some (i, base, 0) := by
  cases remaining with
  | zero => rfl
  | succ remaining =>
      rw [trimLoop, Nat.add_zero, u64_of_lt hbase] at hleft ⊢
      dsimp only at hleft ⊢
      rw [if_pos (hends (Nat.succ_pos _)).le] at hleft ⊢
      split at hleft
      · exact absurd rfl hleft
      · rename_i hbehind
        rw [if_neg hbehind]

/-! ## One call -/

/-- The arguments and the bases in the table are 64-bit words. -/
structure AddCall.IsWords (call : AddCall) : Prop where
  base_lt : call.base < 2 ^ 64
  basePage_lt : ∀ slot, (call.map slot).basePage < 2 ^ 64

/-- The items with one more among them. -/
theorem Readable.insert_item (hmap : Readable maxEntries map count) {i : ℕ} (hi : i ≤ count)
    (item : FirmwareMemoryMapItem) (hitem : item.pageCount ≠ 0) :
    ∀ slot ≤ count, (Function.update (moveDown map i count) i item slot).pageCount ≠ 0 := by
  intro slot hbound
  rcases Nat.lt_trichotomy slot i with hlow | rfl | hhigh
  · rw [Function.update_of_ne hlow.ne, moveDown, if_neg (by omega)]
    exact hmap.item slot (by omega)
  · rwa [Function.update_self]
  · rw [Function.update_of_ne hhigh.ne', moveDown, if_pos ⟨hhigh, hbound⟩]
    exact hmap.item (slot - 1) (by omega)

theorem Readable.insert_iff (hmap : Readable maxEntries map count) {i : ℕ} (hi : i ≤ count)
    (item : FirmwareMemoryMapItem) (hitem : item.pageCount ≠ 0) :
    ReadableToEnd maxEntries (Function.update (moveDown map i count) i item) ↔
      count + 1 < maxEntries := by
  have hslot := hmap.insert_item hi item hitem
  constructor
  · rintro ⟨⟨slot, hbound, hzero⟩, _⟩
    by_contra hfull
    exact hslot slot (by omega) hzero
  · intro hroom
    refine Readable.readableToEnd ⟨hroom, fun slot hbound => hslot slot (by omega),
      fun slot hlow hhigh => ?_⟩
    rw [Function.update_of_ne (by omega), moveDown, if_neg (by omega)]
    exact hmap.empty slot (by omega) hhigh

theorem moveDown_succ {i c : ℕ} (hi : i < c) : moveDown map i c (i + 1) = map i := by
  rw [moveDown, if_pos ⟨Nat.lt_succ_self i, hi⟩, Nat.add_sub_cancel]

/-- An empty item in front of others hides them. -/
theorem Readable.insert_empty (hmap : Readable maxEntries map count) {i : ℕ} (hi : i < count)
    {item : FirmwareMemoryMapItem} (hitem : item.pageCount = 0) :
    ¬ ReadableToEnd maxEntries (Function.update (moveDown map i count) i item) := by
  intro hreads
  have hafter := hreads.2 i (i + 1) (Nat.lt_succ_self i) (lt_of_le_of_lt hi hmap.count_lt)
    (by rw [Function.update_self, hitem])
  rw [Function.update_of_ne (Nat.succ_ne_self i), moveDown_succ hi] at hafter
  exact hmap.item i hi hafter

/-- An empty item behind the others changes nothing. -/
theorem Readable.append_empty (hmap : Readable maxEntries map count)
    {item : FirmwareMemoryMapItem} (hitem : item.pageCount = 0) :
    ReadableToEnd maxEntries (Function.update map count item) := by
  refine Readable.readableToEnd ⟨hmap.count_lt, fun slot hslot => ?_, fun slot hlow hhigh => ?_⟩
  · rw [Function.update_of_ne hslot.ne]
    exact hmap.item slot hslot
  · by_cases heq : slot = count
    · rw [heq, Function.update_self]
      exact hitem
    · rw [Function.update_of_ne heq]
      exact hmap.empty slot hlow hhigh

/-- The loop of a call trims the whole range away exactly if the items cover it. -/
theorem Readable.covered_iff (hmap : Readable maxEntries call.map count)
    (hbase : call.base < 2 ^ 64) {i : ℕ} (hi : i ≤ count)
    (hbefore : ∀ slot < i, call.endAt slot ≤ call.base)
    (hbehind : i < count → call.base < call.endAt i) :
    call.Covered maxEntries ↔ trimLoop call.map (count - i) i call.base call.size = none := by
  rw [trimLoop_eq_none_iff hbase, AddCall.Covered, hmap.itemCount_eq, Nat.add_sub_cancel' hi]
  constructor
  · rintro ⟨first, last, hle, hlast, hcovered⟩
    obtain rfl : first = i := by
      rcases Nat.lt_trichotomy first i with hlt | heq | hgt
      · have hends := hbefore first hlt
        have hreaches := hcovered.behind
        omega
      · exact heq
      · have hends := hcovered.before i hgt
        have hreaches := hbehind (by omega)
        omega
    exact ⟨hcovered.starts, last, hle, hlast, hcovered.follows, hcovered.ends⟩
  · rintro ⟨hstarts, last, hle, hlast, hfollows, hends⟩
    exact ⟨i, last, hle, hlast, hbefore, hbehind (hle.trans_lt hlast), hstarts, hfollows, hends⟩

/-- The table is readable after the call exactly if the condition holds. -/
theorem Readable.after_iff (hmap : Readable maxEntries call.map count) (hwords : call.IsWords) :
    ReadableToEnd maxEntries (call.after maxEntries) ↔ call.Ok maxEntries := by
  obtain ⟨i, hi, hsearch, hbefore, hbehind⟩ := hmap.searchLoop call.base
  have hroom := hmap.count_lt
  rw [AddCall.Ok, hmap.covered_iff hwords.base_lt hi hbefore hbehind, hmap.itemCount_eq,
    AddCall.after, AddCall.step, hsearch]
  simp only [if_neg (not_le.mpr hroom)]
  cases htrim : trimLoop call.map (count - i) i call.base call.size with
  | none => simpa using hmap.readableToEnd
  | some left =>
      simp only [reduceCtorEq, false_or]
      by_cases hzero : call.size = 0
      · -- an empty range is entered as it is
        have hends : 0 < count - i → call.base <
            u64 ((call.map i).basePage + (call.map i).pageCount) := fun hpos => hbehind (by omega)
        rw [hzero] at htrim
        rw [trimLoop_empty hwords.base_lt hends (by rw [htrim]; exact Option.some_ne_none _)]
          at htrim
        obtain rfl := Option.some.inj htrim
        rw [if_pos hzero]
        dsimp only
        by_cases hinsert : i < count
        · have hitem := hbehind hinsert
          refine iff_of_false ?_ fun hall => absurd (hall i hinsert) (not_le.mpr hitem)
          simp only [if_pos hinsert, moveDown_succ hinsert]
          apply hmap.insert_empty hinsert
          dsimp only
          split
          · rfl
          · exact Nat.eq_zero_of_not_pos ‹_›
        · obtain rfl : i = count := by omega
          simp only [lt_irrefl, if_false]
          exact iff_of_true (hmap.append_empty rfl) hbefore
      · obtain ⟨i', base', size'⟩ := left
        obtain ⟨hlow, hhigh, hbase', hnext, hrest⟩ := trimLoop_eq_some hwords.base_lt htrim
        have hsum : i + (count - i) = count := by omega
        rw [hsum] at hhigh hnext
        have hsize' : size' ≠ 0 := by
          rcases hrest with ⟨_, _, rfl⟩ | hne
          · exact hzero
          · exact hne
        rw [if_neg hzero]
        by_cases hinsert : i' < count
        · have hitem := hnext hinsert
          have hpos : sub64 (call.map i').basePage base' ≠ 0 := by
            rw [sub64_of_le (hwords.basePage_lt i') hitem.le]
            omega
          simp only [if_pos hinsert, moveDown_succ hinsert]
          apply hmap.insert_iff hinsert.le _
          dsimp only
          split
          · exact hsize'
          · exact hpos
        · obtain rfl : i' = count := by omega
          simp only [lt_irrefl, if_false]
          rw [← hmap.insert_iff le_rfl ⟨call.type, base', size'⟩ hsize', moveDown_self]

/-! ## All calls -/

variable {ranges : List FirmwareMemoryMapItem} {next : AddCall} {fuel endAddress : ℕ}

theorem AddCall.IsWords.after (hwords : call.IsWords) (slot : ℕ) :
    (call.after maxEntries slot).basePage < 2 ^ 64 := by
  have hupdate : ∀ (map : ℕ → FirmwareMemoryMapItem) i item,
      (∀ slot, (map slot).basePage < 2 ^ 64) → item.basePage < 2 ^ 64 →
      (Function.update map i item slot).basePage < 2 ^ 64 := by
    intro map i item hmap hitem
    by_cases heq : slot = i
    · rwa [heq, Function.update_self]
    · rw [Function.update_of_ne heq]
      exact hmap slot
  rw [AddCall.after, AddCall.step]
  obtain ⟨i, c, hsearch⟩ : ∃ i c, searchLoop call.map call.base maxEntries 0 0 = (i, c) :=
    ⟨_, _, rfl⟩
  simp only [hsearch]
  split
  · exact hwords.basePage_lt slot
  · cases htrim : trimLoop call.map (c - i) i call.base call.size with
    | none => exact hwords.basePage_lt slot
    | some left =>
        obtain ⟨i', base', size'⟩ := left
        obtain ⟨_, _, hbase', _⟩ := trimLoop_eq_some hwords.base_lt htrim
        dsimp only
        split
        · refine hupdate _ _ _ (fun other => ?_) hbase'
          rw [moveDown]
          split <;> exact hwords.basePage_lt _
        · exact hupdate _ _ _ hwords.basePage_lt hbase'

/-- A call of itself goes on with the table as it is then. -/
theorem AddCall.step_next (hnext : (call.step maxEntries).2.2 = some next) :
    next.map = call.after maxEntries ∧ next.base < 2 ^ 64 := by
  rw [AddCall.after]
  rw [AddCall.step] at hnext ⊢
  obtain ⟨i, c, hsearch⟩ : ∃ i c, searchLoop call.map call.base maxEntries 0 0 = (i, c) :=
    ⟨_, _, rfl⟩
  simp only [hsearch] at hnext ⊢
  split at hnext
  · cases hnext
  · rename_i hroom
    rw [if_neg hroom]
    cases htrim : trimLoop call.map (c - i) i call.base call.size with
    | none =>
        rw [htrim] at hnext
        cases hnext
    | some left =>
        obtain ⟨i', base', size'⟩ := left
        rw [htrim] at hnext
        dsimp only at hnext ⊢
        split at hnext
        · rename_i hinsert
          obtain ⟨count, hcount⟩ : ∃ count,
              (if size' < sub64 (moveDown call.map i' c (i' + 1)).basePage base' then size'
                else sub64 (moveDown call.map i' c (i' + 1)).basePage base') = count := ⟨_, rfl⟩
          simp only [hcount, if_pos hinsert] at hnext ⊢
          split at hnext
          · obtain rfl := Option.some.inj hnext
            exact ⟨rfl, Nat.mod_lt _ (Nat.two_pow_pos 64)⟩
          · cases hnext
        · cases hnext

theorem AddCall.IsWords.step (hwords : call.IsWords)
    (hnext : (call.step maxEntries).2.2 = some next) : next.IsWords := by
  obtain ⟨hmap, hbase⟩ := AddCall.step_next hnext
  exact ⟨hbase, fun slot => hmap ▸ hwords.after slot⟩

/-- The calls of one range: while the condition holds, the table stays readable. -/
theorem calls_iff (hmap : ReadableToEnd maxEntries call.map) (hwords : call.IsWords) :
    (∀ other ∈ call.calls maxEntries fuel, ReadableToEnd maxEntries (other.after maxEntries)) ↔
      ∀ other ∈ call.calls maxEntries fuel, other.Ok maxEntries := by
  induction fuel generalizing call with
  | zero => simp [AddCall.calls]
  | succ fuel ih =>
      obtain ⟨count, hreadable⟩ := hmap.exists_readable
      rw [AddCall.calls, List.forall_mem_cons, List.forall_mem_cons,
        hreadable.after_iff hwords]
      refine and_congr_right fun hok => ?_
      cases hnext : (call.step maxEntries).2.2 with
      | none => simp
      | some next =>
          refine ih ?_ (hwords.step hnext)
          rw [(AddCall.step_next hnext).1]
          exact (hreadable.after_iff hwords).mpr hok

/-- The table that a range leaves is the one of the last call. -/
theorem memoryAddMapEntryLoop_after {number : ℕ} {after : ℕ → FirmwareMemoryMapItem}
    (hwords : call.IsWords)
    (hcall : memoryAddMapEntryLoop maxEntries call.type fuel call.map call.base call.size =
      .ok (number, after)) :
    ∃ last ∈ call.calls maxEntries fuel, last.after maxEntries = after ∧ last.IsWords := by
  induction fuel generalizing call with
  | zero => cases hcall
  | succ fuel ih =>
      rw [memoryAddMapEntryLoop_eq] at hcall
      rw [AddCall.calls]
      cases hnext : (call.step maxEntries).2.2 with
      | none =>
          rw [hnext] at hcall
          exact ⟨call, List.mem_cons_self, (Prod.mk.inj (Except.ok.inj hcall)).2, hwords⟩
      | some next =>
          rw [hnext] at hcall
          obtain ⟨last, hmem, hlast⟩ := ih (hwords.step hnext) hcall
          exact ⟨last, List.mem_cons_of_mem _ hmem, hlast⟩

theorem addCalls_iff (hmap : ReadableToEnd maxEntries map)
    (hwords : ∀ slot, (map slot).basePage < 2 ^ 64) (hranges : ∀ range ∈ ranges,
      range.basePage < 2 ^ 64) :
    (∀ call ∈ addCalls maxEntries ranges map,
        ReadableToEnd maxEntries (call.after maxEntries)) ↔
      ∀ call ∈ addCalls maxEntries ranges map, call.Ok maxEntries := by
  induction ranges generalizing map with
  | nil => simp [addCalls]
  | cons range rest ih =>
      obtain ⟨hrange, hrest⟩ := List.forall_mem_cons.mp hranges
      have hcall : AddCall.IsWords ⟨map, range.basePage, range.pageCount, range.type⟩ :=
        ⟨hrange, hwords⟩
      rw [addCalls, List.forall_mem_append, List.forall_mem_append,
        @calls_iff maxEntries ⟨map, range.basePage, range.pageCount, range.type⟩ _ hmap hcall]
      refine and_congr_right fun hok => ?_
      cases hadd : memoryAddMapEntry map maxEntries range.basePage range.pageCount range.type with
      | error halt => simp
      | ok result =>
          obtain ⟨number, after⟩ := result
          obtain ⟨last, hmem, rfl, hlast⟩ := memoryAddMapEntryLoop_after hcall hadd
          exact ih ((@calls_iff maxEntries _ _ hmap hcall).mpr hok last hmem)
            (fun slot => hlast.after slot) hrest

/-- A call of itself comes after one more item was entered. -/
theorem Readable.item_of_next (hmap : Readable maxEntries call.map count) (hwords : call.IsWords)
    (hnext : (call.step maxEntries).2.2 = some next) :
    ∀ slot ≤ count, (call.after maxEntries slot).pageCount ≠ 0 := by
  obtain ⟨i, _, hsearch, _, _⟩ := hmap.searchLoop call.base
  rw [AddCall.after]
  rw [AddCall.step, hsearch] at hnext ⊢
  simp only [if_neg (not_le.mpr hmap.count_lt)] at hnext ⊢
  cases htrim : trimLoop call.map (count - i) i call.base call.size with
  | none =>
      rw [htrim] at hnext
      cases hnext
  | some left =>
      obtain ⟨i', base', size'⟩ := left
      obtain ⟨_, _, _, hbehind, _⟩ := trimLoop_eq_some hwords.base_lt htrim
      rw [htrim] at hnext
      dsimp only at hnext ⊢
      split at hnext
      · rename_i hinsert
        have hitem := hbehind (by omega)
        have hword := hwords.basePage_lt i'
        have hmoved : moveDown call.map i' count (i' + 1) = call.map i' := by
          rw [moveDown, if_pos ⟨Nat.lt_succ_self i', hinsert⟩, Nat.add_sub_cancel]
        simp only [hmoved, sub64_of_le hword hitem.le, if_pos hinsert] at hnext ⊢
        apply hmap.insert_item hinsert.le _
        dsimp only
        split
        · rename_i hsmall
          rw [if_pos hsmall, if_neg (lt_irrefl size')] at hnext
          cases hnext
        · omega
      · cases hnext

/-- The function comes to an end. -/
theorem memoryAddMapEntryLoop_returns (hmap : Readable maxEntries call.map count)
    (hwords : call.IsWords) (hfuel : maxEntries < fuel + count)
    (hok : ∀ other ∈ call.calls maxEntries fuel, other.Ok maxEntries) :
    ∃ number after,
      memoryAddMapEntryLoop maxEntries call.type fuel call.map call.base call.size =
        .ok (number, after) := by
  induction fuel generalizing call count with
  | zero =>
      have hlt := hmap.count_lt
      omega
  | succ fuel ih =>
      rw [AddCall.calls, List.forall_mem_cons] at hok
      rw [memoryAddMapEntryLoop_eq]
      cases hnext : (call.step maxEntries).2.2 with
      | none => exact ⟨_, _, rfl⟩
      | some next =>
          rw [hnext] at hok
          obtain ⟨count', hafter⟩ :=
            ((hmap.after_iff hwords).mpr hok.1).exists_readable
          have hmore : count < count' := by
            by_contra hless
            exact hmap.item_of_next hwords hnext count' (not_lt.mp hless)
              (hafter.empty count' le_rfl hafter.count_lt)
          rw [← (AddCall.step_next hnext).1] at hafter
          exact ih hafter (hwords.step hnext) (by omega) hok.2

/-- Entering a range returns, whatever the sizes wrap to. -/
theorem memoryAddMapEntry_returns (hmap : ReadableToEnd maxEntries call.map)
    (hwords : call.IsWords)
    (hok : ∀ other ∈ call.calls maxEntries (maxEntries + 1), other.Ok maxEntries) :
    ∃ number after, memoryAddMapEntry call.map maxEntries call.base call.size call.type =
      .ok (number, after) := by
  obtain ⟨count, hreadable⟩ := hmap.exists_readable
  exact memoryAddMapEntryLoop_returns hreadable hwords (by omega) hok

theorem initialMap_readable (endAddress : ℕ) :
    ReadableToEnd maxMemoryMapEntries (initialMap endAddress) := by
  have hempty : ∀ slot, 5 ≤ slot → (initialMap endAddress slot).pageCount = 0 := by
    intro slot hslot
    rw [initialMap, List.getElem?_eq_none (by simpa [firmwareItems] using hslot)]
    rfl
  refine ⟨⟨5, by decide, hempty 5 le_rfl⟩, fun slot later hlater _ hzero => ?_⟩
  by_cases hstatic : later < 5
  · have hslot : slot = 0 ∨ slot = 1 ∨ slot = 2 ∨ slot = 3 := by omega
    rcases hslot with rfl | rfl | rfl | rfl <;> cases hzero
  · exact hempty later (by omega)

theorem initialMap_words (endAddress slot : ℕ) :
    (initialMap endAddress slot).basePage < 2 ^ 64 := by
  have hall : ∀ item ∈ firmwareItems endAddress, item.basePage < 2 ^ 64 := by
    simp [firmwareItems, archPagesize]
  rw [initialMap]
  cases hslot : (firmwareItems endAddress)[slot]? with
  | none => exact Nat.two_pow_pos 64
  | some item => exact hall item (List.mem_of_getElem? hslot)

/-- The firmware's map stays readable to its end exactly if every call meets the
condition. -/
theorem readableToEnd_iff (endAddress : ℕ) (hranges : ∀ range ∈ ranges,
      range.basePage < 2 ^ 64) :
    (∀ call ∈ addCalls maxMemoryMapEntries ranges (initialMap endAddress),
        ReadableToEnd maxMemoryMapEntries (call.after maxMemoryMapEntries)) ↔
      ∀ call ∈ addCalls maxMemoryMapEntries ranges (initialMap endAddress),
        call.Ok maxMemoryMapEntries :=
  addCalls_iff (initialMap_readable endAddress) (initialMap_words endAddress) hranges

/-- One page that the BIOS reports as usable. -/
def onePage : List FirmwareMemoryMapItem := [⟨.free, 0x200, 1⟩]

/-- Low memory, the BIOS data area, and memory from 1 MiB on, which is entered around a
reserved page. -/
def usualRanges : List FirmwareMemoryMapItem :=
  [⟨.free, 0, 0x9F⟩, ⟨.special, 0x9F, 1⟩, ⟨.special, 0x200, 1⟩, ⟨.free, 0x100, 0x7F00⟩]

theorem usualRanges_ok : ∀ call ∈ addCalls maxMemoryMapEntries usualRanges (initialMap 0x20000),
    call.Ok maxMemoryMapEntries := by
  have hroom : ∀ call ∈ addCalls maxMemoryMapEntries usualRanges (initialMap 0x20000),
      call.size ≠ 0 ∧ call.itemCount maxMemoryMapEntries + 1 < maxMemoryMapEntries := by
    decide +kernel
  intro call hmem
  obtain ⟨hsize, hcount⟩ := hroom call hmem
  exact Or.inr (by rwa [if_neg hsize])

theorem readableToEnd_iff_usualRanges :
    (addCalls maxMemoryMapEntries usualRanges (initialMap 0x20000)).map AddCall.size =
        [0x9F, 1, 1, 0x7F00, 0x7E00] ∧
      ∀ call ∈ addCalls maxMemoryMapEntries usualRanges (initialMap 0x20000),
        ReadableToEnd maxMemoryMapEntries (call.after maxMemoryMapEntries) :=
  ⟨by decide +kernel, (readableToEnd_iff 0x20000 (by simp [usualRanges])).mpr usualRanges_ok⟩

/-- A range without pages in front of the page ends the table there. -/
theorem emptyRange_ends_map :
    ¬ ∀ (endAddress : ℕ) (ranges : List FirmwareMemoryMapItem),
      (∀ range ∈ ranges, range.basePage < 2 ^ 64) →
      ∀ call ∈ addCalls maxMemoryMapEntries ranges (initialMap endAddress),
        ReadableToEnd maxMemoryMapEntries (call.after maxMemoryMapEntries) := by
  intro hall
  have hcalls := hall 0x20000 (onePage ++ [⟨.free, 0x100, 0⟩]) (by simp [onePage])
  have hslots : ((addCalls maxMemoryMapEntries (onePage ++ [⟨.free, 0x100, 0⟩])
      (initialMap 0x20000)).map fun call =>
        ((call.after maxMemoryMapEntries 5).pageCount,
          (call.after maxMemoryMapEntries 6).pageCount)) = [(1, 0), (0, 1)] := by
    decide +kernel
  obtain ⟨call, hmem, hpair⟩ := List.mem_map.mp (hslots ▸ by simp :
    ((0, 1) : ℕ × ℕ) ∈ (addCalls maxMemoryMapEntries (onePage ++ [⟨.free, 0x100, 0⟩])
      (initialMap 0x20000)).map fun call =>
        ((call.after maxMemoryMapEntries 5).pageCount,
          (call.after maxMemoryMapEntries 6).pageCount))
  obtain ⟨hfifth, hsixth⟩ := Prod.mk.inj hpair
  have hzero := (hcalls call hmem).2 5 6 (by decide) (by decide) hfifth
  omega

end GeexOS.FirmwareMap
