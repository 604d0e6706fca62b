import GeexOS.Kernel.HashTableClear
import GeexOS.Kernel.HashTableRuns

/-!
# The item count of the hash table

The count is kept apart from the chains.  `Insert` and `Remove` keep it up to date, and
`Clear` does not.  `Remove` takes for granted that there is an array.
-/

namespace GeexOS.DataStructures

open GeexOS.Words
open GeexOS.Halting
open GeexOS.Linked
open GeexOS.Buckets

variable {Key : Type} {definition : HashTableDefinition Key}
variable {autoExpand checkDuplicates : Bool}

/-- A value in the chain of some bucket. -/
def Reaches (table : BHashTable) (value : ℕ) : Prop :=
  ∃ storage, table.storage = some storage ∧ ∃ bucket < table.curTableSize, ∃ cells,
    Chain table.links 0 (storage.cells bucket) cells ∧ value ∈ cells

/-- The elements reachable from the storage are these, and `GetItemCount` is their number. -/
structure CountsExactly (table : BHashTable) (elements : Finset ℕ) : Prop where
  ends : ∀ storage, table.storage = some storage → ∀ bucket < table.curTableSize, ∃ cells,
    Chain table.links 0 (storage.cells bucket) cells
  reaches_iff : ∀ value, Reaches table value ↔ value ∈ elements
  count : table.curItemCount = elements.card

/-- A table, and the elements inserted and neither removed nor cleared. -/
structure CountState where
  table : BHashTable
  elements : Finset ℕ

/-- The calls, with the block that the allocator has for a new array. -/
inductive HashOperation where
  | insert (allocation : Option (ℕ → ℕ)) (value : ℕ)
  | remove (allocation : Option (ℕ → ℕ)) (value : ℕ)
  | clear (returnElements : Bool)

/-- Only values that are not stored are inserted. -/
def HashOperation.Admissible (elements : Finset ℕ) : HashOperation → Prop
  | .insert _ value => value ≠ 0 ∧ value < 2 ^ 32 ∧ value ∉ elements
  | .remove _ _ => True
  | .clear _ => True

/-- A call that comes back. -/
inductive CountCall (definition : HashTableDefinition Key) (autoExpand checkDuplicates : Bool) :
    HashOperation → CountState → CountState → Prop
  | insert {table after : BHashTable} {elements : Finset ℕ} {allocation : Option (ℕ → ℕ)}
      {value : ℕ} {done : Bool}
      (hcall : table.insertChecked definition autoExpand checkDuplicates allocation value =
        .ok (done, after)) :
      CountCall definition autoExpand checkDuplicates (.insert allocation value)
        ⟨table, elements⟩ ⟨after, if done then insert value elements else elements⟩
  | remove {table after : BHashTable} {elements : Finset ℕ} {allocation : Option (ℕ → ℕ)}
      {value : ℕ} {found : Bool}
      (hcall : table.removeChecked definition autoExpand checkDuplicates allocation value =
        .ok (found, after)) :
      CountCall definition autoExpand checkDuplicates (.remove allocation value)
        ⟨table, elements⟩ ⟨after, if found then elements.erase value else elements⟩
  | clear {table after : BHashTable} {elements : Finset ℕ} {returnElements : Bool} {result : ℕ}
      (hcall : table.clear returnElements = .ok (result, after)) :
      CountCall definition autoExpand checkDuplicates (.clear returnElements)
        ⟨table, elements⟩ ⟨after, ∅⟩

/-- The call does what it should, and the count is exact afterwards. -/
def CallExact (definition : HashTableDefinition Key) (autoExpand checkDuplicates : Bool)
    (state : CountState) : HashOperation → Prop
  | .insert allocation value => ∃ done after,
      state.table.insertChecked definition autoExpand checkDuplicates allocation value =
          .ok (done, after) ∧
        CountsExactly after (if done then insert value state.elements else state.elements)
  | .remove allocation value =>
      bucketOf (definition.hash value) state.table.curTableSize < state.table.curTableSize ∧
        ∃ after,
          state.table.removeChecked definition autoExpand checkDuplicates allocation value =
              .ok (decide (value ∈ state.elements), after) ∧
            (value ∉ state.elements → after = state.table) ∧
            CountsExactly after (state.elements.erase value)
  | .clear returnElements => ∃ result after,
      state.table.clear returnElements = .ok (result, after) ∧
        (returnElements = true → ∃ cells, Chain after.links 0 result cells ∧ cells.Nodup ∧
          ∀ value, value ∈ cells ↔ value ∈ state.elements) ∧
        CountsExactly after ∅

/-- The array is there to search, there is nothing to clear, and an array that grows has
fewer than `2 ^ 30` pointers. -/
def CallFits (autoExpand : Bool) (table : BHashTable) : HashOperation → Prop
  | .insert allocation _ =>
      ¬ (autoExpand = true ∧ table.curTableSize = 2 ^ 29 ∧ allocation.isSome)
  | .remove _ _ => table.storage ≠ none
  | .clear _ => table.curItemCount = 0

def FittingCall (definition : HashTableDefinition Key) (autoExpand checkDuplicates : Bool)
    (state state' : CountState) : Prop :=
  ∃ operation : HashOperation, operation.Admissible state.elements ∧
    CallFits autoExpand state.table operation ∧
    CountCall definition autoExpand checkDuplicates operation state state'

/-! ## Exact counts -/

variable {table : BHashTable} {elements : Finset ℕ} {state state' : CountState}

theorem Holds.countsExactly (htable : Holds definition table elements) :
    CountsExactly table elements := by
  obtain ⟨storage, hstorage, -, hstores⟩ := htable.stores
  refine ⟨fun other hother bucket hbucket => ?_, fun value => ⟨?_, fun hmem => ?_⟩, htable.count⟩
  · obtain ⟨cells, hchain, -⟩ := hstores.chain bucket hbucket
    cases hstorage.symm.trans hother
    exact ⟨cells, hchain⟩
  · rintro ⟨other, hother, bucket, hbucket, cells, hchain, hmem⟩
    cases hstorage.symm.trans hother
    obtain ⟨cells', hchain', hcells⟩ := hstores.chain bucket hbucket
    rw [hchain.unique hchain', hcells] at hmem
    exact hmem.1
  · have hbucket := hstores.index_lt value
    obtain ⟨cells, hchain, hcells⟩ := hstores.chain _ hbucket
    exact ⟨storage, hstorage, _, hbucket, cells, hchain, (hcells value).mpr ⟨hmem, rfl⟩⟩

theorem Unsized.countsExactly (htable : Unsized table) : CountsExactly table ∅ := by
  refine ⟨fun storage hstorage => ?_, fun value => iff_of_false ?_ (Finset.notMem_empty value),
    htable.count⟩
  · rw [htable.storage] at hstorage
    cases hstorage
  · rintro ⟨storage, hstorage, -⟩
    rw [htable.storage] at hstorage
    cases hstorage

/-- The chains hold the elements, or there is no array yet. -/
def Counted (definition : HashTableDefinition Key) (state : CountState) : Prop :=
  (Unsized state.table ∧ state.elements = ∅) ∨ Holds definition state.table state.elements

theorem Counted.countsExactly (hstate : Counted definition state) :
    CountsExactly state.table state.elements := by
  rcases hstate with ⟨hunsized, hempty⟩ | hholds
  · rw [hempty]
    exact hunsized.countsExactly
  · exact hholds.countsExactly

/-- Without a count there are no elements. -/
theorem Counted.elements_eq (hstate : Counted definition state)
    (hcount : state.table.curItemCount = 0) : state.elements = ∅ := by
  rw [hstate.countsExactly.count] at hcount
  exact Finset.card_eq_zero.mp hcount

/-! ## One call -/

/-- The array that cannot be had is asked for only in one case. -/
theorem CallFits.insert {allocation : Option (ℕ → ℕ)} {value : ℕ}
    (hfits : CallFits autoExpand table (.insert allocation value)) :
    autoExpand = true → table.curTableSize = 2 ^ 29 → allocation = none := by
  intro hexpand hsize
  cases allocation with
  | none => rfl
  | some contents => exact absurd ⟨hexpand, hsize, rfl⟩ hfits

theorem Counted.insertChecked (hstate : Counted definition state) {allocation : Option (ℕ → ℕ)}
    {value : ℕ} (hvalue : value ≠ 0) (hlt : value < 2 ^ 32) (hnew : value ∉ state.elements)
    (hfits : CallFits autoExpand state.table (.insert allocation value)) :
    ∃ done after,
      state.table.insertChecked definition autoExpand checkDuplicates allocation value =
          .ok (done, after) ∧
        Counted definition
          ⟨after, if done then insert value state.elements else state.elements⟩ := by
  rcases hstate with ⟨hunsized, hempty⟩ | hholds
  · obtain ⟨hfails, hsucceeds⟩ :=
      hunsized.insertChecked definition autoExpand checkDuplicates hvalue hlt
    cases allocation with
    | none => exact ⟨false, state.table, hfails, Or.inl ⟨hunsized, hempty⟩⟩
    | some contents =>
        obtain ⟨after, hinsert, hafter⟩ := hsucceeds contents
        refine ⟨true, after, hinsert, Or.inr ?_⟩
        rw [hempty]
        exact hafter
  · obtain ⟨after, hinsert, hafter⟩ :=
      hholds.insertChecked hvalue hlt hnew hfits.insert
    exact ⟨true, after, hinsert, Or.inr hafter⟩

/-- Without an array `Remove` reads at the null pointer. -/
theorem Unsized.removeChecked (htable : Unsized table) (allocation : Option (ℕ → ℕ))
    (value : ℕ) :
    table.removeChecked definition autoExpand checkDuplicates allocation value =
      .error .fault := by
  simp only [BHashTable.removeChecked, BHashTable.readStorage, htable.storage, error_bind]

theorem Counted.callExact_insert (hstate : Counted definition state)
    {allocation : Option (ℕ → ℕ)} {value : ℕ}
    (hvalue : value ≠ 0) (hlt : value < 2 ^ 32) (hnew : value ∉ state.elements) :
    CallExact definition autoExpand checkDuplicates state (.insert allocation value) ↔
      CallFits autoExpand state.table (.insert allocation value) := by
  constructor
  · rintro ⟨done, after, hcall, -⟩ ⟨rfl, hsize, hsome⟩
    obtain ⟨contents, rfl⟩ := Option.isSome_iff_exists.mp hsome
    rw [BHashTable.insertChecked, makeRoom_fault hsize] at hcall
    cases hcall
  · intro hfits
    obtain ⟨done, after, hcall, hafter⟩ := hstate.insertChecked hvalue hlt hnew hfits
    exact ⟨done, after, hcall, hafter.countsExactly⟩

theorem Counted.callExact_remove (hstate : Counted definition state)
    (allocation : Option (ℕ → ℕ)) (value : ℕ) :
    CallExact definition autoExpand checkDuplicates state (.remove allocation value) ↔
      CallFits autoExpand state.table (.remove allocation value) := by
  rcases hstate with ⟨hunsized, -⟩ | hholds
  · refine iff_of_false ?_ fun hfits => hfits hunsized.storage
    rintro ⟨-, after, hcall, -⟩
    rw [hunsized.removeChecked] at hcall
    cases hcall
  · obtain ⟨storage, hstorage, -, hstores⟩ := hholds.stores
    have harray : state.table.storage ≠ none := by
      rw [hstorage]
      exact Option.some_ne_none storage
    refine iff_of_true ⟨hstores.index_lt value, ?_⟩ harray
    obtain ⟨after, hcall, hafter, hsame⟩ :=
      hholds.removeChecked autoExpand checkDuplicates allocation value
    exact ⟨after, hcall, hsame, hafter.countsExactly⟩

/-- The count of a table that is cleared is not touched. -/
theorem Counted.callExact_clear (hstate : Counted definition state) (returnElements : Bool) :
    CallExact definition autoExpand checkDuplicates state (.clear returnElements) ↔
      CallFits autoExpand state.table (.clear returnElements) := by
  by_cases hcount : state.table.curItemCount = 0
  · refine iff_of_true ⟨0, state.table, if_pos hcount, fun _ => ⟨[], ?_, List.nodup_nil, ?_⟩, ?_⟩
      hcount
    · exact chain_nil.mpr rfl
    · simp [hstate.elements_eq hcount]
    · have hexact := hstate.countsExactly
      rwa [hstate.elements_eq hcount] at hexact
  · have hholds : Holds definition state.table state.elements :=
      hstate.resolve_left fun hunsized => hcount hunsized.1.count
    refine iff_of_false ?_ hcount
    rintro ⟨result, after, hcall, -, hexact⟩
    obtain ⟨result', after', hcall', hsame, -⟩ := hholds.clear hcount returnElements
    obtain ⟨-, rfl⟩ := Prod.mk.inj (Except.ok.inj (hcall.symm.trans hcall'))
    exact hcount (hsame.symm.trans hexact.count)

theorem Counted.callExact_iff (hstate : Counted definition state) {operation : HashOperation}
    (hadmissible : operation.Admissible state.elements) :
    CallExact definition autoExpand checkDuplicates state operation ↔
      CallFits autoExpand state.table operation := by
  cases operation with
  | insert allocation value =>
      exact hstate.callExact_insert hadmissible.1 hadmissible.2.1 hadmissible.2.2
  | remove allocation value => exact hstate.callExact_remove allocation value
  | clear returnElements => exact hstate.callExact_clear returnElements

/-! ## Runs -/

theorem FittingCall.counted
    (hcall : FittingCall definition autoExpand checkDuplicates state state')
    (hstate : Counted definition state) : Counted definition state' := by
  obtain ⟨operation, hadmissible, hfits, hcall⟩ := hcall
  cases hcall with
  | insert hcall =>
      obtain ⟨done, after, hcall', hafter⟩ :=
        hstate.insertChecked hadmissible.1 hadmissible.2.1 hadmissible.2.2 hfits
      obtain ⟨rfl, rfl⟩ := Prod.mk.inj (Except.ok.inj (hcall'.symm.trans hcall))
      exact hafter
  | @remove table after elements allocation value found hcall =>
      rcases hstate with ⟨hunsized, -⟩ | hholds
      · exact absurd hunsized.storage hfits
      · obtain ⟨after', hcall', hafter, -⟩ :=
          hholds.removeChecked autoExpand checkDuplicates allocation value
        obtain ⟨rfl, rfl⟩ := Prod.mk.inj (Except.ok.inj (hcall'.symm.trans hcall))
        right
        by_cases hmem : value ∈ elements
        · simpa only [hmem, decide_true, if_true] using hafter
        · rw [Finset.erase_eq_of_notMem hmem] at hafter
          simpa only [hmem, decide_false, Bool.false_eq_true, if_false] using hafter
  | @clear table after elements returnElements result hcall =>
      have hzero : table.curItemCount = 0 := hfits
      rw [BHashTable.clear, if_pos hzero] at hcall
      obtain ⟨-, rfl⟩ := Prod.mk.inj (Except.ok.inj hcall)
      have hempty := hstate.elements_eq hfits
      simp only at hempty
      rwa [hempty] at hstate

theorem counted_of_run {links : ℕ → ℕ}
    (hrun : Relation.ReflTransGen (FittingCall definition autoExpand checkDuplicates)
      ⟨.new links, ∅⟩ state) : Counted definition state := by
  induction hrun with
  | refl => exact Or.inl ⟨⟨rfl, rfl, rfl⟩, rfl⟩
  | tail _ hcall ih => exact hcall.counted ih

/-- In a run of calls that fit the count is exact, and the next call is right exactly if
it fits as well. -/
theorem countsExactly_of_run {links : ℕ → ℕ}
    (hrun : Relation.ReflTransGen (FittingCall definition autoExpand checkDuplicates)
      ⟨.new links, ∅⟩ state) :
    CountsExactly state.table state.elements ∧
      ∀ operation : HashOperation, operation.Admissible state.elements →
        (CallExact definition autoExpand checkDuplicates state operation ↔
          CallFits autoExpand state.table operation) :=
  ⟨(counted_of_run hrun).countsExactly,
    fun _ hadmissible => (counted_of_run hrun).callExact_iff hadmissible⟩

/-- Any call on a table, whether or not it fits. -/
def AnyCall (definition : HashTableDefinition Key) (autoExpand checkDuplicates : Bool)
    (state state' : CountState) : Prop :=
  ∃ operation : HashOperation, operation.Admissible state.elements ∧
    CountCall definition autoExpand checkDuplicates operation state state'

/-- A first element, in a table that checks for duplicates. -/
theorem firstInsert : ∃ first,
    (BHashTable.new fun _ => 0).insertChecked addressDefinition true true (some fun _ => 0) 8 =
        .ok (true, first) ∧ Holds addressDefinition first {8} :=
  ((Unsized.mk rfl rfl rfl : Unsized (.new fun _ => 0)).insertChecked addressDefinition true true
    (by decide : 8 ≠ 0) (by decide)).2 fun _ => 0

/-- Two elements of one bucket are inserted, and the first is removed again. -/
theorem countsExactly_of_run_oneBucket :
    ∃ state, state.elements = {16} ∧ CountsExactly state.table state.elements ∧
      ∀ operation : HashOperation, operation.Admissible state.elements →
        (CallExact addressDefinition true true state operation ↔
          CallFits true state.table operation) := by
  obtain ⟨first, hinsert, hfirst⟩ := firstInsert
  obtain ⟨second, hinsert', hsecond⟩ := @Holds.insertChecked _ addressDefinition first {8}
    16 true true none hfirst (by decide) (by decide) (by decide) fun _ _ => rfl
  obtain ⟨third, hremove, -, -⟩ := hsecond.removeChecked true true none 8
  have harray : second.storage ≠ none := by
    obtain ⟨storage, hstorage, -⟩ := hsecond.stores
    rw [hstorage]
    exact Option.some_ne_none storage
  have hfirstCall : FittingCall addressDefinition true true ⟨.new fun _ => 0, ∅⟩ ⟨first, {8}⟩ :=
    ⟨.insert (some fun _ => 0) 8, ⟨by decide, by decide, by decide⟩,
      fun hgrows => absurd hgrows.2.1 (by decide), .insert hinsert⟩
  have hsecondCall : FittingCall addressDefinition true true ⟨first, {8}⟩ ⟨second, {16, 8}⟩ :=
    ⟨.insert none 16, ⟨by decide, by decide, (by decide : 16 ∉ ({8} : Finset ℕ))⟩,
      fun hgrows => absurd hgrows.2.2 (by decide), .insert hinsert'⟩
  have hthirdCall : FittingCall addressDefinition true true ⟨second, {16, 8}⟩ ⟨third, {16}⟩ :=
    ⟨.remove none 8, trivial, harray, .remove hremove⟩
  exact ⟨⟨third, {16}⟩, rfl, countsExactly_of_run
    ((Relation.ReflTransGen.single hfirstCall).tail hsecondCall |>.tail hthirdCall)⟩

/-- The element is cleared, and still counted. -/
theorem clear_not_exact :
    ¬ ∀ (state : CountState) (operation : HashOperation),
      Relation.ReflTransGen (AnyCall addressDefinition true true) ⟨.new fun _ => 0, ∅⟩ state →
        operation.Admissible state.elements →
          CallExact addressDefinition true true state operation := by
  intro hall
  obtain ⟨first, hinsert, hfirst⟩ := firstInsert
  have hcall : AnyCall addressDefinition true true ⟨.new fun _ => 0, ∅⟩ ⟨first, {8}⟩ :=
    ⟨.insert (some fun _ => 0) 8, ⟨by decide, by decide, by decide⟩, .insert hinsert⟩
  have hexact := hall ⟨first, {8}⟩ (.clear true) (.single hcall) trivial
  have hstate : Counted addressDefinition ⟨first, {8}⟩ := Or.inr hfirst
  have hzero : first.curItemCount = 0 := (hstate.callExact_clear true).mp hexact
  rw [hfirst.count, Finset.card_singleton] at hzero
  cases hzero

end GeexOS.DataStructures
