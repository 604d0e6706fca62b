import GeexOS.Kernel.Dictionary
import GeexOS.Kernel.HashTableOperations

/-!
# `Clear`, and the check for duplicates

`Clear` links the chains of all buckets into one and empties the array.  With
`CheckDuplicates` the mutators search the whole table for their value.
-/

namespace GeexOS.DataStructures

open GeexOS.Words
open GeexOS.Halting
open GeexOS.Linked
open GeexOS.Buckets

namespace BHashTable

variable {Key : Type} (definition : HashTableDefinition Key)

/-- The inner loop of `_ExhaustiveSearch`. -/
def searchChain (value : ℕ) (links : ℕ → ℕ) : (fuel bucket : ℕ) → Outcome Bool
  | 0, _ => .error .diverges
  | fuel + 1, bucket =>
      if bucket = 0 then .ok false
      else if bucket = value then .ok true
      else searchChain value links fuel (links bucket)

/-- The outer loop, over the buckets from `i` on. -/
def searchBuckets (table : BHashTable) (value : ℕ) : (remaining i : ℕ) → Outcome Bool
  | 0, _ => .ok false
  | remaining + 1, i => do
      let bucket ← table.readStorage i
      let found ← searchChain value table.links addresses bucket
      if found then .ok true else searchBuckets table value remaining (i + 1)

def exhaustiveSearch (table : BHashTable) (value : ℕ) : Outcome Bool :=
  table.searchBuckets value table.curTableSize 0

/-- `if(CheckDuplicates && _ExhaustiveSearch(value)) PANIC(message)`. -/
def checkDuplicate (checkDuplicates : Bool) (message : String) (table : BHashTable)
    (value : ℕ) : Outcome Unit :=
  if checkDuplicates then do
    let found ← table.exhaustiveSearch value
    if found then .error (.panic message) else .ok ()
  else .ok ()

/-- `Insert` with its check. -/
def insertChecked (autoExpand checkDuplicates : Bool) (allocation : Option (ℕ → ℕ))
    (table : BHashTable) (value : ℕ) : Outcome (Bool × BHashTable) := do
  let (ready, table) ← table.makeRoom definition autoExpand allocation
  if ready then do
    table.checkDuplicate checkDuplicates "Value to insert in HashTable already exists" value
    let table ← table.insertLast definition value
    .ok (true, table)
  else .ok (false, table)

/-- `Remove` with its check. -/
def removeChecked (autoExpand checkDuplicates : Bool) (allocation : Option (ℕ → ℕ))
    (table : BHashTable) (value : ℕ) : Outcome (Bool × BHashTable) := do
  let index := bucketOf (definition.hash value) table.curTableSize
  let slot ← table.readStorage index
  let (found, table) ← removeLoop value index addresses 0 slot table
  if !found then .ok (false, table)
  else do
    table.checkDuplicate checkDuplicates
      "Value to be removed from HashTable still exists a second time in this table" value
    let table := { table with curItemCount := sub32 table.curItemCount 1 }
    if autoExpand ∧ kMinimumSize < table.curTableSize ∧
        table.curItemCount < u32 (table.curTableSize * 50) / 256 then do
      let (_, table) ← table.tryResize definition allocation (table.curTableSize / 2)
      .ok (true, table)
    else .ok (true, table)

end BHashTable

variable {Key : Type} {definition : HashTableDefinition Key} {table table' : BHashTable}
variable {elements : Finset ℕ} {order cells : List ℕ} {links : ℕ → ℕ} {storage : Buffer}
variable {value bucket fuel size count result : ℕ}
variable {autoExpand checkDuplicates : Bool} {allocation : Option (ℕ → ℕ)}

/-! ## The search -/

theorem searchChain_of_chain (hchain : Chain links 0 bucket cells) (hfuel : cells.length < fuel) :
    BHashTable.searchChain value links fuel bucket = .ok (decide (value ∈ cells)) := by
  induction cells generalizing bucket fuel with
  | nil =>
      obtain ⟨fuel, rfl⟩ := Nat.exists_eq_succ_of_ne_zero (Nat.ne_zero_of_lt hfuel)
      exact if_pos (chain_nil.mp hchain)
  | cons cell rest ih =>
      obtain ⟨fuel, rfl⟩ := Nat.exists_eq_succ_of_ne_zero (Nat.ne_zero_of_lt hfuel)
      obtain ⟨rfl, hcell, hrest⟩ := chain_cons.mp hchain
      rw [BHashTable.searchChain, if_neg hcell]
      by_cases hfound : bucket = value
      · rw [if_pos hfound, hfound, decide_eq_true List.mem_cons_self]
      · have hmem : value ∈ bucket :: rest ↔ value ∈ rest :=
          List.mem_cons.trans (or_iff_right (Ne.symm hfound))
        rw [if_neg hfound, ih hrest (Nat.lt_of_succ_lt_succ hfuel), decide_eq_decide.mpr hmem]

theorem searchBuckets_of_notMem {remaining i : ℕ} (htable : Arranged definition table order)
    (hi : i + remaining ≤ table.curTableSize) (hvalue : value ∉ order) :
    table.searchBuckets value remaining i = .ok false := by
  obtain ⟨storage, hstorage, hroom, hlists⟩ := htable.lists
  induction remaining generalizing i with
  | zero => rfl
  | succ remaining ih =>
      have hbucket : i < table.curTableSize := by omega
      have hread : table.readStorage i = .ok (storage.cells i) := by
        rw [BHashTable.readStorage, hstorage]
        exact Buffer.read_of_lt hroom hbucket
      have hchain := hlists.chain i hbucket
      have hlength := length_lt_addresses hchain fun cell hmem =>
        htable.lt cell (List.mem_filter.mp hmem).1
      have hfar : value ∉ order.filter fun cell =>
          indexIn definition table.curTableSize cell = i :=
        fun hmem => hvalue (List.mem_filter.mp hmem).1
      rw [BHashTable.searchBuckets, hread, ok_bind, searchChain_of_chain hchain hlength,
        decide_eq_false hfar, ok_bind]
      exact ih (by omega)

/-- A value that is not in the table passes the check. -/
theorem Arranged.checkDuplicate (htable : Arranged definition table order) (hvalue : value ∉ order)
    (checkDuplicates : Bool) (message : String) :
    table.checkDuplicate checkDuplicates message value = .ok () := by
  cases checkDuplicates with
  | false => rfl
  | true =>
      rw [BHashTable.checkDuplicate, if_pos rfl, BHashTable.exhaustiveSearch,
        searchBuckets_of_notMem htable (by omega) hvalue]
      rfl

theorem insertChecked_of_makeRoom {middle : BHashTable}
    (hroom : table.makeRoom definition autoExpand allocation = .ok (true, middle))
    (hmiddle : Arranged definition middle order) (hnew : value ∉ order)
    (hinsert : middle.insertLast definition value = .ok table') :
    table.insertChecked definition autoExpand checkDuplicates allocation value =
      .ok (true, table') := by
  rw [BHashTable.insertChecked, hroom, ok_bind]
  simp only [if_true, hmiddle.checkDuplicate hnew, ok_bind, hinsert]

/-- For values that are not stored the check makes no difference. -/
theorem Holds.insertChecked (htable : Holds definition table elements) (hvalue : value ≠ 0)
    (hlt : value < 2 ^ 32) (hnew : value ∉ elements)
    (hfits : autoExpand = true → table.curTableSize = 2 ^ 29 → allocation = none) :
    ∃ table', table.insertChecked definition autoExpand checkDuplicates allocation value =
        .ok (true, table') ∧ Holds definition table' (Insert.insert value elements) := by
  obtain ⟨order, rfl, _, harranged⟩ := htable.exists_arranged
  obtain ⟨middle, hmiddle, -, -, hmiddle'⟩ := harranged.makeRoom hfits
  have hperm : (if autoExpand = true ∧ table.Grows ∧ allocation.isSome then
      rearranged definition table.curTableSize order else order).Perm order := by
    split
    · exact harranged.rearranged_perm order
    · exact List.Perm.refl order
  have hnew' := hperm.mem_iff.not.mpr (List.mem_toFinset.not.mp hnew)
  obtain ⟨last, hlast, -⟩ := hmiddle'.insertLast hvalue hlt hnew'
  obtain ⟨table', hinsert, htable'⟩ := htable.insert hvalue hlt hnew hfits
  have hsame := (insert_of_makeRoom hmiddle hlast).symm.trans hinsert
  exact ⟨table', (insertChecked_of_makeRoom hmiddle hmiddle' hnew' hlast).trans hsame, htable'⟩

theorem Unsized.insertChecked (htable : Unsized table) (definition : HashTableDefinition Key)
    (autoExpand checkDuplicates : Bool) (hvalue : value ≠ 0) (hlt : value < 2 ^ 32) :
    table.insertChecked definition autoExpand checkDuplicates none value = .ok (false, table) ∧
      ∀ contents, ∃ table',
        table.insertChecked definition autoExpand checkDuplicates (some contents) value =
          .ok (true, table') ∧ Holds definition table' {value} := by
  refine ⟨?_, fun contents => ?_⟩
  · rw [BHashTable.insertChecked, BHashTable.makeRoom, if_pos htable.size]
    rfl
  · obtain ⟨middle, hmiddle, -, -, hmiddle'⟩ := htable.makeRoom definition autoExpand contents
    obtain ⟨last, hlast, -⟩ := hmiddle'.insertLast hvalue hlt List.not_mem_nil
    obtain ⟨table', hinsert, htable'⟩ :=
      (htable.insert definition autoExpand hvalue hlt).2 contents
    have hsame := (insert_of_makeRoom hmiddle hlast).symm.trans hinsert
    exact ⟨table', (insertChecked_of_makeRoom hmiddle hmiddle' List.not_mem_nil hlast).trans hsame,
      htable'⟩

/-- The loop of `Remove` changes nothing if it does not find the value. -/
theorem removeLoop_eq_self {index previous slot : ℕ}
    (hcall : BHashTable.removeLoop value index fuel previous slot table = .ok (false, table')) :
    table' = table := by
  induction fuel generalizing previous slot with
  | zero => cases hcall
  | succ fuel ih =>
      rw [BHashTable.removeLoop] at hcall
      split at hcall
      · exact (Prod.mk.inj (Except.ok.inj hcall)).2.symm
      split at hcall
      · split at hcall
        · exact absurd (Prod.mk.inj (Except.ok.inj hcall)).1 (by decide)
        · obtain ⟨_, _, hlast⟩ := bind_eq_ok.mp hcall
          exact absurd (Prod.mk.inj (Except.ok.inj hlast)).1 (by decide)
      · exact ih hcall

/-- Without the value the search after the loop of `Remove` finds nothing. -/
theorem Arranged.removeChecked (htable : Arranged definition table order)
    (autoExpand checkDuplicates : Bool) (allocation : Option (ℕ → ℕ)) (value : ℕ) :
    table.removeChecked definition autoExpand checkDuplicates allocation value =
        table.remove definition autoExpand allocation value ∧
      (value ∉ order → table.remove definition autoExpand allocation value =
        .ok (false, table)) := by
  obtain ⟨size, count, tableStorage, links⟩ := table
  obtain ⟨storage, hstorage, hroom, hlists⟩ := htable.lists
  simp only at hstorage hroom hlists
  subst hstorage
  have hread := Buffer.read_of_lt hroom (hlists.index_lt value)
  obtain ⟨storage', links', hloop, hremoved⟩ := htable.removeLoop value
  have hcheck := hremoved.checkDuplicate (htable.nodup.not_mem_erase) checkDuplicates
    "Value to be removed from HashTable still exists a second time in this table"
  rw [indexIn] at hread hloop
  simp only [BHashTable.removeChecked, BHashTable.remove, BHashTable.readStorage, hread, hloop,
    ok_bind, hcheck, true_and]
  intro hvalue
  rw [decide_eq_false hvalue] at hloop ⊢
  rw [removeLoop_eq_self hloop]
  rfl

/-- A value that is not stored is not found, and nothing changes. -/
theorem Holds.removeChecked (htable : Holds definition table elements)
    (autoExpand checkDuplicates : Bool) (allocation : Option (ℕ → ℕ)) (value : ℕ) :
    ∃ table', table.removeChecked definition autoExpand checkDuplicates allocation value =
        .ok (decide (value ∈ elements), table') ∧
      Holds definition table' (elements.erase value) ∧ (value ∉ elements → table' = table) := by
  obtain ⟨table', hremove, htable'⟩ := htable.remove autoExpand allocation value
  obtain ⟨order, rfl, _, harranged⟩ := htable.exists_arranged
  obtain ⟨hsame, hnone⟩ :=
    harranged.removeChecked autoExpand checkDuplicates allocation value
  refine ⟨table', hsame.trans hremove, htable', fun hvalue => ?_⟩
  have hself := hremove.symm.trans (hnone (List.mem_toFinset.not.mp hvalue))
  exact (Prod.mk.inj (Except.ok.inj hself)).2

/-! ## `Clear` -/

/-- All elements are returned in one chain, and the chains of the table are empty.  The
number of elements stays as it was. -/
theorem Holds.clear (htable : Holds definition table elements) (hcount : table.curItemCount ≠ 0)
    (returnElements : Bool) :
    ∃ result table', table.clear returnElements = .ok (result, table') ∧
      table'.curItemCount = table.curItemCount ∧
      Arranged definition table' [] ∧
      (returnElements = true → ∃ cells, Chain table'.links 0 result cells ∧
        ∀ value, value ∈ cells ↔ value ∈ elements) := by
  obtain ⟨order, rfl, -, harranged⟩ := htable.exists_arranged
  obtain ⟨result, table', hclear, hchain, -, hsame, hempty⟩ :=
    harranged.clear hcount returnElements
  refine ⟨result, table', hclear, hsame, hempty, fun hreturn => ⟨_, hchain hreturn, ?_⟩⟩
  intro value
  rw [List.mem_toFinset]
  exact (grouped_perm harranged.index_lt).mem_iff

end GeexOS.DataStructures
