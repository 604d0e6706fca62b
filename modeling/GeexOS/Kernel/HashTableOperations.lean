import GeexOS.Kernel.HashTableOrder
import Mathlib.Data.Finset.Card

/-!
# What the operations of the hash table do to its elements

The users of a table that compare keys without duplicates see a set: the order
inside the chains does not matter to them.
-/

namespace GeexOS.DataStructures

open GeexOS.Words
open GeexOS.Halting
open GeexOS.Linked
open GeexOS.Buckets

variable {Key : Type} {definition : HashTableDefinition Key}
variable {table : BHashTable} {elements : Finset ℕ} {order : List ℕ} {newStorage : Buffer}
variable {size fuel value count k : ℕ}

/-- The table has an array, and its chains hold the elements. -/
structure Holds (definition : HashTableDefinition Key) (table : BHashTable)
    (elements : Finset ℕ) : Prop where
  stores : ∃ storage, table.storage = some storage ∧ 4 * table.curTableSize ≤ storage.bytes ∧
    Stores table.links 0 storage.cells table.curTableSize
      (indexIn definition table.curTableSize) elements
  size : ∃ k, 3 ≤ k ∧ k ≤ 29 ∧ table.curTableSize = 2 ^ k
  count : table.curItemCount = elements.card
  lt : ∀ value ∈ elements, value < 2 ^ 32

variable {table table' : BHashTable} {autoExpand : Bool} {allocation : Option (ℕ → ℕ)}
variable {contents : ℕ → ℕ} {bytes : ℕ}

theorem Arranged.holds (htable : Arranged definition table order)
    (hcount : table.curItemCount = order.length) : Holds definition table order.toFinset where
  stores := by
    obtain ⟨storage, hstorage, hroom, hlists⟩ := htable.lists
    exact ⟨storage, hstorage, hroom, hlists.stores⟩
  size := htable.size
  count := hcount.trans (List.toFinset_card_of_nodup htable.nodup).symm
  lt := fun value hmem => htable.lt value (List.mem_toFinset.mp hmem)

theorem Holds.exists_arranged (htable : Holds definition table elements) :
    ∃ order : List ℕ, order.toFinset = elements ∧ table.curItemCount = order.length ∧
      Arranged definition table order := by
  obtain ⟨storage, hstorage, hroom, hstores⟩ := htable.stores
  obtain ⟨order, rfl, hlists⟩ := hstores.exists_lists
  refine ⟨order, rfl, ?_, ⟨storage, hstorage, hroom, hlists⟩, htable.size, fun value hmem => ?_⟩
  · rw [htable.count, List.toFinset_card_of_nodup hlists.nodup]
  · exact htable.lt value (List.mem_toFinset.mpr hmem)

theorem Holds.resizeTo (htable : Holds definition table elements) (hlow : 3 ≤ k)
    (hhigh : k ≤ 29) (hbytes : 4 * 2 ^ k ≤ newStorage.bytes) :
    ∃ table', table.resizeTo definition newStorage (2 ^ k) = .ok table' ∧
      Holds definition table' elements ∧ table'.curTableSize = 2 ^ k := by
  obtain ⟨order, rfl, hcount, harranged⟩ := htable.exists_arranged
  obtain ⟨table', hresize, hsize, hcount', htable'⟩ :=
    harranged.resizeTo hlow hhigh hbytes
  have hperm := harranged.rearranged_perm order
  refine ⟨table', hresize, ?_, hsize⟩
  rw [← List.toFinset_eq_of_perm _ _ hperm]
  exact htable'.holds (hcount'.trans (hcount.trans hperm.length_eq.symm))

theorem Unsized.resizeTo_holds (htable : Unsized table) (definition : HashTableDefinition Key)
    (hlow : 3 ≤ k) (hhigh : k ≤ 29) (hbytes : 4 * 2 ^ k ≤ newStorage.bytes) :
    ∃ table', table.resizeTo definition newStorage (2 ^ k) = .ok table' ∧
      Holds definition table' ∅ ∧ table'.curTableSize = 2 ^ k := by
  obtain ⟨table', hresize, hsize, hcount, htable'⟩ :=
    htable.resizeTo definition hlow hhigh hbytes
  exact ⟨table', hresize, htable'.holds hcount, hsize⟩

/-- `Insert` adds the value, unless it gets a block for an array of `2^30`
pointers, whose size in bytes is 0. -/
theorem Holds.insert (htable : Holds definition table elements) (hvalue : value ≠ 0)
    (hlt : value < 2 ^ 32) (hnew : value ∉ elements)
    (hfits : autoExpand = true → table.curTableSize = 2 ^ 29 → allocation = none) :
    ∃ table', table.insert definition autoExpand allocation value = .ok (true, table') ∧
      Holds definition table' (insert value elements) := by
  obtain ⟨order, rfl, hcount, harranged⟩ := htable.exists_arranged
  rw [List.mem_toFinset] at hnew
  obtain ⟨table', hinsert, _, hcount', htable'⟩ := harranged.insert hvalue hlt hnew hfits
  have hperm : (value :: if autoExpand = true ∧ table.Grows ∧ allocation.isSome then
      rearranged definition table.curTableSize order else order).Perm (value :: order) := by
    refine List.Perm.cons value ?_
    split
    · exact harranged.rearranged_perm order
    · exact List.Perm.refl order
  have hlength := hperm.length_eq ▸ htable'.length_lt
  refine ⟨table', hinsert, ?_⟩
  rw [← List.toFinset_cons, ← List.toFinset_eq_of_perm _ _ hperm]
  refine htable'.holds ?_
  rw [hcount', hcount, hperm.length_eq]
  exact u32_of_lt hlength

/-- The exception: the array is cleared behind the end of its block. -/
theorem tryResize_fault (definition : HashTableDefinition Key) (contents : ℕ → ℕ) :
    table.tryResize definition (some contents) (2 ^ 30) = .error .fault := by
  have hclear : (Buffer.mk contents 0).clear (2 ^ 30) = .error .fault :=
    Buffer.clear_of_lt (Nat.mul_pos (by decide) (Nat.two_pow_pos 30))
  have hempty : u32 (4 * 2 ^ 30) = 0 := rfl
  simp only [BHashTable.tryResize, hempty, BHashTable.resizeTo, hclear, error_bind]

/-- The size is doubled, whatever the number of elements. -/
theorem doubles_of_eq (hsize : table.curTableSize = 2 ^ 29) :
    table.curTableSize ≠ 0 ∧ u32 (table.curTableSize * 200) / 256 ≤ table.curItemCount ∧
      u32 (table.curTableSize * 2) = 2 ^ 30 := by
  rw [hsize]
  exact ⟨by decide, Nat.zero_le _, rfl⟩

theorem insert_fault (hsize : table.curTableSize = 2 ^ 29) (contents : ℕ → ℕ) :
    table.insert definition true (some contents) value = .error .fault := by
  obtain ⟨hpos, hexpand, hdouble⟩ := doubles_of_eq hsize
  simp only [BHashTable.insert, if_neg hpos, hexpand, and_self, if_true, hdouble,
    tryResize_fault, error_bind]

theorem makeRoom_fault (hsize : table.curTableSize = 2 ^ 29) (contents : ℕ → ℕ) :
    table.makeRoom definition true (some contents) = .error .fault := by
  obtain ⟨hpos, hexpand, hdouble⟩ := doubles_of_eq hsize
  simp only [BHashTable.makeRoom, if_neg hpos, hexpand, and_self, if_true, hdouble,
    tryResize_fault, error_bind]

/-- The first `Insert` needs memory for the array. -/
theorem Unsized.insert (htable : Unsized table) (definition : HashTableDefinition Key)
    (autoExpand : Bool) (hvalue : value ≠ 0) (hlt : value < 2 ^ 32) :
    table.insert definition autoExpand none value = .ok (false, table) ∧
      ∀ contents, ∃ table',
        table.insert definition autoExpand (some contents) value = .ok (true, table') ∧
          Holds definition table' {value} := by
  refine ⟨by rw [BHashTable.insert, if_pos htable.size]; rfl, fun contents => ?_⟩
  obtain ⟨table', hinsert, _, hcount, htable'⟩ :=
    htable.insertArranged definition autoExpand hvalue hlt contents
  exact ⟨table', hinsert, htable'.holds hcount⟩

/-- `Lookup` finds an element with the key if there is one. -/
theorem Holds.lookup (htable : Holds definition table elements) (key : Key) :
    ∃ slot, table.lookup definition key = .ok slot ∧
      (slot ≠ 0 ↔ ∃ value ∈ elements, definition.compare key value = true) ∧
      (slot ≠ 0 → slot ∈ elements ∧ definition.compare key slot = true) := by
  obtain ⟨order, rfl, _, harranged⟩ := htable.exists_arranged
  refine ⟨_, harranged.lookup key, ?_⟩
  simp only [List.mem_toFinset]
  cases hfind : order.find? (definition.compare key) with
  | none =>
      refine ⟨iff_of_false (fun hne => hne rfl) ?_, fun hne => absurd rfl hne⟩
      rintro ⟨value, hmem, hcompare⟩
      exact List.find?_eq_none.mp hfind value hmem hcompare
  | some slot =>
      have hmem := List.mem_of_find?_eq_some hfind
      have hcompare := List.find?_some hfind
      have hne : slot ≠ 0 := harranged.ne_zero hmem
      exact ⟨iff_of_true hne ⟨slot, hmem, hcompare⟩, fun _ => ⟨hmem, hcompare⟩⟩

/-- `Remove` takes the value out if it is there. -/
theorem Holds.remove (htable : Holds definition table elements) (autoExpand : Bool)
    (allocation : Option (ℕ → ℕ)) (value : ℕ) :
    ∃ table', table.remove definition autoExpand allocation value =
        .ok (decide (value ∈ elements), table') ∧
      Holds definition table' (elements.erase value) := by
  obtain ⟨order, rfl, hcount, harranged⟩ := htable.exists_arranged
  have hrest : (order.erase value).toFinset = order.toFinset.erase value := by
    ext other
    rw [List.mem_toFinset, Finset.mem_erase, List.mem_toFinset, harranged.nodup.mem_erase_iff]
  rw [← hrest, decide_eq_decide.mpr List.mem_toFinset]
  by_cases hmem : value ∈ order
  · obtain ⟨table', hremove, _, hcount', htable'⟩ :=
      harranged.remove_of_mem autoExpand allocation hmem
    have hperm : (if autoExpand = true ∧ table.Shrinks ∧ allocation.isSome then
        rearranged definition table.curTableSize (order.erase value)
        else order.erase value).Perm (order.erase value) := by
      split
      · exact harranged.rearranged_perm _
      · exact List.Perm.refl _
    have hlength : order.length = (order.erase value).length + 1 := by
      rw [List.length_erase_of_mem hmem]
      have hpos := List.length_pos_of_mem hmem
      omega
    rw [decide_eq_true hmem, ← List.toFinset_eq_of_perm _ _ hperm]
    refine ⟨table', hremove, htable'.holds ?_⟩
    rw [hcount', hcount, hperm.length_eq, sub32_of_le harranged.length_lt (by omega)]
    omega
  · obtain ⟨table', hremove, _, hcount', htable'⟩ :=
      harranged.remove_of_notMem autoExpand allocation hmem
    rw [decide_eq_false hmem, List.erase_of_not_mem hmem]
    exact ⟨table', hremove, htable'.holds (hcount'.trans hcount)⟩

/-! ## Changing the size -/

/-- No count is below the threshold of a multiple of `2^29`. -/
theorem growLoop_of_dvd (hsize : 2 ^ 29 ∣ size) :
    BHashTable.growLoop count fuel size = .error .diverges := by
  induction fuel generalizing size with
  | zero => rfl
  | succ fuel ih =>
      obtain ⟨factor, rfl⟩ := hsize
      have hzero : u32 (2 ^ 29 * factor * 200) / 256 = 0 := by
        simp only [u32]
        omega
      have hdouble : 2 ^ 29 ∣ u32 (2 ^ 29 * factor * 2) := by
        simp only [u32]
        omega
      rw [BHashTable.growLoop, hzero, if_pos (Nat.zero_le _)]
      exact ih hdouble

theorem growLoop_eq_ok {result : ℕ} (hk : k ≤ 29)
    (hloop : BHashTable.growLoop count fuel (2 ^ k) = .ok result) :
    ∃ j, k ≤ j ∧ j ≤ 28 ∧ result = 2 ^ j := by
  induction fuel generalizing k with
  | zero => cases hloop
  | succ fuel ih =>
      rcases Nat.lt_or_eq_of_le hk with hsmall | rfl
      · have hpow : 2 ^ (k + 1) ≤ 2 ^ 29 := Nat.pow_le_pow_right (by decide) hsmall
        have hdouble : u32 (2 ^ k * 2) = 2 ^ (k + 1) := by
          rw [← pow_succ]
          exact u32_of_lt (by omega)
        rw [BHashTable.growLoop, hdouble] at hloop
        split at hloop
        · obtain ⟨j, hlow, hhigh, hresult⟩ := ih hsmall hloop
          exact ⟨j, by omega, hhigh, hresult⟩
        · exact ⟨k, le_rfl, by omega, (Except.ok.inj hloop).symm⟩
      · rw [growLoop_of_dvd dvd_rfl] at hloop
        cases hloop

theorem shrinkLoop_le {result : ℕ} (hloop : BHashTable.shrinkLoop count fuel size = .ok result) :
    result ≤ size := by
  induction fuel generalizing size with
  | zero => cases hloop
  | succ fuel ih =>
      rw [BHashTable.shrinkLoop] at hloop
      split at hloop
      · exact (ih hloop).trans (Nat.div_le_self size 2)
      · exact (Except.ok.inj hloop).ge

theorem shrinkLoop_eq_ok {result : ℕ}
    (hloop : BHashTable.shrinkLoop count fuel (2 ^ k) = .ok result) :
    result < kMinimumSize ∨ ∃ j, 3 ≤ j ∧ j ≤ k ∧ result = 2 ^ j := by
  induction fuel generalizing k with
  | zero => cases hloop
  | succ fuel ih =>
      rcases Nat.lt_or_ge k 3 with hsmall | hlarge
      · have hpow : 2 ^ k ≤ 2 ^ 2 := Nat.pow_le_pow_right (by decide) (by omega)
        exact Or.inl ((shrinkLoop_le hloop).trans_lt (by simp only [kMinimumSize]; omega))
      · rw [BHashTable.shrinkLoop] at hloop
        split at hloop
        · have hhalf : 2 ^ k / 2 = 2 ^ (k - 1) := by
            rw [← Nat.pow_div (by omega) (by decide), pow_one]
          rw [hhalf] at hloop
          rcases ih hloop with hless | ⟨j, hlow, hhigh, hresult⟩
          · exact Or.inl hless
          · exact Or.inr ⟨j, hlow, by omega, hresult⟩
        · exact Or.inr ⟨k, hlarge, le_rfl, (Except.ok.inj hloop).symm⟩

/-- A size a table may have, or none. -/
def SizeOk (size : ℕ) : Prop := size = 0 ∨ ∃ k, 3 ≤ k ∧ k ≤ 29 ∧ size = 2 ^ k

theorem neededSize_eq_ok (hsize : SizeOk table.curTableSize) {needed : ℕ}
    (hneeded : table.neededSize = .ok needed) :
    needed = table.curTableSize ∨ ∃ j, 3 ≤ j ∧ j ≤ 29 ∧ needed = 2 ^ j := by
  simp only [BHashTable.neededSize] at hneeded
  split at hneeded
  · have hstart : ∃ k, 3 ≤ k ∧ k ≤ 29 ∧
        (if table.curTableSize = 0 then kMinimumSize else table.curTableSize) = 2 ^ k := by
      rcases hsize with hzero | ⟨k, hlow, hhigh, hsize⟩
      · exact ⟨3, le_rfl, by decide, if_pos hzero⟩
      · refine ⟨k, hlow, hhigh, ?_⟩
        rw [if_neg (hsize ▸ (Nat.two_pow_pos k).ne'), hsize]
    obtain ⟨k, hlow, hhigh, hstart⟩ := hstart
    rw [hstart] at hneeded
    obtain ⟨j, hj, hj', rfl⟩ := growLoop_eq_ok hhigh hneeded
    exact Or.inr ⟨j, hlow.trans hj, by omega, rfl⟩
  · rename_i hgrow
    obtain ⟨k, hlow, hhigh, hsize⟩ := hsize.resolve_left fun hzero => hgrow (Or.inl hzero)
    split at hneeded
    · obtain ⟨shrunk, hshrink, hlast⟩ := bind_eq_ok.mp hneeded
      rw [hsize] at hshrink
      rw [Except.ok.injEq] at hlast
      subst hlast
      rcases shrinkLoop_eq_ok hshrink with hless | ⟨j, hj, hj', rfl⟩
      · exact Or.inr ⟨3, le_rfl, by decide, if_pos hless⟩
      · have hlarge : 2 ^ 3 ≤ 2 ^ j := Nat.pow_le_pow_right (by decide) hj
        exact Or.inr ⟨j, hj, hj'.trans hhigh, if_neg (Nat.not_lt.mpr hlarge)⟩
    · exact Or.inl (Except.ok.inj hneeded).symm

/-- The sizes that `ResizeNeeded` asks for are those of tables. -/
theorem resizeNeeded_eq_ok (hsize : SizeOk table.curTableSize)
    (hneeded : table.resizeNeeded = .ok bytes) (hbytes : bytes ≠ 0) :
    ∃ j, 3 ≤ j ∧ j ≤ 29 ∧ bytes = 4 * 2 ^ j := by
  obtain ⟨needed, hloops, hlast⟩ := bind_eq_ok.mp hneeded
  split at hlast
  · exact absurd (Except.ok.inj hlast).symm hbytes
  · rename_i hother
    obtain ⟨j, hlow, hhigh, rfl⟩ := (neededSize_eq_ok hsize hloops).resolve_left hother
    have hpow : 2 ^ j ≤ 2 ^ 29 := Nat.pow_le_pow_right (by decide) hhigh
    refine ⟨j, hlow, hhigh, (Except.ok.inj hlast).symm.trans ?_⟩
    rw [Nat.mul_comm]
    exact u32_of_lt (by omega)

/-- `Resize` with the size that `ResizeNeeded` asks for. -/
theorem Holds.resize (htable : Holds definition table elements)
    (hneeded : table.resizeNeeded = .ok bytes) (hbytes : bytes ≠ 0) (contents : ℕ → ℕ)
    (force : Bool) :
    ∃ table', table.resize definition contents bytes force = .ok (true, table') ∧
      Holds definition table' elements := by
  obtain ⟨j, hlow, hhigh, rfl⟩ := resizeNeeded_eq_ok (Or.inr htable.size) hneeded hbytes
  obtain ⟨table', hresize, htable', _⟩ := htable.resizeTo hlow hhigh
    (Nat.le_refl (Buffer.mk contents (4 * 2 ^ j)).bytes)
  refine ⟨table', ?_, htable'⟩
  rw [BHashTable.resize, Nat.mul_div_cancel_left _ (by decide), hresize]
  cases force with
  | true => rfl
  | false => simp [hneeded]

theorem Unsized.resize (htable : Unsized table) (definition : HashTableDefinition Key)
    (hneeded : table.resizeNeeded = .ok bytes) (hbytes : bytes ≠ 0) (contents : ℕ → ℕ)
    (force : Bool) :
    ∃ table', table.resize definition contents bytes force = .ok (true, table') ∧
      Holds definition table' ∅ := by
  obtain ⟨j, hlow, hhigh, rfl⟩ := resizeNeeded_eq_ok (Or.inl htable.size) hneeded hbytes
  obtain ⟨table', hresize, htable', _⟩ := htable.resizeTo_holds definition hlow hhigh
    (Nat.le_refl (Buffer.mk contents (4 * 2 ^ j)).bytes)
  refine ⟨table', ?_, htable'⟩
  rw [BHashTable.resize, Nat.mul_div_cancel_left _ (by decide), hresize]
  cases force with
  | true => rfl
  | false => simp [hneeded]

end GeexOS.DataStructures
