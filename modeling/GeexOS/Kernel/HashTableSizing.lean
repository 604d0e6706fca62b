import GeexOS.Kernel.HashTableOperations
import Mathlib.Tactic.IntervalCases

/-!
# Tables that are resized on request

The slab allocator keeps its tables from expanding by themselves.  It asks
`ResizeNeeded` after every change and installs an array of the size it gets.
-/

namespace GeexOS.DataStructures

open GeexOS.Words
open GeexOS.Halting

variable {Key : Type} {definition definition' : HashTableDefinition Key}
variable {table table' : BHashTable} {elements : Finset ℕ} {value k count fuel : ℕ}

/-- Only the hashes of the elements matter. -/
theorem Holds.congr_definition (htable : Holds definition table elements)
    (hhash : ∀ value ∈ elements, definition'.hash value = definition.hash value) :
    Holds definition' table elements := by
  obtain ⟨order, rfl, hcount, harranged⟩ := htable.exists_arranged
  refine (harranged.congr_definition fun value hmem => ?_).holds hcount
  exact hhash value (List.mem_toFinset.mpr hmem)

/-! ## Sizes -/

theorem resizeTo_curTableSize {newStorage : Buffer} {newSize : ℕ}
    (hcall : table.resizeTo definition newStorage newSize = .ok table') :
    table'.curTableSize = newSize := by
  obtain ⟨cleared, _, hcall⟩ := bind_eq_ok.mp hcall
  cases hstorage : table.storage with
  | none =>
      simp only [hstorage, Except.ok.injEq] at hcall
      rw [← hcall]
  | some storage =>
      simp only [hstorage] at hcall
      obtain ⟨_, _, hlast⟩ := bind_eq_ok.mp hcall
      rw [← Except.ok.inj hlast]

theorem insertLast_curTableSize (hcall : table.insertLast definition value = .ok table') :
    table'.curTableSize = table.curTableSize := by
  rw [BHashTable.insertLast] at hcall
  cases hstorage : table.storage with
  | none => simp [hstorage] at hcall
  | some storage =>
      simp only [hstorage] at hcall
      obtain ⟨_, _, hlast⟩ := bind_eq_ok.mp hcall
      rw [← Except.ok.inj hlast]

theorem insert_curTableSize {allocation : Option (ℕ → ℕ)} {done : Bool}
    (hcall : table.insert definition false allocation value = .ok (done, table')) :
    table'.curTableSize = table.curTableSize ∨ table'.curTableSize = kMinimumSize := by
  have hlast : ∀ (ready : Bool) (middle : BHashTable),
      (if ready = true then do
        let table ← middle.insertLast definition value
        .ok (true, table)
      else .ok (false, middle) : Outcome (Bool × BHashTable)) = .ok (done, table') →
        table'.curTableSize = middle.curTableSize := by
    intro ready middle hcall
    cases ready with
    | false =>
        obtain ⟨_, rfl⟩ := Prod.mk.inj (Except.ok.inj hcall)
        rfl
    | true =>
        obtain ⟨after, hinsert, hlast⟩ := bind_eq_ok.mp hcall
        obtain ⟨_, rfl⟩ := Prod.mk.inj (Except.ok.inj hlast)
        exact insertLast_curTableSize hinsert
  simp only [BHashTable.insert] at hcall
  split at hcall
  · obtain ⟨⟨ready, middle⟩, hresize, hcall⟩ := bind_eq_ok.mp hcall
    rw [hlast ready middle hcall]
    cases allocation with
    | none =>
        obtain ⟨_, rfl⟩ := Prod.mk.inj (Except.ok.inj hresize)
        exact Or.inl rfl
    | some cells =>
        rw [BHashTable.tryResize] at hresize
        obtain ⟨after, hinstall, hlast⟩ := bind_eq_ok.mp hresize
        obtain ⟨_, rfl⟩ := Prod.mk.inj (Except.ok.inj hlast)
        exact Or.inr (resizeTo_curTableSize hinstall)
  · rw [if_neg (by simp), ok_bind] at hcall
    exact Or.inl (hlast true table hcall)

theorem removeLoop_curTableSize {index previous slot : ℕ} {found : Bool}
    (hcall : BHashTable.removeLoop value index fuel previous slot table = .ok (found, table')) :
    table'.curTableSize = table.curTableSize := by
  induction fuel generalizing previous slot with
  | zero => cases hcall
  | succ fuel ih =>
      rw [BHashTable.removeLoop] at hcall
      split at hcall
      · rw [(Prod.mk.inj (Except.ok.inj hcall)).2]
      split at hcall
      · split at hcall
        · rw [← (Prod.mk.inj (Except.ok.inj hcall)).2]
        · obtain ⟨after, hwrite, hlast⟩ := bind_eq_ok.mp hcall
          obtain ⟨_, rfl⟩ := Prod.mk.inj (Except.ok.inj hlast)
          rw [BHashTable.writeStorage] at hwrite
          split at hwrite
          · cases hwrite
          · obtain ⟨_, _, hlast⟩ := bind_eq_ok.mp hwrite
            rw [← Except.ok.inj hlast]
      · exact ih hcall

theorem remove_curTableSize {allocation : Option (ℕ → ℕ)} {found : Bool}
    (hcall : table.remove definition false allocation value = .ok (found, table')) :
    table'.curTableSize = table.curTableSize := by
  obtain ⟨slot, _, hcall⟩ := bind_eq_ok.mp hcall
  obtain ⟨⟨found', middle⟩, hloop, hcall⟩ := bind_eq_ok.mp hcall
  have hsize := removeLoop_curTableSize hloop
  cases found' with
  | false =>
      rw [← (Prod.mk.inj (Except.ok.inj hcall)).2]
      exact hsize
  | true =>
      simp at hcall
      rw [← hcall.2]
      exact hsize

/-! ## Termination -/

/-- No product with 200 vanishes on the way to `2^28`. -/
theorem lt_threshold (hlow : 21 ≤ k) (hhigh : k ≤ 28) : 2 ^ 20 < u32 (2 ^ k * 200) / 256 := by
  interval_cases k <;> decide

/-- With at most `2^20` elements the doubling ends. -/
theorem growLoop_returns (hcount : count ≤ 2 ^ 20) (hk : k ≤ 28) (hfuel : 21 - k < fuel) :
    ∃ j, k ≤ j ∧ j ≤ 28 ∧ BHashTable.growLoop count fuel (2 ^ k) = .ok (2 ^ j) := by
  induction fuel generalizing k with
  | zero => exact absurd hfuel (Nat.not_lt_zero _)
  | succ fuel ih =>
      rw [BHashTable.growLoop]
      by_cases hgrow : u32 (2 ^ k * 200) / 256 ≤ count
      · have hsmall : k < 21 := by
          by_contra hlow
          have hmore := lt_threshold (not_lt.mp hlow) hk
          omega
        have hpow : 2 ^ (k + 1) ≤ 2 ^ 21 := Nat.pow_le_pow_right (by decide) hsmall
        have hdouble : u32 (2 ^ k * 2) = 2 ^ (k + 1) := by
          rw [← pow_succ]
          exact u32_of_lt (by omega)
        rw [if_pos hgrow, hdouble]
        obtain ⟨j, hlow, hhigh, hresult⟩ := ih (show k + 1 ≤ 28 by omega) (by omega)
        exact ⟨j, by omega, hhigh, hresult⟩
      · exact ⟨k, le_rfl, hk, if_neg hgrow⟩

theorem shrinkLoop_returns (hk : k ≤ 28) (hfuel : k < fuel) :
    ∃ size, BHashTable.shrinkLoop count fuel (2 ^ k) = .ok size := by
  induction fuel generalizing k with
  | zero => exact absurd hfuel (Nat.not_lt_zero _)
  | succ fuel ih =>
      rw [BHashTable.shrinkLoop]
      split
      · rename_i hshrink
        obtain ⟨less, rfl⟩ : ∃ less, k = less + 1 := by
          apply Nat.exists_eq_succ_of_ne_zero
          rintro rfl
          exact absurd hshrink (Nat.not_lt_zero _)
        have hhalf : 2 ^ (less + 1) / 2 = 2 ^ less := by
          rw [pow_succ, Nat.mul_div_cancel _ (by decide)]
        rw [hhalf]
        exact ih (by omega) (by omega)
      · exact ⟨_, rfl⟩

/-- The table of a large cache. -/
structure Requested (definition : HashTableDefinition Key) (table : BHashTable)
    (elements : Finset ℕ) : Prop where
  content : (Unsized table ∧ elements = ∅) ∨ Holds definition table elements
  size : table.curTableSize = 0 ∨ ∃ k, 3 ≤ k ∧ k ≤ 28 ∧ table.curTableSize = 2 ^ k
  card_le : elements.card ≤ 2 ^ 20

theorem Requested.neededSize (htable : Requested definition table elements) :
    ∃ needed, table.neededSize = .ok needed ∧
      (needed = table.curTableSize ∨ ∃ j, 3 ≤ j ∧ j ≤ 28 ∧ needed = 2 ^ j) := by
  have hcount : table.curItemCount ≤ 2 ^ 20 := by
    rcases htable.content with ⟨hunsized, _⟩ | hholds
    · rw [hunsized.count]
      exact Nat.zero_le _
    · rw [hholds.count]
      exact htable.card_le
  simp only [BHashTable.neededSize]
  split
  · obtain ⟨k, hlow, hhigh, hstart⟩ : ∃ k, 3 ≤ k ∧ k ≤ 28 ∧
        (if table.curTableSize = 0 then kMinimumSize else table.curTableSize) = 2 ^ k := by
      rcases htable.size with hzero | ⟨k, hlow, hhigh, hsize⟩
      · exact ⟨3, le_rfl, by decide, if_pos hzero⟩
      · exact ⟨k, hlow, hhigh, by rw [if_neg (hsize ▸ (Nat.two_pow_pos k).ne'), hsize]⟩
    rw [hstart]
    obtain ⟨j, hj, hj', hloop⟩ := growLoop_returns hcount hhigh (show 21 - k < 33 by omega)
    exact ⟨_, hloop, Or.inr ⟨j, hlow.trans hj, hj', rfl⟩⟩
  · rename_i hgrow
    obtain ⟨k, hlow, hhigh, hsize⟩ :=
      htable.size.resolve_left fun hzero => hgrow (Or.inl hzero)
    split
    · rw [hsize]
      obtain ⟨shrunk, hshrink⟩ := shrinkLoop_returns hhigh (show k < 33 by omega)
      rw [hshrink, ok_bind]
      refine ⟨_, rfl, Or.inr ?_⟩
      rcases shrinkLoop_eq_ok hshrink with hless | ⟨j, hj, hj', rfl⟩
      · exact ⟨3, le_rfl, by decide, if_pos hless⟩
      · have hlarge : 2 ^ 3 ≤ 2 ^ j := Nat.pow_le_pow_right (by decide) hj
        exact ⟨j, hj, hj'.trans hhigh, if_neg (Nat.not_lt.mpr hlarge)⟩
    · exact ⟨_, rfl, Or.inl rfl⟩

/-- `ResizeNeeded` returns, and a resize to what it asks for succeeds. -/
theorem Requested.resize (htable : Requested definition table elements) (contents : ℕ → ℕ) :
    ∃ bytes, table.resizeNeeded = .ok bytes ∧ (bytes ≠ 0 → ∃ table',
      table.resize definition contents bytes true = .ok (true, table') ∧
        Requested definition table' elements) := by
  obtain ⟨needed, hneeded, hsize⟩ := htable.neededSize
  by_cases hsame : needed = table.curTableSize
  · refine ⟨0, ?_, fun hne => absurd rfl hne⟩
    rw [BHashTable.resizeNeeded, hneeded, ok_bind, if_pos hsame]
  · obtain ⟨j, hlow, hhigh, rfl⟩ := hsize.resolve_left hsame
    have hpow : 2 ^ j ≤ 2 ^ 28 := Nat.pow_le_pow_right (by decide) hhigh
    have hbytes : u32 (2 ^ j * 4) = 2 ^ j * 4 := u32_of_lt (by omega)
    have hcall : table.resizeNeeded = .ok (2 ^ j * 4) := by
      rw [BHashTable.resizeNeeded, hneeded, ok_bind, if_neg hsame, hbytes]
    refine ⟨_, hcall, fun hne => ?_⟩
    obtain ⟨table', hresize, htable'⟩ : ∃ table',
        table.resize definition contents (2 ^ j * 4) true = .ok (true, table') ∧
          Holds definition table' elements := by
      rcases htable.content with ⟨hunsized, rfl⟩ | hholds
      · exact hunsized.resize definition hcall hne contents true
      · exact hholds.resize hcall hne contents true
    refine ⟨table', hresize, Or.inr htable', Or.inr ⟨j, hlow, hhigh, ?_⟩, htable.card_le⟩
    simp only [BHashTable.resize, if_true, ok_bind, Bool.false_eq_true, if_false] at hresize
    obtain ⟨after, hresize, hlast⟩ := bind_eq_ok.mp hresize
    rw [← (Prod.mk.inj (Except.ok.inj hlast)).2, resizeTo_curTableSize hresize,
      Nat.mul_div_cancel _ (by decide)]

theorem Requested.insert (htable : Requested definition table elements) (hvalue : value ≠ 0)
    (hlt : value < 2 ^ 32) (hnew : value ∉ elements)
    (hcard : (insert value elements).card ≤ 2 ^ 20) (contents : ℕ → ℕ) :
    ∃ table', table.insert definition false (some contents) value = .ok (true, table') ∧
      Requested definition table' (insert value elements) := by
  obtain ⟨table', hinsert, htable'⟩ : ∃ table',
      table.insert definition false (some contents) value = .ok (true, table') ∧
        Holds definition table' (Insert.insert value elements) := by
    rcases htable.content with ⟨hunsized, rfl⟩ | hholds
    · exact (hunsized.insert definition false hvalue hlt).2 contents
    · exact hholds.insert hvalue hlt hnew fun hexpand => by cases hexpand
  refine ⟨table', hinsert, Or.inr htable', ?_, hcard⟩
  rcases insert_curTableSize hinsert with hsize | hsize
  · rw [hsize]
    exact htable.size
  · exact Or.inr ⟨3, le_rfl, by decide, hsize⟩

theorem Requested.remove (htable : Requested definition table elements)
    (hmem : value ∈ elements) :
    ∃ table', table.remove definition false none value = .ok (true, table') ∧
      Requested definition table' (elements.erase value) := by
  have hholds : Holds definition table elements := htable.content.resolve_left
    fun hunsized => Finset.notMem_empty value (hunsized.2 ▸ hmem)
  obtain ⟨table', hremove, htable'⟩ := hholds.remove false none value
  rw [decide_eq_true hmem] at hremove
  refine ⟨table', hremove, Or.inr htable', ?_, ?_⟩
  · rw [remove_curTableSize hremove]
    exact htable.size
  · exact (Finset.card_le_card (Finset.erase_subset _ _)).trans htable.card_le

/-- The lookup of a key that one element compares to finds this element. -/
theorem Requested.lookup (htable : Requested definition table elements) {key : Key}
    (hmem : value ∈ elements) (hcompare : definition.compare key value = true)
    (honly : ∀ other ∈ elements, definition.compare key other = true → other = value) :
    table.lookup definition key = .ok value := by
  have hholds : Holds definition table elements := htable.content.resolve_left
    fun hunsized => Finset.notMem_empty value (hunsized.2 ▸ hmem)
  obtain ⟨slot, hlookup, hfound, hslot⟩ := hholds.lookup key
  obtain ⟨hother, hother'⟩ := hslot (hfound.mpr ⟨value, hmem, hcompare⟩)
  rw [hlookup, honly slot hother hother']

theorem Requested.congr_definition (htable : Requested definition table elements)
    (hhash : ∀ value ∈ elements, definition'.hash value = definition.hash value) :
    Requested definition' table elements where
  content := htable.content.imp id fun hholds => hholds.congr_definition hhash
  size := htable.size
  card_le := htable.card_le

end GeexOS.DataStructures
