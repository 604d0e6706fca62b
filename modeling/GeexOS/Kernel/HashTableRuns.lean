import GeexOS.Kernel.HashTableOperations
import Mathlib.Logic.Relation

/-!
# Runs of the hash table

After any sequence of calls the chains hold the elements that were inserted and
not removed, whatever allocations failed on the way.
-/

namespace GeexOS.DataStructures

open GeexOS.Words
open GeexOS.Halting
open GeexOS.Linked

variable {Key : Type} {definition : HashTableDefinition Key} {autoExpand : Bool}

/-- A table, the elements inserted and not removed, and whether an array was
installed by an `Insert` or a `Resize` that came back with true. -/
structure HashState where
  table : BHashTable
  elements : Finset ℕ
  sized : Bool

/-- One call that comes back. -/
inductive HashCall (definition : HashTableDefinition Key) (autoExpand : Bool) :
    HashState → HashState → Prop
  | insert {table after : BHashTable} {elements : Finset ℕ} {sized done : Bool}
      (allocation : Option (ℕ → ℕ)) (value : ℕ) (hvalue : value ≠ 0) (hlt : value < 2 ^ 32)
      (hnew : value ∉ elements)
      (hcall : table.insert definition autoExpand allocation value = .ok (done, after)) :
      HashCall definition autoExpand ⟨table, elements, sized⟩
        ⟨after, if done then insert value elements else elements, sized || done⟩
  | remove {table after : BHashTable} {elements : Finset ℕ} {found : Bool}
      (allocation : Option (ℕ → ℕ)) (value : ℕ)
      (hcall : table.remove definition autoExpand allocation value = .ok (found, after)) :
      HashCall definition autoExpand ⟨table, elements, true⟩
        ⟨after, if found then elements.erase value else elements, true⟩
  | lookup {table : BHashTable} {elements : Finset ℕ} {sized : Bool} {slot : ℕ}
      (key : Key) (hcall : table.lookup definition key = .ok slot) :
      HashCall definition autoExpand ⟨table, elements, sized⟩ ⟨table, elements, sized⟩
  | resize {table after : BHashTable} {elements : Finset ℕ} {sized done : Bool} {bytes : ℕ}
      (contents : ℕ → ℕ) (force : Bool) (hneeded : table.resizeNeeded = .ok bytes)
      (hbytes : bytes ≠ 0)
      (hcall : table.resize definition contents bytes force = .ok (done, after)) :
      HashCall definition autoExpand ⟨table, elements, sized⟩ ⟨after, elements, sized || done⟩

/-- Without an array there are no elements. -/
structure HashInvariant (definition : HashTableDefinition Key) (state : HashState) : Prop where
  unsized : state.sized = false → Unsized state.table ∧ state.elements = ∅
  holds : state.sized = true → Holds definition state.table state.elements

variable {state state' : HashState} {table : BHashTable} {elements : Finset ℕ}

theorem hashInvariant_new (links : ℕ → ℕ) :
    HashInvariant definition ⟨.new links, ∅, false⟩ where
  unsized := fun _ => ⟨⟨rfl, rfl, rfl⟩, rfl⟩
  holds := fun hsized => by cases hsized

theorem Holds.invariant (htable : Holds definition table elements) :
    HashInvariant definition ⟨table, elements, true⟩ where
  unsized := fun hsized => by cases hsized
  holds := fun _ => htable

/-- An `Insert` that comes back did not get a block that is too small. -/
theorem insert_fits {allocation : Option (ℕ → ℕ)} {value : ℕ} {done : Bool}
    {after : BHashTable}
    (hcall : table.insert definition autoExpand allocation value = .ok (done, after)) :
    autoExpand = true → table.curTableSize = 2 ^ 29 → allocation = none := by
  rintro rfl hsize
  cases allocation with
  | none => rfl
  | some contents =>
      rw [insert_fault hsize] at hcall
      cases hcall

theorem HashCall.invariant (hcall : HashCall definition autoExpand state state')
    (hstate : HashInvariant definition state) : HashInvariant definition state' := by
  cases hcall with
  | @insert table after elements sized done allocation value hvalue hlt hnew hcall =>
      cases sized with
      | true =>
          obtain ⟨table', hinsert, htable'⟩ :=
            (hstate.holds rfl).insert hvalue hlt hnew (insert_fits hcall)
          obtain ⟨rfl, rfl⟩ := Prod.mk.inj (Except.ok.inj (hcall.symm.trans hinsert))
          exact htable'.invariant
      | false =>
          obtain ⟨hunsized, hempty⟩ := hstate.unsized rfl
          simp only at hunsized hempty
          subst hempty
          cases allocation with
          | none =>
              have hfails := (hunsized.insert definition autoExpand hvalue hlt).1
              obtain ⟨rfl, rfl⟩ := Prod.mk.inj (Except.ok.inj (hcall.symm.trans hfails))
              exact ⟨fun _ => ⟨hunsized, rfl⟩, fun hsized => by cases hsized⟩
          | some contents =>
              obtain ⟨table', hinsert, htable'⟩ :=
                (hunsized.insert definition autoExpand hvalue hlt).2 contents
              obtain ⟨rfl, rfl⟩ := Prod.mk.inj (Except.ok.inj (hcall.symm.trans hinsert))
              exact htable'.invariant
  | @remove table after elements found allocation value hcall =>
      obtain ⟨table', hremove, htable'⟩ :=
        (hstate.holds rfl).remove autoExpand allocation value
      obtain ⟨rfl, rfl⟩ := Prod.mk.inj (Except.ok.inj (hcall.symm.trans hremove))
      by_cases hmem : value ∈ elements
      · simp only [hmem, decide_true, if_true]
        exact htable'.invariant
      · rw [Finset.erase_eq_of_notMem hmem] at htable'
        simp only [hmem, decide_false, Bool.false_eq_true, if_false]
        exact htable'.invariant
  | lookup _ _ => exact hstate
  | @resize table after elements sized done bytes contents force hneeded hbytes hcall =>
      cases sized with
      | true =>
          obtain ⟨table', hresize, htable'⟩ :=
            (hstate.holds rfl).resize hneeded hbytes contents force
          obtain ⟨rfl, rfl⟩ := Prod.mk.inj (Except.ok.inj (hcall.symm.trans hresize))
          exact htable'.invariant
      | false =>
          obtain ⟨hunsized, hempty⟩ := hstate.unsized rfl
          simp only at hunsized hempty
          subst hempty
          obtain ⟨table', hresize, htable'⟩ :=
            hunsized.resize definition hneeded hbytes contents force
          obtain ⟨rfl, rfl⟩ := Prod.mk.inj (Except.ok.inj (hcall.symm.trans hresize))
          exact htable'.invariant

theorem HashInvariant.run (hstate : HashInvariant definition state)
    (hrun : Relation.ReflTransGen (HashCall definition autoExpand) state state') :
    HashInvariant definition state' := by
  induction hrun with
  | refl => exact hstate
  | tail _ hcall ih => exact hcall.invariant ih

/-- The table as its users see it: a set of elements in buckets. -/
structure RefinesSet (definition : HashTableDefinition Key) (autoExpand : Bool)
    (state : HashState) : Prop where
  unsized : state.sized = false → state.table.curTableSize = 0 ∧ state.elements = ∅
  size : state.sized = true → ∃ k, 3 ≤ k ∧ state.table.curTableSize = 2 ^ k
  buckets : state.sized = true → ∃ storage, state.table.storage = some storage ∧
    ∀ bucket < state.table.curTableSize, ∃ cells,
      Chain state.table.links 0 (storage.cells bucket) cells ∧ cells.Nodup ∧
        ∀ cell, cell ∈ cells ↔ cell ∈ state.elements ∧
          definition.hash cell &&& (state.table.curTableSize - 1) = bucket
  lookup : ∀ key, ∃ slot, state.table.lookup definition key = .ok slot ∧
    (slot ≠ 0 ↔ ∃ value ∈ state.elements, definition.compare key value = true) ∧
    (slot ≠ 0 → slot ∈ state.elements ∧ definition.compare key slot = true)
  insert : ∀ allocation value, value ≠ 0 → value < 2 ^ 32 → value ∉ state.elements →
    (autoExpand = true → state.table.curTableSize = 2 ^ 29 → allocation = none) →
      ∃ table', state.table.insert definition autoExpand allocation value =
        .ok (state.sized || allocation.isSome, table')
  remove : state.sized = true → ∀ allocation value, ∃ table',
    state.table.remove definition autoExpand allocation value =
      .ok (decide (value ∈ state.elements), table')

theorem bucketOf_eq {hash size : ℕ} (hsize : ∃ k, 3 ≤ k ∧ k ≤ 29 ∧ size = 2 ^ k) :
    bucketOf hash size = hash &&& (size - 1) := by
  obtain ⟨k, _, hhigh, rfl⟩ := hsize
  have hlt : 2 ^ k < 2 ^ 32 := Nat.pow_lt_pow_right (by decide) (by omega)
  rw [bucketOf, sub32_of_le hlt Nat.one_le_two_pow]

theorem HashInvariant.refinesSet (hstate : HashInvariant definition state) :
    RefinesSet definition autoExpand state where
  unsized := fun hsized => ⟨(hstate.unsized hsized).1.size, (hstate.unsized hsized).2⟩
  size := fun hsized => by
    obtain ⟨k, hlow, _, hsize⟩ := (hstate.holds hsized).size
    exact ⟨k, hlow, hsize⟩
  buckets := fun hsized => by
    have htable := hstate.holds hsized
    obtain ⟨storage, hstorage, _, hstores⟩ := htable.stores
    refine ⟨storage, hstorage, fun bucket hbucket => ?_⟩
    obtain ⟨cells, hchain, hcells⟩ := hstores.chain bucket hbucket
    refine ⟨cells, hchain, hchain.nodup, fun cell => ?_⟩
    rw [hcells, indexIn, bucketOf_eq htable.size]
  lookup := fun key => by
    cases hsized : state.sized with
    | true => exact (hstate.holds hsized).lookup key
    | false =>
        obtain ⟨hunsized, hempty⟩ := hstate.unsized hsized
        refine ⟨0, if_pos hunsized.size, ?_⟩
        simp [hempty]
  insert := fun allocation value hvalue hlt hnew hfits => by
    cases hsized : state.sized with
    | true =>
        obtain ⟨table', hinsert, _⟩ := (hstate.holds hsized).insert hvalue hlt hnew hfits
        exact ⟨table', hinsert⟩
    | false =>
        obtain ⟨hfails, hsucceeds⟩ :=
          (hstate.unsized hsized).1.insert definition autoExpand hvalue hlt
        cases allocation with
        | none => exact ⟨state.table, hfails⟩
        | some contents =>
            obtain ⟨table', hinsert, _⟩ := hsucceeds contents
            exact ⟨table', hinsert⟩
  remove := fun hsized allocation value => by
    obtain ⟨table', hremove, _⟩ := (hstate.holds hsized).remove autoExpand allocation value
    exact ⟨table', hremove⟩

/-- In every run the table is the set of the elements inserted and not removed. -/
theorem refinesSet_of_run (links : ℕ → ℕ)
    (hrun : Relation.ReflTransGen (HashCall definition autoExpand) ⟨.new links, ∅, false⟩ state) :
    RefinesSet definition autoExpand state :=
  ((hashInvariant_new links).run hrun).refinesSet

/-- Elements that are their own keys. -/
def addressDefinition : HashTableDefinition ℕ where
  hashKey := id
  keyOf := id
  compare := fun key value => decide (key = value)
  hashKey_of_compare := fun _ _ hcompare => of_decide_eq_true hcompare

/-- Two elements of one bucket, of which the first is removed again. -/
theorem refinesSet_of_run_oneBucket :
    ∃ state, state.elements = {16} ∧ RefinesSet addressDefinition true state := by
  obtain ⟨first, hinsert, hfirst⟩ := (Unsized.mk rfl rfl rfl :
    Unsized (.new fun _ => 0)).insert addressDefinition true (by decide : 8 ≠ 0) (by decide)
      |>.2 fun _ => 0
  obtain ⟨second, hinsert', hsecond⟩ := hfirst.insert (by decide : 16 ≠ 0) (by decide)
    (by decide) fun _ _ => rfl
  obtain ⟨third, hremove, _⟩ := hsecond.remove true none 8
  have hfirstCall : HashCall addressDefinition true ⟨.new fun _ => 0, ∅, false⟩
      ⟨first, {8}, true⟩ :=
    .insert (some fun _ => 0) 8 (by decide) (by decide) (by decide) hinsert
  have hsecondCall : HashCall addressDefinition true ⟨first, {8}, true⟩
      ⟨second, {16, 8}, true⟩ := .insert none 16 (by decide) (by decide) (by decide) hinsert'
  have hthirdCall : HashCall addressDefinition true ⟨second, {16, 8}, true⟩
      ⟨third, {16}, true⟩ := .remove none 8 hremove
  exact ⟨_, rfl, refinesSet_of_run _ ((Relation.ReflTransGen.single hfirstCall).tail
    hsecondCall |>.tail hthirdCall)⟩

/-- Before the first `Insert` the size of the table is 0. -/
theorem new_not_powerOfTwo :
    ¬ ∀ state, Relation.ReflTransGen (HashCall addressDefinition true)
        ⟨.new fun _ => 0, ∅, false⟩ state →
      ∃ k, 3 ≤ k ∧ state.table.curTableSize = 2 ^ k := by
  intro hall
  obtain ⟨k, _, hsize⟩ := hall _ .refl
  exact (Nat.two_pow_pos k).ne hsize

end GeexOS.DataStructures
