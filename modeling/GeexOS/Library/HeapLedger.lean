import GeexOS.Library.Halting
import Mathlib.Data.Finset.Basic
import Mathlib.Data.Finset.Dedup
import Mathlib.Data.Finset.Lattice.Lemmas
import Mathlib.Data.List.ReduceOption

/-!
# A ledger of heap blocks

The blocks of a heap are numbered in the order in which they are handed out.  A routine
that allocates runs beside the same routine without a heap; what it leaves behind are
the blocks that it holds in the end.
-/

namespace GeexOS.HeapLedger

open GeexOS.Halting

/-- The number of the next block, and the blocks that are live. -/
structure Ledger where
  next : ℕ
  live : Finset ℕ
  live_lt : ∀ block ∈ live, block < next

namespace Ledger

/-- The block `ledger.next` is handed out. -/
def malloc (ledger : Ledger) : Ledger where
  next := ledger.next + 1
  live := insert ledger.next ledger.live
  live_lt := by
    intro block hblock
    rcases Finset.mem_insert.mp hblock with rfl | hblock
    · exact Nat.lt_succ_self _
    · exact Nat.lt_succ_of_lt (ledger.live_lt block hblock)

/-- A null pointer is ignored; a block that is not live cannot be given back. -/
def free (ledger : Ledger) : Option ℕ → Outcome Ledger
  | none => .ok ledger
  | some block =>
      if block ∈ ledger.live then
        .ok
          { next := ledger.next
            live := ledger.live.erase block
            live_lt := fun other hother =>
              ledger.live_lt other (Finset.mem_of_mem_erase hother) }
      else .error .fault

/-- Blocks are given back one after the other. -/
def freeAll (ledger : Ledger) : List (Option ℕ) → Outcome Ledger
  | [] => .ok ledger
  | block :: rest => do
      let ledger ← ledger.free block
      ledger.freeAll rest

end Ledger

/-- Since the first ledger, these blocks were handed out and not given back, and no
others were given back. -/
structure Holds (before after : Ledger) (blocks : Finset ℕ) : Prop where
  live_eq : after.live = blocks ∪ before.live
  fresh : ∀ block ∈ blocks, before.next ≤ block
  next_le : before.next ≤ after.next

variable {before middle after : Ledger} {blocks held : Finset ℕ} {block : ℕ}

namespace Holds

theorem refl (ledger : Ledger) : Holds ledger ledger ∅ where
  live_eq := (Finset.empty_union _).symm
  fresh := fun block hblock => absurd hblock (Finset.notMem_empty block)
  next_le := le_rfl

theorem trans (hfirst : Holds before middle held) (hsecond : Holds middle after blocks) :
    Holds before after (blocks ∪ held) where
  live_eq := by rw [hsecond.live_eq, hfirst.live_eq, Finset.union_assoc]
  fresh := fun block hblock => by
    rcases Finset.mem_union.mp hblock with hblock | hblock
    · exact hfirst.next_le.trans (hsecond.fresh block hblock)
    · exact hfirst.fresh block hblock
  next_le := hfirst.next_le.trans hsecond.next_le

/-- Blocks that are handed out later are other blocks. -/
theorem disjoint (hfirst : Holds before middle held) (hsecond : Holds middle after blocks) :
    Disjoint blocks held := by
  rw [Finset.disjoint_left]
  intro block hblock hheld
  have hlive : block ∈ middle.live := by
    rw [hfirst.live_eq]
    exact Finset.mem_union_left _ hheld
  exact Nat.not_le.mpr (middle.live_lt block hlive) (hsecond.fresh block hblock)

theorem malloc (hholds : Holds before after blocks) :
    Holds before after.malloc (insert after.next blocks) where
  live_eq := by
    rw [Finset.insert_union, ← hholds.live_eq]
    rfl
  fresh := fun block hblock => by
    rcases Finset.mem_insert.mp hblock with rfl | hblock
    · exact hholds.next_le
    · exact hholds.fresh block hblock
  next_le := Nat.le_succ_of_le hholds.next_le

/-- Blocks that are held were not live before. -/
theorem notMem (hholds : Holds before after blocks) (hblock : block ∈ blocks) :
    block ∉ before.live := fun hmem =>
  Nat.not_le.mpr (before.live_lt block hmem) (hholds.fresh block hblock)

/-- A block that was held can be given back, once. -/
theorem free (hholds : Holds before after blocks) (hblock : block ∈ blocks) :
    ∃ freed, after.free (some block) = .ok freed ∧ Holds before freed (blocks.erase block) := by
  have hlive : block ∈ after.live := by
    rw [hholds.live_eq]
    exact Finset.mem_union_left _ hblock
  have hrest : after.live.erase block = blocks.erase block ∪ before.live := by
    rw [hholds.live_eq, Finset.erase_union_distrib,
      Finset.erase_eq_of_notMem (hholds.notMem hblock)]
  exact ⟨_, if_pos hlive, hrest, fun other hother =>
    hholds.fresh other (Finset.mem_of_mem_erase hother), hholds.next_le⟩

theorem live_ne (hholds : Holds before after blocks) (hblock : block ∈ blocks) :
    after.live ≠ before.live := by
  intro hsame
  refine hholds.notMem hblock ?_
  rw [← hsame, hholds.live_eq]
  exact Finset.mem_union_left _ hblock

end Holds

/-! ## Blocks in a list -/

/-- The blocks that are held, each once. -/
structure HoldsEach (before after : Ledger) (blocks : List ℕ) : Prop where
  holds : Holds before after blocks.toFinset
  nodup : blocks.Nodup

namespace HoldsEach

variable {blocks held rest : List ℕ}

theorem refl (ledger : Ledger) : HoldsEach ledger ledger [] := ⟨.refl ledger, List.nodup_nil⟩

theorem perm (hholds : HoldsEach before after blocks) (hperm : blocks.Perm held) :
    HoldsEach before after held where
  holds := List.toFinset_eq_of_perm _ _ hperm ▸ hholds.holds
  nodup := hperm.nodup_iff.mp hholds.nodup

theorem trans (hfirst : HoldsEach before middle held) (hsecond : HoldsEach middle after blocks) :
    HoldsEach before after (held ++ blocks) where
  holds := by
    rw [List.toFinset_append, Finset.union_comm]
    exact hfirst.holds.trans hsecond.holds
  nodup := by
    refine List.nodup_append.mpr
      ⟨hfirst.nodup, hsecond.nodup, fun block hheld other hblock heq => ?_⟩
    have hapart := Finset.disjoint_left.mp (hfirst.holds.disjoint hsecond.holds)
      (List.mem_toFinset.mpr hblock)
    exact hapart (List.mem_toFinset.mpr (heq ▸ hheld))

theorem malloc (ledger : Ledger) : HoldsEach ledger ledger.malloc [ledger.next] where
  holds := (Holds.refl ledger).malloc
  nodup := List.nodup_singleton _

theorem free {block : ℕ} (hholds : HoldsEach before after (block :: rest)) :
    ∃ freed, after.free (some block) = .ok freed ∧ HoldsEach before freed rest := by
  obtain ⟨hnew, hrest⟩ := List.nodup_cons.mp hholds.nodup
  obtain ⟨freed, hfreed, hheld⟩ :=
    hholds.holds.free (List.mem_toFinset.mpr List.mem_cons_self)
  refine ⟨freed, hfreed, ?_, hrest⟩
  rwa [List.toFinset_cons, Finset.erase_insert (mt List.mem_toFinset.mp hnew)] at hheld

/-- Blocks that are held can be given back together. -/
theorem freeAll {given : List (Option ℕ)}
    (hholds : HoldsEach before after (given.reduceOption ++ rest)) :
    ∃ freed, after.freeAll given = .ok freed ∧ HoldsEach before freed rest := by
  induction given generalizing after with
  | nil => exact ⟨after, rfl, hholds⟩
  | cons block others ih =>
      cases block with
      | none => exact ih hholds
      | some block =>
          rw [List.reduceOption_cons_of_some, List.cons_append] at hholds
          obtain ⟨middle, hfreed, hmiddle⟩ := hholds.free
          obtain ⟨freed, hrest, hfinal⟩ := ih hmiddle
          exact ⟨freed, by rw [Ledger.freeAll, hfreed, ok_bind, hrest], hfinal⟩

/-- With nothing held the live blocks are those of the beginning. -/
theorem live_eq (hholds : HoldsEach before after []) : after.live = before.live :=
  hholds.holds.live_eq.trans (Finset.empty_union _)

theorem live_ne (hholds : HoldsEach before after blocks) (hne : blocks ≠ []) :
    after.live ≠ before.live := by
  obtain ⟨block, hblock⟩ := List.exists_mem_of_ne_nil _ hne
  exact hholds.holds.live_ne (List.mem_toFinset.mpr hblock)

end HoldsEach

/-! ## Routines with and without a heap -/

variable {α α' β β' γ : Type} {erase : α → β} {erase' : α' → β'}
variable {kept : α → Finset ℕ} {kept' : α' → Finset ℕ}

/-- Both routines end alike, and the one with a heap holds the blocks of its result. -/
def Tracks (before : Ledger) (erase : α → β) (kept : α → Finset ℕ)
    (traced : Outcome (α × Ledger)) (plain : Outcome β) : Prop :=
  (∃ result after, traced = .ok (result, after) ∧ plain = .ok (erase result) ∧
      Holds before after (kept result)) ∨
    ∃ halt, traced = .error halt ∧ plain = .error halt

namespace Tracks

theorem ok {result : α} {value : β} (hvalue : erase result = value)
    (hholds : Holds before after (kept result)) :
    Tracks before erase kept (.ok (result, after)) (.ok value) :=
  Or.inl ⟨result, after, rfl, congrArg Except.ok hvalue.symm, hholds⟩

theorem error (halt : Halt) : Tracks before erase kept (.error halt) (.error halt) :=
  Or.inr ⟨halt, rfl, rfl⟩

/-- A call while some blocks are held already. -/
theorem bind {traced : Outcome (α × Ledger)} {plain : Outcome β}
    {next : α × Ledger → Outcome (α' × Ledger)} {next' : β → Outcome β'}
    (hheld : Holds before middle held) (hcall : Tracks middle erase kept traced plain)
    (hnext : ∀ result after, Disjoint (kept result) held →
      Holds before after (kept result ∪ held) →
        Tracks before erase' kept' (next (result, after)) (next' (erase result))) :
    Tracks before erase' kept' (traced >>= next) (plain >>= next') := by
  rcases hcall with ⟨result, after, rfl, rfl, hholds⟩ | ⟨halt, rfl, rfl⟩
  · exact hnext result after (hheld.disjoint hholds) (hheld.trans hholds)
  · exact .error halt

/-- A call at the end, when nothing is held any more. -/
theorem of_holds {traced : Outcome (α × Ledger)} {plain : Outcome β}
    (hheld : Holds before middle ∅) (hcall : Tracks middle erase kept traced plain) :
    Tracks before erase kept traced plain := by
  rcases hcall with ⟨result, after, rfl, rfl, hholds⟩ | ⟨halt, rfl, rfl⟩
  · have hboth := hheld.trans hholds
    rw [Finset.union_empty] at hboth
    exact .ok rfl hboth
  · exact .error halt

/-- A step that does not allocate. -/
theorem bind_plain {outcome : Outcome γ} {next : γ → Outcome (α × Ledger)}
    {next' : γ → Outcome β}
    (hnext : ∀ value, outcome = .ok value →
      Tracks before erase kept (next value) (next' value)) :
    Tracks before erase kept (outcome >>= next) (outcome >>= next') := by
  cases houtcome : outcome with
  | error halt => exact .error halt
  | ok value => exact hnext value houtcome

/-- Giving back a block that is held. -/
theorem bind_free {next : Ledger → Outcome (α × Ledger)} {plain : Outcome β}
    (hheld : Holds before middle held) (hblock : block ∈ held)
    (hnext : ∀ after, Holds before after (held.erase block) →
      Tracks before erase kept (next after) plain) :
    Tracks before erase kept (middle.free (some block) >>= next) plain := by
  obtain ⟨freed, hfreed, hholds⟩ := hheld.free hblock
  rw [hfreed]
  exact hnext freed hholds

end Tracks

end GeexOS.HeapLedger
