import Mathlib.Data.List.Nodup
import Mathlib.Data.List.Perm.Subperm
import Mathlib.Data.List.Range
import Mathlib.Logic.Function.Basic
import Mathlib.Tactic.Common

/-!
# Singly linked chains

A chain is the list of cells met by following a successor function from a
start cell to a stop marker.  The successor function stands for whatever holds
the links: a field of the cells, an index array, words of memory.
-/

namespace GeexOS.Linked

variable {α : Type*} {next next' : α → α} {stop start finish cell : α}
variable {cells front back : List α}

/-- `cells` are the cells met from `start` along `next` until `finish`. -/
def Path (next : α → α) : α → List α → α → Prop
  | start, [], finish => start = finish
  | start, cell :: rest, finish => start = cell ∧ Path next (next cell) rest finish

/-- A path that ends at the stop marker and does not meet it before. -/
structure Chain (next : α → α) (stop start : α) (cells : List α) : Prop where
  path : Path next start cells stop
  stop_notMem : stop ∉ cells

@[simp]
theorem path_nil : Path next start [] finish ↔ start = finish := Iff.rfl

@[simp]
theorem path_cons :
    Path next start (cell :: cells) finish ↔
      start = cell ∧ Path next (next cell) cells finish := Iff.rfl

theorem path_append :
    Path next start (front ++ back) finish ↔
      ∃ middle, Path next start front middle ∧ Path next middle back finish := by
  induction front generalizing start with
  | nil => simp
  | cons cell rest ih =>
      simp only [List.cons_append, path_cons, ih]
      constructor
      · rintro ⟨hstart, middle, hfront, hback⟩
        exact ⟨middle, ⟨hstart, hfront⟩, hback⟩
      · rintro ⟨middle, ⟨hstart, hfront⟩, hback⟩
        exact ⟨hstart, middle, hfront, hback⟩

/-- A path depends on the successors of its own cells only. -/
theorem Path.congr (hpath : Path next start cells finish)
    (hnext : ∀ cell ∈ cells, next' cell = next cell) :
    Path next' start cells finish := by
  induction cells generalizing start with
  | nil => exact hpath
  | cons cell rest ih =>
      obtain ⟨hstart, hrest⟩ := hpath
      refine ⟨hstart, ih ?_ fun other hmem =>
        hnext other (List.mem_cons_of_mem _ hmem)⟩
      rw [hnext cell List.mem_cons_self]
      exact hrest

theorem chain_nil : Chain next stop start [] ↔ start = stop :=
  ⟨fun hchain => hchain.path, fun heq => ⟨heq, List.not_mem_nil⟩⟩

theorem chain_cons :
    Chain next stop start (cell :: cells) ↔
      start = cell ∧ cell ≠ stop ∧ Chain next stop (next cell) cells := by
  constructor
  · rintro ⟨⟨hstart, hpath⟩, hstop⟩
    rw [List.mem_cons, not_or] at hstop
    exact ⟨hstart, Ne.symm hstop.1, hpath, hstop.2⟩
  · rintro ⟨hstart, hcell, hpath, hstop⟩
    refine ⟨⟨hstart, hpath⟩, ?_⟩
    rw [List.mem_cons, not_or]
    exact ⟨Ne.symm hcell, hstop⟩

theorem Chain.congr (hchain : Chain next stop start cells)
    (hnext : ∀ cell ∈ cells, next' cell = next cell) :
    Chain next' stop start cells :=
  ⟨hchain.path.congr hnext, hchain.stop_notMem⟩

theorem Chain.ne_stop (hchain : Chain next stop start cells)
    (hmem : cell ∈ cells) : cell ≠ stop :=
  fun heq => hchain.stop_notMem (heq ▸ hmem)

theorem Chain.start_eq_stop_iff (hchain : Chain next stop start cells) :
    start = stop ↔ cells = [] := by
  cases cells with
  | nil => simpa using chain_nil.mp hchain
  | cons cell rest =>
      obtain ⟨hstart, hcell, _⟩ := chain_cons.mp hchain
      simp [hstart, hcell]

theorem Chain.start_eq_headD (hchain : Chain next stop start cells) :
    start = cells.headD stop := by
  cases cells with
  | nil => exact chain_nil.mp hchain
  | cons cell rest => exact (chain_cons.mp hchain).1

/-- The rest of a chain, from one of its cells on. -/
theorem Chain.suffix (hchain : Chain next stop start (front ++ cell :: back)) :
    Chain next stop cell (cell :: back) := by
  obtain ⟨middle, _, hback⟩ := path_append.mp hchain.path
  refine ⟨⟨rfl, hback.2⟩, fun hmem => ?_⟩
  exact hchain.stop_notMem (List.mem_append_right _ hmem)

/-- The successor function determines the chain. -/
theorem Chain.unique {other : List α} (hchain : Chain next stop start cells)
    (hother : Chain next stop start other) : cells = other := by
  induction cells generalizing start other with
  | nil =>
      rw [chain_nil] at hchain
      exact (hother.start_eq_stop_iff.mp hchain).symm
  | cons cell rest ih =>
      obtain ⟨hstart, hcell, hrest⟩ := chain_cons.mp hchain
      cases other with
      | nil => exact absurd ((chain_nil.mp hother).symm.trans hstart).symm hcell
      | cons cell' rest' =>
          obtain ⟨hstart', _, hrest'⟩ := chain_cons.mp hother
          have hcells : cell = cell' := hstart.symm.trans hstart'
          subst hcells
          rw [ih hrest hrest']

/-- A chain that ends meets no cell twice. -/
theorem Chain.nodup (hchain : Chain next stop start cells) : cells.Nodup := by
  induction cells generalizing start with
  | nil => exact List.nodup_nil
  | cons cell rest ih =>
      obtain ⟨hstart, hcell, hrest⟩ := chain_cons.mp hchain
      refine List.nodup_cons.mpr ⟨fun hmem => ?_, ih hrest⟩
      -- a second visit would make the chain its own proper suffix
      obtain ⟨front, back, rfl⟩ := List.append_of_mem hmem
      have hlong : Chain next stop cell (cell :: (front ++ cell :: back)) :=
        chain_cons.mpr ⟨rfl, hcell, hrest⟩
      have hshort := hrest.suffix
      have hlength := congrArg List.length (hlong.unique hshort)
      simp only [List.length_cons, List.length_append] at hlength
      omega

/-- Linking a new cell in front. -/
theorem Chain.push (hchain : Chain next stop start cells)
    (hcell : cell ≠ stop) (hlink : next' cell = start)
    (hnext : ∀ other ∈ cells, next' other = next other) :
    Chain next' stop cell (cell :: cells) :=
  chain_cons.mpr ⟨rfl, hcell, hlink ▸ hchain.congr hnext⟩

/-- Linking the last cell of one chain to the start of another. -/
theorem Chain.append {start' : α} (hchain : Chain next stop start (front ++ [cell]))
    (hback : Chain next stop start' back) (hlink : next' cell = start')
    (hnext : ∀ other ∈ front ++ back, next' other = next other) :
    Chain next' stop start (front ++ cell :: back) := by
  obtain ⟨middle, hpath, hmiddle, _⟩ := path_append.mp hchain.path
  refine ⟨path_append.mpr ⟨middle, ?_, hmiddle, ?_⟩, fun hmem => ?_⟩
  · exact hpath.congr fun other hmem => hnext other (List.mem_append_left _ hmem)
  · rw [hlink]
    exact hback.path.congr fun other hmem => hnext other (List.mem_append_right _ hmem)
  · rcases List.mem_append.mp hmem with hmem | hmem
    · exact hchain.stop_notMem (List.mem_append_left _ hmem)
    · rcases List.mem_cons.mp hmem with heq | hmem
      · exact hchain.ne_stop (List.mem_append_right _ (List.mem_singleton_self cell)) heq.symm
      · exact hback.stop_notMem hmem

/-- Redirecting the link of `cell` past its successor takes that out. -/
theorem Chain.unlink {removed : α}
    (hchain : Chain next stop start (front ++ cell :: removed :: back))
    (hlink : next' cell = next removed)
    (hnext : ∀ other ∈ front ++ cell :: back, other ≠ cell →
      next' other = next other) :
    Chain next' stop start (front ++ cell :: back) := by
  have hnodup := hchain.nodup
  obtain ⟨middle, hfront, hmiddle, _, hback⟩ := path_append.mp hchain.path
  have hcell : cell ∉ front ∧ cell ∉ back := by
    rw [List.nodup_append] at hnodup
    refine ⟨fun hmem => ?_, fun hmem => ?_⟩
    · exact hnodup.2.2 cell hmem cell List.mem_cons_self rfl
    · exact (List.nodup_cons.mp hnodup.2.1).1 (List.mem_cons_of_mem _ hmem)
  refine ⟨path_append.mpr ⟨middle, ?_, hmiddle, ?_⟩, fun hmem => ?_⟩
  · refine hfront.congr fun other hmem => ?_
    exact hnext other (List.mem_append_left _ hmem)
      (fun heq => hcell.1 (heq ▸ hmem))
  · rw [hlink]
    refine hback.congr fun other hmem => ?_
    exact hnext other
      (List.mem_append_right _ (List.mem_cons_of_mem _ hmem))
      (fun heq => hcell.2 (heq ▸ hmem))
  · apply hchain.stop_notMem
    simp only [List.mem_append, List.mem_cons] at hmem ⊢
    tauto

/-- A chain of distinct numbers below a bound is no longer than the bound. -/
theorem length_le_of_nodup {bound : ℕ} {cells : List ℕ} (hnodup : cells.Nodup)
    (hbound : ∀ cell ∈ cells, cell < bound) : cells.length ≤ bound := by
  have hsubset : cells ⊆ List.range bound := fun cell hmem =>
    List.mem_range.mpr (hbound cell hmem)
  simpa using (List.subperm_of_subset hnodup hsubset).length_le

end GeexOS.Linked
