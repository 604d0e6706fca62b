import GeexOS.Library.Linked
import Mathlib.Data.Finset.Dedup
import Mathlib.Data.Finset.Insert
import Mathlib.Data.Finset.Erase

/-!
# Chained buckets

A finite set kept as one chain for each bucket: a cell is in the chain of the
bucket its index names, and the chains share one successor function.  One list
of all elements gives the order inside every chain.
-/

namespace GeexOS.Buckets

open GeexOS.Linked

variable {α : Type*}

/-- The chains from `heads` hold the elements, each in the bucket of its index. -/
structure Stores (next : α → α) (stop : α) (heads : ℕ → α) (size : ℕ) (index : α → ℕ)
    (elements : Finset α) : Prop where
  index_lt : ∀ cell, index cell < size
  chain : ∀ bucket < size, ∃ cells, Chain next stop (heads bucket) cells ∧
    ∀ cell, cell ∈ cells ↔ cell ∈ elements ∧ index cell = bucket

variable {next next' : α → α} {stop cell : α} {heads heads' : ℕ → α} {size bucket : ℕ}
variable {index index' : α → ℕ} {elements : Finset α}

/-- The chains from `heads` list the elements in the order of one list, each in
the bucket of its index. -/
structure Lists (next : α → α) (stop : α) (heads : ℕ → α) (size : ℕ) (index : α → ℕ)
    (order : List α) : Prop where
  index_lt : ∀ cell, index cell < size
  chain : ∀ bucket < size,
    Chain next stop (heads bucket) (order.filter fun cell => index cell = bucket)

variable {order order' : List α}

theorem Lists.empty (hindex : ∀ cell, index cell < size)
    (hheads : ∀ bucket < size, heads bucket = stop) :
    Lists next stop heads size index [] where
  index_lt := hindex
  chain := fun bucket hbucket => chain_nil.mpr (hheads bucket hbucket)

theorem Lists.mem_chain (hmem : cell ∈ order) :
    cell ∈ order.filter fun other => index other = index cell :=
  List.mem_filter.mpr ⟨hmem, decide_eq_true rfl⟩

theorem Lists.ne_stop (hlists : Lists next stop heads size index order)
    (hmem : cell ∈ order) : cell ≠ stop :=
  (hlists.chain (index cell) (hlists.index_lt cell)).ne_stop (mem_chain hmem)

theorem Lists.nodup (hlists : Lists next stop heads size index order) : order.Nodup := by
  classical
  rw [List.nodup_iff_count]
  intro cell
  have hnodup := (hlists.chain (index cell) (hlists.index_lt cell)).nodup
  have hcount := List.nodup_iff_count.mp hnodup cell
  rwa [List.count_filter (by simp)] at hcount

theorem Lists.stores [DecidableEq α] (hlists : Lists next stop heads size index order) :
    Stores next stop heads size index order.toFinset where
  index_lt := hlists.index_lt
  chain := fun bucket hbucket => by
    refine ⟨_, hlists.chain bucket hbucket, fun cell => ?_⟩
    rw [List.mem_filter, List.mem_toFinset, decide_eq_true_eq]

/-- Only the indices of the elements matter. -/
theorem Lists.congr_index (hlists : Lists next stop heads size index order)
    (hindex : ∀ cell, index' cell < size) (hsame : ∀ cell ∈ order, index' cell = index cell) :
    Lists next stop heads size index' order where
  index_lt := hindex
  chain := fun bucket hbucket => by
    have hfilter : (order.filter fun cell => index' cell = bucket) =
        order.filter fun cell => index cell = bucket :=
      List.filter_congr fun cell hmem => by rw [hsame cell hmem]
    rw [hfilter]
    exact hlists.chain bucket hbucket

/-- Editing the chain of one bucket edits the list at this bucket. -/
theorem Lists.replace (hlists : Lists next stop heads size index order)
    (hchain : Chain next' stop (heads' bucket) (order'.filter fun cell => index cell = bucket))
    (hnext : ∀ cell ∈ order, index cell ≠ bucket → next' cell = next cell)
    (hheads : ∀ other, other ≠ bucket → heads' other = heads other)
    (horder : ∀ other, other ≠ bucket →
      (order'.filter fun cell => index cell = other) =
        order.filter fun cell => index cell = other) :
    Lists next' stop heads' size index order' where
  index_lt := hlists.index_lt
  chain := fun other hother => by
    by_cases heq : other = bucket
    · rw [heq]
      exact hchain
    · rw [hheads other heq, horder other heq]
      refine (hlists.chain other hother).congr fun cell hcell => ?_
      obtain ⟨hmem, hindex⟩ := List.mem_filter.mp hcell
      exact hnext cell hmem fun hbucket => heq ((of_decide_eq_true hindex).symm.trans hbucket)

/-- A new cell goes to the front of its chain. -/
theorem Lists.push [DecidableEq α] (hlists : Lists next stop heads size index order)
    (hcell : cell ≠ stop) (hnew : cell ∉ order) :
    Lists (Function.update next cell (heads (index cell))) stop
      (Function.update heads (index cell) cell) size index (cell :: order) := by
  have hchain := hlists.chain (index cell) (hlists.index_lt cell)
  have hother : ∀ other ∈ order, other ≠ cell := fun other hmem heq => hnew (heq ▸ hmem)
  have hpush : Chain (Function.update next cell (heads (index cell))) stop
      (Function.update heads (index cell) cell (index cell))
      ((cell :: order).filter fun other => index other = index cell) := by
    rw [List.filter_cons_of_pos (by simp), Function.update_self]
    refine hchain.push hcell (Function.update_self ..) fun other hmem => ?_
    exact Function.update_of_ne (hother other (List.mem_filter.mp hmem).1) _ _
  refine hlists.replace hpush (fun other hmem _ => ?_) (fun other hne => ?_) fun other hne => ?_
  · exact Function.update_of_ne (hother other hmem) _ _
  · exact Function.update_of_ne hne _ _
  · exact List.filter_cons_of_neg fun hindex => hne (of_decide_eq_true hindex).symm

/-- One bucket after the other. -/
def grouped (size : ℕ) (index : α → ℕ) (order : List α) : List α :=
  (List.range size).flatMap fun bucket => order.filter fun cell => index cell = bucket

theorem flatMap_range_of_unique {part : ℕ → List α} (hbucket : bucket < size)
    (honly : ∀ other < size, other ≠ bucket → part other = []) :
    (List.range size).flatMap part = part bucket := by
  induction size with
  | zero => exact absurd hbucket (Nat.not_lt_zero _)
  | succ size ih =>
      rw [List.range_succ, List.flatMap_append, List.flatMap_singleton]
      rcases Nat.lt_succ_iff_lt_or_eq.mp hbucket with hlt | rfl
      · rw [ih hlt fun other hother => honly other (Nat.lt_succ_of_lt hother),
          honly size (Nat.lt_succ_self size) hlt.ne', List.append_nil]
      · have hnone : (List.range bucket).flatMap part = [] := by
          rw [List.flatMap_eq_nil_iff]
          intro other hmem
          rw [List.mem_range] at hmem
          exact honly other (Nat.lt_succ_of_lt hmem) hmem.ne
        rw [hnone, List.nil_append]

/-- Grouping keeps the order of the cells of one bucket. -/
theorem filter_grouped {keep : α → Bool} (hbucket : bucket < size)
    (hkeep : ∀ cell, keep cell = true → index cell = bucket) :
    (grouped size index order).filter keep = order.filter keep := by
  rw [grouped, List.filter_flatMap, flatMap_range_of_unique hbucket]
  · rw [List.filter_filter]
    refine List.filter_congr fun cell _ => ?_
    cases hcell : keep cell with
    | false => rfl
    | true => exact decide_eq_true (hkeep cell hcell)
  · intro other _ hne
    rw [List.filter_filter, List.filter_eq_nil_iff]
    intro cell _ hboth
    rw [Bool.and_eq_true, decide_eq_true_eq] at hboth
    exact hne (hboth.2.symm.trans (hkeep cell hboth.1))

theorem grouped_perm (hindex : ∀ cell, index cell < size) :
    (grouped size index order).Perm order := by
  classical
  rw [List.perm_iff_count]
  intro cell
  rw [List.count_eq_length_filter, List.count_eq_length_filter, filter_grouped (hindex cell)]
  intro other hother
  rw [eq_of_beq hother]

/-- Any chains that hold a set list its elements in some order. -/
theorem Stores.exists_lists [DecidableEq α] (hstores : Stores next stop heads size index elements) :
    ∃ order : List α, order.toFinset = elements ∧ Lists next stop heads size index order := by
  choose! chains hchains using hstores.chain
  have hfilter : ∀ bucket < size, ((List.range size).flatMap chains).filter
      (fun cell => index cell = bucket) = chains bucket := by
    intro bucket hbucket
    have hindex : ∀ other < size, ∀ cell ∈ chains other, index cell = other :=
      fun other hother cell hmem => (((hchains other hother).2 cell).mp hmem).2
    rw [List.filter_flatMap, flatMap_range_of_unique hbucket]
    · exact List.filter_eq_self.mpr fun cell hmem =>
        decide_eq_true (hindex bucket hbucket cell hmem)
    · intro other hother hne
      rw [List.filter_eq_nil_iff]
      intro cell hmem hhere
      exact hne ((hindex other hother cell hmem).symm.trans (of_decide_eq_true hhere))
  refine ⟨(List.range size).flatMap chains, Finset.ext fun cell => ?_, hstores.index_lt,
    fun bucket hbucket => ?_⟩
  · rw [List.mem_toFinset, List.mem_flatMap]
    constructor
    · rintro ⟨bucket, hbucket, hmem⟩
      exact (((hchains bucket (List.mem_range.mp hbucket)).2 cell).mp hmem).1
    · intro hmem
      have hbucket := hstores.index_lt cell
      exact ⟨index cell, List.mem_range.mpr hbucket,
        ((hchains _ hbucket).2 cell).mpr ⟨hmem, rfl⟩⟩
  · rw [hfilter bucket hbucket]
    exact (hchains bucket hbucket).1

end GeexOS.Buckets
