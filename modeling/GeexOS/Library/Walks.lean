import Mathlib.Data.Set.Card

/-!
# Walks along a partial function

A walk follows a function that gives at most one successor.  Over finitely many
values it stops exactly if no value comes up twice, and then it takes as many
rounds as it meets values.
-/

namespace GeexOS.Walks

variable {α : Type*} {next : α → Option α} {start : Option α} {value : α} {m n fuel : ℕ}

/-- The value met after `n` steps, if the walk has not stopped before. -/
def walk (next : α → Option α) (start : Option α) : ℕ → Option α
  | 0 => start
  | n + 1 => (walk next start n).bind next

/-- The values that come up. -/
def met (next : α → Option α) (start : Option α) : Set α :=
  {value | ∃ n, walk next start n = some value}

/-- No value comes up twice. -/
def Acyclic (next : α → Option α) (start : Option α) : Prop :=
  ∀ m n value, walk next start m = some value → walk next start n = some value → m = n

/-- The walk stops after `n` values. -/
structure StopsAfter (next : α → Option α) (start : Option α) (n : ℕ) : Prop where
  stopped : walk next start n = none
  going : ∀ m < n, walk next start m ≠ none

/-- The rounds of a loop that takes one value of the walk in each. -/
def rounds (next : α → Option α) : (fuel : ℕ) → Option α → ℕ
  | 0, _ => 0
  | _ + 1, none => 0
  | fuel + 1, some value => rounds next fuel (next value) + 1

theorem walk_add (m n : ℕ) : walk next start (m + n) = walk next (walk next start m) n := by
  induction n with
  | zero => rfl
  | succ n ih => rw [← Nat.add_assoc, walk, ih, walk]

theorem walk_none (n : ℕ) : walk next none n = none := by
  induction n with
  | zero => rfl
  | succ n ih => rw [walk, ih, Option.bind_none]

theorem walk_some_succ (n : ℕ) : walk next (some value) (n + 1) = walk next (next value) n := by
  rw [Nat.add_comm, walk_add]
  rfl

theorem walk_eq_none_of_le (hle : m ≤ n) (hstop : walk next start m = none) :
    walk next start n = none := by
  obtain ⟨d, rfl⟩ := Nat.exists_eq_add_of_le hle
  rw [walk_add, hstop, walk_none]

theorem stopsAfter_none : StopsAfter next none 0 :=
  ⟨rfl, fun _ hm => absurd hm (Nat.not_lt_zero _)⟩

theorem stopsAfter_none_iff : StopsAfter next none n ↔ n = 0 := by
  constructor
  · intro hstops
    by_contra hne
    exact hstops.going 0 (Nat.pos_of_ne_zero hne) rfl
  · rintro rfl
    exact stopsAfter_none

theorem stopsAfter_some_iff :
    StopsAfter next (some value) n ↔ ∃ m, n = m + 1 ∧ StopsAfter next (next value) m := by
  constructor
  · intro hstops
    obtain ⟨m, rfl⟩ : ∃ m, n = m + 1 := by
      refine ⟨n - 1, ?_⟩
      rcases Nat.eq_zero_or_pos n with rfl | hpos
      · cases hstops.stopped
      · omega
    refine ⟨m, rfl, by rw [← walk_some_succ]; exact hstops.stopped, fun k hk => ?_⟩
    rw [← walk_some_succ]
    exact hstops.going (k + 1) (Nat.succ_lt_succ hk)
  · rintro ⟨m, rfl, hstops⟩
    refine ⟨by rw [walk_some_succ]; exact hstops.stopped, fun k hk => ?_⟩
    cases k with
    | zero => simp [walk]
    | succ k =>
        rw [walk_some_succ]
        exact hstops.going k (Nat.lt_of_succ_lt_succ hk)

/-- A walk that stops does so after some first number of values. -/
theorem exists_stopsAfter (hstop : walk next start n = none) :
    ∃ m ≤ n, StopsAfter next start m := by
  classical
  have hexists : ∃ m, walk next start m = none := ⟨n, hstop⟩
  exact ⟨Nat.find hexists, Nat.find_min' hexists hstop, Nat.find_spec hexists,
    fun m hm => Nat.find_min hexists hm⟩

theorem StopsAfter.rounds_eq (hstops : StopsAfter next start n) (hfuel : n ≤ fuel) :
    rounds next fuel start = n := by
  induction fuel generalizing start n with
  | zero => rw [rounds, Nat.le_zero.mp hfuel]
  | succ fuel ih =>
      cases start with
      | none => rw [rounds, stopsAfter_none_iff.mp hstops]
      | some value =>
          obtain ⟨m, rfl, hnext⟩ := stopsAfter_some_iff.mp hstops
          rw [rounds, ih hnext (Nat.le_of_succ_le_succ hfuel)]

theorem rounds_none (fuel : ℕ) : rounds next fuel none = 0 := by
  cases fuel <;> rfl

theorem rounds_le (fuel : ℕ) (start : Option α) : rounds next fuel start ≤ fuel := by
  induction fuel generalizing start with
  | zero => exact le_rfl
  | succ fuel ih =>
      cases start with
      | none => exact Nat.zero_le _
      | some value => exact Nat.succ_le_succ (ih _)

/-- A walk that goes on uses up every number of rounds. -/
theorem rounds_of_going (hgoing : ∀ m, walk next start m ≠ none) :
    rounds next fuel start = fuel := by
  induction fuel generalizing start with
  | zero => rfl
  | succ fuel ih =>
      cases start with
      | none => exact absurd rfl (hgoing 0)
      | some value =>
          rw [rounds, ih fun m => by rw [← walk_some_succ]; exact hgoing (m + 1)]

/-! ## Cycles -/

/-- A walk that stops meets no value twice: from the second time on it would
repeat what it did from the first. -/
theorem StopsAfter.acyclic (hstops : StopsAfter next start n) : Acyclic next start := by
  have hearlier : ∀ m k value, m < k → walk next start m = some value →
      walk next start k ≠ some value := by
    intro m k value hlt hm hk
    have hk_lt : k < n := by
      by_contra hge
      rw [walk_eq_none_of_le (not_lt.mp hge) hstops.stopped] at hk
      cases hk
    -- as long after the first time as the walk stops after the second
    apply hstops.going (m + (n - k)) (by omega)
    rw [walk_add, hm, ← hk, ← walk_add, Nat.add_sub_cancel' hk_lt.le, hstops.stopped]
  intro m k value hm hk
  rcases Nat.lt_trichotomy m k with hlt | heq | hlt
  · exact absurd hk (hearlier m k value hlt hm)
  · exact heq
  · exact absurd hm (hearlier k m value hlt hk)

/-- The values met are as many as the rounds. -/
theorem StopsAfter.ncard_met (hstops : StopsAfter next start n) : (met next start).ncard = n := by
  have hacyclic := hstops.acyclic
  have hvalue : ∀ m, m < n → ∃ value, walk next start m = some value :=
    fun m hm => Option.ne_none_iff_exists'.mp (hstops.going m hm)
  choose value hwalk using hvalue
  refine Set.ncard_eq_of_bijective value ?_ (fun m hm => ⟨m, hwalk m hm⟩) ?_
  · rintro other ⟨m, hm⟩
    have hlt : m < n := by
      by_contra hge
      rw [walk_eq_none_of_le (not_lt.mp hge) hstops.stopped] at hm
      cases hm
    exact ⟨m, hlt, Option.some.inj ((hwalk m hlt).symm.trans hm)⟩
  · intro m k hm hk heq
    exact hacyclic m k (value m hm) (hwalk m hm) (heq ▸ hwalk k hk)

/-- Over finitely many values an acyclic walk stops. -/
theorem Acyclic.stops (hacyclic : Acyclic next start) (hfinite : (met next start).Finite) :
    ∃ n, StopsAfter next start n := by
  by_contra hnone
  have hvalue : ∀ m, ∃ value, walk next start m = some value := by
    intro m
    refine Option.ne_none_iff_exists'.mp fun hstop => hnone ?_
    obtain ⟨n, _, hstops⟩ := exists_stopsAfter hstop
    exact ⟨n, hstops⟩
  choose value hwalk using hvalue
  have hinjective : Function.Injective value := fun m k heq =>
    hacyclic m k (value m) (hwalk m) (heq ▸ hwalk k)
  have hmet : ∀ m, value m ∈ met next start := fun m => ⟨m, hwalk m⟩
  exact Set.infinite_of_injective_forall_mem hinjective hmet hfinite

/-! ## Walks over a table -/

/-- The walk meets no value twice, and no more values than a table has entries. -/
def EndsWithin (next : ℕ → Option ℕ) (start : Option ℕ) (entries : ℕ) : Prop :=
  Acyclic next start ∧ (met next start).ncard ≤ entries

/-- A walk that stays inside the table. -/
theorem endsWithin_of_inside {next : ℕ → Option ℕ} {start : Option ℕ} {entries : ℕ}
    (hinside : ∀ value ∈ met next start, value < entries) (hacyclic : Acyclic next start) :
    EndsWithin next start entries := by
  refine ⟨hacyclic, ?_⟩
  have hsubset : met next start ⊆ (Finset.range entries : Set ℕ) :=
    fun value hmem => Finset.mem_coe.mpr (Finset.mem_range.mpr (hinside value hmem))
  have hle := Set.ncard_le_ncard hsubset (Finset.finite_toSet _)
  rwa [Set.ncard_coe_finset, Finset.card_range] at hle

/-- The loop over the walk ends after at most as many rounds as the table has
entries. -/
theorem exists_stopsAfter_le_iff {next : ℕ → Option ℕ} {start : Option ℕ} {entries : ℕ}
    (hfinite : (met next start).Finite) :
    (∃ n ≤ entries, StopsAfter next start n) ↔ EndsWithin next start entries := by
  constructor
  · rintro ⟨n, hle, hstops⟩
    exact ⟨hstops.acyclic, hstops.ncard_met.trans_le hle⟩
  · rintro ⟨hacyclic, hle⟩
    obtain ⟨n, hstops⟩ := hacyclic.stops hfinite
    exact ⟨n, hstops.ncard_met.symm.trans_le hle, hstops⟩

end GeexOS.Walks
