import Mathlib.Data.Nat.Find
import Mathlib.Tactic.Common

/-!
# Runs of good places

A scan that looks for a number of good places in a row counts them and starts again
at every bad one.  The count says how many places directly in front of an index are
good.
-/

namespace GeexOS.Runs

variable {good : ℕ → Bool} {count index : ℕ}

/-- The number of good places directly in front of an index. -/
def runBefore (good : ℕ → Bool) : ℕ → ℕ
  | 0 => 0
  | index + 1 => if good index then runBefore good index + 1 else 0

theorem runBefore_succ_le (good : ℕ → Bool) (index : ℕ) :
    runBefore good (index + 1) ≤ runBefore good index + 1 := by
  rw [runBefore]
  split
  · exact le_rfl
  · exact Nat.zero_le _

/-- The count has come so far exactly if so many places are good. -/
theorem le_runBefore_iff :
    count ≤ runBefore good index ↔
      count ≤ index ∧ ∀ i < count, good (index - count + i) = true := by
  induction index generalizing count with
  | zero =>
      rw [runBefore]
      refine ⟨fun hcount => ⟨hcount, fun i hi => ?_⟩, fun hgood => hgood.1⟩
      omega
  | succ index ih =>
      cases count with
      | zero => simp
      | succ count =>
          rw [runBefore, Nat.succ_le_succ_iff]
          cases hlast : good index with
          | false =>
              refine iff_of_false (by simp) fun hgood => ?_
              have hcurrent := hgood.2 count (Nat.lt_succ_self count)
              rw [show index + 1 - (count + 1) + count = index by omega, hlast] at hcurrent
              cases hcurrent
          | true =>
              rw [if_pos rfl, Nat.succ_le_succ_iff, ih]
              refine and_congr_right fun hcount => ?_
              rw [Nat.add_sub_add_right]
              constructor
              · intro hgood i hi
                rcases Nat.lt_succ_iff_lt_or_eq.mp hi with hlt | rfl
                · exact hgood i hlt
                · rwa [Nat.sub_add_cancel hcount]
              · exact fun hgood i hi => hgood i (Nat.lt_succ_of_lt hi)

/-- Where the count reaches a number for the first time, it is that number. -/
theorem runBefore_eq_of_first (hreached : count ≤ runBefore good index)
    (hfirst : ∀ earlier < index, runBefore good earlier < count) :
    runBefore good index = count := by
  refine le_antisymm ?_ hreached
  cases index with
  | zero => exact Nat.zero_le _
  | succ index =>
      have hbefore := hfirst index (Nat.lt_succ_self index)
      exact Nat.le_trans (runBefore_succ_le good index) hbefore

end GeexOS.Runs
