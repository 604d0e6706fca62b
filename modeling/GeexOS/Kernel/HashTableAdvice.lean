import GeexOS.Kernel.HashTableRuns

/-!
# The advice of the hash table on its size

`ResizeNeeded` doubles a size until the elements are below one threshold, or halves it
until they reach another.  A table of the advised size lies between the two.
-/

namespace GeexOS.DataStructures

open GeexOS.Words
open GeexOS.Halting

variable {Key : Type} {definition : HashTableDefinition Key} {table table' : BHashTable}
variable {count size fuel k : ℕ}

/-- The sizes that the test for growing sees. -/
inductive GrowTests (count : ℕ) : ℕ → ℕ → Prop
  | first (size : ℕ) : GrowTests count size size
  | next {size tested : ℕ} (hfull : u32 (size * 200) / 256 ≤ count)
      (hlater : GrowTests count (u32 (size * 2)) tested) : GrowTests count size tested

/-- `size * 200` never overflows. -/
def NoOverflow (table : BHashTable) : Prop :=
  ∀ size, GrowTests table.curItemCount
    (if table.curTableSize = 0 then kMinimumSize else table.curTableSize) size →
      size * 200 < 2 ^ 32

/-- Neither growing nor shrinking is due. -/
structure Settled (table : BHashTable) : Prop where
  below : table.curItemCount < table.curTableSize * 200 / 256
  above : table.curTableSize = kMinimumSize ∨
    table.curTableSize * 50 / 256 ≤ table.curItemCount

/-! ## The loops -/

theorem exponent_le (hfits : 2 ^ k * 200 < 2 ^ 32) : k ≤ 24 := by
  by_contra hlarge
  have hpow : 2 ^ 25 ≤ 2 ^ k := Nat.pow_le_pow_right (by decide) (by omega)
  omega

/-- The doubling ends at the first size that is large enough. -/
theorem growLoop_settles (hfits : ∀ size, GrowTests count (2 ^ k) size → size * 200 < 2 ^ 32)
    (hfuel : 24 < fuel + k) :
    ∃ j, k ≤ j ∧ j ≤ 24 ∧ BHashTable.growLoop count fuel (2 ^ k) = .ok (2 ^ j) ∧
      count < 2 ^ j * 200 / 256 ∧ (j = k ∨ 2 ^ j / 2 * 200 / 256 ≤ count) := by
  have hfirst := hfits _ (.first _)
  have hk := exponent_le hfirst
  induction fuel generalizing k with
  | zero => omega
  | succ fuel ih =>
      rw [BHashTable.growLoop, u32_of_lt hfirst]
      by_cases hfull : 2 ^ k * 200 / 256 ≤ count
      · have hpow : 2 ^ k ≤ 2 ^ 24 := Nat.pow_le_pow_right (by decide) hk
        have hdouble : u32 (2 ^ k * 2) = 2 ^ (k + 1) := by
          rw [← pow_succ]
          exact u32_of_lt (by rw [pow_succ]; omega)
        have hlater : ∀ size, GrowTests count (2 ^ (k + 1)) size → size * 200 < 2 ^ 32 := by
          intro size htests
          refine hfits size (.next ?_ (hdouble ▸ htests))
          rwa [u32_of_lt hfirst]
        have hsecond := hlater _ (.first _)
        have hk' := exponent_le hsecond
        rw [if_pos hfull, hdouble]
        obtain ⟨j, hlow, hhigh, hloop, hbelow, hbefore⟩ := ih hlater (by omega) hsecond hk'
        refine ⟨j, by omega, hhigh, hloop, hbelow, Or.inr ?_⟩
        rcases hbefore with rfl | hbefore
        · rwa [pow_succ, Nat.mul_div_cancel _ (by decide)]
        · exact hbefore
      · exact ⟨k, le_rfl, hk, if_neg hfull, not_le.mp hfull, Or.inl rfl⟩

/-- The halving ends at the first size that is small enough. -/
theorem shrinkLoop_settles (hk : k ≤ 24) (hfuel : k < fuel) :
    ∃ j, j ≤ k ∧ BHashTable.shrinkLoop count fuel (2 ^ k) = .ok (2 ^ j) ∧
      2 ^ j * 50 / 256 ≤ count ∧ (j = k ∨ count < 2 ^ j * 2 * 50 / 256) := by
  induction fuel generalizing k with
  | zero => exact absurd hfuel (Nat.not_lt_zero _)
  | succ fuel ih =>
      have hpow : 2 ^ k ≤ 2 ^ 24 := Nat.pow_le_pow_right (by decide) hk
      rw [BHashTable.shrinkLoop, u32_of_lt (by omega)]
      by_cases hempty : count < 2 ^ k * 50 / 256
      · obtain ⟨less, rfl⟩ : ∃ less, k = less + 1 := by
          apply Nat.exists_eq_succ_of_ne_zero
          rintro rfl
          exact absurd hempty (Nat.not_lt_zero _)
        have hhalf : 2 ^ (less + 1) / 2 = 2 ^ less := by
          rw [pow_succ, Nat.mul_div_cancel _ (by decide)]
        rw [if_pos hempty, hhalf]
        obtain ⟨j, hle, hloop, habove, hbefore⟩ := @ih less (by omega) (by omega)
        refine ⟨j, by omega, hloop, habove, Or.inr ?_⟩
        rcases hbefore with rfl | hbefore
        · rwa [pow_succ] at hempty
        · exact hbefore
      · exact ⟨k, le_rfl, if_neg hempty, not_lt.mp hempty, Or.inl rfl⟩

/-! ## The advice -/

/-- A size that is due to grow, or the smallest one, grows until it is large enough. -/
theorem grown_settles (hlow : 3 ≤ k)
    (hfits : ∀ size, GrowTests count (2 ^ k) size → size * 200 < 2 ^ 32)
    (hdue : k = 3 ∨ 2 ^ k * 200 / 256 ≤ count) :
    ∃ j, 3 ≤ j ∧ j ≤ 24 ∧ BHashTable.growLoop count 33 (2 ^ k) = .ok (2 ^ j) ∧
      count < 2 ^ j * 200 / 256 ∧ (j = 3 ∨ 2 ^ j * 50 / 256 ≤ count) := by
  obtain ⟨j, hj, hhigh, hloop, hbelow, hbefore⟩ :=
    growLoop_settles hfits (show 24 < 33 + k by omega)
  refine ⟨j, by omega, hhigh, hloop, hbelow, ?_⟩
  rcases hbefore with rfl | hbefore
  · exact hdue.imp_right fun hfull => by omega
  · exact Or.inr (by omega)

/-- A size that is too large is halved, and the smallest one is taken if that was too much. -/
theorem shrunk_settles (hk : k ≤ 24) (hless : count < 2 ^ k * 50 / 256) :
    ∃ j, 3 ≤ j ∧ j ≤ 24 ∧
      (BHashTable.shrinkLoop count 33 (2 ^ k) >>= fun shrunk =>
        .ok (if shrunk < kMinimumSize then kMinimumSize else shrunk)) = .ok (2 ^ j) ∧
      count < 2 ^ j * 200 / 256 ∧ (j = 3 ∨ 2 ^ j * 50 / 256 ≤ count) := by
  obtain ⟨j, hj, hloop, habove, hbefore⟩ := @shrinkLoop_settles count 33 k hk (by omega)
  have hhalved : count < 2 ^ j * 2 * 50 / 256 := by
    refine hbefore.resolve_left ?_
    rintro rfl
    omega
  rw [hloop, ok_bind]
  by_cases hsmall : 2 ^ j < kMinimumSize
  · rw [if_pos hsmall]
    rw [kMinimumSize] at hsmall
    exact ⟨3, le_rfl, by decide, rfl, by omega, Or.inl rfl⟩
  · have hlarge : 3 ≤ j :=
      (Nat.pow_le_pow_iff_right Nat.one_lt_two).mp (not_lt.mp hsmall : 2 ^ 3 ≤ 2 ^ j)
    exact ⟨j, hlarge, hj.trans hk, by rw [if_neg hsmall], by omega, Or.inr habove⟩

/-- The size that `ResizeNeeded` computes is large enough, and not too large. -/
theorem neededSize_settles
    (hsize : table.curTableSize = 0 ∨ ∃ k, 3 ≤ k ∧ table.curTableSize = 2 ^ k)
    (hfits : NoOverflow table) :
    ∃ j, 3 ≤ j ∧ j ≤ 24 ∧ table.neededSize = .ok (2 ^ j) ∧
      table.curItemCount < 2 ^ j * 200 / 256 ∧
      (j = 3 ∨ 2 ^ j * 50 / 256 ≤ table.curItemCount) := by
  rw [NoOverflow] at hfits
  rcases hsize with hzero | ⟨k, hlow, hsize⟩
  · have hleast : kMinimumSize = 2 ^ 3 := rfl
    rw [if_pos hzero, hleast] at hfits
    simp only [BHashTable.neededSize, hzero, true_or, if_true, hleast]
    exact grown_settles le_rfl hfits (Or.inl rfl)
  · have hne : table.curTableSize ≠ 0 := hsize ▸ (Nat.two_pow_pos k).ne'
    rw [if_neg hne, hsize] at hfits
    have hfirst := hfits _ (.first _)
    have hk := exponent_le hfirst
    have hfifty : u32 (2 ^ k * 50) = 2 ^ k * 50 := u32_of_lt (by omega)
    simp only [BHashTable.neededSize, hsize, if_neg (Nat.two_pow_pos k).ne', hfifty,
      u32_of_lt hfirst]
    by_cases hfull : 2 ^ k * 200 / 256 ≤ table.curItemCount
    · rw [if_pos (Or.inr hfull)]
      exact grown_settles hlow hfits (Or.inr hfull)
    · rw [if_neg (not_or.mpr ⟨(Nat.two_pow_pos k).ne', hfull⟩)]
      by_cases hshrink : kMinimumSize < 2 ^ k ∧ table.curItemCount < 2 ^ k * 50 / 256
      · rw [if_pos hshrink]
        exact shrunk_settles hk hshrink.2
      · rw [if_neg hshrink]
        refine ⟨k, hlow, hk, rfl, not_le.mp hfull, ?_⟩
        rcases hlow.eq_or_lt with rfl | hmore
        · exact Or.inl rfl
        · have hlarge : 2 ^ 3 < 2 ^ k := Nat.pow_lt_pow_right Nat.one_lt_two hmore
          exact Or.inr (not_lt.mp fun hless => hshrink ⟨hlarge, hless⟩)

/-- A settled table is left alone. -/
theorem Settled.resizeNeeded (hsettled : Settled table)
    (hfits : table.curTableSize * 200 < 2 ^ 32) : table.resizeNeeded = .ok 0 := by
  have hbelow := hsettled.below
  have hgrow : ¬ (table.curTableSize = 0 ∨
      u32 (table.curTableSize * 200) / 256 ≤ table.curItemCount) := by
    rw [u32_of_lt hfits]
    omega
  have hshrink : ¬ (kMinimumSize < table.curTableSize ∧
      table.curItemCount < u32 (table.curTableSize * 50) / 256) := by
    rw [u32_of_lt (show table.curTableSize * 50 < 2 ^ 32 by omega)]
    have habove := hsettled.above
    omega
  have hneeded : table.neededSize = .ok table.curTableSize := by
    simp only [BHashTable.neededSize]
    rw [if_neg hgrow, if_neg hshrink]
  rw [BHashTable.resizeNeeded, hneeded, ok_bind, if_pos rfl]

/-- A table without an array is given one, and a table with elements keeps them. -/
theorem resizeTo_returns
    (hcontent : table.storage = none ∨ ∃ elements, Holds definition table elements)
    (hlow : 3 ≤ k) (hhigh : k ≤ 29) (contents : ℕ → ℕ) :
    ∃ table', table.resizeTo definition ⟨contents, 4 * 2 ^ k⟩ (2 ^ k) = .ok table' ∧
      table'.curTableSize = 2 ^ k ∧ table'.curItemCount = table.curItemCount := by
  have hbytes : 4 * 2 ^ k ≤ (Buffer.mk contents (4 * 2 ^ k)).bytes := le_rfl
  rcases hcontent with hnone | ⟨elements, hholds⟩
  · obtain ⟨cleared, hclear, -⟩ := Buffer.clear_of_le hbytes
    refine ⟨{ table with curTableSize := 2 ^ k, storage := some cleared }, ?_, rfl, rfl⟩
    simp only [BHashTable.resizeTo, hclear, ok_bind, hnone]
  · obtain ⟨table', hresize, hholds', hsize⟩ := hholds.resizeTo hlow hhigh hbytes
    exact ⟨table', hresize, hsize, hholds'.count.trans hholds.count.symm⟩

/-- `ResizeNeeded` returns.  It advises nothing for a settled table, and otherwise the
size of a table that is settled as soon as it is installed. -/
def AdviceSettles (definition : HashTableDefinition Key) (table : BHashTable) : Prop :=
  (table.resizeNeeded = .ok 0 ∧ Settled table) ∨
    ∃ k, 3 ≤ k ∧ table.resizeNeeded = .ok (4 * 2 ^ k) ∧
      ∀ contents, ∃ table',
        table.resize definition contents (4 * 2 ^ k) true = .ok (true, table') ∧
          table'.curTableSize = 2 ^ k ∧ table'.curItemCount = table.curItemCount ∧
          Settled table' ∧ table'.resizeNeeded = .ok 0

/-- The advice is a fixed point. -/
theorem adviceSettles
    (hsize : table.curTableSize = 0 ∨ ∃ k, 3 ≤ k ∧ table.curTableSize = 2 ^ k)
    (hcontent : table.storage = none ∨ ∃ elements, Holds definition table elements)
    (hfits : NoOverflow table) : AdviceSettles definition table := by
  obtain ⟨j, hlow, hhigh, hneeded, hbelow, habove⟩ := neededSize_settles hsize hfits
  have hpow : 2 ^ j ≤ 2 ^ 24 := Nat.pow_le_pow_right (by decide) hhigh
  by_cases hsame : 2 ^ j = table.curTableSize
  · left
    refine ⟨by rw [BHashTable.resizeNeeded, hneeded, ok_bind, if_pos hsame], ?_, ?_⟩
    · rwa [← hsame]
    · rw [← hsame]
      exact habove.imp (fun hthree => by rw [hthree]; rfl) id
  · right
    have hbytes : u32 (2 ^ j * 4) = 4 * 2 ^ j := by
      rw [Nat.mul_comm]
      exact u32_of_lt (by omega)
    refine ⟨j, hlow, ?_, fun contents => ?_⟩
    · rw [BHashTable.resizeNeeded, hneeded, ok_bind, if_neg hsame, hbytes]
    · obtain ⟨table', hresize, hsize', hcount⟩ :=
        resizeTo_returns hcontent hlow (by omega) contents
      have hsettled : Settled table' := by
        refine ⟨?_, ?_⟩
        · rwa [hsize', hcount]
        · rw [hsize', hcount]
          exact habove.imp (fun hthree => by rw [hthree]; rfl) id
      refine ⟨table', ?_, hsize', hcount, hsettled, hsettled.resizeNeeded ?_⟩
      · rw [BHashTable.resize, Nat.mul_div_cancel_left _ (by decide), hresize]
        rfl
      · rw [hsize']
        omega

/-- An array of 64 pointers with two elements in it is halved three times. -/
theorem adviceSettles_sparse :
    ∃ table : BHashTable, table.curTableSize = 64 ∧ table.curItemCount = 2 ∧
      table.resizeNeeded = .ok 32 ∧ AdviceSettles addressDefinition table := by
  obtain ⟨first, -, hfirst⟩ := (Unsized.mk rfl rfl rfl :
    Unsized (.new fun _ => 0)).insert addressDefinition true (by decide : 8 ≠ 0) (by decide)
      |>.2 fun _ => 0
  obtain ⟨second, -, hsecond⟩ := hfirst.insert (by decide : 16 ≠ 0) (by decide)
    (by decide : 16 ∉ ({8} : Finset ℕ)) (fun (_ : true = true) _ => rfl)
  obtain ⟨table, -, htable, hsize⟩ := hsecond.resizeTo (show 3 ≤ 6 by decide) (by decide)
    (Nat.le_refl (Buffer.mk (fun _ => 0) (4 * 2 ^ 6)).bytes)
  have hcount : table.curItemCount = 2 := htable.count
  refine ⟨table, hsize, hcount, ?_, ?_⟩
  · rw [BHashTable.resizeNeeded, BHashTable.neededSize, hsize, hcount]
    decide
  · refine adviceSettles (Or.inr ⟨6, by decide, hsize⟩) (Or.inr ⟨_, htable⟩) fun size htests => ?_
    rw [hsize, hcount] at htests
    cases htests with
    | first => decide
    | next hfull hlater => exact absurd hfull (by decide)

end GeexOS.DataStructures
