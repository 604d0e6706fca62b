import GeexOS.Kernel.Paging
import GeexOS.Kernel.Placement

/-!
# Deriving a directory for userspace

The loop over the uppermost gigabyte counts in 4 MiB steps.  The counter never holds
the address that ends it.
-/

namespace GeexOS.Paging

open GeexOS.Words
open GeexOS.Halting
open GeexOS.Placement (PlacementRegion PlacementAllocator)

/-- `sizeof(x86PageDirectory)`. -/
def sizeofPageDirectory : ℕ := 8192

/-- `i / 4*1024*1024`, evaluated from left to right. -/
def derivedIndex (i : ℕ) : ℕ := u32 (u32 (i / 4 * 1024) * 1024)

namespace X86Paging

/-- The loop of `DeriveUserspaceDirectory`.  `pd` is the new directory over the same page
tables. -/
def deriveLoop (paging : X86Paging) : ℕ → ℕ → X86Paging → Outcome X86Paging
  | 0, _, _ => .error .diverges
  | fuel + 1, i, pd =>
      if i < 0xFFFFFFFF then do
        let pdindex := derivedIndex i
        let pd ← pd.setTable pdindex (paging.tables pdindex)
          (paging.tablesPhysical pdindex ||| 0x3)
        deriveLoop paging fuel (u32 (i + 4 * 1024 * 1024)) pd
      else .ok pd

def deriveUserspaceDirectory (paging : X86Paging) (region : PlacementRegion)
    (allocator : PlacementAllocator) (fuel : ℕ) : Outcome X86Paging := do
  let _ ← allocator.allocate region sizeofPageDirectory true
  deriveLoop paging fuel 0xC0000000 (newDirectory paging.pageTables paging.newTables)

end X86Paging

open X86Paging

variable {paging pd : X86Paging} {fuel i : ℕ}

/-- The derived directory is returned.  It maps the kernel half as the current one does,
and nothing else. -/
def SharesKernelHalf (paging : X86Paging) (outcome : Outcome X86Paging) : Prop :=
  ∃ pd, outcome = .ok pd ∧ ∀ address < 2 ^ 32,
    entryOf pd (pageOf address) =
      if 0xC0000000 ≤ address then entryOf paging (pageOf address) else none

/-- A multiple of 4 MiB always gives the first entry. -/
theorem derivedIndex_eq_zero (hstep : i % 2 ^ 22 = 0) : derivedIndex i = 0 := by
  have hquarter : i / 4 * 1024 * 1024 = i / 2 ^ 22 * 2 ^ 8 * 2 ^ 32 := by omega
  rw [derivedIndex, u32, u32, Nat.mod_mul_mod, hquarter]
  exact Nat.mul_mod_left _ _

/-- The counter wraps around and the loop goes on. -/
theorem deriveLoop_diverges (hlt : i < 2 ^ 32) (hstep : i % 2 ^ 22 = 0) :
    deriveLoop paging fuel i pd = .error .diverges := by
  induction fuel generalizing i pd with
  | zero => rfl
  | succ fuel ih =>
      have hcounts : i < 0xFFFFFFFF := by omega
      have hnext : u32 (i + 4 * 1024 * 1024) % 2 ^ 22 = 0 := by
        simp only [u32]
        omega
      rw [deriveLoop, if_pos hcounts]
      simp only [derivedIndex_eq_zero hstep, X86Paging.setTable]
      exact ih (u32_lt _) hnext

/-- Deriving stops the machine or goes on for ever. -/
theorem deriveUserspaceDirectory_cases (region : PlacementRegion)
    (allocator : PlacementAllocator) :
    paging.deriveUserspaceDirectory region allocator fuel =
        .error (.panic "Placement region overflow") ∨
      paging.deriveUserspaceDirectory region allocator fuel = .error .diverges := by
  rw [X86Paging.deriveUserspaceDirectory, PlacementAllocator.allocate]
  split
  · exact Or.inl rfl
  · exact Or.inr (deriveLoop_diverges (by norm_num) (by norm_num))

/-- No directory is ever derived. -/
theorem not_sharesKernelHalf (paging : X86Paging) (region : PlacementRegion)
    (allocator : PlacementAllocator) (fuel : ℕ) :
    ¬ SharesKernelHalf paging (paging.deriveUserspaceDirectory region allocator fuel) := by
  rintro ⟨pd, hreturns, -⟩
  rcases deriveUserspaceDirectory_cases region allocator with hpanic | hdiverges
  · rw [hpanic] at hreturns
    cases hreturns
  · rw [hdiverges] at hreturns
    cases hreturns

/-- From the directory without tables, with all of the placement region left. -/
theorem emptyDirectory_not_derived :
    ¬ ∀ (paging : X86Paging) (region : PlacementRegion) (allocator : PlacementAllocator),
      ∃ fuel,
        SharesKernelHalf paging (paging.deriveUserspaceDirectory region allocator fuel) := by
  intro hall
  obtain ⟨fuel, pd, hreturns, -⟩ := hall
    (newDirectory (fun _ _ => X86Page.zero) fun call => call + 1) Placement.kernelPlacement
    (.new Placement.kernelPlacement)
  rcases deriveUserspaceDirectory_cases _ _ with hpanic | hdiverges
  · exact absurd (hpanic.symm.trans hreturns) (fun herror => by cases herror)
  · exact absurd (hdiverges.symm.trans hreturns) (fun herror => by cases herror)

end GeexOS.Paging
