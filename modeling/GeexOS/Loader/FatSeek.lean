import GeexOS.Loader.Fat

/-!
# Moving the pointer of a file

An offset is a signed number of 32 bits.  The comparisons of a seek are made on
64-bit numbers, all but one: whether a relative seek passes the end is asked of
an unsigned sum of 32 bits.
-/

namespace GeexOS.Fat

open GeexOS.Words

inductive SeekMode where
  | seekCur
  | seekSet
  | seekEnd
  deriving DecidableEq, Repr

/-- The sum of a `uint32_t` and a `long`, an unsigned number again. -/
def offsetSum (pointer : ℕ) (offset : Int32) : ℕ := ((pointer + offset.toInt) % 2 ^ 32).toNat

/-- The new file pointer in a file of `filesize` bytes. -/
def seekPointer (filesize filePointer : ℕ) (offset : Int32) : SeekMode → ℕ
  | .seekSet =>
      if offset < 0 then 0
      else if offset.toInt > filesize then filesize
      else offsetSum 0 offset
  | .seekEnd =>
      if offset ≥ 0 then filesize
      else if filesize + offset.toInt < 0 then 0
      else offsetSum filesize offset
  | .seekCur =>
      if filePointer + offset.toInt < 0 then 0
      else if offsetSum filePointer offset > filesize then filesize
      else offsetSum filePointer offset

def fatSeek (f : Option File) (offset : Int32) (mode : SeekMode) : Option File :=
  f.map fun file =>
    match file.fsContext with
    | none => file
    | some fi =>
        { file with filePointer := seekPointer fi.filesize file.filePointer offset mode }

/-! ## Clamping -/

/-- Where an offset counts from. -/
def seekOrigin (filesize filePointer : ℕ) : SeekMode → ℕ
  | .seekSet => 0
  | .seekCur => filePointer
  | .seekEnd => filesize

/-- The position asked for, or the end of the file that is nearest to it. -/
def clampedPointer (filesize filePointer : ℕ) (offset : Int32) (mode : SeekMode) : ℕ :=
  (min (filesize : ℤ) (max 0 (seekOrigin filesize filePointer mode + offset.toInt))).toNat

variable {filesize filePointer : ℕ} {offset : Int32}

theorem offsetSum_of_nonneg {pointer : ℕ} (hlow : 0 ≤ pointer + offset.toInt)
    (hhigh : pointer + offset.toInt < 2 ^ 32) :
    (offsetSum pointer offset : ℤ) = pointer + offset.toInt := by
  rw [offsetSum, Int.emod_eq_of_lt hlow hhigh, Int.toNat_of_nonneg hlow]

/-- A sum that wraps around. -/
theorem offsetSum_of_le {pointer : ℕ} (hpointer : pointer < 2 ^ 32)
    (hwrap : 2 ^ 32 ≤ pointer + offset.toInt) :
    (offsetSum pointer offset : ℤ) = pointer + offset.toInt - 2 ^ 32 := by
  have hoffset := offset.toInt_lt
  rw [offsetSum]
  omega

theorem seekPointer_seekSet (hfilesize : filesize < 2 ^ 32) :
    seekPointer filesize filePointer offset .seekSet =
      clampedPointer filesize filePointer offset .seekSet := by
  have hsign : offset < 0 ↔ offset.toInt < 0 := Int32.lt_iff_toInt_lt
  simp only [seekPointer, clampedPointer, seekOrigin, hsign]
  split
  · omega
  · split
    · omega
    · have hsum := @offsetSum_of_nonneg offset 0 (by omega) (by omega)
      omega

theorem seekPointer_seekEnd (hfilesize : filesize < 2 ^ 32) :
    seekPointer filesize filePointer offset .seekEnd =
      clampedPointer filesize filePointer offset .seekEnd := by
  have hsign : offset ≥ 0 ↔ 0 ≤ offset.toInt := Int32.le_iff_toInt_le
  simp only [seekPointer, clampedPointer, seekOrigin, hsign]
  split
  · omega
  · split
    · omega
    · have hsum := @offsetSum_of_nonneg offset filesize (by omega) (by omega)
      omega

/-- A relative seek is clamped as long as the sum is a number of 32 bits. -/
theorem seekPointer_seekCur_iff (hfilesize : filesize < 2 ^ 32)
    (hpointer : filePointer ≤ filesize) :
    seekPointer filesize filePointer offset .seekCur =
        clampedPointer filesize filePointer offset .seekCur ↔
      filePointer + offset.toInt < 2 ^ 32 := by
  have hoffset := offset.toInt_lt
  simp only [seekPointer, clampedPointer, seekOrigin]
  split
  · omega
  · by_cases hwrap : filePointer + offset.toInt < 2 ^ 32
    · have hsum := offsetSum_of_nonneg (by omega) hwrap
      split <;> omega
    · -- the wrapped sum lies in front of the old pointer
      have hsum := offsetSum_of_le (by omega) (not_lt.mp hwrap)
      split <;> omega

/-- The pointer never leaves the file. -/
theorem seekPointer_le (hfilesize : filesize < 2 ^ 32) (hpointer : filePointer ≤ filesize)
    (mode : SeekMode) : seekPointer filesize filePointer offset mode ≤ filesize := by
  cases mode with
  | seekSet =>
      rw [seekPointer_seekSet hfilesize, clampedPointer]
      omega
  | seekEnd =>
      rw [seekPointer_seekEnd hfilesize, clampedPointer]
      omega
  | seekCur =>
      simp only [seekPointer]
      split <;> [omega; (split <;> omega)]

/-- A seek is clamped exactly if it is not one from the current pointer to a position
from `2^32` on. -/
theorem fatSeek_clamped_iff {file : File} {fi : FatFileInfo} (hfile : file.fsContext = some fi)
    (hfilesize : fi.filesize < 2 ^ 32) (hpointer : file.filePointer ≤ fi.filesize)
    (offset : Int32) (mode : SeekMode) :
    fatSeek (some file) offset mode = some { file with
        filePointer := clampedPointer fi.filesize file.filePointer offset mode } ↔
      ¬ (mode = .seekCur ∧ 2 ^ 32 ≤ file.filePointer + offset.toInt) := by
  obtain ⟨mount, fsContext, filePointer⟩ := file
  obtain rfl : fsContext = some fi := hfile
  simp only [fatSeek, Option.map_some, Option.some.injEq, File.mk.injEq, true_and]
  cases mode with
  | seekSet => exact iff_of_true (seekPointer_seekSet hfilesize) fun hcur => by cases hcur.1
  | seekEnd => exact iff_of_true (seekPointer_seekEnd hfilesize) fun hcur => by cases hcur.1
  | seekCur =>
      rw [seekPointer_seekCur_iff hfilesize hpointer, ← not_le]
      exact not_congr (and_iff_right rfl).symm

/-- A file of `filesize` bytes that is opened and moved to a position. -/
def fileAt (filesize filePointer : ℕ) : File := ⟨none, some ⟨filesize, []⟩, filePointer⟩

/-- Five bytes back from the end of a file of two bytes. -/
theorem fatSeek_clamped_iff_twoBytes :
    fatSeek (some (fileAt 2 2)) (-5) .seekCur = some (fileAt 2 0) ↔
      ¬ (SeekMode.seekCur = .seekCur ∧ 2 ^ 32 ≤ ((2 : ℕ) : ℤ) + (-5 : Int32).toInt) :=
  @fatSeek_clamped_iff (fileAt 2 2) ⟨2, []⟩ rfl (by decide) (by decide) (-5) .seekCur

/-- One byte on from the end of the longest file leads to its start. -/
theorem not_fatSeek_clamped :
    ¬ ∀ (filesize filePointer : ℕ) (offset : Int32) (mode : SeekMode), filesize < 2 ^ 32 →
      filePointer ≤ filesize → fatSeek (some (fileAt filesize filePointer)) offset mode =
        some (fileAt filesize (clampedPointer filesize filePointer offset mode)) := by
  intro hclamps
  have hlast := hclamps 0xFFFFFFFF 0xFFFFFFFF 1 .seekCur (by decide) le_rfl
  simp only [fatSeek, fileAt, Option.map_some, Option.some.injEq, File.mk.injEq, true_and] at hlast
  exact absurd hlast (by decide)

end GeexOS.Fat
