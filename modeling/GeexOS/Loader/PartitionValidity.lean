import GeexOS.Loader.Partitions
import Mathlib.Data.Set.Disjoint
import Mathlib.Order.CompletePartialOrder
import Mathlib.Order.Interval.Set.Disjoint

/-!
# Which partition tables are taken

A table is well formed if it has a partition, if every partition lies on the
disk and if no two of them share a sector.  The loader decides this by last
sectors in 32-bit arithmetic, and it compares each partition with the ones
behind it in the table only.
-/

namespace GeexOS.Fat

open GeexOS.Words

/-! ## Well-formed tables -/

namespace MbrPartition

/-- The first sector behind the partition. -/
def nextLBA (partition : MbrPartition) : ℕ :=
  partition.startingLBA + partition.sizeInLBA

def sectors (partition : MbrPartition) : Set ℕ :=
  Set.Ico partition.startingLBA partition.nextLBA

/-- Both numbers fit into their fields, and there is at least one sector. -/
structure Bounded (partition : MbrPartition) : Prop where
  start_lt : partition.startingLBA < 2 ^ 32
  size_lt : partition.sizeInLBA < 2 ^ 32
  size_pos : 0 < partition.sizeInLBA

/-- The test of the inner loop: `later` is behind `earlier` in the table. -/
def Collides (earlier later : MbrPartition) : Prop :=
  earlier.startingLBA ≤ u32 later.nextLBA ∧ later.startingLBA ≤ earlier.endLBA

end MbrPartition

open MbrPartition

def mbrTable (mbr : List UInt8) : List MbrPartition :=
  (List.range 4).map (mbrPartition mbr)

structure WellFormedTable (totalSectors : ℕ) (table : List MbrPartition) : Prop where
  exists_used : ∃ partition ∈ table, partition.used = true
  next_le : ∀ partition ∈ table, partition.used = true → partition.nextLBA ≤ totalSectors
  disjoint : table.Pairwise fun earlier later =>
    earlier.used = true → later.used = true → Disjoint earlier.sectors later.sectors

/-- Some partition ends just where one before it in the table starts. -/
def EndsAtEarlier (table : List MbrPartition) : Prop :=
  ¬ table.Pairwise fun earlier later =>
    earlier.used = true → later.used = true → later.nextLBA ≠ earlier.startingLBA

/-- Some partition runs over the 32 bits of a sector number, and the sums without their
carries look like those of partitions that lie on the disk and apart from each other. -/
structure WrapsAround (totalSectors : ℕ) (table : List MbrPartition) : Prop where
  exists_carry : ∃ partition ∈ table, partition.used = true ∧ 2 ^ 32 < partition.nextLBA
  last_lt : ∀ partition ∈ table, partition.used = true →
    (partition.nextLBA - 1) % 2 ^ 32 < totalSectors
  apart : table.Pairwise fun earlier later =>
    earlier.used = true → later.used = true →
      later.nextLBA % 2 ^ 32 < earlier.startingLBA ∨
        (earlier.nextLBA - 1) % 2 ^ 32 < later.startingLBA

/-! ## The loop -/

variable {totalSectors : ℕ} {table : List MbrPartition}

theorem MbrPartition.size_ne_zero {partition : MbrPartition} (hused : partition.used = true) :
    partition.sizeInLBA ≠ 0 := by
  simp only [used, Bool.and_eq_true, decide_eq_true_eq] at hused
  exact hused.2

theorem bounded_of_mem {mbr : List UInt8} {partition : MbrPartition}
    (hmem : partition ∈ mbrTable mbr) (hused : partition.used = true) :
    partition.Bounded := by
  obtain ⟨index, -, rfl⟩ := List.mem_map.mp hmem
  exact ⟨word32_lt _ _, word32_lt _ _, Nat.pos_of_ne_zero (size_ne_zero hused)⟩

theorem validLoop_iff (totalSectors : ℕ) (valid : Bool) (table : List MbrPartition) :
    validLoop totalSectors valid table = true ↔
      (valid = true ∨ ∃ partition ∈ table, partition.used = true) ∧
      (∀ partition ∈ table, partition.used = true → partition.endLBA < totalSectors) ∧
      table.Pairwise fun earlier later =>
        earlier.used = true → later.used = true → ¬ earlier.Collides later := by
  induction table generalizing valid with
  | nil => simp [validLoop]
  | cons partition rest ih =>
      rw [validLoop]
      by_cases hused : partition.used = true
      · by_cases hlast : partition.endLBA ≥ totalSectors
        · simp [hused, hlast]
        · have hrest : (rest.any fun other => other.used &&
              (decide (u32 (other.startingLBA + other.sizeInLBA) ≥ partition.startingLBA) &&
                decide (other.startingLBA ≤ partition.endLBA))) = true ↔
              ¬ ∀ other ∈ rest, partition.used = true → other.used = true →
                ¬ partition.Collides other := by
            simp [hused, Collides, nextLBA]
          by_cases hany : ∀ other ∈ rest, partition.used = true → other.used = true →
              ¬ partition.Collides other
          · rw [if_neg (by simp [hused]), if_neg hlast, if_neg (fun h => hrest.mp h hany), ih,
              List.pairwise_cons]
            have hinside : partition.endLBA < totalSectors := Nat.lt_of_not_le hlast
            simp only [true_or, true_and, List.mem_cons, exists_eq_or_imp, hused, or_true,
              forall_eq_or_imp, hinside, forall_const]
            rw [and_congr_right_iff]
            exact fun _ => (and_iff_right fun other hmem => hany other hmem hused).symm
          · rw [if_neg (by simp [hused]), if_neg hlast, if_pos (hrest.mpr hany),
              List.pairwise_cons]
            simp only [Bool.false_eq_true, false_iff]
            exact fun h => hany h.2.2.1
      · rw [if_pos (by simpa using hused), ih, List.pairwise_cons]
        simp [hused]

namespace MbrPartition

variable {partition earlier later : MbrPartition}

theorem Bounded.next_pos (hbounded : partition.Bounded) : 0 < partition.nextLBA :=
  Nat.add_pos_right _ hbounded.size_pos

theorem Bounded.next_lt (hbounded : partition.Bounded) : partition.nextLBA < 2 ^ 33 := by
  have hstart := hbounded.start_lt
  have hsize := hbounded.size_lt
  rw [nextLBA]
  omega

theorem Bounded.endLBA_eq (hbounded : partition.Bounded) :
    partition.endLBA = (partition.nextLBA - 1) % 2 ^ 32 := by
  have hpos := hbounded.next_pos
  have hlt := hbounded.next_lt
  change sub32 (u32 partition.nextLBA) 1 = _
  simp only [sub32, u32]
  omega

theorem Bounded.disjoint_iff (hearlier : earlier.Bounded) (hlater : later.Bounded) :
    Disjoint earlier.sectors later.sectors ↔
      earlier.nextLBA ≤ later.startingLBA ∨ later.nextLBA ≤ earlier.startingLBA := by
  have hfirst := hearlier.size_pos
  have hsecond := hlater.size_pos
  simp only [sectors, nextLBA, Set.Ico_disjoint_Ico]
  omega

/-- Partitions without a carry collide if they overlap, or if the later one ends where the
earlier one starts. -/
theorem Bounded.not_collides_iff (hearlier : earlier.Bounded) (hlater : later.Bounded)
    (hfirst : earlier.nextLBA < 2 ^ 32) (hsecond : later.nextLBA < 2 ^ 32) :
    ¬ earlier.Collides later ↔
      Disjoint earlier.sectors later.sectors ∧ later.nextLBA ≠ earlier.startingLBA := by
  have hpos := hearlier.next_pos
  have hearlierSize := hearlier.size_pos
  have hlaterSize := hlater.size_pos
  rw [hearlier.disjoint_iff hlater, Collides, hearlier.endLBA_eq, u32]
  simp only [nextLBA] at *
  omega

end MbrPartition

variable (hbounded : ∀ partition ∈ table, partition.used = true → partition.Bounded)

include hbounded

/-- With a carry, the loop tests the sums without it. -/
theorem validLoop_iff_wrapsAround
    (hcarry : ∃ partition ∈ table, partition.used = true ∧ 2 ^ 32 < partition.nextLBA) :
    validLoop totalSectors false table = true ↔ WrapsAround totalSectors table := by
  have hlast : (∀ partition ∈ table, partition.used = true →
        partition.endLBA < totalSectors) ↔
      ∀ partition ∈ table, partition.used = true →
        (partition.nextLBA - 1) % 2 ^ 32 < totalSectors :=
    forall₃_congr fun partition hmem hused => by rw [(hbounded partition hmem hused).endLBA_eq]
  have hapart : (table.Pairwise fun earlier later =>
        earlier.used = true → later.used = true → ¬ earlier.Collides later) ↔
      table.Pairwise fun earlier later => earlier.used = true → later.used = true →
        later.nextLBA % 2 ^ 32 < earlier.startingLBA ∨
          (earlier.nextLBA - 1) % 2 ^ 32 < later.startingLBA := by
    refine List.Pairwise.iff_of_mem fun {earlier later} hearlier _ =>
      forall₂_congr fun hused _ => ?_
    rw [Collides, (hbounded earlier hearlier hused).endLBA_eq, u32]
    omega
  rw [validLoop_iff, hlast, hapart]
  constructor
  · rintro ⟨-, hlast, hapart⟩
    exact ⟨hcarry, hlast, hapart⟩
  · rintro ⟨-, hlast, hapart⟩
    obtain ⟨partition, hmem, hused, -⟩ := hcarry
    exact ⟨Or.inr ⟨partition, hmem, hused⟩, hlast, hapart⟩

/-- Without a carry, the loop refuses one kind of well-formed tables. -/
theorem validLoop_iff_wellFormed (htotal : totalSectors < 2 ^ 32)
    (hcarry : ¬ ∃ partition ∈ table, partition.used = true ∧ 2 ^ 32 < partition.nextLBA) :
    validLoop totalSectors false table = true ↔
      WellFormedTable totalSectors table ∧ ¬ EndsAtEarlier table := by
  have hlast : (∀ partition ∈ table, partition.used = true →
        partition.endLBA < totalSectors) ↔
      ∀ partition ∈ table, partition.used = true → partition.nextLBA ≤ totalSectors := by
    refine forall₃_congr fun partition hmem hused => ?_
    have hnext : partition.nextLBA ≤ 2 ^ 32 :=
      Nat.le_of_not_lt fun hlt => hcarry ⟨partition, hmem, hused, hlt⟩
    have hpos := (hbounded partition hmem hused).next_pos
    rw [(hbounded partition hmem hused).endLBA_eq]
    omega
  have hapart (hinside : ∀ partition ∈ table, partition.used = true →
        partition.nextLBA ≤ totalSectors) :
      (table.Pairwise fun earlier later =>
        earlier.used = true → later.used = true → ¬ earlier.Collides later) ↔
      (table.Pairwise fun earlier later =>
        earlier.used = true → later.used = true →
          Disjoint earlier.sectors later.sectors) ∧
      table.Pairwise fun earlier later =>
        earlier.used = true → later.used = true → later.nextLBA ≠ earlier.startingLBA := by
    rw [← List.pairwise_and_iff]
    refine List.Pairwise.iff_of_mem fun {earlier later} hearlier hlater => ?_
    rw [← forall₂_and]
    refine forall₂_congr fun hfirst hsecond => ?_
    exact (hbounded earlier hearlier hfirst).not_collides_iff (hbounded later hlater hsecond)
      ((hinside earlier hearlier hfirst).trans_lt htotal)
      ((hinside later hlater hsecond).trans_lt htotal)
  rw [validLoop_iff, hlast, EndsAtEarlier, not_not]
  constructor
  · rintro ⟨hused, hinside, hcollides⟩
    obtain ⟨hdisjoint, hends⟩ := (hapart hinside).mp hcollides
    exact ⟨⟨hused.resolve_left Bool.false_ne_true, hinside, hdisjoint⟩, hends⟩
  · rintro ⟨hwell, hends⟩
    exact ⟨Or.inr hwell.exists_used, hwell.next_le,
      (hapart hwell.next_le).mpr ⟨hwell.disjoint, hends⟩⟩

omit hbounded

/-! ## The decision -/

theorem mbrIsValid_eq (mbr : List UInt8) (totalSectors : ℕ) :
    mbrIsValid mbr totalSectors = true ↔
      word16 mbr 510 = mbrSignature ∧ validLoop totalSectors false (mbrTable mbr) = true := by
  rw [mbrIsValid, Bool.and_eq_true, decide_eq_true_iff, mbrTable]

/-- The loader decides the well-formedness of a table right, except for two kinds of
tables: well-formed ones that it refuses and ones with a carry that it takes. -/
theorem mbrIsValid_iff_wellFormed (mbr : List UInt8) {totalSectors : ℕ}
    (htotal : totalSectors < 2 ^ 32) :
    (mbrIsValid mbr totalSectors = true ↔
        word16 mbr 510 = mbrSignature ∧ WellFormedTable totalSectors (mbrTable mbr)) ↔
      (word16 mbr 510 = mbrSignature →
        ¬ (WellFormedTable totalSectors (mbrTable mbr) ∧ EndsAtEarlier (mbrTable mbr)) ∧
        ¬ WrapsAround totalSectors (mbrTable mbr)) := by
  have hbounded : ∀ partition ∈ mbrTable mbr, partition.used = true → partition.Bounded :=
    fun _ => bounded_of_mem
  rw [mbrIsValid_eq]
  by_cases hcarry : ∃ partition ∈ mbrTable mbr,
      partition.used = true ∧ 2 ^ 32 < partition.nextLBA
  · have hmalformed : ¬ WellFormedTable totalSectors (mbrTable mbr) := by
      obtain ⟨partition, hmem, hused, hlt⟩ := hcarry
      intro hwell
      have hle := hwell.next_le partition hmem hused
      omega
    rw [validLoop_iff_wrapsAround hbounded hcarry]
    tauto
  · have hwraps : ¬ WrapsAround totalSectors (mbrTable mbr) :=
      fun hwraps => hcarry hwraps.exists_carry
    rw [validLoop_iff_wellFormed hbounded htotal hcarry]
    tauto

/-- Sectors 2048 to 4095 come first in the table, and sectors 1024 to 2047 second. -/
def adjacentSector : List UInt8 :=
  List.replicate 446 0 ++
    [0, 0, 0, 0, 0x83, 0, 0, 0, 0, 8, 0, 0, 0, 8, 0, 0] ++
    [0, 0, 0, 0, 0x83, 0, 0, 0, 0, 4, 0, 0, 0, 4, 0, 0] ++
    List.replicate 32 0 ++ [0x55, 0xAA]

theorem mbrTable_adjacentSector :
    mbrTable adjacentSector =
      [⟨0x83, 2048, 2048⟩, ⟨0x83, 1024, 1024⟩, ⟨0, 0, 0⟩, ⟨0, 0, 0⟩] := by
  decide +kernel

theorem wellFormed_adjacentSector : WellFormedTable 4096 (mbrTable adjacentSector) := by
  rw [mbrTable_adjacentSector]
  refine ⟨⟨_, List.mem_cons_self, rfl⟩, by decide, ?_⟩
  simp [MbrPartition.used, MbrPartition.sectors, MbrPartition.nextLBA]

/-- A partition in front of an earlier one is taken for one that overlaps it. -/
theorem adjacentSector_refused :
    ¬ ∀ (mbr : List UInt8) (totalSectors : ℕ), mbr.length = 512 → totalSectors < 2 ^ 32 →
      (mbrIsValid mbr totalSectors = true ↔
        word16 mbr 510 = mbrSignature ∧ WellFormedTable totalSectors (mbrTable mbr)) := by
  intro hall
  have hrefused : mbrIsValid adjacentSector 4096 = false := by decide +kernel
  have hiff := hall adjacentSector 4096 (by decide +kernel) (by norm_num)
  rw [hrefused] at hiff
  exact Bool.false_ne_true (hiff.mpr ⟨by decide +kernel, wellFormed_adjacentSector⟩)

theorem mbrIsValid_iff_wellFormed_adjacentSector :
    (mbrIsValid adjacentSector 4096 = true ↔
        word16 adjacentSector 510 = mbrSignature ∧
          WellFormedTable 4096 (mbrTable adjacentSector)) ↔
      (word16 adjacentSector 510 = mbrSignature →
        ¬ (WellFormedTable 4096 (mbrTable adjacentSector) ∧
            EndsAtEarlier (mbrTable adjacentSector)) ∧
        ¬ WrapsAround 4096 (mbrTable adjacentSector)) :=
  mbrIsValid_iff_wellFormed adjacentSector (by norm_num)

end GeexOS.Fat
