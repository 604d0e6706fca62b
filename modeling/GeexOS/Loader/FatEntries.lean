import GeexOS.Loader.FatFile

/-!
# Entries of the file allocation table

The entries lie one behind the other in the sectors of the table.  Two entries of
12 bits share three bytes, and such an entry may begin in one sector and end in
the next one.
-/

namespace GeexOS.Fat

open GeexOS.Words
open GeexOS.Halting

/-- A byte of the active table. -/
def fatTableByte (device : DiskDevice) (volume : FatVolumeInformation) (offset : ℕ) : ℕ :=
  (device.content (volume.activeFatSectorStart * volume.bytesPerSector + offset)).toNat

namespace FatType

/-- Where the entry of a cluster begins. -/
def entryOffset (cluster : ℕ) : FatType → ℕ
  | fat12 => cluster + cluster / 2
  | fat16 => 2 * cluster
  | fat32 => 4 * cluster

/-- The bytes that an entry is in. -/
def entryBytes : FatType → ℕ
  | fat12 => 2
  | fat16 => 2
  | fat32 => 4

def entryBits : FatType → ℕ
  | fat12 => 12
  | fat16 => 16
  | fat32 => 28

end FatType

/-- The value in the table at the place of a cluster, lower bytes first.  An entry of
12 bits has the low part of its second byte, or the high part of its first one.  The
four highest bits of an entry of 28 bits are not its own. -/
def Stored (byte : ℕ → ℕ) (cluster value : ℕ) : FatType → Prop
  | .fat12 =>
      if cluster % 2 = 0 then
        byte (cluster + cluster / 2) = value % 2 ^ 8 ∧
          byte (cluster + cluster / 2 + 1) % 2 ^ 4 = value / 2 ^ 8
      else
        byte (cluster + cluster / 2) / 2 ^ 4 = value % 2 ^ 4 ∧
          byte (cluster + cluster / 2 + 1) = value / 2 ^ 4
  | .fat16 =>
      byte (2 * cluster) = value % 2 ^ 8 ∧ byte (2 * cluster + 1) = value / 2 ^ 8
  | .fat32 =>
      byte (4 * cluster) = value % 2 ^ 8 ∧ byte (4 * cluster + 1) = value / 2 ^ 8 % 2 ^ 8 ∧
        byte (4 * cluster + 2) = value / 2 ^ 16 % 2 ^ 8 ∧
          byte (4 * cluster + 3) % 2 ^ 4 = value / 2 ^ 24

/-- The entries are in the table in order. -/
def PackedTable (device : DiskDevice) (volume : FatVolumeInformation) (entries : List ℕ) :
    Prop :=
  ∀ cluster value, entries[cluster]? = some value →
    value < 2 ^ volume.fatType.entryBits ∧
      Stored (fatTableByte device volume) cluster value volume.fatType

/-- A sector with a byte of the entry. -/
def HoldsPart (volume : FatVolumeInformation) (cluster sector : ℕ) : Prop :=
  ∃ i < volume.fatType.entryBytes, sector = volume.activeFatSectorStart +
    (volume.fatType.entryOffset cluster + i) / volume.bytesPerSector

instance (volume : FatVolumeInformation) (cluster sector : ℕ) :
    Decidable (HoldsPart volume cluster sector) :=
  inferInstanceAs (Decidable (∃ i < _, _))

/-- The device refuses every read of another sector. -/
def DiskDevice.onlySectors (device : DiskDevice) (allowed : ℕ → Bool) : DiskDevice :=
  { device with
    readable := fun startSector sectorCount => device.readable startSector sectorCount &&
      (List.range sectorCount).all fun i => allowed (startSector + i) }

variable {device : DiskDevice} {volume : FatVolumeInformation}
variable {entries : List ℕ} {cluster value startSector sectorCount offset fatOffset : ℕ}

/-! ## Reading -/

theorem getD_readSectors {buffer : List UInt8}
    (hread : device.readSectors startSector sectorCount = some buffer)
    (hoffset : offset < sectorCount * device.bytesPerSector) :
    buffer.getD offset 0 =
      device.content (startSector * device.bytesPerSector + offset) := by
  rw [DiskDevice.readSectors] at hread
  split at hread
  · rw [← Option.some.inj hread, List.getD_eq_getElem?_getD, List.getElem?_map,
      List.getElem?_range hoffset]
    rfl
  · cases hread

/-- The sectors read are the ones around the offset, and the bytes behind the offset are
those of the table. -/
theorem readFatSectors_eq (hsector : device.bytesPerSector = volume.bytesPerSector)
    (hpos : 0 < volume.bytesPerSector) (straddles : Bool)
    (hnumber : volume.activeFatSectorStart + fatOffset / volume.bytesPerSector < 2 ^ 32)
    (hreadable : ∀ sectorCount, sectorCount = 1 ∨
        sectorCount = 2 ∧ straddles = true ∧
          fatOffset % volume.bytesPerSector = volume.bytesPerSector - 1 →
      device.readable (volume.activeFatSectorStart + fatOffset / volume.bytesPerSector)
        sectorCount = true) :
    ∃ buffer, readFatSectors device volume fatOffset straddles =
        .ok (some (buffer, fatOffset % volume.bytesPerSector)) ∧
      ∀ i, (fatOffset % volume.bytesPerSector + i < volume.bytesPerSector ∨
          straddles = true ∧ i = 1) →
        (buffer.getD (fatOffset % volume.bytesPerSector + i) 0).toNat =
          fatTableByte device volume (fatOffset + i) := by
  have hlow := Nat.mod_lt fatOffset hpos
  have hsplit := Nat.div_add_mod' fatOffset volume.bytesPerSector
  obtain ⟨sectorCount, hcount, hcases⟩ : ∃ sectorCount,
      (if straddles && fatOffset % volume.bytesPerSector = volume.bytesPerSector - 1
        then 2 else 1) = sectorCount ∧ (sectorCount = 1 ∧
          ¬ (straddles = true ∧
            fatOffset % volume.bytesPerSector = volume.bytesPerSector - 1) ∨
        sectorCount = 2 ∧ straddles = true ∧
          fatOffset % volume.bytesPerSector = volume.bytesPerSector - 1) := by
    by_cases hboth : straddles = true ∧
        fatOffset % volume.bytesPerSector = volume.bytesPerSector - 1
    · exact ⟨2, by simp [hboth], Or.inr ⟨rfl, hboth⟩⟩
    · exact ⟨1, by simpa using hboth, Or.inl ⟨rfl, hboth⟩⟩
  have hallowed := hreadable sectorCount (hcases.imp And.left id)
  obtain ⟨buffer, hread⟩ : ∃ buffer, device.readSectors
      (volume.activeFatSectorStart + fatOffset / volume.bytesPerSector) sectorCount =
        some buffer := ⟨_, by rw [DiskDevice.readSectors, if_pos hallowed]⟩
  refine ⟨buffer, ?_, fun i hi => ?_⟩
  · rw [readFatSectors, if_neg hpos.ne']
    simp only [u32_of_lt hnumber, hcount, hread, Option.map_some]
  · have hinside : fatOffset % volume.bytesPerSector + i <
        sectorCount * device.bytesPerSector := by
      rw [hsector]
      rcases hcases with ⟨rfl, hnot⟩ | ⟨rfl, _, _⟩
      · rcases hi with hi | ⟨hstraddles, rfl⟩
        · omega
        · have hne : fatOffset % volume.bytesPerSector ≠ volume.bytesPerSector - 1 :=
            fun heq => hnot ⟨hstraddles, heq⟩
          omega
      · omega
    rw [getD_readSectors hread hinside, fatTableByte, hsector, Nat.add_mul]
    congr 2
    omega

/-! ## Decoding -/

/-- The two bytes of an entry of 12 bits. -/
theorem decode_fat12 {byte : ℕ → ℕ} (hstored : Stored byte cluster value .fat12)
    (hbits : value < 2 ^ 12) :
    (if cluster &&& 1 ≠ 0 then
        (byte (cluster + cluster / 2) + 2 ^ 8 * byte (cluster + cluster / 2 + 1)) >>> 4
      else (byte (cluster + cluster / 2) + 2 ^ 8 * byte (cluster + cluster / 2 + 1)) &&& 0xFFF) =
      value := by
  have hmask : ∀ word, word &&& 0xFFF = word % 2 ^ 12 := fun word =>
    Nat.and_two_pow_sub_one_eq_mod word 12
  rw [Nat.and_one_is_mod, hmask, Nat.shiftRight_eq_div_pow]
  rw [Stored] at hstored
  by_cases heven : cluster % 2 = 0
  · rw [if_pos heven] at hstored
    rw [if_neg (not_not.mpr heven)]
    omega
  · rw [if_neg heven] at hstored
    rw [if_pos heven]
    omega

/-- The four bytes of an entry of 28 bits. -/
theorem decode_fat32 {byte : ℕ → ℕ} (hstored : Stored byte cluster value .fat32)
    (hbits : value < 2 ^ 28) :
    (byte (4 * cluster) + 2 ^ 8 * byte (4 * cluster + 1) +
      2 ^ 16 * (byte (4 * cluster + 2) + 2 ^ 8 * byte (4 * cluster + 3))) &&& 0x0FFFFFFF =
      value := by
  have hmask : ∀ word, word &&& 0x0FFFFFFF = word % 2 ^ 28 := fun word =>
    Nat.and_two_pow_sub_one_eq_mod word 28
  rw [hmask]
  obtain ⟨hfirst, hsecond, hthird, hfourth⟩ := hstored
  omega

/-- An entry inside of a sector does not go on in the next one. -/
theorem mod_add_lt {size width index i : ℕ} (hdvd : width ∣ size) (hpos : 0 < size)
    (hi : i < width) : width * index % size + i < size := by
  obtain ⟨count, rfl⟩ := hdvd
  rw [Nat.mul_mod_mul_left]
  have hcount : 0 < count := Nat.pos_of_mul_pos_left hpos
  have hlow := Nat.mod_lt index hcount
  calc width * (index % count) + i < width * (index % count) + width :=
        Nat.add_lt_add_left hi _
    _ = width * (index % count + 1) := by rw [Nat.mul_add, Nat.mul_one]
    _ ≤ width * count := Nat.mul_le_mul_left width hlow

/-- The sector that an entry begins in. -/
theorem holdsPart_first : HoldsPart volume cluster (volume.activeFatSectorStart +
    volume.fatType.entryOffset cluster / volume.bytesPerSector) :=
  ⟨0, by cases volume.fatType <;> decide, rfl⟩

/-- The sector behind it, when the first byte of the entry is the last one there. -/
theorem holdsPart_next (hpos : 0 < volume.bytesPerSector)
    (hlast : volume.fatType.entryOffset cluster % volume.bytesPerSector =
      volume.bytesPerSector - 1) :
    HoldsPart volume cluster (volume.activeFatSectorStart +
      volume.fatType.entryOffset cluster / volume.bytesPerSector + 1) := by
  refine ⟨1, by cases volume.fatType <;> decide, ?_⟩
  have hsplit := Nat.div_add_mod' (volume.fatType.entryOffset cluster) volume.bytesPerSector
  have hnext : volume.fatType.entryOffset cluster + 1 =
      (volume.fatType.entryOffset cluster / volume.bytesPerSector + 1) *
        volume.bytesPerSector := by
    rw [Nat.add_mul, Nat.one_mul]
    omega
  rw [hnext, Nat.mul_div_cancel _ hpos, Nat.add_assoc]

/-- What `readFatSectors` reads for the entry may be read. -/
theorem readable_of_holdsPart (hpos : 0 < volume.bytesPerSector)
    (hreadable : ∀ startSector sectorCount,
      (∀ i < sectorCount, HoldsPart volume cluster (startSector + i)) →
        device.readable startSector sectorCount = true) (straddles : Bool) :
    ∀ sectorCount, sectorCount = 1 ∨ sectorCount = 2 ∧ straddles = true ∧
        volume.fatType.entryOffset cluster % volume.bytesPerSector =
          volume.bytesPerSector - 1 →
      device.readable (volume.activeFatSectorStart +
        volume.fatType.entryOffset cluster / volume.bytesPerSector) sectorCount = true := by
  rintro sectorCount (rfl | ⟨rfl, _, hlast⟩)
  · refine hreadable _ _ fun i hi => ?_
    obtain rfl := Nat.lt_one_iff.mp hi
    exact holdsPart_first
  · refine hreadable _ _ fun i hi => ?_
    rcases Nat.lt_succ_iff_lt_or_eq.mp hi with hzero | rfl
    · obtain rfl := Nat.lt_one_iff.mp hzero
      exact holdsPart_first
    · exact holdsPart_next hpos hlast

section Decoding

variable (hsector : device.bytesPerSector = volume.bytesPerSector)
  (hpos : 0 < volume.bytesPerSector) (hdvd : 4 ∣ volume.bytesPerSector)
  (hstored : Stored (fatTableByte device volume) cluster value volume.fatType)
  (hoffset : volume.fatType.entryOffset cluster < 2 ^ 32)
  (hnumber : volume.activeFatSectorStart +
    volume.fatType.entryOffset cluster / volume.bytesPerSector < 2 ^ 32)
  (hreadable : ∀ startSector sectorCount,
    (∀ i < sectorCount, HoldsPart volume cluster (startSector + i)) →
      device.readable startSector sectorCount = true)
include hsector hpos hstored hoffset hnumber hreadable

theorem fatGetFatEntry_fat12 (htype : volume.fatType = .fat12) (hbits : value < 2 ^ 12) :
    fatGetFatEntry device volume cluster = .ok (some value) := by
  have hreads := readable_of_holdsPart hpos hreadable true
  rw [htype] at hstored hoffset hnumber hreads
  dsimp only [FatType.entryOffset] at hoffset hnumber hreads
  obtain ⟨buffer, hread, hbytes⟩ := readFatSectors_eq hsector hpos true hnumber hreads
  have hlow := hbytes 0 (Or.inl (by simpa using Nat.mod_lt _ hpos))
  have hhigh := hbytes 1 (Or.inr ⟨rfl, rfl⟩)
  simp only [Nat.add_zero] at hlow
  have hvalue := decode_fat12 hstored hbits
  rw [fatGetFatEntry, htype]
  simp only [u32_of_lt hoffset, hread, ok_bind, Option.map_some, word16, hlow, hhigh]
  rw [hvalue]

include hdvd

theorem fatGetFatEntry_fat16 (htype : volume.fatType = .fat16) :
    fatGetFatEntry device volume cluster = .ok (some value) := by
  have hreads := readable_of_holdsPart hpos hreadable false
  rw [htype] at hstored hoffset hnumber hreads
  simp only [FatType.entryOffset, Nat.mul_comm 2] at hoffset hnumber hreads
  have hinside : ∀ i < 2, cluster * 2 % volume.bytesPerSector + i <
      volume.bytesPerSector := fun i hi => by
    rw [Nat.mul_comm]
    exact mod_add_lt (dvd_trans (by decide) hdvd) hpos hi
  obtain ⟨buffer, hread, hbytes⟩ := readFatSectors_eq hsector hpos false hnumber hreads
  have hlow := hbytes 0 (Or.inl (hinside 0 (by decide)))
  have hhigh := hbytes 1 (Or.inl (hinside 1 (by decide)))
  obtain ⟨hfirst, hsecond⟩ := hstored
  rw [Nat.mul_comm] at hfirst hsecond
  have hword : fatTableByte device volume (cluster * 2) +
      2 ^ 8 * fatTableByte device volume (cluster * 2 + 1) = value := by omega
  simp only [Nat.add_zero] at hlow
  rw [fatGetFatEntry, htype]
  simp only [u32_of_lt hoffset, hread, ok_bind, Option.map_some, word16, hlow, hhigh, hword]

theorem fatGetFatEntry_fat32 (htype : volume.fatType = .fat32) (hbits : value < 2 ^ 28) :
    fatGetFatEntry device volume cluster = .ok (some value) := by
  have hreads := readable_of_holdsPart hpos hreadable false
  rw [htype] at hstored hoffset hnumber hreads
  simp only [FatType.entryOffset, Nat.mul_comm 4] at hoffset hnumber hreads
  have hinside : ∀ i < 4, cluster * 4 % volume.bytesPerSector + i <
      volume.bytesPerSector := fun i hi => by
    rw [Nat.mul_comm]
    exact mod_add_lt hdvd hpos hi
  obtain ⟨buffer, hread, hbytes⟩ := readFatSectors_eq hsector hpos false hnumber hreads
  have hzero := hbytes 0 (Or.inl (hinside 0 (by decide)))
  have hone := hbytes 1 (Or.inl (hinside 1 (by decide)))
  have htwo := hbytes 2 (Or.inl (hinside 2 (by decide)))
  have hthree : (buffer.getD (cluster * 4 % volume.bytesPerSector + 2 + 1) 0).toNat =
      fatTableByte device volume (cluster * 4 + 3) := hbytes 3 (Or.inl (hinside 3 (by decide)))
  have hvalue := decode_fat32 hstored hbits
  rw [Nat.mul_comm 4] at hvalue
  simp only [Nat.add_zero] at hzero
  rw [fatGetFatEntry, htype]
  simp only [u32_of_lt hoffset, hread, ok_bind, Option.map_some, word32, word16, hzero, hone,
    htwo, hthree, hvalue]

/-- The value stored is found, by reading sectors with a part of the entry. -/
theorem fatGetFatEntry_stored (hbits : value < 2 ^ volume.fatType.entryBits) :
    fatGetFatEntry device volume cluster = .ok (some value) := by
  cases htype : volume.fatType with
  | fat12 =>
      rw [htype] at hbits
      exact fatGetFatEntry_fat12 hsector hpos hstored hoffset hnumber hreadable htype hbits
  | fat16 => exact fatGetFatEntry_fat16 hsector hpos hdvd hstored hoffset hnumber hreadable htype
  | fat32 =>
      rw [htype] at hbits
      exact fatGetFatEntry_fat32 hsector hpos hdvd hstored hoffset hnumber hreadable htype hbits

end Decoding

/-- Each entry of a packed table is decoded, and no sector is read but those that hold
part of it. -/
theorem fatGetFatEntry_packed (hsector : device.bytesPerSector = volume.bytesPerSector)
    (hpos : 0 < volume.bytesPerSector) (hdvd : 4 ∣ volume.bytesPerSector)
    (hpacked : PackedTable device volume entries) (hentry : entries[cluster]? = some value)
    (hoffset : volume.fatType.entryOffset cluster < 2 ^ 32)
    (hnumber : volume.activeFatSectorStart +
      volume.fatType.entryOffset cluster / volume.bytesPerSector < 2 ^ 32)
    (hreadable : ∀ startSector sectorCount,
      (∀ i < sectorCount, HoldsPart volume cluster (startSector + i)) →
        device.readable startSector sectorCount = true) :
    fatGetFatEntry device volume cluster = .ok (some value) ∧
      fatGetFatEntry (device.onlySectors fun sector => HoldsPart volume cluster sector) volume
        cluster = .ok (some value) := by
  obtain ⟨hbits, hstored⟩ := hpacked cluster value hentry
  refine ⟨fatGetFatEntry_stored hsector hpos hdvd hstored hoffset hnumber hreadable hbits, ?_⟩
  have hsame : (device.onlySectors fun sector => HoldsPart volume cluster sector).bytesPerSector =
      volume.bytesPerSector := hsector
  refine fatGetFatEntry_stored hsame hpos hdvd hstored hoffset hnumber
    (fun startSector sectorCount hparts => ?_) hbits
  simp only [DiskDevice.onlySectors, Bool.and_eq_true, List.all_eq_true, List.mem_range,
    decide_eq_true_iff]
  exact ⟨hreadable startSector sectorCount hparts, hparts⟩

/-- Every byte of the table is `0xFF`, in sectors of 32 bytes. -/
def fullDevice : DiskDevice where
  bytesPerSector := 32
  content := fun _ => 0xFF
  readable := fun _ _ => true

def fullVolume : FatVolumeInformation where
  bytesPerSector := 32
  sectorsPerCluster := 1
  activeFatSectorStart := 1
  dataSectorStart := 3
  fatType := .fat12

theorem fullTable_packed : PackedTable fullDevice fullVolume (List.replicate 42 0xFFF) := by
  intro cluster value hentry
  obtain rfl : value = 0xFFF := List.eq_of_mem_replicate (List.mem_of_getElem? hentry)
  have hbyte : ∀ offset, fatTableByte fullDevice fullVolume offset = 0xFF := fun _ => rfl
  refine ⟨by decide, ?_⟩
  change Stored (fatTableByte fullDevice fullVolume) cluster 0xFFF .fat12
  simp only [Stored, hbyte]
  split <;> decide

/-- Entry 21 begins in the last byte of the first sector. -/
theorem fatGetFatEntry_packed_straddling :
    fatGetFatEntry fullDevice fullVolume 21 = .ok (some 0xFFF) ∧
      fatGetFatEntry (fullDevice.onlySectors fun sector => HoldsPart fullVolume 21 sector)
        fullVolume 21 = .ok (some 0xFFF) :=
  fatGetFatEntry_packed rfl (by decide) (by decide) fullTable_packed rfl (by decide) (by decide)
    (fun _ _ _ => rfl)

/-! ## Tables behind the 32-bit offsets -/

/-- All entries are 0 but the one at `2^30`. -/
def farDevice : DiskDevice where
  bytesPerSector := 512
  content := fun address => if address = 2 ^ 32 then 1 else 0
  readable := fun _ _ => true

def farVolume : FatVolumeInformation where
  bytesPerSector := 512
  sectorsPerCluster := 1
  activeFatSectorStart := 0
  dataSectorStart := 2 ^ 24
  fatType := .fat32

def farEntries : List ℕ := List.replicate (2 ^ 30) 0 ++ [1]

theorem fatTableByte_far (offset : ℕ) :
    fatTableByte farDevice farVolume offset = if offset = 2 ^ 32 then 1 else 0 := by
  have hplace : farVolume.activeFatSectorStart * farVolume.bytesPerSector + offset = offset :=
    Nat.zero_add offset
  rw [fatTableByte, hplace]
  simp only [farDevice]
  split <;> rfl

theorem farTable_packed : PackedTable farDevice farVolume farEntries := by
  intro cluster value hentry
  change value < 2 ^ 28 ∧ Stored (fatTableByte farDevice farVolume) cluster value .fat32
  simp only [Stored, fatTableByte_far]
  have hlength : (List.replicate (2 ^ 30) 0).length = 2 ^ 30 := List.length_replicate
  rw [farEntries] at hentry
  rcases Nat.lt_or_ge cluster (2 ^ 30) with hlow | hhigh
  · rw [List.getElem?_append_left (hlength.symm ▸ hlow),
      List.getElem?_replicate_of_lt hlow] at hentry
    obtain rfl := Option.some.inj hentry
    rw [if_neg (by omega), if_neg (by omega), if_neg (by omega), if_neg (by omega)]
    decide
  · rw [List.getElem?_append_right (hlength.symm ▸ hhigh), hlength,
      List.getElem?_singleton] at hentry
    split at hentry
    · obtain rfl := Option.some.inj hentry
      obtain rfl : cluster = 2 ^ 30 := by omega
      decide
    · cases hentry

/-- The byte offset of the entry at `2^30` is `2^32`, so that the first entry is found. -/
theorem fatGetFatEntry_far : fatGetFatEntry farDevice farVolume (2 ^ 30) = .ok (some 0) := by
  have hplace : (2 ^ 30 * 4) % 2 ^ 32 = 0 := by decide
  obtain ⟨buffer, hread, hbytes⟩ : ∃ buffer,
      readFatSectors farDevice farVolume 0 false = .ok (some (buffer, 0)) ∧
        ∀ i, (0 + i < 512 ∨ false = true ∧ i = 1) →
          (buffer.getD (0 + i) 0).toNat = fatTableByte farDevice farVolume (0 + i) :=
    readFatSectors_eq rfl (by decide) false (by decide) (fun _ _ => rfl)
  have hblank : ∀ i < 4, (buffer.getD i 0).toNat = 0 := by
    intro i hi
    have hbyte := hbytes i (Or.inl (by omega))
    rwa [Nat.zero_add, fatTableByte_far, if_neg (by omega)] at hbyte
  have htype : farVolume.fatType = .fat32 := rfl
  simp only [fatGetFatEntry, htype, u32, hplace, hread, ok_bind, Option.map_some, word32, word16,
    hblank 0 (by decide), hblank 1 (by decide), hblank 2 (by decide), hblank (2 + 1) (by decide)]
  rfl

/-- A table of more than `2^30` entries is not decoded to its end. -/
theorem not_fatGetFatEntry_packed :
    ¬ ∀ (device : DiskDevice) (volume : FatVolumeInformation) (entries : List ℕ)
      (cluster value : ℕ), device.bytesPerSector = volume.bytesPerSector →
      32 ≤ volume.bytesPerSector → 4 ∣ volume.bytesPerSector →
      (∀ startSector sectorCount, device.readable startSector sectorCount = true) →
      PackedTable device volume entries → entries[cluster]? = some value →
        fatGetFatEntry device volume cluster = .ok (some value) := by
  intro hdecodes
  have hentry : farEntries[2 ^ 30]? = some 1 := by
    have hlength : (List.replicate (2 ^ 30) 0).length = 2 ^ 30 := List.length_replicate
    rw [farEntries, List.getElem?_append_right hlength.le, hlength, Nat.sub_self]
    rfl
  have hdecoded := hdecodes farDevice farVolume farEntries (2 ^ 30) 1 rfl (by decide)
    (by decide) (fun _ _ => rfl) farTable_packed hentry
  rw [fatGetFatEntry_far] at hdecoded
  cases hdecoded

end GeexOS.Fat
