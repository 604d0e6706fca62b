import GeexOS.Loader.Partitions

/-!
# The partition table of a new image

The tool that makes a disk image writes a boot code and up to four partitions
into the first sector.  The loader reads the partitions of such a sector back,
unless there is none.
-/

namespace GeexOS.Mbr

open GeexOS.Words
open GeexOS.Fat

/-! ## The writer -/

structure PrimaryPartition where
  startSector : ℕ
  size : ℕ
  type : UInt8
  active : Bool

/-- The exceptions that the tool ends with. -/
inductive BuildError where
  | valueError (message : String)
  | indexError
  | structError
  deriving DecidableEq

structure MBR where
  mbrCode : List UInt8
  partitionList : List (Option PrimaryPartition)
  length_mbrCode : mbrCode.length = 512
  length_partitionList : partitionList.length = 4

namespace MBR

/-- `__init__`: a short code is filled up with zeros. -/
def init (mbrCode : List UInt8) : Except BuildError MBR :=
  if hlength : mbrCode.length > 512 then
    .error (.valueError "MBR code may not be bigger than 512 Byte")
  else
    .ok
      { mbrCode := mbrCode ++ List.replicate (512 - mbrCode.length) 0
        partitionList := [none, none, none, none]
        length_mbrCode := by
          rw [List.length_append, List.length_replicate]
          omega
        length_partitionList := rfl }

/-- The table has no place for index 4, which the test lets pass. -/
def setPartition (mbr : MBR) (index : ℤ) (partition : PrimaryPartition) :
    Except BuildError MBR :=
  if index < 0 ∨ index > 4 then .error (.valueError "Index for partition out of bounds")
  else if index = 4 then .error .indexError
  else
    .ok
      { mbr with
        partitionList := mbr.partitionList.set index.toNat (some partition)
        length_partitionList := by rw [List.length_set, mbr.length_partitionList] }

end MBR

def calcCHSValue (cylinders heads sectors : ℕ) : ℕ × ℕ × ℕ :=
  (heads, (cylinders &&& 0x300) >>> 2 ||| sectors, cylinders &&& 0xFF)

/-- Four bytes, the lowest one first. -/
def littleEndian (value : ℕ) : List UInt8 :=
  [UInt8.ofNat value, UInt8.ofNat (value / 2 ^ 8), UInt8.ofNat (value / 2 ^ 16),
    UInt8.ofNat (value / 2 ^ 24)]

/-- `struct.pack` with the format `<BBBBBBBBII`. -/
def structPack (activeByte : ℕ) (chsStart : ℕ × ℕ × ℕ) (type : UInt8) (chsEnd : ℕ × ℕ × ℕ)
    (startSector size : ℕ) : Except BuildError (List UInt8) :=
  if startSector < 2 ^ 32 ∧ size < 2 ^ 32 then
    .ok ([UInt8.ofNat activeByte, UInt8.ofNat chsStart.1, UInt8.ofNat chsStart.2.1,
        UInt8.ofNat chsStart.2.2, type, UInt8.ofNat chsEnd.1, UInt8.ofNat chsEnd.2.1,
        UInt8.ofNat chsEnd.2.2] ++ littleEndian startSector ++ littleEndian size)
  else .error .structError

/-- The loop of `getMBR` over the rest of the partitions. -/
def tableLoop (index : ℕ) : List (Option PrimaryPartition) → Except BuildError (List UInt8)
  | [] => .ok []
  | none :: rest => do
      let partitionTable ← tableLoop index rest
      .ok (List.replicate 16 0 ++ partitionTable)
  | some partition :: rest => do
      let activeByte := if partition.active then 0x80 else 0
      let chsStart := if index = 0 then calcCHSValue 0 1 1 else calcCHSValue 1023 254 63
      let chsEnd := calcCHSValue 1023 254 63
      let entry ← structPack activeByte chsStart partition.type chsEnd partition.startSector
        partition.size
      let partitionTable ← tableLoop (index + 1) rest
      .ok (entry ++ partitionTable)

def MBR.getMBR (mbr : MBR) : Except BuildError (List UInt8) := do
  let partitionTable ← tableLoop 0 mbr.partitionList
  .ok (mbr.mbrCode.take 446 ++ partitionTable ++ [0x55, 0xAA])

/-- The calls that make an image: a new object, the partitions one after the other, and
the sector. -/
def build (mbrCode : List UInt8) (partitions : List (ℕ × PrimaryPartition)) :
    Except BuildError (List UInt8) := do
  let mbr ← MBR.init mbrCode
  let mbr ← partitions.foldlM
    (fun (mbr : MBR) (entry : ℕ × PrimaryPartition) => mbr.setPartition entry.1 entry.2) mbr
  mbr.getMBR

/-! ## Entries -/

/-- What the loader is to find for a place of the table. -/
def entryOf : Option PrimaryPartition → MbrPartition
  | none => ⟨0, 0, 0⟩
  | some partition => ⟨partition.type, partition.startSector, partition.size⟩

/-- The entry in 16 bytes. -/
def decodeEntry (entry : List UInt8) : MbrPartition where
  osIndicator := entry.getD 4 0
  startingLBA := word32 entry 8
  sizeInLBA := word32 entry 12

/-- Both numbers fit into the fields of the table. -/
structure Fits (partition : PrimaryPartition) : Prop where
  startSector_lt : partition.startSector < 2 ^ 32
  size_lt : partition.size < 2 ^ 32

variable {slots : List (Option PrimaryPartition)} {entries : List (List UInt8)}

theorem toNat_littleEndian {value : ℕ} (hvalue : value < 2 ^ 32) :
    (UInt8.ofNat value).toNat + 2 ^ 8 * (UInt8.ofNat (value / 2 ^ 8)).toNat +
      2 ^ 16 * ((UInt8.ofNat (value / 2 ^ 16)).toNat +
        2 ^ 8 * (UInt8.ofNat (value / 2 ^ 24)).toNat) = value := by
  simp only [UInt8.toNat_ofNat']
  omega

theorem structPack_eq {partition : PrimaryPartition} (hfits : Fits partition)
    (activeByte : ℕ) (chsStart chsEnd : ℕ × ℕ × ℕ) :
    ∃ entry, structPack activeByte chsStart partition.type chsEnd partition.startSector
        partition.size = .ok entry ∧
      entry.length = 16 ∧ decodeEntry entry = entryOf (some partition) := by
  refine ⟨_, by rw [structPack, if_pos ⟨hfits.startSector_lt, hfits.size_lt⟩], rfl, ?_⟩
  simp only [decodeEntry, entryOf, MbrPartition.mk.injEq]
  exact ⟨rfl, toNat_littleEndian hfits.startSector_lt, toNat_littleEndian hfits.size_lt⟩

/-- The table is made of one entry for each place. -/
theorem tableLoop_eq (hfits : ∀ partition, some partition ∈ slots → Fits partition)
    (index : ℕ) :
    ∃ entries, tableLoop index slots = .ok entries.flatten ∧
      List.Forall₂ (fun slot entry => entry.length = 16 ∧ decodeEntry entry = entryOf slot)
        slots entries := by
  induction slots generalizing index with
  | nil => exact ⟨[], rfl, .nil⟩
  | cons slot slots ih =>
      have hrest : ∀ partition, some partition ∈ slots → Fits partition :=
        fun partition hmem => hfits partition (List.mem_cons_of_mem slot hmem)
      cases slot with
      | none =>
          obtain ⟨entries, htable, hentries⟩ := ih hrest index
          refine ⟨List.replicate 16 0 :: entries, ?_, .cons ⟨rfl, rfl⟩ hentries⟩
          rw [tableLoop, htable]
          rfl
      | some partition =>
          obtain ⟨entries, htable, hentries⟩ := ih hrest (index + 1)
          obtain ⟨entry, hpack, hlength, hdecode⟩ := structPack_eq
            (hfits partition List.mem_cons_self) (if partition.active then 0x80 else 0)
            (if index = 0 then calcCHSValue 0 1 1 else calcCHSValue 1023 254 63)
            (calcCHSValue 1023 254 63)
          refine ⟨entry :: entries, ?_, .cons ⟨hlength, hdecode⟩ hentries⟩
          rw [tableLoop, hpack, htable]
          rfl

/-- A byte of one of the entries. -/
theorem getD_flatten (front back : List UInt8) (hlength : ∀ entry ∈ entries, entry.length = 16)
    {i offset : ℕ} (hi : i < entries.length) (hoffset : offset < 16) :
    (front ++ entries.flatten ++ back).getD (front.length + 16 * i + offset) 0 =
      (entries.getD i []).getD offset 0 := by
  induction entries generalizing front i with
  | nil => simp at hi
  | cons entry entries ih =>
      have hentry : entry.length = 16 := hlength entry List.mem_cons_self
      cases i with
      | zero =>
          rw [List.flatten_cons, List.append_assoc, List.append_assoc, Nat.mul_zero, Nat.add_zero,
            List.getD_append_right _ _ _ _ (Nat.le_add_right _ _), Nat.add_sub_cancel_left,
            List.getD_append _ _ _ _ (hentry ▸ hoffset)]
          rfl
      | succ i =>
          have hstep := ih (front ++ entry)
            (fun other hother => hlength other (List.mem_cons_of_mem entry hother))
            (Nat.lt_of_succ_lt_succ hi)
          have hplace : (front ++ entry).length + 16 * i + offset =
              front.length + 16 * (i + 1) + offset := by
            rw [List.length_append, hentry]
            omega
          rw [hplace] at hstep
          rw [List.flatten_cons, ← List.append_assoc, hstep]
          rfl

/-- The loader's view of an entry. -/
theorem mbrPartition_flatten {front : List UInt8} (back : List UInt8)
    (hfront : front.length = 446) (hlength : ∀ entry ∈ entries, entry.length = 16) {i : ℕ}
    (hi : i < entries.length) :
    mbrPartition (front ++ entries.flatten ++ back) i = decodeEntry (entries.getD i []) := by
  have hbyte : ∀ offset < 16, (front ++ entries.flatten ++ back).getD (446 + 16 * i + offset) 0 =
      (entries.getD i []).getD offset 0 := fun offset hoffset => by
    rw [← hfront]
    exact getD_flatten front back hlength hi hoffset
  have hword : ∀ offset, offset + 4 ≤ 16 →
      word32 (front ++ entries.flatten ++ back) (446 + 16 * i + offset) =
        word32 (entries.getD i []) offset := fun offset hoffset => by
    simp only [word32, word16, Nat.add_assoc (446 + 16 * i)]
    rw [hbyte _ (by omega), hbyte _ (by omega), hbyte _ (by omega), hbyte _ (by omega)]
  rw [mbrPartition, hbyte 4 (by decide), hword 8 (by decide), hword 12 (by decide)]
  rfl

/-! ## The object -/

/-- The partitions of an image in the order of the table. -/
structure TableOrder (partitions : List (ℕ × PrimaryPartition)) : Prop where
  index_lt : ∀ entry ∈ partitions, entry.1 < 4
  increasing : partitions.Pairwise fun entry later =>
    entry.1 < later.1 ∧ entry.2.startSector + entry.2.size ≤ later.2.startSector
  type_ne_zero : ∀ entry ∈ partitions, entry.2.type ≠ 0
  type_ne_gpt : ∀ entry ∈ partitions, entry.2.type ≠ pmbrGptPartition
  size_pos : ∀ entry ∈ partitions, 1 ≤ entry.2.size
  end_le : ∀ entry ∈ partitions, entry.2.startSector + entry.2.size ≤ 2 ^ 32

variable {partitions : List (ℕ × PrimaryPartition)}

theorem setPartition_eq (mbr : MBR) {index : ℕ} (hindex : index < 4)
    (partition : PrimaryPartition) :
    ∃ after, mbr.setPartition index partition = .ok after ∧ after.mbrCode = mbr.mbrCode ∧
      after.partitionList = mbr.partitionList.set index (some partition) := by
  have hbounds : ¬ ((index : ℤ) < 0 ∨ (index : ℤ) > 4) := by omega
  have hplace : (index : ℤ) ≠ 4 := by omega
  rw [MBR.setPartition, if_neg hbounds, if_neg hplace]
  exact ⟨_, rfl, rfl, rfl⟩

theorem setPartitions_eq (mbr : MBR) (hindex : ∀ entry ∈ partitions, entry.1 < 4)
    (hincreasing : partitions.Pairwise fun entry later => entry.1 < later.1) :
    ∃ after, partitions.foldlM (fun (mbr : MBR) (entry : ℕ × PrimaryPartition) =>
        mbr.setPartition entry.1 entry.2) mbr = .ok after ∧ after.mbrCode = mbr.mbrCode ∧
      (∀ entry ∈ partitions, after.partitionList.getD entry.1 none = some entry.2) ∧
        ∀ i, (∀ entry ∈ partitions, entry.1 ≠ i) →
          after.partitionList.getD i none = mbr.partitionList.getD i none := by
  induction partitions generalizing mbr with
  | nil => exact ⟨mbr, rfl, rfl, by simp, fun i _ => rfl⟩
  | cons entry partitions ih =>
      obtain ⟨hlater, hincreasing⟩ := List.pairwise_cons.mp hincreasing
      have hentry := hindex entry List.mem_cons_self
      obtain ⟨first, hset, hcode, hlist⟩ := setPartition_eq mbr hentry entry.2
      obtain ⟨after, hrest, hcode', hset', hother⟩ := ih first
        (fun other hmem => hindex other (List.mem_cons_of_mem entry hmem)) hincreasing
      refine ⟨after, ?_, hcode'.trans hcode, ?_, fun i hi => ?_⟩
      · rw [List.foldlM_cons, hset]
        exact hrest
      · intro other hmem
        rcases List.mem_cons.mp hmem with rfl | hmem
        · rw [hother _ fun later hmem => (hlater later hmem).ne', hlist,
            List.getD_eq_getElem?_getD, List.getElem?_set_self
              (mbr.length_partitionList.symm ▸ hentry)]
          rfl
        · exact hset' other hmem
      · rw [hother i fun later hmem => hi later (List.mem_cons_of_mem entry hmem), hlist,
          List.getD_eq_getElem?_getD, List.getElem?_set_ne (hi entry List.mem_cons_self),
          ← List.getD_eq_getElem?_getD]

/-- What a table holds, place after place. -/
theorem filterMap_range' {β : Type} {f : ℕ → Option β} {g : ℕ × PrimaryPartition → β}
    {low count : ℕ} (hrange : ∀ entry ∈ partitions, low ≤ entry.1 ∧ entry.1 < low + count)
    (hincreasing : partitions.Pairwise fun entry later => entry.1 < later.1)
    (hsome : ∀ entry ∈ partitions, f entry.1 = some (g entry))
    (hnone : ∀ i, low ≤ i → i < low + count → (∀ entry ∈ partitions, entry.1 ≠ i) →
      f i = none) :
    (List.range' low count).filterMap f = partitions.map g := by
  induction count generalizing low partitions with
  | zero =>
      cases partitions with
      | nil => rfl
      | cons entry partitions =>
          have hempty := hrange entry List.mem_cons_self
          omega
  | succ count ih =>
      rw [List.range'_succ]
      by_cases hfree : ∀ entry ∈ partitions, entry.1 ≠ low
      · rw [List.filterMap_cons_none (hnone low le_rfl (by omega) hfree)]
        refine ih (fun entry hmem => ?_) hincreasing hsome fun i hlow hhigh =>
          hnone i (by omega) (by omega)
        have hbounds := hrange entry hmem
        have hne := hfree entry hmem
        omega
      · cases partitions with
        | nil => simp at hfree
        | cons entry partitions =>
            obtain ⟨hlater, hincreasing⟩ := List.pairwise_cons.mp hincreasing
            -- the later entries have greater indices
            have hlow : entry.1 = low := by
              by_contra hne
              refine hfree fun other hmem => ?_
              have hbounds := hrange entry List.mem_cons_self
              rcases List.mem_cons.mp hmem with rfl | hmem
              · exact hne
              · have hgreater := hlater other hmem
                omega
            rw [List.map_cons, ← hlow,
              List.filterMap_cons_some (hsome entry List.mem_cons_self), hlow]
            congr 1
            refine ih (fun other hmem => ?_) hincreasing
              (fun other hmem => hsome other (List.mem_cons_of_mem entry hmem))
              fun i hi hbound hfree => ?_
            · have hgreater := hlater other hmem
              have hbounds := hrange other (List.mem_cons_of_mem entry hmem)
              omega
            · refine hnone i (by omega) (by omega) fun other hmem => ?_
              rcases List.mem_cons.mp hmem with rfl | hmem
              · omega
              · exact hfree other hmem

/-! ## The reader -/

/-- Nothing of a table in order is refused. -/
theorem validLoop_eq {table : List MbrPartition} {totalSectors : ℕ} {valid : Bool}
    (hends : ∀ entry ∈ table, entry.used = true → entry.endLBA < totalSectors)
    (hordered : table.Pairwise fun entry later =>
      entry.used = true → later.used = true → entry.endLBA < later.startingLBA) :
    validLoop totalSectors valid table = (valid || table.any MbrPartition.used) := by
  induction table generalizing valid with
  | nil => simp [validLoop]
  | cons entry table ih =>
      obtain ⟨hlater, hordered⟩ := List.pairwise_cons.mp hordered
      have hrest := fun (valid : Bool) => @ih valid
        (fun other hmem => hends other (List.mem_cons_of_mem entry hmem)) hordered
      rw [validLoop, List.any_cons]
      by_cases hused : entry.used = true
      · have hend := hends entry List.mem_cons_self hused
        have hdisjoint : (table.any fun other => other.used &&
            (u32 (other.startingLBA + other.sizeInLBA) ≥ entry.startingLBA &&
              other.startingLBA ≤ entry.endLBA)) = false := by
          rw [List.any_eq_false]
          intro other hmem hboth
          simp only [Bool.and_eq_true, decide_eq_true_iff] at hboth
          have hbehind := hlater other hmem hused hboth.1
          omega
        rw [if_neg (by simp [hused]), if_neg (by omega), hdisjoint, if_neg Bool.false_ne_true,
          hrest]
        simp [hused]
      · rw [if_pos (by simpa using hused), hrest]
        simp [hused]

theorem entryOf_used (slot : Option PrimaryPartition) :
    (entryOf slot).used = true ↔
      ∃ partition, slot = some partition ∧ partition.type ≠ 0 ∧ partition.size ≠ 0 := by
  rw [MbrPartition.used, Bool.and_eq_true, decide_eq_true_iff, decide_eq_true_iff]
  cases slot with
  | none => simp [entryOf]
  | some partition => simp [entryOf]

/-- The last sector of a partition that is not empty. -/
theorem entryOf_endLBA {partition : PrimaryPartition} (hsize : 1 ≤ partition.size)
    (hend : partition.startSector + partition.size ≤ 2 ^ 32) :
    (entryOf (some partition)).endLBA = partition.startSector + partition.size - 1 := by
  simp only [entryOf, MbrPartition.endLBA, sub32, u32]
  omega

/-- Each partition is at its place, and the other places are free. -/
structure Filed (slots : List (Option PrimaryPartition))
    (partitions : List (ℕ × PrimaryPartition)) : Prop where
  length_eq : slots.length = 4
  at_index : ∀ entry ∈ partitions, slots.getD entry.1 none = some entry.2
  free : ∀ i, (∀ entry ∈ partitions, entry.1 ≠ i) → slots.getD i none = none

theorem Filed.mem (hfiled : Filed slots partitions) {i : ℕ} {partition : PrimaryPartition}
    (hslot : slots.getD i none = some partition) : (i, partition) ∈ partitions := by
  by_contra hmissing
  have hfree : slots.getD i none = none := by
    refine hfiled.free i fun entry hmem heq => hmissing ?_
    have hentry := hfiled.at_index entry hmem
    rw [heq, hslot] at hentry
    rw [← heq, Option.some.inj hentry]
    exact hmem
  rw [hfree] at hslot
  cases hslot

/-- The places of the table are in order. -/
theorem Filed.behind (hfiled : Filed slots partitions) (htable : TableOrder partitions)
    {i j : ℕ} {partition later : PrimaryPartition} (hij : i < j)
    (hfirst : slots.getD i none = some partition) (hsecond : slots.getD j none = some later) :
    partition.startSector + partition.size ≤ later.startSector := by
  obtain ⟨first, hfirst', heq⟩ := List.getElem_of_mem (hfiled.mem hfirst)
  obtain ⟨second, hsecond', heq'⟩ := List.getElem_of_mem (hfiled.mem hsecond)
  have hpairwise := List.pairwise_iff_getElem.mp htable.increasing
  rcases Nat.lt_trichotomy first second with hlt | rfl | hgt
  · have hboth := hpairwise first second hfirst' hsecond' hlt
    rw [heq, heq'] at hboth
    exact hboth.2
  · rw [heq] at heq'
    exact absurd (congrArg Prod.fst heq') hij.ne
  · have hboth := hpairwise second first hsecond' hfirst' hgt
    rw [heq, heq'] at hboth
    exact absurd hboth.1 hij.asymm

/-- The object that the sector is made of. -/
theorem exists_mbr {mbrCode : List UInt8} (hcode : mbrCode.length ≤ 512)
    (htable : TableOrder partitions) :
    ∃ mbr : MBR, build mbrCode partitions = mbr.getMBR ∧ Filed mbr.partitionList partitions := by
  obtain ⟨first, hinit, hblank⟩ : ∃ first, MBR.init mbrCode = .ok first ∧
      first.partitionList = [none, none, none, none] := by
    rw [MBR.init, dif_neg (by omega)]
    exact ⟨_, rfl, rfl⟩
  obtain ⟨mbr, hset, _, hplaces, hothers⟩ := setPartitions_eq first htable.index_lt
    (htable.increasing.imp And.left)
  refine ⟨mbr, ?_, mbr.length_partitionList, hplaces, fun i hi => ?_⟩
  · rw [build, hinit]
    exact congrArg (· >>= MBR.getMBR) hset
  · rw [hothers i hi, hblank]
    match i with
    | 0 | 1 | 2 | 3 => rfl
    | i + 4 => rfl

theorem getMBR_eq (mbr : MBR)
    (hfits : ∀ partition, some partition ∈ mbr.partitionList → Fits partition) :
    ∃ (front : List UInt8) (entries : List (List UInt8)),
      mbr.getMBR = .ok (front ++ entries.flatten ++ [0x55, 0xAA]) ∧
        front.length = 446 ∧ entries.length = 4 ∧ (∀ entry ∈ entries, entry.length = 16) ∧
        ∀ i < 4, decodeEntry (entries.getD i []) = entryOf (mbr.partitionList.getD i none) := by
  obtain ⟨entries, hloop, hentries⟩ := tableLoop_eq hfits 0
  have hcount : entries.length = 4 := by
    rw [← hentries.length_eq, mbr.length_partitionList]
  have heach := (List.forall₂_iff_get.mp hentries).2
  refine ⟨mbr.mbrCode.take 446, entries, ?_, ?_, hcount, fun entry hmem => ?_, fun i hi => ?_⟩
  · rw [MBR.getMBR, hloop]
    rfl
  · rw [List.length_take, mbr.length_mbrCode]
    rfl
  · obtain ⟨i, hi, rfl⟩ := List.getElem_of_mem hmem
    exact (heach i (hentries.length_eq ▸ hi) hi).1
  · have hslot : i < mbr.partitionList.length := mbr.length_partitionList.symm ▸ hi
    have hentry : i < entries.length := hcount.symm ▸ hi
    rw [List.getD_eq_getElem _ _ hslot, List.getD_eq_getElem _ _ hentry]
    exact (heach i hslot hentry).2

/-- The sector that is built, read entry by entry. -/
theorem build_eq {mbrCode : List UInt8} (hcode : mbrCode.length ≤ 512)
    (htable : TableOrder partitions) (hsize : ∀ entry ∈ partitions, entry.2.size < 2 ^ 32) :
    ∃ sector slots, build mbrCode partitions = .ok sector ∧ sector.length = 512 ∧
      Filed slots partitions ∧ ∀ rest, word16 (sector ++ rest) 510 = mbrSignature ∧
        ∀ i < 4, mbrPartition (sector ++ rest) i = entryOf (slots.getD i none) := by
  obtain ⟨mbr, hbuild, hfiled⟩ := exists_mbr hcode htable
  have hfits : ∀ partition, some partition ∈ mbr.partitionList → Fits partition := by
    intro partition hmem
    obtain ⟨i, hi, hslot⟩ := List.getElem_of_mem hmem
    have hentry := hfiled.mem (by
      rw [List.getD_eq_getElem _ _ hi]
      exact hslot)
    have hend : partition.startSector + partition.size ≤ 2 ^ 32 := htable.end_le _ hentry
    have hpos : 1 ≤ partition.size := htable.size_pos _ hentry
    exact ⟨by omega, hsize _ hentry⟩
  obtain ⟨front, entries, hget, hfront, hcount, hlength, hdecode⟩ := getMBR_eq mbr hfits
  have hplace : (front ++ entries.flatten).length = 510 := by
    rw [List.length_append, hfront, List.length_flatten, List.map_congr_left hlength,
      List.map_const', hcount]
    rfl
  refine ⟨_, mbr.partitionList, hbuild.trans hget, ?_, hfiled, fun rest => ⟨?_, fun i hi => ?_⟩⟩
  · rw [List.length_append, hplace]
    rfl
  · have hbyte : ∀ i, (front ++ entries.flatten ++ [0x55, 0xAA] ++ rest).getD (510 + i) 0 =
        ([0x55, 0xAA] ++ rest).getD i 0 := fun i => by
      rw [List.append_assoc, List.getD_append_right _ _ _ _ (by omega), hplace,
        Nat.add_sub_cancel_left]
    have hbytes : (0x55 : UInt8).toNat + 2 ^ 8 * (0xAA : UInt8).toNat = mbrSignature := by decide
    have hsignature := hbyte 0
    rw [Nat.add_zero] at hsignature
    rw [word16, hsignature, hbyte 1]
    exact hbytes
  · rw [List.append_assoc _ _ rest, mbrPartition_flatten _ hfront hlength (hcount.symm ▸ hi),
      hdecode i hi]

/-- The tool makes a sector that the loader accepts and finds the partitions in. -/
def WrittenAndRead (mbrCode : List UInt8) (partitions : List (ℕ × PrimaryPartition))
    (totalSectors : ℕ) : Prop :=
  ∃ sector, build mbrCode partitions = .ok sector ∧ sector.length = 512 ∧
    mbrIsValid sector totalSectors = true ∧
      ∀ (disk : Disk) (rest : List UInt8), disk.totalLBASectors = some totalSectors →
        disk.readSectors 0 1 = some (sector ++ rest) →
          mbrDetectPartitions disk = some (partitions.map fun entry =>
            ⟨entry.2.startSector, entry.2.startSector + entry.2.size - 1, entry.1⟩)

theorem build_writtenAndRead {mbrCode : List UInt8} (hcode : mbrCode.length ≤ 512)
    (htable : TableOrder partitions) (hne : partitions ≠ [])
    (hsize : ∀ entry ∈ partitions, entry.2.size < 2 ^ 32) {totalSectors : ℕ}
    (hdisk : ∀ entry ∈ partitions, entry.2.startSector + entry.2.size ≤ totalSectors) :
    WrittenAndRead mbrCode partitions totalSectors := by
  obtain ⟨sector, slots, hbuild, hlength, hfiled, hread⟩ := build_eq hcode htable hsize
  have hused : ∀ i, (entryOf (slots.getD i none)).used = true → ∃ partition,
      slots.getD i none = some partition ∧ (i, partition) ∈ partitions := by
    intro i hi
    obtain ⟨partition, hslot, _⟩ := (entryOf_used _).mp hi
    exact ⟨partition, hslot, hfiled.mem hslot⟩
  have hvalid : ∀ rest, mbrIsValid (sector ++ rest) totalSectors = true := by
    intro rest
    obtain ⟨hsignature, hentries⟩ := hread rest
    have htables : (List.range 4).map (mbrPartition (sector ++ rest)) =
        (List.range 4).map fun i => entryOf (slots.getD i none) :=
      List.map_congr_left fun i hi => hentries i (List.mem_range.mp hi)
    have hany : ((List.range 4).map fun i => entryOf (slots.getD i none)).any
        MbrPartition.used = true := by
      obtain ⟨entry, hmem⟩ := List.exists_mem_of_ne_nil partitions hne
      refine List.any_eq_true.mpr ⟨_, List.mem_map_of_mem
        (List.mem_range.mpr (htable.index_lt entry hmem)), (entryOf_used _).mpr ?_⟩
      exact ⟨entry.2, hfiled.at_index entry hmem, htable.type_ne_zero entry hmem,
        (Nat.lt_of_lt_of_le Nat.zero_lt_one (htable.size_pos entry hmem)).ne'⟩
    rw [mbrIsValid, hsignature, htables, validLoop_eq, hany]
    · rfl
    · intro entry hmem hentry
      obtain ⟨i, _, rfl⟩ := List.mem_map.mp hmem
      obtain ⟨partition, hslot, hpartition⟩ := hused i hentry
      have hpos : 1 ≤ partition.size := htable.size_pos _ hpartition
      have hlast : partition.startSector + partition.size ≤ totalSectors := hdisk _ hpartition
      rw [hslot, entryOf_endLBA hpos (htable.end_le _ hpartition)]
      omega
    · refine List.pairwise_map.mpr (List.pairwise_lt_range.imp fun hlt hentry hlater => ?_)
      obtain ⟨partition, hslot, hpartition⟩ := hused _ hentry
      obtain ⟨later, hslot', _⟩ := hused _ hlater
      have hpos : 1 ≤ partition.size := htable.size_pos _ hpartition
      have hbehind := hfiled.behind htable hlt hslot hslot'
      rw [hslot, hslot', entryOf_endLBA hpos (htable.end_le _ hpartition)]
      change partition.startSector + partition.size - 1 < later.startSector
      omega
  refine ⟨sector, hbuild, hlength, by simpa using hvalid [], fun disk rest htotal hsector => ?_⟩
  obtain ⟨_, hentries⟩ := hread rest
  rw [mbrDetectPartitions, htotal, hsector]
  simp only [hvalid rest, if_true]
  congr 1
  rw [List.range_eq_range']
  refine filterMap_range' (fun entry hmem => ⟨Nat.zero_le _, ?_⟩)
    (htable.increasing.imp And.left) (fun entry hmem => ?_) fun i _ hi hfree => ?_
  · simpa using htable.index_lt entry hmem
  · have hpos := htable.size_pos entry hmem
    have hsome : (entryOf (some entry.2)).used = true :=
      (entryOf_used _).mpr ⟨entry.2, rfl, htable.type_ne_zero entry hmem, by omega⟩
    rw [hentries entry.1 (htable.index_lt entry hmem), hfiled.at_index entry hmem, hsome,
      entryOf_endLBA hpos (htable.end_le entry hmem)]
    exact if_neg (htable.type_ne_gpt entry hmem)
  · rw [hentries i (by omega), hfiled.free i hfree]
    rfl

/-! ## Tables that are not read back -/

theorem tableOrder_nil : TableOrder [] where
  index_lt := by simp
  increasing := .nil
  type_ne_zero := by simp
  type_ne_gpt := by simp
  size_pos := by simp
  end_le := by simp

theorem tableOrder_singleton {partition : PrimaryPartition} (htype : partition.type ≠ 0)
    (hgpt : partition.type ≠ pmbrGptPartition) (hpos : 1 ≤ partition.size)
    (hend : partition.startSector + partition.size ≤ 2 ^ 32) :
    TableOrder [(0, partition)] where
  index_lt := by simp
  increasing := List.pairwise_singleton _ _
  type_ne_zero := by simpa using htype
  type_ne_gpt := by simpa using hgpt
  size_pos := by simpa using hpos
  end_le := by simpa using hend

/-- Two partitions, the second right behind the first one. -/
def adjacentPartitions : List (ℕ × PrimaryPartition) :=
  [(0, ⟨63, 100, 0x0C, true⟩), (2, ⟨163, 837, 0x83, false⟩)]

theorem build_writtenAndRead_adjacent : WrittenAndRead [0xFA] adjacentPartitions 1000 :=
  build_writtenAndRead (by decide)
    { index_lt := by decide
      increasing := by decide
      type_ne_zero := by decide
      type_ne_gpt := by decide
      size_pos := by decide
      end_le := by decide }
    (by decide) (by decide) (by decide)

/-- An empty table is refused. -/
theorem not_writtenAndRead_nil (totalSectors : ℕ) : ¬ WrittenAndRead [] [] totalSectors := by
  rintro ⟨sector, hbuild, _, hvalid, _⟩
  obtain ⟨other, slots, hother, _, hfiled, hread⟩ :=
    build_eq (show ([] : List UInt8).length ≤ 512 by decide) tableOrder_nil (by simp)
  obtain rfl : sector = other := Except.ok.inj (hbuild.symm.trans hother)
  obtain ⟨_, hentries⟩ := hread []
  rw [List.append_nil] at hentries
  have htable : (List.range 4).map (mbrPartition sector) =
      (List.range 4).map fun _ => entryOf none :=
    List.map_congr_left fun i hi => by
      rw [hentries i (List.mem_range.mp hi), hfiled.free i (by simp)]
  rw [mbrIsValid, htable] at hvalid
  simp [validLoop, entryOf, MbrPartition.used, List.range_succ] at hvalid

/-- A partition of `2^32` sectors does not fit into the table. -/
theorem not_writtenAndRead_whole {partition : PrimaryPartition}
    (htable : TableOrder [(0, partition)]) (hsize : partition.size = 2 ^ 32)
    (totalSectors : ℕ) : ¬ WrittenAndRead [] [(0, partition)] totalSectors := by
  rintro ⟨sector, hbuild, _⟩
  obtain ⟨mbr, hget, hfiled⟩ :=
    exists_mbr (show ([] : List UInt8).length ≤ 512 by decide) htable
  have hfirst := hfiled.at_index (0, partition) List.mem_cons_self
  have hpack : ∀ activeByte chsStart chsEnd, structPack activeByte chsStart partition.type chsEnd
      partition.startSector partition.size = .error .structError := fun _ _ _ => by
    rw [structPack, if_neg (by omega)]
  rw [hbuild, MBR.getMBR] at hget
  cases hlist : mbr.partitionList with
  | nil =>
      rw [hlist] at hfirst
      cases hfirst
  | cons slot rest =>
      rw [hlist] at hfirst hget
      obtain rfl : slot = some partition := hfirst
      rw [tableLoop, hpack] at hget
      cases hget

theorem not_build_writtenAndRead :
    (¬ ∀ (mbrCode : List UInt8) (partitions : List (ℕ × PrimaryPartition)) (totalSectors : ℕ),
      mbrCode.length ≤ 512 → TableOrder partitions →
      (∀ entry ∈ partitions, entry.2.startSector + entry.2.size ≤ totalSectors) →
        WrittenAndRead mbrCode partitions totalSectors) ∧
    ¬ ∀ (mbrCode : List UInt8) (partitions : List (ℕ × PrimaryPartition)) (totalSectors : ℕ),
      mbrCode.length ≤ 512 → TableOrder partitions → partitions ≠ [] →
      (∀ entry ∈ partitions, entry.2.startSector + entry.2.size ≤ totalSectors) →
        WrittenAndRead mbrCode partitions totalSectors := by
  constructor
  · exact fun hall => not_writtenAndRead_nil 1 (hall [] [] 1 (by decide) tableOrder_nil (by simp))
  · intro hall
    have htable : TableOrder [(0, ⟨0, 2 ^ 32, 0x83, false⟩)] :=
      tableOrder_singleton (by decide) (by decide) (by decide) (by decide)
    exact not_writtenAndRead_whole htable rfl (2 ^ 32)
      (hall [] _ (2 ^ 32) (by decide) htable (by simp) (by simp))

end GeexOS.Mbr
