import GeexOS.Loader.FatDirectory

/-!
# What a directory lists

An entry is stored with a name of eight and three characters, padded with
spaces, behind the slots of its long name.  Deleted entries and volume labels
may lie in between, and an entry that begins with zero ends the directory.
-/

namespace GeexOS.Fat

open GeexOS.Words
open GeexOS.Halting
open GeexOS.Strings

/-- A file or a directory as it is listed; the long name may be missing. -/
structure DirectoryEntry where
  base : CString
  extension : CString
  longName : CString
  attributes : UInt8
  size : ℕ
  startCluster : ℕ
  deriving DecidableEq, Repr

namespace DirectoryEntry

def shortName (entry : DirectoryEntry) : CString :=
  if entry.extension = [] then entry.base else entry.base ++ dot :: entry.extension

/-- One of the names, in any case of letters. -/
def Named (entry : DirectoryEntry) (name : CString) : Prop :=
  name.map tolower = entry.shortName.map tolower ∨
    entry.longName ≠ [] ∧ name.map tolower = entry.longName.map tolower

instance (entry : DirectoryEntry) (name : CString) : Decidable (entry.Named name) :=
  inferInstanceAs (Decidable (_ ∨ _))

/-- No space inside of the short name. -/
def Plain (entry : DirectoryEntry) : Prop := space ∉ entry.base ∧ space ∉ entry.extension

end DirectoryEntry

/-! ## How an entry is stored -/

def pad (length : ℕ) (name : CString) : CString :=
  name ++ List.replicate (length - name.length) space

/-- The eleven characters of a short name; 0xE5 is stored as 0x05 in front. -/
def storedName (base extension : CString) : CString :=
  let name := pad 8 base ++ pad 3 extension
  if name.getD 0 0 = 0xE5 then name.set 0 0x05 else name

structure Stores (entry : DirectoryEntry) (stored : FatDirEntry) : Prop where
  first_ne_zero : stored.first ≠ 0
  first_ne_deleted : stored.first ≠ 0xE5
  not_longName : stored.attributes ≠ attrLongName
  not_label : stored.attributes &&& attrVolumename = 0
  name_eq : stored.take 11 = storedName entry.base entry.extension
  base_length : entry.base.length ≤ 8
  extension_length : entry.extension.length ≤ 3
  printable : ∀ c ∈ entry.base ++ entry.extension, 0x20 ≤ c
  base_trimmed : entry.base.getLast? ≠ some space
  extension_trimmed : entry.extension.getLast? ≠ some space
  attributes_eq : stored.attributes = entry.attributes
  size_eq : stored.size = entry.size
  startCluster_eq : stored.startCluster = entry.startCluster

/-- Thirteen characters of a name, then its terminator and what fills the slot. -/
def slotChars (name : CString) (part : ℕ) : List ℕ :=
  (List.range 13).map fun index =>
    if part * 13 + index < name.length then (name.getD (part * 13 + index) 0).toNat
    else if part * 13 + index = name.length then 0
    else 0xFFFF

/-- The slot of one of the parts of a name. -/
structure IsSlot (name : CString) (parts part : ℕ) (slot : FatDirEntry) : Prop where
  sequence : slot.first = UInt8.ofNat (part + 1) + if part + 1 = parts then 0x40 else 0
  attributes : slot.attributes = attrLongName
  nameChars : slot.nameChars = slotChars name part

/-- The slots of the first parts of a name, from the last one down. -/
inductive SlotsBelow (name : CString) (parts : ℕ) : ℕ → List FatDirEntry → Prop
  | nil : SlotsBelow name parts 0 []
  | cons {part : ℕ} {slot : FatDirEntry} {slots : List FatDirEntry}
      (hslot : IsSlot name parts part slot) (hslots : SlotsBelow name parts part slots) :
      SlotsBelow name parts (part + 1) (slot :: slots)

/-- A name of ASCII characters in as many slots as it takes, twenty at most. -/
structure LongNameSlots (name : CString) (slots : List FatDirEntry) : Prop where
  at_most : slots.length ≤ 20
  covers : name.length ≤ slots.length * 13
  needed : slots.length * 13 < name.length + 13
  ascii : ∀ c ∈ name, 0 < c ∧ c < 0x80
  below : SlotsBelow name slots.length slots.length slots

/-- The entries of a directory that has an end. -/
inductive Listing : List FatDirEntry → List DirectoryEntry → Prop
  | ended {stored : FatDirEntry} {rest : List FatDirEntry} (hzero : stored.first = 0) :
      Listing (stored :: rest) []
  | deleted {stored : FatDirEntry} {rest : List FatDirEntry} {entries : List DirectoryEntry}
      (hdeleted : stored.first = 0xE5) (hrest : Listing rest entries) :
      Listing (stored :: rest) entries
  | label {stored : FatDirEntry} {rest : List FatDirEntry} {entries : List DirectoryEntry}
      (hzero : stored.first ≠ 0) (hlong : stored.attributes ≠ attrLongName)
      (hlabel : stored.attributes &&& attrVolumename ≠ 0) (hrest : Listing rest entries) :
      Listing (stored :: rest) entries
  | live {slots : List FatDirEntry} {stored : FatDirEntry} {rest : List FatDirEntry}
      {entry : DirectoryEntry} {entries : List DirectoryEntry}
      (hslots : LongNameSlots entry.longName slots) (hstored : Stores entry stored)
      (hrest : Listing rest entries) :
      Listing (slots ++ stored :: rest) (entry :: entries)

variable {name filename : CString} {entry : DirectoryEntry} {entries : List DirectoryEntry}
variable {stored slot : FatDirEntry} {rest slots : List FatDirEntry} {parts part : ℕ}

/-! ## The buffer of a long name -/

/-- The characters other than 0xFFFF over what was there. -/
def overlay (buffer : ℕ → UInt8) (index : ℕ) (chars : List ℕ) (position : ℕ) : UInt8 :=
  if index ≤ position ∧ position < index + chars.length ∧ chars.getD (position - index) 0 ≠ 0xFFFF
  then UInt8.ofNat (chars.getD (position - index) 0)
  else buffer position

theorem set_map_range (length : ℕ) (buffer : ℕ → UInt8) (index : ℕ) (value : UInt8) :
    ((List.range length).map buffer).set index value =
      (List.range length).map fun position =>
        if position = index then value else buffer position := by
  refine List.ext_getElem (by simp) fun position _ hposition => ?_
  rw [List.getElem_set]
  simp [eq_comm]

theorem overlay_cons (buffer : ℕ → UInt8) (index c : ℕ) (chars : List ℕ) :
    overlay buffer index (c :: chars) =
      overlay (fun position => if position = index ∧ c ≠ 0xFFFF then UInt8.ofNat c
        else buffer position) (index + 1) chars := by
  funext position
  rw [overlay, overlay]
  rcases lt_trichotomy position index with hlow | rfl | hhigh
  · rw [if_neg (by omega), if_neg (by omega), if_neg (by omega)]
  · rw [if_neg (show ¬ (position + 1 ≤ position ∧ _) by omega)]
    simp
  · obtain ⟨offset, rfl⟩ := Nat.exists_eq_add_of_lt hhigh
    have hleft : index + offset + 1 - index = offset + 1 := by omega
    have hright : index + offset + 1 - (index + 1) = offset := by omega
    rw [hleft, hright, List.getD_cons_succ, List.length_cons,
      if_neg (show ¬ (index + offset + 1 = index ∧ _) by omega)]
    refine if_congr ?_ rfl rfl
    refine and_congr (by omega) (and_congr_left fun _ => by omega)

/-- The characters to be stored from `index` on have a place in the buffer. -/
def CharsFit (index : ℕ) (chars : List ℕ) : Prop :=
  ∀ offset < chars.length, chars.getD offset 0 ≠ 0xFFFF → index + offset < 265

instance (index : ℕ) (chars : List ℕ) : Decidable (CharsFit index chars) :=
  inferInstanceAs (Decidable (∀ offset < _, _))

theorem charsFit_cons {index c : ℕ} {chars : List ℕ} :
    CharsFit index (c :: chars) ↔ (c ≠ 0xFFFF → index < 265) ∧ CharsFit (index + 1) chars := by
  constructor
  · refine fun hfit => ⟨fun hc => hfit 0 (Nat.succ_pos _) hc, fun offset hoffset hchar => ?_⟩
    have hplace := hfit (offset + 1) (Nat.succ_lt_succ hoffset) hchar
    omega
  · rintro ⟨hfirst, hrest⟩ offset hoffset hchar
    cases offset with
    | zero => exact hfirst hchar
    | succ offset =>
        have hplace := hrest offset (Nat.lt_of_succ_lt_succ hoffset) hchar
        omega

/-- Either all characters are stored, or one of them would be behind the buffer. -/
theorem storeNameChars_eq_ite (buffer : ℕ → UInt8) (index : ℕ) (chars : List ℕ) :
    storeNameChars ((List.range 265).map buffer) index chars =
      if CharsFit index chars then .ok ((List.range 265).map (overlay buffer index chars))
      else .error .fault := by
  induction chars generalizing buffer index with
  | nil =>
      have hfit : CharsFit index [] := fun offset hoffset =>
        absurd hoffset (Nat.not_lt_zero offset)
      rw [storeNameChars, if_pos hfit]
      congr 2
      funext position
      rw [overlay, if_neg (by simp only [List.length_nil]; omega)]
  | cons c chars ih =>
      rw [storeNameChars, overlay_cons, if_congr charsFit_cons rfl rfl]
      by_cases hc : c = 0xFFFF
      · rw [if_pos hc, ih]
        simp only [hc, ne_eq, not_true_eq_false, and_false, if_false, false_implies, true_and]
      · rw [if_neg hc, List.length_map, List.length_range]
        by_cases hindex : index < 265
        · rw [if_pos hindex, set_map_range, ih]
          simp only [ne_eq, hc, not_false_eq_true, and_true, hindex, implies_true, true_and]
        · rw [if_neg hindex, if_neg fun hfit => hindex (hfit.1 hc)]

theorem storeNameChars_eq (buffer : ℕ → UInt8) {index : ℕ} {chars : List ℕ}
    (hfits : index + chars.length ≤ 265) :
    storeNameChars ((List.range 265).map buffer) index chars =
      .ok ((List.range 265).map (overlay buffer index chars)) := by
  have hfit : CharsFit index chars := fun offset hoffset _ => by omega
  rw [storeNameChars_eq_ite, if_pos hfit]

/-- The characters of a name from `low` on, in a cleared buffer. -/
def nameFrom (name : CString) (low position : ℕ) : UInt8 :=
  if low ≤ position ∧ position < name.length then name.getD position 0 else 0

theorem overlay_slotChars (name : CString) (part : ℕ) :
    overlay (nameFrom name ((part + 1) * 13)) (part * 13) (slotChars name part) =
      nameFrom name (part * 13) := by
  funext position
  have hlength : (slotChars name part).length = 13 := by simp [slotChars]
  rw [overlay, hlength]
  by_cases hinside : part * 13 ≤ position ∧ position < part * 13 + 13
  · obtain ⟨offset, rfl⟩ := Nat.exists_eq_add_of_le hinside.1
    have hchar : (slotChars name part).getD (part * 13 + offset - part * 13) 0 =
        if part * 13 + offset < name.length then (name.getD (part * 13 + offset) 0).toNat
        else if part * 13 + offset = name.length then 0 else 0xFFFF := by
      rw [Nat.add_sub_cancel_left, slotChars]
      simp [show offset < 13 by omega]
    have hlater : ¬ ((part + 1) * 13 ≤ part * 13 + offset ∧ part * 13 + offset < name.length) := by
      omega
    rw [hchar, nameFrom, nameFrom, if_neg hlater]
    by_cases hshort : part * 13 + offset < name.length
    · have hc := (name.getD (part * 13 + offset) 0).toNat_lt
      rw [if_pos hshort, if_pos ⟨by omega, by omega, by omega⟩, if_pos ⟨by omega, hshort⟩,
        UInt8.ofNat_toNat]
    · have hnone : ¬ (part * 13 ≤ part * 13 + offset ∧ part * 13 + offset < name.length) :=
        fun h => hshort h.2
      rw [if_neg hshort, if_neg hnone]
      split <;> simp
  · rw [if_neg (by omega), nameFrom, nameFrom]
    refine if_congr ⟨fun h => ⟨by omega, h.2⟩, fun h => ⟨by omega, h.2⟩⟩ rfl rfl

theorem sequence_facts : ∀ part : Fin 20, ∀ last : Bool,
    let first := UInt8.ofNat (part + 1) + if last then 0x40 else 0
    first ≠ 0 ∧ first ≠ 0xE5 ∧ first &&& 0x80 = 0 ∧ ((first &&& 0x3F) - 1).toNat = part := by
  decide +kernel

theorem storeSlot_eq (hslot : IsSlot name parts part slot) (hpart : part < 20) :
    storeSlot slot ((List.range 265).map (nameFrom name ((part + 1) * 13))) =
      .ok ((List.range 265).map (nameFrom name (part * 13))) := by
  have hsequence := (sequence_facts ⟨part, hpart⟩ (decide (part + 1 = parts))).2.2.2
  simp only [decide_eq_true_eq] at hsequence
  rw [← hslot.sequence] at hsequence
  have hlength : (slotChars name part).length = 13 := by simp [slotChars]
  rw [storeSlot, hsequence, hslot.nameChars, storeNameChars_eq _ (by rw [hlength]; omega),
    overlay_slotChars]

/-- The slots fill the buffer from behind. -/
theorem searchLoop_slotsBelow (hslots : SlotsBelow name parts part slots) (hpart : part ≤ 20) :
    searchLoop filename (slots ++ rest) ((List.range 265).map (nameFrom name (part * 13))) =
      searchLoop filename rest ((List.range 265).map (nameFrom name 0)) := by
  induction hslots with
  | nil => rw [List.nil_append, Nat.zero_mul]
  | @cons part slot slots hslot _ ih =>
      have hfacts := sequence_facts ⟨part, hpart⟩ (decide (part + 1 = parts))
      simp only [decide_eq_true_eq] at hfacts
      rw [← hslot.sequence] at hfacts
      rw [List.cons_append, searchLoop, if_neg hfacts.1, if_neg hfacts.2.1, if_pos hslot.attributes,
        if_neg (not_not_intro hfacts.2.2.1), storeSlot_eq hslot hpart]
      exact ih (Nat.le_of_succ_le hpart)

theorem searchLoop_slots (hslots : LongNameSlots name slots) :
    searchLoop filename (slots ++ rest) noLongName =
      searchLoop filename rest ((List.range 265).map (nameFrom name 0)) := by
  have hcleared : noLongName = (List.range 265).map (nameFrom name (slots.length * 13)) := by
    have hzero : noLongName = (List.range 265).map fun _ => 0 := by
      rw [List.map_const', List.length_range, noLongName]
    rw [hzero]
    refine List.map_congr_left fun position _ => ?_
    have hcovers := hslots.covers
    rw [nameFrom, if_neg (by omega)]
  rw [hcleared, searchLoop_slotsBelow hslots.below hslots.at_most]

theorem takeWhile_nameFrom (hslots : LongNameSlots name slots) :
    (((List.range 265).map (nameFrom name 0)).takeWhile fun c => c ≠ 0) = name := by
  have hlength : name.length ≤ 265 := by
    have hcovers := hslots.covers
    have hmost := hslots.at_most
    omega
  have hbuffer : (List.range 265).map (nameFrom name 0) =
      name ++ List.replicate (265 - name.length) 0 := by
    refine List.ext_getElem (by simp; omega) fun position hposition _ => ?_
    rw [List.getElem_map, List.getElem_range, List.getElem_append, nameFrom]
    by_cases hshort : position < name.length
    · rw [if_pos ⟨Nat.zero_le _, hshort⟩, dif_pos hshort, List.getD_eq_getElem _ _ hshort]
    · rw [if_neg fun h => hshort h.2, dif_neg hshort, List.getElem_replicate]
  have hall : ∀ c ∈ name, decide (c ≠ 0) = true := by
    intro c hmem
    exact decide_eq_true (UInt8.ne_of_lt (hslots.ascii c hmem).1).symm
  rw [hbuffer, List.takeWhile_append_of_pos hall, List.takeWhile_replicate_eq_filter]
  simp

end GeexOS.Fat
