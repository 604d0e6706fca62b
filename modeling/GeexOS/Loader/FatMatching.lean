import GeexOS.Loader.FatListing
import Mathlib.Data.List.Find

/-!
# Which entry matches a name

The short name of an entry is put together again from its two padded parts, its
long name from the slots in front of it.  Nothing of an entry that does not match,
that is deleted or that is a label is left over when the next one is compared.
-/

namespace GeexOS.Fat

open GeexOS.Words
open GeexOS.Halting
open GeexOS.Strings

/-- An entry as it is stored; the characters 0 and, in front, 0x05 have no place in a
short name. -/
structure Encodes (entry : DirectoryEntry) (stored : FatDirEntry) : Prop where
  not_longName : stored.attributes ≠ attrLongName
  not_label : stored.attributes &&& attrVolumename = 0
  name_eq : stored.take 11 = storedName entry.base entry.extension
  base_length : entry.base.length ≤ 8
  extension_length : entry.extension.length ≤ 3
  plain : entry.Plain
  base_zero : 0 ∉ entry.base
  extension_zero : 0 ∉ entry.extension
  base_head : entry.base.head? ≠ some 0x05
  attributes_eq : stored.attributes = entry.attributes
  size_eq : stored.size = entry.size
  startCluster_eq : stored.startCluster = entry.startCluster

/-- The entries of a directory with an end mark. -/
inductive Terminated : List FatDirEntry → List DirectoryEntry → Prop
  | ended {stored : FatDirEntry} {rest : List FatDirEntry} (hzero : stored.first = 0) :
      Terminated (stored :: rest) []
  | deleted {stored : FatDirEntry} {rest : List FatDirEntry} {entries : List DirectoryEntry}
      (hdeleted : stored.first = 0xE5) (hrest : Terminated rest entries) :
      Terminated (stored :: rest) entries
  | label {stored : FatDirEntry} {rest : List FatDirEntry} {entries : List DirectoryEntry}
      (hzero : stored.first ≠ 0) (hlong : stored.attributes ≠ attrLongName)
      (hlabel : stored.attributes &&& attrVolumename ≠ 0) (hrest : Terminated rest entries) :
      Terminated (stored :: rest) entries
  | live {slots : List FatDirEntry} {stored : FatDirEntry} {rest : List FatDirEntry}
      {entry : DirectoryEntry} {entries : List DirectoryEntry}
      (hslots : LongNameSlots entry.longName slots) (hstored : Encodes entry stored)
      (hrest : Terminated rest entries) :
      Terminated (slots ++ stored :: rest) (entry :: entries)

variable {name filename : CString} {entry : DirectoryEntry} {entries : List DirectoryEntry}
variable {stored : FatDirEntry} {rest slots : List FatDirEntry}

/-! ## What the search reads -/

/-- The entry under the name that the search compares: each part of the short name ends at
its first space. -/
def DirectoryEntry.cut (entry : DirectoryEntry) : DirectoryEntry :=
  { entry with
    base := entry.base.takeWhile fun c => c ≠ space
    extension := entry.extension.takeWhile fun c => c ≠ space }

@[simp] theorem cut_longName (entry : DirectoryEntry) : entry.cut.longName = entry.longName := rfl

@[simp] theorem cut_attributes (entry : DirectoryEntry) :
    entry.cut.attributes = entry.attributes := rfl

@[simp] theorem cut_size (entry : DirectoryEntry) : entry.cut.size = entry.size := rfl

@[simp] theorem cut_startCluster (entry : DirectoryEntry) :
    entry.cut.startCluster = entry.startCluster := rfl

theorem takeWhile_of_notMem (hname : space ∉ name) :
    (name.takeWhile fun c => c ≠ space) = name := by
  rw [List.takeWhile_eq_self_iff]
  intro c hmem
  exact decide_eq_true fun heq => hname (heq ▸ hmem)

theorem DirectoryEntry.Plain.cut_eq (hplain : entry.Plain) : entry.cut = entry := by
  rw [DirectoryEntry.cut, takeWhile_of_notMem hplain.1, takeWhile_of_notMem hplain.2]

/-- An entry as it is stored, whether there are spaces in its name or not. -/
structure Keeps (entry : DirectoryEntry) (stored : FatDirEntry) : Prop where
  not_longName : stored.attributes ≠ attrLongName
  not_label : stored.attributes &&& attrVolumename = 0
  name_eq : stored.take 11 = storedName entry.base entry.extension
  base_length : entry.base.length ≤ 8
  extension_length : entry.extension.length ≤ 3
  base_zero : 0 ∉ entry.base
  extension_zero : 0 ∉ entry.extension
  base_head : entry.base.head? ≠ some 0x05
  attributes_eq : stored.attributes = entry.attributes
  size_eq : stored.size = entry.size
  startCluster_eq : stored.startCluster = entry.startCluster

/-- The entries of a directory with an end mark, whatever their names. -/
inductive Kept : List FatDirEntry → List DirectoryEntry → Prop
  | ended {stored : FatDirEntry} {rest : List FatDirEntry} (hzero : stored.first = 0) :
      Kept (stored :: rest) []
  | deleted {stored : FatDirEntry} {rest : List FatDirEntry} {entries : List DirectoryEntry}
      (hdeleted : stored.first = 0xE5) (hrest : Kept rest entries) :
      Kept (stored :: rest) entries
  | label {stored : FatDirEntry} {rest : List FatDirEntry} {entries : List DirectoryEntry}
      (hzero : stored.first ≠ 0) (hlong : stored.attributes ≠ attrLongName)
      (hlabel : stored.attributes &&& attrVolumename ≠ 0) (hrest : Kept rest entries) :
      Kept (stored :: rest) entries
  | live {slots : List FatDirEntry} {stored : FatDirEntry} {rest : List FatDirEntry}
      {entry : DirectoryEntry} {entries : List DirectoryEntry}
      (hslots : LongNameSlots entry.longName slots) (hstored : Keeps entry stored)
      (hrest : Kept rest entries) :
      Kept (slots ++ stored :: rest) (entry :: entries)

theorem Encodes.keeps (hstored : Encodes entry stored) : Keeps entry stored where
  not_longName := hstored.not_longName
  not_label := hstored.not_label
  name_eq := hstored.name_eq
  base_length := hstored.base_length
  extension_length := hstored.extension_length
  base_zero := hstored.base_zero
  extension_zero := hstored.extension_zero
  base_head := hstored.base_head
  attributes_eq := hstored.attributes_eq
  size_eq := hstored.size_eq
  startCluster_eq := hstored.startCluster_eq

/-- Printable names have no other character that ends or marks a name. -/
theorem Stores.keeps (hstored : Stores entry stored) : Keeps entry stored where
  not_longName := hstored.not_longName
  not_label := hstored.not_label
  name_eq := hstored.name_eq
  base_length := hstored.base_length
  extension_length := hstored.extension_length
  base_zero := fun hmem =>
    absurd (hstored.printable 0 (List.mem_append_left _ hmem)) (by decide)
  extension_zero := fun hmem =>
    absurd (hstored.printable 0 (List.mem_append_right _ hmem)) (by decide)
  base_head := fun hhead =>
    absurd (hstored.printable 5 (List.mem_append_left _ (List.mem_of_mem_head? hhead)))
      (by decide)
  attributes_eq := hstored.attributes_eq
  size_eq := hstored.size_eq
  startCluster_eq := hstored.startCluster_eq

theorem Terminated.kept {stored : List FatDirEntry} (hstored : Terminated stored entries) :
    Kept stored entries ∧ ∀ entry ∈ entries, entry.Plain := by
  induction hstored with
  | ended hzero => exact ⟨.ended hzero, by simp⟩
  | deleted hdeleted _ ih => exact ⟨.deleted hdeleted ih.1, ih.2⟩
  | label hzero hlong hlabel _ ih => exact ⟨.label hzero hlong hlabel ih.1, ih.2⟩
  | live hslots hstored _ ih =>
      exact ⟨.live hslots hstored.keeps ih.1, List.forall_mem_cons.mpr ⟨hstored.plain, ih.2⟩⟩

theorem Listing.kept {stored : List FatDirEntry} (hlisting : Listing stored entries) :
    Kept stored entries := by
  induction hlisting with
  | ended hzero => exact .ended hzero
  | deleted hdeleted _ ih => exact .deleted hdeleted ih
  | label hzero hlong hlabel _ ih => exact .label hzero hlong hlabel ih
  | live hslots hstored _ ih => exact .live hslots hstored.keeps ih

/-! ## Short names -/

theorem length_pad (length : ℕ) (hname : name.length ≤ length) :
    (pad length name).length = length := by
  rw [pad, List.length_append, List.length_replicate]
  omega

/-- A part of a name up to its first space. -/
theorem takeWhile_pad (length : ℕ) :
    ((pad length name).takeWhile fun c => c ≠ space) = name.takeWhile fun c => c ≠ space := by
  rw [pad, List.takeWhile_append]
  split
  · rename_i hall
    rw [List.takeWhile_replicate_eq_filter,
      List.IsPrefix.eq_of_length (List.takeWhile_prefix _) hall]
    simp
  · rfl

/-- The first of the eight characters. -/
theorem Keeps.exists_head (hstored : Keeps entry stored) :
    ∃ c name, pad 8 entry.base = c :: name ∧ c ≠ 0 ∧ c ≠ 0x05 := by
  have hzero := hstored.base_zero
  have hfive := hstored.base_head
  cases hbase : entry.base with
  | nil => exact ⟨space, List.replicate 7 space, rfl, by decide, by decide⟩
  | cons c name =>
      rw [hbase] at hzero hfive
      refine ⟨c, name ++ List.replicate (8 - (c :: name).length) space, rfl, ?_, ?_⟩
      · exact fun heq => hzero (heq ▸ List.mem_cons_self)
      · exact fun heq => hfive (heq ▸ rfl)

theorem first_eq_getD (stored : FatDirEntry) : stored.first = (stored.take 11).getD 0 0 := by
  cases stored <;> rfl

theorem Keeps.first_ne (hstored : Keeps entry stored) :
    stored.first ≠ 0 ∧ stored.first ≠ 0xE5 := by
  obtain ⟨c, name, hname, hzero, _⟩ := hstored.exists_head
  rw [first_eq_getD, hstored.name_eq, storedName, hname, List.cons_append, List.getD_cons_zero]
  by_cases hdeleted : c = 0xE5
  · rw [if_pos hdeleted, List.set_cons_zero, List.getD_cons_zero]
    exact ⟨by decide, by decide⟩
  · rw [if_neg hdeleted]
    exact ⟨hzero, hdeleted⟩

/-- What is in the entry once the first character is put right. -/
theorem Keeps.filename_eq (hstored : Keeps entry stored) :
    (if stored.first = 0x05 then (stored.take 11).set 0 0xE5 else stored.take 11) =
      pad 8 entry.base ++ pad 3 entry.extension := by
  obtain ⟨c, name, hname, _, hfive⟩ := hstored.exists_head
  rw [first_eq_getD, hstored.name_eq, storedName, hname, List.cons_append, List.getD_cons_zero]
  by_cases hdeleted : c = 0xE5
  · simp [hdeleted]
  · simp [hdeleted, hfive]

theorem takeWhile_ne_zero (hname : 0 ∉ name) (rest : CString) :
    ((name ++ rest).takeWhile fun c => c ≠ 0) = name ++ rest.takeWhile fun c => c ≠ 0 := by
  refine List.takeWhile_append_of_pos fun c hmem => ?_
  exact decide_eq_true fun heq => hname (heq ▸ hmem)

/-- Spaces that are turned into terminators end a name. -/
theorem takeWhile_terminated (hzero : 0 ∉ name) :
    ((name.map fun c => if c = space then 0 else c).takeWhile fun c => c ≠ 0) =
      name.takeWhile fun c => c ≠ space := by
  induction name with
  | nil => rfl
  | cons c rest ih =>
      obtain ⟨hne, hrest⟩ := not_or.mp (mt List.mem_cons.mpr hzero)
      by_cases hspace : c = space
      · simp [hspace]
      · have hkeep : c ≠ 0 := Ne.symm hne
        rw [List.map_cons, if_neg hspace, List.takeWhile_cons_of_pos (by simpa using hkeep),
          List.takeWhile_cons_of_pos (by simpa using hspace), ih hrest]

theorem Keeps.zero_notMem_shortName (hstored : Keeps entry stored) :
    0 ∉ entry.cut.shortName := by
  have hbase : 0 ∉ entry.cut.base := fun hmem =>
    hstored.base_zero ((List.takeWhile_sublist _).mem hmem)
  have hextension : 0 ∉ entry.cut.extension := fun hmem =>
    hstored.extension_zero ((List.takeWhile_sublist _).mem hmem)
  rw [DirectoryEntry.shortName]
  split
  · exact hbase
  · rw [List.mem_append, List.mem_cons]
    rintro (hmem | hdot | hmem)
    · exact hbase hmem
    · exact absurd hdot (by decide)
    · exact hextension hmem



theorem fatParseShortFilename_eq (hstored : Keeps entry stored) :
    fatParseShortFilename stored = entry.cut.shortName := by
  have hlength := length_pad 8 hstored.base_length
  have hzero := hstored.zero_notMem_shortName
  have hbase : 0 ∉ entry.cut.base := fun hmem =>
    hstored.base_zero ((List.takeWhile_sublist _).mem hmem)
  rw [fatParseShortFilename, hstored.filename_eq, List.take_left' hlength,
    List.drop_left' hlength, takeWhile_pad 8, DirectoryEntry.shortName]
  have hhead : (pad 3 entry.extension).getD 0 0 ≠ space ↔ entry.cut.extension ≠ [] := by
    cases hextension : entry.extension with
    | nil => simp [DirectoryEntry.cut, hextension, pad]
    | cons c rest =>
        by_cases hspace : c = space <;> simp [DirectoryEntry.cut, hextension, pad, hspace]
  by_cases hnone : entry.cut.extension = []
  · rw [if_pos hnone, if_neg (mt hhead.mp (not_not.mpr hnone))]
    have hwhole := takeWhile_ne_zero hbase []
    rwa [List.append_nil, List.takeWhile_nil, List.append_nil] at hwhole
  · rw [if_neg hnone, if_pos (hhead.mpr hnone)]
    have hpadded : 0 ∉ pad 3 entry.extension := by
      rw [pad, List.mem_append]
      rintro (hmem | hfill)
      · exact hstored.extension_zero hmem
      · exact absurd (List.eq_of_mem_replicate hfill) (by decide)
    have hwhole := takeWhile_ne_zero hbase
      (dot :: (pad 3 entry.extension).map fun c => if c = space then 0 else c)
    rw [List.takeWhile_cons_of_pos (by decide), takeWhile_terminated hpadded, takeWhile_pad 3]
      at hwhole
    exact hwhole

/-! ## Searching -/

/-- The two comparisons of the search say whether the entry has the name. -/
theorem Keeps.compare_iff (hstored : Keeps entry stored)
    (hslots : LongNameSlots entry.longName slots) (hname : filename ≠ []) (hzero : 0 ∉ filename) :
    (stricmp filename (fatParseShortFilename stored) = 0 ∨
      stricmp filename (((List.range 265).map (nameFrom entry.longName 0)).takeWhile
        fun c => c ≠ 0) = 0) ↔ entry.cut.Named filename := by
  have hlong : 0 ∉ entry.longName := fun hmem => absurd (hslots.ascii 0 hmem).1 (by decide)
  rw [fatParseShortFilename_eq hstored, takeWhile_nameFrom hslots,
    stricmp_eq_zero_iff hzero hstored.zero_notMem_shortName, stricmp_eq_zero_iff hzero hlong]
  refine or_congr_right (iff_and_self.mpr fun hsame hnone => hname ?_)
  rw [cut_longName] at hnone
  rwa [hnone, List.map_nil, List.map_eq_nil_iff] at hsame

/-- The first entry of that name is found, or none if there is no such entry. -/
theorem searchLoop_kept {stored : List FatDirEntry} (hstored : Kept stored entries)
    (hname : filename ≠ []) (hzero : 0 ∉ filename) :
    (entries.find? (fun entry => entry.cut.Named filename) = none ∧
        searchLoop filename stored noLongName = .ok none) ∨
      ∃ entry found, entries.find? (fun entry => entry.cut.Named filename) = some entry ∧
        Keeps entry found ∧ searchLoop filename stored noLongName = .ok (some found) := by
  induction hstored with
  | ended hfirst => exact Or.inl ⟨rfl, by rw [searchLoop, if_pos hfirst]⟩
  | @deleted stored rest entries hdeleted _ ih =>
      rw [searchLoop, if_neg (by rw [hdeleted]; decide), if_pos hdeleted]
      exact ih
  | @label stored rest entries hfirst hlong hlabel _ ih =>
      have hskip : searchLoop filename (stored :: rest) noLongName =
          searchLoop filename rest noLongName := by
        rw [searchLoop, if_neg hfirst, if_neg hlong, if_pos hlabel, ite_self]
      rw [hskip]
      exact ih
  | @live slots stored rest entry entries hslots hstored _ ih =>
      have hnamed := hstored.compare_iff hslots hname hzero
      rw [searchLoop_slots hslots, searchLoop, if_neg hstored.first_ne.1,
        if_neg hstored.first_ne.2, if_neg hstored.not_longName,
        if_neg (not_not_intro hstored.not_label), List.find?_cons]
      by_cases hfound : entry.cut.Named filename
      · rw [if_pos (hnamed.mpr hfound), decide_eq_true hfound]
        exact Or.inr ⟨entry, stored, rfl, hstored, rfl⟩
      · rw [if_neg (mt hnamed.mp hfound), decide_eq_false hfound]
        exact ih

/-- What the search fills in for an entry. -/
def fillIn (device : DiskDevice) (volume : FatVolumeInformation) :
    Option DirectoryEntry → Outcome (Option FoundFile)
  | none => .ok none
  | some entry => do
      let fatChain ← fatGetFatChain device volume entry.startCluster
      .ok (some ⟨entry.attributes, entry.size, fatChain⟩)

theorem fatSearchDirectoryForFile_kept {contents : List UInt8} {directorySize : ℕ}
    (device : DiskDevice) (volume : MountedVolume)
    (hstored : Kept (directoryEntries contents) entries) (hsize : directorySize / 32 ≠ 0)
    (hname : filename ≠ []) (hzero : 0 ∉ filename) :
    fatSearchDirectoryForFile device volume contents directorySize filename =
      fillIn device volume.toFatVolumeInformation
        (entries.find? fun entry => entry.cut.Named filename) := by
  rw [fatSearchDirectoryForFile, if_neg hsize]
  rcases searchLoop_kept hstored hname hzero with
    ⟨hnone, hsearch⟩ | ⟨entry, found, hsome, hfound, hsearch⟩
  · rw [hnone, hsearch]
    rfl
  · rw [hsome, hsearch, fillIn]
    simp only [ok_bind, hfound.startCluster_eq, hfound.attributes_eq, hfound.size_eq]

/-- The search succeeds exactly if there is an entry of that name, and it fills in the first
one, with a chain that begins with its start cluster. -/
structure FindsFirst (device : DiskDevice) (volume : MountedVolume) (contents : List UInt8)
    (directorySize : ℕ) (filename : CString) (entries : List DirectoryEntry) : Prop where
  succeeds_iff :
    (∃ found, fatSearchDirectoryForFile device volume contents directorySize filename =
      .ok (some found)) ↔ ∃ entry ∈ entries, entry.Named filename
  fails : (∀ entry ∈ entries, ¬ entry.Named filename) →
    fatSearchDirectoryForFile device volume contents directorySize filename = .ok none
  first : ∀ entry, entries.find? (fun entry => entry.Named filename) = some entry →
    ∃ clusters, fatSearchDirectoryForFile device volume contents directorySize filename =
      .ok (some ⟨entry.attributes, entry.size, some (entry.startCluster :: clusters)⟩)

/-- The search finds the first entry of that name if the table gives all clusters of this
entry. -/
theorem fatSearchDirectoryForFile_findsFirst {contents : List UInt8} {directorySize : ℕ}
    {device : DiskDevice} {volume : MountedVolume}
    (hstored : Terminated (directoryEntries contents) entries) (hsize : 32 ≤ directorySize)
    (hname : filename ≠ []) (hzero : 0 ∉ filename)
    (hchain : ∀ entry, entries.find? (fun entry => entry.Named filename) = some entry →
      ∃ clusters, CompleteChain device volume.toFatVolumeInformation entry.startCluster
        (entry.startCluster :: clusters)) :
    FindsFirst device volume contents directorySize filename entries := by
  obtain ⟨hkept, hplain⟩ := hstored.kept
  have hsame : entries.find? (fun entry => entry.cut.Named filename) =
      entries.find? fun entry => entry.Named filename :=
    List.find?_congr fun entry hmem => by rw [(hplain entry hmem).cut_eq]
  have hsearch := fatSearchDirectoryForFile_kept device volume hkept
    (show directorySize / 32 ≠ 0 by omega) hname hzero
  rw [hsame] at hsearch
  have hfirst : ∀ entry, entries.find? (fun entry => entry.Named filename) = some entry →
      ∃ clusters, fatSearchDirectoryForFile device volume contents directorySize filename =
        .ok (some ⟨entry.attributes, entry.size, some (entry.startCluster :: clusters)⟩) := by
    intro entry hfound
    obtain ⟨clusters, hcomplete⟩ := hchain entry hfound
    rw [hfound] at hsearch
    refine ⟨clusters, hsearch.trans ?_⟩
    rw [fillIn, hcomplete.fatGetFatChain_eq hcomplete.bytesPerSector_pos]
    rfl
  have hfails : (∀ entry ∈ entries, ¬ entry.Named filename) →
      fatSearchDirectoryForFile device volume contents directorySize filename = .ok none := by
    intro hnone
    rw [List.find?_eq_none.mpr fun entry hmem => by simpa using hnone entry hmem] at hsearch
    exact hsearch
  refine ⟨⟨?_, ?_⟩, hfails, hfirst⟩
  · rintro ⟨found, hfound⟩
    by_contra hnone
    rw [hfails fun entry hmem hnamed => hnone ⟨entry, hmem, hnamed⟩] at hfound
    cases hfound
  · rintro ⟨entry, hmem, hnamed⟩
    obtain ⟨first, hfound⟩ : ∃ first,
        entries.find? (fun entry => entry.Named filename) = some first := by
      rw [← Option.isSome_iff_exists, List.find?_isSome]
      exact ⟨entry, hmem, by simpa using hnamed⟩
    obtain ⟨clusters, hresult⟩ := hfirst first hfound
    exact ⟨_, hresult⟩

/-! ## A directory -/

def mixedLabel : FatDirEntry := pad 11 [0x56] ++ attrVolumename :: List.replicate 20 0

def mixedDeleted : FatDirEntry := 0xE5 :: pad 10 [0x42] ++ 0x20 :: List.replicate 20 0

/-- `Ab`, a null character and what fills the slot. -/
def mixedSlot : FatDirEntry :=
  [0x41, 0x41, 0, 0x62, 0, 0, 0, 0xFF, 0xFF, 0xFF, 0xFF, attrLongName, 0, 0] ++
    List.replicate 12 0xFF ++ [0, 0] ++ List.replicate 4 0xFF

def mixedStored : FatDirEntry :=
  pad 8 [0x05, 0x42] ++ pad 3 [0x43] ++ 0x20 :: List.replicate 14 0 ++ [2, 0, 7, 0, 0, 0]

def mixedEntry : DirectoryEntry := ⟨[0xE5, 0x42], [0x43], [0x41, 0x62], 0x20, 7, 2⟩

def mixedContents : List UInt8 :=
  mixedLabel ++ mixedDeleted ++ mixedSlot ++ mixedStored ++ List.replicate 32 0

theorem mixedContents_terminated : Terminated (directoryEntries mixedContents) [mixedEntry] := by
  rw [show directoryEntries mixedContents =
    [mixedLabel, mixedDeleted, mixedSlot, mixedStored, List.replicate 32 0] by decide +kernel]
  have hslots : LongNameSlots mixedEntry.longName [mixedSlot] :=
    ⟨by decide, by decide, by decide, by decide +kernel,
      .cons ⟨by decide, by decide, by decide +kernel⟩ .nil⟩
  have hstored : Encodes mixedEntry mixedStored := by
    constructor
    case plain => exact ⟨by decide, by decide⟩
    all_goals decide +kernel
  exact .label (by decide) (by decide) (by decide)
    (.deleted (by decide) (.live hslots hstored (.ended (by decide))))

def blankMountedVolume : MountedVolume where
  toFatVolumeInformation := blankVolume
  fatSectorStart := 1
  numberOfFats := 1
  sectorsPerFat := 1
  rootDirSectorStart := 2
  rootDirSectors := 1
  rootDirStartCluster := 0

theorem blankChain :
    CompleteChain blankDevice blankMountedVolume.toFatVolumeInformation 2 [2] :=
  .cons rfl fatGetFatEntry_blank (.ended rfl)

/-- `aB` is the long name of the only file. -/
theorem fatSearchDirectoryForFile_findsFirst_mixed :
    FindsFirst blankDevice blankMountedVolume mixedContents 160 [0x61, 0x42] [mixedEntry] := by
  refine fatSearchDirectoryForFile_findsFirst mixedContents_terminated (by decide) (by decide)
    (by decide) fun entry hfound => ?_
  obtain rfl := List.mem_singleton.mp (List.mem_of_find?_eq_some hfound)
  exact ⟨[], blankChain⟩

/-- None of the sectors of this device can be read. -/
def deadDevice : DiskDevice := { blankDevice with readable := fun _ _ => false }

/-- The directory is in memory, but the table of the volume cannot be read: the file has no
clusters. -/
theorem deadDevice_not_findsFirst :
    ¬ ∀ (device : DiskDevice) (volume : MountedVolume) (contents : List UInt8)
      (directorySize : ℕ) (filename : CString) (entries : List DirectoryEntry),
      Terminated (directoryEntries contents) entries → 32 ≤ directorySize → filename ≠ [] →
      0 ∉ filename → FindsFirst device volume contents directorySize filename entries := by
  intro hall
  have hfinds := hall deadDevice blankMountedVolume mixedContents 160 [0x61, 0x42] [mixedEntry]
    mixedContents_terminated (by decide) (by decide) (by decide)
  obtain ⟨clusters, hfirst⟩ := hfinds.first mixedEntry (by decide)
  have hresult : fatSearchDirectoryForFile deadDevice blankMountedVolume mixedContents 160
      [0x61, 0x42] = .ok (some ⟨0x20, 7, some []⟩) := by
    decide +kernel
  rw [hresult] at hfirst
  simp at hfirst

end GeexOS.Fat
