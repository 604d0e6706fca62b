import GeexOS.Loader.FatListing

/-!
# The scan of a directory

The search looks at one entry behind the other in memory.  Its counter is never
increased, so what ends it is an end mark or the file itself, in the directory or
behind it.
-/

namespace GeexOS.Fat

open GeexOS.Words
open GeexOS.Halting
open GeexOS.Strings

/-! ## The loop in memory -/

/-- The bytes of an entry, in the memory from the directory's contents on. -/
def entryAt (memory : ℕ → UInt8) (index : ℕ) : FatDirEntry :=
  (List.range 32).map fun i => memory (32 * index + i)

/-- The comparison with `longNameBuffer`.  It is read up to a difference or a null
character, behind its end where there is neither. -/
def equalsLongName (filename : CString) (longNameBuffer : List UInt8) : Outcome Bool :=
  if 0 ∉ longNameBuffer ∧ longNameBuffer.length ≤ filename.length ∧
      stricmp (filename.take longNameBuffer.length) longNameBuffer = 0 then .error .fault
  else .ok (stricmp filename (longNameBuffer.takeWhile fun c => c ≠ 0) = 0)

/-- How an iteration ends. -/
inductive Iteration where
  | returnFalse
  | found
  | next (longNameBuffer : List UInt8)

/-- The body of the loop. -/
def iteration (filename : CString) (entry : FatDirEntry) (longNameBuffer : List UInt8) :
    Outcome Iteration :=
  if entry.first = 0 then .ok .returnFalse
  else if entry.first = 0xE5 then .ok (.next noLongName)
  else if entry.attributes = attrLongName then
    if entry.first &&& 0x80 ≠ 0 then .ok (.next longNameBuffer)
    else do
      let longNameBuffer ← storeSlot entry longNameBuffer
      .ok (.next longNameBuffer)
  else if entry.attributes &&& attrVolumename ≠ 0 then .ok (.next noLongName)
  else if stricmp filename (fatParseShortFilename entry) = 0 then .ok .found
  else do
    let equal ← equalsLongName filename longNameBuffer
    .ok (if equal then .found else .next noLongName)

/-- The loop: the number of entries examined, and the one found. -/
def scanLoop (filename : CString) (memory : ℕ → UInt8) :
    (fuel index : ℕ) → (longNameBuffer : List UInt8) → Outcome (ℕ × Option FatDirEntry)
  | 0, _, _ => .error .diverges
  | fuel + 1, index, longNameBuffer => do
      match ← iteration filename (entryAt memory index) longNameBuffer with
      | .returnFalse => .ok (index + 1, none)
      | .found => .ok (index + 1, some (entryAt memory index))
      | .next longNameBuffer => scanLoop filename memory fuel (index + 1) longNameBuffer

/-- `fat_searchDirectoryForFile`, with the number of entries examined. -/
def searchMemory (device : DiskDevice) (volume : FatVolumeInformation) (memory : ℕ → UInt8)
    (directorySize : ℕ) (filename : CString) (fuel : ℕ) : Outcome (ℕ × Option FoundFile) :=
  if directorySize / 32 = 0 then .ok (0, none)
  else do
    match ← scanLoop filename memory fuel 0 noLongName with
    | (examined, none) => .ok (examined, none)
    | (examined, some entry) =>
        let fatChain ← fatGetFatChain device volume entry.startCluster
        .ok (examined, some ⟨entry.attributes, entry.size, fatChain⟩)

/-! ## What an entry is -/

inductive EntryKind where
  | endMark
  | deleted
  | deletedSlot
  | slot
  | volumeLabel
  | file
  deriving DecidableEq

namespace FatDirEntry

def kind (entry : FatDirEntry) : EntryKind :=
  if entry.first = 0 then .endMark
  else if entry.first = 0xE5 then .deleted
  else if entry.attributes = attrLongName then
    if entry.first &&& 0x80 ≠ 0 then .deletedSlot else .slot
  else if entry.attributes &&& attrVolumename ≠ 0 then .volumeLabel
  else .file

/-- The place of a slot in the name. -/
def slotIndex (entry : FatDirEntry) : ℕ := ((entry.first &&& 0x3F) - 1).toNat * 13

/-- No character of the slot belongs behind the buffer. -/
def SlotFits (entry : FatDirEntry) : Prop := CharsFit entry.slotIndex entry.nameChars

instance (entry : FatDirEntry) : Decidable entry.SlotFits :=
  inferInstanceAs (Decidable (CharsFit _ _))

end FatDirEntry

/-- The last character that one of the slots has for a position. -/
def storedChar (slots : List FatDirEntry) : (position : ℕ) → UInt8 :=
  slots.foldl (fun chars slot => overlay chars slot.slotIndex slot.nameChars) fun _ => 0

def assembled (slots : List FatDirEntry) : List UInt8 := (List.range 265).map (storedChar slots)

def longName (slots : List FatDirEntry) : CString := (assembled slots).takeWhile fun c => c ≠ 0

section Memory

variable (filename : CString) (memory : ℕ → UInt8)

/-- The slots in front of an entry that belong to it. -/
def slotsBefore : (index : ℕ) → List FatDirEntry
  | 0 => []
  | index + 1 =>
      match (entryAt memory index).kind with
      | .slot => slotsBefore index ++ [entryAt memory index]
      | .deletedSlot => slotsBefore index
      | _ => []

/-- The entry is that of the file. -/
def IsNamed (index : ℕ) : Prop :=
  (entryAt memory index).kind = .file ∧
    (stricmp filename (fatParseShortFilename (entryAt memory index)) = 0 ∨
      stricmp filename (longName (slotsBefore memory index)) = 0)

/-- The search ends with the entry. -/
def Stops (index : ℕ) : Prop :=
  (entryAt memory index).kind = .endMark ∨ IsNamed filename memory index

/-- The name goes on where a buffer without a null character ends. -/
def Outruns (slots : List FatDirEntry) : Prop :=
  0 ∉ assembled slots ∧ 265 ≤ filename.length ∧
    stricmp (filename.take 265) (assembled slots) = 0

/-- The entry leads to an access behind the buffer. -/
def LeavesBuffer (index : ℕ) : Prop :=
  (entryAt memory index).kind = .slot ∧ ¬ (entryAt memory index).SlotFits ∨
    (entryAt memory index).kind = .file ∧
      stricmp filename (fatParseShortFilename (entryAt memory index)) ≠ 0 ∧
        Outruns filename (slotsBefore memory index)

end Memory

variable {filename : CString} {memory : ℕ → UInt8} {index fuel examined directorySize : ℕ}
variable {device : DiskDevice} {volume : FatVolumeInformation}

instance : Decidable (IsNamed filename memory index) :=
  inferInstanceAs (Decidable (_ ∧ _))

instance (slots : List FatDirEntry) : Decidable (Outruns filename slots) :=
  inferInstanceAs (Decidable (_ ∧ _))

instance : Decidable (Stops filename memory index) :=
  inferInstanceAs (Decidable (_ ∨ _))

instance : Decidable (LeavesBuffer filename memory index) :=
  inferInstanceAs (Decidable (_ ∨ _))

/-! ## One iteration -/

@[simp]
theorem length_assembled (slots : List FatDirEntry) : (assembled slots).length = 265 := by
  simp [assembled]

theorem assembled_nil : assembled [] = noLongName := by
  have hcleared : storedChar [] = fun _ => 0 := rfl
  rw [assembled, hcleared, List.map_const', List.length_range, noLongName]

theorem storeSlot_assembled (entry : FatDirEntry) (slots : List FatDirEntry) :
    storeSlot entry (assembled slots) =
      if entry.SlotFits then .ok (assembled (slots ++ [entry])) else .error .fault := by
  have hstored : storedChar (slots ++ [entry]) =
      overlay (storedChar slots) entry.slotIndex entry.nameChars := List.foldl_append
  rw [assembled, assembled, hstored]
  exact storeNameChars_eq_ite _ _ _

theorem equalsLongName_assembled (slots : List FatDirEntry) :
    equalsLongName filename (assembled slots) =
      if Outruns filename slots then .error .fault
      else .ok (stricmp filename (longName slots) = 0) := by
  rw [equalsLongName, length_assembled]
  rfl

theorem iteration_kind (filename : CString) (entry : FatDirEntry)
    (longNameBuffer : List UInt8) :
    iteration filename entry longNameBuffer =
      match entry.kind with
      | .endMark => .ok .returnFalse
      | .deleted => .ok (.next noLongName)
      | .deletedSlot => .ok (.next longNameBuffer)
      | .slot => storeSlot entry longNameBuffer >>= fun stored => .ok (.next stored)
      | .volumeLabel => .ok (.next noLongName)
      | .file =>
          if stricmp filename (fatParseShortFilename entry) = 0 then .ok .found
          else equalsLongName filename longNameBuffer >>= fun equal =>
            .ok (if equal then .found else .next noLongName) := by
  rw [iteration, FatDirEntry.kind]
  split_ifs <;> rfl

/-- What an iteration does with the characters of the slots in the buffer. -/
theorem iteration_eq (filename : CString) (memory : ℕ → UInt8) (index : ℕ) :
    iteration filename (entryAt memory index) (assembled (slotsBefore memory index)) =
      if LeavesBuffer filename memory index then .error .fault
      else if (entryAt memory index).kind = .endMark then .ok .returnFalse
      else if IsNamed filename memory index then .ok .found
      else .ok (.next (assembled (slotsBefore memory (index + 1)))) := by
  rw [iteration_kind]
  cases hkind : (entryAt memory index).kind with
  | endMark => simp [LeavesBuffer, hkind]
  | deleted => simp [LeavesBuffer, IsNamed, slotsBefore, hkind, assembled_nil]
  | deletedSlot => simp [LeavesBuffer, IsNamed, slotsBefore, hkind]
  | volumeLabel => simp [LeavesBuffer, IsNamed, slotsBefore, hkind, assembled_nil]
  | slot =>
      simp only [storeSlot_assembled]
      by_cases hfits : (entryAt memory index).SlotFits
      · simp [LeavesBuffer, IsNamed, slotsBefore, hkind, hfits]
      · simp [LeavesBuffer, hkind, hfits]
  | file =>
      simp only [equalsLongName_assembled]
      by_cases hshort : stricmp filename (fatParseShortFilename (entryAt memory index)) = 0
      · simp [LeavesBuffer, IsNamed, hkind, hshort]
      by_cases houtruns : Outruns filename (slotsBefore memory index)
      · simp [LeavesBuffer, hkind, hshort, houtruns]
      by_cases hequal : stricmp filename (longName (slotsBefore memory index)) = 0
      · simp [LeavesBuffer, IsNamed, hkind, hshort, houtruns, hequal]
      · simp [LeavesBuffer, IsNamed, slotsBefore, hkind, hshort, houtruns, hequal, assembled_nil]

/-- The loop over a list of entries makes the same iterations, for a name that ends before
the buffer does. -/
theorem searchLoop_cons (entry : FatDirEntry) (rest : List FatDirEntry)
    {longNameBuffer : List UInt8} (hname : filename.length < longNameBuffer.length) :
    searchLoop filename (entry :: rest) longNameBuffer =
      iteration filename entry longNameBuffer >>= fun step =>
        match step with
        | .returnFalse => .ok none
        | .found => .ok (some entry)
        | .next longNameBuffer => searchLoop filename rest longNameBuffer := by
  have hequal : equalsLongName filename longNameBuffer =
      .ok (stricmp filename (longNameBuffer.takeWhile fun c => c ≠ 0) = 0) := by
    rw [equalsLongName, if_neg fun hends => absurd hends.2.1 (Nat.not_le_of_lt hname)]
  rw [searchLoop, iteration, hequal]
  by_cases hend : entry.first = 0
  · rw [if_pos hend, if_pos hend, ok_bind]
  rw [if_neg hend, if_neg hend]
  by_cases hdeleted : entry.first = 0xE5
  · rw [if_pos hdeleted, if_pos hdeleted, ok_bind]
  rw [if_neg hdeleted, if_neg hdeleted]
  by_cases hlong : entry.attributes = attrLongName
  · rw [if_pos hlong, if_pos hlong]
    by_cases hmarked : entry.first &&& 0x80 ≠ 0
    · rw [if_pos hmarked, if_pos hmarked, ok_bind]
    · rw [if_neg hmarked, if_neg hmarked]
      cases storeSlot entry longNameBuffer with
      | error halt => rfl
      | ok stored => rfl
  rw [if_neg hlong, if_neg hlong]
  by_cases hvolume : entry.attributes &&& attrVolumename ≠ 0
  · rw [if_pos hvolume, if_pos hvolume, ok_bind]
  rw [if_neg hvolume, if_neg hvolume]
  by_cases hshort : stricmp filename (fatParseShortFilename entry) = 0
  · rw [if_pos (Or.inl hshort), if_pos hshort, ok_bind]
  rw [if_neg hshort, ok_bind, ok_bind]
  by_cases hname : stricmp filename (longNameBuffer.takeWhile fun c => c ≠ 0) = 0
  · rw [if_pos (Or.inr hname), if_pos (decide_eq_true hname)]
  · rw [if_neg (not_or.mpr ⟨hshort, hname⟩), if_neg (by simpa using hname)]

/-! ## The whole scan -/

/-- The first entry that the search ends with, where no access was behind the buffer. -/
structure IsLast (filename : CString) (memory : ℕ → UInt8) (index : ℕ) : Prop where
  stops : Stops filename memory index
  first : ∀ earlier < index, ¬ Stops filename memory earlier
  in_buffer : ∀ earlier ≤ index, ¬ LeavesBuffer filename memory earlier

/-- What a search that ends with an entry has found. -/
def foundAt (memory : ℕ → UInt8) (index : ℕ) : Option FatDirEntry :=
  if (entryAt memory index).kind = .endMark then none else some (entryAt memory index)

theorem IsLast.eq {last : ℕ} (hlast : IsLast filename memory last)
    (hother : IsLast filename memory index) : last = index := by
  rcases Nat.lt_trichotomy last index with hlt | heq | hgt
  · exact absurd hlast.stops (hother.first last hlt)
  · exact heq
  · exact absurd hother.stops (hlast.first index hgt)

theorem scanLoop_leaves (hleaves : LeavesBuffer filename memory index) :
    scanLoop filename memory (fuel + 1) index (assembled (slotsBefore memory index)) =
      .error .fault := by
  rw [scanLoop, iteration_eq, if_pos hleaves, error_bind]

/-- The scan ends with an entry that stops it. -/
theorem scanLoop_stops (hstops : Stops filename memory index)
    (hleaves : ¬ LeavesBuffer filename memory index) :
    scanLoop filename memory (fuel + 1) index (assembled (slotsBefore memory index)) =
      .ok (index + 1, foundAt memory index) := by
  rw [scanLoop, iteration_eq, if_neg hleaves]
  by_cases hmark : (entryAt memory index).kind = .endMark
  · rw [if_pos hmark, foundAt, if_pos hmark]
    rfl
  · rw [if_neg hmark, if_pos (hstops.resolve_left hmark), foundAt, if_neg hmark]
    rfl

/-- The scan goes on behind any other entry. -/
theorem scanLoop_next (hstops : ¬ Stops filename memory index)
    (hleaves : ¬ LeavesBuffer filename memory index) :
    scanLoop filename memory (fuel + 1) index (assembled (slotsBefore memory index)) =
      scanLoop filename memory fuel (index + 1) (assembled (slotsBefore memory (index + 1))) := by
  have hmark : (entryAt memory index).kind ≠ .endMark := fun heq => hstops (Or.inl heq)
  have hname : ¬ IsNamed filename memory index := fun hname => hstops (Or.inr hname)
  rw [scanLoop, iteration_eq, if_neg hleaves, if_neg hmark, if_neg hname]
  rfl

/-- A scan that returns has come to the first entry that ends it. -/
theorem scanLoop_eq_ok {found : Option FatDirEntry}
    (hearlier : ∀ earlier < index, ¬ Stops filename memory earlier ∧
      ¬ LeavesBuffer filename memory earlier) :
    scanLoop filename memory fuel index (assembled (slotsBefore memory index)) =
        .ok (examined, found) ↔
      ∃ last, last < index + fuel ∧ IsLast filename memory last ∧ examined = last + 1 ∧
        found = foundAt memory last := by
  induction fuel generalizing index with
  | zero =>
      refine iff_of_false (fun hscan => by cases hscan) ?_
      rintro ⟨last, hlast, hstop, _⟩
      exact (hearlier last hlast).1 hstop.stops
  | succ fuel ih =>
      by_cases hleaves : LeavesBuffer filename memory index
      · rw [scanLoop_leaves hleaves]
        refine iff_of_false (fun hscan => by cases hscan) ?_
        rintro ⟨last, hlast, hstop, _⟩
        rcases Nat.lt_or_ge last index with hlow | hhigh
        · exact (hearlier last hlow).1 hstop.stops
        · exact hstop.in_buffer index hhigh hleaves
      by_cases hstops : Stops filename memory index
      · -- the entry is the last one
        have hlast : IsLast filename memory index :=
          { stops := hstops
            first := fun earlier hlt => (hearlier earlier hlt).1
            in_buffer := fun earlier hle => by
              rcases Nat.lt_or_eq_of_le hle with hlt | rfl
              · exact (hearlier earlier hlt).2
              · exact hleaves }
        rw [scanLoop_stops hstops hleaves, Except.ok.injEq, Prod.mk.injEq]
        constructor
        · rintro ⟨rfl, rfl⟩
          exact ⟨index, by omega, hlast, rfl, rfl⟩
        · rintro ⟨last, _, hother, rfl, rfl⟩
          rw [hother.eq hlast]
          exact ⟨rfl, rfl⟩
      · rw [scanLoop_next hstops hleaves]
        refine (ih fun earlier hlt => ?_).trans ?_
        · rcases Nat.lt_succ_iff_lt_or_eq.mp hlt with hlt | rfl
          · exact hearlier earlier hlt
          · exact ⟨hstops, hleaves⟩
        · rw [Nat.add_right_comm, Nat.add_assoc]

/-! ## The search -/

/-- The search returns, has not examined an entry behind the directory, and has not found
the file where no entry is that of the file. -/
def StaysInDirectory (device : DiskDevice) (volume : FatVolumeInformation)
    (memory : ℕ → UInt8) (directorySize : ℕ) (filename : CString) : Prop :=
  ∃ fuel examined found,
    searchMemory device volume memory directorySize filename fuel = .ok (examined, found) ∧
      examined ≤ directorySize / 32 ∧
        ((∀ index < directorySize / 32, ¬ IsNamed filename memory index) → found = none)

/-- The scan ends inside of the directory, with an end mark or with the file and its chain
of clusters. -/
def EndsInDirectory (device : DiskDevice) (volume : FatVolumeInformation)
    (memory : ℕ → UInt8) (directorySize : ℕ) (filename : CString) : Prop :=
  ∃ index < directorySize / 32, IsLast filename memory index ∧
    ((entryAt memory index).kind = .endMark ∨
      ∃ chain, fatGetFatChain device volume (entryAt memory index).startCluster = .ok chain)

theorem scan_eq_ok {found : Option FatDirEntry} :
    scanLoop filename memory fuel 0 noLongName = .ok (examined, found) ↔
      ∃ last < fuel, IsLast filename memory last ∧ examined = last + 1 ∧
        found = foundAt memory last := by
  have hscan := @scanLoop_eq_ok filename memory 0 fuel examined found
    fun earlier hlt => absurd hlt (Nat.not_lt_zero earlier)
  rwa [Nat.zero_add, slotsBefore, assembled_nil] at hscan

theorem endsInDirectory_of_stays
    (hstays : StaysInDirectory device volume memory directorySize filename) :
    directorySize / 32 = 0 ∨ EndsInDirectory device volume memory directorySize filename := by
  obtain ⟨fuel, examined, found, hsearch, hinside, _⟩ := hstays
  rw [searchMemory] at hsearch
  split at hsearch
  · rename_i hempty
    exact Or.inl hempty
  · right
    obtain ⟨⟨count, entry⟩, hscan, hsearch⟩ := bind_eq_ok.mp hsearch
    obtain ⟨last, _, hlast, rfl, rfl⟩ := scan_eq_ok.mp hscan
    rw [foundAt] at hsearch
    by_cases hmark : (entryAt memory last).kind = .endMark
    · rw [if_pos hmark] at hsearch
      obtain ⟨rfl, rfl⟩ := Prod.mk.inj (Except.ok.inj hsearch)
      exact ⟨last, hinside, hlast, Or.inl hmark⟩
    · rw [if_neg hmark] at hsearch
      obtain ⟨chain, hchain, hsearch⟩ := bind_eq_ok.mp hsearch
      obtain ⟨rfl, rfl⟩ := Prod.mk.inj (Except.ok.inj hsearch)
      exact ⟨last, hinside, hlast, Or.inr ⟨chain, hchain⟩⟩

theorem staysInDirectory_of_ends
    (hends : EndsInDirectory device volume memory directorySize filename) :
    StaysInDirectory device volume memory directorySize filename := by
  obtain ⟨last, hinside, hlast, hends⟩ := hends
  have hscan : scanLoop filename memory (last + 1) 0 noLongName =
      .ok (last + 1, foundAt memory last) :=
    scan_eq_ok.mpr ⟨last, Nat.lt_succ_self last, hlast, rfl, rfl⟩
  rw [foundAt] at hscan
  by_cases hmark : (entryAt memory last).kind = .endMark
  · rw [if_pos hmark] at hscan
    refine ⟨last + 1, last + 1, none, ?_, hinside, fun _ => rfl⟩
    rw [searchMemory, if_neg (by omega), hscan]
    rfl
  · obtain ⟨chain, hchain⟩ := hends.resolve_left hmark
    rw [if_neg hmark] at hscan
    refine ⟨last + 1, last + 1, some ⟨(entryAt memory last).attributes,
      (entryAt memory last).size, chain⟩, ?_, hinside, fun hnone => ?_⟩
    · rw [searchMemory, if_neg (by omega), hscan]
      simp only [ok_bind, hchain]
    · exact absurd (hlast.stops.resolve_left hmark) (hnone last hinside)

/-- The search stays in the directory only where there is an entry to end it. -/
theorem staysInDirectory_iff :
    StaysInDirectory device volume memory directorySize filename ↔
      directorySize / 32 = 0 ∨ EndsInDirectory device volume memory directorySize filename := by
  refine ⟨endsInDirectory_of_stays, ?_⟩
  rintro (hempty | hends)
  · exact ⟨0, 0, none, by rw [searchMemory, if_pos hempty], Nat.zero_le _, fun _ => rfl⟩
  · exact staysInDirectory_of_ends hends

/-! ## A full directory -/

/-- Sixteen entries of empty files `A`, with cleared memory behind them. -/
def fullMemory (position : ℕ) : UInt8 :=
  if position < 512 then
    [0x41, 0x20, 0x20, 0x20, 0x20, 0x20, 0x20, 0x20, 0x20, 0x20, 0x20].getD (position % 32) 0
  else 0

/-- The search for another file leaves the directory. -/
theorem not_staysInDirectory :
    ¬ ∀ (device : DiskDevice) (volume : FatVolumeInformation) (memory : ℕ → UInt8)
      (directorySize : ℕ) (filename : CString),
        StaysInDirectory device volume memory directorySize filename := by
  intro hstays
  have hnone : ∀ index < 512 / 32, ¬ Stops [0x42] fullMemory index := by decide +kernel
  rcases endsInDirectory_of_stays (hstays blankDevice blankVolume fullMemory 512 [0x42]) with
    hempty | ⟨index, hindex, hlast, _⟩
  · cases hempty
  · exact hnone index hindex hlast.stops

end GeexOS.Fat
