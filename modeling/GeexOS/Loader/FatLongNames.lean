import GeexOS.Loader.FatScan

/-!
# The buffer of a long name

A slot says itself where in the buffer its characters belong.  The number is not
checked, so it leads behind the buffer where it is 0 or too great, and the last
places of the buffer can be filled too.
-/

namespace GeexOS.Fat

open GeexOS.Words
open GeexOS.Halting
open GeexOS.Strings

/-! ## Accesses -/

/-- What the search does with `longNameBuffer`. -/
inductive BufferAccess where
  | write (index : ℕ)
  | compare (longNameBuffer : List UInt8)

/-- Inside of the buffer, and up to a null character in it. -/
def BufferAccess.Ok : BufferAccess → Prop
  | write index => index < 265
  | compare longNameBuffer => 0 ∈ longNameBuffer

/-- The indices at which the characters of a slot are written. -/
def charWrites : (index : ℕ) → List ℕ → List ℕ
  | _, [] => []
  | index, c :: rest =>
      if c = 0xFFFF then charWrites (index + 1) rest else index :: charWrites (index + 1) rest

/-- The accesses of `iteration`. -/
def iterationAccesses (filename : CString) (entry : FatDirEntry) (longNameBuffer : List UInt8) :
    List BufferAccess :=
  if entry.first = 0 then []
  else if entry.first = 0xE5 then []
  else if entry.attributes = attrLongName then
    if entry.first &&& 0x80 ≠ 0 then []
    else
      let sequenceNumber := (entry.first &&& 0x3F) - 1
      (charWrites (sequenceNumber.toNat * 13) entry.nameChars).map .write
  else if entry.attributes &&& attrVolumename ≠ 0 then []
  else if stricmp filename (fatParseShortFilename entry) = 0 then []
  else [.compare longNameBuffer]

/-- The accesses of `scanLoop` for the entries of a directory. -/
def scanAccesses (filename : CString) (memory : ℕ → UInt8) :
    (remaining index : ℕ) → (longNameBuffer : List UInt8) → List BufferAccess
  | 0, _, _ => []
  | remaining + 1, index, longNameBuffer =>
      iterationAccesses filename (entryAt memory index) longNameBuffer ++
        match iteration filename (entryAt memory index) longNameBuffer with
        | .ok (.next longNameBuffer) =>
            scanAccesses filename memory remaining (index + 1) longNameBuffer
        | _ => []

/-- No entry of the directory makes the search leave the buffer. -/
def KeepsBuffer (memory : ℕ → UInt8) (directorySize : ℕ) (filename : CString) : Prop :=
  ∀ access ∈ scanAccesses filename memory (directorySize / 32) 0 noLongName, access.Ok

/-- The characters of a slot have a place in the buffer, and the slots in front of a file
that is not found by its short name leave a place free. -/
structure EntryFits (filename : CString) (memory : ℕ → UInt8) (index : ℕ) : Prop where
  slot : (entryAt memory index).kind = .slot → (entryAt memory index).SlotFits
  file : (entryAt memory index).kind = .file →
    stricmp filename (fatParseShortFilename (entryAt memory index)) ≠ 0 →
      ∃ position < 265, storedChar (slotsBefore memory index) position = 0

variable {filename : CString} {memory : ℕ → UInt8} {index remaining directorySize : ℕ}

/-! ## One entry -/

theorem charWrites_lt_iff {chars : List ℕ} :
    (∀ place ∈ charWrites index chars, place < 265) ↔ CharsFit index chars := by
  induction chars generalizing index with
  | nil => exact iff_of_true (by simp [charWrites]) fun offset hoffset => by simp at hoffset
  | cons c chars ih =>
      rw [charWrites, charsFit_cons, ← ih]
      by_cases hc : c = 0xFFFF
      · simp [hc]
      · simp [hc]

theorem zero_mem_assembled {slots : List FatDirEntry} :
    0 ∈ assembled slots ↔ ∃ position < 265, storedChar slots position = 0 := by
  simp [assembled]

theorem iterationAccesses_kind (filename : CString) (entry : FatDirEntry)
    (longNameBuffer : List UInt8) :
    iterationAccesses filename entry longNameBuffer =
      match entry.kind with
      | .slot => (charWrites entry.slotIndex entry.nameChars).map .write
      | .file =>
          if stricmp filename (fatParseShortFilename entry) = 0 then []
          else [.compare longNameBuffer]
      | _ => [] := by
  rw [iterationAccesses, FatDirEntry.kind]
  split_ifs <;> rfl

theorem iterationAccesses_ok_iff :
    (∀ access ∈ iterationAccesses filename (entryAt memory index)
      (assembled (slotsBefore memory index)), access.Ok) ↔ EntryFits filename memory index := by
  have hplain : (entryAt memory index).kind ≠ .slot → (entryAt memory index).kind ≠ .file →
      EntryFits filename memory index := fun hslot hfile =>
    ⟨fun heq => absurd heq hslot, fun heq => absurd heq hfile⟩
  rw [iterationAccesses_kind]
  cases hkind : (entryAt memory index).kind with
  | endMark | deleted | deletedSlot | volumeLabel =>
      exact iff_of_true (by simp) (hplain (by simp [hkind]) (by simp [hkind]))
  | slot =>
      rw [List.forall_mem_map]
      have hfile : (entryAt memory index).kind ≠ .file := by simp [hkind]
      have hwrites := @charWrites_lt_iff (entryAt memory index).slotIndex
        (entryAt memory index).nameChars
      exact hwrites.trans ⟨fun hfits => ⟨fun _ => hfits, fun heq => absurd heq hfile⟩,
        fun hfits => hfits.slot hkind⟩
  | file =>
      have hslot : (entryAt memory index).kind ≠ .slot := by simp [hkind]
      by_cases hshort : stricmp filename (fatParseShortFilename (entryAt memory index)) = 0
      · simp only [hshort, if_true]
        exact iff_of_true (by simp)
          ⟨fun heq => absurd heq hslot, fun _ hne => absurd hshort hne⟩
      · simp only [hshort, if_false, List.forall_mem_singleton]
        exact zero_mem_assembled.trans
          ⟨fun hfree => ⟨fun heq => absurd heq hslot, fun _ _ => hfree⟩,
            fun hfits => hfits.file hkind hshort⟩

theorem EntryFits.not_leavesBuffer (hfits : EntryFits filename memory index) :
    ¬ LeavesBuffer filename memory index := by
  rintro (⟨hkind, hleaves⟩ | ⟨hkind, hshort, hfull, _⟩)
  · exact hleaves (hfits.slot hkind)
  · exact hfull (zero_mem_assembled.mpr (hfits.file hkind hshort))

/-! ## The directory -/

/-- From an entry on that the search comes to, all accesses are in order if the entries
are that it comes to next. -/
theorem scanAccesses_ok_iff (hearlier : ∀ earlier < index, ¬ Stops filename memory earlier) :
    (∀ access ∈ scanAccesses filename memory remaining index
        (assembled (slotsBefore memory index)), access.Ok) ↔
      ∀ later, index ≤ later → later < index + remaining →
        (∀ earlier < later, ¬ Stops filename memory earlier) →
          EntryFits filename memory later := by
  induction remaining generalizing index with
  | zero => exact iff_of_true (by simp [scanAccesses]) fun later hlow hhigh => by omega
  | succ remaining ih =>
      rw [scanAccesses, List.forall_mem_append, iterationAccesses_ok_iff, iteration_eq]
      by_cases hfits : EntryFits filename memory index
      · rw [if_neg hfits.not_leavesBuffer]
        refine (and_iff_right hfits).trans ?_
        by_cases hstops : Stops filename memory index
        · refine iff_of_true (fun access hmem => ?_) fun later hlow _ hnext => ?_
          · by_cases hmark : (entryAt memory index).kind = .endMark
            · rw [if_pos hmark] at hmem
              cases hmem
            · rw [if_neg hmark, if_pos (hstops.resolve_left hmark)] at hmem
              cases hmem
          · obtain rfl : later = index := by
              by_contra hne
              exact hnext index (by omega) hstops
            exact hfits
        · have hmark : (entryAt memory index).kind ≠ .endMark := fun heq => hstops (Or.inl heq)
          have hname : ¬ IsNamed filename memory index := fun hname => hstops (Or.inr hname)
          rw [if_neg hmark, if_neg hname]
          refine (ih fun earlier hlt => ?_).trans
            ⟨fun hall later hlow hhigh hnext => ?_, fun hall later hlow hhigh => ?_⟩
          · rcases Nat.lt_succ_iff_lt_or_eq.mp hlt with hlt | rfl
            · exact hearlier earlier hlt
            · exact hstops
          · rcases Nat.eq_or_lt_of_le hlow with rfl | hlow
            · exact hfits
            · exact hall later hlow (by omega) hnext
          · exact hall later (by omega) (by omega)
      · exact iff_of_false (fun hboth => hfits hboth.1) fun hall =>
          hfits (hall index le_rfl (by omega) hearlier)

/-- The scan from the first entry on, with an empty buffer. -/
theorem scanAccesses_zero_ok_iff :
    (∀ access ∈ scanAccesses filename memory remaining 0 noLongName, access.Ok) ↔
      ∀ later < remaining, (∀ earlier < later, ¬ Stops filename memory earlier) →
        EntryFits filename memory later := by
  have hscan := @scanAccesses_ok_iff filename memory 0 remaining
    fun earlier hlt => absurd hlt (Nat.not_lt_zero earlier)
  rw [slotsBefore, assembled_nil, Nat.zero_add] at hscan
  exact hscan.trans ⟨fun hall index => hall index (Nat.zero_le index),
    fun hall index _ => hall index⟩

/-- Exactly which directories keep the search in the buffer. -/
theorem keepsBuffer_iff :
    KeepsBuffer memory directorySize filename ↔
      ∀ index < directorySize / 32, (∀ earlier < index, ¬ Stops filename memory earlier) →
        EntryFits filename memory index :=
  scanAccesses_zero_ok_iff

/-- A slot with the number 0. -/
def zeroSlot (position : ℕ) : UInt8 :=
  if position = 0 then 0x40 else if position = 11 then 0x0F else if position < 32 then 0x41 else 0

/-- The number is not checked. -/
theorem not_keepsBuffer :
    ¬ ∀ (memory : ℕ → UInt8) (directorySize : ℕ) (filename : CString),
      KeepsBuffer memory directorySize filename := by
  intro hkeeps
  have hfits := scanAccesses_zero_ok_iff.mp (hkeeps zeroSlot 512 [0x41]) 0 (by decide)
    fun earlier hlt => absurd hlt (Nat.not_lt_zero earlier)
  have hslot : (entryAt zeroSlot 0).kind = .slot := by decide
  have hleaves : ¬ (entryAt zeroSlot 0).SlotFits := by decide
  exact hleaves (hfits.slot hslot)

end GeexOS.Fat
