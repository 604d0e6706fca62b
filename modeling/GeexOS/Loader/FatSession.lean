import GeexOS.Loader.FatFile
import GeexOS.Loader.FatSeek

/-!
# Sessions on an open file

Between `open` and `close` a file is read and its pointer is moved, in any order.  What a
caller sees is a cursor on a sequence of bytes.  The cursor does not always stop behind the
bytes that were read: a read that ends inside a cluster it entered at its boundary leaves it
at that boundary.
-/

namespace GeexOS.Fat

open GeexOS.Halting

inductive FileCall where
  | seek (offset : Int32) (mode : SeekMode)
  | read (s : ℕ)
  deriving DecidableEq, Repr

/-- What a read returns and delivers. -/
abbrev ReadResult := ℕ × List UInt8

def fileCall (f : Option File) : FileCall → Outcome (Option ReadResult × Option File)
  | .seek offset mode => .ok (none, fatSeek f offset mode)
  | .read s => do
      let (returned, buffer, after) ← fatRead f s
      .ok (some (returned, buffer), after)

/-- The calls of a session, with what each of them gives back. -/
def session : Option File → List FileCall → Outcome (List (Option ReadResult) × Option File)
  | f, [] => .ok ([], f)
  | f, call :: calls => do
      let (result, f) ← fileCall f call
      let (results, f) ← session f calls
      .ok (result :: results, f)

/-! ## The cursor -/

/-- A sequence of bytes in blocks that a cursor moves on. -/
structure Medium where
  byte : ℕ → UInt8
  size : ℕ
  blockSize : ℕ

namespace Medium

/-- The bytes that a read of `s` bytes gets. -/
def available (medium : Medium) (cursor s : ℕ) : ℕ := min s (medium.size - cursor)

def move (medium : Medium) (cursor : ℕ) : FileCall → ℕ
  | .seek offset mode => clampedPointer medium.size cursor offset mode
  | .read s => cursor + medium.available cursor s -
      lag medium.blockSize cursor (medium.available cursor s)

def result (medium : Medium) (cursor : ℕ) : FileCall → Option ReadResult
  | .seek _ _ => none
  | .read s => some (medium.available cursor s,
      bytesFrom medium.byte cursor (medium.available cursor s))

def moves (medium : Medium) (cursor : ℕ) (calls : List FileCall) : ℕ :=
  calls.foldl medium.move cursor

def results (medium : Medium) : (cursor : ℕ) → List FileCall → List (Option ReadResult)
  | _, [] => []
  | cursor, call :: calls =>
      medium.result cursor call :: medium.results (medium.move cursor call) calls

/-- The sum that a call forms is a number of 32 bits. -/
def Fits (cursor : ℕ) : FileCall → Prop
  | .seek offset .seekCur => cursor + offset.toInt < 2 ^ 32
  | .seek _ _ => True
  | .read s => cursor + s < 2 ^ 32

def AllFit (medium : Medium) : (cursor : ℕ) → List FileCall → Prop
  | _, [] => True
  | cursor, call :: calls => Fits cursor call ∧ medium.AllFit (medium.move cursor call) calls

variable {medium : Medium} {cursor : ℕ}

theorem move_le (hcursor : cursor ≤ medium.size) (call : FileCall) :
    medium.move cursor call ≤ medium.size := by
  cases call with
  | seek offset mode =>
      rw [move, clampedPointer]
      omega
  | read s =>
      rw [move, available]
      omega

end Medium

/-! ## The file behind the cursor -/

variable {device : DiskDevice} {volume : FatVolumeInformation} {fi : FatFileInfo}

/-- The bytes of a file in its clusters. -/
def medium (device : DiskDevice) (volume : FatVolumeInformation) (fi : FatFileInfo) : Medium :=
  ⟨fileByte device volume fi, fi.filesize, volume.clusterSize⟩

theorem fatSeek_openedFile {filePointer : ℕ} (hfilesize : fi.filesize < 2 ^ 32)
    (hpointer : filePointer ≤ fi.filesize) {offset : Int32} {mode : SeekMode}
    (hfits : Medium.Fits filePointer (.seek offset mode)) :
    fatSeek (openedFile device volume fi filePointer) offset mode =
      openedFile device volume fi (clampedPointer fi.filesize filePointer offset mode) := by
  have hseek : seekPointer fi.filesize filePointer offset mode =
      clampedPointer fi.filesize filePointer offset mode := by
    cases mode with
    | seekSet => exact seekPointer_seekSet hfilesize
    | seekEnd => exact seekPointer_seekEnd hfilesize
    | seekCur => exact (seekPointer_seekCur_iff hfilesize hpointer).mpr hfits
  rw [openedFile, fatSeek, Option.map_some]
  simp only [hseek]
  rfl

/-- A call of the driver is a call of the cursor. -/
theorem fileCall_eq {startCluster filePointer : ℕ} (hfile : OpenFile device volume fi startCluster)
    (hpointer : filePointer ≤ fi.filesize) {call : FileCall}
    (hfits : Medium.Fits filePointer call) :
    fileCall (openedFile device volume fi filePointer) call =
      .ok ((medium device volume fi).result filePointer call,
        openedFile device volume fi ((medium device volume fi).move filePointer call)) := by
  cases call with
  | seek offset mode =>
      rw [fileCall, fatSeek_openedFile hfile.filesize_lt hpointer hfits]
      rfl
  | read s =>
      rw [fileCall, hfile.fatRead_eq hpointer hfits, ok_bind]
      rfl

/-- Every session on a file is one of its cursor, which stays inside the file. -/
theorem session_eq {startCluster filePointer : ℕ} {calls : List FileCall}
    (hfile : OpenFile device volume fi startCluster) (hpointer : filePointer ≤ fi.filesize)
    (hfits : (medium device volume fi).AllFit filePointer calls) :
    session (openedFile device volume fi filePointer) calls =
        .ok ((medium device volume fi).results filePointer calls,
          openedFile device volume fi ((medium device volume fi).moves filePointer calls)) ∧
      (medium device volume fi).moves filePointer calls ≤ fi.filesize := by
  induction calls generalizing filePointer with
  | nil => exact ⟨rfl, hpointer⟩
  | cons call calls ih =>
      obtain ⟨hcall, hrest⟩ := hfits
      obtain ⟨hsession, hinside⟩ := ih (Medium.move_le hpointer call) hrest
      refine ⟨?_, hinside⟩
      simp only [session, fileCall_eq hfile hpointer hcall, ok_bind, hsession]
      rfl

/-- From the second byte on to the end. -/
theorem session_eq_tenBytes :
    session (openedFile blankDevice blankVolume (oneCluster 10) 0)
        [.seek 1 .seekSet, .read 20] =
        .ok ((medium blankDevice blankVolume (oneCluster 10)).results 0
            [.seek 1 .seekSet, .read 20],
          openedFile blankDevice blankVolume (oneCluster 10)
            ((medium blankDevice blankVolume (oneCluster 10)).moves 0
              [.seek 1 .seekSet, .read 20])) ∧
      (medium blankDevice blankVolume (oneCluster 10)).moves 0
        [.seek 1 .seekSet, .read 20] ≤ (oneCluster 10).filesize :=
  session_eq (oneCluster_openFile (by decide)) (Nat.zero_le _)
    ⟨trivial, show clampedPointer 10 0 1 .seekSet + 20 < 2 ^ 32 by decide, trivial⟩

end GeexOS.Fat
