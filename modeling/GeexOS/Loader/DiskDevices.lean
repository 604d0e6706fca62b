import Mathlib.Data.Bool.AllAny
import GeexOS.Loader.ElfLoading
import GeexOS.Loader.LinkedLists
import GeexOS.Loader.Print
import Mathlib.Algebra.Order.BigOperators.Group.List

/-!
# Disk devices

Floppies, disks and their partitions get names when they are found, and a path says by such a
name where a file lies.  Names lead to the device that they were made for, and reads of a
device to its place on a drive.
-/

namespace GeexOS.DiskDevices

open GeexOS.Words
open GeexOS.Halting
open GeexOS.Strings
open GeexOS.Rings
open GeexOS.LinkedLists
open GeexOS.BootBlock (ListHeads listAdd)
open GeexOS.ImageLoading (closing deviceName)

/-! ## Devices -/

inductive DeviceType where
  | floppy
  | hdd
  | cdrom
  | partition
  deriving DecidableEq, Repr

/-- The function that reads a device. -/
inductive ReadFunction where
  | diskInterface
  | mbr
  deriving DecidableEq, Repr

structure DiskDevice where
  name : CString
  startLBA : ℕ
  endLBA : ℕ
  type : DeviceType
  diskNumber : ℕ
  parentDevice : Option ℕ
  readSectors : ReadFunction
  deriving DecidableEq, Repr

/-- The place of `Link` in a `DiskDevice`. -/
def linkOffset : ℕ := 68

def linkOf (device : ℕ) : ℕ := device + linkOffset

/-- `list_entry` for the devices. -/
def deviceOf (link : ℕ) : ℕ := link - linkOffset

/-- Where the blocks of the heap and the head of the list lie. -/
structure Machine where
  placeOf : ℕ → ℕ
  deviceList : ℕ

/-- `blocks` is the number of blocks that were handed out. -/
structure DeviceState where
  links : ListHeads
  devices : ℕ → DiskDevice
  blocks : ℕ

/-- What the firmware answers: the type of a drive, if it answers at all, and the disk in the
drive. -/
structure Drives where
  diskType : ℕ → Option UInt8
  disk : ℕ → Fat.Disk

def diskTypeFloppy : UInt8 := 1
def diskTypeFloppyChangeDetect : UInt8 := 2
def diskTypeFixed : UInt8 := 3

namespace DeviceState

/-- An allocation that succeeds; the detection does not look for `NULL`. -/
def malloc (machine : Machine) (state : DeviceState) : ℕ × DeviceState :=
  (machine.placeOf state.blocks, { state with blocks := state.blocks + 1 })

def setDevice (dev : ℕ) (device : DiskDevice) (state : DeviceState) : DeviceState :=
  { state with devices := Function.update state.devices dev device }

end DeviceState

/-- The characters in front of the terminator, in an array of `size` characters. -/
def stringIn (size : ℕ) (buffer : ℕ → UInt8) : CString :=
  ((List.range size).map buffer).takeWhile fun c => c ≠ 0

def sizeofName : ℕ := 32

/-- `snprintf(dev->name, sizeof(dev->name), format, ...)` in a cleared device. -/
def snprintfName (format : CString) (params : List ℕ) : Outcome CString := do
  let (buffer, _) ← Print.vsnprintf (fun _ => []) sizeofName (fun _ => 0) format
    (params.map (BitVec.ofNat 32))
  .ok (stringIn sizeofName buffer)

/-- `fd(%d)`. -/
def floppyFormat : CString := [0x66, 0x64, 0x28, 0x25, 0x64, 0x29]

/-- `hd(%d)`. -/
def hddFormat : CString := [0x68, 0x64, 0x28, 0x25, 0x64, 0x29]

/-- `hd(%d,%d)`. -/
def partitionFormat : CString := [0x68, 0x64, 0x28, 0x25, 0x64, 0x2C, 0x25, 0x64, 0x29]

variable (machine : Machine) (drives : Drives)

/-! ## Detection -/

/-- `add_disk_device_callback`. -/
def addDiskDeviceCallback (device : ℕ) (state : DeviceState) : DeviceState :=
  { state with links := listAdd (linkOf device) machine.deviceList state.links }

/-- The body of the loop over the floppies. -/
def detectFloppy (state : DeviceState) (floppy : ℕ) : Outcome DeviceState :=
  let t := drives.diskType floppy
  if t = some diskTypeFloppy ∨ t = some diskTypeFloppyChangeDetect then do
    let (dev, state) := state.malloc machine
    let name ← snprintfName floppyFormat [floppy]
    let state := state.setDevice dev
      { name := name, startLBA := 0, endLBA := 0, type := .floppy, diskNumber := floppy,
        parentDevice := none, readSectors := .diskInterface }
    .ok (addDiskDeviceCallback machine dev state)
  else .ok state

/-- The body of the loop of `mbr_detectPartitions`, for an entry that is not passed over. -/
def addPartition (device : ℕ) (state : DeviceState) (entry : Fat.Partition) :
    Outcome DeviceState := do
  let (part, state) := state.malloc machine
  let name ← snprintfName partitionFormat [(state.devices device).diskNumber, entry.diskNumber]
  let state := state.setDevice part
    { name := name, startLBA := entry.startLBA, endLBA := entry.endLBA, type := .partition,
      diskNumber := entry.diskNumber, parentDevice := some device, readSectors := .mbr }
  .ok (addDiskDeviceCallback machine part state)

/-- `mbr_detectPartitions`; the table is read and checked by `Fat.mbrDetectPartitions`. -/
def mbrDetectPartitions (device : ℕ) (disk : Fat.Disk) (state : DeviceState) :
    Outcome DeviceState :=
  match Fat.mbrDetectPartitions disk with
  | none => .ok state
  | some entries => entries.foldlM (addPartition machine device) state

/-- The body of the loop over the disks, for `hdd - 0x80`. -/
def detectHdd (state : DeviceState) (hdd : ℕ) : Outcome DeviceState :=
  if drives.diskType (0x80 + hdd) = some diskTypeFixed then do
    let (dev, state) := state.malloc machine
    let name ← snprintfName hddFormat [hdd]
    let state := state.setDevice dev
      { name := name, startLBA := 0, endLBA := 0, type := .hdd, diskNumber := hdd,
        parentDevice := none, readSectors := .diskInterface }
    let state ← mbrDetectPartitions machine dev (drives.disk (0x80 + hdd)) state
    .ok (addDiskDeviceCallback machine dev state)
  else .ok state

def biosdiskI386Initialize (state : DeviceState) : Outcome DeviceState := do
  let state ← (List.range 2).foldlM (detectFloppy machine drives) state
  (List.range 16).foldlM (detectHdd machine drives) state

def diskInit (state : DeviceState) : Outcome DeviceState :=
  biosdiskI386Initialize machine drives
    { state with links := initListHead machine.deviceList state.links }

/-! ## Looking up, reading and shutting down -/

/-- `strcmp`; behind the end of a string its terminator is compared. -/
def strcmp : CString → CString → ℤ
  | [], [] => 0
  | [], c :: _ => 0 - c.toNat
  | c :: _, [] => c.toNat
  | c :: rest, c' :: rest' =>
      if c = c' then strcmp rest rest' else c.toInt8.toInt - c'.toInt8.toInt

/-- The loop of `disk_getDeviceByName` from a link on. -/
def searchLoop (name : CString) (state : DeviceState) : (fuel link : ℕ) → Outcome (Option ℕ)
  | 0, _ => .error .diverges
  | fuel + 1, link =>
      if link ≠ machine.deviceList then
        let dev := deviceOf link
        if strcmp name (state.devices dev).name = 0 then .ok (some dev)
        else searchLoop name state fuel (state.links link).next
      else .ok none

def diskGetDeviceByName (fuel : ℕ) (name : CString) (state : DeviceState) :
    Outcome (Option ℕ) :=
  searchLoop machine name state fuel (state.links machine.deviceList).next

/-- Drive and sector that reading a device asks the firmware for, if it does. -/
def readSectors (state : DeviceState) : (fuel device startSector : ℕ) → Outcome (Option (ℕ × ℕ))
  | 0, _, _ => .error .diverges
  | fuel + 1, device, startSector =>
      let dev := state.devices device
      match dev.readSectors with
      | .diskInterface =>
          let diskNumber := if dev.type = .hdd then dev.diskNumber + 0x80 else dev.diskNumber
          .ok (some (diskNumber, startSector))
      | .mbr =>
          if dev.type ≠ .partition then .ok none
          else match dev.parentDevice with
            | none => .ok none
            | some parent => readSectors state fuel parent (u64 (startSector + dev.startLBA))

/-- The loop of `disk_destroy`, with the blocks that it gives back; `released` is what is in
memory after a block was given back. -/
def destroyLoop (released : ℕ → ListHeads → ListHeads) :
    (fuel dev1 dev2 : ℕ) → ListHeads → Outcome (List ℕ × ListHeads)
  | 0, _, _, _ => .error .diverges
  | fuel + 1, dev1, dev2, links =>
      if dev1 ≠ machine.deviceList then do
        let links := released (deviceOf dev1) (listDel dev1 links)
        let (freed, links) ← destroyLoop released fuel dev2 (links dev2).next links
        .ok (deviceOf dev1 :: freed, links)
      else .ok ([], links)

def diskDestroy (released : ℕ → ListHeads → ListHeads) (fuel : ℕ) (state : DeviceState) :
    Outcome (List ℕ × ListHeads) :=
  let dev1 := (state.links machine.deviceList).next
  destroyLoop machine released fuel dev1 (state.links dev1).next state.links

/-! ## What names stand for -/

inductive DeviceName where
  | floppy (number : ℕ)
  | hdd (number : ℕ)
  | partition (disk number : ℕ)
  deriving DecidableEq, Repr

namespace DeviceName

/-- `fd(0)`, `hd(0)`, `hd(0,0)` and so on. -/
def text : DeviceName → CString
  | floppy number => [0x66, 0x64, 0x28] ++ Print.numeral 10 number ++ [closing]
  | hdd number => [0x68, 0x64, 0x28] ++ Print.numeral 10 number ++ [closing]
  | partition disk number =>
      [0x68, 0x64, 0x28] ++ Print.numeral 10 disk ++ 0x2C :: Print.numeral 10 number ++ [closing]

end DeviceName

/-- The disk has a partition of its own in the entry of the table. -/
def HasPartition (disk number : ℕ) (entry : Fat.Partition) : Prop :=
  ∃ entries, Fat.mbrDetectPartitions (drives.disk (0x80 + disk)) = some entries ∧
    entry ∈ entries ∧ entry.diskNumber = number

def Present : DeviceName → Prop
  | .floppy number => number < 2 ∧
      (drives.diskType number = some diskTypeFloppy ∨
        drives.diskType number = some diskTypeFloppyChangeDetect)
  | .hdd number => number < 16 ∧ drives.diskType (0x80 + number) = some diskTypeFixed
  | .partition disk number => disk < 16 ∧ drives.diskType (0x80 + disk) = some diskTypeFixed ∧
      ∃ entry, HasPartition drives disk number entry

/-- Reads of the device go to this drive and sector. -/
def LiesAt (startSector drive sector : ℕ) : DeviceName → Prop
  | .floppy number => drive = number ∧ sector = startSector
  | .hdd number => drive = 0x80 + number ∧ sector = startSector
  | .partition disk number => drive = 0x80 + disk ∧
      ∀ entry, HasPartition drives disk number entry → sector = u64 (startSector + entry.startLBA)

def floppyDevice (number : ℕ) : DiskDevice where
  name := (DeviceName.floppy number).text
  startLBA := 0
  endLBA := 0
  type := .floppy
  diskNumber := number
  parentDevice := none
  readSectors := .diskInterface

def hddDevice (number : ℕ) : DiskDevice where
  name := (DeviceName.hdd number).text
  startLBA := 0
  endLBA := 0
  type := .hdd
  diskNumber := number
  parentDevice := none
  readSectors := .diskInterface

def partitionDevice (disk parent : ℕ) (entry : Fat.Partition) : DiskDevice where
  name := (DeviceName.partition disk entry.diskNumber).text
  startLBA := entry.startLBA
  endLBA := entry.endLBA
  type := .partition
  diskNumber := entry.diskNumber
  parentDevice := some parent
  readSectors := .mbr

variable {machine drives} {state state' : DeviceState} {text left right : CString}
variable {format : CString} {params : List ℕ} {number fuel device : ℕ}

/-! ## Numerals in names -/

def IsDigit (c : UInt8) : Prop := 0x30 ≤ c ∧ c ≤ 0x39

instance (c : UInt8) : Decidable (IsDigit c) := inferInstanceAs (Decidable (_ ∧ _))

theorem decDigit_isDigit : ∀ d < 10, IsDigit (Print.decDigit d) := by decide

theorem decDigit_inj : ∀ d < 10, ∀ d' < 10, Print.decDigit d = Print.decDigit d' → d = d' := by
  decide

/-- A numeral is the numeral of the number without its last digit, and that digit. -/
theorem numeral_eq (number : ℕ) :
    Print.numeral 10 number =
      (if number < 10 then [] else Print.numeral 10 (number / 10)) ++
        [Print.decDigit (number % 10)] := by
  split
  · next hlt => rw [Print.writes_dec.numeral_of_lt hlt, Nat.mod_eq_of_lt hlt, List.nil_append]
  · next hge => exact Print.writes_dec.numeral_of_le (not_lt.mp hge)

theorem numeral_ne_nil (number : ℕ) : Print.numeral 10 number ≠ [] := by
  rw [numeral_eq]
  exact List.concat_ne_nil _ _

theorem isDigit_of_mem_numeral {c : UInt8} (hmem : c ∈ Print.numeral 10 number) : IsDigit c := by
  induction number using Nat.strong_induction_on with
  | h number ih =>
      rw [numeral_eq, List.mem_append, List.mem_singleton] at hmem
      rcases hmem with hmem | rfl
      · split at hmem
        · exact absurd hmem List.not_mem_nil
        · exact ih (number / 10) (by omega) hmem
      · exact decDigit_isDigit _ (Nat.mod_lt _ (by decide))

theorem numeral_injective : Function.Injective (Print.numeral 10) := by
  intro number
  induction number using Nat.strong_induction_on with
  | h number ih =>
      intro other heq
      rw [numeral_eq number, numeral_eq other] at heq
      obtain ⟨hfront, hlast⟩ := List.append_inj' heq rfl
      have hdigit : number % 10 = other % 10 :=
        decDigit_inj _ (Nat.mod_lt _ (by decide)) _ (Nat.mod_lt _ (by decide))
          (List.singleton_inj.mp hlast)
      split at hfront <;> split at hfront
      · omega
      · exact absurd hfront.symm (numeral_ne_nil _)
      · exact absurd hfront (numeral_ne_nil _)
      · have hquotient := ih (number / 10) (by omega) hfront
        omega

theorem toNat_ne_zero_of_mem {c : UInt8} (hmem : c ∈ text) (hzero : 0 ∉ text) : c.toNat ≠ 0 := by
  intro heq
  have hc : c = 0 := UInt8.toNat_inj.mp heq
  exact hzero (hc ▸ hmem)

theorem strcmp_eq_zero_iff (hleft : 0 ∉ left) (hright : 0 ∉ right) :
    strcmp left right = 0 ↔ left = right := by
  induction left generalizing right with
  | nil =>
      cases right with
      | nil => simp [strcmp]
      | cons c rest =>
          have hc := toNat_ne_zero_of_mem List.mem_cons_self hright
          simp only [strcmp, List.nil_eq, reduceCtorEq, iff_false]
          omega
  | cons c rest ih =>
      cases right with
      | nil =>
          have hc := toNat_ne_zero_of_mem List.mem_cons_self hleft
          simp only [strcmp, reduceCtorEq, iff_false]
          omega
      | cons c' rest' =>
          rw [List.mem_cons, not_or] at hleft hright
          rw [strcmp, List.cons.injEq]
          split
          · next heq => exact (ih hleft.2 hright.2).trans (and_iff_right heq).symm
          · next hne =>
              refine iff_of_false (fun hzero => hne ?_) fun hboth => hne hboth.1
              have hsame : c.toInt8.toInt = c'.toInt8.toInt := by omega
              exact congrArg Int8.toUInt8 (Int8.toInt_inj.mp hsame)

/-! ## The texts of names -/

theorem takeWhile_numeral {c : UInt8} (hc : ¬ IsDigit c) (number : ℕ) (rest : CString) :
    (Print.numeral 10 number ++ c :: rest).takeWhile (fun c => decide (IsDigit c)) =
      Print.numeral 10 number := by
  rw [List.takeWhile_append_of_pos fun c hmem => decide_eq_true (isDigit_of_mem_numeral hmem),
    List.takeWhile_cons_of_neg (by simp [hc]), List.append_nil]

/-- A numeral ends where something else begins. -/
theorem numeral_append_inj {number other : ℕ} {c c' : UInt8} {rest rest' : CString}
    (hc : ¬ IsDigit c) (hc' : ¬ IsDigit c')
    (heq : Print.numeral 10 number ++ c :: rest = Print.numeral 10 other ++ c' :: rest') :
    number = other ∧ c = c' ∧ rest = rest' := by
  have htaken := congrArg (List.takeWhile fun c => decide (IsDigit c)) heq
  rw [takeWhile_numeral hc, takeWhile_numeral hc'] at htaken
  have hnumber := numeral_injective htaken
  rw [hnumber] at heq
  obtain ⟨hfirst, hrest⟩ := List.cons.inj (List.append_cancel_left heq)
  exact ⟨hnumber, hfirst, hrest⟩

/-- Different devices have different names. -/
theorem text_injective : Function.Injective DeviceName.text := by
  have hclosing : ¬ IsDigit closing := by decide
  have hcomma : ¬ IsDigit 0x2C := by decide
  intro left right heq
  cases left <;> cases right <;>
    simp only [DeviceName.text, List.append_assoc, List.cons_append, List.nil_append,
      List.cons.injEq, true_and] at heq
  · next number other => rw [(numeral_append_inj hclosing hclosing heq).1]
  · exact absurd heq.1 (by decide)
  · exact absurd heq.1 (by decide)
  · exact absurd heq.1 (by decide)
  · next number other => rw [(numeral_append_inj hclosing hclosing heq).1]
  · exact absurd (numeral_append_inj hclosing hcomma heq).2.1 (by decide)
  · exact absurd heq.1 (by decide)
  · exact absurd (numeral_append_inj hcomma hclosing heq).2.1 (by decide)
  · obtain ⟨hdisk, -, hrest⟩ := numeral_append_inj hcomma hcomma heq
    rw [hdisk, (numeral_append_inj hclosing hclosing hrest).1]

theorem zero_notMem_text (which : DeviceName) : 0 ∉ which.text := by
  have hnumeral : ∀ number, 0 ∉ Print.numeral 10 number := fun number hmem =>
    absurd (isDigit_of_mem_numeral hmem) (by decide)
  cases which <;> simp [DeviceName.text, hnumeral, closing]

/-- The path leads to the name in front of it. -/
theorem deviceName_text (which : DeviceName) (rest : CString) :
    deviceName (which.text ++ rest) = which.text := by
  have hnumeral : ∀ number, ∀ c ∈ Print.numeral 10 number, c ≠ closing := fun number c hmem heq =>
    absurd (isDigit_of_mem_numeral (heq ▸ hmem)) (by decide)
  obtain ⟨front, htext, hfront⟩ : ∃ front, which.text = front ++ [closing] ∧
      ∀ c ∈ front, c ≠ closing := by
    cases which with
    | floppy number =>
        refine ⟨_, rfl, ?_⟩
        simp only [List.forall_mem_append]
        exact ⟨List.all_iff_forall_prop.mp (by decide), hnumeral number⟩
    | hdd number =>
        refine ⟨_, rfl, ?_⟩
        simp only [List.forall_mem_append]
        exact ⟨List.all_iff_forall_prop.mp (by decide), hnumeral number⟩
    | partition disk number =>
        refine ⟨_, rfl, ?_⟩
        simp only [List.forall_mem_append, List.forall_mem_cons]
        exact ⟨⟨⟨by decide, by decide, by decide, List.forall_mem_nil _⟩, hnumeral disk⟩,
          by decide, hnumeral number⟩
  rw [deviceName, htext, List.append_assoc, List.singleton_append,
    List.takeWhile_append_of_pos fun c hmem => bne_iff_ne.mpr (hfront c hmem),
    List.takeWhile_cons_of_neg (by simp), List.append_nil]

/-! ## Printing names -/

theorem stringIn_placed {size : ℕ} (hlength : text.length < size) (hzero : 0 ∉ text) :
    stringIn size (Print.placed (fun _ => 0) (text ++ [0])) = text := by
  obtain ⟨more, rfl⟩ := Nat.exists_eq_add_of_lt hlength
  have hfront : (List.range text.length).map (Print.placed (fun _ => 0) (text ++ [0])) = text := by
    refine List.ext_getElem (by simp) fun i hi hi' => ?_
    rw [List.getElem_map, List.getElem_range, Print.placed, List.getD_append _ _ _ _ hi',
      List.getD_eq_getElem _ _ hi']
  have hend : Print.placed (fun _ => 0) (text ++ [0]) text.length = 0 := by
    rw [Print.placed, List.getD_append_right _ _ _ _ le_rfl, Nat.sub_self, List.getD_cons_zero]
  rw [stringIn, Nat.add_assoc, List.range_add, List.map_append, hfront, List.range_succ_eq_map,
    List.map_cons, List.map_cons, Nat.add_zero, hend, List.takeWhile_append_of_pos,
    List.takeWhile_cons_of_neg (by simp), List.append_nil]
  intro c hmem
  exact decide_eq_true fun heq => hzero (heq ▸ hmem)

theorem snprintfName_eq (items : List Print.Item)
    (hspells : Print.Spells format (params.map (BitVec.ofNat 32)) items)
    (htext : items.flatMap (Print.Item.text fun _ => []) = text) (hlength : text.length < 32)
    (hzero : 0 ∉ text) : snprintfName format params = .ok text := by
  have hprinted := Print.vsnprintf_spells (fun _ => []) sizeofName hspells fun _ => 0
  rw [htext, List.take_of_length_le (show text.length ≤ sizeofName - 1 from
    Nat.le_sub_one_of_lt hlength)] at hprinted
  rw [snprintfName, hprinted]
  exact congrArg Except.ok (stringIn_placed hlength hzero)

theorem text_decimal (hnumber : number < 2 ^ 31) (strings : BitVec 32 → CString) :
    (Print.Item.decimal (BitVec.ofNat 32 number)).text strings = Print.numeral 10 number := by
  have hvalue : (BitVec.ofNat 32 number).toInt = number := by
    rw [BitVec.toInt_eq_toNat_of_lt, BitVec.toNat_ofNat, Nat.mod_eq_of_lt (by omega)]
    rw [BitVec.toNat_ofNat, Nat.mod_eq_of_lt (by omega)]
    omega
  rw [Print.Item.text, hvalue, Print.decimal, if_neg (by omega), Int.natAbs_natCast]

theorem length_numeral_lt (hnumber : number < 100) : (Print.numeral 10 number).length ≤ 2 :=
  Print.length_numeral_le (by decide) (by decide) hnumber

theorem snprintfName_floppy (hnumber : number < 100) :
    snprintfName floppyFormat [number] = .ok (DeviceName.floppy number).text := by
  refine snprintfName_eq [.letter 0x66, .letter 0x64, .letter 0x28,
    .decimal (BitVec.ofNat 32 number), .letter closing] ⟨?_, ⟨[], Or.inl rfl, rfl⟩, [], rfl⟩ ?_ ?_
    (zero_notMem_text _)
  · simp [Print.Item.WellFormed, closing]
  · simp only [List.flatMap_cons, List.flatMap_nil, text_decimal (show number < 2 ^ 31 by omega)]
    rfl
  · have hdigits := length_numeral_lt hnumber
    simp only [DeviceName.text, List.length_append, List.length_cons, List.length_nil]
    omega

theorem snprintfName_hdd (hnumber : number < 100) :
    snprintfName hddFormat [number] = .ok (DeviceName.hdd number).text := by
  refine snprintfName_eq [.letter 0x68, .letter 0x64, .letter 0x28,
    .decimal (BitVec.ofNat 32 number), .letter closing] ⟨?_, ⟨[], Or.inl rfl, rfl⟩, [], rfl⟩ ?_ ?_
    (zero_notMem_text _)
  · simp [Print.Item.WellFormed, closing]
  · simp only [List.flatMap_cons, List.flatMap_nil, text_decimal (show number < 2 ^ 31 by omega)]
    rfl
  · have hdigits := length_numeral_lt hnumber
    simp only [DeviceName.text, List.length_append, List.length_cons, List.length_nil]
    omega

theorem snprintfName_partition {disk : ℕ} (hdisk : disk < 100) (hnumber : number < 100) :
    snprintfName partitionFormat [disk, number] =
      .ok (DeviceName.partition disk number).text := by
  refine snprintfName_eq [.letter 0x68, .letter 0x64, .letter 0x28,
    .decimal (BitVec.ofNat 32 disk), .letter 0x2C, .decimal (BitVec.ofNat 32 number),
    .letter closing] ⟨?_, ⟨[], Or.inl rfl, rfl⟩, [], rfl⟩ ?_ ?_ (zero_notMem_text _)
  · simp [Print.Item.WellFormed, closing]
  · simp only [List.flatMap_cons, List.flatMap_nil, text_decimal (show disk < 2 ^ 31 by omega),
      text_decimal (show number < 2 ^ 31 by omega)]
    simp only [DeviceName.text, Print.Item.text, List.append_assoc, List.cons_append,
      List.nil_append]
  · have hdiskDigits := length_numeral_lt hdisk
    have hdigits := length_numeral_lt hnumber
    simp only [DeviceName.text, List.length_append, List.length_cons, List.length_nil]
    omega

/-! ## The devices found so far -/

/-- Blocks are apart from each other and from the head of the list. -/
structure Places (machine : Machine) : Prop where
  injective : Function.Injective machine.placeOf
  apart : ∀ block, linkOf (machine.placeOf block) ≠ machine.deviceList

def Issued (machine : Machine) (state : DeviceState) (device : ℕ) : Prop :=
  ∃ block < state.blocks, device = machine.placeOf block

/-- The blocks handed out since there were `first`. -/
def issuedSince (machine : Machine) (first : ℕ) (state : DeviceState) : List ℕ :=
  (List.range' first (state.blocks - first)).map machine.placeOf

/-- The block is filled in as the name says. -/
def Describes (machine : Machine) (drives : Drives) (state : DeviceState) (device : ℕ) :
    DeviceName → Prop
  | .floppy number => state.devices device = floppyDevice number
  | .hdd number => state.devices device = hddDevice number
  | .partition disk number => ∃ entry parent, HasPartition drives disk number entry ∧
      Issued machine state parent ∧ state.devices parent = hddDevice disk ∧
      state.devices device = partitionDevice disk parent entry

/-- The memory holds one list. -/
def onlyList (head : ℕ) (entries : List ℕ) : Sequences ℕ :=
  Function.update (fun _ => none) head (some entries)

/-- `entries` are in the list, the last one found first; `held` are not in it yet. -/
structure Registered (machine : Machine) (drives : Drives) (first : ℕ)
    (held : List (DeviceName × ℕ)) (state : DeviceState) (entries : List (DeviceName × ℕ)) :
    Prop where
  first_le : first ≤ state.blocks
  listed : Represents (linksOf state.links)
    (onlyList machine.deviceList (entries.map fun entry => linkOf entry.2))
  blocks : ((held ++ entries).map Prod.snd).Perm (issuedSince machine first state)
  described : ∀ entry ∈ held ++ entries, Describes machine drives state entry.2 entry.1

variable {first dev : ℕ} {held entries : List (DeviceName × ℕ)} {which : DeviceName}

theorem linkOf_injective : Function.Injective linkOf := fun _ _ heq => Nat.add_right_cancel heq

theorem deviceOf_linkOf (device : ℕ) : deviceOf (linkOf device) = device :=
  Nat.add_sub_cancel _ _

theorem Registered.issued (hregistered : Registered machine drives first held state entries)
    {entry : DeviceName × ℕ} (hmem : entry ∈ held ++ entries) : Issued machine state entry.2 := by
  have hissued := hregistered.blocks.mem_iff.mp (List.mem_map_of_mem hmem)
  obtain ⟨block, hblock, hplace⟩ := List.mem_map.mp hissued
  have hfirst := hregistered.first_le
  rw [List.mem_range'_1] at hblock
  exact ⟨block, by omega, hplace.symm⟩

theorem nodup_issuedSince (hplaces : Places machine) (first : ℕ) (state : DeviceState) :
    (issuedSince machine first state).Nodup := by
  have hrange : (List.range' first (state.blocks - first)).Nodup := List.nodup_range'
  exact hrange.map hplaces.injective

/-- Devices stay as they are when others are filled in. -/
theorem Describes.frame {device : ℕ} (hdescribes : Describes machine drives state device which)
    (hdevice : Issued machine state device) (hblocks : state.blocks ≤ state'.blocks)
    (hsame : ∀ other, Issued machine state other →
      state'.devices other = state.devices other) :
    Describes machine drives state' device which := by
  cases which with
  | floppy number => exact (hsame device hdevice).trans hdescribes
  | hdd number => exact (hsame device hdevice).trans hdescribes
  | partition disk number =>
      obtain ⟨entry, parent, hentry, hparent, hdisk, hrecord⟩ := hdescribes
      obtain ⟨block, hblock, rfl⟩ := hparent
      exact ⟨entry, _, hentry, ⟨block, hblock.trans_le hblocks, rfl⟩,
        (hsame _ ⟨block, hblock, rfl⟩).trans hdisk, (hsame device hdevice).trans hrecord⟩

/-- A block is taken and filled in. -/
theorem Registered.take (hplaces : Places machine)
    (hregistered : Registered machine drives first held state entries) (which : DeviceName)
    (record : DiskDevice)
    (hdescribes : Describes machine drives
      ((state.malloc machine).2.setDevice (machine.placeOf state.blocks) record)
      (machine.placeOf state.blocks) which) :
    Registered machine drives first ((which, machine.placeOf state.blocks) :: held)
      ((state.malloc machine).2.setDevice (machine.placeOf state.blocks) record) entries := by
  have hfirst := hregistered.first_le
  refine ⟨Nat.le_succ_of_le hfirst, hregistered.listed, ?_, fun entry hmem => ?_⟩
  · have hissued : issuedSince machine first
        ((state.malloc machine).2.setDevice (machine.placeOf state.blocks) record) =
        issuedSince machine first state ++ [machine.placeOf state.blocks] := by
      rw [issuedSince, issuedSince,
        show ((state.malloc machine).2.setDevice (machine.placeOf state.blocks) record).blocks -
          first = state.blocks - first + 1 from Nat.succ_sub hfirst, List.range'_concat,
        List.map_append, Nat.one_mul, Nat.add_sub_cancel' hfirst]
      rfl
    rw [hissued]
    exact (hregistered.blocks.cons _).trans (List.perm_append_singleton _ _).symm
  · rw [List.cons_append, List.mem_cons] at hmem
    rcases hmem with rfl | hmem
    · exact hdescribes
    · refine (hregistered.described entry hmem).frame (hregistered.issued hmem) (Nat.le_succ _) ?_
      rintro _ ⟨block, hblock, rfl⟩
      exact Function.update_of_ne (fun heq => hblock.ne (hplaces.injective heq)) ..

theorem member_onlyList {head cell : ℕ} {cells : List ℕ} :
    Member (onlyList head cells) cell ↔ cell ∈ head :: cells := by
  constructor
  · rintro ⟨other, otherCells, hother, hmem⟩
    by_cases heq : other = head
    · rw [heq, onlyList, Function.update_self] at hother
      rwa [heq, ← Option.some.inj hother] at hmem
    · rw [onlyList, Function.update_of_ne heq] at hother
      exact absurd hother (by simp)
  · exact fun hmem => ⟨head, cells, Function.update_self .., hmem⟩

/-- A device that is filled in comes into the list. -/
theorem Registered.link (hplaces : Places machine)
    (hregistered : Registered machine drives first ((which, dev) :: held) state entries) :
    Registered machine drives first held (addDiskDeviceCallback machine dev state)
      ((which, dev) :: entries) := by
  have hperm : (held ++ (which, dev) :: entries).Perm ((which, dev) :: held ++ entries) :=
    List.perm_middle
  refine ⟨hregistered.first_le, ?_, (hperm.map Prod.snd).trans hregistered.blocks,
    fun entry hmem => ?_⟩
  · have hnew : ¬ Member (onlyList machine.deviceList (entries.map fun entry => linkOf entry.2))
        (linkOf dev) := by
      rw [member_onlyList, List.mem_cons, not_or]
      constructor
      · obtain ⟨block, -, hblock⟩ := hregistered.issued (List.mem_cons_self)
        rw [show dev = _ from hblock]
        exact hplaces.apart block
      · rintro hmem
        obtain ⟨entry, hentry, hlink⟩ := List.mem_map.mp hmem
        have hnodup : (((which, dev) :: held ++ entries).map Prod.snd).Nodup :=
          hregistered.blocks.nodup_iff.mpr (nodup_issuedSince hplaces first state)
        rw [List.cons_append, List.map_cons, List.nodup_cons, List.map_append] at hnodup
        refine hnodup.1 (List.mem_append_right _ ?_)
        have hdev : entry.2 = dev := linkOf_injective hlink
        have hmem : entry.2 ∈ entries.map Prod.snd := List.mem_map_of_mem hentry
        rwa [hdev] at hmem
    have hhead : onlyList machine.deviceList (entries.map fun entry => linkOf entry.2)
        machine.deviceList = some (entries.map fun entry => linkOf entry.2) :=
      Function.update_self ..
    have hadded := represents_add hregistered.listed (hhead ▸ Option.some_ne_none _) hnew
    rwa [rewrite_eq hhead, onlyList, Function.update_idem] at hadded
  · exact hregistered.described entry (hperm.mem_iff.mp hmem)

/-! ## Detection fills the list -/

/-- The names that one step of detection puts into the list, in their order. -/
def floppyNames (drives : Drives) (number : ℕ) : List DeviceName :=
  if drives.diskType number = some diskTypeFloppy ∨
      drives.diskType number = some diskTypeFloppyChangeDetect then [.floppy number]
  else []

def partitionNames (drives : Drives) (disk : ℕ) : List DeviceName :=
  match Fat.mbrDetectPartitions (drives.disk (0x80 + disk)) with
  | none => []
  | some entries => entries.map fun entry => .partition disk entry.diskNumber

def hddNames (drives : Drives) (number : ℕ) : List DeviceName :=
  if drives.diskType (0x80 + number) = some diskTypeFixed then
    partitionNames drives number ++ [.hdd number]
  else []

/-- A step finds the named devices. -/
def Finds (machine : Machine) (drives : Drives) (first : ℕ) (held : List (DeviceName × ℕ))
    (step : DeviceState → Outcome DeviceState) (names : List DeviceName) : Prop :=
  ∀ state entries, Registered machine drives first held state entries →
    ∃ state' found, step state = .ok state' ∧
      Registered machine drives first held state' (found ++ entries) ∧
      found.map Prod.fst = names.reverse

theorem finds_none : Finds machine drives first held .ok [] :=
  fun state _ hregistered => ⟨state, [], rfl, hregistered, rfl⟩

theorem Finds.bind {step step' : DeviceState → Outcome DeviceState} {names names' : List DeviceName}
    (hstep : Finds machine drives first held step names)
    (hstep' : Finds machine drives first held step' names') :
    Finds machine drives first held (fun state => step state >>= step') (names ++ names') := by
  intro state entries hregistered
  obtain ⟨state₁, found₁, hrun₁, hregistered₁, hnames₁⟩ := hstep state entries hregistered
  obtain ⟨state₂, found₂, hrun₂, hregistered₂, hnames₂⟩ := hstep' state₁ _ hregistered₁
  refine ⟨state₂, found₂ ++ found₁, ?_, ?_, ?_⟩
  · simp only [hrun₁, ok_bind, hrun₂]
  · rwa [List.append_assoc]
  · rw [List.map_append, hnames₁, hnames₂, List.reverse_append]

theorem Finds.foldlM {β : Type} {step : DeviceState → β → Outcome DeviceState}
    {names : β → List DeviceName} {items : List β}
    (hstep : ∀ item ∈ items,
      Finds machine drives first held (fun state => step state item) (names item)) :
    Finds machine drives first held (fun state => items.foldlM step state)
      (items.flatMap names) := by
  induction items with
  | nil => exact finds_none
  | cons item items ih =>
      obtain ⟨hitem, hitems⟩ := List.forall_mem_cons.mp hstep
      exact hitem.bind (ih hitems)

theorem finds_detectFloppy (hplaces : Places machine) (hnumber : number < 2) :
    Finds machine drives first held (fun state => detectFloppy machine drives state number)
      (floppyNames drives number) := by
  intro state entries hregistered
  simp only [detectFloppy, floppyNames]
  by_cases hfound : drives.diskType number = some diskTypeFloppy ∨
      drives.diskType number = some diskTypeFloppyChangeDetect
  · rw [if_pos hfound, if_pos hfound, snprintfName_floppy (show number < 100 by omega), ok_bind]
    have htaken := hregistered.take hplaces (.floppy number) (floppyDevice number)
      (Function.update_self ..)
    exact ⟨_, [_], rfl, htaken.link hplaces, rfl⟩
  · rw [if_neg hfound, if_neg hfound]
    exact finds_none state entries hregistered

/-- Each entry of the table makes one partition at most. -/
theorem mem_mbrDetectPartitions {disk : Fat.Disk} {parts : List Fat.Partition}
    (hparts : Fat.mbrDetectPartitions disk = some parts) :
    parts.length ≤ 4 ∧ ∃ part : ℕ → Fat.Partition,
      ∀ entry ∈ parts, entry.diskNumber < 4 ∧ entry = part entry.diskNumber := by
  rw [Fat.mbrDetectPartitions] at hparts
  split at hparts
  · next mbr _ _ =>
      split at hparts
      · rw [← Option.some.inj hparts]
        refine ⟨(List.length_filterMap_le ..).trans (by simp), fun i =>
          ⟨(Fat.mbrPartition mbr i).startingLBA, (Fat.mbrPartition mbr i).endLBA, i⟩,
          fun entry hmem => ?_⟩
        obtain ⟨i, hi, hentry⟩ := List.mem_filterMap.mp hmem
        simp only at hentry
        split at hentry
        · cases hentry
        · split at hentry
          · cases hentry
          · rw [← Option.some.inj hentry]
            exact ⟨List.mem_range.mp hi, rfl⟩
      · cases hparts
  · cases hparts

theorem HasPartition.unique {disk : ℕ} {entry other : Fat.Partition}
    (hentry : HasPartition drives disk number entry)
    (hother : HasPartition drives disk number other) : entry = other := by
  obtain ⟨parts, hparts, hmem, rfl⟩ := hentry
  obtain ⟨parts', hparts', hmem', hnumber⟩ := hother
  rw [hparts] at hparts'
  rw [← Option.some.inj hparts'] at hmem'
  obtain ⟨-, part, hpart⟩ := mem_mbrDetectPartitions hparts
  rw [(hpart entry hmem).2, (hpart other hmem').2, hnumber]

/-- A partition of a disk that is not in the list yet. -/
theorem finds_addPartition (hplaces : Places machine) (hnumber : number < 16)
    (hheld : (DeviceName.hdd number, dev) ∈ held) {parts : List Fat.Partition}
    (hparts : Fat.mbrDetectPartitions (drives.disk (0x80 + number)) = some parts)
    {entry : Fat.Partition} (hentry : entry ∈ parts) :
    Finds machine drives first held (fun state => addPartition machine dev state entry)
      [.partition number entry.diskNumber] := by
  intro state entries hregistered
  have hdisk : state.devices dev = hddDevice number :=
    hregistered.described _ (List.mem_append_left _ hheld)
  have hissued : Issued machine state dev := hregistered.issued (List.mem_append_left _ hheld)
  have hplace : (state.malloc machine).2.devices dev = hddDevice number := hdisk
  obtain ⟨-, part, hpart⟩ := mem_mbrDetectPartitions hparts
  have hlt := (hpart entry hentry).1
  have hname := snprintfName_partition (show number < 100 by omega)
    (show entry.diskNumber < 100 by omega)
  have hkept : dev ≠ machine.placeOf state.blocks := by
    obtain ⟨block, hblock, rfl⟩ := hissued
    exact fun heq => hblock.ne (hplaces.injective heq)
  have htaken := hregistered.take hplaces (.partition number entry.diskNumber)
    (partitionDevice number dev entry) ⟨entry, dev, ⟨parts, hparts, hentry, rfl⟩,
      by
        obtain ⟨block, hblock, rfl⟩ := hissued
        exact ⟨block, Nat.lt_succ_of_lt hblock, rfl⟩,
      (Function.update_of_ne hkept ..).trans hdisk, Function.update_self ..⟩
  refine ⟨_, [_], ?_, htaken.link hplaces, rfl⟩
  simp only [addPartition, hplace, hddDevice, hname, ok_bind]
  rfl

theorem finds_mbrDetectPartitions (hplaces : Places machine) (hnumber : number < 16)
    (hheld : (DeviceName.hdd number, dev) ∈ held) :
    Finds machine drives first held
      (mbrDetectPartitions machine dev (drives.disk (0x80 + number)))
      (partitionNames drives number) := by
  cases hparts : Fat.mbrDetectPartitions (drives.disk (0x80 + number)) with
  | none =>
      have hstep : mbrDetectPartitions machine dev (drives.disk (0x80 + number)) = .ok := by
        funext state
        simp only [mbrDetectPartitions, hparts]
      simp only [hstep, partitionNames, hparts]
      exact finds_none
  | some parts =>
      have hnames : partitionNames drives number =
          parts.flatMap fun entry => [.partition number entry.diskNumber] := by
        simp only [partitionNames, hparts]
        exact List.map_eq_flatMap
      have hstep : mbrDetectPartitions machine dev (drives.disk (0x80 + number)) =
          fun state => parts.foldlM (addPartition machine dev) state := by
        funext state
        simp only [mbrDetectPartitions, hparts]
      rw [hnames, hstep]
      exact Finds.foldlM fun entry hentry =>
        finds_addPartition hplaces hnumber hheld hparts hentry

theorem finds_detectHdd (hplaces : Places machine) (hnumber : number < 16) :
    Finds machine drives first held (fun state => detectHdd machine drives state number)
      (hddNames drives number) := by
  intro state entries hregistered
  simp only [detectHdd, hddNames]
  by_cases hfound : drives.diskType (0x80 + number) = some diskTypeFixed
  · rw [if_pos hfound, if_pos hfound, snprintfName_hdd (show number < 100 by omega), ok_bind]
    have htaken := hregistered.take hplaces (.hdd number) (hddDevice number)
      (Function.update_self ..)
    obtain ⟨state₁, found, hrun, hregistered₁, hnames⟩ :=
      finds_mbrDetectPartitions hplaces hnumber List.mem_cons_self _ _ htaken
    refine ⟨_, (.hdd number, machine.placeOf state.blocks) :: found, ?_,
      hregistered₁.link hplaces, ?_⟩
    · have hsame : (DeviceState.malloc machine state).1 = machine.placeOf state.blocks := rfl
      rw [hsame, ← hddDevice, hrun]
      rfl
    · rw [List.map_cons, hnames, List.reverse_append]
      rfl
  · rw [if_neg hfound, if_neg hfound]
    exact finds_none state entries hregistered

/-- All that is found, in the order of detection. -/
def detected (drives : Drives) : List DeviceName :=
  (List.range 2).flatMap (floppyNames drives) ++ (List.range 16).flatMap (hddNames drives)

theorem finds_biosdiskI386Initialize (hplaces : Places machine) :
    Finds machine drives first held (biosdiskI386Initialize machine drives) (detected drives) :=
  Finds.bind
    (Finds.foldlM fun _ hmem => finds_detectFloppy hplaces (List.mem_range.mp hmem))
    (Finds.foldlM fun _ hmem => finds_detectHdd hplaces (List.mem_range.mp hmem))

theorem mem_floppyNames : which ∈ floppyNames drives number ↔ which = .floppy number ∧
    (drives.diskType number = some diskTypeFloppy ∨
      drives.diskType number = some diskTypeFloppyChangeDetect) := by
  rw [floppyNames]
  split
  · next hfound => rw [List.mem_singleton, and_iff_left hfound]
  · next hnone => simp [hnone]

theorem mem_partitionNames : which ∈ partitionNames drives number ↔
    ∃ part entry, which = .partition number part ∧ HasPartition drives number part entry := by
  rw [partitionNames]
  split
  · next hnone => simp [HasPartition, hnone]
  · next parts hparts =>
      rw [List.mem_map]
      constructor
      · rintro ⟨entry, hentry, rfl⟩
        exact ⟨_, entry, rfl, parts, hparts, hentry, rfl⟩
      · rintro ⟨part, entry, rfl, parts', hparts', hentry, rfl⟩
        rw [hparts] at hparts'
        exact ⟨entry, Option.some.inj hparts' ▸ hentry, rfl⟩

theorem mem_hddNames : which ∈ hddNames drives number ↔
    drives.diskType (0x80 + number) = some diskTypeFixed ∧ (which = .hdd number ∨
      ∃ part entry, which = .partition number part ∧ HasPartition drives number part entry) := by
  rw [hddNames]
  split
  · next hfound =>
      rw [List.mem_append, List.mem_singleton, mem_partitionNames, and_iff_right hfound, or_comm]
  · next hnone => simp [hnone]

theorem mem_detected : which ∈ detected drives ↔ Present drives which := by
  rw [detected, List.mem_append, List.mem_flatMap, List.mem_flatMap]
  simp only [mem_floppyNames, mem_hddNames, List.mem_range]
  cases which with
  | floppy number => simp [Present]
  | hdd number => simp [Present]
  | partition disk number => simp [Present]

theorem length_partitionNames_le (drives : Drives) (disk : ℕ) :
    (partitionNames drives disk).length ≤ 4 := by
  rw [partitionNames]
  split
  · exact Nat.zero_le _
  · next parts hparts =>
      rw [List.length_map]
      exact (mem_mbrDetectPartitions hparts).1

/-- Two floppies, sixteen disks and four partitions on each of them. -/
theorem length_detected_le (drives : Drives) : (detected drives).length ≤ 82 := by
  have hfloppies : ∀ number ∈ List.range 2, (floppyNames drives number).length ≤ 1 := by
    intro number _
    rw [floppyNames]
    split <;> simp
  have hdisks : ∀ number ∈ List.range 16, (hddNames drives number).length ≤ 5 := by
    intro number _
    rw [hddNames]
    split
    · have hparts := length_partitionNames_le drives number
      rw [List.length_append, List.length_singleton]
      omega
    · exact Nat.zero_le _
  have hfirst := List.sum_le_card_nsmul ((List.range 2).map fun number =>
    (floppyNames drives number).length) 1 (by simpa using hfloppies)
  have hsecond := List.sum_le_card_nsmul ((List.range 16).map fun number =>
    (hddNames drives number).length) 5 (by simpa using hdisks)
  rw [List.length_map, List.length_range] at hfirst hsecond
  rw [detected, List.length_append, List.length_flatMap, List.length_flatMap]
  exact (Nat.add_le_add hfirst hsecond).trans (by decide)

/-- `disk_init` puts what is there into its list. -/
theorem diskInit_registered (hplaces : Places machine) (before : DeviceState) :
    ∃ state entries, diskInit machine drives before = .ok state ∧
      Registered machine drives before.blocks [] state entries ∧
      entries.map Prod.fst = (detected drives).reverse := by
  have hempty : Registered machine drives before.blocks []
      { before with links := initListHead machine.deviceList before.links } [] := by
    refine ⟨le_rfl, ?_, ?_, by simp⟩
    · exact represents_init (represents_none before.links) (by rintro ⟨_, _, hnone, -⟩; cases hnone)
    · rw [issuedSince, Nat.sub_self]
      exact List.Perm.nil
  obtain ⟨state, found, hrun, hregistered, hnames⟩ :=
    finds_biosdiskI386Initialize hplaces _ _ hempty
  rw [List.append_nil] at hregistered
  exact ⟨state, found, hrun, hregistered, hnames⟩

/-! ## Names lead to devices -/

/-- What `open` can rely on after detection. -/
structure Addresses (machine : Machine) (drives : Drives) (state : DeviceState) : Prop where
  present : ∀ which, Present drives which → ∀ rest, ∀ fuel > 82, ∃ device,
    diskGetDeviceByName machine fuel (deviceName (which.text ++ rest)) state = .ok (some device) ∧
      Describes machine drives state device which ∧
      ∀ startSector, ∃ drive sector, LiesAt drives startSector drive sector which ∧
        ∀ steps > 1, readSectors state steps device startSector = .ok (some (drive, sector))
  absent : ∀ name, 0 ∉ name → (∀ which, Present drives which → name ≠ which.text) →
    ∀ fuel > 82, diskGetDeviceByName machine fuel name state = .ok none

theorem searchLoop_eq {name : CString}
    (hchain : ((entries.map fun entry => linkOf entry.2) ++ [machine.deviceList]).IsChain
      fun cell other => (state.links cell).next = other)
    (hhead : machine.deviceList ∉ entries.map fun entry => linkOf entry.2)
    (hfuel : entries.length < fuel) :
    searchLoop machine name state fuel
        ((entries.map fun entry => linkOf entry.2).headD machine.deviceList) =
      .ok ((entries.find? fun entry => strcmp name (state.devices entry.2).name = 0).map
        Prod.snd) := by
  induction entries generalizing fuel with
  | nil =>
      obtain ⟨fuel, rfl⟩ := Nat.exists_eq_succ_of_ne_zero (Nat.ne_of_gt hfuel)
      rw [List.map_nil, List.headD_nil, searchLoop, if_neg (by simp)]
      rfl
  | cons entry entries ih =>
      obtain ⟨fuel, rfl⟩ := Nat.exists_eq_succ_of_ne_zero (Nat.ne_of_gt (Nat.zero_lt_of_lt hfuel))
      rw [List.map_cons, List.mem_cons, not_or] at hhead
      rw [List.map_cons] at hchain
      rw [List.length_cons, Nat.succ_lt_succ_iff] at hfuel
      rw [List.map_cons, List.headD_cons, searchLoop, if_pos (Ne.symm hhead.1),
        headD_of_isChain hchain, ih hchain.tail hhead.2 hfuel, deviceOf_linkOf]
      by_cases hname : strcmp name (state.devices entry.2).name = 0
      · rw [if_pos hname, List.find?_cons_of_pos (by simpa using hname)]
        rfl
      · rw [if_neg hname, List.find?_cons_of_neg (by simpa using hname)]

theorem Registered.ring (hregistered : Registered machine drives first held state entries) :
    Ring (linksOf state.links) machine.deviceList (entries.map fun entry => linkOf entry.2) :=
  hregistered.listed.ring _ _ (Function.update_self ..)

/-- The first device of that name in the list. -/
theorem Registered.diskGetDeviceByName
    (hregistered : Registered machine drives first held state entries)
    (hfuel : entries.length < fuel) (name : CString) :
    diskGetDeviceByName machine fuel name state =
      .ok ((entries.find? fun entry => strcmp name (state.devices entry.2).name = 0).map
        Prod.snd) := by
  have hring := hregistered.ring
  have hnext : (state.links machine.deviceList).next = _ := hring.next_head
  rw [DiskDevices.diskGetDeviceByName, hnext]
  exact searchLoop_eq (hring.chain.tail.imp fun _ _ hjoined => hjoined.1)
    (List.nodup_cons.mp hring.nodup).1 hfuel

theorem Describes.name_eq (hdescribes : Describes machine drives state device which) :
    (state.devices device).name = which.text := by
  cases which with
  | floppy number => rw [show state.devices device = _ from hdescribes, floppyDevice]
  | hdd number => rw [show state.devices device = _ from hdescribes, hddDevice]
  | partition disk number =>
      obtain ⟨entry, parent, ⟨-, -, -, rfl⟩, -, -, hrecord⟩ := hdescribes
      rw [hrecord, partitionDevice]

theorem Describes.readSectors (hdescribes : Describes machine drives state device which)
    (startSector : ℕ) :
    ∃ drive sector, LiesAt drives startSector drive sector which ∧
      ∀ steps > 1, readSectors state steps device startSector = .ok (some (drive, sector)) := by
  cases which with
  | floppy number =>
      refine ⟨number, startSector, ⟨rfl, rfl⟩, fun steps hsteps => ?_⟩
      obtain ⟨steps, rfl⟩ := Nat.exists_eq_succ_of_ne_zero (show steps ≠ 0 by omega)
      have hrecord : state.devices device = floppyDevice number := hdescribes
      simp [DiskDevices.readSectors, hrecord, floppyDevice]
  | hdd number =>
      refine ⟨0x80 + number, startSector, ⟨rfl, rfl⟩, fun steps hsteps => ?_⟩
      obtain ⟨steps, rfl⟩ := Nat.exists_eq_succ_of_ne_zero (show steps ≠ 0 by omega)
      have hrecord : state.devices device = hddDevice number := hdescribes
      simp [DiskDevices.readSectors, hrecord, hddDevice, Nat.add_comm]
  | partition disk number =>
      obtain ⟨entry, parent, hentry, -, hdisk, hrecord⟩ := hdescribes
      refine ⟨0x80 + disk, u64 (startSector + entry.startLBA),
        ⟨rfl, fun other hother => by rw [hentry.unique hother]⟩, fun steps hsteps => ?_⟩
      obtain ⟨steps, rfl⟩ := Nat.exists_eq_add_of_lt hsteps
      simp [DiskDevices.readSectors, hrecord, partitionDevice, hdisk, hddDevice, Nat.add_comm]

/-- Every device that is there is found under its name, wherever a path begins with it, and
reads of it go to its drive and place; nothing is found under other names. -/
theorem diskInit_addresses (hplaces : Places machine) (drives : Drives) (before : DeviceState) :
    ∃ state, diskInit machine drives before = .ok state ∧ Addresses machine drives state := by
  obtain ⟨state, entries, hrun, hregistered, hnames⟩ := diskInit_registered hplaces before
  have hlength : entries.length ≤ 82 := by
    rw [← List.length_map (f := Prod.fst), hnames, List.length_reverse]
    exact length_detected_le drives
  have hknown : ∀ which, Present drives which ↔ ∃ device, (which, device) ∈ entries := by
    intro which
    rw [← mem_detected, ← List.mem_reverse, ← hnames, List.mem_map]
    exact ⟨fun ⟨entry, hmem, heq⟩ => ⟨entry.2, heq ▸ hmem⟩, fun ⟨device, hmem⟩ => ⟨_, hmem, rfl⟩⟩
  have hmatch : ∀ name, 0 ∉ name → ∀ entry ∈ entries,
      strcmp name (state.devices entry.2).name = 0 ↔ name = entry.1.text := by
    intro name hname entry hmem
    rw [(hregistered.described entry hmem).name_eq]
    exact strcmp_eq_zero_iff hname (zero_notMem_text _)
  refine ⟨state, hrun, ⟨?_, ?_⟩⟩
  · intro which hpresent rest fuel hfuel
    obtain ⟨device, hmem⟩ := (hknown which).mp hpresent
    have hzero := zero_notMem_text which
    rw [deviceName_text, hregistered.diskGetDeviceByName (by omega)]
    cases hfind : entries.find? fun entry => strcmp which.text (state.devices entry.2).name = 0 with
    | none =>
        have hnone := List.find?_eq_none.mp hfind _ hmem
        rw [decide_eq_true_eq, hmatch _ hzero _ hmem] at hnone
        exact absurd rfl hnone
    | some entry =>
        have hentry := List.mem_of_find?_eq_some hfind
        have htext := List.find?_some hfind
        rw [decide_eq_true_eq, hmatch _ hzero _ hentry] at htext
        have hdescribes := hregistered.described entry hentry
        rw [← text_injective htext] at hdescribes
        exact ⟨entry.2, rfl, hdescribes, hdescribes.readSectors⟩
  · intro name hname hother fuel hfuel
    rw [hregistered.diskGetDeviceByName (by omega), List.find?_eq_none.mpr]
    · rfl
    · intro entry hmem
      rw [decide_eq_true_eq, hmatch name hname entry hmem]
      exact hother entry.1 ((hknown _).mpr ⟨entry.2, hmem⟩)

/-! ## Shutting down -/

theorem destroyLoop_eq {released : ℕ → ListHeads → ListHeads}
    (hreleased : ∀ device links cell, cell ≠ linkOf device →
      released device links cell = links cell) {links : ListHeads} {devices : List ℕ}
    (hlisted : Represents (linksOf links) (onlyList machine.deviceList (devices.map linkOf)))
    (hfuel : devices.length < fuel) :
    ∃ links', destroyLoop machine released fuel (links machine.deviceList).next
        (links (links machine.deviceList).next).next links = .ok (devices, links') ∧
      Represents (linksOf links') (onlyList machine.deviceList []) := by
  have hhead : ∀ cells, onlyList machine.deviceList cells machine.deviceList = some cells :=
    fun _ => Function.update_self ..
  induction devices generalizing links fuel with
  | nil =>
      obtain ⟨fuel, rfl⟩ := Nat.exists_eq_succ_of_ne_zero (Nat.ne_of_gt hfuel)
      have hnext : (links machine.deviceList).next = machine.deviceList :=
        (hlisted.ring _ _ (hhead _)).next_head
      exact ⟨links, by rw [destroyLoop, hnext, if_neg (by simp)], hlisted⟩
  | cons dev devices ih =>
      obtain ⟨fuel, rfl⟩ := Nat.exists_eq_succ_of_ne_zero (Nat.ne_of_gt (Nat.zero_lt_of_lt hfuel))
      rw [List.length_cons, Nat.succ_lt_succ_iff] at hfuel
      have hring := hlisted.ring _ _ (hhead _)
      have hnext : (links machine.deviceList).next = linkOf dev := hring.next_head
      have hsecond : (links (linkOf dev)).next = (devices.map linkOf).headD machine.deviceList :=
        headD_of_isChain (hring.chain.tail.imp fun _ _ hjoined => hjoined.1)
      have hnotHead : linkOf dev ≠ machine.deviceList := fun heq =>
        (List.nodup_cons.mp hring.nodup).1 (heq ▸ List.mem_cons_self)
      have hfirst : linkOf dev ∈ (dev :: devices).map linkOf := List.mem_cons_self
      have hrest : without (onlyList machine.deviceList ((dev :: devices).map linkOf))
          (linkOf dev) = onlyList machine.deviceList (devices.map linkOf) := by
        rw [without_eq hlisted (hhead _) hfirst, onlyList, Function.update_idem, List.map_cons,
          List.erase_cons_head]
        rfl
      have hdeleted := represents_del hlisted (hhead _) hfirst
      rw [hrest] at hdeleted
      have hkept : Represents (linksOf (released dev (listDel (linkOf dev) links)))
          (onlyList machine.deviceList (devices.map linkOf)) := by
        refine hdeleted.congr fun cell hmem => ?_
        have hne : cell ≠ linkOf dev := by
          rintro rfl
          rcases List.mem_cons.mp (member_onlyList.mp hmem) with heq | hmem
          · exact hnotHead heq
          · exact (List.nodup_cons.mp (List.nodup_cons.mp hring.nodup).2).1 hmem
        have hsame := hreleased dev (listDel (linkOf dev) links) cell hne
        exact ⟨congrArg BootBlock.ListHead.next hsame, congrArg BootBlock.ListHead.prev hsame⟩
      obtain ⟨links', hloop, hempty⟩ := ih hkept hfuel
      have hnext' : (released dev (listDel (linkOf dev) links) machine.deviceList).next =
          (devices.map linkOf).headD machine.deviceList :=
        (hkept.ring _ _ (hhead _)).next_head
      refine ⟨links', ?_, hempty⟩
      rw [hnext'] at hloop
      rw [hnext, hsecond, destroyLoop, if_pos hnotHead, deviceOf_linkOf]
      simp only [hloop, ok_bind]

/-- Blocks of 100 bytes behind the head of the list. -/
def blocksBehind : Machine := ⟨fun block => 100 * block + 100, 0⟩

theorem blocksBehind_places : Places blocksBehind where
  injective block other heq := by
    simp only [blocksBehind] at heq
    omega
  apart block := by
    simp only [blocksBehind, linkOf]
    omega

/-- One disk without a partition table. -/
def oneDisk : Drives where
  diskType drive := if drive = 0x80 then some diskTypeFixed else none
  disk _ :=
    { bytesPerSector := 512
      content := fun _ => 0
      readable := fun _ _ => true
      totalLBASectors := some 1000 }

theorem diskInit_addresses_oneDisk :
    ∃ state, diskInit blocksBehind oneDisk ⟨fun _ => ⟨0, 0⟩, fun _ => floppyDevice 0, 0⟩ =
      .ok state ∧ Addresses blocksBehind oneDisk state :=
  diskInit_addresses blocksBehind_places oneDisk _

/-- Shutting down gives back every block that was taken for a device, each of them once, and
leaves an empty list. -/
theorem diskDestroy_releasesAll (hplaces : Places machine) {released : ℕ → ListHeads → ListHeads}
    (hreleased : ∀ device links cell, cell ≠ linkOf device →
      released device links cell = links cell) (drives : Drives) (before : DeviceState) :
    ∃ state, diskInit machine drives before = .ok state ∧ ∀ fuel > 82, ∃ freed links,
      diskDestroy machine released fuel state = .ok (freed, links) ∧
      freed.Perm (issuedSince machine before.blocks state) ∧
      BootBlock.listEmpty machine.deviceList links = true := by
  obtain ⟨state, entries, hrun, hregistered, hnames⟩ := diskInit_registered hplaces before
  have hlength : entries.length ≤ 82 := by
    rw [← List.length_map (f := Prod.fst), hnames, List.length_reverse]
    exact length_detected_le drives
  refine ⟨state, hrun, fun fuel hfuel => ?_⟩
  have hlisted := hregistered.listed
  have hcells : entries.map (fun entry => linkOf entry.2) = (entries.map Prod.snd).map linkOf := by
    rw [List.map_map]
    rfl
  rw [hcells] at hlisted
  obtain ⟨links, hdestroyed, hempty⟩ := destroyLoop_eq hreleased hlisted
    (show (entries.map Prod.snd).length < fuel by rw [List.length_map]; omega)
  exact ⟨_, links, hdestroyed, hregistered.blocks,
    listEmpty_eq hempty (Function.update_self ..)⟩

theorem diskDestroy_releasesAll_oneDisk :
    ∃ state, diskInit blocksBehind oneDisk ⟨fun _ => ⟨0, 0⟩, fun _ => floppyDevice 0, 0⟩ =
      .ok state ∧ ∀ fuel > 82, ∃ freed links,
        diskDestroy blocksBehind (fun _ links => links) fuel state = .ok (freed, links) ∧
        freed.Perm (issuedSince blocksBehind 0 state) ∧
        BootBlock.listEmpty blocksBehind.deviceList links = true :=
  diskDestroy_releasesAll blocksBehind_places (fun _ _ _ _ => rfl) oneDisk _

end GeexOS.DiskDevices
