import GeexOS.Library.ByteMemory
import GeexOS.Loader.BiosDisk
import Mathlib.Order.CompletePartialOrder
import Mathlib.Order.Interval.Set.Basic

/-!
# Reads by block number

Drives with the extensions are told by a packet in low memory what to read and where to put
it.  Buffers above 1 MiB are out of the firmware's reach; their sectors are read into the
buffer for BIOS calls and copied.
-/

namespace GeexOS.BiosDisk

open GeexOS.Words
open GeexOS.Halting
open GeexOS.ByteMemory

/-- The memory that loader and firmware share, and what the firmware keeps to itself. -/
structure BiosState (φ : Type) where
  memory : Memory
  firmware : φ

variable {φ : Type}

abbrev Interrupt (φ : Type) :=
  ℕ → BiosIntRegisters → BiosState φ → BiosIntRegisters × BiosState φ

def biosCallBuffer : ℕ := 0x1000

def biosCallBufferSize : ℕ := 6 * 0x1000

/-! ## The structures in memory -/

namespace ExtendedDiskParameters

def load (memory : Memory) (address : ℕ) : ExtendedDiskParameters where
  size := load16 memory address
  flags := load16 memory (address + 2)
  cylinders := load32 memory (address + 4)
  heads := load32 memory (address + 8)
  sectors := load32 memory (address + 12)
  totalLBASectors := load64 memory (address + 16)
  bytesPerSector := load16 memory (address + 24)
  eddPtr := load32 memory (address + 26)

/-- The bytes of the packed structure. -/
def bytes (parameters : ExtendedDiskParameters) : List UInt8 :=
  (List.range 2).map (byteOf parameters.size) ++
    (List.range 2).map (byteOf parameters.flags) ++
    (List.range 4).map (byteOf parameters.cylinders) ++
    (List.range 4).map (byteOf parameters.heads) ++
    (List.range 4).map (byteOf parameters.sectors) ++
    (List.range 8).map (byteOf parameters.totalLBASectors) ++
    (List.range 2).map (byteOf parameters.bytesPerSector) ++
    (List.range 4).map (byteOf parameters.eddPtr)

def store (parameters : ExtendedDiskParameters) (address : ℕ) (memory : Memory) : Memory :=
  writeBytes memory address 30 fun index => parameters.bytes.getD index 0

end ExtendedDiskParameters

/-- `INT13_LBA_Packet`. -/
structure LbaPacket where
  size : ℕ
  reserved : ℕ
  numSectors : ℕ
  bufferOffset : ℕ
  bufferSegment : ℕ
  lbaStartSector : ℕ
  lbaStartSectorHigh : ℕ
  deriving DecidableEq, Repr

namespace LbaPacket

def load (memory : Memory) (address : ℕ) : LbaPacket where
  size := (memory address).toNat
  reserved := (memory (address + 1)).toNat
  numSectors := load16 memory (address + 2)
  bufferOffset := load16 memory (address + 4)
  bufferSegment := load16 memory (address + 6)
  lbaStartSector := load32 memory (address + 8)
  lbaStartSectorHigh := load32 memory (address + 12)

def bytes (packet : LbaPacket) : List UInt8 :=
  [byteOf packet.size 0, byteOf packet.reserved 0] ++
    (List.range 2).map (byteOf packet.numSectors) ++
    (List.range 2).map (byteOf packet.bufferOffset) ++
    (List.range 2).map (byteOf packet.bufferSegment) ++
    (List.range 4).map (byteOf packet.lbaStartSector) ++
    (List.range 4).map (byteOf packet.lbaStartSectorHigh)

def store (packet : LbaPacket) (address : ℕ) (memory : Memory) : Memory :=
  writeBytes memory address 16 fun index => packet.bytes.getD index 0

/-- The fields have their widths. -/
structure Fits (packet : LbaPacket) : Prop where
  size_lt : packet.size < 2 ^ 8
  reserved_lt : packet.reserved < 2 ^ 8
  numSectors_lt : packet.numSectors < 2 ^ 16
  bufferOffset_lt : packet.bufferOffset < 2 ^ 16
  bufferSegment_lt : packet.bufferSegment < 2 ^ 16
  lbaStartSector_lt : packet.lbaStartSector < 2 ^ 32
  lbaStartSectorHigh_lt : packet.lbaStartSectorHigh < 2 ^ 32

/-- What is written to memory is read back. -/
theorem load_store {packet : LbaPacket} (hfits : packet.Fits) (memory : Memory) (address : ℕ) :
    load (packet.store address memory) address = packet := by
  obtain ⟨hsize, hreserved, hnum, hoffset, hsegment, hlow, hhigh⟩ := hfits
  have hbyte : ∀ index < 16, packet.store address memory (address + index) =
      packet.bytes.getD index 0 := by
    intro index hindex
    rw [store, writeBytes_of_mem (by omega) (by omega), Nat.add_sub_cancel_left]
  have hfirst : packet.store address memory address = packet.bytes.getD 0 0 :=
    hbyte 0 (by decide)
  cases packet
  simp only [load, load32, load16, Nat.add_assoc, Nat.reduceAdd, hfirst,
    hbyte _ (by decide : 1 < 16), hbyte _ (by decide : 2 < 16), hbyte _ (by decide : 3 < 16),
    hbyte _ (by decide : 4 < 16), hbyte _ (by decide : 5 < 16), hbyte _ (by decide : 6 < 16),
    hbyte _ (by decide : 7 < 16), hbyte _ (by decide : 8 < 16), hbyte _ (by decide : 9 < 16),
    hbyte _ (by decide : 10 < 16), hbyte _ (by decide : 11 < 16), hbyte _ (by decide : 12 < 16),
    hbyte _ (by decide : 13 < 16), hbyte _ (by decide : 14 < 16), hbyte _ (by decide : 15 < 16),
    mk.injEq]
  simp only [bytes, List.range_succ, List.range_zero, List.map_cons, List.map_nil,
    List.nil_append, List.cons_append, List.getD_cons_zero, List.getD_cons_succ,
    toNat_byteOf]
  simp only at hsize hreserved hnum hoffset hsegment hlow hhigh
  refine ⟨?_, ?_, ?_, ?_, ?_, ?_, ?_⟩ <;> omega

/-- Where the firmware puts the sectors. -/
def target (packet : LbaPacket) : ℕ := packet.bufferSegment * 16 + packet.bufferOffset

def lba (packet : LbaPacket) : ℕ := packet.lbaStartSector + 2 ^ 32 * packet.lbaStartSectorHigh

end LbaPacket

/-! ## The driver -/

/-- The firmware with the buffer for its calls in shared memory. -/
def memoryBios (interrupt : Interrupt φ) : Bios (BiosState φ) where
  interrupt := interrupt
  loadParameters := fun state => ExtendedDiskParameters.load state.memory biosCallBuffer
  storeParameters := fun parameters state =>
    { state with memory := parameters.store biosCallBuffer state.memory }

def writeMemory (write : Memory → Memory) (machine : Machine (BiosState φ)) :
    Machine (BiosState φ) :=
  { machine with state := { machine.state with memory := write machine.state.memory } }

def int13LbaPacket (startSector sectorCount buffer : ℕ) : LbaPacket where
  size := 16
  reserved := 0
  numSectors := u16 sectorCount
  bufferOffset := u16 (buffer &&& 0x0F)
  bufferSegment := u16 (buffer >>> 4)
  lbaStartSector := u32 (startSector &&& 0xFFFFFFFF)
  lbaStartSectorHigh := u32 ((startSector >>> 32) &&& 0xFFFFFFFF)

variable (interrupt : Interrupt φ)

/-- The registers of the call `0x42`. -/
def lbaRegisters (driveNumber : ℕ) : BiosIntRegisters :=
  { clearedRegisters with
    eax := 0x4200
    edx := driveNumber
    ds := biosCallBufferSegment
    esi := biosCallBufferOffset }

/-- The loop over the tries; each writes the packet anew. -/
def lbaTries (driveNumber : ℕ) (packet : LbaPacket) :
    (tries : ℕ) → Machine (BiosState φ) → Bool × Machine (BiosState φ)
  | 0, machine => (false, machine)
  | tries + 1, machine =>
      let answer := callInt (memoryBios interrupt) 0x13 (lbaRegisters driveNumber)
        (writeMemory (packet.store biosCallBuffer) machine)
      if !answer.1.carry then (true, answer.2)
      else
        lbaTries driveNumber packet tries
          (biosdiskI386ResetController (memoryBios interrupt) driveNumber answer.2).2

def biosdiskI386ReadLba (driveNumber startSector sectorCount buffer : ℕ)
    (machine : Machine (BiosState φ)) : Bool × Machine (BiosState φ) :=
  lbaTries interrupt driveNumber (int13LbaPacket startSector sectorCount buffer) 3 machine

/-- The choice between the two kinds of reads. -/
def readInto (fuel driveNumber startSector sectorCount buffer : ℕ)
    (machine : Machine (BiosState φ)) : Outcome (Bool × Machine (BiosState φ)) :=
  match biosdiskI386ExtendedmodeSupported (memoryBios interrupt) driveNumber machine with
  | (true, machine) =>
      .ok (biosdiskI386ReadLba interrupt driveNumber startSector sectorCount buffer machine)
  | (false, machine) =>
      biosdiskI386ReadChs (memoryBios interrupt) fuel driveNumber startSector sectorCount buffer
        machine

def tooLarge : Halt :=
  .panic "Can't perform a disk read into a buffer above 1M with more than 24K at once"

/-- `memcpy(buffer, (void*)BIOSCALLBUFFER, length)`. -/
def copyFromCallBuffer (buffer length : ℕ) (memory : Memory) : Memory :=
  writeBytes memory buffer length fun index => memory (biosCallBuffer + index)

/-- What was read is copied whether the read was successful or not. -/
def biosdiskI386ReadSectors (fuel driveNumber startSector sectorCount buffer : ℕ)
    (machine : Machine (BiosState φ)) : Outcome (Bool × Machine (BiosState φ)) :=
  if 0x100000 < buffer then
    match biosdiskI386GetDiskGeometry (memoryBios interrupt) driveNumber machine with
    | (none, machine) => .ok (false, machine)
    | (some geometry, machine) =>
        if biosCallBufferSize < u32 (sectorCount * geometry.bytesPerSector) then .error tooLarge
        else do
          let (ret, machine) ←
            readInto interrupt fuel driveNumber startSector sectorCount biosCallBuffer machine
          .ok (ret, writeMemory
            (copyFromCallBuffer buffer (u32 (sectorCount * geometry.bytesPerSector))) machine)
  else readInto interrupt fuel driveNumber startSector sectorCount buffer machine

/-! ## What the firmware promises -/

/-- Memory changes in the given bytes only. -/
def ChangesOnly (changed : Set ℕ) (before after : Memory) : Prop :=
  ∀ position ∉ changed, after position = before position

/-- The bytes that the registers point at. -/
def BiosIntRegisters.pointer (regs : BiosIntRegisters) : ℕ := regs.ds * 16 + regs.esi % 2 ^ 16

def BiosIntRegisters.function (regs : BiosIntRegisters) : ℕ := regs.eax / 256 % 256

/-- A drive with the extensions.  Each call may change the firmware's own memory; a read that
comes back without the carry flag has put the sectors where the packet says.  The loader
goes on with 512 bytes in a sector if call 48h fails, so a drive for which it does has
sectors of that size. -/
structure LbaFirmware (interrupt : Interrupt φ) (drive : ℕ) (disk : ℕ → UInt8)
    (bytesPerSector : ℕ) (own : Set ℕ) : Prop where
  bytesPerSector_ge : 128 ≤ bytesPerSector
  quiet : ∀ regs state, regs.function = 0x00 ∨ regs.function = 0x08 ∨ regs.function = 0x41 →
    ChangesOnly own state.memory (interrupt 0x13 regs state).2.memory
  supported : ∀ regs state, regs.function = 0x41 → regs.ebx = 0x55AA →
    regs.edx % 256 = drive → (interrupt 0x13 regs state).1.carry = false
  parameters : ∀ regs state, regs.function = 0x48 → regs.edx % 256 = drive →
    ChangesOnly (own ∪ Set.Ico regs.pointer (regs.pointer + 30)) state.memory
        (interrupt 0x13 regs state).2.memory ∧
      if (interrupt 0x13 regs state).1.carry then bytesPerSector = 512
      else (ExtendedDiskParameters.load (interrupt 0x13 regs state).2.memory
        regs.pointer).bytesPerSector = bytesPerSector
  read : ∀ regs state packet, regs.function = 0x42 → regs.edx % 256 = drive →
    packet = LbaPacket.load state.memory regs.pointer → packet.size = 16 →
    ChangesOnly (own ∪ Set.Ico regs.pointer (regs.pointer + 16) ∪
        Set.Ico packet.target (packet.target + packet.numSectors * bytesPerSector))
        state.memory (interrupt 0x13 regs state).2.memory ∧
      ((interrupt 0x13 regs state).1.carry = false →
        ∀ index < packet.numSectors * bytesPerSector, packet.target + index ∉ own →
          (interrupt 0x13 regs state).2.memory (packet.target + index) =
            disk (packet.lba * bytesPerSector + index))

/-- The sectors from `start` on are in memory. -/
def Delivered (disk : ℕ → UInt8) (bytesPerSector start count buffer : ℕ) (memory : Memory) :
    Prop :=
  ∀ index < count * bytesPerSector,
    memory (buffer + index) = disk (start * bytesPerSector + index)

variable {interrupt} {machine machine' : Machine (BiosState φ)} {memory memory' middle : Memory}
variable {changed changed' own : Set ℕ} {disk : ℕ → UInt8} {success : Bool}
variable {drive start count buffer bytesPerSector fuel length : ℕ}

theorem ChangesOnly.refl (changed : Set ℕ) (memory : Memory) :
    ChangesOnly changed memory memory := fun _ _ => rfl

theorem ChangesOnly.mono (hmemory : ChangesOnly changed memory memory')
    (hsubset : changed ⊆ changed') : ChangesOnly changed' memory memory' :=
  fun position hposition => hmemory position fun hmem => hposition (hsubset hmem)

theorem ChangesOnly.trans (hfirst : ChangesOnly changed memory middle)
    (hsecond : ChangesOnly changed middle memory') : ChangesOnly changed memory memory' :=
  fun position hposition => (hsecond position hposition).trans (hfirst position hposition)

theorem changesOnly_writeBytes {bytes : ℕ → UInt8} {address : ℕ} :
    ChangesOnly (Set.Ico address (address + length)) memory
      (writeBytes memory address length bytes) := fun position hposition => by
  rw [Set.mem_Ico] at hposition
  exact writeBytes_of_notMem (by omega)

theorem writeBytes_add {bytes : ℕ → UInt8} {address index : ℕ} (hindex : index < length) :
    writeBytes memory address length bytes (address + index) = bytes index := by
  rw [writeBytes_of_mem (by omega) (by omega), Nat.add_sub_cancel_left]

/-! ## The packet of a read -/

theorem int13LbaPacket_fits (start count buffer : ℕ) :
    (int13LbaPacket start count buffer).Fits where
  size_lt := by simp [int13LbaPacket]
  reserved_lt := by simp [int13LbaPacket]
  numSectors_lt := Nat.mod_lt _ (by norm_num)
  bufferOffset_lt := Nat.mod_lt _ (by norm_num)
  bufferSegment_lt := Nat.mod_lt _ (by norm_num)
  lbaStartSector_lt := u32_lt _
  lbaStartSectorHigh_lt := u32_lt _

theorem target_int13LbaPacket (hbuffer : buffer < 2 ^ 20) :
    (int13LbaPacket start count buffer).target = buffer := by
  have hoffset : buffer &&& 0x0F = buffer % 16 := Nat.and_two_pow_sub_one_eq_mod buffer 4
  have hsegment : buffer >>> 4 = buffer / 16 := Nat.shiftRight_eq_div_pow buffer 4
  simp only [int13LbaPacket, LbaPacket.target, hoffset, hsegment, u16]
  omega

theorem lba_int13LbaPacket (hstart : start < 2 ^ 64) :
    (int13LbaPacket start count buffer).lba = start := by
  have hlow : start &&& 0xFFFFFFFF = start % 2 ^ 32 := Nat.and_two_pow_sub_one_eq_mod start 32
  have hhigh : start >>> 32 &&& 0xFFFFFFFF = start / 2 ^ 32 % 2 ^ 32 := by
    rw [Nat.shiftRight_eq_div_pow]
    exact Nat.and_two_pow_sub_one_eq_mod _ 32
  simp only [int13LbaPacket, LbaPacket.lba, hlow, hhigh, u32]
  omega

/-! ## Calls -/

/-- The bytes that a read by block number may change. -/
def changedByLba (own : Set ℕ) (bytesPerSector count buffer : ℕ) : Set ℕ :=
  own ∪ Set.Ico biosCallBuffer (biosCallBuffer + 16) ∪
    Set.Ico buffer (buffer + count * bytesPerSector)

section Firmware

variable (hfirmware : LbaFirmware interrupt drive disk bytesPerSector own) (hdrive : drive < 2 ^ 8)

include hfirmware in
theorem LbaFirmware.resetController (machine : Machine (BiosState φ)) :
    ChangesOnly own machine.state.memory
      (biosdiskI386ResetController (memoryBios interrupt) drive machine).2.state.memory :=
  hfirmware.quiet _ _ (Or.inl (by simp [BiosIntRegisters.function]))

include hfirmware hdrive in
theorem LbaFirmware.extendedmodeSupported (machine : Machine (BiosState φ)) :
    ∃ machine', biosdiskI386ExtendedmodeSupported (memoryBios interrupt) drive machine =
        (true, machine') ∧
      ChangesOnly own machine.state.memory machine'.state.memory := by
  have hregs : drive % 256 = drive := Nat.mod_eq_of_lt hdrive
  have hcarry := hfirmware.supported
    { clearedRegisters with eax := 0x4100, ebx := 0x55AA, edx := drive } machine.state
    (by simp [BiosIntRegisters.function]) rfl hregs
  refine ⟨_, Prod.ext ?_ rfl,
    hfirmware.quiet _ _ (Or.inr (Or.inr (by simp [BiosIntRegisters.function])))⟩
  show (!_) = true
  rw [Bool.not_eq_true']
  exact hcarry

theorem pointer_lbaRegisters : (lbaRegisters drive).pointer = biosCallBuffer := by
  simp [BiosIntRegisters.pointer, lbaRegisters, biosCallBuffer, biosCallBufferSegment,
    biosCallBufferOffset]

include hfirmware hdrive in
/-- The call `0x42` on the packet in the buffer for calls. -/
theorem LbaFirmware.callInt_read (hstart : start < 2 ^ 64) (hcount : count < 2 ^ 16)
    (hbuffer : count = 0 ∨ buffer < 2 ^ 20) {answer : BiosIntRegisters × Machine (BiosState φ)}
    (hanswer : answer = callInt (memoryBios interrupt) 0x13 (lbaRegisters drive)
      (writeMemory ((int13LbaPacket start count buffer).store biosCallBuffer) machine)) :
    ChangesOnly (changedByLba own bytesPerSector count buffer) machine.state.memory
        answer.2.state.memory ∧
      (answer.1.carry = false → Disjoint (Set.Ico buffer (buffer + count * bytesPerSector)) own →
        Delivered disk bytesPerSector start count buffer answer.2.state.memory) := by
  subst hanswer
  have hregs : (lbaRegisters drive).edx % 256 = drive := Nat.mod_eq_of_lt hdrive
  have hnum : (int13LbaPacket start count buffer).numSectors = count :=
    Nat.mod_eq_of_lt hcount
  have hload := LbaPacket.load_store (int13LbaPacket_fits start count buffer)
    machine.state.memory biosCallBuffer
  obtain ⟨hchanges, hdelivered⟩ := hfirmware.read (lbaRegisters drive)
    (writeMemory ((int13LbaPacket start count buffer).store biosCallBuffer) machine).state
    (int13LbaPacket start count buffer)
    (by simp [lbaRegisters, BiosIntRegisters.function]) hregs hload.symm rfl
  rw [hnum, pointer_lbaRegisters] at hchanges
  rw [hnum, lba_int13LbaPacket hstart] at hdelivered
  have htarget : Set.Ico (int13LbaPacket start count buffer).target
        ((int13LbaPacket start count buffer).target + count * bytesPerSector) =
      Set.Ico buffer (buffer + count * bytesPerSector) := by
    rcases hbuffer with rfl | hbuffer
    · rw [Nat.zero_mul, Nat.add_zero, Nat.add_zero, Set.Ico_self, Set.Ico_self]
    · rw [target_int13LbaPacket hbuffer]
  rw [htarget] at hchanges
  constructor
  · have hpacket : ChangesOnly (Set.Ico biosCallBuffer (biosCallBuffer + 16))
        machine.state.memory
        ((int13LbaPacket start count buffer).store biosCallBuffer machine.state.memory) :=
      changesOnly_writeBytes
    exact (hpacket.mono (Set.subset_union_of_subset_left Set.subset_union_right _)).trans hchanges
  · intro hcarry hdisjoint index hindex
    have hpos : count ≠ 0 := by
      rintro rfl
      rw [Nat.zero_mul] at hindex
      exact Nat.not_lt_zero _ hindex
    have hapart : buffer + index ∉ own := fun hmem =>
      Set.disjoint_left.mp hdisjoint ⟨Nat.le_add_right _ _, Nat.add_lt_add_left hindex _⟩ hmem
    rw [target_int13LbaPacket (hbuffer.resolve_left hpos)] at hdelivered
    exact hdelivered hcarry index hindex hapart

include hfirmware hdrive in
/-- The tries change what one of them may change, and the last one delivers if there is a
success. -/
theorem LbaFirmware.lbaTries (hstart : start < 2 ^ 64) (hcount : count < 2 ^ 16)
    (hbuffer : count = 0 ∨ buffer < 2 ^ 20) (tries : ℕ)
    (hrun : lbaTries interrupt drive (int13LbaPacket start count buffer) tries machine =
      (success, machine')) :
    ChangesOnly (changedByLba own bytesPerSector count buffer) machine.state.memory
        machine'.state.memory ∧
      (success = true → Disjoint (Set.Ico buffer (buffer + count * bytesPerSector)) own →
        Delivered disk bytesPerSector start count buffer machine'.state.memory) := by
  induction tries generalizing machine with
  | zero =>
      obtain ⟨rfl, rfl⟩ := Prod.mk.inj hrun
      exact ⟨ChangesOnly.refl _ _, fun hsuccess => absurd hsuccess Bool.false_ne_true⟩
  | succ tries ih =>
      rw [BiosDisk.lbaTries] at hrun
      obtain ⟨answer, hanswer⟩ : ∃ answer, answer = callInt (memoryBios interrupt) 0x13
        (lbaRegisters drive)
        (writeMemory ((int13LbaPacket start count buffer).store biosCallBuffer) machine) := ⟨_, rfl⟩
      obtain ⟨hchanges, hdelivered⟩ :=
        hfirmware.callInt_read hdrive hstart hcount hbuffer hanswer
      simp only [← hanswer] at hrun
      cases hcarry : answer.1.carry with
      | false =>
          rw [hcarry] at hrun
          obtain ⟨rfl, rfl⟩ := Prod.mk.inj hrun
          exact ⟨hchanges, fun _ => hdelivered hcarry⟩
      | true =>
          rw [hcarry] at hrun
          obtain ⟨hlater, hresult⟩ := ih hrun
          have hreset := hfirmware.resetController answer.2
          refine ⟨hchanges.trans (ChangesOnly.trans (hreset.mono ?_) hlater), hresult⟩
          exact Set.subset_union_of_subset_left Set.subset_union_left _

include hfirmware hdrive in
theorem LbaFirmware.readInto (hstart : start < 2 ^ 64) (hcount : count < 2 ^ 16)
    (hbuffer : count = 0 ∨ buffer < 2 ^ 20) (fuel : ℕ) (machine : Machine (BiosState φ)) :
    ∃ success machine', readInto interrupt fuel drive start count buffer machine =
        .ok (success, machine') ∧
      ChangesOnly (changedByLba own bytesPerSector count buffer) machine.state.memory
        machine'.state.memory ∧
      (success = true → Disjoint (Set.Ico buffer (buffer + count * bytesPerSector)) own →
        Delivered disk bytesPerSector start count buffer machine'.state.memory) := by
  obtain ⟨middle, hsupported, hchanges⟩ :=
    hfirmware.extendedmodeSupported hdrive machine
  obtain ⟨⟨success, after⟩, hlba⟩ : ∃ result, result =
    BiosDisk.lbaTries interrupt drive (int13LbaPacket start count buffer) 3 middle := ⟨_, rfl⟩
  obtain ⟨hread, hdelivered⟩ := hfirmware.lbaTries hdrive hstart hcount hbuffer 3 hlba.symm
  refine ⟨success, after, ?_, ChangesOnly.trans (hchanges.mono ?_) hread, hdelivered⟩
  · rw [BiosDisk.readInto, hsupported, hlba]
    rfl
  · exact Set.subset_union_of_subset_left Set.subset_union_left _

/-- The registers of the call `0x48`. -/
def parameterRegisters (drive : ℕ) : BiosIntRegisters :=
  { clearedRegisters with
    eax := 0x4800, edx := drive, ds := biosCallBufferSegment, esi := biosCallBufferOffset }

theorem pointer_parameterRegisters : (parameterRegisters drive).pointer = biosCallBuffer := by
  simp [BiosIntRegisters.pointer, parameterRegisters, biosCallBuffer, biosCallBufferSegment,
    biosCallBufferOffset]

include hfirmware hdrive in
/-- The call `0x48` on parameters that are cleared before. -/
theorem LbaFirmware.callInt_parameters {cleared : ExtendedDiskParameters}
    {answer : BiosIntRegisters × Machine (BiosState φ)}
    (hanswer : answer = callInt (memoryBios interrupt) 0x13 (parameterRegisters drive)
      { machine with state := (memoryBios interrupt).storeParameters cleared machine.state }) :
    ChangesOnly (own ∪ Set.Ico biosCallBuffer (biosCallBuffer + 30)) machine.state.memory
        answer.2.state.memory ∧
      if answer.1.carry then bytesPerSector = 512
      else ((memoryBios interrupt).loadParameters answer.2.state).bytesPerSector =
        bytesPerSector := by
  subst hanswer
  have hregs : (parameterRegisters drive).edx % 256 = drive := Nat.mod_eq_of_lt hdrive
  have hcleared : ChangesOnly (Set.Ico biosCallBuffer (biosCallBuffer + 30)) machine.state.memory
      (cleared.store biosCallBuffer machine.state.memory) := changesOnly_writeBytes
  obtain ⟨hchanges, hsize⟩ := hfirmware.parameters (parameterRegisters drive)
    ((memoryBios interrupt).storeParameters cleared machine.state)
    (by simp [parameterRegisters, BiosIntRegisters.function]) hregs
  rw [pointer_parameterRegisters] at hchanges hsize
  exact ⟨(hcleared.mono Set.subset_union_right).trans hchanges, hsize⟩

include hfirmware hdrive in
/-- The size of a sector is known if the geometry is. -/
theorem LbaFirmware.getDiskGeometry {geometry : Option DiskGeometry}
    (hrun : biosdiskI386GetDiskGeometry (memoryBios interrupt) drive machine =
      (geometry, machine')) :
    ChangesOnly (own ∪ Set.Ico biosCallBuffer (biosCallBuffer + 30)) machine.state.memory
        machine'.state.memory ∧
      ∀ g, geometry = some g → g.bytesPerSector = bytesPerSector := by
  obtain ⟨middle, hsupported, hquiet⟩ :=
    hfirmware.extendedmodeSupported hdrive machine
  have hquiet := hquiet.mono
    (Set.subset_union_left (t := Set.Ico biosCallBuffer (biosCallBuffer + 30)))
  obtain ⟨answer, hanswer⟩ : ∃ answer, answer =
      callInt (memoryBios interrupt) 0x13 (parameterRegisters drive)
        { middle with state :=
          (memoryBios interrupt).storeParameters ⟨30, 0, 0, 0, 0, 0, 0, 0⟩ middle.state } :=
    ⟨_, rfl⟩
  obtain ⟨hchanges, hsize⟩ := hfirmware.callInt_parameters hdrive hanswer
  have hext : biosdiskI386GetExtendedDriveParameters (memoryBios interrupt) drive machine =
      if answer.1.carry then (none, answer.2)
      else (some ((memoryBios interrupt).loadParameters answer.2.state), answer.2) := by
    rw [biosdiskI386GetExtendedDriveParameters, hsupported, hanswer]
    rfl
  have hread := hquiet.trans hchanges
  cases hcarry : answer.1.carry with
  | false =>
      rw [hcarry, if_neg Bool.false_ne_true] at hext hsize
      simp only [biosdiskI386GetDiskGeometry, hext, Prod.mk.injEq] at hrun
      obtain ⟨rfl, rfl⟩ := hrun
      refine ⟨hread, fun g hg => ?_⟩
      rw [Option.some.injEq] at hg
      exact hg ▸ hsize
  | true =>
      rw [hcarry, if_pos rfl] at hext hsize
      obtain ⟨older, holder⟩ : ∃ older, older = callInt (memoryBios interrupt) 0x13
        { clearedRegisters with eax := 0x0800, edx := drive } answer.2 := ⟨_, rfl⟩
      have holderChanges : ChangesOnly own answer.2.state.memory older.2.state.memory := by
        rw [holder]
        exact hfirmware.quiet _ _ (Or.inr (Or.inl (by simp [BiosIntRegisters.function])))
      have hall := hread.trans (holderChanges.mono Set.subset_union_left)
      simp only [biosdiskI386GetDiskGeometry, hext, ← holder] at hrun
      split at hrun <;> obtain ⟨rfl, rfl⟩ := Prod.mk.inj hrun
      · exact ⟨hall, fun g hg => by cases hg⟩
      · refine ⟨hall, fun g hg => ?_⟩
        rw [Option.some.injEq] at hg
        rw [hsize, ← hg]
        rfl

/-- The bytes that a read may change. -/
def changedByRead (own : Set ℕ) (bytesPerSector count buffer : ℕ) : Set ℕ :=
  own ∪ Set.Ico biosCallBuffer (biosCallBuffer + biosCallBufferSize) ∪
    Set.Ico buffer (buffer + count * bytesPerSector)

/-- The buffer is in the first mebibyte, or above it inside the address space. -/
def Reachable (bytesPerSector count buffer : ℕ) : Prop :=
  buffer + count * bytesPerSector ≤ 2 ^ 20 ∨
    2 ^ 20 < buffer ∧ buffer + count * bytesPerSector ≤ 2 ^ 32

/-- Whatever a read returns, it changes the buffer, the buffer for calls and the firmware's
own memory only.  If it reports success, the sectors are in the buffer; it stops only when
more than the buffer for calls holds is to be read above 1 MiB. -/
structure ReadsFaithfully (interrupt : Interrupt φ) (disk : ℕ → UInt8) (bytesPerSector : ℕ)
    (own : Set ℕ) (fuel drive start count buffer : ℕ) (machine : Machine (BiosState φ)) :
    Prop where
  returns : ∀ success machine',
    biosdiskI386ReadSectors interrupt fuel drive start count buffer machine =
      .ok (success, machine') →
    ChangesOnly (changedByRead own bytesPerSector count buffer) machine.state.memory
        machine'.state.memory ∧
      (success = true →
        Delivered disk bytesPerSector start count buffer machine'.state.memory)
  stops : ∀ halt,
    biosdiskI386ReadSectors interrupt fuel drive start count buffer machine = .error halt →
    halt = tooLarge ∧ 2 ^ 20 < buffer ∧ biosCallBufferSize < count * bytesPerSector

theorem changedByLba_subset (hlength : length ≤ biosCallBufferSize) :
    own ∪ Set.Ico biosCallBuffer (biosCallBuffer + length) ∪
        Set.Ico buffer (buffer + count * bytesPerSector) ⊆
      changedByRead own bytesPerSector count buffer :=
  Set.union_subset_union_left _ (Set.union_subset_union_right _
    (Set.Ico_subset_Ico_right (Nat.add_le_add_left hlength _)))

include hfirmware hdrive in
/-- The firmware reaches the buffer. -/
theorem LbaFirmware.readsFaithfully_low (hstart : start < 2 ^ 64)
    (hend : buffer + count * bytesPerSector ≤ 2 ^ 20)
    (hbuffer : Disjoint (Set.Ico buffer (buffer + count * bytesPerSector)) own) :
    ReadsFaithfully interrupt disk bytesPerSector own fuel drive start count buffer machine := by
  have hbytes : count * 128 ≤ count * bytesPerSector :=
    Nat.mul_le_mul_left count hfirmware.bytesPerSector_ge
  have hcount : count < 2 ^ 16 := by omega
  have hlow : count = 0 ∨ buffer < 2 ^ 20 := by omega
  obtain ⟨success, machine', hread, hchanges, hdelivered⟩ :=
    hfirmware.readInto hdrive hstart hcount hlow fuel machine
  have hsectors : biosdiskI386ReadSectors interrupt fuel drive start count buffer machine =
      .ok (success, machine') := by
    rw [biosdiskI386ReadSectors, if_neg (by omega), hread]
  constructor
  · intro other after hcall
    rw [hsectors, Except.ok.injEq, Prod.mk.injEq] at hcall
    obtain ⟨rfl, rfl⟩ := hcall
    exact ⟨hchanges.mono (changedByLba_subset (by decide)),
      fun hsuccess => hdelivered hsuccess hbuffer⟩
  · intro halt hcall
    rw [hsectors] at hcall
    cases hcall

include hfirmware hdrive in
/-- The sectors come by way of the buffer for calls. -/
theorem LbaFirmware.readsFaithfully_high (hstart : start < 2 ^ 64) (hlow : 2 ^ 20 < buffer)
    (hend : buffer + count * bytesPerSector ≤ 2 ^ 32)
    (hown : Disjoint (Set.Ico biosCallBuffer (biosCallBuffer + biosCallBufferSize)) own) :
    ReadsFaithfully interrupt disk bytesPerSector own fuel drive start count buffer machine := by
  have habove : 0x100000 < buffer := hlow
  have hlength : u32 (count * bytesPerSector) = count * bytesPerSector := u32_of_lt (by omega)
  obtain ⟨⟨geometry, middle⟩, hgeometry⟩ : ∃ result, result =
    biosdiskI386GetDiskGeometry (memoryBios interrupt) drive machine := ⟨_, rfl⟩
  obtain ⟨hparameters, hbytesPerSector⟩ :=
    hfirmware.getDiskGeometry hdrive hgeometry.symm
  have hfirst := hparameters.mono (Set.subset_union_of_subset_left
    (Set.union_subset_union_right own (Set.Ico_subset_Ico_right
      (show biosCallBuffer + 30 ≤ biosCallBuffer + biosCallBufferSize by decide)))
    (Set.Ico buffer (buffer + count * bytesPerSector)))
  cases geometry with
  | none =>
      have hsectors : biosdiskI386ReadSectors interrupt fuel drive start count buffer machine =
          .ok (false, middle) := by
        rw [biosdiskI386ReadSectors, if_pos habove, ← hgeometry]
      constructor
      · intro other after hcall
        rw [hsectors, Except.ok.injEq, Prod.mk.injEq] at hcall
        obtain ⟨rfl, rfl⟩ := hcall
        exact ⟨hfirst, fun hsuccess => absurd hsuccess Bool.false_ne_true⟩
      · intro halt hcall
        rw [hsectors] at hcall
        cases hcall
  | some g =>
      have hg := hbytesPerSector g rfl
      by_cases hfits : biosCallBufferSize < count * bytesPerSector
      · have hsectors : biosdiskI386ReadSectors interrupt fuel drive start count buffer machine =
            .error tooLarge := by
          rw [biosdiskI386ReadSectors, if_pos habove, ← hgeometry]
          simp only [hg, hlength, if_pos hfits]
        constructor
        · intro other after hcall
          rw [hsectors] at hcall
          cases hcall
        · intro halt hcall
          rw [hsectors, Except.error.injEq] at hcall
          exact ⟨hcall.symm, hlow, hfits⟩
      · have hroom : count * bytesPerSector ≤ biosCallBufferSize := not_lt.mp hfits
        have hbytes : count * 128 ≤ count * bytesPerSector :=
          Nat.mul_le_mul_left count hfirmware.bytesPerSector_ge
        have hcount : count < 2 ^ 16 := by
          simp only [biosCallBufferSize] at hroom
          omega
        obtain ⟨success, after, hread, hchanges, hdelivered⟩ := hfirmware.readInto hdrive hstart
          hcount (Or.inr (show biosCallBuffer < 2 ^ 20 by decide)) fuel middle
        have hsectors : biosdiskI386ReadSectors interrupt fuel drive start count buffer machine =
            .ok (success, writeMemory (copyFromCallBuffer buffer (count * bytesPerSector))
              after) := by
          rw [biosdiskI386ReadSectors, if_pos habove, ← hgeometry]
          simp only [hg, hlength, if_neg hfits, hread, ok_bind]
        have hcallBuffer : Set.Ico biosCallBuffer (biosCallBuffer + count * bytesPerSector) ⊆
            Set.Ico biosCallBuffer (biosCallBuffer + biosCallBufferSize) :=
          Set.Ico_subset_Ico_right (Nat.add_le_add_left hroom _)
        have hsecond : ChangesOnly (changedByRead own bytesPerSector count buffer)
            middle.state.memory after.state.memory := hchanges.mono
          (Set.union_subset ((Set.union_subset_union_right own (Set.Ico_subset_Ico_right
            (show biosCallBuffer + 16 ≤ biosCallBuffer + biosCallBufferSize by decide))).trans
              Set.subset_union_left)
            ((hcallBuffer.trans Set.subset_union_right).trans Set.subset_union_left))
        have hcopy : ChangesOnly (Set.Ico buffer (buffer + count * bytesPerSector))
            after.state.memory
            (copyFromCallBuffer buffer (count * bytesPerSector) after.state.memory) :=
          changesOnly_writeBytes
        constructor
        · intro other last hcall
          rw [hsectors, Except.ok.injEq, Prod.mk.injEq] at hcall
          obtain ⟨rfl, rfl⟩ := hcall
          refine ⟨(hfirst.trans hsecond).trans (hcopy.mono Set.subset_union_right),
            fun hsuccess index hindex => ?_⟩
          have hwhole := hdelivered hsuccess (hown.mono_left hcallBuffer) index hindex
          have hcopied : copyFromCallBuffer buffer (count * bytesPerSector) after.state.memory
              (buffer + index) = after.state.memory (biosCallBuffer + index) :=
            writeBytes_add hindex
          exact hcopied.trans hwhole
        · intro halt hcall
          rw [hsectors] at hcall
          cases hcall

end Firmware

/-- A firmware with one disk of sectors of 512 bytes; it uses the memory below 0x500. -/
def oneDisk (disk : ℕ → UInt8) : Interrupt Unit := fun _ regs state =>
  if regs.function = 0x42 then
    ({ regs with flags := 0 },
      { state with
        memory := writeBytes state.memory (LbaPacket.load state.memory regs.pointer).target
          ((LbaPacket.load state.memory regs.pointer).numSectors * 512)
          fun index => disk ((LbaPacket.load state.memory regs.pointer).lba * 512 + index) })
  else if regs.function = 0x48 then
    ({ regs with flags := 0 },
      { state with
        memory := (⟨30, 0, 16, 16, 63, 16128, 512, 0⟩ : ExtendedDiskParameters).store
          regs.pointer state.memory })
  else ({ regs with flags := 0 }, state)

theorem oneDisk_lbaFirmware (disk : ℕ → UInt8) :
    LbaFirmware (oneDisk disk) 0x80 disk 512 (Set.Ico 0 0x500) where
  bytesPerSector_ge := by decide
  quiet := fun regs state hfunction => by
    have hread : regs.function ≠ 0x42 := by omega
    have hparameters : regs.function ≠ 0x48 := by omega
    rw [oneDisk, if_neg hread, if_neg hparameters]
    exact ChangesOnly.refl _ _
  supported := fun regs state hfunction _ _ => by
    rw [oneDisk, if_neg (by omega), if_neg (by omega)]
    rfl
  parameters := fun regs state hfunction _ => by
    have hchanges : ChangesOnly (Set.Ico regs.pointer (regs.pointer + 30)) state.memory
        ((⟨30, 0, 16, 16, 63, 16128, 512, 0⟩ : ExtendedDiskParameters).store regs.pointer
          state.memory) := changesOnly_writeBytes
    rw [oneDisk, if_neg (by omega), if_pos hfunction]
    refine ⟨hchanges.mono Set.subset_union_right, ?_⟩
    have hlow : (⟨30, 0, 16, 16, 63, 16128, 512, 0⟩ : ExtendedDiskParameters).store regs.pointer
        state.memory (regs.pointer + 24) = 0 := by
      rw [ExtendedDiskParameters.store, writeBytes_add (by decide)]
      decide
    have hhigh : (⟨30, 0, 16, 16, 63, 16128, 512, 0⟩ : ExtendedDiskParameters).store regs.pointer
        state.memory (regs.pointer + 25) = 2 := by
      rw [ExtendedDiskParameters.store, writeBytes_add (by decide)]
      decide
    simp [ExtendedDiskParameters.load, load16, hlow, hhigh, BiosIntRegisters.carry]
  read := fun regs state packet hfunction _ hpacket _ => by
    have hchanges : ChangesOnly
        (Set.Ico packet.target (packet.target + packet.numSectors * 512)) state.memory
        (writeBytes state.memory packet.target (packet.numSectors * 512)
          fun index => disk (packet.lba * 512 + index)) := changesOnly_writeBytes
    rw [oneDisk, if_pos hfunction, ← hpacket]
    refine ⟨hchanges.mono Set.subset_union_right, fun _ index hindex _ => ?_⟩
    dsimp only
    exact writeBytes_add hindex

end GeexOS.BiosDisk
