import GeexOS.Loader.BiosDisk

/-!
# Reads cover what was asked for

A round of the loop reads up to the end of a track.  The parts of its registers
give the number of the sector back, and the next round starts where this one
ended.
-/

namespace GeexOS.BiosDisk

open GeexOS.Words
open GeexOS.Halting

variable {σ : Type} {bios : Bios σ} {machine : Machine σ} {g : DiskGeometry}
variable {regs : BiosIntRegisters} {calls calls' : List BiosCall} {reads : List ChsRead}
variable {drive track head sector start count buffer value bound fuel : ℕ}

theorem u8_of_lt (hvalue : value < 256) : u8 value = value :=
  Nat.mod_eq_of_lt hvalue

/-! ## Histories -/

@[simp]
theorem readsOf_append : readsOf (calls ++ calls') = readsOf calls ++ readsOf calls' := by
  rw [readsOf, List.filter_append, List.map_append]
  rfl

@[simp]
theorem readsOf_nil : readsOf [] = [] := rfl

theorem readsOf_of_carry {call : BiosCall} (hcarry : call.after.carry = true) :
    readsOf [call] = [] := by
  simp [readsOf, BiosCall.reads, hcarry]

theorem readsOf_of_function {call : BiosCall} (hfunction : call.before.eax / 256 % 256 ≠ 2) :
    readsOf [call] = [] := by
  simp [readsOf, BiosCall.reads, hfunction]

theorem readsOf_of_success {after : BiosIntRegisters} (hfunction : regs.eax / 256 % 256 = 2)
    (hcarry : after.carry = false) : readsOf [⟨0x13, regs, after⟩] = [regs.chsRead] := by
  simp [readsOf, BiosCall.reads, hfunction, hcarry]

theorem calls_callInt (intNum : ℕ) :
    (callInt bios intNum regs machine).2.calls =
      machine.calls ++ [⟨intNum, regs, (callInt bios intNum regs machine).1⟩] := rfl

theorem calls_resetController :
    ∃ calls, (biosdiskI386ResetController bios drive machine).2.calls = machine.calls ++ calls ∧
      readsOf calls = [] :=
  ⟨_, calls_callInt 0x13, readsOf_of_function (by simp)⟩

/-- The tries end with at most one successful read, and tell whether there was
one. -/
theorem readTries_spec (hfunction : regs.eax / 256 % 256 = 2) (tries : ℕ) :
    ∃ success machine' calls,
      readTries bios drive regs tries machine = (success, machine') ∧
        machine'.calls = machine.calls ++ calls ∧
        readsOf calls = if success then [regs.chsRead] else [] := by
  induction tries generalizing machine with
  | zero => exact ⟨false, machine, [], rfl, (List.append_nil _).symm, rfl⟩
  | succ tries ih =>
      cases hcarry : (callInt bios 0x13 regs machine).1.carry with
      | false =>
          refine ⟨true, (callInt bios 0x13 regs machine).2,
            [⟨0x13, regs, (callInt bios 0x13 regs machine).1⟩], ?_, calls_callInt 0x13, ?_⟩
          · simp [readTries, hcarry]
          · rw [if_pos rfl]
            exact readsOf_of_success hfunction hcarry
      | true =>
          obtain ⟨resets, hresets, hnone⟩ := @calls_resetController σ bios
            (callInt bios 0x13 regs machine).2 drive
          obtain ⟨success, machine', calls, hrun, hcalls, hreads⟩ := @ih
            (biosdiskI386ResetController bios drive (callInt bios 0x13 regs machine).2).2
          refine ⟨success, machine',
            [⟨0x13, regs, (callInt bios 0x13 regs machine).1⟩] ++ (resets ++ calls), ?_, ?_, ?_⟩
          · rw [readTries, ← hrun]
            simp [hcarry]
          · rw [hcalls, hresets, calls_callInt, List.append_assoc, List.append_assoc]
          · rw [readsOf_append, readsOf_append, readsOf_of_carry hcarry, hnone, hreads]
            rfl

/-! ## The registers of a round -/

theorem eax_chsRegisters (hcount : count < 256) :
    (chsRegisters drive track head sector count buffer).eax = 512 + count := by
  have hor : (2 <<< 8) + count = 2 <<< 8 ||| count :=
    Nat.shiftLeft_add_eq_or_of_lt (by simpa using hcount) 2
  exact hor.symm

theorem edx_chsRegisters (hdrive : drive < 256) :
    (chsRegisters drive track head sector count buffer).edx = head * 256 + drive := by
  have hor : (head <<< 8) + drive = head <<< 8 ||| drive :=
    Nat.shiftLeft_add_eq_or_of_lt (by simpa using hdrive) head
  calc (chsRegisters drive track head sector count buffer).edx
      = head <<< 8 ||| drive := rfl
    _ = (head <<< 8) + drive := hor.symm
    _ = head * 256 + drive := by rw [Nat.shiftLeft_eq]

theorem ecx_chsRegisters (htrack : track < 1024) (hsector : sector < 64) :
    (chsRegisters drive track head sector count buffer).ecx =
      track % 256 * 256 + (sector + track / 256 * 64) := by
  have hlow : track &&& 0xFF = track % 256 := Nat.and_two_pow_sub_one_eq_mod track 8
  have hhigh : track &&& 0x300 = track / 2 ^ 8 * 2 ^ 8 :=
    @land_mask track 8 10 htrack (by norm_num)
  have hshift : (track &&& 0x300) >>> 2 = track / 256 * 64 := by
    rw [hhigh, Nat.shiftRight_eq_div_pow]
    omega
  have hbyte : sector + track / 256 * 64 < 256 := by omega
  have hor : ((track % 256) <<< 8) + (sector + track / 256 * 64) =
      (track % 256) <<< 8 ||| (sector + track / 256 * 64) :=
    Nat.shiftLeft_add_eq_or_of_lt (by simpa using hbyte) _
  calc (chsRegisters drive track head sector count buffer).ecx
      = (track &&& 0xFF) <<< 8 ||| u8 (sector + (track &&& 0x300) >>> 2) := rfl
    _ = (track % 256) <<< 8 ||| (sector + track / 256 * 64) := by
        rw [hlow, hshift, u8_of_lt hbyte]
    _ = ((track % 256) <<< 8) + (sector + track / 256 * 64) := hor.symm
    _ = track % 256 * 256 + (sector + track / 256 * 64) := by rw [Nat.shiftLeft_eq]

/-- The packed cylinder is read back. -/
theorem chsRead_chsRegisters (hdrive : drive < 256) (htrack : track < 1024) (hhead : head < 256)
    (hsector : sector < 64) (hcount : count < 256) :
    (chsRegisters drive track head sector count buffer).chsRead =
      ⟨drive, track, head, sector, count, u16 (buffer / 16) * 16 + buffer % 16⟩ := by
  have haddress : (chsRegisters drive track head sector count buffer).es * 16 +
      (chsRegisters drive track head sector count buffer).ebx % 2 ^ 16 =
        u16 (buffer / 16) * 16 + buffer % 16 := by
    have hoffset : buffer &&& 0x0F = buffer % 16 := Nat.and_two_pow_sub_one_eq_mod buffer 4
    have hsegment : buffer >>> 4 = buffer / 16 := Nat.shiftRight_eq_div_pow buffer 4
    rw [chsRegisters, hoffset, hsegment]
    simp only [u16]
    omega
  rw [BiosIntRegisters.chsRead, haddress, eax_chsRegisters hcount, edx_chsRegisters hdrive,
    ecx_chsRegisters htrack hsector, ChsRead.mk.injEq]
  have hlow : (track % 256 * 256 + (sector + track / 256 * 64)) / 256 = track % 256 := by omega
  have hhigh : (track % 256 * 256 + (sector + track / 256 * 64)) / 64 =
      track % 256 * 4 + track / 256 := by
    omega
  have hcylinder : (track % 256 * 4 + track / 256) % 4 = track / 256 := by omega
  refine ⟨by omega, ?_, by omega, by omega, by omega, rfl⟩
  rw [hlow, hhigh, hcylinder, Nat.mod_mod, Nat.mod_add_div]

theorem address_of_lt (hbuffer : buffer < 2 ^ 20) :
    u16 (buffer / 16) * 16 + buffer % 16 = buffer := by
  simp only [u16]
  omega

/-! ## One round -/

/-- The length of a round: up to the end of the track. -/
def roundCount (g : DiskGeometry) (start count : ℕ) : ℕ :=
  min count (g.sectorsPerTrack - start % g.sectorsPerTrack)

namespace ChsGeometry

theorem physicalSector_eq (hg : ChsGeometry g) :
    physicalSector g start = start % g.sectorsPerTrack + 1 := by
  have hmod : start % g.sectorsPerTrack < g.sectorsPerTrack := Nat.mod_lt _ hg.sectors_pos
  have hle := hg.sectors_le
  have hnarrow : u8 (start % g.sectorsPerTrack) = start % g.sectorsPerTrack :=
    u8_of_lt (by omega)
  rw [physicalSector, hnarrow, u8_of_lt (by omega), Nat.add_comm]

theorem physicalHead_eq (hg : ChsGeometry g) :
    physicalHead g start = start / g.sectorsPerTrack % g.heads :=
  u8_of_lt ((Nat.mod_lt _ hg.heads_pos).trans_le hg.heads_le)

/-- The separate code for the first sector of a track computes the same. -/
theorem numberOfSectorsToRead_eq (hg : ChsGeometry g) :
    numberOfSectorsToRead g count (start % g.sectorsPerTrack + 1) =
      roundCount g start count := by
  have hmod : start % g.sectorsPerTrack < g.sectorsPerTrack := Nat.mod_lt _ hg.sectors_pos
  have hle := hg.sectors_le
  have hrest : sub32 g.sectorsPerTrack (start % g.sectorsPerTrack + 1 - 1) =
      g.sectorsPerTrack - start % g.sectorsPerTrack := by
    rw [Nat.add_sub_cancel]
    exact sub32_of_le (by omega) hmod.le
  rw [numberOfSectorsToRead, hrest, roundCount]
  by_cases hfirst : start % g.sectorsPerTrack = 0
  · rw [hfirst, if_neg (by omega), Nat.sub_zero]
    split_ifs with hcount
    · rw [u8_of_lt (by omega), min_eq_right hcount]
    · rw [u8_of_lt (by omega), min_eq_left (by omega)]
  · rw [if_pos (by omega)]
    split_ifs with hcount
    · rw [u8_of_lt (by omega), min_eq_right hcount]
    · rw [u8_of_lt (by omega), min_eq_left (by omega)]

theorem physicalTrack_lt_iff (hg : ChsGeometry g) :
    physicalTrack g start < g.cylinders ↔ start < g.capacity := by
  rw [physicalTrack, Nat.div_lt_iff_lt_mul hg.heads_pos, Nat.div_lt_iff_lt_mul hg.sectors_pos,
    DiskGeometry.capacity]

end ChsGeometry

/-- The place within the geometry gives the number back. -/
theorem lba_eq (g : DiskGeometry) (start : ℕ) {read : ChsRead}
    (hcylinder : read.cylinder = physicalTrack g start)
    (hhead : read.head = start / g.sectorsPerTrack % g.heads)
    (hsector : read.sector = start % g.sectorsPerTrack + 1) : read.lba g = start := by
  rw [ChsRead.lba, hcylinder, hhead, hsector, Nat.add_sub_cancel, physicalTrack]
  calc (start / g.sectorsPerTrack / g.heads * g.heads + start / g.sectorsPerTrack % g.heads) *
        g.sectorsPerTrack + start % g.sectorsPerTrack
      = start / g.sectorsPerTrack * g.sectorsPerTrack + start % g.sectorsPerTrack := by
        rw [Nat.div_add_mod']
    _ = start := Nat.div_add_mod' _ _

/-- What a read within a track reads lies on the disk. -/
theorem ChsRead.InTrack.lt_capacity {read : ChsRead} {lba : ℕ} (htrack : read.InTrack g)
    (hlba : lba ∈ read.sectors g) : lba < g.capacity := by
  obtain ⟨-, hlt⟩ := List.mem_range'_1.mp hlba
  have hend := htrack.end_le
  have hhead : read.head + 1 ≤ g.heads := htrack.head_lt
  have hcylinder : read.cylinder + 1 ≤ g.cylinders := htrack.cylinder_lt
  calc lba < (read.cylinder * g.heads + read.head) * g.sectorsPerTrack +
        (read.sector - 1) + read.count := hlt
    _ ≤ (read.cylinder * g.heads + (read.head + 1)) * g.sectorsPerTrack := by
        rw [← Nat.add_assoc, Nat.add_mul _ 1, Nat.one_mul]
        omega
    _ ≤ ((read.cylinder + 1) * g.heads) * g.sectorsPerTrack := by
        rw [Nat.add_mul _ 1, Nat.one_mul]
        gcongr
    _ ≤ g.capacity := by
        rw [DiskGeometry.capacity]
        gcongr

/-! ## Reads in a row -/

namespace Covers

theorem nil : Covers g drive start 0 buffer [] where
  drive_eq := List.forall_mem_nil _
  inTrack := List.forall_mem_nil _
  sectors_eq := rfl
  transfers_eq := fun _ => rfl

theorem lt_capacity {lba : ℕ} (hcovers : Covers g drive start count buffer reads)
    (hlow : start ≤ lba) (hhigh : lba < start + count) : lba < g.capacity := by
  have hmem : lba ∈ reads.flatMap (ChsRead.sectors g) := by
    rw [hcovers.sectors_eq]
    exact List.mem_range'_1.mpr ⟨hlow, hhigh⟩
  obtain ⟨read, hread, hsector⟩ := List.mem_flatMap.mp hmem
  exact (hcovers.inTrack read hread).lt_capacity hsector

/-- A read in front of reads that go on behind it. -/
theorem cons {read : ChsRead} {rest : ℕ} (hdrive : read.drive = drive) (htrack : read.InTrack g)
    (hlba : read.lba g = start) (haddress : 0 < g.bytesPerSector → read.address = buffer)
    (hrest : Covers g drive (start + read.count) rest
      (buffer + read.count * g.bytesPerSector) reads) :
    Covers g drive start (read.count + rest) buffer (read :: reads) where
  drive_eq := List.forall_mem_cons.mpr ⟨hdrive, hrest.drive_eq⟩
  inTrack := List.forall_mem_cons.mpr ⟨htrack, hrest.inTrack⟩
  sectors_eq := by
    rw [List.flatMap_cons, hrest.sectors_eq, ChsRead.sectors, hlba, List.range'_append_1]
  transfers_eq := fun hbytes => by
    rw [List.flatMap_cons, hrest.transfers_eq hbytes, ChsRead.transfers, hlba, haddress hbytes,
      List.range_add, List.map_append, List.map_map]
    congr 1
    refine List.map_congr_left fun index _ => ?_
    simp only [Function.comp_apply, Prod.mk.injEq]
    constructor
    · omega
    · ring

end Covers

/-! ## The loop -/

/-- A round makes progress and ends on its track. -/
theorem roundCount_bounds (hg : ChsGeometry g) (start : ℕ) (hcount : 0 < count) :
    1 ≤ roundCount g start count ∧ roundCount g start count ≤ count ∧
      start % g.sectorsPerTrack + roundCount g start count ≤ g.sectorsPerTrack := by
  have hmod : start % g.sectorsPerTrack < g.sectorsPerTrack := Nat.mod_lt _ hg.sectors_pos
  simp only [roundCount]
  omega

/-- The bounds check accepts a round that starts on the disk. -/
theorem ChsGeometry.accepts (hg : ChsGeometry g) (hinside : start < g.capacity)
    (hend : start % g.sectorsPerTrack + count ≤ g.sectorsPerTrack) :
    ¬ (g.heads ≤ start / g.sectorsPerTrack % g.heads ∨
      g.cylinders ≤ physicalTrack g start ∨
      u32 (g.sectorsPerTrack + 1) < count + (start % g.sectorsPerTrack + 1) ∨
      g.sectorsPerTrack < start % g.sectorsPerTrack + 1) := by
  have hmod : start % g.sectorsPerTrack < g.sectorsPerTrack := Nat.mod_lt _ hg.sectors_pos
  have hmodHead : start / g.sectorsPerTrack % g.heads < g.heads := Nat.mod_lt _ hg.heads_pos
  have htrack := hg.physicalTrack_lt_iff.mpr hinside
  have hsectors := hg.sectors_le
  rw [u32_of_lt (by omega)]
  omega

/-- The registers of a round. -/
def roundRegisters (g : DiskGeometry) (drive start count buffer : ℕ) : BiosIntRegisters :=
  chsRegisters drive (physicalTrack g start) (start / g.sectorsPerTrack % g.heads)
    (start % g.sectorsPerTrack + 1) (roundCount g start count) buffer

/-- A round, followed by reads that go on behind it. -/
theorem Covers.round (hg : ChsGeometry g) (hdrive : drive < 256) (hcount : 0 < count)
    (hinside : start < g.capacity) (hbuffer : buffer + count * g.bytesPerSector ≤ 2 ^ 20)
    (hrest : Covers g drive (start + roundCount g start count) (count - roundCount g start count)
      (buffer + roundCount g start count * g.bytesPerSector) reads) :
    Covers g drive start count buffer
      ((roundRegisters g drive start count buffer).chsRead :: reads) := by
  obtain ⟨-, hasked, hend⟩ := roundCount_bounds hg start hcount
  have hmod : start % g.sectorsPerTrack + 1 ≤ g.sectorsPerTrack :=
    Nat.mod_lt _ hg.sectors_pos
  have hmodHead : start / g.sectorsPerTrack % g.heads < g.heads := Nat.mod_lt _ hg.heads_pos
  have hsectors := hg.sectors_le
  have htrack := hg.physicalTrack_lt_iff.mpr hinside
  obtain ⟨read, hread⟩ : ∃ read, read = (roundRegisters g drive start count buffer).chsRead :=
    ⟨_, rfl⟩
  have hdenotes := hread
  rw [roundRegisters, chsRead_chsRegisters hdrive (htrack.trans_le hg.cylinders_le)
    (hmodHead.trans_le hg.heads_le) (by omega) (by omega)] at hdenotes
  have hlength : read.count = roundCount g start count := by rw [hdenotes]
  have hcons := @Covers.cons g reads drive start buffer read (count - roundCount g start count)
  rw [hlength, Nat.add_sub_of_le hasked] at hcons
  rw [← hread]
  refine hcons (by rw [hdenotes]) ?_ ?_ (fun hbytes => ?_) hrest
  · rw [hdenotes]
    exact ⟨htrack, hmodHead, Nat.le_add_left _ _, hmod, by simpa using hend⟩
  · exact lba_eq g start (by rw [hdenotes]) (by rw [hdenotes]) (by rw [hdenotes])
  · rw [hdenotes]
    have hdata : 1 ≤ count * g.bytesPerSector := Nat.mul_pos hcount hbytes
    exact address_of_lt (by omega)

/-- What lies behind the last cylinder is not read. -/
theorem chsLoop_beyond (hg : ChsGeometry g) (hpos : 0 < count) (hrange : start + count ≤ 2 ^ 32)
    (hbeyond : ¬ start < g.capacity) :
    chsLoop bios drive g (fuel + 1) (u32 start) count buffer machine = .ok (false, machine) := by
  have hspt := hg.sectors_pos
  have hheads := hg.heads_pos
  have hstart : u32 start = start := u32_of_lt (by omega)
  have htrack := not_lt.mp fun hlt => hbeyond (hg.physicalTrack_lt_iff.mp hlt)
  rw [chsLoop, if_neg hpos.ne', if_neg (by omega), hstart]
  exact if_pos (Or.inr (Or.inl htrack))

/-- A round of the loop. -/
theorem chsLoop_round {success : Bool} {machine₁ : Machine σ} (hg : ChsGeometry g)
    (hpos : 0 < count) (hcount : count < 2 ^ 32) (hrange : start + count ≤ 2 ^ 32)
    (hbuffer : buffer + count * g.bytesPerSector ≤ 2 ^ 20) (hinside : start < g.capacity)
    (hrun : readTries bios drive (roundRegisters g drive start count buffer) 3 machine =
      (success, machine₁)) :
    chsLoop bios drive g (fuel + 1) (u32 start) count buffer machine =
      if success then
        chsLoop bios drive g fuel (u32 (start + roundCount g start count))
          (count - roundCount g start count)
          (buffer + roundCount g start count * g.bytesPerSector) machine₁
      else .ok (false, machine₁) := by
  have hspt := hg.sectors_pos
  have hheads := hg.heads_pos
  have hstart : u32 start = start := u32_of_lt (by omega)
  obtain ⟨-, hasked, hend⟩ := roundCount_bounds hg start hpos
  have hbytes : roundCount g start count * g.bytesPerSector ≤ count * g.bytesPerSector :=
    Nat.mul_le_mul_right _ hasked
  rw [roundRegisters] at hrun
  rw [chsLoop, if_neg hpos.ne', if_neg (by omega), hstart]
  simp only [hg.physicalSector_eq, hg.physicalHead_eq, hg.numberOfSectorsToRead_eq]
  rw [if_neg (hg.accepts hinside hend), hrun, sub32_of_le hcount hasked,
    @u32_of_lt (roundCount g start count * g.bytesPerSector) (by omega),
    @u32_of_lt (buffer + roundCount g start count * g.bytesPerSector) (by omega)]
  cases success <;> rfl

/-- The loop comes to its end, and where it reports success its reads cover what
was asked for. -/
theorem chsLoop_spec (hg : ChsGeometry g) (hdrive : drive < 256) (hfuel : count < fuel)
    (hcount : count < 2 ^ 32) (hrange : start + count ≤ 2 ^ 32)
    (hbuffer : buffer + count * g.bytesPerSector ≤ 2 ^ 20) :
    ∃ success machine' calls,
      chsLoop bios drive g fuel (u32 start) count buffer machine = .ok (success, machine') ∧
        machine'.calls = machine.calls ++ calls ∧
        (success = true → Covers g drive start count buffer (readsOf calls)) := by
  induction fuel generalizing start count buffer machine with
  | zero => exact absurd hfuel (Nat.not_lt_zero _)
  | succ fuel ih =>
      by_cases hzero : count = 0
      · subst hzero
        exact ⟨true, machine, [], by rw [chsLoop, if_pos rfl], (List.append_nil _).symm,
          fun _ => Covers.nil⟩
      have hpos := Nat.pos_of_ne_zero hzero
      by_cases hinside : start < g.capacity
      swap
      · exact ⟨false, machine, [], chsLoop_beyond hg hpos hrange hinside,
          (List.append_nil _).symm, fun hsuccess => absurd hsuccess Bool.false_ne_true⟩
      obtain ⟨hnonempty, hasked, hend⟩ := roundCount_bounds hg start hpos
      have hsectors := hg.sectors_le
      obtain ⟨success, machine₁, calls₁, hrun, hcalls, hreads⟩ := @readTries_spec σ bios machine
        (roundRegisters g drive start count buffer) drive
        (by rw [roundRegisters, eax_chsRegisters (by omega)]; omega) 3
      rw [chsLoop_round hg hpos hcount hrange hbuffer hinside hrun]
      cases success with
      | false =>
          exact ⟨false, machine₁, calls₁, rfl, hcalls,
            fun hsuccess => absurd hsuccess Bool.false_ne_true⟩
      | true =>
          have hbytes : roundCount g start count * g.bytesPerSector +
              (count - roundCount g start count) * g.bytesPerSector =
                count * g.bytesPerSector := by
            rw [← Nat.add_mul, Nat.add_sub_of_le hasked]
          obtain ⟨success, machine', calls₂, hloop, hcalls', hresult⟩ := @ih
            machine₁ (start + roundCount g start count) (count - roundCount g start count)
            (buffer + roundCount g start count * g.bytesPerSector)
            (by omega) (by omega) (by omega) (by omega)
          refine ⟨success, machine', calls₁ ++ calls₂, hloop, ?_, fun hsuccess => ?_⟩
          · rw [hcalls', hcalls, List.append_assoc]
          · rw [readsOf_append, hreads]
            exact Covers.round hg hdrive hpos hinside hbuffer (hresult hsuccess)

/-- Reads by cylinder, head and sector cover exactly what was asked for, and
nothing beyond the geometry is reported as read. -/
theorem biosdiskI386ReadChs_covers {machine₀ : Machine σ}
    (hgeometry : biosdiskI386GetDiskGeometry bios drive machine = (some g, machine₀))
    (hg : ChsGeometry g) (hdrive : drive < 2 ^ 8) (hcount : count < 2 ^ 32)
    (hrange : start + count ≤ 2 ^ 32) (hbuffer : buffer + count * g.bytesPerSector ≤ 2 ^ 20)
    (hfuel : count < fuel) :
    ∃ success machine' calls,
      biosdiskI386ReadChs bios fuel drive start count buffer machine = .ok (success, machine') ∧
        machine'.calls = machine₀.calls ++ calls ∧
        (success = true → Covers g drive start count buffer (readsOf calls)) ∧
        ((∃ lba, start ≤ lba ∧ lba < start + count ∧ g.capacity ≤ lba) → success = false) := by
  obtain ⟨success, machine', calls, hrun, hcalls, hcovers⟩ := @chsLoop_spec σ bios machine₀ g
    drive start count buffer fuel hg hdrive hfuel hcount hrange hbuffer
  refine ⟨success, machine', calls, ?_, hcalls, hcovers, ?_⟩
  · rw [biosdiskI386ReadChs, hgeometry]
    exact hrun
  · rintro ⟨lba, hlow, hhigh, hbeyond⟩
    by_contra hsuccess
    have hinside := (hcovers (Bool.of_not_eq_false hsuccess)).lt_capacity hlow hhigh
    omega

/-- A firmware without the extensions, with a floppy of 80 cylinders, two heads
and 18 sectors. -/
def floppyBios : Bios Unit where
  interrupt := fun _ regs state =>
    if regs.eax / 256 = 0x41 then ({ regs with flags := 1 }, state)
    else if regs.eax / 256 = 0x08 then ({ regs with ecx := 0x4F12, ebx := 0x0100 }, state)
    else (regs, state)
  loadParameters := fun _ => ⟨0, 0, 0, 0, 0, 0, 0, 0⟩
  storeParameters := fun _ state => state

def floppyGeometry : DiskGeometry := ⟨2, 80, 18, 2880, 512⟩

/-- The machine when the geometry is known. -/
def floppyMachine : Machine Unit :=
  (biosdiskI386GetDiskGeometry floppyBios 0 ⟨(), []⟩).2

theorem biosdiskI386ReadChs_covers_floppy :
    ∃ success machine' calls,
      biosdiskI386ReadChs floppyBios 41 0 30 40 0x1000 ⟨(), []⟩ = .ok (success, machine') ∧
        machine'.calls = floppyMachine.calls ++ calls ∧
        (success = true → Covers floppyGeometry 0 30 40 0x1000 (readsOf calls)) ∧
        ((∃ lba, 30 ≤ lba ∧ lba < 30 + 40 ∧ floppyGeometry.capacity ≤ lba) →
          success = false) :=
  @biosdiskI386ReadChs_covers Unit floppyBios ⟨(), []⟩ floppyGeometry 0 30 40 0x1000 41
    floppyMachine rfl ⟨by decide, by decide, by decide, by decide, by decide⟩
    (by decide) (by decide) (by decide) (by decide) (by decide)

/-- The read above is made in three rounds. -/
example :
    (match biosdiskI386ReadChs floppyBios 41 0 30 40 0x1000 ⟨(), []⟩ with
      | .ok (success, machine) => (success, readsOf machine.calls)
      | .error _ => (false, [])) =
    (true, [⟨0, 0, 1, 13, 6, 0x1000⟩, ⟨0, 1, 0, 1, 18, 0x1C00⟩, ⟨0, 1, 1, 1, 16, 0x4000⟩]) := by
  decide +kernel

end GeexOS.BiosDisk
