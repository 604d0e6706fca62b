import GeexOS.Loader.GdbReplies

/-!
# Setting one register

The debugger sets a register, or lets the program go on at an address, in the
copy that the stub keeps, and then all sixteen registers go back to the trap
frame.  The copy is that of the last request for the registers, which may have
been made at an earlier stop or never.
-/

namespace GeexOS.Gdb

open GeexOS.Words
open GeexOS.ByteMemory

/-! ## What is asked for -/

/-- A request that sets a register, or one that goes on at an address. -/
inductive RegisterWrite where
  | one (regno value : ℕ)
  | resume (address : ℕ) (stepping : Bool)
  deriving DecidableEq, Repr

/-- The number of some hexadecimal digits, in 32 bits. -/
def numberOf (digits : List Int8) : ℕ :=
  digits.foldl (fun value ch => u32 (value <<< 4) ||| (hex ch).toNat) 0

/-- The word whose bytes are written with two digits each, the lowest one first. -/
def registerValue (digits : List Int8) : ℕ :=
  load32 (fun index => hexByte (digits.getD (2 * index) 0) (digits.getD (2 * index + 1) 0)) 0

/-- Two hexadecimal digits are a byte in the usual way. -/
theorem hexByte_toNat {high low : Int8} (hhigh : 0 ≤ hex high) (hlow : 0 ≤ hex low) :
    ((hexByte high low).toNat : ℤ) = hex high * 16 + hex low :=
  digits_toNat hhigh hlow

/-- The characters say which register gets which value, or where to go on. -/
def RegisterWrite.SentBy (filled : List Int8) : RegisterWrite → Prop
  | .one regno value => ∃ number digits rest,
      filled = chr 'P' :: number ++ chr '=' :: digits ++ rest ∧
        number ≠ [] ∧ (∀ ch ∈ number, 0 ≤ hex ch) ∧ numberOf number = regno ∧
        regno < NUMREGS ∧ digits.length = 8 ∧ registerValue digits = value
  | .resume address stepping => ∃ number rest,
      filled = (if stepping then chr 's' else chr 'c') :: number ++ rest ∧
        number ≠ [] ∧ (∀ ch ∈ number, 0 ≤ hex ch) ∧ numberOf number = address ∧
        ∀ ch, rest.head? = some ch → hex ch < 0

/-- The place of a register in the trap frame. -/
def offsetTF (regno : ℕ) : ℕ := (registerConversion.map (·.offsetTF)).getD regno 0

/-- All bits but the trap flag. -/
def withoutTrapFlag (eflags : ℕ) : ℕ := eflags &&& 0xFFFFFEFF

namespace Layout

variable (layout : Layout)

/-- A register of the stopped program. -/
def register (memory : Memory) (regno : ℕ) : ℕ := load32 memory (layout.ctx + offsetTF regno)

/-- The stub's copy of a register. -/
def shadow (memory : Memory) (regno : ℕ) : ℕ := load32 memory (layout.gdbRegisters + 4 * regno)

/-- The fields of the trap frame that are no registers: `ex_no`, `err_code` and `useresp`. -/
def otherFields : List ℕ := [48, 52, 68]

end Layout

/-- What the request is to do with the trap frame: nothing but the one change. -/
def RegisterWrite.Performed (layout : Layout) (before after : Memory) : RegisterWrite → Prop
  | .one regno value =>
      layout.register after regno = value ∧
      (∀ other < NUMREGS, other ≠ regno →
        layout.register after other = layout.register before other) ∧
      ∀ offset ∈ Layout.otherFields,
        load32 after (layout.ctx + offset) = load32 before (layout.ctx + offset)
  | .resume address stepping =>
      layout.register after 8 = address ∧
      layout.register after 9 =
        withoutTrapFlag (layout.register before 9) ||| (if stepping then 0x100 else 0) ∧
      (∀ other < NUMREGS, other ≠ 8 → other ≠ 9 →
        layout.register after other = layout.register before other) ∧
      ∀ offset ∈ Layout.otherFields,
        load32 after (layout.ctx + offset) = load32 before (layout.ctx + offset)

/-- The stub's copy agrees with the trap frame in the registers that are not to change. -/
def RegisterWrite.CopyAgrees (layout : Layout) (memory : Memory) : RegisterWrite → Prop
  | .one regno _ => ∀ other < NUMREGS, other ≠ regno →
      layout.shadow memory other = layout.register memory other
  | .resume _ _ =>
      (∀ other < NUMREGS, other ≠ 8 → other ≠ 9 →
        layout.shadow memory other = layout.register memory other) ∧
      withoutTrapFlag (layout.shadow memory 9) = withoutTrapFlag (layout.register memory 9)

/-- Areas without a common byte. -/
def Apart (first length second length' : ℕ) : Prop :=
  first + length ≤ second ∨ second + length' ≤ first

/-- The arrays and the trap frame lie in the address space, apart from each other. -/
structure Layout.Separate (layout : Layout) : Prop where
  input_end : layout.inputBuffer + BUFMAX ≤ 2 ^ 32
  output_end : layout.outputBuffer + BUFMAX ≤ 2 ^ 32
  registers_end : layout.gdbRegisters + 64 ≤ 2 ^ 32
  ctx_end : layout.ctx + sizeofTrapframe ≤ 2 ^ 32
  input_output : Apart layout.inputBuffer BUFMAX layout.outputBuffer BUFMAX
  input_registers : Apart layout.inputBuffer BUFMAX layout.gdbRegisters 64
  input_ctx : Apart layout.inputBuffer BUFMAX layout.ctx sizeofTrapframe
  output_registers : Apart layout.outputBuffer BUFMAX layout.gdbRegisters 64
  output_ctx : Apart layout.outputBuffer BUFMAX layout.ctx sizeofTrapframe
  registers_ctx : Apart layout.gdbRegisters 64 layout.ctx sizeofTrapframe

variable {layout : Layout} {memory memory' before after : Memory} {state : StubState}
variable {regno offset : ℕ} {digits number rest filled : List Int8}

/-! ## Import and export -/

theorem offsetTF_bounds (hregno : regno < NUMREGS) : offsetTF regno + 4 ≤ sizeofTrapframe := by
  have hall : ∀ regno < 16, offsetTF regno + 4 ≤ 76 := by decide
  exact hall regno hregno

namespace Layout

theorem mem_registerConversion (hregno : regno < NUMREGS) :
    (⟨4, offsetTF regno, 4 * regno⟩ : RegisterConversion) ∈ registerConversion := by
  have hall : ∀ regno < 16,
      (⟨4, offsetTF regno, 4 * regno⟩ : RegisterConversion) ∈ registerConversion := by decide
  exact hall regno hregno

theorem registerConversion_bounds : ∀ item ∈ registerConversion,
    item.size = 4 ∧ item.offsetTF + 4 ≤ 76 ∧ item.offsetGDB + 4 ≤ 64 := by
  decide

theorem registerConversion_pairwise : registerConversion.Pairwise fun left right =>
    (left.offsetTF + left.size ≤ right.offsetTF ∨ right.offsetTF + right.size ≤ left.offsetTF) ∧
      (left.offsetGDB + left.size ≤ right.offsetGDB ∨
        right.offsetGDB + right.size ≤ left.offsetGDB) := by
  decide

theorem exportRegisters_eq (layout : Layout) (memory : Memory) :
    layout.exportRegisters memory =
      copyAll (fun item => layout.ctx + item.offsetTF)
        (fun item => layout.gdbRegisters + item.offsetGDB) RegisterConversion.size
        registerConversion memory :=
  rfl

theorem importRegisters_eq (layout : Layout) (memory : Memory) :
    layout.importRegisters memory =
      copyAll (fun item => layout.gdbRegisters + item.offsetGDB)
        (fun item => layout.ctx + item.offsetTF) RegisterConversion.size
        registerConversion memory :=
  rfl

namespace Separate

variable (hlayout : layout.Separate)

include hlayout

/-- After the export, the trap frame has the registers of the copy. -/
theorem register_exportRegisters (hregno : regno < NUMREGS) :
    layout.register (layout.exportRegisters memory) regno = layout.shadow memory regno := by
  have hapart := hlayout.registers_ctx
  simp only [Apart, sizeofTrapframe] at hapart
  refine load32_eq_of_bytes fun index hindex => ?_
  rw [exportRegisters_eq]
  refine @copyAll_apply _ _ (fun item => layout.ctx + item.offsetTF)
    (fun item => layout.gdbRegisters + item.offsetGDB) RegisterConversion.size
    registerConversion ?_ ?_ _ (mem_registerConversion hregno) index hindex
  · refine registerConversion_pairwise.imp fun {left right} h => ?_
    omega
  · intro left hleft right hright
    have hleft := registerConversion_bounds left hleft
    have hright := registerConversion_bounds right hright
    omega

theorem shadow_exportRegisters (hregno : regno < NUMREGS) :
    layout.shadow (layout.exportRegisters memory) regno = layout.shadow memory regno := by
  have hapart := hlayout.registers_ctx
  simp only [Apart, sizeofTrapframe, NUMREGS] at hapart hregno
  refine load32_congr fun index hindex => ?_
  rw [exportRegisters_eq]
  refine copyAll_of_notMem fun item hitem => ?_
  have hbounds := registerConversion_bounds item hitem
  omega

omit hlayout in
theorem otherFields_exportRegisters (hoffset : offset ∈ otherFields) :
    load32 (layout.exportRegisters memory) (layout.ctx + offset) =
      load32 memory (layout.ctx + offset) := by
  have hnone : ∀ offset ∈ otherFields, ∀ item ∈ registerConversion,
      offset + 4 ≤ item.offsetTF ∨ item.offsetTF + item.size ≤ offset := by
    decide
  refine load32_congr fun index hindex => ?_
  rw [exportRegisters_eq]
  refine copyAll_of_notMem fun item hitem => ?_
  have hitem := hnone offset hoffset item hitem
  omega

/-- After the import, the copy agrees with the trap frame. -/
theorem shadow_importRegisters (hregno : regno < NUMREGS) :
    layout.shadow (layout.importRegisters memory) regno = layout.register memory regno := by
  have hapart := hlayout.registers_ctx
  simp only [Apart, sizeofTrapframe] at hapart
  refine load32_eq_of_bytes fun index hindex => ?_
  rw [importRegisters_eq]
  refine @copyAll_apply _ _ (fun item => layout.gdbRegisters + item.offsetGDB)
    (fun item => layout.ctx + item.offsetTF) RegisterConversion.size
    registerConversion ?_ ?_ _ (mem_registerConversion hregno) index hindex
  · refine registerConversion_pairwise.imp fun {left right} h => ?_
    omega
  · intro left hleft right hright
    have hleft := registerConversion_bounds left hleft
    have hright := registerConversion_bounds right hright
    omega

theorem register_importRegisters (hregno : regno < NUMREGS) :
    layout.register (layout.importRegisters memory) regno = layout.register memory regno := by
  have hapart := hlayout.registers_ctx
  have hbounds := offsetTF_bounds hregno
  simp only [Apart, sizeofTrapframe] at hapart hbounds
  refine load32_congr fun index hindex => ?_
  rw [importRegisters_eq]
  refine copyAll_of_notMem fun item hitem => ?_
  have hbounds := registerConversion_bounds item hitem
  omega

end Separate

end Layout

/-! ## What leaves both alone -/

/-- A byte of the trap frame or of the stub's copy. -/
def Layout.InRegisters (layout : Layout) (position : ℕ) : Prop :=
  layout.ctx ≤ position ∧ position < layout.ctx + sizeofTrapframe ∨
    layout.gdbRegisters ≤ position ∧ position < layout.gdbRegisters + 64

/-- Neither the trap frame nor the copy changes. -/
def Layout.KeepsRegisters (layout : Layout) (before after : Memory) : Prop :=
  ∀ position, layout.InRegisters position → after position = before position

namespace Layout

namespace KeepsRegisters

theorem refl (layout : Layout) (memory : Memory) : layout.KeepsRegisters memory memory :=
  fun _ _ => rfl

theorem trans {middle : Memory} (hfirst : layout.KeepsRegisters before middle)
    (hsecond : layout.KeepsRegisters middle after) : layout.KeepsRegisters before after :=
  fun position hposition => (hsecond position hposition).trans (hfirst position hposition)

theorem register_eq (hkeeps : layout.KeepsRegisters before after) (hregno : regno < NUMREGS) :
    layout.register after regno = layout.register before regno := by
  have hbounds := offsetTF_bounds hregno
  refine load32_congr fun index hindex => hkeeps _ (Or.inl ?_)
  omega

theorem shadow_eq (hkeeps : layout.KeepsRegisters before after) (hregno : regno < NUMREGS) :
    layout.shadow after regno = layout.shadow before regno := by
  rw [NUMREGS] at hregno
  refine load32_congr fun index hindex => hkeeps _ (Or.inr ?_)
  omega

theorem otherFields_eq (hkeeps : layout.KeepsRegisters before after)
    (hoffset : offset ∈ otherFields) :
    load32 after (layout.ctx + offset) = load32 before (layout.ctx + offset) := by
  have hall : ∀ offset ∈ otherFields, offset + 4 ≤ sizeofTrapframe := by decide
  have hbounds := hall offset hoffset
  refine load32_congr fun index hindex => hkeeps _ (Or.inl ?_)
  omega

end KeepsRegisters

namespace Separate

variable (hlayout : layout.Separate)

include hlayout

theorem keeps_writeOutput {index : ℕ} (hindex : index < BUFMAX) (ch : Int8)
    (state : StubState) :
    layout.KeepsRegisters state.memory (layout.writeOutput index ch state).memory := by
  intro position hposition
  have hend := hlayout.output_end
  have hregisters := hlayout.output_registers
  have hctx := hlayout.output_ctx
  have hword : u32 (layout.outputBuffer + index) = layout.outputBuffer + index :=
    u32_of_lt (by omega)
  refine Function.update_of_ne ?_ _ _
  rw [hword]
  simp only [InRegisters, Apart] at hposition hregisters hctx
  omega

theorem keeps_writeString {index : ℕ} {string : List Int8} (hfits : index + string.length < BUFMAX)
    (state : StubState) :
    layout.KeepsRegisters state.memory (layout.writeString index string state).memory := by
  induction string generalizing index state with
  | nil => exact hlayout.keeps_writeOutput hfits 0 state
  | cons ch rest ih =>
      rw [List.length_cons] at hfits
      exact (hlayout.keeps_writeOutput (by omega) ch state).trans
        (ih (by omega) (layout.writeOutput index ch state))

theorem keeps_mem2hexLoop {count mem index : ℕ} (hfits : index + 2 * count < BUFMAX)
    (state : StubState) :
    layout.KeepsRegisters state.memory (layout.mem2hexLoop count mem index state).2.memory := by
  induction count generalizing mem index state with
  | zero => exact hlayout.keeps_writeOutput hfits 0 state
  | succ count ih =>
      have hhigh := hlayout.keeps_writeOutput (show index < BUFMAX by omega)
        (digit ((state.memory (u32 mem)).toNat >>> 4)) state
      have hlow := hlayout.keeps_writeOutput (show index + 1 < BUFMAX by omega)
        (digit ((state.memory (u32 mem)).toNat % 16))
        (layout.writeOutput index (digit ((state.memory (u32 mem)).toNat >>> 4)) state)
      exact (hhigh.trans hlow).trans (ih (by omega) _)

theorem keeps_replyMemory {mem : ℕ} {count : ℤ} (hfits : 0 + 2 * count.toNat < BUFMAX)
    (state : StubState) :
    layout.KeepsRegisters state.memory (layout.replyMemory mem count state).memory :=
  hlayout.keeps_mem2hexLoop hfits state

/-- The buffer of a request that came in. -/
theorem keeps_receive (filled : List Int8) (memory : Memory) :
    layout.KeepsRegisters memory (writeBytes memory layout.inputBuffer BUFMAX fun index =>
      (filled.getD index 0).toUInt8) := by
  intro position hposition
  have hregisters := hlayout.input_registers
  have hctx := hlayout.input_ctx
  simp only [InRegisters, Apart] at hposition hregisters hctx
  exact writeBytes_of_notMem (by omega)

end Separate

end Layout

/-! ## Reading the request -/

theorem hexToIntLoop_eq (hnumber : ∀ ch ∈ number, 0 ≤ hex ch)
    (hrest : ∀ ch, rest.head? = some ch → hex ch < 0) (numChars intValue : ℕ) :
    hexToIntLoop (number ++ rest) numChars intValue =
      (numChars + number.length,
        number.foldl (fun value ch => u32 (value <<< 4) ||| (hex ch).toNat) intValue, rest) := by
  induction number generalizing numChars intValue with
  | nil =>
      cases rest with
      | nil => rfl
      | cons ch rest =>
          have hneg := hrest ch rfl
          rw [List.nil_append, hexToIntLoop, if_neg (by omega)]
          rfl
  | cons ch number ih =>
      obtain ⟨hch, hnumber⟩ := List.forall_mem_cons.mp hnumber
      rw [List.cons_append, hexToIntLoop, if_pos hch, ih hnumber, List.length_cons,
        List.foldl_cons]
      congr 1
      omega

/-- The number is read up to the first character that is no digit. -/
theorem hexToInt_eq (hnumber : ∀ ch ∈ number, 0 ≤ hex ch) (hne : number ≠ [])
    (hrest : ∀ ch, rest.head? = some ch → hex ch < 0) :
    ∃ numChars, hexToInt (number ++ rest) = (numChars + 1, numberOf number, rest) := by
  obtain ⟨first, others, rfl⟩ := List.exists_cons_of_ne_nil hne
  refine ⟨others.length, ?_⟩
  rw [hexToInt, hexToIntLoop_eq hnumber hrest, List.length_cons, Nat.zero_add]
  rfl

theorem numberOf_lt (digits : List Int8) : numberOf digits < 2 ^ 32 := by
  have hall : ∀ value < 2 ^ 32,
      digits.foldl (fun value ch => u32 (value <<< 4) ||| (hex ch).toNat) value < 2 ^ 32 := by
    induction digits with
    | nil => exact fun _ => id
    | cons ch rest ih =>
        intro value _
        have hle := hex_le ch
        exact ih _ (Nat.or_lt_two_pow (u32_lt _) (by omega))
  exact hall 0 (Nat.two_pow_pos 32)

theorem ne_zero_of_hex {ch : Int8} (hch : 0 ≤ hex ch) : ch ≠ 0 := by
  rintro rfl
  exact absurd hch (by decide)

theorem cString_append_of_ne (hnumber : ∀ ch ∈ number, ch ≠ 0) :
    cString (number ++ rest) = number ++ cString rest := by
  rw [cString, List.takeWhile_append_of_pos (by simpa using hnumber), cString]

theorem cString_cons_of_ne {ch : Int8} (hch : ch ≠ 0) :
    cString (ch :: rest) = ch :: cString rest :=
  List.takeWhile_cons_of_pos (by simpa using hch)

/-- What is not a digit in the buffer is not one in the string. -/
theorem head_cString (hrest : ∀ ch, rest.head? = some ch → hex ch < 0) (ch : Int8)
    (hhead : (cString rest).head? = some ch) : hex ch < 0 := by
  cases rest with
  | nil => cases hhead
  | cons first rest =>
      by_cases hzero : first = 0
      · rw [hzero, cString, List.takeWhile_cons_of_neg (by simp)] at hhead
        cases hhead
      · rw [cString_cons_of_ne hzero] at hhead
        exact hrest ch hhead

theorem hex2memLoop_eq {count mem buf : ℕ} (hmem : mem + count ≤ 2 ^ 32)
    (hbuf : buf + 2 * count ≤ 2 ^ 32) (hapart : Apart mem count buf (2 * count)) :
    hex2memLoop count mem buf memory =
      writeBytes memory mem count fun index =>
        hexByte (memory (buf + 2 * index)).toInt8 (memory (buf + 2 * index + 1)).toInt8 := by
  induction count generalizing mem buf memory with
  | zero =>
      funext position
      exact (writeBytes_of_notMem (by omega)).symm
  | succ count ih =>
      rw [Apart] at hapart
      have hwords : u32 mem = mem ∧ u32 buf = buf ∧ u32 (buf + 1) = buf + 1 :=
        ⟨u32_of_lt (by omega), u32_of_lt (by omega), u32_of_lt (by omega)⟩
      rw [hex2memLoop, ih (by omega) (by omega) (by rw [Apart]; omega), hwords.1, hwords.2.1,
        hwords.2.2]
      funext position
      by_cases hin : mem + 1 ≤ position ∧ position < mem + 1 + count
      · have hread : ∀ offset, mem ≠ buf + 2 + 2 * (position - (mem + 1)) + offset →
            Function.update memory mem (hexByte (memory buf).toInt8 (memory (buf + 1)).toInt8)
              (buf + 2 + 2 * (position - (mem + 1)) + offset) =
            memory (buf + 2 * (position - mem) + offset) := fun offset hne => by
          rw [Function.update_of_ne (Ne.symm hne)]
          congr 1
          omega
        rw [writeBytes_of_mem hin.1 hin.2, writeBytes_of_mem (by omega) (by omega),
          ← Nat.add_zero (buf + 2 + 2 * (position - (mem + 1))), hread 0 (by omega), Nat.add_zero,
          Nat.add_zero, hread 1 (by omega)]
      · rw [writeBytes_of_notMem (by omega)]
        by_cases heq : position = mem
        · rw [heq, Function.update_self, writeBytes_of_mem le_rfl (by omega), Nat.sub_self]
          rfl
        · rw [Function.update_of_ne heq, writeBytes_of_notMem (by omega)]

/-! ## One request -/

theorem signed_of_lt (hregno : regno < NUMREGS) : signed regno = regno := by
  have hall : ∀ regno < 16, signed regno = regno := by decide
  exact hall regno hregno

namespace Layout

/-- The state after the request has come in. -/
def received (layout : Layout) (filled : List Int8) (state : StubState) : StubState :=
  { layout.writeOutput 0 0 state with
    memory := writeBytes (layout.writeOutput 0 0 state).memory layout.inputBuffer BUFMAX
      fun index => (filled.getD index 0).toUInt8 }

theorem serve_eq (layout : Layout) (unixSignal : ℕ) (filled : List Int8) (state : StubState) :
    layout.serve unixSignal filled state =
      layout.dispatch unixSignal (cString filled) (layout.received filled state) :=
  rfl

theorem received_input (layout : Layout) (filled : List Int8) (state : StubState) {index : ℕ}
    (hindex : index < BUFMAX) :
    ((layout.received filled state).memory (layout.inputBuffer + index)).toInt8 =
      filled.getD index 0 := by
  have hread : (layout.received filled state).memory (layout.inputBuffer + index) =
      (filled.getD index 0).toUInt8 := by
    rw [received]
    dsimp only
    rw [writeBytes_of_mem (Nat.le_add_right _ _) (Nat.add_lt_add_left hindex _),
      Nat.add_sub_cancel_left]
  rw [hread, Int8.toInt8_toUInt8]

theorem Separate.keeps_received (hlayout : layout.Separate) (filled : List Int8)
    (state : StubState) :
    layout.KeepsRegisters state.memory (layout.received filled state).memory :=
  (hlayout.keeps_writeOutput (by decide) 0 state).trans (hlayout.keeps_receive filled _)

theorem dispatch_P (unixSignal : ℕ) (request : List Int8) :
    layout.dispatch unixSignal (chr 'P' :: request) state =
      (false, layout.setRegister (chr 'P' :: request) request state) := by
  rw [dispatch]
  repeat rw [if_neg (by decide)]
  rw [if_pos rfl]

theorem dispatch_resume (unixSignal : ℕ) (stepping : Bool) (request : List Int8) :
    layout.dispatch unixSignal ((if stepping then chr 's' else chr 'c') :: request) state =
      (true, { state with memory := layout.resume request stepping state.memory }) := by
  rw [dispatch]
  cases stepping <;> rfl

theorem setRegister_eq {request ptr tail : List Int8} {numChars : ℕ}
    (hread : hexToInt ptr = (numChars + 1, regno, chr '=' :: tail)) (hregno : regno < NUMREGS) :
    layout.setRegister request ptr state =
      layout.writeString 0 ok
        { state with
          memory := layout.exportRegisters (hex2memLoop 4 (layout.gdbRegisters + 4 * regno)
            (layout.ptrOf request tail) state.memory) } := by
  have hsigned : signed regno ≥ 0 ∧ signed regno < NUMREGS := by
    rw [signed_of_lt hregno]
    omega
  simp only [setRegister, hread, if_true, if_pos hsigned]
  rfl

/-- The trap frame has these registers, and its other fields are as before. -/
structure HasRegisters (layout : Layout) (before after : Memory) (values : ℕ → ℕ) : Prop where
  registers : ∀ regno < NUMREGS, layout.register after regno = values regno
  others : ∀ offset ∈ otherFields,
    load32 after (layout.ctx + offset) = load32 before (layout.ctx + offset)

theorem HasRegisters.of_keeps {values : ℕ → ℕ} {middle : Memory}
    (hregisters : layout.HasRegisters before middle values)
    (hkeeps : layout.KeepsRegisters middle after) : layout.HasRegisters before after values :=
  ⟨fun regno hregno => (hkeeps.register_eq hregno).trans (hregisters.registers regno hregno),
    fun offset hoffset => (hkeeps.otherFields_eq hoffset).trans
      (hregisters.others offset hoffset)⟩

/-- A word is put into the trap frame as the flags. -/
theorem HasRegisters.store_eflags {values : ℕ → ℕ} {middle : Memory} {eflags : ℕ}
    (hregisters : layout.HasRegisters before middle values) (heflags : eflags < 2 ^ 32) :
    layout.HasRegisters before (store32 middle (layout.ctx + 64) eflags)
      fun other => if other = 9 then eflags else values other := by
  refine ⟨fun other hother => ?_, fun offset hoffset => ?_⟩
  · have hapart : other ≠ 9 → offsetTF other + 4 ≤ 64 ∨ 68 ≤ offsetTF other := by
      have hall : ∀ other < 16, other ≠ 9 → offsetTF other + 4 ≤ 64 ∨ 68 ≤ offsetTF other := by
        decide
      exact hall other hother
    split
    · rename_i heq
      rw [heq]
      exact load32_store32_self heflags
    · rename_i hne
      rw [← hregisters.registers other hother]
      have hapart := hapart hne
      exact load32_store32_of_disjoint (by omega)
  · have hall : ∀ offset ∈ otherFields, offset + 4 ≤ 64 ∨ 68 ≤ offset := by decide
    have hapart := hall offset hoffset
    rw [← hregisters.others offset hoffset]
    exact load32_store32_of_disjoint (by omega)

theorem resume_eq {ptr tail : List Int8} {numChars address : ℕ}
    (hread : hexToInt ptr = (numChars + 1, address, tail)) (stepping : Bool) :
    layout.resume ptr stepping memory =
      store32 (layout.exportRegisters
          (writeBytes memory (layout.gdbRegisters + 4 * 8) 4 (byteOf address)))
        (layout.ctx + 64)
        (if stepping then withoutTrapFlag (layout.register (layout.exportRegisters
            (writeBytes memory (layout.gdbRegisters + 4 * 8) 4 (byteOf address))) 9) ||| 0x100
          else withoutTrapFlag (layout.register (layout.exportRegisters
            (writeBytes memory (layout.gdbRegisters + 4 * 8) 4 (byteOf address))) 9)) := by
  simp only [resume, hread]
  rfl

namespace Separate

variable (hlayout : layout.Separate)

include hlayout

omit hlayout in
theorem shadow_writeBytes {other : ℕ} (bytes : Memory) :
    layout.shadow (writeBytes memory (layout.gdbRegisters + 4 * regno) 4 bytes) other =
      if other = regno then load32 bytes 0 else layout.shadow memory other := by
  rw [shadow]
  split
  · rename_i heq
    have hword := @load32_writeBytes_self memory (layout.gdbRegisters + 4 * regno) 4 bytes 0
      (by norm_num)
    rwa [heq]
  · exact load32_writeBytes_of_disjoint (by omega)

theorem otherFields_writeBytes (hregno : regno < NUMREGS) (bytes : Memory)
    (hoffset : offset ∈ otherFields) :
    load32 (writeBytes memory (layout.gdbRegisters + 4 * regno) 4 bytes) (layout.ctx + offset) =
      load32 memory (layout.ctx + offset) := by
  have hall : ∀ offset ∈ otherFields, offset + 4 ≤ sizeofTrapframe := by decide
  have hbounds := hall offset hoffset
  have hapart := hlayout.registers_ctx
  rw [Apart] at hapart
  rw [NUMREGS] at hregno
  exact load32_writeBytes_of_disjoint (by omega)

/-- A word is put into the copy, and the copy goes back to the trap frame. -/
theorem hasRegisters_export (hregno : regno < NUMREGS) {middle : Memory} (bytes : Memory)
    (hkeeps : layout.KeepsRegisters before middle) :
    layout.HasRegisters before
      (layout.exportRegisters (writeBytes middle (layout.gdbRegisters + 4 * regno) 4 bytes))
      fun other => if other = regno then load32 bytes 0 else layout.shadow before other := by
  refine ⟨fun other hother => ?_, fun offset hoffset => ?_⟩
  · rw [hlayout.register_exportRegisters hother, shadow_writeBytes, hkeeps.shadow_eq hother]
  · rw [otherFields_exportRegisters hoffset, hlayout.otherFields_writeBytes hregno bytes hoffset,
      hkeeps.otherFields_eq hoffset]

/-- What `hex2mem` reads from the buffer of a request. -/
theorem hex2mem_received {front : List Int8} (hregno : regno < NUMREGS)
    (hlength : (front ++ digits ++ rest).length = BUFMAX) (hdigits : digits.length = 8)
    (state : StubState) :
    ∃ bytes : Memory, load32 bytes 0 = registerValue digits ∧
      hex2memLoop 4 (layout.gdbRegisters + 4 * regno) (layout.inputBuffer + front.length)
          (layout.received (front ++ digits ++ rest) state).memory =
        writeBytes (layout.received (front ++ digits ++ rest) state).memory
          (layout.gdbRegisters + 4 * regno) 4 bytes := by
  have hinput := hlayout.input_end
  have hregisters := hlayout.registers_end
  have hapart := hlayout.input_registers
  rw [Apart] at hapart
  rw [List.length_append, List.length_append, hdigits] at hlength
  rw [NUMREGS] at hregno
  have hchar : ∀ index < 8,
      ((layout.received (front ++ digits ++ rest) state).memory
        (layout.inputBuffer + front.length + index)).toInt8 = digits.getD index 0 := by
    intro index hindex
    rw [Nat.add_assoc, layout.received_input _ _ (by omega), List.append_assoc,
      List.getD_append_right _ _ _ _ (by omega), Nat.add_sub_cancel_left,
      List.getD_append _ _ _ _ (by omega)]
  refine ⟨_, ?_, hex2memLoop_eq (by omega) (by omega) (by rw [Apart]; omega)⟩
  refine load32_eq_of_bytes fun index hindex => ?_
  rw [Nat.zero_add, hchar (2 * index) (by omega), Nat.add_assoc _ (2 * index),
    hchar (2 * index + 1) (by omega)]

/-- The registers after one of them is set. -/
theorem serve_one {value : ℕ} (hlength : filled.length = BUFMAX)
    (hsent : RegisterWrite.SentBy filled (.one regno value)) (unixSignal : ℕ)
    (state : StubState) :
    layout.HasRegisters state.memory (layout.serve unixSignal filled state).2.memory
      fun other => if other = regno then value else layout.shadow state.memory other := by
  obtain ⟨number, digits, rest, rfl, hne, hnumber, rfl, hregno, hdigits, rfl⟩ := hsent
  have hfilled : chr 'P' :: number ++ chr '=' :: digits ++ rest =
      (chr 'P' :: number ++ [chr '=']) ++ digits ++ rest := by simp
  have hstring : cString (chr 'P' :: number ++ chr '=' :: digits ++ rest) =
      chr 'P' :: (number ++ chr '=' :: cString (digits ++ rest)) := by
    rw [List.append_assoc, List.cons_append, cString_cons_of_ne (by decide),
      cString_append_of_ne (fun ch hch => ne_zero_of_hex (hnumber ch hch)), List.cons_append,
      cString_cons_of_ne (by decide)]
  obtain ⟨numChars, hread⟩ := @hexToInt_eq number (chr '=' :: cString (digits ++ rest)) hnumber
    hne (by simpa using (by decide : hex (chr '=') < 0))
  have hptr : layout.ptrOf (chr 'P' :: (number ++ chr '=' :: cString (digits ++ rest)))
      (cString (digits ++ rest)) =
        layout.inputBuffer + (chr 'P' :: number ++ [chr '=']).length := by
    simp only [ptrOf, List.length_cons, List.length_append, List.length_nil]
    omega
  rw [hfilled] at hlength
  obtain ⟨bytes, hvalue, hbytes⟩ := hlayout.hex2mem_received hregno hlength hdigits state
  rw [serve_eq, hstring, dispatch_P, setRegister_eq hread hregno, hptr, hfilled, hbytes, ← hvalue]
  have hexported := hlayout.hasRegisters_export hregno bytes
    (hlayout.keeps_received ((chr 'P' :: number ++ [chr '=']) ++ digits ++ rest) state)
  exact hexported.of_keeps (hlayout.keeps_writeString (by decide) _)

/-- The registers after the program goes on at an address. -/
theorem serve_resume {address : ℕ} {stepping : Bool}
    (hsent : RegisterWrite.SentBy filled (.resume address stepping)) (unixSignal : ℕ)
    (state : StubState) :
    layout.HasRegisters state.memory (layout.serve unixSignal filled state).2.memory
      fun other => if other = 9 then withoutTrapFlag (layout.shadow state.memory 9) |||
          (if stepping then 0x100 else 0)
        else if other = 8 then address else layout.shadow state.memory other := by
  obtain ⟨number, rest, rfl, hne, hnumber, rfl, hrest⟩ := hsent
  have hcommand : (if stepping then chr 's' else chr 'c') ≠ 0 := by cases stepping <;> decide
  have hstring : cString ((if stepping then chr 's' else chr 'c') :: number ++ rest) =
      (if stepping then chr 's' else chr 'c') :: (number ++ cString rest) := by
    rw [List.cons_append, cString_cons_of_ne hcommand,
      cString_append_of_ne fun ch hch => ne_zero_of_hex (hnumber ch hch)]
  obtain ⟨numChars, hread⟩ := hexToInt_eq hnumber hne (head_cString hrest)
  have hword : load32 (byteOf (numberOf number)) 0 = numberOf number := by
    rw [← @load32_writeBytes_self state.memory 0 4 (byteOf (numberOf number)) 0 (by norm_num)]
    exact load32_store32_self (numberOf_lt number)
  have hexported := hlayout.hasRegisters_export (show 8 < NUMREGS by decide)
    (byteOf (numberOf number)) (hlayout.keeps_received
      ((if stepping then chr 's' else chr 'c') :: number ++ rest) state)
  have heflags := (hexported.registers 9 (by decide)).trans (if_neg (by decide))
  rw [hword] at hexported
  rw [serve_eq, hstring, dispatch_resume, resume_eq hread, heflags]
  have hlt : withoutTrapFlag (layout.shadow state.memory 9) < 2 ^ 32 :=
    Nat.and_lt_two_pow _ (by norm_num)
  have hflags : (if stepping then withoutTrapFlag (layout.shadow state.memory 9) ||| 0x100
      else withoutTrapFlag (layout.shadow state.memory 9)) =
        withoutTrapFlag (layout.shadow state.memory 9) ||| (if stepping then 0x100 else 0) := by
    cases stepping
    · exact (Nat.or_zero _).symm
    · rfl
  rw [hflags]
  refine hexported.store_eflags (Nat.or_lt_two_pow hlt ?_)
  cases stepping <;> norm_num

end Separate

theorem serveAll_append {front : List (List Int8)}
    (hfront : ∀ filled ∈ front, resumes (cString filled) = false) (unixSignal : ℕ)
    (back : List (List Int8)) (state : StubState) :
    layout.serveAll unixSignal (front ++ back) state =
      layout.serveAll unixSignal back (layout.serveAll unixSignal front state) := by
  induction front generalizing state with
  | nil => rfl
  | cons first rest ih =>
      obtain ⟨hfirst, hrest⟩ := List.forall_mem_cons.mp hfront
      have hreturned := (serve_fst layout unixSignal first state).trans hfirst
      rw [List.cons_append, serveAll, serveAll]
      cases hserve : layout.serve unixSignal first state with
      | mk returned after =>
          rw [hserve] at hreturned
          subst hreturned
          exact ih hrest after

theorem serveAll_singleton (unixSignal : ℕ) (filled : List Int8) (state : StubState) :
    layout.serveAll unixSignal [filled] state = (layout.serve unixSignal filled state).2 := by
  rw [serveAll]
  cases layout.serve unixSignal filled state with
  | mk returned after => cases returned <;> rfl

theorem gdbstubHandleException_concat {requests : List (List Int8)}
    (hrequests : ∀ filled ∈ requests, resumes (cString filled) = false) (filled : List Int8)
    (memory : Memory) :
    ∃ unixSignal, layout.gdbstubHandleException (requests ++ [filled]) memory =
      (layout.serve unixSignal filled (layout.gdbstubHandleException requests memory)).2 :=
  ⟨_, (serveAll_append hrequests _ [filled] _).trans (serveAll_singleton _ filled _)⟩

end Layout

/-! ## The change and nothing else -/

theorem withoutTrapFlag_or_iff {left right : ℕ} (stepping : Bool) :
    withoutTrapFlag left ||| (if stepping then 0x100 else 0) =
        withoutTrapFlag right ||| (if stepping then 0x100 else 0) ↔
      withoutTrapFlag left = withoutTrapFlag right := by
  have hmask : ∀ eflags, withoutTrapFlag (withoutTrapFlag eflags |||
      (if stepping then 0x100 else 0)) = withoutTrapFlag eflags := by
    intro eflags
    have hflag : (if stepping then 0x100 else 0) &&& 0xFFFFFEFF = 0 := by
      cases stepping <;> rfl
    rw [withoutTrapFlag, Nat.and_or_distrib_right, hflag, Nat.or_zero, withoutTrapFlag,
      Nat.and_assoc, Nat.and_self]
  constructor
  · intro heq
    rw [← hmask left, heq, hmask right]
  · intro heq
    rw [heq]

namespace RegisterWrite

theorem performed_one_iff {value : ℕ} (hregno : regno < NUMREGS)
    (hafter : layout.HasRegisters before after fun other =>
      if other = regno then value else layout.shadow before other) :
    Performed layout before after (.one regno value) ↔
      CopyAgrees layout before (.one regno value) := by
  have hvalue := (hafter.registers regno hregno).trans (if_pos rfl)
  simp only [Performed, CopyAgrees, and_iff_right hvalue, and_iff_left hafter.others]
  refine forall₃_congr fun other hother hne => ?_
  rw [hafter.registers other hother, if_neg hne]

theorem performed_resume_iff {address : ℕ} {stepping : Bool}
    (hafter : layout.HasRegisters before after fun other =>
      if other = 9 then withoutTrapFlag (layout.shadow before 9) |||
        (if stepping then 0x100 else 0)
      else if other = 8 then address else layout.shadow before other) :
    Performed layout before after (.resume address stepping) ↔
      CopyAgrees layout before (.resume address stepping) := by
  have hpc : layout.register after 8 = address := hafter.registers 8 (by decide)
  have hflags : layout.register after 9 = withoutTrapFlag (layout.shadow before 9) |||
      (if stepping then 0x100 else 0) := hafter.registers 9 (by decide)
  have hothers : (∀ other < NUMREGS, other ≠ 8 → other ≠ 9 →
        layout.register after other = layout.register before other) ↔
      ∀ other < NUMREGS, other ≠ 8 → other ≠ 9 →
        layout.shadow before other = layout.register before other := by
    refine forall₄_congr fun other hother hne hne' => ?_
    rw [hafter.registers other hother, if_neg hne', if_neg hne]
  rw [Performed, CopyAgrees, and_iff_right hpc, hflags, withoutTrapFlag_or_iff, hothers,
    and_iff_left hafter.others, and_comm]

theorem serve_performed_iff (hlayout : layout.Separate) {write : RegisterWrite}
    (hlength : filled.length = BUFMAX) (hsent : write.SentBy filled) (unixSignal : ℕ)
    (state : StubState) :
    write.Performed layout state.memory (layout.serve unixSignal filled state).2.memory ↔
      write.CopyAgrees layout state.memory := by
  cases write with
  | one regno value =>
      have hregno : regno < NUMREGS := by
        obtain ⟨_, _, _, _, _, _, _, hregno, _⟩ := hsent
        exact hregno
      exact performed_one_iff hregno (hlayout.serve_one hlength hsent unixSignal state)
  | resume address stepping =>
      exact performed_resume_iff (hlayout.serve_resume hsent unixSignal state)

end RegisterWrite

/-- In a stop with any requests before it, a request that sets a register or goes on at an
address changes nothing else exactly if the stub's copy agrees with the trap frame. -/
theorem registerWrite_performed_iff (hlayout : layout.Separate) {write : RegisterWrite}
    {requests : List (List Int8)}
    (hrequests : ∀ filled ∈ requests, resumes (cString filled) = false)
    (hlength : filled.length = BUFMAX) (hsent : write.SentBy filled) (memory : Memory) :
    write.Performed layout (layout.gdbstubHandleException requests memory).memory
        (layout.gdbstubHandleException (requests ++ [filled]) memory).memory ↔
      write.CopyAgrees layout (layout.gdbstubHandleException requests memory).memory := by
  obtain ⟨unixSignal, hserved⟩ :=
    @Layout.gdbstubHandleException_concat layout requests hrequests filled memory
  rw [hserved]
  exact RegisterWrite.serve_performed_iff hlayout hlength hsent unixSignal _

/-- The debugger sets `ecx` before it asks for the registers. -/
def setEcx : List Int8 := "P1=78563412".toList.map chr ++ List.replicate 989 0

def setEcxLayout : Layout where
  inputBuffer := 0x9000
  outputBuffer := 0x9800
  gdbRegisters := 0xA000
  ctx := 0xB000

theorem setEcxLayout_separate : setEcxLayout.Separate :=
  ⟨by decide, by decide, by decide, by decide, Or.inl (by decide), Or.inl (by decide),
    Or.inl (by decide), Or.inl (by decide), Or.inl (by decide), Or.inl (by decide)⟩

/-- `eax` is 1 in the trap frame and 0 in the copy. -/
def setEcxMemory : Memory := fun position => if position = 0xB000 + 44 then 1 else 0

theorem setEcx_receivable : Receivable setEcx :=
  ⟨List.replicate BUFMAX 0, packetOf ("P1=78563412".toList.map chr), [chr '+'], [],
    List.length_replicate, by decide +kernel⟩

theorem setEcx_sentBy : RegisterWrite.SentBy setEcx (.one 1 0x12345678) :=
  ⟨[chr '1'], "78563412".toList.map chr, List.replicate 989 0, by decide +kernel, by decide,
    by decide +kernel, by decide +kernel, by decide, by decide +kernel, by decide +kernel⟩

theorem setEcx_not_copyAgrees :
    ¬ RegisterWrite.CopyAgrees setEcxLayout
      (setEcxLayout.gdbstubHandleException [] setEcxMemory).memory (.one 1 0x12345678) := by
  intro hagrees
  have heax := hagrees 0 (by decide) (by decide)
  exact absurd heax (by decide +kernel)

/-- `eax` is overwritten with the copy. -/
theorem setEcx_changes_eax :
    ¬ ∀ (layout : Layout) (requests : List (List Int8)) (memory : Memory) (filled : List Int8)
      (write : RegisterWrite), layout.Separate →
      (∀ request ∈ requests, Receivable request ∧ resumes (cString request) = false) →
      Receivable filled → filled.length = BUFMAX → write.SentBy filled →
      write.Performed layout (layout.gdbstubHandleException requests memory).memory
        (layout.gdbstubHandleException (requests ++ [filled]) memory).memory := by
  intro hall
  have hperformed := hall setEcxLayout [] setEcxMemory setEcx (.one 1 0x12345678)
    setEcxLayout_separate (by simp) setEcx_receivable (by decide +kernel) setEcx_sentBy
  obtain ⟨unixSignal, hserved⟩ :=
    @Layout.gdbstubHandleException_concat setEcxLayout [] (by simp) setEcx setEcxMemory
  rw [hserved, RegisterWrite.serve_performed_iff setEcxLayout_separate (by decide +kernel)
    setEcx_sentBy] at hperformed
  exact setEcx_not_copyAgrees hperformed

theorem registerWrite_performed_iff_setEcx :
    RegisterWrite.Performed setEcxLayout
        (setEcxLayout.gdbstubHandleException [] setEcxMemory).memory
        (setEcxLayout.gdbstubHandleException ([] ++ [setEcx]) setEcxMemory).memory
        (.one 1 0x12345678) ↔
      RegisterWrite.CopyAgrees setEcxLayout
        (setEcxLayout.gdbstubHandleException [] setEcxMemory).memory (.one 1 0x12345678) :=
  registerWrite_performed_iff setEcxLayout_separate (by simp) (by decide +kernel) setEcx_sentBy
    setEcxMemory

/-! ## When the copy agrees -/

/-- The copy agrees with the trap frame in all registers. -/
def Layout.InSync (layout : Layout) (memory : Memory) : Prop :=
  ∀ regno < NUMREGS, layout.shadow memory regno = layout.register memory regno

/-- The request reads or sets all registers. -/
def Refreshes (request : List Int8) : Prop :=
  request.head? = some (chr 'g') ∨ request.head? = some (chr 'G')

theorem Refreshes.resumes_eq {request : List Int8} (hrequest : Refreshes request) :
    resumes request = false := by
  rcases hrequest with h | h <;> simp only [resumes, h] <;> rfl

/-- The request does not write memory, neither on purpose nor behind the buffer. -/
structure Harmless (request : List Int8) : Prop where
  ne_write : request.head? ≠ some (chr 'M')
  fits : ¬ Overlong request
  goesOn : resumes request = false

theorem RegisterWrite.copyAgrees_of_inSync (hsync : layout.InSync memory)
    {write : RegisterWrite} : write.CopyAgrees layout memory := by
  cases write with
  | one regno value => exact fun other hother _ => hsync other hother
  | resume address stepping =>
      exact ⟨fun other hother _ _ => hsync other hother,
        congrArg withoutTrapFlag (hsync 9 (by decide))⟩

namespace Layout

theorem InSync.of_keeps (hsync : layout.InSync before)
    (hkeeps : layout.KeepsRegisters before after) : layout.InSync after := fun regno hregno => by
  rw [hkeeps.shadow_eq hregno, hkeeps.register_eq hregno, hsync regno hregno]

namespace Separate

variable (hlayout : layout.Separate)

include hlayout

theorem inSync_exportRegisters (memory : Memory) :
    layout.InSync (layout.exportRegisters memory) := fun regno hregno => by
  rw [hlayout.register_exportRegisters hregno, hlayout.shadow_exportRegisters hregno]

theorem inSync_importRegisters (memory : Memory) :
    layout.InSync (layout.importRegisters memory) := fun regno hregno => by
  rw [hlayout.shadow_importRegisters hregno, hlayout.register_importRegisters hregno]

theorem inSync_writeString {index : ℕ} {string : List Int8}
    (hfits : index + string.length < BUFMAX) (hsync : layout.InSync state.memory) :
    layout.InSync (layout.writeString index string state).memory :=
  hsync.of_keeps (hlayout.keeps_writeString hfits state)

theorem inSync_setRegister {request ptr : List Int8} (hsync : layout.InSync state.memory) :
    layout.InSync (layout.setRegister request ptr state).memory := by
  rw [setRegister]
  split
  · exact hlayout.inSync_writeString (by decide) hsync
  · exact hlayout.inSync_writeString (by decide) hsync
  · split_ifs
    · exact hlayout.inSync_writeString (by decide) (hlayout.inSync_exportRegisters _)
    · exact hlayout.inSync_writeString (by decide) hsync
    · exact hlayout.inSync_writeString (by decide) hsync

theorem inSync_handleQuery {request : List Int8} (hsync : layout.InSync state.memory) :
    layout.InSync (layout.handleQuery request state).memory := by
  rw [handleQuery]
  split_ifs
  · exact hlayout.inSync_writeString (by decide) hsync
  · exact hlayout.inSync_writeString (by decide) hsync
  · exact hlayout.inSync_writeString (by decide) hsync
  · exact hsync.of_keeps (hlayout.keeps_writeOutput (by decide) 0 state)

theorem inSync_readMemory {ptr : List Int8} (hfits : ¬ Overlong (chr 'm' :: ptr))
    (hsync : layout.InSync state.memory) : layout.InSync (layout.readMemory ptr state).memory := by
  cases hparsed : addressAndLength ptr with
  | none =>
      rw [readMemory, hparsed]
      exact hlayout.inSync_writeString (by decide) hsync
  | some parsed =>
      obtain ⟨addr, length, rest⟩ := parsed
      have hshort : ¬ 500 ≤ signed length := fun hlength =>
        hfits ⟨ptr, addr, length, rest, rfl, hparsed, hlength⟩
      rw [readMemory, hparsed]
      exact hsync.of_keeps (hlayout.keeps_replyMemory ((reply_lt_iff _).mpr hshort) state)

/-- A request that writes no memory leaves the copy in agreement. -/
theorem inSync_dispatch {request : List Int8} (hrequest : Harmless request)
    (hsync : layout.InSync state.memory) (unixSignal : ℕ) :
    layout.InSync (layout.dispatch unixSignal request state).2.memory := by
  cases request with
  | nil => exact hsync
  | cons command ptr =>
      have hcommand : command ≠ chr 'M' ∧ command ≠ chr 's' ∧ command ≠ chr 'c' := by
        have hwrite := hrequest.ne_write
        have hgoes := hrequest.goesOn
        simp only [resumes, List.head?_cons, Bool.or_eq_false_iff, decide_eq_false_iff_not, ne_eq,
          Option.some.injEq] at hwrite hgoes
        exact ⟨hwrite, hgoes.1, hgoes.2⟩
      by_cases hm : command = chr 'm'
      · subst hm
        rw [dispatch_m]
        exact hlayout.inSync_readMemory hrequest.fits hsync
      · rw [dispatch]
        simp only [hcommand.1, hcommand.2.1, hcommand.2.2, hm, if_false]
        split_ifs
        · exact hsync.of_keeps
            ((((hlayout.keeps_writeOutput (by decide) _ _).trans
              (hlayout.keeps_writeOutput (by decide) _ _)).trans
              (hlayout.keeps_writeOutput (by decide) _ _)).trans
              (hlayout.keeps_writeOutput (by decide) _ _))
        · exact hlayout.inSync_writeString (by decide) hsync
        · exact hlayout.inSync_handleQuery hsync
        · exact (hlayout.inSync_importRegisters _).of_keeps
            (hlayout.keeps_mem2hexLoop (by decide) _)
        · exact hlayout.inSync_writeString (by decide) (hlayout.inSync_exportRegisters _)
        · exact hlayout.inSync_setRegister hsync
        · exact hsync

/-- Reading or setting all registers brings the copy into agreement. -/
theorem inSync_of_refreshes {request : List Int8} (hrequest : Refreshes request)
    (unixSignal : ℕ) (state : StubState) :
    layout.InSync (layout.dispatch unixSignal request state).2.memory := by
  cases request with
  | nil => rcases hrequest with h | h <;> cases h
  | cons command ptr =>
      simp only [Refreshes, List.head?_cons, Option.some.injEq] at hrequest
      rcases hrequest with rfl | rfl
      · exact (hlayout.inSync_importRegisters state.memory).of_keeps
          (hlayout.keeps_mem2hexLoop (by decide) _)
      · exact hlayout.inSync_writeString (by decide) (hlayout.inSync_exportRegisters _)

theorem inSync_serveAll {requests : List (List Int8)}
    (hrequests : ∀ filled ∈ requests, Harmless (cString filled))
    (hsync : layout.InSync state.memory) (unixSignal : ℕ) :
    layout.InSync (layout.serveAll unixSignal requests state).memory := by
  induction requests generalizing state with
  | nil => exact hsync
  | cons first rest ih =>
      obtain ⟨hfirst, hrest⟩ := List.forall_mem_cons.mp hrequests
      have hafter := hlayout.inSync_dispatch hfirst
        (hsync.of_keeps (hlayout.keeps_received first state)) unixSignal
      rw [← serve_eq] at hafter
      rw [serveAll]
      cases hserve : layout.serve unixSignal first state with
      | mk returned after =>
          rw [hserve] at hafter
          cases returned with
          | true => exact hafter
          | false => exact ih hrest hafter

end Separate

/-- The copy agrees after a request for all registers and any that write no memory. -/
theorem Separate.inSync_gdbstubHandleException (hlayout : layout.Separate)
    {front back : List (List Int8)} {refresh : List Int8}
    (hfront : ∀ filled ∈ front, resumes (cString filled) = false)
    (hrefresh : Refreshes (cString refresh)) (hback : ∀ filled ∈ back, Harmless (cString filled))
    (memory : Memory) :
    layout.InSync (layout.gdbstubHandleException (front ++ refresh :: back) memory).memory := by
  rw [gdbstubHandleException, serveAll_append hfront, ← List.singleton_append,
    serveAll_append (by simpa using hrefresh.resumes_eq), serveAll_singleton]
  exact hlayout.inSync_serveAll hback (hlayout.inSync_of_refreshes hrefresh _ _) _

end Layout

/-- Once all registers were read or set, and if no request wrote memory since then, a request
that sets a register changes nothing else. -/
theorem registerWrite_performed_of_refreshes (hlayout : layout.Separate) {write : RegisterWrite}
    {front back : List (List Int8)} {refresh : List Int8}
    (hfront : ∀ filled ∈ front, resumes (cString filled) = false)
    (hrefresh : Refreshes (cString refresh)) (hback : ∀ filled ∈ back, Harmless (cString filled))
    (hlength : filled.length = BUFMAX) (hsent : write.SentBy filled) (memory : Memory) :
    write.Performed layout
      (layout.gdbstubHandleException (front ++ refresh :: back) memory).memory
      (layout.gdbstubHandleException (front ++ refresh :: back ++ [filled]) memory).memory := by
  have hsync := hlayout.inSync_gdbstubHandleException hfront hrefresh hback memory
  have hrequests : ∀ filled ∈ front ++ refresh :: back, resumes (cString filled) = false := by
    intro filled hmem
    rcases List.mem_append.mp hmem with hmem | hmem
    · exact hfront filled hmem
    rcases List.mem_cons.mp hmem with rfl | hmem
    · exact hrefresh.resumes_eq
    · exact (hback filled hmem).goesOn
  obtain ⟨unixSignal, hserved⟩ :=
    @Layout.gdbstubHandleException_concat layout _ hrequests filled memory
  rw [hserved]
  exact (RegisterWrite.serve_performed_iff hlayout hlength hsent unixSignal _).mpr
    (RegisterWrite.copyAgrees_of_inSync hsync)

end GeexOS.Gdb
