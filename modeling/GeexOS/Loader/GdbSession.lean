import Mathlib.Data.Bool.AllAny
import GeexOS.Loader.GdbRegisters
import Mathlib.Data.List.Basic

/-!
# Debugging sessions

From the stop of a program until it goes on, debugger and stub exchange packets over the
serial line.  Reading and writing memory and all registers over the line is reading and
writing the memory of the stopped program, in which the trap frame holds the registers.
-/

namespace GeexOS.Gdb

open GeexOS.Words
open GeexOS.Halting
open GeexOS.ByteMemory

/-! ## The handler on the serial line -/

/-- What was sent, and whether the handler returned. -/
structure Dialogue where
  sent : List Int8
  returned : Bool
  state : StubState

namespace Layout

variable (layout : Layout)

/-- The characters in `outputBuffer`. -/
def output (memory : Memory) : List Int8 :=
  (List.range BUFMAX).map fun index => (memory (layout.outputBuffer + index)).toInt8

/-- `while(1)`, until the handler returns or more characters have to come in.  What a packet
leaves in `inputBuffer` is handed to the next call of `getpacket`: serving a request writes
nothing there, except by addresses that no command of a session has. -/
def lineLoop (unixSignal : ℕ) :
    (fuel : ℕ) → (inputBuffer incoming : List Int8) → StubState → Outcome Dialogue
  | 0, _, _, _ => .error .diverges
  | fuel + 1, inputBuffer, incoming, state =>
      let reception := getpacket inputBuffer incoming
      match reception.returned with
      | none => .ok ⟨reception.answers, false, state⟩
      | some (filled, incoming) =>
          match layout.serve unixSignal filled state with
          | (true, state) => .ok ⟨reception.answers, true, state⟩
          | (false, state) => do
              let (reply, unread) ← putpacket (layout.output state.memory) incoming
              match unread with
              | none => .ok ⟨reception.answers ++ reply, false, state⟩
              | some incoming => do
                  let later ← lineLoop unixSignal fuel filled incoming state
                  .ok { later with sent := reception.answers ++ reply ++ later.sent }

/-- `gdbstub_i386_handle_exception` with the characters that come in while it runs. -/
def handleOnLine (fuel : ℕ) (inputBuffer incoming : List Int8) (memory : Memory) :
    Outcome Dialogue := do
  let unixSignal := gdbstubComputeSignal (signed (load32 memory (layout.ctx + 48)))
  let state := layout.firstReply unixSignal ⟨memory, []⟩
  let (reply, unread) ← putpacket (layout.output state.memory) incoming
  match unread with
  | none => .ok ⟨reply, false, state⟩
  | some incoming => do
      let later ← layout.lineLoop unixSignal fuel inputBuffer incoming state
      .ok { later with sent := reply ++ later.sent }

end Layout

/-! ## What debugger and program mean by it -/

/-- A number without leading zeros. -/
def hexNumeral (value : ℕ) : List Int8 := (Nat.toDigits 16 value).map chr

def hexBytes (bytes : List UInt8) : List Int8 :=
  bytes.flatMap fun byte => [digit (byte.toNat / 16), digit (byte.toNat % 16)]

inductive Command where
  | read (address length : ℕ)
  | write (address : ℕ) (bytes : List UInt8)
  | readRegisters
  | writeRegisters (bytes : List UInt8)
  deriving DecidableEq, Repr

def bytesAt (memory : Memory) (address length : ℕ) : List UInt8 :=
  (List.range length).map fun index => memory (address + index)

/-- Does the address belong to the program, and not to the arrays of the stub?  The stack of
the stub and the buffer `debug_printf` writes to are taken to be no part of the program. -/
def Layout.Outside (layout : Layout) (position : ℕ) : Prop :=
  (position < layout.inputBuffer ∨ layout.inputBuffer + BUFMAX ≤ position) ∧
    (position < layout.outputBuffer ∨ layout.outputBuffer + BUFMAX ≤ position) ∧
    (position < layout.gdbRegisters ∨ layout.gdbRegisters + 64 ≤ position)

/-- The bytes lie in the address space and outside the arrays of the stub. -/
structure Layout.Range (layout : Layout) (address length : ℕ) : Prop where
  starts : address < 2 ^ 32
  ends : address + length ≤ 2 ^ 32
  input : Apart address length layout.inputBuffer BUFMAX
  output : Apart address length layout.outputBuffer BUFMAX
  registers : Apart address length layout.gdbRegisters 64

namespace Command

variable (layout : Layout) (memory : Memory)

/-- What the debugger sends. -/
def text : Command → List Int8
  | read address length => chr 'm' :: (hexNumeral address ++ chr ',' :: hexNumeral length)
  | write address bytes =>
      chr 'M' :: (hexNumeral address ++ chr ',' :: (hexNumeral bytes.length ++
        chr ':' :: hexBytes bytes))
  | readRegisters => [chr 'g']
  | writeRegisters bytes => chr 'G' :: hexBytes bytes

def reply : Command → List Int8
  | read address length => hexBytes (bytesAt memory address length)
  | write _ _ => ok
  | readRegisters => hexBytes (registerConversion.flatMap fun register =>
      bytesAt memory (layout.ctx + register.offsetTF) register.size)
  | writeRegisters _ => ok

def effect : Command → Memory
  | read _ _ => memory
  | write address bytes => writeBytes memory address bytes.length fun index => bytes.getD index 0
  | readRegisters => memory
  | writeRegisters bytes => registerConversion.foldl (fun memory register =>
      writeBytes memory (layout.ctx + register.offsetTF) register.size fun index =>
        bytes.getD (register.offsetGDB + index) 0) memory

/-- Packets in both directions fit into the buffers. -/
def Fits : Command → Prop
  | read address length => layout.Range address length ∧ length < 500
  | write address bytes => layout.Range address bytes.length ∧
      (write address bytes).text.length < BUFMAX - 1
  | readRegisters => True
  | writeRegisters bytes => bytes.length = 64

end Command

/-- A command on the line: what comes before it, and how often its reply is refused. -/
structure Exchange where
  noise : List Int8
  command : Command
  refusals : List Int8

namespace Exchange

def line (exchange : Exchange) : List Int8 :=
  exchange.noise ++ packetOf exchange.command.text ++ exchange.refusals ++ [chr '+']

structure Allowed (layout : Layout) (exchange : Exchange) : Prop where
  noise : chr '$' ∉ exchange.noise
  refusals : ∀ ch ∈ exchange.refusals, ch ≠ chr '+'
  fits : exchange.command.Fits layout

end Exchange

/-- A packet that is refused that often and then accepted. -/
def sentPacket (refusals payload : List Int8) : List Int8 :=
  (List.replicate (refusals.length + 1) (packetOf payload)).flatten

/-- What the stub sends in a session. -/
def answersTo (layout : Layout) : Memory → List Exchange → List Int8
  | _, [] => []
  | memory, exchange :: rest =>
      chr '+' :: sentPacket exchange.refusals (exchange.command.reply layout memory) ++
        answersTo layout (exchange.command.effect layout memory) rest

def memoryAfter (layout : Layout) (memory : Memory) (exchanges : List Exchange) : Memory :=
  exchanges.foldl (fun memory exchange => exchange.command.effect layout memory) memory

/-- A register in the report of a stop. -/
def registerReport (layout : Layout) (memory : Memory) (number offsetTF : ℕ) : List Int8 :=
  [digit number, chr ':'] ++ hexBytes (bytesAt memory (layout.ctx + offsetTF) 4) ++ [chr ';']

/-- The report of a stop: the signal and the registers 4, 5 and 8. -/
def stopReport (layout : Layout) (memory : Memory) : List Int8 :=
  let unixSignal := gdbstubComputeSignal (signed (load32 memory (layout.ctx + 48)))
  [chr 'T', digit (unixSignal / 16), digit (unixSignal % 16)] ++
    registerReport layout memory 4 28 ++ registerReport layout memory 5 24 ++
    registerReport layout memory 8 56

/-- The program goes on, with or without the trap flag. -/
def goOn (layout : Layout) (stepping : Bool) (memory : Memory) : Memory :=
  let eflags := withoutTrapFlag (layout.register memory 9)
  store32 memory (layout.ctx + 64) (if stepping then eflags ||| 0x100 else eflags)

def resumePacket (stepping : Bool) : List Int8 :=
  packetOf [if stepping then chr 's' else chr 'c']

/-- The two memories agree on what belongs to the program. -/
def Layout.Agrees (layout : Layout) (memory program : Memory) : Prop :=
  ∀ position, layout.Outside position → memory position = program position

variable {layout : Layout} {memory memory' program : Memory} {state : StubState}
variable {text front back : List Int8} {bytes : List UInt8}
variable {index address length unixSignal value : ℕ}

/-! ## Texts in the output buffer -/

/-- The characters are put into `outputBuffer` from a place on. -/
def Layout.writeText (layout : Layout) (index : ℕ) (text : List Int8) (memory : Memory) : Memory :=
  writeBytes memory (layout.outputBuffer + index) text.length fun i => (text.getD i 0).toUInt8

theorem Layout.writeText_append (index : ℕ) (front back : List Int8) (memory : Memory) :
    layout.writeText (index + front.length) back (layout.writeText index front memory) =
      layout.writeText index (front ++ back) memory := by
  funext position
  rw [writeText, writeText, writeText, List.length_append]
  by_cases hback : layout.outputBuffer + (index + front.length) ≤ position ∧
      position < layout.outputBuffer + (index + front.length) + back.length
  · rw [writeBytes_of_mem hback.1 hback.2, writeBytes_of_mem (by omega) (by omega),
      List.getD_append_right _ _ _ _ (by omega)]
    congr 2
    omega
  · rw [writeBytes_of_notMem (by omega)]
    by_cases hfront : layout.outputBuffer + index ≤ position ∧
        position < layout.outputBuffer + index + front.length
    · rw [writeBytes_of_mem hfront.1 hfront.2, writeBytes_of_mem (by omega) (by omega),
        List.getD_append _ _ _ _ (by omega)]
    · rw [writeBytes_of_notMem (by omega), writeBytes_of_notMem (by omega)]

theorem Layout.writeText_nil (index : ℕ) (memory : Memory) :
    layout.writeText index [] memory = memory := by
  funext position
  exact writeBytes_of_notMem (Nat.lt_or_ge _ _)

theorem Layout.writeText_of_notMem {position : ℕ} (houtside : position < layout.outputBuffer ∨
      layout.outputBuffer + BUFMAX ≤ position) (hfits : index + text.length ≤ BUFMAX) :
    layout.writeText index text memory position = memory position :=
  writeBytes_of_notMem (by omega)

theorem Layout.output_writeText (hfits : text.length ≤ BUFMAX) (memory : Memory) :
    ∃ rest, layout.output (layout.writeText 0 text memory) = text ++ rest := by
  have htaken : (layout.output (layout.writeText 0 text memory)).take text.length = text := by
    have hlength : (layout.output (layout.writeText 0 text memory)).length = BUFMAX := by
      rw [output, List.length_map, List.length_range]
    refine List.ext_getElem (by rw [List.length_take, hlength, Nat.min_eq_left hfits])
      fun i hi hi' => ?_
    rw [List.getElem_take]
    simp only [output, List.getElem_map, List.getElem_range]
    rw [writeText, writeBytes_of_mem (by omega) (by omega),
      show layout.outputBuffer + i - (layout.outputBuffer + 0) = i by omega,
      List.getD_eq_getElem _ _ hi', Int8.toInt8_toUInt8]
  have hsplit := List.take_append_drop text.length (layout.output (layout.writeText 0 text memory))
  rw [htaken] at hsplit
  exact ⟨_, hsplit.symm⟩

theorem Layout.bytesAt_writeText (hapart : Apart address length layout.outputBuffer BUFMAX)
    (hfits : index + text.length ≤ BUFMAX) (memory : Memory) :
    bytesAt (layout.writeText index text memory) address length = bytesAt memory address length :=
  List.map_congr_left fun i hi => writeText_of_notMem (by
    have hlt := List.mem_range.mp hi
    rw [Apart] at hapart
    omega) hfits

theorem bytesAt_succ (memory : Memory) (address length : ℕ) :
    bytesAt memory address (length + 1) =
      memory address :: bytesAt memory (address + 1) length := by
  rw [bytesAt, List.range_succ_eq_map, List.map_cons, List.map_map]
  refine congrArg₂ List.cons (by rw [Nat.add_zero]) (List.map_congr_left fun i _ => ?_)
  simp only [Function.comp_apply]
  congr 1
  omega

namespace Layout.Separate

variable (hlayout : layout.Separate)

include hlayout

theorem writeOutput_memory (hindex : index < BUFMAX) (ch : Int8) (state : StubState) :
    (layout.writeOutput index ch state).memory = layout.writeText index [ch] state.memory := by
  have hend := hlayout.output_end
  funext position
  rw [writeOutput, writeText, u32_of_lt (by omega), List.length_singleton]
  dsimp only
  by_cases heq : position = layout.outputBuffer + index
  · rw [heq, Function.update_self, writeBytes_of_mem le_rfl (by omega), Nat.sub_self]
    rfl
  · rw [Function.update_of_ne heq, writeBytes_of_notMem (by omega)]

theorem writeString_memory (hfits : index + text.length < BUFMAX) (state : StubState) :
    (layout.writeString index text state).memory =
      layout.writeText index (text ++ [0]) state.memory := by
  induction text generalizing index state with
  | nil => exact hlayout.writeOutput_memory hfits 0 state
  | cons ch text ih =>
      rw [List.length_cons] at hfits
      rw [writeString, ih (by omega), hlayout.writeOutput_memory (by omega)]
      exact writeText_append index [ch] (text ++ [0]) state.memory

theorem mem2hexLoop_memory (hends : address + length ≤ 2 ^ 32)
    (hapart : Apart address length layout.outputBuffer BUFMAX)
    (hfits : index + 2 * length < BUFMAX) (state : StubState) :
    (layout.mem2hexLoop length address index state).2.memory =
      layout.writeText index (hexBytes (bytesAt state.memory address length) ++ [0])
        state.memory := by
  induction length generalizing address index state with
  | zero => exact hlayout.writeOutput_memory hfits 0 state
  | succ length ih =>
      have hread : u32 address = address := u32_of_lt (by omega)
      have hrest : Apart (address + 1) length layout.outputBuffer BUFMAX := by
        rw [Apart] at hapart ⊢
        omega
      rw [mem2hexLoop, hread, ih (by omega) hrest (by omega), hlayout.writeOutput_memory (by omega),
        hlayout.writeOutput_memory (by omega)]
      have hpair : layout.writeText (index + 1) [digit ((state.memory address).toNat % 16)]
          (layout.writeText index [digit ((state.memory address).toNat >>> 4)] state.memory) =
          layout.writeText index [digit ((state.memory address).toNat / 16),
            digit ((state.memory address).toNat % 16)] state.memory := by
        rw [Nat.shiftRight_eq_div_pow]
        exact writeText_append index [_] [_] state.memory
      rw [hpair, bytesAt_writeText hrest (by simp; omega), bytesAt_succ]
      exact writeText_append index [_, _] _ state.memory

end Layout.Separate

/-! ## Numbers and bytes in digits -/

theorem chr_digitChar : ∀ d < 16, chr (Nat.digitChar d) = digit d := by decide

theorem hexNumeral_eq (value : ℕ) :
    hexNumeral value =
      (if value < 16 then [] else hexNumeral (value / 16)) ++ [digit (value % 16)] := by
  rw [hexNumeral]
  split
  · next hlt =>
      rw [Nat.toDigits_of_lt_base hlt, Nat.mod_eq_of_lt hlt, List.nil_append, List.map_singleton,
        chr_digitChar value hlt]
  · next hge =>
      have hmod : value % 16 < 16 := Nat.mod_lt _ (by decide)
      rw [Nat.toDigits_of_base_le (by decide) (not_lt.mp hge), List.map_append,
        List.map_singleton, chr_digitChar _ hmod, hexNumeral]

theorem hexNumeral_ne_nil (value : ℕ) : hexNumeral value ≠ [] := by
  rw [hexNumeral_eq]
  exact List.concat_ne_nil _ _

theorem hex_digit_nonneg (value : ℕ) (hvalue : value < 16) : 0 ≤ hex (digit value) := by
  rw [hex_digit hvalue]
  exact Int.natCast_nonneg _

theorem hex_of_mem_hexNumeral {ch : Int8} (hmem : ch ∈ hexNumeral value) : 0 ≤ hex ch := by
  induction value using Nat.strong_induction_on with
  | h value ih =>
      rw [hexNumeral_eq, List.mem_append, List.mem_singleton] at hmem
      rcases hmem with hmem | rfl
      · split at hmem
        · exact absurd hmem List.not_mem_nil
        · exact ih (value / 16) (by omega) hmem
      · exact hex_digit_nonneg _ (Nat.mod_lt _ (by decide))

/-- A number is read as it was written. -/
theorem numberOf_hexNumeral (hvalue : value < 2 ^ 32) : numberOf (hexNumeral value) = value := by
  induction value using Nat.strong_induction_on with
  | h value ih =>
      have hdigit : (hex (digit (value % 16))).toNat = value % 16 := by
        rw [hex_digit (Nat.mod_lt _ (by decide)), Int.toNat_natCast]
      have hfront : numberOf (if value < 16 then [] else hexNumeral (value / 16)) =
          value / 16 := by
        split
        · next hlt =>
            rw [Nat.div_eq_of_lt hlt]
            rfl
        · exact ih (value / 16) (by omega) (by omega)
      have hlast : u32 ((value / 16) <<< 4) ||| value % 16 = value := by
        have hshift : u32 ((value / 16) <<< 4) = 2 ^ 4 * (value / 16) := by
          rw [Nat.shiftLeft_eq, u32_of_lt (by omega), Nat.mul_comm]
        rw [hshift, ← Nat.two_pow_add_eq_or_of_lt (Nat.mod_lt _ (by decide))]
        exact Nat.div_add_mod value 16
      rw [numberOf] at hfront
      rw [hexNumeral_eq, numberOf, List.foldl_append, hfront, List.foldl_cons, List.foldl_nil,
        hdigit, hlast]

theorem length_hexNumeral_le (hvalue : value < 2 ^ 32) : (hexNumeral value).length ≤ 8 := by
  rw [hexNumeral, List.length_map]
  exact (Nat.length_toDigits_le_iff (by decide) (by decide)).mpr (hvalue.trans_le (by norm_num))

theorem length_hexBytes (bytes : List UInt8) : (hexBytes bytes).length = 2 * bytes.length := by
  induction bytes with
  | nil => rfl
  | cons byte bytes ih =>
      rw [hexBytes, List.flatMap_cons, List.length_append, ← hexBytes, ih]
      simp only [List.length_cons, List.length_nil]
      omega

theorem hex_of_mem_hexBytes {ch : Int8} (hmem : ch ∈ hexBytes bytes) : 0 ≤ hex ch := by
  obtain ⟨byte, -, hmem⟩ := List.mem_flatMap.mp hmem
  have hbyte := toNat_lt byte
  rw [List.mem_cons, List.mem_singleton] at hmem
  rcases hmem with rfl | rfl
  · exact hex_digit_nonneg _ (by omega)
  · exact hex_digit_nonneg _ (by omega)

theorem getD_hexBytes (bytes : List UInt8) (hindex : index < bytes.length) :
    (hexBytes bytes).getD (2 * index) 0 = digit ((bytes.getD index 0).toNat / 16) ∧
      (hexBytes bytes).getD (2 * index + 1) 0 = digit ((bytes.getD index 0).toNat % 16) := by
  induction bytes generalizing index with
  | nil => exact absurd hindex (Nat.not_lt_zero _)
  | cons byte bytes ih =>
      cases index with
      | zero => exact ⟨rfl, rfl⟩
      | succ index => exact ih (Nat.succ_lt_succ_iff.mp hindex)

theorem hexByte_digits (byte : UInt8) :
    hexByte (digit (byte.toNat / 16)) (digit (byte.toNat % 16)) = byte := by
  obtain ⟨hhigh, hlow, hbyte⟩ := digits_of_byte byte
  have hvalue := hexByte_toNat hhigh hlow
  rw [hbyte] at hvalue
  exact UInt8.toNat_inj.mp (Int.ofNat_inj.mp hvalue)

/-! ## Requests -/

theorem notMark_of_hex {ch : Int8} (hch : 0 ≤ hex ch) : ch ≠ 0 ∧ ch ≠ chr '$' ∧ ch ≠ chr '#' := by
  refine ⟨?_, ?_, ?_⟩ <;> rintro rfl <;> exact absurd hch (by decide)

namespace Command

variable {command : Command}

theorem text_notMark (command : Command) :
    ∀ ch ∈ command.text, ch ≠ 0 ∧ ch ≠ chr '$' ∧ ch ≠ chr '#' := by
  have hnumeral : ∀ value, ∀ ch ∈ hexNumeral value, ch ≠ 0 ∧ ch ≠ chr '$' ∧ ch ≠ chr '#' :=
    fun _ _ hmem => notMark_of_hex (hex_of_mem_hexNumeral hmem)
  have hbytes : ∀ bytes, ∀ ch ∈ hexBytes bytes, ch ≠ 0 ∧ ch ≠ chr '$' ∧ ch ≠ chr '#' :=
    fun _ _ hmem => notMark_of_hex (hex_of_mem_hexBytes hmem)
  cases command with
  | read address length =>
      simp only [text, List.forall_mem_cons, List.forall_mem_append]
      exact ⟨by decide, hnumeral _, by decide, hnumeral _⟩
  | write address bytes =>
      simp only [text, List.forall_mem_cons, List.forall_mem_append]
      exact ⟨by decide, hnumeral _, by decide, hnumeral _, by decide, hbytes _⟩
  | readRegisters => exact List.all_iff_forall_prop.mp (by decide)
  | writeRegisters bytes =>
      simp only [text, List.forall_mem_cons]
      exact ⟨by decide, hbytes _⟩

theorem isPayload_text (hfits : command.Fits layout) : IsPayload command.text := by
  refine ⟨?_, fun ch hch => (command.text_notMark ch hch).1,
    fun ch hch => (command.text_notMark ch hch).2.1,
    fun ch hch => (command.text_notMark ch hch).2.2⟩
  cases command with
  | read address length =>
      obtain ⟨hrange, hlength⟩ := hfits
      have haddress := length_hexNumeral_le hrange.starts
      have hnumber := length_hexNumeral_le (show length < 2 ^ 32 by omega)
      simp only [text, List.length_cons, List.length_append, BUFMAX]
      omega
  | write address bytes => exact hfits.2
  | readRegisters => decide
  | writeRegisters bytes =>
      have hlength : bytes.length = 64 := hfits
      simp only [text, List.length_cons, length_hexBytes, hlength]
      decide

end Command

/-- Address and length are read as they were sent. -/
theorem addressAndLength_eq (haddress : address < 2 ^ 32) (hlength : length < 2 ^ 32)
    (hrest : ∀ ch, back.head? = some ch → hex ch < 0) :
    addressAndLength (hexNumeral address ++ chr ',' :: (hexNumeral length ++ back)) =
      some (address, length, back) := by
  obtain ⟨count, hfirst⟩ := @hexToInt_eq (hexNumeral address)
    (chr ',' :: (hexNumeral length ++ back)) (fun _ => hex_of_mem_hexNumeral)
    (hexNumeral_ne_nil address) (by simpa using (by decide : hex (chr ',') < 0))
  obtain ⟨count', hsecond⟩ := @hexToInt_eq (hexNumeral length) back
    (fun _ => hex_of_mem_hexNumeral) (hexNumeral_ne_nil length) hrest
  rw [numberOf_hexNumeral haddress] at hfirst
  rw [numberOf_hexNumeral hlength] at hsecond
  simp only [addressAndLength, hfirst, hsecond, if_true]

/-! ## One request -/

variable {filled : List Int8} {command : Command}

namespace Layout

theorem Agrees.writeText (hagrees : layout.Agrees memory program)
    (hfits : index + text.length ≤ BUFMAX) :
    layout.Agrees (layout.writeText index text memory) program :=
  fun position hposition =>
    (writeText_of_notMem hposition.2.1 hfits).trans (hagrees position hposition)

theorem Agrees.received (hlayout : layout.Separate) (hagrees : layout.Agrees state.memory program)
    (filled : List Int8) : layout.Agrees (layout.received filled state).memory program := by
  intro position hposition
  have hcleared : layout.Agrees (layout.writeOutput 0 0 state).memory program := by
    rw [hlayout.writeOutput_memory (by decide)]
    exact hagrees.writeText (by decide)
  have hread : (layout.received filled state).memory position =
      (layout.writeOutput 0 0 state).memory position := by
    rw [Layout.received]
    dsimp only
    rw [writeBytes_of_notMem hposition.1]
  exact hread.trans (hcleared position hposition)

theorem Range.outside (hrange : layout.Range address length) (hindex : index < length) :
    layout.Outside (address + index) := by
  obtain ⟨-, -, hinput, houtput, hregisters⟩ := hrange
  rw [Apart] at hinput houtput hregisters
  exact ⟨by omega, by omega, by omega⟩

theorem Agrees.bytesAt (hagrees : layout.Agrees memory program)
    (hrange : layout.Range address length) :
    bytesAt memory address length = Gdb.bytesAt program address length :=
  List.map_congr_left fun _ hi => hagrees _ (hrange.outside (List.mem_range.mp hi))

theorem Agrees.writeBytes (hagrees : layout.Agrees memory program) (address length : ℕ)
    (bytes : ℕ → UInt8) :
    layout.Agrees (writeBytes memory address length bytes)
      (ByteMemory.writeBytes program address length bytes) := by
  intro position hposition
  rw [ByteMemory.writeBytes, ByteMemory.writeBytes, hagrees position hposition]

theorem Agrees.of_eq_outside (hagrees : layout.Agrees memory program)
    (hsame : ∀ position, layout.Outside position → memory' position = memory position) :
    layout.Agrees memory' program :=
  fun position hposition => (hsame position hposition).trans (hagrees position hposition)

/-- What `hex2mem` makes of the digits in the request. -/
theorem hex2memLoop_received (hlayout : layout.Separate) (hfilled : filled.length = BUFMAX)
    {rest : List Int8} (hrequest : filled = front ++ hexBytes bytes ++ rest)
    (hends : address + bytes.length ≤ 2 ^ 32)
    (hapart : Apart address bytes.length layout.inputBuffer BUFMAX) (state : StubState) :
    hex2memLoop bytes.length address (layout.inputBuffer + front.length)
        (layout.received filled state).memory =
      writeBytes (layout.received filled state).memory address bytes.length
        fun index => bytes.getD index 0 := by
  have hinput := hlayout.input_end
  have hlength := congrArg List.length hrequest
  rw [List.length_append, List.length_append, length_hexBytes, hfilled] at hlength
  have hchar : ∀ index < 2 * bytes.length, ((layout.received filled state).memory
      (layout.inputBuffer + front.length + index)).toInt8 = (hexBytes bytes).getD index 0 := by
    intro index hindex
    rw [Nat.add_assoc, layout.received_input _ _ (by omega), hrequest, List.append_assoc,
      List.getD_append_right _ _ _ _ (by omega), Nat.add_sub_cancel_left,
      List.getD_append _ _ _ _ (by rw [length_hexBytes]; exact hindex)]
  rw [Apart] at hapart
  rw [hex2memLoop_eq hends (by omega) (by rw [Apart]; omega)]
  funext position
  by_cases hin : address ≤ position ∧ position < address + bytes.length
  · rw [writeBytes_of_mem hin.1 hin.2, writeBytes_of_mem hin.1 hin.2, hchar _ (by omega),
      Nat.add_assoc _ (2 * _), hchar _ (by omega)]
    obtain ⟨hhigh, hlow⟩ := getD_hexBytes bytes (show position - address < bytes.length by omega)
    rw [hhigh, hlow, hexByte_digits]
  · rw [writeBytes_of_notMem (by omega), writeBytes_of_notMem (by omega)]

/-- The request was answered, and the program's memory is as it should be. -/
structure Served (layout : Layout) (served : Bool × StubState) (reply : List Int8)
    (program : Memory) : Prop where
  goesOn : served.1 = false
  replies : ∃ rest, layout.output served.2.memory = reply ++ 0 :: rest
  agrees : layout.Agrees served.2.memory program

theorem served_of_writeText {served : Bool × StubState} (hgoesOn : served.1 = false)
    (hmemory : served.2.memory = layout.writeText 0 (text ++ [0]) memory)
    (hfits : text.length < BUFMAX) (hagrees : layout.Agrees memory program) :
    layout.Served served text program := by
  have hlength : (text ++ [(0 : Int8)]).length ≤ BUFMAX := by
    rw [List.length_append, List.length_singleton]
    exact hfits
  obtain ⟨rest, houtput⟩ := output_writeText hlength memory
  refine ⟨hgoesOn, ⟨rest, ?_⟩, ?_⟩
  · rw [hmemory, houtput, List.append_assoc, List.singleton_append]
  · rw [hmemory]
    exact hagrees.writeText (by omega)

theorem dispatch_M (unixSignal : ℕ) (ptr : List Int8) (state : StubState) :
    layout.dispatch unixSignal (chr 'M' :: ptr) state =
      (false, layout.writeMemory (chr 'M' :: ptr) ptr state) := by
  rw [dispatch]
  repeat rw [if_neg (by decide)]
  rw [if_pos rfl]

theorem dispatch_g (unixSignal : ℕ) (ptr : List Int8) (state : StubState) :
    layout.dispatch unixSignal (chr 'g' :: ptr) state =
      (false, layout.replyMemory layout.gdbRegisters (NUMREGS * 4)
        { state with memory := layout.importRegisters state.memory }) := by
  rw [dispatch]
  repeat rw [if_neg (by decide)]
  rw [if_pos rfl]

theorem dispatch_G (unixSignal : ℕ) (ptr : List Int8) (state : StubState) :
    layout.dispatch unixSignal (chr 'G' :: ptr) state =
      (false, layout.writeString 0 ok { state with
        memory := layout.exportRegisters (hex2mem layout.gdbRegisters
          (layout.ptrOf (chr 'G' :: ptr) ptr) (NUMREGS * 4) state.memory) }) := by
  rw [dispatch]
  repeat rw [if_neg (by decide)]
  rw [if_pos rfl]

end Layout

theorem signed_of_small (hvalue : value < 2 ^ 31) : signed value = value := by
  have hpow : (2 ^ 32 : ℕ) = 4294967296 := by norm_num
  have hmod : (value : ℤ) % ((4294967296 : ℕ) : ℤ) = value := by
    apply Int.emod_eq_of_lt <;> omega
  unfold signed
  rw [hpow, Int.bmod_def, hmod, if_pos]
  omega

namespace Layout

variable (hlayout : layout.Separate) (hagrees : layout.Agrees state.memory program)

include hlayout hagrees

theorem served_read (hfits : (Command.read address length).Fits layout)
    (hstring : cString filled = (Command.read address length).text) (unixSignal : ℕ) :
    layout.Served (layout.serve unixSignal filled state)
      ((Command.read address length).reply layout program)
      ((Command.read address length).effect layout program) := by
  obtain ⟨hrange, hlength⟩ := hfits
  have hreceived := hagrees.received hlayout filled
  have hparsed := addressAndLength_eq hrange.starts (show length < 2 ^ 32 by omega)
    (show ∀ ch, ([] : List Int8).head? = some ch → hex ch < 0 by simp)
  rw [List.append_nil] at hparsed
  have hmemory := hlayout.mem2hexLoop_memory hrange.ends hrange.output
    (show 0 + 2 * length < BUFMAX by rw [BUFMAX]; omega) (layout.received filled state)
  rw [hreceived.bytesAt hrange] at hmemory
  have hreply : layout.replyMemory address (signed length) (layout.received filled state) =
      (layout.mem2hexLoop length address 0 (layout.received filled state)).2 := by
    rw [replyMemory, mem2hex, signed_of_small (show length < 2 ^ 31 by omega), Int.toNat_natCast]
  have hserve : layout.serve unixSignal filled state =
      (false, (layout.mem2hexLoop length address 0 (layout.received filled state)).2) := by
    rw [serve_eq, hstring, Command.text, dispatch_m, readMemory, hparsed, ← hreply]
  have hshort : (hexBytes (bytesAt program address length)).length < BUFMAX := by
    rw [length_hexBytes, bytesAt, List.length_map, List.length_range, BUFMAX]
    omega
  have hanswer : (Command.read address length).reply layout program =
      hexBytes (Gdb.bytesAt program address length) := rfl
  rw [hserve, hanswer]
  exact served_of_writeText rfl hmemory hshort hreceived

theorem served_write (hfits : (Command.write address bytes).Fits layout)
    (hfilled : filled.length = BUFMAX)
    (hstring : cString filled = (Command.write address bytes).text) (unixSignal : ℕ) :
    layout.Served (layout.serve unixSignal filled state)
      ((Command.write address bytes).reply layout program)
      ((Command.write address bytes).effect layout program) := by
  obtain ⟨hrange, hlength⟩ := hfits
  have hreceived := hagrees.received hlayout filled
  rw [Command.text] at hstring hlength
  simp only [List.length_cons, List.length_append, length_hexBytes, BUFMAX] at hlength
  have hparsed := addressAndLength_eq hrange.starts (show bytes.length < 2 ^ 32 by omega)
    (show ∀ ch, (chr ':' :: hexBytes bytes).head? = some ch → hex ch < 0 by
      simpa using (by decide : hex (chr ':') < 0))
  have hfront : chr 'M' :: (hexNumeral address ++ chr ',' :: (hexNumeral bytes.length ++
      chr ':' :: hexBytes bytes)) =
        (chr 'M' :: (hexNumeral address ++ chr ',' :: (hexNumeral bytes.length ++ [chr ':']))) ++
          hexBytes bytes := by simp
  have hrequest := List.takeWhile_append_dropWhile (p := (· ≠ 0)) (l := filled)
  rw [← cString, hstring, hfront] at hrequest
  have hwritten := hex2memLoop_received hlayout hfilled hrequest.symm hrange.ends hrange.input state
  have hptr : layout.ptrOf (chr 'M' :: (hexNumeral address ++ chr ',' ::
      (hexNumeral bytes.length ++ chr ':' :: hexBytes bytes))) (hexBytes bytes) =
        layout.inputBuffer + (chr 'M' :: (hexNumeral address ++ chr ',' ::
          (hexNumeral bytes.length ++ [chr ':']))).length := by
    simp only [ptrOf, List.length_cons, List.length_append, List.length_nil]
    omega
  rw [serve_eq, hstring, dispatch_M, writeMemory, hparsed]
  simp only [if_true, hptr, hex2mem, signed_of_small (show bytes.length < 2 ^ 31 by omega),
    Int.toNat_natCast, hwritten]
  exact served_of_writeText rfl (hlayout.writeString_memory (by decide) _)
    (show ok.length < BUFMAX by decide)
    (hreceived.writeBytes address bytes.length fun index => bytes.getD index 0)

omit hagrees in
/-- The trap frame belongs to the program. -/
theorem range_ctx {offset size : ℕ} (hoffset : offset + size ≤ sizeofTrapframe)
    (hsize : 0 < size) : layout.Range (layout.ctx + offset) size := by
  obtain ⟨-, -, -, hend, -, -, hinput, -, houtput, hregisters⟩ := hlayout
  rw [Apart] at hinput houtput hregisters
  exact ⟨by omega, by omega, by rw [Apart]; omega, by rw [Apart]; omega, by rw [Apart]; omega⟩

omit hagrees in
/-- The copy that the stub makes holds the registers in their order. -/
theorem bytesAt_importRegisters (hagrees : layout.Agrees memory program) :
    Gdb.bytesAt (layout.importRegisters memory) layout.gdbRegisters 64 =
      registerConversion.flatMap fun register =>
        Gdb.bytesAt program (layout.ctx + register.offsetTF) register.size := by
  have hplaces : registerConversion.flatMap (fun register =>
      (List.range register.size).map (register.offsetGDB + ·)) = List.range 64 := by decide
  have hapart := hlayout.registers_ctx
  rw [Apart, sizeofTrapframe] at hapart
  rw [Gdb.bytesAt, ← hplaces, List.map_flatMap]
  refine List.flatMap_congr fun register hmem => ?_
  obtain ⟨hsize, htrapframe, hcopy⟩ := registerConversion_bounds register hmem
  rw [List.map_map]
  refine List.map_congr_left fun i hi => ?_
  rw [List.mem_range] at hi
  have hcopied := @copyAll_apply memory _ (fun item => layout.gdbRegisters + item.offsetGDB)
    (fun item => layout.ctx + item.offsetTF) RegisterConversion.size registerConversion
    (registerConversion_pairwise.imp fun {left right} h => by omega)
    (fun left hleft right hright => by
      have hleft := registerConversion_bounds left hleft
      have hright := registerConversion_bounds right hright
      omega) register hmem i hi
  have hrange := range_ctx hlayout (show register.offsetTF + register.size ≤ sizeofTrapframe by
    rw [sizeofTrapframe]; omega) (by omega)
  rw [Function.comp_apply, ← Nat.add_assoc, importRegisters_eq, hcopied]
  exact hagrees _ (hrange.outside hi)

theorem served_readRegisters (hstring : cString filled = Command.readRegisters.text)
    (unixSignal : ℕ) :
    layout.Served (layout.serve unixSignal filled state)
      (Command.readRegisters.reply layout program)
      (Command.readRegisters.effect layout program) := by
  have hreceived := hagrees.received hlayout filled
  have houtput := hlayout.output_registers
  rw [Apart] at houtput
  have himported : layout.Agrees (layout.importRegisters (layout.received filled state).memory)
      program := by
    refine hreceived.of_eq_outside fun position hposition => ?_
    rw [importRegisters_eq]
    refine copyAll_of_notMem fun item hitem => ?_
    have hbounds := registerConversion_bounds item hitem
    have hregisters := hposition.2.2
    omega
  obtain ⟨imported, hdef⟩ : ∃ imported : StubState, imported =
      { layout.received filled state with
        memory := layout.importRegisters (layout.received filled state).memory } := ⟨_, rfl⟩
  have hread : imported.memory = layout.importRegisters (layout.received filled state).memory := by
    rw [hdef]
  have hmemory := hlayout.mem2hexLoop_memory hlayout.registers_end
    (show Apart layout.gdbRegisters 64 layout.outputBuffer BUFMAX by rw [Apart]; omega)
    (show 0 + 2 * 64 < BUFMAX by decide) imported
  rw [hread, bytesAt_importRegisters hlayout hreceived] at hmemory
  have hserve : layout.serve unixSignal filled state =
      (false, (layout.mem2hexLoop 64 layout.gdbRegisters 0 imported).2) := by
    rw [serve_eq, hstring, Command.text, dispatch_g, hdef]
    rfl
  have hreply : Command.readRegisters.reply layout program = hexBytes
      (registerConversion.flatMap fun register =>
        Gdb.bytesAt program (layout.ctx + register.offsetTF) register.size) := rfl
  rw [hserve, hreply]
  refine served_of_writeText rfl hmemory ?_ himported
  have hlength : (registerConversion.flatMap fun register =>
      Gdb.bytesAt program (layout.ctx + register.offsetTF) register.size).length = 64 := by
    simp only [List.length_flatMap, Gdb.bytesAt, List.length_map, List.length_range]
    decide
  rw [length_hexBytes, hlength]
  decide

omit hagrees in
/-- The registers go to their places in the trap frame. -/
theorem agrees_exportRegisters {items : List RegisterConversion}
    (hitems : ∀ item ∈ items, item.size = 4 ∧ item.offsetTF + 4 ≤ 76 ∧ item.offsetGDB + 4 ≤ 64)
    (hcopy : ∀ place < 64, memory (layout.gdbRegisters + place) = bytes.getD place 0)
    (hagrees : layout.Agrees memory program) :
    layout.Agrees
      (copyAll (fun item => layout.ctx + item.offsetTF)
        (fun item => layout.gdbRegisters + item.offsetGDB) RegisterConversion.size items memory)
      (items.foldl (fun memory register =>
        writeBytes memory (layout.ctx + register.offsetTF) register.size fun index =>
          bytes.getD (register.offsetGDB + index) 0) program) := by
  induction items generalizing memory program with
  | nil => exact hagrees
  | cons item items ih =>
      obtain ⟨⟨hsize, htrapframe, hplace⟩, hitems⟩ := List.forall_mem_cons.mp hitems
      have hapart := hlayout.registers_ctx
      rw [Apart, sizeofTrapframe] at hapart
      rw [List.foldl_cons, copyAll, List.foldl_cons, ← copyAll]
      refine ih hitems (fun place hlt => ?_) fun position hposition => ?_
      · rw [writeBytes_of_notMem (by omega)]
        exact hcopy place hlt
      · by_cases hin : layout.ctx + item.offsetTF ≤ position ∧
            position < layout.ctx + item.offsetTF + item.size
        · rw [writeBytes_of_mem hin.1 hin.2, writeBytes_of_mem hin.1 hin.2, Nat.add_assoc]
          exact hcopy _ (by omega)
        · rw [writeBytes_of_notMem (by omega), writeBytes_of_notMem (by omega)]
          exact hagrees position hposition

theorem served_writeRegisters (hfits : (Command.writeRegisters bytes).Fits layout)
    (hfilled : filled.length = BUFMAX)
    (hstring : cString filled = (Command.writeRegisters bytes).text) (unixSignal : ℕ) :
    layout.Served (layout.serve unixSignal filled state)
      ((Command.writeRegisters bytes).reply layout program)
      ((Command.writeRegisters bytes).effect layout program) := by
  have hlength : bytes.length = 64 := hfits
  have hreceived := hagrees.received hlayout filled
  have hinput := hlayout.input_registers
  rw [Apart] at hinput
  have hrequest := List.takeWhile_append_dropWhile (p := (· ≠ 0)) (l := filled)
  rw [← cString, hstring, Command.text, ← List.singleton_append] at hrequest
  have hends := hlayout.registers_end
  have hwritten := hex2memLoop_received hlayout hfilled hrequest.symm (hlength ▸ hends)
    (by rw [Apart, hlength]; omega) state
  rw [hlength] at hwritten
  have hptr : layout.ptrOf (chr 'G' :: hexBytes bytes) (hexBytes bytes) =
      layout.inputBuffer + [chr 'G'].length := by
    simp only [ptrOf, List.length_cons, List.length_nil]
    omega
  have hcopied : layout.Agrees (writeBytes (layout.received filled state).memory
      layout.gdbRegisters 64 fun index => bytes.getD index 0) program := by
    refine hreceived.of_eq_outside fun position hposition => writeBytes_of_notMem ?_
    exact hposition.2.2
  have hexported := agrees_exportRegisters hlayout registerConversion_bounds
    (fun place hplace => by
      rw [writeBytes_of_mem (Nat.le_add_right _ _) (by omega), Nat.add_sub_cancel_left]) hcopied
  rw [← exportRegisters_eq] at hexported
  have hserve : layout.serve unixSignal filled state =
      (false, layout.writeString 0 ok { layout.received filled state with
        memory := layout.exportRegisters (writeBytes (layout.received filled state).memory
          layout.gdbRegisters 64 fun index => bytes.getD index 0) }) := by
    rw [serve_eq, hstring, Command.text, dispatch_G, hptr, ← hwritten]
    rfl
  rw [hserve]
  exact served_of_writeText rfl (hlayout.writeString_memory (by decide) _)
    (show ok.length < BUFMAX by decide) hexported

/-- Every command is answered, and done to the program. -/
theorem served_command (hfits : command.Fits layout) (hfilled : filled.length = BUFMAX)
    (hstring : cString filled = command.text) (unixSignal : ℕ) :
    layout.Served (layout.serve unixSignal filled state) (command.reply layout program)
      (command.effect layout program) := by
  cases command with
  | read address length => exact served_read hlayout hagrees hfits hstring unixSignal
  | write address bytes => exact served_write hlayout hagrees hfits hfilled hstring unixSignal
  | readRegisters => exact served_readRegisters hlayout hagrees hstring unixSignal
  | writeRegisters bytes =>
      exact served_writeRegisters hlayout hagrees hfits hfilled hstring unixSignal

end Layout

/-! ## The report of the stop -/

namespace Layout

theorem writeText_last (front : List Int8) (old new : Int8) (memory : Memory) :
    layout.writeText (index + front.length) [new] (layout.writeText index (front ++ [old]) memory) =
      layout.writeText index (front ++ [new]) memory := by
  have htwice : ∀ place memory, layout.writeText place [new] (layout.writeText place [old] memory) =
      layout.writeText place [new] memory := by
    intro place memory
    funext position
    simp only [writeText, writeBytes, List.length_singleton]
    split <;> rfl
  rw [← writeText_append, htwice, writeText_append]

variable (hlayout : layout.Separate)

include hlayout

theorem writeRegister_memory {number offset : ℕ} (hoffset : offset + 4 ≤ sizeofTrapframe)
    (hfits : index + 11 < BUFMAX) (state : StubState) :
    (layout.writeRegister number offset index state).2.memory =
      layout.writeText index (registerReport layout state.memory number offset) state.memory := by
  have hrange := range_ctx hlayout hoffset (by decide)
  have hloop := @Separate.mem2hexLoop_memory layout (index + 2) _ _ hlayout hrange.ends
    hrange.output (show index + 2 + 2 * 4 < BUFMAX by omega)
    (layout.writeOutput (index + 1) (chr ':') (layout.writeOutput index (digit number) state))
  have hmarks : (layout.writeOutput (index + 1) (chr ':')
      (layout.writeOutput index (digit number) state)).memory =
        layout.writeText index [digit number, chr ':'] state.memory := by
    rw [hlayout.writeOutput_memory (by omega), hlayout.writeOutput_memory (by omega)]
    exact writeText_append index [digit number] [chr ':'] state.memory
  rw [hmarks, bytesAt_writeText hrange.output (by simp; omega)] at hloop
  have hlength : (hexBytes (Gdb.bytesAt state.memory (layout.ctx + offset) 4)).length = 8 := by
    rw [length_hexBytes, Gdb.bytesAt, List.length_map, List.length_range]
  have hbehind := @writeText_append layout index [digit number, chr ':']
    (hexBytes (Gdb.bytesAt state.memory (layout.ctx + offset) 4) ++ [0]) state.memory
  have hlast := @writeText_last layout index ([digit number, chr ':'] ++
    hexBytes (Gdb.bytesAt state.memory (layout.ctx + offset) 4)) 0 (chr ';') state.memory
  rw [← List.append_assoc] at hbehind
  rw [List.length_append, hlength] at hlast
  have hcount : (4 : ℤ).toNat = 4 := rfl
  simp only [writeRegister, mem2hex, hcount]
  rw [mem2hexLoop_fst, hlayout.writeOutput_memory (by omega), hloop, registerReport, ← hlast,
    ← hbehind]
  rfl

theorem registerReport_writeText {number offset : ℕ} (hoffset : offset + 4 ≤ sizeofTrapframe)
    (hfits : index + text.length ≤ BUFMAX) (memory : Memory) :
    registerReport layout (layout.writeText index text memory) number offset =
      registerReport layout memory number offset := by
  rw [registerReport, registerReport,
    bytesAt_writeText (range_ctx hlayout hoffset (by decide)).output hfits]

theorem firstReply_memory (unixSignal : ℕ) (memory : Memory) :
    (layout.firstReply unixSignal ⟨memory, []⟩).memory =
      layout.writeText 0 ([chr 'T', digit (unixSignal / 16), digit (unixSignal % 16)] ++
        registerReport layout memory 4 28 ++ registerReport layout memory 5 24 ++
        registerReport layout memory 8 56 ++ [0]) memory := by
  have hlength : ∀ memory number offset,
      (registerReport layout memory number offset).length = 11 := by
    intro memory number offset
    simp [registerReport, length_hexBytes, Gdb.bytesAt]
  have hhigh : unixSignal >>> 4 = unixSignal / 16 := Nat.shiftRight_eq_div_pow unixSignal 4
  have hlow : unixSignal &&& 0xF = unixSignal % 16 :=
    Nat.and_two_pow_sub_one_eq_mod unixSignal 4
  have hmarks : (layout.writeOutput 2 (digit (unixSignal % 16)) (layout.writeOutput 1
      (digit (unixSignal / 16)) (layout.writeOutput 0 (chr 'T') ⟨memory, []⟩))).memory =
        layout.writeText 0 [chr 'T', digit (unixSignal / 16), digit (unixSignal % 16)] memory := by
    rw [hlayout.writeOutput_memory (by decide), hlayout.writeOutput_memory (by decide),
      hlayout.writeOutput_memory (by decide)]
    have hfirst := @writeText_append layout 0 [chr 'T'] [digit (unixSignal / 16)] memory
    have hsecond := @writeText_append layout 0 [chr 'T', digit (unixSignal / 16)]
      [digit (unixSignal % 16)] memory
    exact (congrArg _ hfirst).trans hsecond
  have hnext : ∀ (front : List Int8) place number offset, offset + 4 ≤ sizeofTrapframe →
      0 + front.length = place → front.length ≤ BUFMAX →
      layout.writeText place (registerReport layout (layout.writeText 0 front memory) number offset)
          (layout.writeText 0 front memory) =
        layout.writeText 0 (front ++ registerReport layout memory number offset) memory := by
    intro front place number offset hoffset hplace hfits
    rw [registerReport_writeText hlayout hoffset (by omega), ← hplace]
    exact writeText_append 0 front _ memory
  simp only [firstReply, hhigh, hlow]
  rw [writeRegister_fst, writeRegister_fst, writeRegister_fst,
    hlayout.writeOutput_memory (by decide), writeRegister_memory hlayout (by decide) (by decide),
    writeRegister_memory hlayout (by decide) (by decide),
    writeRegister_memory hlayout (by decide) (by decide), hmarks,
    hnext _ 3 4 28 (by decide) rfl (by simp [BUFMAX]),
    hnext _ (3 + 11) 5 24 (by decide) (by simp [hlength]) (by simp [hlength, BUFMAX]),
    hnext _ (3 + 11 + 11) 8 56 (by decide) (by simp [hlength]) (by simp [hlength, BUFMAX]),
    ← writeText_append 0 _ [0] memory]
  simp [hlength]

end Layout

/-! ## Sessions -/

theorem ok_ne_zero : ∀ ch ∈ ok, ch ≠ 0 := List.all_iff_forall_prop.mp (by decide)

theorem hexBytes_ne_zero (bytes : List UInt8) : ∀ ch ∈ hexBytes bytes, ch ≠ 0 :=
  fun _ hmem => (notMark_of_hex (hex_of_mem_hexBytes hmem)).1

theorem Command.reply_ne_zero (command : Command) (layout : Layout) (memory : Memory) :
    ∀ ch ∈ command.reply layout memory, ch ≠ 0 := by
  cases command with
  | read address length => exact hexBytes_ne_zero _
  | write address bytes => exact ok_ne_zero
  | readRegisters => exact hexBytes_ne_zero _
  | writeRegisters bytes => exact ok_ne_zero

/-- A packet that comes in whole is taken and acknowledged. -/
theorem getpacket_packetOf {payload noise buffer : List Int8} (hpayload : IsPayload payload)
    (hnoise : chr '$' ∉ noise) (hbuffer : buffer.length = BUFMAX) (incoming : List Int8) :
    ∃ filled, cString filled = payload ∧ filled.length = BUFMAX ∧
      getpacket buffer (noise ++ packetOf payload ++ incoming) =
        ⟨[chr '+'], some (filled, incoming)⟩ := by
  obtain ⟨hhigh, hlow, hbyte⟩ := digits_of_byte (checksumOf 0 payload)
  obtain ⟨filled, hstring, hlength, hread⟩ := getpacket_framed hpayload hnoise hbuffer
    (digit ((checksumOf 0 payload).toNat / 16)) (digit ((checksumOf 0 payload).toNat % 16))
  refine ⟨filled, hstring, hlength, ?_⟩
  rw [packetOf, hread, readChecksum_eq hhigh hlow, if_pos hbyte]

namespace Layout

variable (hlayout : layout.Separate)

include hlayout

/-- The program goes on where it was stopped. -/
theorem serve_goOn (hagrees : layout.Agrees state.memory program) {stepping : Bool}
    (hstring : cString filled = [if stepping then chr 's' else chr 'c']) (unixSignal : ℕ) :
    ∃ state', layout.serve unixSignal filled state = (true, state') ∧
      layout.Agrees state'.memory (goOn layout stepping program) := by
  have hreceived := hagrees.received hlayout filled
  have hrange := range_ctx hlayout (show 64 + 4 ≤ sizeofTrapframe by decide) (by decide)
  have hflags : layout.register (layout.received filled state).memory 9 =
      layout.register program 9 :=
    load32_congr fun i hi => hreceived _ (hrange.outside hi)
  have hresume : layout.resume [] stepping (layout.received filled state).memory =
      goOn layout stepping (layout.received filled state).memory := rfl
  rw [serve_eq, hstring, dispatch_resume]
  refine ⟨_, rfl, ?_⟩
  rw [hresume, goOn, goOn, hflags]
  exact hreceived.writeBytes _ _ _

theorem lineLoop_eq {exchanges : List Exchange}
    (hexchanges : ∀ exchange ∈ exchanges, exchange.Allowed layout) {noise buffer : List Int8}
    (hnoise : chr '$' ∉ noise) (hbuffer : buffer.length = BUFMAX)
    (hagrees : layout.Agrees state.memory program) {fuel : ℕ} (hfuel : exchanges.length < fuel)
    (stepping : Bool) (later : List Int8) (unixSignal : ℕ) :
    ∃ state', layout.lineLoop unixSignal fuel buffer
        (exchanges.flatMap Exchange.line ++ (noise ++ resumePacket stepping ++ later)) state =
        .ok ⟨answersTo layout program exchanges ++ [chr '+'], true, state'⟩ ∧
      layout.Agrees state'.memory
        (goOn layout stepping (memoryAfter layout program exchanges)) := by
  induction exchanges generalizing fuel buffer state program with
  | nil =>
      obtain ⟨fuel, rfl⟩ := Nat.exists_eq_succ_of_ne_zero (Nat.ne_of_gt hfuel)
      have hpayload : IsPayload [if stepping then chr 's' else chr 'c'] := by
        cases stepping <;> decide
      obtain ⟨filled, hstring, -, hread⟩ := getpacket_packetOf hpayload hnoise hbuffer later
      obtain ⟨state', hserve, hafter⟩ := serve_goOn hlayout hagrees hstring unixSignal
      refine ⟨state', ?_, hafter⟩
      rw [List.flatMap_nil, List.nil_append, lineLoop, resumePacket, hread]
      simp only [hserve]
      rfl
  | cons exchange exchanges ih =>
      obtain ⟨fuel, rfl⟩ := Nat.exists_eq_succ_of_ne_zero (Nat.ne_of_gt (Nat.zero_lt_of_lt hfuel))
      rw [List.length_cons, Nat.succ_lt_succ_iff] at hfuel
      obtain ⟨hfirst, hrest⟩ := List.forall_mem_cons.mp hexchanges
      have hpayload := Command.isPayload_text hfirst.fits
      obtain ⟨filled, hstring, hlength, hread⟩ := getpacket_packetOf hpayload hfirst.noise hbuffer
        (exchange.refusals ++ chr '+' :: (exchanges.flatMap Exchange.line ++
          (noise ++ resumePacket stepping ++ later)))
      obtain ⟨hgoesOn, ⟨rest, houtput⟩, hafter⟩ :=
        served_command hlayout hagrees hfirst.fits hlength hstring unixSignal
      have hput := @putpacket_eq _ rest (exchange.command.reply_ne_zero layout program)
        exchange.refusals (exchanges.flatMap Exchange.line ++
          (noise ++ resumePacket stepping ++ later)) hfirst.refusals
      obtain ⟨state', hloop, hfinal⟩ := ih hrest hlength hafter hfuel
      refine ⟨state', ?_, hfinal⟩
      have hincoming : (exchange :: exchanges).flatMap Exchange.line ++
          (noise ++ resumePacket stepping ++ later) =
          exchange.noise ++ packetOf exchange.command.text ++ (exchange.refusals ++ chr '+' ::
            (exchanges.flatMap Exchange.line ++ (noise ++ resumePacket stepping ++ later))) := by
        simp [Exchange.line]
      rw [hincoming, lineLoop, hread]
      dsimp only
      cases hserve : layout.serve unixSignal filled state with
      | mk returned after =>
          rw [hserve] at hgoesOn houtput hloop
          dsimp only at hgoesOn houtput hloop
          subst hgoesOn
          simp only [houtput, hput, ok_bind, hloop]
          simp only [answersTo, sentPacket, List.cons_append, List.nil_append, List.append_assoc]

end Layout

theorem gdbstubComputeSignal_lt (exceptionVector : ℤ) :
    gdbstubComputeSignal exceptionVector < 256 := by
  have hite : ∀ (vector : ℤ) {signal other : ℕ}, signal < 256 → other < 256 →
      (if exceptionVector = vector then signal else other) < 256 := by
    intro vector signal other hsignal hother
    split
    · exact hsignal
    · exact hother
  rw [gdbstubComputeSignal]
  repeat refine hite _ (by decide) ?_
  decide

theorem stopReport_ne_zero (layout : Layout) (memory : Memory) :
    ∀ ch ∈ stopReport layout memory, ch ≠ 0 := by
  have hsignal := gdbstubComputeSignal_lt (signed (load32 memory (layout.ctx + 48)))
  have hdigit : ∀ value < 16, digit value ≠ 0 := fun value hvalue =>
    (notMark_of_hex (hex_digit_nonneg value hvalue)).1
  have hregister : ∀ number offset, number < 16 →
      ∀ ch ∈ registerReport layout memory number offset, ch ≠ 0 := by
    intro number offset hnumber
    simp only [registerReport, List.forall_mem_append, List.forall_mem_cons]
    exact ⟨⟨⟨hdigit number hnumber, by decide, by simp⟩, hexBytes_ne_zero _⟩, by decide, by simp⟩
  simp only [stopReport, List.forall_mem_append, List.forall_mem_cons]
  exact ⟨⟨⟨⟨by decide, hdigit _ (by omega), hdigit _ (Nat.mod_lt _ (by decide)), by simp⟩,
    hregister 4 28 (by decide)⟩, hregister 5 24 (by decide)⟩, hregister 8 56 (by decide)⟩

/-- From the stop until the program goes on, the debugger sees and changes the program's memory
and its registers as if they were its own, and the program goes on with what it left.  The
packet that ends the session names no address to go on at. -/
theorem handleOnLine_refines {layout : Layout} (hlayout : layout.Separate)
    {inputBuffer : List Int8} (hbuffer : inputBuffer.length = BUFMAX) (memory : Memory)
    {refusals : List Int8} (hrefusals : ∀ ch ∈ refusals, ch ≠ chr '+') {exchanges : List Exchange}
    (hexchanges : ∀ exchange ∈ exchanges, exchange.Allowed layout) {noise : List Int8}
    (hnoise : chr '$' ∉ noise) (stepping : Bool) (later : List Int8) {fuel : ℕ}
    (hfuel : exchanges.length < fuel) :
    ∃ state, layout.handleOnLine fuel inputBuffer
        (refusals ++ chr '+' :: (exchanges.flatMap Exchange.line ++
          (noise ++ resumePacket stepping ++ later))) memory =
        .ok ⟨sentPacket refusals (stopReport layout memory) ++
          (answersTo layout memory exchanges ++ [chr '+']), true, state⟩ ∧
      layout.Agrees state.memory (goOn layout stepping (memoryAfter layout memory exchanges)) := by
  have hreport := Layout.firstReply_memory hlayout
    (gdbstubComputeSignal (signed (load32 memory (layout.ctx + 48)))) memory
  have hfits : (stopReport layout memory ++ [0]).length ≤ BUFMAX := by
    simp [stopReport, registerReport, length_hexBytes, bytesAt, BUFMAX]
  obtain ⟨rest, houtput⟩ := Layout.output_writeText hfits memory
  have hagrees : layout.Agrees (layout.firstReply
      (gdbstubComputeSignal (signed (load32 memory (layout.ctx + 48)))) ⟨memory, []⟩).memory
        memory := by
    rw [hreport]
    exact Layout.Agrees.writeText (fun _ _ => rfl) (by rw [Nat.zero_add]; exact hfits)
  obtain ⟨state, hloop, hfinal⟩ := Layout.lineLoop_eq hlayout hexchanges hnoise hbuffer hagrees
    hfuel stepping later (gdbstubComputeSignal (signed (load32 memory (layout.ctx + 48))))
  have hput := @putpacket_eq _ rest (stopReport_ne_zero layout memory) refusals
    (exchanges.flatMap Exchange.line ++ (noise ++ resumePacket stepping ++ later)) hrefusals
  refine ⟨state, ?_, hfinal⟩
  rw [List.append_assoc, List.singleton_append] at houtput
  have hsent : layout.output (layout.firstReply
      (gdbstubComputeSignal (signed (load32 memory (layout.ctx + 48)))) ⟨memory, []⟩).memory =
        stopReport layout memory ++ 0 :: rest := by
    rw [hreport]
    exact houtput
  simp only [Layout.handleOnLine, hsent, hput, ok_bind, hloop, sentPacket]

/-- The arrays one after the other, and the trap frame on a stack above them. -/
def stackLayout : Layout where
  inputBuffer := 0x10000
  outputBuffer := 0x10400
  gdbRegisters := 0x10800
  ctx := 0x20000

theorem stackLayout_separate : stackLayout.Separate :=
  ⟨by decide, by decide, by decide, by decide, .inl (by decide), .inl (by decide),
    .inl (by decide), .inl (by decide), .inl (by decide), .inl (by decide)⟩

/-- Two bytes are written, behind a refused report, and the registers are read. -/
def patchSession : List Exchange :=
  [⟨[chr '-'], .write 0x30000 [0x90, 0xC3], []⟩, ⟨[], .readRegisters, [chr '-']⟩]

theorem patchSession_allowed : ∀ exchange ∈ patchSession, exchange.Allowed stackLayout := by
  simp only [patchSession, List.forall_mem_cons, List.not_mem_nil, false_imp_iff, implies_true,
    and_true]
  refine ⟨⟨by decide, List.all_iff_forall_prop.mp (by decide),
      ⟨⟨by decide, by decide, ?_, ?_, ?_⟩, by decide⟩⟩,
    ⟨by decide, List.all_iff_forall_prop.mp (by decide), trivial⟩⟩ <;> exact .inr (by decide)

theorem handleOnLine_refines_patchSession :
    ∃ state, stackLayout.handleOnLine 3 (List.replicate 1000 0)
        ([] ++ chr '+' :: (patchSession.flatMap Exchange.line ++
          ([] ++ resumePacket true ++ []))) (fun _ => 0) =
        .ok ⟨sentPacket [] (stopReport stackLayout fun _ => 0) ++
          (answersTo stackLayout (fun _ => 0) patchSession ++ [chr '+']), true, state⟩ ∧
      stackLayout.Agrees state.memory
        (goOn stackLayout true (memoryAfter stackLayout (fun _ => 0) patchSession)) :=
  handleOnLine_refines stackLayout_separate (List.length_replicate ..) _ (by simp)
    patchSession_allowed (by simp) true [] (by decide)

end GeexOS.Gdb
