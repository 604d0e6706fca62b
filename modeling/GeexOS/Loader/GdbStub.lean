import GeexOS.Library.ByteMemory
import GeexOS.Loader.GdbPackets

/-!
# Requests to the debugger stub

While a program is stopped, the stub answers one request after the other from a
buffer of `BUFMAX` characters.  It knows the registers twice: those of the
stopped program in the trap frame and a copy of its own, which is what the
debugger reads and writes.
-/

namespace GeexOS.Gdb

open GeexOS.Words
open GeexOS.Halting
open GeexOS.ByteMemory

/-! ## Where things lie -/

/-- The static arrays of the stub and the trap frame. -/
structure Layout where
  inputBuffer : ℕ
  outputBuffer : ℕ
  gdbRegisters : ℕ
  ctx : ℕ

def NUMREGS : ℕ := 16
def sizeofTrapframe : ℕ := 76

/-- Where a register lies in the trap frame and in the stub's copy. -/
structure RegisterConversion where
  size : ℕ
  offsetTF : ℕ
  offsetGDB : ℕ
  deriving DecidableEq, Repr

def registerConversion : List RegisterConversion :=
  [⟨4, 44, 0⟩, ⟨4, 40, 4⟩, ⟨4, 36, 8⟩, ⟨4, 32, 12⟩, ⟨4, 28, 16⟩, ⟨4, 24, 20⟩, ⟨4, 20, 24⟩,
    ⟨4, 16, 28⟩, ⟨4, 56, 32⟩, ⟨4, 64, 36⟩, ⟨4, 60, 40⟩, ⟨4, 72, 44⟩, ⟨4, 12, 48⟩, ⟨4, 8, 52⟩,
    ⟨4, 4, 56⟩, ⟨4, 0, 60⟩]

/-- The memory, and the places of `outputBuffer` that were written. -/
structure StubState where
  memory : Memory
  written : List ℕ

namespace Layout

variable (layout : Layout)

/-- `memcpy` of each register from the trap frame. -/
def importRegisters (memory : Memory) : Memory :=
  registerConversion.foldl (fun memory register =>
    writeBytes memory (layout.gdbRegisters + register.offsetGDB) register.size fun index =>
      memory (layout.ctx + register.offsetTF + index)) memory

def exportRegisters (memory : Memory) : Memory :=
  registerConversion.foldl (fun memory register =>
    writeBytes memory (layout.ctx + register.offsetTF) register.size fun index =>
      memory (layout.gdbRegisters + register.offsetGDB + index)) memory

/-! ## Conversions -/

/-- `outputBuffer[index] = ch`. -/
def writeOutput (index : ℕ) (ch : Int8) (state : StubState) : StubState where
  memory := Function.update state.memory (u32 (layout.outputBuffer + index)) ch.toUInt8
  written := index :: state.written

/-- `strcpy` into the buffer from `index` on, with the null character. -/
def writeString : (index : ℕ) → List Int8 → StubState → StubState
  | index, [], state => layout.writeOutput index 0 state
  | index, ch :: rest, state => writeString (index + 1) rest (layout.writeOutput index ch state)

/-- The loop of `mem2hex` with the null character behind it; the buffer is `outputBuffer`
from `index` on.  Returns where the null character is. -/
def mem2hexLoop : (count mem index : ℕ) → StubState → ℕ × StubState
  | 0, _, index, state => (index, layout.writeOutput index 0 state)
  | count + 1, mem, index, state =>
      let ch := (state.memory (u32 mem)).toNat
      let state := layout.writeOutput index (digit (ch >>> 4)) state
      let state := layout.writeOutput (index + 1) (digit (ch % 16)) state
      mem2hexLoop count (mem + 1) (index + 2) state

def mem2hex (mem index : ℕ) (count : ℤ) (state : StubState) : ℕ × StubState :=
  layout.mem2hexLoop count.toNat mem index state

/-- A whole reply of `mem2hex`, whose result is not used. -/
def replyMemory (mem : ℕ) (count : ℤ) (state : StubState) : StubState :=
  (layout.mem2hex mem 0 count state).2

end Layout

/-- The byte that `hex2mem` makes of two characters. -/
def hexByte (high low : Int8) : UInt8 :=
  UInt8.ofInt ((UInt8.ofInt (hex high * 2 ^ 4)).toNat + hex low)

def hex2memLoop : (count mem buf : ℕ) → Memory → Memory
  | 0, _, _, memory => memory
  | count + 1, mem, buf, memory =>
      let ch := hexByte (memory (u32 buf)).toInt8 (memory (u32 (buf + 1))).toInt8
      hex2memLoop count (mem + 1) (buf + 2) (Function.update memory (u32 mem) ch)

def hex2mem (mem buf : ℕ) (count : ℤ) (memory : Memory) : Memory :=
  hex2memLoop count.toNat mem buf memory

/-- The `int` of a 32-bit word. -/
def signed (word : ℕ) : ℤ := (word : ℤ).bmod (2 ^ 32)

/-- How many digits were read, their value in 32 bits, and what is behind them. -/
def hexToIntLoop : List Int8 → (numChars intValue : ℕ) → ℕ × ℕ × List Int8
  | [], numChars, intValue => (numChars, intValue, [])
  | ch :: rest, numChars, intValue =>
      if hex ch ≥ 0 then
        hexToIntLoop rest (numChars + 1) (u32 (intValue <<< 4) ||| (hex ch).toNat)
      else (numChars, intValue, ch :: rest)

def hexToInt (ptr : List Int8) : ℕ × ℕ × List Int8 := hexToIntLoop ptr 0 0

/-- `AA..AA,LLLL` at the beginning: address, length and the rest. -/
def addressAndLength (ptr : List Int8) : Option (ℕ × ℕ × List Int8) :=
  match hexToInt ptr with
  | (0, _, _) => none
  | (_, _, []) => none
  | (_, addr, ch :: ptr) =>
      if ch = chr ',' then
        match hexToInt ptr with
        | (0, _, _) => none
        | (_, length, ptr) => some (addr, length, ptr)
      else none

/-! ## The handler -/

def ok : List Int8 := "OK".toList.map chr

def gdbstubComputeSignal (exceptionVector : ℤ) : ℕ :=
  if exceptionVector = 0 then 8
  else if exceptionVector = 1 then 5
  else if exceptionVector = 3 then 5
  else if exceptionVector = 4 then 16
  else if exceptionVector = 5 then 16
  else if exceptionVector = 6 then 4
  else if exceptionVector = 7 then 8
  else if exceptionVector = 8 then 7
  else if exceptionVector = 9 then 11
  else if exceptionVector = 10 then 11
  else if exceptionVector = 11 then 11
  else if exceptionVector = 12 then 11
  else if exceptionVector = 13 then 11
  else if exceptionVector = 14 then 11
  else if exceptionVector = 16 then 7
  else 7

namespace Layout

variable (layout : Layout)

/-- A register in the first reply: its number, its value and the sign behind it. -/
def writeRegister (number : ℕ) (offsetTF : ℕ) (ptr : ℕ) (state : StubState) : ℕ × StubState :=
  let state := layout.writeOutput ptr (digit number) state
  let state := layout.writeOutput (ptr + 1) (chr ':') state
  let (ptr, state) := layout.mem2hex (layout.ctx + offsetTF) (ptr + 2) 4 state
  (ptr + 1, layout.writeOutput ptr (chr ';') state)

/-- The reply that tells of the stop. -/
def firstReply (unixSignal : ℕ) (state : StubState) : StubState :=
  let state := layout.writeOutput 0 (chr 'T') state
  let state := layout.writeOutput 1 (digit (unixSignal >>> 4)) state
  let state := layout.writeOutput 2 (digit (unixSignal &&& 0xF)) state
  let (ptr, state) := layout.writeRegister 4 28 3 state
  let (ptr, state) := layout.writeRegister 5 24 ptr state
  let (ptr, state) := layout.writeRegister 8 56 ptr state
  layout.writeOutput ptr 0 state

/-- What `snprintf` makes of its formats fits into the buffer. -/
def handleQuery (request : List Int8) (state : StubState) : StubState :=
  if request.take 9 = "Supported".toList.map chr then
    layout.writeString 0 ("PacketSize=999".toList.map chr) state
  else if request.take 6 = "Symbol".toList.map chr then layout.writeString 0 ok state
  else if request.take 6 = "Offset".toList.map chr then
    layout.writeString 0 ("Text=0;Data=0;Bss=0;".toList.map chr) state
  else layout.writeOutput 0 0 state

/-- The address of what is left of the request. -/
def ptrOf (request ptr : List Int8) : ℕ := layout.inputBuffer + (request.length - ptr.length)

/-- `P`: set one register. -/
def setRegister (request ptr : List Int8) (state : StubState) : StubState :=
  let failed := layout.writeString 0 ("E01".toList.map chr) state
  match hexToInt ptr with
  | (0, _, _) => failed
  | (_, _, []) => failed
  | (_, regno, ch :: ptr) =>
      if ch = chr '=' then
        if signed regno ≥ 0 ∧ signed regno < NUMREGS then
          let memory := hex2mem (layout.gdbRegisters + 4 * regno) (layout.ptrOf request ptr) 4
            state.memory
          layout.writeString 0 ok { state with memory := layout.exportRegisters memory }
        else failed
      else failed

/-- `m`: read memory. -/
def readMemory (ptr : List Int8) (state : StubState) : StubState :=
  match addressAndLength ptr with
  | some (addr, length, _) => layout.replyMemory addr (signed length) state
  | none => layout.writeString 0 ("E01".toList.map chr) state

/-- `M`: write memory. -/
def writeMemory (request ptr : List Int8) (state : StubState) : StubState :=
  let failed := layout.writeString 0 ("E02".toList.map chr) state
  match addressAndLength ptr with
  | some (addr, length, ch :: ptr) =>
      if ch = chr ':' then
        layout.writeString 0 ok
          { state with
            memory := hex2mem addr (layout.ptrOf request ptr) (signed length) state.memory }
      else failed
  | _ => failed

/-- `c` and `s`: go on, at an address if there is one. -/
def resume (ptr : List Int8) (stepping : Bool) (memory : Memory) : Memory :=
  let memory :=
    match hexToInt ptr with
    | (0, _, _) => memory
    | (_, addr, _) =>
        layout.exportRegisters (store32 memory (layout.gdbRegisters + 4 * 8) addr)
  let eflags := load32 memory (layout.ctx + 64) &&& 0xFFFFFEFF
  store32 memory (layout.ctx + 64) (if stepping then eflags ||| 0x100 else eflags)

/-- The switch over the first character of a request; true if the handler returns. -/
def dispatch (unixSignal : ℕ) (request : List Int8) (state : StubState) : Bool × StubState :=
  match request with
  | [] => (false, state)
  | command :: ptr =>
      if command = chr '?' then
        let state := layout.writeOutput 0 (chr 'S') state
        let state := layout.writeOutput 1 (digit (unixSignal >>> 4)) state
        let state := layout.writeOutput 2 (digit (unixSignal &&& 0x0F)) state
        (false, layout.writeOutput 3 0 state)
      else if command = chr 'H' then (false, layout.writeString 0 ok state)
      else if command = chr 'q' then (false, layout.handleQuery ptr state)
      else if command = chr 'g' then
        (false, layout.replyMemory layout.gdbRegisters (NUMREGS * 4)
          { state with memory := layout.importRegisters state.memory })
      else if command = chr 'G' then
        let memory := hex2mem layout.gdbRegisters (layout.ptrOf request ptr) (NUMREGS * 4)
          state.memory
        (false, layout.writeString 0 ok { state with memory := layout.exportRegisters memory })
      else if command = chr 'P' then (false, layout.setRegister request ptr state)
      else if command = chr 'm' then (false, layout.readMemory ptr state)
      else if command = chr 'M' then (false, layout.writeMemory request ptr state)
      else if command = chr 's' then
        (true, { state with memory := layout.resume ptr true state.memory })
      else if command = chr 'c' then
        (true, { state with memory := layout.resume ptr false state.memory })
      else (false, state)

/-- One round of the loop: `getpacket` leaves `filled` in the input buffer. -/
def serve (unixSignal : ℕ) (filled : List Int8) (state : StubState) : Bool × StubState :=
  let state := layout.writeOutput 0 0 state
  let memory := writeBytes state.memory layout.inputBuffer BUFMAX fun index =>
    (filled.getD index 0).toUInt8
  layout.dispatch unixSignal (cString filled) { state with memory := memory }

/-- The loop over the requests that come in, until one of them ends it. -/
def serveAll (unixSignal : ℕ) : List (List Int8) → StubState → StubState
  | [], state => state
  | filled :: rest, state =>
      match layout.serve unixSignal filled state with
      | (true, state) => state
      | (false, state) => serveAll unixSignal rest state

/-- `gdbstub_i386_handle_exception`, as far as it has come after these requests. -/
def gdbstubHandleException (requests : List (List Int8)) (memory : Memory) : StubState :=
  let unixSignal := gdbstubComputeSignal (signed (load32 memory (layout.ctx + 48)))
  layout.serveAll unixSignal requests (layout.firstReply unixSignal ⟨memory, []⟩)

end Layout

end GeexOS.Gdb
