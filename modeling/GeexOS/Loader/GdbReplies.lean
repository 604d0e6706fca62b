import GeexOS.Loader.GdbStub

/-!
# The length of the stub's replies

Every reply is written into a buffer of `BUFMAX` characters.  All but one kind of
reply have a length of their own; the contents of memory are as long as the
request says.
-/

namespace GeexOS.Gdb

open GeexOS.ByteMemory

variable {layout : Layout} {state : StubState} {request ptr : List Int8}
variable {unixSignal : ℕ} {ch : Int8}

/-- No place behind the buffer was written. -/
def StubState.InBounds (state : StubState) : Prop := ∀ index ∈ state.written, index < BUFMAX

/-- The request reads 500 bytes of memory or more. -/
def Overlong (request : List Int8) : Prop :=
  ∃ ptr addr length rest, request = chr 'm' :: ptr ∧
    addressAndLength ptr = some (addr, length, rest) ∧ 500 ≤ signed length

/-- The request ends the handler. -/
def resumes (request : List Int8) : Bool :=
  request.head? = some (chr 's') || request.head? = some (chr 'c')

/-- The requests that the handler comes to. -/
def served : List (List Int8) → List (List Int8)
  | [] => []
  | filled :: rest => if resumes (cString filled) then [filled] else filled :: served rest

/-! ## One reply -/

namespace Layout

@[simp]
theorem inBounds_setMemory (memory : Memory) :
    StubState.InBounds { state with memory := memory } ↔ state.InBounds := Iff.rfl

@[simp]
theorem inBounds_writeOutput (index : ℕ) :
    (layout.writeOutput index ch state).InBounds ↔ index < BUFMAX ∧ state.InBounds :=
  List.forall_mem_cons

@[simp]
theorem inBounds_writeString (index : ℕ) (string : List Int8) :
    (layout.writeString index string state).InBounds ↔
      index + string.length < BUFMAX ∧ state.InBounds := by
  induction string generalizing index state with
  | nil => exact inBounds_writeOutput index
  | cons ch rest ih =>
      rw [writeString, ih, inBounds_writeOutput, List.length_cons, ← and_assoc]
      refine and_congr_left fun _ => ?_
      omega

theorem mem2hexLoop_fst (count mem index : ℕ) :
    (layout.mem2hexLoop count mem index state).1 = index + 2 * count := by
  induction count generalizing mem index state with
  | zero => rfl
  | succ count ih =>
      rw [mem2hexLoop, ih]
      omega

theorem inBounds_mem2hexLoop (count mem index : ℕ) :
    (layout.mem2hexLoop count mem index state).2.InBounds ↔
      index + 2 * count < BUFMAX ∧ state.InBounds := by
  induction count generalizing mem index state with
  | zero => exact inBounds_writeOutput index
  | succ count ih =>
      rw [mem2hexLoop, ih, inBounds_writeOutput, inBounds_writeOutput, ← and_assoc, ← and_assoc]
      refine and_congr_left fun _ => ?_
      omega

@[simp]
theorem mem2hex_fst (mem index : ℕ) (count : ℤ) :
    (layout.mem2hex mem index count state).1 = index + 2 * count.toNat :=
  mem2hexLoop_fst ..

@[simp]
theorem inBounds_mem2hex (mem index : ℕ) (count : ℤ) :
    (layout.mem2hex mem index count state).2.InBounds ↔
      index + 2 * count.toNat < BUFMAX ∧ state.InBounds :=
  inBounds_mem2hexLoop ..

@[simp]
theorem inBounds_replyMemory (mem : ℕ) (count : ℤ) :
    (layout.replyMemory mem count state).InBounds ↔
      0 + 2 * count.toNat < BUFMAX ∧ state.InBounds :=
  inBounds_mem2hexLoop ..

theorem writeRegister_fst (number offsetTF index : ℕ) :
    (layout.writeRegister number offsetTF index state).1 = index + 11 := by
  rw [writeRegister]
  simp

theorem inBounds_writeRegister (number offsetTF index : ℕ) :
    (layout.writeRegister number offsetTF index state).2.InBounds ↔
      index + 10 < BUFMAX ∧ state.InBounds := by
  rw [writeRegister]
  simp only [inBounds_writeOutput, inBounds_mem2hex, mem2hex_fst, ← and_assoc]
  refine and_congr_left fun _ => ?_
  omega

theorem inBounds_firstReply : (layout.firstReply unixSignal state).InBounds ↔ state.InBounds := by
  rw [firstReply]
  simp [writeRegister_fst, inBounds_writeRegister, BUFMAX]

/-- A fixed reply fits into the buffer. -/
theorem inBounds_fixed {string : List Int8} (hfits : 0 + string.length < BUFMAX) :
    (layout.writeString 0 string state).InBounds ↔ state.InBounds := by
  rw [inBounds_writeString, and_iff_right hfits]

theorem inBounds_handleQuery :
    (layout.handleQuery request state).InBounds ↔ state.InBounds := by
  rw [handleQuery]
  split_ifs
  · exact inBounds_fixed (by decide)
  · exact inBounds_fixed (by decide)
  · exact inBounds_fixed (by decide)
  · rw [inBounds_writeOutput, and_iff_right (by decide)]

theorem inBounds_setRegister :
    (layout.setRegister request ptr state).InBounds ↔ state.InBounds := by
  rw [setRegister]
  split
  · exact inBounds_fixed (by decide)
  · exact inBounds_fixed (by decide)
  · split_ifs
    · exact (inBounds_fixed (by decide)).trans (inBounds_setMemory _)
    · exact inBounds_fixed (by decide)
    · exact inBounds_fixed (by decide)

theorem inBounds_writeMemory :
    (layout.writeMemory request ptr state).InBounds ↔ state.InBounds := by
  rw [writeMemory]
  split
  · split_ifs
    · exact (inBounds_fixed (by decide)).trans (inBounds_setMemory _)
    · exact inBounds_fixed (by decide)
  · exact inBounds_fixed (by decide)

theorem reply_lt_iff (length : ℤ) : 0 + 2 * length.toNat < BUFMAX ↔ ¬ 500 ≤ length := by
  rw [BUFMAX]
  omega

/-- The one reply whose length the request says. -/
theorem inBounds_readMemory :
    (layout.readMemory ptr state).InBounds ↔ ¬ Overlong (chr 'm' :: ptr) ∧ state.InBounds := by
  cases hparsed : addressAndLength ptr with
  | none =>
      have hshort : ¬ Overlong (chr 'm' :: ptr) := by
        rintro ⟨_, addr, length, rest, heq, hread, -⟩
        rw [List.cons.injEq] at heq
        rw [← heq.2, hparsed] at hread
        exact Option.some_ne_none _ hread.symm
      rw [readMemory, hparsed, and_iff_right hshort]
      exact inBounds_fixed (by decide)
  | some parsed =>
      obtain ⟨addr, length, rest⟩ := parsed
      rw [readMemory, hparsed, inBounds_replyMemory, reply_lt_iff]
      refine and_congr_left fun _ => not_congr ?_
      constructor
      · exact fun hlength => ⟨ptr, addr, length, rest, rfl, hparsed, hlength⟩
      · rintro ⟨_, addr', length', rest', heq, hread, hlength⟩
        rw [List.cons.injEq] at heq
        rw [← heq.2, hparsed, Option.some.injEq, Prod.mk.injEq, Prod.mk.injEq] at hread
        rwa [hread.2.1]

theorem not_overlong {command : Int8} (hcommand : command ≠ chr 'm') :
    ¬ Overlong (command :: ptr) := by
  rintro ⟨_, _, _, _, heq, -⟩
  exact hcommand (List.cons.inj heq).1

theorem dispatch_m : layout.dispatch unixSignal (chr 'm' :: ptr) state =
    (false, layout.readMemory ptr state) := by
  rw [dispatch]
  repeat rw [if_neg (by decide)]
  rw [if_pos rfl]

/-- Two commands that stay in the buffer. -/
theorem inBounds_ite {command : Prop} [Decidable command] {yes no : Bool × StubState}
    (hyes : yes.2.InBounds ↔ state.InBounds) (hno : no.2.InBounds ↔ state.InBounds) :
    (if command then yes else no).2.InBounds ↔ state.InBounds := by
  split
  · exact hyes
  · exact hno

theorem inBounds_dispatch :
    (layout.dispatch unixSignal request state).2.InBounds ↔
      ¬ Overlong request ∧ state.InBounds := by
  cases request with
  | nil => exact (and_iff_right (by rintro ⟨_, _, _, _, heq, -⟩; cases heq)).symm
  | cons command ptr =>
      by_cases hm : command = chr 'm'
      · subst hm
        rw [dispatch_m]
        exact inBounds_readMemory
      · rw [and_iff_right (not_overlong hm), dispatch, if_neg hm]
        refine inBounds_ite (by simp [BUFMAX]) ?_
        refine inBounds_ite (inBounds_fixed (by decide)) ?_
        refine inBounds_ite inBounds_handleQuery ?_
        refine inBounds_ite (by simp [BUFMAX, NUMREGS]) ?_
        refine inBounds_ite ((inBounds_fixed (by decide)).trans (inBounds_setMemory _)) ?_
        refine inBounds_ite inBounds_setRegister ?_
        refine inBounds_ite inBounds_writeMemory ?_
        exact inBounds_ite Iff.rfl (inBounds_ite Iff.rfl Iff.rfl)

theorem inBounds_serve (layout : Layout) (unixSignal : ℕ) (filled : List Int8)
    (state : StubState) :
    (layout.serve unixSignal filled state).2.InBounds ↔
      ¬ Overlong (cString filled) ∧ state.InBounds := by
  have hcleared : (layout.writeOutput 0 0 state).InBounds ↔ state.InBounds := by
    rw [inBounds_writeOutput, and_iff_right (by decide)]
  rw [serve, inBounds_dispatch, ← hcleared]
  exact Iff.rfl

theorem dispatch_fst :
    (layout.dispatch unixSignal request state).1 = resumes request := by
  cases request with
  | nil => rfl
  | cons command ptr =>
      by_cases hs : command = chr 's'
      · subst command
        rfl
      by_cases hc : command = chr 'c'
      · subst command
        rfl
      have hresumes : resumes (command :: ptr) = false := by simp [resumes, hs, hc]
      rw [dispatch, hresumes, if_neg hs, if_neg hc]
      simp only [apply_ite Prod.fst, ite_self]

theorem serve_fst (layout : Layout) (unixSignal : ℕ) (filled : List Int8)
    (state : StubState) :
    (layout.serve unixSignal filled state).1 = resumes (cString filled) :=
  dispatch_fst

/-! ## All replies of a stop -/

theorem inBounds_serveAll (unixSignal : ℕ) (requests : List (List Int8)) :
    (layout.serveAll unixSignal requests state).InBounds ↔
      (∀ filled ∈ served requests, ¬ Overlong (cString filled)) ∧ state.InBounds := by
  induction requests generalizing state with
  | nil => simp [serveAll, served]
  | cons filled rest ih =>
      have hreturned := serve_fst layout unixSignal filled state
      have hafter := inBounds_serve layout unixSignal filled state
      rw [serveAll, served]
      cases hserve : layout.serve unixSignal filled state with
      | mk returned after =>
          rw [hserve] at hreturned hafter
          cases returned with
          | true =>
              rw [if_pos hreturned.symm, List.forall_mem_singleton]
              exact hafter
          | false =>
              rw [if_neg (by rw [← hreturned]; exact Bool.false_ne_true), List.forall_mem_cons]
              rw [ih, hafter]
              tauto

theorem inBounds_stop (unixSignal : ℕ) (requests : List (List Int8)) (memory : Memory) :
    (layout.serveAll unixSignal requests
        (layout.firstReply unixSignal ⟨memory, []⟩)).InBounds ↔
      ∀ filled ∈ served requests, ¬ Overlong (cString filled) := by
  rw [inBounds_serveAll, inBounds_firstReply]
  exact and_iff_left fun _ hmem => absurd hmem List.not_mem_nil

end Layout

/-- The handler stays inside the buffer exactly if no request that it serves reads 500 bytes
or more. -/
theorem gdbstubHandleException_inBounds (layout : Layout) (requests : List (List Int8))
    (memory : Memory) :
    (∀ index ∈ (layout.gdbstubHandleException requests memory).written, index < BUFMAX) ↔
      ∀ filled ∈ served requests, ¬ Overlong (cString filled) :=
  layout.inBounds_stop _ requests memory

/-- `getpacket` may leave these characters in the input buffer. -/
def Receivable (filled : List Int8) : Prop :=
  ∃ buffer incoming answers unread, buffer.length = BUFMAX ∧
    getpacket buffer incoming = ⟨answers, some (filled, unread)⟩

theorem receivable_of_payload {payload : List Int8} (hpayload : IsPayload payload) :
    ∃ filled, Receivable filled ∧ cString filled = payload := by
  obtain ⟨hhigh, hlow, hbyte⟩ := digits_of_byte (checksumOf 0 payload)
  obtain ⟨filled, hstring, hread⟩ := @getpacket_accepted payload [] [] (List.replicate BUFMAX 0)
    hpayload List.not_mem_nil List.length_replicate _ _ hhigh hlow hbyte
  exact ⟨filled, ⟨_, _, _, _, List.length_replicate, hread⟩, hstring⟩

/-- The debugger asks for 500 bytes from address 0 on. -/
def fiveHundredBytes : List Int8 := "m0,1f4".toList.map chr

theorem overlong_fiveHundredBytes : Overlong fiveHundredBytes :=
  ⟨"0,1f4".toList.map chr, 0, 500, [], rfl, by decide +kernel, by decide +kernel⟩

/-- The null character of the reply is written behind the buffer. -/
theorem fiveHundredBytes_written_behind :
    ¬ ∀ (layout : Layout) (requests : List (List Int8)) (memory : Memory),
      (∀ filled ∈ requests, Receivable filled) →
      ∀ index ∈ (layout.gdbstubHandleException requests memory).written, index < BUFMAX := by
  intro hall
  obtain ⟨filled, hreceivable, hstring⟩ :=
    @receivable_of_payload fiveHundredBytes (by decide +kernel)
  have hbounds := hall ⟨0x9000, 0x9800, 0xA000, 0xB000⟩ [filled] (fun _ => 0)
    (by simpa using hreceivable)
  have hshort := (Layout.inBounds_stop _ _ _).mp hbounds filled (by
    rw [served]
    split <;> simp)
  rw [hstring] at hshort
  exact hshort overlong_fiveHundredBytes

end GeexOS.Gdb
