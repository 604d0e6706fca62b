import GeexOS.Library.Halting
import Mathlib.Tactic.NormNum

/-!
# Packets of the debugger stub

A packet is framed by `$` and `#` and followed by the sum of its characters in
two hexadecimal digits.  The receiver skips what is in front of a packet, starts
again at every `$`, and answers whether the sum agrees.
-/

namespace GeexOS.Gdb

open GeexOS.Halting

/-- A `char` of the target, which is signed. -/
def chr (character : Char) : Int8 := Int8.ofNat character.toNat

def BUFMAX : ℕ := 1000

def hexchars : List Int8 := "0123456789abcdef".toList.map chr

/-- The value of a hexadecimal digit, or -1. -/
def hex (ch : Int8) : ℤ :=
  if ch.toInt ≥ (chr 'a').toInt ∧ ch.toInt ≤ (chr 'f').toInt then
    ch.toInt - (chr 'a').toInt + 10
  else if ch.toInt ≥ (chr '0').toInt ∧ ch.toInt ≤ (chr '9').toInt then
    ch.toInt - (chr '0').toInt
  else if ch.toInt ≥ (chr 'A').toInt ∧ ch.toInt ≤ (chr 'F').toInt then
    ch.toInt - (chr 'A').toInt + 10
  else -1

/-- `checksum + ch`, converted back to a byte. -/
def addChecksum (checksum : UInt8) (ch : Int8) : UInt8 :=
  UInt8.ofInt (checksum.toNat + ch.toInt)

/-! ## The receiver -/

/-- What a call did with the characters that come in: the answers it sent and, if it
returned, the contents of `inputBuffer` and the characters not read. -/
structure Reception where
  answers : List Int8
  returned : Option (List Int8 × List Int8)
  deriving DecidableEq

/-- The call is still waiting for a character. -/
def Reception.waits : Reception := ⟨[], none⟩

def Reception.answer (ch : Int8) (reception : Reception) : Reception :=
  { reception with answers := ch :: reception.answers }

mutual

/-- Wait for the start character, ignoring all others. -/
def awaitStart (buffer : List Int8) : (incoming : List Int8) → Reception
  | [] => .waits
  | ch :: incoming =>
      if ch ≠ chr '$' then awaitStart buffer incoming
      else readBody buffer 0 0 incoming

/-- Read until a `#` or the end of the buffer, and begin again at a `$`. -/
def readBody (buffer : List Int8) (checksum : UInt8) (count : ℕ) :
    (incoming : List Int8) → Reception
  | [] => .waits
  | ch :: incoming =>
      if ch = chr '$' then readBody buffer 0 0 incoming
      else if ch = chr '#' then readChecksum (buffer.set count 0) checksum incoming
      else if count + 1 < BUFMAX - 1 then
        readBody (buffer.set count ch) (addChecksum checksum ch) (count + 1) incoming
      else awaitStart ((buffer.set count ch).set (count + 1) 0) incoming

/-- Compare the sum with the digits sent. -/
def readChecksum (buffer : List Int8) (checksum : UInt8) : (incoming : List Int8) → Reception
  | high :: low :: incoming =>
      let xmitcsum := UInt8.ofInt (hex high * 2 ^ 4)
      let xmitcsum := UInt8.ofInt (xmitcsum.toNat + hex low)
      if checksum ≠ xmitcsum then (awaitStart buffer incoming).answer (chr '-')
      else ⟨[chr '+'], some (buffer, incoming)⟩
  | _ => .waits

end

def getpacket (inputBuffer incoming : List Int8) : Reception :=
  awaitStart inputBuffer incoming

/-! ## The sender -/

/-- The characters up to the null character, and their sum. -/
def sendLoop (checksum : UInt8) : (buffer : List Int8) → Outcome (List Int8 × UInt8)
  | [] => .error .fault
  | ch :: buffer =>
      if ch = 0 then .ok ([], checksum)
      else do
        let (sent, checksum) ← sendLoop (addChecksum checksum ch) buffer
        .ok (ch :: sent, checksum)

/-- One round of the loop of `putpacket`. -/
def sendPacket (buffer : List Int8) : Outcome (List Int8) := do
  let (sent, checksum) ← sendLoop 0 buffer
  .ok (chr '$' :: sent ++ [chr '#', hexchars.getD (checksum.toNat >>> 4 &&& 0x0F) 0,
    hexchars.getD (checksum.toNat &&& 0x0F) 0])

/-- The characters sent, and the answers not read if the call returned. -/
def putpacket (buffer : List Int8) :
    (answers : List Int8) → Outcome (List Int8 × Option (List Int8))
  | [] => do
      let packet ← sendPacket buffer
      .ok (packet, none)
  | answer :: answers => do
      let packet ← sendPacket buffer
      if answer ≠ chr '+' then
        let (sent, unread) ← putpacket buffer answers
        .ok (packet ++ sent, unread)
      else .ok (packet, some answers)

/-- The characters of a buffer up to the null character. -/
def cString (buffer : List Int8) : List Int8 := buffer.takeWhile (· ≠ 0)

/-! ## Checksums -/

/-- What a packet says between its marks. -/
structure IsPayload (payload : List Int8) : Prop where
  fits : payload.length < BUFMAX - 1
  ne_zero : ∀ ch ∈ payload, ch ≠ 0
  ne_dollar : ∀ ch ∈ payload, ch ≠ chr '$'
  ne_hash : ∀ ch ∈ payload, ch ≠ chr '#'

instance (payload : List Int8) : Decidable (IsPayload payload) :=
  decidable_of_iff (payload.length < BUFMAX - 1 ∧
      payload.all fun ch => ch ≠ 0 ∧ ch ≠ chr '$' ∧ ch ≠ chr '#') <| by
    simp only [List.all_eq_true, decide_eq_true_eq]
    exact ⟨fun h => ⟨h.1, fun ch hch => (h.2 ch hch).1, fun ch hch => (h.2 ch hch).2.1,
      fun ch hch => (h.2 ch hch).2.2⟩,
      fun h => ⟨h.fits, fun ch hch => ⟨h.ne_zero ch hch, h.ne_dollar ch hch, h.ne_hash ch hch⟩⟩⟩

/-- The sum of all characters. -/
def checksumOf (checksum : UInt8) (payload : List Int8) : UInt8 :=
  payload.foldl addChecksum checksum

/-- The digit of a value. -/
def digit (value : ℕ) : Int8 := hexchars.getD value 0

def packetOf (payload : List Int8) : List Int8 :=
  chr '$' :: payload ++ [chr '#', digit ((checksumOf 0 payload).toNat / 16),
    digit ((checksumOf 0 payload).toNat % 16)]

theorem hex_digit {value : ℕ} (hvalue : value < 16) : hex (digit value) = value := by
  have hall : ∀ value : Fin 16, hex (digit value) = value := by decide
  exact hall ⟨value, hvalue⟩

theorem hex_le (ch : Int8) : hex ch ≤ 15 := by
  have hf : (chr 'f').toInt = (chr 'a').toInt + 5 := by decide
  have hnine : (chr '9').toInt = (chr '0').toInt + 9 := by decide
  have hF : (chr 'F').toInt = (chr 'A').toInt + 5 := by decide
  rw [hex]
  split
  · omega
  split
  · omega
  split
  · omega
  · omega

/-- The byte that two digits stand for. -/
theorem digits_toNat {high low : Int8} (hhigh : 0 ≤ hex high) (hlow : 0 ≤ hex low) :
    ((UInt8.ofInt ((UInt8.ofInt (hex high * 2 ^ 4)).toNat + hex low)).toNat : ℤ) =
      hex high * 16 + hex low := by
  have hhigh' := hex_le high
  have hlow' := hex_le low
  have hof : ∀ value : ℤ, 0 ≤ value → value < 256 →
      ((UInt8.ofInt value).toNat : ℤ) = value := by
    intro value hpos hlt
    rw [UInt8.ofInt, UInt8.toNat_ofNat']
    omega
  have hshifted := hof (hex high * 2 ^ 4) (by omega) (by omega)
  rw [hof _ (by omega) (by omega), hshifted]
  omega

theorem digits_of_byte (checksum : UInt8) :
    0 ≤ hex (digit (checksum.toNat / 16)) ∧ 0 ≤ hex (digit (checksum.toNat % 16)) ∧
      hex (digit (checksum.toNat / 16)) * 16 + hex (digit (checksum.toNat % 16)) =
        checksum.toNat := by
  have hbyte : checksum.toNat < 256 := checksum.toNat_lt
  rw [hex_digit (by omega), hex_digit (by omega)]
  omega

/-! ## Sending -/

variable {payload noise incoming front back buffer : List Int8} {checksum : UInt8}

theorem sendLoop_eq (hzero : ∀ ch ∈ payload, ch ≠ 0) :
    sendLoop checksum (payload ++ 0 :: back) = .ok (payload, checksumOf checksum payload) := by
  induction payload generalizing checksum with
  | nil => rfl
  | cons ch payload ih =>
      rw [List.cons_append, sendLoop, if_neg (hzero ch List.mem_cons_self),
        ih fun other hother => hzero other (List.mem_cons_of_mem ch hother)]
      rfl

theorem sendPacket_eq (hzero : ∀ ch ∈ payload, ch ≠ 0) :
    sendPacket (payload ++ 0 :: back) = .ok (packetOf payload) := by
  have hbyte : (checksumOf 0 payload).toNat < 256 := (checksumOf 0 payload).toNat_lt
  have hmask : ∀ value, value &&& 0x0F = value % 16 := fun value =>
    Nat.and_two_pow_sub_one_eq_mod value 4
  have hhigh : (checksumOf 0 payload).toNat >>> 4 % 16 = (checksumOf 0 payload).toNat / 16 := by
    rw [Nat.shiftRight_eq_div_pow]
    omega
  rw [sendPacket, sendLoop_eq hzero]
  simp only [ok_bind, hmask, hhigh]
  rfl

/-- The packet is sent until it is accepted. -/
theorem putpacket_eq (hzero : ∀ ch ∈ payload, ch ≠ 0) {refusals later : List Int8}
    (hrefusals : ∀ ch ∈ refusals, ch ≠ chr '+') :
    putpacket (payload ++ 0 :: back) (refusals ++ chr '+' :: later) =
      .ok ((List.replicate (refusals.length + 1) (packetOf payload)).flatten, some later) := by
  induction refusals with
  | nil =>
      rw [List.nil_append, putpacket, sendPacket_eq hzero]
      simp
  | cons answer refusals ih =>
      rw [List.cons_append, putpacket, sendPacket_eq hzero, ok_bind,
        if_pos (hrefusals answer List.mem_cons_self),
        ih fun other hother => hrefusals other (List.mem_cons_of_mem answer hother)]
      simp [List.replicate_succ]

/-! ## Receiving -/

theorem awaitStart_noise (hnoise : chr '$' ∉ noise) :
    awaitStart buffer (noise ++ incoming) = awaitStart buffer incoming := by
  induction noise with
  | nil => rfl
  | cons ch noise ih =>
      rw [List.mem_cons, not_or] at hnoise
      rw [List.cons_append, awaitStart, if_pos (Ne.symm hnoise.1), ih hnoise.2]

/-- A payload is stored behind the characters that are in the buffer already. -/
theorem readBody_payload (hdollar : ∀ ch ∈ payload, ch ≠ chr '$')
    (hhash : ∀ ch ∈ payload, ch ≠ chr '#')
    (hfits : front.length + payload.length < BUFMAX - 1)
    (hlength : (front ++ back).length = BUFMAX) :
    ∃ unused, readBody (front ++ back) checksum front.length (payload ++ chr '#' :: incoming) =
        readChecksum (front ++ payload ++ 0 :: unused) (checksumOf checksum payload) incoming ∧
      (front ++ payload ++ 0 :: unused).length = BUFMAX := by
  induction payload generalizing front back checksum with
  | nil =>
      cases back with
      | nil => simp [BUFMAX] at hfits hlength; omega
      | cons old back =>
          refine ⟨back, ?_, by simpa using hlength⟩
          rw [List.nil_append, readBody, if_neg (by decide), if_pos rfl,
            List.set_append_right _ _ le_rfl, Nat.sub_self]
          simp [checksumOf]
  | cons ch payload ih =>
      rw [List.length_cons] at hfits
      cases back with
      | nil => simp [BUFMAX] at hfits hlength; omega
      | cons old back =>
          have hfits' : (front ++ [ch]).length + payload.length < BUFMAX - 1 := by
            rw [List.length_append, List.length_singleton]
            omega
          have hlength' : (front ++ [ch] ++ back).length = BUFMAX := by simpa using hlength
          obtain ⟨unused, hread, hunused⟩ := @ih _ _ (addChecksum checksum ch)
            (fun other hother => hdollar other (List.mem_cons_of_mem ch hother))
            (fun other hother => hhash other (List.mem_cons_of_mem ch hother)) hfits' hlength'
          refine ⟨unused, ?_, by simpa using hunused⟩
          rw [List.cons_append, readBody, if_neg (hdollar ch List.mem_cons_self),
            if_neg (hhash ch List.mem_cons_self), if_pos (by omega),
            List.set_append_right _ _ le_rfl, Nat.sub_self, List.set_cons_zero]
          simpa [checksumOf] using hread

/-- The buffer of a packet that arrived. -/
theorem cString_append_zero (hzero : ∀ ch ∈ payload, ch ≠ 0) :
    cString (payload ++ 0 :: back) = payload := by
  rw [cString, List.takeWhile_append_of_pos (by simpa using hzero),
    List.takeWhile_cons_of_neg (by decide), List.append_nil]

/-- Whatever two characters are where the digits belong, they are compared with the sum. -/
theorem getpacket_framed (hpayload : IsPayload payload) (hnoise : chr '$' ∉ noise)
    (hbuffer : buffer.length = BUFMAX) (high low : Int8) :
    ∃ filled, cString filled = payload ∧ filled.length = BUFMAX ∧
      getpacket buffer (noise ++ (chr '$' :: payload ++ [chr '#', high, low]) ++ incoming) =
        readChecksum filled (checksumOf 0 payload) (high :: low :: incoming) := by
  have hfits : ([] : List Int8).length + payload.length < BUFMAX - 1 := by
    simpa using hpayload.fits
  obtain ⟨unused, hread, hlength⟩ := @readBody_payload payload (high :: low :: incoming) []
    buffer 0 hpayload.ne_dollar hpayload.ne_hash hfits hbuffer
  refine ⟨_, cString_append_zero hpayload.ne_zero, hlength, ?_⟩
  rw [getpacket, List.append_assoc, awaitStart_noise hnoise, List.cons_append, List.cons_append,
    awaitStart, if_neg (not_not.mpr rfl), List.append_assoc]
  exact hread

theorem readChecksum_eq {high low : Int8} (hhigh : 0 ≤ hex high) (hlow : 0 ≤ hex low) :
    readChecksum buffer checksum (high :: low :: incoming) =
      if hex high * 16 + hex low = checksum.toNat then ⟨[chr '+'], some (buffer, incoming)⟩
      else (awaitStart buffer incoming).answer (chr '-') := by
  have hvalue := digits_toNat hhigh hlow
  rw [readChecksum]
  split
  · rename_i hne
    rw [if_neg fun heq => hne (UInt8.toNat_inj.mp (by omega))]
  · rename_i heq
    rw [if_pos (by rw [not_not.mp heq, hvalue])]

/-- With the digits of its checksum the payload is taken. -/
theorem getpacket_accepted (hpayload : IsPayload payload) (hnoise : chr '$' ∉ noise)
    (hbuffer : buffer.length = BUFMAX) {high low : Int8} (hhigh : 0 ≤ hex high)
    (hlow : 0 ≤ hex low) (hbyte : hex high * 16 + hex low = (checksumOf 0 payload).toNat) :
    ∃ filled, cString filled = payload ∧
      getpacket buffer (noise ++ (chr '$' :: payload ++ [chr '#', high, low]) ++ incoming) =
        ⟨[chr '+'], some (filled, incoming)⟩ := by
  obtain ⟨filled, hstring, _, hread⟩ := getpacket_framed hpayload hnoise hbuffer high low
  exact ⟨filled, hstring, by rw [hread, readChecksum_eq hhigh hlow, if_pos hbyte]⟩

/-- The receiver waits for the next packet after a wrong digit. -/
theorem getpacket_refused (hpayload : IsPayload payload) (hnoise : chr '$' ∉ noise)
    (hbuffer : buffer.length = BUFMAX) {high low : Int8} (hhigh : 0 ≤ hex high)
    (hlow : 0 ≤ hex low) (hne : hex high * 16 + hex low ≠ (checksumOf 0 payload).toNat) :
    ∃ filled : List Int8, filled.length = BUFMAX ∧
      getpacket buffer (noise ++ (chr '$' :: payload ++ [chr '#', high, low]) ++ incoming) =
        (getpacket filled incoming).answer (chr '-') := by
  obtain ⟨filled, _, hlength, hread⟩ := getpacket_framed hpayload hnoise hbuffer high low
  exact ⟨filled, hlength, by rw [hread, readChecksum_eq hhigh hlow, if_neg hne, getpacket]⟩

/-- A packet arrives behind any noise.  With one of its two digits replaced by a digit of
another value it is refused. -/
theorem getpacket_putpacket (hpayload : IsPayload payload) (hnoise : chr '$' ∉ noise)
    (hbuffer : buffer.length = BUFMAX) (back later : List Int8) :
    ∃ body high low,
      putpacket (payload ++ 0 :: back) (chr '+' :: later) =
          .ok (body ++ [high, low], some later) ∧
        (∃ filled, getpacket buffer (noise ++ (body ++ [high, low]) ++ incoming) =
          ⟨[chr '+'], some (filled, incoming)⟩ ∧ cString filled = payload) ∧
        ∀ other, 0 ≤ hex other →
          (hex other ≠ hex high → ∃ filled,
            getpacket buffer (noise ++ (body ++ [other, low]) ++ incoming) =
              (getpacket filled incoming).answer (chr '-')) ∧
          (hex other ≠ hex low → ∃ filled,
            getpacket buffer (noise ++ (body ++ [high, other]) ++ incoming) =
              (getpacket filled incoming).answer (chr '-')) := by
  obtain ⟨hhigh, hlow, hbyte⟩ := digits_of_byte (checksumOf 0 payload)
  have hframe : ∀ high low, chr '$' :: payload ++ [chr '#', high, low] =
      (chr '$' :: payload ++ [chr '#']) ++ [high, low] := fun high low => by simp
  refine ⟨chr '$' :: payload ++ [chr '#'], digit ((checksumOf 0 payload).toNat / 16),
    digit ((checksumOf 0 payload).toNat % 16), ?_, ?_, fun other hother => ⟨?_, ?_⟩⟩
  · have hsent := @putpacket_eq payload back hpayload.ne_zero [] later (by simp)
    rw [← hframe]
    simpa [packetOf] using hsent
  · obtain ⟨filled, hstring, hread⟩ :=
      getpacket_accepted hpayload hnoise hbuffer hhigh hlow hbyte
    exact ⟨filled, by rw [← hframe, hread], hstring⟩
  · intro hne
    obtain ⟨filled, _, hread⟩ := getpacket_refused hpayload hnoise hbuffer hother hlow
      (fun hsame => hne (by omega))
    exact ⟨filled, by rw [← hframe, hread]⟩
  · intro hne
    obtain ⟨filled, _, hread⟩ := getpacket_refused hpayload hnoise hbuffer hhigh hother
      (fun hsame => hne (by omega))
    exact ⟨filled, by rw [← hframe, hread]⟩

/-- The packet `OK` behind the answer to another one. -/
theorem getpacket_putpacket_ok :
    ∃ body high low,
      putpacket ([chr 'O', chr 'K'] ++ 0 :: []) (chr '+' :: []) =
          .ok (body ++ [high, low], some []) ∧
        (∃ filled, getpacket (List.replicate BUFMAX 0)
            ([chr '+'] ++ (body ++ [high, low]) ++ []) = ⟨[chr '+'], some (filled, [])⟩ ∧
          cString filled = [chr 'O', chr 'K']) ∧
        ∀ other, 0 ≤ hex other →
          (hex other ≠ hex high → ∃ filled,
            getpacket (List.replicate BUFMAX 0) ([chr '+'] ++ (body ++ [other, low]) ++ []) =
              (getpacket filled []).answer (chr '-')) ∧
          (hex other ≠ hex low → ∃ filled,
            getpacket (List.replicate BUFMAX 0) ([chr '+'] ++ (body ++ [high, other]) ++ []) =
              (getpacket filled []).answer (chr '-')) :=
  getpacket_putpacket (by decide) (by decide) List.length_replicate [] []

end GeexOS.Gdb
