import Mathlib.Data.List.GetD
import Mathlib.Data.List.Induction
import Mathlib.Logic.Function.Basic
import Mathlib.Tactic.Linarith
import GeexOS.Library.Halting
import GeexOS.Loader.Strings

/-!
# Formatted output of the loader

`vsnprintf` takes its arguments from the words on the stack as the format asks for them.
What C leaves undefined stops the model: an argument that was not passed, a shift by the
width of an `int`, the negation of the smallest number, an access outside the digits.
-/

namespace GeexOS.Print

open GeexOS.Halting
open GeexOS.Strings

structure Buffer where
  str : ℕ → UInt8
  sz : ℕ

/-- `__buf_add`. -/
def bufAdd (len : ℕ) (buf : Buffer) (c : UInt8) : Buffer :=
  if buf.sz < len then ⟨Function.update buf.str buf.sz c, buf.sz + 1⟩ else buf

/-- `__format_add_str`. -/
def formatAddStr (len : ℕ) (buf : Buffer) (s : CString) : Buffer := s.foldl (bufAdd len) buf

/-- `__format_add_chr`. -/
def formatAddChr (len : ℕ) (buf : Buffer) (c : BitVec 32) : Buffer :=
  bufAdd len buf (UInt8.ofBitVec (c.setWidth 8))

/-- `1 << count` in an `int`. -/
def shiftOne (count : ℕ) : Outcome ℕ := if count < 31 then .ok (1 <<< count) else .error .fault

/-- `__format_add_bin`; `n` counts down. -/
def formatAddBin (len value : ℕ) : (n : ℕ) → Buffer → Outcome Buffer
  | 0, buf => .ok buf
  | n + 1, buf => do
      let mask ← shiftOne (n + 1)
      formatAddBin len value n (bufAdd len buf (if value &&& mask ≠ 0 then 0x31 else 0x30))

/-- `dec.data.str[dec.sz++] = c` with the characters of `rep` up to `dec.sz`. -/
def repAdd (rep : CString) (c : UInt8) : Outcome CString :=
  if rep.length < 24 then .ok (rep ++ [c]) else .error .fault

/-- `while(value)`. -/
def digitLoop (base : ℕ) (digit : ℕ → UInt8) : (fuel value : ℕ) → CString → Outcome CString
  | 0, _, _ => .error .diverges
  | fuel + 1, value, rep =>
      if value ≠ 0 then do
        let rep ← repAdd rep (digit (value % base))
        digitLoop base digit fuel (value / base) rep
      else .ok rep

/-- `(value%10) + '0'`. -/
def decDigit (d : ℕ) : UInt8 := UInt8.ofNat (d + 0x30)

def hexChars : CString :=
  [0x30, 0x31, 0x32, 0x33, 0x34, 0x35, 0x36, 0x37, 0x38, 0x39, 0x41, 0x42, 0x43, 0x44, 0x45, 0x46]

/-- `hexChars[(value%16)]`. -/
def hexDigit (d : ℕ) : UInt8 := hexChars.getD d 0

/-- `__format_add_dec`; the digits come back with the highest first. -/
def formatAddDec (len : ℕ) (buf : Buffer) (value : ℤ) : Outcome Buffer := do
  let buf := if value = 0 then bufAdd len buf 0x30 else buf
  if value < 0 then
    if value = -2 ^ 63 then .error .fault
    else
      let rep ← digitLoop 10 decDigit 64 (-value).toNat []
      .ok (rep.reverse.foldl (bufAdd len) (bufAdd len buf 0x2d))
  else
    let rep ← digitLoop 10 decDigit 64 value.toNat []
    .ok (rep.reverse.foldl (bufAdd len) buf)

/-- `__format_add_hex`. -/
def formatAddHex (len : ℕ) (buf : Buffer) (value : ℕ) : Outcome Buffer := do
  let buf := if value = 0 then bufAdd len buf 0x30 else buf
  let rep ← digitLoop 16 hexDigit 64 value []
  .ok (rep.reverse.foldl (bufAdd len) buf)

/-- `va_arg` for an argument of one word. -/
def vaArg : List (BitVec 32) → Outcome (BitVec 32 × List (BitVec 32))
  | word :: params => .ok (word, params)
  | [] => .error .fault

/-- `va_arg` for an argument of two words, the low one first. -/
def vaArg64 : List (BitVec 32) → Outcome (BitVec 64 × List (BitVec 32))
  | low :: high :: params => .ok (high ++ low, params)
  | _ => .error .fault

variable (strings : BitVec 32 → CString) (len : ℕ)

/-- The character behind a percent sign; `strings` holds what the pointers point to. -/
def directive (c : UInt8) (params : List (BitVec 32)) (buf : Buffer) :
    Outcome (List (BitVec 32) × Buffer) :=
  if c = 0x73 then do
    let (value, params) ← vaArg params
    .ok (params, formatAddStr len buf (strings value))
  else if c = 0x63 then do
    let (value, params) ← vaArg params
    .ok (params, formatAddChr len buf value)
  else if c = 0x62 then do
    let (value, params) ← vaArg params
    let buf ← formatAddBin len value.toNat 32 buf
    .ok (params, buf)
  else if c = 0x42 then do
    let (value, params) ← vaArg64 params
    let buf ← formatAddBin len value.toNat 64 buf
    .ok (params, buf)
  else if c = 0x64 then do
    let (value, params) ← vaArg params
    let buf ← formatAddDec len buf value.toInt
    .ok (params, buf)
  else if c = 0x44 then do
    let (value, params) ← vaArg64 params
    let buf ← formatAddDec len buf value.toInt
    .ok (params, buf)
  else if c = 0x78 then do
    let (value, params) ← vaArg params
    let buf ← formatAddHex len buf value.toNat
    .ok (params, buf)
  else if c = 0x58 then do
    let (value, params) ← vaArg64 params
    let buf ← formatAddHex len buf value.toNat
    .ok (params, buf)
  else .ok (params, bufAdd len buf c)

/-- `while(*format)`. -/
def formatLoop : CString → (interp : Bool) → List (BitVec 32) → Buffer → Outcome Buffer
  | [], _, _, buf => .ok buf
  | c :: format, true, params, buf => do
      let (params, buf) ← directive strings len c params buf
      formatLoop format false params buf
  | c :: format, false, params, buf =>
      if c = 0x25 then formatLoop format true params buf
      else formatLoop format false params (bufAdd len buf c)

/-- `vsnprintf`, with what is in the buffer afterwards and the returned size. -/
def vsnprintf (buffer : ℕ → UInt8) (format : CString) (params : List (BitVec 32)) :
    Outcome ((ℕ → UInt8) × ℕ) := do
  let len := if len ≠ 0 then len - 1 else len
  let buf ← formatLoop strings len format false params ⟨buffer, 0⟩
  .ok (Function.update buf.str buf.sz 0, buf.sz + 1)

/-! ## What a format says -/

/-- A numeral in capital letters. -/
def numeral (base n : ℕ) : CString :=
  (Nat.toDigits base n).map fun digit => UInt8.ofNat digit.toUpper.toNat

def decimal (value : ℤ) : CString :=
  if value < 0 then 0x2d :: numeral 10 value.natAbs else numeral 10 value.natAbs

/-- A piece of a format together with the argument it takes. -/
inductive Item where
  | letter (c : UInt8)
  | escaped (c : UInt8)
  | string (address : BitVec 32)
  | character (value : BitVec 32)
  | decimal (value : BitVec 32)
  | longDecimal (value : BitVec 64)
  | hexadecimal (value : BitVec 32)
  | longHexadecimal (value : BitVec 64)
  deriving DecidableEq, Repr

/-- The letters s, c, b, B, d, D, x and X. -/
def directives : List UInt8 := [0x73, 0x63, 0x62, 0x42, 0x64, 0x44, 0x78, 0x58]

namespace Item

/-- A letter that stands for itself, and a number that has a negative. -/
def WellFormed : Item → Prop
  | letter c => c ≠ 0x25
  | escaped c => c ∉ directives
  | longDecimal value => value ≠ BitVec.intMin 64
  | _ => True

def spelling : Item → CString
  | letter c => [c]
  | escaped c => [0x25, c]
  | string _ => [0x25, 0x73]
  | character _ => [0x25, 0x63]
  | decimal _ => [0x25, 0x64]
  | longDecimal _ => [0x25, 0x44]
  | hexadecimal _ => [0x25, 0x78]
  | longHexadecimal _ => [0x25, 0x58]

/-- The words of a number, the low one first. -/
def wordsOf (value : BitVec 64) : List (BitVec 32) :=
  [value.setWidth 32, (value >>> 32).setWidth 32]

def words : Item → List (BitVec 32)
  | letter _ => []
  | escaped _ => []
  | string address => [address]
  | character value => [value]
  | decimal value => [value]
  | longDecimal value => wordsOf value
  | hexadecimal value => [value]
  | longHexadecimal value => wordsOf value

/-- What is printed for a piece; `strings` holds what the pointers point to. -/
def text (strings : BitVec 32 → CString) : Item → CString
  | letter c => [c]
  | escaped c => [c]
  | string address => strings address
  | character value => [UInt8.ofBitVec (value.setWidth 8)]
  | decimal value => Print.decimal value.toInt
  | longDecimal value => Print.decimal value.toInt
  | hexadecimal value => numeral 16 value.toNat
  | longHexadecimal value => numeral 16 value.toNat

end Item

/-! ## Digits -/

variable {strings} {len}
variable {base fuel value : ℕ} {digit : ℕ → UInt8} {rep : CString} {buf : Buffer}

/-- What the loop writes for a digit. -/
structure Writes (base : ℕ) (digit : ℕ → UInt8) : Prop where
  one_lt : 1 < base
  digit_eq : ∀ d < base, digit d = UInt8.ofNat (Nat.digitChar d).toUpper.toNat

theorem writes_dec : Writes 10 decDigit where
  one_lt := by decide
  digit_eq := by decide

theorem writes_hex : Writes 16 hexDigit where
  one_lt := by decide
  digit_eq := by decide

theorem numeral_zero (base : ℕ) : numeral base 0 = [0x30] := by
  rw [numeral, Nat.toDigits_zero]
  rfl

theorem Writes.numeral_of_lt (hwrites : Writes base digit) (hlt : value < base) :
    numeral base value = [digit value] := by
  rw [numeral, Nat.toDigits_of_lt_base hlt, List.map_singleton, hwrites.digit_eq value hlt]

theorem Writes.numeral_of_le (hwrites : Writes base digit) (hle : base ≤ value) :
    numeral base value = numeral base (value / base) ++ [digit (value % base)] := by
  have hmod : value % base < base := Nat.mod_lt value (Nat.zero_lt_of_lt hwrites.one_lt)
  rw [numeral, Nat.toDigits_of_base_le hwrites.one_lt hle, List.map_append, List.map_singleton,
    hwrites.digit_eq _ hmod, numeral]

/-- The loop puts the digits of a number behind each other, the lowest first. -/
theorem digitLoop_eq (hwrites : Writes base digit) (hvalue : value ≠ 0)
    (hfuel : (numeral base value).length < fuel)
    (hroom : rep.length + (numeral base value).length ≤ 24) :
    digitLoop base digit fuel value rep = .ok (rep ++ (numeral base value).reverse) := by
  have hbase := Nat.zero_lt_of_lt hwrites.one_lt
  induction fuel generalizing value rep with
  | zero => exact absurd hfuel (Nat.not_lt_zero _)
  | succ fuel ih =>
      rcases Nat.lt_or_ge value base with hlt | hle
      · rw [hwrites.numeral_of_lt hlt, List.length_singleton] at hroom hfuel
        obtain ⟨fuel, rfl⟩ := Nat.exists_eq_succ_of_ne_zero (show fuel ≠ 0 by omega)
        rw [hwrites.numeral_of_lt hlt, digitLoop, if_pos hvalue, repAdd, if_pos (by omega), ok_bind,
          Nat.div_eq_of_lt hlt, Nat.mod_eq_of_lt hlt, digitLoop, if_neg (not_not.mpr rfl),
          List.reverse_singleton]
      · have hdiv : value / base ≠ 0 := (Nat.div_pos hle hbase).ne'
        rw [hwrites.numeral_of_le hle, List.length_append, List.length_singleton] at hroom hfuel
        have hrest : (rep ++ [digit (value % base)]).length + (numeral base (value / base)).length ≤
            24 := by
          rw [List.length_append, List.length_singleton]
          omega
        have hnext := ih hdiv (by omega) hrest
        rw [digitLoop, if_pos hvalue, repAdd, if_pos (by omega), ok_bind, hnext,
          hwrites.numeral_of_le hle, List.reverse_append, List.append_assoc,
          List.reverse_singleton]

theorem length_numeral_le (hbase : 1 < base) {room : ℕ} (hroom : 0 < room)
    (hvalue : value < base ^ room) : (numeral base value).length ≤ room := by
  rw [numeral, List.length_map]
  exact (Nat.length_toDigits_le_iff hbase hroom).mpr hvalue

/-- The numbers that the loop is called for have at most 20 digits. -/
theorem digits_printed (len : ℕ) (buf : Buffer) (hwrites : Writes base digit) (hvalue : value ≠ 0)
    (hlength : (numeral base value).length ≤ 20) :
    ∃ rep, digitLoop base digit 64 value [] = .ok rep ∧
      rep.reverse.foldl (bufAdd len) buf = formatAddStr len buf (numeral base value) := by
  refine ⟨_, digitLoop_eq hwrites hvalue (by omega) (by rw [List.length_nil]; omega), ?_⟩
  rw [List.nil_append, List.reverse_reverse, formatAddStr]

theorem digitLoop_zero (base fuel : ℕ) (digit : ℕ → UInt8) :
    digitLoop base digit (fuel + 1) 0 [] = .ok [] := by
  rw [digitLoop, if_neg (not_not.mpr rfl)]

theorem formatAddHex_eq (hvalue : value < 2 ^ 64) :
    formatAddHex len buf value = .ok (formatAddStr len buf (numeral 16 value)) := by
  rcases Nat.eq_zero_or_pos value with rfl | hpos
  · rw [formatAddHex, digitLoop_zero, numeral_zero]
    rfl
  · have hlength : (numeral 16 value).length ≤ 16 :=
      length_numeral_le (by decide) (by decide) (hvalue.trans_le (by norm_num))
    obtain ⟨rep, hloop, hprinted⟩ := digits_printed len buf writes_hex hpos.ne'
      (show _ ≤ 20 by omega)
    simp only [formatAddHex, if_neg hpos.ne', hloop, ok_bind, hprinted]

theorem formatAddDec_eq {value : ℤ} (hlow : -2 ^ 63 < value) (hhigh : value < 2 ^ 63) :
    formatAddDec len buf value = .ok (formatAddStr len buf (decimal value)) := by
  rcases lt_trichotomy value 0 with hneg | rfl | hpos
  · have hmagnitude : (-value).toNat = value.natAbs := by omega
    have hlength : (numeral 10 value.natAbs).length ≤ 20 :=
      length_numeral_le (by decide) (by decide) (by omega)
    obtain ⟨rep, hloop, hprinted⟩ := digits_printed len (bufAdd len buf 0x2d)
      writes_dec (show value.natAbs ≠ 0 by omega) hlength
    simp only [formatAddDec, if_neg hneg.ne, if_pos hneg, if_neg hlow.ne', hmagnitude, hloop,
      ok_bind, hprinted, decimal]
    rfl
  · rfl
  · have hmagnitude : value.toNat = value.natAbs := by omega
    have hlength : (numeral 10 value.natAbs).length ≤ 20 :=
      length_numeral_le (by decide) (by decide) (by omega)
    obtain ⟨rep, hloop, hprinted⟩ := digits_printed len buf
      writes_dec (show value.natAbs ≠ 0 by omega) hlength
    simp only [formatAddDec, if_neg hpos.ne', if_neg hpos.not_gt, hmagnitude, hloop,
      ok_bind, hprinted, decimal]

theorem formatAddStr_append (buf : Buffer) (front back : CString) :
    formatAddStr len buf (front ++ back) =
      formatAddStr len (formatAddStr len buf front) back :=
  List.foldl_append

/-! ## Pieces -/

variable {item : Item} {params : List (BitVec 32)} {format : CString}

theorem vaArg64_wordsOf (value : BitVec 64) :
    vaArg64 (Item.wordsOf value ++ params) = .ok (value, params) := by
  have hvalue : (value >>> 32).setWidth 32 ++ value.setWidth 32 = value := by
    apply BitVec.eq_of_getLsbD_eq
    intro i hi
    rw [BitVec.getLsbD_append, BitVec.getLsbD_setWidth, BitVec.getLsbD_setWidth,
      BitVec.getLsbD_ushiftRight]
    by_cases hlow : i < 32
    · simp [hlow]
    · simp [hlow, show i - 32 < 32 by omega, show 32 + (i - 32) = i by omega]
  rw [Item.wordsOf, List.cons_append, List.singleton_append, vaArg64, hvalue]

theorem toInt_bounds (value : BitVec 64) (hvalue : value ≠ BitVec.intMin 64) :
    -2 ^ 63 < value.toInt ∧ value.toInt < 2 ^ 63 := by
  have hlow : -2 ^ 63 ≤ value.toInt := BitVec.le_toInt value
  have hhigh : value.toInt < 2 ^ 63 := BitVec.toInt_lt
  refine ⟨lt_of_le_of_ne hlow fun hmin => hvalue ?_, hhigh⟩
  apply BitVec.eq_of_toInt_eq
  rw [← hmin]
  decide

theorem toInt_bounds_word (value : BitVec 32) :
    -2 ^ 63 < value.toInt ∧ value.toInt < 2 ^ 63 := by
  have hlow : -2 ^ 31 ≤ value.toInt := BitVec.le_toInt value
  have hhigh : value.toInt < 2 ^ 31 := BitVec.toInt_lt
  omega

/-- A piece takes its arguments and adds its text. -/
theorem formatLoop_item (hitem : item.WellFormed) :
    formatLoop strings len (item.spelling ++ format) false (item.words ++ params) buf =
      formatLoop strings len format false params (formatAddStr len buf (item.text strings)) := by
  cases item with
  | letter c =>
      rw [Item.spelling, List.singleton_append, formatLoop, if_neg hitem]
      rfl
  | escaped c =>
      have hletters : ∀ directive ∈ directives, c ≠ directive := fun directive hmem heq =>
        hitem (heq ▸ hmem)
      have hdirective : directive strings len c params buf = .ok (params, bufAdd len buf c) := by
        simp only [directive, directives, List.forall_mem_cons] at hletters ⊢
        simp [hletters]
      simp only [Item.spelling, List.cons_append, List.nil_append, formatLoop, if_true,
        Item.words, hdirective, ok_bind]
      rfl
  | string address => rfl
  | character value => rfl
  | decimal value =>
      obtain ⟨hlow, hhigh⟩ := toInt_bounds_word value
      have hdirective : directive strings len 0x64 (value :: params) buf =
          .ok (params, formatAddStr len buf (Print.decimal value.toInt)) := by
        simp [directive, vaArg, formatAddDec_eq hlow hhigh]
      simp only [Item.spelling, List.cons_append, List.nil_append, formatLoop, if_true,
        Item.words, hdirective, ok_bind, Item.text]
  | longDecimal value =>
      obtain ⟨hlow, hhigh⟩ := toInt_bounds value hitem
      have hdirective : directive strings len 0x44 (Item.wordsOf value ++ params) buf =
          .ok (params, formatAddStr len buf (Print.decimal value.toInt)) := by
        simp [directive, vaArg64_wordsOf, formatAddDec_eq hlow hhigh]
      simp only [Item.spelling, List.cons_append, List.nil_append, formatLoop, if_true,
        Item.words, hdirective, ok_bind, Item.text]
  | hexadecimal value =>
      have hvalue : value.toNat < 2 ^ 64 := value.isLt.trans (by norm_num)
      have hdirective : directive strings len 0x78 (value :: params) buf =
          .ok (params, formatAddStr len buf (numeral 16 value.toNat)) := by
        simp [directive, vaArg, formatAddHex_eq hvalue]
      simp only [Item.spelling, List.cons_append, List.nil_append, formatLoop, if_true,
        Item.words, hdirective, ok_bind, Item.text]
  | longHexadecimal value =>
      have hdirective : directive strings len 0x58 (Item.wordsOf value ++ params) buf =
          .ok (params, formatAddStr len buf (numeral 16 value.toNat)) := by
        simp [directive, vaArg64_wordsOf, formatAddHex_eq value.isLt]
      simp only [Item.spelling, List.cons_append, List.nil_append, formatLoop, if_true,
        Item.words, hdirective, ok_bind, Item.text]

/-- A percent sign at the end of a format says nothing. -/
def IsTail (tail : CString) : Prop := tail = [] ∨ tail = [0x25]

theorem formatLoop_items {items : List Item} (hitems : ∀ item ∈ items, item.WellFormed)
    {tail : CString} (htail : IsTail tail) (more : List (BitVec 32)) (buf : Buffer) :
    formatLoop strings len (items.flatMap Item.spelling ++ tail) false
        (items.flatMap Item.words ++ more) buf =
      .ok (formatAddStr len buf (items.flatMap (Item.text strings))) := by
  induction items generalizing buf with
  | nil => rcases htail with rfl | rfl <;> rfl
  | cons item items ih =>
      obtain ⟨hitem, hitems⟩ := List.forall_mem_cons.mp hitems
      rw [List.flatMap_cons, List.flatMap_cons, List.flatMap_cons, List.append_assoc,
        List.append_assoc, formatLoop_item hitem, ih hitems, formatAddStr_append]

/-! ## The buffer -/

/-- The text in a buffer, cut off at `len` characters. -/
def placed (buffer : ℕ → UInt8) (text : CString) : ℕ → UInt8 := fun i => text.getD i (buffer i)

theorem placed_concat (buffer : ℕ → UInt8) (text : CString) (c : UInt8) :
    placed buffer (text ++ [c]) = Function.update (placed buffer text) text.length c := by
  funext i
  rw [placed]
  by_cases hi : i = text.length
  · rw [hi, Function.update_self, List.getD_append_right _ _ _ _ le_rfl, Nat.sub_self,
      List.getD_cons_zero]
  · rw [Function.update_of_ne hi, placed]
    rcases Nat.lt_or_ge i text.length with hlt | hge
    · rw [List.getD_append _ _ _ _ hlt]
    · rw [List.getD_eq_default _ _ hge, List.getD_eq_default]
      rw [List.length_append, List.length_singleton]
      omega

theorem formatAddStr_eq (buffer : ℕ → UInt8) (text : CString) :
    formatAddStr len ⟨buffer, 0⟩ text =
      ⟨placed buffer (text.take len), (text.take len).length⟩ := by
  induction text using List.reverseRecOn with
  | nil =>
      rw [List.take_nil]
      rfl
  | append_singleton text c ih =>
      rw [formatAddStr_append, ih, formatAddStr, List.foldl_cons, List.foldl_nil, bufAdd]
      by_cases hroom : text.length < len
      · have hall : text.take len = text := List.take_of_length_le hroom.le
        have hmore : (text ++ [c]).take len = text ++ [c] := by
          apply List.take_of_length_le
          rw [List.length_append, List.length_singleton]
          omega
        rw [hall, hmore, if_pos hroom, List.length_append, List.length_singleton, placed_concat]
      · have hfull : (text.take len).length = len := by
          rw [List.length_take]
          omega
        rw [hfull, if_neg (Nat.lt_irrefl len), List.take_append_of_le_length (not_lt.mp hroom),
          hfull]

/-- A format and its arguments in pieces. -/
def Spells (format : CString) (params : List (BitVec 32)) (items : List Item) : Prop :=
  (∀ item ∈ items, item.WellFormed) ∧
    (∃ tail, IsTail tail ∧ format = items.flatMap Item.spelling ++ tail) ∧
    ∃ more, params = items.flatMap Item.words ++ more

/-- So much of the text as leaves room for the terminator, the terminator, and nothing behind
it. -/
theorem vsnprintf_spells (strings : BitVec 32 → CString) (len : ℕ) {items : List Item}
    (hspells : Spells format params items) (buffer : ℕ → UInt8) :
    vsnprintf strings len buffer format params =
      .ok (placed buffer ((items.flatMap (Item.text strings)).take (len - 1) ++ [0]),
        min (items.flatMap (Item.text strings)).length (len - 1) + 1) := by
  obtain ⟨hitems, ⟨tail, htail, rfl⟩, more, rfl⟩ := hspells
  have hlen : (if len ≠ 0 then len - 1 else len) = len - 1 := by
    split <;> omega
  simp only [vsnprintf, hlen, formatLoop_items hitems htail, ok_bind, formatAddStr_eq]
  rw [placed_concat, List.length_take, Nat.min_comm]

/-! ## What cannot be printed -/

theorem formatAddBin_fault (len value : ℕ) {n : ℕ} (hn : 31 ≤ n) (buf : Buffer) :
    formatAddBin len value n buf = .error .fault := by
  obtain ⟨n, rfl⟩ := Nat.exists_eq_succ_of_ne_zero (show n ≠ 0 by omega)
  rw [formatAddBin, shiftOne, if_neg (by omega), error_bind]

theorem vaArg_eq_ok {word : BitVec 32} {rest : List (BitVec 32)}
    (htaken : vaArg params = .ok (word, rest)) : params = word :: rest := by
  cases params with
  | nil => cases htaken
  | cons first params =>
      obtain ⟨rfl, rfl⟩ := Prod.mk.inj (Except.ok.inj htaken)
      rfl

theorem wordsOf_append (high low : BitVec 32) : Item.wordsOf (high ++ low) = [low, high] := by
  have hlow : (high ++ low).setWidth 32 = low := by
    apply BitVec.eq_of_getLsbD_eq
    intro i hi
    rw [BitVec.getLsbD_setWidth, BitVec.getLsbD_append]
    simp [hi]
  have hhigh : ((high ++ low) >>> 32).setWidth 32 = high := by
    apply BitVec.eq_of_getLsbD_eq
    intro i hi
    rw [BitVec.getLsbD_setWidth, BitVec.getLsbD_ushiftRight, BitVec.getLsbD_append]
    simp [hi]
  rw [Item.wordsOf, hlow, hhigh]

theorem vaArg64_eq_ok {value : BitVec 64} {rest : List (BitVec 32)}
    (htaken : vaArg64 params = .ok (value, rest)) : params = Item.wordsOf value ++ rest := by
  match params, htaken with
  | low :: high :: params, htaken =>
      obtain ⟨rfl, rfl⟩ := Prod.mk.inj (Except.ok.inj htaken)
      rw [wordsOf_append]
      rfl

/-- A directive that is carried out belongs to a piece. -/
theorem directive_eq_ok {c : UInt8} {rest : List (BitVec 32)} {buf' : Buffer}
    (hdirective : directive strings len c params buf = .ok (rest, buf')) :
    ∃ item : Item, item.WellFormed ∧ item.spelling = [0x25, c] ∧ params = item.words ++ rest := by
  rw [directive] at hdirective
  split at hdirective
  · next hc =>
      obtain ⟨⟨address, params'⟩, htaken, hrest⟩ := bind_eq_ok.mp hdirective
      obtain ⟨rfl, -⟩ := Prod.mk.inj (Except.ok.inj hrest)
      exact ⟨.string address, trivial, by rw [hc, Item.spelling], vaArg_eq_ok htaken⟩
  split at hdirective
  · next hc =>
      obtain ⟨⟨value, params'⟩, htaken, hrest⟩ := bind_eq_ok.mp hdirective
      obtain ⟨rfl, -⟩ := Prod.mk.inj (Except.ok.inj hrest)
      exact ⟨.character value, trivial, by rw [hc, Item.spelling], vaArg_eq_ok htaken⟩
  split at hdirective
  · obtain ⟨⟨value, params'⟩, -, hrest⟩ := bind_eq_ok.mp hdirective
    simp only [formatAddBin_fault len value.toNat (show 31 ≤ 32 by decide), error_bind] at hrest
    cases hrest
  split at hdirective
  · obtain ⟨⟨value, params'⟩, -, hrest⟩ := bind_eq_ok.mp hdirective
    simp only [formatAddBin_fault len value.toNat (show 31 ≤ 64 by decide), error_bind] at hrest
    cases hrest
  split at hdirective
  · next hc =>
      obtain ⟨⟨value, params'⟩, htaken, hrest⟩ := bind_eq_ok.mp hdirective
      obtain ⟨added, -, hrest⟩ := bind_eq_ok.mp hrest
      obtain ⟨rfl, -⟩ := Prod.mk.inj (Except.ok.inj hrest)
      exact ⟨.decimal value, trivial, by rw [hc, Item.spelling], vaArg_eq_ok htaken⟩
  split at hdirective
  · next hc =>
      obtain ⟨⟨value, params'⟩, htaken, hrest⟩ := bind_eq_ok.mp hdirective
      obtain ⟨added, hadded, hrest⟩ := bind_eq_ok.mp hrest
      obtain ⟨rfl, -⟩ := Prod.mk.inj (Except.ok.inj hrest)
      refine ⟨.longDecimal value, ?_, by rw [hc, Item.spelling], vaArg64_eq_ok htaken⟩
      rintro rfl
      cases hadded
  split at hdirective
  · next hc =>
      obtain ⟨⟨value, params'⟩, htaken, hrest⟩ := bind_eq_ok.mp hdirective
      obtain ⟨added, -, hrest⟩ := bind_eq_ok.mp hrest
      obtain ⟨rfl, -⟩ := Prod.mk.inj (Except.ok.inj hrest)
      exact ⟨.hexadecimal value, trivial, by rw [hc, Item.spelling], vaArg_eq_ok htaken⟩
  split at hdirective
  · next hc =>
      obtain ⟨⟨value, params'⟩, htaken, hrest⟩ := bind_eq_ok.mp hdirective
      obtain ⟨added, -, hrest⟩ := bind_eq_ok.mp hrest
      obtain ⟨rfl, -⟩ := Prod.mk.inj (Except.ok.inj hrest)
      exact ⟨.longHexadecimal value, trivial, by rw [hc, Item.spelling], vaArg64_eq_ok htaken⟩
  · next hs hchar hb hB hd hD hx hX =>
      obtain ⟨rfl, -⟩ := Prod.mk.inj (Except.ok.inj hdirective)
      refine ⟨.escaped c, ?_, rfl, rfl⟩
      simp [Item.WellFormed, directives, hs, hchar, hb, hB, hd, hD, hx, hX]

theorem Spells.cons {items : List Item} (hspells : Spells format params items)
    (hitem : item.WellFormed) :
    Spells (item.spelling ++ format) (item.words ++ params) (item :: items) := by
  obtain ⟨hitems, ⟨tail, htail, rfl⟩, more, rfl⟩ := hspells
  refine ⟨List.forall_mem_cons.mpr ⟨hitem, hitems⟩, ⟨tail, htail, ?_⟩, more, ?_⟩
  · rw [List.flatMap_cons, List.append_assoc]
  · rw [List.flatMap_cons, List.append_assoc]

/-- A format that is worked off consists of pieces; in `interp` a percent sign lies before it. -/
theorem exists_spells_of_ok {interp : Bool} {buf' : Buffer}
    (hloop : formatLoop strings len format interp params buf = .ok buf') :
    ∃ items, Spells (if interp then 0x25 :: format else format) params items := by
  induction format generalizing interp params buf with
  | nil =>
      cases interp with
      | true => exact ⟨[], by simp, ⟨[0x25], Or.inr rfl, rfl⟩, params, rfl⟩
      | false => exact ⟨[], by simp, ⟨[], Or.inl rfl, rfl⟩, params, rfl⟩
  | cons c format ih =>
      cases interp with
      | true =>
          obtain ⟨⟨rest, added⟩, hdirective, hrest⟩ := bind_eq_ok.mp hloop
          obtain ⟨item, hitem, hspelling, rfl⟩ := directive_eq_ok hdirective
          obtain ⟨items, hspells⟩ := ih hrest
          refine ⟨item :: items, ?_⟩
          have hcons := Spells.cons hspells hitem
          rwa [hspelling] at hcons
      | false =>
          rw [formatLoop] at hloop
          split at hloop
          · next hpercent =>
              rw [hpercent]
              exact ih hloop
          · next hletter =>
              obtain ⟨items, hspells⟩ := ih hloop
              exact ⟨.letter c :: items, Spells.cons hspells hletter⟩

/-- `vsnprintf` returns without undefined behaviour exactly for the formats and arguments that
fit, and with their text; it has no result where it asks for an argument that was not passed,
for binary digits, whose shifts are too wide, or for the smallest 64-bit number.  The strings
lie apart from the buffer. -/
theorem vsnprintf_eq_ok_iff (buffer : ℕ → UInt8) (result : (ℕ → UInt8) × ℕ) :
    vsnprintf strings len buffer format params = .ok result ↔
      ∃ items, Spells format params items ∧
        result = (placed buffer ((items.flatMap (Item.text strings)).take (len - 1) ++ [0]),
          min (items.flatMap (Item.text strings)).length (len - 1) + 1) := by
  constructor
  · intro hresult
    obtain ⟨buf, hloop, -⟩ := bind_eq_ok.mp hresult
    obtain ⟨items, hspells⟩ := exists_spells_of_ok hloop
    refine ⟨items, hspells, ?_⟩
    have hprinted := vsnprintf_spells strings len hspells buffer
    exact Except.ok.inj (hresult.symm.trans hprinted)
  · rintro ⟨items, hspells, rfl⟩
    exact vsnprintf_spells strings len hspells buffer

end GeexOS.Print
