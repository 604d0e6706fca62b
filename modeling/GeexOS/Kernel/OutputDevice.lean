import GeexOS.Library.Halting
import Mathlib.Data.List.Induction
import Mathlib.Tactic.Linarith

/-!
# Numbers on an output device

Digits come out lowest first.  They are put into a buffer of 20 characters, which is
reversed up to its terminating NUL and printed.  An access outside the buffer has no
defined result, and the model stops there.
-/

namespace GeexOS.OutputDevice

open GeexOS.Halting

def nul : Char := Char.ofNat 0

def load (arr : List Char) (i : ℕ) : Outcome Char :=
  match arr[i]? with
  | some c => .ok c
  | none => .error .fault

def store (arr : List Char) (i : ℕ) (c : Char) : Outcome (List Char) :=
  if i < arr.length then .ok (arr.set i c) else .error .fault

def strlen : List Char → Outcome ℕ
  | [] => .error .fault
  | c :: str =>
      if c = nul then .ok 0
      else do
        let retval ← strlen str
        .ok (retval + 1)

/-- The loop of `reverseArray`.  The indices are integers there: `j` is -1 for an empty
string, and the loop is not entered either. -/
def reverseLoop : (fuel i j : ℕ) → List Char → Outcome (List Char)
  | 0, _, _, _ => .error .diverges
  | fuel + 1, i, j, arr =>
      if i < j then do
        let c ← load arr i
        let other ← load arr j
        let arr ← store arr i other
        let arr ← store arr j c
        reverseLoop fuel (i + 1) (j - 1) arr
      else .ok arr

def reverseArray (arr : List Char) : Outcome (List Char) := do
  let length ← strlen arr
  reverseLoop (length + 1) 0 (length - 1) arr

/-- The characters that `PrintString` hands to `PrintChar`. -/
def printString : List Char → Outcome (List Char)
  | [] => .error .fault
  | c :: rest =>
      if c = nul then .ok []
      else do
        let printed ← printString rest
        .ok (c :: printed)

/-- `char num[20]` after `memset(num, 0, 20)`. -/
def num : List Char := List.replicate 20 nul

/-- The loop of `PrintHex` and `PrintDec`, for 64-bit numbers. -/
def digitLoop (base : ℕ) (digit : ℕ → Char) :
    (fuel n i : ℕ) → List Char → Outcome (List Char)
  | 0, _, _, _ => .error .diverges
  | fuel + 1, n, i, num => do
      let num ← store num i (digit (n % base))
      if n / base ≠ 0 then digitLoop base digit fuel (n / base) (i + 1) num
      else .ok num

def hexChars : List Char :=
  ['0', '1', '2', '3', '4', '5', '6', '7', '8', '9', 'A', 'B', 'C', 'D', 'E', 'F']

/-- `hexChars[d]`. -/
def hexDigit (d : ℕ) : Char := hexChars.getD d nul

/-- `(char)(d + '0')`. -/
def decDigit (d : ℕ) : Char := Char.ofNat (d + 48)

/-- The string literal `"0x"`. -/
def hexMark : List Char := ['0', 'x', nul]

/-- `PrintHex`, with the characters that it prints. -/
def printHex (n : ℕ) : Outcome (List Char) := do
  let num ← digitLoop 16 hexDigit 64 n 0 num
  let num ← reverseArray num
  let mark ← printString hexMark
  let printed ← printString num
  .ok (mark ++ printed)

/-- `PrintDec(uint64_t)`, with the characters that it prints. -/
def printDec (n : ℕ) : Outcome (List Char) := do
  let num ← digitLoop 10 decDigit 64 n 0 num
  let num ← reverseArray num
  printString num

/-! ## Strings in a buffer -/

variable {front text rest : List Char} {c : Char}

theorem load_append : load (front ++ c :: rest) front.length = .ok c := by
  rw [load, List.getElem?_append_right (Nat.le_refl _), Nat.sub_self, List.getElem?_cons_zero]

theorem store_append (other : Char) :
    store (front ++ c :: rest) front.length other = .ok (front ++ other :: rest) := by
  rw [store, if_pos (by simp), List.set_append_right _ _ (Nat.le_refl _), Nat.sub_self,
    List.set_cons_zero]

theorem strlen_text (htext : ∀ c ∈ text, c ≠ nul) :
    strlen (text ++ nul :: rest) = .ok text.length := by
  induction text with
  | nil => rw [List.nil_append, strlen, if_pos rfl, List.length_nil]
  | cons c text ih =>
      obtain ⟨hc, htext⟩ := List.forall_mem_cons.mp htext
      rw [List.cons_append, strlen, if_neg hc, ih htext, ok_bind, List.length_cons]

/-- A string without its NUL is read past the end of the buffer. -/
theorem strlen_unterminated (htext : ∀ c ∈ text, c ≠ nul) : strlen text = .error .fault := by
  induction text with
  | nil => rfl
  | cons c text ih =>
      obtain ⟨hc, htext⟩ := List.forall_mem_cons.mp htext
      rw [strlen, if_neg hc, ih htext, error_bind]

theorem printString_text (htext : ∀ c ∈ text, c ≠ nul) :
    printString (text ++ nul :: rest) = .ok text := by
  induction text with
  | nil => rw [List.nil_append, printString, if_pos rfl]
  | cons c text ih =>
      obtain ⟨hc, htext⟩ := List.forall_mem_cons.mp htext
      rw [List.cons_append, printString, if_neg hc, ih htext, ok_bind]

/-- One round swaps the characters at both ends. -/
theorem reverseLoop_round (fuel : ℕ) (first last : Char) :
    reverseLoop (fuel + 1) front.length (front.length + text.length + 1)
        (front ++ first :: (text ++ last :: rest)) =
      reverseLoop fuel (front.length + 1) (front.length + text.length)
        (front ++ last :: (text ++ first :: rest)) := by
  have hsplit : ∀ c d, front ++ c :: (text ++ d :: rest) = front ++ c :: text ++ d :: rest := by
    intro c d
    rw [List.append_assoc, List.cons_append]
  have hend : ∀ c, front.length + text.length + 1 = (front ++ c :: text).length := by
    intro c
    rw [List.length_append, List.length_cons, Nat.add_assoc]
  have hload : load (front ++ first :: (text ++ last :: rest))
      (front.length + text.length + 1) = .ok last := by
    rw [hsplit, hend first]
    exact load_append
  have hstore : store (front ++ last :: (text ++ last :: rest))
      (front.length + text.length + 1) first = .ok (front ++ last :: (text ++ first :: rest)) := by
    rw [hsplit, hend last, store_append, hsplit]
  rw [reverseLoop, if_pos (by omega), load_append, ok_bind, hload, ok_bind, store_append, ok_bind,
    hstore, ok_bind, Nat.add_sub_cancel]

/-- The loop reverses what lies between its indices. -/
theorem reverseLoop_eq {fuel : ℕ} (hfuel : text.length ≤ fuel) :
    reverseLoop (fuel + 1) front.length (front.length + text.length - 1)
        (front ++ (text ++ rest)) =
      .ok (front ++ (text.reverse ++ rest)) := by
  induction text using List.bidirectionalRec generalizing front rest fuel with
  | nil => rw [reverseLoop, if_neg (by simp), List.reverse_nil]
  | singleton c => rw [reverseLoop, if_neg (by simp), List.reverse_singleton]
  | cons_append first text last ih =>
      rw [List.length_cons, List.length_append, List.length_singleton] at hfuel ⊢
      obtain ⟨fuel, rfl⟩ := Nat.exists_eq_succ_of_ne_zero (show fuel ≠ 0 by omega)
      have hends : front.length + (text.length + 1 + 1) - 1 = front.length + text.length + 1 := by
        omega
      have hnext : reverseLoop (fuel + 1) (front.length + 1) (front.length + text.length)
          (front ++ last :: (text ++ first :: rest)) =
          .ok (front ++ last :: (text.reverse ++ first :: rest)) := by
        have hinner := @ih (front ++ [last]) (first :: rest) fuel (by omega)
        rwa [List.length_append, List.length_singleton, Nat.add_right_comm, Nat.add_sub_cancel,
          List.append_assoc, List.append_assoc, List.singleton_append,
          List.singleton_append] at hinner
      rw [hends, List.cons_append, List.append_assoc, List.singleton_append, Nat.succ_eq_add_one,
        reverseLoop_round, hnext]
      simp

theorem reverseArray_text (htext : ∀ c ∈ text, c ≠ nul) :
    reverseArray (text ++ nul :: rest) = .ok (text.reverse ++ nul :: rest) := by
  have hloop : reverseLoop (text.length + 1) ([] : List Char).length
      (([] : List Char).length + text.length - 1) ([] ++ (text ++ nul :: rest)) =
      .ok ([] ++ (text.reverse ++ nul :: rest)) := reverseLoop_eq (Nat.le_refl _)
  rw [List.length_nil, Nat.zero_add, List.nil_append, List.nil_append] at hloop
  rw [reverseArray, strlen_text htext, ok_bind, hloop]

theorem reverseArray_unterminated (htext : ∀ c ∈ text, c ≠ nul) :
    reverseArray text = .error .fault := by
  rw [reverseArray, strlen_unterminated htext, error_bind]

/-! ## Digits -/

variable {base fuel n room : ℕ} {digit : ℕ → Char}

/-- The digits of a number, the highest first, in the characters of a device. -/
def numeral (base : ℕ) (convert : Char → Char) (n : ℕ) : List Char :=
  (Nat.toDigits base n).map convert

/-- What a device writes for a digit. -/
structure Writes (base : ℕ) (digit : ℕ → Char) (convert : Char → Char) : Prop where
  one_lt : 1 < base
  digit_eq : ∀ d < base, digit d = convert (Nat.digitChar d)
  digit_ne : ∀ d < base, digit d ≠ nul

section Writes

variable {convert : Char → Char} (hwrites : Writes base digit convert)

include hwrites

theorem numeral_of_lt (hlt : n < base) : numeral base convert n = [digit n] := by
  rw [numeral, Nat.toDigits_of_lt_base hlt, List.map_singleton, hwrites.digit_eq n hlt]

theorem numeral_of_le (hle : base ≤ n) :
    numeral base convert n = numeral base convert (n / base) ++ [digit (n % base)] := by
  have hmod : n % base < base := Nat.mod_lt n (Nat.zero_lt_of_lt hwrites.one_lt)
  rw [numeral, Nat.toDigits_of_base_le hwrites.one_lt hle, List.map_append, List.map_singleton,
    hwrites.digit_eq _ hmod, numeral]

theorem numeral_ne_nul : ∀ c ∈ numeral base convert n, c ≠ nul := by
  induction n using Nat.strongRecOn with
  | ind n ih =>
      intro c hc
      rcases Nat.lt_or_ge n base with hlt | hle
      · rw [numeral_of_lt hwrites hlt, List.mem_singleton] at hc
        rw [hc]
        exact hwrites.digit_ne n hlt
      · have hbase := Nat.zero_lt_of_lt hwrites.one_lt
        rw [numeral_of_le hwrites hle, List.mem_append, List.mem_singleton] at hc
        rcases hc with hc | hc
        · have hsmaller : n / base < n := Nat.div_lt_self (by omega) hwrites.one_lt
          exact ih (n / base) hsmaller c hc
        · rw [hc]
          exact hwrites.digit_ne _ (Nat.mod_lt n hbase)

theorem length_numeral_le_iff (hroom : 0 < room) :
    (numeral base convert n).length ≤ room ↔ n < base ^ room := by
  rw [numeral, List.length_map]
  exact Nat.length_toDigits_le_iff hwrites.one_lt hroom

/-- The loop puts the digits behind what is in the buffer, the lowest first. -/
theorem digitLoop_eq (hfuel : (numeral base convert n).length ≤ fuel)
    (hroom : (numeral base convert n).length ≤ room) :
    digitLoop base digit fuel n front.length (front ++ List.replicate room nul) =
      .ok (front ++ ((numeral base convert n).reverse ++
        List.replicate (room - (numeral base convert n).length) nul)) := by
  have hbase := Nat.zero_lt_of_lt hwrites.one_lt
  induction fuel generalizing n room front with
  | zero =>
      have hnil : numeral base convert n = [] := List.length_eq_zero_iff.mp (Nat.le_zero.mp hfuel)
      rw [numeral, List.map_eq_nil_iff] at hnil
      exact absurd hnil Nat.toDigits_ne_nil
  | succ fuel ih =>
      rcases Nat.lt_or_ge n base with hlt | hle
      · rw [numeral_of_lt hwrites hlt, List.length_singleton] at hroom ⊢
        obtain ⟨room, rfl⟩ := Nat.exists_eq_succ_of_ne_zero (Nat.ne_zero_of_lt hroom)
        rw [digitLoop, Nat.succ_eq_add_one, List.replicate_succ, store_append, ok_bind,
          Nat.div_eq_of_lt hlt, if_neg (not_not.mpr rfl), Nat.mod_eq_of_lt hlt,
          List.reverse_singleton, Nat.add_sub_cancel, List.singleton_append]
      · have hdiv : n / base ≠ 0 := (Nat.div_pos hle hbase).ne'
        rw [numeral_of_le hwrites hle, List.length_append, List.length_singleton] at hfuel hroom ⊢
        obtain ⟨room, rfl⟩ := Nat.exists_eq_succ_of_ne_zero (show room ≠ 0 by omega)
        have hnext : digitLoop base digit fuel (n / base) (front.length + 1)
            (front ++ digit (n % base) :: List.replicate room nul) = .ok (front ++
              digit (n % base) :: ((numeral base convert (n / base)).reverse ++
                List.replicate (room - (numeral base convert (n / base)).length) nul)) := by
          have hrest := @ih (front ++ [digit (n % base)]) (n / base) room (by omega) (by omega)
          rwa [List.length_append, List.length_singleton, List.append_assoc, List.append_assoc,
            List.singleton_append, List.singleton_append] at hrest
        rw [digitLoop, Nat.succ_eq_add_one, List.replicate_succ, store_append, ok_bind,
          if_pos hdiv, hnext, List.reverse_append, List.reverse_singleton, List.singleton_append,
          List.cons_append, Nat.add_sub_add_right]

/-- The loop fills the buffer with the digits, the lowest first, in front of NULs. -/
theorem digitLoop_num (hfuel : (numeral base convert n).length ≤ fuel)
    (hroom : (numeral base convert n).length ≤ 20) :
    digitLoop base digit fuel n 0 num = .ok ((numeral base convert n).reverse ++
      List.replicate (20 - (numeral base convert n).length) nul) := by
  have hdigits : digitLoop base digit fuel n ([] : List Char).length
      ([] ++ List.replicate 20 nul) = _ := digitLoop_eq hwrites hfuel hroom
  rwa [List.length_nil, List.nil_append, List.nil_append] at hdigits

theorem reverse_numeral_ne_nul : ∀ c ∈ (numeral base convert n).reverse, c ≠ nul :=
  fun c hc => numeral_ne_nul hwrites c (List.mem_reverse.mp hc)

/-- A numeral that leaves room for its NUL is reversed into its place. -/
theorem digits_reversed (hfuel : (numeral base convert n).length ≤ fuel)
    (hroom : (numeral base convert n).length < 20) :
    ∃ digits rest, digitLoop base digit fuel n 0 num = .ok digits ∧
      reverseArray digits = .ok (numeral base convert n ++ nul :: rest) := by
  obtain ⟨room, hrest⟩ : ∃ room, 20 - (numeral base convert n).length = room + 1 :=
    ⟨19 - (numeral base convert n).length, by omega⟩
  refine ⟨_, List.replicate room nul, digitLoop_num hwrites hfuel (by omega), ?_⟩
  rw [hrest, List.replicate_succ, reverseArray_text (reverse_numeral_ne_nul hwrites),
    List.reverse_reverse]

/-- A numeral that fills the buffer is read past its end. -/
theorem digits_unterminated (hfuel : (numeral base convert n).length ≤ fuel)
    (hroom : (numeral base convert n).length = 20) :
    ∃ digits, digitLoop base digit fuel n 0 num = .ok digits ∧
      reverseArray digits = .error .fault := by
  refine ⟨_, digitLoop_num hwrites hfuel (by omega), ?_⟩
  rw [hroom, Nat.sub_self, List.replicate_zero, List.append_nil,
    reverseArray_unterminated (reverse_numeral_ne_nul hwrites)]

end Writes

/-! ## The two functions -/

theorem writes_hex : Writes 16 hexDigit Char.toUpper where
  one_lt := by decide
  digit_eq := by decide
  digit_ne := by decide

theorem writes_dec : Writes 10 decDigit id where
  one_lt := by decide
  digit_eq := by decide
  digit_ne := by decide

/-- `PrintHex` is exact for every 64-bit number, which has 16 hexadecimal digits at most. -/
theorem printHex_eq (hn : n < 2 ^ 64) :
    printHex n = .ok ('0' :: 'x' :: (Nat.toDigits 16 n).map Char.toUpper) := by
  have hlength : (numeral 16 Char.toUpper n).length ≤ 16 := by
    rw [length_numeral_le_iff writes_hex (by decide)]
    exact Nat.lt_of_lt_of_le hn (by norm_num)
  obtain ⟨digits, rest, hdigits, hreverse⟩ := digits_reversed writes_hex (show _ ≤ 64 by omega)
    (show (numeral 16 Char.toUpper n).length < 20 by omega)
  have hmark : printString hexMark = .ok ['0', 'x'] := by decide
  have hnum : printString (numeral 16 Char.toUpper n ++ nul :: rest) =
      .ok (numeral 16 Char.toUpper n) := printString_text (numeral_ne_nul writes_hex)
  rw [printHex, hdigits, ok_bind, hreverse, ok_bind, hmark, ok_bind, hnum, ok_bind]
  rfl

theorem printDec_eq (hn : n < 10 ^ 19) : printDec n = .ok (Nat.toDigits 10 n) := by
  have hlength : (numeral 10 id n).length ≤ 19 :=
    (length_numeral_le_iff writes_dec (by decide)).mpr hn
  obtain ⟨digits, rest, hdigits, hreverse⟩ := digits_reversed writes_dec (show _ ≤ 64 by omega)
    (show (numeral 10 id n).length < 20 by omega)
  rw [printDec, hdigits, ok_bind, hreverse, ok_bind,
    printString_text (numeral_ne_nul writes_dec), numeral, List.map_id]

theorem printDec_full (hlarge : 10 ^ 19 ≤ n) (hn : n < 2 ^ 64) :
    printDec n = .error .fault := by
  have hlow : ¬ (numeral 10 id n).length ≤ 19 := fun hle =>
    absurd ((length_numeral_le_iff writes_dec (by decide)).mp hle) (not_lt.mpr hlarge)
  have hhigh : (numeral 10 id n).length ≤ 20 := by
    rw [length_numeral_le_iff writes_dec (by decide)]
    exact Nat.lt_of_lt_of_le hn (by norm_num)
  obtain ⟨digits, hdigits, hreverse⟩ := digits_unterminated writes_dec (show _ ≤ 64 by omega)
    (show (numeral 10 id n).length = 20 by omega)
  rw [printDec, hdigits, ok_bind, hreverse, error_bind]

/-- Both functions print the numeral and stay in their buffers exactly for the numbers with
fewer than 20 decimal digits. -/
theorem print_exact_iff (hn : n < 2 ^ 64) :
    (printDec n = .ok (Nat.toDigits 10 n) ∧
      printHex n = .ok ('0' :: 'x' :: (Nat.toDigits 16 n).map Char.toUpper)) ↔ n < 10 ^ 19 := by
  rw [and_iff_left (printHex_eq hn)]
  constructor
  · intro hprint
    by_contra hlarge
    rw [printDec_full (not_lt.mp hlarge) hn] at hprint
    cases hprint
  · exact printDec_eq

theorem print_exact_iff_largest :
    (printDec (10 ^ 19 - 1) = .ok (Nat.toDigits 10 (10 ^ 19 - 1)) ∧
      printHex (10 ^ 19 - 1) =
        .ok ('0' :: 'x' :: (Nat.toDigits 16 (10 ^ 19 - 1)).map Char.toUpper)) ↔
      10 ^ 19 - 1 < 10 ^ 19 :=
  print_exact_iff (by norm_num)

/-- The smallest number with 20 digits. -/
theorem printDec_not_exact : printDec (10 ^ 19) ≠ .ok (Nat.toDigits 10 (10 ^ 19)) := by
  rw [printDec_full (Nat.le_refl _) (by norm_num)]
  exact fun hprint => by cases hprint

end GeexOS.OutputDevice
