import Mathlib.Data.List.Basic
import Mathlib.Data.List.TakeWhile

/-!
# Strings of the loader

A string is the list of its characters in front of the terminating zero.  Names
are compared without regard to the case of ASCII letters, paths are split at
slashes.
-/

namespace GeexOS.Strings

/-- The characters in front of the terminator. -/
abbrev CString := List UInt8

def slash : UInt8 := 0x2F
def backslash : UInt8 := 0x5C

def tolower (c : UInt8) : UInt8 := if 0x41 ≤ c ∧ c ≤ 0x5A then 0x61 + (c - 0x41) else c

/-- `stricmp`; behind the end of a string its terminator is compared. -/
def stricmp : CString → CString → ℤ
  | [], [] => 0
  | [], c :: _ => 0 - (tolower c).toNat
  | c :: _, [] => (tolower c).toNat
  | c :: rest, c' :: rest' =>
      if tolower c = tolower c' then stricmp rest rest'
      else (tolower c).toInt8.toInt - (tolower c').toInt8.toInt

/-- `fs_getFilename`: what is behind the last slash. -/
def fsGetFilename (path : CString) : CString :=
  (path.reverse.takeWhile fun c => c ≠ slash).reverse

/-- `fs_concatPath` for a buffer of `buflen` characters. -/
def fsConcatPath (first second : CString) (buflen : ℕ) : CString :=
  let first :=
    if first.getLast? = some slash then first
    else first ++ [slash].take (buflen - first.length - 1)
  first ++ second.take (buflen - first.length - 1)

variable {left right name path front : CString} {c : UInt8}

theorem tolower_eq_slash (c : UInt8) : tolower c = slash ↔ c = slash := by
  have hall : ∀ c : Fin 256, tolower (UInt8.ofFin c) = slash ↔ UInt8.ofFin c = slash := by
    decide +kernel
  exact hall c.toFin

theorem tolower_eq_zero (c : UInt8) : tolower c = 0 ↔ c = 0 := by
  have hall : ∀ c : Fin 256, tolower (UInt8.ofFin c) = 0 ↔ UInt8.ofFin c = 0 := by
    decide +kernel
  exact hall c.toFin

/-- Two strings are equal for `stricmp` if they are so in lower case. -/
theorem stricmp_eq_zero_iff (hleft : 0 ∉ left) (hright : 0 ∉ right) :
    stricmp left right = 0 ↔ left.map tolower = right.map tolower := by
  have hpos : ∀ c : UInt8, c ≠ 0 → (tolower c).toNat ≠ 0 := fun c hc hzero =>
    hc ((tolower_eq_zero c).mp (UInt8.toNat_inj.mp hzero))
  induction left generalizing right with
  | nil =>
      cases right with
      | nil => simp [stricmp]
      | cons c rest =>
          have hc := hpos c fun heq => hright (heq ▸ List.mem_cons_self)
          simp only [stricmp, List.map_nil, List.map_cons, List.nil_eq, reduceCtorEq, iff_false]
          omega
  | cons c rest ih =>
      cases right with
      | nil =>
          have hc := hpos c fun heq => hleft (heq ▸ List.mem_cons_self)
          simp only [stricmp, List.map_nil, List.map_cons, reduceCtorEq, iff_false]
          omega
      | cons c' rest' =>
          have hrest := ih (fun hmem => hleft (List.mem_cons_of_mem _ hmem))
            (fun hmem => hright (List.mem_cons_of_mem _ hmem))
          rw [stricmp, List.map_cons, List.map_cons, List.cons.injEq]
          split
          · rename_i heq
            exact hrest.trans (and_iff_right heq).symm
          · rename_i hne
            refine iff_of_false (fun hzero => hne ?_) fun hboth => hne hboth.1
            have hsame : (tolower c).toInt8.toInt = (tolower c').toInt8.toInt := by omega
            exact congrArg Int8.toUInt8 (Int8.toInt_inj.mp hsame)

theorem fsGetFilename_subset (path : CString) : fsGetFilename path ⊆ path := by
  intro c hmem
  rw [fsGetFilename, List.mem_reverse] at hmem
  exact List.mem_reverse.mp (List.takeWhile_subset _ hmem)

theorem slash_notMem_fsGetFilename (path : CString) : slash ∉ fsGetFilename path := by
  intro hmem
  rw [fsGetFilename, List.mem_reverse] at hmem
  simpa using List.mem_takeWhile_imp hmem

/-- A name without slashes is found behind the last one. -/
theorem fsGetFilename_append (hname : slash ∉ name) :
    fsGetFilename (front ++ slash :: name) = name := by
  have hall : ∀ c ∈ name.reverse, decide (c ≠ slash) = true := by
    intro c hmem
    refine decide_eq_true fun heq => hname ?_
    rw [← heq]
    exact List.mem_reverse.mp hmem
  rw [fsGetFilename, List.reverse_append, List.reverse_cons, List.append_assoc,
    List.takeWhile_append_of_pos hall, List.singleton_append,
    List.takeWhile_cons_of_neg (by simp), List.append_nil, List.reverse_reverse]

theorem map_tolower_slash : slash ∈ name.map tolower ↔ slash ∈ name := by
  rw [List.mem_map]
  constructor
  · rintro ⟨c, hmem, hc⟩
    rwa [← (tolower_eq_slash c).mp hc]
  · intro hmem
    exact ⟨slash, hmem, (tolower_eq_slash slash).mpr rfl⟩

/-- The names behind the last slash agree if the paths do. -/
theorem fsGetFilename_map_tolower (hsame : left.map tolower = right.map tolower) :
    (fsGetFilename left).map tolower = (fsGetFilename right).map tolower := by
  have hfold : ∀ path : CString,
      (fsGetFilename path).map tolower = fsGetFilename (path.map tolower) := by
    intro path
    rw [fsGetFilename, fsGetFilename, List.map_reverse, ← @List.map_reverse _ _ tolower path,
      List.takeWhile_map]
    have htest : (fun c => decide (c ≠ slash)) ∘ tolower = fun c => decide (c ≠ slash) := by
      funext c
      exact decide_eq_decide.mpr (not_congr (tolower_eq_slash c))
    rw [htest]
  rw [hfold, hfold, hsame]

end GeexOS.Strings
