import Mathlib.Data.List.GetD
import Mathlib.Logic.Function.Basic
import Mathlib.Tactic.Common
import Mathlib.Tactic.Ring

/-!
# A window on a page

A page has rows without end and is written from the top.  A buffer of `height` rows
shows the last rows that were reached; when the page goes on below them, the rows of the
buffer move up by one and the last one is cleared.
-/

namespace GeexOS.Scrolling

variable {Cell : Type*}

/-! ## Loops over a buffer -/

/-- Copies the cells from `width` on to the front, in ascending order. -/
def copyDown (width count : ℕ) (buffer : ℕ → Cell) : ℕ → Cell :=
  (List.range count).foldl (fun buffer i => Function.update buffer i (buffer (i + width))) buffer

/-- Sets `count` cells from `start` on, in ascending order. -/
def fill (start count : ℕ) (value : Cell) (buffer : ℕ → Cell) : ℕ → Cell :=
  (List.range' start count).foldl (fun buffer i => Function.update buffer i value) buffer

/-- A cell that is read has not been written yet. -/
theorem copyDown_apply (width count : ℕ) (buffer : ℕ → Cell) (i : ℕ) :
    copyDown width count buffer i = if i < count then buffer (i + width) else buffer i := by
  induction count generalizing i with
  | zero => rw [if_neg (Nat.not_lt_zero i)]; rfl
  | succ count ih =>
      have hstep : copyDown width (count + 1) buffer =
          Function.update (copyDown width count buffer) count
            (copyDown width count buffer (count + width)) := by
        rw [copyDown, List.range_succ, List.foldl_append]
        rfl
      rw [hstep]
      rcases eq_or_ne i count with rfl | hne
      · rw [Function.update_self, ih, if_neg (by omega), if_pos (Nat.lt_succ_self i)]
      · rw [Function.update_of_ne hne, ih]
        have hiff : i < count ↔ i < count + 1 := by omega
        simp only [hiff]

theorem fill_apply (start count : ℕ) (value : Cell) (buffer : ℕ → Cell) (i : ℕ) :
    fill start count value buffer i =
      if start ≤ i ∧ i < start + count then value else buffer i := by
  induction count generalizing i with
  | zero => rw [if_neg (by omega)]; rfl
  | succ count ih =>
      have hstep : fill start (count + 1) value buffer =
          Function.update (fill start count value buffer) (start + count) value := by
        rw [fill, List.range'_concat, List.foldl_append, Nat.one_mul]
        rfl
      rw [hstep]
      rcases eq_or_ne i (start + count) with rfl | hne
      · rw [Function.update_self, if_pos (by omega)]
      · rw [Function.update_of_ne hne, ih]
        have hiff : (start ≤ i ∧ i < start + count) ↔ start ≤ i ∧ i < start + (count + 1) := by
          omega
        simp only [hiff]

/-- Moves all rows but the first one up and clears the last row. -/
def rollUp (width height : ℕ) (blank : Cell) (buffer : ℕ → Cell) : ℕ → Cell :=
  fill ((height - 1) * width) width blank (copyDown width ((height - 1) * width) buffer)

/-! ## Pages -/

/-- The cells of a page by row and column, and the place that is written next. -/
structure Page (Cell : Type*) where
  cell : ℕ → ℕ → Cell
  row : ℕ
  column : ℕ

namespace Page

def write (page : Page Cell) (value : Cell) : Page Cell :=
  { page with
    cell := fun row column =>
      if row = page.row ∧ column = page.column then value else page.cell row column }

def moveTo (page : Page Cell) (column : ℕ) : Page Cell := { page with column := column }

/-- The next row; beyond the first `height` rows the page is cleared as it is reached. -/
def feed (height : ℕ) (blank : Cell) (page : Page Cell) : Page Cell where
  cell := fun row column =>
    if height ≤ row ∧ row = page.row + 1 then blank else page.cell row column
  row := page.row + 1
  column := 0

/-- The rows that have left a window of `height` rows. -/
def hidden (height : ℕ) (page : Page Cell) : ℕ := page.row + 1 - height

theorem write_cell (page : Page Cell) (value : Cell) (row column : ℕ) :
    (page.write value).cell row column =
      if row = page.row ∧ column = page.column then value else page.cell row column := rfl

theorem feed_cell (height : ℕ) (blank : Cell) (page : Page Cell) (row column : ℕ) :
    (page.feed height blank).cell row column =
      if height ≤ row ∧ row = page.row + 1 then blank else page.cell row column := rfl

theorem hidden_feed (height : ℕ) (blank : Cell) (page : Page Cell) :
    (page.feed height blank).hidden height = page.row + 2 - height := rfl

end Page

/-- A buffer shows the rows of a page from a first one on. -/
def Shows (width height first : ℕ) (page : Page Cell) (buffer : ℕ → Cell) : Prop :=
  ∀ row < height, ∀ column < width, buffer (row * width + column) = page.cell (first + row) column

variable {width height : ℕ} {page : Page Cell} {buffer : ℕ → Cell}

/-- Cells of different places lie apart. -/
theorem index_injective {row column row' column' : ℕ} (hcolumn : column < width)
    (hcolumn' : column' < width)
    (hsame : row * width + column = row' * width + column') : row = row' ∧ column = column' := by
  have hpos : 0 < width := Nat.zero_lt_of_lt hcolumn
  have hrow : row = row' := by
    have hleft : (row * width + column) / width = row := by
      rw [Nat.mul_comm, Nat.mul_add_div hpos, Nat.div_eq_of_lt hcolumn, Nat.add_zero]
    have hright : (row' * width + column') / width = row' := by
      rw [Nat.mul_comm, Nat.mul_add_div hpos, Nat.div_eq_of_lt hcolumn', Nat.add_zero]
    rw [← hleft, ← hright, hsame]
  subst hrow
  exact ⟨rfl, Nat.add_left_cancel hsame⟩

theorem index_lt {row column : ℕ} (hrow : row < height) (hcolumn : column < width) :
    row * width + column < height * width :=
  calc row * width + column < row * width + width := Nat.add_lt_add_left hcolumn _
    _ = (row + 1) * width := (Nat.succ_mul row width).symm
    _ ≤ height * width := Nat.mul_le_mul_right width hrow

/-- A cell is written in the buffer and on the page. -/
theorem Shows.write {first cursor : ℕ} (hshows : Shows width height first page buffer)
    (hcursor : first + cursor = page.row) (hcolumn : page.column < width) (value : Cell) :
    Shows width height first (page.write value)
      (Function.update buffer (cursor * width + page.column) value) := by
  intro row hrow column hcolumn'
  rw [Page.write_cell]
  by_cases hplace : row = cursor ∧ column = page.column
  · obtain ⟨rfl, rfl⟩ := hplace
    rw [Function.update_self, if_pos ⟨hcursor, rfl⟩]
  · have hindex : row * width + column ≠ cursor * width + page.column := fun hsame =>
      hplace (index_injective hcolumn' hcolumn hsame)
    rw [Function.update_of_ne hindex, hshows row hrow column hcolumn', if_neg]
    rintro ⟨hsame, hcolumns⟩
    exact hplace ⟨by omega, hcolumns⟩

/-- Below the last row of the buffer the next row comes in. -/
theorem Shows.rollUp {first : ℕ} (hshows : Shows width height first page buffer)
    (hheight : 0 < height) (hlast : first + height = page.row + 1) (blank : Cell) :
    Shows width height (first + 1) (page.feed height blank)
      (rollUp width height blank buffer) := by
  intro row hrow column hcolumn
  rw [Page.feed_cell, Scrolling.rollUp, fill_apply, copyDown_apply]
  by_cases hend : row = height - 1
  · have hinside : (height - 1) * width ≤ row * width + column ∧
        row * width + column < (height - 1) * width + width := by
      rw [hend]
      omega
    rw [if_pos hinside, if_pos (by omega)]
  · have hbefore : row * width + column < (height - 1) * width :=
      index_lt (by omega) hcolumn
    have hnext : row * width + column + width = (row + 1) * width + column := by ring
    rw [if_neg (by omega), if_pos hbefore, hnext, hshows (row + 1) (by omega) column hcolumn,
      if_neg (by omega), Nat.add_assoc, Nat.add_comm 1 row]

/-- Above the last row the buffer stays as it is. -/
theorem Shows.feed (hshows : Shows width height 0 page buffer) (blank : Cell) :
    Shows width height 0 (page.feed height blank) buffer := by
  intro row hrow column hcolumn
  rw [Page.feed_cell, if_neg (by omega)]
  exact hshows row hrow column hcolumn

theorem rollUp_of_ge (width : ℕ) (hheight : 0 < height) (blank : Cell) {i : ℕ}
    (hi : height * width ≤ i) :
    rollUp width height blank buffer i = buffer i := by
  have hend : (height - 1) * width + width = height * width := by
    rw [← Nat.succ_mul, Nat.succ_eq_add_one, Nat.sub_add_cancel hheight]
  rw [rollUp, fill_apply, copyDown_apply, if_neg (by omega), if_neg (by omega)]

/-! ## Wrapped text -/

section Wrapping

variable {Letter : Type*}

theorem getD_concat (front : List Letter) (last default : Letter) (i : ℕ) :
    (front ++ [last]).getD i default = if i = front.length then last else front.getD i default := by
  split
  · next hi => rw [hi, List.getD_append_right _ _ _ _ le_rfl, Nat.sub_self, List.getD_cons_zero]
  · next hi =>
      rcases Nat.lt_or_ge i front.length with hlt | hge
      · rw [List.getD_append _ _ _ _ hlt]
      · rw [List.getD_eq_default _ _ hge, List.getD_eq_default]
        rw [List.length_append, List.length_singleton]
        omega

/-- The rows that a line takes; after a full row the next one is begun. -/
def rowsOfLine (width : ℕ) (line : List Letter) : List (List Letter) :=
  (List.range (line.length / width + 1)).map fun row => (line.drop (row * width)).take width

theorem rowsOfLine_nil (width : ℕ) : rowsOfLine width ([] : List Letter) = [[]] := by
  rw [rowsOfLine, List.length_nil, Nat.zero_div]
  simp

/-- One more letter goes to the end of the last row. -/
theorem rowsOfLine_concat (hwidth : 0 < width) (line : List Letter) :
    ∃ front last, rowsOfLine width line = front ++ [last] ∧ last.length < width ∧
      ∀ letter, rowsOfLine width (line ++ [letter]) =
        front ++
          (if last.length + 1 < width then [last ++ [letter]] else [last ++ [letter], []]) := by
  have hdiv : line.length / width * width + line.length % width = line.length := by
    rw [Nat.mul_comm]
    exact Nat.div_add_mod _ _
  have hmod : line.length % width < width := Nat.mod_lt _ hwidth
  have hlast : (line.drop (line.length / width * width)).length = line.length % width := by
    rw [List.length_drop]
    omega
  have hfront : ∀ letter, (List.range (line.length / width)).map
        (fun row => ((line ++ [letter]).drop (row * width)).take width) =
      (List.range (line.length / width)).map (fun row => (line.drop (row * width)).take width) := by
    intro letter
    apply List.map_congr_left
    intro row hrow
    have hle : (row + 1) * width ≤ line.length / width * width :=
      Nat.mul_le_mul_right width (List.mem_range.mp hrow)
    rw [Nat.succ_mul] at hle
    rw [List.drop_append_of_le_length (by omega), List.take_append_of_le_length]
    rw [List.length_drop]
    omega
  refine ⟨(List.range (line.length / width)).map fun row => (line.drop (row * width)).take width,
    line.drop (line.length / width * width), ?_, ?_, fun letter => ?_⟩
  · rw [rowsOfLine, List.range_succ, List.map_append, List.map_singleton,
      List.take_of_length_le (by omega)]
  · omega
  · rw [hlast, rowsOfLine, List.length_append, List.length_singleton]
    have hrow : ((line ++ [letter]).drop (line.length / width * width)).take width =
        line.drop (line.length / width * width) ++ [letter] := by
      rw [List.drop_append_of_le_length (by omega), List.take_of_length_le]
      rw [List.length_append, hlast, List.length_singleton]
      omega
    split
    · next hroom =>
        have hquotient : (line.length + 1) / width = line.length / width := by
          rw [Nat.div_eq_iff hwidth]
          constructor
          · omega
          · omega
        rw [hquotient, List.range_succ, List.map_append, List.map_singleton, hfront, hrow]
    · next hfull =>
        have hquotient : (line.length + 1) / width = line.length / width + 1 := by
          have hend : line.length + 1 = (line.length / width + 1) * width := by
            rw [Nat.succ_mul]
            omega
          rw [hend, Nat.mul_div_cancel _ hwidth]
        have hrest : ((line ++ [letter]).drop ((line.length / width + 1) * width)).take width =
            [] := by
          rw [List.drop_eq_nil_of_le, List.take_nil]
          rw [List.length_append, List.length_singleton, Nat.succ_mul]
          omega
        rw [hquotient, List.range_succ, List.range_succ, List.map_append, List.map_append,
          List.map_singleton, List.map_singleton, hfront, hrow, hrest, List.append_assoc]
        rfl

variable [DecidableEq Letter]

/-- The rows of a text whose lines are separated by `newline`. -/
def wrapped (width : ℕ) (newline : Letter) (text : List Letter) : List (List Letter) :=
  (text.splitOn newline).flatMap (rowsOfLine width)

theorem splitOn_concat (newline : Letter) (text : List Letter) :
    ∃ front line, text.splitOn newline = front ++ [line] ∧
      (text ++ [newline]).splitOn newline = front ++ [line, []] ∧
      ∀ letter, letter ≠ newline →
        (text ++ [letter]).splitOn newline = front ++ [line ++ [letter]] := by
  induction text with
  | nil =>
      refine ⟨[], [], List.splitOn_nil newline, ?_, fun letter hletter => ?_⟩
      · rw [List.nil_append, List.splitOn_cons_eq_if_modifyHead, if_pos (beq_self_eq_true newline),
          List.splitOn_nil]
        rfl
      · rw [List.nil_append, List.splitOn_cons_eq_if_modifyHead, if_neg (by simpa using hletter),
          List.splitOn_nil]
        rfl
  | cons first text ih =>
      obtain ⟨front, line, hsplit, hnewline, hletter⟩ := ih
      simp only [List.cons_append, List.splitOn_cons_eq_if_modifyHead]
      split
      · refine ⟨[] :: front, line, by rw [hsplit]; rfl, by rw [hnewline]; rfl, ?_⟩
        intro letter hne
        rw [hletter letter hne]
        rfl
      · rw [hsplit, hnewline]
        cases front with
        | nil =>
            refine ⟨[], first :: line, rfl, rfl, fun letter hne => ?_⟩
            rw [hletter letter hne]
            rfl
        | cons head front =>
            refine ⟨(first :: head) :: front, line, rfl, rfl, fun letter hne => ?_⟩
            rw [hletter letter hne]
            rfl

/-- One more letter, or one more line. -/
theorem wrapped_concat (hwidth : 0 < width) (newline : Letter) (text : List Letter) :
    ∃ front last, wrapped width newline text = front ++ [last] ∧ last.length < width ∧
      wrapped width newline (text ++ [newline]) = front ++ [last, []] ∧
      ∀ letter, letter ≠ newline → wrapped width newline (text ++ [letter]) =
        front ++
          (if last.length + 1 < width then [last ++ [letter]] else [last ++ [letter], []]) := by
  obtain ⟨lines, line, hsplit, hnewline, hletter⟩ := splitOn_concat newline text
  obtain ⟨front, last, hrows, hlast, hconcat⟩ := rowsOfLine_concat hwidth line
  refine ⟨lines.flatMap (rowsOfLine width) ++ front, last, ?_, hlast, ?_, fun letter hne => ?_⟩
  · rw [wrapped, hsplit, List.flatMap_append, List.flatMap_singleton, hrows, List.append_assoc]
  · rw [wrapped, hnewline, List.flatMap_append, List.flatMap_cons, List.flatMap_singleton, hrows,
      rowsOfLine_nil, List.append_assoc, List.append_assoc]
    rfl
  · rw [wrapped, hletter letter hne, List.flatMap_append, List.flatMap_singleton, hconcat,
      List.append_assoc]

end Wrapping

end GeexOS.Scrolling
