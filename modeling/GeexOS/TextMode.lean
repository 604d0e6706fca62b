import Mathlib.Data.List.Induction
import GeexOS.Library.Scrolling
import GeexOS.Library.Words

/-!
# The text screen

Loader and kernel print with the same code, `print_i386_char` and
`TextmodeDebugOutput::PrintChar`: 25 rows of 80 cells in video memory, and a cursor that
the display controller is told about.
-/

namespace GeexOS.TextMode

open GeexOS.Scrolling
open GeexOS.Words

structure Colors where
  foregroundColor : BitVec 32
  backgroundColor : BitVec 32
  deriving DecidableEq, Repr

namespace Colors

def attributeByte (colors : Colors) : BitVec 8 :=
  (colors.backgroundColor <<< 4 ||| colors.foregroundColor &&& 0x0f).setWidth 8

def attributeBits (colors : Colors) : BitVec 16 := colors.attributeByte.setWidth 16 <<< 8

def blank (colors : Colors) : BitVec 16 := 0x20 ||| colors.attributeByte.setWidth 16 <<< 8

end Colors

/-- The registers behind ports 0x3D4 and 0x3D5. -/
structure Controller where
  index : BitVec 8
  registers : BitVec 8 → BitVec 8

def Controller.outb (port : ℕ) (value : BitVec 8) (controller : Controller) : Controller :=
  if port = 0x3d4 then { controller with index := value }
  else if port = 0x3d5 then
    { controller with
      registers := Function.update controller.registers controller.index value }
  else controller

/-- The cell at which the controller shows a cursor. -/
def Controller.location (controller : Controller) : BitVec 16 :=
  controller.registers 14 ++ controller.registers 15

/-- The screen; `videoram` goes on behind its 2000 cells. -/
structure Screen where
  videoram : ℕ → BitVec 16
  cursorX : ℕ
  cursorY : ℕ
  colors : Colors
  controller : Controller

namespace Screen

/-- The screen that the loader starts with, white on black. -/
def start (videoram : ℕ → BitVec 16) (controller : Controller) : Screen :=
  ⟨videoram, 0, 0, ⟨15, 0⟩, controller⟩

def moveCursor (screen : Screen) : Screen :=
  let temp := BitVec.ofNat 16 (u32 (screen.cursorY * 80 + screen.cursorX))
  { screen with
    controller :=
      (((screen.controller.outb 0x3d4 14).outb 0x3d5 ((temp >>> 8).setWidth 8)).outb 0x3d4
        15).outb 0x3d5 (temp.setWidth 8) }

def scroll (screen : Screen) : Screen :=
  if 25 ≤ screen.cursorY then
    { screen with
      videoram := fill (24 * 80) 80 screen.colors.blank (copyDown 80 (24 * 80) screen.videoram)
      cursorY := 24 }
  else screen

def clear (screen : Screen) : Screen :=
  { screen with
    cursorX := 0
    cursorY := 0
    videoram := fill 0 (25 * 80) screen.colors.blank screen.videoram }.moveCursor

/-- The branches of `PrintChar`; a `char` is signed. -/
def interpret (c : BitVec 8) (screen : Screen) : Screen :=
  if c = 0x08 ∧ screen.cursorX ≠ 0 then { screen with cursorX := screen.cursorX - 1 }
  else if c = 0x09 then { screen with cursorX := u32 (screen.cursorX + 8) &&& (2 ^ 32 - 2 ^ 3) }
  else if c = 0x0d then { screen with cursorX := 0 }
  else if c = 0x0a then
    { screen with cursorX := 0, cursorY := u32 (screen.cursorY + 1) }
  else if (0x20 : BitVec 8).sle c then
    { screen with
      videoram := Function.update screen.videoram
        (u32 (screen.cursorY * 80 + screen.cursorX))
        (c.signExtend 16 ||| screen.colors.attributeBits)
      cursorX := u32 (screen.cursorX + 1) }
  else screen

/-- Handle end of line. -/
def endOfLine (screen : Screen) : Screen :=
  if 80 ≤ screen.cursorX then
    { screen with cursorX := 0, cursorY := u32 (screen.cursorY + 1) }
  else screen

def printChar (c : BitVec 8) (screen : Screen) : Screen :=
  (screen.interpret c).endOfLine.scroll.moveCursor

end Screen

inductive Call where
  | setForeground (color : BitVec 32)
  | setBackground (color : BitVec 32)
  | clear
  | printChar (c : BitVec 8)
  deriving DecidableEq, Repr

def Screen.call (screen : Screen) : Call → Screen
  | .setForeground color =>
      { screen with colors := { screen.colors with foregroundColor := color } }
  | .setBackground color =>
      { screen with colors := { screen.colors with backgroundColor := color } }
  | .clear => screen.clear
  | .printChar c => screen.printChar c

def Screen.run (screen : Screen) (calls : List Call) : Screen := calls.foldl Screen.call screen

theorem Screen.call_clear (screen : Screen) : screen.call .clear = screen.clear := rfl

/-! ## Paper -/

/-- What a teletype with these characters would have written on paper so far. -/
structure Paper where
  page : Page (BitVec 16)
  colors : Colors

namespace Paper

def feed (paper : Paper) : Paper := { paper with page := paper.page.feed 25 paper.colors.blank }

def moveTo (paper : Paper) (column : ℕ) : Paper :=
  { paper with page := paper.page.moveTo column }

/-- A character with its attribute, and on to the next column. -/
def write (c : BitVec 8) (paper : Paper) : Paper :=
  { paper with
    page := (paper.page.write (paper.colors.attributeByte ++ c)).moveTo (paper.page.column + 1) }

def wrap (paper : Paper) : Paper := if paper.page.column < 80 then paper else paper.feed

def printChar (c : BitVec 8) (paper : Paper) : Paper :=
  if c = 0x08 then paper.moveTo (paper.page.column - 1)
  else if c = 0x09 then (paper.moveTo (8 * (paper.page.column / 8 + 1))).wrap
  else if c = 0x0d then paper.moveTo 0
  else if c = 0x0a then paper.feed
  else if 0x20 ≤ c.toNat ∧ c.toNat < 0x80 then (paper.write c).wrap
  else paper

/-- A sheet without writing. -/
def blank (colors : Colors) : Paper := ⟨⟨fun _ _ => colors.blank, 0, 0⟩, colors⟩

def call (paper : Paper) : Call → Paper
  | .setForeground color => { paper with colors := { paper.colors with foregroundColor := color } }
  | .setBackground color => { paper with colors := { paper.colors with backgroundColor := color } }
  | .clear => blank paper.colors
  | .printChar c => paper.printChar c

def run (paper : Paper) (calls : List Call) : Paper := calls.foldl Paper.call paper

end Paper

/-- A sheet with what the screen shows. -/
def Screen.paper (screen : Screen) : Paper where
  page := ⟨fun row column => screen.videoram (row * 80 + column), screen.cursorY, screen.cursorX⟩
  colors := screen.colors

/-- A screen follows a sheet: it shows the last rows that were reached, and `beyond` lies
behind its cells.  Between a character and the end of its line, the cursor can stand behind
the last column. -/
structure Follows (beyond : ℕ → BitVec 16) (paper : Paper) (screen : Screen) : Prop where
  colors : screen.colors = paper.colors
  column : screen.cursorX = paper.page.column
  row : paper.page.hidden 25 + screen.cursorY = paper.page.row
  shows : Shows 80 25 (paper.page.hidden 25) paper.page screen.videoram
  outside : ∀ i, 25 * 80 ≤ i → screen.videoram i = beyond i

/-- A screen between two calls. -/
structure Displays (beyond : ℕ → BitVec 16) (paper : Paper) (screen : Screen) : Prop
    extends Follows beyond paper screen where
  inside : paper.page.column < 80

variable {beyond : ℕ → BitVec 16} {paper : Paper} {screen : Screen}

theorem Follows.cursorY_lt (hfollows : Follows beyond paper screen) : screen.cursorY < 25 := by
  have hrow := hfollows.row
  rw [Page.hidden] at hrow
  omega

theorem sle_iff (c : BitVec 8) : (0x20 : BitVec 8).sle c ↔ 0x20 ≤ c.toNat ∧ c.toNat < 0x80 := by
  have hall : ∀ c : BitVec 8, (0x20 : BitVec 8).sle c ↔ 0x20 ≤ c.toNat ∧ c.toNat < 0x80 := by
    decide +kernel
  exact hall c

/-- A character below 0x80 leaves the attribute alone. -/
theorem cell_eq (colors : Colors) {c : BitVec 8} (hc : c.toNat < 0x80) :
    c.signExtend 16 ||| colors.attributeBits = colors.attributeByte ++ c := by
  have hsign : c.msb = false := by
    rw [BitVec.msb_eq_decide]
    exact decide_eq_false (by omega)
  apply BitVec.eq_of_getLsbD_eq
  intro i hi
  rw [BitVec.signExtend_eq_setWidth_of_msb_false hsign, Colors.attributeBits, BitVec.getLsbD_or,
    BitVec.getLsbD_setWidth, BitVec.getLsbD_shiftLeft, BitVec.getLsbD_setWidth,
    BitVec.getLsbD_append]
  by_cases hlow : i < 8
  · simp [hlow, hi]
  · rw [BitVec.getLsbD_of_ge c i (by omega)]
    simp [hlow, hi]
    omega

/-! ## One step on paper -/

@[simp] theorem Screen.moveCursor_videoram : screen.moveCursor.videoram = screen.videoram := rfl
@[simp] theorem Screen.moveCursor_cursorX : screen.moveCursor.cursorX = screen.cursorX := rfl
@[simp] theorem Screen.moveCursor_cursorY : screen.moveCursor.cursorY = screen.cursorY := rfl
@[simp] theorem Screen.moveCursor_colors : screen.moveCursor.colors = screen.colors := rfl

theorem Displays.moveCursor (hdisplays : Displays beyond paper screen) :
    Displays beyond paper screen.moveCursor :=
  { hdisplays with }

theorem Follows.moveTo (hfollows : Follows beyond paper screen) (column : ℕ) :
    Follows beyond (paper.moveTo column) { screen with cursorX := column } :=
  { hfollows with column := rfl }

theorem Follows.write (hfollows : Follows beyond paper screen) {c : BitVec 8}
    (hinside : paper.page.column < 80) (hc : c.toNat < 0x80) :
    Follows beyond (paper.write c)
      { screen with
        videoram := Function.update screen.videoram
          (u32 (screen.cursorY * 80 + screen.cursorX))
          (c.signExtend 16 ||| screen.colors.attributeBits)
        cursorX := u32 (screen.cursorX + 1) } := by
  have hcursorY := hfollows.cursorY_lt
  have hcursorX := hfollows.column
  have hindex : u32 (screen.cursorY * 80 + screen.cursorX) =
      screen.cursorY * 80 + paper.page.column := by
    rw [hcursorX]
    exact u32_of_lt (by omega)
  rw [hindex, hfollows.colors, cell_eq paper.colors hc]
  exact {
    colors := rfl
    column := by
      show u32 (screen.cursorX + 1) = paper.page.column + 1
      rw [u32_of_lt (by omega), hcursorX]
    row := hfollows.row
    shows := hfollows.shows.write hfollows.row hinside _
    outside := by
      intro i hi
      have hne : i ≠ screen.cursorY * 80 + paper.page.column := by omega
      exact (Function.update_of_ne hne _ _).trans (hfollows.outside i hi) }

/-- A new line; the screen scrolls where the paper is drawn in. -/
theorem Follows.feed (hfollows : Follows beyond paper screen) :
    Displays beyond paper.feed
      { screen with cursorX := 0, cursorY := u32 (screen.cursorY + 1) }.scroll := by
  have hcursorY := hfollows.cursorY_lt
  have hrow := hfollows.row
  have hnext : u32 (screen.cursorY + 1) = screen.cursorY + 1 := u32_of_lt (by omega)
  rw [Page.hidden] at hrow
  rw [hnext, Screen.scroll]
  split
  · next hlast =>
      have hlast : screen.cursorY = 24 := by
        have : 25 ≤ screen.cursorY + 1 := hlast
        omega
      have hhidden : (paper.page.feed 25 paper.colors.blank).hidden 25 =
          paper.page.hidden 25 + 1 := by
        rw [Page.hidden_feed, Page.hidden]
        omega
      exact {
        colors := hfollows.colors
        column := rfl
        row := by
          show (paper.page.feed 25 paper.colors.blank).hidden 25 + 24 = paper.page.row + 1
          rw [hhidden, Page.hidden]
          omega
        shows := by
          show Shows 80 25 ((paper.page.feed 25 paper.colors.blank).hidden 25) _ _
          rw [hhidden, hfollows.colors]
          apply hfollows.shows.rollUp (by decide)
          rw [Page.hidden]
          omega
        outside := by
          intro i hi
          rw [← hfollows.outside i hi]
          exact rollUp_of_ge 80 (show 0 < 25 by decide) _ hi
        inside := Nat.zero_lt_succ 79 }
  · next hbefore =>
      have hbefore : screen.cursorY + 1 < 25 := not_le.mp hbefore
      have hhidden : paper.page.hidden 25 = 0 := by
        rw [Page.hidden]
        omega
      have hhidden' : (paper.page.feed 25 paper.colors.blank).hidden 25 = 0 := by
        rw [Page.hidden_feed]
        omega
      have hshows := hfollows.shows
      rw [hhidden] at hshows
      exact {
        colors := hfollows.colors
        column := rfl
        row := by
          show (paper.page.feed 25 paper.colors.blank).hidden 25 + (screen.cursorY + 1) =
            paper.page.row + 1
          omega
        shows := by
          show Shows 80 25 ((paper.page.feed 25 paper.colors.blank).hidden 25) _ _
          rw [hhidden']
          exact hshows.feed _
        outside := hfollows.outside
        inside := Nat.zero_lt_succ 79 }

/-- The end of a line, and the screen after it. -/
theorem Follows.wrap (hfollows : Follows beyond paper screen) :
    Displays beyond paper.wrap screen.endOfLine.scroll := by
  rw [Paper.wrap, Screen.endOfLine, hfollows.column]
  by_cases hinside : paper.page.column < 80
  · have hcursorY := hfollows.cursorY_lt
    rw [if_pos hinside, if_neg (not_le.mpr hinside), Screen.scroll, if_neg (not_le.mpr hcursorY)]
    exact { hfollows with inside := hinside }
  · rw [if_neg hinside, if_pos (not_lt.mp hinside)]
    exact hfollows.feed

theorem Follows.stay (hfollows : Follows beyond paper screen) (hinside : paper.page.column < 80) :
    Displays beyond paper screen.endOfLine.scroll := by
  have hwrap := hfollows.wrap
  rwa [Paper.wrap, if_pos hinside] at hwrap

theorem tab_eq {column : ℕ} (hcolumn : column < 80) :
    u32 (column + 8) &&& (2 ^ 32 - 2 ^ 3) = 8 * (column / 8 + 1) := by
  rw [u32_of_lt (by omega), land_mask (by omega) (by decide)]
  omega

/-! ## Calls -/

theorem Displays.printChar (hdisplays : Displays beyond paper screen) (c : BitVec 8) :
    Displays beyond (paper.printChar c) (screen.printChar c) := by
  apply Displays.moveCursor
  have hinside := hdisplays.inside
  have hcolumn := hdisplays.column
  have hfollows := hdisplays.toFollows
  rw [Paper.printChar, Screen.interpret]
  by_cases hbackspace : c = 0x08
  · rw [if_pos hbackspace]
    by_cases hstart : screen.cursorX = 0
    · subst hbackspace
      rw [if_neg (fun hleave => hleave.2 hstart), if_neg (by decide), if_neg (by decide),
        if_neg (by decide), if_neg (by decide)]
      have hmove : paper.moveTo (paper.page.column - 1) = paper := by
        rw [← hcolumn, hstart, Paper.moveTo, Page.moveTo, Nat.zero_sub, ← hstart, hcolumn]
      rw [hmove]
      exact hfollows.stay hinside
    · rw [if_pos ⟨hbackspace, hstart⟩, hcolumn]
      exact (hfollows.moveTo _).stay (show paper.page.column - 1 < 80 by omega)
  have hstay : ¬ (c = 0x08 ∧ screen.cursorX ≠ 0) := fun hleave => hbackspace hleave.1
  rw [if_neg hbackspace, if_neg hstay]
  by_cases htab : c = 0x09
  · rw [if_pos htab, if_pos htab, hcolumn, tab_eq hinside]
    exact (hfollows.moveTo _).wrap
  rw [if_neg htab, if_neg htab]
  by_cases hreturn : c = 0x0d
  · rw [if_pos hreturn, if_pos hreturn]
    exact (hfollows.moveTo 0).stay (Nat.zero_lt_succ 79)
  rw [if_neg hreturn, if_neg hreturn]
  by_cases hline : c = 0x0a
  · rw [if_pos hline, if_pos hline]
    exact hfollows.feed
  rw [if_neg hline, if_neg hline]
  by_cases hprintable : 0x20 ≤ c.toNat ∧ c.toNat < 0x80
  · rw [if_pos hprintable, if_pos ((sle_iff c).mpr hprintable)]
    exact (hfollows.write hinside hprintable.2).wrap
  · rw [if_neg hprintable, if_neg (fun hsle => hprintable ((sle_iff c).mp hsle))]
    exact hfollows.stay hinside

theorem Displays.clear (hdisplays : Displays beyond paper screen) :
    Displays beyond (Paper.blank paper.colors) screen.clear := by
  apply Displays.moveCursor
  exact {
    colors := hdisplays.colors
    column := rfl
    row := rfl
    shows := by
      intro row hrow column hcolumn
      have hindex : row * 80 + column < 25 * 80 := index_lt hrow hcolumn
      dsimp only
      rw [fill_apply, if_pos (by omega), hdisplays.colors]
      rfl
    outside := by
      intro i hi
      dsimp only
      rw [fill_apply, if_neg (by omega)]
      exact hdisplays.outside i hi
    inside := Nat.zero_lt_succ 79 }

theorem Displays.call (hdisplays : Displays beyond paper screen) (call : Call) :
    Displays beyond (paper.call call) (screen.call call) := by
  cases call with
  | setForeground color =>
      have hcolors := congrArg (fun colors => { colors with foregroundColor := color })
        hdisplays.colors
      exact { hdisplays with colors := hcolors }
  | setBackground color =>
      have hcolors := congrArg (fun colors => { colors with backgroundColor := color })
        hdisplays.colors
      exact { hdisplays with colors := hcolors }
  | clear => exact hdisplays.clear
  | printChar c => exact hdisplays.printChar c

theorem Displays.run (hdisplays : Displays beyond paper screen) (calls : List Call) :
    Displays beyond (paper.run calls) (screen.run calls) := by
  induction calls generalizing paper screen with
  | nil => exact hdisplays
  | cons call calls ih => exact ih (hdisplays.call call)

theorem displays_paper (hcursorX : screen.cursorX < 80) (hcursorY : screen.cursorY < 25) :
    Displays screen.videoram screen.paper screen := by
  have hhidden : screen.paper.page.hidden 25 = 0 := by
    show screen.cursorY + 1 - 25 = 0
    omega
  exact {
    colors := rfl
    column := rfl
    row := by
      rw [hhidden, Nat.zero_add]
      rfl
    shows := by
      rw [hhidden]
      intro row _ column _
      rw [Nat.zero_add]
      rfl
    outside := fun _ _ => rfl
    inside := hcursorX }

/-- Whatever is printed, the screen shows the last 25 rows of the paper, and nothing is
written behind it. -/
theorem run_displays (screen : Screen) (hcursorX : screen.cursorX < 80)
    (hcursorY : screen.cursorY < 25) (calls : List Call) :
    Displays screen.videoram (screen.paper.run calls) (screen.run calls) :=
  (displays_paper hcursorX hcursorY).run calls

/-- Two coloured words, and more lines than the screen has. -/
def longRun : List Call :=
  [.clear, .setForeground 2, .printChar 0x4f, .printChar 0x4b, .printChar 0x0a,
      .setBackground 4, .printChar 0x48, .printChar 0x69] ++
    List.replicate 30 (.printChar 0x0a) ++ [.printChar 0x09, .printChar 0x2e]

theorem run_displays_longRun :
    Displays (fun _ => 0)
      ((Screen.start (fun _ => 0) ⟨0, fun _ => 0⟩).paper.run longRun)
      ((Screen.start (fun _ => 0) ⟨0, fun _ => 0⟩).run longRun) :=
  run_displays (Screen.start (fun _ => 0) ⟨0, fun _ => 0⟩) (Nat.zero_lt_succ 79)
    (Nat.zero_lt_succ 24) _

/-! ## The cursor of the controller -/

/-- Calls that end with `moveCursor`. -/
def Call.moves : Call → Bool
  | .setForeground _ => false
  | .setBackground _ => false
  | .clear => true
  | .printChar _ => true

theorem location_moveCursor (screen : Screen) :
    screen.moveCursor.controller.location =
      BitVec.ofNat 16 (u32 (screen.cursorY * 80 + screen.cursorX)) := by
  have hsplit : ∀ temp : BitVec 16, (temp >>> 8).setWidth 8 ++ temp.setWidth 8 = temp := by
    intro temp
    apply BitVec.eq_of_getLsbD_eq
    intro i hi
    rw [BitVec.getLsbD_append, BitVec.getLsbD_setWidth, BitVec.getLsbD_setWidth,
      BitVec.getLsbD_ushiftRight]
    by_cases hlow : i < 8
    · simp [hlow]
    · have hhigh : i - 8 < 8 := by omega
      simp [hlow, hhigh, show 8 + (i - 8) = i by omega]
  have htemp := hsplit (BitVec.ofNat 16 (u32 (screen.cursorY * 80 + screen.cursorX)))
  simp only [Screen.moveCursor, Controller.outb, Controller.location]
  simpa using htemp

theorem Screen.call_of_not_moves (screen : Screen) {call : Call} (hcall : ¬ call.moves) :
    (screen.call call).controller = screen.controller ∧
      (screen.call call).cursorX = screen.cursorX ∧
      (screen.call call).cursorY = screen.cursorY := by
  cases call with
  | setForeground color => exact ⟨rfl, rfl, rfl⟩
  | setBackground color => exact ⟨rfl, rfl, rfl⟩
  | clear => exact absurd rfl hcall
  | printChar c => exact absurd rfl hcall

theorem Screen.location_call (screen : Screen) {call : Call} (hcall : call.moves) :
    (screen.call call).controller.location =
      BitVec.ofNat 16 (u32 ((screen.call call).cursorY * 80 + (screen.call call).cursorX)) := by
  cases call with
  | setForeground color => cases hcall
  | setBackground color => cases hcall
  | clear => exact location_moveCursor _
  | printChar c => exact location_moveCursor _

/-- From the first character on, the controller shows its cursor at the cell that is written
next, and this cell is on the screen. -/
theorem run_location (screen : Screen) (hcursorX : screen.cursorX < 80)
    (hcursorY : screen.cursorY < 25) (calls : List Call) (hmoves : ∃ call ∈ calls, call.moves) :
    (screen.run calls).controller.location.toNat =
        (screen.run calls).cursorY * 80 + (screen.run calls).cursorX ∧
      (screen.run calls).cursorX < 80 ∧ (screen.run calls).cursorY < 25 := by
  have hdisplays := (displays_paper hcursorX hcursorY).run calls
  have hX : (screen.run calls).cursorX < 80 := hdisplays.column.trans_lt hdisplays.inside
  have hY := hdisplays.cursorY_lt
  refine ⟨?_, hX, hY⟩
  have hlocation : (screen.run calls).controller.location =
      BitVec.ofNat 16 (u32 ((screen.run calls).cursorY * 80 + (screen.run calls).cursorX)) := by
    clear hX hY hdisplays
    induction calls using List.reverseRecOn with
    | nil => simp at hmoves
    | append_singleton calls call ih =>
        have hrun : screen.run (calls ++ [call]) = (screen.run calls).call call := by
          rw [Screen.run, List.foldl_append]
          rfl
        rw [hrun]
        by_cases hcall : call.moves
        · exact Screen.location_call _ hcall
        · obtain ⟨hcontroller, hsameX, hsameY⟩ := Screen.call_of_not_moves (screen.run calls) hcall
          obtain ⟨earlier, hearlier, hearlierMoves⟩ := hmoves
          rcases List.mem_append.mp hearlier with hbefore | hlast
          · rw [hcontroller, hsameX, hsameY]
            exact ih ⟨earlier, hbefore, hearlierMoves⟩
          · obtain rfl := List.mem_singleton.mp hlast
            exact absurd hearlierMoves hcall
  rw [hlocation, u32_of_lt (by omega), BitVec.toNat_ofNat, Nat.mod_eq_of_lt (by omega)]

theorem run_location_start :
    ((Screen.start (fun _ => 0) ⟨0, fun _ => 0⟩).run [.printChar 0x41]).controller.location.toNat =
        ((Screen.start (fun _ => 0) ⟨0, fun _ => 0⟩).run [.printChar 0x41]).cursorY * 80 +
          ((Screen.start (fun _ => 0) ⟨0, fun _ => 0⟩).run [.printChar 0x41]).cursorX ∧
      ((Screen.start (fun _ => 0) ⟨0, fun _ => 0⟩).run [.printChar 0x41]).cursorX < 80 ∧
      ((Screen.start (fun _ => 0) ⟨0, fun _ => 0⟩).run [.printChar 0x41]).cursorY < 25 :=
  run_location (Screen.start (fun _ => 0) ⟨0, fun _ => 0⟩) (Nat.zero_lt_succ 79)
    (Nat.zero_lt_succ 24) [.printChar 0x41] ⟨.printChar 0x41, List.mem_singleton_self _, rfl⟩

/-! ## Plain text -/

/-- The end of a line, or a character that is not a control character. -/
def IsPlain (c : BitVec 8) : Prop := c = 0x0a ∨ 0x20 ≤ c.toNat ∧ c.toNat < 0x80

instance : DecidablePred IsPlain := fun c =>
  inferInstanceAs (Decidable (c = 0x0a ∨ 0x20 ≤ c.toNat ∧ c.toNat < 0x80))

/-- A sheet with rows of text, the last of which is being written. -/
structure Paper.Holds (front : List (List (BitVec 8))) (last : List (BitVec 8)) (paper : Paper) :
    Prop where
  row : paper.page.row = front.length
  column : paper.page.column = last.length
  cells : ∀ row column, paper.page.cell row column =
    paper.colors.attributeByte ++ ((front ++ [last]).getD row []).getD column 0x20

theorem blank_eq (colors : Colors) : colors.blank = colors.attributeByte ++ 0x20#8 := by
  rw [← cell_eq colors (show (0x20#8).toNat < 0x80 by decide)]
  rfl

theorem holds_blank (colors : Colors) : (Paper.blank colors).Holds [] [] where
  row := rfl
  column := rfl
  cells := by
    intro row column
    have hempty :
        ((([] : List (List (BitVec 8))) ++ [[]]).getD row []).getD column 0x20 = 0x20 := by
      cases row <;> rfl
    rw [hempty]
    exact blank_eq colors

variable {front : List (List (BitVec 8))} {last : List (BitVec 8)}

theorem Paper.Holds.feed (hholds : paper.Holds front last) :
    paper.feed.Holds (front ++ [last]) [] where
  row := by
    rw [List.length_append, List.length_singleton, ← hholds.row]
    rfl
  column := rfl
  cells := by
    intro row column
    have hnew : ((front ++ [last] ++ [[]]).getD row []) = (front ++ [last]).getD row [] := by
      rw [getD_concat]
      split
      · next hrow => rw [hrow, List.getD_eq_default _ _ le_rfl]
      · rfl
    rw [hnew]
    show (paper.page.feed 25 paper.colors.blank).cell row column = _
    rw [Page.feed_cell]
    split
    · next hcleared =>
        have hbehind : (front ++ [last]).length ≤ row := by
          rw [List.length_append, List.length_singleton, ← hholds.row]
          exact hcleared.2.ge
        rw [List.getD_eq_default _ _ hbehind, blank_eq]
        rfl
    · exact hholds.cells row column

theorem Paper.Holds.write (hholds : paper.Holds front last) (c : BitVec 8) :
    (paper.write c).Holds front (last ++ [c]) where
  row := hholds.row
  column := by
    rw [List.length_append, List.length_singleton, ← hholds.column]
    rfl
  cells := by
    intro row column
    have hcell := hholds.cells row column
    show (paper.page.write (paper.colors.attributeByte ++ c)).cell row column =
      paper.colors.attributeByte ++ _
    rw [Page.write_cell, hholds.row, hholds.column, getD_concat, hcell, getD_concat]
    by_cases hrow : row = front.length
    · rw [if_pos hrow, if_pos hrow, getD_concat]
      by_cases hcolumn : column = last.length
      · rw [if_pos ⟨hrow, hcolumn⟩, if_pos hcolumn]
      · rw [if_neg (fun hplace => hcolumn hplace.2), if_neg hcolumn]
    · rw [if_neg hrow, if_neg hrow, if_neg (fun hplace => hrow hplace.1)]

/-- A character is put at the end, and a full row is left. -/
theorem Paper.Holds.printChar (hholds : paper.Holds front last) {c : BitVec 8} (hc : IsPlain c) :
    if c = 0x0a then (paper.printChar c).Holds (front ++ [last]) []
    else if last.length + 1 < 80 then (paper.printChar c).Holds front (last ++ [c])
    else (paper.printChar c).Holds (front ++ [last ++ [c]]) [] := by
  rcases hc with rfl | hprintable
  · exact hholds.feed
  · have hcontrol : ∀ control : BitVec 8, control.toNat < 0x20 → c ≠ control := by
      rintro control hcontrol rfl
      omega
    rw [if_neg (hcontrol 0x0a (by decide)), Paper.printChar, if_neg (hcontrol 0x08 (by decide)),
      if_neg (hcontrol 0x09 (by decide)), if_neg (hcontrol 0x0d (by decide)),
      if_neg (hcontrol 0x0a (by decide)), if_pos hprintable, Paper.wrap]
    have hwritten := hholds.write c
    have hcolumn := hwritten.column
    rw [List.length_append, List.length_singleton] at hcolumn
    rw [hcolumn]
    split
    · exact hwritten
    · exact hwritten.feed

theorem Paper.printChar_colors (paper : Paper) (c : BitVec 8) :
    (paper.printChar c).colors = paper.colors := by
  have hwrap : ∀ paper : Paper, paper.wrap.colors = paper.colors := by
    intro paper
    rw [Paper.wrap]
    split <;> rfl
  rw [Paper.printChar]
  split
  · rfl
  split
  · exact hwrap _
  split
  · rfl
  split
  · rfl
  split
  · exact hwrap _
  · rfl

/-- Plain text stands on paper in its wrapped rows. -/
theorem holds_run (colors : Colors) (text : List (BitVec 8)) (hplain : ∀ c ∈ text, IsPlain c) :
    ∃ front last, wrapped 80 0x0a text = front ++ [last] ∧
      ((Paper.blank colors).run (text.map .printChar)).Holds front last ∧
      ((Paper.blank colors).run (text.map .printChar)).colors = colors := by
  induction text using List.reverseRecOn with
  | nil => exact ⟨[], [], rfl, holds_blank colors, rfl⟩
  | append_singleton text c ih =>
      obtain ⟨front, last, hrows, hholds, hcolors⟩ := ih fun c hc =>
        hplain c (List.mem_append_left _ hc)
      obtain ⟨front', last', hrows', _, hnewline, hletter⟩ :=
        wrapped_concat (show 0 < 80 by decide) (0x0a : BitVec 8) text
      obtain ⟨rfl, hlast⟩ := List.append_inj' (hrows'.symm.trans hrows) rfl
      obtain rfl : last' = last := List.singleton_inj.mp hlast
      have hrun : (Paper.blank colors).run ((text ++ [c]).map .printChar) =
          ((Paper.blank colors).run (text.map .printChar)).printChar c := by
        rw [List.map_append, Paper.run, List.foldl_append]
        rfl
      have hstep := hholds.printChar
        (hplain c (List.mem_append_right _ (List.mem_singleton_self c)))
      have hstepColors := (Paper.printChar_colors
        ((Paper.blank colors).run (text.map .printChar)) c).trans hcolors
      rw [hrun]
      by_cases hc : c = 0x0a
      · rw [if_pos hc] at hstep
        refine ⟨_, _, ?_, hstep, hstepColors⟩
        rw [hc, hnewline, List.append_assoc]
        rfl
      · rw [if_neg hc] at hstep
        rw [hletter c hc]
        split at hstep
        · next hroom => exact ⟨_, _, by rw [if_pos hroom], hstep, hstepColors⟩
        · next hfull =>
            refine ⟨_, _, ?_, hstep, hstepColors⟩
            rw [if_neg hfull, List.append_assoc]
            rfl

/-- The screen shows the last 25 of the wrapped rows of a text, and the cursor is behind its last
character. -/
structure ShowsText (colors : Colors) (text : List (BitVec 8)) (screen : Screen) : Prop where
  cells : ∀ row < 25, ∀ column < 80, screen.videoram (row * 80 + column) =
    colors.attributeByte ++
      ((wrapped 80 0x0a text).getD ((wrapped 80 0x0a text).length - 25 + row) []).getD column 0x20
  cursorY : screen.cursorY = min ((wrapped 80 0x0a text).length - 1) 24
  cursorX : screen.cursorX = ((wrapped 80 0x0a text).getLastD []).length

/-- Clearing does not ask where the cursor was. -/
theorem displays_clear (screen : Screen) :
    Displays screen.videoram (Paper.blank screen.colors) screen.clear :=
  (@displays_paper { screen with cursorX := 0, cursorY := 0 } (Nat.zero_lt_succ 79)
    (Nat.zero_lt_succ 24)).clear

theorem run_showsText (screen : Screen) (text : List (BitVec 8))
    (hplain : ∀ c ∈ text, IsPlain c) :
    ShowsText screen.colors text ((screen.call .clear).run (text.map .printChar)) := by
  have hdisplays := (displays_clear screen).run (text.map .printChar)
  obtain ⟨front, last, hrows, hholds, hcolors⟩ := holds_run screen.colors text hplain
  have hlength : (wrapped 80 0x0a text).length = front.length + 1 := by
    rw [hrows, List.length_append, List.length_singleton]
  have hhidden : ((Paper.blank screen.colors).run (text.map .printChar)).page.hidden 25 =
      (wrapped 80 0x0a text).length - 25 := by
    rw [Page.hidden, hholds.row, hlength]
  rw [Screen.call_clear]
  refine ⟨fun row hrow column hcolumn => ?_, ?_, ?_⟩
  · have hshown := hdisplays.shows row hrow column hcolumn
    rw [hholds.cells, hcolors, ← hrows, hhidden] at hshown
    exact hshown
  · have hrow := hdisplays.row
    have hcursor := hdisplays.cursorY_lt
    rw [hhidden, hholds.row, hlength] at hrow
    rw [hlength]
    omega
  · rw [hrows, List.getLastD_concat, ← hholds.column]
    exact hdisplays.column

end GeexOS.TextMode
