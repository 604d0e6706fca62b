import Mathlib.Data.Bool.AllAny
import GeexOS.Loader.Print
import GeexOS.TextMode

/-!
# Messages on the screen

`printf` renders into a buffer of 1024 characters and puts them on the screen one by one.
-/

namespace GeexOS.Messages

open GeexOS.Halting
open GeexOS.Print
open GeexOS.Scrolling
open GeexOS.Strings
open GeexOS.TextMode

/-- The screen, and `vprint_buffer` with what lies behind it. -/
structure Console where
  screen : Screen
  vprintBuffer : ℕ → UInt8

/-- The console that the loader starts with. -/
def Console.start : Console := ⟨Screen.start (fun _ => 0) ⟨0, fun _ => 0⟩, fun _ => 0⟩

/-- `arch_screen_putchar`. -/
def archScreenPutchar (c : UInt8) (screen : Screen) : Screen := screen.call (.printChar c.toBitVec)

/-- `while(*ptr)`. -/
def putLoop (buffer : ℕ → UInt8) : (fuel ptr : ℕ) → Screen → Outcome Screen
  | 0, _, _ => .error .diverges
  | fuel + 1, ptr, screen =>
      if 1024 ≤ ptr then .error .fault
      else if buffer ptr ≠ 0 then
        putLoop buffer fuel (ptr + 1) (archScreenPutchar (buffer ptr) screen)
      else .ok screen

variable (strings : BitVec 32 → CString)

def vprintf (format : CString) (params : List (BitVec 32)) (console : Console) :
    Outcome (Console × ℕ) := do
  let (buffer, retval) ← vsnprintf strings 1024 console.vprintBuffer format params
  let screen ← putLoop buffer 1025 0 console.screen
  .ok (⟨screen, buffer⟩, retval)

/-- The string literal `"PANIC: \n"`. -/
def panicHeading : CString := [0x50, 0x41, 0x4e, 0x49, 0x43, 0x3a, 0x20, 0x0a]

/-- `arch_panic`, up to its endless loop. -/
def archPanic (format : CString) (params : List (BitVec 32)) (console : Console) :
    Outcome Console := do
  let screen := (console.screen.call (.setBackground 4)).call .clear
  let (console, _) ← vprintf strings panicHeading [] { console with screen := screen }
  let (console, _) ← vprintf strings format params console
  .ok console

/-- A sequence of messages. -/
def printfAll (messages : List (CString × List (BitVec 32))) (console : Console) :
    Outcome Console :=
  messages.foldlM (fun console message => do
    let (console, _) ← vprintf strings message.1 message.2 console
    .ok console) console

/-! ## One message -/

variable {strings} {buffer : ℕ → UInt8} {text : CString} {console : Console}

/-- The characters that a message puts on the screen: the buffer cuts it off, and a zero that
was printed with `%c` ends it. -/
def shown (text : CString) : CString := (text.take 1023).takeWhile fun c => c ≠ 0

def putAll (text : CString) (screen : Screen) : Screen :=
  screen.run (text.map fun c => .printChar c.toBitVec)

theorem putAll_append (front back : CString) (screen : Screen) :
    putAll (front ++ back) screen = putAll back (putAll front screen) := by
  rw [putAll, List.map_append, Screen.run, List.foldl_append]
  rfl

theorem putLoop_eq {fuel ptr : ℕ} (htext : ∀ i, (hi : i < text.length) → buffer (ptr + i) = text[i])
    (hend : buffer (ptr + text.length) = 0) (hzero : (0 : UInt8) ∉ text)
    (hroom : ptr + text.length < 1024) (hfuel : text.length < fuel) (screen : Screen) :
    putLoop buffer fuel ptr screen = .ok (putAll text screen) := by
  induction text generalizing fuel ptr screen with
  | nil =>
      obtain ⟨fuel, rfl⟩ := Nat.exists_eq_succ_of_ne_zero (Nat.ne_zero_of_lt hfuel)
      rw [List.length_nil, Nat.add_zero] at hend hroom
      rw [putLoop, if_neg (by omega), if_neg (not_not.mpr hend)]
      rfl
  | cons c text ih =>
      obtain ⟨fuel, rfl⟩ := Nat.exists_eq_succ_of_ne_zero (Nat.ne_zero_of_lt hfuel)
      rw [List.length_cons] at hend hroom hfuel
      have hc : buffer ptr = c := htext 0 (Nat.zero_lt_succ _)
      have hne : c ≠ 0 := fun heq => hzero (heq ▸ List.mem_cons_self)
      have hrest : putLoop buffer fuel (ptr + 1) (archScreenPutchar c screen) =
          .ok (putAll text (archScreenPutchar c screen)) := ih
        (fun i hi => by
          rw [show ptr + 1 + i = ptr + (i + 1) by omega]
          exact htext (i + 1) (Nat.succ_lt_succ hi))
        (by rwa [show ptr + 1 + text.length = ptr + (text.length + 1) by omega])
        (fun hmem => hzero (List.mem_cons_of_mem c hmem)) (by omega) (by omega) _
      rw [putLoop, if_neg (by omega), hc, if_pos hne, hrest]
      rfl

theorem exists_terminated (text : CString) :
    ∃ more, text ++ [0] = (text.takeWhile fun c => c ≠ 0) ++ 0 :: more := by
  induction text with
  | nil => exact ⟨[], rfl⟩
  | cons c text ih =>
      obtain ⟨more, hmore⟩ := ih
      by_cases hc : c = 0
      · rw [hc, List.takeWhile_cons_of_neg (by simp)]
        exact ⟨text ++ [0], rfl⟩
      · rw [List.takeWhile_cons_of_pos (by simpa using hc), List.cons_append, hmore]
        exact ⟨more, rfl⟩

/-- A message is put on the screen as far as its buffer goes. -/
theorem vprintf_spells {format : CString} {params : List (BitVec 32)} {items : List Item}
    (hspells : Spells format params items) (console : Console) :
    vprintf strings format params console =
      .ok (⟨putAll (shown (items.flatMap (Item.text strings))) console.screen,
          placed console.vprintBuffer ((items.flatMap (Item.text strings)).take 1023 ++ [0])⟩,
        min (items.flatMap (Item.text strings)).length 1023 + 1) := by
  have hlength : (shown (items.flatMap (Item.text strings))).length ≤ 1023 :=
    ((List.takeWhile_sublist _).length_le).trans (List.length_take_le _ _)
  obtain ⟨more, hmore⟩ := exists_terminated ((items.flatMap (Item.text strings)).take 1023)
  have hloop : putLoop (placed console.vprintBuffer
      ((items.flatMap (Item.text strings)).take 1023 ++ [0])) 1025 0 console.screen =
      .ok (putAll (shown (items.flatMap (Item.text strings))) console.screen) := by
    rw [hmore, ← shown]
    apply putLoop_eq
    · intro i hi
      rw [Nat.zero_add, placed, List.getD_append _ _ _ _ hi, List.getD_eq_getElem _ _ hi]
    · rw [Nat.zero_add, placed, List.getD_append_right _ _ _ _ le_rfl, Nat.sub_self,
        List.getD_cons_zero]
    · intro hmem
      simpa using List.mem_takeWhile_imp hmem
    · omega
    · omega
  rw [vprintf, vsnprintf_spells strings 1024 hspells, ok_bind]
  simp only [Nat.reduceSub, hloop, ok_bind]

theorem vprintf_shows (strings : BitVec 32 → CString) {format : CString}
    {params : List (BitVec 32)} {items : List Item} (hspells : Spells format params items)
    (console : Console) :
    ∃ buffer retval, vprintf strings format params console =
      .ok (⟨putAll (shown (items.flatMap (Item.text strings))) console.screen, buffer⟩, retval) :=
  ⟨_, _, vprintf_spells hspells console⟩

/-- Messages with the pieces that they consist of. -/
def AllSpell : List (CString × List (BitVec 32)) → List (List Item) → Prop :=
  List.Forall₂ fun message items => Spells message.1 message.2 items

/-- The characters of all messages. -/
def shownAll (strings : BitVec 32 → CString) (messages : List (List Item)) : CString :=
  messages.flatMap fun items => shown (items.flatMap (Item.text strings))

theorem printfAll_spells (strings : BitVec 32 → CString)
    {messages : List (CString × List (BitVec 32))}
    {items : List (List Item)} (hspells : AllSpell messages items) (console : Console) :
    ∃ buffer, printfAll strings messages console =
      .ok ⟨putAll (shownAll strings items) console.screen, buffer⟩ := by
  induction hspells generalizing console with
  | nil => exact ⟨_, rfl⟩
  | cons hmessage _ ih =>
      obtain ⟨buffer, hrest⟩ := ih ⟨_, _⟩
      refine ⟨buffer, ?_⟩
      rw [printfAll, List.foldlM_cons, vprintf_spells hmessage, ok_bind, ok_bind, ← printfAll,
        hrest, ← putAll_append]
      rfl

/-! ## What is read on the screen -/

def characters (text : CString) : List (BitVec 8) := text.map UInt8.toBitVec

theorem putAll_eq_run (text : CString) (screen : Screen) :
    putAll text screen = screen.run ((characters text).map .printChar) := by
  rw [putAll, characters, List.map_map]
  rfl

theorem characters_plain {text : CString} (hplain : ∀ c ∈ text, IsPlain c.toBitVec) :
    ∀ c ∈ characters text, IsPlain c := by
  rintro _ hmem
  obtain ⟨c, hc, rfl⟩ := List.mem_map.mp hmem
  exact hplain c hc

/-- On a cleared screen messages are read one behind the other. -/
theorem printfAll_showsText (console : Console)
    {messages : List (CString × List (BitVec 32))} {items : List (List Item)}
    (hspells : AllSpell messages items)
    (hplain : ∀ c ∈ shownAll strings items, IsPlain c.toBitVec) :
    ∃ console', printfAll strings messages
        { console with screen := console.screen.call .clear } = .ok console' ∧
      ShowsText console.screen.colors (characters (shownAll strings items)) console'.screen := by
  obtain ⟨buffer, hprinted⟩ := printfAll_spells strings hspells
    { console with screen := console.screen.call .clear }
  refine ⟨_, hprinted, ?_⟩
  rw [putAll_eq_run]
  exact run_showsText console.screen _ (characters_plain hplain)

theorem printfAll_showsText_address :
    ∃ console', printfAll (fun _ => []) [([0x25, 0x78, 0x0a], [0x1f])]
        { Console.start with screen := Console.start.screen.call .clear } = .ok console' ∧
      ShowsText Console.start.screen.colors
        (characters (shownAll (fun _ => []) [[.hexadecimal 0x1f, .letter 0x0a]]))
        console'.screen :=
  printfAll_showsText Console.start
    (List.Forall₂.cons ⟨by simp [Item.WellFormed], ⟨[], Or.inl rfl, rfl⟩, [], rfl⟩
      List.Forall₂.nil)
    (List.all_iff_forall_prop.mp (by decide))

theorem spells_letters {text : CString} (htext : (0x25 : UInt8) ∉ text) :
    Spells text [] (text.map .letter) := by
  refine ⟨?_, ⟨[], Or.inl rfl, ?_⟩, [], ?_⟩
  · intro item hmem
    obtain ⟨c, hc, rfl⟩ := List.mem_map.mp hmem
    exact fun heq => htext (heq ▸ hc)
  · rw [List.append_nil, List.flatMap_map]
    exact (List.flatMap_singleton' text).symm
  · rw [List.append_nil, List.flatMap_map]
    simp [Item.words]

theorem shown_plain {text : CString} (hplain : ∀ c ∈ text, IsPlain c.toBitVec) :
    shown text = text.take 1023 := by
  rw [shown, List.takeWhile_eq_self_iff]
  intro c hmem
  have hc := hplain c (List.mem_of_mem_take hmem)
  apply decide_eq_true
  rintro rfl
  rcases hc with hc | hc
  · exact absurd hc (by decide)
  · exact absurd hc.1 (by decide)

/-- A panic leaves its message on a screen with a red background. -/
theorem archPanic_showsText (console : Console) {format : CString}
    {params : List (BitVec 32)} {items : List Item} (hspells : Spells format params items)
    (hplain : ∀ c ∈ items.flatMap (Item.text strings), IsPlain c.toBitVec) :
    ∃ console', archPanic strings format params console = .ok console' ∧
      ShowsText { console.screen.colors with backgroundColor := 4 }
        (characters (panicHeading ++ (items.flatMap (Item.text strings)).take 1023))
        console'.screen := by
  have hheading : Spells panicHeading [] (panicHeading.map .letter) :=
    spells_letters (by decide)
  have hheadingText : shown ((panicHeading.map Item.letter).flatMap (Item.text strings)) =
      panicHeading := by
    rw [List.flatMap_map]
    rfl
  obtain ⟨first, retval, hfirst⟩ := vprintf_shows strings hheading
    { console with screen := (console.screen.call (.setBackground 4)).call .clear }
  rw [hheadingText] at hfirst
  obtain ⟨second, retval', hsecond⟩ := vprintf_shows strings hspells
    ⟨putAll panicHeading ((console.screen.call (.setBackground 4)).call .clear), first⟩
  rw [shown_plain hplain, ← putAll_append] at hsecond
  have hpanic : archPanic strings format params console = .ok
      ⟨putAll (panicHeading ++ (items.flatMap (Item.text strings)).take 1023)
        ((console.screen.call (.setBackground 4)).call .clear), second⟩ := by
    simp only [archPanic, hfirst, hsecond, ok_bind]
  have hplain' : ∀ c ∈ panicHeading ++ (items.flatMap (Item.text strings)).take 1023,
      IsPlain c.toBitVec := by
    intro c hmem
    rcases List.mem_append.mp hmem with hheading | htext
    · have hall : ∀ c ∈ panicHeading, c.toBitVec = 0x0a ∨
          0x20 ≤ c.toBitVec.toNat ∧ c.toBitVec.toNat < 0x80 :=
        List.all_iff_forall_prop.mp (by decide)
      exact hall c hheading
    · exact hplain c (List.mem_of_mem_take htext)
  have htext := run_showsText (console.screen.call (.setBackground 4)) _
    (characters_plain hplain')
  have hcolors : (console.screen.call (.setBackground 4)).colors =
      { console.screen.colors with backgroundColor := 4 } := rfl
  rw [← putAll_eq_run, hcolors] at htext
  refine ⟨_, hpanic, ?_⟩
  dsimp only
  exact htext

theorem archPanic_showsText_number :
    ∃ console', archPanic (fun _ => []) [0x25, 0x64] [7] Console.start = .ok console' ∧
      ShowsText { Console.start.screen.colors with backgroundColor := 4 }
        (characters (panicHeading ++ ([Item.decimal 7].flatMap (Item.text fun _ => [])).take 1023))
        console'.screen :=
  archPanic_showsText Console.start
    ⟨by simp [Item.WellFormed], ⟨[], Or.inl rfl, rfl⟩, [], rfl⟩
    (List.all_iff_forall_prop.mp (by decide))

end GeexOS.Messages
