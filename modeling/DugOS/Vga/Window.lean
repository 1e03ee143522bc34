import DugOS.Data.Grid
import DugOS.Vga.Screen

namespace DugOS.Vga

open Data

/-! The screen as a window on a grid of unbounded height.

The reference keeps every row that was ever written and only remembers which of
them are visible. The driver has 25 rows and moves their contents.
-/

/-- A call into the driver, with the arguments it can be given. -/
inductive Call where
  | putchar (c : UInt8)
  | write (s : CString)
  | writeln (s : CString)
  | setColor (fg bg : UInt8)
  | clear

def Call.run : Call → VgaState → Option VgaState
  | .putchar c => vgaPutchar c
  | .write s => vgaWrite s.memory
  | .writeln s => vgaWriteln s.memory
  | .setColor fg bg => fun vga => some (vgaSetColor fg bg vga)
  | .clear => vgaClear

def runCalls : List Call → VgaState → Option VgaState
  | [], vga => some vga
  | call :: calls, vga => (call.run vga).bind (runCalls calls)

structure Terminal where
  grid : Grid UInt16
  color : UInt8

namespace Terminal

def blank (terminal : Terminal) : UInt16 :=
  makeEntry space terminal.color

def putchar (terminal : Terminal) (c : UInt8) : Terminal :=
  { terminal with grid :=
      if c = newline then terminal.grid.nextRow vgaHeight terminal.blank
      else if c = backspace then terminal.grid.erase vgaWidth terminal.blank
      else terminal.grid.write vgaWidth vgaHeight terminal.blank (makeEntry c terminal.color) }

def write (terminal : Terminal) (text : List UInt8) : Terminal :=
  text.foldl putchar terminal

def call (terminal : Terminal) : Call → Terminal
  | .putchar c => terminal.putchar c
  | .write s => terminal.write s.chars
  | .writeln s => (terminal.write s.chars).putchar newline
  | .setColor fg bg => { terminal with color := fg ||| (bg <<< 4) }
  | .clear => { terminal with grid := .cleared terminal.blank }

/-- An empty grid in light grey on black. -/
def init : Terminal :=
  ⟨.cleared (makeEntry space 7), 7⟩

end Terminal

theorem Terminal.write_snoc {terminal : Terminal} {text : List UInt8} {c : UInt8} :
    terminal.write (text ++ [c]) = (terminal.write text).putchar c := by
  rw [Terminal.write, List.foldl_append]
  rfl

theorem Terminal.write_color (terminal : Terminal) (text : List UInt8) :
    (terminal.write text).color = terminal.color := by
  induction text generalizing terminal with
  | nil => rfl
  | cons c text ih => exact ih (terminal.putchar c)

/-- The screen shows the 25 rows of the grid from its top row on, and the cursor
is at the same place in both. -/
structure Shows (vga : VgaState) (terminal : Terminal) : Prop where
  color : vga.color = terminal.color
  inside : vga.row < vgaHeight
  within : vga.col < vgaWidth
  row : terminal.grid.row = terminal.grid.top + vga.row
  col : terminal.grid.col = vga.col
  cells : ∀ y x, y < vgaHeight → x < vgaWidth →
    vga.load (y * vgaWidth + x) = some (terminal.grid.cell (terminal.grid.top + y) x)

variable {vga after : VgaState} {terminal : Terminal} {text : List UInt8} {c : UInt8}

theorem Shows.blank (shows : Shows vga terminal) : vga.blank = terminal.blank := by
  rw [VgaState.blank, Terminal.blank, shows.color]

/-- Different places on the screen are different cells of the memory. -/
theorem cell_inj {y x row col : Nat} (here : x < vgaWidth) (there : col < vgaWidth) :
    y * vgaWidth + x = row * vgaWidth + col ↔ y = row ∧ x = col := by
  simp only [vgaWidth] at *
  omega

/-- A value put at the cursor. -/
theorem Shows.store (shows : Shows vga terminal) (entry : UInt16) :
    ∃ after, vga.store (vga.row * vgaWidth + vga.col) entry = some after ∧ after.row = vga.row ∧ after.col = vga.col ∧
      Shows after { terminal with grid := terminal.grid.setCell terminal.grid.row terminal.grid.col entry } := by
  obtain ⟨after, stored, result⟩ := store_spec vga entry (cell_inside shows.inside shows.within)
  refine ⟨after, stored, result.row, result.col, result.color.trans shows.color, ?_, ?_, ?_, ?_, ?_⟩
  · rw [result.row]
    exact shows.inside
  · rw [result.col]
    exact shows.within
  · rw [result.row]
    exact shows.row
  · rw [result.col]
    exact shows.col
  · intro y x row col
    simp only [Grid.setCell, result.cells, shows.row, shows.col, Nat.add_left_cancel_iff]
    by_cases cursor : y = vga.row ∧ x = vga.col
    · rw [if_pos ((cell_inj col shows.within).mpr cursor), if_pos cursor]
    · rw [if_neg ((cell_inj col shows.within).not.mpr cursor), if_neg cursor, shows.cells y x row col]

/-- The move to the next row, in the state in which the driver calls
`scroll_if_needed`. -/
theorem Shows.nextRow (shows : Shows vga terminal) :
    ∃ after, scrollIfNeeded { vga with col := 0, row := vga.row + 1 } = some after ∧
      Shows after { terminal with grid := terminal.grid.nextRow vgaHeight terminal.blank } := by
  have position : terminal.grid.row + 1 < terminal.grid.top + vgaHeight ↔ vga.row + 1 < vgaHeight := by
    rw [shows.row]
    omega
  by_cases room : vga.row + 1 < vgaHeight
  · rw [scrollIfNeeded, if_pos room, Grid.nextRow, if_pos (position.mpr room)]
    refine ⟨_, rfl, shows.color, room, Nat.zero_lt_succ 79, ?_, rfl, shows.cells⟩
    change terminal.grid.row + 1 = terminal.grid.top + (vga.row + 1)
    rw [shows.row, Nat.add_assoc]
  · have last : vga.row + 1 = vgaHeight := Nat.le_antisymm shows.inside (Nat.le_of_not_lt room)
    obtain ⟨after, scrolled, row, col, color, cells⟩ :=
      @scrollIfNeeded_spec { vga with col := 0, row := vga.row + 1 } (Nat.le_of_not_lt room)
    rw [Grid.nextRow, if_neg (position.not.mpr room)]
    refine ⟨after, scrolled, color.trans shows.color, by rw [row]; decide, by rw [col]; exact Nat.zero_lt_succ 79,
      ?_, col.symm, ?_⟩
    · change terminal.grid.row + 1 = terminal.grid.top + 1 + after.row
      rw [row, shows.row]
      omega
    · intro y x inside within
      rw [cells y x inside within]
      change _ = some (if terminal.grid.top + 1 + y = terminal.grid.row + 1 then terminal.blank
        else terminal.grid.cell (terminal.grid.top + 1 + y) x)
      rw [shows.row]
      by_cases moved : y + 1 < vgaHeight
      · have source : terminal.grid.top + 1 + y = terminal.grid.top + (y + 1) := by omega
        rw [if_pos moved, if_neg (by omega), source]
        exact shows.cells (y + 1) x moved within
      · rw [if_neg moved, if_pos (by omega)]
        exact congrArg some shows.blank

theorem Shows.stepBack (shows : Shows vga terminal) :
    Shows (if 0 < vga.col then { vga with col := vga.col - 1 }
        else if 0 < vga.row then { vga with row := vga.row - 1, col := vgaWidth - 1 } else vga)
      { terminal with grid := terminal.grid.stepBack vgaWidth } := by
  have inside := shows.inside
  have within := shows.within
  have row := shows.row
  rw [Grid.stepBack, shows.col]
  by_cases behind : 0 < vga.col
  · rw [if_pos behind, if_pos behind]
    exact ⟨shows.color, inside, Nat.lt_of_le_of_lt (Nat.sub_le _ _) within, row, rfl, shows.cells⟩
  · rw [if_neg behind, if_neg behind]
    by_cases under : 0 < vga.row
    · have higher : terminal.grid.row - 1 = terminal.grid.top + (vga.row - 1) := by omega
      rw [if_pos under, if_pos (by omega)]
      exact ⟨shows.color, Nat.lt_of_le_of_lt (Nat.sub_le _ _) inside, Nat.lt_succ_self 79, higher, rfl, shows.cells⟩
    · rw [if_neg under, if_neg (by omega)]
      exact shows

theorem Shows.putchar (shows : Shows vga terminal) (c : UInt8) :
    ∃ after, vgaPutchar c vga = some after ∧ Shows after (terminal.putchar c) := by
  rw [vgaPutchar, Terminal.putchar]
  by_cases feed : c = newline
  · rw [if_pos feed, if_pos feed]
    exact shows.nextRow
  · rw [if_neg feed, if_neg feed]
    by_cases back : c = backspace
    · rw [if_pos back, if_pos back]
      have moved := shows.stepBack
      obtain ⟨after, stored, _, _, result⟩ := moved.store _
      exact ⟨after, stored, moved.blank ▸ result⟩
    · rw [if_neg back, if_neg back]
      obtain ⟨drawn, stored, _, col, result⟩ := shows.store (makeEntry c vga.color)
      rw [shows.color] at stored result
      simp only [shows.color, stored, Option.bind_eq_bind, Option.bind_some, Grid.write, col.trans shows.col.symm]
      by_cases room : terminal.grid.col + 1 < vgaWidth
      · rw [if_neg (Nat.not_le_of_lt room), if_pos room]
        exact ⟨_, rfl, result.color, result.inside, room, result.row, rfl, result.cells⟩
      · rw [if_pos (Nat.le_of_not_lt room), if_neg room]
        exact result.nextRow

theorem Shows.write (shows : Shows vga terminal) (noNul : 0 ∉ text) :
    ∃ after, vgaWrite (text ++ [0]) vga = some after ∧ Shows after (terminal.write text) := by
  induction text generalizing vga terminal with
  | nil => exact ⟨vga, rfl, shows⟩
  | cons c text ih =>
      simp only [List.mem_cons, not_or] at noNul
      obtain ⟨next, put, shown⟩ := shows.putchar c
      obtain ⟨after, run, result⟩ := ih shown noNul.2
      refine ⟨after, ?_, result⟩
      rw [List.cons_append, vgaWrite, if_neg (Ne.symm noNul.1), put, Option.bind_some, run]

theorem vgaClear_shows (vga : VgaState) :
    ∃ after, vgaClear vga = some after ∧ Shows after ⟨.cleared vga.blank, vga.color⟩ := by
  obtain ⟨after, wiped, row, col, color, cells⟩ := vgaClear_spec vga
  refine ⟨after, wiped, color, by rw [row]; decide, by rw [col]; decide, ?_, col.symm, ?_⟩
  · rw [row]
    rfl
  · intro y x inside within
    exact cells _ (cell_inside inside within)

theorem Shows.call (shows : Shows vga terminal) (call : Call) :
    ∃ after, call.run vga = some after ∧ Shows after (terminal.call call) := by
  cases call with
  | putchar c => exact shows.putchar c
  | write s => exact shows.write s.noNul
  | writeln s =>
      obtain ⟨written, run, shown⟩ := shows.write s.noNul
      obtain ⟨after, put, result⟩ := shown.putchar newline
      refine ⟨after, ?_, result⟩
      rw [Call.run, vgaWriteln, CString.memory, run, Option.bind_some, put]
  | setColor fg bg => exact ⟨_, rfl, rfl, shows.inside, shows.within, shows.row, shows.col, shows.cells⟩
  | clear =>
      obtain ⟨after, wiped, result⟩ := vgaClear_shows vga
      rw [shows.blank, shows.color] at result
      exact ⟨after, wiped, result⟩

theorem Shows.calls (calls : List Call) (shows : Shows vga terminal) :
    ∃ after, runCalls calls vga = some after ∧ Shows after (calls.foldl Terminal.call terminal) := by
  induction calls generalizing vga terminal with
  | nil => exact ⟨vga, rfl, shows⟩
  | cons call calls ih =>
      obtain ⟨next, ran, shown⟩ := shows.call call
      obtain ⟨after, run, result⟩ := ih shown
      refine ⟨after, ?_, result⟩
      rw [runCalls, ran, Option.bind_some, run]

theorem vgaInit_shows (boot : VgaState) : ∃ start, vgaInit boot = some start ∧ Shows start Terminal.init :=
  vgaClear_shows (vgaSetColor 7 0 boot)

/-- After any calls, the driver has not left its memory, the cursor is on the
screen, and the screen is the window on the grid that the calls have written. -/
theorem screen_is_window (boot : VgaState) (calls : List Call) :
    ∃ start final, vgaInit boot = some start ∧ runCalls calls start = some final ∧
      final.row < 25 ∧ final.col < 80 ∧
      (calls.foldl Terminal.call Terminal.init).grid.row =
        (calls.foldl Terminal.call Terminal.init).grid.top + final.row ∧
      (calls.foldl Terminal.call Terminal.init).grid.col = final.col ∧
      ∀ y x, y < 25 → x < 80 → final.load (y * 80 + x) =
        some ((calls.foldl Terminal.call Terminal.init).grid.cell
          ((calls.foldl Terminal.call Terminal.init).grid.top + y) x) := by
  obtain ⟨start, booted, shows⟩ := vgaInit_shows boot
  obtain ⟨final, run, shown⟩ := shows.calls calls
  exact ⟨start, final, booted, run, shown.inside, shown.within, shown.row, shown.col, shown.cells⟩

section Positions

theorem Shows.grid_inside (shows : Shows vga terminal) : terminal.grid.Inside vgaWidth vgaHeight := by
  have inside := shows.inside
  have row := shows.row
  refine ⟨by omega, by omega, ?_⟩
  rw [shows.col]
  exact shows.within

theorem Shows.position (shows : Shows vga terminal) :
    terminal.grid.position vgaWidth = terminal.grid.top * vgaWidth + (vga.row * vgaWidth + vga.col) := by
  rw [Grid.position, shows.row, shows.col, Nat.add_mul, Nat.add_assoc]

theorem Shows.read (shows : Shows vga terminal) {j : Nat} (inside : j < vgaCells) :
    vga.load j = some (terminal.grid.read vgaWidth (terminal.grid.top * vgaWidth + j)) := by
  have row : j / vgaWidth < vgaHeight := Nat.div_lt_of_lt_mul inside
  have col : j % vgaWidth < vgaWidth := Nat.mod_lt _ (by decide)
  have shown := shows.cells _ _ row col
  rw [Nat.mul_comm, Nat.div_add_mod] at shown
  rw [shown, Grid.read, Nat.mul_comm terminal.grid.top, Nat.mul_add_div (by decide), Nat.mul_add_mod]

/-- A grid with nothing above the screen. -/
def terminalOf (vga : VgaState) : Terminal :=
  ⟨⟨fun y x => (vga.load (y * vgaWidth + x)).getD 0, 0, vga.row, vga.col⟩, vga.color⟩

theorem shows_terminalOf (row : vga.row < vgaHeight) (col : vga.col < vgaWidth) : Shows vga (terminalOf vga) where
  color := rfl
  inside := row
  within := col
  row := (Nat.zero_add _).symm
  col := rfl
  cells := by
    intro y x inside within
    simp only [terminalOf, Nat.zero_add, VgaState.load_of_lt (cell_inside inside within), Option.getD_some]

/-- What is typed on the grid, as it is seen on the screen: from the cell on where
it began, moved up by as many rows as the window has moved down. -/
theorem Shows.typing {begun : VgaState} {values : List UInt16} (start : Shows begun (terminalOf begun))
    (shows : Shows vga terminal) (typing : (terminalOf begun).grid.Typing vgaWidth vgaHeight terminal.grid values) :
    terminal.grid.top ≤ begun.row ∧
      vga.row * 80 + vga.col = (begun.row - terminal.grid.top) * 80 + begun.col + values.length ∧
      (∀ i value, values[i]? = some value →
        vga.load ((begun.row - terminal.grid.top) * 80 + begun.col + i) = some value) ∧
      ∀ j, j < (begun.row - terminal.grid.top) * 80 + begun.col →
        vga.load j = begun.load (j + terminal.grid.top * 80) := by
  have moved : terminal.grid.top ≤ begun.row := typing.visible
  have here : vga.row * 80 + vga.col < 2000 := cell_inside shows.inside shows.within
  have origin : (terminalOf begun).grid.position vgaWidth =
      terminal.grid.top * 80 + ((begun.row - terminal.grid.top) * 80 + begun.col) := by
    change begun.row * 80 + begun.col = _
    omega
  have cursor : vga.row * 80 + vga.col = (begun.row - terminal.grid.top) * 80 + begun.col + values.length := by
    have position := typing.position
    rw [shows.position, origin] at position
    change terminal.grid.top * 80 + (vga.row * 80 + vga.col) = _ at position
    omega
  refine ⟨moved, cursor, ?_, ?_⟩
  · intro i value listed
    have short := (List.getElem?_eq_some_iff.mp listed).1
    have drawn := typing.values i value listed
    rw [origin, Nat.add_assoc] at drawn
    have inside : (begun.row - terminal.grid.top) * 80 + begun.col + i < vgaCells :=
      show _ < 2000 by omega
    rw [shows.read inside]
    exact congrArg some drawn
  · intro j before
    have kept := typing.earlier (terminal.grid.top * 80 + j) (by rw [origin]; omega)
    have inside : j < vgaCells := show _ < 2000 by omega
    have insideBefore : j + terminal.grid.top * 80 < vgaCells := by
      have begunHere := cell_inside start.inside start.within
      change begun.row * 80 + begun.col < 2000 at begunHere
      change _ < 2000
      omega
    have unmoved : (terminalOf begun).grid.top * vgaWidth + (j + terminal.grid.top * 80) =
        terminal.grid.top * 80 + j := by
      change 0 * 80 + _ = _
      omega
    rw [shows.read inside, start.read insideBefore, unmoved]
    exact congrArg some kept

end Positions

end DugOS.Vga
