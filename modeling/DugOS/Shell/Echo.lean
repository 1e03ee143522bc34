import DugOS.Shell.Readline
import DugOS.Vga.Window

namespace DugOS.Shell

open Data Vga

/-! The line that is being typed, on the screen.

On the grid of unbounded height a line has a fixed place: scrolling moves the
window, not the line. So the start of the line is found again on the screen by
the number of rows that the window has moved.
-/

/-- `vga_putchar(c)` comes to `scroll_if_needed` with the cursor below the screen. -/
def Scrolls (vga : VgaState) (c : UInt8) : Prop :=
  vgaHeight ≤ vga.row + 1 ∧ (c = newline ∨ c ≠ backspace ∧ vgaWidth ≤ vga.col + 1)

instance (vga : VgaState) (c : UInt8) : Decidable (Scrolls vga c) :=
  inferInstanceAs (Decidable (_ ∧ _))

/-- How often the screen scrolls while these characters are written. -/
def scrolls : VgaState → List UInt8 → Nat
  | _, [] => 0
  | vga, c :: text => (if Scrolls vga c then 1 else 0) + (vgaPutchar c vga).elim 0 (scrolls · text)

variable {vga : VgaState} {terminal : Terminal} {edit : Editing 256} {text keys : List UInt8} {c : UInt8} {len : Nat}

theorem nextRow_top (shows : Shows vga terminal) (blank : UInt16) :
    (terminal.grid.nextRow vgaHeight blank).top =
      terminal.grid.top + if vgaHeight ≤ vga.row + 1 then 1 else 0 := by
  have row := shows.row
  rw [Grid.nextRow]
  by_cases room : terminal.grid.row + 1 < terminal.grid.top + vgaHeight
  · rw [if_pos room, if_neg (by omega)]
    rfl
  · rw [if_neg room, if_pos (by omega)]

/-- The window moves down by a row when the screen scrolls. -/
theorem putchar_top (shows : Shows vga terminal) (c : UInt8) :
    (terminal.putchar c).grid.top = terminal.grid.top + if Scrolls vga c then 1 else 0 := by
  by_cases feed : c = newline
  · have below : Scrolls vga c ↔ vgaHeight ≤ vga.row + 1 := by simp [Scrolls, feed]
    rw [if_congr below rfl rfl]
    simp only [Terminal.putchar, if_pos feed]
    exact nextRow_top shows _
  · by_cases back : c = backspace
    · have stays : ¬ Scrolls vga c := fun moves => moves.2.elim feed (fun plain => plain.1 back)
      rw [if_neg stays]
      simp only [Terminal.putchar, if_neg feed, if_pos back]
      exact Grid.stepBack_top
    · simp only [Terminal.putchar, if_neg feed, if_neg back, Grid.write]
      by_cases room : terminal.grid.col + 1 < vgaWidth
      · have stays : ¬ Scrolls vga c := by
          intro moves
          have full := moves.2.elim (absurd · feed) (fun plain => plain.2)
          rw [← shows.col] at full
          omega
        rw [if_neg stays, if_pos room]
        rfl
      · have below : Scrolls vga c ↔ vgaHeight ≤ vga.row + 1 := by
          rw [shows.col, Nat.not_lt] at room
          exact ⟨fun moves => moves.1, fun last => ⟨last, .inr ⟨back, room⟩⟩⟩
        obtain ⟨drawn, _, row, _, shown⟩ := shows.store (makeEntry c terminal.color)
        rw [if_neg room, if_congr below rfl rfl, ← row]
        exact nextRow_top shown terminal.blank

theorem write_top (shows : Shows vga terminal) (text : List UInt8) :
    (terminal.write text).grid.top = terminal.grid.top + scrolls vga text := by
  induction text generalizing vga terminal with
  | nil => rfl
  | cons c text ih =>
      obtain ⟨next, put, shown⟩ := shows.putchar c
      have rest := ih shown
      rw [putchar_top shows] at rest
      rw [scrolls, put, Option.elim_some, ← Nat.add_assoc]
      exact rest

/-- The characters on the line are those on the grid, from the place where the
line began. -/
structure OnScreen (terminal : Terminal) (edit : Editing 256) : Prop where
  room : edit.n < 256
  typing : (terminal.grid).Typing vgaWidth vgaHeight (terminal.write edit.echo).grid
    ((edit.buf.bytes.take edit.n).map (makeEntry · terminal.color))

theorem printable_plain (accepted : printable c = true) : c ≠ newline ∧ c ≠ backspace := by
  have all : ∀ c : UInt8, c = newline ∨ c = backspace → printable c = false := by
    intro c special
    rcases special with rfl | rfl
    · rfl
    · rfl
  constructor
  · intro same
    exact absurd accepted (by rw [all c (.inl same)]; decide)
  · intro same
    exact absurd accepted (by rw [all c (.inr same)]; decide)

theorem OnScreen.start (buf : Buffer 256) (inside : terminal.grid.Inside vgaWidth vgaHeight) :
    OnScreen terminal ⟨buf, 0, []⟩ :=
  ⟨Nat.zero_lt_succ 255, .start inside⟩

theorem putchar_backspace : (terminal.putchar backspace).grid = terminal.grid.erase vgaWidth terminal.blank :=
  rfl

theorem putchar_printable (accepted : printable c = true) :
    (terminal.putchar c).grid =
      terminal.grid.write vgaWidth vgaHeight terminal.blank (makeEntry c terminal.color) := by
  obtain ⟨notNewline, notBackspace⟩ := printable_plain accepted
  simp only [Terminal.putchar, if_neg notNewline, if_neg notBackspace]

theorem OnScreen.key (shown : OnScreen terminal edit) (start : terminal.grid.col < vgaWidth) (c : UInt8) :
    ∃ after, readlineKey printable edit c = .ok after ∧ OnScreen terminal after := by
  obtain ⟨buf, n, echo⟩ := edit
  obtain ⟨room, typing⟩ := shown
  simp only at room typing
  have length : (buf.bytes.take n).length = n := by
    rw [List.length_take, buf.length_eq]
    omega
  rw [readlineKey]
  by_cases erase : c = backspace
  · rw [if_pos erase]
    by_cases positive : 0 < n
    · rw [if_pos positive]
      refine ⟨_, rfl, Nat.lt_of_le_of_lt (Nat.sub_le _ _) room, ?_⟩
      have shorter : buf.bytes.take (n - 1) = (buf.bytes.take n).dropLast := by
        rw [List.dropLast_eq_take, length, List.take_take, min_eq_left (Nat.sub_le _ _)]
      have nonempty : (buf.bytes.take n).map (makeEntry · terminal.color) ≠ [] := by
        intro none
        rw [List.map_eq_nil_iff] at none
        rw [none] at length
        exact Nat.ne_of_lt positive length
      simp only [Terminal.write_snoc, putchar_backspace, shorter, List.map_dropLast]
      exact typing.erase nonempty _
    · rw [if_neg positive]
      exact ⟨_, rfl, room, typing⟩
  · rw [if_neg erase]
    by_cases stored : printable c = true ∧ n < 256 - 1
    · rw [if_pos stored]
      obtain ⟨accepted, fits⟩ := stored
      obtain ⟨after, written⟩ := buf.store_exists n [c] room
      rw [written]
      refine ⟨_, rfl, Nat.add_lt_of_lt_sub fits, ?_⟩
      have longer : after.bytes.take (n + 1) = buf.bytes.take n ++ [c] := Buffer.store_take written
      have visible : terminal.grid.col + ((buf.bytes.take n).map (makeEntry · terminal.color)).length + 1 <
          vgaHeight * vgaWidth := by
        rw [List.length_map, length]
        simp only [vgaWidth, vgaHeight] at *
        omega
      simp only [Terminal.write_snoc, putchar_printable accepted, Terminal.write_color, longer, List.map_append,
        List.map_cons, List.map_nil]
      exact typing.write visible _ _
    · rw [if_neg stored]
      exact ⟨_, rfl, room, typing⟩

theorem OnScreen.typed (shown : OnScreen terminal edit) (start : terminal.grid.col < vgaWidth) (keys : List UInt8) :
    ∃ after, keys.foldlM (readlineKey printable) edit = .ok after ∧ OnScreen terminal after := by
  induction keys generalizing edit with
  | nil => exact ⟨edit, rfl, shown⟩
  | cons c keys ih =>
      obtain ⟨next, typed, held⟩ := shown.key start c
      obtain ⟨after, rest, result⟩ := ih held
      refine ⟨after, ?_, result⟩
      rw [List.foldlM_cons, typed]
      exact rest

/-- While a line is typed, the cells from its first one on show what is in the
buffer, up to the cursor. The first one is the cell where the cursor was, moved
up by a row for each scroll, and the cells before it have only moved with it. -/
theorem line_on_screen (row : vga.row < 25) (col : vga.col < 80) (buf : Buffer 256) (keys : List UInt8)
    (noNewline : newline ∉ keys) :
    ∃ (edit : Editing 256) (after : VgaState),
      keys.foldlM (readlineKey printable) ⟨buf, 0, []⟩ = .ok edit ∧
      (∀ rest, readline buf (keys ++ rest) =
        (readlineLoop printable edit.buf edit.n rest).map (Typed.after edit.echo)) ∧
      runCalls (edit.echo.map .putchar) vga = some after ∧ after.row < 25 ∧ after.col < 80 ∧
      scrolls vga edit.echo ≤ vga.row ∧
      (∀ i, i < edit.n → ∃ c, edit.buf.bytes[i]? = some c ∧
        after.load ((vga.row - scrolls vga edit.echo) * 80 + vga.col + i) = some (makeEntry c vga.color)) ∧
      after.row * 80 + after.col = (vga.row - scrolls vga edit.echo) * 80 + vga.col + edit.n ∧
      ∀ j, j < (vga.row - scrolls vga edit.echo) * 80 + vga.col →
        after.load j = vga.load (j + scrolls vga edit.echo * 80) := by
  have shows := shows_terminalOf row col
  obtain ⟨edit, typed, shown⟩ := (OnScreen.start buf shows.grid_inside).typed shows.grid_inside.within keys
  obtain ⟨after, run, result⟩ := shows.calls (edit.echo.map .putchar)
  have folded : (edit.echo.map Call.putchar).foldl Terminal.call (terminalOf vga) =
      (terminalOf vga).write edit.echo := by
    rw [List.foldl_map]
    rfl
  rw [folded] at result
  obtain ⟨moved, cursor, values, earlier⟩ := shows.typing result shown.typing
  have top : ((terminalOf vga).write edit.echo).grid.top = scrolls vga edit.echo :=
    (write_top shows edit.echo).trans (Nat.zero_add _)
  rw [top] at moved cursor values earlier
  have length : (edit.buf.bytes.take edit.n).length = edit.n := by
    rw [List.length_take, edit.buf.length_eq]
    exact min_eq_left shown.room.le
  rw [List.length_map, length] at cursor
  refine ⟨edit, after, typed, ?_, run, result.inside, result.within, moved, ?_, cursor, earlier⟩
  · intro rest
    have looped := readlineLoop_keys printable ⟨buf, 0, []⟩ rest noNewline
    rw [typed] at looped
    rw [readline, ← after_nil (readlineLoop printable buf 0 (keys ++ rest))]
    exact looped
  · intro i inLine
    have stored : i < edit.buf.bytes.length := by
      rw [edit.buf.length_eq]
      exact Nat.lt_trans inLine shown.room
    have char := List.getElem?_eq_getElem stored
    refine ⟨_, char, values i _ ?_⟩
    rw [List.getElem?_map, List.getElem?_take_of_lt inLine, char]
    rfl

/-- The cursor is in the last row, two cells before its end. -/
def lastCells : VgaState :=
  ⟨fun _ => 0, 24, 78, 7⟩

/-- Three keys there make the screen scroll, and a backspace takes back the one
that went to the new row. -/
theorem scrolled_line_on_screen : ∃ (edit : Editing 256) (after : VgaState),
    [120, 121, 122, backspace].foldlM (readlineKey printable) ⟨.zeros 256, 0, []⟩ = .ok edit ∧
    runCalls (edit.echo.map .putchar) lastCells = some after ∧ scrolls lastCells edit.echo = 1 ∧ edit.n = 2 ∧
    after.row * 80 + after.col = 23 * 80 + 78 + 2 := by
  obtain ⟨edit, after, typed, _, run, _, _, _, _, cursor, _⟩ :=
    line_on_screen (show lastCells.row < 25 by decide) (show lastCells.col < 80 by decide) (.zeros 256)
      [120, 121, 122, backspace] (by decide)
  have left : ([120, 121, 122, backspace].foldlM (readlineKey printable) ⟨Buffer.zeros 256, 0, []⟩).map
      (fun edit => (edit.n, edit.echo)) = .ok (2, [120, 121, 122, backspace]) := rfl
  rw [typed] at left
  have count : edit.n = 2 := congrArg (fun result => result.1) (Except.ok.inj left)
  have echo : edit.echo = [120, 121, 122, backspace] := congrArg (fun result => result.2) (Except.ok.inj left)
  have once : scrolls lastCells edit.echo = 1 := by
    have shows := shows_terminalOf (show lastCells.row < 25 by decide) (show lastCells.col < 80 by decide)
    have counted := write_top shows edit.echo
    have top : ((terminalOf lastCells).write [120, 121, 122, backspace]).grid.top = 1 := rfl
    have start : (terminalOf lastCells).grid.top = 0 := rfl
    rw [start, Nat.zero_add, echo, top] at counted
    rw [echo, ← counted]
  rw [once, count] at cursor
  exact ⟨edit, after, typed, run, once, count, cursor⟩

end DugOS.Shell
