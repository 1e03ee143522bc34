import Mathlib.Data.Nat.Basic

namespace DugOS.Data

/-! Text on a grid of unbounded height, of which a window of `height` rows is
seen. The window follows the cursor downwards and never moves up again. -/

structure Grid (α : Type) where
  cell : Nat → Nat → α
  top : Nat
  row : Nat
  col : Nat

namespace Grid

variable {α : Type}

def setCell (grid : Grid α) (row col : Nat) (value : α) : Grid α :=
  { grid with cell := fun y x => if y = row ∧ x = col then value else grid.cell y x }

/-- To the first column of the next row. If that is below the window, the window
moves down by one row, which is blank then. -/
def nextRow (height : Nat) (blank : α) (grid : Grid α) : Grid α :=
  if grid.row + 1 < grid.top + height then { grid with row := grid.row + 1, col := 0 }
  else {
    cell := fun y x => if y = grid.row + 1 then blank else grid.cell y x
    top := grid.top + 1
    row := grid.row + 1
    col := 0 }

def write (width height : Nat) (blank value : α) (grid : Grid α) : Grid α :=
  let written := grid.setCell grid.row grid.col value
  if grid.col + 1 < width then { written with col := grid.col + 1 } else written.nextRow height blank

/-- One cell back, into the row above if need be, but not out of the window. -/
def stepBack (width : Nat) (grid : Grid α) : Grid α :=
  if 0 < grid.col then { grid with col := grid.col - 1 }
  else if grid.top < grid.row then { grid with row := grid.row - 1, col := width - 1 }
  else grid

def erase (width : Nat) (blank : α) (grid : Grid α) : Grid α :=
  let back := grid.stepBack width
  back.setCell back.row back.col blank

def cleared (blank : α) : Grid α :=
  ⟨fun _ _ => blank, 0, 0, 0⟩

/-- The cursor is in the window. -/
structure Inside (width height : Nat) (grid : Grid α) : Prop where
  above : grid.top ≤ grid.row
  below : grid.row < grid.top + height
  within : grid.col < width

variable {width height : Nat} {grid : Grid α} {blank value : α}

theorem Inside.nextRow (inside : grid.Inside width height) (blank : α) :
    (grid.nextRow height blank).Inside width height := by
  obtain ⟨above, below, within⟩ := inside
  have lower : grid.row + 1 < grid.top + 1 + height := by omega
  rw [Grid.nextRow]
  split
  · rename_i room
    exact ⟨Nat.le_succ_of_le above, room, Nat.zero_lt_of_lt within⟩
  · exact ⟨Nat.succ_le_succ above, lower, Nat.zero_lt_of_lt within⟩

theorem Inside.write (inside : grid.Inside width height) (blank value : α) :
    (grid.write width height blank value).Inside width height := by
  have written : (grid.setCell grid.row grid.col value).Inside width height :=
    ⟨inside.above, inside.below, inside.within⟩
  rw [Grid.write]
  split
  · rename_i room
    exact ⟨inside.above, inside.below, room⟩
  · exact written.nextRow blank

theorem Inside.erase (inside : grid.Inside width height) (blank : α) :
    (grid.erase width blank).Inside width height := by
  obtain ⟨above, below, within⟩ := inside
  have back : (grid.stepBack width).Inside width height := by
    rw [Grid.stepBack]
    split
    · exact ⟨above, below, Nat.lt_of_le_of_lt (Nat.sub_le _ _) within⟩
    · split
      · constructor <;> simp only <;> omega
      · exact ⟨above, below, within⟩
  exact ⟨back.above, back.below, back.within⟩

/-! Cells counted from the first one of the grid, row by row. -/

def position (width : Nat) (grid : Grid α) : Nat :=
  grid.row * width + grid.col

def read (width : Nat) (grid : Grid α) (p : Nat) : α :=
  grid.cell (p / width) (p % width)

theorem row_eq_div (within : grid.col < width) : grid.position width / width = grid.row := by
  rw [position, Nat.mul_comm, Nat.mul_add_div (Nat.zero_lt_of_lt within), Nat.div_eq_of_lt within, Nat.add_zero]

theorem col_eq_mod (within : grid.col < width) : grid.position width % width = grid.col := by
  rw [position, Nat.mul_comm, Nat.mul_add_mod, Nat.mod_eq_of_lt within]

theorem read_setCell (within : grid.col < width) (p : Nat) :
    (grid.setCell grid.row grid.col value).read width p =
      if p = grid.position width then value else grid.read width p := by
  by_cases here : p = grid.position width
  · rw [if_pos here, here, read, row_eq_div within, col_eq_mod within, setCell]
    simp
  · have elsewhere : ¬ (p / width = grid.row ∧ p % width = grid.col) := by
      intro same
      apply here
      rw [position, ← same.1, ← same.2, Nat.mul_comm, Nat.div_add_mod]
    rw [if_neg here, read, setCell]
    exact if_neg elsewhere

theorem nextRow_read {p : Nat} (before : p < (grid.row + 1) * width) :
    (grid.nextRow height blank).read width p = grid.read width p := by
  have higher : p / width ≠ grid.row + 1 := by
    have below : p / width < grid.row + 1 := Nat.div_lt_of_lt_mul (Nat.mul_comm .. ▸ before)
    omega
  rw [nextRow]
  split
  · rfl
  · exact if_neg higher

theorem nextRow_position : (grid.nextRow height blank).position width = (grid.row + 1) * width := by
  rw [nextRow]
  split <;> rfl

theorem write_position (within : grid.col < width) :
    (grid.write width height blank value).position width = grid.position width + 1 := by
  rw [write]
  split
  · rfl
  · rename_i last
    have full : width = grid.col + 1 := by omega
    rw [nextRow_position, Nat.succ_mul, position]
    change grid.row * width + width = _
    omega

theorem write_read (within : grid.col < width) {p : Nat} (before : p ≤ grid.position width) :
    (grid.write width height blank value).read width p =
      if p = grid.position width then value else grid.read width p := by
  rw [write]
  split
  · exact read_setCell within p
  · rw [nextRow_read, read_setCell within p]
    change p < (grid.row + 1) * width
    rw [Nat.succ_mul]
    rw [position] at before
    omega

/-- The window moves only when the cursor reaches its last row. -/
theorem write_top (grid : Grid α) (width height : Nat) (blank value : α) :
    (grid.write width height blank value).top = grid.top ∨
      (grid.write width height blank value).top = grid.top + 1 ∧ grid.top + height ≤ grid.row + 1 ∧
        (grid.write width height blank value).row = grid.row + 1 := by
  rw [write]
  split
  · exact .inl rfl
  · rw [nextRow]
    split
    · exact .inl rfl
    · exact .inr ⟨rfl, Nat.le_of_not_lt (by assumption), rfl⟩

theorem stepBack_top : (grid.stepBack width).top = grid.top := by
  rw [stepBack]
  split
  · rfl
  · split <;> rfl

theorem stepBack_read (p : Nat) : (grid.stepBack width).read width p = grid.read width p := by
  rw [stepBack]
  split
  · rfl
  · split <;> rfl

theorem stepBack_position (inside : grid.Inside width height) (behind : grid.top * width < grid.position width) :
    (grid.stepBack width).position width + 1 = grid.position width := by
  have within := inside.within
  rw [position] at behind
  rw [stepBack, position, position]
  split
  · change grid.row * width + (grid.col - 1) + 1 = _
    omega
  · split
    · change (grid.row - 1) * width + (width - 1) + 1 = _
      have split : grid.row * width = (grid.row - 1) * width + width := by
        rw [← Nat.succ_mul, Nat.succ_eq_add_one, Nat.sub_add_cancel (by omega)]
      omega
    · have same : grid.row = grid.top := by
        have above := inside.above
        omega
      rw [same] at behind
      omega

theorem erase_position (inside : grid.Inside width height) (behind : grid.top * width < grid.position width)
    (blank : α) : (grid.erase width blank).position width + 1 = grid.position width :=
  stepBack_position inside behind

theorem erase_read (inside : grid.Inside width height) (behind : grid.top * width < grid.position width) {p : Nat}
    (before : p + 1 < grid.position width) : (grid.erase width blank).read width p = grid.read width p := by
  have back := stepBack_position inside behind
  have within : (grid.stepBack width).col < width := (inside.erase blank).within
  rw [erase, read_setCell within, if_neg (by omega), stepBack_read]

/-- The values stand one behind the other from the cursor of `origin` on, and the
cursor of `grid` is behind them. What was in front of them is still there, and
the first of them has not left the window. -/
structure Typing (width height : Nat) (origin grid : Grid α) (values : List α) : Prop where
  inside : grid.Inside width height
  position : grid.position width = origin.position width + values.length
  values : ∀ i value, values[i]? = some value → grid.read width (origin.position width + i) = value
  earlier : ∀ p, p < origin.position width → grid.read width p = origin.read width p
  scrolled : origin.top ≤ grid.top
  visible : grid.top ≤ origin.row

variable {origin : Grid α} {values : List α}

theorem Typing.start (inside : origin.Inside width height) : Typing width height origin origin [] where
  inside := inside
  position := rfl
  values := by simp
  earlier := fun _ _ => rfl
  scrolled := Nat.le_refl _
  visible := inside.above

/-- Another value, as long as all of them fit into the window. -/
theorem Typing.write (typing : Typing width height origin grid values)
    (room : origin.col + values.length + 1 < height * width) (blank value : α) :
    Typing width height origin (grid.write width height blank value) (values ++ [value]) := by
  have within := typing.inside.within
  have here := typing.position
  constructor
  case inside => exact typing.inside.write blank value
  case position => rw [write_position within, here, List.length_append, List.length_singleton, Nat.add_assoc]
  case values =>
    intro i other listed
    rcases Nat.lt_trichotomy i values.length with before | last | behind
    · rw [List.getElem?_append_left before] at listed
      rw [write_read within (by omega), if_neg (by omega)]
      exact typing.values i other listed
    · subst last
      rw [List.getElem?_concat_length, Option.some.injEq] at listed
      rw [write_read within (Nat.le_of_eq here.symm), if_pos here.symm, listed]
    · have short : (values ++ [value]).length ≤ i := by
        rw [List.length_append, List.length_singleton]
        exact behind
      rw [List.getElem?_eq_none short] at listed
      cases listed
  case earlier =>
    intro p before
    rw [write_read within (by omega), if_neg (by omega)]
    exact typing.earlier p before
  case scrolled =>
    rcases write_top grid width height blank value with same | ⟨moved, _⟩
    · exact same ▸ typing.scrolled
    · rw [moved]
      exact Nat.le_succ_of_le typing.scrolled
  case visible =>
    rcases write_top grid width height blank value with same | ⟨moved, full, lower⟩
    · exact same ▸ typing.visible
    · have next : (grid.write width height blank value).position width < (origin.row + height) * width := by
        rw [write_position within, here, Grid.position, Nat.add_mul]
        omega
      have row := row_eq_div (typing.inside.write blank value).within
      have lowest : grid.row + 1 < origin.row + height := by
        rw [← lower, ← row]
        exact Nat.div_lt_of_lt_mul (Nat.mul_comm .. ▸ next)
      rw [moved]
      omega

/-- The last value is taken back, never one in front of the first. -/
theorem Typing.erase (typing : Typing width height origin grid values) (nonempty : values ≠ []) (blank : α) :
    Typing width height origin (grid.erase width blank) values.dropLast := by
  have inside := typing.inside
  have here := typing.position
  have positive := List.length_pos_iff.mpr nonempty
  have behind : grid.top * width < grid.position width := by
    have start : grid.top * width ≤ origin.row * width := Nat.mul_le_mul_right width typing.visible
    rw [here, Grid.position]
    omega
  have back := erase_position inside behind blank
  constructor
  case inside => exact inside.erase blank
  case position =>
    rw [List.length_dropLast]
    omega
  case values =>
    intro i value listed
    have short := (List.getElem?_eq_some_iff.mp listed).1
    rw [List.length_dropLast] at short
    rw [erase_read inside behind (by omega)]
    apply typing.values i value
    rwa [List.getElem?_dropLast, if_pos (by omega)] at listed
  case earlier =>
    intro p before
    rw [erase_read inside behind (by omega)]
    exact typing.earlier p before
  case scrolled =>
    change origin.top ≤ (grid.stepBack width).top
    rw [stepBack_top]
    exact typing.scrolled
  case visible =>
    change (grid.stepBack width).top ≤ origin.row
    rw [stepBack_top]
    exact typing.visible

end Grid

end DugOS.Data
