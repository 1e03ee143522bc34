import DugOS.Console
import DugOS.Data.Loop
import Mathlib.Logic.Function.Basic

namespace DugOS.Vga

open Data

/-! The text-mode driver of `vga.c`.

`VGA_MEM` is the memory of the adapter, 2000 cells of 16 bits. `none` is the
outcome of an access outside of it.
-/

abbrev vgaWidth : Nat := 80
abbrev vgaHeight : Nat := 25
abbrev vgaCells : Nat := 2000

/-- The memory of the adapter and the static data of the driver. -/
structure VgaState where
  mem : Fin vgaCells → UInt16
  row : Nat
  col : Nat
  color : UInt8

namespace VgaState

/-- `VGA_MEM[index]`. -/
def load (vga : VgaState) (index : Nat) : Option UInt16 :=
  if inside : index < vgaCells then some (vga.mem ⟨index, inside⟩) else none

/-- `VGA_MEM[index] = entry`. -/
def store (vga : VgaState) (index : Nat) (entry : UInt16) : Option VgaState :=
  if inside : index < vgaCells then some { vga with mem := Function.update vga.mem ⟨index, inside⟩ entry } else none

end VgaState

def makeEntry (c attr : UInt8) : UInt16 :=
  c.toUInt16 ||| (attr.toUInt16 <<< 8)

abbrev space : UInt8 := 32

/-- A space in the current colour. -/
def VgaState.blank (vga : VgaState) : UInt16 :=
  makeEntry space vga.color

def vgaSetColor (fg bg : UInt8) (vga : VgaState) : VgaState :=
  { vga with color := fg ||| (bg <<< 4) }

/-- The loop over `x` that puts `entry` into all cells of the row that starts at
`base`. -/
def fillRow (entry : UInt16) (base : Nat) (vga : VgaState) : Option VgaState :=
  forLoop (fun x vga => vga.store (base + x) entry) 0 vgaWidth vga

def vgaClear (vga : VgaState) : Option VgaState :=
  (forLoop (fun y => fillRow vga.blank (y * vgaWidth)) 0 vgaHeight vga).map fun vga =>
    { vga with row := 0, col := 0 }

/-- `VGA_LIGHT_GREY` is 7 and `VGA_BLACK` is 0. -/
def vgaInit (vga : VgaState) : Option VgaState :=
  vgaClear (vgaSetColor 7 0 vga)

/-- The loop over `x` that copies row `y` into the row above. -/
def copyRow (y : Nat) (vga : VgaState) : Option VgaState :=
  forLoop (fun x vga => (vga.load (y * vgaWidth + x)).bind (vga.store ((y - 1) * vgaWidth + x))) 0 vgaWidth vga

def scrollIfNeeded (vga : VgaState) : Option VgaState :=
  if vga.row < vgaHeight then some vga
  else do
    let vga ← forLoop copyRow 1 (vgaHeight - 1) vga
    let vga ← fillRow vga.blank ((vgaHeight - 1) * vgaWidth) vga
    return { vga with row := vgaHeight - 1 }

def vgaPutchar (c : UInt8) (vga : VgaState) : Option VgaState :=
  if c = newline then scrollIfNeeded { vga with col := 0, row := vga.row + 1 }
  else if c = backspace then
    let vga :=
      if 0 < vga.col then { vga with col := vga.col - 1 }
      else if 0 < vga.row then { vga with row := vga.row - 1, col := vgaWidth - 1 }
      else vga
    vga.store (vga.row * vgaWidth + vga.col) vga.blank
  else do
    let vga ← vga.store (vga.row * vgaWidth + vga.col) (makeEntry c vga.color)
    let vga := { vga with col := vga.col + 1 }
    if vgaWidth ≤ vga.col then scrollIfNeeded { vga with col := 0, row := vga.row + 1 } else some vga

/-- `while (*s) vga_putchar(*s++)`, on the memory that `s` points to. -/
def vgaWrite : List UInt8 → VgaState → Option VgaState
  | [], _ => none
  | c :: rest, vga => if c = 0 then some vga else (vgaPutchar c vga).bind (vgaWrite rest)

def vgaWriteln (s : List UInt8) (vga : VgaState) : Option VgaState :=
  (vgaWrite s vga).bind (vgaPutchar newline)

variable {vga drawn after : VgaState} {index base y : Nat} {entry : UInt16}

section Cells

theorem cell_inside {x : Nat} (row : y < vgaHeight) (col : x < vgaWidth) : y * vgaWidth + x < vgaCells := by
  simp only [vgaWidth, vgaHeight, vgaCells] at *
  omega

theorem VgaState.load_of_lt (inside : index < vgaCells) : vga.load index = some (vga.mem ⟨index, inside⟩) :=
  dif_pos inside

/-- `after` differs from `vga` only in its cells, which read as `cells`. -/
structure Redrawn (vga : VgaState) (cells : Nat → Option UInt16) (after : VgaState) : Prop where
  row : after.row = vga.row
  col : after.col = vga.col
  color : after.color = vga.color
  cells : ∀ j, after.load j = cells j

theorem Redrawn.unchanged {cells : Nat → Option UInt16} (same : ∀ j, vga.load j = cells j) : Redrawn vga cells vga :=
  ⟨rfl, rfl, rfl, same⟩

theorem Redrawn.blank {cells : Nat → Option UInt16} (redrawn : Redrawn vga cells after) :
    after.blank = vga.blank := by
  rw [VgaState.blank, VgaState.blank, redrawn.color]

theorem store_spec (vga : VgaState) (entry : UInt16) (inside : index < vgaCells) :
    ∃ after, vga.store index entry = some after ∧
      Redrawn vga (fun j => if j = index then some entry else vga.load j) after := by
  refine ⟨_, dif_pos inside, rfl, rfl, rfl, ?_⟩
  intro j
  by_cases same : j = index
  · subst same
    rw [if_pos rfl, VgaState.load_of_lt inside]
    simp
  · rw [if_neg same]
    by_cases insideJ : j < vgaCells
    · rw [VgaState.load_of_lt insideJ, VgaState.load_of_lt insideJ]
      simp [same]
    · rw [VgaState.load, dif_neg insideJ, VgaState.load, dif_neg insideJ]

/-- One more cell of a drawing that is done cell by cell. -/
theorem Redrawn.store {cells next : Nat → Option UInt16} (redrawn : Redrawn vga cells drawn)
    (inside : index < vgaCells) (here : next index = some entry) (others : ∀ j, j ≠ index → next j = cells j) :
    ∃ after, drawn.store index entry = some after ∧ Redrawn vga next after := by
  obtain ⟨after, stored, result⟩ := store_spec drawn entry inside
  refine ⟨after, stored, result.row.trans redrawn.row, result.col.trans redrawn.col,
    result.color.trans redrawn.color, ?_⟩
  intro j
  rw [result.cells]
  by_cases same : j = index
  · rw [if_pos same, same, here]
  · rw [if_neg same, redrawn.cells, others j same]

end Cells

section Rows

theorem fillRow_spec (vga : VgaState) (entry : UInt16) (room : base + vgaWidth ≤ vgaCells) :
    ∃ after, fillRow entry base vga = some after ∧
      Redrawn vga (fun j => if base ≤ j ∧ j < base + vgaWidth then some entry else vga.load j) after := by
  let filled := fun x => Redrawn vga (fun j => if base ≤ j ∧ j < base + x then some entry else vga.load j)
  have start : filled 0 vga := .unchanged fun j => (if_neg (by omega)).symm
  have loop : ∃ after, fillRow entry base vga = some after ∧ filled (0 + vgaWidth) after := by
    apply forLoop_invariant start
    intro x before _ below held
    apply held.store (by omega)
    · rw [if_pos (by omega)]
    · intro j other
      by_cases inside : base ≤ j ∧ j < base + x
      · rw [if_pos inside, if_pos (by omega)]
      · rw [if_neg inside, if_neg (by omega)]
  rwa [Nat.zero_add] at loop

/-- The cells when those before `done` have been moved up by a row. -/
def movedUp (vga : VgaState) (done j : Nat) : Option UInt16 :=
  if j < done then vga.load (j + vgaWidth) else vga.load j

/-- The copy reads a cell that it has not yet written to. -/
theorem copyRow_spec {row : Nat} (last : row + 1 < vgaHeight)
    (held : Redrawn vga (movedUp vga (row * vgaWidth)) drawn) :
    ∃ after, copyRow (row + 1) drawn = some after ∧ Redrawn vga (movedUp vga ((row + 1) * vgaWidth)) after := by
  let moved := fun x => Redrawn vga (movedUp vga (row * vgaWidth + x))
  have start : moved 0 drawn := held
  have loop : ∃ after, copyRow (row + 1) drawn = some after ∧ moved (0 + vgaWidth) after := by
    apply forLoop_invariant start
    intro x before _ below held
    have source : (row + 1) * vgaWidth + x = row * vgaWidth + x + vgaWidth := by
      rw [Nat.succ_mul]
      omega
    have inside : row * vgaWidth + x + vgaWidth < vgaCells := source ▸ cell_inside last (by omega)
    have read : before.load ((row + 1) * vgaWidth + x) = some (vga.mem ⟨_, inside⟩) := by
      rw [source, held.cells, movedUp, if_neg (by omega), VgaState.load_of_lt]
    rw [read, Option.bind_some, Nat.add_sub_cancel]
    apply held.store (by omega)
    · rw [movedUp, if_pos (by omega), VgaState.load_of_lt]
    · intro j other
      simp only [movedUp]
      by_cases done : j < row * vgaWidth + x
      · rw [if_pos done, if_pos (by omega)]
      · rw [if_neg done, if_neg (by omega)]
  rw [Nat.zero_add] at loop
  rwa [Nat.succ_mul]

theorem scrollIfNeeded_spec (below : vgaHeight ≤ vga.row) :
    ∃ after, scrollIfNeeded vga = some after ∧ after.row = vgaHeight - 1 ∧ after.col = vga.col ∧
      after.color = vga.color ∧ ∀ y x, y < vgaHeight → x < vgaWidth →
        after.load (y * vgaWidth + x) =
          if y + 1 < vgaHeight then vga.load ((y + 1) * vgaWidth + x) else some vga.blank := by
  let moved := fun y => Redrawn vga (movedUp vga ((y - 1) * vgaWidth))
  have start : moved 1 vga := .unchanged fun j => by simp [movedUp]
  have loop : ∃ drawn, forLoop copyRow 1 (vgaHeight - 1) vga = some drawn ∧ moved (1 + (vgaHeight - 1)) drawn := by
    apply forLoop_invariant start
    intro y before first last held
    obtain ⟨row, rfl⟩ : ∃ row, y = row + 1 := ⟨y - 1, by omega⟩
    exact copyRow_spec (by omega) held
  obtain ⟨drawn, copied, held⟩ := loop
  obtain ⟨after, filled, result⟩ := fillRow_spec drawn drawn.blank
    (show (vgaHeight - 1) * vgaWidth + vgaWidth ≤ vgaCells by decide)
  refine ⟨{ after with row := vgaHeight - 1 }, ?_, rfl, result.col.trans held.col,
    result.color.trans held.color, ?_⟩
  · rw [scrollIfNeeded, if_neg (Nat.not_lt_of_le below), copied]
    simp only [Option.bind_eq_bind, Option.bind_some, filled, pure]
  · intro y x row col
    change after.load (y * vgaWidth + x) = _
    rw [result.cells, held.cells, held.blank, movedUp, Nat.succ_mul]
    simp only [vgaWidth, vgaHeight] at *
    by_cases last : y + 1 < 25
    · rw [if_pos last, if_neg (by omega), if_pos (by omega)]
      congr 1
      omega
    · rw [if_neg last, if_pos (by omega)]

theorem vgaClear_spec (vga : VgaState) :
    ∃ after, vgaClear vga = some after ∧ after.row = 0 ∧ after.col = 0 ∧ after.color = vga.color ∧
      ∀ j, j < vgaCells → after.load j = some vga.blank := by
  let wiped := fun y => Redrawn vga (fun j => if j < y * vgaWidth then some vga.blank else vga.load j)
  have start : wiped 0 vga := .unchanged fun j => by simp
  have loop : ∃ drawn, forLoop (fun y => fillRow vga.blank (y * vgaWidth)) 0 vgaHeight vga = some drawn ∧
      wiped (0 + vgaHeight) drawn := by
    apply forLoop_invariant start
    intro y before _ last held
    have room : y * vgaWidth + vgaWidth ≤ vgaCells := by
      simp only [vgaWidth, vgaHeight, vgaCells] at *
      omega
    obtain ⟨after, filled, result⟩ := fillRow_spec before vga.blank room
    refine ⟨after, filled, result.row.trans held.row, result.col.trans held.col, result.color.trans held.color, ?_⟩
    intro j
    rw [result.cells, held.cells, Nat.succ_mul]
    by_cases earlier : j < y * vgaWidth
    · rw [if_neg (by omega), if_pos earlier, if_pos (by omega)]
    · by_cases here : j < y * vgaWidth + vgaWidth
      · rw [if_pos ⟨Nat.le_of_not_lt earlier, here⟩, if_pos here]
      · rw [if_neg (fun both => here both.2), if_neg earlier, if_neg here]
  obtain ⟨drawn, run, result⟩ := loop
  refine ⟨{ drawn with row := 0, col := 0 }, by rw [vgaClear, run]; rfl, rfl, rfl, result.color, ?_⟩
  intro j inside
  exact (result.cells j).trans (if_pos inside)

end Rows

end DugOS.Vga
