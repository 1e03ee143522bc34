import DugOS.Data.Linked
import DugOS.Console
import Mathlib.Data.Fintype.Card
import Mathlib.Data.List.FinRange

namespace DugOS.Fs

open Data

/-! The block store of `fs.c`: the allocation table and the data blocks. -/

abbrev fsNBlocks : Nat := 8
abbrev fsBlockSize : Nat := 32768
abbrev fatFree : Nat := 0x0000
abbrev fatEnd : Nat := 0xFFFF

abbrev BlockIndex := Fin fsNBlocks

/-- `fat[]`: the next block of a chain, or one of the two sentinels. The free
marker is also the number of block 0. -/
abbrev Fat := BlockIndex → Nat

structure Disk where
  fat : Fat
  blocks : BlockIndex → Buffer fsBlockSize

def freeBlocks (fat : Fat) : Finset BlockIndex :=
  Finset.univ.filter (fat · = fatFree)

def usedBlocks (fat : Fat) : Finset BlockIndex :=
  Finset.univ.filter (fat · ≠ fatFree)

@[simp] theorem mem_freeBlocks {fat : Fat} {block : BlockIndex} :
    block ∈ freeBlocks fat ↔ fat block = fatFree := by
  simp [freeBlocks]

@[simp] theorem mem_usedBlocks {fat : Fat} {block : BlockIndex} :
    block ∈ usedBlocks fat ↔ fat block ≠ fatFree := by
  simp [usedBlocks]

/-- The first free block; `none` is the out-of-range result `FS_N_BLOCKS`. -/
def allocBlock (fat : Fat) : Option BlockIndex :=
  (List.finRange fsNBlocks).find? (fun block => fat block = fatFree)

/-- Decreases along `free_chain`: each turn frees a block in use, unless it
stands on a free one, whose link is the stop value. -/
def walkMeasure (fat : Fat) (start : Nat) : Nat :=
  2 * (usedBlocks fat).card + if start < fsNBlocks ∧ start ≠ fatFree then 1 else 0

theorem walkMeasure_decreases {fat : Fat} {start : Nat} (inside : start < fsNBlocks)
    (notFree : start ≠ fatFree) :
    walkMeasure (Function.update fat ⟨start, inside⟩ fatFree) (fat ⟨start, inside⟩) <
      walkMeasure fat start := by
  by_cases free : fat ⟨start, inside⟩ = fatFree
  · have unchanged : Function.update fat ⟨start, inside⟩ fatFree = fat := by
      rw [← free]
      exact Function.update_eq_self _ _
    simp only [walkMeasure, unchanged, free]
    simp [inside, notFree]
  · have fewer : usedBlocks (Function.update fat ⟨start, inside⟩ fatFree) ⊂ usedBlocks fat := by
      refine (Finset.ssubset_iff_of_subset ?_).mpr ⟨⟨start, inside⟩, by simpa using free, by simp⟩
      intro block member
      rw [mem_usedBlocks] at member ⊢
      by_cases same : block = ⟨start, inside⟩
      · simp [same] at member
      · rwa [Function.update_of_ne same] at member
    have smaller := Finset.card_lt_card fewer
    simp only [walkMeasure, if_pos (And.intro inside notFree)]
    split <;> omega

def freeChain (fat : Fat) (start : Nat) : Fat :=
  if inside : start < fsNBlocks ∧ start ≠ fatEnd ∧ start ≠ fatFree then
    freeChain (Function.update fat ⟨start, inside.1⟩ fatFree) (fat ⟨start, inside.1⟩)
  else fat
termination_by walkMeasure fat start
decreasing_by exact walkMeasure_decreases inside.1 inside.2.2

/-- Every turn of the loops over a file's data takes at least one byte. -/
theorem sub_chunk_lt {left : Nat} (positive : 0 < left) : left - min left fsBlockSize < left := by
  have blockPositive : 0 < fsBlockSize := by decide
  omega

/-- The loop of `write_to_blocks` with `data` still to be written. `prev` is
`none` while it still holds `FAT_END`. -/
def writeLoop (disk : Disk) (first : Nat) (prev : Option BlockIndex) (data : List UInt8) :
    Disk × Nat :=
  if empty : data = [] then (disk, first)
  else
    match allocBlock disk.fat with
    | none => (disk, fsNBlocks)
    | some blk =>
        let fat := Function.update disk.fat blk fatEnd
        let fat := match prev with
          | none => fat
          | some prev => Function.update fat prev blk.val
        let first := if first = fatEnd then blk.val else first
        let chunk := min data.length fsBlockSize
        let block := (disk.blocks blk).write 0 (data.take chunk) (by
          simp only [List.length_take, chunk]
          omega)
        writeLoop { fat, blocks := Function.update disk.blocks blk block } first (some blk)
          (data.drop chunk)
termination_by data.length
decreasing_by
  rw [List.length_drop]
  exact sub_chunk_lt (List.length_pos_iff.mpr empty)

/-- The disk after one turn of the loop: `blk` is taken, filled with the next
chunk and linked behind `prev`. -/
def takeBlock (disk : Disk) (prev : Option BlockIndex) (blk : BlockIndex) (data : List UInt8) : Disk where
  fat := match prev with
    | none => Function.update disk.fat blk fatEnd
    | some prev => Function.update (Function.update disk.fat blk fatEnd) prev blk.val
  blocks := Function.update disk.blocks blk
    ((disk.blocks blk).write 0 (data.take (min data.length fsBlockSize)) (by
      simp only [List.length_take]
      omega))

/-- The index of the first block of a new chain that holds `data`, `FAT_END`
for no data, `FS_N_BLOCKS` when the blocks run out. -/
def writeToBlocks (disk : Disk) (data : List UInt8) : Disk × Nat :=
  if data = [] then (disk, fatEnd) else writeLoop disk fatEnd none data

/-- The bytes that following the table from `blk` on yields, `left` of them at
most: what every chain walk of the source reads. -/
def readChain (disk : Disk) (blk left : Nat) : List UInt8 :=
  if inside : blk < fsNBlocks ∧ 0 < left then
    let chunk := min left fsBlockSize
    (disk.blocks ⟨blk, inside.1⟩).bytes.take chunk ++
      readChain disk (disk.fat ⟨blk, inside.1⟩) (left - chunk)
  else []
termination_by left
decreasing_by exact sub_chunk_lt inside.2

/-- The walk of `fs_edit` and `fs_copy`, which copies the chain to `tmp + off`. -/
def copyChain {size : Nat} (disk : Disk) (tmp : Buffer size) (off blk left : Nat) :
    Option (Buffer size) :=
  if inside : blk < fsNBlocks ∧ 0 < left then
    let chunk := min left fsBlockSize
    (tmp.store off ((disk.blocks ⟨blk, inside.1⟩).bytes.take chunk)).bind fun tmp =>
      copyChain disk tmp (off + chunk) (disk.fat ⟨blk, inside.1⟩) (left - chunk)
  else some tmp
termination_by left
decreasing_by exact sub_chunk_lt inside.2

/-- One character of the walk of `fs_read`, re-indented after a newline. -/
def emitChar (c : UInt8) : List VgaCall :=
  .putchar c :: if c = newline then [.write (ascii "  ")] else []

/-- The walk of `fs_read`, which prints the chain. -/
def emitChain (disk : Disk) (blk left : Nat) : List VgaCall :=
  if inside : blk < fsNBlocks ∧ 0 < left then
    let chunk := min left fsBlockSize
    ((disk.blocks ⟨blk, inside.1⟩).bytes.take chunk).flatMap emitChar ++
      emitChain disk (disk.fat ⟨blk, inside.1⟩) (left - chunk)
  else []
termination_by left
decreasing_by exact sub_chunk_lt inside.2

end DugOS.Fs
