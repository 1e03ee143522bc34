import DugOS.Fs.Disk
import Mathlib.Algebra.Group.Nat.Defs

namespace DugOS.Fs

open Data

/-! The file table of `fs.c` and the lookups in it. -/

abbrev fsMaxFiles : Nat := 32
abbrev fsNameLen : Nat := 64
abbrev fsDirLen : Nat := 64

/-- `sizeof(tmp)` in `fs_write`, `fs_edit` and `fs_copy`. -/
abbrev tmpSize : Nat := fsNBlocks * fsBlockSize

abbrev FileIndex := Fin fsMaxFiles

structure FileEntry where
  name : Buffer fsNameLen
  dir : Buffer fsDirLen
  firstBlock : Nat
  size : Nat
  used : Bool

/-- The static data of `fs.c`, with the static buffers of its functions. -/
structure FileSystem extends Disk where
  files : FileIndex → FileEntry
  writeTmp : Buffer tmpSize
  editTmp : Buffer tmpSize
  copyTmp : Buffer tmpSize

def littleEndian (count value : Nat) : List UInt8 :=
  (List.range count).map (fun position => UInt8.ofNat (value / 256 ^ position))

namespace FileEntry

/-- The entry as it lies in memory. `dir` follows `name` directly, and zero
padding aligns `size` and ends the structure. -/
def memory (entry : FileEntry) : List UInt8 :=
  entry.name.bytes ++ (entry.dir.bytes ++ (littleEndian 2 entry.firstBlock ++ [0, 0] ++
    littleEndian 4 entry.size ++ [if entry.used then 1 else 0, 0, 0, 0]))

/-- What reading the `name` field as a string yields. Without a zero byte in
the field, reading goes on into the fields behind it. -/
def nameString (entry : FileEntry) : List UInt8 :=
  cstr entry.memory

def dirString (entry : FileEntry) : List UInt8 :=
  cstr (entry.memory.drop fsNameLen)

theorem memory_drop (entry : FileEntry) :
    entry.memory.drop fsNameLen = entry.dir.bytes ++ (littleEndian 2 entry.firstBlock ++ [0, 0] ++
      littleEndian 4 entry.size ++ [if entry.used then 1 else 0, 0, 0, 0]) := by
  rw [memory]
  exact List.drop_left' entry.name.length_eq

theorem zero_mem_memory_drop (entry : FileEntry) : 0 ∈ entry.memory.drop fsNameLen := by
  rw [memory_drop]
  simp

theorem zero_mem_memory (entry : FileEntry) : 0 ∈ entry.memory :=
  List.mem_of_mem_drop entry.zero_mem_memory_drop

/-- The test of `find_file`. -/
def named (entry : FileEntry) (name dir : CString) : Bool :=
  entry.used && kstrcmp entry.memory name.memory == some 0 &&
    kstrcmp (entry.memory.drop fsNameLen) dir.memory == some 0

theorem named_iff {entry : FileEntry} {name dir : CString} :
    entry.named name dir = true ↔
      entry.used = true ∧ entry.nameString = name.chars ∧ entry.dirString = dir.chars := by
  simp only [named, Bool.and_eq_true, beq_iff_eq, and_assoc,
    kstrcmp_eq_zero entry.zero_mem_memory name.zero_mem_memory,
    kstrcmp_eq_zero entry.zero_mem_memory_drop dir.zero_mem_memory, CString.cstr_memory]
  rfl

end FileEntry

/-- `none` is the result `FS_MAX_FILES`. -/
def findFile (files : FileIndex → FileEntry) (name dir : CString) : Option FileIndex :=
  (List.finRange fsMaxFiles).find? (fun i => (files i).named name dir)

def findFreeSlot (files : FileIndex → FileEntry) : Option FileIndex :=
  (List.finRange fsMaxFiles).find? (fun i => !(files i).used)

def fsDirEmpty (files : FileIndex → FileEntry) (dir : CString) : Bool :=
  (List.finRange fsMaxFiles).all fun i =>
    !((files i).used && kstrcmp ((files i).memory.drop fsNameLen) dir.memory == some 0)

/-- Only the table and the three fields of every entry are reset. -/
def fsInit (fs : FileSystem) : FileSystem :=
  { fs with
    fat := fun _ => fatFree
    files := fun i => { fs.files i with used := false, size := 0, firstBlock := fatEnd } }

variable {files : FileIndex → FileEntry} {name dir : CString} {i j : FileIndex}

theorem findFile_some (found : findFile files name dir = some i) :
    (files i).used = true ∧ (files i).nameString = name.chars ∧ (files i).dirString = dir.chars :=
  FileEntry.named_iff.mp (List.find?_some (p := fun i => (files i).named name dir) found)

theorem findFile_none (absent : findFile files name dir = none) (i : FileIndex) :
    ¬ ((files i).used = true ∧ (files i).nameString = name.chars ∧ (files i).dirString = dir.chars) := by
  have missing := List.find?_eq_none.mp absent i (List.mem_finRange i)
  rwa [FileEntry.named_iff] at missing

theorem findFile_unique (found : (files i).named name dir = true)
    (only : ∀ j, (files j).named name dir = true → j = i) : findFile files name dir = some i := by
  cases result : findFile files name dir with
  | none => exact absurd (FileEntry.named_iff.mp found) (findFile_none result i)
  | some j => rw [only j (List.find?_some (p := fun i => (files i).named name dir) result)]

theorem findFreeSlot_some (found : findFreeSlot files = some i) : (files i).used = false := by
  simpa using List.find?_some found

theorem fsDirEmpty_iff :
    fsDirEmpty files dir = true ↔ ∀ i, (files i).used = true → (files i).dirString ≠ dir.chars := by
  simp only [fsDirEmpty, List.all_eq_true, List.mem_finRange, forall_const, Bool.not_and,
    Bool.or_eq_true, Bool.not_eq_true', beq_eq_false_iff_ne, ne_eq,
    kstrcmp_eq_zero (files _).zero_mem_memory_drop dir.zero_mem_memory, CString.cstr_memory]
  refine forall_congr' fun i => ?_
  cases (files i).used <;> simp [FileEntry.dirString]

end DugOS.Fs
