import DugOS.Data.SlotMap
import DugOS.Fs.Names
import Mathlib.Data.Set.Card

namespace DugOS

open Data

/-! The purpose of the file system: a finite map from directory and name to
bytes, and what each command is to do to it. The map of a concrete state reads
the bytes of every used entry along its chain. -/

/-- The question of a command is answered with yes. -/
def Agreed (keys : List UInt8) : Prop :=
  ∃ typed, readlineLoop (fun _ => true) (.zeros 4) 0 keys = .ok typed ∧ Fs.confirmed typed.buf = true

namespace Fs

structure Key where
  dir : List UInt8
  name : List UInt8
deriving DecidableEq

abbrev FileMap := Key → Option (List UInt8)

def keyOf (name dir : CString) : Key :=
  ⟨dir.chars, name.chars⟩

/-- The map after a command that succeeds while `typed` is accumulated. -/
def FsOp.apply (map : FileMap) (typed : List UInt8) : FsOp → FileMap
  | .write name dir => Function.update map (keyOf name dir) (some typed)
  | .read _ _ => map
  | .edit name dir => Function.update map (keyOf name dir) ((map (keyOf name dir)).map (· ++ typed))
  | .delete name dir => Function.update map (keyOf name dir) none
  | .rename oldname newname dir =>
      Function.update (Function.update map (keyOf oldname dir) none) (keyOf newname dir)
        (map (keyOf oldname dir))
  | .copy src dst dir => Function.update map (keyOf dst dir) (map (keyOf src dir))

/-- The map after a command that finds the disk full. -/
def FsOp.spoil (map : FileMap) : FsOp → FileMap
  | .write name dir => Function.update map (keyOf name dir) none
  | .edit name dir => Function.update map (keyOf name dir) (some [])
  | _ => map

/-- How many blocks the new content takes. -/
def FsOp.needs (map : FileMap) (typed : List UInt8) : FsOp → Nat
  | .write _ _ => blocksFor typed.length
  | .edit name dir => blocksFor (((map (keyOf name dir)).getD []).length + typed.length)
  | .copy src _ dir => blocksFor ((map (keyOf src dir)).getD []).length
  | _ => 0

/-- There may be another file. -/
def Roomy (map : FileMap) : Prop :=
  {key | map key ≠ none}.ncard < fsMaxFiles

/-- Nothing stands against the command: it has a name, the file that it works on, a name
that is not taken for a file that it moves or copies, room for a file that it
makes, and the consent of the user. -/
def FsOp.Granted (map : FileMap) (keys : List UInt8) : FsOp → Prop
  | .write name dir => name.chars ≠ [] ∧ ((∃ value, map (keyOf name dir) = some value) ∨ Roomy map)
  | .read name dir => name.chars ≠ [] ∧ ∃ value, map (keyOf name dir) = some value
  | .edit name dir => name.chars ≠ [] ∧ ∃ value, map (keyOf name dir) = some value
  | .delete name dir => name.chars ≠ [] ∧ (∃ value, map (keyOf name dir) = some value) ∧ Agreed keys
  | .rename oldname newname dir => (oldname.chars ≠ [] ∧ newname.chars ≠ []) ∧
      (∃ value, map (keyOf oldname dir) = some value) ∧ map (keyOf newname dir) = none
  | .copy src dst dir => (src.chars ≠ [] ∧ dst.chars ≠ []) ∧ (∃ value, map (keyOf src dir) = some value) ∧
      map (keyOf dst dir) = none ∧ Roomy map

/-- The keys whose value a command may change. -/
def FsOp.Touches (key : Key) : FsOp → Prop
  | .write name dir => key = keyOf name dir
  | .read _ _ => False
  | .edit name dir => key = keyOf name dir
  | .delete name dir => key = keyOf name dir
  | .rename oldname newname dir => key = keyOf oldname dir ∨ key = keyOf newname dir
  | .copy _ dst dir => key = keyOf dst dir

/-- A name and a directory within the limits of `fs.h`. -/
structure Fits (name dir : CString) : Prop where
  nonempty : 1 ≤ name.chars.length
  name : name.chars.length ≤ 63
  dir : dir.chars.length ≤ 63

def FsOp.Within : FsOp → Prop
  | .write name dir => Fits name dir
  | .read name dir => Fits name dir
  | .edit name dir => Fits name dir
  | .delete name dir => Fits name dir
  | .rename oldname newname dir => Fits oldname dir ∧ Fits newname dir
  | .copy src dst dir => Fits src dir ∧ Fits dst dir

/-- The bytes the input loop of the command accumulated. -/
def FsOp.Accumulates (fs : FileSystem) (keys typed : List UInt8) : FsOp → Prop
  | .write _ _ => ∃ input, collectLines (.zeros 256) fs.writeTmp 0 keys = .ok input ∧ typed = input.bytes
  | .edit name dir => ∃ idx tmp input, findFile fs.files name dir = some idx ∧
      copyChain fs.toDisk fs.editTmp 0 (fs.files idx).firstBlock (fs.files idx).size = some tmp ∧
      collectLines (.zeros 256) tmp (fs.files idx).size keys = .ok input ∧
      typed = input.accumulated (fs.files idx).size
  | _ => typed = []

/-- What `fs_read` shows of a file: every newline is followed by an indent. -/
def fileScreen (name : CString) (value : List UInt8) : List VgaCall :=
  colored .lightCyan [.write (ascii "  ---- "), .write name.memory, .writeln (ascii " ----")] ++
    (if value = [] then [.writeln (ascii "  (empty file)")]
      else .write (ascii "  ") :: value.flatMap emitChar ++ [.putchar newline]) ++
    colored .lightCyan [.writeln (ascii "  ---- EOF ----")]

section Abstraction

def FileEntry.key (entry : FileEntry) : Key :=
  ⟨entry.dirString, entry.nameString⟩

def slot (disk : Disk) (entry : FileEntry) : Option (Key × List UInt8) :=
  if entry.used then some (entry.key, content disk entry) else none

def slots (fs : FileSystem) (i : FileIndex) : Option (Key × List UInt8) :=
  slot fs.toDisk (fs.files i)

/-- The map that the used entries make up. -/
def fileMap (fs : FileSystem) : FileMap :=
  lookup (List.finRange fsMaxFiles) (slots fs)

/-- No two used entries have the same directory and name. -/
def UniqueKeys (fs : FileSystem) : Prop :=
  ∀ i j, (fs.files i).used = true → (fs.files j).used = true →
    (fs.files i).dirString = (fs.files j).dirString →
    (fs.files i).nameString = (fs.files j).nameString → i = j

variable {fs after : FileSystem} {disk : Disk} {entry fresh : FileEntry} {idx : FileIndex} {name dir : CString}

theorem slot_of_used (used : entry.used = true) : slot disk entry = some (entry.key, content disk entry) :=
  if_pos used

theorem slot_of_unused (unused : entry.used = false) : slot disk entry = none := by
  simp [slot, unused]

theorem slots_eq_some {i : FileIndex} {key : Key} {value : List UInt8} :
    slots fs i = some (key, value) ↔
      (fs.files i).used = true ∧ (fs.files i).key = key ∧ content fs.toDisk (fs.files i) = value := by
  cases used : (fs.files i).used with
  | false => simp [slots, slot, used]
  | true => simp [slots, slot, used]

theorem unique_slots_iff : Unique (slots fs) ↔ UniqueKeys fs := by
  constructor
  · intro unique i j usedI usedJ sameDir sameName
    apply unique i j (fs.files i).key (content fs.toDisk (fs.files i)) (content fs.toDisk (fs.files j))
    · exact slots_eq_some.mpr ⟨usedI, rfl, rfl⟩
    · exact slots_eq_some.mpr ⟨usedJ, by rw [FileEntry.key, FileEntry.key, sameDir, sameName], rfl⟩
  · intro unique i j key value other storedI storedJ
    obtain ⟨usedI, keyI, _⟩ := slots_eq_some.mp storedI
    obtain ⟨usedJ, keyJ, _⟩ := slots_eq_some.mp storedJ
    have same : (fs.files i).key = (fs.files j).key := keyI.trans keyJ.symm
    exact unique i j usedI usedJ (congrArg Key.dir same) (congrArg Key.name same)

/-- Under unique keys, the map holds what the used entries hold. -/
theorem fileMap_represents (unique : Unique (slots fs)) : Represents (slots fs) (fileMap fs) :=
  lookup_represents List.mem_finRange unique

theorem findFile_slots (found : findFile fs.files name dir = some idx) :
    slots fs idx = some (keyOf name dir, content fs.toDisk (fs.files idx)) := by
  obtain ⟨used, sameName, sameDir⟩ := findFile_some found
  exact slots_eq_some.mpr ⟨used, by rw [FileEntry.key, sameName, sameDir, keyOf], rfl⟩

theorem findFile_absent (unique : Unique (slots fs)) (absent : findFile fs.files name dir = none) :
    fileMap fs (keyOf name dir) = none := by
  apply (fileMap_represents unique).map_eq_none.mpr
  intro i value stored
  obtain ⟨used, sameKey, _⟩ := slots_eq_some.mp stored
  exact findFile_none absent i ⟨used, congrArg Key.name sameKey, congrArg Key.dir sameKey⟩

theorem findFile_value (unique : Unique (slots fs)) (found : findFile fs.files name dir = some idx) :
    fileMap fs (keyOf name dir) = some (content fs.toDisk (fs.files idx)) :=
  (fileMap_represents unique (keyOf name dir) _).mpr ⟨idx, findFile_slots found⟩

theorem findFile_iff (unique : Unique (slots fs)) :
    (∃ idx, findFile fs.files name dir = some idx) ↔ ∃ value, fileMap fs (keyOf name dir) = some value := by
  constructor
  · intro held
    obtain ⟨idx, found⟩ := held
    exact ⟨_, findFile_value unique found⟩
  · intro held
    obtain ⟨value, held⟩ := held
    cases found : findFile fs.files name dir with
    | none => cases held.symm.trans (findFile_absent unique found)
    | some idx => exact ⟨idx, rfl⟩

theorem findFile_none_iff (unique : Unique (slots fs)) :
    findFile fs.files name dir = none ↔ fileMap fs (keyOf name dir) = none := by
  rw [Option.eq_none_iff_forall_ne_some, Option.eq_none_iff_forall_ne_some]
  simpa using (findFile_iff unique).not

/-- The map has a key for each used entry. -/
theorem keys_image (unique : Unique (slots fs)) :
    {key | fileMap fs key ≠ none} = (fun i => (fs.files i).key) '' {i | (fs.files i).used = true} := by
  ext key
  rw [Set.mem_ofPred_eq, Option.ne_none_iff_exists']
  constructor
  · intro held
    obtain ⟨value, held⟩ := held
    obtain ⟨i, stored⟩ := (fileMap_represents unique key value).mp held
    obtain ⟨used, sameKey, _⟩ := slots_eq_some.mp stored
    exact ⟨i, used, sameKey⟩
  · rintro ⟨i, used, rfl⟩
    exact ⟨_, (fileMap_represents unique _ _).mpr ⟨i, slots_eq_some.mpr ⟨used, rfl, rfl⟩⟩⟩

theorem findFreeSlot_iff (unique : Unique (slots fs)) :
    (∃ slot, findFreeSlot fs.files = some slot) ↔ Roomy (fileMap fs) := by
  have single : Set.InjOn (fun i => (fs.files i).key) {i | (fs.files i).used = true} := by
    intro i usedI j usedJ same
    exact unique_slots_iff.mp unique i j usedI usedJ (congrArg Key.dir same) (congrArg Key.name same)
  rw [Roomy, keys_image unique, single.ncard_image]
  have all : Fintype.card FileIndex = fsMaxFiles := Fintype.card_fin _
  rw [← all, ← Nat.card_eq_fintype_card, ← Set.ncard_univ, ← Option.ne_none_iff_exists', findFreeSlot, Ne,
    List.find?_eq_none]
  constructor
  · intro free
    refine Set.ncard_lt_ncard ?_ Set.finite_univ
    rw [Set.ssubset_univ_iff]
    intro full
    apply free
    intro i _
    simpa using Set.eq_univ_iff_forall.mp full i
  · intro few full
    have whole : {i | (fs.files i).used = true} = Set.univ := by
      ext i
      simpa using full i (List.mem_finRange i)
    rw [whole] at few
    exact lt_irrefl _ few

end Abstraction

end Fs

end DugOS
