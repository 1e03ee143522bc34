import DugOS.Fs.Invariant

namespace DugOS.Fs

open Data

/-! What the string fields of an entry read back as. -/

namespace FileEntry

variable {entry : FileEntry} {name dir : CString}

theorem dirString_of_field (stored : entry.dir = field dir) (short : dir.chars.length < fsDirLen) :
    entry.dirString = dir.chars := by
  have terminated : 0 ∈ entry.dir.bytes := by
    rw [stored]
    exact (zero_mem_padded dir.noNul).mpr short
  rw [dirString, memory_drop, cstr_append_of_mem terminated, stored]
  exact cstr_padded_of_short dir.noNul short.le

theorem dirString_rename (entry : FileEntry) (renamed : Buffer fsNameLen) :
    ({ entry with name := renamed } : FileEntry).dirString = entry.dirString := by
  rw [dirString, dirString, memory_drop, memory_drop]

theorem nameString_of_short (stored : entry.name = field name) (short : name.chars.length < fsNameLen) :
    entry.nameString = name.chars := by
  have terminated : 0 ∈ entry.name.bytes := by
    rw [stored]
    exact (zero_mem_padded name.noNul).mpr short
  rw [nameString, memory, cstr_append_of_mem terminated, stored]
  exact cstr_padded_of_short name.noNul short.le

/-- A name that fills its field reads on into the directory behind it. -/
theorem nameString_of_long (stored : entry.name = field name) (long : fsNameLen ≤ name.chars.length) :
    entry.nameString = name.chars.take fsNameLen ++ entry.dirString := by
  have noNul : 0 ∉ name.chars.take fsNameLen := fun member => name.noNul (List.mem_of_mem_take member)
  have bytes : entry.name.bytes = name.chars.take fsNameLen := by
    rw [stored]
    exact padded_of_long long
  rw [dirString, memory_drop, nameString, memory, bytes, cstr_append noNul]

theorem nameString_eq_iff (stored : entry.name = field name) :
    entry.nameString = name.chars ↔
      name.chars.length < fsNameLen ∨ name.chars.drop fsNameLen = entry.dirString := by
  rcases Nat.lt_or_ge name.chars.length fsNameLen with short | long
  · simp [nameString_of_short stored short, short]
  · have split : name.chars.take fsNameLen ++ name.chars.drop fsNameLen = name.chars := List.take_append_drop ..
    rw [nameString_of_long stored long]
    nth_rewrite 2 [← split]
    rw [List.append_cancel_left_eq, eq_comm]
    simp [Nat.not_lt_of_le long]

theorem dirString_of_short (short : entry.dirString.length < fsDirLen) :
    entry.dirString = cstr entry.dir.bytes := by
  rw [dirString, memory_drop] at short ⊢
  by_cases terminated : 0 ∈ entry.dir.bytes
  · exact cstr_append_of_mem terminated
  · rw [cstr_append terminated, List.length_append, entry.dir.length_eq] at short
    omega

/-- Entries with the same bytes in both fields read the same, as long as the
directory ends within its field. -/
theorem strings_congr {other : FileEntry} (sameName : other.name = entry.name) (sameDir : other.dir = entry.dir)
    (short : entry.dirString.length < fsDirLen) :
    other.nameString = entry.nameString ∧ other.dirString = entry.dirString := by
  have terminated : 0 ∈ entry.dir.bytes := by
    by_contra absent
    rw [dirString_of_short short, cstr_of_noNul absent, entry.dir.length_eq] at short
    exact Nat.lt_irrefl _ short
  have dirs : other.dirString = entry.dirString := by
    rw [dirString_of_short short, dirString, memory_drop, sameDir, cstr_append_of_mem terminated]
  refine ⟨?_, dirs⟩
  rw [dirString, dirString, memory_drop, memory_drop] at dirs
  rw [nameString, nameString, memory, memory, sameName]
  by_cases ended : 0 ∈ entry.name.bytes
  · rw [cstr_append_of_mem ended, cstr_append_of_mem ended]
  · rw [cstr_append ended, cstr_append ended, dirs]

theorem named_of_fields (used : entry.used = true) (storedName : entry.name = field name)
    (storedDir : entry.dir = field dir) (shortName : name.chars.length < fsNameLen)
    (shortDir : dir.chars.length < fsDirLen) : entry.named name dir = true :=
  named_iff.mpr ⟨used, nameString_of_short storedName shortName, dirString_of_field storedDir shortDir⟩

end FileEntry

variable {files : FileIndex → FileEntry} {fresh : FileEntry} {name dir : CString} {idx : FileIndex}

/-- An entry that takes a name nobody had is the one found under it. -/
theorem findFile_update (absent : findFile files name dir = none) (named : fresh.named name dir = true) :
    findFile (Function.update files idx fresh) name dir = some idx := by
  apply findFile_unique (by simpa using named)
  intro j namedJ
  by_contra different
  rw [Function.update_of_ne different, FileEntry.named_iff] at namedJ
  exact findFile_none absent j namedJ

/-- The keys that type a content and end it. -/
def typedFile (lines : List (List UInt8)) : List UInt8 :=
  typedText lines ++ (terminator.chars ++ [newline])

/-- What is known after a file has been typed in under a short name. -/
structure Created (fs : FileSystem) (name dir : CString) (idx : FileIndex) (total : Nat)
    (after : FileSystem) : Prop where
  found : findFile after.files name dir = some idx
  size : (after.files idx).size = total
  firstFit : total ≠ 0 → ∃ block, allocBlock fs.fat = some block ∧ (after.files idx).firstBlock = block.val
  others : ∀ i, i ≠ idx → after.files i = fs.files i
  free : (freeBlocks after.fat).card + blocksFor total = (freeBlocks fs.fat).card

theorem FsStep.creates {fs : FileSystem} (lines : List (List UInt8)) (nonempty : name.chars ≠ [])
    (absent : findFile fs.files name dir = none) (slot : findFreeSlot fs.files = some idx)
    (shortName : name.chars.length < fsNameLen) (shortDir : dir.chars.length < fsDirLen)
    (verbatim : ∀ text ∈ lines, Verbatim text) (room : (typedText lines).length ≤ tmpSize)
    (enough : blocksFor (typedText lines).length ≤ (freeBlocks fs.fat).card) :
    ∃ after, FsStep fs ⟨.write name dir, typedFile lines, .done⟩ after ∧
      Created fs name dir idx (typedText lines).length after := by
  obtain ⟨written, write, success, first, chain, stored, files⟩ :=
    fsWrite_creates lines nonempty absent slot verbatim room enough
  refine ⟨written.fs, ⟨written, write, rfl, success⟩, ?_⟩
  constructor
  case found =>
    rw [files]
    exact findFile_update absent (FileEntry.named_of_fields rfl rfl rfl shortName shortDir)
  case size => simp [files]
  case firstFit =>
    intro positive
    have linked := stored.linked
    cases chain with
    | nil => exact absurd (blocksFor_eq_zero.mp stored.length.symm) positive
    | cons head rest => exact ⟨head, stored.firstFit head rfl, by simpa [files] using linked.1⟩
  case others =>
    intro i different
    simp [files, different]
  case free => exact stored.freeBlocks_card

section Creation

/-- The slot that is found under `name`, and the only one in use with the same
bytes in its fields. -/
structure FoundAs (files : FileIndex → FileEntry) (name dir : CString) (idx : FileIndex) : Prop where
  found : findFile files name dir = some idx
  only : ∀ j, j ≠ idx → (files j).used = true →
    ¬ ((files j).name = (files idx).name ∧ (files j).dir = (files idx).dir)

/-- The command creates the file `name` in the slot `idx`. -/
def FsOp.CreatesIn (fs : FileSystem) (name dir : CString) (idx : FileIndex) : FsOp → Prop
  | .write given givenDir => given = name ∧ givenDir = dir ∧ findFile fs.files name dir = none ∧
      findFreeSlot fs.files = some idx
  | .copy _ given givenDir => given = name ∧ givenDir = dir ∧ findFreeSlot fs.files = some idx
  | .rename oldname given givenDir => given = name ∧ givenDir = dir ∧ findFile fs.files oldname dir = some idx
  | _ => False

variable {fs after : FileSystem} {keys : List UInt8} {op : FsOp}

theorem foundAs_update_iff (absent : findFile files name dir = none) (used : fresh.used = true)
    (stored : fresh.name = field name) (inDir : fresh.dirString = dir.chars)
    (short : dir.chars.length < fsDirLen) :
    FoundAs (Function.update files idx fresh) name dir idx ↔
      name.chars.length < fsNameLen ∨ name.chars.drop fsNameLen = dir.chars := by
  have reads := FileEntry.nameString_eq_iff stored
  rw [inDir] at reads
  rw [← reads]
  constructor
  · intro this
    have named := (findFile_some this.found).2.1
    rwa [Function.update_self] at named
  · intro named
    constructor
    case found => exact findFile_update absent (FileEntry.named_iff.mpr ⟨used, named, inDir⟩)
    case only =>
      intro j different usedJ same
      rw [Function.update_of_ne different] at usedJ same
      rw [Function.update_self] at same
      obtain ⟨sameName, sameDir⟩ := FileEntry.strings_congr same.1 same.2 (inDir ▸ short)
      exact findFile_none absent j ⟨usedJ, sameName.trans named, sameDir.trans inDir⟩

/-- A file that was created is found under its name, and shadowed by no other,
exactly when the name is short or when what does not fit the field of the name
is spelled by the directory behind it. -/
theorem foundAs_of_step (step : FsStep fs ⟨op, keys, .done⟩ after) (creates : op.CreatesIn fs name dir idx)
    (short : dir.chars.length ≤ 63) :
    FoundAs after.files name dir idx ↔ name.chars.length ≤ 63 ∨ name.chars.drop 64 = dir.chars := by
  have shortDir : dir.chars.length < fsDirLen := Nat.lt_succ_of_le short
  have effect := step.effect
  rw [← Nat.lt_succ_iff]
  cases effect with
  | refused _ failed => exact absurd rfl failed
  | printed => exact creates.elim
  | overwritten _ found =>
      obtain ⟨rfl, rfl, absent, _⟩ := creates
      cases found.symm.trans absent
  | created _ absent slot _ _ files =>
      obtain ⟨rfl, rfl, _, chosen⟩ := creates
      cases slot.symm.trans chosen
      rw [files]
      exact foundAs_update_iff absent rfl rfl (FileEntry.dirString_of_field rfl shortDir) shortDir
  | appended => exact creates.elim
  | deleted => exact creates.elim
  | renamed _ found fresh _ files =>
      obtain ⟨rfl, rfl, chosen⟩ := creates
      cases found.symm.trans chosen
      obtain ⟨used, _, inDir⟩ := findFile_some found
      rw [files]
      exact foundAs_update_iff fresh used rfl ((FileEntry.dirString_rename ..).trans inDir) shortDir
  | copied _ _ fresh slot _ _ files =>
      obtain ⟨rfl, rfl, chosen⟩ := creates
      cases slot.symm.trans chosen
      rw [files]
      exact foundAs_update_iff fresh rfl rfl (FileEntry.dirString_of_field rfl shortDir) shortDir

def longName : CString :=
  ⟨List.replicate 64 97, by decide⟩

/-- A file written under a name of 64 characters cannot be found again. -/
theorem long_name_not_found : ∃ after,
    FsStep (fsInit bss) ⟨.write longName rootDir, typedFile [[120]], .done⟩ after ∧
    (after.files 0).used = true ∧ findFile after.files longName rootDir = none ∧
    ¬ FoundAs after.files longName rootDir 0 := by
  have absent := findFile_fsInit bss longName rootDir
  obtain ⟨written, write, success, first, chain, stored, files⟩ := fsWrite_creates [[120]] (by decide) absent
    (findFreeSlot_fsInit bss) (by simpa using sample_verbatim) (by decide) (by rw [freeBlocks_fsInit]; decide)
  have missing : findFile written.fs.files longName rootDir = none := by
    apply List.find?_eq_none.mpr
    intro i _ named
    obtain ⟨used, sameName, sameDir⟩ := FileEntry.named_iff.mp named
    rw [files] at used sameName sameDir
    by_cases isZero : i = 0
    · subst isZero
      rw [Function.update_self] at sameName sameDir
      rw [FileEntry.nameString_eq_iff rfl, sameDir] at sameName
      exact absurd sameName (by decide)
    · simp [isZero, fsInit] at used
  refine ⟨written.fs, ⟨written, write, rfl, success⟩, by simp [files], missing, ?_⟩
  intro this
  cases missing.symm.trans this.found

theorem sample_found : ∃ after, FsStep (fsInit bss) ⟨.write sampleName rootDir, typedFile [[120]], .done⟩ after ∧
    FoundAs after.files sampleName rootDir 0 := by
  obtain ⟨after, step, _⟩ := FsStep.creates [[120]] (by decide) (findFile_fsInit bss sampleName rootDir)
    (findFreeSlot_fsInit bss) (by decide) (by decide) (by simpa using sample_verbatim) (by decide)
    (by rw [freeBlocks_fsInit]; decide)
  have creates : (FsOp.write sampleName rootDir).CreatesIn (fsInit bss) sampleName rootDir 0 :=
    ⟨rfl, rfl, findFile_fsInit bss sampleName rootDir, findFreeSlot_fsInit bss⟩
  exact ⟨after, step, (foundAs_of_step step creates (by decide)).mpr (.inl (by decide))⟩

end Creation

end DugOS.Fs
