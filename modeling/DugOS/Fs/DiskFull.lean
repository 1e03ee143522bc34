import DugOS.Fs.Leak

namespace DugOS.Fs

open Data

/-! What a command that ends in a full disk leaves behind. `fs_write` and
`fs_edit` release the old content before they know that the new one fits, and
`write_to_blocks` keeps the blocks it took before it gave up. -/

/-- The file `name` is still entry `idx`, with the size and the bytes it had. -/
structure FileKept (before after : FileSystem) (name dir : CString) (idx : FileIndex) : Prop where
  found : findFile after.files name dir = some idx
  size : (after.files idx).size = (before.files idx).size
  bytes : content after.toDisk (after.files idx) = content before.toDisk (before.files idx)

/-- The used entries, their chains and their bytes are what they were. -/
structure EntriesKept (before after : FileSystem) : Prop where
  used : ∀ i, (after.files i).used = (before.files i).used
  entry : ∀ i, (before.files i).used = true → after.files i = before.files i
  chain : ∀ i cells, (before.files i).used = true → FatChain before.fat (before.files i).firstBlock cells →
    FatChain after.fat (after.files i).firstBlock cells
  bytes : ∀ i, (before.files i).used = true →
    content after.toDisk (after.files i) = content before.toDisk (before.files i)

variable {fs after boot : FileSystem} {name dir src dst : CString} {idx : FileIndex} {keys data : List UInt8}
  {op : FsOp} {chain : FileIndex → List BlockIndex} {trace : List (Transition FileSystem FsEvent)}
  {disk : Disk}

section Overwriting

theorem Effect.fileKept_iff (effect : Effect fs keys op .diskFull after) (layout : Layout fs.fat fs.files chain)
    (existing : findFile fs.files name dir = some idx) (overwrites : op = .write name dir ∨ op = .edit name dir) :
    FileKept fs after name dir idx ↔ op = .edit name dir ∧ (fs.files idx).size = 0 := by
  cases effect with
  | refused _ _ notFull => exact absurd rfl notFull
  | overwriteFailed _ found _ _ files =>
      obtain ⟨rfl, rfl⟩ : _ = name ∧ _ = dir := by simpa using overwrites
      cases existing.symm.trans found
      constructor
      · intro kept
        have used := (findFile_some kept.found).1
        simp [files] at used
      · simp
  | createFailed _ absent =>
      obtain ⟨rfl, rfl⟩ : _ = name ∧ _ = dir := by simpa using overwrites
      cases existing.symm.trans absent
  | appendFailed _ found _ _ _ files =>
      obtain ⟨rfl, rfl⟩ : _ = name ∧ _ = dir := by simpa using overwrites
      cases existing.symm.trans found
      constructor
      · intro kept
        have size := kept.size
        simp only [files, Function.update_self] at size
        exact ⟨rfl, size.symm⟩
      · intro given
        obtain ⟨_, empty⟩ := given
        have ended := (layout.owned idx (findFile_some found).1).empty_iff.mpr empty
        -- an empty entry already was what the failed edit makes of it
        have same : after.files = fs.files := by
          rw [files, Function.update_eq_self_iff]
          rw [← ended, ← empty]
        refine ⟨by rw [same, found], by rw [same], ?_⟩
        rw [same, content, content, empty, readChain_nil (by simp), readChain_nil (by simp)]
  | copyFailed => simp at overwrites

/-- When overwriting or appending ends in a full disk, the old content is lost,
except that there is none to lose in an empty file that is appended to. -/
theorem fileKept_of_run (run : Run FsStep (fsInit boot) trace fs)
    (existing : findFile fs.files name dir = some idx) (overwrites : op = .write name dir ∨ op = .edit name dir)
    (step : FsStep fs ⟨op, keys, .diskFull⟩ after) :
    FileKept fs after name dir idx ↔ op = .edit name dir ∧ (fs.files idx).size = 0 := by
  obtain ⟨chain, layout⟩ := valid_of_run run
  exact step.effect.fileKept_iff layout existing overwrites

end Overwriting

section Creating

/-- The command creates a file: `fs_copy`, or `fs_write` of a name that is not
taken. -/
def FsOp.Creates (fs : FileSystem) : FsOp → Prop
  | .copy _ _ _ => True
  | .write name dir => findFile fs.files name dir = none
  | _ => False

theorem Exhausted.freeBlocks_eq_iff (exhausted : Exhausted fs.toDisk data disk) :
    freeBlocks disk.fat = freeBlocks fs.fat ↔ ∀ block, fs.fat block ≠ fatFree := by
  rw [freeBlocks_eq_empty exhausted.full]
  constructor
  · intro same block free
    have member : block ∈ freeBlocks fs.fat := mem_freeBlocks.mpr free
    simp [← same] at member
  · intro full
    rw [freeBlocks_eq_empty full]

theorem Layout.entriesKept (layout : Layout fs.fat fs.files chain)
    (exhausted : Exhausted fs.toDisk data after.toDisk)
    (used : ∀ i, (after.files i).used = (fs.files i).used)
    (entry : ∀ i, (fs.files i).used = true → after.files i = fs.files i) : EntriesKept fs after := by
  refine ⟨used, entry, ?_, ?_⟩
  · intro i cells usedI linked
    rw [entry i usedI]
    have owned := layout.owned i usedI
    rw [owned.linked.unique linked] at owned
    exact linked.frame (fun block member => exhausted.sameFat block (owned.used block member))
  · intro i usedI
    rw [entry i usedI]
    exact layout.content_exhaust exhausted usedI

theorem Effect.entriesKept (effect : Effect fs keys op .diskFull after) (layout : Layout fs.fat fs.files chain)
    (creates : op.Creates fs) :
    EntriesKept fs after ∧ (freeBlocks after.fat = freeBlocks fs.fat ↔ ∀ block, fs.fat block ≠ fatFree) := by
  cases effect with
  | refused _ _ notFull => exact absurd rfl notFull
  | overwriteFailed _ found => cases found.symm.trans creates
  | createFailed _ _ slot _ exhausted files =>
      have unused := findFreeSlot_some slot
      refine ⟨layout.entriesKept exhausted ?_ ?_, exhausted.freeBlocks_eq_iff⟩
      · intro i
        rw [files, Function.update_apply]
        split
        · rename_i same
          rw [same, unused]
        · rfl
      · intro i used
        rw [files, Function.update_of_ne]
        intro same
        subst same
        simp [unused] at used
  | appendFailed => exact creates.elim
  | copyFailed _ _ _ _ _ exhausted files =>
      exact ⟨layout.entriesKept exhausted (by simp [files]) (by simp [files]), exhausted.freeBlocks_eq_iff⟩

/-- Creating a file on a disk that turns out to be too full changes no file.
The blocks taken on the way stay taken, so that the free blocks are the same
only when there were none. -/
theorem freeBlocks_kept_of_run (run : Run FsStep (fsInit boot) trace fs)
    (creates : op.Creates fs)
    (step : FsStep fs ⟨op, keys, .diskFull⟩ after) :
    (freeBlocks after.fat = freeBlocks fs.fat ∧ EntriesKept fs after ↔ ∀ block, fs.fat block ≠ fatFree) ∧
      EntriesKept fs after := by
  obtain ⟨chain, layout⟩ := valid_of_run run
  obtain ⟨kept, exactly⟩ := step.effect.entriesKept layout creates
  exact ⟨by rw [and_iff_left kept, exactly], kept⟩

end Creating

section Returning

variable {lines : List (List UInt8)}

theorem fsWrite_overwrites_full (nonempty : name.chars ≠ []) (found : findFile fs.files name dir = some idx)
    (verbatim : ∀ text ∈ lines, Verbatim text) (room : (typedText lines).length ≤ tmpSize)
    (short : (freeBlocks (released fs idx).fat).card < blocksFor (typedText lines).length) :
    ∃ after, FsStep fs ⟨.write name dir, typedFile lines, .diskFull⟩ after := by
  obtain ⟨input, collected, -, spec⟩ := collectLines_verbatim (.zeros 256) fs.writeTmp 0 []
    verbatim (by simpa using room)
  have bytes : input.bytes = typedText lines := by simpa [Input.bytes] using spec.bytes
  obtain ⟨outcome, run⟩ := fsWrite_returns nonempty found collected
  have effect := fsWrite_effect run
  refine ⟨outcome.fs, outcome, run, rfl, ?_⟩
  generalize outcome.report = report at effect ⊢
  cases effect with
  | refused idle => exact absurd ⟨nonempty, .inl ⟨idx, found⟩⟩ idle
  | overwritten _ again collectedAgain stored =>
      cases found.symm.trans again
      cases collected.symm.trans collectedAgain
      rw [← bytes] at short
      exact absurd stored.enough (Nat.not_le_of_lt short)
  | overwriteFailed => rfl
  | created _ absent => cases found.symm.trans absent
  | createFailed => rfl

theorem fsEdit_appends_full (layout : Layout fs.fat fs.files chain) (nonempty : name.chars ≠ [])
    (found : findFile fs.files name dir = some idx) (verbatim : ∀ text ∈ lines, Verbatim text)
    (room : (fs.files idx).size + (typedText lines).length ≤ tmpSize)
    (short : (freeBlocks (released fs idx).fat).card < blocksFor ((fs.files idx).size + (typedText lines).length)) :
    ∃ after, FsStep fs ⟨.edit name dir, typedFile lines, .diskFull⟩ after := by
  have owned := layout.owned idx (findFile_some found).1
  obtain ⟨tmp, copied, _⟩ := owned.copyChain_exists fs.editTmp
  obtain ⟨input, collected, -, spec⟩ := collectLines_verbatim (.zeros 256) tmp (fs.files idx).size []
    verbatim room
  obtain ⟨outcome, run⟩ := fsEdit_returns nonempty found copied collected
  have effect := fsEdit_effect run
  refine ⟨outcome.fs, outcome, run, rfl, ?_⟩
  generalize outcome.report = report at effect ⊢
  cases effect with
  | refused idle => exact absurd ⟨nonempty, idx, found⟩ idle
  | appended _ again copiedAgain collectedAgain stored =>
      cases found.symm.trans again
      cases copied.symm.trans copiedAgain
      cases collected.symm.trans collectedAgain
      have enough := stored.enough
      rw [spec.bytes_length, spec.total_eq] at enough
      exact absurd enough (Nat.not_le_of_lt short)
  | appendFailed => rfl

theorem fsCopy_full {slot : FileIndex} (keys : List UInt8) (layout : Layout fs.fat fs.files chain)
    (givenSrc : src.chars ≠ []) (givenDst : dst.chars ≠ []) (found : findFile fs.files src dir = some idx)
    (absent : findFile fs.files dst dir = none) (free : findFreeSlot fs.files = some slot)
    (short : (freeBlocks fs.fat).card < blocksFor (fs.files idx).size) :
    ∃ after, FsStep fs ⟨.copy src dst dir, keys, .diskFull⟩ after := by
  have owned := layout.owned idx (findFile_some found).1
  obtain ⟨tmp, copied, _⟩ := owned.copyChain_exists fs.copyTmp
  obtain ⟨outcome, run, reported⟩ := fsCopy_returns keys givenSrc givenDst found absent free copied
  have effect := fsCopy_effect run
  refine ⟨outcome.fs, outcome, run, rfl, ?_⟩
  generalize outcome.report = report at effect reported ⊢
  cases effect with
  | refused _ failed notFull => exact absurd reported (not_or.mpr ⟨failed, notFull⟩)
  | copied _ again _ _ copiedAgain stored =>
      cases found.symm.trans again
      have enough := stored.enough
      rw [← owned.copied_length copiedAgain] at enough
      exact absurd enough (Nat.not_le_of_lt short)
  | copyFailed => rfl

end Returning

section Samples

/-- `count` lines of `width` letters. -/
def plainLines (count width : Nat) : List (List UInt8) :=
  List.replicate count (List.replicate width 120)

theorem typedText_plainLines (count width : Nat) :
    (typedText (plainLines count width)).length = count * (width + 1) := by
  simp [typedText, plainLines]

theorem plainLines_verbatim (count : Nat) {width : Nat} (wide : 1 < width) (short : width < 256) :
    ∀ text ∈ plainLines count width, Verbatim text := by
  intro text member
  rw [List.eq_of_mem_replicate member]
  refine ⟨?_, by simpa using short, ?_, ?_⟩
  · intro c inside
    rw [List.eq_of_mem_replicate inside]
    decide
  · rw [List.rdropWhile_eq_self_iff]
    intro nonempty
    rw [List.getLast_replicate]
    decide
  · intro same
    have length := congrArg List.length same
    simp [terminator] at length
    omega

/-- With another file on the disk, no file can grow to all its blocks. -/
theorem Layout.released_short (layout : Layout fs.fat fs.files chain) {other : FileIndex}
    (used : (fs.files idx).used = true) (usedOther : (fs.files other).used = true) (different : other ≠ idx)
    (nonempty : (fs.files other).size ≠ 0) : (freeBlocks (released fs idx).fat).card < fsNBlocks := by
  have owned := layout.owned other usedOther
  cases cells : chain other with
  | nil =>
      have length := owned.length
      rw [cells] at length
      exact absurd (blocksFor_eq_zero.mp length.symm) nonempty
  | cons block rest =>
      have inside : block ∈ chain other := by simp [cells]
      have taken : (released fs idx).fat block ≠ fatFree := by
        have same : (released fs idx).fat block = fs.fat block :=
          layout.released_other used (layout.separate other idx usedOther used different inside)
        rw [same]
        exact owned.used block inside
      have proper : freeBlocks (released fs idx).fat ⊂ Finset.univ := by
        apply Finset.ssubset_univ_iff.mpr
        intro all
        exact taken (mem_freeBlocks.mp (all ▸ Finset.mem_univ block))
      simpa using Finset.card_lt_card proper

/-- Appending more than fits empties the file, overwriting with more than fits
removes it. -/
theorem full_disk_loses_file : ∃ trace fs, Run FsStep (fsInit bss) trace fs ∧
    findFile fs.files otherName rootDir = some 1 ∧ (fs.files 1).size = 2 ∧
    (∃ after, FsStep fs ⟨.edit otherName rootDir, typedFile (plainLines 900 254), .diskFull⟩ after ∧
      ¬ FileKept fs after otherName rootDir 1) ∧
    ∃ after, FsStep fs ⟨.write otherName rootDir, typedFile (plainLines 900 254), .diskFull⟩ after ∧
      ¬ FileKept fs after otherName rootDir 1 := by
  obtain ⟨trace, fs, run, _, found, size, usedFirst, sizeFirst, _⟩ := two_files
    (show ∀ text ∈ [[120]], Verbatim text by simpa using sample_verbatim) (by decide)
  obtain ⟨chain, layout⟩ := valid_of_run run
  have typed := typedText_plainLines 900 254
  have short := layout.released_short (findFile_some found).1 usedFirst (by decide) (by rw [sizeFirst]; decide)
  have verbatim := plainLines_verbatim 900 (show 1 < 254 by decide) (by decide)
  have two : (fs.files 1).size = 2 := size
  obtain ⟨edited, edit⟩ := fsEdit_appends_full layout (by decide) found verbatim
    (by rw [typed, two]; decide) (by rw [typed, two]; exact short)
  obtain ⟨written, write⟩ := fsWrite_overwrites_full (by decide) found verbatim
    (by rw [typed]; decide) (by rw [typed]; exact short)
  refine ⟨trace, fs, run, found, two, ⟨edited, edit, ?_⟩, ⟨written, write, ?_⟩⟩
  · simp [edit.effect.fileKept_iff layout found (.inr rfl), two]
  · simp [write.effect.fileKept_iff layout found (.inl rfl)]

/-- An empty file stays as it is when nothing can be appended to it. -/
theorem full_disk_keeps_empty_file : ∃ fs after,
    FsStep fs ⟨.edit otherName rootDir, typedFile (plainLines 900 254), .diskFull⟩ after ∧
      FileKept fs after otherName rootDir 1 := by
  obtain ⟨trace, fs, run, _, found, size, usedFirst, sizeFirst, _⟩ := two_files
    (show ∀ text ∈ [], Verbatim text by simp) (by decide)
  obtain ⟨chain, layout⟩ := valid_of_run run
  have typed := typedText_plainLines 900 254
  have short := layout.released_short (findFile_some found).1 usedFirst (by decide) (by rw [sizeFirst]; decide)
  have verbatim := plainLines_verbatim 900 (show 1 < 254 by decide) (by decide)
  have empty : (fs.files 1).size = 0 := size
  obtain ⟨edited, edit⟩ := fsEdit_appends_full layout (by decide) found verbatim
    (by rw [typed, empty]; decide) (by rw [typed, empty]; exact short)
  exact ⟨fs, edited, edit, (fileKept_of_run run found (.inr rfl) edit).mpr ⟨rfl, empty⟩⟩

theorem copy_full (count : Nat) (most : 4 < blocksFor (count * 255)) (fits : count * 255 ≤ tmpSize) :
    ∃ trace fs after, Run FsStep (fsInit bss) trace fs ∧
      (freeBlocks fs.fat).card + blocksFor (count * 255) = 8 ∧
      FsStep fs ⟨.copy otherName copyName rootDir, [], .diskFull⟩ after := by
  have typed : (typedText (plainLines count 254)).length = count * 255 := typedText_plainLines count 254
  have total : (freeBlocks (fsInit bss).fat).card = 8 := by rw [freeBlocks_fsInit, Finset.card_fin]
  obtain ⟨fs, write, created⟩ := FsStep.creates (plainLines count 254) (by decide)
    (findFile_fsInit bss otherName rootDir) (findFreeSlot_fsInit bss) (by decide) (by decide)
    (plainLines_verbatim count (by decide) (by decide)) (by rw [typed]; exact fits)
    (by rw [typed, total]; exact blocksFor_le_iff.mpr fits)
  rw [typed] at created
  obtain ⟨absent, slot⟩ := created.alone (show copyName.chars ≠ otherName.chars by decide)
  obtain ⟨chain, layout⟩ := write.valid (valid_fsInit bss)
  have free := created.free.trans total
  obtain ⟨after, copy⟩ := fsCopy_full [] layout (by decide) (by decide) created.found absent slot
    (by rw [created.size]; omega)
  exact ⟨_, fs, after, .next .done write, free, copy⟩

/-- A copy that does not fit takes the three blocks that were free. -/
theorem failed_copy_takes_blocks : ∃ trace fs after, Run FsStep (fsInit bss) trace fs ∧
    FsStep fs ⟨.copy otherName copyName rootDir, [], .diskFull⟩ after ∧
    (freeBlocks fs.fat).card = 3 ∧ freeBlocks after.fat = ∅ ∧ freeBlocks after.fat ≠ freeBlocks fs.fat := by
  obtain ⟨trace, fs, after, run, free, copy⟩ := copy_full 515 (by decide) (by decide)
  have three : (freeBlocks fs.fat).card = 3 := by
    have five : blocksFor (515 * 255) = 5 := by decide
    omega
  have none : freeBlocks after.fat = ∅ := by
    have effect := copy.effect
    cases effect with
    | refused _ _ notFull => exact absurd rfl notFull
    | copyFailed _ _ _ _ _ exhausted => exact freeBlocks_eq_empty exhausted.full
  refine ⟨trace, fs, after, run, copy, three, none, ?_⟩
  intro same
  rw [← same, none] at three
  simp at three

/-- On a disk without free blocks a failed copy has none to keep. -/
theorem failed_copy_keeps_full_disk : ∃ fs after,
    FsStep fs ⟨.copy otherName copyName rootDir, [], .diskFull⟩ after ∧
    freeBlocks after.fat = freeBlocks fs.fat ∧ EntriesKept fs after := by
  obtain ⟨trace, fs, after, run, free, copy⟩ := copy_full 900 (by decide) (by decide)
  have eight : blocksFor (900 * 255) = 8 := by decide
  have none : freeBlocks fs.fat = ∅ := Finset.card_eq_zero.mp (by omega)
  have full : ∀ block, fs.fat block ≠ fatFree := by
    intro block isFree
    have member := mem_freeBlocks.mpr isFree
    simp [none] at member
  have creates : (FsOp.copy otherName copyName rootDir).Creates fs := trivial
  exact ⟨fs, after, copy, (freeBlocks_kept_of_run run creates copy).1.mpr full⟩

end Samples

end DugOS.Fs
