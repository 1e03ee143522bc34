import DugOS.Fs.Effects

namespace DugOS.Fs

open Data

/-! Commands return once the user has typed what they ask for. -/

variable {fs : FileSystem} {keys : List UInt8} {input : Input} {name dir : CString} {idx : FileIndex}
  {entry : FileEntry}

/-- The static data as the loader leaves it, all zero. -/
def bss : FileSystem where
  fat := fun _ => 0
  blocks := fun _ => .zeros fsBlockSize
  files := fun _ => { name := .zeros fsNameLen, dir := .zeros fsDirLen, firstBlock := 0, size := 0, used := false }
  writeTmp := .zeros tmpSize
  editTmp := .zeros tmpSize
  copyTmp := .zeros tmpSize

theorem findFile_fsInit (boot : FileSystem) (name dir : CString) :
    findFile (fsInit boot).files name dir = none := by
  apply List.find?_eq_none.mpr
  intro i _ found
  simp [FileEntry.named, fsInit] at found

theorem findFreeSlot_fsInit (boot : FileSystem) : findFreeSlot (fsInit boot).files = some 0 := by
  simp [findFreeSlot, fsInit, List.finRange_succ]

theorem freeBlocks_fsInit (boot : FileSystem) : freeBlocks (fsInit boot).fat = Finset.univ := by
  ext block
  simp [fsInit]

theorem fsWriteSlot_returns (fs : FileSystem) (idx : FileIndex) (name : CString)
    (collected : collectLines (.zeros 256) fs.writeTmp 0 keys = .ok input) :
    ∃ outcome, fsWriteSlot fs idx name keys = .ok outcome := by
  simp only [fsWriteSlot, collected, bind, Except.bind, pure, Except.pure]
  split
  · exact ⟨_, rfl⟩
  · exact ⟨_, rfl⟩

theorem fsWriteSlot_stores (fs : FileSystem) (idx : FileIndex) (name : CString)
    (collected : collectLines (.zeros 256) fs.writeTmp 0 keys = .ok input)
    (enough : blocksFor input.bytes.length ≤ (freeBlocks fs.fat).card) :
    ∃ outcome, fsWriteSlot fs idx name keys = .ok outcome ∧ outcome.report = .done := by
  obtain ⟨outcome, run⟩ := fsWriteSlot_returns fs idx name collected
  refine ⟨outcome, run, ?_⟩
  obtain ⟨other, again, ⟨done, _⟩ | ⟨_, exhausted, _⟩⟩ := fsWriteSlot_effect run
  · exact done
  · cases collected.symm.trans again
    exact absurd enough (Nat.not_le_of_lt exhausted.short)

theorem fsWrite_new (nonempty : name.chars ≠ []) (absent : findFile fs.files name dir = none)
    (slot : findFreeSlot fs.files = some idx) :
    fsWrite fs name dir keys =
      fsWriteSlot (setEntry fs idx { fs.files idx with name := field name, dir := field dir, used := true })
        idx name keys := by
  have given : ¬ kstrlen name.memory = some 0 := (kstrlen_eq_zero name).not.mpr nonempty
  simp only [fsWrite, given, if_false, absent, slot, setField_eq, bind, Except.bind]

/-- A new file typed line by line is stored when the blocks suffice. -/
theorem fsWrite_creates (lines : List (List UInt8)) (nonempty : name.chars ≠ [])
    (absent : findFile fs.files name dir = none) (slot : findFreeSlot fs.files = some idx)
    (verbatim : ∀ text ∈ lines, Verbatim text) (room : (typedText lines).length ≤ tmpSize)
    (enough : blocksFor (typedText lines).length ≤ (freeBlocks fs.fat).card) :
    ∃ outcome, fsWrite fs name dir (typedText lines ++ (terminator.chars ++ [newline])) = .ok outcome ∧
      outcome.report = .done ∧ ∃ first chain,
        Stored fs.toDisk (typedText lines) outcome.fs.toDisk first chain ∧
        outcome.fs.files = Function.update fs.files idx
          { name := field name, dir := field dir, firstBlock := first, size := (typedText lines).length,
            used := true } := by
  obtain ⟨input, collected, -, spec⟩ := collectLines_verbatim (.zeros 256) fs.writeTmp 0 []
    verbatim (by simpa using room)
  have bytes : input.bytes = typedText lines := by simpa [Input.bytes] using spec.bytes
  have total : input.total = (typedText lines).length := by simpa using spec.total_eq
  rw [fsWrite_new nonempty absent slot]
  obtain ⟨outcome, run, done⟩ := fsWriteSlot_stores
    (setEntry fs idx { fs.files idx with name := field name, dir := field dir, used := true }) idx name
    collected (by rw [bytes]; exact enough)
  refine ⟨outcome, run, done, ?_⟩
  obtain ⟨other, again, ⟨_, first, chain, stored, files⟩ | ⟨failed, _⟩⟩ := fsWriteSlot_effect run
  · cases collected.symm.trans again
    refine ⟨first, chain, bytes ▸ stored, ?_⟩
    rw [files]
    simp [setEntry, total]
  · simp [done] at failed

theorem readline_yes : ∃ typed, readline (.zeros 4) [121, newline] = .ok typed ∧
    confirmed typed.buf = true := by
  obtain ⟨typed, read, _, text⟩ := readline_plain (.zeros 4) []
    (show Plain (fun _ => true) [121] by decide) (by decide)
  refine ⟨typed, read, ?_⟩
  have front := cstr_take typed.buf.bytes
  rw [text] at front
  cases bytes : typed.buf.bytes with
  | nil => simp [bytes] at front
  | cons head rest =>
      rw [bytes] at front
      simp [confirmed, bytes, List.cons.inj front]

theorem fsDelete_deletes {typed : Typed 4} (nonempty : name.chars ≠ [])
    (found : findFile fs.files name dir = some idx) (answer : readline (.zeros 4) keys = .ok typed)
    (agreed : confirmed typed.buf = true) :
    ∃ outcome, fsDelete fs name dir keys = .ok outcome ∧ outcome.report = .done := by
  have given : ¬ kstrlen name.memory = some 0 := (kstrlen_eq_zero name).not.mpr nonempty
  obtain ⟨cleared, stored⟩ := (fs.files idx).name.store_exists 0 [0] (by decide)
  simp only [fsDelete, given, if_false, found, answer, bind, Except.bind, agreed, Bool.not_true,
    Bool.false_eq_true, stored, inBounds, pure, Except.pure]
  exact ⟨_, rfl, rfl⟩

theorem fsWrite_returns (nonempty : name.chars ≠ []) (found : findFile fs.files name dir = some idx)
    (collected : collectLines (.zeros 256) fs.writeTmp 0 keys = .ok input) :
    ∃ outcome, fsWrite fs name dir keys = .ok outcome := by
  have given : ¬ kstrlen name.memory = some 0 := (kstrlen_eq_zero name).not.mpr nonempty
  simp only [fsWrite, given, if_false, found]
  exact fsWriteSlot_returns _ idx name collected

theorem fsEdit_returns {tmp : Buffer tmpSize} (nonempty : name.chars ≠ [])
    (found : findFile fs.files name dir = some idx)
    (copied : copyChain fs.toDisk fs.editTmp 0 (fs.files idx).firstBlock (fs.files idx).size = some tmp)
    (collected : collectLines (.zeros 256) tmp (fs.files idx).size keys = .ok input) :
    ∃ outcome, fsEdit fs name dir keys = .ok outcome := by
  have given : ¬ kstrlen name.memory = some 0 := (kstrlen_eq_zero name).not.mpr nonempty
  simp only [fsEdit, given, if_false, found, copied, inBounds, collected, bind, Except.bind, pure, Except.pure]
  split
  · exact ⟨_, rfl⟩
  · exact ⟨_, rfl⟩

theorem fsCopy_returns {src dst : CString} {slot : FileIndex} {tmp : Buffer tmpSize} (keys : List UInt8)
    (givenSrc : src.chars ≠ []) (givenDst : dst.chars ≠ []) (found : findFile fs.files src dir = some idx)
    (absent : findFile fs.files dst dir = none) (free : findFreeSlot fs.files = some slot)
    (copied : copyChain fs.toDisk fs.copyTmp 0 (fs.files idx).firstBlock (fs.files idx).size = some tmp) :
    ∃ outcome, fsCopy fs src dst dir keys = .ok outcome ∧
      (outcome.report = .done ∨ outcome.report = .diskFull) := by
  have given : ¬ (kstrlen src.memory = some 0 ∨ kstrlen dst.memory = some 0) := by
    simp [kstrlen_eq_zero, givenSrc, givenDst]
  simp only [fsCopy, given, if_false, found, absent, Option.isSome_none, Bool.false_eq_true, free, copied,
    inBounds, setField_eq, bind, Except.bind, pure, Except.pure]
  split
  · exact ⟨_, rfl, .inr rfl⟩
  · exact ⟨_, rfl, .inl rfl⟩

end DugOS.Fs
