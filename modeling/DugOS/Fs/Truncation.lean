import DugOS.Data.Lines
import DugOS.Fs.DiskFull

namespace DugOS.Fs

open Data

/-! What the input loop of `fs_write` and `fs_edit` keeps when lines are too long
for `line` or do not fit into `tmp` any more. -/

/-- A key on a line without limit. -/
def typeKey (text : List UInt8) (c : UInt8) : List UInt8 :=
  if c = backspace then text.dropLast else text ++ [c]

/-- The line that the keys type, without trailing blanks. -/
def typedLine (keys : List UInt8) : List UInt8 :=
  (keys.foldl typeKey []).rdropWhile isBlank

/-- The line that arrives in `line[256]` for these keys. -/
def arrivedLine (keys : List UInt8) : List UInt8 :=
  (keys.foldl (typeKeyWithin 255) []).rdropWhile isBlank

/-- The keys of one line: Enter is not one of them, and the keyboard driver
delivers no zero byte. -/
structure LineKeys (keys : List UInt8) : Prop where
  noNewline : newline ∉ keys
  noNul : 0 ∉ keys

variable {keys rest text full last : List UInt8} {lines : List (List UInt8)} {c : UInt8} {room len n total : Nat}

section Lines

/-- Keys that a full line did not take are missing from it, nothing else is. -/
theorem foldl_typeKeyWithin_sublist (room : Nat) (keys : List UInt8) (sublist : text.Sublist full) :
    (keys.foldl (typeKeyWithin room) text).Sublist (keys.foldl typeKey full) := by
  induction keys generalizing text full with
  | nil => exact sublist
  | cons c keys ih =>
      apply ih
      rw [typeKeyWithin, typeKey]
      split
      · exact dropLast_sublist_dropLast sublist
      · split
        · exact sublist.append_right [c]
        · exact sublist.trans (List.sublist_append_left full [c])

theorem arrivedLine_sublist (keys : List UInt8) : (arrivedLine keys).Sublist (typedLine keys) :=
  rdropWhile_sublist_rdropWhile (foldl_typeKeyWithin_sublist 255 keys (.refl []))

theorem foldl_typeKey_subset (keys text : List UInt8) (member : c ∈ keys.foldl typeKey text) :
    c ∈ text ∨ c ∈ keys := by
  induction keys generalizing text with
  | nil => exact .inl member
  | cons key keys ih =>
      rcases ih _ member with before | later
      · rw [typeKey] at before
        split at before
        · exact .inl (List.mem_of_mem_dropLast before)
        · rcases List.mem_append.mp before with before | this
          · exact .inl before
          · exact .inr (by simpa using Or.inl (List.mem_singleton.mp this))
      · exact .inr (by simp [later])

theorem typedLine_subset (member : c ∈ typedLine keys) : c ∈ keys := by
  have inside := (List.rdropWhile_prefix _ _).subset member
  simpa using foldl_typeKey_subset keys [] inside

/-- A line that is stored as it is typed arrives so, too. -/
theorem Verbatim.arrivedLine_eq (verbatim : Verbatim text) : arrivedLine text = text := by
  have plain : backspace ∉ text := fun member => (verbatim.plain backspace member).2.1 rfl
  rw [arrivedLine, foldl_typeKeyWithin_plain plain (by simpa using Nat.le_of_lt_succ verbatim.short),
    List.nil_append, verbatim.trimmed]

theorem foldl_typeKey_plain (plain : backspace ∉ keys) (text : List UInt8) : keys.foldl typeKey text = text ++ keys := by
  induction keys generalizing text with
  | nil => rw [List.foldl_nil, List.append_nil]
  | cons key keys ih =>
      simp only [List.mem_cons, not_or] at plain
      rw [List.foldl_cons, typeKey, if_neg (Ne.symm plain.1), ih plain.2, List.append_assoc, List.singleton_append]

theorem Verbatim.typedLine_eq (verbatim : Verbatim text) : typedLine text = text := by
  have plain : backspace ∉ text := fun member => (verbatim.plain backspace member).2.1 rfl
  rw [typedLine, foldl_typeKey_plain plain, List.nil_append, verbatim.trimmed]

theorem Verbatim.arrives (verbatim : Verbatim text) : arrivedLine text ≠ terminator.chars := by
  rw [verbatim.arrivedLine_eq]
  exact verbatim.notTerminator

theorem Verbatim.lineKeys (verbatim : Verbatim text) : LineKeys text :=
  ⟨fun member => (verbatim.plain newline member).1 rfl, fun member => (verbatim.plain 0 member).2.2.1 rfl⟩

theorem readline_keys (line : Buffer 256) (rest : List UInt8) (typed : LineKeys keys) :
    ∃ read, readline line (keys ++ newline :: rest) = .ok read ∧ read.keys = rest ∧
      (cstr read.buf.bytes).rdropWhile isBlank = arrivedLine keys := by
  obtain ⟨read, run, left, _, bytes⟩ :=
    readlineLoop_typed (fun _ => true) line rest typed.noNewline (by decide) List.take_zero
  have all : effective (fun _ => true) keys = keys := by simp [effective]
  have noNul : 0 ∉ keys.foldl (typeKeyWithin (256 - 1)) [] := by
    intro member
    have typedToo := (foldl_typeKeyWithin_sublist (256 - 1) keys (.refl [])).subset member
    exact typed.noNul (by simpa using foldl_typeKey_subset keys [] typedToo)
  rw [all] at bytes
  exact ⟨read, run, left, by rw [cstr_of_take bytes noNul, arrivedLine]⟩

end Lines

/-- The input loop on any lines before the first that arrives as a single dot. -/
theorem collectLines_lines (line : Buffer 256) (tmp : Buffer tmpSize) (total : Nat) (rest : List UInt8)
    (typed : ∀ keys ∈ lines, LineKeys keys) (before : ∀ keys ∈ lines, arrivedLine keys ≠ terminator.chars)
    (typedLast : LineKeys last) (ends : arrivedLine last = terminator.chars) (inside : total ≤ tmpSize) :
    ∃ input, collectLines line tmp total (typedText lines ++ (last ++ newline :: rest)) = .ok input ∧
      Collected tmp total input (keepFitting newline tmpSize total (lines.map arrivedLine)) := by
  induction lines generalizing line tmp total with
  | nil =>
      obtain ⟨read, run, left, text⟩ := readline_keys line rest typedLast
      obtain ⟨trimmed, _, trim, turn⟩ := collectLines_turn tmp total run
      rw [if_pos (trim.trans (text.trans ends))] at turn
      exact ⟨_, turn, rfl, inside, by simp [keepFitting]⟩
  | cons keys lines ih =>
      obtain ⟨read, run, left, text⟩ := readline_keys line (typedText lines ++ (last ++ newline :: rest))
        (typed keys (by simp))
      obtain ⟨trimmed, _, trim, turn⟩ := collectLines_turn tmp total run
      rw [trim, text, if_neg (before keys (by simp)), left] at turn
      have same : typedText (keys :: lines) ++ (last ++ newline :: rest) =
          keys ++ newline :: (typedText lines ++ (last ++ newline :: rest)) := by simp [typedText]
      have typedRest : ∀ other ∈ lines, LineKeys other := fun other member => typed other (by simp [member])
      have beforeRest : ∀ other ∈ lines, arrivedLine other ≠ terminator.chars :=
        fun other member => before other (by simp [member])
      rw [same, turn, List.map_cons, keepFitting]
      split
      · rename_i room
        obtain ⟨stored, first⟩ := tmp.store_exists total (arrivedLine keys) (by omega)
        obtain ⟨stored', second⟩ := stored.store_exists (total + (arrivedLine keys).length) [newline]
          (by simpa using room)
        obtain ⟨input, inner, collected⟩ := ih trimmed stored' (total + (arrivedLine keys).length + 1)
          typedRest beforeRest room
        simp only [first, second, inBounds, Except.bind, inner, Except.map]
        exact ⟨_, rfl, Collected.afterLine first second ⟨collected.total_eq, collected.fits, collected.bytes⟩⟩
      · obtain ⟨input, inner, collected⟩ := ih trimmed tmp total typedRest beforeRest inside
        rw [inner, Except.map]
        exact ⟨_, rfl, collected.total_eq, collected.fits, collected.bytes⟩

/-- The slot whose content the command replaces when it succeeds. -/
def FsOp.Fills (fs : FileSystem) (idx : FileIndex) : FsOp → Prop
  | .write name dir => findFile fs.files name dir = some idx ∨
      findFile fs.files name dir = none ∧ findFreeSlot fs.files = some idx
  | .edit name dir => findFile fs.files name dir = some idx
  | _ => False

/-- The bytes behind which the command puts the typed lines. -/
def FsOp.kept (fs : FileSystem) (idx : FileIndex) : FsOp → List UInt8
  | .edit _ _ => content fs.toDisk (fs.files idx)
  | _ => []

section Stored

variable {fs after boot : FileSystem} {op : FsOp} {idx : FileIndex} {chain : FileIndex → List BlockIndex}
  {trace : List (Transition FileSystem FsEvent)} {added : List UInt8} {tmp : Buffer tmpSize}

theorem collected_lines {input : Input} (typed : ∀ keys ∈ lines, LineKeys keys)
    (before : ∀ keys ∈ lines, arrivedLine keys ≠ terminator.chars) (typedLast : LineKeys last)
    (ends : arrivedLine last = terminator.chars) (inside : total ≤ tmpSize)
    (collected : collectLines (.zeros 256) tmp total (typedText lines ++ (last ++ newline :: rest)) = .ok input) :
    input.bytes = tmp.bytes.take total ++ keepFitting newline tmpSize total (lines.map arrivedLine) := by
  obtain ⟨other, run, spec⟩ := collectLines_lines (.zeros 256) tmp total rest typed before typedLast ends inside
  cases collected.symm.trans run
  exact spec.bytes

/-- What a successful command stores: the kept bytes, then the lines that
fitted. -/
theorem FsStep.stores (layout : Layout fs.fat fs.files chain) (fills : op.Fills fs idx)
    (typed : ∀ keys ∈ lines, LineKeys keys) (before : ∀ keys ∈ lines, arrivedLine keys ≠ terminator.chars)
    (typedLast : LineKeys last) (ends : arrivedLine last = terminator.chars)
    (step : FsStep fs ⟨op, typedText lines ++ (last ++ newline :: rest), .done⟩ after) :
    (op.kept fs idx).length ≤ tmpSize ∧ content after.toDisk (after.files idx) = op.kept fs idx ++
      keepFitting newline tmpSize (op.kept fs idx).length (lines.map arrivedLine) := by
  have effect := step.effect
  cases effect with
  | refused _ failed => exact absurd rfl failed
  | printed => exact fills.elim
  | overwritten _ found collected stored files =>
      rcases fills with same | absent
      · cases found.symm.trans same
        have bytes := collected_lines typed before typedLast ends (Nat.zero_le _) collected
        refine ⟨Nat.zero_le _, ?_⟩
        rw [files, Function.update_self, stored.content_eq rfl (collected_length collected (Nat.zero_le _)), bytes]
        simp [FsOp.kept]
      · cases found.symm.trans absent.1
  | created _ absent slot collected stored files =>
      rcases fills with found | same
      · cases absent.symm.trans found
      · cases slot.symm.trans same.2
        have bytes := collected_lines typed before typedLast ends (Nat.zero_le _) collected
        refine ⟨Nat.zero_le _, ?_⟩
        rw [files, Function.update_self, stored.content_eq rfl (collected_length collected (Nat.zero_le _)), bytes]
        simp [FsOp.kept]
  | appended _ found copied collected stored files =>
      cases found.symm.trans fills
      have owned := layout.owned idx (findFile_some found).1
      have bytes := collected_lines typed before typedLast ends owned.size_le collected
      rw [FsOp.kept, owned.content_length]
      refine ⟨owned.size_le, ?_⟩
      rw [files, Function.update_self, stored.content_eq rfl (collected_length collected owned.size_le), bytes,
        owned.copied_bytes copied]
  | deleted => exact fills.elim
  | renamed => exact fills.elim
  | copied => exact fills.elim

theorem FsStep.prefix_iff (layout : Layout fs.fat fs.files chain) (fills : op.Fills fs idx)
    (typed : ∀ keys ∈ lines, LineKeys keys) (before : ∀ keys ∈ lines, arrivedLine keys ≠ terminator.chars)
    (typedLast : LineKeys last) (ends : arrivedLine last = terminator.chars)
    (step : FsStep fs ⟨op, typedText lines ++ (last ++ newline :: rest), .done⟩ after) :
    content after.toDisk (after.files idx) <+: op.kept fs idx ++ typedText (lines.map typedLine) ↔
      Unbroken tmpSize (op.kept fs idx).length arrivedLine typedLine lines := by
  obtain ⟨inside, stored⟩ := step.stores layout fills typed before typedLast ends
  have absent : ∀ keys ∈ lines, newline ∉ arrivedLine keys ∧ newline ∉ typedLine keys := by
    intro keys member
    have meant : newline ∉ typedLine keys := fun inLine => (typed keys member).noNewline (typedLine_subset inLine)
    exact ⟨fun inLine => meant ((arrivedLine_sublist keys).subset inLine), meant⟩
  rw [stored, List.prefix_append_right_inj]
  exact keepFitting_prefix_iff (fun keys => (arrivedLine_sublist keys).length_le) absent inside

/-- After any run, a command that succeeds stores a beginning of the kept bytes
and the typed lines exactly if no line was stored behind one that found no
room, and `readline` cut none of the stored ones. -/
theorem stored_prefix_iff (run : Run FsStep (fsInit boot) trace fs) (fills : op.Fills fs idx)
    (typed : ∀ keys ∈ lines, LineKeys keys) (before : ∀ keys ∈ lines, arrivedLine keys ≠ terminator.chars)
    (typedLast : LineKeys last) (ends : arrivedLine last = terminator.chars)
    (step : FsStep fs ⟨op, typedText lines ++ (last ++ newline :: rest), .done⟩ after) :
    content after.toDisk (after.files idx) <+: op.kept fs idx ++ typedText (lines.map typedLine) ↔
      Unbroken 262144 (op.kept fs idx).length arrivedLine typedLine lines := by
  obtain ⟨chain, layout⟩ := valid_of_run run
  exact step.prefix_iff layout fills typed before typedLast ends

theorem terminator_ends : LineKeys terminator.chars ∧ arrivedLine terminator.chars = terminator.chars :=
  ⟨⟨by decide, by decide⟩, by decide⟩

theorem fills_fresh : (FsOp.write sampleName rootDir).Fills (fsInit bss) 0 :=
  .inr ⟨findFile_fsInit bss sampleName rootDir, findFreeSlot_fsInit bss⟩

/-- On an empty disk there is room for everything that the input loop keeps. -/
theorem fsWrite_fresh (lines : List (List UInt8)) (typed : ∀ keys ∈ lines, LineKeys keys)
    (before : ∀ keys ∈ lines, arrivedLine keys ≠ terminator.chars) :
    ∃ after, FsStep (fsInit bss) ⟨.write sampleName rootDir, typedFile lines, .done⟩ after := by
  obtain ⟨typedLast, ends⟩ := terminator_ends
  obtain ⟨input, collected, spec⟩ := collectLines_lines (.zeros 256) (fsInit bss).writeTmp 0 [] typed before
    typedLast ends (Nat.zero_le _)
  have enough : blocksFor input.bytes.length ≤ (freeBlocks (fsInit bss).fat).card := by
    rw [freeBlocks_fsInit, Finset.card_fin, blocksFor_le_iff, spec.bytes_length]
    exact spec.fits
  obtain ⟨outcome, run, done⟩ := fsWriteSlot_stores (setEntry (fsInit bss) 0
    { (fsInit bss).files 0 with name := field sampleName, dir := field rootDir, used := true }) 0 sampleName
    collected enough
  refine ⟨outcome.fs, outcome, ?_, rfl, done⟩
  exact (fsWrite_new (by decide) (findFile_fsInit bss sampleName rootDir) (findFreeSlot_fsInit bss)).trans run

theorem spaceOf_plainLines (count : Nat) : spaceOf arrivedLine (plainLines count 254) = count * 255 := by
  have arrived : arrivedLine (List.replicate 254 120) = List.replicate 254 120 :=
    (plainLines_verbatim 1 (show 1 < 254 by decide) (by decide) _ (List.mem_singleton_self _)).arrivedLine_eq
  induction count with
  | zero => rfl
  | succ count ih =>
      have step : spaceOf arrivedLine (plainLines (count + 1) 254) =
          (arrivedLine (List.replicate 254 120)).length + 1 + spaceOf arrivedLine (plainLines count 254) := rfl
      rw [step, ih, arrived, List.length_replicate]
      omega

/-- Of 1029 lines of 254 letters the last one finds the buffer full. -/
theorem sample_prefix : ∃ after,
    FsStep (fsInit bss) ⟨.write sampleName rootDir, typedFile (plainLines 1029 254), .done⟩ after ∧
    262144 < (typedText (plainLines 1029 254)).length ∧
    content after.toDisk (after.files 0) <+: typedText ((plainLines 1029 254).map typedLine) := by
  have verbatim := plainLines_verbatim 1029 (show 1 < 254 by decide) (by decide)
  have typed : ∀ keys ∈ plainLines 1029 254, LineKeys keys := fun keys member => (verbatim keys member).lineKeys
  have before : ∀ keys ∈ plainLines 1029 254, arrivedLine keys ≠ terminator.chars := fun keys member =>
    (verbatim keys member).arrives
  have split : plainLines 1029 254 = plainLines 1028 254 ++ [List.replicate 254 120] := List.replicate_succ'
  have unbroken : Unbroken 262144 0 arrivedLine typedLine (plainLines 1029 254) := by
    refine ⟨_, _, split, ?_, ?_, ?_⟩
    · intro keys member
      have plain := verbatim keys (split ▸ List.mem_append_left _ member)
      rw [plain.arrivedLine_eq, plain.typedLine_eq]
    · rw [spaceOf_plainLines]
      decide
    · intro keys member
      have plain := verbatim keys (split ▸ List.mem_append_right _ member)
      rw [spaceOf_plainLines, plain.arrivedLine_eq, List.mem_singleton.mp member, List.length_replicate]
      decide
  obtain ⟨after, step⟩ := fsWrite_fresh (plainLines 1029 254) typed before
  obtain ⟨typedLast, ends⟩ := terminator_ends
  have exactly := stored_prefix_iff (.done : Run FsStep (fsInit bss) [] _) fills_fresh typed before typedLast ends step
  have nothing : (FsOp.write sampleName rootDir).kept (fsInit bss) 0 = [] := rfl
  rw [nothing, List.nil_append, List.length_nil] at exactly
  refine ⟨after, step, ?_, exactly.mpr unbroken⟩
  rw [typedText_plainLines]
  decide

/-- Lines of 254 letters until four bytes are left, one more of them, and then a
line of one letter. -/
def holeLines : List (List UInt8) :=
  plainLines 1029 254 ++ [[120]]

theorem holeLines_broken : ¬ Unbroken 262144 0 arrivedLine typedLine holeLines := by
  intro unbroken
  obtain ⟨stored, rejected, split, _, space, noRoom⟩ := unbroken
  rcases List.append_eq_append_iff.mp split with ⟨more, long, _⟩ | ⟨skipped, plain, rest⟩
  · have taken : spaceOf arrivedLine stored = 1029 * 255 + spaceOf arrivedLine more := by
      rw [long, spaceOf_append, ← spaceOf_plainLines]
    omega
  · obtain ⟨_, only, _⟩ := List.append_eq_replicate_iff.mp plain.symm
    have taken : spaceOf arrivedLine stored = stored.length * 255 := by
      rw [← spaceOf_plainLines]
      exact congrArg _ only
    have short := noRoom [120] (by simp [rest])
    have single : (arrivedLine [120]).length = 1 := by decide
    omega

/-- The last line is stored behind the hole that the longer one left. -/
theorem stored_behind_hole : ∃ after,
    FsStep (fsInit bss) ⟨.write sampleName rootDir, typedFile holeLines, .done⟩ after ∧
    ¬ content after.toDisk (after.files 0) <+: typedText (holeLines.map typedLine) := by
  have verbatim : ∀ keys ∈ holeLines, Verbatim keys := by
    intro keys member
    rcases List.mem_append.mp member with plain | single
    · exact plainLines_verbatim 1029 (by decide) (by decide) keys plain
    · rw [List.mem_singleton.mp single]
      exact sample_verbatim
  have typed : ∀ keys ∈ holeLines, LineKeys keys := fun keys member => (verbatim keys member).lineKeys
  have before : ∀ keys ∈ holeLines, arrivedLine keys ≠ terminator.chars := fun keys member =>
    (verbatim keys member).arrives
  obtain ⟨after, step⟩ := fsWrite_fresh holeLines typed before
  obtain ⟨typedLast, ends⟩ := terminator_ends
  obtain ⟨chain, layout⟩ := valid_fsInit bss
  have exactly := step.prefix_iff layout fills_fresh typed before typedLast ends
  have nothing : (FsOp.write sampleName rootDir).kept (fsInit bss) 0 = [] := rfl
  rw [nothing, List.nil_append] at exactly
  exact ⟨after, step, mt exactly.mp holeLines_broken⟩

end Stored

end DugOS.Fs
