import DugOS.Data.Run
import DugOS.Fs.Layout
import DugOS.Fs.Progress

namespace DugOS.Fs

open Data

/-! Runs of file commands, and what the allocation table looks like after any
of them. -/

/-- A completed command, the keys typed while it ran, and how it ended. -/
structure FsEvent where
  op : FsOp
  keys : List UInt8
  report : Report

def FsStep (fs : FileSystem) (event : FsEvent) (after : FileSystem) : Prop :=
  ∃ outcome, event.op.run fs event.keys = .ok outcome ∧ outcome.fs = after ∧
    outcome.report = event.report

variable {fs after boot : FileSystem} {event : FsEvent} {keys : List UInt8} {op : FsOp} {report : Report}
  {chain : FileIndex → List BlockIndex} {cells : List BlockIndex} {entry : FileEntry} {idx : FileIndex}
  {trace : List (Transition FileSystem FsEvent)}

theorem FsStep.effect (step : FsStep fs event after) : Effect fs event.keys event.op event.report after := by
  obtain ⟨outcome, run, rfl, report⟩ := step
  rw [← report]
  exact event.op.run_effect run

theorem Collected.bytes_length {tmp : Buffer tmpSize} {total : Nat} {input : Input} {added : List UInt8}
    (collected : Collected tmp total input added) : input.bytes.length = input.total := by
  rw [Input.bytes, List.length_take, Buffer.length_eq]
  exact min_eq_left collected.fits

theorem collected_length {line : Buffer 256} {tmp : Buffer tmpSize} {total : Nat} {input : Input}
    (collected : collectLines line tmp total keys = .ok input) (inside : total ≤ tmpSize) :
    input.total = input.bytes.length := by
  obtain ⟨added, spec⟩ := collectLines_ok collected inside
  exact spec.bytes_length.symm

theorem Owned.copyChain_exists {disk : Disk} (owned : Owned disk.fat entry cells) (tmp : Buffer tmpSize) :
    ∃ copied, copyChain disk tmp 0 entry.firstBlock entry.size = some copied ∧
      copied.bytes.take entry.size = content disk entry := by
  have length := owned.content_length
  have bounded := owned.size_le
  rw [content] at length
  obtain ⟨copied, run, bytes⟩ := copyChain_eq disk entry.firstBlock entry.size 0 tmp (by omega)
  refine ⟨copied, run, ?_⟩
  rw [length] at bytes
  simpa [content] using bytes

theorem Owned.copied_bytes {disk : Disk} {tmp copied : Buffer tmpSize} (owned : Owned disk.fat entry cells)
    (run : copyChain disk tmp 0 entry.firstBlock entry.size = some copied) :
    copied.bytes.take entry.size = content disk entry := by
  obtain ⟨other, runOther, bytes⟩ := owned.copyChain_exists tmp
  cases run.symm.trans runOther
  exact bytes

theorem Owned.copied_length {disk : Disk} {tmp copied : Buffer tmpSize} (owned : Owned disk.fat entry cells)
    (run : copyChain disk tmp 0 entry.firstBlock entry.size = some copied) :
    entry.size = (copied.bytes.take entry.size).length := by
  rw [owned.copied_bytes run, owned.content_length]

/-- The table between the release of a chain and the storing of a new one. -/
theorem Layout.vacate (layout : Layout fs.fat fs.files chain) (used : (fs.files idx).used = true) :
    Layout (released fs idx).fat
      (Function.update fs.files idx { fs.files idx with firstBlock := fatEnd, size := 0 })
      (Function.update chain idx []) :=
  layout.release used (fun _ => ⟨rfl, rfl⟩)

theorem Layout.rewrite {data : List UInt8} {disk : Disk} {first : Nat} {new : List BlockIndex}
    {fresh : FileEntry} (layout : Layout fs.fat fs.files chain) (used : (fs.files idx).used = true)
    (stored : Stored (released fs idx) data disk first new) (head : fresh.firstBlock = first)
    (size : fresh.size = data.length) :
    Layout disk.fat (Function.update fs.files idx fresh) (Function.update chain idx new) := by
  have result := (layout.vacate used).store idx stored head size
  rwa [Function.update_idem, Function.update_idem] at result

theorem Layout.rewriteFailed {data : List UInt8} {disk : Disk} {fresh : FileEntry}
    (layout : Layout fs.fat fs.files chain) (used : (fs.files idx).used = true)
    (exhausted : Exhausted (released fs idx) data disk)
    (vacated : fresh.used = true → fresh.firstBlock = fatEnd ∧ fresh.size = 0) :
    Layout disk.fat (Function.update fs.files idx fresh) (Function.update chain idx []) :=
  (layout.release used vacated).exhaust exhausted

theorem Effect.layout (effect : Effect fs keys op report after) (layout : Layout fs.fat fs.files chain) :
    ∃ chain, Layout after.fat after.files chain := by
  cases effect with
  | refused _ _ _ disk files =>
      rw [disk, files]
      exact ⟨chain, layout⟩
  | printed _ _ disk files =>
      rw [disk, files]
      exact ⟨chain, layout⟩
  | overwritten _ found collected stored files =>
      rw [files]
      exact ⟨_, layout.rewrite (findFile_some found).1 stored rfl (collected_length collected (Nat.zero_le _))⟩
  | overwriteFailed _ found _ exhausted files =>
      rw [files]
      exact ⟨_, layout.rewriteFailed (findFile_some found).1 exhausted (by simp)⟩
  | created _ _ _ collected stored files =>
      rw [files]
      exact ⟨_, layout.store _ stored rfl (collected_length collected (Nat.zero_le _))⟩
  | createFailed _ _ _ _ exhausted files =>
      rw [files]
      exact ⟨chain, (layout.exhaust exhausted).setEntry (by simp)⟩
  | appended _ found _ collected stored files =>
      have used := (findFile_some found).1
      rw [files]
      exact ⟨_, layout.rewrite used stored rfl
        (collected_length collected (layout.owned _ used).size_le)⟩
  | appendFailed _ found _ _ exhausted files =>
      rw [files]
      exact ⟨_, layout.rewriteFailed (findFile_some found).1 exhausted (fun _ => ⟨rfl, rfl⟩)⟩
  | deleted _ found _ _ disk files =>
      rw [files, disk]
      exact ⟨_, layout.release (findFile_some found).1 (by simp)⟩
  | renamed _ found _ disk files =>
      rw [files, disk]
      exact ⟨chain, layout.setEntry (fun used => ⟨used, rfl, rfl⟩)⟩
  | copied _ found _ _ copied stored files =>
      have owned := layout.owned _ (findFile_some found).1
      rw [files]
      exact ⟨_, layout.store _ stored rfl (owned.copied_length copied)⟩
  | copyFailed _ _ _ _ _ exhausted files =>
      rw [files]
      exact ⟨chain, layout.exhaust exhausted⟩

/-- Every used entry owns a chain, and no two of them share a block. -/
def Valid (fs : FileSystem) : Prop :=
  ∃ chain, Layout fs.fat fs.files chain

theorem valid_fsInit (boot : FileSystem) : Valid (fsInit boot) := by
  refine ⟨fun _ => [], ?_⟩
  constructor <;> simp [fsInit]

theorem FsStep.valid (step : FsStep fs event after) (valid : Valid fs) : Valid after := by
  obtain ⟨chain, layout⟩ := valid
  exact step.effect.layout layout

theorem valid_of_run (run : Run FsStep (fsInit boot) trace fs) : Valid fs :=
  run.invariant (valid_fsInit boot) (fun _ _ _ valid step => step.valid valid)

section Bounds

theorem fsWriteSlot_inside {name : CString} : fsWriteSlot fs idx name keys ≠ .error .outOfBounds := by
  intro failed
  rcases bind_eq_error.mp failed with early | ⟨input, _, late⟩
  · exact collectLines_inside early
  · simp only [storeTotal_eq] at late
    split at late <;> cases late

theorem fsWrite_inside {name dir : CString} : fsWrite fs name dir keys ≠ .error .outOfBounds := by
  intro failed
  unfold fsWrite at failed
  split at failed
  · cases failed
  · split at failed
    · exact fsWriteSlot_inside failed
    · split at failed
      · cases failed
      · simp only [setField_eq, bind, Except.bind] at failed
        exact fsWriteSlot_inside failed

theorem fsEdit_inside {name dir : CString} (layout : Layout fs.fat fs.files chain) :
    fsEdit fs name dir keys ≠ .error .outOfBounds := by
  intro failed
  unfold fsEdit at failed
  split at failed
  · cases failed
  · split at failed
    · cases failed
    · rename_i found
      have owned := layout.owned _ (findFile_some found).1
      obtain ⟨copied, run, _⟩ := owned.copyChain_exists fs.editTmp
      rcases bind_eq_error.mp failed with early | ⟨tmp, _, failed⟩
      · simp [run, inBounds] at early
      · rcases bind_eq_error.mp failed with early | ⟨input, _, late⟩
        · exact collectLines_inside early
        · simp only [storeTotal_eq] at late
          split at late <;> cases late

theorem fsDelete_inside {name dir : CString} : fsDelete fs name dir keys ≠ .error .outOfBounds := by
  intro failed
  unfold fsDelete at failed
  split at failed
  · cases failed
  · split at failed
    · cases failed
    · rename_i idx _
      rcases bind_eq_error.mp failed with early | ⟨typed, _, late⟩
      · exact readlineLoop_inside (by decide) early
      · split at late
        · cases late
        · obtain ⟨cleared, stored⟩ := (fs.files idx).name.store_exists 0 [0] (by decide)
          simp only [stored, inBounds, bind, Except.bind, pure, Except.pure] at late
          cases late

theorem fsCopy_inside {src dst dir : CString} (layout : Layout fs.fat fs.files chain) :
    fsCopy fs src dst dir keys ≠ .error .outOfBounds := by
  intro failed
  unfold fsCopy at failed
  split at failed
  · cases failed
  · split at failed
    · cases failed
    · rename_i found
      have owned := layout.owned _ (findFile_some found).1
      obtain ⟨copied, run, _⟩ := owned.copyChain_exists fs.copyTmp
      split at failed
      · cases failed
      · split at failed
        · cases failed
        · simp only [run, inBounds, setField_eq, bind, Except.bind] at failed
          split at failed <;> cases failed

theorem FsOp.run_inside (layout : Layout fs.fat fs.files chain) :
    op.run fs keys ≠ .error .outOfBounds := by
  cases op with
  | write name dir => exact fsWrite_inside
  | read name dir =>
      simp only [FsOp.run, fsRead]
      split
      · simp [pure, Except.pure]
      · split <;> simp [pure, Except.pure]
  | edit name dir => exact fsEdit_inside layout
  | delete name dir => exact fsDelete_inside
  | rename oldname newname dir =>
      simp only [FsOp.run, fsRename, setField_eq, bind, Except.bind, pure, Except.pure]
      split
      · simp
      · split
        · simp
        · split <;> simp
  | copy src dst dir => exact fsCopy_inside layout

end Bounds

/-- The representation invariant of the allocation table. -/
structure FatInvariant (fs : FileSystem) : Prop where
  empty_iff : ∀ i, (fs.files i).used = true →
    ((fs.files i).firstBlock = fatEnd ↔ (fs.files i).size = 0)
  chained : ∀ i, (fs.files i).used = true → ∃ cells : List BlockIndex,
    FatChain fs.fat (fs.files i).firstBlock cells ∧ cells.Nodup ∧
    cells.length = blocksFor (fs.files i).size ∧
    (∀ last, cells.getLast? = some last → fs.fat last = fatEnd) ∧
    ∀ block ∈ cells, fs.fat block ≠ fatFree
  bounded : ∀ i, (fs.files i).used = true → (fs.files i).size ≤ 262144
  disjoint : ∀ i j, (fs.files i).used = true → (fs.files j).used = true → i ≠ j →
    ∀ cells other, FatChain fs.fat (fs.files i).firstBlock cells →
      FatChain fs.fat (fs.files j).firstBlock other → cells.Disjoint other

theorem Layout.fatInvariant (layout : Layout fs.fat fs.files chain) : FatInvariant fs where
  empty_iff i used := (layout.owned i used).empty_iff
  chained i used := by
    have owned := layout.owned i used
    exact ⟨chain i, owned.linked, owned.linked.nodup, owned.length,
      fun _ last => Linked.getLast owned.linked last, owned.used⟩
  bounded i used := (layout.owned i used).size_le
  disjoint i j usedI usedJ different cells other linked linkedOther := by
    have apart := layout.separate i j usedI usedJ different
    rwa [(layout.owned i usedI).linked.unique linked, (layout.owned j usedJ).linked.unique linkedOther]
      at apart

/-- After any run, also one with commands that ended in a full disk, the table
represents the used entries, and no command leaves its buffers. The free
marker is 0, so that no entry of a chain is a link to block 0 either. -/
theorem fatInvariant_of_run (run : Run FsStep (fsInit boot) trace fs) :
    FatInvariant fs ∧ ∀ (op : FsOp) (keys : List UInt8), op.run fs keys ≠ .error .outOfBounds := by
  obtain ⟨chain, layout⟩ := valid_of_run run
  exact ⟨layout.fatInvariant, fun _ _ => FsOp.run_inside layout⟩

def sampleName : CString :=
  ⟨[97], by decide⟩

def otherName : CString :=
  ⟨[98], by decide⟩

def copyName : CString :=
  ⟨[99], by decide⟩

def rootDir : CString :=
  ⟨[47], by decide⟩

theorem sample_verbatim : Verbatim [120] :=
  ⟨by decide, by decide, by decide, by decide⟩

/-- A file of one line, written right after boot. -/
theorem fatInvariant_after_write : ∃ outcome,
    fsWrite (fsInit bss) sampleName rootDir (typedText [[120]] ++ (terminator.chars ++ [newline])) =
      .ok outcome ∧ outcome.report = .done ∧ FatInvariant outcome.fs := by
  obtain ⟨outcome, run, done, _⟩ := fsWrite_creates [[120]] (show sampleName.chars ≠ [] by decide)
    (findFile_fsInit bss sampleName rootDir) (findFreeSlot_fsInit bss)
    (by simpa using sample_verbatim) (by decide) (by rw [freeBlocks_fsInit]; decide)
  have step : FsStep (fsInit bss)
      ⟨.write sampleName rootDir, typedText [[120]] ++ (terminator.chars ++ [newline]), .done⟩ outcome.fs :=
    ⟨outcome, run, rfl, done⟩
  exact ⟨outcome, run, done, (fatInvariant_of_run (.next .done step)).1⟩

end DugOS.Fs
