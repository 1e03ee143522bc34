import DugOS.Fs.Effects
import DugOS.Shell.Dispatch

namespace DugOS

open Data

/-! What a command takes from the keyboard.

A command reads from the front of the stream of keys, and what it does not read
is left for the next line in the order in which it was typed.
-/

variable {keys : List UInt8} {n len : Nat} {accepts : UInt8 → Bool} {buf : Buffer len}

theorem readlineLoop_suffix {typed : Typed len} (read : readlineLoop accepts buf n keys = .ok typed) :
    typed.keys <:+ keys := by
  induction keys generalizing buf n typed with
  | nil => simp [readlineLoop] at read
  | cons c keys ih =>
      simp only [readlineLoop] at read
      split at read
      · obtain ⟨after, stored, result⟩ := bind_eq_ok.mp read
        cases result
        exact List.suffix_cons c keys
      · split at read
        · split at read
          · obtain ⟨inner, run, rfl⟩ := map_eq_ok.mp read
            exact (ih run).trans (List.suffix_cons c keys)
          · exact (ih read).trans (List.suffix_cons c keys)
        · split at read
          · obtain ⟨after, _, result⟩ := bind_eq_ok.mp read
            obtain ⟨inner, run, rfl⟩ := map_eq_ok.mp result
            exact (ih run).trans (List.suffix_cons c keys)
          · exact (ih read).trans (List.suffix_cons c keys)

theorem readlineLoop_blocked (inside : n < len) (noNewline : newline ∉ keys) :
    readlineLoop accepts buf n keys = .error .blocked := by
  induction keys generalizing buf n with
  | nil => rfl
  | cons c keys ih =>
      simp only [List.mem_cons, not_or] at noNewline
      rw [readlineLoop, if_neg (Ne.symm noNewline.1)]
      split
      · split
        · rw [ih (by omega) noNewline.2]
          rfl
        · exact ih inside noNewline.2
      · split
        · rename_i fits
          obtain ⟨after, stored⟩ := buf.store_exists n [c] (by simpa using Nat.succ_le_of_lt inside)
          simp only [stored, inBounds, bind, Except.bind]
          rw [ih (by omega) noNewline.2]
          rfl
        · exact ih inside noNewline.2

namespace Fs

variable {fs : FileSystem} {outcome : Outcome} {name dir : CString}

theorem collectLines_suffix {line : Buffer 256} {tmp : Buffer tmpSize} {total : Nat} {input : Input}
    (collected : collectLines line tmp total keys = .ok input) : input.keys <:+ keys := by
  generalize size : keys.length = count
  induction count using Nat.strongRecOn generalizing line tmp total keys input with
  | ind count ih =>
      cases read : readline line keys with
      | error reason =>
          rw [collectLines] at collected
          split at collected
          · cases collected
          · rename_i found
            cases read.symm.trans found
      | ok typed =>
          have fewer := (readlineLoop_ok read).1
          have behind := readlineLoop_suffix read
          obtain ⟨trimmed, _, _, turn⟩ := collectLines_turn tmp total read
          rw [turn] at collected
          split at collected
          · cases collected
            exact behind
          · split at collected
            · obtain ⟨stored, _, collected⟩ := bind_eq_ok.mp collected
              obtain ⟨ended, _, collected⟩ := bind_eq_ok.mp collected
              obtain ⟨later, run, rfl⟩ := map_eq_ok.mp collected
              exact (ih _ (size ▸ fewer) run rfl).trans behind
            · obtain ⟨later, run, rfl⟩ := map_eq_ok.mp collected
              exact (ih _ (size ▸ fewer) run rfl).trans behind

theorem fsWriteSlot_suffix {idx : FileIndex} (run : fsWriteSlot fs idx name keys = .ok outcome) :
    outcome.keys <:+ keys := by
  obtain ⟨input, collected, run⟩ := bind_eq_ok.mp run
  have behind := collectLines_suffix collected
  simp only at run
  split at run <;> cases run <;> exact behind

theorem fsWrite_suffix (run : fsWrite fs name dir keys = .ok outcome) : outcome.keys <:+ keys := by
  unfold fsWrite at run
  split at run
  · cases run
    exact List.suffix_refl keys
  · split at run
    · exact fsWriteSlot_suffix run
    · split at run
      · cases run
        exact List.suffix_refl keys
      · obtain ⟨_, _, run⟩ := bind_eq_ok.mp run
        obtain ⟨_, _, run⟩ := bind_eq_ok.mp run
        exact fsWriteSlot_suffix run

theorem fsEdit_suffix (run : fsEdit fs name dir keys = .ok outcome) : outcome.keys <:+ keys := by
  unfold fsEdit at run
  split at run
  · cases run
    exact List.suffix_refl keys
  · split at run
    · cases run
      exact List.suffix_refl keys
    · obtain ⟨_, _, run⟩ := bind_eq_ok.mp run
      obtain ⟨input, collected, run⟩ := bind_eq_ok.mp run
      have behind := collectLines_suffix collected
      simp only at run
      split at run <;> cases run <;> exact behind

theorem fsDelete_suffix (run : fsDelete fs name dir keys = .ok outcome) : outcome.keys <:+ keys := by
  unfold fsDelete at run
  split at run
  · cases run
    exact List.suffix_refl keys
  · split at run
    · cases run
      exact List.suffix_refl keys
    · obtain ⟨typed, read, run⟩ := bind_eq_ok.mp run
      have behind := readlineLoop_suffix read
      split at run
      · cases run
        exact behind
      · obtain ⟨_, _, run⟩ := bind_eq_ok.mp run
        cases run
        exact behind

/-- The other commands on files ask for nothing. -/
theorem fsRead_keys (run : fsRead fs name dir keys = .ok outcome) : outcome.keys = keys := by
  unfold fsRead at run
  split at run
  · cases run
    rfl
  · split at run <;> cases run <;> rfl

theorem fsRename_keys {newname : CString} (run : fsRename fs name newname dir keys = .ok outcome) :
    outcome.keys = keys := by
  simp only [fsRename, setField_eq, bind, Except.bind, pure, Except.pure] at run
  split at run
  · cases run
    rfl
  · split at run
    · cases run
      rfl
    · split at run <;> cases run <;> rfl

theorem fsCopy_keys {dst : CString} (run : fsCopy fs name dst dir keys = .ok outcome) : outcome.keys = keys := by
  simp only [fsCopy, setField_eq, bind, Except.bind, pure, Except.pure] at run
  split at run
  · cases run
    rfl
  · split at run
    · cases run
      rfl
    · split at run
      · cases run
        rfl
      · split at run
        · cases run
          rfl
        · split at run
          · cases run
          · split at run <;> cases run <;> rfl

theorem FsOp.run_suffix {op : FsOp} (run : op.run fs keys = .ok outcome) : outcome.keys <:+ keys := by
  cases op with
  | write name dir => exact fsWrite_suffix run
  | read name dir => exact fsRead_keys run ▸ List.suffix_refl keys
  | edit name dir => exact fsEdit_suffix run
  | delete name dir => exact fsDelete_suffix run
  | rename oldname newname dir => exact fsRename_keys run ▸ List.suffix_refl keys
  | copy src dst dir => exact fsCopy_keys run ▸ List.suffix_refl keys

end Fs

namespace Dir

variable {dir : DirState} {files : Fs.FileIndex → Fs.FileEntry} {name : CString} {outcome : DirOutcome}

theorem dirRmdir_suffix (run : dirRmdir dir files name keys = .ok outcome) : outcome.keys <:+ keys := by
  unfold dirRmdir at run
  split at run
  · cases run
    exact List.suffix_refl keys
  · obtain ⟨target, _, run⟩ := bind_eq_ok.mp run
    obtain ⟨order, _, run⟩ := bind_eq_ok.mp run
    split at run
    · cases run
      exact List.suffix_refl keys
    · obtain ⟨idx, _, run⟩ := bind_eq_ok.mp run
      split at run
      · cases run
        exact List.suffix_refl keys
      · split at run
        · cases run
          exact List.suffix_refl keys
        · obtain ⟨path, _, run⟩ := bind_eq_ok.mp run
          split at run
          · cases run
            exact List.suffix_refl keys
          · obtain ⟨typed, read, run⟩ := bind_eq_ok.mp run
            have behind := readlineLoop_suffix read
            split at run
            · cases run
              exact behind
            · obtain ⟨_, _, run⟩ := bind_eq_ok.mp run
              cases run
              exact behind

theorem DirOp.run_suffix {op : DirOp} (run : op.run dir files keys = .ok outcome) : outcome.keys <:+ keys := by
  cases op with
  | mkdir name =>
      simp only [DirOp.run, dirMkdir] at run
      split at run
      · cases run
        exact List.suffix_refl keys
      · split at run
        · cases run
          exact List.suffix_refl keys
        · obtain ⟨newpath, _, run⟩ := bind_eq_ok.mp run
          obtain ⟨found, _, run⟩ := bind_eq_ok.mp run
          split at run
          · cases run
            exact List.suffix_refl keys
          · obtain ⟨_, _, run⟩ := bind_eq_ok.mp run
            obtain ⟨_, _, run⟩ := bind_eq_ok.mp run
            obtain ⟨_, _, run⟩ := bind_eq_ok.mp run
            cases run
            exact List.suffix_refl keys
  | cd target =>
      simp only [DirOp.run, dirCd] at run
      split at run
      · cases run
        exact List.suffix_refl keys
      · obtain ⟨newpath, _, run⟩ := bind_eq_ok.mp run
        obtain ⟨idx, _, run⟩ := bind_eq_ok.mp run
        split at run
        · cases run
          exact List.suffix_refl keys
        · obtain ⟨_, _, run⟩ := bind_eq_ok.mp run
          cases run
          exact List.suffix_refl keys
  | rmdir name => exact dirRmdir_suffix run

end Dir

namespace Shell

variable {state : ShellState} {outcome : ShellOutcome}

theorem Command.run_suffix {cmd : CString} {request : Command} (run : request.run state cmd keys = .ok outcome) :
    outcome.keys <:+ keys := by
  cases request with
  | help | clear | whoami | unknown =>
      cases run
      exact List.suffix_refl keys
  | shutdown => cases run
  | pwd =>
      obtain ⟨cwd, _, run⟩ := bind_eq_ok.mp run
      cases run
      exact List.suffix_refl keys
  | ls =>
      obtain ⟨screen, _, run⟩ := bind_eq_ok.mp run
      cases run
      exact List.suffix_refl keys
  | file op located =>
      obtain ⟨row, _, run⟩ := bind_eq_ok.mp run
      obtain ⟨dir, _, run⟩ := bind_eq_ok.mp run
      obtain ⟨result, ran, run⟩ := bind_eq_ok.mp run
      cases run
      exact Fs.FsOp.run_suffix ran
  | directory op =>
      obtain ⟨result, ran, run⟩ := bind_eq_ok.mp run
      cases run
      exact Dir.DirOp.run_suffix ran

theorem shellDispatch_suffix {argv : List CString} (run : shellDispatch state argv keys = .ok outcome) :
    outcome.keys <:+ keys := by
  obtain ⟨cmd, _, run⟩ := bind_eq_ok.mp run
  exact Command.run_suffix run

end Shell

end DugOS
