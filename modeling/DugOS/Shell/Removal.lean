import DugOS.Shell.Resolution

namespace DugOS.Shell

open Data Fs Dir

/-! `rmdir` in every state that the shell can reach.

The working directory is an index into the table that `rmdir` compacts, so the
removal of a row in front of it has to move the index along.
-/

variable {bootDirs start dir after : DirState} {boot fs : FileSystem} {state : ShellState} {keys : List UInt8}
  {outcome : DirOutcome} {name : CString} {path : Buffer dirNameLen}
  {trace : List (Transition ShellState ShellEvent)}

section Distinct

theorem spelled_appended (bounded : dir.dirCount ≤ dirMax) (distinct : dir.spelled.Nodup)
    (appended : Appended dir path after) : after.spelled.Nodup := by
  rw [DirState.spelled, appended.paths_eq, List.filter_append]
  by_cases short : (cstr path.bytes).length < dirNameLen
  · have terminated : 0 ∈ path.bytes := by
      by_contra unterminated
      rw [cstr_of_noNul unterminated, path.length_eq] at short
      exact Nat.lt_irrefl _ short
    have fresh : cstr path.bytes ∉ dir.spelled :=
      fun member => appended.fresh terminated ((DirState.mem_spelled bounded).mp member)
    rw [List.filter_singleton, decide_eq_true short]
    exact distinct.append (List.nodup_singleton _) (by simpa using fresh)
  · rw [List.filter_singleton, decide_eq_false short, cond_false, List.append_nil]
    exact distinct

theorem spelled_removed (bounded : dir.dirCount ≤ dirMax) {idx : Nat} (below : idx < dir.dirCount)
    (distinct : dir.spelled.Nodup) (removed : removeRow dir idx = .ok after) : after.spelled.Nodup := by
  rw [DirState.spelled, removeRow_paths bounded below removed]
  exact distinct.sublist ((List.eraseIdx_sublist _ _).filter _)

theorem ShellStep.distinct {event : ShellEvent} {next : ShellState} (sound : Sound state)
    (distinct : state.dir.spelled.Nodup) (step : ShellStep state event next) : next.dir.spelled.Nodup := by
  obtain ⟨outcome, dispatched, rfl⟩ := step
  obtain ⟨cmd, _, run⟩ := bind_eq_ok.mp dispatched
  rcases Command.run_cases run with same | ⟨op, row, result, _, _, _, next⟩ | ⟨op, result, _, ran, next⟩
  · rwa [same]
  · rwa [next]
  · rw [next]
    cases op with
    | mkdir name =>
        rcases dirMkdir_cases ran with ⟨_, same⟩ | ⟨newpath, _, appended⟩
        · rwa [same]
        · exact spelled_appended sound.bounded distinct appended
    | cd target =>
        rcases dirCd_cases ran with same | ⟨idx, _, same⟩
        · rwa [same]
        · rw [same]
          exact distinct
    | rmdir name =>
        rcases dirRmdir_cases ran with ⟨_, same⟩ | ⟨_, idx, target, removed⟩
        · rwa [same]
        · exact spelled_removed sound.bounded removed.below distinct removed.result

theorem distinct_of_run (init : dirInit bootDirs = .ok start)
    (run : Run ShellStep ⟨start, fsInit boot⟩ trace state) : state.dir.spelled.Nodup := by
  have first : (ShellState.mk start (fsInit boot)).dir.spelled.Nodup := by
    change start.spelled.Nodup
    rw [DirState.spelled, (holds_dirInit init).paths_eq]
    exact (List.nodup_singleton _).sublist List.filter_sublist
  let held := fun state : ShellState => Sound state ∧ state.dir.spelled.Nodup
  have both : held state := by
    apply run.invariant ⟨sound_init init boot, first⟩
    intro before event after known step
    exact ⟨step.sound known.1, step.distinct known.1 known.2⟩
  exact both.2

end Distinct

section Removal

theorem spelled_eq_paths (ended : ∀ k, k < dir.dirCount → ∃ row, dir.row k = .ok row ∧ 0 ∈ row.bytes) :
    dir.spelled = dir.paths := by
  apply List.filter_eq_self.mpr
  intro text member
  obtain ⟨k, listed⟩ := List.mem_iff_getElem?.mp member
  have below : k < dir.dirCount := by
    rw [← DirState.length_paths]
    exact (List.getElem?_eq_some_iff.mp listed).1
  obtain ⟨row, found, terminated⟩ := ended k below
  rw [DirState.getElem?_paths below found, Option.some.injEq] at listed
  have spells : Spells row text := ⟨terminated, listed⟩
  exact decide_eq_true spells.length_lt

/-- Erasing the one row that spells `target`. -/
theorem removed_paths {files : FileIndex → FileEntry} {idx : Nat} {target : CString} (bounded : dir.dirCount ≤ dirMax)
    (distinct : dir.paths.Nodup) (removed : Removed dir files name keys idx target after) :
    target.chars ∈ dir.paths ∧ after.paths = dir.paths.erase target.chars ∧ target.chars ∉ after.paths := by
  obtain ⟨row, found, spells⟩ := removed.found
  have listed := DirState.getElem?_paths removed.below found
  rw [spells.text] at listed
  obtain ⟨inside, here⟩ := List.getElem?_eq_some_iff.mp listed
  have erased : after.paths = dir.paths.erase target.chars := by
    rw [removeRow_paths bounded removed.below removed.result, ← here, distinct.erase_getElem]
  refine ⟨List.mem_of_getElem? listed, erased, ?_⟩
  rw [erased]
  exact distinct.not_mem_erase

theorem removed_ne_cwdPath {files : FileIndex → FileEntry} {idx : Nat} {target : CString}
    (bounded : dir.dirCount ≤ dirMax) (inside : dir.cwdIdx < dir.dirCount) (distinct : dir.paths.Nodup)
    (removed : Removed dir files name keys idx target after) : target.chars ≠ dir.cwdPath := by
  intro same
  obtain ⟨row, found, spells⟩ := removed.found
  have cwdFound : dir.row dir.cwdIdx = .ok (dir.dirs ⟨dir.cwdIdx, by omega⟩) := DirState.row_of_lt _
  have here := DirState.getElem?_paths removed.below found
  have there := DirState.getElem?_paths inside cwdFound
  rw [← DirState.cwdPath_of_row cwdFound, ← same, ← spells.text] at there
  have shorter : idx < dir.paths.length := (List.getElem?_eq_some_iff.mp here).1
  exact removed.notCwd ((List.getElem?_inj shorter distinct).mp (here.trans there.symm))

/-- `rmdir` takes the path that it was given out of the table, and leaves the
working directory, the other rows and all files as they are. If it does not get
that far, it changes nothing. -/
theorem rmdir_removes_target (init : dirInit bootDirs = .ok start)
    (run : Run ShellStep ⟨start, fsInit boot⟩ trace state)
    (ended : ∀ k, k < state.dir.dirCount → ∃ row, state.dir.row k = .ok row ∧ 0 ∈ row.bytes)
    (name : CString) (keys : List UInt8) :
    (∀ outcome, dirRmdir state.dir state.fs.files name keys = .ok outcome →
      (outcome.report = .done →
        ∃ target, buildPath state.dir (.zeros dirNameLen) name = .ok target ∧ 0 ∈ target.bytes ∧
          cstr target.bytes ∈ state.dir.paths ∧ outcome.dir.paths = state.dir.paths.erase (cstr target.bytes) ∧
          cstr target.bytes ∉ outcome.dir.paths ∧ cstr target.bytes ≠ rootPath ∧
          cstr target.bytes ≠ state.dir.cwdPath ∧
          (∀ i, (state.fs.files i).used = true → (state.fs.files i).dirString ≠ cstr target.bytes) ∧
          (∃ before after, dirGetcwd state.dir = .ok before ∧ dirGetcwd outcome.dir = .ok after ∧
            0 ∈ before.bytes ∧ 0 ∈ after.bytes ∧ cstr after.bytes = cstr before.bytes) ∧
          ∃ typed, Dir.readline (.zeros 4) keys = .ok typed ∧ confirmed typed.buf = true) ∧
      (outcome.report ≠ .done → outcome.dir = state.dir) ∧
      ∀ cmd, (Command.directory (.rmdir name)).run state cmd keys =
        .ok ⟨⟨outcome.dir, state.fs⟩, outcome.keys, outcome.screen⟩) ∧
    (newline ∈ keys → (name.chars.head? = some slash → name.chars.length ≤ 63) →
      ∃ outcome, dirRmdir state.dir state.fs.files name keys = .ok outcome) := by
  have sound := sound_of_run init run
  have distinct := distinct_of_run init run
  rw [spelled_eq_paths ended] at distinct
  constructor
  · intro outcome ran
    have dispatched : ∀ cmd, (Command.directory (.rmdir name)).run state cmd keys =
        .ok ⟨⟨outcome.dir, state.fs⟩, outcome.keys, outcome.screen⟩ := by
      intro cmd
      simp only [Command.run, DirOp.run, ran, bind, Except.bind, pure, Except.pure]
    rcases dirRmdir_cases ran with ⟨failed, same⟩ | ⟨done, idx, text, removed⟩
    · exact ⟨fun done => absurd done failed, fun _ => same, dispatched⟩
    · refine ⟨fun _ => ?_, fun failed => absurd done failed, dispatched⟩
      obtain ⟨target, built, spells⟩ := removed.built
      obtain ⟨present, erased, gone⟩ := removed_paths sound.bounded distinct removed
      obtain ⟨cwdRow, cwdFound, cwdEnds⟩ := ended _ sound.cwd
      obtain ⟨moved, movedFound, movedText⟩ :=
        removeRow_cwdPath sound.bounded sound.cwd removed.below removed.notCwd removed.result
      rw [DirState.cwdPath_of_row cwdFound] at movedText
      have movedSpells : Spells moved (cstr cwdRow.bytes) := Spells.of_text ⟨cwdEnds, rfl⟩ movedText
      refine ⟨target, built, spells.terminated, ?_⟩
      rw [spells.text]
      exact ⟨present, erased, gone, removed.notRoot, removed_ne_cwdPath sound.bounded sound.cwd distinct removed,
        fsDirEmpty_iff.mp removed.empty,
        ⟨cwdRow, moved, cwdFound, movedFound, cwdEnds, movedSpells.terminated, movedText⟩, removed.agreed⟩
  · intro answered within
    exact dirRmdir_returns _ sound.bounded sound.cwd ended within answered

/-- The name `/d`. -/
def rootedToken : CString :=
  ⟨[slash, 100], by decide⟩

/-- `mkdir d`, `mkdir e`, `cd e` and, with the answer `y`, `rmdir /d`. -/
theorem sample_removal : ∃ start made again there outcome, dirInit bssDirs = .ok start ∧
    dirMkdir start shortToken [] = .ok made ∧ dirMkdir made.dir otherToken [] = .ok again ∧
    dirCd again.dir otherToken [] = .ok there ∧ there.dir.cwdIdx = 2 ∧
    there.dir.paths = [rootPath, [slash, 100], [slash, 101]] ∧
    (∃ first second third, there.dir.dirCount = 3 ∧ there.dir.row 0 = .ok first ∧ 0 ∈ first.bytes ∧
      there.dir.row 1 = .ok second ∧ 0 ∈ second.bytes ∧ there.dir.row 2 = .ok third ∧ Spells third [slash, 101]) ∧
    dirRmdir there.dir (fsInit bss).files rootedToken [121, newline] = .ok outcome ∧ outcome.report = .done ∧
    outcome.dir.cwdIdx = 1 ∧
    ∀ target, buildPath there.dir (.zeros dirNameLen) rootedToken = .ok target → cstr target.bytes = [slash, 100] :=
  ⟨_, _, _, _, _, rfl, rfl, rfl, rfl, rfl, by decide, ⟨_, _, _, rfl, rfl, by decide, rfl, by decide, rfl, by decide, by decide⟩,
    rfl, rfl, rfl, fun target built => by
      cases built
      decide⟩

/-- The row in front of the working directory is removed, and its index moves. -/
theorem row_before_cwd_removed : ∃ start trace state outcome after, dirInit bssDirs = .ok start ∧
    Run ShellStep ⟨start, fsInit bss⟩ trace state ∧ trace.map Transition.label =
      [⟨[mkdirWord, shortToken], []⟩, ⟨[mkdirWord, otherToken], []⟩, ⟨[cdWord, otherToken], []⟩] ∧
    dirRmdir state.dir state.fs.files rootedToken [121, newline] = .ok outcome ∧ outcome.report = .done ∧
    state.dir.cwdIdx = 2 ∧ outcome.dir.cwdIdx = 1 ∧ outcome.dir.paths = [rootPath, [slash, 101]] ∧
    dirGetcwd outcome.dir = .ok after ∧ cstr after.bytes = [slash, 101] := by
  obtain ⟨start, made, again, there, outcome, init, makes, makesOther, enters, cwd, paths,
    ⟨first, second, third, count, firstFound, firstEnds, secondFound, secondEnds, thirdFound, thirdSpells⟩,
    removes, done, moved, text⟩ := sample_removal
  have one : ShellStep ⟨start, fsInit bss⟩ ⟨[mkdirWord, shortToken], []⟩ ⟨made.dir, fsInit bss⟩ :=
    .directory rfl rfl makes
  have two : ShellStep ⟨made.dir, fsInit bss⟩ ⟨[mkdirWord, otherToken], []⟩ ⟨again.dir, fsInit bss⟩ :=
    .directory rfl rfl makesOther
  have three : ShellStep ⟨again.dir, fsInit bss⟩ ⟨[cdWord, otherToken], []⟩ ⟨there.dir, fsInit bss⟩ :=
    .directory rfl rfl enters
  have run := ((Run.done.next one).next two).next three
  have ended : ∀ k, k < there.dir.dirCount → ∃ row, there.dir.row k = .ok row ∧ 0 ∈ row.bytes := by
    intro k below
    have oneOf : k = 0 ∨ k = 1 ∨ k = 2 := by omega
    rcases oneOf with rfl | rfl | rfl
    · exact ⟨first, firstFound, firstEnds⟩
    · exact ⟨second, secondFound, secondEnds⟩
    · exact ⟨third, thirdFound, thirdSpells.terminated⟩
  obtain ⟨onlyRemoves, _⟩ := rmdir_removes_target init run ended rootedToken [121, newline]
  obtain ⟨target, built, _, _, erased, _, _, _, _, ⟨before, after, stood, stands, _, _, same⟩, _⟩ :=
    (onlyRemoves outcome removes).1 done
  have here : before = third := by
    have found : there.dir.row there.dir.cwdIdx = .ok before := stood
    rw [cwd, thirdFound] at found
    exact (Except.ok.inj found).symm
  refine ⟨start, _, _, outcome, after, init, run, rfl, removes, done, cwd, moved, ?_, stands, ?_⟩
  · rw [erased, text target built]
    change there.dir.paths.erase [slash, 100] = _
    rw [paths]
    decide
  · rw [same, here, thirdSpells.text]

end Removal

end DugOS.Shell
