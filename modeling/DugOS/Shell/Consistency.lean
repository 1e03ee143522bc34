import DugOS.Dir.Tree
import DugOS.Fs.Leak
import DugOS.Shell.Dispatch

namespace DugOS.Shell

open Data Fs Dir

/-! The directory table and the file table under the commands of the shell.

A file belongs to a directory only by the string in its `dir` field. A command
on files writes no other string there than the path of the working directory,
and a directory is removed only when no field holds its path.
-/

/-- A dispatched line, with the keys typed while its command ran. -/
structure ShellEvent where
  argv : List CString
  keys : List UInt8

def ShellStep (state : ShellState) (event : ShellEvent) (after : ShellState) : Prop :=
  ∃ outcome, shellDispatch state event.argv event.keys = .ok outcome ∧ outcome.state = after

/-- Every path that the command builds fits its buffer. -/
def Command.Fits (state : ShellState) : Command → Prop
  | .directory op => op.Fits state.dir
  | _ => True

def ShellEvent.Fits (state : ShellState) (event : ShellEvent) : Prop :=
  ∀ cmd, event.argv[0]? = some cmd → (command cmd event.argv).Fits state

/-- Every used entry names a directory of the table. -/
def Placed (files : FileIndex → FileEntry) (paths : List (List UInt8)) : Prop :=
  ∀ i, (files i).used = true → ∃ dir : CString, (files i).dir = field dir ∧ dir.chars ∈ paths

structure Consistent (state : ShellState) (paths : List (List UInt8)) : Prop where
  table : WellFormed state.dir paths
  placed : Placed state.fs.files paths

variable {bootDirs start : DirState} {boot fs after : FileSystem} {state : ShellState} {keys : List UInt8}
  {paths : List (List UInt8)} {op : FsOp} {report : Report} {cmd : CString} {event : ShellEvent}
  {outcome : ShellOutcome} {trace : List (Transition ShellState ShellEvent)}

section Files

theorem Placed.update {files : FileIndex → FileEntry} {idx : FileIndex} {entry : FileEntry}
    (placed : Placed files paths)
    (inside : entry.used = true → ∃ dir : CString, entry.dir = field dir ∧ dir.chars ∈ paths) :
    Placed (Function.update files idx entry) paths := by
  intro i used
  by_cases same : i = idx
  · subst same
    rw [Function.update_self] at used ⊢
    exact inside used
  · rw [Function.update_of_ne same] at used ⊢
    exact placed i used

/-- A file command keeps every `dir` field or sets it to its own directory. -/
theorem placed_of_effect (effect : Effect fs keys op report after) (placed : Placed fs.files paths)
    (known : op.dir.chars ∈ paths) : Placed after.files paths := by
  cases effect with
  | refused _ _ _ _ files => rwa [files]
  | printed _ _ _ files => rwa [files]
  | overwritten _ found _ _ files =>
      rw [files]
      exact placed.update (fun _ => placed _ (findFile_some found).1)
  | overwriteFailed _ _ _ _ files =>
      rw [files]
      exact placed.update (fun used => by simp at used)
  | created _ _ _ _ _ files =>
      rw [files]
      exact placed.update (fun _ => ⟨_, rfl, known⟩)
  | createFailed _ _ _ _ _ files =>
      rw [files]
      exact placed.update (fun used => by simp at used)
  | appended _ found _ _ _ files =>
      rw [files]
      exact placed.update (fun _ => placed _ (findFile_some found).1)
  | appendFailed _ found _ _ _ files =>
      rw [files]
      exact placed.update (fun _ => placed _ (findFile_some found).1)
  | deleted _ _ _ _ _ files =>
      rw [files]
      exact placed.update (fun used => by simp at used)
  | renamed _ found _ _ files =>
      rw [files]
      exact placed.update (fun _ => placed _ (findFile_some found).1)
  | copied _ _ _ _ _ _ files =>
      rw [files]
      exact placed.update (fun _ => ⟨_, rfl, known⟩)
  | copyFailed _ _ _ _ _ _ files => rwa [files]

/-- A path of the table, copied into a `dir` field, reads back as it is. -/
theorem dirString_of_path {dir : DirState} {entry : FileEntry} {text : CString} (holds : Holds dir paths)
    (stored : entry.dir = field text) (known : text.chars ∈ paths) : entry.dirString = text.chars := by
  obtain ⟨k, below, same⟩ := List.getElem_of_mem known
  obtain ⟨row, _, spells⟩ := holds.rows k _ (List.getElem?_eq_getElem below)
  have short := spells.length_lt
  rw [same] at short
  exact FileEntry.dirString_of_field stored short

/-- A path leaves the table only when no file is in it. -/
theorem kept_or_empty {dir afterDir : DirState} {dirOp : DirOp} {dirReport : DirReport} {path : List UInt8}
    {files : FileIndex → FileEntry} (effect : DirEffect dir files paths dirOp dirReport afterDir)
    (holds : Holds dir paths) (member : path ∈ paths) :
    path ∈ afterDir.paths ∨ ∀ i, (files i).used = true → (files i).dirString ≠ path := by
  cases effect with
  | unchanged => exact .inl (holds.paths_eq.symm ▸ member)
  | created _ _ holdsAfter =>
      rw [holdsAfter.paths_eq]
      exact .inl (List.mem_append_left _ member)
  | entered present =>
      rw [(holds.enter (List.getElem?_idxOf present)).1.paths_eq]
      exact .inl member
  | @removed name gone _ _ _ _ _ empty holdsAfter =>
      by_cases same : path = gone
      · exact .inr (same ▸ empty)
      · rw [holdsAfter.paths_eq, List.eraseIdx_idxOf_eq_erase]
        exact .inl ((List.mem_erase_of_ne same).mpr member)

theorem placed_of_dirEffect {dir afterDir : DirState} {dirOp : DirOp} {dirReport : DirReport}
    {files : FileIndex → FileEntry} (effect : DirEffect dir files paths dirOp dirReport afterDir)
    (holds : Holds dir paths) (placed : Placed files paths) : Placed files afterDir.paths := by
  intro i used
  obtain ⟨text, stored, known⟩ := placed i used
  have reads : (files i).dirString = text.chars := dirString_of_path holds stored known
  rcases kept_or_empty effect holds known with kept | empty
  · exact ⟨text, stored, kept⟩
  · exact absurd reads (empty i used)

end Files

section Runs

theorem Command.run_consistent {request : Command} (known : Consistent state paths) (fits : request.Fits state)
    (run : request.run state cmd keys = .ok outcome) : ∃ paths, Consistent outcome.state paths := by
  rcases Command.run_cases run with same | ⟨op, row, result, found, read, ran, next⟩ | ⟨op, result, rfl, ran, next⟩
  · exact ⟨paths, same.symm ▸ known⟩
  · obtain ⟨cwdRow, cwd, cwdKnown, foundCwd, spells, _⟩ := known.table.cwd_row
    cases found.symm.trans foundCwd
    have inside : op.dir.chars ∈ paths := by
      rw [Except.ok.inj (read.symm.trans (asString_spells spells))]
      exact List.mem_of_getElem? cwdKnown
    rw [next]
    exact ⟨paths, known.table, placed_of_effect (op.run_effect ran) known.placed inside⟩
  · have effect := DirOp.run_effect known.table.toHolds fits ran
    obtain ⟨pathsAfter, table⟩ := effect.wellFormed known.table
    have placed := placed_of_dirEffect effect known.table.toHolds known.placed
    rw [table.paths_eq] at placed
    rw [next]
    exact ⟨pathsAfter, table, placed⟩

theorem consistent_of_run (init : dirInit bootDirs = .ok start)
    (run : Run ShellStep ⟨start, fsInit boot⟩ trace state)
    (fits : ∀ step ∈ trace, step.label.Fits step.before) : ∃ paths, Consistent state paths := by
  have empty : Placed (fsInit boot).files [rootPath] := by
    intro i used
    cases used
  apply run.invariant_of ⟨_, wellFormed_dirInit init, empty⟩ ?_ fits
  intro before event after held step eventFits
  obtain ⟨paths, known⟩ := held
  obtain ⟨outcome, dispatched, rfl⟩ := step
  obtain ⟨cmd, first, run⟩ := bind_eq_ok.mp dispatched
  exact Command.run_consistent known (eventFits cmd (inBounds_eq_ok.mp first)) run

/-- In every run of shell commands whose directory paths fit their buffer, the
directory table starts with the root and has no duplicates, and every file is in
one of its directories. -/
theorem tables_of_run (init : dirInit bootDirs = .ok start)
    (run : Run ShellStep ⟨start, fsInit boot⟩ trace state)
    (fits : ∀ step ∈ trace, step.label.Fits step.before) :
    (∃ row, state.dir.row 0 = .ok row ∧ Spells row rootPath) ∧
      1 ≤ state.dir.dirCount ∧ state.dir.dirCount ≤ 32 ∧ state.dir.cwdIdx < state.dir.dirCount ∧
      (∀ i, i < state.dir.dirCount → ∃ row, state.dir.row i = .ok row ∧ 0 ∈ row.bytes) ∧
      state.dir.paths.Nodup ∧
      ∀ i, (state.fs.files i).used = true → (state.fs.files i).dirString ∈ state.dir.paths := by
  obtain ⟨paths, known⟩ := consistent_of_run init run fits
  have holds := known.table.toHolds
  rw [holds.paths_eq, holds.count]
  refine ⟨holds.rows 0 _ known.table.root, Nat.lt_of_le_of_lt (Nat.zero_le _) holds.cwd, holds.bounded, holds.cwd,
    ?_, known.table.distinct, ?_⟩
  · intro i below
    obtain ⟨row, found, spells⟩ := holds.rows i _ (List.getElem?_eq_getElem below)
    exact ⟨row, found, spells.terminated⟩
  · intro i used
    obtain ⟨text, stored, member⟩ := known.placed i used
    rwa [dirString_of_path holds stored member]

end Runs

def fwriteWord : CString :=
  ⟨ascii "fwrite", by decide⟩

def mkdirWord : CString :=
  ⟨ascii "mkdir", by decide⟩

def catWord : CString :=
  ⟨ascii "cat", by decide⟩

def cdWord : CString :=
  ⟨ascii "cd", by decide⟩

theorem shellDispatch_of_first {argv : List CString} (first : argv[0]? = some cmd) :
    shellDispatch state argv keys = (command cmd argv).run state cmd keys := by
  rw [shellDispatch, first]
  rfl

/-- A line that is a command on directories. -/
theorem ShellStep.directory {dirOp : DirOp} {argv : List CString} {result : DirOutcome} (first : argv[0]? = some cmd)
    (chosen : command cmd argv = .directory dirOp) (ran : dirOp.run state.dir state.fs.files keys = .ok result) :
    ShellStep state ⟨argv, keys⟩ ⟨result.dir, state.fs⟩ := by
  refine ⟨⟨⟨result.dir, state.fs⟩, result.keys, result.screen⟩, ?_, rfl⟩
  rw [shellDispatch_of_first first, chosen]
  simp only [Command.run, ran, bind, Except.bind, pure, Except.pure]

/-- A line that is a command on files, in the working directory. -/
theorem ShellStep.file {fileOp : CString → FsOp} {located : ∀ cwd, (fileOp cwd).dir = cwd} {argv : List CString}
    {row : Buffer dirNameLen} {path : List UInt8} {result : Outcome} (first : argv[0]? = some cmd)
    (chosen : command cmd argv = .file fileOp located) (found : state.dir.row state.dir.cwdIdx = .ok row)
    (spells : Spells row path) (ran : (fileOp ⟨path, spells.noNul⟩).run state.fs keys = .ok result) :
    ShellStep state ⟨argv, keys⟩ ⟨state.dir, result.fs⟩ := by
  refine ⟨⟨⟨state.dir, result.fs⟩, result.keys, result.screen⟩, ?_, rfl⟩
  rw [shellDispatch_of_first first, chosen]
  simp only [Command.run, dirGetcwd, found, asString_spells spells, ran, bind, Except.bind, pure, Except.pure]

/-- The line `fwrite a`, with the lines of its file behind it. -/
def sampleFwrite : ShellEvent :=
  ⟨[fwriteWord, sampleName], sampleWrite.keys⟩

theorem command_sampleFwrite : ∃ located, command fwriteWord sampleFwrite.argv = .file (.write sampleName) located :=
  ⟨fun _ => rfl, rfl⟩

/-- `mkdir d`, `cd d` and `fwrite a`. -/
theorem file_in_directory : ∃ start trace state, dirInit bssDirs = .ok start ∧
    Run ShellStep ⟨start, fsInit bss⟩ trace state ∧
    trace.map Transition.label = [⟨[mkdirWord, shortToken], []⟩, ⟨[cdWord, shortToken], []⟩, sampleFwrite] ∧
    (state.fs.files 0).used = true ∧ (state.fs.files 0).dirString = [slash, 100] ∧ [slash, 100] ∈ state.dir.paths := by
  obtain ⟨start, made, there, row, init, startCwd, makes, madeCwd, enters, found, spells⟩ := sample_enter
  obtain ⟨written, ⟨result, ran, rfl, _⟩, created⟩ := FsStep.creates [[120]] (show sampleName.chars ≠ [] by decide)
    (findFile_fsInit bss sampleName ⟨[slash, 100], spells.noNul⟩) (findFreeSlot_fsInit bss) (by decide)
    (show [slash, 100].length < fsDirLen by decide) (by simpa using sample_verbatim) (by decide)
    (by rw [freeBlocks_fsInit]; decide)
  obtain ⟨located, chosen⟩ := command_sampleFwrite
  have making : command mkdirWord [mkdirWord, shortToken] = .directory (.mkdir shortToken) := rfl
  have entering : command cdWord [cdWord, shortToken] = .directory (.cd shortToken) := rfl
  have first : ShellStep ⟨start, fsInit bss⟩ ⟨[mkdirWord, shortToken], []⟩ ⟨made.dir, fsInit bss⟩ :=
    .directory rfl making makes
  have second : ShellStep ⟨made.dir, fsInit bss⟩ ⟨[cdWord, shortToken], []⟩ ⟨there.dir, fsInit bss⟩ :=
    .directory rfl entering enters
  have third : ShellStep ⟨there.dir, fsInit bss⟩ sampleFwrite ⟨there.dir, result.fs⟩ := .file rfl chosen found spells ran
  have run := ((Run.done.next first).next second).next third
  obtain ⟨used, _, inside⟩ := findFile_some created.found
  have fits : PathFits rootPath shortToken.chars := by decide
  have writing : command fwriteWord [fwriteWord, sampleName] = .file (.write sampleName) located := chosen
  obtain ⟨_, _, _, _, _, _, placed⟩ := tables_of_run init run (by
    simp [ShellEvent.Fits, sampleFwrite, making, entering, writing, Command.Fits, DirOp.Fits, startCwd, madeCwd, fits])
  have known := placed 0 used
  rw [inside] at known
  exact ⟨start, _, _, init, run, rfl, used, inside, known⟩

end DugOS.Shell
