import DugOS.Dir.Resolution
import DugOS.Shell.Consistency

namespace DugOS.Shell

open Data Fs Dir

/-! `mkdir`, `cd` and `rmdir` on one name, in every state that the shell can
reach. No path of the run before is assumed to fit its row. -/

/-- What every command keeps, whatever it is given: the table is not empty and
starts with the root, and a file is only in a directory whose row ends. -/
structure Sound (state : ShellState) : Prop where
  bounded : state.dir.dirCount ≤ dirMax
  cwd : state.dir.cwdIdx < state.dir.dirCount
  root : ∃ row, state.dir.row 0 = .ok row ∧ Spells row rootPath
  placed : Placed state.fs.files state.dir.spelled

variable {bootDirs start dir after : DirState} {boot fs : FileSystem} {state : ShellState} {keys : List UInt8}
  {op : DirOp} {outcome : DirOutcome} {name : CString} {path : Buffer dirNameLen}
  {trace : List (Transition ShellState ShellEvent)}

theorem Sound.lists_root (sound : Sound state) : state.dir.Lists rootPath := by
  obtain ⟨row, found, spells⟩ := sound.root
  exact ⟨0, Nat.zero_lt_of_lt sound.cwd, row, found, spells⟩

theorem Sound.dirString (sound : Sound state) {i : FileIndex} (used : (state.fs.files i).used = true) :
    state.dir.Lists (state.fs.files i).dirString := by
  obtain ⟨text, stored, known⟩ := sound.placed i used
  have lists := (DirState.mem_spelled sound.bounded).mp known
  rwa [FileEntry.dirString_of_field stored lists.length_lt]

/-- Files stay in their directories as long as these are still listed. -/
theorem Sound.placed_after (sound : Sound ⟨dir, fs⟩) (bounded : after.dirCount ≤ dirMax)
    (kept : ∀ i, (fs.files i).used = true → ∀ text, (fs.files i).dirString = text → dir.Lists text →
      after.Lists text) : Placed fs.files after.spelled := by
  intro i used
  obtain ⟨text, stored, known⟩ := sound.placed i used
  have lists : dir.Lists text.chars := (DirState.mem_spelled sound.bounded).mp known
  refine ⟨text, stored, (DirState.mem_spelled bounded).mpr ?_⟩
  exact kept i used text.chars (FileEntry.dirString_of_field stored lists.length_lt) lists

theorem Sound.mkdir (sound : Sound ⟨dir, fs⟩) (run : dirMkdir dir name keys = .ok outcome) :
    Sound ⟨outcome.dir, fs⟩ := by
  rcases dirMkdir_cases run with ⟨_, same⟩ | ⟨newpath, _, appended⟩
  · rwa [same]
  · have count := appended.count
    have inside : dir.cwdIdx < dir.dirCount := sound.cwd
    have bounded : outcome.dir.dirCount ≤ dirMax := by
      rw [count]
      exact appended.room
    constructor
    case bounded => exact bounded
    case cwd =>
      change outcome.dir.cwdIdx < outcome.dir.dirCount
      rw [appended.cwd, count]
      exact Nat.lt_succ_of_lt inside
    case root =>
      obtain ⟨first, found, spells⟩ := sound.root
      exact ⟨first, (appended.kept 0 (Nat.zero_lt_of_lt inside)).trans found, spells⟩
    case placed =>
      apply sound.placed_after bounded
      intro i _ text _ lists
      obtain ⟨k, below, other, found, spells⟩ := lists
      exact ⟨k, by omega, other, (appended.kept k below).trans found, spells⟩

theorem Sound.cd (sound : Sound ⟨dir, fs⟩) (run : dirCd dir name keys = .ok outcome) :
    Sound ⟨outcome.dir, fs⟩ := by
  rcases dirCd_cases run with same | ⟨idx, below, result⟩
  · rwa [same]
  · rw [result]
    exact ⟨sound.bounded, below, sound.root, sound.placed⟩

theorem Sound.rmdir (sound : Sound ⟨dir, fs⟩) (run : dirRmdir dir fs.files name keys = .ok outcome) :
    Sound ⟨outcome.dir, fs⟩ := by
  rcases dirRmdir_cases run with ⟨_, same⟩ | ⟨_, idx, target, removed⟩
  · rwa [same]
  · have below := removed.below
    have notCwd := removed.notCwd
    obtain ⟨row, found, spells⟩ := removed.found
    obtain ⟨count, cwd, kept, moved⟩ := removeRow_rows below removed.result
    obtain ⟨first, foundFirst, rootSpells⟩ := sound.root
    have inside : dir.cwdIdx < dir.dirCount := sound.cwd
    have limit : dir.dirCount ≤ dirMax := sound.bounded
    -- the root is not the row that is removed
    have positive : 0 < idx := by
      apply Nat.pos_of_ne_zero
      intro zero
      subst zero
      cases found.symm.trans foundFirst
      exact removed.notRoot (spells.text.symm.trans rootSpells.text)
    have bounded : outcome.dir.dirCount ≤ dirMax := by omega
    constructor
    case bounded => exact bounded
    case cwd =>
      change outcome.dir.cwdIdx < outcome.dir.dirCount
      rw [cwd, count]
      split <;> omega
    case root => exact ⟨first, (kept 0 positive).trans foundFirst, rootSpells⟩
    case placed =>
      apply sound.placed_after bounded
      intro i used text reads lists
      obtain ⟨k, belowK, other, foundK, spellsK⟩ := lists
      rcases Nat.lt_trichotomy k idx with before | same | behind
      · exact ⟨k, by omega, other, (kept k before).trans foundK, spellsK⟩
      · subst same
        cases found.symm.trans foundK
        exact absurd (reads.trans (spellsK.text.symm.trans spells.text)) 
          (fsDirEmpty_iff.mp removed.empty i used)
      · obtain ⟨copy, foundCopy, copyText⟩ := moved (k - 1) other (by omega) (by omega)
          (by rw [Nat.sub_add_cancel (by omega)]; exact foundK)
        exact ⟨k - 1, by omega, copy, foundCopy, spellsK.of_text copyText⟩

theorem Sound.directory (sound : Sound ⟨dir, fs⟩) (run : op.run dir fs.files keys = .ok outcome) :
    Sound ⟨outcome.dir, fs⟩ := by
  cases op with
  | mkdir name => exact sound.mkdir run
  | cd target => exact sound.cd run
  | rmdir name => exact sound.rmdir run

theorem sound_init (init : dirInit bootDirs = .ok start) (boot : FileSystem) : Sound ⟨start, fsInit boot⟩ := by
  have holds := holds_dirInit init
  refine ⟨holds.count ▸ holds.bounded, holds.count ▸ holds.cwd, holds.rows 0 rootPath rfl, ?_⟩
  intro i used
  cases used

theorem ShellStep.sound {event : ShellEvent} {next : ShellState} (sound : Sound state)
    (step : ShellStep state event next) : Sound next := by
  obtain ⟨outcome, dispatched, rfl⟩ := step
  obtain ⟨cmd, _, run⟩ := bind_eq_ok.mp dispatched
  rcases Command.run_cases run with same | ⟨op, row, result, found, read, ran, next⟩ | ⟨op, result, _, ran, next⟩
  · rwa [same]
  · have inside : op.dir.chars ∈ state.dir.spelled :=
      (DirState.mem_spelled sound.bounded).mpr ⟨_, sound.cwd, row, found, spells_of_asString read⟩
    rw [next]
    exact ⟨sound.bounded, sound.cwd, sound.root, placed_of_effect (op.run_effect ran) sound.placed inside⟩
  · rw [next]
    exact sound.directory ran

theorem sound_of_run (init : dirInit bootDirs = .ok start) (run : Run ShellStep ⟨start, fsInit boot⟩ trace state) :
    Sound state :=
  run.invariant (sound_init init boot) (fun _ _ _ sound step => step.sound sound)

/-- A directory that `mkdir` has just made under a name is the one that `cd`
enters under that name, unless the name means the parent, and the one that
`rmdir` takes away again. -/
theorem names_resolve_alike (init : dirInit bootDirs = .ok start)
    (run : Run ShellStep ⟨start, fsInit boot⟩ trace state) (nonempty : name.chars ≠ [])
    (built : buildPath state.dir (.zeros dirNameLen) name = .ok path) (short : (cstr path.bytes).length ≤ 63)
    (made : dirMkdir state.dir name keys = .ok outcome) (done : outcome.report = .done) :
    outcome.dir.paths = state.dir.paths ++ [cstr path.bytes] ∧
      (name.chars ≠ dotDot.chars → ∀ keys, ∃ moved, dirCd outcome.dir name keys = .ok moved ∧
        moved.report = .done ∧ moved.dir.cwdPath = cstr path.bytes ∧ moved.dir.paths = outcome.dir.paths) ∧
      ∀ keys typed, Dir.readline (.zeros 4) keys = .ok typed → confirmed typed.buf = true →
        ∃ removed, dirRmdir outcome.dir state.fs.files name keys = .ok removed ∧ removed.report = .done ∧
          removed.dir.paths = state.dir.paths ∧ removed.dir.dirCount = state.dir.dirCount ∧
          removed.dir.cwdIdx = state.dir.cwdIdx ∧
          ∀ k, k < state.dir.dirCount → removed.dir.row k = state.dir.row k := by
  have sound := sound_of_run init run
  have terminated : 0 ∈ path.bytes := by
    by_contra unterminated
    rw [cstr_of_noNul unterminated, path.length_eq] at short
    exact absurd short (by decide)
  have appended := dirMkdir_appends built made done
  refine ⟨appended.paths_eq, ?_, ?_⟩
  · intro notParent keys
    obtain ⟨moved, ran, report, entered⟩ :=
      appended.cd terminated nonempty built sound.cwd sound.lists_root notParent keys
    obtain ⟨row, found, spells⟩ := appended.last_spells terminated
    refine ⟨moved, ran, report, ?_, by rw [entered]; rfl⟩
    have here : moved.dir.row moved.dir.cwdIdx = .ok row := by
      rw [entered]
      exact found
    rw [DirState.cwdPath_of_row here, spells.text]
  · intro keys typed asked agreed
    have empty : ∀ i, (state.fs.files i).used = true → (state.fs.files i).dirString ≠ cstr path.bytes := by
      intro i used same
      exact appended.fresh terminated (same ▸ sound.dirString used)
    obtain ⟨removed, ran, report, count, cwd, rows⟩ :=
      appended.rmdir terminated nonempty built sound.cwd sound.lists_root empty asked agreed
    exact ⟨removed, ran, report, DirState.paths_congr count rows, count, cwd, rows⟩

theorem short_token_entered : ∃ start outcome moved, dirInit bssDirs = .ok start ∧
    dirMkdir start shortToken [] = .ok outcome ∧ dirCd outcome.dir shortToken [] = .ok moved ∧
    moved.dir.cwdPath = [slash, 100] := by
  obtain ⟨start, init, path, built, short, text, outcome, made, done⟩ : ∃ start, dirInit bssDirs = .ok start ∧
      ∃ path, buildPath start (.zeros dirNameLen) shortToken = .ok path ∧ (cstr path.bytes).length ≤ 63 ∧
        cstr path.bytes = [slash, 100] ∧
        ∃ outcome, dirMkdir start shortToken [] = .ok outcome ∧ outcome.report = .done :=
    ⟨_, rfl, _, rfl, by decide, by decide, _, rfl, rfl⟩
  obtain ⟨_, enters, _⟩ := names_resolve_alike init (.done : Run ShellStep ⟨start, fsInit bss⟩ [] _) (by decide) built
    short made done
  obtain ⟨moved, ran, _, cwd, _⟩ := enters (by decide) []
  exact ⟨start, outcome, moved, init, made, ran, cwd.trans text⟩

/-- `mkdir ..` makes the directory `/..`, and `cd ..` goes to the parent. -/
theorem parent_name_differs : ∃ start path outcome moved, dirInit bssDirs = .ok start ∧
    buildPath start (.zeros dirNameLen) dotDot = .ok path ∧ (cstr path.bytes).length ≤ 63 ∧
    dirMkdir start dotDot [] = .ok outcome ∧ outcome.report = .done ∧
    outcome.dir.paths = start.paths ++ [cstr path.bytes] ∧
    dirCd outcome.dir dotDot [] = .ok moved ∧ moved.report = .done ∧ moved.dir.cwdPath ≠ cstr path.bytes :=
  ⟨_, _, _, _, rfl, rfl, by decide, rfl, rfl, by decide, rfl, rfl, by decide⟩

end DugOS.Shell
