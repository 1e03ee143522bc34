import DugOS.Data.Run
import DugOS.Dir.Table
import DugOS.Fs.Progress

namespace DugOS.Dir

open Data Fs

/-! Runs of directory commands, and whether the strings of the table end within
their rows. -/

/-- A completed command, with the file table that `dir_rmdir` looks at and the
keys typed meanwhile. -/
structure DirEvent where
  op : DirOp
  files : FileIndex → FileEntry
  keys : List UInt8
  report : DirReport

def DirStep (dir : DirState) (event : DirEvent) (after : DirState) : Prop :=
  ∃ outcome, event.op.run dir event.files event.keys = .ok outcome ∧ outcome.dir = after ∧
    outcome.report = event.report

/-- The strings of the used rows. -/
def DirState.paths (dir : DirState) : List (List UInt8) :=
  (List.range dir.dirCount).map fun i =>
    match dir.row i with
    | .ok row => cstr row.bytes
    | .error _ => []

variable {boot start dir after : DirState} {paths : List (List UInt8)} {event : DirEvent} {op : DirOp}
  {files : FileIndex → FileEntry} {keys : List UInt8} {name : CString}
  {trace : List (Transition DirState DirEvent)}

theorem Holds.paths_eq (holds : Holds dir paths) : dir.paths = paths := by
  apply List.ext_getElem?
  intro i
  rw [DirState.paths, List.getElem?_map, holds.count]
  by_cases below : i < paths.length
  · obtain ⟨row, found, spells⟩ := holds.rows i _ (List.getElem?_eq_getElem below)
    simp [below, found, spells.text]
  · simp [below]

theorem DirStep.effect (step : DirStep dir event after) (holds : Holds dir paths) (fits : event.op.Fits dir) :
    DirEffect dir event.files paths event.op event.report after := by
  obtain ⟨outcome, run, rfl, report⟩ := step
  rw [← report]
  exact DirOp.run_effect holds fits run

theorem DirEffect.holds {report : DirReport} (effect : DirEffect dir files paths op report after)
    (holds : Holds dir paths) : ∃ paths, Holds after paths := by
  cases effect with
  | unchanged => exact ⟨paths, holds⟩
  | created _ _ holdsAfter => exact ⟨_, holdsAfter⟩
  | entered present =>
      exact ⟨paths, holds.count, holds.bounded, holds.rows, List.idxOf_lt_length_iff.mpr present⟩
  | removed _ _ _ _ _ holdsAfter => exact ⟨_, holdsAfter⟩

theorem holds_dirInit (init : dirInit boot = .ok start) : Holds start [rootPath] := by
  obtain ⟨row, found, init⟩ := bind_eq_ok.mp init
  obtain ⟨written, stored, init⟩ := bind_eq_ok.mp init
  obtain ⟨changed, set, init⟩ := bind_eq_ok.mp init
  cases init
  rw [inBounds_eq_ok] at stored
  obtain ⟨after, again, spells⟩ := Spells.storeRoot row
  cases stored.symm.trans again
  refine ⟨rfl, by decide, ?_, Nat.zero_lt_one⟩
  intro i path known
  cases i with
  | zero =>
      cases known
      change ∃ row, changed.row 0 = .ok row ∧ Spells row rootPath
      exact ⟨written, by rw [DirState.row_setRow set, if_pos rfl], spells⟩
  | succ i => simp at known

theorem holds_of_run (init : dirInit boot = .ok start) (run : Run DirStep start trace dir)
    (fits : ∀ step ∈ trace, step.label.op.Fits step.before) : ∃ paths, Holds dir paths := by
  apply run.invariant_of ⟨_, holds_dirInit init⟩ ?_ fits
  intro before label after held step stepFits
  obtain ⟨paths, holds⟩ := held
  exact (step.effect holds stepFits).holds holds

/-- In a run whose paths all fit, every used row ends, the next path is left with
a zero byte exactly when it fits as well, and no command reads past a row. -/
theorem terminated_of_run (init : dirInit boot = .ok start) (run : Run DirStep start trace dir)
    (fits : ∀ step ∈ trace, step.label.op.Fits step.before) :
    (∀ i, i < dir.dirCount → ∃ row, dir.row i = .ok row ∧ 0 ∈ row.bytes) ∧
      (∀ out name, (∃ path, buildPath dir out name = .ok path ∧ 0 ∈ path.bytes) ↔
        PathFits dir.cwdPath name.chars) ∧
      ∀ (op : DirOp) files keys, op.Fits dir → op.run dir files keys ≠ .error .outOfBounds := by
  obtain ⟨paths, holds⟩ := holds_of_run init run fits
  refine ⟨?_, ?_, fun op files keys next => DirOp.run_inside holds next⟩
  · intro i below
    rw [holds.count] at below
    obtain ⟨row, found, spells⟩ := holds.rows i _ (List.getElem?_eq_getElem below)
    exact ⟨row, found, spells.terminated⟩
  · intro out name
    obtain ⟨row, cwd, _, found, spells, sameCwd⟩ := holds.cwd_row
    rw [sameCwd]
    constructor
    · intro given
      obtain ⟨path, built, terminated⟩ := given
      by_contra long
      exact buildPath_long found spells long built terminated
    · intro short
      obtain ⟨path, built, result⟩ := buildPath_fits found spells out short
      exact ⟨path, built, result.terminated⟩

/-- The static data as the loader leaves it, all zero. -/
def bssDirs : DirState :=
  ⟨fun _ => .zeros dirNameLen, 0, 0⟩

def longToken : CString :=
  ⟨List.replicate 63 97, by decide⟩

set_option maxRecDepth 4000 in
/-- A name of 63 characters fills the path buffer, and the row, in the root. -/
theorem long_token_unterminated : ∃ start path outcome row, dirInit bssDirs = .ok start ∧
    buildPath start (.zeros dirNameLen) longToken = .ok path ∧ 0 ∉ path.bytes ∧
    dirMkdir start longToken [] = .ok outcome ∧ outcome.report = .done ∧ outcome.dir.dirCount = 2 ∧
    outcome.dir.row 1 = .ok row ∧ 0 ∉ row.bytes :=
  ⟨_, _, _, _, rfl, rfl, by decide, rfl, rfl, rfl, rfl, by decide⟩

def shortToken : CString :=
  ⟨[100], by decide⟩

def sampleMkdir : DirEvent :=
  ⟨.mkdir shortToken, bss.files, [], .done⟩

theorem sampleMkdir_step : ∃ start after, dirInit bssDirs = .ok start ∧ DirStep start sampleMkdir after ∧
    sampleMkdir.op.Fits start ∧ after.dirCount = 2 := by
  obtain ⟨start, init, outcome, run, report, count⟩ : ∃ start, dirInit bssDirs = .ok start ∧
      ∃ outcome, dirMkdir start shortToken [] = .ok outcome ∧ outcome.report = .done ∧
        outcome.dir.dirCount = 2 :=
    ⟨_, rfl, _, rfl, rfl, rfl⟩
  refine ⟨start, outcome.dir, init, ⟨outcome, run, rfl, report⟩, ?_, count⟩
  intro _ _
  rw [List.mem_singleton.mp (holds_dirInit init).cwdPath_mem]
  decide

def DirEvent.completed (op : DirOp) : DirEvent :=
  ⟨op, bss.files, [], .done⟩

def otherToken : CString :=
  ⟨[101], by decide⟩

/-- `mkdir d` and `cd d`. -/
theorem sample_enter : ∃ start made there row, dirInit bssDirs = .ok start ∧ start.cwdPath = rootPath ∧
    dirMkdir start shortToken [] = .ok made ∧ made.dir.cwdPath = rootPath ∧ dirCd made.dir shortToken [] = .ok there ∧
    there.dir.row there.dir.cwdIdx = .ok row ∧ Spells row [slash, 100] :=
  ⟨_, _, _, _, rfl, by decide, rfl, by decide, rfl, rfl, by decide, by decide⟩

/-- `mkdir d`, `cd d`, `mkdir e` and, with the answer `y`, `rmdir e`. -/
theorem sample_descent : ∃ start made there inner gone, dirInit bssDirs = .ok start ∧ start.cwdPath = rootPath ∧
    dirMkdir start shortToken [] = .ok made ∧ made.report = .done ∧ made.dir.cwdPath = rootPath ∧
    dirCd made.dir shortToken [] = .ok there ∧ there.report = .done ∧ there.dir.cwdPath = [slash, 100] ∧
    there.dir.paths = [rootPath, [slash, 100]] ∧
    dirMkdir there.dir otherToken [] = .ok inner ∧ inner.report = .done ∧ inner.dir.cwdPath = [slash, 100] ∧
    inner.dir.paths = [rootPath, [slash, 100], [slash, 100, slash, 101]] ∧
    dirRmdir inner.dir bss.files otherToken [121, newline] = .ok gone ∧ gone.report = .done ∧
    gone.dir.cwdPath = [slash, 100] :=
  ⟨_, _, _, _, _, rfl, by decide, rfl, rfl, by decide, rfl, rfl, by decide, by decide, rfl, rfl, by decide, by decide,
    rfl, rfl, by decide⟩

theorem short_token_terminated : ∃ start after, dirInit bssDirs = .ok start ∧ DirStep start sampleMkdir after ∧
    after.dirCount = 2 ∧ ∀ i, i < after.dirCount → ∃ row, after.row i = .ok row ∧ 0 ∈ row.bytes := by
  obtain ⟨start, after, init, step, fits, count⟩ := sampleMkdir_step
  exact ⟨start, after, init, step, count,
    (terminated_of_run init (.next .done step) (by simpa using fits)).1⟩

end DugOS.Dir
