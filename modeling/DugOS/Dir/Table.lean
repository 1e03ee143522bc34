import DugOS.Dir.Paths

namespace DugOS.Dir

open Data Fs

/-! The directory table as a list of paths, and what each command does to the
list when the paths it builds fit their buffer. -/

/-- The used rows spell `paths`, and the working directory is one of them. -/
structure Holds (dir : DirState) (paths : List (List UInt8)) : Prop where
  count : dir.dirCount = paths.length
  bounded : paths.length ≤ dirMax
  rows : ∀ i path, paths[i]? = some path → ∃ row, dir.row i = .ok row ∧ Spells row path
  cwd : dir.cwdIdx < paths.length

/-- The string that `dir_getcwd` points to. -/
def DirState.cwdPath (dir : DirState) : List UInt8 :=
  match dir.row dir.cwdIdx with
  | .ok row => cstr row.bytes
  | .error _ => []

/-- The path that a command works on, in the working directory `cwd`. -/
def DirOp.target (cwd : List UInt8) : DirOp → List UInt8
  | .mkdir name => joinPath cwd name.chars
  | .cd target =>
      if target.chars = dotDot.chars then parentOf cwd
      else if target.chars = rootPath then rootPath
      else joinPath cwd target.chars
  | .rmdir name => joinPath cwd name.chars

/-- Every path that the command builds fits its buffer. A command that gives up
before it builds one, or takes the parent, asks for nothing. -/
def DirOp.Fits (dir : DirState) : DirOp → Prop
  | .mkdir name => name.chars ≠ [] → dir.dirCount < dirMax → PathFits dir.cwdPath name.chars
  | .cd target => target.chars ≠ [] → target.chars ≠ dotDot.chars → target.chars ≠ rootPath →
      PathFits dir.cwdPath target.chars
  | .rmdir name => name.chars ≠ [] → PathFits dir.cwdPath name.chars

/-- Everything a completed command can have done to the table. -/
inductive DirEffect (dir : DirState) (files : FileIndex → FileEntry) (paths : List (List UInt8)) :
    DirOp → DirReport → DirState → Prop
  | unchanged {op report} (failed : report ≠ .done) : DirEffect dir files paths op report dir
  | created {name after} (room : paths.length < dirMax) (fresh : joinPath dir.cwdPath name.chars ∉ paths)
      (holds : Holds after (paths ++ [joinPath dir.cwdPath name.chars])) (cwd : after.cwdIdx = dir.cwdIdx) :
      DirEffect dir files paths (.mkdir name) .done after
  | entered {name} (present : DirOp.target dir.cwdPath (.cd name) ∈ paths) :
      DirEffect dir files paths (.cd name) .done
        { dir with cwdIdx := paths.idxOf (DirOp.target dir.cwdPath (.cd name)) }
  | removed {name path after} (built : path = joinPath dir.cwdPath name.chars) (notRoot : path ≠ rootPath)
      (present : path ∈ paths) (notCwd : paths.idxOf path ≠ dir.cwdIdx)
      (empty : ∀ i, (files i).used = true → (files i).dirString ≠ path)
      (holds : Holds after (paths.eraseIdx (paths.idxOf path)))
      (cwd : after.cwdIdx = if paths.idxOf path < dir.cwdIdx then dir.cwdIdx - 1 else dir.cwdIdx) :
      DirEffect dir files paths (.rmdir name) .done after

/-- What a command comes to: its effect, or a stop that is not an access outside
of a row or a path buffer. -/
def DirOp.ComesTo (dir : DirState) (files : FileIndex → FileEntry) (paths : List (List UInt8)) (op : DirOp) :
    Except Stop DirOutcome → Prop
  | .ok outcome => DirEffect dir files paths op outcome.report outcome.dir
  | .error stop => stop ≠ .outOfBounds

variable {dir after : DirState} {paths : List (List UInt8)} {path : List UInt8} {buf row : Buffer dirNameLen}
  {i n idx : Nat} {name target : CString} {files : FileIndex → FileEntry} {keys : List UInt8} {outcome : DirOutcome}

section Rows

theorem DirState.row_of_lt (inside : i < dirMax) : dir.row i = .ok (dir.dirs ⟨i, inside⟩) :=
  dif_pos inside

theorem DirState.setRow_of_lt (inside : i < dirMax) (row : Buffer dirNameLen) :
    dir.setRow i row = .ok { dir with dirs := Function.update dir.dirs ⟨i, inside⟩ row } :=
  dif_pos inside

theorem DirState.row_setRow (written : dir.setRow i row = .ok after) (j : Nat) :
    after.row j = if j = i then .ok row else dir.row j := by
  by_cases inside : i < dirMax
  · rw [setRow_of_lt inside] at written
    cases written
    by_cases same : j = i
    · subst same
      rw [if_pos rfl, row_of_lt inside]
      simp
    · rw [if_neg same]
      by_cases insideJ : j < dirMax
      · rw [row_of_lt insideJ, row_of_lt insideJ]
        simp [same]
      · rw [DirState.row, DirState.row, dif_neg insideJ, dif_neg insideJ]
  · rw [DirState.setRow, dif_neg inside] at written
    cases written

theorem DirState.setRow_counts (written : dir.setRow i row = .ok after) :
    after.dirCount = dir.dirCount ∧ after.cwdIdx = dir.cwdIdx := by
  by_cases inside : i < dirMax
  · rw [setRow_of_lt inside] at written
    cases written
    exact ⟨rfl, rfl⟩
  · rw [DirState.setRow, dif_neg inside] at written
    cases written

theorem Holds.cwd_row (holds : Holds dir paths) :
    ∃ row cwd, paths[dir.cwdIdx]? = some cwd ∧ dir.row dir.cwdIdx = .ok row ∧ Spells row cwd ∧
      dir.cwdPath = cwd := by
  obtain ⟨row, found, spells⟩ := holds.rows dir.cwdIdx _ (List.getElem?_eq_getElem holds.cwd)
  exact ⟨row, _, List.getElem?_eq_getElem holds.cwd, found, spells, by rw [DirState.cwdPath, found]; exact spells.text⟩

theorem Holds.cwdPath_mem (holds : Holds dir paths) : dir.cwdPath ∈ paths := by
  obtain ⟨_, cwd, known, _, _, same⟩ := holds.cwd_row
  rw [same]
  exact List.mem_of_getElem? known

end Rows

section Lookup

theorem findDirLoop_eq (holds : Holds dir paths) (spells : Spells buf path) (n i : Nat)
    (left : i + n = paths.length) :
    findDirLoop dir buf.bytes i n =
      .ok (if path ∈ paths.drop i then i + (paths.drop i).idxOf path else dirMax) := by
  induction n generalizing i with
  | zero =>
      have none : paths.drop i = [] := List.drop_of_length_le (by omega)
      simp [findDirLoop, none]
  | succ n ih =>
      have below : i < paths.length := by omega
      have split : paths.drop i = paths[i] :: paths.drop (i + 1) := List.drop_eq_getElem_cons below
      obtain ⟨row, found, rowSpells⟩ := holds.rows i _ (List.getElem?_eq_getElem below)
      obtain ⟨order, compared, same⟩ := rowSpells.kstrcmp buf.bytes spells.terminated
      rw [spells.text] at same
      simp only [findDirLoop, found, compared, inBounds, bind, Except.bind, split]
      by_cases isZero : order = 0
      · have here := same.mp isZero
        rw [if_pos isZero, here]
        simp [pure, Except.pure]
      · have elsewhere : paths[i] ≠ path := same.not.mp isZero
        rw [if_neg isZero, ih (i + 1) (by omega)]
        simp only [List.mem_cons, Ne.symm elsewhere, false_or, List.idxOf_cons_ne _ elsewhere]
        split
        · congr 1
          omega
        · rfl

theorem findDir_eq (holds : Holds dir paths) (spells : Spells buf path) :
    findDir dir buf.bytes = .ok (if path ∈ paths then paths.idxOf path else dirMax) := by
  rw [findDir, holds.count, findDirLoop_eq holds spells paths.length 0 (Nat.zero_add _)]
  simp

theorem findDir_lt_iff (holds : Holds dir paths) :
    (if path ∈ paths then paths.idxOf path else dirMax) < dirMax ↔ path ∈ paths := by
  by_cases member : path ∈ paths
  · have below := List.idxOf_lt_length_iff.mpr member
    simp only [member, if_true, iff_true]
    exact Nat.lt_of_lt_of_le below holds.bounded
  · simp [member]

end Lookup

section Commands

theorem Holds.append (holds : Holds dir paths) (room : paths.length < dirMax) (spells : Spells row path)
    (written : dir.setRow dir.dirCount row = .ok after) :
    Holds { after with dirCount := after.dirCount + 1 } (paths ++ [path]) := by
  obtain ⟨sameCount, sameCwd⟩ := DirState.setRow_counts written
  constructor
  case count => simp [sameCount, holds.count]
  case bounded => simpa using Nat.succ_le_of_lt room
  case rows =>
    intro i other found
    change ∃ row, after.row i = .ok row ∧ Spells row other
    rw [DirState.row_setRow written, holds.count]
    by_cases last : i = paths.length
    · subst last
      rw [List.getElem?_concat_length] at found
      cases found
      exact ⟨row, by simp, spells⟩
    · rw [if_neg last]
      have below : i < (paths ++ [path]).length := (List.getElem?_eq_some_iff.mp found).1
      simp only [List.length_append, List.length_singleton] at below
      rw [List.getElem?_append_left (by omega)] at found
      exact holds.rows i other found
  case cwd =>
    have inside := holds.cwd
    simp only [sameCwd, List.length_append, List.length_singleton]
    omega

theorem dirMkdir_spec (keys : List UInt8) (holds : Holds dir paths) (nonempty : name.chars ≠ [])
    (room : dir.dirCount < dirMax) (fits : PathFits dir.cwdPath name.chars) :
    ∃ outcome, dirMkdir dir name keys = .ok outcome ∧
      (joinPath dir.cwdPath name.chars ∈ paths → outcome.report = .alreadyExists ∧ outcome.dir = dir) ∧
      (joinPath dir.cwdPath name.chars ∉ paths → outcome.report = .done ∧ ∃ row,
        Spells row (joinPath dir.cwdPath name.chars) ∧ outcome.dir = { dir with
          dirs := Function.update dir.dirs ⟨dir.dirCount, room⟩ row
          dirCount := dir.dirCount + 1 }) := by
  obtain ⟨cwdRow, cwd, _, cwdFound, cwdSpells, sameCwd⟩ := holds.cwd_row
  obtain ⟨newpath, built, spells⟩ := buildPath_fits cwdFound cwdSpells (.zeros dirNameLen) (sameCwd ▸ fits)
  rw [← sameCwd] at spells
  obtain ⟨row, copied, rowSpells⟩ := Spells.copy (dir.dirs ⟨dir.dirCount, room⟩) spells.terminated
    (by rw [spells.text]; exact spells.length_lt)
  rw [spells.text] at rowSpells
  simp only [dirMkdir, if_neg ((kstrlen_eq_zero name).not.mpr nonempty), if_neg (Nat.not_le.mpr room), built,
    findDir_eq holds spells, findDir_lt_iff holds, DirState.row_of_lt room, copied, inBounds,
    DirState.setRow_of_lt room, bind, Except.bind, pure, Except.pure]
  by_cases present : joinPath dir.cwdPath name.chars ∈ paths
  · rw [if_pos present]
    exact ⟨_, rfl, fun _ => ⟨rfl, rfl⟩, fun absent => absurd present absent⟩
  · rw [if_neg present]
    exact ⟨_, rfl, fun found => absurd found present, fun _ => ⟨rfl, row, rowSpells, rfl⟩⟩

theorem dirMkdir_comesTo (keys : List UInt8) (holds : Holds dir paths) (fits : (DirOp.mkdir name).Fits dir) :
    (DirOp.mkdir name).ComesTo dir files paths (dirMkdir dir name keys) := by
  by_cases given : kstrlen name.memory = some 0
  · rw [dirMkdir, if_pos given]
    exact .unchanged (by simp)
  · have nonempty := (kstrlen_eq_zero name).not.mp given
    by_cases full : dirMax ≤ dir.dirCount
    · rw [dirMkdir, if_neg given, if_pos full]
      exact .unchanged (by simp)
    · have room := Nat.lt_of_not_le full
      obtain ⟨outcome, run, old, created⟩ := dirMkdir_spec keys holds nonempty room (fits nonempty room)
      rw [run]
      change DirEffect dir files paths (.mkdir name) outcome.report outcome.dir
      by_cases present : joinPath dir.cwdPath name.chars ∈ paths
      · obtain ⟨report, same⟩ := old present
        rw [report, same]
        exact .unchanged (by simp)
      · obtain ⟨report, row, spells, made⟩ := created present
        rw [report, made]
        have below := holds.count ▸ room
        exact .created below present (holds.append below spells (DirState.setRow_of_lt room row)) rfl

theorem cdPath_spec (holds : Holds dir paths) (nonempty : target.chars ≠ []) (fits : (DirOp.cd target).Fits dir) :
    ∃ newpath, cdPath dir target = .ok newpath ∧ Spells newpath (DirOp.target dir.cwdPath (.cd target)) := by
  obtain ⟨cwdRow, cwd, _, cwdFound, cwdSpells, sameCwd⟩ := holds.cwd_row
  have isParent : kstrcmp target.memory dotDot.memory = some 0 ↔ target.chars = dotDot.chars := by
    rw [kstrcmp_eq_zero target.zero_mem_memory dotDot.zero_mem_memory, CString.cstr_memory, CString.cstr_memory]
  have isRoot : kstrcmp target.memory rootMemory = some 0 ↔ target.chars = rootPath := by
    rw [kstrcmp_eq_zero target.zero_mem_memory (by decide), CString.cstr_memory]
    rfl
  simp only [cdPath, isParent, isRoot, DirOp.target]
  by_cases parent : target.chars = dotDot.chars
  · rw [if_pos parent, if_pos parent, sameCwd, cwdFound]
    exact parentPath_spec (.zeros dirNameLen) cwdSpells
  · rw [if_neg parent, if_neg parent]
    by_cases root : target.chars = rootPath
    · obtain ⟨after, stored, spells⟩ := Spells.storeRoot (.zeros dirNameLen)
      rw [if_pos root, if_pos root, stored]
      exact ⟨after, rfl, spells⟩
    · rw [if_neg root, if_neg root, sameCwd]
      exact buildPath_fits cwdFound cwdSpells (.zeros dirNameLen) (sameCwd ▸ fits nonempty parent root)

theorem dirCd_spec (keys : List UInt8) (holds : Holds dir paths) (nonempty : target.chars ≠ [])
    (fits : (DirOp.cd target).Fits dir) :
    ∃ outcome, dirCd dir target keys = .ok outcome ∧
      (DirOp.target dir.cwdPath (.cd target) ∉ paths → outcome.report = .notFound ∧ outcome.dir = dir) ∧
      (DirOp.target dir.cwdPath (.cd target) ∈ paths → outcome.report = .done ∧
        outcome.dir = { dir with cwdIdx := paths.idxOf (DirOp.target dir.cwdPath (.cd target)) }) := by
  obtain ⟨newpath, built, spells⟩ := cdPath_spec holds nonempty fits
  simp only [dirCd, if_neg ((kstrlen_eq_zero target).not.mpr nonempty), built, findDir_eq holds spells, bind,
    Except.bind, pure, Except.pure]
  by_cases present : DirOp.target dir.cwdPath (.cd target) ∈ paths
  · have below := (findDir_lt_iff holds).mpr present
    simp only [if_pos present] at below ⊢
    rw [if_neg (Nat.ne_of_lt below)]
    simp only [DirState.row_of_lt below]
    exact ⟨_, rfl, fun absent => absurd present absent, fun _ => ⟨rfl, rfl⟩⟩
  · rw [if_neg present, if_pos rfl]
    exact ⟨_, rfl, fun _ => ⟨rfl, rfl⟩, fun found => absurd found present⟩

theorem dirCd_comesTo (keys : List UInt8) (holds : Holds dir paths) (fits : (DirOp.cd target).Fits dir) :
    (DirOp.cd target).ComesTo dir files paths (dirCd dir target keys) := by
  by_cases given : kstrlen target.memory = some 0
  · rw [dirCd, if_pos given]
    exact .unchanged (by simp)
  · obtain ⟨outcome, run, missing, found⟩ := dirCd_spec keys holds ((kstrlen_eq_zero target).not.mp given) fits
    rw [run]
    change DirEffect dir files paths (.cd target) outcome.report outcome.dir
    by_cases present : DirOp.target dir.cwdPath (.cd target) ∈ paths
    · obtain ⟨report, entered⟩ := found present
      rw [report, entered]
      exact .entered present
    · obtain ⟨report, kept⟩ := missing present
      rw [report, kept]
      exact .unchanged (by simp)

/-- Moving the rows behind `i` up by one. -/
theorem compactLoop_rows (run : compactLoop dir i n = .ok after) :
    after.dirCount = dir.dirCount ∧ after.cwdIdx = dir.cwdIdx ∧
      (∀ k, k < i ∨ i + n ≤ k → after.row k = dir.row k) ∧
      ∀ k row, i ≤ k → k < i + n → dir.row (k + 1) = .ok row →
        ∃ moved, after.row k = .ok moved ∧ cstr moved.bytes = cstr row.bytes := by
  induction n generalizing i dir with
  | zero =>
      cases run
      exact ⟨rfl, rfl, fun _ _ => rfl, fun k row low high => by omega⟩
  | succ n ih =>
      obtain ⟨next, nextFound, run⟩ := bind_eq_ok.mp run
      obtain ⟨old, _, run⟩ := bind_eq_ok.mp run
      obtain ⟨row, copied, run⟩ := bind_eq_ok.mp run
      obtain ⟨written, write, run⟩ := bind_eq_ok.mp run
      rw [inBounds_eq_ok] at copied
      obtain ⟨sameCount, sameCwd⟩ := DirState.setRow_counts write
      have changed := DirState.row_setRow write
      obtain ⟨count, cwd, kept, moved⟩ := ih run
      refine ⟨count.trans sameCount, cwd.trans sameCwd, ?_, ?_⟩
      · intro k outside
        rw [kept k (by omega), changed k, if_neg (by omega)]
      · intro k source low high found
        by_cases first : k = i
        · subst first
          cases found.symm.trans nextFound
          refine ⟨row, ?_, copied_text copied⟩
          rw [kept k (.inl (Nat.lt_succ_self k)), changed k, if_pos rfl]
        · apply moved k source (by omega) (by omega)
          rw [changed (k + 1), if_neg (by omega), found]

theorem removeRow_rows (below : idx < dir.dirCount) (removed : removeRow dir idx = .ok after) :
    after.dirCount = dir.dirCount - 1 ∧
      after.cwdIdx = (if idx < dir.cwdIdx then dir.cwdIdx - 1 else dir.cwdIdx) ∧
      (∀ k, k < idx → after.row k = dir.row k) ∧
      ∀ k row, idx ≤ k → k + 1 < dir.dirCount → dir.row (k + 1) = .ok row →
        ∃ moved, after.row k = .ok moved ∧ cstr moved.bytes = cstr row.bytes := by
  obtain ⟨compacted, compact, removed⟩ := bind_eq_ok.mp removed
  obtain ⟨last, _, removed⟩ := bind_eq_ok.mp removed
  obtain ⟨cleared, _, removed⟩ := bind_eq_ok.mp removed
  obtain ⟨written, write, removed⟩ := bind_eq_ok.mp removed
  cases removed
  obtain ⟨count, cwd, kept, moved⟩ := compactLoop_rows compact
  obtain ⟨sameCount, sameCwd⟩ := DirState.setRow_counts write
  have changed := DirState.row_setRow write
  refine ⟨by simp [sameCount, count], by simp [sameCwd, cwd], ?_, ?_⟩
  · intro k low
    change written.row k = dir.row k
    rw [changed k, if_neg (by omega), kept k (.inl low)]
  · intro k row low high found
    obtain ⟨copy, copyFound, text⟩ := moved k row low (by omega) found
    refine ⟨copy, ?_, text⟩
    change written.row k = .ok copy
    rw [changed k, if_neg (by omega), copyFound]

theorem compactLoop_exists (dir : DirState) (inside : i + n < dirMax) :
    ∃ after, compactLoop dir i n = .ok after := by
  induction n generalizing i dir with
  | zero => exact ⟨dir, rfl⟩
  | succ n ih =>
      have here : i < dirMax := by omega
      have next : i + 1 < dirMax := by omega
      have copied := kstrncpy_field (dir.dirs ⟨i, here⟩)
        (.inr (Nat.le_of_eq (dir.dirs ⟨i + 1, next⟩).length_eq.symm))
      simp only [compactLoop, DirState.row_of_lt here, DirState.row_of_lt next, copied, inBounds,
        DirState.setRow_of_lt here, bind, Except.bind]
      exact ih _ (by omega)

theorem removeRow_exists (bounded : dir.dirCount ≤ dirMax) (below : idx < dir.dirCount) :
    ∃ after, removeRow dir idx = .ok after := by
  obtain ⟨compacted, compact⟩ := compactLoop_exists (n := dir.dirCount - 1 - idx) (i := idx) dir (by omega)
  have last : compacted.dirCount - 1 < dirMax := by
    rw [(compactLoop_rows compact).1]
    omega
  obtain ⟨cleared, stored⟩ := (compacted.dirs ⟨compacted.dirCount - 1, last⟩).store_exists 0 [0] (by decide)
  simp only [removeRow, compact, DirState.row_of_lt last, stored, inBounds, DirState.setRow_of_lt last, bind,
    Except.bind, pure, Except.pure]
  exact ⟨_, rfl⟩

theorem removeRow_spec (holds : Holds dir paths) (below : idx < paths.length) (notCwd : idx ≠ dir.cwdIdx) :
    ∃ after, removeRow dir idx = .ok after ∧ Holds after (paths.eraseIdx idx) ∧
      after.cwdIdx = if idx < dir.cwdIdx then dir.cwdIdx - 1 else dir.cwdIdx := by
  have bounded := holds.bounded
  have inside := holds.cwd
  have count := holds.count
  have used : idx < dir.dirCount := count ▸ below
  obtain ⟨after, removed⟩ := removeRow_exists (show dir.dirCount ≤ dirMax from count ▸ bounded) used
  obtain ⟨countAfter, cwd, kept, moved⟩ := removeRow_rows used removed
  refine ⟨after, removed, ?_, cwd⟩
  constructor
  case count => rw [countAfter, List.length_eraseIdx, if_pos below, count]
  case bounded =>
    rw [List.length_eraseIdx, if_pos below]
    omega
  case rows =>
    intro k path found
    have short := (List.getElem?_eq_some_iff.mp found).1
    rw [List.length_eraseIdx, if_pos below] at short
    rw [List.getElem?_eraseIdx] at found
    split at found
    · rename_i before
      rw [kept k before]
      exact holds.rows k path found
    · obtain ⟨row, rowFound, spells⟩ := holds.rows (k + 1) path found
      obtain ⟨copy, copyFound, text⟩ := moved k row (by omega) (by omega) rowFound
      exact ⟨copy, copyFound, spells.of_text text⟩
  case cwd =>
    rw [cwd, List.length_eraseIdx, if_pos below]
    split <;> omega

theorem asString_spells (spells : Spells buf path) : asString buf = .ok ⟨path, spells.noNul⟩ := by
  simp only [asString, if_pos spells.terminated, spells.text]

theorem dirRmdir_spec (keys : List UInt8) (holds : Holds dir paths) (fits : (DirOp.rmdir name).Fits dir) :
    (DirOp.rmdir name).ComesTo dir files paths (dirRmdir dir files name keys) := by
  unfold dirRmdir
  split
  · exact .unchanged (by simp)
  · rename_i given
    have nonempty := (kstrlen_eq_zero name).not.mp given
    obtain ⟨cwdRow, cwd, _, cwdFound, cwdSpells, sameCwd⟩ := holds.cwd_row
    obtain ⟨target, built, spells⟩ := buildPath_fits cwdFound cwdSpells (.zeros dirNameLen) (sameCwd ▸ fits nonempty)
    rw [← sameCwd] at spells
    obtain ⟨order, compared, isRoot⟩ := spells.kstrcmp rootMemory (by decide)
    simp only [built, compared, inBounds, findDir_eq holds spells, asString_spells spells, bind, Except.bind]
    split
    · exact .unchanged (by simp)
    · rename_i notZero
      have notRoot : joinPath dir.cwdPath name.chars ≠ rootPath := isRoot.not.mp notZero
      by_cases present : joinPath dir.cwdPath name.chars ∈ paths
      · have below := (findDir_lt_iff holds).mpr present
        simp only [if_pos present] at below ⊢
        rw [if_neg (Nat.ne_of_lt below)]
        split
        · exact .unchanged (by simp)
        · rename_i notCwd
          split
          · exact .unchanged (by simp)
          · rename_i empty
            cases asked : readline (.zeros 4) keys with
            | error stop =>
                -- the answer never comes, and the buffer for it is not left
                intro same
                subst same
                exact readlineLoop_inside (by decide) asked
            | ok typed =>
                simp only
                split
                · exact .unchanged (by simp)
                · obtain ⟨after, removed, holdsAfter, cwdAfter⟩ :=
                    removeRow_spec holds (List.idxOf_lt_length_iff.mpr present) notCwd
                  simp only [removed]
                  refine .removed rfl notRoot present notCwd ?_ holdsAfter cwdAfter
                  exact fsDirEmpty_iff.mp (by simpa using empty)
      · simp only [if_neg present, if_true]
        exact .unchanged (by simp)

theorem DirOp.run_spec (op : DirOp) (files : FileIndex → FileEntry) (keys : List UInt8) (holds : Holds dir paths)
    (fits : op.Fits dir) : op.ComesTo dir files paths (op.run dir files keys) := by
  cases op with
  | mkdir name => exact dirMkdir_comesTo keys holds fits
  | cd target => exact dirCd_comesTo keys holds fits
  | rmdir name => exact dirRmdir_spec keys holds fits

theorem DirOp.run_effect {op : DirOp} (holds : Holds dir paths) (fits : op.Fits dir)
    (run : op.run dir files keys = .ok outcome) : DirEffect dir files paths op outcome.report outcome.dir := by
  have spec := op.run_spec files keys holds fits
  rwa [run] at spec

theorem DirOp.run_inside {op : DirOp} (holds : Holds dir paths) (fits : op.Fits dir) :
    op.run dir files keys ≠ .error .outOfBounds := by
  intro failed
  have spec := op.run_spec files keys holds fits
  rw [failed] at spec
  exact spec rfl

end Commands

end DugOS.Dir
