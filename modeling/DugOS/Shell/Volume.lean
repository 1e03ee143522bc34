import DugOS.Shell.Typing

namespace DugOS

open Data

/-! What a session does to the volume, in terms of directories and files.

The volume has no slots, no blocks and no rows: a list of directories, the
working directory, and a map from names to bytes. A directory command is a
function on it. A command on files does what it is meant to exactly when nothing
stands against it and the blocks suffice. When they do not, it spoils its own
file and no other.
-/

namespace Fs

/-- A command gives up on a name that is missing. -/
def FsOp.Named : FsOp → Prop
  | .write name _ => name.chars ≠ []
  | .read name _ => name.chars ≠ []
  | .edit name _ => name.chars ≠ []
  | .delete name _ => name.chars ≠ []
  | .rename oldname newname _ => oldname.chars ≠ [] ∧ newname.chars ≠ []
  | .copy src dst _ => src.chars ≠ [] ∧ dst.chars ≠ []

/-- No name is longer than `fs.h` allows. -/
def FsOp.Short : FsOp → Prop
  | .write name _ => name.chars.length ≤ 63
  | .read name _ => name.chars.length ≤ 63
  | .edit name _ => name.chars.length ≤ 63
  | .delete name _ => name.chars.length ≤ 63
  | .rename oldname newname _ => oldname.chars.length ≤ 63 ∧ newname.chars.length ≤ 63
  | .copy src dst _ => src.chars.length ≤ 63 ∧ dst.chars.length ≤ 63

/-- The bytes that the lines typed at a command come to. -/
def FsOp.Types (files : FileMap) (keys typed : List UInt8) : FsOp → Prop
  | .write _ _ => ∃ tmp input, collectLines (.zeros 256) tmp 0 keys = .ok input ∧ typed = input.bytes
  | .edit name dir => ∃ value tmp input, files (keyOf name dir) = some value ∧
      collectLines (.zeros 256) tmp value.length keys = .ok input ∧ typed = input.accumulated value.length
  | _ => typed = []

/-- A command on files, when `available` blocks are free for the new content. -/
inductive FileStep (files : FileMap) (available : Nat) (keys : List UInt8) (op : FsOp) : FileMap → Prop
  | done {typed} (granted : op.Granted files keys) (types : op.Types files keys typed)
      (room : op.needs files typed ≤ available) : FileStep files available keys op (op.apply files typed)
  | diskFull {typed} (granted : op.Granted files keys) (types : op.Types files keys typed)
      (short : available < op.needs files typed) : FileStep files available keys op (op.spoil files)
  | refused (denied : ¬ op.Granted files keys) : FileStep files available keys op files

variable {fs : FileSystem} {keys typed : List UInt8} {op : FsOp} {outcome : Outcome} {files after : FileMap} {key : Key}

theorem FsOp.within (named : op.Named) (short : op.Short) (dir : op.dir.chars.length ≤ 63) : op.Within := by
  cases op with
  | write | read | edit | delete => exact ⟨List.length_pos_iff.mpr named, short, dir⟩
  | rename | copy =>
      exact ⟨⟨List.length_pos_iff.mpr named.1, short.1, dir⟩, ⟨List.length_pos_iff.mpr named.2, short.2, dir⟩⟩

theorem FsOp.run_unnamed (unnamed : ¬ op.Named) (run : op.run fs keys = .ok outcome) : outcome.fs = fs := by
  cases op with
  | write name dir =>
      rw [FsOp.run, fsWrite, if_pos ((kstrlen_eq_zero name).mpr (not_not.mp unnamed))] at run
      cases run
      rfl
  | read name dir =>
      rw [FsOp.run, fsRead, if_pos ((kstrlen_eq_zero name).mpr (not_not.mp unnamed))] at run
      cases run
      rfl
  | edit name dir =>
      rw [FsOp.run, fsEdit, if_pos ((kstrlen_eq_zero name).mpr (not_not.mp unnamed))] at run
      cases run
      rfl
  | delete name dir =>
      rw [FsOp.run, fsDelete, if_pos ((kstrlen_eq_zero name).mpr (not_not.mp unnamed))] at run
      cases run
      rfl
  | rename oldname newname dir =>
      have missing : kstrlen oldname.memory = some 0 ∨ kstrlen newname.memory = some 0 := by
        rw [kstrlen_eq_zero, kstrlen_eq_zero]
        exact (not_and_or.mp unnamed).imp not_not.mp not_not.mp
      rw [FsOp.run, fsRename, if_pos missing] at run
      cases run
      rfl
  | copy src dst dir =>
      have missing : kstrlen src.memory = some 0 ∨ kstrlen dst.memory = some 0 := by
        rw [kstrlen_eq_zero, kstrlen_eq_zero]
        exact (not_and_or.mp unnamed).imp not_not.mp not_not.mp
      rw [FsOp.run, fsCopy, if_pos missing] at run
      cases run
      rfl

theorem FsOp.Granted.named (granted : op.Granted files keys) : op.Named := by
  cases op with
  | write | read | edit | delete | rename | copy => exact granted.1

theorem FsOp.Accumulates.types (accumulated : op.Accumulates fs keys typed) (keyed : Keyed fs) :
    op.Types (fileMap fs) keys typed := by
  cases op with
  | write name dir =>
      obtain ⟨input, collected, rfl⟩ := accumulated
      exact ⟨_, input, collected, rfl⟩
  | edit name dir =>
      obtain ⟨idx, tmp, input, found, _, collected, rfl⟩ := accumulated
      obtain ⟨chain, layout⟩ := keyed.valid
      have length := (layout.owned idx (findFile_some found).1).content_length
      refine ⟨_, tmp, input, findFile_value keyed.unique found, ?_, ?_⟩
      · rw [length]
        exact collected
      · rw [length]
  | read | delete | rename | copy => exact accumulated

/-- A command on files, on the map that the file system stands for. -/
theorem FsOp.run_fileStep (keyed : Keyed fs) (short : op.Short) (dir : op.dir.chars.length ≤ 63)
    (run : op.run fs keys = .ok outcome) :
    Keyed outcome.fs ∧ FileStep (fileMap fs) (op.available fs) keys op (fileMap outcome.fs) := by
  by_cases named : op.Named
  · obtain ⟨next, refines⟩ := (op.run_effect run).refines keyed (FsOp.within named short dir)
    refine ⟨next, ?_⟩
    by_cases done : outcome.report = .done
    · obtain ⟨typed, accumulated, room, map⟩ := refines.done done
      rw [map]
      exact .done (refines.granted.mp (.inl done)) (FsOp.Accumulates.types accumulated keyed) room
    · by_cases full : outcome.report = .diskFull
      · obtain ⟨typed, accumulated, short, map⟩ := refines.full full
        rw [map]
        exact .diskFull (refines.granted.mp (.inr full)) (FsOp.Accumulates.types accumulated keyed) short
      · rw [refines.refused done full]
        exact .refused fun granted => (refines.granted.mpr granted).elim done full
  · rw [FsOp.run_unnamed named run]
    exact ⟨keyed, .refused fun granted => named granted.named⟩

/-- A command that nothing stands against is done when the blocks suffice. -/
theorem FileStep.carried_out {available : Nat} (step : FileStep files available keys op after)
    (granted : op.Granted files keys) (room : ∀ typed, op.Types files keys typed → op.needs files typed ≤ available) :
    ∃ typed, op.Types files keys typed ∧ after = op.apply files typed := by
  cases step with
  | done _ types => exact ⟨_, types, rfl⟩
  | diskFull _ types short => exact absurd (room _ types) (Nat.not_le_of_lt short)
  | refused denied => exact absurd granted denied

/-- A command changes nothing but the files that it names. -/
theorem FileStep.others {available : Nat} (step : FileStep files available keys op after) (untouched : ¬ op.Touches key) :
    after key = files key := by
  cases step with
  | done => exact FsOp.apply_other untouched
  | diskFull => exact FsOp.spoil_other untouched
  | refused => rfl

end Fs

namespace Dir

variable {dir after : DirState} {paths : List (List UInt8)} {files : Fs.FileIndex → Fs.FileEntry} {keys : List UInt8}
  {name : CString} {outcome : DirOutcome}

theorem Holds.getElem?_cwd (holds : Holds dir paths) : paths[dir.cwdIdx]? = some dir.cwdPath := by
  obtain ⟨row, cwd, known, _, _, same⟩ := holds.cwd_row
  rw [same]
  exact known

theorem Holds.cwdPath_unique (holds : Holds dir paths) {path : List UInt8} (known : paths[dir.cwdIdx]? = some path) :
    dir.cwdPath = path :=
  Option.some.inj (holds.getElem?_cwd.symm.trans known)

theorem Holds.idxOf_cwd (holds : Holds dir paths) (distinct : paths.Nodup) : paths.idxOf dir.cwdPath = dir.cwdIdx := by
  have below := holds.cwd
  have known := holds.getElem?_cwd
  rw [List.getElem?_eq_getElem below, Option.some.injEq] at known
  rw [← known, distinct.idxOf_getElem]

/-- `rmdir` carries out what it is asked for when nothing stands against it. -/
theorem dirRmdir_done (holds : Holds dir paths) (fits : PathFits dir.cwdPath name.chars) (nonempty : name.chars ≠ [])
    (present : joinPath dir.cwdPath name.chars ∈ paths) (notRoot : joinPath dir.cwdPath name.chars ≠ rootPath)
    (notCwd : paths.idxOf (joinPath dir.cwdPath name.chars) ≠ dir.cwdIdx)
    (empty : ∀ i, (files i).used = true → (files i).dirString ≠ joinPath dir.cwdPath name.chars)
    (agreed : Agreed keys) (run : dirRmdir dir files name keys = .ok outcome) : outcome.report = .done := by
  obtain ⟨cwdRow, cwd, _, cwdFound, cwdSpells, sameCwd⟩ := holds.cwd_row
  obtain ⟨target, built, spells⟩ := buildPath_fits cwdFound cwdSpells (.zeros dirNameLen) (sameCwd ▸ fits)
  rw [← sameCwd] at spells
  obtain ⟨order, compared, isRoot⟩ := spells.kstrcmp rootMemory (by decide)
  obtain ⟨typed, asked, confirms⟩ := agreed
  have answered : readline (.zeros 4) keys = .ok typed := asked
  have below := (findDir_lt_iff holds).mpr present
  have emptied : Fs.fsDirEmpty files ⟨joinPath dir.cwdPath name.chars, spells.noNul⟩ = true :=
    Fs.fsDirEmpty_iff.mpr empty
  simp only [if_pos present] at below
  obtain ⟨after, removed, _⟩ := removeRow_spec holds (List.idxOf_lt_length_iff.mpr present) notCwd
  simp only [dirRmdir, if_neg ((kstrlen_eq_zero name).not.mpr nonempty), built, compared, inBounds,
    if_neg (isRoot.not.mpr notRoot), findDir_eq holds spells, if_pos present, if_neg (Nat.ne_of_lt below),
    if_neg notCwd, asString_spells spells, emptied, answered, confirms, removed, bind, Except.bind, pure,
    Except.pure] at run
  cases run
  rfl

end Dir

namespace Shell

open Fs Dir

structure Volume where
  dirs : List (List UInt8)
  cwd : List UInt8
  files : FileMap

/-- The volume that the tables stand for. -/
def volumeOf (state : ShellState) : Volume :=
  ⟨state.dir.paths, state.dir.cwdPath, fileMap state.fs⟩

def emptyVolume : Volume :=
  ⟨[rootPath], rootPath, fun _ => none⟩

/-- What `rmdir` asks for. -/
structure Volume.Removable (volume : Volume) (path : List UInt8) : Prop where
  listed : path ∈ volume.dirs
  notRoot : path ≠ rootPath
  notCwd : path ≠ volume.cwd
  empty : ∀ key, key.dir = path → volume.files key = none

open Classical in
/-- A directory command, on the paths that it builds. -/
noncomputable def Volume.directory (volume : Volume) (agreed : Prop) : DirOp → Volume
  | .mkdir name =>
      if name.chars = [] ∨ dirMax ≤ volume.dirs.length ∨ joinPath volume.cwd name.chars ∈ volume.dirs then volume
      else { volume with dirs := volume.dirs ++ [joinPath volume.cwd name.chars] }
  | .cd target =>
      if target.chars ≠ [] ∧ DirOp.target volume.cwd (.cd target) ∈ volume.dirs then
        { volume with cwd := DirOp.target volume.cwd (.cd target) }
      else volume
  | .rmdir name =>
      if name.chars ≠ [] ∧ volume.Removable (joinPath volume.cwd name.chars) ∧ agreed then
        { volume with dirs := volume.dirs.erase (joinPath volume.cwd name.chars) }
      else volume

/-- A command of the shell, on the volume. `available` tells how many blocks are free for
the new content of a command on files. -/
inductive VolumeStep (volume : Volume) (available : FsOp → Nat) (keys : List UInt8) : Command → Volume → Prop
  | shown {request} (shows : request = .help ∨ request = .clear ∨ request = .pwd ∨ request = .whoami ∨
      request = .ls ∨ request = .unknown) : VolumeStep volume available keys request volume
  | directory {op} : VolumeStep volume available keys (.directory op) (volume.directory (Agreed keys) op)
  | file {op located dir files} (here : dir.chars = volume.cwd)
      (step : FileStep volume.files (available (op dir)) keys (op dir) files) :
      VolumeStep volume available keys (.file op located) { volume with files }

/-- Every path and every name of the command fits its buffer. -/
def Command.Within (state : ShellState) : Command → Prop
  | .directory op => op.Fits state.dir
  | .file op _ => ∀ dir, (op dir).Short
  | _ => True

def Prompt.Within (prompt : Prompt) : Prop :=
  newline ∈ prompt.keys → ∀ cmd, prompt.argv[0]? = some cmd → (command cmd prompt.argv).Within prompt.state

variable {prompt next : Prompt} {state : ShellState} {keys : List UInt8} {paths : List (List UInt8)}

theorem empty_iff {path : List UInt8} {fs : FileSystem} (keyed : Keyed fs) :
    (∀ i, (fs.files i).used = true → (fs.files i).dirString ≠ path) ↔
      ∀ key, key.dir = path → fileMap fs key = none := by
  have represents := fileMap_represents keyed.unique
  constructor
  · intro empty key inside
    apply represents.map_eq_none.mpr
    intro i value stored
    obtain ⟨used, sameKey, _⟩ := slots_eq_some.mp stored
    exact empty i used ((congrArg Key.dir sameKey).trans inside)
  · intro empty i used inside
    have missing := represents.map_eq_none.mp (empty (fs.files i).key inside)
    exact missing i _ (slots_eq_some.mpr ⟨used, rfl, rfl⟩)

section Directories

theorem volumeOf_dir {dir : DirState} (holds : Holds dir paths) :
    volumeOf { state with dir } = ⟨paths, dir.cwdPath, fileMap state.fs⟩ := by
  rw [volumeOf, holds.paths_eq]

theorem mkdir_volume {name : CString} {result : DirOutcome} (known : Consistent state paths)
    (fits : (DirOp.mkdir name).Fits state.dir) (run : dirMkdir state.dir name keys = .ok result) :
    volumeOf { state with dir := result.dir } = (volumeOf state).directory (Agreed keys) (.mkdir name) := by
  have holds := known.table.toHolds
  have volume : volumeOf state = ⟨paths, state.dir.cwdPath, fileMap state.fs⟩ := volumeOf_dir holds
  rw [volume, Volume.directory]
  by_cases missing : name.chars = []
  · rw [dirMkdir, if_pos ((kstrlen_eq_zero name).mpr missing)] at run
    cases run
    rw [if_pos (.inl missing)]
    exact volume
  · by_cases full : dirMax ≤ state.dir.dirCount
    · rw [dirMkdir, if_neg ((kstrlen_eq_zero name).not.mpr missing), if_pos full] at run
      cases run
      rw [if_pos (.inr (.inl (holds.count ▸ full)))]
      exact volume
    · have room := Nat.lt_of_not_le full
      obtain ⟨outcome, ran, old, created⟩ := dirMkdir_spec keys holds missing room (fits missing room)
      cases run.symm.trans ran
      by_cases present : joinPath state.dir.cwdPath name.chars ∈ paths
      · rw [if_pos (.inr (.inr present)), (old present).2]
        exact volume
      · have made : (DirOp.mkdir name).run state.dir state.fs.files keys = .ok result := run
        have effect := DirOp.run_effect holds fits made
        rw [(created present).1] at effect
        generalize result.dir = after at effect ⊢
        rw [if_neg (not_or.mpr ⟨missing, not_or.mpr ⟨holds.count ▸ full, present⟩⟩)]
        cases effect with
        | unchanged failed => exact absurd rfl failed
        | created _ _ holdsAfter cwd =>
            have same : after.cwdPath = state.dir.cwdPath := by
              apply holdsAfter.cwdPath_unique
              rw [cwd, List.getElem?_append_left holds.cwd, holds.getElem?_cwd]
            rw [volumeOf_dir holdsAfter, same]

theorem cd_volume {target : CString} {result : DirOutcome} (known : Consistent state paths)
    (fits : (DirOp.cd target).Fits state.dir) (run : dirCd state.dir target keys = .ok result) :
    volumeOf { state with dir := result.dir } = (volumeOf state).directory (Agreed keys) (.cd target) := by
  have holds := known.table.toHolds
  have volume : volumeOf state = ⟨paths, state.dir.cwdPath, fileMap state.fs⟩ := volumeOf_dir holds
  rw [volume, Volume.directory]
  by_cases missing : target.chars = []
  · rw [dirCd, if_pos ((kstrlen_eq_zero target).mpr missing)] at run
    cases run
    rw [if_neg (fun both => both.1 missing)]
    exact volume
  · obtain ⟨outcome, ran, absent, entered⟩ := dirCd_spec keys holds missing fits
    cases run.symm.trans ran
    by_cases present : DirOp.target state.dir.cwdPath (.cd target) ∈ paths
    · obtain ⟨holdsAfter, here⟩ := holds.enter (List.getElem?_idxOf present)
      rw [if_pos ⟨missing, present⟩, (entered present).2, volumeOf_dir holdsAfter, here]
    · rw [if_neg (fun both => present both.2), (absent present).2]
      exact volume

theorem rmdir_volume {name : CString} {result : DirOutcome} (known : Consistent state paths) (keyed : Keyed state.fs)
    (fits : (DirOp.rmdir name).Fits state.dir)
    (run : dirRmdir state.dir state.fs.files name keys = .ok result) :
    volumeOf { state with dir := result.dir } = (volumeOf state).directory (Agreed keys) (.rmdir name) := by
  have holds := known.table.toHolds
  have distinct := known.table.distinct
  have volume : volumeOf state = ⟨paths, state.dir.cwdPath, fileMap state.fs⟩ := volumeOf_dir holds
  rw [volume, Volume.directory]
  by_cases missing : name.chars = []
  · rw [dirRmdir, if_pos ((kstrlen_eq_zero name).mpr missing)] at run
    cases run
    rw [if_neg (fun both => both.1 missing)]
    exact volume
  · have removed : (DirOp.rmdir name).run state.dir state.fs.files keys = .ok result := run
    have effect := DirOp.run_effect holds fits removed
    have agreed := dirRmdir_cases run
    generalize report : result.report = answer at effect agreed
    generalize result.dir = after at effect agreed ⊢
    cases effect with
    | unchanged failed =>
        rw [if_neg, volume]
        intro granted
        obtain ⟨_, removable, answered⟩ := granted
        have notCwd : paths.idxOf (joinPath state.dir.cwdPath name.chars) ≠ state.dir.cwdIdx := by
          intro same
          apply removable.notCwd
          rw [← holds.idxOf_cwd distinct] at same
          exact (List.idxOf_inj removable.listed).mp same
        exact failed (report ▸ dirRmdir_done holds (fits missing) missing removable.listed removable.notRoot notCwd
          ((empty_iff keyed).mpr removable.empty) answered run)
    | removed built notRoot present notCwd empty holdsAfter cwd =>
        obtain ⟨_, idx, target, gone⟩ := agreed.resolve_left (fun failed => failed.1 rfl)
        subst built
        have notHere : joinPath state.dir.cwdPath name.chars ≠ state.dir.cwdPath := by
          intro same
          rw [same, holds.idxOf_cwd distinct] at notCwd
          exact notCwd rfl
        have same : after.cwdPath = state.dir.cwdPath := by
          apply holdsAfter.cwdPath_unique
          rw [cwd, List.getElem?_eraseIdx, ← holds.getElem?_cwd]
          split
          · rename_i before
            rw [if_neg (by omega), Nat.sub_add_cancel (by omega)]
          · rw [if_pos (by omega)]
        rw [if_pos ⟨missing, ⟨present, notRoot, notHere, (empty_iff keyed).mp empty⟩, gone.agreed⟩,
          volumeOf_dir holdsAfter, same, List.eraseIdx_idxOf_eq_erase]

end Directories

section Sessions

/-- A command, on the volume that the tables stand for. -/
theorem Command.run_volume {request : Command} {cmd : CString} {outcome : ShellOutcome}
    (known : Consistent state paths) (keyed : Keyed state.fs) (within : request.Within state)
    (run : request.run state cmd keys = .ok outcome) :
    Keyed outcome.state.fs ∧
      VolumeStep (volumeOf state) (fun op => op.available state.fs) keys request (volumeOf outcome.state) := by
  cases request with
  | help | clear | whoami | unknown =>
      cases run
      exact ⟨keyed, .shown (by simp)⟩
  | shutdown => cases run
  | pwd =>
      obtain ⟨cwd, _, run⟩ := bind_eq_ok.mp run
      cases run
      exact ⟨keyed, .shown (by simp)⟩
  | ls =>
      obtain ⟨screen, _, run⟩ := bind_eq_ok.mp run
      cases run
      exact ⟨keyed, .shown (by simp)⟩
  | file op located =>
      obtain ⟨row, found, run⟩ := bind_eq_ok.mp run
      obtain ⟨dir, read, run⟩ := bind_eq_ok.mp run
      obtain ⟨result, ran, run⟩ := bind_eq_ok.mp run
      cases run
      have spells := spells_of_asString read
      have here : dir.chars = (volumeOf state).cwd := by
        rw [← spells.text]
        exact (DirState.cwdPath_of_row found).symm
      have short : (op dir).dir.chars.length ≤ 63 := by
        rw [located]
        exact Nat.le_of_lt_succ spells.length_lt
      obtain ⟨next, step⟩ := FsOp.run_fileStep keyed (within dir) short ran
      exact ⟨next, .file here step⟩
  | directory op =>
      obtain ⟨result, ran, run⟩ := bind_eq_ok.mp run
      cases run
      refine ⟨keyed, ?_⟩
      have moved : volumeOf { state with dir := result.dir } = (volumeOf state).directory (Agreed keys) op := by
        cases op with
        | mkdir name => exact mkdir_volume known within ran
        | cd target => exact cd_volume known within ran
        | rmdir name => exact rmdir_volume known keyed within ran
      rw [moved]
      exact .directory

theorem Command.Within.fits {request : Command} (within : request.Within state) : request.Fits state := by
  cases request with
  | directory op => exact within
  | help | clear | pwd | whoami | shutdown | file | ls | unknown => trivial

/-- The tables stand for a volume. -/
structure Standing (state : ShellState) : Prop where
  consistent : ∃ paths, Consistent state paths
  keyed : Keyed state.fs

/-- A turn, on the volume. -/
theorem Standing.turn (standing : Standing prompt.state) (within : prompt.Within)
    (turn : shellTurn prompt = .ok next) :
    Standing next.state ∧
      ((prompt.argv = [] ∧ volumeOf next.state = volumeOf prompt.state) ∨
        ∃ cmd, prompt.argv[0]? = some cmd ∧
          VolumeStep (volumeOf prompt.state) (fun op => op.available prompt.state.fs) prompt.rest
            (command cmd prompt.argv) (volumeOf next.state)) := by
  obtain ⟨entered, row, cwd, _, _, result⟩ := shellTurn_cases turn
  rcases result with ⟨empty, same, _⟩ | ⟨outcome, dispatched, same, _⟩
  · rw [same]
    exact ⟨standing, .inl ⟨empty, rfl⟩⟩
  · obtain ⟨cmd, first, run⟩ := bind_eq_ok.mp dispatched
    rw [inBounds_eq_ok] at first
    obtain ⟨paths, known⟩ := standing.consistent
    obtain ⟨keyed, step⟩ := Command.run_volume known standing.keyed (within entered cmd first) run
    rw [same]
    exact ⟨⟨Command.run_consistent known (within entered cmd first).fits run, keyed⟩, .inr ⟨cmd, first, step⟩⟩

theorem Turns.standing (turns : Turns prompt next) (standing : Standing prompt.state)
    (within : ∀ reached, Turns prompt reached → reached.Within) : Standing next.state := by
  induction turns with
  | refl => exact standing
  | tail earlier turn ih => exact (ih.turn (within _ earlier) turn).1

variable {bootDirs start : DirState} {boot : FileSystem}

theorem standing_boot (init : dirInit bootDirs = .ok start) (boot : FileSystem) : Standing ⟨start, fsInit boot⟩ :=
  ⟨⟨_, consistent_boot init boot⟩, keyed_fsInit boot⟩

theorem volumeOf_boot (init : dirInit bootDirs = .ok start) (boot : FileSystem) :
    volumeOf ⟨start, fsInit boot⟩ = emptyVolume := by
  have holds := holds_dirInit init
  rw [volumeOf, holds.paths_eq, List.mem_singleton.mp holds.cwdPath_mem, fileMap_fsInit]
  rfl

/-- Every turn of a session acts on the volume as the words on its line ask for,
as long as names and paths keep to their limits. -/
theorem session_refines_volume (init : dirInit bootDirs = .ok start) (buf : Buffer cmdLen) (keys : List UInt8)
    (within : ∀ reached, Turns ⟨⟨start, fsInit boot⟩, buf, keys, welcome⟩ reached → reached.Within) :
    volumeOf ⟨start, fsInit boot⟩ = emptyVolume ∧
      ∀ reached next, Turns ⟨⟨start, fsInit boot⟩, buf, keys, welcome⟩ reached → shellTurn reached = .ok next →
        (reached.argv = [] ∧ volumeOf next.state = volumeOf reached.state) ∨
          ∃ cmd, reached.argv[0]? = some cmd ∧
            VolumeStep (volumeOf reached.state) (fun op => op.available reached.state.fs) reached.rest
              (command cmd reached.argv) (volumeOf next.state) := by
  refine ⟨volumeOf_boot init boot, ?_⟩
  intro reached next turns turn
  have standing := turns.standing (standing_boot init boot) within
  exact (standing.turn (within _ turns) turn).2

/-- `cat a`. -/
def catKeys : List UInt8 :=
  catWord.chars ++ 32 :: sampleName.chars ++ newline :: []

/-- `mkdir d` and `cat a`. -/
def mkdirKeys : List UInt8 :=
  mkdirWord.chars ++ 32 :: shortToken.chars ++ newline :: catKeys

/-- `fwrite a`, a line and the dot that ends it, `mkdir d`, and `cat a`. -/
def sampleKeys : List UInt8 :=
  fwriteWord.chars ++ 32 :: sampleName.chars ++
    newline :: (typedText [[120]] ++ (terminator.chars ++ newline :: mkdirKeys))

def samplePrompt (start : DirState) : Prompt :=
  ⟨⟨start, fsInit bss⟩, .zeros cmdLen, sampleKeys, welcome⟩

theorem sampleName_word : Word sampleName.chars :=
  .of_all (by decide) (by decide)

theorem shortToken_word : Word shortToken.chars :=
  .of_all (by decide) (by decide)

theorem sample_room : Room (fsInit bss) sampleName rootDir (typedText [[120]]) := by
  rw [Room, findFile_fsInit, freeBlocks_fsInit]
  exact ⟨⟨0, findFreeSlot_fsInit bss⟩, by decide⟩

/-- The prompts behind the first two commands of the session. -/
structure SampleSession (start : DirState) (written made : Prompt) : Prop where
  init : dirInit bssDirs = .ok start
  wrote : shellTurn (samplePrompt start) = .ok written
  left : written.keys = mkdirKeys
  dir : written.state.dir = start
  created : shellTurn written = .ok made
  last : made.keys = catKeys
  cwd : made.state.dir.cwdPath = rootPath

theorem sample_mkdir : ∃ start outcome, dirInit bssDirs = .ok start ∧ dirMkdir start shortToken catKeys = .ok outcome ∧
    outcome.keys = catKeys ∧ outcome.dir.cwdPath = rootPath :=
  ⟨_, _, rfl, rfl, rfl, by decide⟩

theorem sample_session : ∃ start written made, SampleSession start written made := by
  obtain ⟨start, outcome, init, made, rest, cwd⟩ := sample_mkdir
  have standing : Standing (samplePrompt start).state := standing_boot init bss
  obtain ⟨row, text, _, found, spells, same⟩ := (holds_dirInit init).cwd_row
  have root : text = rootDir.chars := same ▸ List.mem_singleton.mp (holds_dirInit init).cwdPath_mem
  subst root
  obtain ⟨written, turn, left, dir, _⟩ := fwrite_turn standing.keyed found spells sampleName_word (by decide) rfl
    (by simpa using sample_verbatim) (by decide) sample_room
  have foundAgain : written.state.dir.row written.state.dir.cwdIdx = .ok row := by
    rw [dir]
    exact found
  have madeAgain : dirMkdir written.state.dir shortToken catKeys = .ok outcome := by
    rw [dir]
    exact made
  obtain ⟨next, again, state, last⟩ := mkdir_turn foundAgain spells shortToken_word (by decide) left madeAgain
  exact ⟨start, written, next, init, turn, left, dir, again, last.trans rest, by rw [state]; exact cwd⟩

theorem Turns.cases_next {reached : Prompt} (turns : Turns prompt reached) (turn : shellTurn prompt = .ok next) :
    reached = prompt ∨ Turns next reached := by
  rcases Relation.ReflTransGen.cases_head turns with same | ⟨other, again, later⟩
  · exact .inl same.symm
  · cases turn.symm.trans again
    exact .inr later

/-- The words of the lines of the session. -/
theorem SampleSession.argv {written made : Prompt} (session : SampleSession start written made) :
    ((samplePrompt start).argv = [fwriteWord, sampleName] ∧ written.argv = [mkdirWord, shortToken] ∧
      made.argv = [catWord, sampleName]) ∧
    (samplePrompt start).rest = typedText [[120]] ++ (terminator.chars ++ newline :: mkdirKeys) ∧
    written.rest = catKeys ∧ made.rest = [] := by
  obtain ⟨_, first, rest⟩ := Prompt.typed_two fwriteWord_word sampleName_word (by decide)
    (show (samplePrompt start).keys = _ from rfl)
  obtain ⟨_, second, later⟩ := Prompt.typed_two mkdirWord_word shortToken_word (by decide) session.left
  obtain ⟨_, third, last⟩ := Prompt.typed_two catWord_word sampleName_word (by decide) session.last
  exact ⟨⟨first, second, third⟩, rest, later, last⟩

theorem SampleSession.within {written made reached : Prompt} (session : SampleSession start written made)
    (turns : Turns (samplePrompt start) reached) : reached.Within := by
  obtain ⟨⟨first, second, third⟩, _, _, none⟩ := session.argv
  have short : sampleName.chars.length ≤ 63 := by decide
  intro entered cmd word
  rcases turns.cases_next session.wrote with rfl | later
  · rw [first] at word ⊢
    cases word
    exact fun _ => short
  · rcases later.cases_next session.created with rfl | last
    · rw [second] at word ⊢
      cases word
      intro _ _
      rw [session.dir, List.mem_singleton.mp (holds_dirInit session.init).cwdPath_mem]
      decide
    · rcases Relation.ReflTransGen.cases_head last with rfl | ⟨shown, turn, rest⟩
      · rw [third] at word ⊢
        cases word
        exact fun _ => short
      · -- nothing is typed behind `cat a`
        have nothing : reached.keys <:+ [] := none ▸ (Turns.suffix rest).trans (shellTurn_rest turn)
        rw [List.suffix_nil.mp nothing] at entered
        cases entered

/-- `fwrite a` and `mkdir d` put a file and a directory on the volume. -/
theorem sample_refines_volume : ∃ start written made, SampleSession start written made ∧
    volumeOf made.state = ⟨[rootPath, [slash, 100]], rootPath,
      Function.update (fun _ => none) (keyOf sampleName rootDir) (some [120, newline])⟩ := by
  obtain ⟨start, written, made, session⟩ := sample_session
  obtain ⟨⟨first, second, _⟩, rest, _, _⟩ := session.argv
  obtain ⟨empty, acts⟩ := session_refines_volume session.init (.zeros cmdLen) sampleKeys fun _ => session.within
  have file : volumeOf written.state = { emptyVolume with
      files := Function.update (fun _ => none) (keyOf sampleName rootDir) (some [120, newline]) } := by
    rcases acts (samplePrompt start) _ .refl session.wrote with ⟨none, _⟩ | ⟨cmd, word, step⟩
    · rw [first] at none
      cases none
    · rw [first] at word step
      cases word
      have chosen : command fwriteWord [fwriteWord, sampleName] = .file (.write sampleName) (fun _ => rfl) := rfl
      rw [chosen, rest, show (samplePrompt start).state = ⟨start, fsInit bss⟩ from rfl, empty] at step
      generalize volumeOf written.state = volume at step ⊢
      cases step with
      | shown shows => simp at shows
      | @file _ _ dir files here step =>
          have key : keyOf sampleName dir = keyOf sampleName rootDir := congrArg (Key.mk · sampleName.chars) here
          have nothing : ∀ other, other ≠ keyOf sampleName dir → emptyVolume.files other = none := fun _ _ => rfl
          have total : (FsOp.write sampleName dir).available (fsInit bss) = 8 := by
            rw [available_new (findFile_fsInit bss _ _), freeBlocks_fsInit, Finset.card_fin]
          have one : blocksFor [(120 : UInt8), newline].length = 1 := by decide
          obtain ⟨typed, ⟨tmp, input, collected, rfl⟩, rfl⟩ :=
            step.carried_out ⟨by decide, .inr (roomy_single nothing)⟩ (by
              rintro _ ⟨tmp, input, collected, rfl⟩
              rw [FsOp.needs, sample_typed collected, one, total]
              decide)
          rw [FsOp.apply, key, sample_typed collected]
          rfl
  refine ⟨start, written, made, session, ?_⟩
  rcases acts written _ (.single session.wrote) session.created with ⟨none, _⟩ | ⟨cmd, word, step⟩
  · rw [second] at none
    cases none
  · rw [second] at word step
    cases word
    have chosen : command mkdirWord [mkdirWord, shortToken] = .directory (.mkdir shortToken) := rfl
    rw [chosen, file] at step
    generalize volumeOf made.state = volume at step ⊢
    cases step with
    | shown shows => simp at shows
    | directory =>
        rw [Volume.directory, if_neg (by decide)]
        rfl

end Sessions

end Shell

end DugOS
