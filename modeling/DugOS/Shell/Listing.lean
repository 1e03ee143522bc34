import DugOS.Shell.Volume

namespace DugOS

open Data

/-! What `ls` shows of the volume.

The directories come in the order of their table and the files in the order of
their slots, so that the listing has an order that the volume does not know.
-/

/-- The call with the string that it prints, in place of the memory behind its
pointer. -/
def VgaCall.printed : VgaCall → VgaCall
  | .write memory => .write (cstr memory)
  | .writeln memory => .writeln (cstr memory)
  | call => call

namespace Fs

variable {fs : FileSystem} {dir : CString}

/-- The line for a file of `size` bytes. -/
def fileLine (name : List UInt8) (size : Nat) : List VgaCall :=
  [.write (ascii "  "), .write name, .write (ascii "  ("), .writeDec size, .writeln (ascii " bytes)")]

/-- The lines for the files of a directory, with the sizes that the map gives. -/
def fileLines (files : FileMap) (dir : List UInt8) (names : List (List UInt8)) : List VgaCall :=
  if names = [] then [.writeln (ascii "  (no files in this directory)")]
  else names.flatMap fun name => fileLine name ((files ⟨dir, name⟩).getD []).length

/-- The used entries of a directory, in the order of the table. -/
def entriesOf (files : FileIndex → FileEntry) (dir : CString) : List FileIndex :=
  (List.finRange fsMaxFiles).filter fun i => (files i).used && (files i).dirString = dir.chars

theorem fsList_entries : fsList fs dir =
    if entriesOf fs.files dir = [] then [.writeln (ascii "  (no files in this directory)")]
    else (entriesOf fs.files dir).flatMap fun i => [.write (ascii "  "), .write (fs.files i).memory,
      .write (ascii "  ("), .writeDec (fs.files i).size, .writeln (ascii " bytes)")] := by
  have same : ((List.finRange fsMaxFiles).filter fun i =>
      (fs.files i).used && kstrcmp ((fs.files i).memory.drop fsNameLen) dir.memory == some 0) =
        entriesOf fs.files dir := by
    apply List.filter_congr
    intro i _
    have compared := kstrcmp_eq_zero (fs.files i).zero_mem_memory_drop dir.zero_mem_memory
    rw [CString.cstr_memory] at compared
    congr 1
    rw [Bool.eq_iff_iff, beq_iff_eq, compared, decide_eq_true_iff]
    rfl
  rw [fsList, same]

theorem mem_entriesOf {i : FileIndex} :
    i ∈ entriesOf fs.files dir ↔ (fs.files i).used = true ∧ (fs.files i).dirString = dir.chars := by
  simp [entriesOf]

/-- Every file of the directory has one line, with its size. -/
theorem fsList_files (dir : CString) (keyed : Keyed fs) :
    ∃ names : List (List UInt8), names.Nodup ∧
      (∀ name, name ∈ names ↔ ∃ value, fileMap fs ⟨dir.chars, name⟩ = some value) ∧
      (fsList fs dir).map VgaCall.printed = fileLines (fileMap fs) dir.chars names := by
  have represents := fileMap_represents keyed.unique
  have held : ∀ i ∈ entriesOf fs.files dir,
      fileMap fs ⟨dir.chars, (fs.files i).nameString⟩ = some (content fs.toDisk (fs.files i)) := by
    intro i member
    obtain ⟨used, inside⟩ := mem_entriesOf.mp member
    refine (represents _ _).mpr ⟨i, slots_eq_some.mpr ⟨used, ?_, rfl⟩⟩
    rw [FileEntry.key, inside]
  refine ⟨(entriesOf fs.files dir).map fun i => (fs.files i).nameString, ?_, ?_, ?_⟩
  · apply List.Nodup.map_on
    · intro i memberI j memberJ sameName
      obtain ⟨usedI, insideI⟩ := mem_entriesOf.mp memberI
      obtain ⟨usedJ, insideJ⟩ := mem_entriesOf.mp memberJ
      exact unique_slots_iff.mp keyed.unique i j usedI usedJ (insideI.trans insideJ.symm) sameName
    · exact (List.nodup_finRange _).filter _
  · intro name
    constructor
    · intro member
      obtain ⟨i, listed, rfl⟩ := List.mem_map.mp member
      exact ⟨_, held i listed⟩
    · intro given
      obtain ⟨value, found⟩ := given
      obtain ⟨i, stored⟩ := (represents _ _).mp found
      obtain ⟨used, sameKey, _⟩ := slots_eq_some.mp stored
      exact List.mem_map.mpr ⟨i, mem_entriesOf.mpr ⟨used, congrArg Key.dir sameKey⟩, congrArg Key.name sameKey⟩
  · rw [fsList_entries, fileLines]
    by_cases none : entriesOf fs.files dir = []
    · rw [if_pos none, if_pos (List.map_eq_nil_iff.mpr none)]
      rfl
    · rw [if_neg none, if_neg (List.map_eq_nil_iff.not.mpr none), List.map_flatMap, List.flatMap_map]
      apply List.flatMap_congr
      intro i member
      obtain ⟨chain, layout⟩ := keyed.valid
      have length := (layout.owned i (mem_entriesOf.mp member).1).content_length
      rw [held i member, Option.getD_some, length]
      rfl

end Fs

namespace Dir

variable {dir : DirState} {paths : List (List UInt8)} {buf : Buffer dirNameLen} {cwd : List UInt8}

/-- The lines for the directories among `paths` that are children of `cwd`. -/
noncomputable def childLines (cwd : List UInt8) (paths : List (List UInt8)) : List VgaCall :=
  open Classical in
  (paths.filter (IsChild · cwd)).flatMap fun path => [.write (ascii "  [DIR]  "), .writeln path]

theorem lsLoop_children (holds : Holds dir paths) (spells : Spells buf cwd) (n i : Nat)
    (left : i + n = paths.length) :
    ∃ screen, lsLoop dir buf.bytes i n = .ok screen ∧
      screen.map VgaCall.printed = childLines cwd (paths.drop i) := by
  classical
  induction n generalizing i with
  | zero =>
      refine ⟨[], rfl, ?_⟩
      rw [List.drop_of_length_le (by omega)]
      rfl
  | succ n ih =>
      have below : i < paths.length := by omega
      obtain ⟨row, found, rowSpells⟩ := holds.rows i _ (List.getElem?_eq_getElem below)
      obtain ⟨answer, asked, isChild⟩ := isImmediateChild_spec rowSpells spells
      obtain ⟨rest, listed, later⟩ := ih (i + 1) (by omega)
      simp only [lsLoop, found, asked, inBounds, listed, bind, Except.bind, pure, Except.pure]
      refine ⟨_, rfl, ?_⟩
      rw [List.map_append, later, List.drop_eq_getElem_cons below, childLines, childLines, List.filter_cons]
      by_cases child : IsChild paths[i] cwd
      · rw [if_pos (isChild.mpr child), if_pos (decide_eq_true child), List.flatMap_cons]
        simp only [List.map_cons, List.map_nil, VgaCall.printed, rowSpells.text]
        rfl
      · rw [if_neg (isChild.not.mpr child), if_neg (by simpa using child)]
        rfl

end Dir

namespace Shell

open Fs Dir

/-- The listing of the working directory, with its files in the order `names`. -/
noncomputable def Volume.listing (volume : Volume) (names : List (List UInt8)) : List VgaCall :=
  [.setColor .lightCyan .black, .write (ascii "  Directory listing: "), .writeln volume.cwd, .writeln [],
    .setColor .white .black] ++ childLines volume.cwd volume.dirs ++ fileLines volume.files volume.cwd names

theorem dirLs_listing {state : ShellState} (standing : Standing state) :
    ∃ screen names, dirLs state.dir state.fs = .ok screen ∧ names.Nodup ∧
      (∀ name, name ∈ names ↔ ∃ value, (volumeOf state).files ⟨(volumeOf state).cwd, name⟩ = some value) ∧
      screen.map VgaCall.printed = (volumeOf state).listing names := by
  obtain ⟨paths, known⟩ := standing.consistent
  have holds := known.table.toHolds
  obtain ⟨row, cwd, _, found, spells, same⟩ := holds.cwd_row
  obtain ⟨listed, ran, children⟩ := lsLoop_children holds spells paths.length 0 (Nat.zero_add _)
  obtain ⟨names, distinct, complete, files⟩ := fsList_files ⟨cwd, spells.noNul⟩ standing.keyed
  rw [← holds.count] at ran
  have volume : volumeOf state = ⟨paths, cwd, fileMap state.fs⟩ := by
    rw [volumeOf, holds.paths_eq, same]
  rw [volume]
  simp only [dirLs, found, ran, asString_spells spells, bind, Except.bind, pure, Except.pure]
  refine ⟨_, names, rfl, distinct, complete, ?_⟩
  rw [List.map_append, List.map_append, children, files, Volume.listing]
  simp only [List.map_cons, List.map_nil, VgaCall.printed, spells.text]
  rfl

/-- At every prompt of a session within the limits, `ls` shows each child of the
working directory and each of its files once, with its size, and nothing else. -/
theorem listing_is_exact {bootDirs start : DirState} {boot : FileSystem} {reached : Prompt}
    (init : dirInit bootDirs = .ok start) (buf : Buffer cmdLen) (keys : List UInt8)
    (within : ∀ reached, Turns ⟨⟨start, fsInit boot⟩, buf, keys, welcome⟩ reached → reached.Within)
    (turns : Turns ⟨⟨start, fsInit boot⟩, buf, keys, welcome⟩ reached) :
    ∃ screen names, dirLs reached.state.dir reached.state.fs = .ok screen ∧ names.Nodup ∧
      (∀ name, name ∈ names ↔
        ∃ value, (volumeOf reached.state).files ⟨(volumeOf reached.state).cwd, name⟩ = some value) ∧
      screen.map VgaCall.printed = (volumeOf reached.state).listing names :=
  dirLs_listing (turns.standing (standing_boot init boot) within)

/-- Behind `fwrite a` and `mkdir d`, the root has a directory and a file of two
bytes. -/
theorem sample_listing_is_exact : ∃ start written made screen, SampleSession start written made ∧
    dirLs made.state.dir made.state.fs = .ok screen ∧
    screen.map VgaCall.printed = [.setColor .lightCyan .black, .write (ascii "  Directory listing: "), .writeln rootPath,
      .writeln [], .setColor .white .black, .write (ascii "  [DIR]  "), .writeln [slash, 100], .write (ascii "  "),
      .write [97], .write (ascii "  ("), .writeDec 2, .writeln (ascii " bytes)")] := by
  obtain ⟨start, written, made, session, volume⟩ := sample_refines_volume
  have turns : Turns (samplePrompt start) made := .tail (.single session.wrote) session.created
  obtain ⟨screen, names, ran, distinct, complete, shown⟩ :=
    listing_is_exact session.init (.zeros cmdLen) sampleKeys (fun _ => session.within) turns
  rw [volume] at complete shown
  have single : names = [[97]] := by
    apply List.perm_singleton.mp
    rw [List.perm_ext_iff_of_nodup distinct (List.nodup_singleton _)]
    intro name
    rw [complete, List.mem_singleton]
    simp [Function.update_apply, keyOf, rootDir, rootPath, sampleName]
  have notItself : ¬ IsChild rootPath rootPath := by
    rintro ⟨name, nonempty, _, same⟩
    rw [if_pos rfl, List.self_eq_append_right] at same
    exact nonempty same
  have child : IsChild [slash, 100] rootPath := ⟨[100], by decide, by decide, rfl⟩
  refine ⟨start, written, made, screen, session, ran, ?_⟩
  rw [shown, single, Volume.listing, childLines, fileLines]
  simp [notItself, child, fileLine, keyOf, rootDir, rootPath, sampleName]

end Shell

end DugOS
