import DugOS.Dir.Termination

namespace DugOS.Dir

open Data Fs

/-! How the commands find a directory again, in any table: rows may hold strings
that do not end, and names may be too long for a path. -/

variable {dir other after : DirState} {path : List UInt8} {buf row out : Buffer dirNameLen} {i n idx : Nat}
  {name : CString} {files : FileIndex → FileEntry} {keys : List UInt8} {outcome : DirOutcome}

section Lookup

/-- Row `k` is compared with `path` and is different from it. -/
def DirState.Differs (dir : DirState) (path : List UInt8) (k : Nat) : Prop :=
  ∃ row order, dir.row k = .ok row ∧ kstrcmp row.bytes path = some order ∧ order ≠ 0

/-- A used row spells `path`. -/
def DirState.Lists (dir : DirState) (path : List UInt8) : Prop :=
  ∃ k < dir.dirCount, ∃ row, dir.row k = .ok row ∧ Spells row path

theorem DirState.Lists.length_lt (lists : dir.Lists path) : path.length < dirNameLen := by
  obtain ⟨k, below, row, found, spells⟩ := lists
  exact spells.length_lt

/-- The strings of the used rows that end within their row. -/
def DirState.spelled (dir : DirState) : List (List UInt8) :=
  dir.paths.filter (·.length < dirNameLen)

theorem DirState.mem_spelled (bounded : dir.dirCount ≤ dirMax) : path ∈ dir.spelled ↔ dir.Lists path := by
  simp only [DirState.spelled, DirState.paths, List.mem_filter, List.mem_map, List.mem_range, decide_eq_true_eq]
  constructor
  · intro both
    obtain ⟨⟨k, below, text⟩, short⟩ := both
    have found : dir.row k = .ok (dir.dirs ⟨k, Nat.lt_of_lt_of_le below bounded⟩) := DirState.row_of_lt _
    simp only [found] at text
    refine ⟨k, below, _, found, ?_, text⟩
    by_contra unterminated
    rw [← text, cstr_of_noNul unterminated, Buffer.length_eq] at short
    exact Nat.lt_irrefl _ short
  · intro lists
    obtain ⟨k, below, row, found, spells⟩ := lists
    exact ⟨⟨k, below, by rw [found]; exact spells.text⟩, spells.length_lt⟩

theorem DirState.cwdPath_of_row (found : dir.row dir.cwdIdx = .ok row) : dir.cwdPath = cstr row.bytes := by
  rw [DirState.cwdPath, found]

theorem DirState.paths_congr (count : other.dirCount = dir.dirCount)
    (rows : ∀ k, k < dir.dirCount → other.row k = dir.row k) : other.paths = dir.paths := by
  rw [DirState.paths, DirState.paths, count]
  apply List.map_congr_left
  intro k member
  rw [rows k (List.mem_range.mp member)]

theorem DirState.length_paths : dir.paths.length = dir.dirCount := by
  simp [DirState.paths]

theorem DirState.getElem?_paths {k : Nat} (below : k < dir.dirCount) (found : dir.row k = .ok row) :
    dir.paths[k]? = some (cstr row.bytes) := by
  simp [DirState.paths, below, found]

theorem findDirLoop_ok (run : findDirLoop dir path i n = .ok idx) :
    (idx = dirMax ∧ ∀ k, i ≤ k → k < i + n → dir.Differs path k) ∨
      (i ≤ idx ∧ idx < i + n ∧ ∃ row, dir.row idx = .ok row ∧ kstrcmp row.bytes path = some 0) := by
  induction n generalizing i with
  | zero =>
      cases run
      exact .inl ⟨rfl, fun k low high => by omega⟩
  | succ n ih =>
      obtain ⟨row, found, run⟩ := bind_eq_ok.mp run
      obtain ⟨order, compared, run⟩ := bind_eq_ok.mp run
      rw [inBounds_eq_ok] at compared
      split at run
      · rename_i equal
        cases run
        exact .inr ⟨Nat.le_refl _, by omega, row, found, equal ▸ compared⟩
      · rename_i different
        rcases ih run with ⟨missing, differ⟩ | ⟨low, high, here⟩
        · refine .inl ⟨missing, ?_⟩
          intro k low high
          by_cases first : k = i
          · exact first ▸ ⟨row, order, found, compared, different⟩
          · exact differ k (by omega) (by omega)
        · exact .inr ⟨by omega, by omega, here⟩

theorem findDirLoop_found (earlier : ∀ k, i ≤ k → k < idx → dir.Differs path k) (here : dir.row idx = .ok row)
    (same : kstrcmp row.bytes path = some 0) (low : i ≤ idx) (high : idx < i + n) :
    findDirLoop dir path i n = .ok idx := by
  induction n generalizing i with
  | zero => omega
  | succ n ih =>
      by_cases first : i = idx
      · subst first
        simp [findDirLoop, here, same, inBounds, bind, Except.bind, pure, Except.pure]
      · obtain ⟨passed, order, found, compared, different⟩ := earlier i (Nat.le_refl _) (by omega)
        simp only [findDirLoop, found, compared, inBounds, bind, Except.bind, if_neg different]
        exact ih (fun k above below => earlier k (by omega) below) (by omega) (by omega)

/-- Paths are built from the name and the row of the working directory alone. -/
theorem buildPath_congr (same : other.row other.cwdIdx = dir.row dir.cwdIdx) :
    buildPath other out name = buildPath dir out name := by
  simp only [buildPath, same]

theorem DirState.Differs.not_spells {k : Nat} (differs : dir.Differs buf.bytes k) (spells : Spells buf path)
    (found : dir.row k = .ok row) : ¬ Spells row path := by
  intro rowSpells
  obtain ⟨again, order, foundAgain, compared, different⟩ := differs
  cases found.symm.trans foundAgain
  have equal := (kstrcmp_eq_zero rowSpells.terminated spells.terminated).mpr (rowSpells.text.trans spells.text.symm)
  cases compared.symm.trans equal
  exact different rfl

theorem spells_of_asString {text : CString} (read : asString buf = .ok text) : Spells buf text.chars := by
  rw [asString] at read
  split at read
  · rename_i terminated
    cases read
    exact ⟨terminated, rfl⟩
  · cases read

end Lookup

section Commands

/-- `mkdir` copied the path in `buf` behind the rows in use. -/
structure Appended (dir : DirState) (buf : Buffer dirNameLen) (after : DirState) : Prop where
  room : dir.dirCount < dirMax
  differ : ∀ k, k < dir.dirCount → dir.Differs buf.bytes k
  count : after.dirCount = dir.dirCount + 1
  cwd : after.cwdIdx = dir.cwdIdx
  kept : ∀ k, k < dir.dirCount → after.row k = dir.row k
  last : ∃ old row, kstrncpy old 0 buf.bytes dirNameLen = some row ∧ after.row dir.dirCount = .ok row

theorem dirMkdir_cases (run : dirMkdir dir name keys = .ok outcome) :
    (outcome.report ≠ .done ∧ outcome.dir = dir) ∨
      ∃ newpath, buildPath dir (.zeros dirNameLen) name = .ok newpath ∧ Appended dir newpath outcome.dir := by
  unfold dirMkdir at run
  split at run
  · cases run
    exact .inl ⟨by simp, rfl⟩
  · split at run
    · cases run
      exact .inl ⟨by simp, rfl⟩
    · rename_i notFull
      have room := Nat.lt_of_not_le notFull
      obtain ⟨newpath, built, run⟩ := bind_eq_ok.mp run
      obtain ⟨found, search, run⟩ := bind_eq_ok.mp run
      split at run
      · cases run
        exact .inl ⟨by simp, rfl⟩
      · rename_i missing
        obtain ⟨old, _, run⟩ := bind_eq_ok.mp run
        obtain ⟨row, copied, run⟩ := bind_eq_ok.mp run
        obtain ⟨written, write, run⟩ := bind_eq_ok.mp run
        cases run
        rw [inBounds_eq_ok] at copied
        obtain ⟨count, cwd⟩ := DirState.setRow_counts write
        have changed := DirState.row_setRow write
        refine .inr ⟨newpath, built, room, ?_, congrArg (· + 1) count, cwd, ?_, old, row, copied, ?_⟩
        · rcases findDirLoop_ok search with ⟨_, differ⟩ | ⟨_, below, _⟩
          · exact fun k high => differ k (Nat.zero_le _) (by omega)
          · omega
        · intro k below
          exact (changed k).trans (if_neg (by omega))
        · exact (changed dir.dirCount).trans (if_pos rfl)

theorem dirCd_cases (run : dirCd dir name keys = .ok outcome) :
    outcome.dir = dir ∨ ∃ idx, idx < dir.dirCount ∧ outcome.dir = { dir with cwdIdx := idx } := by
  unfold dirCd at run
  split at run
  · cases run
    exact .inl rfl
  · obtain ⟨newpath, _, run⟩ := bind_eq_ok.mp run
    obtain ⟨idx, search, run⟩ := bind_eq_ok.mp run
    split at run
    · cases run
      exact .inl rfl
    · rename_i present
      obtain ⟨row, _, run⟩ := bind_eq_ok.mp run
      cases run
      rcases findDirLoop_ok search with ⟨missing, _⟩ | ⟨_, below, _⟩
      · exact absurd missing present
      · exact .inr ⟨idx, by omega, rfl⟩

/-- `rmdir` took the row `idx` away, which spells the path built from the name. -/
structure Removed (dir : DirState) (files : FileIndex → FileEntry) (name : CString) (keys : List UInt8) (idx : Nat)
    (target : CString) (after : DirState) : Prop where
  built : ∃ path, buildPath dir (.zeros dirNameLen) name = .ok path ∧ Spells path target.chars
  below : idx < dir.dirCount
  found : ∃ row, dir.row idx = .ok row ∧ Spells row target.chars
  notCwd : idx ≠ dir.cwdIdx
  notRoot : target.chars ≠ rootPath
  empty : fsDirEmpty files target = true
  agreed : ∃ typed, readline (.zeros 4) keys = .ok typed ∧ confirmed typed.buf = true
  result : removeRow dir idx = .ok after

theorem dirRmdir_cases (run : dirRmdir dir files name keys = .ok outcome) :
    (outcome.report ≠ .done ∧ outcome.dir = dir) ∨
      outcome.report = .done ∧ ∃ idx target, Removed dir files name keys idx target outcome.dir := by
  unfold dirRmdir at run
  split at run
  · cases run
    exact .inl ⟨by simp, rfl⟩
  · obtain ⟨target, built, run⟩ := bind_eq_ok.mp run
    obtain ⟨order, compared, run⟩ := bind_eq_ok.mp run
    rw [inBounds_eq_ok] at compared
    split at run
    · cases run
      exact .inl ⟨by simp, rfl⟩
    · rename_i notZero
      obtain ⟨idx, search, run⟩ := bind_eq_ok.mp run
      split at run
      · cases run
        exact .inl ⟨by simp, rfl⟩
      · rename_i present
        split at run
        · cases run
          exact .inl ⟨by simp, rfl⟩
        · rename_i notCwd
          obtain ⟨path, spelled, run⟩ := bind_eq_ok.mp run
          have spells := spells_of_asString spelled
          split at run
          · cases run
            exact .inl ⟨by simp, rfl⟩
          · rename_i empty
            obtain ⟨typed, asked, run⟩ := bind_eq_ok.mp run
            split at run
            · cases run
              exact .inl ⟨by simp, rfl⟩
            · rename_i agreed
              obtain ⟨removed, remove, run⟩ := bind_eq_ok.mp run
              cases run
              refine .inr ⟨rfl, idx, path, ⟨target, built, spells⟩, ?_, ?_, notCwd, ?_, by simpa using empty,
                ⟨typed, asked, by simpa using agreed⟩, remove⟩
              · rcases findDirLoop_ok search with ⟨missing, _⟩ | ⟨_, below, _⟩
                · exact absurd missing present
                · omega
              · rcases findDirLoop_ok search with ⟨missing, _⟩ | ⟨_, _, row, found, equal⟩
                · exact absurd missing present
                · obtain ⟨inRow, inTarget⟩ := kstrcmp_terminated equal
                  have same := (kstrcmp_eq_zero inRow inTarget).mp equal
                  exact ⟨row, found, inRow, same.trans spells.text⟩
              · intro root
                have order_zero := (kstrcmp_eq_zero spells.terminated (show 0 ∈ rootMemory by decide)).mpr
                  (spells.text.trans root)
                exact notZero (Option.some.inj (compared.symm.trans order_zero))

theorem removeRow_paths (bounded : dir.dirCount ≤ dirMax) (below : idx < dir.dirCount)
    (removed : removeRow dir idx = .ok after) : after.paths = dir.paths.eraseIdx idx := by
  obtain ⟨count, _, kept, moved⟩ := removeRow_rows below removed
  apply List.ext_getElem?
  intro k
  rw [List.getElem?_eraseIdx]
  by_cases inside : k < dir.dirCount - 1
  · have belowAfter : k < after.dirCount := count ▸ inside
    by_cases before : k < idx
    · have found : dir.row k = .ok (dir.dirs ⟨k, by omega⟩) := DirState.row_of_lt _
      rw [if_pos before, DirState.getElem?_paths (by omega) found,
        DirState.getElem?_paths belowAfter ((kept k before).trans found)]
    · have found : dir.row (k + 1) = .ok (dir.dirs ⟨k + 1, by omega⟩) := DirState.row_of_lt _
      obtain ⟨copy, copyFound, text⟩ := moved k _ (by omega) (by omega) found
      rw [if_neg before, DirState.getElem?_paths (by omega) found, DirState.getElem?_paths belowAfter copyFound, text]
  · have behind : ¬ k < idx := by omega
    rw [if_neg behind, List.getElem?_eq_none, List.getElem?_eq_none]
    · rw [DirState.length_paths]
      omega
    · rw [DirState.length_paths]
      omega

/-- The working directory may move up one row, but it keeps its path. -/
theorem removeRow_cwdPath (bounded : dir.dirCount ≤ dirMax) (inside : dir.cwdIdx < dir.dirCount)
    (below : idx < dir.dirCount) (notCwd : idx ≠ dir.cwdIdx) (removed : removeRow dir idx = .ok after) :
    ∃ row, after.row after.cwdIdx = .ok row ∧ cstr row.bytes = dir.cwdPath := by
  obtain ⟨_, cwd, kept, moved⟩ := removeRow_rows below removed
  have found : dir.row dir.cwdIdx = .ok (dir.dirs ⟨dir.cwdIdx, by omega⟩) := DirState.row_of_lt _
  rw [DirState.cwdPath_of_row found]
  by_cases before : idx < dir.cwdIdx
  · rw [cwd, if_pos before]
    apply moved _ _ (by omega) (by omega)
    rw [Nat.sub_add_cancel (by omega), found]
  · rw [cwd, if_neg before]
    exact ⟨_, (kept _ (by omega)).trans found, rfl⟩

end Commands

section Returning

theorem findDirLoop_exists (buf : Buffer dirNameLen)
    (ended : ∀ k, i ≤ k → k < i + n → ∃ row, dir.row k = .ok row ∧ 0 ∈ row.bytes) :
    ∃ idx, findDirLoop dir buf.bytes i n = .ok idx := by
  induction n generalizing i with
  | zero => exact ⟨dirMax, rfl⟩
  | succ n ih =>
      obtain ⟨row, found, terminated⟩ := ended i (Nat.le_refl _) (by omega)
      obtain ⟨order, compared⟩ := kstrcmp_exists terminated
        (.inr (row.length_eq.trans buf.length_eq.symm).le)
      simp only [findDirLoop, found, compared, inBounds, bind, Except.bind]
      split
      · exact ⟨i, rfl⟩
      · exact ih (fun k low high => ended k (by omega) (by omega))

theorem buildPath_exists {cwd : List UInt8} (found : dir.row dir.cwdIdx = .ok row) (spells : Spells row cwd)
    (out : Buffer dirNameLen) (within : name.chars.head? = some slash → name.chars.length ≤ 63) :
    ∃ path, buildPath dir out name = .ok path := by
  by_cases absolute : name.chars.head? = some slash
  · obtain ⟨path, built, _⟩ := @buildPath_absolute [] name dir out absolute (within absolute)
    exact ⟨path, built⟩
  · obtain ⟨base, baseSpells, built⟩ := buildPath_relative found spells out absolute
    obtain ⟨path, copied, _⟩ := baseSpells.append name
    rw [built, copied]
    exact ⟨path, rfl⟩

/-- `rmdir` comes back whatever its answer is, when all rows end. -/
theorem dirRmdir_returns (files : FileIndex → FileEntry) (bounded : dir.dirCount ≤ dirMax)
    (inside : dir.cwdIdx < dir.dirCount)
    (ended : ∀ k, k < dir.dirCount → ∃ row, dir.row k = .ok row ∧ 0 ∈ row.bytes)
    (within : name.chars.head? = some slash → name.chars.length ≤ 63) (answered : newline ∈ keys) :
    ∃ outcome, dirRmdir dir files name keys = .ok outcome := by
  obtain ⟨cwdRow, cwdFound, cwdEnds⟩ := ended _ inside
  obtain ⟨target, built⟩ := buildPath_exists cwdFound ⟨cwdEnds, rfl⟩ (.zeros dirNameLen) within
  obtain ⟨order, swapped⟩ := kstrcmp_exists (show 0 ∈ rootMemory by decide)
    (show 0 ∈ target.bytes ∨ rootMemory.length ≤ target.bytes.length from .inr (by rw [target.length_eq]; decide))
  have compared : kstrcmp target.bytes rootMemory = some (-order) := by
    rw [kstrcmp_swap, swapped, Option.map_some]
  obtain ⟨idx, search⟩ := findDirLoop_exists (i := 0) (n := dir.dirCount) target
    (fun k _ below => ended k (by omega))
  obtain ⟨typed, asked⟩ := readlineLoop_returns (n := 0) (fun _ => true) (.zeros 4) answered (by decide)
  simp only [dirRmdir, built, compared, findDir, search, inBounds, readline, asked, bind, Except.bind]
  split
  · exact ⟨_, rfl⟩
  · split
    · exact ⟨_, rfl⟩
    · split
      · exact ⟨_, rfl⟩
      · rename_i present
        rcases findDirLoop_ok search with ⟨missing, _⟩ | ⟨_, below, row, _, equal⟩
        · exact absurd missing present
        · have spells : Spells target (cstr target.bytes) := ⟨(kstrcmp_terminated equal).2, rfl⟩
          obtain ⟨after, removed⟩ := removeRow_exists bounded (show idx < dir.dirCount by omega)
          simp only [asString_spells spells, removed]
          split
          · exact ⟨_, rfl⟩
          · split
            · exact ⟨_, rfl⟩
            · split
              · exact ⟨_, rfl⟩
              · exact ⟨_, rfl⟩

end Returning

section Again

theorem dirMkdir_appends (built : buildPath dir (.zeros dirNameLen) name = .ok buf)
    (made : dirMkdir dir name keys = .ok outcome) (done : outcome.report = .done) :
    Appended dir buf outcome.dir := by
  rcases dirMkdir_cases made with ⟨failed, _⟩ | ⟨newpath, again, appended⟩
  · exact absurd done failed
  · cases built.symm.trans again
    exact appended

theorem Appended.last_spells (appended : Appended dir buf after) (terminated : 0 ∈ buf.bytes) :
    ∃ row, after.row dir.dirCount = .ok row ∧ Spells row (cstr buf.bytes) := by
  obtain ⟨old, row, copied, found⟩ := appended.last
  have spells : Spells buf (cstr buf.bytes) := ⟨terminated, rfl⟩
  exact ⟨row, found, spells.of_text (copied_text copied)⟩

theorem Appended.found_last (appended : Appended dir buf after) (terminated : 0 ∈ buf.bytes) :
    findDir after buf.bytes = .ok dir.dirCount := by
  obtain ⟨row, found, spells⟩ := appended.last_spells terminated
  apply findDirLoop_found ?_ found ((kstrcmp_eq_zero spells.terminated terminated).mpr spells.text) (Nat.zero_le _)
  · rw [appended.count]
    omega
  · intro k _ below
    obtain ⟨other, order, otherFound, compared, different⟩ := appended.differ k below
    exact ⟨other, order, (appended.kept k below).trans otherFound, compared, different⟩

theorem Appended.same_path (appended : Appended dir buf after) (inside : dir.cwdIdx < dir.dirCount) :
    buildPath after out name = buildPath dir out name := by
  apply buildPath_congr
  rw [appended.cwd, appended.kept _ inside]

theorem Appended.fresh (appended : Appended dir buf after) (terminated : 0 ∈ buf.bytes) :
    ¬ dir.Lists (cstr buf.bytes) := by
  intro lists
  obtain ⟨k, below, row, found, spells⟩ := lists
  exact (appended.differ k below).not_spells ⟨terminated, rfl⟩ found spells

theorem Appended.paths_eq (appended : Appended dir buf after) : after.paths = dir.paths ++ [cstr buf.bytes] := by
  obtain ⟨old, row, copied, found⟩ := appended.last
  rw [DirState.paths, DirState.paths, appended.count, List.range_succ, List.map_append, List.map_singleton, found]
  congr 1
  · apply List.map_congr_left
    intro k member
    rw [appended.kept k (List.mem_range.mp member)]
  · exact congrArg (fun text => [text]) (copied_text copied)

/-- `cd` with the name of the new directory, unless it means the parent. -/
theorem Appended.cd (appended : Appended dir buf after) (terminated : 0 ∈ buf.bytes) (nonempty : name.chars ≠ [])
    (built : buildPath dir (.zeros dirNameLen) name = .ok buf) (inside : dir.cwdIdx < dir.dirCount)
    (root : dir.Lists rootPath) (notParent : name.chars ≠ dotDot.chars) (keys : List UInt8) :
    ∃ moved, dirCd after name keys = .ok moved ∧ moved.report = .done ∧
      moved.dir = { after with cwdIdx := dir.dirCount } := by
  have notRoot : name.chars ≠ rootPath := by
    intro isRoot
    have absolute : ∃ path, buildPath dir (.zeros dirNameLen) name = .ok path ∧ Spells path (joinPath [] name.chars) :=
      buildPath_absolute dir (.zeros dirNameLen) (by rw [isRoot]; rfl) (by rw [isRoot]; decide)
    obtain ⟨path, again, spells⟩ := absolute
    cases built.symm.trans again
    have text : cstr buf.bytes = rootPath := by
      rw [spells.text, isRoot]
      decide
    exact appended.fresh terminated (text ▸ root)
  have isParent : ¬ kstrcmp name.memory dotDot.memory = some 0 := by
    rw [kstrcmp_eq_zero name.zero_mem_memory dotDot.zero_mem_memory, CString.cstr_memory, CString.cstr_memory]
    exact notParent
  have isRoot : ¬ kstrcmp name.memory rootMemory = some 0 := by
    rw [kstrcmp_eq_zero name.zero_mem_memory (by decide), CString.cstr_memory]
    exact notRoot
  obtain ⟨row, found, _⟩ := appended.last_spells terminated
  simp only [dirCd, if_neg ((kstrlen_eq_zero name).not.mpr nonempty), cdPath, if_neg isParent, if_neg isRoot,
    appended.same_path inside, built, appended.found_last terminated, if_neg (Nat.ne_of_lt appended.room), found, bind,
    Except.bind, pure, Except.pure]
  exact ⟨_, rfl, rfl, rfl⟩

/-- `rmdir` with the name of the new directory takes its row away again. -/
theorem Appended.rmdir {typed : Typed 4} (appended : Appended dir buf after) (terminated : 0 ∈ buf.bytes)
    (nonempty : name.chars ≠ []) (built : buildPath dir (.zeros dirNameLen) name = .ok buf)
    (inside : dir.cwdIdx < dir.dirCount) (root : dir.Lists rootPath)
    (empty : ∀ i, (files i).used = true → (files i).dirString ≠ cstr buf.bytes)
    (asked : readline (.zeros 4) keys = .ok typed) (agreed : confirmed typed.buf = true) :
    ∃ removed, dirRmdir after files name keys = .ok removed ∧ removed.report = .done ∧
      removed.dir.dirCount = dir.dirCount ∧ removed.dir.cwdIdx = dir.cwdIdx ∧
      ∀ k, k < dir.dirCount → removed.dir.row k = dir.row k := by
  have spells : Spells buf (cstr buf.bytes) := ⟨terminated, rfl⟩
  have notRoot : cstr buf.bytes ≠ rootPath := by
    intro isRoot
    exact appended.fresh terminated (isRoot ▸ root)
  obtain ⟨order, compared, isRoot⟩ := spells.kstrcmp rootMemory (by decide)
  have notZero : order ≠ 0 := isRoot.not.mpr notRoot
  have notCwd : dir.dirCount ≠ after.cwdIdx := by
    rw [appended.cwd]
    omega
  have noFile : fsDirEmpty files ⟨cstr buf.bytes, spells.noNul⟩ = true := fsDirEmpty_iff.mpr empty
  have below : dir.dirCount < after.dirCount := by
    rw [appended.count]
    exact Nat.lt_succ_self _
  have bounded : after.dirCount ≤ dirMax := by
    rw [appended.count]
    exact appended.room
  obtain ⟨result, removed⟩ := removeRow_exists bounded below
  obtain ⟨count, cwd, kept, _⟩ := removeRow_rows below removed
  have run : ∃ removed, dirRmdir after files name keys = .ok removed ∧ removed.report = .done ∧
      removed.dir = result := by
    simp only [dirRmdir, if_neg ((kstrlen_eq_zero name).not.mpr nonempty), appended.same_path inside, built, compared,
      inBounds, if_neg notZero, appended.found_last terminated, if_neg (Nat.ne_of_lt appended.room), if_neg notCwd,
      asString_spells spells, noFile, Bool.not_true, Bool.false_eq_true, if_false, asked, agreed, removed, bind,
      Except.bind, pure, Except.pure]
    exact ⟨_, rfl, rfl, rfl⟩
  obtain ⟨outcome, run, done, rfl⟩ := run
  refine ⟨outcome, run, done, ?_, ?_, ?_⟩
  · rw [count, appended.count, Nat.add_sub_cancel]
  · rw [cwd, appended.cwd, if_neg (by omega)]
  · intro k below
    exact (kept k below).trans (appended.kept k below)

end Again

end DugOS.Dir
