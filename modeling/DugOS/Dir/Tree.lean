import DugOS.Dir.Termination

namespace DugOS.Dir

open Data Fs

/-! The tree that the flat table of paths stands for.

The table holds no links between directories. A directory has its parent in the
table only because of the order in which directories were created and removed.
-/

/-- The table as `dir_init` and the commands leave it. -/
structure WellFormed (dir : DirState) (paths : List (List UInt8)) : Prop extends Holds dir paths where
  root : paths[0]? = some rootPath
  distinct : paths.Nodup
  rooted : ∀ path ∈ paths, path.head? = some slash

/-- The parent of every directory is a directory, as the code computes it. -/
def ParentsClosed (dir : DirState) : Prop :=
  ∀ i, i < dir.dirCount → ∃ row parent, dir.row i = .ok row ∧
    parentPath (.zeros dirNameLen) row.bytes = .ok parent ∧ 0 ∈ parent.bytes ∧ cstr parent.bytes ∈ dir.paths

/-- A directory is created only under a directory, and removed only when it is
the parent of no other. -/
def KeepsParents (step : Transition DirState DirEvent) : Prop :=
  step.label.report = .done →
    match step.label.op with
    | .mkdir name => parentOf (joinPath step.before.cwdPath name.chars) ∈ step.before.paths
    | .cd _ => True
    | .rmdir name => ∀ path ∈ step.before.paths, path ≠ joinPath step.before.cwdPath name.chars →
        parentOf path ≠ joinPath step.before.cwdPath name.chars

/-- A component stands behind the last slash, and the slashes before it are not
the two of `"//name"`. -/
def Proper (path : List UInt8) : Prop :=
  path.getLast? ≠ some slash ∧ path.rdropWhile (· ≠ slash) ≠ [slash, slash]

variable {boot start dir after : DirState} {paths : List (List UInt8)} {path cwd : List UInt8} {event : DirEvent}
  {op : DirOp} {files : FileIndex → FileEntry} {report : DirReport} {row buf : Buffer dirNameLen}
  {trace : List (Transition DirState DirEvent)}

section Namespace

theorem joinPath_rooted (name : List UInt8) (rooted : cwd.head? = some slash) :
    (joinPath cwd name).head? = some slash := by
  obtain ⟨rest, rfl⟩ := List.head?_eq_some_iff.mp rooted
  rw [joinPath]
  split
  · rename_i absolute
    obtain ⟨tail, rfl⟩ := List.head?_eq_some_iff.mp absolute
    split
    · rename_i trailing
      obtain ⟨c, tail, rfl⟩ := List.exists_cons_of_length_pos (Nat.lt_of_succ_lt_succ trailing.1)
      rfl
    · rfl
  · rw [separated]
    split <;> rfl

theorem wellFormed_dirInit (init : dirInit boot = .ok start) : WellFormed start [rootPath] where
  toHolds := holds_dirInit init
  root := rfl
  distinct := List.nodup_singleton _
  rooted := by simp

theorem DirEffect.wellFormed (effect : DirEffect dir files paths op report after) (known : WellFormed dir paths) :
    ∃ paths, WellFormed after paths := by
  cases effect with
  | unchanged => exact ⟨paths, known⟩
  | @created name _ room fresh holds cwd =>
      refine ⟨_, holds, ?_, ?_, ?_⟩
      · have first := known.root
        rw [List.getElem?_append_left (List.getElem?_eq_some_iff.mp first).1, first]
      · exact known.distinct.append (List.nodup_singleton _) (by simpa using fresh)
      · intro path member
        rcases List.mem_append.mp member with old | new
        · exact known.rooted path old
        · rw [List.mem_singleton.mp new]
          exact joinPath_rooted _ (known.rooted _ known.cwdPath_mem)
  | entered present =>
      refine ⟨paths, ⟨known.count, known.bounded, known.rows, ?_⟩, known.root, known.distinct, known.rooted⟩
      exact List.idxOf_lt_length_iff.mpr present
  | @removed name path _ built notRoot present notCwd empty holds cwd =>
      refine ⟨_, holds, ?_, known.distinct.eraseIdx _, ?_⟩
      · have behind : 0 < paths.idxOf path := by
          apply Nat.pos_of_ne_zero
          intro first
          have found := List.getElem?_idxOf present
          rw [first, known.root] at found
          exact notRoot (Option.some.inj found).symm
        rw [List.getElem?_eraseIdx, if_pos behind, known.root]
      · intro path member
        exact known.rooted path (List.mem_of_mem_eraseIdx member)

/-- Every state of a run whose paths all fit is well formed. -/
theorem wellFormed_before (init : dirInit boot = .ok start) (run : Run DirStep start trace dir)
    (fits : ∀ step ∈ trace, step.label.op.Fits step.before) : ∀ step ∈ trace,
      (∃ paths, WellFormed step.before paths) ∧ DirStep step.before step.label step.after ∧
        step.label.op.Fits step.before := by
  let known := fun dir => ∃ paths, WellFormed dir paths
  have first : known start := ⟨_, wellFormed_dirInit init⟩
  apply (run.restrict fits).invariant_before first
  intro before event after held step
  obtain ⟨paths, known⟩ := held
  exact (step.1.effect known.toHolds step.2).wellFormed known

end Namespace

section Parents

theorem split_last_slash (rooted : path.head? = some slash) :
    ∃ front name, path = front ++ slash :: name ∧ slash ∉ name ∧
      path.rdropWhile (· ≠ slash) = front ++ [slash] := by
  have nonempty : path.rdropWhile (· ≠ slash) ≠ [] := by
    intro none
    have absent := List.rdropWhile_eq_nil_iff.mp none slash (List.mem_of_mem_head? rooted)
    simp at absent
  have last : (path.rdropWhile (· ≠ slash)).getLast nonempty = slash := by
    simpa using List.rdropWhile_last_not _ _ nonempty
  have front := List.dropLast_append_getLast nonempty
  rw [last] at front
  refine ⟨_, path.rtakeWhile (· ≠ slash), ?_, ?_, front.symm⟩
  · calc
      path = path.rdropWhile (· ≠ slash) ++ path.rtakeWhile (· ≠ slash) :=
        List.rdropWhile_append_rtakeWhile.symm
      _ = (path.rdropWhile (· ≠ slash)).dropLast ++ [slash] ++ path.rtakeWhile (· ≠ slash) := by rw [front]
      _ = _ := by simp
  · intro member
    simpa using List.mem_rtakeWhile_imp member

theorem parentOf_ne_self (rooted : path.head? = some slash) (notRoot : path ≠ rootPath) : parentOf path ≠ path := by
  obtain ⟨front, name, split, _, upTo⟩ := split_last_slash rooted
  simp only [parentOf, upTo, notRoot, false_or, List.dropLast_concat]
  split
  · exact Ne.symm notRoot
  · intro same
    have lengths := congrArg List.length (same.trans split)
    simp at lengths

theorem rdropWhile_append {name : List UInt8} (clean : slash ∉ name) (front : List UInt8) :
    (front ++ name).rdropWhile (· ≠ slash) = front.rdropWhile (· ≠ slash) := by
  have skipped : ∀ c ∈ name.reverse, decide (c ≠ slash) = true := by
    intro c member
    simp only [ne_eq, decide_not, Bool.not_eq_eq_eq_not, Bool.not_true, decide_eq_false_iff_not]
    exact fun same => clean (same ▸ List.mem_reverse.mp member)
  rw [List.rdropWhile, List.rdropWhile, List.reverse_append, List.dropWhile_append_of_pos skipped]

/-- The path of a child ends behind the last slash after its parent's. -/
theorem parentOf_child {name : List UInt8} (rooted : cwd.head? = some slash) (clean : slash ∉ name) :
    parentOf ((if cwd = rootPath then rootPath else cwd ++ [slash]) ++ name) = cwd := by
  obtain ⟨tail, rfl⟩ := List.head?_eq_some_iff.mp rooted
  split
  · rename_i root
    have front : (rootPath ++ name).rdropWhile (· ≠ slash) = rootPath := rdropWhile_append clean rootPath
    rw [root]
    simp only [parentOf, front]
    simp
  · have front : (slash :: tail ++ [slash] ++ name).rdropWhile (· ≠ slash) = slash :: tail ++ [slash] := by
      rw [rdropWhile_append clean, List.rdropWhile_concat_neg]
      simp
    simp only [parentOf, front, List.dropLast_concat]
    simp

/-- A name of one component leads to a child, unless there is no room left for
the separator: then it leads to a sibling. -/
theorem parentOf_joinPath {name : List UInt8} (rooted : cwd.head? = some slash) (clean : slash ∉ name) :
    parentOf (joinPath cwd name) = cwd ∨ parentOf (joinPath cwd name) = parentOf cwd := by
  have relative : name.head? ≠ some slash := fun absolute => clean (List.mem_of_mem_head? absolute)
  have child := parentOf_child rooted clean
  rw [joinPath, if_neg relative]
  by_cases root : cwd = rootPath
  · left
    rw [if_pos root, ← root] at child
    rwa [separated, if_pos (.inl root)]
  · rw [if_neg root] at child
    by_cases long : dirNameLen - 2 ≤ cwd.length
    · right
      have other : cwd ++ name ≠ rootPath := by
        intro same
        have lengths := congrArg List.length same
        simp only [List.length_append, List.length_singleton] at lengths
        have many : 62 ≤ cwd.length := long
        omega
      simp only [separated, long, or_true, if_true, parentOf, rdropWhile_append clean, other, root, false_or]
    · left
      rwa [separated, if_neg (not_or.mpr ⟨root, long⟩)]

/-- A directory with a proper path is one component below its parent. -/
theorem isChild_parentOf (rooted : path.head? = some slash) (proper : Proper path) :
    IsChild path (parentOf path) := by
  obtain ⟨front, name, split, clean, upTo⟩ := split_last_slash rooted
  obtain ⟨named, single⟩ := proper
  have nonempty : name ≠ [] := by
    intro none
    rw [split, none] at named
    simp at named
  have notRoot : path ≠ rootPath := by
    intro root
    rw [root] at named
    exact named rfl
  simp only [parentOf, upTo, notRoot, false_or, List.dropLast_concat, List.length_append, List.length_singleton]
  refine ⟨name, nonempty, clean, ?_⟩
  by_cases near : front.length + 1 ≤ 1
  · have none : front = [] := List.eq_nil_of_length_eq_zero (by omega)
    rw [if_pos near, if_pos rfl, split, none]
    rfl
  · have notDouble : front ≠ rootPath := by
      intro double
      rw [upTo, double] at single
      exact single rfl
    rw [if_neg near, if_neg notDouble, split]
    simp

theorem Holds.parentsClosed_iff (holds : Holds dir paths) :
    ParentsClosed dir ↔ ∀ path ∈ paths, parentOf path ∈ paths := by
  constructor
  · intro closed path member
    obtain ⟨i, below, rfl⟩ := List.getElem_of_mem member
    obtain ⟨row, parent, found, computed, _, present⟩ := closed i (holds.count ▸ below)
    obtain ⟨same, sameFound, spells⟩ := holds.rows i _ (List.getElem?_eq_getElem below)
    cases found.symm.trans sameFound
    obtain ⟨other, again, parentSpells⟩ := parentPath_spec (.zeros dirNameLen) spells
    cases computed.symm.trans again
    rwa [parentSpells.text, holds.paths_eq] at present
  · intro closed i below
    rw [holds.count] at below
    obtain ⟨row, found, spells⟩ := holds.rows i _ (List.getElem?_eq_getElem below)
    obtain ⟨parent, computed, parentSpells⟩ := parentPath_spec (.zeros dirNameLen) spells
    refine ⟨row, parent, found, computed, parentSpells.terminated, ?_⟩
    rw [parentSpells.text, holds.paths_eq]
    exact closed _ (List.getElem_mem below)

/-- From a closed table a command leads to a closed table exactly when it keeps
the parents. -/
theorem DirEffect.parentsClosed_iff (effect : DirEffect dir event.files paths event.op event.report after)
    (known : WellFormed dir paths) (closed : ParentsClosed dir) :
    ParentsClosed after ↔ KeepsParents ⟨dir, event, after⟩ := by
  have inside := known.toHolds.parentsClosed_iff.mp closed
  obtain ⟨op, files, keys, report⟩ := event
  simp only [KeepsParents, known.toHolds.paths_eq]
  cases effect with
  | unchanged failed =>
      simp only [closed, true_iff]
      exact fun done => absurd done failed
  | @created name _ room fresh holds cwd =>
      have notRoot : joinPath dir.cwdPath name.chars ≠ rootPath := by
        intro root
        rw [root] at fresh
        exact fresh (List.mem_of_getElem? known.root)
      have rooted := joinPath_rooted name.chars (known.rooted _ known.cwdPath_mem)
      have other := parentOf_ne_self rooted notRoot
      rw [holds.parentsClosed_iff]
      simp only [List.mem_append, List.mem_singleton, forall_const]
      constructor
      · intro all
        exact (all _ (.inr rfl)).resolve_right other
      · intro parent path member
        rcases member with old | rfl
        · exact .inl (inside path old)
        · exact .inl parent
  | entered present =>
      have holds : Holds { dir with cwdIdx := paths.idxOf _ } paths :=
        ⟨known.count, known.bounded, known.rows, List.idxOf_lt_length_iff.mpr present⟩
      simp only [implies_true, iff_true]
      exact holds.parentsClosed_iff.mpr inside
  | @removed name path _ built notRoot present notCwd empty holds cwd =>
      rw [holds.parentsClosed_iff, List.eraseIdx_idxOf_eq_erase]
      simp only [known.distinct.mem_erase_iff, forall_const, ← built]
      constructor
      · intro all path member other
        exact (all path ⟨other, member⟩).1
      · intro apart path member
        exact ⟨apart path member.2 member.1, inside path member.2⟩

end Parents

section Listing

theorem lsLoop_spec (holds : Holds dir paths) (spells : Spells buf cwd) (n i : Nat) (left : i + n = paths.length) :
    ∃ screen, lsLoop dir buf.bytes i n = .ok screen ∧
      ∀ k path row, i ≤ k → paths[k]? = some path → dir.row k = .ok row → IsChild path cwd →
        [.write (ascii "  [DIR]  "), .writeln row.bytes] <:+: screen := by
  induction n generalizing i with
  | zero =>
      refine ⟨[], rfl, ?_⟩
      intro k path row low known
      have below := (List.getElem?_eq_some_iff.mp known).1
      omega
  | succ n ih =>
      have below : i < paths.length := by omega
      obtain ⟨row, found, rowSpells⟩ := holds.rows i _ (List.getElem?_eq_getElem below)
      obtain ⟨answer, asked, isChild⟩ := isImmediateChild_spec rowSpells spells
      obtain ⟨rest, listed, later⟩ := ih (i + 1) (by omega)
      simp only [lsLoop, found, asked, inBounds, listed, bind, Except.bind, pure, Except.pure]
      refine ⟨_, rfl, ?_⟩
      intro k path other low known otherFound child
      by_cases here : k = i
      · subst here
        cases otherFound.symm.trans found
        rw [List.getElem?_eq_getElem below] at known
        cases known
        rw [if_pos (isChild.mpr child)]
        exact (List.prefix_append _ _).isInfix
      · exact (later k path other (by omega) known otherFound child).trans (List.suffix_append _ _).isInfix

theorem dirLs_lists (fs : FileSystem) (holds : Holds dir paths) :
    ∃ screen, dirLs dir fs = .ok screen ∧
      ∀ k path row, paths[k]? = some path → dir.row k = .ok row → IsChild path dir.cwdPath →
        [.write (ascii "  [DIR]  "), .writeln row.bytes] <:+: screen := by
  obtain ⟨cwdRow, cwd, _, found, spells, sameCwd⟩ := holds.cwd_row
  obtain ⟨listed, ran, shows⟩ := lsLoop_spec holds spells paths.length 0 (Nat.zero_add _)
  rw [← holds.count] at ran
  simp only [dirLs, found, ran, asString_spells spells, bind, Except.bind, pure, Except.pure]
  refine ⟨_, rfl, ?_⟩
  intro k path row known rowFound child
  rw [sameCwd] at child
  have shown := shows k path row (Nat.zero_le k) known rowFound child
  exact (shown.trans (List.suffix_append _ _).isInfix).trans (List.prefix_append _ _).isInfix

end Listing

theorem Holds.enter {idx : Nat} (holds : Holds dir paths) (known : paths[idx]? = some path) :
    Holds { dir with cwdIdx := idx } paths ∧ DirState.cwdPath { dir with cwdIdx := idx } = path := by
  have entered : Holds { dir with cwdIdx := idx } paths :=
    ⟨holds.count, holds.bounded, holds.rows, (List.getElem?_eq_some_iff.mp known).1⟩
  obtain ⟨_, cwd, cwdKnown, _, _, same⟩ := entered.cwd_row
  exact ⟨entered, same.trans (Option.some.inj (cwdKnown.symm.trans known))⟩

theorem WellFormed.cd_dotDot (keys : List UInt8) (known : WellFormed dir paths) (closed : ParentsClosed dir) :
    ∃ outcome, dirCd dir dotDot keys = .ok outcome ∧ outcome.report = .done ∧
      outcome.dir.cwdPath = parentOf dir.cwdPath := by
  have isParent : DirOp.target dir.cwdPath (.cd dotDot) = parentOf dir.cwdPath := by
    simp [DirOp.target]
  have fits : (DirOp.cd dotDot).Fits dir := fun _ other => absurd rfl other
  obtain ⟨outcome, ran, _, found⟩ := dirCd_spec keys known.toHolds (by decide) fits
  rw [isParent] at found
  have present := known.parentsClosed_iff.mp closed _ known.cwdPath_mem
  obtain ⟨report, entered⟩ := found present
  refine ⟨outcome, ran, report, ?_⟩
  rw [entered]
  exact (known.enter (List.getElem?_idxOf present)).2

theorem WellFormed.listed {i idx : Nat} {parent : Buffer dirNameLen} (fs : FileSystem) (known : WellFormed dir paths)
    (below : i < paths.length) (idxBelow : idx < paths.length) (found : dir.row i = .ok row)
    (parentFound : dir.row idx = .ok parent) (proper : Proper (cstr row.bytes))
    (isParent : parentOf (cstr row.bytes) = cstr parent.bytes) :
    ∃ screen, dirLs { dir with cwdIdx := idx } fs = .ok screen ∧
      [.write (ascii "  [DIR]  "), .writeln row.bytes] <:+: screen := by
  obtain ⟨same, sameFound, spells⟩ := known.rows i _ (List.getElem?_eq_getElem below)
  cases found.symm.trans sameFound
  obtain ⟨other, otherFound, parentSpells⟩ := known.rows idx _ (List.getElem?_eq_getElem idxBelow)
  cases parentFound.symm.trans otherFound
  obtain ⟨entered, cwd⟩ := known.enter (List.getElem?_eq_getElem idxBelow)
  rw [spells.text, parentSpells.text] at isParent
  rw [spells.text] at proper
  obtain ⟨screen, ran, shows⟩ := dirLs_lists fs entered
  refine ⟨screen, ran, shows i _ row (List.getElem?_eq_getElem below) found ?_⟩
  rw [cwd, ← isParent]
  exact isChild_parentOf (known.rooted _ (List.getElem_mem below)) proper

theorem closed_of_run (init : dirInit boot = .ok start) (run : Run DirStep start trace dir)
    (fits : ∀ step ∈ trace, step.label.op.Fits step.before) (keeps : ∀ step ∈ trace, KeepsParents step) :
    ∃ paths, WellFormed dir paths ∧ ParentsClosed dir := by
  have initial := wellFormed_dirInit init
  have closed : ParentsClosed start := initial.toHolds.parentsClosed_iff.mpr (by decide)
  apply run.invariant_of ⟨_, initial, closed⟩ ?_ (fun step member => And.intro (fits step member) (keeps step member))
  intro before event after held step both
  obtain ⟨paths, known, closed⟩ := held
  have effect := step.effect known.toHolds both.1
  obtain ⟨pathsAfter, knownAfter⟩ := effect.wellFormed known
  exact ⟨pathsAfter, knownAfter, (effect.parentsClosed_iff known closed).mpr both.2⟩

/-- In a run that creates directories only under directories and removes only
those without subdirectories, every parent stays in the table: `cd ..` always
leads to it, and `dir_ls` lists each directory there. The next command keeps
the table closed exactly if it obeys the same rule, as `mkdir` does for every
name without a slash. -/
theorem parents_of_run (init : dirInit boot = .ok start) (run : Run DirStep start trace dir)
    (fits : ∀ step ∈ trace, step.label.op.Fits step.before) (keeps : ∀ step ∈ trace, KeepsParents step) :
    ParentsClosed dir ∧
      (∀ keys, ∃ outcome, dirCd dir dotDot keys = .ok outcome ∧ outcome.report = .done ∧
        outcome.dir.cwdPath = parentOf dir.cwdPath) ∧
      (∀ i idx row parent fs, i < dir.dirCount → idx < dir.dirCount →
        dir.row i = .ok row → dir.row idx = .ok parent → Proper (cstr row.bytes) →
        parentOf (cstr row.bytes) = cstr parent.bytes →
        ∃ screen, dirLs { dir with cwdIdx := idx } fs = .ok screen ∧
          [.write (ascii "  [DIR]  "), .writeln row.bytes] <:+: screen) ∧
      (∀ event after, DirStep dir event after → event.op.Fits dir →
        (ParentsClosed after ↔ KeepsParents ⟨dir, event, after⟩)) ∧
      ∀ name : CString, slash ∉ name.chars → parentOf (joinPath dir.cwdPath name.chars) ∈ dir.paths := by
  obtain ⟨paths, known, closed⟩ := closed_of_run init run fits keeps
  have holds := known.toHolds
  refine ⟨closed, fun keys => known.cd_dotDot keys closed, ?_, ?_, ?_⟩
  · intro i idx row parent fs below idxBelow found parentFound
    rw [holds.count] at below idxBelow
    exact known.listed fs below idxBelow found parentFound
  · intro event after step nextFits
    exact (step.effect holds nextFits).parentsClosed_iff known closed
  · intro name clean
    have member := known.cwdPath_mem
    rw [holds.paths_eq]
    rcases parentOf_joinPath (known.rooted _ member) clean with child | sibling
    · rwa [child]
    · rw [sibling]
      exact holds.parentsClosed_iff.mp closed _ member

/-- The line `rmdir e`, and the answer `y`. -/
def sampleRmdir : DirEvent :=
  ⟨.rmdir otherToken, bss.files, [121, newline], .done⟩

/-- `mkdir d`, `cd d`, `mkdir e` and `rmdir e`, and then `cd ..`. -/
theorem sample_parents : ∃ start trace dir, dirInit bssDirs = .ok start ∧ Run DirStep start trace dir ∧
    trace.map Transition.label =
      [.completed (.mkdir shortToken), .completed (.cd shortToken), .completed (.mkdir otherToken), sampleRmdir] ∧
    ParentsClosed dir ∧ ∃ outcome, dirCd dir dotDot [] = .ok outcome ∧ outcome.dir.cwdPath = rootPath := by
  obtain ⟨start, made, there, inner, gone, init, startCwd, makes, madeReport, madeCwd, enters, thereReport, thereCwd,
    therePaths, makesInner, innerReport, innerCwd, innerPaths, removes, goneReport, goneCwd⟩ := sample_descent
  have first : DirStep start (.completed (.mkdir shortToken)) made.dir := ⟨made, makes, rfl, madeReport⟩
  have second : DirStep made.dir (.completed (.cd shortToken)) there.dir := ⟨there, enters, rfl, thereReport⟩
  have third : DirStep there.dir (.completed (.mkdir otherToken)) inner.dir := ⟨inner, makesInner, rfl, innerReport⟩
  have fourth : DirStep inner.dir sampleRmdir gone.dir := ⟨gone, removes, rfl, goneReport⟩
  have startPaths : start.paths = [rootPath] := (holds_dirInit init).paths_eq
  have run := (((Run.done.next first).next second).next third).next fourth
  obtain ⟨closed, up, _⟩ := parents_of_run init run
    (by simp [DirEvent.completed, sampleRmdir, DirOp.Fits, startCwd, madeCwd, thereCwd, innerCwd,
      show PathFits rootPath shortToken.chars by decide, show PathFits [slash, 100] otherToken.chars by decide])
    (by
      simp only [List.nil_append, List.cons_append, List.forall_mem_cons, List.not_mem_nil, false_implies, implies_true,
        and_true, KeepsParents, DirEvent.completed, sampleRmdir, startCwd, startPaths, thereCwd, therePaths, innerCwd,
        innerPaths]
      decide)
  obtain ⟨outcome, ran, _, moved⟩ := up []
  refine ⟨start, _, gone.dir, init, run, rfl, closed, outcome, ran, ?_⟩
  rw [moved, goneCwd]
  decide

/-- The name `a/b`, of two components. -/
def nestedToken : CString :=
  ⟨[97, slash, 98], by decide⟩

/-- The name `d/`. -/
def slashedToken : CString :=
  ⟨[100, slash], by decide⟩

/-- `mkdir a/b` in the root makes `/a/b` without `/a`, and `cd ..` fails there.
After `mkdir d` and `mkdir d/` the new directory `/d/` is not listed in `/d`. -/
theorem nested_name_has_no_parent : ∃ start, dirInit bssDirs = .ok start ∧
    (∃ trace dir, Run DirStep start trace dir ∧ (∀ step ∈ trace, step.label.op.Fits step.before) ∧
      (∃ row parent, dir.row 1 = .ok row ∧ dir.dirCount = 2 ∧
        parentPath (.zeros dirNameLen) row.bytes = .ok parent ∧ cstr parent.bytes ∉ dir.paths) ∧
      ∃ outcome, dirCd dir dotDot [] = .ok outcome ∧ outcome.report = .notFound) ∧
    ∃ trace dir, Run DirStep start trace dir ∧ (∀ step ∈ trace, step.label.op.Fits step.before) ∧
      ∃ row parent screen, dir.row 2 = .ok row ∧ dir.row 1 = .ok parent ∧ dir.dirCount = 3 ∧
        parentOf (cstr row.bytes) = cstr parent.bytes ∧
        dirLs { dir with cwdIdx := 1 } bss = .ok screen ∧ .write (ascii "  [DIR]  ") ∉ screen := by
  obtain ⟨start, init, startCwd, nested, slashed⟩ : ∃ start, dirInit bssDirs = .ok start ∧ start.cwdPath = rootPath ∧
      (∃ made, dirMkdir start nestedToken [] = .ok made ∧ made.report = .done ∧ made.dir.cwdPath = rootPath ∧
        ∃ there, dirCd made.dir nestedToken [] = .ok there ∧ there.report = .done ∧
          (∃ row parent, there.dir.row 1 = .ok row ∧ there.dir.dirCount = 2 ∧
            parentPath (.zeros dirNameLen) row.bytes = .ok parent ∧ cstr parent.bytes ∉ there.dir.paths) ∧
          ∃ outcome, dirCd there.dir dotDot [] = .ok outcome ∧ outcome.report = .notFound) ∧
      ∃ made, dirMkdir start shortToken [] = .ok made ∧ made.report = .done ∧ made.dir.cwdPath = rootPath ∧
        ∃ again, dirMkdir made.dir slashedToken [] = .ok again ∧ again.report = .done ∧
          ∃ row parent screen, again.dir.row 2 = .ok row ∧ again.dir.row 1 = .ok parent ∧ again.dir.dirCount = 3 ∧
            parentOf (cstr row.bytes) = cstr parent.bytes ∧
            dirLs { again.dir with cwdIdx := 1 } bss = .ok screen ∧ .write (ascii "  [DIR]  ") ∉ screen :=
    ⟨_, rfl, by decide,
      ⟨_, rfl, rfl, by decide, _, rfl, rfl, ⟨_, _, rfl, rfl, rfl, by decide⟩, _, rfl, rfl⟩,
      _, rfl, rfl, by decide, _, rfl, rfl, _, _, _, rfl, rfl, rfl, by decide, rfl, by decide⟩
  refine ⟨start, init, ?_, ?_⟩
  · obtain ⟨made, ran, report, cwd, there, entered, thereReport, missing⟩ := nested
    have first : DirStep start (.completed (.mkdir nestedToken)) made.dir := ⟨made, ran, rfl, report⟩
    have second : DirStep made.dir (.completed (.cd nestedToken)) there.dir := ⟨there, entered, rfl, thereReport⟩
    refine ⟨_, _, .next (.next .done first) second, ?_, missing⟩
    simp [DirEvent.completed, DirOp.Fits, startCwd, cwd, show PathFits rootPath nestedToken.chars by decide]
  · obtain ⟨made, ran, report, cwd, again, ranAgain, againReport, unlisted⟩ := slashed
    have first : DirStep start (.completed (.mkdir shortToken)) made.dir := ⟨made, ran, rfl, report⟩
    have second : DirStep made.dir (.completed (.mkdir slashedToken)) again.dir := ⟨again, ranAgain, rfl, againReport⟩
    refine ⟨_, _, .next (.next .done first) second, ?_, unlisted⟩
    simp [DirEvent.completed, DirOp.Fits, startCwd, cwd, show PathFits rootPath shortToken.chars by decide,
      show PathFits rootPath slashedToken.chars by decide]

end DugOS.Dir
