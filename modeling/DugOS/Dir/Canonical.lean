import DugOS.Dir.Tree
import Mathlib.Data.List.Chain

namespace DugOS.Dir

open Data Fs

/-! Whether the table spells every directory in one way only.

`build_path` drops a slash at the end of an absolute name. It does not look at
the other slashes of a name, nor at the end of a relative one.
-/

/-- No two slashes follow one another. -/
def SingleSlashes (path : List UInt8) : Prop :=
  path.IsChain fun c next => ¬ (c = slash ∧ next = slash)

/-- The path conventions of `dir.c`. -/
structure Canonical (path : List UInt8) : Prop where
  rooted : path.head? = some slash
  components : SingleSlashes path
  trailing : path.getLast? = some slash → path = rootPath

/-- One slash for every run of slashes. -/
def squeeze : List UInt8 → List UInt8
  | [] => []
  | c :: rest => if c = slash ∧ rest.head? = some slash then squeeze rest else c :: squeeze rest

/-- The path without its redundant slashes. -/
def cleaned (path : List UInt8) : List UInt8 :=
  if 1 < (squeeze path).length ∧ (squeeze path).getLast? = some slash then (squeeze path).dropLast
  else squeeze path

/-- All paths of the table are canonical, and no two of them differ only in
redundant slashes. -/
structure CanonicalTable (dir : DirState) : Prop where
  canonical : ∀ path ∈ dir.paths, Canonical path
  spelledOnce : (dir.paths.map cleaned).Nodup

/-- The name has no redundant slash. The name `//` stands for the root, which is
there already. -/
def TidyName (name : List UInt8) : Prop :=
  (SingleSlashes name ∧ (name.head? = some slash ∨ name.getLast? ≠ some slash)) ∨ name = [slash, slash]

/-- What `mkdir` is asked to create, while the table has room, has a tidy name. -/
def TidyStep (step : Transition DirState DirEvent) : Prop :=
  ∀ name, step.label.op = .mkdir name → name.chars ≠ [] → step.before.dirCount < dirMax → TidyName name.chars

variable {boot start dir after : DirState} {paths : List (List UInt8)} {path cwd name : List UInt8}
  {event : DirEvent} {trace : List (Transition DirState DirEvent)}

section Names

theorem squeeze_eq (single : SingleSlashes path) : squeeze path = path := by
  induction path with
  | nil => rfl
  | cons c rest ih =>
      obtain ⟨head, tail⟩ := List.isChain_cons.mp single
      have apart : ¬ (c = slash ∧ rest.head? = some slash) := by
        intro both
        exact head slash both.2 ⟨both.1, rfl⟩
      rw [squeeze, if_neg apart, ih tail]

theorem Canonical.cleaned_eq (canonical : Canonical path) : cleaned path = path := by
  rw [cleaned, squeeze_eq canonical.components]
  apply if_neg
  intro trailing
  rw [canonical.trailing trailing.2] at trailing
  exact absurd trailing.1 (by decide)

theorem singleSlashes_append {front back : List UInt8} : SingleSlashes (front ++ back) ↔
    SingleSlashes front ∧ SingleSlashes back ∧ ¬ (front.getLast? = some slash ∧ back.head? = some slash) := by
  rw [SingleSlashes, List.isChain_append]
  apply and_congr_right
  intro _
  apply and_congr_right
  intro _
  constructor
  · intro apart both
    exact apart slash both.1 slash both.2 ⟨rfl, rfl⟩
  · intro apart c last next first both
    rw [both.1] at last
    rw [both.2] at first
    exact apart ⟨last, first⟩

theorem singleSlashes_snoc {front : List UInt8} :
    SingleSlashes (front ++ [slash]) ↔ SingleSlashes front ∧ front.getLast? ≠ some slash := by
  rw [singleSlashes_append]
  simp [SingleSlashes]

/-- An absolute name, after its last slash is dropped. -/
theorem canonical_absolute_iff (absolute : name.head? = some slash) :
    Canonical (joinPath cwd name) ↔ TidyName name := by
  have rooted : (joinPath rootPath name).head? = some slash := joinPath_rooted name rfl
  rw [joinPath, if_pos absolute] at rooted ⊢
  by_cases trailing : 1 < name.length ∧ name.getLast? = some slash
  · rw [if_pos trailing] at rooted ⊢
    obtain ⟨front, rfl⟩ : ∃ front, name = front ++ [slash] :=
      ⟨name.dropLast, (List.dropLast_append_getLast? slash trailing.2).symm⟩
    rw [List.dropLast_concat] at rooted ⊢
    simp only [TidyName, singleSlashes_snoc, absolute, true_or, and_true]
    constructor
    · intro canonical
      by_cases root : front.getLast? = some slash
      · exact .inr (by rw [canonical.trailing root]; rfl)
      · exact .inl ⟨canonical.components, root⟩
    · intro tidy
      rcases tidy with tidy | root
      · exact ⟨rooted, tidy.1, fun last => absurd last tidy.2⟩
      · have same : front ++ [slash] = rootPath ++ [slash] := root
        rw [List.append_cancel_right same]
        exact ⟨rfl, by simp [SingleSlashes], fun _ => rfl⟩
  · rw [if_neg trailing]
    constructor
    · intro canonical
      exact .inl ⟨canonical.components, .inl absolute⟩
    · intro tidy
      rcases tidy with tidy | doubled
      · refine ⟨absolute, tidy.1, ?_⟩
        intro last
        obtain ⟨rest, rfl⟩ := List.head?_eq_some_iff.mp absolute
        cases rest with
        | nil => rfl
        | cons c rest => exact absurd ⟨by simp, last⟩ trailing
      · rw [doubled] at trailing
        exact absurd (by decide) trailing

theorem Canonical.separated (canonical : Canonical cwd) :
    SingleSlashes (Dir.separated cwd) ∧ Dir.separated cwd ≠ [] := by
  have nonempty : cwd ≠ [] := by
    intro empty
    have rooted := canonical.rooted
    rw [empty] at rooted
    cases rooted
  rw [Dir.separated]
  split
  · exact ⟨canonical.components, nonempty⟩
  · rename_i below
    refine ⟨singleSlashes_snoc.mpr ⟨canonical.components, ?_⟩, by simp⟩
    intro last
    exact below (.inl (canonical.trailing last))

/-- A relative name behind its separator. -/
theorem canonical_relative_iff (canonical : Canonical cwd) (nonempty : name ≠ [])
    (relative : name.head? ≠ some slash) : Canonical (joinPath cwd name) ↔ TidyName name := by
  have rooted : (joinPath cwd name).head? = some slash := joinPath_rooted name canonical.rooted
  obtain ⟨single, front⟩ := canonical.separated
  rw [joinPath, if_neg relative] at rooted ⊢
  have last : (separated cwd ++ name).getLast? = name.getLast? := List.getLast?_append_of_ne_nil _ nonempty
  constructor
  · intro joined
    refine .inl ⟨(singleSlashes_append.mp joined.components).2.1, .inr ?_⟩
    intro trailing
    have lengths := congrArg List.length (joined.trailing (last.trans trailing))
    rw [List.length_append] at lengths
    have frontLength := List.length_pos_iff.mpr front
    have nameLength := List.length_pos_iff.mpr nonempty
    have rootLength : rootPath.length = 1 := rfl
    omega
  · intro tidy
    rcases tidy with tidy | doubled
    · have ends := tidy.2.resolve_left relative
      refine ⟨rooted, singleSlashes_append.mpr ⟨single, tidy.1, fun both => relative both.2⟩, ?_⟩
      intro trailing
      exact absurd (last.symm.trans trailing) ends
    · exact absurd (by rw [doubled]; rfl) relative

theorem canonical_joinPath_iff (canonical : Canonical cwd) (nonempty : name ≠ []) :
    Canonical (joinPath cwd name) ↔ TidyName name := by
  by_cases absolute : name.head? = some slash
  · exact canonical_absolute_iff absolute
  · exact canonical_relative_iff canonical nonempty absolute

end Names

section Children

theorem Canonical.proper (canonical : Canonical path) (notRoot : path ≠ rootPath) : Proper path := by
  refine ⟨fun last => notRoot (canonical.trailing last), ?_⟩
  intro doubled
  obtain ⟨rest, split⟩ := List.rdropWhile_prefix (· ≠ slash) path
  have single := canonical.components
  rw [← split, doubled] at single
  exact (List.isChain_cons.mp single).1 slash rfl ⟨rfl, rfl⟩

theorem Canonical.isChild_iff (canonical : Canonical path) (notRoot : path ≠ rootPath)
    (rooted : cwd.head? = some slash) : IsChild path cwd ↔ parentOf path = cwd := by
  constructor
  · intro child
    obtain ⟨name, _, clean, rfl⟩ := child
    exact parentOf_child rooted clean
  · intro parent
    rw [← parent]
    exact isChild_parentOf canonical.rooted (canonical.proper notRoot)

/-- The path of the directory `name` in `cwd`. -/
def childPath (cwd name : List UInt8) : List UInt8 :=
  (if cwd = rootPath then rootPath else cwd ++ [slash]) ++ name

theorem childPath_injective {first second : List UInt8} (same : childPath cwd first = childPath cwd second) :
    first = second :=
  List.append_cancel_left same

theorem tidyName_of_clean (clean : slash ∉ name) : TidyName name := by
  refine .inl ⟨?_, .inr fun last => clean (List.mem_of_getLast? last)⟩
  apply List.isChain_iff_forall_rel_of_append_cons_cons.mpr
  intro c next front back split both
  exact clean (by simp [split, both.1])

/-- A child whose path fits is reached over a separator. -/
theorem joinPath_eq_childPath (nonempty : name ≠ []) (clean : slash ∉ name) (short : (childPath cwd name).length ≤ 63) :
    joinPath cwd name = childPath cwd name ∧ PathFits cwd name := by
  have relative : name.head? ≠ some slash := fun absolute => clean (List.mem_of_mem_head? absolute)
  have named := List.length_pos_of_ne_nil nonempty
  have apart : separated cwd = if cwd = rootPath then rootPath else cwd ++ [slash] := by
    rw [separated]
    by_cases root : cwd = rootPath
    · rw [if_pos (.inl root), if_pos root, root]
    · rw [childPath, if_neg root] at short
      simp only [List.length_append, List.length_singleton] at short
      have below : ¬ dirNameLen - 2 ≤ cwd.length := Nat.not_le_of_lt (show cwd.length < 62 by omega)
      rw [if_neg (not_or.mpr ⟨root, below⟩), if_neg root]
  refine ⟨by rw [joinPath, if_neg relative, apart, childPath], ?_⟩
  rwa [PathFits, joinLength, if_neg relative, apart, ← List.length_append]

theorem buildPath_child {row : Buffer dirNameLen} {name : CString} (out : Buffer dirNameLen)
    (found : dir.row dir.cwdIdx = .ok row) (spells : Spells row cwd) (nonempty : name.chars ≠ [])
    (clean : slash ∉ name.chars) (short : (childPath cwd name.chars).length ≤ 63) :
    ∃ built, buildPath dir out name = .ok built ∧ Spells built (childPath cwd name.chars) := by
  obtain ⟨joined, fits⟩ := joinPath_eq_childPath nonempty clean short
  rw [← joined]
  exact buildPath_fits found spells out fits

/-- The three functions on paths agree on the tree. A canonical path is listed
in a directory exactly if that is its parent, and a name of one component leads
to a path that is listed and has this parent, a different one for every name. -/
theorem listing_agrees {row : Buffer dirNameLen} (spells : Spells row cwd) (canonical : Canonical cwd) :
    (∀ (child out : Buffer dirNameLen) (path : List UInt8), Spells child path → Canonical path → path ≠ rootPath →
      ∃ answer parent, isImmediateChild child.bytes row.bytes = some answer ∧
        parentPath out child.bytes = .ok parent ∧ 0 ∈ parent.bytes ∧ (answer = true ↔ cstr parent.bytes = cwd)) ∧
    ∀ (dir : DirState) (name : CString), dir.row dir.cwdIdx = .ok row → name.chars ≠ [] → slash ∉ name.chars →
      (childPath cwd name.chars).length ≤ 63 → ∀ out, ∃ built, buildPath dir out name = .ok built ∧
        0 ∈ built.bytes ∧ Canonical (cstr built.bytes) ∧ isImmediateChild built.bytes row.bytes = some true ∧
        (∀ out, ∃ parent, parentPath out built.bytes = .ok parent ∧ 0 ∈ parent.bytes ∧ cstr parent.bytes = cwd) ∧
        ∀ (other : CString) (otherOut otherBuilt : Buffer dirNameLen), other.chars ≠ [] → slash ∉ other.chars →
          (childPath cwd other.chars).length ≤ 63 → buildPath dir otherOut other = .ok otherBuilt →
          cstr otherBuilt.bytes = cstr built.bytes → other = name := by
  constructor
  · intro child out path childSpells childCanonical notRoot
    obtain ⟨answer, asked, listed⟩ := isImmediateChild_spec childSpells spells
    obtain ⟨parent, computed, parentSpells⟩ := parentPath_spec out childSpells
    refine ⟨answer, parent, asked, computed, parentSpells.terminated, ?_⟩
    rw [parentSpells.text, listed]
    exact childCanonical.isChild_iff notRoot canonical.rooted
  · intro dir name found nonempty clean short out
    obtain ⟨built, joined, builtSpells⟩ := buildPath_child out found spells nonempty clean short
    refine ⟨built, joined, builtSpells.terminated, ?_, ?_, ?_, ?_⟩
    · rw [builtSpells.text, ← (joinPath_eq_childPath nonempty clean short).1]
      exact (canonical_joinPath_iff canonical nonempty).mpr (tidyName_of_clean clean)
    · obtain ⟨answer, asked, listed⟩ := isImmediateChild_spec builtSpells spells
      rw [asked, listed.mpr ⟨name.chars, nonempty, clean, rfl⟩]
    · intro out
      obtain ⟨parent, computed, parentSpells⟩ := parentPath_spec out builtSpells
      exact ⟨parent, computed, parentSpells.terminated, parentSpells.text.trans (parentOf_child canonical.rooted clean)⟩
    · intro other otherOut otherBuilt otherNonempty otherClean otherShort otherJoined same
      obtain ⟨again, rebuilt, otherSpells⟩ := buildPath_child otherOut found spells otherNonempty otherClean
        otherShort
      cases otherJoined.symm.trans rebuilt
      rw [otherSpells.text, builtSpells.text] at same
      have chars := childPath_injective same
      cases other
      cases name
      cases chars
      rfl

/-- In `/d`, the name `e` leads to `/d/e`, which `/d` lists. -/
theorem other_token_listed : ∃ start made there built row, dirInit bssDirs = .ok start ∧
    dirMkdir start shortToken [] = .ok made ∧ dirCd made.dir shortToken [] = .ok there ∧
    there.dir.row there.dir.cwdIdx = .ok row ∧ buildPath there.dir (.zeros dirNameLen) otherToken = .ok built ∧
    cstr built.bytes = [slash, 100, slash, 101] ∧ isImmediateChild built.bytes row.bytes = some true := by
  obtain ⟨start, made, there, row, init, _, makes, _, enters, found, spells⟩ := sample_enter
  have canonical : Canonical [slash, 100] := ⟨rfl, by simp [SingleSlashes, slash], by simp [slash]⟩
  obtain ⟨_, named⟩ := listing_agrees spells canonical
  obtain ⟨built, joined, _, _, listed, _⟩ :=
    named there.dir otherToken found (by decide) (by decide) (by decide) (.zeros dirNameLen)
  obtain ⟨again, rebuilt, child⟩ :=
    buildPath_child (.zeros dirNameLen) found spells (show otherToken.chars ≠ [] by decide) (by decide) (by decide)
  cases joined.symm.trans rebuilt
  exact ⟨start, made, there, built, row, init, makes, enters, found, joined, child.text, listed⟩

end Children

section Runs

theorem canonicalTable_iff (known : WellFormed dir paths) :
    CanonicalTable dir ↔ ∀ path ∈ paths, Canonical path := by
  have same := known.toHolds.paths_eq
  constructor
  · intro table
    rw [← same]
    exact table.canonical
  · intro canonical
    refine ⟨by rwa [same], ?_⟩
    rw [same, List.map_congr_left (fun path member => (canonical path member).cleaned_eq), List.map_id']
    exact known.distinct

theorem dirMkdir_nonempty {name : CString} {keys : List UInt8} {outcome : DirOutcome}
    (run : dirMkdir dir name keys = .ok outcome) (done : outcome.report = .done) : name.chars ≠ [] := by
  intro empty
  rw [dirMkdir, if_pos ((kstrlen_eq_zero name).mpr empty)] at run
  cases run
  cases done

/-- A `mkdir` that fails for want of nothing but a new path was given a tidy name. -/
theorem DirStep.tidy_of_failed (step : DirStep dir event after) (known : WellFormed dir paths)
    (fits : event.op.Fits dir) (canonical : ∀ path ∈ paths, Canonical path) (failed : event.report ≠ .done) :
    TidyStep ⟨dir, event, after⟩ := by
  intro name isMkdir nonempty room
  obtain ⟨outcome, run, _, report⟩ := step
  have isMkdir : event.op = .mkdir name := isMkdir
  rw [isMkdir] at run fits
  obtain ⟨again, ranAgain, old, created⟩ := dirMkdir_spec event.keys known.toHolds nonempty room (fits nonempty room)
  cases ranAgain.symm.trans run
  by_cases present : joinPath dir.cwdPath name.chars ∈ paths
  · have cwd := canonical _ known.cwdPath_mem
    exact (canonical_joinPath_iff cwd nonempty).mp (canonical _ present)
  · exact absurd (report.symm.trans (created present).1) failed

/-- A command keeps the table canonical exactly if it does not create a
directory from an untidy name. -/
theorem DirStep.canonicalTable_iff (step : DirStep dir event after) (known : WellFormed dir paths)
    (fits : event.op.Fits dir) (table : CanonicalTable dir) :
    CanonicalTable after ↔ TidyStep ⟨dir, event, after⟩ := by
  have canonical := (Dir.canonicalTable_iff known).mp table
  have effect := step.effect known.toHolds fits
  obtain ⟨pathsAfter, knownAfter⟩ := effect.wellFormed known
  obtain ⟨op, files, keys, report⟩ := event
  cases effect with
  | unchanged failed => exact iff_of_true table (step.tidy_of_failed known fits canonical failed)
  | @created name _ room fresh holds cwd =>
      obtain ⟨outcome, run, _, done⟩ := step
      have nonempty := dirMkdir_nonempty run done
      have built := canonical_joinPath_iff (canonical _ known.cwdPath_mem) nonempty
      rw [Dir.canonicalTable_iff knownAfter, knownAfter.toHolds.paths_eq.symm.trans holds.paths_eq]
      constructor
      · intro all other isMkdir _ _
        cases isMkdir
        exact built.mp (all _ (by simp))
      · intro tidy path member
        rcases List.mem_append.mp member with old | new
        · exact canonical path old
        · rw [List.mem_singleton.mp new]
          exact built.mpr (tidy name rfl nonempty (known.count ▸ room))
  | @entered name present =>
      refine iff_of_true ?_ (fun name isMkdir => by cases isMkdir)
      exact ⟨table.canonical, table.spelledOnce⟩
  | @removed name path _ built notRoot present notCwd empty holds cwd =>
      refine iff_of_true ?_ (fun name isMkdir => by cases isMkdir)
      rw [Dir.canonicalTable_iff knownAfter, knownAfter.toHolds.paths_eq.symm.trans holds.paths_eq]
      intro path member
      exact canonical path (List.mem_of_mem_eraseIdx member)

/-- In a run whose paths all fit, the table stays canonical exactly if every
directory is created from a tidy name. -/
theorem canonical_of_run_iff (init : dirInit boot = .ok start) (run : Run DirStep start trace dir)
    (fits : ∀ step ∈ trace, step.label.op.Fits step.before) :
    (∀ step ∈ trace, CanonicalTable step.after) ↔ ∀ step ∈ trace, TidyStep step := by
  have table : CanonicalTable start := by
    rw [canonicalTable_iff (wellFormed_dirInit init)]
    intro path member
    rw [List.mem_singleton.mp member]
    exact ⟨rfl, by simp [SingleSlashes], fun _ => rfl⟩
  apply (run.restrict (wellFormed_before init run fits)).holds_throughout_iff table
  intro before event after table step
  obtain ⟨step, ⟨paths, known⟩, _, fits⟩ := step
  exact step.canonicalTable_iff known fits table

theorem sample_canonical : ∃ start after, dirInit bssDirs = .ok start ∧ DirStep start sampleMkdir after ∧
    after.dirCount = 2 ∧ CanonicalTable after := by
  obtain ⟨start, after, init, step, fits, count⟩ := sampleMkdir_step
  have tidy : TidyStep ⟨start, sampleMkdir, after⟩ := by
    intro name isMkdir _ _
    cases isMkdir
    exact .inl ⟨by simp [SingleSlashes, shortToken], .inr (by decide)⟩
  have canonical := (canonical_of_run_iff init (.next .done step) (by simpa using fits)).mpr (by simpa using tidy)
  exact ⟨start, after, init, step, count, by simpa using canonical⟩

/-- `mkdir d` and `mkdir d/` in the root make two directories. -/
theorem trailing_slash_stored : ∃ start trace dir, dirInit bssDirs = .ok start ∧ Run DirStep start trace dir ∧
    (∀ step ∈ trace, step.label.op.Fits step.before) ∧
    trace.map (fun step => step.label.op) = [.mkdir shortToken, .mkdir slashedToken] ∧
    dir.paths = [rootPath, [slash, 100], [slash, 100, slash]] ∧ ¬ CanonicalTable dir := by
  obtain ⟨start, init, startCwd, made, ran, report, cwd, again, ranAgain, againReport, paths⟩ :
      ∃ start, dirInit bssDirs = .ok start ∧ start.cwdPath = rootPath ∧
      ∃ made, dirMkdir start shortToken [] = .ok made ∧ made.report = .done ∧ made.dir.cwdPath = rootPath ∧
        ∃ again, dirMkdir made.dir slashedToken [] = .ok again ∧ again.report = .done ∧
          again.dir.paths = [rootPath, [slash, 100], [slash, 100, slash]] :=
    ⟨_, rfl, by decide, _, rfl, rfl, by decide, _, rfl, rfl, by decide⟩
  have first : DirStep start (.completed (.mkdir shortToken)) made.dir := ⟨made, ran, rfl, report⟩
  have second : DirStep made.dir (.completed (.mkdir slashedToken)) again.dir := ⟨again, ranAgain, rfl, againReport⟩
  refine ⟨start, _, _, init, .next (.next .done first) second, ?_, rfl, paths, ?_⟩
  · simp [DirEvent.completed, DirOp.Fits, startCwd, cwd, show PathFits rootPath shortToken.chars by decide,
      show PathFits rootPath slashedToken.chars by decide]
  · intro table
    have once := table.spelledOnce
    rw [paths] at once
    exact absurd once (by decide)

end Runs

end DugOS.Dir
