import DugOS.Shell.Keys
import DugOS.Shell.ParseCmd
import DugOS.Shell.Readline
import DugOS.Shell.Resolution

namespace DugOS.Shell

open Data Fs Dir

/-! `shell_run`, from one prompt to the next.

The loop of the shell never returns. It stops when the keys run out while a line
or a command waits for one, and when `shutdown` switches the machine off.
-/

abbrev cmdLen : Nat := 256
abbrev maxArgs : Nat := 8

/-- What the loop holds when it is about to show the prompt: the tables, its own
line buffer, the keys still to come, and everything shown so far. -/
structure Prompt where
  state : ShellState
  buf : Buffer cmdLen
  keys : List UInt8
  screen : List VgaCall

/-- The string that `argv[i]` points to, when it points to `start` of the buffer. -/
def stringAt {size : Nat} (buf : Buffer size) (start : Nat) : Except Stop CString :=
  if 0 ∈ buf.bytes.drop start then .ok ⟨cstr (buf.bytes.drop start), cstr_noNul⟩ else .error .outOfBounds

/-- The prompt in the working directory `cwd`. -/
def promptText (cwd : CString) : List VgaCall :=
  [.setColor .lightGreen .black, .write (ascii "  dug@os:"), .write cwd.memory, .write (ascii "$ "),
    .setColor .white .black]

def showPrompt (dir : DirState) : Except Stop (List VgaCall) := do
  let row ← dirGetcwd dir
  let cwd ← asString row
  return promptText cwd

/-- A turn of the loop in `shell_run`. -/
def shellTurn (prompt : Prompt) : Except Stop Prompt := do
  let shown ← showPrompt prompt.state.dir
  let typed ← Shell.readline prompt.buf prompt.keys
  let screen := prompt.screen ++ shown ++ typed.echo
  if typed.count = 0 then return { prompt with buf := typed.buf, keys := typed.keys, screen }
  let (buf, entries) ← inBounds (parseCmd typed.buf maxArgs)
  if entries.length = 0 then return { prompt with buf, keys := typed.keys, screen }
  let argv ← entries.mapM (stringAt buf)
  let outcome ← shellDispatch prompt.state argv typed.keys
  return { state := outcome.state, buf, keys := outcome.keys, screen := screen ++ outcome.screen ++ [.writeln []] }

def welcome : List VgaCall :=
  [.writeln [], .setColor .lightGreen .black,
    .writeln (ascii "  >> DugOS shell ready. Type 'help' for commands."), .setColor .white .black, .writeln []]

/-- The line that the keys before Enter leave in the buffer. -/
def enteredLine (front : List UInt8) : List UInt8 :=
  (effective printable front).foldl (typeKeyWithin (cmdLen - 1)) []

/-- The words of a line, as many as `argv` has room for. -/
def words (line : List UInt8) : List CString :=
  ((tokens separator line).take maxArgs).map fun word => ⟨cstr word, cstr_noNul⟩

namespace Prompt

/-- The keys of the line, without Enter. -/
def front (prompt : Prompt) : List UInt8 :=
  prompt.keys.takeWhile (· ≠ newline)

/-- The keys behind Enter. -/
def rest (prompt : Prompt) : List UInt8 :=
  (prompt.keys.dropWhile (· ≠ newline)).drop 1

def argv (prompt : Prompt) : List CString :=
  words (enteredLine prompt.front)

end Prompt

variable {prompt next : Prompt} {state : ShellState} {size n p : Nat} {buf after : Buffer size} {argv : List Nat}
  {keys front cwd : List UInt8} {row : Buffer dirNameLen}

section Words

/-- A turn of the loop in `parse_cmd` finds no word, or puts a zero byte behind
the word that it finds. -/
theorem parseLoop_cases (run : parseLoop buf p (n + 1) = some (after, argv)) :
    (after = buf ∧ argv = []) ∨ ∃ start behind tail, argv = start :: tail ∧ start ≤ behind ∧
      ((buf.bytes[behind]? = some 0 ∧ parseLoop buf behind n = some (after, tail)) ∨
        ∃ cut, buf.store behind [0] = some cut ∧ parseLoop cut (behind + 1) n = some (after, tail)) := by
  simp only [parseLoop, Option.bind_eq_bind] at run
  obtain ⟨here, _, run⟩ := Option.bind_eq_some_iff.mp run
  split at run
  · cases run
    exact .inl ⟨rfl, rfl⟩
  · obtain ⟨skipped, _, run⟩ := Option.bind_eq_some_iff.mp run
    obtain ⟨first, _, run⟩ := Option.bind_eq_some_iff.mp run
    split at run
    · cases run
      exact .inl ⟨rfl, rfl⟩
    · obtain ⟨length, _, run⟩ := Option.bind_eq_some_iff.mp run
      obtain ⟨last, lastRead, run⟩ := Option.bind_eq_some_iff.mp run
      split at run
      · rename_i ended
        obtain ⟨result, later, run⟩ := Option.bind_eq_some_iff.mp run
        cases run
        exact .inr ⟨_, _, _, rfl, Nat.le_add_right _ _, .inl ⟨ended ▸ lastRead, later⟩⟩
      · obtain ⟨cut, stored, run⟩ := Option.bind_eq_some_iff.mp run
        obtain ⟨result, later, run⟩ := Option.bind_eq_some_iff.mp run
        cases run
        exact .inr ⟨_, _, _, rfl, Nat.le_add_right _ _, .inr ⟨cut, stored, later⟩⟩

theorem store_zero_kept {i : Nat} (stored : buf.store p [0] = some after) (zero : buf.bytes[i]? = some 0) :
    after.bytes[i]? = some 0 := by
  rw [Buffer.store_byte stored, List.getElem?_set]
  split
  · rename_i here
    rw [if_pos (here ▸ (List.getElem?_eq_some_iff.mp zero).1)]
  · exact zero

/-- Zero bytes stay, and every entry of `argv` has one behind it. -/
theorem parseLoop_ends (run : parseLoop buf p n = some (after, argv)) :
    (∀ i : Nat, buf.bytes[i]? = some 0 → after.bytes[i]? = some 0) ∧
      ∀ start ∈ argv, 0 ∈ after.bytes.drop start := by
  induction n generalizing buf p argv with
  | zero =>
      obtain ⟨_, _, run⟩ := Option.bind_eq_some_iff.mp run
      cases run
      exact ⟨fun _ zero => zero, by simp⟩
  | succ n ih =>
      rcases parseLoop_cases run with ⟨rfl, rfl⟩ | ⟨start, behind, tail, rfl, ordered, next⟩
      · exact ⟨fun _ zero => zero, by simp⟩
      · have ends : ∀ after' : Buffer size, after'.bytes[behind]? = some 0 → 0 ∈ after'.bytes.drop start := by
          intro after' zero
          refine List.mem_of_getElem? (i := behind - start) ?_
          rw [List.getElem?_drop, Nat.add_sub_cancel' ordered, zero]
        rcases next with ⟨zero, later⟩ | ⟨cut, stored, later⟩
        · obtain ⟨kept, others⟩ := ih later
          exact ⟨kept, List.forall_mem_cons.mpr ⟨ends after (kept behind zero), others⟩⟩
        · obtain ⟨kept, others⟩ := ih later
          have zero : cut.bytes[behind]? = some 0 := by
            rw [Buffer.store_byte stored, List.getElem?_set_self]
            rw [buf.length_eq]
            exact Buffer.store_room stored
          exact ⟨fun i old => kept i (store_zero_kept stored old),
            List.forall_mem_cons.mpr ⟨ends after (kept behind zero), others⟩⟩

theorem mapM_stringAt {entries : List Nat} (ended : ∀ start ∈ entries, 0 ∈ buf.bytes.drop start) :
    entries.mapM (stringAt buf) = .ok ((strings buf entries).map fun word => ⟨cstr word, cstr_noNul⟩) := by
  induction entries with
  | nil => rfl
  | cons start entries ih =>
      rw [List.forall_mem_cons] at ended
      have same : cstr (cstr (buf.bytes.drop start)) = cstr (buf.bytes.drop start) := cstr_of_noNul cstr_noNul
      simp only [List.mapM_cons, ih ended.2, stringAt, if_pos ended.1, strings, List.map_cons, same, bind,
        Except.bind, pure, Except.pure]

theorem foldl_typeKeyWithin_mem {room : Nat} {text : List UInt8} {c : UInt8}
    (member : c ∈ keys.foldl (typeKeyWithin room) text) : c ∈ text ∨ c ∈ keys ∧ c ≠ backspace := by
  induction keys generalizing text with
  | nil => exact .inl member
  | cons key keys ih =>
      rw [List.foldl_cons] at member
      rcases ih member with typed | later
      · rw [typeKeyWithin] at typed
        split at typed
        · exact .inl (List.mem_of_mem_dropLast typed)
        · rename_i kept
          split at typed
          · rcases List.mem_append.mp typed with old | new
            · exact .inl old
            · cases List.mem_singleton.mp new
              exact .inr ⟨List.mem_cons_self, kept⟩
          · exact .inl typed
      · exact .inr ⟨List.mem_cons_of_mem _ later.1, later.2⟩

/-- A line holds printable characters only. -/
theorem enteredLine_printable {c : UInt8} (member : c ∈ enteredLine front) : printable c = true := by
  rcases foldl_typeKeyWithin_mem member with none | ⟨typed, kept⟩
  · cases none
  · have seen := (List.mem_filter.mp typed).2
    simpa [kept] using seen

theorem enteredLine_noNul : 0 ∉ enteredLine front :=
  fun member => absurd (enteredLine_printable member) (by decide)

/-- The words that a turn finds on the line. -/
theorem parseCmd_words {buf : Buffer cmdLen} (ended : 0 ∈ buf.bytes) :
    ∃ after entries, parseCmd buf maxArgs = some (after, entries) ∧
      entries.mapM (stringAt after) = .ok (words (cstr buf.bytes)) ∧
      (entries.length = 0 ↔ words (cstr buf.bytes) = []) := by
  obtain ⟨tail, bytes⟩ := cstr_split ended
  have whole : buf.bytes = [] ++ cstr buf.bytes ++ 0 :: tail := bytes
  obtain ⟨after, entries, changed, run, _, _, read⟩ := parseLoop_spec maxArgs whole cstr_noNul
  have found := mapM_stringAt (parseLoop_ends run).2
  rw [read] at found
  refine ⟨after, entries, run, found, ?_⟩
  have count := congrArg List.length read
  rw [strings, List.length_map] at count
  rw [count, words, List.map_eq_nil_iff, List.length_eq_zero_iff]

end Words

section Turns

theorem Prompt.keys_split (entered : newline ∈ prompt.keys) :
    prompt.keys = prompt.front ++ newline :: prompt.rest ∧ newline ∉ prompt.front := by
  obtain ⟨front, rest, split, noNewline⟩ := List.eq_append_cons_of_mem entered
  have passed : ∀ c ∈ front, decide (c ≠ newline) = true := by
    intro c member
    exact decide_eq_true (ne_of_mem_of_not_mem member noNewline)
  have sameFront : prompt.front = front := by
    rw [Prompt.front, split, List.takeWhile_append_of_pos passed]
    simp
  have sameRest : prompt.rest = rest := by
    rw [Prompt.rest, split, List.dropWhile_append_of_pos passed]
    simp
  rw [sameFront, sameRest]
  exact ⟨split, noNewline⟩

theorem readline_entered (entered : newline ∈ prompt.keys) :
    ∃ typed, Shell.readline prompt.buf prompt.keys = .ok typed ∧ typed.keys = prompt.rest ∧
      typed.count = (enteredLine prompt.front).length ∧ 0 ∈ typed.buf.bytes ∧
      cstr typed.buf.bytes = enteredLine prompt.front := by
  obtain ⟨split, noNewline⟩ := Prompt.keys_split entered
  obtain ⟨typed, read, left, count, bytes⟩ :=
    readlineLoop_typed printable prompt.buf prompt.rest noNewline (by decide) List.take_zero
  rw [← split] at read
  exact ⟨typed, read, left, count, (readlineLoop_ok read).2, cstr_of_take bytes enteredLine_noNul⟩

/-- A turn dispatches the words of the line, when there are any. -/
theorem shellTurn_spec (found : prompt.state.dir.row prompt.state.dir.cwdIdx = .ok row) (spells : Spells row cwd)
    (entered : newline ∈ prompt.keys) :
    ∃ typed buf, Shell.readline prompt.buf prompt.keys = .ok typed ∧
      shellTurn prompt =
        if prompt.argv = [] then
          .ok ⟨prompt.state, buf, prompt.rest, prompt.screen ++ promptText ⟨cwd, spells.noNul⟩ ++ typed.echo⟩
        else (shellDispatch prompt.state prompt.argv prompt.rest).map fun outcome =>
          ⟨outcome.state, buf, outcome.keys,
            prompt.screen ++ promptText ⟨cwd, spells.noNul⟩ ++ typed.echo ++ outcome.screen ++ [.writeln []]⟩ := by
  obtain ⟨typed, read, left, count, ended, text⟩ := readline_entered entered
  obtain ⟨buf, entries, parsed, strings, none⟩ := parseCmd_words ended
  rw [text] at strings none
  have argv : words (enteredLine prompt.front) = prompt.argv := rfl
  rw [argv] at strings none
  simp only [shellTurn, showPrompt, dirGetcwd, found, asString_spells spells, read, parsed, strings, inBounds, left,
    bind, Except.bind, pure, Except.pure]
  by_cases blank : typed.count = 0
  · have empty : prompt.argv = [] := by
      rw [count, List.length_eq_zero_iff] at blank
      rw [Prompt.argv, blank]
      rfl
    refine ⟨typed, typed.buf, rfl, ?_⟩
    rw [if_pos blank, if_pos empty]
  · refine ⟨typed, buf, rfl, ?_⟩
    rw [if_neg blank]
    by_cases empty : prompt.argv = []
    · rw [if_pos (none.mpr empty), if_pos empty]
    · rw [if_neg (fun zero => empty (none.mp zero)), if_neg empty]
      cases shellDispatch prompt.state prompt.argv prompt.rest with
      | error stop => rfl
      | ok outcome => rfl

theorem shellTurn_blocked (found : prompt.state.dir.row prompt.state.dir.cwdIdx = .ok row) (spells : Spells row cwd)
    (waits : newline ∉ prompt.keys) : shellTurn prompt = .error .blocked := by
  have blocked : Shell.readline prompt.buf prompt.keys = .error .blocked := readlineLoop_blocked (by decide) waits
  simp only [shellTurn, showPrompt, dirGetcwd, found, asString_spells spells, blocked, bind, Except.bind, pure,
    Except.pure]

/-- What a completed turn has done. -/
theorem shellTurn_cases (turn : shellTurn prompt = .ok next) :
    newline ∈ prompt.keys ∧ ∃ row cwd, prompt.state.dir.row prompt.state.dir.cwdIdx = .ok row ∧ Spells row cwd ∧
      ((prompt.argv = [] ∧ next.state = prompt.state ∧ next.keys = prompt.rest) ∨
        ∃ outcome, shellDispatch prompt.state prompt.argv prompt.rest = .ok outcome ∧
          next.state = outcome.state ∧ next.keys = outcome.keys) := by
  obtain ⟨shown, asked, _⟩ := bind_eq_ok.mp turn
  obtain ⟨row, found, asked⟩ := bind_eq_ok.mp asked
  obtain ⟨cwd, read, _⟩ := bind_eq_ok.mp asked
  have spells := spells_of_asString read
  have entered : newline ∈ prompt.keys := by
    by_contra waits
    cases turn.symm.trans (shellTurn_blocked found spells waits)
  obtain ⟨typed, buf, _, result⟩ := shellTurn_spec found spells entered
  rw [turn] at result
  refine ⟨entered, row, cwd.chars, found, spells, ?_⟩
  split at result
  · rename_i empty
    cases result
    exact .inl ⟨empty, rfl, rfl⟩
  · obtain ⟨outcome, dispatched, rfl⟩ := map_eq_ok.mp result.symm
    exact .inr ⟨outcome, dispatched, rfl, rfl⟩

theorem shellTurn_rest (turn : shellTurn prompt = .ok next) : next.keys <:+ prompt.rest := by
  obtain ⟨_, row, cwd, _, _, result⟩ := shellTurn_cases turn
  rcases result with ⟨_, _, left⟩ | ⟨outcome, dispatched, _, left⟩
  · exact left ▸ List.suffix_refl _
  · exact left ▸ shellDispatch_suffix dispatched

theorem shellTurn_suffix (turn : shellTurn prompt = .ok next) :
    next.keys <:+ prompt.keys ∧ next.keys.length < prompt.keys.length := by
  obtain ⟨split, _⟩ := Prompt.keys_split (shellTurn_cases turn).1
  have taken := shellTurn_rest turn
  have behind : prompt.rest <:+ prompt.keys := ⟨prompt.front ++ [newline], by simp [← split]⟩
  refine ⟨taken.trans behind, Nat.lt_of_le_of_lt taken.length_le ?_⟩
  rw [congrArg List.length split, List.length_append, List.length_cons]
  omega

end Turns

/-- The loop of `shell_run`: the last prompt it comes to, and why the turn that
starts there does not end. -/
def shellLoop (prompt : Prompt) : Prompt × Stop :=
  match _turn : shellTurn prompt with
  | .ok next => shellLoop next
  | .error stop => (prompt, stop)
termination_by prompt.keys.length
decreasing_by exact (shellTurn_suffix _turn).2

def shellRun (state : ShellState) (buf : Buffer cmdLen) (keys : List UInt8) : Prompt × Stop :=
  shellLoop ⟨state, buf, keys, welcome⟩

/-- The prompts that the loop comes to. -/
def Turns : Prompt → Prompt → Prop :=
  Relation.ReflTransGen fun prompt next => shellTurn prompt = .ok next

section Session

theorem shellLoop_ends (prompt : Prompt) :
    Turns prompt (shellLoop prompt).1 ∧ shellTurn (shellLoop prompt).1 = .error (shellLoop prompt).2 := by
  induction prompt using shellLoop.induct with
  | case1 prompt next turn ih =>
      rw [shellLoop]
      split
      · rename_i other again
        cases turn.symm.trans again
        exact ⟨.head turn ih.1, ih.2⟩
      · rename_i stop failed
        cases turn.symm.trans failed
  | case2 prompt stop failed =>
      rw [shellLoop]
      split
      · rename_i next turn
        cases turn.symm.trans failed
      · rename_i other again
        cases failed.symm.trans again
        exact ⟨.refl, failed⟩

/-- Every path that the turn builds fits its buffer. -/
def Prompt.Fits (prompt : Prompt) : Prop :=
  newline ∈ prompt.keys → (ShellEvent.mk prompt.argv prompt.rest).Fits prompt.state

theorem shellTurn_step (turn : shellTurn prompt = .ok next) :
    next.state = prompt.state ∨ ShellStep prompt.state ⟨prompt.argv, prompt.rest⟩ next.state := by
  obtain ⟨_, row, cwd, _, _, result⟩ := shellTurn_cases turn
  rcases result with ⟨_, same, _⟩ | ⟨outcome, dispatched, same, _⟩
  · exact .inl same
  · exact .inr ⟨outcome, dispatched, same.symm⟩

theorem ShellStep.valid {event : ShellEvent} {after : ShellState} (step : ShellStep state event after)
    (valid : Valid state.fs) : Valid after.fs := by
  obtain ⟨outcome, dispatched, rfl⟩ := step
  obtain ⟨cmd, _, run⟩ := bind_eq_ok.mp dispatched
  rcases Command.run_cases run with same | ⟨op, row, result, _, _, ran, next⟩ | ⟨op, result, _, _, next⟩
  · rwa [same]
  · have moved : FsStep state.fs ⟨op, event.keys, result.report⟩ result.fs := ⟨result, ran, rfl, rfl⟩
    rw [next]
    exact moved.valid valid
  · rwa [next]

theorem Command.run_inside {request : Command} {cmd : CString} {paths : List (List UInt8)}
    (known : Consistent state paths) (valid : Valid state.fs) (fits : request.Fits state) :
    request.run state cmd keys ≠ .error .outOfBounds := by
  obtain ⟨row, cwd, _, found, spells, _⟩ := known.table.cwd_row
  intro failed
  cases request with
  | help | clear | whoami | unknown | shutdown => cases failed
  | pwd =>
      simp only [Command.run, dirGetcwd, found, bind, Except.bind] at failed
      cases failed
  | ls =>
      obtain ⟨screen, listed, _⟩ := dirLs_lists state.fs known.table.toHolds
      simp only [Command.run, listed, bind, Except.bind] at failed
      cases failed
  | file op located =>
      obtain ⟨chain, layout⟩ := valid
      simp only [Command.run, dirGetcwd, found, asString_spells spells, bind, Except.bind] at failed
      cases ran : (op ⟨cwd, spells.noNul⟩).run state.fs keys with
      | error stop =>
          rw [ran] at failed
          cases failed
          exact FsOp.run_inside layout ran
      | ok outcome =>
          rw [ran] at failed
          cases failed
  | directory op =>
      rcases bind_eq_error.mp failed with stopped | ⟨result, _, stopped⟩
      · exact DirOp.run_inside known.table.toHolds fits stopped
      · cases stopped

theorem shellTurn_inside {paths : List (List UInt8)} (known : Consistent prompt.state paths)
    (valid : Valid prompt.state.fs) (fits : prompt.Fits) : shellTurn prompt ≠ .error .outOfBounds := by
  obtain ⟨row, cwd, _, found, spells, _⟩ := known.table.cwd_row
  intro failed
  by_cases entered : newline ∈ prompt.keys
  · obtain ⟨typed, buf, _, turn⟩ := shellTurn_spec found spells entered
    rw [turn] at failed
    split at failed
    · cases failed
    · rename_i nonempty
      rcases bind_eq_error.mp (map_eq_error.mp failed) with stopped | ⟨cmd, first, stopped⟩
      · obtain ⟨cmd, others, argv⟩ := List.exists_cons_of_ne_nil nonempty
        rw [argv] at stopped
        cases stopped
      · exact Command.run_inside known valid (fits entered cmd (inBounds_eq_ok.mp first)) stopped
  · rw [shellTurn_blocked found spells entered] at failed
    cases failed

theorem Turns.suffix (turns : Turns prompt next) : next.keys <:+ prompt.keys := by
  induction turns with
  | refl => exact List.suffix_refl _
  | tail _ turn ih => exact (shellTurn_suffix turn).1.trans ih

/-- What every step of the shell keeps holds at every prompt. -/
theorem Turns.invariant {holds : ShellState → Prop} (turns : Turns prompt next) (initial : holds prompt.state)
    (kept : ∀ reached, Turns prompt reached → holds reached.state →
      ∀ after, ShellStep reached.state ⟨reached.argv, reached.rest⟩ after → holds after) : holds next.state := by
  induction turns with
  | refl => exact initial
  | tail earlier turn ih =>
      rcases shellTurn_step turn with same | step
      · exact same ▸ ih
      · exact kept _ earlier ih _ step

theorem Turns.valid (turns : Turns prompt next) (valid : Valid prompt.state.fs) : Valid next.state.fs :=
  turns.invariant valid fun _ _ held _ step => step.valid held

theorem Turns.consistent (turns : Turns prompt next) (known : ∃ paths, Consistent prompt.state paths)
    (fits : ∀ reached, Turns prompt reached → reached.Fits) : ∃ paths, Consistent next.state paths := by
  induction turns with
  | refl => exact known
  | @tail reached next earlier turn ih =>
      obtain ⟨paths, known⟩ := ih
      obtain ⟨entered, _⟩ := shellTurn_cases turn
      rcases shellTurn_step turn with same | ⟨outcome, dispatched, same⟩
      · exact ⟨paths, same.symm ▸ known⟩
      · obtain ⟨cmd, first, run⟩ := bind_eq_ok.mp dispatched
        rw [← same]
        exact Command.run_consistent known (fits reached earlier entered cmd (inBounds_eq_ok.mp first)) run

variable {bootDirs start : DirState} {boot : FileSystem}

theorem consistent_boot (init : dirInit bootDirs = .ok start) (boot : FileSystem) :
    Consistent ⟨start, fsInit boot⟩ [rootPath] :=
  ⟨wellFormed_dirInit init, fun _ used => by cases used⟩

/-- A session ends at a prompt or in a command that waits for a key, or with
`shutdown`, and never by leaving a buffer, as long as every path it builds fits.
Whatever it is, the allocation table and the bounds of the directory table hold
at every prompt, and no key is read twice. -/
theorem session_stays_inside (init : dirInit bootDirs = .ok start) (buf : Buffer cmdLen) (keys : List UInt8) :
    (∀ reached, Turns ⟨⟨start, fsInit boot⟩, buf, keys, welcome⟩ reached →
      FatInvariant reached.state.fs ∧ Sound reached.state ∧ reached.keys <:+ keys) ∧
    ((∀ reached, Turns ⟨⟨start, fsInit boot⟩, buf, keys, welcome⟩ reached → reached.Fits) →
      (shellRun ⟨start, fsInit boot⟩ buf keys).2 ≠ .outOfBounds ∧
      ∀ reached, Turns ⟨⟨start, fsInit boot⟩, buf, keys, welcome⟩ reached →
        ∃ paths, Consistent reached.state paths) := by
  constructor
  · intro reached turns
    obtain ⟨chain, layout⟩ := turns.valid (valid_fsInit boot)
    refine ⟨layout.fatInvariant, ?_, turns.suffix⟩
    exact turns.invariant (sound_init init boot) fun _ _ sound _ step => step.sound sound
  · intro fits
    have consistent : ∀ reached, Turns ⟨⟨start, fsInit boot⟩, buf, keys, welcome⟩ reached →
        ∃ paths, Consistent reached.state paths :=
      fun reached turns => turns.consistent ⟨_, consistent_boot init boot⟩ fits
    refine ⟨?_, consistent⟩
    obtain ⟨turns, stopped⟩ := shellLoop_ends ⟨⟨start, fsInit boot⟩, buf, keys, welcome⟩
    obtain ⟨paths, known⟩ := consistent _ turns
    intro left
    change (shellLoop _).2 = _ at left
    rw [left] at stopped
    exact shellTurn_inside known (turns.valid (valid_fsInit boot)) (fits _ turns) stopped

/-- The line `mkdir d`, typed at the first prompt. -/
def mkdirPrompt (start : DirState) : Prompt :=
  ⟨⟨start, fsInit bss⟩, .zeros cmdLen, ascii "mkdir d" ++ [newline], welcome⟩

theorem mkdirPrompt_argv (start : DirState) : (mkdirPrompt start).argv = [⟨ascii "mkdir", by decide⟩, shortToken] :=
  rfl

theorem mkdirPrompt_turns {reached : Prompt} (turns : Turns (mkdirPrompt start) reached) :
    reached = mkdirPrompt start ∨ newline ∉ reached.keys := by
  rcases Relation.ReflTransGen.cases_head turns with same | ⟨next, turn, later⟩
  · exact .inl same.symm
  · -- the line was the last thing typed
    have left : reached.keys <:+ [] := (Turns.suffix later).trans (shellTurn_rest turn)
    rw [List.suffix_nil] at left
    rw [left]
    exact .inr List.not_mem_nil

theorem mkdirPrompt_fits (init : dirInit bssDirs = .ok start) {cmd : CString}
    (first : (mkdirPrompt start).argv[0]? = some cmd) :
    command cmd (mkdirPrompt start).argv = .directory (.mkdir shortToken) ∧ (DirOp.mkdir shortToken).Fits start := by
  rw [mkdirPrompt_argv] at first ⊢
  cases first
  refine ⟨rfl, fun _ _ => ?_⟩
  rw [List.mem_singleton.mp (holds_dirInit init).cwdPath_mem]
  decide

theorem mkdir_stays_inside : ∃ start, dirInit bssDirs = .ok start ∧
    (shellLoop (mkdirPrompt start)).2 ≠ .outOfBounds := by
  obtain ⟨start, init⟩ : ∃ start, dirInit bssDirs = .ok start := ⟨_, rfl⟩
  refine ⟨start, init, ((session_stays_inside init (.zeros cmdLen) (ascii "mkdir d" ++ [newline])).2 ?_).1⟩
  intro reached turns entered cmd first
  rcases mkdirPrompt_turns turns with rfl | waits
  · obtain ⟨chosen, fits⟩ := mkdirPrompt_fits init first
    change (command cmd (mkdirPrompt start).argv).Fits _
    rw [chosen]
    exact fits
  · exact absurd entered waits

end Session

end DugOS.Shell
