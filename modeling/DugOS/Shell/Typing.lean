import DugOS.Fs.Refinement
import DugOS.Shell.Session

namespace DugOS

open Data

/-! Lines that are typed at a prompt without a mistake, and the turns they start. -/

namespace Fs

/-- There is a slot and there are blocks for the bytes, in place of what the file
holds now. -/
def Room (fs : FileSystem) (name dir : CString) (bytes : List UInt8) : Prop :=
  match findFile fs.files name dir with
  | some idx => blocksFor bytes.length ≤ (freeBlocks (released fs idx).fat).card
  | none => (∃ idx, findFreeSlot fs.files = some idx) ∧ blocksFor bytes.length ≤ (freeBlocks fs.fat).card

variable {fs : FileSystem} {name dir : CString} {keys rest : List UInt8} {lines : List (List UInt8)}
  {outcome : Outcome} {idx : FileIndex} {input : Input}

theorem fsWriteSlot_keys (run : fsWriteSlot fs idx name keys = .ok outcome)
    (collected : collectLines (.zeros 256) fs.writeTmp 0 keys = .ok input) : outcome.keys = input.keys := by
  simp only [fsWriteSlot, collected, bind, Except.bind, pure, Except.pure] at run
  split at run <;> cases run <;> rfl

/-- Lines that are typed as they are to be stored are stored when there is room. -/
theorem fsWrite_stores (rest : List UInt8) (nonempty : name.chars ≠ []) (verbatim : ∀ text ∈ lines, Verbatim text)
    (length : (typedText lines).length ≤ tmpSize) (room : Room fs name dir (typedText lines)) :
    ∃ outcome, fsWrite fs name dir (typedText lines ++ (terminator.chars ++ newline :: rest)) = .ok outcome ∧
      outcome.report = .done ∧ outcome.keys = rest := by
  obtain ⟨input, collected, left, spec⟩ :=
    collectLines_verbatim (.zeros 256) fs.writeTmp 0 rest verbatim (by simpa using length)
  have bytes : input.bytes = typedText lines := by simpa [Input.bytes] using spec.bytes
  have given : ¬ kstrlen name.memory = some 0 := (kstrlen_eq_zero name).not.mpr nonempty
  rw [Room] at room
  cases found : findFile fs.files name dir with
  | some idx =>
      simp only [found] at room
      simp only [fsWrite, given, if_false, found]
      obtain ⟨outcome, run, done⟩ := fsWriteSlot_stores
        (setEntry { fs with fat := freeChain fs.fat (fs.files idx).firstBlock } idx
          { fs.files idx with firstBlock := fatEnd, size := 0 }) idx name collected (by rw [bytes]; exact room)
      exact ⟨outcome, run, done, (fsWriteSlot_keys run collected).trans left⟩
  | none =>
      simp only [found] at room
      obtain ⟨⟨idx, slot⟩, enough⟩ := room
      rw [fsWrite_new nonempty found slot]
      obtain ⟨outcome, run, done⟩ := fsWriteSlot_stores
        (setEntry fs idx { fs.files idx with name := field name, dir := field dir, used := true }) idx name
        collected (by rw [bytes]; exact enough)
      exact ⟨outcome, run, done, (fsWriteSlot_keys run collected).trans left⟩

/-- The map then holds the lines under the name. -/
theorem fsWrite_maps (keyed : Keyed fs) (fits : Fits name dir) (verbatim : ∀ text ∈ lines, Verbatim text)
    (length : (typedText lines).length ≤ tmpSize)
    (run : fsWrite fs name dir (typedText lines ++ (terminator.chars ++ newline :: rest)) = .ok outcome)
    (done : outcome.report = .done) : fileMap outcome.fs (keyOf name dir) = some (typedText lines) := by
  have written : (FsOp.write name dir).run fs (typedText lines ++ (terminator.chars ++ newline :: rest)) =
      .ok outcome := run
  have within : (FsOp.write name dir).Within := fits
  obtain ⟨_, refines⟩ := (FsOp.run_effect written).refines keyed within
  obtain ⟨typed, ⟨input, collected, rfl⟩, _, map⟩ := refines.done done
  obtain ⟨other, again, _, spec⟩ :=
    collectLines_verbatim (.zeros 256) fs.writeTmp 0 rest verbatim (by simpa using length)
  cases collected.symm.trans again
  have bytes : input.bytes = typedText lines := by simpa [Input.bytes] using spec.bytes
  rw [map, bytes, FsOp.apply, Function.update_self]

end Fs

namespace Shell

open Fs Dir

/-- A word that can be typed: printable characters without a blank. -/
structure Word (text : List UInt8) : Prop where
  nonempty : text ≠ []
  printable : ∀ c ∈ text, printable c = true
  unbroken : ∀ c ∈ text, c ≠ 32

variable {prompt next : Prompt} {name cwd : CString} {rest text : List UInt8} {lines : List (List UInt8)}

section Typing

theorem Word.of_all (nonempty : text ≠ []) (all : text.all (fun c => Shell.printable c && c != 32) = true) :
    Word text := by
  rw [List.all_eq_true] at all
  refine ⟨nonempty, fun c member => ?_, fun c member => ?_⟩
  · exact (Bool.and_eq_true_iff.mp (all c member)).1
  · exact bne_iff_ne.mp (Bool.and_eq_true_iff.mp (all c member)).2

theorem Word.clean (word : Word text) : ∀ c ∈ text, separator c = false := by
  intro c member
  have tab : c ≠ 9 := by
    intro same
    have shown := word.printable c member
    rw [same] at shown
    cases shown
  simp [separator, word.unbroken c member, tab]

theorem effective_printable (all : ∀ c ∈ text, printable c = true) : effective printable text = text := by
  apply List.filter_eq_self.mpr
  intro c member
  simp [all c member]

theorem enteredLine_plain (all : ∀ c ∈ text, printable c = true) (short : text.length ≤ 255) :
    enteredLine text = text := by
  have noBackspace : backspace ∉ text := fun member => absurd (all backspace member) (by decide)
  rw [enteredLine, effective_printable all, foldl_typeKeyWithin_plain noBackspace (by simpa using short)]
  rfl

theorem printable_noNewline (all : ∀ c ∈ text, printable c = true) : newline ∉ text :=
  fun member => absurd (all newline member) (by decide)

/-- A line that is typed without a mistake. -/
theorem Prompt.typed (all : ∀ c ∈ text, printable c = true) (short : text.length ≤ 255)
    (typed : prompt.keys = text ++ newline :: rest) :
    newline ∈ prompt.keys ∧ prompt.argv = words text ∧ prompt.rest = rest := by
  have noNewline := printable_noNewline all
  have passed : ∀ c ∈ text, decide (c ≠ newline) = true :=
    fun c member => decide_eq_true (ne_of_mem_of_not_mem member noNewline)
  have front : prompt.front = text := by
    rw [Prompt.front, typed, List.takeWhile_append_of_pos passed]
    simp
  refine ⟨by simp [typed], ?_, ?_⟩
  · rw [Prompt.argv, front, enteredLine_plain all short]
  · rw [Prompt.rest, typed, List.dropWhile_append_of_pos passed]
    simp

theorem words_two {first second : CString} (firstWord : Word first.chars) (secondWord : Word second.chars) :
    words (first.chars ++ 32 :: second.chars) = [first, second] := by
  rw [words, tokens_first firstWord.nonempty firstWord.clean rfl, tokens_last secondWord.nonempty secondWord.clean]
  simp only [maxArgs, List.take_succ_cons, List.take_nil, List.map_cons, List.map_nil, cstr_of_noNul first.noNul,
    cstr_of_noNul second.noNul]

theorem Prompt.typed_two {first second : CString} (firstWord : Word first.chars) (secondWord : Word second.chars)
    (short : first.chars.length + second.chars.length < 255)
    (typed : prompt.keys = first.chars ++ 32 :: second.chars ++ newline :: rest) :
    newline ∈ prompt.keys ∧ prompt.argv = [first, second] ∧ prompt.rest = rest := by
  have all : ∀ c ∈ first.chars ++ 32 :: second.chars, Shell.printable c = true := by
    intro c member
    rcases List.mem_append.mp member with inFirst | inRest
    · exact firstWord.printable c inFirst
    · rcases List.mem_cons.mp inRest with rfl | inSecond
      · rfl
      · exact secondWord.printable c inSecond
  obtain ⟨entered, argv, left⟩ := Prompt.typed all (by simp; omega) typed
  exact ⟨entered, argv.trans (words_two firstWord secondWord), left⟩

end Typing

section Turns

variable {row : Buffer dirNameLen} {cmd : CString}

/-- What the command on a line shows and leaves. -/
theorem shellTurn_runs {request : Command} {outcome : ShellOutcome}
    (found : prompt.state.dir.row prompt.state.dir.cwdIdx = .ok row) (spells : Spells row cwd.chars)
    (entered : newline ∈ prompt.keys) (first : prompt.argv[0]? = some cmd) (chosen : command cmd prompt.argv = request)
    (run : request.run prompt.state cmd prompt.rest = .ok outcome) :
    ∃ typed buf, Shell.readline prompt.buf prompt.keys = .ok typed ∧
      shellTurn prompt = .ok ⟨outcome.state, buf, outcome.keys,
        prompt.screen ++ promptText cwd ++ typed.echo ++ outcome.screen ++ [.writeln []]⟩ := by
  obtain ⟨typed, buf, read, turn⟩ := shellTurn_spec found spells entered
  have nonempty : prompt.argv ≠ [] := by
    intro none
    rw [none] at first
    cases first
  rw [if_neg nonempty] at turn
  refine ⟨typed, buf, read, ?_⟩
  simp only [turn, shellDispatch, first, inBounds, chosen, run, bind, Except.bind, Except.map]

theorem shellTurn_file {op : CString → FsOp} {located : ∀ dir, (op dir).dir = dir} {outcome : Outcome}
    (found : prompt.state.dir.row prompt.state.dir.cwdIdx = .ok row) (spells : Spells row cwd.chars)
    (entered : newline ∈ prompt.keys) (first : prompt.argv[0]? = some cmd)
    (chosen : command cmd prompt.argv = .file op located)
    (run : (op cwd).run prompt.state.fs prompt.rest = .ok outcome) :
    ∃ typed buf, Shell.readline prompt.buf prompt.keys = .ok typed ∧
      shellTurn prompt = .ok ⟨⟨prompt.state.dir, outcome.fs⟩, buf, outcome.keys,
        prompt.screen ++ promptText cwd ++ typed.echo ++ outcome.screen ++ [.writeln []]⟩ := by
  have ran : (Command.file op located).run prompt.state cmd prompt.rest =
      .ok ⟨⟨prompt.state.dir, outcome.fs⟩, outcome.keys, outcome.screen⟩ := by
    simp only [Command.run, dirGetcwd, found, asString_spells spells, run, bind, Except.bind, pure, Except.pure]
  exact shellTurn_runs found spells entered first chosen ran

theorem fwriteWord_word : Word fwriteWord.chars :=
  .of_all (by decide) (by decide)

theorem catWord_word : Word catWord.chars :=
  .of_all (by decide) (by decide)

theorem mkdirWord_word : Word mkdirWord.chars :=
  .of_all (by decide) (by decide)

theorem fwrite_turn (keyed : Keyed prompt.state.fs)
    (found : prompt.state.dir.row prompt.state.dir.cwdIdx = .ok row) (spells : Spells row cwd.chars)
    (word : Word name.chars) (short : name.chars.length ≤ 63)
    (keys : prompt.keys = fwriteWord.chars ++ 32 :: name.chars ++
      newline :: (typedText lines ++ (terminator.chars ++ newline :: rest)))
    (verbatim : ∀ text ∈ lines, Verbatim text) (length : (typedText lines).length ≤ tmpSize)
    (room : Room prompt.state.fs name cwd (typedText lines)) :
    ∃ next, shellTurn prompt = .ok next ∧ next.keys = rest ∧ next.state.dir = prompt.state.dir ∧
      fileMap next.state.fs (keyOf name cwd) = some (typedText lines) := by
  have total : fwriteWord.chars.length + name.chars.length < 255 := by
    rw [show fwriteWord.chars.length = 6 from rfl]
    omega
  obtain ⟨entered, argv, left⟩ := Prompt.typed_two fwriteWord_word word total keys
  obtain ⟨outcome, run, done, kept⟩ := fsWrite_stores rest word.nonempty verbatim length room
  have fits : Fits name cwd := ⟨List.length_pos_iff.mpr word.nonempty, short, Nat.le_of_lt_succ spells.length_lt⟩
  have first : prompt.argv[0]? = some fwriteWord := by
    rw [argv]
    rfl
  have chosen : command fwriteWord prompt.argv = .file (.write name) (fun _ => rfl) := by
    rw [argv]
    rfl
  rw [← left] at run
  obtain ⟨typed, buf, _, turn⟩ := shellTurn_file found spells entered first chosen run
  rw [left] at run
  exact ⟨_, turn, kept, rfl, fsWrite_maps keyed fits verbatim length run done⟩

theorem cat_turn {value : List UInt8} (keyed : Keyed prompt.state.fs)
    (found : prompt.state.dir.row prompt.state.dir.cwdIdx = .ok row) (spells : Spells row cwd.chars)
    (word : Word name.chars) (short : name.chars.length ≤ 63)
    (keys : prompt.keys = catWord.chars ++ 32 :: name.chars ++ newline :: rest)
    (held : fileMap prompt.state.fs (keyOf name cwd) = some value) :
    ∃ next typed, shellTurn prompt = .ok next ∧ Shell.readline prompt.buf prompt.keys = .ok typed ∧
      next.state = prompt.state ∧ next.keys = rest ∧
      next.screen = prompt.screen ++ promptText cwd ++ typed.echo ++ fileScreen name value ++ [.writeln []] := by
  have total : catWord.chars.length + name.chars.length < 255 := by
    rw [show catWord.chars.length = 3 from rfl]
    omega
  obtain ⟨entered, argv, left⟩ := Prompt.typed_two catWord_word word total keys
  have first : prompt.argv[0]? = some catWord := by
    rw [argv]
    rfl
  have chosen : command catWord prompt.argv = .file (.read name) (fun _ => rfl) := by
    rw [argv]
    rfl
  have run : (FsOp.read name cwd).run prompt.state.fs prompt.rest = .ok _ :=
    fsRead_value keyed word.nonempty held
  obtain ⟨typed, buf, read, turn⟩ := shellTurn_file found spells entered first chosen run
  exact ⟨_, typed, turn, read, rfl, left, rfl⟩

theorem mkdir_turn {outcome : DirOutcome}
    (found : prompt.state.dir.row prompt.state.dir.cwdIdx = .ok row) (spells : Spells row cwd.chars)
    (word : Word name.chars) (short : name.chars.length ≤ 63)
    (keys : prompt.keys = mkdirWord.chars ++ 32 :: name.chars ++ newline :: rest)
    (run : dirMkdir prompt.state.dir name rest = .ok outcome) :
    ∃ next, shellTurn prompt = .ok next ∧ next.state = ⟨outcome.dir, prompt.state.fs⟩ ∧ next.keys = outcome.keys := by
  have total : mkdirWord.chars.length + name.chars.length < 255 := by
    rw [show mkdirWord.chars.length = 5 from rfl]
    omega
  obtain ⟨entered, argv, left⟩ := Prompt.typed_two mkdirWord_word word total keys
  have first : prompt.argv[0]? = some mkdirWord := by
    rw [argv]
    rfl
  have chosen : command mkdirWord prompt.argv = .directory (.mkdir name) := by
    rw [argv]
    rfl
  have made : (Command.directory (.mkdir name)).run prompt.state mkdirWord prompt.rest =
      .ok ⟨⟨outcome.dir, prompt.state.fs⟩, outcome.keys, outcome.screen⟩ := by
    simp only [left, Command.run, DirOp.run, run, bind, Except.bind, pure, Except.pure]
  obtain ⟨typed, buf, _, turn⟩ := shellTurn_runs found spells entered first chosen made
  exact ⟨_, turn, rfl, rfl⟩

end Turns

end Shell

end DugOS
