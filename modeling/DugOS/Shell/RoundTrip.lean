import DugOS.Shell.Volume

namespace DugOS

open Data

/-! A file, from the keys that type it to the screen that shows it.

A session writes a file with `fwrite` and reads it with `cat`. In between it may
do anything that does not name the file.
-/

namespace Shell

open Fs Dir

/-- The command on the line may change the file. -/
def Prompt.Touches (prompt : Prompt) (key : Key) : Prop :=
  ∃ cmd op located dir, prompt.argv[0]? = some cmd ∧ command cmd prompt.argv = .file op located ∧
    CString.chars dir = prompt.state.dir.cwdPath ∧ (op dir).Touches key

variable {prompt next reached : Prompt} {name : CString} {keys rest text : List UInt8} {lines : List (List UInt8)}
  {key : Key} {cwd : CString}

theorem Volume.directory_files (volume : Volume) (agreed : Prop) (op : DirOp) :
    (volume.directory agreed op).files = volume.files := by
  cases op with
  | mkdir | cd | rmdir =>
      rw [Volume.directory]
      split <;> rfl

section Turns

/-- A file keeps its bytes while the session does not name it. -/
theorem Turns.file_kept (turns : Turns prompt next) (standing : Standing prompt.state)
    (within : ∀ reached, Turns prompt reached → reached.Within)
    (untouched : ∀ reached later, Turns prompt reached → shellTurn reached = .ok later → Turns later next →
      ¬ reached.Touches key) : fileMap next.state.fs key = fileMap prompt.state.fs key := by
  induction turns with
  | refl => rfl
  | @tail reached next earlier turn ih =>
      have before := ih fun other later turns turn' rest => untouched other later turns turn' (rest.tail turn)
      have held := Turns.standing earlier standing within
      rw [← before]
      rcases (held.turn (within _ earlier) turn).2 with ⟨_, same⟩ | ⟨cmd, first, step⟩
      · exact congrFun (congrArg Volume.files same) key
      · have apart := untouched reached next earlier turn .refl
        generalize chosen : command cmd reached.argv = request at step
        generalize after : volumeOf next.state = volume at step
        have files : fileMap next.state.fs = volume.files := congrArg Volume.files after
        rw [files]
        cases step with
        | shown => rfl
        | directory => exact congrFun (Volume.directory_files _ _ _) key
        | file here step =>
            exact step.others fun touches => apart ⟨cmd, _, _, _, first, chosen, here, touches⟩

theorem Standing.cwd_row (standing : Standing prompt.state) (here : prompt.state.dir.cwdPath = cwd.chars) :
    ∃ row, prompt.state.dir.row prompt.state.dir.cwdIdx = .ok row ∧ Spells row cwd.chars := by
  obtain ⟨paths, known⟩ := standing.consistent
  obtain ⟨row, text, _, found, spells, same⟩ := known.table.cwd_row
  exact ⟨row, found, here ▸ same ▸ spells⟩

variable {bootDirs start : DirState} {boot : FileSystem} {buf : Buffer cmdLen}

/-- The lines typed at `fwrite` are what `cat` shows, whatever the session does in
between, as long as it does not name the file in that directory. -/
theorem written_file_reads_back (init : dirInit bootDirs = .ok start)
    (within : ∀ reached, Turns ⟨⟨start, fsInit boot⟩, buf, keys, welcome⟩ reached → reached.Within)
    (turns : Turns ⟨⟨start, fsInit boot⟩, buf, keys, welcome⟩ prompt)
    (here : prompt.state.dir.cwdPath = cwd.chars) (word : Word name.chars) (short : name.chars.length ≤ 63)
    (typed : prompt.keys = fwriteWord.chars ++ 32 :: name.chars ++
      newline :: (typedText lines ++ (terminator.chars ++ newline :: rest)))
    (verbatim : ∀ text ∈ lines, Verbatim text) (length : (typedText lines).length ≤ tmpSize)
    (room : Room prompt.state.fs name cwd (typedText lines)) :
    ∃ written, shellTurn prompt = .ok written ∧ written.keys = rest ∧ written.state.dir = prompt.state.dir ∧
      ∀ reached later, Turns written reached →
        (∀ between after, Turns written between → shellTurn between = .ok after → Turns after reached →
          ¬ between.Touches (keyOf name cwd)) →
        reached.state.dir.cwdPath = cwd.chars →
        reached.keys = catWord.chars ++ 32 :: name.chars ++ newline :: later →
        ∃ shown line, shellTurn reached = .ok shown ∧ Shell.readline reached.buf reached.keys = .ok line ∧
          shown.state = reached.state ∧ shown.keys = later ∧
          shown.screen = reached.screen ++ promptText cwd ++ line.echo ++ fileScreen name (typedText lines) ++
            [.writeln []] := by
  have standing := turns.standing (standing_boot init boot) within
  obtain ⟨row, found, spells⟩ := standing.cwd_row here
  obtain ⟨written, turn, left, same, stored⟩ :=
    fwrite_turn standing.keyed found spells word short typed verbatim length room
  refine ⟨written, turn, left, same, ?_⟩
  intro reached later session untouched back asked
  have first : Turns ⟨⟨start, fsInit boot⟩, buf, keys, welcome⟩ written := turns.tail turn
  have during : ∀ other, Turns written other → other.Within := fun other rest => within other (first.trans rest)
  have started : Standing written.state := (standing.turn (within _ turns) turn).1
  have kept := session.file_kept started during untouched
  obtain ⟨lastRow, lastFound, lastSpells⟩ := (session.standing started during).cwd_row back
  exact cat_turn (session.standing started during).keyed lastFound lastSpells word short asked (kept.trans stored)

/-- The file is written, a directory is made, and the file is shown. -/
theorem sample_reads_back : ∃ start written made shown, ∃ line : Typed cmdLen, SampleSession start written made ∧
    shellTurn made = .ok shown ∧ shown.keys = [] ∧
    shown.screen = made.screen ++ promptText rootDir ++ line.echo ++ fileScreen sampleName (typedText [[120]]) ++
      [.writeln []] := by
  obtain ⟨start, written, made, session⟩ := sample_session
  obtain ⟨⟨_, second, _⟩, _⟩ := session.argv
  have root : start.cwdPath = rootDir.chars := List.mem_singleton.mp (holds_dirInit session.init).cwdPath_mem
  obtain ⟨again, turn, _, _, reads⟩ := written_file_reads_back session.init (fun _ => session.within) .refl root
    sampleName_word (by decide) rfl (by simpa using sample_verbatim) (by decide) sample_room
  cases session.wrote.symm.trans turn
  have untouched : ∀ between after, Turns written between → shellTurn between = .ok after → Turns after made →
      ¬ between.Touches (keyOf sampleName rootDir) := by
    intro between after earlier further rest
    rcases earlier.cases_next session.created with rfl | later
    · intro touches
      obtain ⟨cmd, op, located, dir, word, chosen, _⟩ := touches
      rw [second] at word chosen
      cases word
      cases chosen
    · have fewer := (shellTurn_suffix further).2
      have before := (Turns.suffix later).length_le
      have behind := (Turns.suffix rest).length_le
      omega
  obtain ⟨shown, line, asked, _, _, none, screen⟩ := reads made [] (.single session.created) untouched session.cwd
    session.last
  exact ⟨start, written, made, shown, line, session, asked, none, screen⟩

end Turns

end Shell

end DugOS
