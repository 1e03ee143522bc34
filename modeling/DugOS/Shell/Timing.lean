import DugOS.Data.Causal
import DugOS.Keyboard.Waiting
import DugOS.Shell.Session

namespace DugOS

open Data

/-! The shell behind the keyboard driver.

The characters of a line come one by one, whenever the interrupts let
`kbd_getchar` return one. The shell does not look ahead, so that what it does
depends on the scan codes and not on when they come.
-/

/-- More keys behind those that are unread. -/
def behind (more keys : List UInt8) : List UInt8 :=
  keys ++ more

def Typed.behind {len : Nat} (more : List UInt8) (typed : Typed len) : Typed len :=
  { typed with keys := typed.keys ++ more }

def Fs.Input.behind (more : List UInt8) (input : Fs.Input) : Fs.Input :=
  { input with keys := input.keys ++ more }

def Fs.Outcome.behind (more : List UInt8) (outcome : Fs.Outcome) : Fs.Outcome :=
  { outcome with keys := outcome.keys ++ more }

def Dir.DirOutcome.behind (more : List UInt8) (outcome : Dir.DirOutcome) : Dir.DirOutcome :=
  { outcome with keys := outcome.keys ++ more }

def Shell.ShellOutcome.behind (more : List UInt8) (outcome : Shell.ShellOutcome) : Shell.ShellOutcome :=
  { outcome with keys := outcome.keys ++ more }

def Shell.Prompt.behind (more : List UInt8) (prompt : Shell.Prompt) : Shell.Prompt :=
  { prompt with keys := prompt.keys ++ more }

section Lines

/-- What comes behind a line and reads on from there. -/
theorem Typed.causal {len : Nat} {β : Type} {after : List UInt8 → β → β} {next : Typed len → Except Stop β}
    {typed : Typed len}
    (reads : Causal .blocked DugOS.behind after (fun keys => next { typed with keys }) typed.keys) :
    Causal .blocked Typed.behind after next typed :=
  reads

variable {accepts : UInt8 → Bool} {len : Nat}

theorem readlineLoop_causal (buf : Buffer len) (n : Nat) (keys : List UInt8) :
    Causal .blocked behind Typed.behind (readlineLoop accepts buf n) keys := by
  induction keys generalizing buf n with
  | nil => exact fun waits => absurd rfl waits
  | cons c keys ih =>
      have echoing (call : VgaCall) (buf : Buffer len) (n : Nat) : Causal .blocked behind Typed.behind
          (fun keys => (readlineLoop accepts buf n keys).map (Typed.echoing call)) keys :=
        (ih buf n).map fun _ _ => rfl
      intro waits more
      change readlineLoop accepts buf n (c :: (keys ++ more)) = _
      rw [readlineLoop] at waits
      rw [readlineLoop, readlineLoop]
      by_cases enter : c = newline
      · simp only [if_pos enter]
        cases inBounds (buf.store n [0]) <;> rfl
      · simp only [if_neg enter] at waits ⊢
        by_cases back : c = backspace
        · simp only [if_pos back] at waits ⊢
          by_cases some : 0 < n
          · simp only [if_pos some] at waits ⊢
            exact echoing _ _ _ waits more
          · simp only [if_neg some] at waits ⊢
            exact ih _ _ waits more
        · simp only [if_neg back] at waits ⊢
          by_cases room : accepts c = true ∧ n < len - 1
          · simp only [if_pos room] at waits ⊢
            exact Causal.check (fun after _ => echoing _ after _) waits more
          · simp only [if_neg room] at waits ⊢
            exact ih _ _ waits more

end Lines

namespace Fs

theorem collectLines_eq (line : Buffer 256) (tmp : Buffer tmpSize) (total : Nat) (keys : List UInt8) :
    collectLines line tmp total keys = readline line keys >>= fun typed =>
      inBounds (trimLine typed.buf) >>= fun line =>
      inBounds (kstrcmp line.bytes terminator.memory) >>= fun order =>
      if order = 0 then .ok { tmp, total, keys := typed.keys, screen := .write (ascii "  > ") :: typed.echo }
      else inBounds (kstrlen line.bytes) >>= fun lineLen =>
        if total + lineLen + 1 ≤ tmpSize then
          inBounds (tmp.store total (line.bytes.take lineLen)) >>= fun tmp =>
          inBounds (tmp.store (total + lineLen) [newline]) >>= fun tmp =>
          (collectLines line tmp (total + lineLen + 1) typed.keys).map (·.showing (.write (ascii "  > ") :: typed.echo))
        else (collectLines line tmp total typed.keys).map (·.showing (.write (ascii "  > ") :: typed.echo)) := by
  rw [collectLines]
  split
  · rename_i read
    rw [read]
    rfl
  · rename_i typed read
    rw [read]
    rfl

theorem collectLines_causal (line : Buffer 256) (tmp : Buffer tmpSize) (total : Nat) (keys : List UInt8) :
    Causal .blocked behind Input.behind (collectLines line tmp total) keys := by
  generalize size : keys.length = count
  induction count using Nat.strongRecOn generalizing line tmp total keys with
  | ind count ih =>
      rw [funext (collectLines_eq line tmp total)]
      refine (readlineLoop_causal line 0 keys).bind fun typed read => ?_
      have fewer := (readlineLoop_ok read).1
      have later (line : Buffer 256) (tmp : Buffer tmpSize) (total : Nat) : Causal .blocked behind Input.behind
          (fun keys => (collectLines line tmp total keys).map (·.showing (.write (ascii "  > ") :: typed.echo)))
          typed.keys :=
        (ih _ (size ▸ fewer) line tmp total typed.keys rfl).map fun _ _ => rfl
      apply Typed.causal
      dsimp only
      refine Causal.check fun trimmed _ => Causal.check fun order _ => Causal.guard (fun _ => rfl) fun _ => ?_
      refine Causal.check fun lineLen _ => Causal.branch (fun _ => ?_) fun _ => later _ _ _
      exact Causal.check fun _ _ => Causal.check fun _ _ => later _ _ _

theorem Input.causal {β : Type} {after : List UInt8 → β → β} {next : Input → Except Stop β} {input : Input}
    (reads : Causal .blocked DugOS.behind after (fun keys => next { input with keys }) input.keys) :
    Causal .blocked Input.behind after next input :=
  reads

theorem fsWriteSlot_causal (fs : FileSystem) (idx : FileIndex) (name : CString) (keys : List UInt8) :
    Causal .blocked behind Outcome.behind (fsWriteSlot fs idx name) keys := by
  refine (collectLines_causal _ _ _ keys).bind fun input _ => Input.causal ?_
  dsimp only
  refine Causal.guard (fun _ => rfl) fun _ => ?_
  exact Causal.ok fun _ => rfl

theorem fsWrite_causal (fs : FileSystem) (name dir : CString) (keys : List UInt8) :
    Causal .blocked behind Outcome.behind (fsWrite fs name dir) keys := by
  refine Causal.guard (fun _ => rfl) fun _ => ?_
  cases findFile fs.files name dir with
  | some idx => exact fsWriteSlot_causal _ _ _ keys
  | none =>
      cases findFreeSlot fs.files with
      | none => exact Causal.ok fun _ => rfl
      | some idx => exact Causal.check fun _ _ => Causal.check fun _ _ => fsWriteSlot_causal _ _ _ keys

theorem fsRead_causal (fs : FileSystem) (name dir : CString) (keys : List UInt8) :
    Causal .blocked behind Outcome.behind (fsRead fs name dir) keys := by
  refine Causal.guard (fun _ => rfl) fun _ => ?_
  cases findFile fs.files name dir <;> exact Causal.ok fun _ => rfl

theorem fsEdit_causal (fs : FileSystem) (name dir : CString) (keys : List UInt8) :
    Causal .blocked behind Outcome.behind (fsEdit fs name dir) keys := by
  refine Causal.guard (fun _ => rfl) fun _ => ?_
  cases findFile fs.files name dir with
  | none => exact Causal.ok fun _ => rfl
  | some idx =>
      refine Causal.check fun tmp _ => (collectLines_causal _ _ _ keys).bind fun input _ => Input.causal ?_
      dsimp only
      refine Causal.guard (fun _ => rfl) fun _ => ?_
      exact Causal.ok fun _ => rfl

theorem fsDelete_causal (fs : FileSystem) (name dir : CString) (keys : List UInt8) :
    Causal .blocked behind Outcome.behind (fsDelete fs name dir) keys := by
  refine Causal.guard (fun _ => rfl) fun _ => ?_
  cases findFile fs.files name dir with
  | none => exact Causal.ok fun _ => rfl
  | some idx =>
      refine (readlineLoop_causal _ 0 keys).bind fun typed _ => Typed.causal ?_
      dsimp only
      refine Causal.guard (fun _ => rfl) fun _ => ?_
      exact Causal.check fun _ _ => Causal.ok fun _ => rfl

theorem fsRename_causal (fs : FileSystem) (oldname newname dir : CString) (keys : List UInt8) :
    Causal .blocked behind Outcome.behind (fsRename fs oldname newname dir) keys := by
  refine Causal.guard (fun _ => rfl) fun _ => ?_
  cases findFile fs.files oldname dir with
  | none => exact Causal.ok fun _ => rfl
  | some idx =>
      refine Causal.guard (fun _ => rfl) fun _ => ?_
      exact Causal.check fun _ _ => Causal.ok fun _ => rfl

theorem fsCopy_causal (fs : FileSystem) (src dst dir : CString) (keys : List UInt8) :
    Causal .blocked behind Outcome.behind (fsCopy fs src dst dir) keys := by
  refine Causal.guard (fun _ => rfl) fun _ => ?_
  cases findFile fs.files src dir with
  | none => exact Causal.ok fun _ => rfl
  | some sidx =>
      refine Causal.guard (fun _ => rfl) fun _ => ?_
      cases findFreeSlot fs.files with
      | none => exact Causal.ok fun _ => rfl
      | some didx =>
          refine Causal.check fun tmp _ => Causal.guard (fun _ => rfl) fun _ => ?_
          exact Causal.check fun _ _ => Causal.check fun _ _ => Causal.ok fun _ => rfl

theorem FsOp.run_causal (fs : FileSystem) (op : FsOp) (keys : List UInt8) :
    Causal .blocked behind Outcome.behind (fun keys => op.run fs keys) keys := by
  cases op with
  | write name dir => exact fsWrite_causal fs name dir keys
  | read name dir => exact fsRead_causal fs name dir keys
  | edit name dir => exact fsEdit_causal fs name dir keys
  | delete name dir => exact fsDelete_causal fs name dir keys
  | rename oldname newname dir => exact fsRename_causal fs oldname newname dir keys
  | copy src dst dir => exact fsCopy_causal fs src dst dir keys

end Fs

namespace Dir

theorem dirMkdir_causal (dir : DirState) (name : CString) (keys : List UInt8) :
    Causal .blocked behind DirOutcome.behind (dirMkdir dir name) keys := by
  refine Causal.guard (fun _ => rfl) fun _ => ?_
  refine Causal.guard (fun _ => rfl) fun _ => ?_
  refine Causal.check fun newpath _ => Causal.check fun found _ => Causal.guard (fun _ => rfl) fun _ => ?_
  refine Causal.check fun _ _ => Causal.check fun _ _ => Causal.check fun _ _ => ?_
  exact Causal.ok fun _ => rfl

theorem dirCd_causal (dir : DirState) (target : CString) (keys : List UInt8) :
    Causal .blocked behind DirOutcome.behind (dirCd dir target) keys := by
  refine Causal.guard (fun _ => rfl) fun _ => ?_
  refine Causal.check fun newpath _ => Causal.check fun idx _ => Causal.guard (fun _ => rfl) fun _ => ?_
  exact Causal.check fun _ _ => Causal.ok fun _ => rfl

theorem dirRmdir_causal (dir : DirState) (files : Fs.FileIndex → Fs.FileEntry) (name : CString) (keys : List UInt8) :
    Causal .blocked behind DirOutcome.behind (dirRmdir dir files name) keys := by
  refine Causal.guard (fun _ => rfl) fun _ => ?_
  refine Causal.check fun target _ => Causal.check fun order _ => Causal.guard (fun _ => rfl) fun _ => ?_
  refine Causal.check fun idx _ => Causal.guard (fun _ => rfl) fun _ => Causal.guard (fun _ => rfl) fun _ => ?_
  refine Causal.check fun path _ => Causal.guard (fun _ => rfl) fun _ => ?_
  refine (readlineLoop_causal _ 0 keys).bind fun typed _ => Typed.causal ?_
  dsimp only
  refine Causal.guard (fun _ => rfl) fun _ => ?_
  exact Causal.check fun _ _ => Causal.ok fun _ => rfl

theorem DirOp.run_causal (dir : DirState) (files : Fs.FileIndex → Fs.FileEntry) (op : DirOp) (keys : List UInt8) :
    Causal .blocked behind DirOutcome.behind (fun keys => op.run dir files keys) keys := by
  cases op with
  | mkdir name => exact dirMkdir_causal dir name keys
  | cd target => exact dirCd_causal dir target keys
  | rmdir name => exact dirRmdir_causal dir files name keys

end Dir

namespace Shell

theorem Command.run_causal (state : ShellState) (cmd : CString) (request : Command) (keys : List UInt8) :
    Causal .blocked behind ShellOutcome.behind (fun keys => request.run state cmd keys) keys := by
  cases request with
  | help | clear | whoami | unknown => exact Causal.ok fun _ => rfl
  | shutdown => exact fun _ _ => rfl
  | pwd => exact Causal.check fun _ _ => Causal.ok fun _ => rfl
  | ls => exact Causal.check fun _ _ => Causal.ok fun _ => rfl
  | file op located =>
      refine Causal.check fun row _ => Causal.check fun dir _ => ?_
      exact (Fs.FsOp.run_causal state.fs (op dir) keys).bind fun outcome _ => Causal.ok fun _ => rfl
  | directory op =>
      exact (Dir.DirOp.run_causal state.dir state.fs.files op keys).bind fun outcome _ => Causal.ok fun _ => rfl

theorem shellTurn_causal (prompt : Prompt) : Causal .blocked Prompt.behind Prompt.behind shellTurn prompt := by
  have turn : Causal .blocked behind Prompt.behind (fun keys => shellTurn { prompt with keys }) prompt.keys := by
    simp only [shellTurn]
    refine Causal.check fun shown _ => ?_
    refine (readlineLoop_causal prompt.buf 0 prompt.keys).bind fun typed _ => Typed.causal ?_
    dsimp only
    refine Causal.guard (fun _ => rfl) fun _ => Causal.check fun parsed _ => ?_
    refine Causal.guard (fun _ => rfl) fun _ => Causal.check fun argv _ => ?_
    have dispatched : Causal .blocked behind ShellOutcome.behind
        (fun keys => shellDispatch prompt.state argv keys) typed.keys :=
      Causal.check fun cmd _ => Command.run_causal prompt.state cmd (command cmd argv) typed.keys
    exact dispatched.bind fun outcome _ => Causal.ok fun _ => rfl
  exact turn

variable {prompt next : Prompt}

theorem Turns.behind (turns : Turns prompt next) (more : List UInt8) : Turns (prompt.behind more) (next.behind more) := by
  induction turns with
  | refl => exact .refl
  | tail _ turn ih =>
      refine ih.tail ?_
      rw [shellTurn_causal _ (by simp [turn]) more, turn]
      rfl

theorem shellLoop_turns (turns : Turns prompt next) : shellLoop prompt = shellLoop next := by
  induction turns with
  | refl => rfl
  | tail _ turn ih =>
      rw [ih, shellLoop]
      split
      · rename_i other again
        cases turn.symm.trans again
        rfl
      · rename_i stop failed
        cases turn.symm.trans failed

/-- The shell goes on from its last prompt when more keys come. -/
theorem shellLoop_behind (prompt : Prompt) (more : List UInt8) :
    shellLoop (prompt.behind more) = shellLoop ((shellLoop prompt).1.behind more) :=
  shellLoop_turns ((shellLoop_ends prompt).1.behind more)

/-- A shell that has stopped for another reason than want of keys does not go on. -/
theorem shellLoop_stopped (stopped : (shellLoop prompt).2 ≠ .blocked) (more : List UInt8) :
    shellLoop (prompt.behind more) = ((shellLoop prompt).1.behind more, (shellLoop prompt).2) := by
  have failed := (shellLoop_ends prompt).2
  have again := shellTurn_causal (shellLoop prompt).1 (by simpa [failed] using stopped) more
  rw [failed] at again
  rw [shellLoop_behind, shellLoop]
  split
  · rename_i next turn
    cases again.symm.trans turn
  · rename_i stop fails
    cases again.symm.trans fails
    rfl

open Keyboard Fs Dir

/-- However the interrupts fall between the steps of `kbd_getchar`, the shell is on
the way of the session on all characters that found room in the ring: it has come
to a prompt of that session, and with the characters that still wait for it
it ends as that session does. If no character met a full ring, these are the
characters that the scan codes stand for. -/
theorem timing_does_not_matter {trace : Listening} {final : Listener} (run : Run ListenStep bootListener trace final)
    (state : ShellState) (buf : Buffer cmdLen) :
    ∃ queue, final.kbd.Queue queue ∧
      Turns ⟨state, buf, kept trace, welcome⟩ ((shellRun state buf (received trace)).1.behind queue) ∧
      shellRun state buf (kept trace) = shellLoop ((shellRun state buf (received trace)).1.behind queue) ∧
      ((shellRun state buf (received trace)).2 ≠ .blocked → shellRun state buf (kept trace) =
        ((shellRun state buf (received trace)).1.behind queue, (shellRun state buf (received trace)).2)) ∧
      (kept trace).Sublist (decodeAll bootModifiers (codes trace)).2 ∧
      ((∀ step ∈ trace, step.before.kbd.Full → passed step = none) →
        kept trace = (decodeAll bootModifiers (codes trace)).2) := by
  obtain ⟨queue, heard⟩ := heard_of_run run
  have start : (⟨state, buf, kept trace, welcome⟩ : Prompt) =
      Prompt.behind queue ⟨state, buf, received trace, welcome⟩ := by
    rw [heard.order]
    rfl
  refine ⟨queue, heard.held, ?_, ?_, ?_, ?_, ?_⟩
  · rw [start]
    exact (shellLoop_ends _).1.behind queue
  · rw [shellRun, start]
    exact shellLoop_behind _ queue
  · intro stopped
    rw [shellRun, start]
    exact shellLoop_stopped stopped queue
  · rw [← heard.typed]
    exact kept_sublist trace
  · intro space
    rw [← heard.typed]
    exact kept_all space

/-- The letter that has come too late is still to come for the shell. -/
theorem late_letter_is_typed : ∃ start trace final queue, dirInit bssDirs = .ok start ∧
    Run ListenStep bootListener trace final ∧ final.sleeper = .asleep ∧ final.kbd.Queue queue ∧
    Turns ⟨⟨start, fsInit bss⟩, .zeros cmdLen, [97], welcome⟩
      ((shellRun ⟨start, fsInit bss⟩ (.zeros cmdLen) []).1.behind queue) := by
  obtain ⟨start, init⟩ : ∃ start, dirInit bssDirs = .ok start := ⟨_, rfl⟩
  obtain ⟨trace, final, run, _, sleeps, _, all, none⟩ := late_letter
  obtain ⟨queue, held, turns, _⟩ := timing_does_not_matter run ⟨start, fsInit bss⟩ (.zeros cmdLen)
  rw [all, none] at turns
  exact ⟨start, trace, final, queue, init, run, sleeps, held, turns⟩

end Shell

end DugOS
