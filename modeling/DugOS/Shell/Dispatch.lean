import DugOS.Dir.Paths

namespace DugOS.Shell

open Data Fs Dir

/-! `shell_dispatch` of `shell.c`, on a line that is already split into tokens.

The first token chooses a command, and the command runs to its end on the keys
typed meanwhile. `shutdown` does not come back.
-/

/-- The static data of `dir.c` and of `fs.c`. -/
structure ShellState where
  dir : DirState
  fs : FileSystem

structure ShellOutcome where
  state : ShellState
  keys : List UInt8
  screen : List VgaCall

/-- What the first token asks for. A command on files is still to be given the
working directory, and works there. -/
inductive Command where
  | help | clear | pwd | whoami | shutdown
  | file (op : CString → FsOp) (located : ∀ cwd, (op cwd).dir = cwd)
  | directory (op : DirOp)
  | ls
  | unknown

/-- `kstrcmp(cmd, "...") == 0`. -/
def isWord (cmd : CString) (word : String) : Bool :=
  kstrcmp cmd.memory (ascii word ++ [0]) == some 0

def emptyString : CString :=
  ⟨[], by simp⟩

def rootString : CString :=
  ⟨rootPath, by decide⟩

/-- `argc > i ? argv[i] : (char *)""`. -/
def argument (argv : List CString) (i : Nat) : CString :=
  argv[i]?.getD emptyString

def command (cmd : CString) (argv : List CString) : Command :=
  if isWord cmd "help" then .help
  else if isWord cmd "clear" || isWord cmd "cls" then .clear
  else if isWord cmd "pwd" then .pwd
  else if isWord cmd "whoami" then .whoami
  else if isWord cmd "shutdown" then .shutdown
  else if isWord cmd "fwrite" then .file (.write (argument argv 1)) fun _ => rfl
  else if isWord cmd "fread" || isWord cmd "cat" then .file (.read (argument argv 1)) fun _ => rfl
  else if isWord cmd "fedit" then .file (.edit (argument argv 1)) fun _ => rfl
  else if isWord cmd "fdel" then .file (.delete (argument argv 1)) fun _ => rfl
  else if isWord cmd "rename" then .file (.rename (argument argv 1) (argument argv 2)) fun _ => rfl
  else if isWord cmd "copy" then .file (.copy (argument argv 1) (argument argv 2)) fun _ => rfl
  else if isWord cmd "mkdir" then .directory (.mkdir (argument argv 1))
  else if isWord cmd "cd" then .directory (.cd (argv[1]?.getD rootString))
  else if isWord cmd "rmdir" then .directory (.rmdir (argument argv 1))
  else if isWord cmd "ls" || isWord cmd "dir" then .ls
  else .unknown

def cmdHelp : List VgaCall :=
  [.writeln [], .setColor .lightCyan .black,
    .writeln (ascii "  +------------------------------------------------------------+"),
    .writeln (ascii "  |          DugOS v1.0  --  Command Reference                 |"),
    .writeln (ascii "  +------------------------------------------------------------+"),
    .setColor .white .black, .writeln [],
    .writeln (ascii "  [ General ]"),
    .writeln (ascii "    help                  Show this help screen"),
    .writeln (ascii "    cls / clear           Clear the screen"),
    .writeln (ascii "    pwd                   Print current directory"),
    .writeln (ascii "    whoami                Show current user"),
    .writeln (ascii "    shutdown              Shut down DugOS"),
    .writeln [],
    .writeln (ascii "  [ File Operations ]"),
    .writeln (ascii "    fwrite <file>         Create or overwrite a file"),
    .writeln (ascii "    fread  <file>         Read and display a file"),
    .writeln (ascii "    cat    <file>         Same as fread"),
    .writeln (ascii "    fedit  <file>         Append content to a file"),
    .writeln (ascii "    fdel   <file>         Delete a file"),
    .writeln (ascii "    rename <old> <new>    Rename a file"),
    .writeln (ascii "    copy   <src> <dst>    Copy a file"),
    .writeln [],
    .writeln (ascii "  [ Directory Operations ]"),
    .writeln (ascii "    mkdir  <dir>          Create a directory"),
    .writeln (ascii "    cd     <dir>          Change directory (use '..' for parent)"),
    .writeln (ascii "    rmdir  <dir>          Delete an empty directory"),
    .writeln (ascii "    ls / dir              List current directory"),
    .writeln [], .setColor .lightCyan .black,
    .writeln (ascii "  +------------------------------------------------------------+"),
    .setColor .white .black, .writeln []]

def Command.run (state : ShellState) (cmd : CString) (keys : List UInt8) : Command → Except Stop ShellOutcome
  | .help => return { state, keys, screen := cmdHelp }
  | .clear => return { state, keys, screen := [.clear] }
  | .pwd => do
      let cwd ← dirGetcwd state.dir
      return { state, keys, screen := [.write (ascii "  "), .writeln cwd.bytes] }
  | .whoami => return { state, keys, screen := [.writeln (ascii "  dug")] }
  | .shutdown => .error .halted
  | .file op _ => do
      let cwd ← dirGetcwd state.dir
      let dir ← asString cwd
      let outcome ← (op dir).run state.fs keys
      return { state := { state with fs := outcome.fs }, keys := outcome.keys, screen := outcome.screen }
  | .directory op => do
      let outcome ← op.run state.dir state.fs.files keys
      return { state := { state with dir := outcome.dir }, keys := outcome.keys, screen := outcome.screen }
  | .ls => do
      let screen ← dirLs state.dir state.fs
      return { state, keys, screen }
  | .unknown => return {
      state, keys,
      screen := failing [.write (ascii "  Unknown command: '"), .write cmd.memory,
        .writeln (ascii "'  (type 'help' for a list)")] }

/-- `shell_run` calls it with at least one token. -/
def shellDispatch (state : ShellState) (argv : List CString) (keys : List UInt8) : Except Stop ShellOutcome := do
  let cmd ← inBounds argv[0]?
  (command cmd argv).run state cmd keys

/-- What a completed command can have done: nothing to the tables, a command on
the files of the working directory, or a command on directories. -/
theorem Command.run_cases {state : ShellState} {cmd : CString} {keys : List UInt8} {outcome : ShellOutcome}
    {request : Command} (run : request.run state cmd keys = .ok outcome) :
    outcome.state = state ∨
      (∃ op row result, state.dir.row state.dir.cwdIdx = .ok row ∧ asString row = .ok (FsOp.dir op) ∧
        op.run state.fs keys = .ok result ∧ outcome.state = { state with fs := result.fs }) ∨
      ∃ op result, request = .directory op ∧ op.run state.dir state.fs.files keys = .ok result ∧
        outcome.state = { state with dir := result.dir } := by
  cases request with
  | help | clear | whoami | unknown =>
      cases run
      exact .inl rfl
  | shutdown => cases run
  | pwd =>
      obtain ⟨cwd, _, run⟩ := bind_eq_ok.mp run
      cases run
      exact .inl rfl
  | ls =>
      obtain ⟨screen, _, run⟩ := bind_eq_ok.mp run
      cases run
      exact .inl rfl
  | file op located =>
      obtain ⟨row, found, run⟩ := bind_eq_ok.mp run
      obtain ⟨dir, read, run⟩ := bind_eq_ok.mp run
      obtain ⟨result, ran, run⟩ := bind_eq_ok.mp run
      cases run
      exact .inr (.inl ⟨op dir, row, result, found, by rw [located, read], ran, rfl⟩)
  | directory op =>
      obtain ⟨result, ran, run⟩ := bind_eq_ok.mp run
      cases run
      exact .inr (.inr ⟨op, result, rfl, ran, rfl⟩)

end DugOS.Shell
