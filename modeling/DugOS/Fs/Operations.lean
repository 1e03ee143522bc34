import DugOS.Fs.Input

namespace DugOS.Fs

open Data

/-! The commands of `fs.c`, run to their end on the keys typed meanwhile. -/

/-- How a command ended, as far as its last message tells. -/
inductive Report where
  | usage | notFound | alreadyExists | directoryFull | diskFull | cancelled | done
deriving DecidableEq, Repr

structure Outcome where
  fs : FileSystem
  report : Report
  keys : List UInt8
  screen : List VgaCall

def colored (color : VgaColor) (calls : List VgaCall) : List VgaCall :=
  .setColor color .black :: calls ++ [.setColor .white .black]

def failing (calls : List VgaCall) : List VgaCall :=
  colored .lightRed calls

/-- `(total == 0) ? FAT_END : write_to_blocks(tmp, total)`. -/
def storeTotal (disk : Disk) (tmp : Buffer tmpSize) (total : Nat) : Disk × Nat :=
  if total = 0 then (disk, fatEnd) else writeToBlocks disk (tmp.bytes.take total)

def setEntry (fs : FileSystem) (idx : FileIndex) (entry : FileEntry) : FileSystem :=
  { fs with files := Function.update fs.files idx entry }

/-- `kstrncpy` of a string into a field of a file entry. -/
def setField {size : Nat} (field : Buffer size) (text : CString) : Except Stop (Buffer size) :=
  inBounds (kstrncpy field 0 text.memory size)

/-- `fs_write` from the input loop on, with its slot chosen. -/
def fsWriteSlot (fs : FileSystem) (idx : FileIndex) (name : CString) (keys : List UInt8) :
    Except Stop Outcome := do
  let input ← collectLines (.zeros 256) fs.writeTmp 0 keys
  let shown := .setColor .white .black ::
    .writeln (ascii "  Enter content. Type a single '.' on a new line to finish:") :: input.screen
  let fs := { fs with writeTmp := input.tmp }
  let (disk, first) := storeTotal fs.toDisk input.tmp input.total
  let fs := { fs with toDisk := disk }
  if first = fsNBlocks then
    return {
      fs := setEntry fs idx { fs.files idx with used := false }
      report := .diskFull
      keys := input.keys
      screen := shown ++ failing [.writeln (ascii "  [fwrite] Error: disk full -- not enough free blocks")] }
  return {
    fs := setEntry fs idx { fs.files idx with firstBlock := first, size := input.total }
    report := .done
    keys := input.keys
    screen := shown ++ colored .lightGreen
      [.write (ascii "  [fwrite] '"), .write name.memory, .writeln (ascii "' written successfully.")] }

def fsWrite (fs : FileSystem) (name dir : CString) (keys : List UInt8) : Except Stop Outcome := do
  if kstrlen name.memory = some 0 then
    return { fs, report := .usage, keys,
             screen := failing [.writeln (ascii "  [fwrite] Error: usage: fwrite <filename>")] }
  match findFile fs.files name dir with
  | some idx =>
      -- the old chain is given up before the new content is known to fit
      let entry := fs.files idx
      let fs := { fs with fat := freeChain fs.fat entry.firstBlock }
      fsWriteSlot (setEntry fs idx { entry with firstBlock := fatEnd, size := 0 }) idx name keys
  | none =>
      match findFreeSlot fs.files with
      | none =>
          return { fs, report := .directoryFull, keys,
                   screen := failing [.writeln (ascii "  [fwrite] Error: directory is full (max 32 files)")] }
      | some idx =>
          let entry := fs.files idx
          let nameField ← setField entry.name name
          let dirField ← setField entry.dir dir
          fsWriteSlot (setEntry fs idx { entry with name := nameField, dir := dirField, used := true })
            idx name keys

def fsRead (fs : FileSystem) (name dir : CString) (keys : List UInt8) : Except Stop Outcome := do
  if kstrlen name.memory = some 0 then
    return { fs, report := .usage, keys,
             screen := failing [.writeln (ascii "  [fread] Error: usage: fread <filename>")] }
  match findFile fs.files name dir with
  | none =>
      return { fs, report := .notFound, keys,
               screen := failing [.write (ascii "  [fread] Error: file not found: "), .writeln name.memory] }
  | some idx =>
      let blk := (fs.files idx).firstBlock
      let left := (fs.files idx).size
      let body := if blk = fatEnd ∨ left = 0 then [.writeln (ascii "  (empty file)")]
        else .write (ascii "  ") :: emitChain fs.toDisk blk left ++ [.putchar newline]
      return { fs, report := .done, keys,
               screen := colored .lightCyan
                   [.write (ascii "  ---- "), .write name.memory, .writeln (ascii " ----")] ++
                 body ++ colored .lightCyan [.writeln (ascii "  ---- EOF ----")] }

def fsEdit (fs : FileSystem) (name dir : CString) (keys : List UInt8) : Except Stop Outcome := do
  if kstrlen name.memory = some 0 then
    return { fs, report := .usage, keys,
             screen := failing [.writeln (ascii "  [fedit] Error: usage: fedit <filename>")] }
  match findFile fs.files name dir with
  | none =>
      return { fs, report := .notFound, keys,
               screen := failing [.write (ascii "  [fedit] Error: file not found: "), .writeln name.memory,
                 .writeln (ascii "  Use fwrite to create it first.")] }
  | some idx =>
      let entry := fs.files idx
      let tmp ← inBounds (copyChain fs.toDisk fs.editTmp 0 entry.firstBlock entry.size)
      let input ← collectLines (.zeros 256) tmp entry.size keys
      let shown := .setColor .white .black :: .write (ascii "  Appending to '") :: .write name.memory ::
        .writeln (ascii "'. Type '.' to finish:") :: input.screen
      let fs := { fs with editTmp := input.tmp, fat := freeChain fs.fat entry.firstBlock }
      let (disk, first) := storeTotal fs.toDisk input.tmp input.total
      let fs := { fs with toDisk := disk }
      if first = fsNBlocks then
        return {
          fs := setEntry fs idx { entry with firstBlock := fatEnd, size := 0 }
          report := .diskFull
          keys := input.keys
          screen := shown ++ failing [.writeln (ascii "  [fedit] Error: disk full")] }
      return {
        fs := setEntry fs idx { entry with firstBlock := first, size := input.total }
        report := .done
        keys := input.keys
        screen := shown ++ colored .lightGreen
          [.write (ascii "  [fedit] '"), .write name.memory, .writeln (ascii "' updated successfully.")] }

/-- `ans[0] != 'y' && ans[0] != 'Y'` fails. -/
def confirmed {len : Nat} (ans : Buffer len) : Bool :=
  ans.bytes.head? = some 121 ∨ ans.bytes.head? = some 89

def fsDelete (fs : FileSystem) (name dir : CString) (keys : List UInt8) : Except Stop Outcome := do
  if kstrlen name.memory = some 0 then
    return { fs, report := .usage, keys,
             screen := failing [.writeln (ascii "  [fdel] Error: usage: fdel <filename>")] }
  match findFile fs.files name dir with
  | none =>
      return { fs, report := .notFound, keys,
               screen := failing [.write (ascii "  [fdel] Error: file not found: "), .writeln name.memory] }
  | some idx =>
      let typed ← readline (.zeros 4) keys
      let shown := .write (ascii "  Delete '") :: .write name.memory :: .write (ascii "'? (y/n): ") ::
        typed.echo
      if !confirmed typed.buf then
        return { fs, report := .cancelled, keys := typed.keys,
                 screen := shown ++ [.writeln (ascii "  [fdel] Cancelled.")] }
      let entry := fs.files idx
      let cleared ← inBounds (entry.name.store 0 [0])
      let fs := { fs with fat := freeChain fs.fat entry.firstBlock }
      return {
        fs := setEntry fs idx { entry with used := false, size := 0, firstBlock := fatEnd, name := cleared }
        report := .done
        keys := typed.keys
        screen := shown ++ colored .lightGreen
          [.write (ascii "  [fdel] '"), .write name.memory, .writeln (ascii "' deleted.")] }

def fsRename (fs : FileSystem) (oldname newname dir : CString) (keys : List UInt8) :
    Except Stop Outcome := do
  if kstrlen oldname.memory = some 0 ∨ kstrlen newname.memory = some 0 then
    return { fs, report := .usage, keys,
             screen := failing [.writeln (ascii "  [rename] Error: usage: rename <old> <new>")] }
  match findFile fs.files oldname dir with
  | none =>
      return { fs, report := .notFound, keys,
               screen := failing [.write (ascii "  [rename] Error: file not found: "), .writeln oldname.memory] }
  | some idx =>
      if (findFile fs.files newname dir).isSome then
        return { fs, report := .alreadyExists, keys,
                 screen := failing [.write (ascii "  [rename] Error: '"), .write newname.memory,
                   .writeln (ascii "' already exists")] }
      let entry := fs.files idx
      let nameField ← setField entry.name newname
      return {
        fs := setEntry fs idx { entry with name := nameField }
        report := .done
        keys
        screen := colored .lightGreen [.write (ascii "  [rename] '"), .write oldname.memory,
          .write (ascii "' -> '"), .write newname.memory, .writeln (ascii "'")] }

def fsCopy (fs : FileSystem) (src dst dir : CString) (keys : List UInt8) : Except Stop Outcome := do
  if kstrlen src.memory = some 0 ∨ kstrlen dst.memory = some 0 then
    return { fs, report := .usage, keys,
             screen := failing [.writeln (ascii "  [copy] Error: usage: copy <source> <destination>")] }
  match findFile fs.files src dir with
  | none =>
      return { fs, report := .notFound, keys,
               screen := failing [.write (ascii "  [copy] Error: source not found: "), .writeln src.memory] }
  | some sidx =>
      if (findFile fs.files dst dir).isSome then
        return { fs, report := .alreadyExists, keys,
                 screen := failing [.write (ascii "  [copy] Error: destination already exists: "),
                   .writeln dst.memory] }
      match findFreeSlot fs.files with
      | none =>
          return { fs, report := .directoryFull, keys,
                   screen := failing [.writeln (ascii "  [copy] Error: directory full")] }
      | some didx =>
          let source := fs.files sidx
          let entry := fs.files didx
          let tmp ← inBounds (copyChain fs.toDisk fs.copyTmp 0 source.firstBlock source.size)
          let (disk, first) := storeTotal fs.toDisk tmp source.size
          let fs := { fs with copyTmp := tmp, toDisk := disk }
          if first = fsNBlocks then
            return { fs, report := .diskFull, keys,
                     screen := failing [.writeln (ascii "  [copy] Error: disk full")] }
          let nameField ← setField entry.name dst
          let dirField ← setField entry.dir dir
          return {
            fs := setEntry fs didx { name := nameField, dir := dirField, firstBlock := first,
                                     size := source.size, used := true }
            report := .done
            keys
            screen := colored .lightGreen [.write (ascii "  [copy] '"), .write src.memory,
              .write (ascii "' -> '"), .write dst.memory, .writeln (ascii "'")] }

def fsList (fs : FileSystem) (dir : CString) : List VgaCall :=
  let shown := (List.finRange fsMaxFiles).filter fun i =>
    (fs.files i).used && kstrcmp ((fs.files i).memory.drop fsNameLen) dir.memory == some 0
  if shown = [] then [.writeln (ascii "  (no files in this directory)")]
  else shown.flatMap fun i => [.write (ascii "  "), .write (fs.files i).memory, .write (ascii "  ("),
    .writeDec (fs.files i).size, .writeln (ascii " bytes)")]

/-- A command with its arguments. -/
inductive FsOp where
  | write (name dir : CString)
  | read (name dir : CString)
  | edit (name dir : CString)
  | delete (name dir : CString)
  | rename (oldname newname dir : CString)
  | copy (src dst dir : CString)

/-- The directory it works in. -/
def FsOp.dir : FsOp → CString
  | .write _ dir => dir
  | .read _ dir => dir
  | .edit _ dir => dir
  | .delete _ dir => dir
  | .rename _ _ dir => dir
  | .copy _ _ dir => dir

def FsOp.run (fs : FileSystem) (keys : List UInt8) : FsOp → Except Stop Outcome
  | .write name dir => fsWrite fs name dir keys
  | .read name dir => fsRead fs name dir keys
  | .edit name dir => fsEdit fs name dir keys
  | .delete name dir => fsDelete fs name dir keys
  | .rename oldname newname dir => fsRename fs oldname newname dir keys
  | .copy src dst dir => fsCopy fs src dst dir keys

end DugOS.Fs
