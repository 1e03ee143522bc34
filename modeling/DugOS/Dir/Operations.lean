import DugOS.Fs.Operations

namespace DugOS.Dir

open Data Fs

/-! The directory table of `dir.c` and the commands on it. -/

abbrev dirNameLen : Nat := 64
abbrev dirMax : Nat := 32

abbrev slash : UInt8 := 47

/-- The string `"/"`, as it lies in memory. -/
abbrev rootMemory : List UInt8 := [slash, 0]

/-- The string `".."`. -/
def dotDot : CString :=
  ⟨[46, 46], by decide⟩

structure DirState where
  dirs : Fin dirMax → Buffer dirNameLen
  dirCount : Nat
  cwdIdx : Nat

namespace DirState

/-- `dirs[i]`. Reading a row past its 64 bytes counts as leaving it, although
the rows of the table lie behind one another. -/
def row (dir : DirState) (i : Nat) : Except Stop (Buffer dirNameLen) :=
  if inside : i < dirMax then .ok (dir.dirs ⟨i, inside⟩) else .error .outOfBounds

def setRow (dir : DirState) (i : Nat) (row : Buffer dirNameLen) : Except Stop DirState :=
  if inside : i < dirMax then .ok { dir with dirs := Function.update dir.dirs ⟨i, inside⟩ row }
  else .error .outOfBounds

end DirState

/-- The string a buffer holds, for the functions that take one. -/
def asString {size : Nat} (buf : Buffer size) : Except Stop CString :=
  if 0 ∈ buf.bytes then .ok ⟨cstr buf.bytes, cstr_noNul⟩ else .error .outOfBounds

section Helpers

/-- The loop of `find_dir` from row `i` on, with `n` rows to go. -/
def findDirLoop (dir : DirState) (path : List UInt8) (i : Nat) : Nat → Except Stop Nat
  | 0 => .ok dirMax
  | n + 1 => do
      let row ← dir.row i
      let order ← inBounds (kstrcmp row.bytes path)
      if order = 0 then return i else findDirLoop dir path (i + 1) n

def findDir (dir : DirState) (path : List UInt8) : Except Stop Nat :=
  findDirLoop dir path 0 dir.dirCount

def buildPath (dir : DirState) (out : Buffer dirNameLen) (name : CString) :
    Except Stop (Buffer dirNameLen) :=
  if name.memory.head? = some slash then do
    let out ← inBounds (kstrncpy out 0 name.memory dirNameLen)
    let len ← inBounds (kstrlen out.bytes)
    if 1 < len ∧ out.bytes[len - 1]? = some slash then inBounds (out.store (len - 1) [0]) else return out
  else do
    let cwd ← dir.row dir.cwdIdx
    let out ← inBounds (kstrncpy out 0 cwd.bytes dirNameLen)
    let order ← inBounds (kstrcmp cwd.bytes rootMemory)
    let out ← if order = 0 then pure out else do
      let clen ← inBounds (kstrlen out.bytes)
      -- the separator is left out when it would take the last free byte
      if clen < dirNameLen - 2 then inBounds (out.store clen [slash, 0]) else pure out
    let off ← inBounds (kstrlen out.bytes)
    inBounds (kstrncpy out off name.memory (dirNameLen - off))

/-- `while (len > 0 && out[len - 1] != '/') len--`. -/
def walkBack (bytes : List UInt8) : Nat → Nat
  | 0 => 0
  | len + 1 => if bytes[len]? = some slash then len + 1 else walkBack bytes len

def parentPath (out : Buffer dirNameLen) (path : List UInt8) : Except Stop (Buffer dirNameLen) := do
  let order ← inBounds (kstrcmp path rootMemory)
  if order = 0 then inBounds (out.store 0 rootMemory)
  else
    let out ← inBounds (kstrncpy out 0 path dirNameLen)
    let len ← inBounds (kstrlen out.bytes)
    let len := walkBack out.bytes len
    if len ≤ 1 then inBounds (out.store 0 rootMemory) else inBounds (out.store (len - 1) [0])

/-- `while (*rest) { if (*rest == '/') return 0; rest++; }`. -/
def noSlash : List UInt8 → Option Bool
  | [] => none
  | c :: rest => if c = 0 then some true else if c = slash then some false else noSlash rest

def isImmediateChild (child parent : List UInt8) : Option Bool := do
  let order ← kstrcmp parent rootMemory
  if order = 0 then
    let first ← child[0]?
    if first ≠ slash then return false
    let rest ← child[1]?
    if rest = 0 then return false
    noSlash (child.drop 1)
  else
    let plen ← kstrlen parent
    let same ← kstrncmp child parent plen
    if same ≠ 0 then return false
    let separator ← child[plen]?
    if separator ≠ slash then return false
    let clean ← noSlash (child.drop (plen + 1))
    let rest ← child[plen + 1]?
    return clean && rest ≠ 0

/-- `readline` of `dir.c`, the same loop as that of `fs.c`. -/
def readline {len : Nat} (buf : Buffer len) (keys : List UInt8) : Except Stop (Typed len) :=
  readlineLoop (fun _ => true) buf 0 keys

end Helpers

/-- How a command ended, as far as its last message tells. -/
inductive DirReport where
  | usage | tableFull | alreadyExists | notFound | isRoot | isCwd | notEmpty | cancelled | done
deriving DecidableEq, Repr

structure DirOutcome where
  dir : DirState
  report : DirReport
  keys : List UInt8
  screen : List VgaCall

def dirInit (dir : DirState) : Except Stop DirState := do
  let row ← dir.row 0
  let row ← inBounds (row.store 0 rootMemory)
  let dir ← dir.setRow 0 row
  return { dir with dirCount := 1, cwdIdx := 0 }

def dirGetcwd (dir : DirState) : Except Stop (Buffer dirNameLen) :=
  dir.row dir.cwdIdx

def dirMkdir (dir : DirState) (name : CString) (keys : List UInt8) : Except Stop DirOutcome := do
  if kstrlen name.memory = some 0 then
    return { dir, report := .usage, keys,
             screen := failing [.writeln (ascii "  [mkdir] Error: usage: mkdir <dirname>")] }
  if dirMax ≤ dir.dirCount then
    return { dir, report := .tableFull, keys,
             screen := failing [.writeln (ascii "  [mkdir] Error: maximum number of directories reached")] }
  let newpath ← buildPath dir (.zeros dirNameLen) name
  let found ← findDir dir newpath.bytes
  if found < dirMax then
    return { dir, report := .alreadyExists, keys,
             screen := failing [.write (ascii "  [mkdir] Error: directory already exists: "),
               .writeln newpath.bytes] }
  let old ← dir.row dir.dirCount
  let row ← inBounds (kstrncpy old 0 newpath.bytes dirNameLen)
  let dir ← dir.setRow dir.dirCount row
  return {
    dir := { dir with dirCount := dir.dirCount + 1 }
    report := .done
    keys
    screen := colored .lightGreen [.write (ascii "  [mkdir] Directory '"), .write newpath.bytes,
      .writeln (ascii "' created.")] }

/-- The path that `dir_cd` looks up. -/
def cdPath (dir : DirState) (target : CString) : Except Stop (Buffer dirNameLen) :=
  if kstrcmp target.memory dotDot.memory = some 0 then do
    let cwd ← dir.row dir.cwdIdx
    parentPath (.zeros dirNameLen) cwd.bytes
  else if kstrcmp target.memory rootMemory = some 0 then
    inBounds ((Buffer.zeros dirNameLen).store 0 rootMemory)
  else buildPath dir (.zeros dirNameLen) target

def dirCd (dir : DirState) (target : CString) (keys : List UInt8) : Except Stop DirOutcome := do
  if kstrlen target.memory = some 0 then
    return { dir, report := .usage, keys,
             screen := failing [.writeln (ascii "  [cd] Error: usage: cd <dirname>")] }
  let newpath ← cdPath dir target
  let idx ← findDir dir newpath.bytes
  if idx = dirMax then
    return { dir, report := .notFound, keys,
             screen := failing [.write (ascii "  [cd] Error: directory not found: "), .writeln newpath.bytes] }
  let row ← dir.row idx
  return {
    dir := { dir with cwdIdx := idx }
    report := .done
    keys
    screen := colored .lightGreen [.write (ascii "  [cd] Now in: "), .writeln row.bytes] }

/-- The loop that moves the rows behind `i` up by one, with `n` rows to go. -/
def compactLoop (dir : DirState) (i : Nat) : Nat → Except Stop DirState
  | 0 => .ok dir
  | n + 1 => do
      let next ← dir.row (i + 1)
      let old ← dir.row i
      let row ← inBounds (kstrncpy old 0 next.bytes dirNameLen)
      let dir ← dir.setRow i row
      compactLoop dir (i + 1) n

/-- The removal of row `idx`, after the user has agreed. -/
def removeRow (dir : DirState) (idx : Nat) : Except Stop DirState := do
  let dir ← compactLoop dir idx (dir.dirCount - 1 - idx)
  let last ← dir.row (dir.dirCount - 1)
  let cleared ← inBounds (last.store 0 [0])
  let dir ← dir.setRow (dir.dirCount - 1) cleared
  return { dir with dirCount := dir.dirCount - 1,
                    cwdIdx := if idx < dir.cwdIdx then dir.cwdIdx - 1 else dir.cwdIdx }

def dirRmdir (dir : DirState) (files : FileIndex → FileEntry) (name : CString) (keys : List UInt8) :
    Except Stop DirOutcome := do
  if kstrlen name.memory = some 0 then
    return { dir, report := .usage, keys,
             screen := failing [.writeln (ascii "  [rmdir] Error: usage: rmdir <dirname>")] }
  let target ← buildPath dir (.zeros dirNameLen) name
  let order ← inBounds (kstrcmp target.bytes rootMemory)
  if order = 0 then
    return { dir, report := .isRoot, keys,
             screen := failing [.writeln (ascii "  [rmdir] Error: cannot remove root directory")] }
  let idx ← findDir dir target.bytes
  if idx = dirMax then
    return { dir, report := .notFound, keys,
             screen := failing [.write (ascii "  [rmdir] Error: directory not found: "), .writeln target.bytes] }
  if idx = dir.cwdIdx then
    return { dir, report := .isCwd, keys,
             screen := failing [.writeln (ascii "  [rmdir] Error: cannot remove current working directory")] }
  let path ← asString target
  if !fsDirEmpty files path then
    return { dir, report := .notEmpty, keys,
             screen := failing [.write (ascii "  [rmdir] Error: directory is not empty: "), .writeln target.bytes] }
  let typed ← readline (.zeros 4) keys
  let shown := .write (ascii "  Delete directory '") :: .write target.bytes :: .write (ascii "'? (y/n): ") ::
    typed.echo
  if !confirmed typed.buf then
    return { dir, report := .cancelled, keys := typed.keys,
             screen := shown ++ [.writeln (ascii "  [rmdir] Cancelled.")] }
  let dir ← removeRow dir idx
  return {
    dir
    report := .done
    keys := typed.keys
    screen := shown ++ colored .lightGreen
      [.write (ascii "  [rmdir] '"), .write target.bytes, .writeln (ascii "' removed.")] }

/-- The loop of `dir_ls` from row `i` on, with `n` rows to go. -/
def lsLoop (dir : DirState) (cwd : List UInt8) (i : Nat) : Nat → Except Stop (List VgaCall)
  | 0 => .ok []
  | n + 1 => do
      let row ← dir.row i
      let child ← inBounds (isImmediateChild row.bytes cwd)
      let rest ← lsLoop dir cwd (i + 1) n
      return (if child then [.write (ascii "  [DIR]  "), .writeln row.bytes] else []) ++ rest

def dirLs (dir : DirState) (fs : FileSystem) : Except Stop (List VgaCall) := do
  let row ← dir.row dir.cwdIdx
  let listed ← lsLoop dir row.bytes 0 dir.dirCount
  let cwd ← asString row
  return [.setColor .lightCyan .black, .write (ascii "  Directory listing: "), .writeln row.bytes,
    .writeln [], .setColor .white .black] ++ listed ++ fsList fs cwd

/-- A directory command with its argument. -/
inductive DirOp where
  | mkdir (name : CString)
  | cd (target : CString)
  | rmdir (name : CString)

def DirOp.run (dir : DirState) (files : FileIndex → FileEntry) (keys : List UInt8) : DirOp → Except Stop DirOutcome
  | .mkdir name => dirMkdir dir name keys
  | .cd target => dirCd dir target keys
  | .rmdir name => dirRmdir dir files name keys

end DugOS.Dir
