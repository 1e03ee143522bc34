import DugOS.Fs.Operations
import DugOS.Fs.Writing

namespace DugOS.Fs

open Data

/-! Everything a completed command can have done to the disk and the file
table. The static buffers are left out: no command reads what an earlier one
left in them. -/

def field {size : Nat} (text : CString) : Buffer size :=
  ⟨padded size text.chars, padded_length⟩

/-- The disk after `free_chain` on the chain of an entry. -/
def released (fs : FileSystem) (idx : FileIndex) : Disk :=
  { fs.toDisk with fat := freeChain fs.fat (fs.files idx).firstBlock }

/-- The `total` bytes of the buffer. -/
def Input.bytes (input : Input) : List UInt8 :=
  input.tmp.bytes.take input.total

/-- What the input loop put behind the first `start` bytes. -/
def Input.accumulated (input : Input) (start : Nat) : List UInt8 :=
  input.bytes.drop start

/-- The command gets as far as releasing the chain of the entry `idx`. -/
def FsOp.Releases (fs : FileSystem) (keys : List UInt8) : FsOp → FileIndex → Prop
  | .write name dir, idx => name.chars ≠ [] ∧ findFile fs.files name dir = some idx
  | .edit name dir, idx => name.chars ≠ [] ∧ findFile fs.files name dir = some idx
  | .delete name dir, idx => name.chars ≠ [] ∧ findFile fs.files name dir = some idx ∧
      ∃ typed, readline (.zeros 4) keys = .ok typed ∧ confirmed typed.buf = true
  | _, _ => False

/-- The command finds what it works on: a name, the file, a name that is not taken
and an entry for a file that it makes, and the consent of the user. -/
def FsOp.Proceeds (fs : FileSystem) (keys : List UInt8) : FsOp → Prop
  | .write name dir => name.chars ≠ [] ∧
      ((∃ idx, findFile fs.files name dir = some idx) ∨ ∃ slot, findFreeSlot fs.files = some slot)
  | .read name dir => name.chars ≠ [] ∧ ∃ idx, findFile fs.files name dir = some idx
  | .edit name dir => name.chars ≠ [] ∧ ∃ idx, findFile fs.files name dir = some idx
  | .delete name dir => name.chars ≠ [] ∧ (∃ idx, findFile fs.files name dir = some idx) ∧
      ∃ typed, readline (.zeros 4) keys = .ok typed ∧ confirmed typed.buf = true
  | .rename oldname newname dir => (oldname.chars ≠ [] ∧ newname.chars ≠ []) ∧
      (∃ idx, findFile fs.files oldname dir = some idx) ∧ findFile fs.files newname dir = none
  | .copy src dst dir => (src.chars ≠ [] ∧ dst.chars ≠ []) ∧ (∃ idx, findFile fs.files src dir = some idx) ∧
      findFile fs.files dst dir = none ∧ ∃ slot, findFreeSlot fs.files = some slot

/-- The blocks that are free once the command has released the old content. -/
def FsOp.available (fs : FileSystem) : FsOp → Nat
  | .write name dir => (freeBlocks ((findFile fs.files name dir).elim fs.toDisk (released fs)).fat).card
  | .edit name dir => (freeBlocks ((findFile fs.files name dir).elim fs.toDisk (released fs)).fat).card
  | _ => (freeBlocks fs.fat).card

inductive Effect (fs : FileSystem) (keys : List UInt8) : FsOp → Report → FileSystem → Prop
  | refused {op report after} (idle : ¬ op.Proceeds fs keys) (failed : report ≠ .done) (notFull : report ≠ .diskFull)
      (disk : after.toDisk = fs.toDisk) (files : after.files = fs.files) :
      Effect fs keys op report after
  | printed {name dir idx after} (nonempty : name.chars ≠ []) (found : findFile fs.files name dir = some idx)
      (disk : after.toDisk = fs.toDisk) (files : after.files = fs.files) :
      Effect fs keys (.read name dir) .done after
  | overwritten {name dir idx input after first chain} (nonempty : name.chars ≠ [])
      (found : findFile fs.files name dir = some idx)
      (collected : collectLines (.zeros 256) fs.writeTmp 0 keys = .ok input)
      (stored : Stored (released fs idx) input.bytes after.toDisk first chain)
      (files : after.files = Function.update fs.files idx
        { fs.files idx with firstBlock := first, size := input.total }) :
      Effect fs keys (.write name dir) .done after
  | overwriteFailed {name dir idx input after} (nonempty : name.chars ≠ [])
      (found : findFile fs.files name dir = some idx)
      (collected : collectLines (.zeros 256) fs.writeTmp 0 keys = .ok input)
      (exhausted : Exhausted (released fs idx) input.bytes after.toDisk)
      (files : after.files = Function.update fs.files idx
        { fs.files idx with firstBlock := fatEnd, size := 0, used := false }) :
      Effect fs keys (.write name dir) .diskFull after
  | created {name dir idx input after first chain} (nonempty : name.chars ≠ [])
      (absent : findFile fs.files name dir = none)
      (slot : findFreeSlot fs.files = some idx)
      (collected : collectLines (.zeros 256) fs.writeTmp 0 keys = .ok input)
      (stored : Stored fs.toDisk input.bytes after.toDisk first chain)
      (files : after.files = Function.update fs.files idx
        { name := field name, dir := field dir, firstBlock := first, size := input.total, used := true }) :
      Effect fs keys (.write name dir) .done after
  | createFailed {name dir idx input after} (nonempty : name.chars ≠ []) (absent : findFile fs.files name dir = none)
      (slot : findFreeSlot fs.files = some idx)
      (collected : collectLines (.zeros 256) fs.writeTmp 0 keys = .ok input)
      (exhausted : Exhausted fs.toDisk input.bytes after.toDisk)
      (files : after.files = Function.update fs.files idx
        { fs.files idx with name := field name, dir := field dir, used := false }) :
      Effect fs keys (.write name dir) .diskFull after
  | appended {name dir idx tmp input after first chain} (nonempty : name.chars ≠ [])
      (found : findFile fs.files name dir = some idx)
      (copied : copyChain fs.toDisk fs.editTmp 0 (fs.files idx).firstBlock (fs.files idx).size = some tmp)
      (collected : collectLines (.zeros 256) tmp (fs.files idx).size keys = .ok input)
      (stored : Stored (released fs idx) input.bytes after.toDisk first chain)
      (files : after.files = Function.update fs.files idx
        { fs.files idx with firstBlock := first, size := input.total }) :
      Effect fs keys (.edit name dir) .done after
  | appendFailed {name dir idx tmp input after} (nonempty : name.chars ≠ [])
      (found : findFile fs.files name dir = some idx)
      (copied : copyChain fs.toDisk fs.editTmp 0 (fs.files idx).firstBlock (fs.files idx).size = some tmp)
      (collected : collectLines (.zeros 256) tmp (fs.files idx).size keys = .ok input)
      (exhausted : Exhausted (released fs idx) input.bytes after.toDisk)
      (files : after.files = Function.update fs.files idx
        { fs.files idx with firstBlock := fatEnd, size := 0 }) :
      Effect fs keys (.edit name dir) .diskFull after
  | deleted {name dir idx typed cleared after} (nonempty : name.chars ≠ [])
      (found : findFile fs.files name dir = some idx)
      (answer : readline (.zeros 4) keys = .ok typed) (agreed : confirmed typed.buf = true)
      (disk : after.toDisk = released fs idx)
      (files : after.files = Function.update fs.files idx
        { fs.files idx with used := false, size := 0, firstBlock := fatEnd, name := cleared }) :
      Effect fs keys (.delete name dir) .done after
  | renamed {oldname newname dir idx after} (given : oldname.chars ≠ [] ∧ newname.chars ≠ [])
      (found : findFile fs.files oldname dir = some idx)
      (fresh : findFile fs.files newname dir = none) (disk : after.toDisk = fs.toDisk)
      (files : after.files = Function.update fs.files idx { fs.files idx with name := field newname }) :
      Effect fs keys (.rename oldname newname dir) .done after
  | copied {src dst dir sidx didx tmp after first chain} (given : src.chars ≠ [] ∧ dst.chars ≠ [])
      (found : findFile fs.files src dir = some sidx)
      (fresh : findFile fs.files dst dir = none) (slot : findFreeSlot fs.files = some didx)
      (copied : copyChain fs.toDisk fs.copyTmp 0 (fs.files sidx).firstBlock (fs.files sidx).size = some tmp)
      (stored : Stored fs.toDisk (tmp.bytes.take (fs.files sidx).size) after.toDisk first chain)
      (files : after.files = Function.update fs.files didx
        { name := field dst, dir := field dir, firstBlock := first, size := (fs.files sidx).size,
          used := true }) :
      Effect fs keys (.copy src dst dir) .done after
  | copyFailed {src dst dir sidx didx tmp after} (given : src.chars ≠ [] ∧ dst.chars ≠ [])
      (found : findFile fs.files src dir = some sidx) (fresh : findFile fs.files dst dir = none)
      (slot : findFreeSlot fs.files = some didx)
      (copied : copyChain fs.toDisk fs.copyTmp 0 (fs.files sidx).firstBlock (fs.files sidx).size = some tmp)
      (exhausted : Exhausted fs.toDisk (tmp.bytes.take (fs.files sidx).size) after.toDisk)
      (files : after.files = fs.files) :
      Effect fs keys (.copy src dst dir) .diskFull after

variable {fs : FileSystem} {keys : List UInt8} {outcome : Outcome} {name dir oldname newname src dst : CString}

theorem setField_eq {size : Nat} (old : Buffer size) (text : CString) :
    setField old text = .ok (field text) := by
  rw [setField, kstrncpy_field old (.inl text.zero_mem_memory), inBounds]
  simp only [CString.cstr_memory, field]

theorem storeTotal_eq (disk : Disk) (tmp : Buffer tmpSize) (total : Nat) :
    storeTotal disk tmp total = writeToBlocks disk (tmp.bytes.take total) := by
  cases total with
  | zero => simp [storeTotal, writeToBlocks]
  | succ total => rw [storeTotal, if_neg (Nat.succ_ne_zero total)]

theorem fsWriteSlot_effect {idx : FileIndex} (run : fsWriteSlot fs idx name keys = .ok outcome) :
    ∃ input, collectLines (.zeros 256) fs.writeTmp 0 keys = .ok input ∧
      ((outcome.report = .done ∧ ∃ first chain, Stored fs.toDisk input.bytes outcome.fs.toDisk first chain ∧
          outcome.fs.files = Function.update fs.files idx
            { fs.files idx with firstBlock := first, size := input.total }) ∨
        (outcome.report = .diskFull ∧ Exhausted fs.toDisk input.bytes outcome.fs.toDisk ∧
          outcome.fs.files = Function.update fs.files idx { fs.files idx with used := false })) := by
  obtain ⟨input, collected, run⟩ := bind_eq_ok.mp run
  refine ⟨input, collected, ?_⟩
  simp only [storeTotal_eq] at run
  rcases writeToBlocks_spec fs.toDisk input.bytes with
    ⟨disk, first, chain, written, success, stored⟩ | ⟨disk, written, exhausted⟩
  · simp only [Input.bytes] at written
    simp only [written, if_neg success, pure, Except.pure, Except.ok.injEq] at run
    subst run
    exact .inl ⟨rfl, first, chain, stored, rfl⟩
  · simp only [Input.bytes] at written
    simp only [written, if_true, pure, Except.pure, Except.ok.injEq] at run
    subst run
    exact .inr ⟨rfl, exhausted, rfl⟩

theorem fsWrite_effect (run : fsWrite fs name dir keys = .ok outcome) :
    Effect fs keys (.write name dir) outcome.report outcome.fs := by
  unfold fsWrite at run
  split at run
  · rename_i empty
    rw [kstrlen_eq_zero] at empty
    cases run
    exact .refused (fun proceeds => proceeds.1 empty) (by simp) (by simp) rfl rfl
  · rename_i given
    have nonempty := (kstrlen_eq_zero name).not.mp given
    cases found : findFile fs.files name dir with
    | some idx =>
        simp only [found] at run
        obtain ⟨input, collected, ⟨success, first, chain, stored, files⟩ | ⟨failure, exhausted, files⟩⟩ :=
          fsWriteSlot_effect run
        · rw [success]
          refine .overwritten nonempty found collected stored ?_
          rw [files]
          simp [setEntry]
        · rw [failure]
          refine .overwriteFailed nonempty found collected exhausted ?_
          rw [files]
          simp [setEntry]
    | none =>
        cases slot : findFreeSlot fs.files with
        | none =>
            simp only [found, slot] at run
            cases run
            exact .refused (by simp [FsOp.Proceeds, found, slot]) (by simp) (by simp) rfl rfl
        | some idx =>
            simp only [found, slot, setField_eq, bind, Except.bind] at run
            obtain ⟨input, collected, ⟨success, first, chain, stored, files⟩ | ⟨failure, exhausted, files⟩⟩ :=
              fsWriteSlot_effect run
            · rw [success]
              refine .created nonempty found slot collected stored ?_
              rw [files]
              simp [setEntry]
            · rw [failure]
              refine .createFailed nonempty found slot collected exhausted ?_
              rw [files]
              simp [setEntry]

theorem fsRead_effect (run : fsRead fs name dir keys = .ok outcome) :
    Effect fs keys (.read name dir) outcome.report outcome.fs := by
  unfold fsRead at run
  split at run
  · rename_i empty
    rw [kstrlen_eq_zero] at empty
    cases run
    exact .refused (fun proceeds => proceeds.1 empty) (by simp) (by simp) rfl rfl
  · rename_i given
    have nonempty := (kstrlen_eq_zero name).not.mp given
    cases found : findFile fs.files name dir with
    | none =>
        simp only [found] at run
        cases run
        exact .refused (by simp [FsOp.Proceeds, found]) (by simp) (by simp) rfl rfl
    | some idx =>
        simp only [found] at run
        cases run
        exact .printed nonempty found rfl rfl

theorem fsEdit_effect (run : fsEdit fs name dir keys = .ok outcome) :
    Effect fs keys (.edit name dir) outcome.report outcome.fs := by
  unfold fsEdit at run
  split at run
  · rename_i empty
    rw [kstrlen_eq_zero] at empty
    cases run
    exact .refused (fun proceeds => proceeds.1 empty) (by simp) (by simp) rfl rfl
  · rename_i given
    have nonempty := (kstrlen_eq_zero name).not.mp given
    cases found : findFile fs.files name dir with
    | none =>
        simp only [found] at run
        cases run
        exact .refused (by simp [FsOp.Proceeds, found]) (by simp) (by simp) rfl rfl
    | some idx =>
        simp only [found] at run
        obtain ⟨tmp, copied, run⟩ := bind_eq_ok.mp run
        obtain ⟨input, collected, run⟩ := bind_eq_ok.mp run
        rw [inBounds_eq_ok] at copied
        simp only [storeTotal_eq] at run
        rcases writeToBlocks_spec (released fs idx) input.bytes with
          ⟨disk, first, chain, written, success, stored⟩ | ⟨disk, written, exhausted⟩
        · simp only [Input.bytes, released] at written
          simp only [written, if_neg success, pure, Except.pure, Except.ok.injEq] at run
          subst run
          exact .appended nonempty found copied collected stored rfl
        · simp only [Input.bytes, released] at written
          simp only [written, if_true, pure, Except.pure, Except.ok.injEq] at run
          subst run
          exact .appendFailed nonempty found copied collected exhausted rfl

theorem fsDelete_effect (run : fsDelete fs name dir keys = .ok outcome) :
    Effect fs keys (.delete name dir) outcome.report outcome.fs := by
  unfold fsDelete at run
  split at run
  · rename_i empty
    rw [kstrlen_eq_zero] at empty
    cases run
    exact .refused (fun proceeds => proceeds.1 empty) (by simp) (by simp) rfl rfl
  · rename_i given
    have nonempty := (kstrlen_eq_zero name).not.mp given
    cases found : findFile fs.files name dir with
    | none =>
        simp only [found] at run
        cases run
        exact .refused (by simp [FsOp.Proceeds, found]) (by simp) (by simp) rfl rfl
    | some idx =>
        simp only [found] at run
        obtain ⟨typed, answer, run⟩ := bind_eq_ok.mp run
        cases agreed : confirmed typed.buf with
        | false =>
            simp only [agreed, Bool.not_false, if_true] at run
            cases run
            exact .refused (by simp [FsOp.Proceeds, answer, agreed]) (by simp) (by simp) rfl rfl
        | true =>
            simp only [agreed, Bool.not_true, Bool.false_eq_true, if_false] at run
            obtain ⟨cleared, _, run⟩ := bind_eq_ok.mp run
            cases run
            exact .deleted nonempty found answer agreed rfl rfl

theorem fsRename_effect (run : fsRename fs oldname newname dir keys = .ok outcome) :
    Effect fs keys (.rename oldname newname dir) outcome.report outcome.fs := by
  unfold fsRename at run
  split at run
  · rename_i missing
    rw [kstrlen_eq_zero, kstrlen_eq_zero] at missing
    cases run
    exact .refused (fun proceeds => missing.elim proceeds.1.1 proceeds.1.2) (by simp) (by simp) rfl rfl
  · rename_i given
    rw [kstrlen_eq_zero, kstrlen_eq_zero, not_or] at given
    cases found : findFile fs.files oldname dir with
    | none =>
        simp only [found] at run
        cases run
        exact .refused (by simp [FsOp.Proceeds, found]) (by simp) (by simp) rfl rfl
    | some idx =>
        cases fresh : findFile fs.files newname dir with
        | some taken =>
            simp only [found, fresh, Option.isSome_some, if_true] at run
            cases run
            exact .refused (by simp [FsOp.Proceeds, fresh]) (by simp) (by simp) rfl rfl
        | none =>
            simp only [found, fresh, Option.isSome_none, Bool.false_eq_true, if_false, setField_eq,
              bind, Except.bind] at run
            cases run
            exact .renamed given found fresh rfl rfl

theorem fsCopy_effect (run : fsCopy fs src dst dir keys = .ok outcome) :
    Effect fs keys (.copy src dst dir) outcome.report outcome.fs := by
  unfold fsCopy at run
  split at run
  · rename_i missing
    rw [kstrlen_eq_zero, kstrlen_eq_zero] at missing
    cases run
    exact .refused (fun proceeds => missing.elim proceeds.1.1 proceeds.1.2) (by simp) (by simp) rfl rfl
  · rename_i given
    rw [kstrlen_eq_zero, kstrlen_eq_zero, not_or] at given
    cases found : findFile fs.files src dir with
    | none =>
        simp only [found] at run
        cases run
        exact .refused (by simp [FsOp.Proceeds, found]) (by simp) (by simp) rfl rfl
    | some sidx =>
        cases fresh : findFile fs.files dst dir with
        | some taken =>
            simp only [found, fresh, Option.isSome_some, if_true] at run
            cases run
            exact .refused (by simp [FsOp.Proceeds, fresh]) (by simp) (by simp) rfl rfl
        | none =>
            simp only [found, fresh, Option.isSome_none, Bool.false_eq_true, if_false] at run
            cases slot : findFreeSlot fs.files with
            | none =>
                simp only [slot] at run
                cases run
                exact .refused (by simp [FsOp.Proceeds, slot]) (by simp) (by simp) rfl rfl
            | some didx =>
                simp only [slot] at run
                obtain ⟨tmp, copied, run⟩ := bind_eq_ok.mp run
                rw [inBounds_eq_ok] at copied
                simp only [storeTotal_eq] at run
                rcases writeToBlocks_spec fs.toDisk (tmp.bytes.take (fs.files sidx).size) with
                  ⟨disk, first, chain, written, success, stored⟩ | ⟨disk, written, exhausted⟩
                · simp only [written, if_neg success, setField_eq, bind, Except.bind, pure,
                    Except.pure, Except.ok.injEq] at run
                  subst run
                  exact .copied given found fresh slot copied stored rfl
                · simp only [written, if_true, pure, Except.pure, Except.ok.injEq] at run
                  subst run
                  exact .copyFailed given found fresh slot copied exhausted rfl

theorem FsOp.run_effect {op : FsOp} (run : op.run fs keys = .ok outcome) :
    Effect fs keys op outcome.report outcome.fs := by
  cases op with
  | write name dir => exact fsWrite_effect run
  | read name dir => exact fsRead_effect run
  | edit name dir => exact fsEdit_effect run
  | delete name dir => exact fsDelete_effect run
  | rename oldname newname dir => exact fsRename_effect run
  | copy src dst dir => exact fsCopy_effect run

/-- A command is carried out or finds the disk full exactly when nothing stands
against it. -/
theorem Effect.proceeds_iff {op : FsOp} {report : Report} {after : FileSystem} (effect : Effect fs keys op report after) :
    report = .done ∨ report = .diskFull ↔ op.Proceeds fs keys := by
  cases effect with
  | refused idle failed notFull => exact iff_of_false (not_or.mpr ⟨failed, notFull⟩) idle
  | printed nonempty found => exact iff_of_true (.inl rfl) ⟨nonempty, _, found⟩
  | overwritten nonempty found => exact iff_of_true (.inl rfl) ⟨nonempty, .inl ⟨_, found⟩⟩
  | overwriteFailed nonempty found => exact iff_of_true (.inr rfl) ⟨nonempty, .inl ⟨_, found⟩⟩
  | created nonempty _ slot => exact iff_of_true (.inl rfl) ⟨nonempty, .inr ⟨_, slot⟩⟩
  | createFailed nonempty _ slot => exact iff_of_true (.inr rfl) ⟨nonempty, .inr ⟨_, slot⟩⟩
  | appended nonempty found => exact iff_of_true (.inl rfl) ⟨nonempty, _, found⟩
  | appendFailed nonempty found => exact iff_of_true (.inr rfl) ⟨nonempty, _, found⟩
  | deleted nonempty found answer agreed => exact iff_of_true (.inl rfl) ⟨nonempty, ⟨_, found⟩, _, answer, agreed⟩
  | renamed given found fresh => exact iff_of_true (.inl rfl) ⟨given, ⟨_, found⟩, fresh⟩
  | copied given found fresh slot => exact iff_of_true (.inl rfl) ⟨given, ⟨_, found⟩, fresh, _, slot⟩
  | copyFailed given found fresh slot => exact iff_of_true (.inr rfl) ⟨given, ⟨_, found⟩, fresh, _, slot⟩

theorem FsOp.Releases.proceeds {op : FsOp} {idx : FileIndex} (releases : op.Releases fs keys idx) :
    op.Proceeds fs keys := by
  cases op with
  | write => exact ⟨releases.1, .inl ⟨idx, releases.2⟩⟩
  | edit => exact ⟨releases.1, idx, releases.2⟩
  | delete => exact ⟨releases.1, ⟨idx, releases.2.1⟩, releases.2.2⟩
  | read | rename | copy => exact releases.elim

end DugOS.Fs
