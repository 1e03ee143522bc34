import DugOS.Fs.Names

namespace DugOS.Prototype

open Data Fs

/-! `cmd_fwrite` of `dug_os.c`, the user-space prototype, on top of the C library.

The files of the host are outside of the program. Of them the model knows
whether a file can be created and which bytes go through the stream that
`fopen` returns.
-/

section Library

/-- The characters `fgets` takes from a stream: at most `room` of them, and none
behind a newline. -/
def takeLine : Nat → List UInt8 → List UInt8 × List UInt8
  | 0, stream => ([], stream)
  | _ + 1, [] => ([], [])
  | room + 1, c :: stream =>
      if c = newline then ([c], stream)
      else
        let (chars, rest) := takeLine room stream
        (c :: chars, rest)

theorem takeLine_append (room : Nat) (stream : List UInt8) :
    (takeLine room stream).1 ++ (takeLine room stream).2 = stream := by
  induction room generalizing stream with
  | zero => rfl
  | succ room ih =>
      cases stream with
      | nil => rfl
      | cons c stream =>
          simp only [takeLine]
          split
          · rfl
          · simp [ih stream]

theorem takeLine_length_le (room : Nat) (stream : List UInt8) : (takeLine room stream).1.length ≤ room := by
  induction room generalizing stream with
  | zero => simp [takeLine]
  | succ room ih =>
      cases stream with
      | nil => simp [takeLine]
      | cons c stream =>
          simp only [takeLine]
          split
          · simp
          · simpa using ih stream

/-- `fgets(s, n + 1, stdin)`, with the stream it leaves. `none` is the null
pointer at the end of the input. -/
def fgets {n : Nat} (s : Buffer (n + 1)) (stdin : List UInt8) : Option (Buffer (n + 1) × List UInt8) :=
  if stdin = [] then none
  else
    some (s.write 0 ((takeLine n stdin).1 ++ [0]) (by
      have short := takeLine_length_le n stdin
      simp only [List.length_append, List.length_singleton]
      omega), (takeLine n stdin).2)

theorem fgets_shorter {n : Nat} {s after : Buffer (n + 2)} {stdin rest : List UInt8}
    (read : fgets s stdin = some (after, rest)) : rest.length < stdin.length := by
  cases stdin with
  | nil => simp [fgets] at read
  | cons c stream =>
      have left := congrArg (fun result => result.map Prod.snd) read
      simp only [fgets, reduceCtorEq, if_false, Option.map_some, Option.some.injEq, takeLine] at left
      subst left
      split
      · simp
      · have whole := congrArg List.length (takeLine_append n stream)
        simp only [List.length_append] at whole
        simp only [List.length_cons]
        omega

/-- `strlen` and `strcmp` of the library do what `string.c` does. -/
abbrev strlen := kstrlen
abbrev strcmp := kstrcmp

/-- The bytes behind `fp` after `fputs(s, fp)`. -/
def fputs (s fp : List UInt8) : Option (List UInt8) :=
  (strlen s).map fun length => fp ++ s.take length

end Library

section Trimming

/-- `while (*s == ' ' || *s == '\t') s++`: how far `s` moves. -/
def skipBlanks : List UInt8 → Option Nat
  | [] => none
  | c :: rest => if c = 32 ∨ c = 9 then (skipBlanks rest).map (· + 1) else some 0

/-- The loop that moves `end` back past trailing whitespace, never before `s`. -/
def moveBack (memory : List UInt8) (s : Nat) : Nat → Option Nat
  | 0 => some 0
  | last + 1 =>
      if s < last + 1 then
        match memory[last + 1]? with
        | none => none
        | some c => if isBlank c then moveBack memory s last else some (last + 1)
      else some (last + 1)

/-- The buffer after `trim`, which cuts it in place, and where in it the pointer
that `trim` returns stands. -/
def trim {size : Nat} (line : Buffer size) : Option (Buffer size × Nat) := do
  let s ← skipBlanks line.bytes
  let c ← line.bytes[s]?
  if c = 0 then return (line, s)
  let length ← strlen (line.bytes.drop s)
  let last ← moveBack line.bytes s (s + length - 1)
  let line ← line.store (last + 1) [0]
  return (line, s)

end Trimming

/-- What was written to the file, the input left over, and what was printed. -/
structure Entered where
  fp : List UInt8
  stdin : List UInt8
  stdout : List UInt8

/-- The input loop of `cmd_fwrite`. The line that is compared starts at the
trimmed pointer, the one that is written at the start of the buffer. -/
def fwriteLoop (line : Buffer 256) (fp stdin : List UInt8) : Except Stop Entered :=
  match _read : fgets line stdin with
  | none => .ok { fp, stdin, stdout := [] }
  | some (line, rest) => do
      let (line, t) ← inBounds (trim line)
      let order ← inBounds (strcmp (line.bytes.drop t) terminator.memory)
      if order = 0 then
        return { fp, stdin := rest, stdout := [] }
      let fp ← inBounds (fputs line.bytes fp)
      let entered ← fwriteLoop line fp rest
      return { entered with stdout := ascii "  > " ++ entered.stdout }
termination_by stdin.length
decreasing_by exact fgets_shorter _read

/-- How a command of the prototype ends: the bytes of the file it opened for
writing, if any, the input left over, and what was printed. -/
structure Session where
  file : Option (List UInt8)
  stdin : List UInt8
  stdout : List UInt8

def err (cmd msg : String) : List UInt8 :=
  ascii "  [" ++ ascii cmd ++ ascii "] Error: " ++ ascii msg ++ [newline]

def cmdFwrite (creatable : CString → Bool) (filename : CString) (stdin : List UInt8) : Except Stop Session := do
  if strlen filename.memory = some 0 then
    return { file := none, stdin, stdout := err "fwrite" "usage: fwrite <filename>" }
  if creatable filename = false then
    return { file := none, stdin, stdout := err "fwrite" "cannot create file" }
  let entered ← fwriteLoop (.zeros 256) [] stdin
  return {
    file := some entered.fp
    stdin := entered.stdin
    stdout := ascii "  Enter content. Type a single dot '.' on a new line to finish:" ++ [newline] ++
      ascii "  > " ++ entered.stdout ++ ascii "  [fwrite] '" ++ filename.chars ++
      ascii "' written successfully." ++ [newline] }

/-- A typed line of printable characters, without blanks at its ends. -/
structure PrintableLine (text : List UInt8) : Prop where
  printable : ∀ c ∈ text, 32 ≤ c ∧ c ≤ 126
  short : text.length ≤ 250
  front : text.head? ≠ some 32
  back : text.getLast? ≠ some 32

/-- What the prototype stores of a line: the newline is trimmed off with the
blanks, unless there is nothing before it. -/
def stored (text : List UInt8) : List UInt8 :=
  if text = [] then [newline] else text

variable {text rest fp : List UInt8} {lines : List (List UInt8)} {size n : Nat}

theorem PrintableLine.not_blank {c : UInt8} (line : PrintableLine text) (member : c ∈ text) (notSpace : c ≠ 32) :
    isBlank c = false := by
  have low := (line.printable c member).1
  rw [UInt8.le_iff_toNat_le] at low
  simp only [isBlank, Bool.decide_or, Bool.or_eq_false_iff, decide_eq_false_iff_not]
  refine ⟨notSpace, ?_, ?_, ?_⟩
  all_goals
    intro same
    subst same
    revert low
    decide

theorem PrintableLine.empty : PrintableLine [] :=
  ⟨by simp, by simp, by simp, by simp⟩

theorem PrintableLine.single {c : UInt8} (low : 32 < c) (high : c ≤ 126) : PrintableLine [c] := by
  have notSpace : [c].head? ≠ some 32 := by
    intro same
    cases same
    exact absurd low (by decide)
  refine ⟨?_, by simp, notSpace, notSpace⟩
  intro other member
  rw [List.mem_singleton.mp member]
  exact ⟨UInt8.le_of_lt low, high⟩

theorem PrintableLine.noNewline (line : PrintableLine text) : newline ∉ text := by
  intro member
  exact absurd (line.printable newline member).1 (by decide)

theorem PrintableLine.noNul (line : PrintableLine text) : 0 ∉ text := by
  intro member
  exact absurd (line.printable 0 member).1 (by decide)

theorem PrintableLine.verbatim (line : PrintableLine text) (notTerminator : text ≠ terminator.chars) :
    Verbatim text := by
  constructor
  case plain =>
    intro c member
    refine ⟨?_, ?_, ?_, rfl⟩
    all_goals
      intro same
      subst same
      exact absurd (line.printable _ member).1 (by decide)
  case short => exact Nat.lt_of_le_of_lt line.short (by decide)
  case trimmed =>
    rw [List.rdropWhile_eq_self_iff]
    intro nonempty
    have last : text.getLast nonempty ≠ 32 := by
      intro same
      exact line.back (by rw [List.getLast?_eq_some_getLast nonempty, same])
    simp [line.not_blank (List.getLast_mem nonempty) last]
  case notTerminator => exact notTerminator

theorem takeLine_line (noNewline : newline ∉ text) (room : text.length < n) :
    takeLine n (text ++ newline :: rest) = (text ++ [newline], rest) := by
  induction text generalizing n with
  | nil =>
      cases n with
      | zero => simp at room
      | succ n => simp [takeLine]
  | cons c text ih =>
      simp only [List.mem_cons, not_or] at noNewline
      cases n with
      | zero => simp at room
      | succ n =>
          have inner := ih noNewline.2 (by simpa using room)
          simp [takeLine, Ne.symm noNewline.1, inner]

theorem fgets_line (s : Buffer (n + 1)) (rest : List UInt8) (noNewline : newline ∉ text) (room : text.length < n) :
    ∃ line back, fgets s (text ++ newline :: rest) = some (line, rest) ∧
      line.bytes = text ++ newline :: 0 :: back := by
  have taken : takeLine n (text ++ newline :: rest) = (text ++ [newline], rest) := takeLine_line noNewline room
  have more : text ++ newline :: rest ≠ [] := by simp
  simp only [fgets, if_neg more, taken]
  exact ⟨_, s.bytes.drop (text.length + 2), rfl, by simp [Buffer.write]⟩

/-- From the newline, `end` moves back to the last character of the text. -/
theorem moveBack_line {back : List UInt8} (nonempty : text ≠ []) (kept : isBlank (text.getLast nonempty) = false) :
    moveBack (text ++ newline :: back) 0 text.length = some (text.length - 1) := by
  have ended : (text ++ newline :: back)[text.length]? = some newline := by simp
  have blank : isBlank newline = true := by decide
  cases length : text.length with
  | zero => exact absurd (List.length_eq_zero_iff.mp length) nonempty
  | succ count =>
      rw [length] at ended
      simp only [moveBack, Nat.zero_lt_succ, if_true, ended, blank, Nat.add_sub_cancel]
      cases count with
      | zero => rfl
      | succ count =>
          have last : (text ++ newline :: back)[count + 1]? = some (text.getLast nonempty) := by
            rw [List.getElem?_append_left (by omega), List.getLast_eq_getElem, List.getElem?_eq_getElem (by omega)]
            simp [length]
          simp [moveBack, last, kept]

/-- `trim` on a line that starts with a visible character and is cut behind
`kept`. -/
theorem trim_cut {line : Buffer size} {kept back : List UInt8} {c cutOff : UInt8} {count : Nat}
    (bytes : line.bytes = c :: kept ++ cutOff :: back) (noNul : 0 ∉ c :: kept) (notSpace : c ≠ 32)
    (notTab : c ≠ 9) (length : strlen line.bytes = some (count + 1))
    (moved : moveBack line.bytes 0 count = some kept.length) :
    ∃ trimmed, trim line = some (trimmed, 0) ∧ 0 ∈ trimmed.bytes ∧ cstr trimmed.bytes = c :: kept := by
  have size_eq : kept.length + 1 + (back.length + 1) = size := by
    rw [← line.length_eq, bytes]
    simp
    omega
  obtain ⟨trimmed, cut⟩ := line.store_exists (kept.length + 1) [0] (by simp; omega)
  have after : trimmed.bytes = (c :: kept) ++ 0 :: back := by
    have front : (c :: kept).length = kept.length + 1 := rfl
    rw [Buffer.store_bytes cut, bytes, ← front, List.take_left, ← List.drop_drop, List.drop_left]
    simp
  refine ⟨trimmed, ?_, by simp [after], by rw [after, cstr_append noNul]; simp⟩
  have skipped : skipBlanks line.bytes = some 0 := by simp [bytes, skipBlanks, notSpace, notTab]
  have first : line.bytes[0]? = some c := by simp [bytes]
  have visible : c ≠ 0 := by
    intro zero
    exact noNul (by simp [zero])
  simp [trim, skipped, first, visible, length, moved, cut]

/-- `trim` on a line as `fgets` delivers it. -/
theorem trim_line {line : Buffer size} {back : List UInt8} (typed : PrintableLine text)
    (bytes : line.bytes = text ++ newline :: 0 :: back) :
    ∃ trimmed, trim line = some (trimmed, 0) ∧ 0 ∈ trimmed.bytes ∧ cstr trimmed.bytes = stored text := by
  have noNul : 0 ∉ text ++ [newline] := by
    simp only [List.mem_append, List.mem_singleton, not_or]
    exact ⟨typed.noNul, by decide⟩
  have split : text ++ newline :: 0 :: back = (text ++ [newline]) ++ 0 :: back := by simp
  have length : strlen line.bytes = some (text.length + 1) := by
    rw [bytes, split, strlen, kstrlen_eq (by simp), cstr_append noNul]
    simp
  cases text with
  | nil =>
      have single : line.bytes = newline :: [] ++ 0 :: back := bytes
      exact trim_cut single (by decide) (by decide) (by decide) length rfl
  | cons c kept =>
      rw [stored, if_neg (by simp)]
      have notSpace : c ≠ 32 := fun same => typed.front (by simp [same])
      have notBlank := typed.not_blank (by simp) notSpace
      have notTab : c ≠ 9 := by
        intro same
        subst same
        cases notBlank
      have last : (c :: kept).getLast (by simp) ≠ 32 := by
        intro same
        exact typed.back (by rw [List.getLast?_eq_some_getLast (by simp), same])
      apply trim_cut bytes typed.noNul notSpace notTab length
      rw [bytes]
      exact moveBack_line (by simp) (typed.not_blank (List.getLast_mem _) last)

theorem stored_eq_terminator : stored text = terminator.chars ↔ text = terminator.chars := by
  rw [stored]
  split
  · rename_i empty
    subst empty
    decide
  · rfl

/-- One turn of the input loop. -/
theorem fwriteLoop_turn (line : Buffer 256) (fp rest : List UInt8) (typed : PrintableLine text) :
    ∃ next, fwriteLoop line fp (text ++ newline :: rest) =
      if text = terminator.chars then .ok { fp, stdin := rest, stdout := [] }
      else (fwriteLoop next (fp ++ stored text) rest).map fun entered =>
        { entered with stdout := ascii "  > " ++ entered.stdout } := by
  obtain ⟨filled, back, read, bytes⟩ := fgets_line line rest typed.noNewline
    (Nat.lt_of_le_of_lt typed.short (by decide))
  obtain ⟨trimmed, trim, terminated, kept⟩ := trim_line typed bytes
  have compared := kstrcmp_eq_zero terminated terminator.zero_mem_memory
  obtain ⟨order, ordered⟩ := kstrcmp_exists terminated (.inl terminator.zero_mem_memory)
  rw [ordered, Option.some.injEq, CString.cstr_memory, kept, stored_eq_terminator] at compared
  have put : fputs trimmed.bytes fp = some (fp ++ stored text) := by
    rw [fputs, strlen, kstrlen_eq terminated, Option.map_some, cstr_take, kept]
  refine ⟨trimmed, ?_⟩
  rw [fwriteLoop]
  split
  · rename_i ended
    rw [read] at ended
    cases ended
  · rename_i found
    rw [read] at found
    cases found
    simp only [trim, inBounds, bind, Except.bind, List.drop_zero, ordered, compared, put, pure, Except.pure]
    rfl

theorem fwriteLoop_lines (line : Buffer 256) (fp rest : List UInt8) (typed : ∀ text ∈ lines, PrintableLine text)
    (before : ∀ text ∈ lines, text ≠ terminator.chars) :
    ∃ entered, fwriteLoop line fp (typedText lines ++ (terminator.chars ++ newline :: rest)) = .ok entered ∧
      entered.fp = fp ++ lines.flatMap stored ∧ entered.stdin = rest := by
  induction lines generalizing line fp with
  | nil =>
      have dot : PrintableLine terminator.chars := .single (by decide) (by decide)
      obtain ⟨next, turn⟩ := fwriteLoop_turn line fp rest dot
      rw [if_pos rfl] at turn
      exact ⟨_, turn, by simp, rfl⟩
  | cons text lines ih =>
      obtain ⟨next, turn⟩ := fwriteLoop_turn line fp (typedText lines ++ (terminator.chars ++ newline :: rest))
        (typed text (by simp))
      obtain ⟨entered, run, written, left⟩ := ih next (fp ++ stored text)
        (fun other member => typed other (by simp [member])) (fun other member => before other (by simp [member]))
      rw [if_neg (before text (by simp)), run, Except.map] at turn
      refine ⟨{ entered with stdout := ascii "  > " ++ entered.stdout }, ?_, ?_, left⟩
      · simpa [typedText] using turn
      · simpa using written

theorem cmdFwrite_lines (creatable : CString → Bool) {filename : CString} (nonempty : filename.chars ≠ [])
    (opens : creatable filename = true) (typed : ∀ text ∈ lines, PrintableLine text)
    (before : ∀ text ∈ lines, text ≠ terminator.chars) :
    ∃ session, cmdFwrite creatable filename (typedFile lines) = .ok session ∧
      session.file = some (lines.flatMap stored) := by
  obtain ⟨entered, run, written, _⟩ := fwriteLoop_lines (.zeros 256) [] [] typed before
  have given : ¬ strlen filename.memory = some 0 := (kstrlen_eq_zero filename).not.mpr nonempty
  rw [← typedFile] at run
  simp only [cmdFwrite, given, opens, if_false, Bool.true_eq_false, run, bind, Except.bind, pure, Except.pure]
  exact ⟨_, rfl, by simp [written]⟩

theorem stored_length_le (text : List UInt8) : (stored text).length ≤ text.length + 1 := by
  rw [stored]
  split
  · simp
  · omega

theorem flatMap_stored_length_le (lines : List (List UInt8)) :
    (lines.flatMap stored).length ≤ (typedText lines).length := by
  induction lines with
  | nil => simp [typedText]
  | cons text lines ih =>
      have shorter := stored_length_le text
      simp only [typedText, List.flatMap_cons, List.length_append, List.length_singleton] at ih ⊢
      omega

/-- Of every line but an empty one the prototype drops the newline. -/
theorem flatMap_stored_eq_iff : lines.flatMap stored = typedText lines ↔ ∀ text ∈ lines, text = [] := by
  induction lines with
  | nil => simp [typedText]
  | cons text lines ih =>
      have split : typedText (text :: lines) = text ++ newline :: typedText lines := by simp [typedText]
      rw [split, List.flatMap_cons, List.forall_mem_cons, stored]
      by_cases empty : text = []
      · subst empty
        simp [ih]
      · rw [if_neg empty, List.append_cancel_left_eq]
        constructor
        · intro same
          have shorter := flatMap_stored_length_le lines
          rw [same, List.length_cons] at shorter
          omega
        · intro all
          exact absurd all.1 empty

/-- The prototype and the kernel get the same keys for a new file. They store
the same bytes exactly if nothing but empty lines was typed. -/
theorem cmdFwrite_agrees_iff (creatable : CString → Bool) (lines : List (List UInt8)) {fs : FileSystem}
    {name dir : CString} {idx : FileIndex} (nonempty : name.chars ≠ []) (opens : creatable name = true)
    (absent : findFile fs.files name dir = none) (slot : findFreeSlot fs.files = some idx)
    (typed : ∀ text ∈ lines, PrintableLine text) (before : ∀ text ∈ lines, text ≠ terminator.chars)
    (total : (typedText lines).length < 262144)
    (enough : blocksFor (typedText lines).length ≤ (freeBlocks fs.fat).card) :
    ∃ session outcome, cmdFwrite creatable name (typedFile lines) = .ok session ∧
      fsWrite fs name dir (typedFile lines) = .ok outcome ∧ outcome.report = .done ∧
      (session.file = some (content outcome.fs.toDisk (outcome.fs.files idx)) ↔ ∀ text ∈ lines, text = []) := by
  obtain ⟨session, prototype, file⟩ := cmdFwrite_lines creatable nonempty opens typed before
  obtain ⟨outcome, kernel, done, first, chain, written, files⟩ := fsWrite_creates lines nonempty absent slot
    (fun text member => (typed text member).verbatim (before text member)) total.le enough
  refine ⟨session, outcome, prototype, kernel, done, ?_⟩
  have bytes : content outcome.fs.toDisk (outcome.fs.files idx) = typedText lines := by
    rw [files, Function.update_self]
    exact written.contents
  rw [file, bytes, Option.some.injEq]
  exact flatMap_stored_eq_iff

theorem empty_line_agrees : ∃ session outcome,
    cmdFwrite (fun _ => true) sampleName (typedFile [[]]) = .ok session ∧
    fsWrite (fsInit bss) sampleName rootDir (typedFile [[]]) = .ok outcome ∧ outcome.report = .done ∧
    session.file = some (content outcome.fs.toDisk (outcome.fs.files 0)) := by
  obtain ⟨session, outcome, prototype, kernel, done, agree⟩ := cmdFwrite_agrees_iff
    (fun _ => true) [[]] (show sampleName.chars ≠ [] by decide) rfl
    (findFile_fsInit bss sampleName rootDir) (findFreeSlot_fsInit bss)
    (by simpa using PrintableLine.empty) (by decide) (by decide)
    (by rw [freeBlocks_fsInit]; decide)
  exact ⟨session, outcome, prototype, kernel, done, agree.mpr (by simp)⟩

/-- The line `x` reaches the file of the prototype without its newline. -/
theorem newline_lost : ∃ session outcome,
    cmdFwrite (fun _ => true) sampleName (typedFile [[120]]) = .ok session ∧
    fsWrite (fsInit bss) sampleName rootDir (typedFile [[120]]) = .ok outcome ∧ outcome.report = .done ∧
    session.file = some [120] ∧ content outcome.fs.toDisk (outcome.fs.files 0) = [120, newline] ∧
    session.file ≠ some (content outcome.fs.toDisk (outcome.fs.files 0)) := by
  have typed : ∀ text ∈ [[120]], PrintableLine text := by
    simpa using PrintableLine.single (show 32 < 120 by decide) (by decide)
  obtain ⟨session, prototype, file⟩ := cmdFwrite_lines (fun _ => true)
    (show sampleName.chars ≠ [] by decide) rfl typed (by decide)
  obtain ⟨outcome, kernel, done, first, chain, written, files⟩ := fsWrite_creates [[120]] (by decide)
    (findFile_fsInit bss sampleName rootDir) (findFreeSlot_fsInit bss) (by simpa using sample_verbatim) (by decide)
    (by rw [freeBlocks_fsInit]; decide)
  have bytes : content outcome.fs.toDisk (outcome.fs.files 0) = [120, newline] := by
    rw [files, Function.update_self]
    exact written.contents
  refine ⟨session, outcome, prototype, kernel, done, file, bytes, ?_⟩
  rw [file, bytes]
  decide

end DugOS.Prototype
