import DugOS.Fs.Files
import Mathlib.Data.List.DropRight

namespace DugOS.Fs

open Data

/-! The interactive input of `fs_write` and `fs_edit`. -/

/-- `readline` of `fs.c`, which stores every character that is not an editing
key. -/
def readline {len : Nat} (buf : Buffer len) (keys : List UInt8) : Except Stop (Typed len) :=
  readlineLoop (fun _ => true) buf 0 keys

def isBlank (c : UInt8) : Bool :=
  c = 32 ∨ c = 9 ∨ c = 13 ∨ c = newline

/-- The loop of `trim_line`, with `count` characters left to look at. -/
def trimLoop {len : Nat} (s : Buffer len) : Nat → Option (Buffer len)
  | 0 => some s
  | count + 1 =>
      match s.bytes[count]? with
      | none => none
      | some c => if isBlank c then (s.store count [0]).bind (trimLoop · count) else some s

def trimLine {len : Nat} (s : Buffer len) : Option (Buffer len) :=
  (kstrlen s.bytes).bind (trimLoop s)

def terminator : CString :=
  ⟨[46], by decide⟩

/-- The accumulated bytes, the keys left over, and what was shown. -/
structure Input where
  tmp : Buffer tmpSize
  total : Nat
  keys : List UInt8
  screen : List VgaCall

def Input.showing (input : Input) (calls : List VgaCall) : Input :=
  { input with screen := calls ++ input.screen }

/-- The input loop that `fs_write` and `fs_edit` share: lines are appended to
`tmp` while they fit, up to a line that is a single dot. -/
def collectLines (line : Buffer 256) (tmp : Buffer tmpSize) (total : Nat) (keys : List UInt8) :
    Except Stop Input :=
  match read : readline line keys with
  | .error reason => .error reason
  | .ok typed => do
      let shown := .write (ascii "  > ") :: typed.echo
      let line ← inBounds (trimLine typed.buf)
      let order ← inBounds (kstrcmp line.bytes terminator.memory)
      if order = 0 then
        return { tmp, total, keys := typed.keys, screen := shown }
      let lineLen ← inBounds (kstrlen line.bytes)
      if total + lineLen + 1 ≤ tmpSize then
        let tmp ← inBounds (tmp.store total (line.bytes.take lineLen))
        let tmp ← inBounds (tmp.store (total + lineLen) [newline])
        (collectLines line tmp (total + lineLen + 1) typed.keys).map (·.showing shown)
      else
        (collectLines line tmp total typed.keys).map (·.showing shown)
termination_by keys.length
decreasing_by all_goals exact (readlineLoop_ok read).1

variable {len : Nat} {s : Buffer len} {tmp : Buffer tmpSize} {total count : Nat}
  {keys : List UInt8} {input : Input}

section Trimming

theorem trimLoop_eq (s : Buffer len) (inside : count ≤ len) :
    ∃ trimmed, trimLoop s count = some trimmed ∧
      trimmed.bytes = (s.bytes.take count).rdropWhile isBlank ++
        List.replicate (count - ((s.bytes.take count).rdropWhile isBlank).length) 0 ++
          s.bytes.drop count := by
  induction count generalizing s with
  | zero => exact ⟨s, rfl, by simp⟩
  | succ count ih =>
      have present : count < s.bytes.length := by simpa using Nat.lt_of_succ_le inside
      have front : s.bytes.take (count + 1) = s.bytes.take count ++ [s.bytes[count]] := by
        rw [List.take_succ_eq_append_getElem present]
      simp only [trimLoop, List.getElem?_eq_getElem present]
      cases blank : isBlank s.bytes[count] with
      | false =>
          refine ⟨s, by simp, ?_⟩
          have kept : (s.bytes.take (count + 1)).rdropWhile isBlank = s.bytes.take (count + 1) := by
            rw [front, List.rdropWhile_concat_neg _ _ _ (by simp [blank])]
          rw [kept, List.length_take, min_eq_left (by simpa using inside), Nat.sub_self,
            List.replicate_zero, List.append_nil, List.take_append_drop]
      | true =>
          obtain ⟨next, stored⟩ := s.store_exists count [0] (by simpa using inside)
          obtain ⟨trimmed, run, bytes⟩ := ih next (Nat.le_of_succ_le inside)
          have nextBytes := Buffer.store_bytes stored
          have sameFront : next.bytes.take count = s.bytes.take count := by
            rw [nextBytes, List.append_assoc, List.take_left' (by simp; omega)]
          have nextBack : next.bytes.drop count = 0 :: s.bytes.drop (count + 1) := by
            rw [nextBytes, List.append_assoc, List.drop_left' (by simp; omega)]
            rfl
          refine ⟨trimmed, by simp [stored, run], ?_⟩
          rw [bytes, sameFront, nextBack, front, List.rdropWhile_concat_pos _ _ _ blank]
          have shorter : ((s.bytes.take count).rdropWhile isBlank).length ≤ count :=
            (List.rdropWhile_prefix _ _).length_le.trans (List.length_take_le _ _)
          have more : count + 1 - ((s.bytes.take count).rdropWhile isBlank).length =
              (count - ((s.bytes.take count).rdropWhile isBlank).length) + 1 := by omega
          rw [more, List.replicate_succ']
          simp only [List.append_assoc, List.cons_append, List.nil_append]

theorem trimLine_eq (terminated : 0 ∈ s.bytes) :
    ∃ trimmed, trimLine s = some trimmed ∧ 0 ∈ trimmed.bytes ∧
      cstr trimmed.bytes = (cstr s.bytes).rdropWhile isBlank := by
  have short := cstr_length_lt terminated
  rw [Buffer.length_eq] at short
  obtain ⟨trimmed, run, bytes⟩ := trimLoop_eq s short.le
  rw [cstr_take] at bytes
  obtain ⟨rest, split⟩ := cstr_split terminated
  have back : s.bytes.drop (cstr s.bytes).length = 0 :: rest := by
    have dropped := congrArg (List.drop (cstr s.bytes).length) split
    rwa [List.drop_left] at dropped
  have noNul : 0 ∉ (cstr s.bytes).rdropWhile isBlank :=
    fun member => cstr_noNul ((List.rdropWhile_prefix _ _).subset member)
  refine ⟨trimmed, by rw [trimLine, kstrlen_eq terminated, Option.bind_some, run], ?_, ?_⟩
  · rw [bytes, back]
    simp
  · rw [bytes, back, List.append_assoc, cstr_append noNul]
    cases (cstr s.bytes).length - ((cstr s.bytes).rdropWhile isBlank).length with
    | zero => simp
    | succ more => simp [List.replicate_succ]

end Trimming

section Collecting

/-- One turn of the input loop, for the line `text` that was typed. -/
theorem collectLines_turn {line : Buffer 256} {typed : Typed 256} (tmp : Buffer tmpSize)
    (total : Nat) (read : readline line keys = .ok typed) :
    ∃ trimmed : Buffer 256, 0 ∈ trimmed.bytes ∧
      cstr trimmed.bytes = (cstr typed.buf.bytes).rdropWhile isBlank ∧
      collectLines line tmp total keys =
        if cstr trimmed.bytes = terminator.chars then
          .ok { tmp, total, keys := typed.keys, screen := .write (ascii "  > ") :: typed.echo }
        else if total + (cstr trimmed.bytes).length + 1 ≤ tmpSize then
          (inBounds (tmp.store total (cstr trimmed.bytes))).bind fun stored =>
            (inBounds (stored.store (total + (cstr trimmed.bytes).length) [newline])).bind fun stored =>
              (collectLines trimmed stored (total + (cstr trimmed.bytes).length + 1) typed.keys).map
                (·.showing (.write (ascii "  > ") :: typed.echo))
        else
          (collectLines trimmed tmp total typed.keys).map
            (·.showing (.write (ascii "  > ") :: typed.echo)) := by
  obtain ⟨trimmed, trim, terminated, text⟩ := trimLine_eq (readlineLoop_ok read).2
  refine ⟨trimmed, terminated, text, ?_⟩
  have compared := kstrcmp_eq_zero terminated terminator.zero_mem_memory
  obtain ⟨order, ordered⟩ := kstrcmp_exists terminated (.inl terminator.zero_mem_memory)
  rw [collectLines]
  split
  · rename_i failed
    rw [read] at failed
    cases failed
  · rename_i other found
    rw [read] at found
    cases found
    simp only [trim, inBounds, bind, Except.bind, ordered, kstrlen_eq terminated, cstr_take, pure,
      Except.pure]
    rw [ordered, Option.some.injEq, CString.cstr_memory] at compared
    simp only [compared]

/-- What the input loop leaves in the buffer: the bytes it started with, then
the accumulated ones. -/
structure Collected (tmp : Buffer tmpSize) (total : Nat) (input : Input) (added : List UInt8) : Prop where
  total_eq : input.total = total + added.length
  fits : input.total ≤ tmpSize
  bytes : input.tmp.bytes.take input.total = tmp.bytes.take total ++ added

theorem Collected.afterLine {stored stored' : Buffer tmpSize} {text added : List UInt8}
    (first : tmp.store total text = some stored)
    (second : stored.store (total + text.length) [newline] = some stored')
    (rest : Collected stored' (total + text.length + 1) input added) :
    Collected tmp total input (text ++ newline :: added) := by
  have front := Buffer.store_take second
  rw [Buffer.store_take first] at front
  refine ⟨?_, rest.fits, ?_⟩
  · rw [rest.total_eq]
    simp only [List.length_append, List.length_cons]
    omega
  · rw [rest.bytes]
    simp only [List.length_singleton] at front
    rw [front]
    simp

theorem collectLines_ok {line : Buffer 256} (run : collectLines line tmp total keys = .ok input)
    (inside : total ≤ tmpSize) : ∃ added, Collected tmp total input added := by
  generalize size : keys.length = count
  induction count using Nat.strongRecOn generalizing line tmp total keys input with
  | ind count ih =>
      cases read : readline line keys with
      | error reason =>
          rw [collectLines] at run
          split at run
          · cases run
          · rename_i other found
            rw [read] at found
            cases found
      | ok typed =>
          have fewer : typed.keys.length < count := size ▸ (readlineLoop_ok read).1
          obtain ⟨trimmed, _, _, turn⟩ := collectLines_turn tmp total read
          rw [turn] at run
          split at run
          · cases run
            exact ⟨[], by simp, inside, by simp⟩
          · split at run
            · obtain ⟨stored, first, run⟩ := bind_eq_ok.mp run
              obtain ⟨stored', second, run⟩ := bind_eq_ok.mp run
              rw [inBounds_eq_ok] at first second
              obtain ⟨rest, inner, rfl⟩ := map_eq_ok.mp run
              obtain ⟨added, collected⟩ := ih _ fewer inner (by omega) rfl
              exact ⟨_, Collected.afterLine first second ⟨collected.total_eq, collected.fits, collected.bytes⟩⟩
            · obtain ⟨rest, inner, rfl⟩ := map_eq_ok.mp run
              obtain ⟨added, collected⟩ := ih _ fewer inner inside rfl
              exact ⟨added, collected.total_eq, collected.fits, collected.bytes⟩

theorem collectLines_inside {line : Buffer 256} :
    collectLines line tmp total keys ≠ .error .outOfBounds := by
  generalize size : keys.length = count
  induction count using Nat.strongRecOn generalizing line tmp total keys with
  | ind count ih =>
      cases read : readline line keys with
      | error reason =>
          intro failed
          rw [collectLines] at failed
          split at failed
          · rename_i found
            cases failed
            exact readlineLoop_inside (by decide) found
          · rename_i other found
            rw [read] at found
            cases found
      | ok typed =>
          have fewer : typed.keys.length < count := size ▸ (readlineLoop_ok read).1
          obtain ⟨trimmed, _, _, turn⟩ := collectLines_turn tmp total read
          rw [turn]
          intro failed
          split at failed
          · cases failed
          · split at failed
            · rename_i room
              obtain ⟨stored, first⟩ := tmp.store_exists total (cstr trimmed.bytes) (by omega)
              obtain ⟨stored', second⟩ := stored.store_exists (total + (cstr trimmed.bytes).length)
                [newline] (by simpa using room)
              simp only [first, second, inBounds, Except.bind] at failed
              exact ih _ fewer rfl (map_eq_error.mp failed)
            · exact ih _ fewer rfl (map_eq_error.mp failed)

/-- The keys that type some lines, each ended by Enter. -/
def typedText (lines : List (List UInt8)) : List UInt8 :=
  lines.flatMap (· ++ [newline])

/-- A line that is stored as it is typed. -/
structure Verbatim (text : List UInt8) : Prop where
  plain : Plain (fun _ => true) text
  short : text.length < 256
  trimmed : text.rdropWhile isBlank = text
  notTerminator : text ≠ terminator.chars

theorem readline_plain {text : List UInt8} (buf : Buffer len) (rest : List UInt8)
    (plain : Plain (fun _ => true) text) (short : text.length < len) :
    ∃ typed, readline buf (text ++ newline :: rest) = .ok typed ∧ typed.keys = rest ∧
      cstr typed.buf.bytes = text := by
  obtain ⟨typed, run, left, _, front⟩ := readlineLoop_plain (n := 0) buf plain (by simpa using short)
  have noNul : 0 ∉ text := fun member => (plain 0 member).2.2.1 rfl
  rw [List.take_zero, List.nil_append] at front
  exact ⟨typed, run, left, cstr_of_take front noNul⟩

/-- Lines that fit, typed as they are and ended by a dot, all arrive in the
buffer. -/
theorem collectLines_verbatim {lines : List (List UInt8)} (line : Buffer 256) (tmp : Buffer tmpSize)
    (total : Nat) (rest : List UInt8) (verbatim : ∀ text ∈ lines, Verbatim text)
    (room : total + (typedText lines).length ≤ tmpSize) :
    ∃ input, collectLines line tmp total (typedText lines ++ (terminator.chars ++ newline :: rest)) =
        .ok input ∧ input.keys = rest ∧ Collected tmp total input (typedText lines) := by
  induction lines generalizing line tmp total with
  | nil =>
      have dot : Plain (fun _ => true) terminator.chars := by decide
      obtain ⟨typed, read, left, text⟩ := readline_plain line rest dot (by decide)
      obtain ⟨trimmed, _, trim, turn⟩ := collectLines_turn tmp total read
      have same : cstr trimmed.bytes = terminator.chars := by
        rw [trim, text]
        decide
      rw [if_pos same] at turn
      refine ⟨_, turn, left, ?_⟩
      exact ⟨by simp [typedText], by simpa [typedText] using room, by simp [typedText]⟩
  | cons text lines ih =>
      have kept := verbatim text (by simp)
      have split : typedText (text :: lines) = text ++ newline :: typedText lines := by
        simp [typedText]
      rw [split] at room ⊢
      simp only [List.length_append, List.length_cons] at room
      obtain ⟨typed, read, left, contents⟩ := readline_plain line
        (typedText lines ++ (terminator.chars ++ newline :: rest)) kept.plain kept.short
      obtain ⟨trimmed, _, trim, turn⟩ := collectLines_turn tmp total read
      rw [contents, kept.trimmed] at trim
      rw [trim, if_neg kept.notTerminator, if_pos (by omega), left] at turn
      obtain ⟨stored, first⟩ := tmp.store_exists total text (by omega)
      obtain ⟨stored', second⟩ := stored.store_exists (total + text.length) [newline] (by simp; omega)
      simp only [first, second, inBounds, Except.bind] at turn
      obtain ⟨input, run, remaining, collected⟩ := ih trimmed stored' (total + text.length + 1)
        (fun other member => verbatim other (by simp [member])) (by omega)
      rw [run, Except.map] at turn
      refine ⟨input.showing (.write (ascii "  > ") :: typed.echo), ?_, remaining, ?_⟩
      · simpa only [List.append_assoc, List.cons_append] using turn
      · exact Collected.afterLine first second ⟨collected.total_eq, collected.fits, collected.bytes⟩

end Collecting

end DugOS.Fs
