import DugOS.Dir.Operations

namespace DugOS.Shell

open Data

/-! The three copies of `readline`.

A line is a stack of characters: a key is pushed, a backspace pops. The shell
drops keys that are not printable, the other two copies take them.
-/

/-- `c >= 0x20 && c <= 0x7E`, whether `char` is signed or not. -/
def printable (c : UInt8) : Bool :=
  0x20 ≤ c ∧ c ≤ 0x7E

/-- `readline` of `shell.c`. -/
def readline {len : Nat} (buf : Buffer len) (keys : List UInt8) : Except Stop (Typed len) :=
  readlineLoop printable buf 0 keys

/-- Enter, backspace, and what the loop accepts. -/
def heeded (accepts : UInt8 → Bool) (c : UInt8) : Bool :=
  c = newline ∨ c = backspace ∨ accepts c = true

/-- What a caller gets from the line: the buffer and the number of characters. -/
def line {len : Nat} (typed : Typed len) : Buffer len × Nat :=
  (typed.buf, typed.count)

variable {len n : Nat} {keys : List UInt8}

theorem line_echoing (call : VgaCall) (read : Except Stop (Typed len)) :
    (read.map (Typed.echoing call)).map line = read.map line := by
  cases read <;> rfl

/-- Keys that are not accepted might as well not have been typed. -/
theorem readlineLoop_filter (accepts : UInt8 → Bool) (buf : Buffer len) (n : Nat) (keys : List UInt8) :
    (readlineLoop accepts buf n keys).map line =
      (readlineLoop (fun _ => true) buf n (keys.filter (heeded accepts))).map line := by
  induction keys generalizing buf n with
  | nil => rfl
  | cons c keys ih =>
      by_cases feed : c = newline
      · have kept : heeded accepts c = true := decide_eq_true (.inl feed)
        rw [List.filter_cons_of_pos kept, readlineLoop, readlineLoop, if_pos feed, if_pos feed]
        cases buf.store n [0] <;> rfl
      · by_cases erase : c = backspace
        · have kept : heeded accepts c = true := decide_eq_true (.inr (.inl erase))
          rw [List.filter_cons_of_pos kept, readlineLoop, readlineLoop, if_neg feed, if_neg feed, if_pos erase,
            if_pos erase]
          split
          · rw [line_echoing, line_echoing, ih]
          · exact ih buf n
        · by_cases accepted : accepts c = true
          · have kept : heeded accepts c = true := decide_eq_true (.inr (.inr accepted))
            rw [List.filter_cons_of_pos kept, readlineLoop, readlineLoop, if_neg feed, if_neg feed, if_neg erase,
              if_neg erase]
            by_cases room : n < len - 1
            · rw [if_pos ⟨accepted, room⟩, if_pos ⟨rfl, room⟩]
              cases buf.store n [c] with
              | none => rfl
              | some after =>
                  change ((readlineLoop accepts after (n + 1) keys).map _).map line =
                    ((readlineLoop _ after (n + 1) _).map _).map line
                  rw [line_echoing, line_echoing, ih]
            · rw [if_neg (fun both => room both.2), if_neg (fun both => room both.2)]
              exact ih buf n
          · have dropped : ¬ heeded accepts c = true := by
              simp [heeded, feed, erase, accepted]
            rw [List.filter_cons_of_neg dropped, readlineLoop, if_neg feed, if_neg erase,
              if_neg (fun both => accepted both.1)]
            exact ih buf n

/-- Each `readline` leaves the line that its keys up to Enter push and pop, and
that of the shell is the one of `fs.c` on the keys that it does not drop. -/
theorem readline_is_stack (room : 1 ≤ len) (buf : Buffer len) (keys : List UInt8) :
    (newline ∈ keys → ∃ front rest typed, keys = front ++ newline :: rest ∧ newline ∉ front ∧
      Fs.readline buf keys = .ok typed ∧ Dir.readline buf keys = .ok typed ∧ typed.keys = rest ∧
      typed.count = (front.foldl (typeKeyWithin (len - 1)) []).length ∧
      typed.buf.bytes.take (typed.count + 1) = front.foldl (typeKeyWithin (len - 1)) [] ++ [0]) ∧
    (readline buf keys).map line =
      (Fs.readline buf (keys.filter (heeded printable))).map line := by
  constructor
  · intro entered
    obtain ⟨front, rest, rfl, noNewline⟩ := List.eq_append_cons_of_mem entered
    obtain ⟨typed, run, left, count, bytes⟩ :=
      readlineLoop_typed (fun _ => true) buf rest noNewline room List.take_zero
    have all : effective (fun _ => true) front = front := by simp [effective]
    rw [all] at count bytes
    exact ⟨front, rest, typed, rfl, noNewline, run, run, left, count, bytes⟩
  · exact readlineLoop_filter printable buf 0 keys

/-- Four keys and a backspace on a line of three characters, and one key more. -/
theorem full_line_is_stack : ∃ front rest typed,
    [120, 121, 122, 119, backspace, 121, newline, 122] = front ++ newline :: rest ∧ newline ∉ front ∧
    Fs.readline (.zeros 4) [120, 121, 122, 119, backspace, 121, newline, 122] = .ok typed ∧ typed.keys = rest ∧
    typed.buf.bytes.take (typed.count + 1) = front.foldl (typeKeyWithin 3) [] ++ [0] := by
  obtain ⟨front, rest, typed, split, noNewline, run, _, left, _, bytes⟩ :=
    (readline_is_stack (show 1 ≤ 4 by decide) (.zeros 4) [120, 121, 122, 119, backspace, 121, newline, 122]).1
      (by decide)
  exact ⟨front, rest, typed, split, noNewline, run, left, bytes⟩

end DugOS.Shell
