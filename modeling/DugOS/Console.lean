import DugOS.Strings

namespace DugOS

open Data

/-! What a command reads from the keyboard and what it sends to the screen.

Input is the stream of characters that `kbd_getchar` will return. Output is
the sequence of calls into the VGA driver. A string argument of such a call is
the memory its pointer reads.
-/

inductive VgaColor where
  | black | lightGreen | lightCyan | lightRed | white
deriving DecidableEq, Repr

inductive VgaCall where
  | setColor (foreground background : VgaColor)
  | putchar (char : UInt8)
  | write (text : List UInt8)
  | writeln (text : List UInt8)
  | writeDec (number : Nat)
  | clear
deriving DecidableEq, Repr

/-- Why a command does not run to its end: it waits for a key that never
comes, it leaves an object in memory, or it switches the machine off. -/
inductive Stop where
  | blocked | outOfBounds | halted
deriving DecidableEq, Repr

def inBounds {α : Type} : Option α → Except Stop α
  | some value => .ok value
  | none => .error .outOfBounds

def ascii (text : String) : List UInt8 :=
  text.toList.map (fun char => UInt8.ofNat char.toNat)

abbrev newline : UInt8 := 10
abbrev backspace : UInt8 := 8

section Checked

variable {ε α β : Type}

theorem bind_eq_ok {action : Except ε α} {next : α → Except ε β} {result : β} :
    (action >>= next) = .ok result ↔ ∃ value, action = .ok value ∧ next value = .ok result := by
  cases action with
  | error reason => simp [bind, Except.bind]
  | ok value => simp [bind, Except.bind]

theorem bind_eq_error {action : Except ε α} {next : α → Except ε β} {reason : ε} :
    (action >>= next) = .error reason ↔
      action = .error reason ∨ ∃ value, action = .ok value ∧ next value = .error reason := by
  cases action with
  | error other => simp [bind, Except.bind]
  | ok value => simp [bind, Except.bind]

@[simp] theorem map_eq_ok {action : Except ε α} {change : α → β} {result : β} :
    action.map change = .ok result ↔ ∃ value, action = .ok value ∧ change value = result := by
  cases action with
  | error reason => simp [Except.map]
  | ok value => simp [Except.map]

@[simp] theorem map_eq_error {action : Except ε α} {change : α → β} {reason : ε} :
    action.map change = .error reason ↔ action = .error reason := by
  cases action with
  | error other => simp [Except.map]
  | ok value => simp [Except.map]

@[simp] theorem inBounds_eq_ok {access : Option α} {value : α} :
    inBounds access = .ok value ↔ access = some value := by
  cases access <;> simp [inBounds]

end Checked

/-- A line typed by the user: the buffer it was read into, the number of its
characters, the keys left over, and its echo. -/
structure Typed (len : Nat) where
  buf : Buffer len
  count : Nat
  keys : List UInt8
  echo : List VgaCall

def Typed.echoing {len : Nat} (call : VgaCall) (typed : Typed len) : Typed len :=
  { typed with echo := call :: typed.echo }

/-- The loop the three `readline` functions share, `n` characters into the
line. They differ in which characters they accept. -/
def readlineLoop (accepts : UInt8 → Bool) {len : Nat} :
    Buffer len → Nat → List UInt8 → Except Stop (Typed len)
  | _, _, [] => .error .blocked
  | buf, n, c :: keys =>
      if c = newline then do
        let buf ← inBounds (buf.store n [0])
        return { buf, count := n, keys, echo := [.putchar newline] }
      else if c = backspace then
        if 0 < n then
          (readlineLoop accepts buf (n - 1) keys).map (Typed.echoing (.putchar backspace))
        else
          readlineLoop accepts buf n keys
      else if accepts c ∧ n < len - 1 then do
        let buf ← inBounds (buf.store n [c])
        (readlineLoop accepts buf (n + 1) keys).map (Typed.echoing (.putchar c))
      else
        readlineLoop accepts buf n keys

variable {accepts : UInt8 → Bool} {len n : Nat} {buf : Buffer len} {keys rest text : List UInt8}
  {typed : Typed len}

theorem readlineLoop_ok (read : readlineLoop accepts buf n keys = .ok typed) :
    typed.keys.length < keys.length ∧ 0 ∈ typed.buf.bytes := by
  induction keys generalizing buf n typed with
  | nil => simp [readlineLoop] at read
  | cons c keys ih =>
      simp only [readlineLoop] at read
      split at read
      · obtain ⟨after, stored, result⟩ := bind_eq_ok.mp read
        cases result
        rw [inBounds_eq_ok] at stored
        refine ⟨by simp, ?_⟩
        rw [Buffer.store_bytes stored]
        simp
      · split at read
        · split at read
          · obtain ⟨inner, run, rfl⟩ := map_eq_ok.mp read
            obtain ⟨fewer, terminated⟩ := ih run
            exact ⟨Nat.lt_succ_of_lt fewer, terminated⟩
          · obtain ⟨fewer, terminated⟩ := ih read
            exact ⟨Nat.lt_succ_of_lt fewer, terminated⟩
        · split at read
          · obtain ⟨after, _, result⟩ := bind_eq_ok.mp read
            obtain ⟨inner, run, rfl⟩ := map_eq_ok.mp result
            obtain ⟨fewer, terminated⟩ := ih run
            exact ⟨Nat.lt_succ_of_lt fewer, terminated⟩
          · obtain ⟨fewer, terminated⟩ := ih read
            exact ⟨Nat.lt_succ_of_lt fewer, terminated⟩

theorem readlineLoop_inside (room : n < len) :
    readlineLoop accepts buf n keys ≠ .error .outOfBounds := by
  induction keys generalizing buf n with
  | nil => simp [readlineLoop]
  | cons c keys ih =>
      intro failed
      simp only [readlineLoop] at failed
      split at failed
      · obtain ⟨after, stored⟩ := buf.store_exists n [0] (by simpa using Nat.succ_le_of_lt room)
        simp [stored, inBounds, bind, Except.bind, pure, Except.pure] at failed
      · split at failed
        · split at failed
          · exact ih (by omega) (map_eq_error.mp failed)
          · exact ih room failed
        · split at failed
          · rename_i fits
            obtain ⟨after, stored⟩ := buf.store_exists n [c] (by simpa using Nat.succ_le_of_lt room)
            simp only [stored, inBounds, bind, Except.bind] at failed
            exact ih (by omega) (map_eq_error.mp failed)
          · exact ih room failed

/-- Where the loop stands between two keys: the buffer, the number of characters
on the line, and the characters echoed so far. -/
structure Editing (len : Nat) where
  buf : Buffer len
  n : Nat
  echo : List UInt8

/-- A turn of the loop, on any key but Enter. -/
def readlineKey (accepts : UInt8 → Bool) (edit : Editing len) (c : UInt8) : Except Stop (Editing len) :=
  if c = backspace then
    if 0 < edit.n then .ok { edit with n := edit.n - 1, echo := edit.echo ++ [backspace] } else .ok edit
  else if accepts c ∧ edit.n < len - 1 then do
    let buf ← inBounds (edit.buf.store edit.n [c])
    return { buf, n := edit.n + 1, echo := edit.echo ++ [c] }
  else .ok edit

/-- The rest of a line whose beginning was echoed as `echo`. -/
def Typed.after (echo : List UInt8) (typed : Typed len) : Typed len :=
  { typed with echo := echo.map .putchar ++ typed.echo }

theorem after_nil (read : Except Stop (Typed len)) : read.map (Typed.after []) = read := by
  cases read <;> rfl

theorem after_echoing (echo : List UInt8) (c : UInt8) (read : Except Stop (Typed len)) :
    (read.map (Typed.echoing (.putchar c))).map (Typed.after echo) = read.map (Typed.after (echo ++ [c])) := by
  cases read with
  | error stop => rfl
  | ok typed => simp [Except.map, Typed.after, Typed.echoing]

/-- The loop takes the keys before Enter one by one. -/
theorem readlineLoop_keys (accepts : UInt8 → Bool) (edit : Editing len) (rest : List UInt8)
    (noNewline : newline ∉ keys) :
    (readlineLoop accepts edit.buf edit.n (keys ++ rest)).map (Typed.after edit.echo) =
      keys.foldlM (readlineKey accepts) edit >>= fun edit =>
        (readlineLoop accepts edit.buf edit.n rest).map (Typed.after edit.echo) := by
  induction keys generalizing edit with
  | nil => rfl
  | cons c keys ih =>
      simp only [List.mem_cons, not_or] at noNewline
      rw [List.cons_append, readlineLoop, if_neg (Ne.symm noNewline.1), List.foldlM_cons, bind_assoc, readlineKey]
      split
      · split
        · rw [after_echoing]
          exact ih { edit with n := edit.n - 1, echo := edit.echo ++ [backspace] } noNewline.2
        · exact ih edit noNewline.2
      · split
        · cases edit.buf.store edit.n [c] with
          | none => rfl
          | some buf =>
              change ((readlineLoop accepts buf (edit.n + 1) (keys ++ rest)).map _).map _ = _
              rw [after_echoing]
              exact ih { buf, n := edit.n + 1, echo := edit.echo ++ [c] } noNewline.2
        · exact ih edit noNewline.2

/-- A key on a line with room for `room` characters, which takes no more. -/
def typeKeyWithin (room : Nat) (text : List UInt8) (c : UInt8) : List UInt8 :=
  if c = backspace then text.dropLast else if text.length < room then text ++ [c] else text

/-- The keys before Enter that the loop does not drop unseen. -/
def effective (accepts : UInt8 → Bool) (keys : List UInt8) : List UInt8 :=
  keys.filter fun c => c = backspace || accepts c

theorem effective_cons {c : UInt8} :
    effective accepts (c :: keys) =
      if c = backspace ∨ accepts c = true then c :: effective accepts keys else effective accepts keys := by
  simp only [effective, List.filter_cons, Bool.or_eq_true, decide_eq_true_eq]

theorem foldl_typeKeyWithin_plain {room : Nat} (plain : backspace ∉ keys) (fits : text.length + keys.length ≤ room) :
    keys.foldl (typeKeyWithin room) text = text ++ keys := by
  induction keys generalizing text with
  | nil => simp
  | cons c keys ih =>
      simp only [List.mem_cons, not_or] at plain
      simp only [List.length_cons] at fits
      rw [List.foldl_cons, typeKeyWithin, if_neg (Ne.symm plain.1), if_pos (by omega),
        ih plain.2 (by simp; omega), List.append_assoc, List.singleton_append]

/-- The line holds what the keys before Enter type on top of it. -/
theorem readlineLoop_typed (accepts : UInt8 → Bool) (buf : Buffer len) (rest : List UInt8)
    (noNewline : newline ∉ keys) (inside : n < len) (front : buf.bytes.take n = text) :
    ∃ typed, readlineLoop accepts buf n (keys ++ newline :: rest) = .ok typed ∧ typed.keys = rest ∧
      typed.count = ((effective accepts keys).foldl (typeKeyWithin (len - 1)) text).length ∧
      typed.buf.bytes.take (typed.count + 1) =
        (effective accepts keys).foldl (typeKeyWithin (len - 1)) text ++ [0] := by
  have length : text.length = n := by
    rw [← front, List.length_take, buf.length_eq]
    omega
  induction keys generalizing buf n text with
  | nil =>
      obtain ⟨after, stored⟩ := buf.store_exists n [0] (by simpa using Nat.succ_le_of_lt inside)
      refine ⟨⟨after, n, rest, [.putchar newline]⟩, ?_, rfl, length.symm, ?_⟩
      · simp [readlineLoop, stored, inBounds, bind, Except.bind, pure, Except.pure]
      · have terminated := Buffer.store_take stored
        rwa [front] at terminated
  | cons c keys ih =>
      simp only [List.mem_cons, not_or] at noNewline
      simp only [List.cons_append, readlineLoop, if_neg (Ne.symm noNewline.1)]
      by_cases erase : c = backspace
      · -- with nothing on the line, a backspace takes nothing back
        have shorter : buf.bytes.take (n - 1) = text.dropLast := by
          rw [← front, List.dropLast_eq_take, List.take_take, List.length_take, buf.length_eq]
          congr 1
          omega
        obtain ⟨typed, run, result⟩ := ih buf noNewline.2 (n := n - 1) (by omega) shorter (by simp [length])
        have seen : effective accepts (c :: keys) = c :: effective accepts keys := by
          rw [effective_cons, if_pos (.inl erase)]
        rw [if_pos erase, seen, List.foldl_cons, typeKeyWithin, if_pos erase]
        split
        · rw [run]
          exact ⟨_, rfl, result⟩
        · have zero : n = n - 1 := by omega
          rw [zero]
          exact ⟨typed, run, result⟩
      · rw [if_neg erase]
        by_cases accepted : accepts c = true
        · have seen : effective accepts (c :: keys) = c :: effective accepts keys := by
            rw [effective_cons, if_pos (.inr accepted)]
          rw [seen, List.foldl_cons, typeKeyWithin, if_neg erase, length]
          by_cases fits : n < len - 1
          · obtain ⟨after, stored⟩ := buf.store_exists n [c] (by simp; omega)
            have next : after.bytes.take (n + 1) = text ++ [c] := by
              rw [← front]
              simpa using Buffer.store_take stored
            obtain ⟨typed, run, result⟩ := ih after noNewline.2 (by omega) next (by simp [length])
            simp only [accepted, fits, and_self, if_true, stored, inBounds, bind, Except.bind, run, Except.map]
            exact ⟨_, rfl, result⟩
          · rw [if_neg fits, if_neg (fun both => fits both.2)]
            exact ih buf noNewline.2 inside front length
        · have dropped : effective accepts (c :: keys) = effective accepts keys := by
            rw [effective_cons, if_neg (not_or.mpr ⟨erase, accepted⟩)]
          rw [if_neg (fun both => accepted both.1), dropped]
          exact ih buf noNewline.2 inside front length

theorem readlineLoop_returns (accepts : UInt8 → Bool) (buf : Buffer len) (entered : newline ∈ keys)
    (inside : n < len) :
    ∃ typed, readlineLoop accepts buf n keys = .ok typed := by
  obtain ⟨front, rest, rfl, noNewline⟩ := List.eq_append_cons_of_mem entered
  obtain ⟨typed, run, _⟩ := readlineLoop_typed accepts buf rest noNewline inside rfl
  exact ⟨typed, run⟩

/-- Characters that can be typed as they are: no editing key, not a zero byte. -/
def Plain (accepts : UInt8 → Bool) (text : List UInt8) : Prop :=
  ∀ c ∈ text, c ≠ newline ∧ c ≠ backspace ∧ c ≠ 0 ∧ accepts c = true

instance (text : List UInt8) : Decidable (Plain accepts text) :=
  List.decidableBAll (fun c => c ≠ newline ∧ c ≠ backspace ∧ c ≠ 0 ∧ accepts c = true) text

/-- Typing plain text and Enter puts the text behind what the line already
holds. -/
theorem readlineLoop_plain (buf : Buffer len) (plain : Plain accepts text)
    (room : n + text.length < len) :
    ∃ typed : Typed len, readlineLoop accepts buf n (text ++ newline :: rest) = .ok typed ∧
      typed.keys = rest ∧ typed.count = n + text.length ∧
      typed.buf.bytes.take (n + text.length + 1) = buf.bytes.take n ++ text ++ [0] := by
  have noNewline : newline ∉ text := fun member => (plain newline member).1 rfl
  have noBackspace : backspace ∉ text := fun member => (plain backspace member).2.1 rfl
  have all : effective accepts text = text := by
    apply List.filter_eq_self.mpr
    intro c member
    simp [(plain c member).2.2.2]
  have length : (buf.bytes.take n).length = n := by
    rw [List.length_take, buf.length_eq]
    omega
  obtain ⟨typed, run, left, count, bytes⟩ := readlineLoop_typed (n := n) accepts buf rest noNewline (by omega) rfl
  rw [all, foldl_typeKeyWithin_plain noBackspace (by rw [length]; omega)] at count bytes
  rw [List.length_append, length] at count
  exact ⟨typed, run, left, count, count ▸ bytes⟩

end DugOS
