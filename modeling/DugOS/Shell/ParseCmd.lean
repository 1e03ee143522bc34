import DugOS.Prototype.ParseCmd

namespace DugOS.Shell

open Data

/-! `parse_cmd` of `shell.c`, beside the one of the prototype. -/

/-- `*p == ' ' || *p == '\t'`. -/
def separator (c : UInt8) : Bool :=
  c = 32 ∨ c = 9

/-- The loop with room for `n` more entries in `argv`. -/
def parseLoop {size : Nat} (buf : Buffer size) (p : Nat) : Nat → Option (Buffer size × List Nat)
  | 0 => do
      let _ ← buf.bytes[p]?
      return (buf, [])
  | n + 1 => do
      let here ← buf.bytes[p]?
      if here = 0 then return (buf, [])
      let skipped ← scan separator (buf.bytes.drop p)
      let start := p + skipped
      let first ← buf.bytes[start]?
      if first = 0 then return (buf, [])
      let length ← scan (fun c => c ≠ 0 && !separator c) (buf.bytes.drop start)
      let behind := start + length
      let last ← buf.bytes[behind]?
      if last = 0 then
        let (after, argv) ← parseLoop buf behind n
        return (after, start :: argv)
      let cut ← buf.store behind [0]
      let (after, argv) ← parseLoop cut (behind + 1) n
      return (after, start :: argv)

/-- The buffer as it is left, and where in it the entries of `argv` point to. -/
def parseCmd {size : Nat} (buf : Buffer size) (maxArgs : Nat) : Option (Buffer size × List Nat) :=
  parseLoop buf 0 maxArgs

variable {size n p next start : Nat} {buf cut after : Buffer size} {argv : List Nat} {front line tail : List UInt8}
  {here : UInt8}

/-! One turn of the loop cuts off a token as a call of `strtok` would. -/

theorem parseLoop_none (read : buf.bytes[p]? = some here) (nonzero : here ≠ 0)
    (call : strtok separator buf p = some (cut, none, next)) : parseLoop buf p (n + 1) = some (buf, []) := by
  obtain ⟨skipped, first, scanned, firstRead, ended | begun⟩ := strtok_cases call
  · simp only [parseLoop, Option.bind_eq_bind, read, Option.bind_some, if_neg nonzero, scanned, firstRead,
      if_pos ended.1, pure]
  · obtain ⟨_, _, _, _, _, found, _⟩ := begun
    simp at found

theorem parseLoop_some (read : buf.bytes[p]? = some here) (nonzero : here ≠ 0)
    (call : strtok separator buf p = some (cut, some start, next))
    (run : parseLoop cut next n = some (after, argv)) :
    parseLoop buf p (n + 1) = some (after, start :: argv) := by
  obtain ⟨skipped, first, scanned, firstRead, ended | begun⟩ := strtok_cases call
  · simp at ended
  · obtain ⟨firstNonzero, length, last, passed, lastRead, found, behind⟩ := begun
    rw [Option.some.injEq] at found
    subst found
    simp only [parseLoop, Option.bind_eq_bind, read, Option.bind_some, if_neg nonzero, scanned, firstRead,
      if_neg firstNonzero, passed, lastRead]
    rcases behind with ended | cutOff
    · obtain ⟨lastZero, rfl, rfl⟩ := ended
      rw [if_pos lastZero, run]
      rfl
    · obtain ⟨lastNonzero, stored, rfl⟩ := cutOff
      rw [if_neg lastNonzero, stored, Option.bind_some, run]
      rfl

theorem parseLoop_spec (n : Nat) (bytes : buf.bytes = front ++ line ++ 0 :: tail) (noNul : 0 ∉ line) :
    ∃ after argv changed, parseLoop buf front.length n = some (after, argv) ∧
      after.bytes = front ++ changed ++ 0 :: tail ∧ changed.length = line.length ∧
      strings after argv = (tokens separator line).take n := by
  induction n generalizing buf front line with
  | zero =>
      refine ⟨buf, [], line, ?_, bytes, rfl, rfl⟩
      rw [parseLoop, bytes, List.append_assoc, List.getElem?_append_right (Nat.le_refl _), Nat.sub_self]
      cases line <;> rfl
  | succ n ih =>
      cases line with
      | nil =>
          refine ⟨buf, [], [], ?_, bytes, rfl, rfl⟩
          have ended : buf.bytes[front.length]? = some 0 := by
            rw [bytes, List.append_nil, List.getElem?_append_right (Nat.le_refl _), Nat.sub_self]
            rfl
          rw [parseLoop, ended]
          rfl
      | cons first others =>
          have here : buf.bytes[front.length]? = some first := by
            rw [bytes, List.append_assoc, List.getElem?_append_right (Nat.le_refl _), Nat.sub_self]
            rfl
          have nonzero : first ≠ 0 := fun zero => noNul (by simp [zero])
          cases strtok_spec separator front rfl bytes noNul with
          | none next call runs =>
              refine ⟨buf, [], first :: others, parseLoop_none here nonzero call, bytes, rfl, ?_⟩
              rw [runs, List.take_nil, strings, List.map_nil]
          | some pre token passed rest cut call runs cutBytes length cutNoNul ends =>
              obtain ⟨after, argv, changed, run, afterBytes, same, read⟩ := ih cutBytes cutNoNul
              refine ⟨after, pre.length :: argv, passed ++ changed, parseLoop_some here nonzero call run, ?_, ?_, ?_⟩
              · rw [afterBytes, List.append_assoc front]
              · rw [List.length_append, same, length]
              · rw [strings, List.map_cons, ends.reads afterBytes same, ← strings, read, runs, List.take_succ_cons]

theorem tokens_delimiter (noNewline : newline ∉ line) :
    tokens Prototype.delimiter line = tokens separator line := by
  apply tokens_congr
  intro c member
  have other : c ≠ newline := ne_of_mem_of_not_mem member noNewline
  simp [Prototype.delimiter, separator, other]

/-- `argv` holds the first runs of the line, nothing from the terminator on is
written, and on a line without a newline the prototype finds the same runs. -/
theorem parseCmd_exact (maxArgs : Nat) (buf : Buffer size) (ended : 0 ∈ buf.bytes) :
    ∃ after argv, parseCmd buf maxArgs = some (after, argv) ∧
      argv.length = min maxArgs (tokens separator (cstr buf.bytes)).length ∧
      strings after argv = (tokens separator (cstr buf.bytes)).take maxArgs ∧
      after.bytes.drop (cstr buf.bytes).length = buf.bytes.drop (cstr buf.bytes).length ∧
      (newline ∉ cstr buf.bytes → ∃ other otherArgv, Prototype.parseCmd buf maxArgs = some (other, otherArgv) ∧
        strings other otherArgv = strings after argv) := by
  obtain ⟨tail, bytes⟩ := cstr_split ended
  have whole : buf.bytes = [] ++ cstr buf.bytes ++ 0 :: tail := bytes
  obtain ⟨after, argv, changed, run, afterBytes, same, read⟩ := parseLoop_spec maxArgs whole cstr_noNul
  refine ⟨after, argv, run, ?_, read, ?_, ?_⟩
  · have count := congrArg List.length read
    rw [strings, List.length_map, List.length_take] at count
    exact count
  · have left : buf.bytes.drop (cstr buf.bytes).length = 0 :: tail := by
      nth_rewrite 2 [bytes]
      exact List.drop_left
    rw [left, afterBytes, List.nil_append, ← same, List.drop_left]
  · intro noNewline
    obtain ⟨other, otherArgv, otherRun, otherRead⟩ := Prototype.parseCmd_spec maxArgs ended
    exact ⟨other, otherArgv, otherRun, by rw [otherRead, read, tokens_delimiter noNewline]⟩

/-- Two entries of `" x\tyz x"`. -/
theorem two_entries_exact : ∃ after argv,
    parseCmd ⟨[32, 120, 9, 121, 122, 32, 120, 0, 7], rfl⟩ 2 = some (after, argv) ∧
      strings after argv = [[120], [121, 122]] ∧ after.bytes.drop 7 = [0, 7] := by
  obtain ⟨after, argv, run, _, read, rest, _⟩ :=
    parseCmd_exact 2 ⟨[32, 120, 9, 121, 122, 32, 120, 0, 7], rfl⟩ (by decide)
  exact ⟨after, argv, run, read, rest⟩

end DugOS.Shell
