import DugOS.Console
import DugOS.Data.Tokens

namespace DugOS.Prototype

open Data

/-! `parse_cmd` of `dug_os.c`. -/

/-- The separators `" \t\n"`. -/
def delimiter (c : UInt8) : Bool :=
  c = 32 ∨ c = 9 ∨ c = newline

/-- The loop with the token that the last call of `strtok` returned, and room for
`n` more entries in `argv`. -/
def parseLoop {size : Nat} (input : Buffer size) (tok : Option Nat) (next : Nat) :
    Nat → Option (Buffer size × List Nat)
  | 0 => some (input, [])
  | n + 1 =>
      match tok with
      | none => some (input, [])
      | some start => do
          let (input, tok, next) ← strtok delimiter input next
          let (after, argv) ← parseLoop input tok next n
          return (after, start :: argv)

/-- The buffer as it is left, and where in it the entries of `argv` point to. -/
def parseCmd {size : Nat} (input : Buffer size) (maxArgs : Nat) : Option (Buffer size × List Nat) := do
  let (input, tok, next) ← strtok delimiter input 0
  parseLoop input tok next maxArgs

variable {size next : Nat} {input : Buffer size} {front line tail pre token : List UInt8}

theorem parseLoop_none (n : Nat) : parseLoop input none next n = some (input, []) := by
  cases n <;> rfl

/-- The entries of `argv`, when one token has been found and not yet stored. -/
theorem parseLoop_spec (n : Nat) (bytes : input.bytes = front ++ line ++ 0 :: tail) (noNul : 0 ∉ line)
    (ends : EndsWith front pre token line) :
    ∃ after argv changed, parseLoop input (some pre.length) front.length n = some (after, argv) ∧
      after.bytes = front ++ changed ++ 0 :: tail ∧ changed.length = line.length ∧
      strings after argv = (token :: tokens delimiter line).take n := by
  induction n generalizing input front line pre token with
  | zero => exact ⟨input, [], line, rfl, bytes, rfl, rfl⟩
  | succ n ih =>
      cases strtok_spec delimiter front rfl bytes noNul with
      | none following call runs =>
          refine ⟨input, [pre.length], line, ?_, bytes, rfl, ?_⟩
          · rw [parseLoop, call]
            simp [parseLoop_none]
          · rw [runs, strings, List.map_singleton, ends.reads bytes rfl]
            simp
      | some nextPre nextToken passed rest cut call runs cutBytes length cutNoNul cutEnds =>
          obtain ⟨after, argv, changed, run, afterBytes, same, read⟩ := ih cutBytes cutNoNul cutEnds
          have whole : after.bytes = front ++ (passed ++ changed) ++ 0 :: tail := by
            rw [afterBytes, List.append_assoc front]
          have keeps : (passed ++ changed).length = line.length := by
            rw [List.length_append, same, length]
          refine ⟨after, pre.length :: argv, passed ++ changed, ?_, whole, keeps, ?_⟩
          · simp only [parseLoop, call, Option.bind_eq_bind, Option.bind_some, run]
            rfl
          · rw [strings, List.map_cons, ends.reads whole keeps, ← strings, read, runs, List.take_succ_cons]

theorem parseCmd_spec (maxArgs : Nat) (ended : 0 ∈ input.bytes) :
    ∃ after argv, parseCmd input maxArgs = some (after, argv) ∧
      strings after argv = (tokens delimiter (cstr input.bytes)).take maxArgs := by
  obtain ⟨tail, bytes⟩ := cstr_split ended
  have whole : input.bytes = [] ++ cstr input.bytes ++ 0 :: tail := bytes
  cases strtok_spec delimiter [] rfl whole cstr_noNul with
  | none next call runs =>
      refine ⟨input, [], ?_, by rw [runs, List.take_nil, strings, List.map_nil]⟩
      simp only [List.length_nil] at call
      rw [parseCmd, call]
      exact parseLoop_none maxArgs
  | some pre token passed rest cut call runs cutBytes _ cutNoNul cutEnds =>
      obtain ⟨after, argv, _, run, _, _, read⟩ := parseLoop_spec maxArgs cutBytes cutNoNul cutEnds
      refine ⟨after, argv, ?_, by rw [read, runs]⟩
      have first : strtok delimiter input 0 = some (cut, some pre.length, ([] ++ passed).length) := call
      rw [parseCmd, first]
      exact run

end DugOS.Prototype
