import DugOS.Data.Buffer

namespace DugOS.Data

/-! Strings cut into tokens in place.

A token is a longest run of characters that are not separators. Cutting a string
in place puts a zero byte behind each token and keeps where it starts.
-/

/-- The longest runs of characters that are not separators. -/
def tokens (isSep : UInt8 → Bool) (line : List UInt8) : List (List UInt8) :=
  (line.splitOnP isSep).filter (· ≠ [])

/-- The entries of `argv` read as strings, when the memory is `buf`. -/
def strings {size : Nat} (buf : Buffer size) (argv : List Nat) : List (List UInt8) :=
  argv.map fun start => cstr (buf.bytes.drop start)

/-- How far `while (test(*p)) p++` goes, on the memory that `p` points to. -/
def scan (test : UInt8 → Bool) : List UInt8 → Option Nat
  | [] => none
  | c :: rest => if test c then (scan test rest).map (· + 1) else some 0

/-- `strtok` of the C library on a string that starts at `p`: the token if there
is one, and where the next search starts. -/
def strtok {size : Nat} (isSep : UInt8 → Bool) (buf : Buffer size) (p : Nat) :
    Option (Buffer size × Option Nat × Nat) := do
  let skipped ← scan isSep (buf.bytes.drop p)
  let start := p + skipped
  let first ← buf.bytes[start]?
  if first = 0 then return (buf, none, start)
  let length ← scan (fun c => c ≠ 0 && !isSep c) (buf.bytes.drop start)
  let behind := start + length
  let last ← buf.bytes[behind]?
  if last = 0 then return (buf, some start, behind)
  let cut ← buf.store behind [0]
  return (cut, some start, behind + 1)

variable {isSep test : UInt8 → Bool} {line rest token blanks front tail text : List UInt8} {c : UInt8} {size : Nat}
  {buf : Buffer size}

theorem scan_append (all : ∀ c ∈ text, test c = true) (stop : test c = false) :
    scan test (text ++ c :: rest) = some text.length := by
  induction text with
  | nil => simp [scan, stop]
  | cons first text ih =>
      have passed : test first = true := all first (by simp)
      rw [List.cons_append, scan, if_pos passed, ih (fun c member => all c (by simp [member]))]
      rfl

section Runs

theorem tokens_congr {other : UInt8 → Bool} (same : ∀ c ∈ line, isSep c = other c) :
    tokens isSep line = tokens other line := by
  have pieces : line.splitOnP isSep = line.splitOnP other := by
    induction line with
    | nil => rfl
    | cons c line ih =>
        rw [List.splitOnP_cons_eq_if_modifyHead, List.splitOnP_cons_eq_if_modifyHead, same c (by simp),
          ih (fun c member => same c (by simp [member]))]
  rw [tokens, pieces, tokens]

theorem tokens_sep (sep : isSep c = true) : tokens isSep (c :: rest) = tokens isSep rest := by
  rw [tokens, List.splitOnP_cons_eq_if_modifyHead, if_pos sep]
  simp [tokens]

theorem tokens_blanks (all : ∀ c ∈ blanks, isSep c = true) : tokens isSep (blanks ++ rest) = tokens isSep rest := by
  induction blanks with
  | nil => rfl
  | cons c blanks ih =>
      rw [List.cons_append, tokens_sep (all c (by simp)), ih (fun c member => all c (by simp [member]))]

theorem tokens_last (nonempty : token ≠ []) (clean : ∀ c ∈ token, isSep c = false) :
    tokens isSep token = [token] := by
  rw [tokens, List.splitOnP_eq_singleton clean]
  simp [nonempty]

theorem tokens_first (nonempty : token ≠ []) (clean : ∀ c ∈ token, isSep c = false) (sep : isSep c = true) :
    tokens isSep (token ++ c :: rest) = token :: tokens isSep rest := by
  rw [tokens, List.splitOnP_append_cons_of_forall_mem clean c sep]
  simp [nonempty, tokens]

/-- The first token of a line, with what stands before and behind it. -/
inductive FirstToken (isSep : UInt8 → Bool) (line : List UInt8) : Prop
  | none (blank : ∀ c ∈ line, isSep c = true) (runs : tokens isSep line = []) : FirstToken isSep line
  | last (blanks token : List UInt8) (split : line = blanks ++ token) (blank : ∀ c ∈ blanks, isSep c = true)
      (nonempty : token ≠ []) (clean : ∀ c ∈ token, isSep c = false) (runs : tokens isSep line = [token]) :
      FirstToken isSep line
  | cut (blanks token : List UInt8) (c : UInt8) (rest : List UInt8) (split : line = blanks ++ token ++ c :: rest)
      (blank : ∀ c ∈ blanks, isSep c = true) (nonempty : token ≠ []) (clean : ∀ c ∈ token, isSep c = false)
      (sep : isSep c = true) (runs : tokens isSep line = token :: tokens isSep rest) : FirstToken isSep line

theorem firstToken (isSep : UInt8 → Bool) (line : List UInt8) : FirstToken isSep line := by
  have blank : ∀ c ∈ line.takeWhile isSep, isSep c = true := fun c member => List.mem_takeWhile_imp member
  have split : line.takeWhile isSep ++ line.dropWhile isSep = line := List.takeWhile_append_dropWhile
  have skipped : tokens isSep (line.takeWhile isSep ++ line.dropWhile isSep) = tokens isSep (line.dropWhile isSep) :=
    tokens_blanks blank
  rw [split] at skipped
  cases begun : line.dropWhile isSep with
  | nil =>
      rw [begun, List.append_nil] at split
      rw [begun] at skipped
      rw [split] at blank
      exact .none blank skipped
  | cons first behind =>
      have other : isSep first = false := by
        have stopped := List.head?_dropWhile_not isSep line
        rw [begun] at stopped
        exact stopped
      have clean : ∀ c ∈ (first :: behind).takeWhile (fun c => !isSep c), isSep c = false := by
        intro c member
        simpa using List.mem_takeWhile_imp member
      have nonempty : (first :: behind).takeWhile (fun c => !isSep c) ≠ [] := by
        simp [other]
      have rejoined : (first :: behind).takeWhile (fun c => !isSep c) ++
          (first :: behind).dropWhile (fun c => !isSep c) = first :: behind := List.takeWhile_append_dropWhile
      rw [begun] at split skipped
      cases ended : (first :: behind).dropWhile (fun c => !isSep c) with
      | nil =>
          rw [ended, List.append_nil] at rejoined
          rw [rejoined] at clean
          exact .last _ _ split.symm blank (by simp) clean (skipped.trans (tokens_last (by simp) clean))
      | cons c rest =>
          have sep : isSep c = true := by
            have stopped := List.head?_dropWhile_not (fun c => !isSep c) (first :: behind)
            rw [ended] at stopped
            simpa using stopped
          rw [ended] at rejoined
          have runs : tokens isSep (_ ++ c :: rest) = _ := tokens_first nonempty clean sep
          rw [rejoined] at runs
          refine .cut _ _ c rest ?_ blank nonempty clean sep (skipped.trans runs)
          rw [List.append_assoc, rejoined, split]

end Runs

section Cutting

theorem strtok_cases {p next : Nat} {tok : Option Nat} {cut : Buffer size}
    (call : strtok isSep buf p = some (cut, tok, next)) :
    ∃ skipped first, scan isSep (buf.bytes.drop p) = some skipped ∧ buf.bytes[p + skipped]? = some first ∧
      (first = 0 ∧ cut = buf ∧ tok = none ∧ next = p + skipped ∨
        first ≠ 0 ∧ ∃ length last,
          scan (fun c => c ≠ 0 && !isSep c) (buf.bytes.drop (p + skipped)) = some length ∧
          buf.bytes[p + skipped + length]? = some last ∧ tok = some (p + skipped) ∧
          (last = 0 ∧ cut = buf ∧ next = p + skipped + length ∨
            last ≠ 0 ∧ buf.store (p + skipped + length) [0] = some cut ∧ next = p + skipped + length + 1)) := by
  simp only [strtok, Option.bind_eq_bind, Option.bind_eq_some_iff, pure] at call
  obtain ⟨skipped, scanned, first, firstRead, call⟩ := call
  refine ⟨skipped, first, scanned, firstRead, ?_⟩
  by_cases ended : first = 0
  · rw [if_pos ended] at call
    simp only [Option.some.injEq, Prod.mk.injEq] at call
    exact .inl ⟨ended, call.1.symm, call.2.1.symm, call.2.2.symm⟩
  · rw [if_neg ended] at call
    simp only [Option.bind_eq_some_iff] at call
    obtain ⟨length, passed, last, lastRead, call⟩ := call
    refine .inr ⟨ended, length, last, passed, lastRead, ?_⟩
    by_cases lastZero : last = 0
    · rw [if_pos lastZero] at call
      simp only [Option.some.injEq, Prod.mk.injEq] at call
      exact ⟨call.2.1.symm, .inl ⟨lastZero, call.1.symm, call.2.2.symm⟩⟩
    · rw [if_neg lastZero] at call
      simp only [Option.bind_eq_some_iff, Option.some.injEq, Prod.mk.injEq] at call
      obtain ⟨stored, store, rfl, start, behind⟩ := call
      exact ⟨start.symm, .inr ⟨lastZero, store, behind.symm⟩⟩

/-- What stands before the place where the next search starts: the token that was
cut off, with its terminator unless this is the end of the string. -/
def EndsWith (front pre token line : List UInt8) : Prop :=
  0 ∉ token ∧ (front = pre ++ token ++ [0] ∨ front = pre ++ token ∧ line = [])

/-- The token stays readable whatever happens to the rest of the string. -/
theorem EndsWith.reads {pre changed memory : List UInt8} (ends : EndsWith front pre token line)
    (bytes : memory = front ++ changed ++ 0 :: tail) (length : changed.length = line.length) :
    cstr (memory.drop pre.length) = token := by
  obtain ⟨noNul, inner | last⟩ := ends
  · rw [bytes, inner, List.append_assoc, List.append_assoc, List.append_assoc, List.drop_left, cstr_append noNul]
    simp
  · obtain ⟨same, empty⟩ := last
    rw [empty, List.length_nil, List.length_eq_zero_iff] at length
    rw [bytes, same, length, List.append_nil, List.append_assoc, List.drop_left, cstr_append noNul]
    simp

/-- What a call of `strtok` does with a string that starts behind `front`. -/
inductive Strtok (isSep : UInt8 → Bool) (buf : Buffer size) (front line tail : List UInt8) : Prop
  | none (next : Nat) (call : strtok isSep buf front.length = some (buf, .none, next))
      (runs : tokens isSep line = []) : Strtok isSep buf front line tail
  | some (pre token passed rest : List UInt8) (after : Buffer size)
      (call : strtok isSep buf front.length = some (after, .some pre.length, (front ++ passed).length))
      (runs : tokens isSep line = token :: tokens isSep rest)
      (bytes : after.bytes = front ++ passed ++ rest ++ 0 :: tail)
      (length : passed.length + rest.length = line.length) (noNul : 0 ∉ rest)
      (ends : EndsWith (front ++ passed) pre token rest) : Strtok isSep buf front line tail

/-- The token that `strtok` finds ends at a separator or at the terminator. -/
theorem strtok_token (bytes : buf.bytes = front ++ blanks ++ token ++ c :: rest)
    (blank : ∀ c ∈ blanks, isSep c = true) (nonempty : token ≠ []) (clean : ∀ c ∈ token, isSep c = false)
    (noNul : 0 ∉ token) (stop : c = 0 ∨ isSep c = true) :
    strtok isSep buf front.length =
      if c = 0 then some (buf, some (front ++ blanks).length, (front ++ blanks ++ token).length)
      else (buf.store (front ++ blanks ++ token).length [0]).map fun cut =>
        (cut, some (front ++ blanks).length, (front ++ blanks ++ token).length + 1) := by
  obtain ⟨first, others, rfl⟩ := List.exists_cons_of_ne_nil nonempty
  have firstNonzero : first ≠ 0 := fun zero => noNul (by simp [zero])
  have skipped : scan isSep (buf.bytes.drop front.length) = some blanks.length := by
    rw [bytes, List.append_assoc, List.append_assoc, List.drop_left]
    exact scan_append blank (clean first (by simp))
  have here : buf.bytes[(front ++ blanks).length]? = some first := by
    rw [bytes, List.append_assoc (front ++ blanks), List.getElem?_append_right (Nat.le_refl _), Nat.sub_self]
    rfl
  have passed : scan (fun c => c ≠ 0 && !isSep c) (buf.bytes.drop (front ++ blanks).length) =
      some (first :: others).length := by
    rw [bytes, List.append_assoc (front ++ blanks), List.drop_left]
    apply scan_append
    · intro other member
      have otherNonzero : other ≠ 0 := fun zero => noNul (zero ▸ member)
      simp [otherNonzero, clean other member]
    · rcases stop with zero | sep
      · simp [zero]
      · simp [sep]
  have behind : buf.bytes[(front ++ blanks ++ first :: others).length]? = some c := by
    rw [bytes, List.getElem?_append_right (Nat.le_refl _), Nat.sub_self]
    rfl
  rw [List.length_append] at here passed
  rw [List.length_append, List.length_append] at behind
  simp only [strtok, skipped, Option.bind_eq_bind, Option.bind_some, here, if_neg firstNonzero, passed, behind,
    List.length_append]
  split
  · rfl
  · cases buf.store (front.length + blanks.length + (first :: others).length) [0] <;> rfl

/-- A token before a separator is cut off there. -/
theorem strtok_cut (bytes : buf.bytes = front ++ blanks ++ token ++ c :: rest)
    (blank : ∀ c ∈ blanks, isSep c = true) (nonempty : token ≠ []) (clean : ∀ c ∈ token, isSep c = false)
    (noNul : 0 ∉ token) (nonzero : c ≠ 0) (sep : isSep c = true) :
    ∃ after, strtok isSep buf front.length =
        some (after, some (front ++ blanks).length, (front ++ blanks ++ token ++ [0]).length) ∧
      after.bytes = front ++ blanks ++ token ++ [0] ++ rest := by
  have call := strtok_token bytes blank nonempty clean noNul (.inr sep)
  rw [if_neg nonzero] at call
  have room : (front ++ blanks ++ token).length + 1 ≤ size := by
    have length := buf.length_eq
    rw [bytes, List.length_append, List.length_cons] at length
    omega
  obtain ⟨after, stored⟩ := buf.store_exists (front ++ blanks ++ token).length [0] room
  rw [stored, Option.map_some] at call
  have behind : (front ++ blanks ++ token ++ [0]).length = (front ++ blanks ++ token).length + 1 :=
    List.length_append
  refine ⟨after, ?_, ?_⟩
  · rw [call, behind]
  · rw [Buffer.store_bytes stored, bytes, List.take_left, List.length_singleton, List.drop_length_add_append,
      List.drop_one, List.tail_cons]

theorem strtok_spec (isSep : UInt8 → Bool) (front : List UInt8) (nul : isSep 0 = false)
    (bytes : buf.bytes = front ++ line ++ 0 :: tail) (noNul : 0 ∉ line) : Strtok isSep buf front line tail := by
  cases firstToken isSep line with
  | none blank runs =>
      have skipped : scan isSep (buf.bytes.drop front.length) = some line.length := by
        rw [bytes, List.append_assoc, List.drop_left]
        exact scan_append blank nul
      have ended : buf.bytes[front.length + line.length]? = some 0 := by
        rw [bytes, ← List.length_append, List.getElem?_append_right (Nat.le_refl _), Nat.sub_self]
        rfl
      refine .none (front.length + line.length) ?_ runs
      simp only [strtok, skipped, Option.bind_eq_bind, Option.bind_some, ended, if_true, pure]
  | last blanks token split blank nonempty clean runs =>
      subst split
      have noNulToken : 0 ∉ token := fun member => noNul (List.mem_append_right _ member)
      rw [← List.append_assoc] at bytes
      have call := strtok_token bytes blank nonempty clean noNulToken (.inl rfl)
      rw [if_pos rfl] at call
      refine .some (front ++ blanks) token (blanks ++ token) [] buf ?_ runs ?_ rfl (by simp)
        ⟨noNulToken, .inr ⟨?_, rfl⟩⟩
      · rw [call, List.append_assoc]
      · rw [bytes, List.append_nil, List.append_assoc front]
      · rw [List.append_assoc]
  | cut blanks token c rest split blank nonempty clean sep runs =>
      subst split
      simp only [List.mem_append, List.mem_cons, not_or] at noNul
      obtain ⟨⟨_, noNulToken⟩, nonzero, noNulRest⟩ := noNul
      have whole : buf.bytes = front ++ blanks ++ token ++ c :: (rest ++ 0 :: tail) := by
        rw [bytes]
        simp
      obtain ⟨after, call, cut⟩ := strtok_cut whole blank nonempty clean noNulToken (Ne.symm nonzero) sep
      have regrouped : front ++ (blanks ++ token ++ [0]) = front ++ blanks ++ token ++ [0] := by
        simp only [List.append_assoc]
      refine .some (front ++ blanks) token (blanks ++ token ++ [0]) rest after ?_ runs ?_ ?_ noNulRest
        ⟨noNulToken, .inl regrouped⟩
      · rw [regrouped, call]
      · rw [regrouped, cut, ← List.append_assoc]
      · simp only [List.length_append, List.length_cons, List.length_nil]
        omega

end Cutting

end DugOS.Data
