import DugOS.Dir.Operations

namespace DugOS.Dir

open Data Fs

/-! The path functions of `dir.c` on the strings they work on. -/

abbrev rootPath : List UInt8 := [slash]

/-- What `build_path` puts before a relative name. -/
def separated (cwd : List UInt8) : List UInt8 :=
  if cwd = rootPath ∨ dirNameLen - 2 ≤ cwd.length then cwd else cwd ++ [slash]

def joinPath (cwd name : List UInt8) : List UInt8 :=
  if name.head? = some slash then
    if 1 < name.length ∧ name.getLast? = some slash then name.dropLast else name
  else separated cwd ++ name

/-- The number of characters that `build_path` copies into its buffer. -/
def joinLength (cwd name : List UInt8) : Nat :=
  if name.head? = some slash then name.length else (separated cwd).length + name.length

def PathFits (cwd name : List UInt8) : Prop :=
  joinLength cwd name ≤ 63

instance (cwd name : List UInt8) : Decidable (PathFits cwd name) :=
  inferInstanceAs (Decidable (joinLength cwd name ≤ 63))

def parentOf (path : List UInt8) : List UInt8 :=
  let front := path.rdropWhile (· ≠ slash)
  if path = rootPath ∨ front.length ≤ 1 then rootPath else front.dropLast

/-- `child` is `parent` with one more component. -/
def IsChild (child parent : List UInt8) : Prop :=
  ∃ name, name ≠ [] ∧ slash ∉ name ∧
    child = (if parent = rootPath then rootPath else parent ++ [slash]) ++ name

/-- The buffer holds `path` and its zero byte. -/
structure Spells {size : Nat} (buf : Buffer size) (path : List UInt8) : Prop where
  terminated : 0 ∈ buf.bytes
  text : cstr buf.bytes = path

variable {size : Nat} {buf out after : Buffer dirNameLen} {path cwd : List UInt8} {name : CString} {dir : DirState}

theorem Spells.length_lt (spells : Spells buf path) : path.length < dirNameLen := by
  have short := cstr_length_lt spells.terminated
  rwa [spells.text, buf.length_eq] at short

theorem Spells.noNul (spells : Spells buf path) : 0 ∉ path :=
  spells.text ▸ cstr_noNul

theorem Spells.kstrlen (spells : Spells buf path) : kstrlen buf.bytes = some path.length := by
  rw [kstrlen_eq spells.terminated, spells.text]

theorem Spells.kstrcmp (spells : Spells buf path) (memory : List UInt8) (terminated : 0 ∈ memory) :
    ∃ order, kstrcmp buf.bytes memory = some order ∧ (order = 0 ↔ path = cstr memory) := by
  obtain ⟨order, compared⟩ := kstrcmp_exists spells.terminated (.inl terminated)
  refine ⟨order, compared, ?_⟩
  rw [← spells.text, ← kstrcmp_eq_zero spells.terminated terminated, compared, Option.some.injEq]

theorem Spells.copy {source : List UInt8} (out : Buffer dirNameLen) (terminated : 0 ∈ source)
    (short : (cstr source).length < dirNameLen) :
    ∃ after, kstrncpy out 0 source dirNameLen = some after ∧ Spells after (cstr source) := by
  refine ⟨_, kstrncpy_field out (.inl terminated), ?_, ?_⟩
  · exact (zero_mem_padded cstr_noNul).mpr short
  · exact cstr_padded_of_short cstr_noNul short.le

/-- Whether a row ends is seen from the length of the string in it. -/
theorem Spells.of_text {other : Buffer dirNameLen} (spells : Spells buf path)
    (same : cstr other.bytes = cstr buf.bytes) : Spells other path := by
  rw [spells.text] at same
  refine ⟨?_, same⟩
  by_contra unterminated
  have short := spells.length_lt
  rw [← same, cstr_of_noNul unterminated, other.length_eq] at short
  exact Nat.lt_irrefl _ short

/-- A row keeps its string when it is copied, whether it ends or not. -/
theorem copied_text {old row : Buffer dirNameLen} (copied : kstrncpy old 0 buf.bytes dirNameLen = some row) :
    cstr row.bytes = cstr buf.bytes := by
  rw [kstrncpy_field old (.inr (Nat.le_of_eq buf.length_eq.symm))] at copied
  cases copied
  exact cstr_padded_of_short cstr_noNul (cstr_length_le.trans_eq buf.length_eq)

theorem Spells.store (text : List UInt8) (offset : Nat) (spells : Spells out path)
    (within : offset ≤ path.length) (noNul : 0 ∉ text) (room : offset + text.length < dirNameLen) :
    ∃ after, out.store offset (text ++ [0]) = some after ∧ Spells after (path.take offset ++ text) := by
  obtain ⟨after, stored⟩ := out.store_exists offset (text ++ [0]) (by simp; omega)
  obtain ⟨terminated, reads⟩ := cstr_store stored (by rwa [spells.text]) noNul
  exact ⟨after, stored, terminated, by rw [reads, spells.text]⟩

theorem Spells.append (spells : Spells out path) (name : CString) :
    ∃ after, kstrncpy out path.length name.memory (dirNameLen - path.length) = some after ∧
      (path.length + name.chars.length < dirNameLen → Spells after (path ++ name.chars)) ∧
      (dirNameLen ≤ path.length + name.chars.length → 0 ∉ after.bytes) := by
  have inside : path.length ≤ dirNameLen := spells.length_lt.le
  obtain ⟨after, copied, bytes⟩ := kstrncpy_tail out inside name.zero_mem_memory
  have front : out.bytes.take path.length = path := by
    rw [← spells.text, cstr_take]
  rw [front, CString.cstr_memory] at bytes
  refine ⟨after, copied, ?_, ?_⟩
  · intro fits
    have ends : 0 ∈ padded (dirNameLen - path.length) name.chars :=
      (zero_mem_padded name.noNul).mpr (by omega)
    refine ⟨by rw [bytes]; exact List.mem_append_right _ ends, ?_⟩
    rw [bytes, cstr_append spells.noNul, cstr_padded_of_short name.noNul (by omega)]
  · intro full
    have endless : 0 ∉ padded (dirNameLen - path.length) name.chars :=
      (zero_mem_padded name.noNul).not.mpr (by omega)
    rw [bytes, List.mem_append, not_or]
    exact ⟨spells.noNul, endless⟩

theorem Spells.getElem? {i : Nat} (spells : Spells buf path) (below : i < path.length) :
    buf.bytes[i]? = path[i]? := by
  have front : buf.bytes.take path.length = path := by
    rw [← spells.text, cstr_take]
  rw [← List.getElem?_take_of_lt below, front]

section Building

theorem head?_memory_eq_slash : name.memory.head? = some slash ↔ name.chars.head? = some slash := by
  cases chars : name.chars with
  | nil =>
      simp only [CString.memory, chars]
      decide
  | cons c rest => simp [CString.memory, chars]

variable {row : Buffer dirNameLen}

theorem buildPath_absolute (dir : DirState) (out : Buffer dirNameLen)
    (absolute : name.chars.head? = some slash) (short : name.chars.length ≤ 63) :
    ∃ after, buildPath dir out name = .ok after ∧ Spells after (joinPath cwd name.chars) := by
  have terminated := name.zero_mem_memory
  obtain ⟨copy, copied, spells⟩ := Spells.copy out terminated
    (by rw [CString.cstr_memory]; exact Nat.lt_succ_of_le short)
  rw [CString.cstr_memory] at spells
  rw [buildPath, if_pos (head?_memory_eq_slash.mpr absolute), copied]
  simp only [inBounds, bind, Except.bind, spells.kstrlen, joinPath, if_pos absolute, pure, Except.pure]
  by_cases long : 1 < name.chars.length
  · have last : copy.bytes[name.chars.length - 1]? = name.chars.getLast? := by
      rw [spells.getElem? (by omega), List.getLast?_eq_getElem?]
    rw [last]
    by_cases trailing : name.chars.getLast? = some slash
    · obtain ⟨after, stored, result⟩ := spells.store [] _ (Nat.sub_le _ 1) (by simp)
        (Nat.lt_of_le_of_lt (Nat.sub_le _ 1) spells.length_lt)
      rw [List.nil_append] at stored
      rw [if_pos ⟨long, trailing⟩, if_pos ⟨long, trailing⟩, stored]
      refine ⟨after, rfl, ?_⟩
      rwa [List.append_nil, ← List.dropLast_eq_take] at result
    · rw [if_neg (fun both => trailing both.2), if_neg (fun both => trailing both.2)]
      exact ⟨copy, rfl, spells⟩
  · rw [if_neg (fun both => long both.1), if_neg (fun both => long both.1)]
    exact ⟨copy, rfl, spells⟩

/-- What stands in the buffer before the relative name is appended. -/
theorem buildPath_relative (found : dir.row dir.cwdIdx = .ok row) (spells : Spells row cwd)
    (out : Buffer dirNameLen) (relative : name.chars.head? ≠ some slash) :
    ∃ base, Spells base (separated cwd) ∧
      buildPath dir out name =
        inBounds (kstrncpy base (separated cwd).length name.memory (dirNameLen - (separated cwd).length)) := by
  have short := spells.length_lt
  obtain ⟨copy, copied, copySpells⟩ := Spells.copy out spells.terminated (by rwa [spells.text])
  rw [spells.text] at copySpells
  obtain ⟨order, compared, isRoot⟩ := spells.kstrcmp rootMemory (by decide)
  have root : cstr rootMemory = rootPath := by decide
  rw [root] at isRoot
  simp only [buildPath, if_neg (head?_memory_eq_slash.not.mpr relative), found, copied, compared, inBounds, bind,
    Except.bind, pure, Except.pure]
  by_cases isZero : order = 0
  · have same : separated cwd = cwd := by simp [separated, isRoot.mp isZero]
    rw [if_pos isZero, same]
    refine ⟨copy, copySpells, ?_⟩
    simp only [copySpells.kstrlen]
  · have notRoot : cwd ≠ rootPath := isRoot.not.mp isZero
    rw [if_neg isZero]
    simp only [copySpells.kstrlen]
    by_cases room : cwd.length < dirNameLen - 2
    · have joined : separated cwd = cwd ++ [slash] := by simp [separated, notRoot]; omega
      obtain ⟨base, stored, result⟩ := copySpells.store [slash] cwd.length le_rfl
        (by decide) (Nat.add_lt_of_lt_sub (Nat.lt_of_lt_of_le room (by decide)))
      rw [List.take_length, ← joined] at result
      simp only [if_pos room, List.cons_append, List.nil_append] at stored ⊢
      simp only [stored, result.kstrlen]
      exact ⟨base, result, rfl⟩
    · have same : separated cwd = cwd := by simp [separated]; omega
      rw [if_neg room, same]
      exact ⟨copy, copySpells, rfl⟩

theorem buildPath_fits (found : dir.row dir.cwdIdx = .ok row) (spells : Spells row cwd)
    (out : Buffer dirNameLen) (fits : PathFits cwd name.chars) :
    ∃ after, buildPath dir out name = .ok after ∧ Spells after (joinPath cwd name.chars) := by
  rw [PathFits, joinLength] at fits
  by_cases absolute : name.chars.head? = some slash
  · rw [if_pos absolute] at fits
    exact buildPath_absolute dir out absolute fits
  · rw [if_neg absolute] at fits
    obtain ⟨base, baseSpells, built⟩ := buildPath_relative found spells out absolute
    obtain ⟨after, copied, result, _⟩ := baseSpells.append name
    rw [built, copied, joinPath, if_neg absolute]
    exact ⟨after, rfl, result (Nat.lt_succ_of_le fits)⟩

/-- Beyond 63 characters it leaves no zero byte, if it comes to an end. -/
theorem buildPath_long (found : dir.row dir.cwdIdx = .ok row) (spells : Spells row cwd)
    (long : ¬ PathFits cwd name.chars) (built : buildPath dir out name = .ok after) : 0 ∉ after.bytes := by
  rw [PathFits, joinLength] at long
  by_cases absolute : name.chars.head? = some slash
  · rw [if_pos absolute] at long
    have full : dirNameLen ≤ name.chars.length := Nat.lt_of_not_le long
    have endless : 0 ∉ padded dirNameLen name.chars :=
      (zero_mem_padded name.noNul).not.mpr (Nat.not_lt_of_le full)
    have copied := kstrncpy_field out (.inl name.zero_mem_memory)
    rw [CString.cstr_memory] at copied
    simp only [buildPath, if_pos (head?_memory_eq_slash.mpr absolute), copied, inBounds, bind, Except.bind,
      kstrlen_unterminated endless] at built
    cases built
  · rw [if_neg absolute] at long
    obtain ⟨base, baseSpells, whole⟩ := buildPath_relative found spells out absolute
    obtain ⟨other, copied, _, endless⟩ := baseSpells.append name
    rw [whole, copied] at built
    cases built
    exact endless (Nat.lt_of_not_le long)

end Building

section Parents

theorem walkBack_eq (bytes path : List UInt8) (same : ∀ i, i < path.length → bytes[i]? = path[i]?) :
    walkBack bytes path.length = (path.rdropWhile (· ≠ slash)).length := by
  induction path using List.reverseRecOn with
  | nil => rfl
  | append_singleton path c ih =>
      have last := same path.length (by simp)
      rw [List.getElem?_concat_length] at last
      rw [List.length_append, List.length_singleton, walkBack, last, List.rdropWhile_concat]
      by_cases isSlash : c = slash
      · simp [isSlash]
      · have earlier : ∀ i, i < path.length → bytes[i]? = path[i]? := by
          intro i below
          rw [same i (by simp; omega), List.getElem?_append_left below]
        simp [isSlash, ih earlier]

theorem Spells.storeRoot (out : Buffer dirNameLen) :
    ∃ after, out.store 0 rootMemory = some after ∧ Spells after rootPath := by
  obtain ⟨after, stored⟩ := out.store_exists 0 rootMemory (by decide)
  have split : out.store 0 ([slash] ++ [0]) = some after := stored
  obtain ⟨terminated, reads⟩ := cstr_store split (Nat.zero_le _) (by decide)
  exact ⟨after, stored, terminated, by simpa using reads⟩

theorem parentPath_spec (out : Buffer dirNameLen) (spells : Spells buf path) :
    ∃ after, parentPath out buf.bytes = .ok after ∧ Spells after (parentOf path) := by
  obtain ⟨order, compared, isRoot⟩ := spells.kstrcmp rootMemory (by decide)
  have root : cstr rootMemory = rootPath := by decide
  rw [root] at isRoot
  obtain ⟨rootAfter, rootStored, rootSpells⟩ := Spells.storeRoot out
  by_cases isZero : order = 0
  · have same : parentOf path = rootPath := by simp [parentOf, isRoot.mp isZero]
    simp only [parentPath, compared, isZero, rootStored, inBounds, bind, Except.bind, if_true, same]
    exact ⟨rootAfter, rfl, rootSpells⟩
  · have notRoot : path ≠ rootPath := isRoot.not.mp isZero
    obtain ⟨copy, copied, copySpells⟩ := Spells.copy out spells.terminated
      (by rw [spells.text]; exact spells.length_lt)
    rw [spells.text] at copySpells
    have walked := walkBack_eq copy.bytes path (fun i below => copySpells.getElem? below)
    simp only [parentPath, compared, if_neg isZero, copied, copySpells.kstrlen, inBounds, bind, Except.bind,
      walked, parentOf, notRoot, false_or]
    by_cases near : (path.rdropWhile (· ≠ slash)).length ≤ 1
    · obtain ⟨after, stored, result⟩ := Spells.storeRoot copy
      rw [if_pos near, if_pos near, stored]
      exact ⟨after, rfl, result⟩
    · have front : path.rdropWhile (· ≠ slash) = path.take (path.rdropWhile (· ≠ slash)).length :=
        List.prefix_iff_eq_take.mp (List.rdropWhile_prefix ..)
      have within := (List.rdropWhile_prefix (· ≠ slash) path).length_le
      obtain ⟨after, stored, result⟩ := copySpells.store [] ((path.rdropWhile (· ≠ slash)).length - 1)
        (by omega) (by simp) (Nat.lt_of_le_of_lt (show _ + 0 ≤ _ by omega) copySpells.length_lt)
      rw [List.nil_append] at stored
      rw [if_neg near, if_neg near, stored]
      refine ⟨after, rfl, ?_⟩
      rw [List.append_nil] at result
      rwa [List.dropLast_eq_take, front, List.take_take, List.length_take, min_eq_left within,
        min_eq_left (Nat.sub_le _ 1)]

theorem zero_ne_slash : (0 : UInt8) ≠ slash := by
  decide

theorem noSlash_eq {text rest : List UInt8} (noNul : 0 ∉ text) :
    noSlash (text ++ 0 :: rest) = some (decide (slash ∉ text)) := by
  induction text with
  | nil => simp [noSlash]
  | cons c text ih =>
      simp only [List.mem_cons, not_or] at noNul
      by_cases isSlash : c = slash
      · subst isSlash
        simp [noSlash, Ne.symm zero_ne_slash]
      · simp [noSlash, Ne.symm noNul.1, isSlash, Ne.symm isSlash, ih noNul.2]

theorem isImmediateChild_root {text rest : List UInt8} (noNul : 0 ∉ text) {memory : List UInt8}
    (root : kstrcmp memory rootMemory = some 0) :
    ∃ answer, isImmediateChild (text ++ 0 :: rest) memory = some answer ∧
      (answer = true ↔ IsChild text rootPath) := by
  simp only [isImmediateChild, root, Option.bind_eq_bind, Option.bind_some, if_true, IsChild]
  cases text with
  | nil => exact ⟨false, by simp [zero_ne_slash], by simp⟩
  | cons first text =>
      simp only [List.mem_cons, not_or] at noNul
      by_cases isSlash : first = slash
      · subst isSlash
        cases text with
        | nil => exact ⟨false, by simp, by simp⟩
        | cons next text =>
            have inner := noNul.2
            simp only [List.mem_cons, not_or] at inner
            have clean := @noSlash_eq _ rest noNul.2
            refine ⟨_, by simpa [Ne.symm inner.1] using clean, ?_⟩
            simp
      · exact ⟨false, by simp [isSlash], by simp [isSlash]⟩

theorem isImmediateChild_below {text rest : List UInt8} (noNul : 0 ∉ text) (spells : Spells buf path)
    (below : path ≠ rootPath) :
    ∃ answer, isImmediateChild (text ++ 0 :: rest) buf.bytes = some answer ∧
      (answer = true ↔ IsChild text path) := by
  obtain ⟨order, compared, isRoot⟩ := spells.kstrcmp rootMemory (by decide)
  have notZero : order ≠ 0 := fun zero => below (isRoot.mp zero)
  have reads : cstr (text ++ 0 :: rest) = text := by
    rw [cstr_append noNul, cstr_zero_cons, List.append_nil]
  obtain ⟨same, compared', isPrefix⟩ := kstrncmp_prefix
    (show 0 ∈ text ++ 0 :: rest by simp) spells.terminated
  rw [spells.text] at compared' isPrefix
  rw [reads] at isPrefix
  simp only [isImmediateChild, compared, Option.bind_eq_bind, Option.bind_some, if_neg notZero, spells.kstrlen,
    compared', IsChild, if_neg below]
  by_cases starts : same = 0
  · obtain ⟨tail, rfl⟩ := isPrefix.mp starts
    have noNulTail : 0 ∉ tail := fun member => noNul (List.mem_append_right _ member)
    cases tail with
    | nil => exact ⟨false, by simp [starts, zero_ne_slash], by simp⟩
    | cons separator tail =>
        simp only [List.mem_cons, not_or] at noNulTail
        by_cases isSlash : separator = slash
        · subst isSlash
          have behind : (path ++ slash :: tail ++ 0 :: rest).drop (path.length + 1) = tail ++ 0 :: rest := by
            simp [List.drop_append]
          have next : (path ++ slash :: tail ++ 0 :: rest)[path.length + 1]? = (tail ++ 0 :: rest)[0]? := by
            rw [← behind, List.getElem?_drop, Nat.add_zero]
          have separator : (path ++ slash :: tail ++ 0 :: rest)[path.length]? = some slash := by simp
          rw [separator, behind, next]
          simp only [starts, noSlash_eq noNulTail.2, Option.bind_some, ne_eq, not_true_eq_false, if_false]
          cases tail with
          | nil => exact ⟨false, by simp, by simp⟩
          | cons first tail =>
              have inner := noNulTail.2
              simp only [List.mem_cons, not_or] at inner
              refine ⟨decide (slash ∉ first :: tail), by simp [Ne.symm inner.1], ?_⟩
              simp
        · exact ⟨false, by simp [starts, isSlash], by simp [isSlash]⟩
  · refine ⟨false, by simp [starts], ?_⟩
    simp only [Bool.false_eq_true, false_iff]
    intro given
    obtain ⟨name, _, _, rfl⟩ := given
    exact starts (isPrefix.mpr ⟨[slash] ++ name, by simp⟩)

theorem isImmediateChild_spec {child : Buffer dirNameLen} {text : List UInt8} (childSpells : Spells child text)
    (spells : Spells buf path) :
    ∃ answer, isImmediateChild child.bytes buf.bytes = some answer ∧ (answer = true ↔ IsChild text path) := by
  obtain ⟨rest, split⟩ := cstr_split childSpells.terminated
  rw [childSpells.text] at split
  rw [split]
  by_cases root : path = rootPath
  · subst root
    apply isImmediateChild_root childSpells.noNul
    rw [kstrcmp_eq_zero spells.terminated (by decide), spells.text]
    decide
  · exact isImmediateChild_below childSpells.noNul spells root

end Parents

end DugOS.Dir
