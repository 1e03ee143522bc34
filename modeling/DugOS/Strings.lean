import DugOS.Data.Buffer

namespace DugOS

open Data

/-! The loops of `string.c` over the bytes that a `char *` may read.

A pointer is the list of bytes from the pointed-to position to the end of the
object it points into. `none` is the outcome of a loop that leaves that object.
-/

/-- A string argument: its characters, followed in memory by the zero byte. -/
structure CString where
  chars : List UInt8
  noNul : 0 ∉ chars
deriving DecidableEq

namespace CString

def memory (text : CString) : List UInt8 :=
  text.chars ++ [0]

theorem zero_mem_memory (text : CString) : 0 ∈ text.memory := by
  simp [memory]

@[simp] theorem cstr_memory (text : CString) : cstr text.memory = text.chars := by
  rw [memory, cstr_append text.noNul, cstr_zero_cons, List.append_nil]

end CString

def kstrlen : List UInt8 → Option Nat
  | [] => none
  | byte :: rest => if byte = 0 then some 0 else (kstrlen rest).map (· + 1)

def kstrcmp : List UInt8 → List UInt8 → Option Int
  | a :: left, b :: right =>
      if a ≠ 0 ∧ a = b then kstrcmp left right else some ((a.toNat : Int) - b.toNat)
  | _, _ => none

def kstrncmp : List UInt8 → List UInt8 → Nat → Option Int
  | _, _, 0 => some 0
  | a :: left, b :: right, n + 1 =>
      if a ≠ 0 ∧ a = b then kstrncmp left right n else some ((a.toNat : Int) - b.toNat)
  | _, _, _ + 1 => none

/-- The `n` bytes `kstrncpy` stores: the copied characters, then zeros. -/
def kstrncpyBytes : List UInt8 → Nat → Option (List UInt8)
  | _, 0 => some []
  | [], _ + 1 => none
  | byte :: source, n + 1 =>
      if byte = 0 then some (List.replicate (n + 1) 0)
      else (kstrncpyBytes source n).map (byte :: ·)

/-- `kstrncpy(dst + offset, source, n)`. -/
def kstrncpy {size : Nat} (dst : Buffer size) (offset : Nat) (source : List UInt8) (n : Nat) :
    Option (Buffer size) :=
  (kstrncpyBytes source n).bind (dst.store offset)

/-- The second loop of `kstrncpy`, which pads. -/
def padLoop {size : Nat} (dst : Buffer size) (p : Nat) : Nat → Option (Buffer size)
  | 0 => some dst
  | n + 1 => (dst.store p [0]).bind fun dst => padLoop dst (p + 1) n

/-- The loops of `kstrncpy`, store by store. The first stores the terminator of a
short source too, and leaves it to the second. -/
def kstrncpyLoop {size : Nat} (dst : Buffer size) (p : Nat) : List UInt8 → Nat → Option (Buffer size)
  | _, 0 => padLoop dst p 0
  | [], _ + 1 => none
  | byte :: source, n + 1 => (dst.store p [byte]).bind fun dst =>
      if byte = 0 then padLoop dst p (n + 1) else kstrncpyLoop dst (p + 1) source n

variable {left right source memory : List UInt8} {size n : Nat}

theorem kstrlen_eq (terminated : 0 ∈ memory) : kstrlen memory = some (cstr memory).length := by
  induction memory with
  | nil => simp at terminated
  | cons byte rest ih =>
      by_cases zero : byte = 0
      · subst zero
        simp [kstrlen]
      · have inner : 0 ∈ rest := by simpa [Ne.symm zero] using terminated
        simp [kstrlen, zero, cstr_cons zero, ih inner]

theorem kstrlen_eq_zero (text : CString) : kstrlen text.memory = some 0 ↔ text.chars = [] := by
  rw [kstrlen_eq text.zero_mem_memory, CString.cstr_memory, Option.some.injEq, List.length_eq_zero_iff]

theorem kstrlen_unterminated (unterminated : 0 ∉ memory) : kstrlen memory = none := by
  induction memory with
  | nil => rfl
  | cons byte rest ih =>
      simp only [List.mem_cons, not_or] at unterminated
      simp [kstrlen, Ne.symm unterminated.1, ih unterminated.2]

/-- A string is compared with anything that ends, or is at least as long as the
object that the string is in. -/
theorem kstrcmp_exists (terminated : 0 ∈ left) (readable : 0 ∈ right ∨ left.length ≤ right.length) :
    ∃ order, kstrcmp left right = some order := by
  induction left generalizing right with
  | nil => simp at terminated
  | cons a left ih =>
      cases right with
      | nil => simp at readable
      | cons b right =>
          by_cases same : a ≠ 0 ∧ a = b
          · have inner : 0 ∈ left := by simpa [Ne.symm same.1] using terminated
            have readableInner : 0 ∈ right ∨ left.length ≤ right.length := by
              simpa [Ne.symm (same.2 ▸ same.1)] using readable
            simpa only [kstrcmp, if_pos same] using ih inner readableInner
          · simp only [kstrcmp, if_neg same, Option.some.injEq, exists_eq']

theorem kstrcmp_swap : kstrcmp right left = (kstrcmp left right).map (- ·) := by
  induction left generalizing right with
  | nil => cases right <;> rfl
  | cons a left ih =>
      cases right with
      | nil => rfl
      | cons b right =>
          by_cases same : a ≠ 0 ∧ a = b
          · have flipped : b ≠ 0 ∧ b = a := ⟨same.2 ▸ same.1, same.2.symm⟩
            rw [kstrcmp, kstrcmp, if_pos same, if_pos flipped, ih]
          · have flipped : ¬ (b ≠ 0 ∧ b = a) := fun both => same ⟨both.2 ▸ both.1, both.2.symm⟩
            rw [kstrcmp, kstrcmp, if_neg same, if_neg flipped, Option.map_some, Int.neg_sub]

private theorem byte_difference_eq_zero (a b : UInt8) :
    (a.toNat : Int) - b.toNat = 0 ↔ a = b := by
  rw [← UInt8.toNat_inj]
  omega

theorem kstrcmp_lt (leftTerminated : 0 ∈ left) (rightTerminated : 0 ∈ right) :
    ∃ order, kstrcmp left right = some order ∧ (order < 0 ↔ cstr left < cstr right) := by
  induction left generalizing right with
  | nil => simp at leftTerminated
  | cons a left ih =>
      cases right with
      | nil => simp at rightTerminated
      | cons b right =>
          by_cases same : a ≠ 0 ∧ a = b
          · obtain ⟨nonzero, rfl⟩ := same
            have leftInner : 0 ∈ left := by simpa [Ne.symm nonzero] using leftTerminated
            have rightInner : 0 ∈ right := by simpa [Ne.symm nonzero] using rightTerminated
            obtain ⟨order, compared, sign⟩ := ih leftInner rightInner
            refine ⟨order, ?_, ?_⟩
            · rw [kstrcmp, if_pos ⟨nonzero, rfl⟩, compared]
            · rw [sign, cstr_cons nonzero, cstr_cons nonzero, List.cons_lt_cons_self]
          · refine ⟨(a.toNat : Int) - b.toNat, by rw [kstrcmp, if_neg same], ?_⟩
            by_cases zeroRight : b = 0
            · subst zeroRight
              simp
            · by_cases zero : a = 0
              · subst zero
                have positive : 0 < b.toNat := UInt8.lt_iff_toNat_lt.mp (UInt8.pos_iff_ne_zero.mpr zeroRight)
                simp [cstr_cons zeroRight, positive]
              · have different : a ≠ b := fun equal => same ⟨zero, equal⟩
                rw [cstr_cons zero, cstr_cons zeroRight, List.cons_lt_cons_iff, UInt8.lt_iff_toNat_lt]
                simp only [different, false_and, or_false]
                omega

/-- The sign of the result is the order of the strings as lists of unsigned
bytes. -/
theorem kstrcmp_sign (leftTerminated : 0 ∈ left) (rightTerminated : 0 ∈ right) :
    ∃ order, kstrcmp left right = some order ∧ (order = 0 ↔ cstr left = cstr right) ∧
      (order < 0 ↔ cstr left < cstr right) ∧ (0 < order ↔ cstr right < cstr left) := by
  obtain ⟨order, compared, negative⟩ := kstrcmp_lt leftTerminated rightTerminated
  obtain ⟨flipped, swapped, positive⟩ := kstrcmp_lt rightTerminated leftTerminated
  rw [kstrcmp_swap, compared, Option.map_some, Option.some.injEq] at swapped
  subst swapped
  rw [Int.neg_neg_iff_pos] at positive
  refine ⟨order, compared, ?_, negative, positive⟩
  constructor
  · intro zero
    have notAbove : ¬ cstr right < cstr left := fun above => by
      have := positive.mpr above
      omega
    have notBelow : ¬ cstr left < cstr right := fun below => by
      have := negative.mpr below
      omega
    exact List.le_antisymm (List.not_lt.mp notAbove) (List.not_lt.mp notBelow)
  · intro same
    rw [same] at negative positive
    have notNegative := mt negative.mp (List.lt_irrefl _)
    have notPositive := mt positive.mp (List.lt_irrefl _)
    omega

theorem kstrcmp_eq_zero (leftTerminated : 0 ∈ left) (rightTerminated : 0 ∈ right) :
    kstrcmp left right = some 0 ↔ cstr left = cstr right := by
  obtain ⟨order, compared, equal, _⟩ := kstrcmp_sign leftTerminated rightTerminated
  rw [compared, Option.some.injEq, equal]

/-- Strings that compare equal both end inside their objects. -/
theorem kstrcmp_terminated (equal : kstrcmp left right = some 0) : 0 ∈ left ∧ 0 ∈ right := by
  induction left generalizing right with
  | nil => simp [kstrcmp] at equal
  | cons a left ih =>
      cases right with
      | nil => simp [kstrcmp] at equal
      | cons b right =>
          by_cases same : a ≠ 0 ∧ a = b
          · simp only [kstrcmp, if_pos same] at equal
            obtain ⟨inLeft, inRight⟩ := ih equal
            simp [inLeft, inRight]
          · simp only [kstrcmp, if_neg same, Option.some.injEq, byte_difference_eq_zero] at equal
            have zero : a = 0 := by
              by_contra nonzero
              exact same ⟨nonzero, equal⟩
            simp [← equal, zero]

theorem kstrncpyBytes_eq (readable : 0 ∈ source ∨ n ≤ source.length) :
    kstrncpyBytes source n = some (padded n (cstr source)) := by
  induction n generalizing source with
  | zero => cases source <;> simp [kstrncpyBytes, padded]
  | succ n ih =>
      cases source with
      | nil => simp at readable
      | cons byte source =>
          by_cases zero : byte = 0
          · subst zero
            simp [kstrncpyBytes, padded]
          · have inner : 0 ∈ source ∨ n ≤ source.length := by
              simpa [Ne.symm zero] using readable
            simp [kstrncpyBytes, zero, ih inner, cstr_cons zero, padded]

theorem kstrncpy_field (dst : Buffer size) (readable : 0 ∈ source ∨ size ≤ source.length) :
    kstrncpy dst 0 source size = some ⟨padded size (cstr source), padded_length⟩ := by
  have room : 0 + (padded size (cstr source)).length ≤ size := by simp
  simp only [kstrncpy, kstrncpyBytes_eq readable, Option.bind_some, Buffer.store, dif_pos room,
    Option.some.injEq]
  apply Buffer.ext_bytes
  simp [Buffer.write]

/-- Copying a string to the end of a buffer fills everything from `offset` on. -/
theorem kstrncpy_tail (dst : Buffer size) {offset : Nat} (inside : offset ≤ size) (terminated : 0 ∈ source) :
    ∃ after, kstrncpy dst offset source (size - offset) = some after ∧
      after.bytes = dst.bytes.take offset ++ padded (size - offset) (cstr source) := by
  have room : offset + (padded (size - offset) (cstr source)).length ≤ size := by
    rw [padded_length]
    omega
  obtain ⟨after, stored⟩ := dst.store_exists offset (padded (size - offset) (cstr source)) room
  refine ⟨after, ?_, ?_⟩
  · rw [kstrncpy, kstrncpyBytes_eq (.inl terminated), Option.bind_some, stored]
  · rw [Buffer.store_bytes stored, List.drop_of_length_le, List.append_nil]
    rw [padded_length, Buffer.length_eq]
    omega

theorem kstrncmp_eq_zero (n : Nat) (leftTerminated : 0 ∈ left) (rightTerminated : 0 ∈ right) :
    ∃ order, kstrncmp left right n = some order ∧
      (order = 0 ↔ (cstr left ++ [0]).take n = (cstr right ++ [0]).take n) := by
  induction n generalizing left right with
  | zero => exact ⟨0, by simp [kstrncmp], by simp⟩
  | succ n ih =>
      cases left with
      | nil => simp at leftTerminated
      | cons a left =>
          cases right with
          | nil => simp at rightTerminated
          | cons b right =>
              by_cases same : a ≠ 0 ∧ a = b
              · obtain ⟨nonzero, rfl⟩ := same
                have leftInner : 0 ∈ left := by simpa [Ne.symm nonzero] using leftTerminated
                have rightInner : 0 ∈ right := by simpa [Ne.symm nonzero] using rightTerminated
                obtain ⟨order, compared, equal⟩ := ih leftInner rightInner
                refine ⟨order, ?_, ?_⟩
                · rw [kstrncmp, if_pos ⟨nonzero, rfl⟩, compared]
                · rw [equal, cstr_cons nonzero, cstr_cons nonzero]
                  simp
              · refine ⟨(a.toNat : Int) - b.toNat, by rw [kstrncmp, if_neg same], ?_⟩
                rw [byte_difference_eq_zero]
                by_cases zero : a = 0
                · subst zero
                  by_cases zeroRight : b = 0
                  · simp [zeroRight]
                  · simp [cstr_cons zeroRight, Ne.symm zeroRight]
                · have different : a ≠ b := fun equal => same ⟨zero, equal⟩
                  by_cases zeroRight : b = 0
                  · simp [zeroRight, cstr_cons zero, zero]
                  · simp [cstr_cons zero, cstr_cons zeroRight, different]

/-- Comparing as many bytes as `right` has characters asks whether `right` is a
prefix. -/
theorem kstrncmp_prefix (leftTerminated : 0 ∈ left) (rightTerminated : 0 ∈ right) :
    ∃ order, kstrncmp left right (cstr right).length = some order ∧ (order = 0 ↔ cstr right <+: cstr left) := by
  obtain ⟨order, compared, equal⟩ := kstrncmp_eq_zero (cstr right).length leftTerminated rightTerminated
  refine ⟨order, compared, ?_⟩
  have longer : cstr right ≠ cstr left ++ [0] := by
    intro same
    have inside : 0 ∈ cstr right := by simp [same]
    exact cstr_noNul inside
  rw [equal, List.take_left, eq_comm, ← List.prefix_iff_eq_take, List.prefix_concat_iff]
  simp [longer]

section Stores

variable {dst : Buffer size} {p : Nat}

theorem padLoop_eq (n : Nat) (inside : p ≤ size) : padLoop dst p n = dst.store p (List.replicate n 0) := by
  induction n generalizing dst p with
  | zero => exact (Buffer.store_nil inside).symm
  | succ n ih =>
      rw [padLoop, List.replicate_succ, Buffer.store_cons dst p 0 (List.replicate n 0)]
      cases stored : dst.store p [0] with
      | none => rfl
      | some after => exact ih (Buffer.store_room stored)

theorem kstrncpyLoop_eq (n : Nat) (inside : p ≤ size) :
    kstrncpyLoop dst p source n = kstrncpy dst p source n := by
  induction n generalizing dst p source with
  | zero => cases source <;> exact (Buffer.store_nil inside).symm
  | succ n ih =>
      cases source with
      | nil => rfl
      | cons byte source =>
          rw [kstrncpyLoop, kstrncpy, kstrncpyBytes]
          by_cases zero : byte = 0
          · subst zero
            rw [if_pos rfl, Option.bind_some, List.replicate_succ]
            simp only [if_true, padLoop_eq (n + 1) inside, List.replicate_succ]
            cases stored : dst.store p [0] with
            | none => rw [Buffer.store_cons dst p 0 (List.replicate n 0), stored, Option.bind_none, Option.bind_none]
            | some after => rw [Option.bind_some, Buffer.store_overwrite stored (by simp)]
          · rw [if_neg zero]
            simp only [if_neg zero]
            cases copied : kstrncpyBytes source n with
            | none =>
                rw [Option.map_none, Option.bind_none, Option.bind_eq_none_iff]
                intro after stored
                have within : p + 1 ≤ size := Buffer.store_room stored
                rw [ih within, kstrncpy, copied, Option.bind_none]
            | some data =>
                rw [Option.map_some, Option.bind_some, Buffer.store_cons dst p byte data]
                cases stored : dst.store p [byte] with
                | none => rfl
                | some after =>
                    have within : p + 1 ≤ size := Buffer.store_room stored
                    rw [Option.bind_some, Option.bind_some, ih within, kstrncpy, copied, Option.bind_some]

/-- A stored string is followed by zeros only, nothing else is written, and it
compares as the string that was copied. -/
theorem stored_string_compares (dst : Buffer size) {other : List UInt8} (k : Nat) (room : p + n ≤ size)
    (terminated : 0 ∈ source) (short : (cstr source).length < n) (otherTerminated : 0 ∈ other) :
    (∃ after order, kstrncpyLoop dst p source n = some after ∧
      after.bytes = dst.bytes.take p ++ (cstr source ++ List.replicate (n - (cstr source).length) 0) ++
        dst.bytes.drop (p + n) ∧
      kstrcmp (after.bytes.drop p) other = some order ∧ (order = 0 ↔ cstr other = cstr source) ∧
      (order < 0 ↔ cstr source < cstr other) ∧ (0 < order ↔ cstr other < cstr source)) ∧
    ∃ order, kstrncmp source other k = some order ∧
      (order = 0 ↔ (cstr source ++ [0]).take k = (cstr other ++ [0]).take k) := by
  refine ⟨?_, kstrncmp_eq_zero k terminated otherTerminated⟩
  have written : padded n (cstr source) = cstr source ++ List.replicate (n - (cstr source).length) 0 := by
    rw [padded, List.take_of_length_le (Nat.le_of_lt short)]
  obtain ⟨after, stored⟩ := dst.store_exists p (padded n (cstr source)) (by rwa [padded_length])
  have run : kstrncpyLoop dst p source n = some after := by
    rw [kstrncpyLoop_eq n (by omega), kstrncpy, kstrncpyBytes_eq (.inl terminated), Option.bind_some, stored]
  have bytes := Buffer.store_bytes stored
  rw [padded_length] at bytes
  have held : after.bytes.drop p = padded n (cstr source) ++ dst.bytes.drop (p + n) := by
    have front : (dst.bytes.take p).length = p := by
      rw [List.length_take, Buffer.length_eq]
      omega
    rw [bytes, List.append_assoc]
    nth_rewrite 1 [← front]
    exact List.drop_left
  have ended : 0 ∈ padded n (cstr source) := (zero_mem_padded cstr_noNul).mpr short
  have string : cstr (after.bytes.drop p) = cstr source := by
    rw [held, cstr_append_of_mem ended, cstr_padded_of_short cstr_noNul (Nat.le_of_lt short)]
  obtain ⟨order, compared, equal, below, above⟩ :=
    kstrcmp_sign (held ▸ List.mem_append_left _ ended : 0 ∈ after.bytes.drop p) otherTerminated
  rw [string] at equal below above
  rw [written] at bytes
  exact ⟨after, order, run, bytes, compared, equal.trans eq_comm, below, above⟩

/-- `"b"` stored in two bytes, before a byte from the upper half. -/
theorem short_string_compares : ∃ after order, kstrncpyLoop (⟨[7, 7, 7], rfl⟩ : Buffer 3) 0 [98, 0] 2 = some after ∧
    after.bytes = [98, 0, 7] ∧ kstrcmp after.bytes [200, 0] = some order ∧ order < 0 := by
  obtain ⟨after, order, run, bytes, compared, _, below, _⟩ :=
    (stored_string_compares (⟨[7, 7, 7], rfl⟩ : Buffer 3) 1 (show 0 + 2 ≤ 3 by decide)
      (show 0 ∈ [98, 0] by decide) (by decide) (show 0 ∈ [200, 0] by decide)).1
  exact ⟨after, order, run, bytes, compared, below.mpr (by decide)⟩

end Stores

end DugOS
