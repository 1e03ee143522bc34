import Mathlib.Data.List.TakeWhile
import Mathlib.Data.List.Basic

namespace DugOS.Data

/-! Fixed-size byte objects and the strings stored in them.

A `Buffer size` is an array of exactly `size` bytes. Stores outside of it are
refused instead of silently dropped. A string held in memory is the list of
bytes before the first zero byte.
-/

structure Buffer (size : Nat) where
  bytes : List UInt8
  length_eq : bytes.length = size
deriving DecidableEq

namespace Buffer

variable {size offset : Nat} {buffer after : Buffer size} {data : List UInt8}

attribute [simp] length_eq

theorem ext_bytes {left right : Buffer size} (same : left.bytes = right.bytes) : left = right := by
  cases left
  cases right
  simpa using same

def zeros (size : Nat) : Buffer size :=
  ⟨List.replicate size 0, List.length_replicate⟩

/-- Overwrite `data.length` bytes from `offset` on, all of them inside the
buffer. -/
def write (buffer : Buffer size) (offset : Nat) (data : List UInt8)
    (room : offset + data.length ≤ size) : Buffer size :=
  ⟨buffer.bytes.take offset ++ data ++ buffer.bytes.drop (offset + data.length), by
    simp only [List.length_append, List.length_take, List.length_drop, length_eq]
    omega⟩

/-- A write whose bounds are checked: `none` when it would leave the buffer. -/
def store (buffer : Buffer size) (offset : Nat) (data : List UInt8) : Option (Buffer size) :=
  if room : offset + data.length ≤ size then some (buffer.write offset data room) else none

theorem store_exists (buffer : Buffer size) (offset : Nat) (data : List UInt8)
    (room : offset + data.length ≤ size) :
    ∃ after, buffer.store offset data = some after := by
  simp only [store, dif_pos room]
  exact ⟨_, rfl⟩

theorem store_room (stored : buffer.store offset data = some after) :
    offset + data.length ≤ size := by
  by_contra full
  simp [store, full] at stored

theorem store_bytes (stored : buffer.store offset data = some after) :
    after.bytes = buffer.bytes.take offset ++ data ++ buffer.bytes.drop (offset + data.length) := by
  simp only [store, dif_pos (store_room stored), Option.some.injEq] at stored
  rw [← stored, write]

theorem store_take (stored : buffer.store offset data = some after) :
    after.bytes.take (offset + data.length) = buffer.bytes.take offset ++ data := by
  have room := store_room stored
  have front : (buffer.bytes.take offset ++ data).length = offset + data.length := by
    simp only [List.length_append, List.length_take, length_eq]
    omega
  rw [store_bytes stored, ← front, List.take_left]

theorem store_nil (inside : offset ≤ size) : buffer.store offset [] = some buffer := by
  have room : offset + ([] : List UInt8).length ≤ size := inside
  rw [store, dif_pos room, Option.some.injEq]
  apply ext_bytes
  simp [write]

theorem store_before (stored : buffer.store offset data = some after) :
    after.bytes.take offset = buffer.bytes.take offset := by
  have room := store_room stored
  have front : (buffer.bytes.take offset).length = offset := by
    rw [List.length_take, length_eq]
    omega
  rw [store_bytes stored, List.append_assoc]
  nth_rewrite 1 [← front]
  exact List.take_left

theorem store_behind {far : Nat} (stored : buffer.store offset data = some after)
    (past : offset + data.length ≤ far) : after.bytes.drop far = buffer.bytes.drop far := by
  have room := store_room stored
  have front : (buffer.bytes.take offset ++ data).length = offset + data.length := by
    rw [List.length_append, List.length_take, length_eq]
    omega
  obtain ⟨more, rfl⟩ := Nat.exists_eq_add_of_le past
  rw [store_bytes stored]
  nth_rewrite 1 [← front]
  rw [List.drop_length_add_append, List.drop_drop]

/-- Two writes, one behind the other. -/
theorem store_append (buffer : Buffer size) (offset : Nat) (front back : List UInt8) :
    (buffer.store offset front).bind (·.store (offset + front.length) back) =
      buffer.store offset (front ++ back) := by
  have total : offset + (front ++ back).length = offset + front.length + back.length := by
    rw [List.length_append, Nat.add_assoc]
  by_cases room : offset + (front ++ back).length ≤ size
  · obtain ⟨middle, first⟩ := buffer.store_exists offset front (by omega)
    obtain ⟨last, second⟩ := middle.store_exists (offset + front.length) back (by omega)
    obtain ⟨whole, once⟩ := buffer.store_exists offset (front ++ back) room
    rw [first, Option.bind_some, second, once, Option.some.injEq]
    apply ext_bytes
    rw [store_bytes second, store_bytes once, store_take first, store_behind first (Nat.le_add_right _ _), total,
      List.append_assoc (buffer.bytes.take offset)]
  · have refused : buffer.store offset (front ++ back) = none := by rw [store, dif_neg room]
    rw [refused, Option.bind_eq_none_iff]
    intro middle first
    rw [store, dif_neg (by omega)]

theorem store_cons (buffer : Buffer size) (offset : Nat) (byte : UInt8) (data : List UInt8) :
    buffer.store offset (byte :: data) = (buffer.store offset [byte]).bind (·.store (offset + 1) data) :=
  (store_append buffer offset [byte] data).symm

theorem store_byte {byte : UInt8} (stored : buffer.store offset [byte] = some after) :
    after.bytes = buffer.bytes.set offset byte := by
  have room := store_room stored
  have inside : offset < buffer.bytes.length := by
    rw [length_eq]
    exact room
  rw [store_bytes stored, List.set_eq_take_append_cons_drop, if_pos inside, List.append_assoc]
  rfl

/-- What is written is written again. -/
theorem store_overwrite {again : List UInt8} (stored : buffer.store offset data = some after)
    (covers : data.length ≤ again.length) : after.store offset again = buffer.store offset again := by
  by_cases room : offset + again.length ≤ size
  · obtain ⟨twice, second⟩ := after.store_exists offset again room
    obtain ⟨whole, once⟩ := buffer.store_exists offset again room
    rw [second, once, Option.some.injEq]
    apply ext_bytes
    rw [store_bytes second, store_bytes once, store_before stored, store_behind stored (by omega)]
  · rw [store, store, dif_neg room, dif_neg room]

end Buffer

/-- The string that starts a piece of memory. -/
def cstr (memory : List UInt8) : List UInt8 :=
  memory.takeWhile (· ≠ 0)

/-- The `size` bytes of a field that holds `text`: cut at `size`, zero-filled. -/
def padded (size : Nat) (text : List UInt8) : List UInt8 :=
  text.take size ++ List.replicate (size - text.length) 0

variable {memory rest text other : List UInt8} {size : Nat}

@[simp] theorem cstr_zero_cons : cstr (0 :: rest) = [] := by
  simp [cstr]

theorem cstr_cons {byte : UInt8} (nonzero : byte ≠ 0) : cstr (byte :: rest) = byte :: cstr rest := by
  simp [cstr, nonzero]

theorem cstr_noNul : 0 ∉ cstr memory := by
  intro member
  have := List.mem_takeWhile_imp member
  simp at this

theorem cstr_of_noNul (noNul : 0 ∉ text) : cstr text = text := by
  apply List.takeWhile_eq_self_iff.mpr
  intro byte member
  simpa using ne_of_mem_of_not_mem member noNul

theorem cstr_append (noNul : 0 ∉ text) : cstr (text ++ rest) = text ++ cstr rest := by
  induction text with
  | nil => rfl
  | cons byte text ih =>
      simp only [List.mem_cons, not_or] at noNul
      rw [List.cons_append, cstr_cons (Ne.symm noNul.1), ih noNul.2, List.cons_append]

theorem cstr_append_of_mem (terminated : 0 ∈ memory) : cstr (memory ++ rest) = cstr memory := by
  induction memory with
  | nil => simp at terminated
  | cons byte memory ih =>
      by_cases zero : byte = 0
      · subst zero
        simp
      · have inner : 0 ∈ memory := by simpa [Ne.symm zero] using terminated
        rw [List.cons_append, cstr_cons zero, cstr_cons zero, ih inner]

theorem cstr_split (terminated : 0 ∈ memory) : ∃ rest, memory = cstr memory ++ 0 :: rest := by
  induction memory with
  | nil => simp at terminated
  | cons byte memory ih =>
      by_cases zero : byte = 0
      · subst zero
        exact ⟨memory, by simp⟩
      · have inner : 0 ∈ memory := by simpa [Ne.symm zero] using terminated
        obtain ⟨rest, split⟩ := ih inner
        exact ⟨rest, by rw [cstr_cons zero, List.cons_append, ← split]⟩

theorem cstr_take (memory : List UInt8) : memory.take (cstr memory).length = cstr memory :=
  (List.prefix_iff_eq_take.mp (List.takeWhile_prefix _)).symm

theorem cstr_of_take {count : Nat} (front : memory.take count = text ++ [0]) (noNul : 0 ∉ text) :
    cstr memory = text := by
  rw [← List.take_append_drop count memory, front, List.append_assoc, cstr_append noNul]
  simp

theorem cstr_replicate_zero (count : Nat) : cstr (List.replicate count 0) = [] := by
  cases count with
  | zero => rfl
  | succ count => simp [List.replicate_succ]

theorem cstr_length_le : (cstr memory).length ≤ memory.length :=
  (List.takeWhile_prefix _).length_le

theorem cstr_length_lt (terminated : 0 ∈ memory) : (cstr memory).length < memory.length := by
  rcases Nat.lt_or_ge (cstr memory).length memory.length with below | above
  · exact below
  · have whole : cstr memory = memory :=
      (List.takeWhile_prefix _).eq_of_length (Nat.le_antisymm cstr_length_le above)
    exact absurd (whole ▸ terminated) cstr_noNul

@[simp] theorem padded_length : (padded size text).length = size := by
  simp only [padded, List.length_append, List.length_take, List.length_replicate]
  omega

theorem padded_of_long (long : size ≤ text.length) : padded size text = text.take size := by
  rw [padded, Nat.sub_eq_zero_of_le long, List.replicate_zero, List.append_nil]

theorem cstr_padded (noNul : 0 ∉ text) : cstr (padded size text) = text.take size := by
  have noNulTake : 0 ∉ text.take size := fun member => noNul (List.mem_of_mem_take member)
  rw [padded, cstr_append noNulTake, cstr_replicate_zero, List.append_nil]

theorem cstr_padded_of_short (noNul : 0 ∉ text) (short : text.length ≤ size) :
    cstr (padded size text) = text := by
  rw [cstr_padded noNul, List.take_of_length_le short]

theorem zero_mem_padded (noNul : 0 ∉ text) : 0 ∈ padded size text ↔ text.length < size := by
  have noNulTake : 0 ∉ text.take size := fun member => noNul (List.mem_of_mem_take member)
  simp only [padded, List.mem_append, noNulTake, false_or, List.mem_replicate, and_true]
  omega

/-- Writing text and a zero byte inside the string that a buffer holds replaces
the rest of the string. -/
theorem cstr_store {buffer after : Buffer size} {offset : Nat}
    (stored : buffer.store offset (text ++ [0]) = some after) (within : offset ≤ (cstr buffer.bytes).length)
    (noNul : 0 ∉ text) :
    0 ∈ after.bytes ∧ cstr after.bytes = (cstr buffer.bytes).take offset ++ text := by
  have front : buffer.bytes.take offset = (cstr buffer.bytes).take offset := by
    rw [← cstr_take buffer.bytes, List.take_take, min_eq_left within]
  have noNulFront : 0 ∉ (cstr buffer.bytes).take offset := fun member =>
    cstr_noNul (List.mem_of_mem_take member)
  rw [Buffer.store_bytes stored, front]
  refine ⟨by simp, ?_⟩
  rw [List.append_assoc, cstr_append noNulFront, List.append_assoc, cstr_append noNul]
  simp

end DugOS.Data
