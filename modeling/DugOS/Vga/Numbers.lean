import DugOS.Data.Numerals
import DugOS.Vga.Screen

namespace DugOS.Vga

open Data

/-! The characters that `vga_write_dec` and `vga_write_hex` hand to
`vga_putchar`. -/

section Decimal

/-- `while (n > 0) { buf[i++] = '0' + n % 10; n /= 10; }`. -/
def extractDigits (buf : Buffer 11) (i : Nat) (n : UInt32) : Option (Buffer 11 × Nat) :=
  if 0 < n then
    (buf.store i [48 + (n % 10).toUInt8]).bind fun buf => extractDigits buf (i + 1) (n / 10)
  else some (buf, i)
termination_by n.toNat
decreasing_by
  rename_i positive
  rw [UInt32.toNat_div]
  exact Nat.div_lt_self positive (by decide)

/-- `while (i > 0) vga_putchar(buf[--i])`. -/
def printBackwards (buf : Buffer 11) : Nat → Option (List UInt8)
  | 0 => some []
  | i + 1 => do
      let c ← buf.bytes[i]?
      let rest ← printBackwards buf i
      return c :: rest

/-- `buf` is on the stack and holds anything at first. -/
def vgaWriteDec (buf : Buffer 11) (n : UInt32) : Option (List UInt8) :=
  if n = 0 then some [48]
  else do
    let (buf, i) ← extractDigits buf 0 n
    printBackwards buf i

variable {buf : Buffer 11} {i : Nat} {n : UInt32}

theorem decimal_digit (n : UInt32) : 48 + (n % 10).toUInt8 = digitChar (n.toNat % 10) := by
  have all : ∀ d : Fin 10, 48 + (UInt32.ofNat d).toUInt8 = digitChar d := by decide
  have below : n.toNat % 10 < 10 := Nat.mod_lt _ (by decide)
  have same : n % 10 = UInt32.ofNat (n.toNat % 10) := by
    apply UInt32.toNat_inj.mp
    rw [UInt32.toNat_mod, UInt32.toNat_ofNat_of_lt' (Nat.lt_trans below (by decide))]
    rfl
  rw [same]
  exact all ⟨_, below⟩

theorem printBackwards_eq (buf : Buffer 11) (inside : i ≤ 11) :
    printBackwards buf i = some (buf.bytes.take i).reverse := by
  induction i with
  | zero => rfl
  | succ i ih =>
      have below : i < buf.bytes.length := by
        rw [buf.length_eq]
        omega
      rw [printBackwards, ih (by omega), List.getElem?_eq_getElem below, ← List.take_append_getElem below,
        List.reverse_append]
      rfl

theorem extractDigits_spec (buf : Buffer 11) (n : UInt32) (room : i + (Nat.digits 10 n.toNat).length ≤ 11) :
    ∃ after, extractDigits buf i n = some (after, i + (Nat.digits 10 n.toNat).length) ∧
      after.bytes.take (i + (Nat.digits 10 n.toNat).length) =
        buf.bytes.take i ++ (Nat.digits 10 n.toNat).map digitChar := by
  induction buf, i, n using extractDigits.induct with
  | case1 buf i n positive ih =>
      have more : 0 < n.toNat := positive
      have quotient : (n / 10).toNat = n.toNat / 10 := UInt32.toNat_div n 10
      have first := Nat.digits_def' (show 1 < 10 by decide) more
      rw [first, List.length_cons] at room ⊢
      obtain ⟨stored, written⟩ := buf.store_exists i [48 + (n % 10).toUInt8] (by simp; omega)
      obtain ⟨after, run, bytes⟩ := ih stored (by rw [quotient]; omega)
      have front : stored.bytes.take (i + 1) = buf.bytes.take i ++ [digitChar (n.toNat % 10)] := by
        rw [← decimal_digit]
        exact Buffer.store_take written
      rw [quotient] at run bytes
      rw [extractDigits, if_pos positive, written, Option.bind_some, run, Nat.add_right_comm]
      refine ⟨after, rfl, ?_⟩
      rw [Nat.add_right_comm] at bytes
      rw [← Nat.add_assoc, bytes, front, List.append_assoc]
      rfl
  | case2 buf i n none =>
      have zero : n.toNat = 0 := Nat.eq_zero_of_not_pos none
      rw [extractDigits, if_neg none, zero]
      exact ⟨buf, by simp, by simp⟩

theorem vgaWriteDec_denotes (buf : Buffer 11) (n : UInt32) :
    ∃ text, vgaWriteDec buf n = some text ∧ Denotes 10 text n.toNat := by
  rw [vgaWriteDec]
  by_cases zero : n = 0
  · rw [if_pos zero, zero]
    exact ⟨[48], rfl, rfl, fun _ => rfl, fun positive => absurd rfl positive⟩
  · have positive : n.toNat ≠ 0 := fun none => zero (UInt32.toNat_inj.mp none)
    have ten : (Nat.digits 10 n.toNat).length ≤ 10 :=
      (Nat.digits_length_le_iff (by decide) _).mpr (Nat.lt_of_lt_of_le n.toNat_lt (by decide))
    obtain ⟨after, run, bytes⟩ := extractDigits_spec (i := 0) buf n (by omega)
    have back := printBackwards_eq after (show 0 + (Nat.digits 10 n.toNat).length ≤ 11 by omega)
    rw [bytes, List.take_zero, List.nil_append] at back
    refine ⟨_, ?_, denotes_digits (by decide) (by decide) positive⟩
    rw [if_neg zero, run]
    exact back

end Decimal

section Hexadecimal

/-- The table `hex`, without its terminator. -/
def hexTable : List UInt8 :=
  ascii "0123456789ABCDEF"

/-- The loop over the nibbles with `k` of them to go, so that the next shift is by
`4 * (k - 1)`. -/
def hexLoop (n : UInt32) (started : Bool) : Nat → Option (List UInt8)
  | 0 => some []
  | k + 1 => do
      let c ← hexTable[((n >>> UInt32.ofNat (4 * k)) &&& 0xF).toNat]?
      if c ≠ 48 ∨ started = true ∨ k = 0 then (hexLoop n true k).map (c :: ·) else hexLoop n started k

def vgaWriteHex (n : UInt32) : Option (List UInt8) :=
  hexLoop n false 8

variable {n : UInt32} {k high : Nat} {started : Bool}

theorem nibble_toNat (n : UInt32) (inside : k < 8) :
    ((n >>> UInt32.ofNat (4 * k)) &&& 0xF).toNat = n.toNat / 16 ^ k % 16 := by
  have shift : (UInt32.ofNat (4 * k)).toNat % 32 = 4 * k := by
    rw [UInt32.toNat_ofNat_of_lt' (Nat.lt_trans (show 4 * k < 32 by omega) (by decide)), Nat.mod_eq_of_lt (by omega)]
  have mask : n.toNat >>> (4 * k) &&& 15 = (n.toNat >>> (4 * k)) % 2 ^ 4 := Nat.and_two_pow_sub_one_eq_mod _ 4
  rw [UInt32.toNat_and, UInt32.toNat_shiftRight, shift]
  change n.toNat >>> (4 * k) &&& 15 = _
  rw [mask, Nat.shiftRight_eq_div_pow, Nat.pow_mul]
  rfl

theorem hexTable_digit {d : Nat} (small : d < 16) : hexTable[d]? = some (digitChar d) := by
  have all : ∀ d : Fin 16, hexTable[d.val]? = some (digitChar d) := by decide
  exact all ⟨d, small⟩

theorem hexLoop_turn (n : UInt32) (started : Bool) (inside : k < 8) :
    hexLoop n started (k + 1) =
      if n.toNat / 16 ^ k % 16 ≠ 0 ∨ started = true ∨ k = 0 then
        (hexLoop n true k).map (digitChar (n.toNat / 16 ^ k % 16) :: ·)
      else hexLoop n started k := by
  have small : n.toNat / 16 ^ k % 16 < 16 := Nat.mod_lt _ (by decide)
  rw [hexLoop, nibble_toNat n inside, hexTable_digit small]
  simp only [Option.bind_eq_bind, Option.bind_some, ne_eq, digitChar_eq_zero small]

/-- Once it has started, the loop prints all nibbles that are left. -/
theorem hexLoop_started (n : UInt32) (inside : k ≤ 8) :
    ∃ text, hexLoop n true k = some text ∧
      ∀ high, numeralFrom 16 high text = some (high * 16 ^ k + n.toNat % 16 ^ k) := by
  induction k with
  | zero => exact ⟨[], rfl, fun high => by simp [numeralFrom, Nat.mod_one]⟩
  | succ k ih =>
      obtain ⟨text, run, value⟩ := ih (by omega)
      rw [hexLoop_turn n true (by omega), if_pos (.inr (.inl rfl)), run]
      refine ⟨_, rfl, ?_⟩
      intro high
      rw [numeralFrom_digit (Nat.mod_lt _ (by decide)) (by decide), value, Nat.mod_pow_succ]
      congr 1
      ring

theorem high_nibble (short : n.toNat < 16 ^ (k + 1)) : n.toNat / 16 ^ k % 16 = n.toNat / 16 ^ k := by
  rw [Nat.pow_succ] at short
  exact Nat.mod_eq_of_lt (Nat.div_lt_of_lt_mul short)

/-- The loop starts with the highest nibble that is not zero. -/
theorem hexLoop_starts (inside : k < 8) (short : n.toNat < 16 ^ (k + 1)) (first : n.toNat / 16 ^ k % 16 ≠ 0) :
    ∃ text, hexLoop n false (k + 1) = some text ∧ Denotes 16 text n.toNat := by
  obtain ⟨text, run, value⟩ := hexLoop_started n (Nat.le_of_lt inside)
  have positive : n.toNat ≠ 0 := by
    intro zero
    rw [zero, Nat.zero_div] at first
    exact first rfl
  rw [hexLoop_turn n false inside, if_pos (.inl first), run]
  refine ⟨_, rfl, ?_, fun zero => absurd zero positive, ?_⟩
  · rw [numeralFrom_digit (Nat.mod_lt _ (by decide)) (by decide), value, high_nibble short, Nat.zero_mul,
      Nat.zero_add, Nat.div_add_mod']
  · intro _ same
    rw [List.head?_cons, Option.some.injEq, digitChar_eq_zero (Nat.mod_lt _ (by decide))] at same
    exact first same

theorem hexLoop_denotes (inside : k < 8) (short : n.toNat < 16 ^ (k + 1)) :
    ∃ text, hexLoop n false (k + 1) = some text ∧ Denotes 16 text n.toNat := by
  induction k with
  | zero =>
      by_cases first : n.toNat / 16 ^ 0 % 16 = 0
      · have zero : n.toNat = 0 := by
          rw [high_nibble short, Nat.pow_zero, Nat.div_one] at first
          exact first
        rw [hexLoop_turn n false inside, if_pos (.inr (.inr rfl)), first, zero]
        exact ⟨[48], rfl, rfl, fun _ => rfl, fun positive => absurd rfl positive⟩
      · exact hexLoop_starts inside short first
  | succ k ih =>
      by_cases first : n.toNat / 16 ^ (k + 1) % 16 = 0
      · have shorter : n.toNat < 16 ^ (k + 1) := by
          rw [high_nibble short] at first
          exact Nat.lt_of_div_eq_zero (Nat.pow_pos (by decide)) first
        rw [hexLoop_turn n false inside, if_neg (by simp [first])]
        exact ih (by omega) shorter
      · exact hexLoop_starts inside short first

end Hexadecimal

/-- The numerals that are printed have the number as their value, and only zero
starts with the digit zero. -/
theorem printed_numerals (n : UInt32) :
    (∀ buf, ∃ text, vgaWriteDec buf n = some text ∧ numeralFrom 10 0 text = some n.toNat ∧
      (n = 0 → text = [48]) ∧ (n ≠ 0 → text.head? ≠ some 48)) ∧
    ∃ text, vgaWriteHex n = some text ∧ numeralFrom 16 0 text = some n.toNat ∧
      (n = 0 → text = [48]) ∧ (n ≠ 0 → text.head? ≠ some 48) := by
  have isZero : n.toNat = 0 ↔ n = 0 := UInt32.toNat_inj (b := 0)
  constructor
  · intro buf
    obtain ⟨text, printed, denotes⟩ := vgaWriteDec_denotes buf n
    exact ⟨text, printed, denotes.value, fun zero => denotes.zero (isZero.mpr zero),
      fun positive => denotes.leading (isZero.not.mpr positive)⟩
  · obtain ⟨text, printed, denotes⟩ := hexLoop_denotes (n := n) (k := 7) (by decide) n.toNat_lt
    exact ⟨text, printed, denotes.value, fun zero => denotes.zero (isZero.mpr zero),
      fun positive => denotes.leading (isZero.not.mpr positive)⟩

end DugOS.Vga
