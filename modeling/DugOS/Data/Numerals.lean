import Mathlib.Data.Nat.Digits.Lemmas

namespace DugOS.Data

/-! Positional numerals, with the digits from `0` to `9` and from `A` to `F`. -/

def digitChar (d : Nat) : UInt8 :=
  if d < 10 then UInt8.ofNat (48 + d) else UInt8.ofNat (55 + d)

def digitValue (c : UInt8) : Option Nat :=
  if 48 ≤ c ∧ c ≤ 57 then some (c.toNat - 48)
  else if 65 ≤ c ∧ c ≤ 70 then some (c.toNat - 55)
  else none

/-- The value of a numeral that stands behind a part of value `high`. It has none
if some character is not a digit of the base. -/
def numeralFrom (base : Nat) : Nat → List UInt8 → Option Nat
  | high, [] => some high
  | high, c :: text =>
      (digitValue c).bind fun d => if d < base then numeralFrom base (high * base + d) text else none

/-- The numeral has the value `n` and no zeros in front. -/
structure Denotes (base : Nat) (text : List UInt8) (n : Nat) : Prop where
  value : numeralFrom base 0 text = some n
  zero : n = 0 → text = [48]
  leading : n ≠ 0 → text.head? ≠ some 48

variable {base n d high : Nat} {text front back : List UInt8} {digits : List Nat}

theorem digitValue_digitChar (small : d < 16) : digitValue (digitChar d) = some d := by
  have all : ∀ d : Fin 16, digitValue (digitChar d) = some d.val := by decide
  exact all ⟨d, small⟩

theorem digitChar_eq_zero (small : d < 16) : digitChar d = 48 ↔ d = 0 := by
  have all : ∀ d : Fin 16, digitChar d = 48 ↔ d.val = 0 := by decide
  exact all ⟨d, small⟩

theorem numeralFrom_digit (below : d < base) (narrow : base ≤ 16) :
    numeralFrom base high (digitChar d :: text) = numeralFrom base (high * base + d) text := by
  rw [numeralFrom, digitValue_digitChar (Nat.lt_of_lt_of_le below narrow), Option.bind_some, if_pos below]

theorem numeralFrom_append :
    numeralFrom base high (front ++ back) = (numeralFrom base high front).bind (numeralFrom base · back) := by
  induction front generalizing high with
  | nil => rfl
  | cons c front ih =>
      rw [List.cons_append, numeralFrom, numeralFrom]
      cases digitValue c with
      | none => rfl
      | some d =>
          rw [Option.bind_some, Option.bind_some]
          split
          · exact ih
          · rfl

/-- Digits from the lowest to the highest, printed backwards. -/
theorem numeralFrom_reverse (below : ∀ d ∈ digits, d < base) (narrow : base ≤ 16) :
    numeralFrom base 0 (digits.map digitChar).reverse = some (Nat.ofDigits base digits) := by
  induction digits with
  | nil => rfl
  | cons d digits ih =>
      rw [List.map_cons, List.reverse_cons, numeralFrom_append,
        ih (fun other member => below other (by simp [member])), Option.bind_some,
        numeralFrom_digit (below d (by simp)) narrow, numeralFrom, Nat.ofDigits_cons]
      congr 1
      rw [Nat.mul_comm, Nat.add_comm]

theorem denotes_digits (wide : 1 < base) (narrow : base ≤ 16) (positive : n ≠ 0) :
    Denotes base ((Nat.digits base n).map digitChar).reverse n := by
  have below : ∀ d ∈ Nat.digits base n, d < base := fun d member => Nat.digits_lt_base wide member
  refine ⟨?_, fun zero => absurd zero positive, fun _ => ?_⟩
  · rw [numeralFrom_reverse below narrow, Nat.ofDigits_digits]
  · have nonempty : Nat.digits base n ≠ [] := Nat.digits_ne_nil_iff_ne_zero.mpr positive
    have last := Nat.getLast_digit_ne_zero base positive
    have small := Nat.lt_of_lt_of_le (below _ (List.getLast_mem nonempty)) narrow
    rw [List.head?_reverse, List.getLast?_map, List.getLast?_eq_some_getLast nonempty, Option.map_some,
      Ne, Option.some.injEq, digitChar_eq_zero small]
    exact last

end DugOS.Data
