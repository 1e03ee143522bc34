import Mathlib.Algebra.Group.Nat.Defs
import Mathlib.Data.List.Basic

namespace DugOS.X86

/-! Byte memory with 32-bit addresses, and the words that lie behind one another
in it.

Addresses wrap around, so that nothing is assumed about where a stack lies:
words are apart as long as fewer than 2^30 of them are looked at.
-/

abbrev Word := BitVec 32
abbrev Byte := BitVec 8
abbrev Memory := Word → Byte

/-- Byte `lane` of a word, the lowest one first. -/
def byteOf (value : Word) (lane : Nat) : Byte :=
  BitVec.ofNat 8 (value.toNat / 256 ^ lane)

def load32 (mem : Memory) (address : Word) : Word :=
  BitVec.ofNat 32 ((mem address).toNat + 256 * (mem (address + 1)).toNat +
    65536 * (mem (address + 2)).toNat + 16777216 * (mem (address + 3)).toNat)

def store32 (mem : Memory) (address value : Word) : Memory := fun byte =>
  if byte - address < 4 then byteOf value (byte - address).toNat else mem byte

/-- The words from `address` on. -/
def WordsAt (mem : Memory) (address : Word) : List Word → Prop
  | [] => True
  | word :: rest => load32 mem address = word ∧ WordsAt mem (address + 4) rest

variable {mem after : Memory} {address base value word : Word} {words : List Word}

theorem sub_sub_word (address first second : Word) : address - first - second = address - (first + second) := by
  bv_omega

theorem sub_add_word (address first second : Word) : address - first + second = address - (first - second) := by
  bv_omega

theorem store32_lane {lane : Nat} (small : lane < 4) (mem : Memory) (address value : Word) :
    store32 mem address value (address + BitVec.ofNat 32 lane) = byteOf value lane := by
  have offset : address + BitVec.ofNat 32 lane - address = BitVec.ofNat 32 lane := by
    rw [BitVec.add_comm, BitVec.add_sub_cancel]
  have exactly : (BitVec.ofNat 32 lane).toNat = lane := by
    rw [BitVec.toNat_ofNat]
    omega
  have inside : BitVec.ofNat 32 lane < 4 := by
    rw [BitVec.lt_def, exactly]
    exact small
  rw [store32, offset, if_pos inside, exactly]

theorem store32_outside {byte : Word} (outside : 4 ≤ (byte - address).toNat) (mem : Memory) (value : Word) :
    store32 mem address value byte = mem byte := by
  have beyond : ¬ byte - address < 4 := by
    rw [BitVec.lt_def]
    exact Nat.not_lt.mpr outside
  rw [store32, if_neg beyond]

theorem load32_congr (same : ∀ i < 4, after (address + BitVec.ofNat 32 i) = mem (address + BitVec.ofNat 32 i)) :
    load32 after address = load32 mem address := by
  have first : after address = mem address := by simpa using same 0 (by decide)
  have second : after (address + 1) = mem (address + 1) := same 1 (by decide)
  have third : after (address + 2) = mem (address + 2) := same 2 (by decide)
  have fourth : after (address + 3) = mem (address + 3) := same 3 (by decide)
  rw [load32, first, second, third, fourth, load32]

theorem load32_store32 (mem : Memory) (address value : Word) : load32 (store32 mem address value) address = value := by
  have first : store32 mem address value address = byteOf value 0 := by
    simpa using store32_lane (show 0 < 4 by decide) mem address value
  have second : store32 mem address value (address + 1) = byteOf value 1 := store32_lane (by decide) mem address value
  have third : store32 mem address value (address + 2) = byteOf value 2 := store32_lane (by decide) mem address value
  have fourth : store32 mem address value (address + 3) = byteOf value 3 := store32_lane (by decide) mem address value
  rw [load32, first, second, third, fourth]
  apply BitVec.eq_of_toNat_eq
  have bound := value.isLt
  simp only [byteOf, BitVec.toNat_ofNat]
  omega

theorem WordsAt.get {i : Nat} (stored : WordsAt mem address words) (known : words[i]? = some word) :
    load32 mem (address + BitVec.ofNat 32 (4 * i)) = word := by
  induction words generalizing address i with
  | nil => simp at known
  | cons first rest ih =>
      cases i with
      | zero =>
          cases known
          simpa using stored.1
      | succ i =>
          have further : address + BitVec.ofNat 32 (4 * (i + 1)) = address + 4 + BitVec.ofNat 32 (4 * i) := by
            rw [Nat.mul_succ, Nat.add_comm, BitVec.ofNat_add, ← BitVec.add_assoc]
            rfl
          rw [further]
          exact ih stored.2 known

theorem WordsAt.congr (stored : WordsAt mem address words)
    (same : ∀ i < 4 * words.length, after (address + BitVec.ofNat 32 i) = mem (address + BitVec.ofNat 32 i)) :
    WordsAt after address words := by
  induction words generalizing address with
  | nil => trivial
  | cons first rest ih =>
      obtain ⟨loaded, tail⟩ := stored
      rw [List.length_cons] at same
      refine ⟨(load32_congr fun i small => same i (by omega)).trans loaded, ih tail ?_⟩
      intro i below
      have shifted : address + 4 + BitVec.ofNat 32 i = address + BitVec.ofNat 32 (4 + i) := by
        rw [BitVec.add_assoc, BitVec.ofNat_add]
        rfl
      rw [shifted]
      exact same (4 + i) (by omega)

theorem WordsAt.push (stored : WordsAt mem address words) (room : 4 * words.length + 4 ≤ 4294967296) (value : Word) :
    WordsAt (store32 mem (address - 4) value) (address - 4) (value :: words) := by
  refine ⟨load32_store32 mem (address - 4) value, ?_⟩
  rw [BitVec.sub_add_cancel]
  apply stored.congr
  intro i below
  apply store32_outside
  have offset : address + BitVec.ofNat 32 i - (address - 4) = BitVec.ofNat 32 (i + 4) := by
    rw [BitVec.ofNat_add]
    generalize BitVec.ofNat 32 i = lane
    bv_omega
  rw [offset, BitVec.toNat_ofNat]
  omega

end DugOS.X86
