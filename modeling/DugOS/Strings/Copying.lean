import DugOS.X86.Descriptors

namespace DugOS

open X86

/-! The routines of `string.c` that write through a pointer, on memory in which the
objects may overlap.

A copy goes upwards, a byte at a time. If the target begins inside the source, it
reads what it has written, and repeats the bytes in front of the target.
-/

section Source

/-- The addresses `d` and `s` are `dst` and `src` after the bytes copied so far. -/
def kmemcpy (mem : Memory) (d s : Word) : Nat → Memory
  | 0 => mem
  | n + 1 => kmemcpy (store8 mem d (mem s)) (d + 1) (s + 1) n

def kmemset (mem : Memory) (p : Word) (c : Byte) : Nat → Memory
  | 0 => mem
  | n + 1 => kmemset (store8 mem p c) (p + 1) c n

/-- The loop `while ((*p++ = *src++));` for at most `fuel` bytes, `none` if it is
still running then. -/
def copyString (mem : Memory) (p s : Word) : Nat → Option Memory
  | 0 => none
  | fuel + 1 =>
      let c := mem s
      let mem := store8 mem p c
      if c = 0 then some mem else copyString mem (p + 1) (s + 1) fuel

def kstrcpy (mem : Memory) (dst src : Word) (fuel : Nat) : Option Memory :=
  copyString mem dst src fuel

/-- The loop `while (*p) p++;`. -/
def stringEnd (mem : Memory) (p : Word) : Nat → Option Word
  | 0 => none
  | fuel + 1 => if mem p = 0 then some p else stringEnd mem (p + 1) fuel

def kstrcat (mem : Memory) (dst src : Word) (fuel : Nat) : Option Memory :=
  (stringEnd mem dst fuel).bind fun p => copyString mem p src fuel

/-- The outer `none` is a search that is still running, the inner one the null
pointer. -/
def kstrchr (mem : Memory) (s : Word) (c : Byte) : Nat → Option (Option Word)
  | 0 => none
  | fuel + 1 =>
      if mem s = 0 then some (if c = 0 then some s else none)
      else if mem s = c then some (some s)
      else kstrchr mem (s + 1) c fuel

end Source

variable {mem : Memory} {dst src : Word} {n length : Nat}

section Copy

theorem offset_succ (address : Word) (i : Nat) : address + 1 + BitVec.ofNat 32 i = address + BitVec.ofNat 32 (i + 1) := by
  rw [BitVec.add_assoc, Nat.add_comm, BitVec.ofNat_add]
  rfl

/-- The last byte of a copy. -/
theorem kmemcpy_snoc (mem : Memory) (dst src : Word) (n : Nat) : kmemcpy mem dst src (n + 1) =
    store8 (kmemcpy mem dst src n) (dst + BitVec.ofNat 32 n) (kmemcpy mem dst src n (src + BitVec.ofNat 32 n)) := by
  induction n generalizing mem dst src with
  | zero => simp [kmemcpy]
  | succ n ih =>
      rw [kmemcpy, ih, kmemcpy, offset_succ, offset_succ]

/-- The byte that a copy gets to in its turn `i`: as if the bytes between `src` and
`dst` were repeated for ever. -/
def turnByte (mem : Memory) (dst src : Word) (i : Nat) : Byte :=
  mem (src + BitVec.ofNat 32 (i % (dst - src).toNat))

/-- What memory holds after `n` turns, however far the copy has come. -/
structure Copied (mem : Memory) (dst src : Word) (n : Nat) (after : Memory) : Prop where
  written : ∀ i < n, n ≤ i + 4294967296 → after (dst + BitVec.ofNat 32 i) = turnByte mem dst src i
  others : ∀ byte, n ≤ (byte - dst).toNat → after byte = mem byte

theorem offset_toNat (address : Word) (i : Nat) :
    (address + BitVec.ofNat 32 i - address).toNat = i % 4294967296 := by
  rw [BitVec.add_comm, BitVec.add_sub_cancel, BitVec.toNat_ofNat]

/-- The target as a place behind the source. -/
theorem target_eq (dst src : Word) : src + BitVec.ofNat 32 (dst - src).toNat = dst := by
  rw [BitVec.ofNat_toNat, BitVec.setWidth_eq, BitVec.add_comm, BitVec.sub_add_cancel]

/-- The byte that the next turn reads. -/
theorem Copied.read {after : Memory} (copied : Copied mem dst src n after) :
    after (src + BitVec.ofNat 32 n) = turnByte mem dst src n := by
  have period := target_eq dst src
  have bound := (dst - src).isLt
  rw [turnByte]
  by_cases reached : (dst - src).toNat ≤ n
  · by_cases same : (dst - src).toNat = 0
    · -- the copy of an object on itself, which may have gone all around memory
      rw [same, BitVec.add_zero] at period
      rw [same, Nat.mod_zero, period]
      by_cases around : 4294967296 ≤ n
      · have earlier := copied.written (n - 4294967296) (by omega) (by omega)
        have wrapped : BitVec.ofNat 32 (n - 4294967296) = BitVec.ofNat 32 n := by
          apply BitVec.eq_of_toNat_eq
          rw [BitVec.toNat_ofNat, BitVec.toNat_ofNat]
          omega
        rwa [turnByte, same, Nat.mod_zero, wrapped, period] at earlier
      · apply copied.others
        rw [offset_toNat]
        omega
    · have earlier := copied.written (n - (dst - src).toNat) (by omega) (by omega)
      have place : dst + BitVec.ofNat 32 (n - (dst - src).toNat) = src + BitVec.ofNat 32 n := by
        have total : BitVec.ofNat 32 (dst - src).toNat + BitVec.ofNat 32 (n - (dst - src).toNat) = BitVec.ofNat 32 n := by
          rw [← BitVec.ofNat_add, Nat.add_sub_cancel' reached]
        rw [← total, ← BitVec.add_assoc, period]
      rw [place, turnByte, ← Nat.mod_eq_sub_mod reached] at earlier
      exact earlier
  · rw [Nat.mod_eq_of_lt (Nat.lt_of_not_le reached)]
    apply copied.others
    have distance : src + BitVec.ofNat 32 n - dst = BitVec.ofNat 32 n - (dst - src) := by
      generalize BitVec.ofNat 32 n = step
      bv_omega
    rw [distance, BitVec.toNat_sub, BitVec.toNat_ofNat]
    omega

theorem Copied.step {after : Memory} (copied : Copied mem dst src n after) :
    Copied mem dst src (n + 1) (store8 after (dst + BitVec.ofNat 32 n) (turnByte mem dst src n)) := by
  constructor
  case written =>
    intro i before recent
    rw [store8_apply]
    by_cases last : i = n
    · rw [last, if_pos rfl]
    · have elsewhere : dst + BitVec.ofNat 32 i ≠ dst + BitVec.ofNat 32 n := by
        intro same
        have distances := congrArg (fun address => (address - dst).toNat) same
        simp only [offset_toNat] at distances
        omega
      rw [if_neg elsewhere, copied.written i (by omega) (by omega)]
  case others =>
    intro byte beyond
    have elsewhere : byte ≠ dst + BitVec.ofNat 32 n := by
      intro same
      rw [same, offset_toNat] at beyond
      have small := Nat.mod_le n 4294967296
      omega
    rw [store8_apply, if_neg elsewhere, copied.others byte (by omega)]

theorem kmemcpy_copied (mem : Memory) (dst src : Word) (n : Nat) : Copied mem dst src n (kmemcpy mem dst src n) := by
  induction n with
  | zero => exact ⟨by simp, fun _ _ => rfl⟩
  | succ n ih =>
      rw [kmemcpy_snoc, ih.read]
      exact ih.step

/-- A copy repeats the bytes in front of the target when that begins inside the
source, and is exact for all contents of memory in no other case than that. -/
theorem kmemcpy_exact_iff (dst src n : Word) :
    (∀ mem, (∀ i < n.toNat, kmemcpy mem dst src n.toNat (dst + BitVec.ofNat 32 i) =
        mem (src + BitVec.ofNat 32 (i % (dst - src).toNat))) ∧
      ∀ byte, n.toNat ≤ (byte - dst).toNat → kmemcpy mem dst src n.toNat byte = mem byte) ∧
    ((∀ mem, ∀ i < n.toNat, kmemcpy mem dst src n.toNat (dst + BitVec.ofNat 32 i) = mem (src + BitVec.ofNat 32 i)) ↔
      dst = src ∨ n ≤ dst - src) := by
  have bound := n.isLt
  have each (mem : Memory) (i : Nat) (inside : i < n.toNat) :
      kmemcpy mem dst src n.toNat (dst + BitVec.ofNat 32 i) = mem (src + BitVec.ofNat 32 (i % (dst - src).toNat)) :=
    (kmemcpy_copied mem dst src n.toNat).written i inside (by omega)
  refine ⟨fun mem => ⟨each mem, (kmemcpy_copied mem dst src n.toNat).others⟩, ?_, ?_⟩
  · intro exact_copy
    by_contra inside
    rw [not_or, BitVec.not_le] at inside
    obtain ⟨different, short⟩ := inside
    have positive : (dst - src).toNat ≠ 0 := by
      intro zero
      have same := target_eq dst src
      rw [zero, BitVec.add_zero] at same
      exact different same.symm
    -- a memory in which the first byte of the source is the only one of its kind
    let first : Memory := fun byte => if byte = src then 1 else 0
    have repeated := each first (dst - src).toNat short
    have copied := exact_copy first (dst - src).toNat short
    rw [Nat.mod_self, BitVec.add_zero] at repeated
    rw [repeated, target_eq] at copied
    simp [first, different] at copied
  · intro apart mem i inside
    rw [each mem i inside]
    cases apart with
    | inl same => rw [same, BitVec.sub_self, BitVec.toNat_zero, Nat.mod_zero]
    | inr behind => rw [Nat.mod_eq_of_lt (Nat.lt_of_lt_of_le inside behind)]

end Copy

section Fill

theorem kmemset_snoc (mem : Memory) (p : Word) (c : Byte) (n : Nat) :
    kmemset mem p c (n + 1) = store8 (kmemset mem p c n) (p + BitVec.ofNat 32 n) c := by
  induction n generalizing mem p with
  | zero => simp [kmemset]
  | succ n ih => rw [kmemset, ih, kmemset, offset_succ]

/-- The bytes of the object and no others. -/
theorem kmemset_spec (mem : Memory) (p : Word) (c : Byte) (small : n ≤ 4294967296) (byte : Word) :
    kmemset mem p c n byte = if (byte - p).toNat < n then c else mem byte := by
  induction n with
  | zero => rfl
  | succ n ih =>
      rw [kmemset_snoc, store8_apply, ih (by omega)]
      by_cases last : byte = p + BitVec.ofNat 32 n
      · rw [if_pos last, last, offset_toNat, if_pos (by omega)]
      · have other : (byte - p).toNat ≠ n := by
          intro same
          have place := target_eq byte p
          rw [same] at place
          exact last place.symm
        rw [if_neg last]
        by_cases before : (byte - p).toNat < n
        · rw [if_pos before, if_pos (by omega)]
        · rw [if_neg before, if_neg (by omega)]

end Fill

section Strings

/-- A string of `length` characters and its terminator. -/
structure StringAt (mem : Memory) (s : Word) (length : Nat) : Prop where
  fits : length < 4294967296
  chars : ∀ i < length, mem (s + BitVec.ofNat 32 i) ≠ 0
  ends : mem (s + BitVec.ofNat 32 length) = 0

/-- The loop is still running after turns that have not copied a terminator. -/
theorem copyString_turns (going : ∀ i < n, turnByte mem dst src i ≠ 0) (fuel : Nat) :
    copyString mem dst src (n + fuel) =
      copyString (kmemcpy mem dst src n) (dst + BitVec.ofNat 32 n) (src + BitVec.ofNat 32 n) fuel := by
  induction n generalizing fuel with
  | zero => simp [kmemcpy]
  | succ n ih =>
      have read := (kmemcpy_copied mem dst src n).read
      have next (address : Word) : address + BitVec.ofNat 32 n + 1 = address + BitVec.ofNat 32 (n + 1) := by
        rw [BitVec.add_assoc, BitVec.ofNat_add]
        rfl
      rw [Nat.add_right_comm, Nat.add_assoc, ih (fun i before => going i (by omega)), copyString, kmemcpy_snoc, read]
      simp only [if_neg (going n (Nat.lt_succ_self n)), next]

/-- The terminator, when it is reached before the loop reads what it has written. -/
theorem copyString_ends (string : StringAt mem src length)
    (outside : dst = src ∨ length < (dst - src).toNat) :
    copyString mem dst src (length + 1) = some (kmemcpy mem dst src (length + 1)) := by
  have unrepeated (i : Nat) (inside : i ≤ length) : turnByte mem dst src i = mem (src + BitVec.ofNat 32 i) := by
    rw [turnByte]
    cases outside with
    | inl same => rw [same, BitVec.sub_self, BitVec.toNat_zero, Nat.mod_zero]
    | inr behind => rw [Nat.mod_eq_of_lt (by omega)]
  have going : ∀ i < length, turnByte mem dst src i ≠ 0 := by
    intro i inside
    rw [unrepeated i (by omega)]
    exact string.chars i inside
  have last : turnByte mem dst src length = 0 := by
    rw [unrepeated length (by omega)]
    exact string.ends
  rw [copyString_turns going 1, copyString, (kmemcpy_copied mem dst src length).read, kmemcpy_snoc,
    (kmemcpy_copied mem dst src length).read]
  simp only [last, if_true]

/-- A target inside the string destroys the terminator before it is read. -/
theorem copyString_runs_away (string : StringAt mem src length) (different : dst ≠ src)
    (inside : (dst - src).toNat ≤ length) (fuel : Nat) : copyString mem dst src fuel = none := by
  have positive : 0 < (dst - src).toNat := by
    apply Nat.pos_of_ne_zero
    intro zero
    have same := target_eq dst src
    rw [zero, BitVec.add_zero] at same
    exact different same.symm
  have going : ∀ i < fuel, turnByte mem dst src i ≠ 0 := by
    intro i _
    exact string.chars _ (Nat.lt_of_lt_of_le (Nat.mod_lt i positive) inside)
  exact copyString_turns going 0

theorem StringAt.tail (string : StringAt mem src (length + 1)) : StringAt mem (src + 1) length := by
  have fits := string.fits
  refine ⟨by omega, ?_, ?_⟩
  · intro i inside
    rw [offset_succ]
    exact string.chars (i + 1) (by omega)
  · rw [offset_succ]
    exact string.ends

/-- The search gives the first place of the character, which for the terminator is
the end of the string. -/
theorem kstrchr_eq (string : StringAt mem src length) (c : Byte) : kstrchr mem src c (length + 1) =
    some (((List.range (length + 1)).find? fun i => mem (src + BitVec.ofNat 32 i) = c).map fun i =>
      src + BitVec.ofNat 32 i) := by
  induction length generalizing src with
  | zero =>
      have ends := string.ends
      rw [BitVec.add_zero] at ends
      rw [kstrchr, if_pos ends, Nat.zero_add, List.range_one, List.find?_singleton, BitVec.add_zero, ends]
      by_cases terminator : c = 0
      · simp [terminator]
      · have other : ¬ (0 : Byte) = c := fun same => terminator same.symm
        rw [if_neg terminator, decide_eq_false other]
        rfl
  | succ length ih =>
      have first := string.chars 0 (Nat.zero_lt_succ length)
      rw [BitVec.add_zero] at first
      rw [kstrchr, if_neg first, List.range_succ_eq_map, List.find?_cons, BitVec.add_zero]
      by_cases here : mem src = c
      · simp [here]
      · rw [if_neg here, ih string.tail]
        simp only [here, decide_false, List.find?_map, Option.map_map]
        simp only [Function.comp_def, offset_succ]

theorem stringEnd_eq (string : StringAt mem src length) (fuel : Nat) :
    stringEnd mem src fuel = if length < fuel then some (src + BitVec.ofNat 32 length) else none := by
  induction fuel generalizing src length with
  | zero => rfl
  | succ fuel ih =>
      cases length with
      | zero =>
          have ends := string.ends
          rw [BitVec.add_zero] at ends
          rw [stringEnd, if_pos ends, if_pos (Nat.zero_lt_succ fuel), BitVec.add_zero]
      | succ length =>
          have first := string.chars 0 (Nat.zero_lt_succ length)
          rw [BitVec.add_zero] at first
          rw [stringEnd, if_neg first, ih string.tail, offset_succ]
          simp only [Nat.add_lt_add_iff_right]

theorem copyString_mono {fuel more : Nat} {after : Memory} (ended : copyString mem dst src fuel = some after)
    (longer : fuel ≤ more) : copyString mem dst src more = some after := by
  induction fuel generalizing mem dst src more with
  | zero => cases ended
  | succ fuel ih =>
      obtain ⟨extra, rfl⟩ : ∃ extra, more = extra + 1 := ⟨more - 1, by omega⟩
      rw [copyString] at ended ⊢
      by_cases last : mem src = 0
      · simp only [last, if_true] at ended ⊢
        exact ended
      · simp only [last, if_false] at ended ⊢
        exact ih ended (by omega)

/-- A string is copied exactly if the target is not inside it, behind its first
character. Otherwise `kstrcpy` never stops writing. -/
theorem kstrcpy_returns_iff (string : StringAt mem src length) :
    (∃ fuel after, kstrcpy mem dst src fuel = some after) ↔ dst = src ∨ length < (dst - src).toNat := by
  constructor
  · rintro ⟨fuel, after, returned⟩
    by_contra inside
    rw [not_or, Nat.not_lt] at inside
    rw [kstrcpy, copyString_runs_away string inside.1 inside.2] at returned
    cases returned
  · intro outside
    exact ⟨_, _, copyString_ends string outside⟩

theorem kstrcpy_copied {fuel : Nat} {after : Memory} (string : StringAt mem src length)
    (returned : kstrcpy mem dst src fuel = some after) :
    after = kmemcpy mem dst src (length + 1) ∧
      ∀ i ≤ length, after (dst + BitVec.ofNat 32 i) = mem (src + BitVec.ofNat 32 i) := by
  have outside := (kstrcpy_returns_iff string).mp ⟨fuel, after, returned⟩
  have fits := string.fits
  have copied : after = kmemcpy mem dst src (length + 1) := by
    have late := copyString_mono (copyString_ends string outside) (show length + 1 ≤ fuel + (length + 1) by omega)
    have same := copyString_mono returned (show fuel ≤ fuel + (length + 1) by omega)
    exact Option.some.inj (same.symm.trans late)
  refine ⟨copied, ?_⟩
  intro i inside
  rw [copied, (kmemcpy_copied mem dst src (length + 1)).written i (by omega) (by omega), turnByte]
  cases outside with
  | inl same => rw [same, BitVec.sub_self, BitVec.toNat_zero, Nat.mod_zero]
  | inr far => rw [Nat.mod_eq_of_lt (by omega)]

theorem kstrcat_eq (front : StringAt mem dst length) (fuel : Nat) : kstrcat mem dst src fuel =
    if length < fuel then kstrcpy mem (dst + BitVec.ofNat 32 length) src fuel else none := by
  rw [kstrcat, stringEnd_eq front]
  by_cases long : length < fuel
  · rw [if_pos long, if_pos long, Option.bind_some, kstrcpy]
  · rw [if_neg long, if_neg long, Option.bind_none]

/-- Memory has room for both strings: the terminator of the second one does not
lie among the characters of the first. -/
theorem StringAt.room {first second : Nat} (front : StringAt mem dst first) (back : StringAt mem src second)
    (outside : dst + BitVec.ofNat 32 first = src ∨ second < (dst + BitVec.ofNat 32 first - src).toNat) :
    first + second < 4294967296 := by
  have fits := front.fits
  cases outside with
  | inl same =>
      have none : second = 0 := by
        by_contra some
        apply back.chars 0 (by omega)
        rw [BitVec.add_zero, ← same]
        exact front.ends
      omega
  | inr far =>
      by_contra long
      have bound := (dst + BitVec.ofNat 32 first - src).isLt
      have place : src + BitVec.ofNat 32 second = dst + BitVec.ofNat 32
          (first + second - (dst + BitVec.ofNat 32 first - src).toNat) := by
        have target := target_eq (dst + BitVec.ofNat 32 first) src
        generalize (dst + BitVec.ofNat 32 first - src).toNat = distance at *
        have total : BitVec.ofNat 32 distance + BitVec.ofNat 32 (first + second - distance) =
            BitVec.ofNat 32 first + BitVec.ofNat 32 second := by
          rw [← BitVec.ofNat_add, ← BitVec.ofNat_add, Nat.add_sub_cancel' (by omega)]
        generalize BitVec.ofNat 32 (first + second - distance) = rest at *
        generalize BitVec.ofNat 32 distance = step at *
        generalize BitVec.ofNat 32 first = ahead at *
        bv_omega
      apply front.chars (first + second - (dst + BitVec.ofNat 32 first - src).toNat) (by omega)
      rw [← place]
      exact back.ends

/-- `kstrcat` returns exactly if the terminator of the first string is not inside
the second one, behind its first character. It then leaves the second string
behind the first. Otherwise, as when a string is appended to itself, it never
stops writing. -/
theorem kstrcat_returns_iff {first second : Nat} (front : StringAt mem dst first) (back : StringAt mem src second) :
    ((∃ fuel after, kstrcat mem dst src fuel = some after) ↔
      dst + BitVec.ofNat 32 first = src ∨ second < (dst + BitVec.ofNat 32 first - src).toNat) ∧
    ∀ fuel after, kstrcat mem dst src fuel = some after →
      StringAt after dst (first + second) ∧
      (∀ i < first, after (dst + BitVec.ofNat 32 i) = mem (dst + BitVec.ofNat 32 i)) ∧
      ∀ i ≤ second, after (dst + BitVec.ofNat 32 (first + i)) = mem (src + BitVec.ofNat 32 i) := by
  have appends (fuel : Nat) (after : Memory) (returned : kstrcat mem dst src fuel = some after) :
      kstrcpy mem (dst + BitVec.ofNat 32 first) src fuel = some after := by
    rw [kstrcat_eq front] at returned
    exact (Option.ite_none_right_eq_some.mp returned).2
  refine ⟨⟨?_, ?_⟩, ?_⟩
  · rintro ⟨fuel, after, returned⟩
    exact (kstrcpy_returns_iff back).mp ⟨fuel, after, appends fuel after returned⟩
  · intro outside
    obtain ⟨fuel, after, copies⟩ := (kstrcpy_returns_iff back).mpr outside
    refine ⟨first + 1 + fuel, after, ?_⟩
    rw [kstrcat_eq front, if_pos (by omega)]
    exact copyString_mono copies (by omega)
  · intro fuel after returned
    have copies := appends fuel after returned
    have room := front.room back ((kstrcpy_returns_iff back).mp ⟨fuel, after, copies⟩)
    obtain ⟨copied, exactly⟩ := kstrcpy_copied back copies
    have behind : ∀ i ≤ second, after (dst + BitVec.ofNat 32 (first + i)) = mem (src + BitVec.ofNat 32 i) := by
      intro i inside
      rw [← exactly i inside, BitVec.add_assoc, BitVec.ofNat_add]
    have before : ∀ i < first, after (dst + BitVec.ofNat 32 i) = mem (dst + BitVec.ofNat 32 i) := by
      intro i inside
      rw [copied]
      apply (kmemcpy_copied mem (dst + BitVec.ofNat 32 first) src (second + 1)).others
      rw [offset_sub (by omega) (by omega)]
      omega
    refine ⟨⟨room, ?_, ?_⟩, before, behind⟩
    · intro i inside
      by_cases early : i < first
      · rw [before i early]
        exact front.chars i early
      · have later := behind (i - first) (by omega)
        rw [Nat.add_sub_cancel' (by omega)] at later
        rw [later]
        exact back.chars (i - first) (by omega)
    · rw [behind second (Nat.le_refl second)]
      exact back.ends

/-- The letters `a` and `b` in two places. -/
def twoStrings : Memory := fun byte =>
  if byte = 0x100 then 97 else if byte = 0x200 then 98 else 0

theorem kstrcat_two : ∃ fuel after, kstrcat twoStrings 0x100 0x200 fuel = some after ∧ StringAt after 0x100 2 := by
  have front : StringAt twoStrings 0x100 1 := ⟨by decide, by decide, by decide⟩
  have back : StringAt twoStrings 0x200 1 := ⟨by decide, by decide, by decide⟩
  obtain ⟨returns, appended⟩ := kstrcat_returns_iff front back
  obtain ⟨fuel, after, returned⟩ := returns.mpr (by decide)
  exact ⟨fuel, after, returned, (appended fuel after returned).1⟩

end Strings

end DugOS
