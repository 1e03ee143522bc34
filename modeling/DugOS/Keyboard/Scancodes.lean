import DugOS.Keyboard
import Mathlib.Logic.Function.Basic

namespace DugOS.Keyboard

open Data

/-! The interrupt handler `kbd_isr`: scan codes, the two modifiers it tracks and
the character it passes to `kbd_put`.

The handler tells a break code from a make code by its highest bit, so that the
tables are only read below 128.
-/

structure Modifiers where
  shiftHeld : UInt8
  capsLockOn : UInt8
deriving DecidableEq

def glyphs (keys : List Char) : List UInt8 :=
  keys.map fun key => UInt8.ofNat key.toNat

def scancodeNormal : Buffer 128 where
  bytes :=
    [0, 27] ++ glyphs ['1', '2', '3', '4', '5', '6', '7', '8', '9', '0', '-', '='] ++ [8, 9] ++
    glyphs ['q', 'w', 'e', 'r', 't', 'y', 'u', 'i', 'o', 'p', '[', ']'] ++ [10, 0] ++
    glyphs ['a', 's', 'd', 'f', 'g', 'h', 'j', 'k', 'l', ';'] ++
    -- the two quotes, then Left Shift
    [39, 96, 0] ++
    glyphs ['\\', 'z', 'x', 'c', 'v', 'b', 'n', 'm', ',', '.', '/'] ++ [0] ++ glyphs ['*'] ++ [0] ++
    glyphs [' '] ++ List.replicate 70 0
  length_eq := by rfl

def scancodeShift : Buffer 128 where
  bytes :=
    [0, 27] ++ glyphs ['!', '@', '#', '$', '%', '^', '&', '*', '(', ')', '_', '+'] ++ [8, 9] ++
    glyphs ['Q', 'W', 'E', 'R', 'T', 'Y', 'U', 'I', 'O', 'P'] ++
    -- the two braces
    [123, 125] ++ [10, 0] ++
    glyphs ['A', 'S', 'D', 'F', 'G', 'H', 'J', 'K', 'L', ':'] ++
    [34, 126, 0] ++
    glyphs ['|', 'Z', 'X', 'C', 'V', 'B', 'N', 'M', '<', '>', '?'] ++ [0] ++ glyphs ['*'] ++ [0] ++
    glyphs [' '] ++ List.replicate 70 0
  length_eq := by rfl

theorem forall_code {property : UInt8 → Prop} (each : ∀ code : Fin 256, property (UInt8.ofFin code)) (sc : UInt8) :
    property sc :=
  each sc.toFin

theorem make_code_lt {sc : UInt8} (make : sc &&& 0x80 = 0) : sc.toNat < 128 := by
  have each : ∀ sc : UInt8, sc &&& 0x80 = 0 → sc.toNat < 128 := forall_code (by decide +kernel)
  exact each sc make

/-- The entry of a table at a make code. -/
def tableEntry (table : Buffer 128) (sc : UInt8) (make : sc &&& 0x80 = 0) : UInt8 :=
  table.bytes.get ⟨sc.toNat, by simpa using make_code_lt make⟩

def applyCapsLock (mods : Modifiers) (c : UInt8) : UInt8 :=
  if 97 ≤ c ∧ c ≤ 122 then
    if mods.capsLockOn ^^^ mods.shiftHeld ≠ 0 then c - 97 + 65 else c
  else if 65 ≤ c ∧ c ≤ 90 then
    if mods.capsLockOn ^^^ mods.shiftHeld ≠ 0 then c - 65 + 97 else c
  else c

/-- The modifiers that `kbd_isr` leaves, and the character that it passes to
`kbd_put` if it comes that far. -/
def decodeScancode (mods : Modifiers) (sc : UInt8) : Modifiers × Option UInt8 :=
  if make : sc &&& 0x80 = 0 then
    if sc = 0x2A ∨ sc = 0x36 then ({ mods with shiftHeld := 1 }, none)
    else if sc = 0x3A then ({ mods with capsLockOn := mods.capsLockOn ^^^ 1 }, none)
    else
      let c := if mods.shiftHeld ≠ 0 then tableEntry scancodeShift sc make else tableEntry scancodeNormal sc make
      if c = 0 then (mods, none) else (mods, some (applyCapsLock mods c))
  else
    let make := sc &&& 0x7F
    if make = 0x2A ∨ make = 0x36 then ({ mods with shiftHeld := 0 }, none) else (mods, none)

/-- `none` when the character would be stored outside of `kbd_buf`. -/
def kbdIsr (kbd : KbdState) (mods : Modifiers) (sc : UInt8) : Option (KbdState × Modifiers) :=
  match decodeScancode mods sc with
  | (mods, none) => some (kbd, mods)
  | (mods, some c) => (kbdPut kbd c).map fun kbd => (kbd, mods)

/-- The modifiers are in `.bss`. -/
def bootModifiers : Modifiers := ⟨0, 0⟩

/-- A scan code that was handled, with the character passed to `kbd_put`. -/
structure Scan where
  code : UInt8
  put : Option UInt8
deriving DecidableEq

def ScanStep (mods : Modifiers) (scan : Scan) (after : Modifiers) : Prop :=
  decodeScancode mods scan.code = (after, scan.put)

section Specification

/-- The glyph of a key in a table, none for a key without one. -/
def glyph (table : Buffer 128) (sc : UInt8) : Option UInt8 :=
  table.bytes[sc.toNat]?.filter (· ≠ 0)

def upperCase (letter : UInt8) : UInt8 :=
  letter - 97 + 65

/-- The key types a letter. -/
def LetterKey (sc : UInt8) : Prop :=
  ∃ letter ∈ glyph scancodeNormal sc, 97 ≤ letter ∧ letter ≤ 122

instance (sc : UInt8) : Decidable (LetterKey sc) :=
  inferInstanceAs (Decidable (∃ letter ∈ glyph scancodeNormal sc, 97 ≤ letter ∧ letter ≤ 122))

/-- What a standard keyboard types: letters in upper case when exactly one of the
two modifiers is set, the other keys by Shift alone. -/
def standardChar (mods : Modifiers) (sc : UInt8) : Option UInt8 :=
  if LetterKey sc then
    (glyph scancodeNormal sc).map fun letter =>
      if ¬ (mods.shiftHeld ≠ 0 ↔ mods.capsLockOn ≠ 0) then upperCase letter else letter
  else if mods.shiftHeld ≠ 0 then glyph scancodeShift sc
  else glyph scancodeNormal sc

end Specification

variable {mods after : Modifiers} {sc : UInt8} {trace : List (Transition Modifiers Scan)}

section Tables

theorem glyph_eq (table : Buffer 128) (make : sc &&& 0x80 = 0) :
    glyph table sc = if tableEntry table sc make = 0 then none else some (tableEntry table sc make) := by
  have inside : sc.toNat < table.bytes.length := by simpa using make_code_lt make
  have entry : table.bytes[sc.toNat]? = some (tableEntry table sc make) := List.getElem?_eq_getElem inside
  by_cases zero : tableEntry table sc make = 0
  · simp [glyph, entry, zero]
  · simp [glyph, entry, zero]

theorem glyph_release (table : Buffer 128) (release : ¬ sc &&& 0x80 = 0) : glyph table sc = none := by
  have each : ∀ sc : UInt8, ¬ sc &&& 0x80 = 0 → 128 ≤ sc.toNat := forall_code (by decide +kernel)
  have outside := each sc release
  simp [glyph, outside]

/-- The handler returns on the modifiers before it looks into the tables, where
they have no glyph. -/
theorem glyph_modifier (modifier : sc = 0x2A ∨ sc = 0x36 ∨ sc = 0x3A) :
    glyph scancodeNormal sc = none ∧ glyph scancodeShift sc = none := by
  rcases modifier with same | same | same <;> subst same <;> decide +kernel

/-- The shift table has the upper-case letter on every letter key. -/
theorem shift_letter (letter : LetterKey sc) :
    glyph scancodeShift sc = (glyph scancodeNormal sc).map upperCase := by
  have each : ∀ sc, LetterKey sc → glyph scancodeShift sc = (glyph scancodeNormal sc).map upperCase :=
    forall_code (by decide +kernel)
  exact each sc letter

theorem glyph_other (other : ¬ LetterKey sc) {c : UInt8}
    (found : c ∈ glyph scancodeNormal sc ∨ c ∈ glyph scancodeShift sc) :
    ¬ (97 ≤ c ∧ c ≤ 122) ∧ ¬ (65 ≤ c ∧ c ≤ 90) := by
  let caseless := fun c : UInt8 => decide (¬ (97 ≤ c ∧ c ≤ 122) ∧ ¬ (65 ≤ c ∧ c ≤ 90))
  have each : ∀ sc, ¬ LetterKey sc → (glyph scancodeNormal sc).all caseless = true ∧
      (glyph scancodeShift sc).all caseless = true := forall_code (by decide +kernel)
  obtain ⟨normal, shifted⟩ := each sc other
  rcases found with found | found
  · exact of_decide_eq_true ((Option.all_eq_true caseless _).mp normal c found)
  · exact of_decide_eq_true ((Option.all_eq_true caseless _).mp shifted c found)

/-- The table that the handler reads. -/
def Modifiers.table (mods : Modifiers) : Buffer 128 :=
  if mods.shiftHeld ≠ 0 then scancodeShift else scancodeNormal

theorem Modifiers.table_cases (mods : Modifiers) : mods.table = scancodeNormal ∨ mods.table = scancodeShift := by
  rw [table]
  split
  · exact .inr rfl
  · exact .inl rfl

/-- Whichever way the handler returns, it passes on what stands in its table. -/
theorem decodeScancode_put (mods : Modifiers) (sc : UInt8) :
    (decodeScancode mods sc).2 = (glyph mods.table sc).map (applyCapsLock mods) := by
  have modifier : sc = 0x2A ∨ sc = 0x36 ∨ sc = 0x3A → glyph mods.table sc = none := by
    intro modifier
    obtain ⟨normal, shifted⟩ := glyph_modifier modifier
    rcases mods.table_cases with table | table
    · rwa [table]
    · rwa [table]
  by_cases make : sc &&& 0x80 = 0
  · by_cases shift : sc = 0x2A ∨ sc = 0x36
    · rw [modifier (by tauto), decodeScancode, dif_pos make, if_pos shift]
      rfl
    · by_cases caps : sc = 0x3A
      · rw [modifier (by tauto), decodeScancode, dif_pos make, if_neg shift, if_pos caps]
        rfl
      · have entry : (if mods.shiftHeld ≠ 0 then tableEntry scancodeShift sc make
            else tableEntry scancodeNormal sc make) = tableEntry mods.table sc make := by
          simp only [Modifiers.table]
          split <;> rfl
        rw [glyph_eq mods.table make, decodeScancode, dif_pos make, if_neg shift, if_neg caps, entry]
        by_cases empty : tableEntry mods.table sc make = 0
        · simp [empty]
        · simp [empty]
  · rw [glyph_release mods.table make, decodeScancode, dif_neg make]
    dsimp only
    split <;> rfl

/-- Only the codes of the two Shift keys and the make code of Caps Lock change a
modifier. -/
theorem decodeScancode_modifiers (mods : Modifiers) (sc : UInt8) : (decodeScancode mods sc).1 =
    if sc = 0x2A ∨ sc = 0x36 then { mods with shiftHeld := 1 }
    else if sc = 0xAA ∨ sc = 0xB6 then { mods with shiftHeld := 0 }
    else if sc = 0x3A then { mods with capsLockOn := mods.capsLockOn ^^^ 1 }
    else mods := by
  have pressed : ∀ sc : UInt8, sc &&& 0x80 = 0 → ¬ (sc = 0xAA ∨ sc = 0xB6) := forall_code (by decide +kernel)
  have released : ∀ sc : UInt8, ¬ sc &&& 0x80 = 0 →
      (sc &&& 0x7F = 0x2A ∨ sc &&& 0x7F = 0x36 ↔ sc = 0xAA ∨ sc = 0xB6) ∧
      ¬ (sc = 0x2A ∨ sc = 0x36) ∧ ¬ sc = 0x3A := forall_code (by decide +kernel)
  by_cases make : sc &&& 0x80 = 0
  · rw [decodeScancode, dif_pos make, if_neg (pressed sc make)]
    by_cases shift : sc = 0x2A ∨ sc = 0x36
    · rw [if_pos shift, if_pos shift]
    · rw [if_neg shift, if_neg shift]
      by_cases caps : sc = 0x3A
      · rw [if_pos caps, if_pos caps]
      · rw [if_neg caps, if_neg caps]
        exact (apply_ite Prod.fst _ _ _).trans (ite_self mods)
  · obtain ⟨up, down, caps⟩ := released sc make
    rw [decodeScancode, dif_neg make, if_neg down, if_neg caps]
    simp only [up]
    exact apply_ite Prod.fst _ _ _

/-- Both flags are 0 or 1, as the handler sets them. -/
structure Modifiers.Binary (mods : Modifiers) : Prop where
  shift : mods.shiftHeld = 0 ∨ mods.shiftHeld = 1
  caps : mods.capsLockOn = 0 ∨ mods.capsLockOn = 1

theorem ScanStep.binary {scan : Scan} (binary : mods.Binary) (step : ScanStep mods scan after) : after.Binary := by
  obtain ⟨shift, caps⟩ := binary
  have left : (decodeScancode mods scan.code).1 = after := congrArg Prod.fst step
  rw [decodeScancode_modifiers] at left
  subst left
  split
  · exact ⟨.inr rfl, caps⟩
  · split
    · exact ⟨.inl rfl, caps⟩
    · split
      · refine ⟨shift, ?_⟩
        rcases caps with off | on
        · exact .inr (by rw [off]; rfl)
        · exact .inl (by rw [on]; rfl)
      · exact ⟨shift, caps⟩

theorem applyCapsLock_lower {letter : UInt8} (low : 97 ≤ letter) (high : letter ≤ 122) :
    applyCapsLock mods letter =
      if mods.capsLockOn ^^^ mods.shiftHeld ≠ 0 then upperCase letter else letter := by
  rw [applyCapsLock, if_pos ⟨low, high⟩, upperCase]

theorem applyCapsLock_upper {letter : UInt8} (low : 97 ≤ letter) (high : letter ≤ 122) :
    applyCapsLock mods (upperCase letter) =
      if mods.capsLockOn ^^^ mods.shiftHeld ≠ 0 then letter else upperCase letter := by
  have each : ∀ letter : UInt8, 97 ≤ letter → letter ≤ 122 →
      ¬ (97 ≤ upperCase letter ∧ upperCase letter ≤ 122) ∧ (65 ≤ upperCase letter ∧ upperCase letter ≤ 90) ∧
      upperCase letter - 65 + 97 = letter := forall_code (by decide +kernel)
  obtain ⟨notLower, upper, back⟩ := each letter low high
  rw [applyCapsLock, if_neg notLower, if_pos upper, back]

theorem upperCase_ne {letter : UInt8} (low : 97 ≤ letter) (high : letter ≤ 122) : upperCase letter ≠ letter := by
  have each : ∀ letter : UInt8, 97 ≤ letter → letter ≤ 122 → upperCase letter ≠ letter :=
    forall_code (by decide +kernel)
  exact each letter low high

/-- The character is the standard one unless a letter key is handled while Shift
is held: the shift table has the letter in upper case already, and the flag
flips it a second time. -/
theorem decodeScancode_standard_iff (binary : mods.Binary) (sc : UInt8) :
    (decodeScancode mods sc).2 = standardChar mods sc ↔ ¬ (mods.shiftHeld ≠ 0 ∧ LetterKey sc) := by
  rw [decodeScancode_put, standardChar]
  by_cases key : LetterKey sc
  · rw [if_pos key]
    obtain ⟨letter, found, low, high⟩ := id key
    have differ := upperCase_ne low high
    rcases binary.shift with off | on
    · have table : mods.table = scancodeNormal := by simp [Modifiers.table, off]
      rw [table, found, Option.map_some, Option.map_some, applyCapsLock_lower low high]
      rcases binary.caps with caps | caps <;> simp [off, caps]
    · have table : mods.table = scancodeShift := by simp [Modifiers.table, on]
      rw [table, shift_letter key, found, Option.map_some, Option.map_some, Option.map_some,
        applyCapsLock_upper low high]
      rcases binary.caps with caps | caps <;> simp [on, caps, key, differ, differ.symm]
  · have same : (glyph mods.table sc).map (applyCapsLock mods) = (glyph mods.table sc).map id := by
      apply Option.map_congr
      intro c found
      have caseless := glyph_other key (c := c) (by
        rcases mods.table_cases with table | table
        · exact .inl (table ▸ found)
        · exact .inr (table ▸ found))
      rw [applyCapsLock, if_neg caseless.1, if_neg caseless.2, id]
    rw [same, Option.map_id_apply, if_neg key, Modifiers.table]
    simp only [key, and_false, not_false_eq_true, iff_true]
    split <;> rfl

end Tables

/-- An interrupt puts the decoded character into the ring, or leaves the ring
alone. -/
theorem kbdIsr_spec {kbd : KbdState} {queue : List UInt8} (held : kbd.Queue queue) (mods : Modifiers) (sc : UInt8)
    (reader : Reader) : ∃ after, kbdIsr kbd mods sc = some (after, (decodeScancode mods sc).1) ∧
      match (decodeScancode mods sc).2 with
      | none => after = kbd
      | some c => KbdStep ⟨kbd, reader⟩ (.put c) ⟨after, reader⟩ := by
  rcases decoded : decodeScancode mods sc with ⟨left, put⟩
  cases put with
  | none => exact ⟨kbd, by simp [kbdIsr, decoded], rfl⟩
  | some c =>
      by_cases full : kbd.Full
      · exact ⟨kbd, by simp [kbdIsr, decoded, kbdPut_full full], .put (kbdPut_full full c)⟩
      · obtain ⟨after, stored, _, _⟩ := kbdPut_space held full c
        exact ⟨after, by simp [kbdIsr, decoded, stored], .put stored⟩

section Sessions

theorem binary_bootModifiers : bootModifiers.Binary :=
  ⟨.inl rfl, .inl rfl⟩

/-- In a typing session letters have the standard case exactly if no letter key
is handled while Shift is held. -/
theorem letter_case_iff {final : Modifiers} (run : Run ScanStep bootModifiers trace final) :
    (∀ scan ∈ trace, scan.label.put = standardChar scan.before scan.label.code) ↔
      ∀ scan ∈ trace, ¬ (scan.before.shiftHeld ≠ 0 ∧ LetterKey scan.label.code) := by
  have each := run.invariant_before binary_bootModifiers fun _ _ _ binary step => ScanStep.binary binary step
  apply forall_congr'
  intro scan
  apply forall_congr'
  intro member
  obtain ⟨binary, step⟩ := each scan member
  have put : (decodeScancode scan.before scan.label.code).2 = scan.label.put := congrArg Prod.snd step
  rw [← put, decodeScancode_standard_iff binary]

/-- Caps Lock, then the key of the letter a. -/
theorem letter_case_caps_lock : ∃ trace final, Run ScanStep bootModifiers trace final ∧
    trace.map Transition.label = [⟨0x3A, none⟩, ⟨0x1E, some 65⟩] ∧
    ∀ scan ∈ trace, scan.label.put = standardChar scan.before scan.label.code := by
  have lock : ScanStep bootModifiers ⟨0x3A, none⟩ ⟨0, 1⟩ := rfl
  have letter : ScanStep ⟨0, 1⟩ ⟨0x1E, some 65⟩ ⟨0, 1⟩ := rfl
  have run := (Run.done.next lock).next letter
  refine ⟨_, _, run, rfl, (letter_case_iff run).mpr ?_⟩
  simp [bootModifiers]

/-- Left Shift, then the key of the letter a: the handler types a small a. -/
theorem shifted_letter_small : ¬ ∀ trace final, Run ScanStep bootModifiers trace final →
    ∀ scan ∈ trace, scan.label.put = standardChar scan.before scan.label.code := by
  intro standard
  have shift : ScanStep bootModifiers ⟨0x2A, none⟩ ⟨1, 0⟩ := rfl
  have letter : ScanStep ⟨1, 0⟩ ⟨0x1E, some 97⟩ ⟨1, 0⟩ := rfl
  have typed := standard _ _ ((Run.done.next shift).next letter) ⟨⟨1, 0⟩, ⟨0x1E, some 97⟩, ⟨1, 0⟩⟩ (by simp)
  revert typed
  decide +kernel

end Sessions

section Shift

/-- The driver and the keys that are down. -/
structure Typing where
  mods : Modifiers
  down : UInt8 → Bool

inductive KeyEvent where
  | press (key : UInt8)
  | release (key : UInt8)
deriving DecidableEq

/-- A key sends its make code when it is pressed and again while it is kept down,
and its break code when it is released. -/
inductive KeyStep : Typing → KeyEvent → Typing → Prop
  | press {mods down key} (make : key < 0x80) : KeyStep ⟨mods, down⟩ (.press key)
      ⟨(decodeScancode mods key).1, Function.update down key true⟩
  | release {mods down key} (make : key < 0x80) (held : down key = true) : KeyStep ⟨mods, down⟩ (.release key)
      ⟨(decodeScancode mods (key ||| 0x80)).1, Function.update down key false⟩

def bootTyping : Typing := ⟨bootModifiers, fun _ => false⟩

/-- The comment on `shift_held`. -/
def Typing.Tracks (typing : Typing) : Prop :=
  typing.mods.shiftHeld = 1 ↔ typing.down 0x2A = true ∨ typing.down 0x36 = true

/-- One of the two Shift keys is released while the other one is down. -/
def OverlappingRelease (typing : Typing) : KeyEvent → Prop
  | .press _ => False
  | .release key => key = 0x2A ∧ typing.down 0x36 = true ∨ key = 0x36 ∧ typing.down 0x2A = true

theorem decodeScancode_press {key : UInt8} (make : key < 0x80) (mods : Modifiers) :
    (decodeScancode mods key).1.shiftHeld = if key = 0x2A ∨ key = 0x36 then 1 else mods.shiftHeld := by
  have each : ∀ key : UInt8, key < 0x80 → ¬ (key = 0xAA ∨ key = 0xB6) := forall_code (by decide +kernel)
  rw [decodeScancode_modifiers, if_neg (each key make)]
  split
  · rfl
  · split <;> rfl

theorem decodeScancode_release {key : UInt8} (make : key < 0x80) (mods : Modifiers) :
    (decodeScancode mods (key ||| 0x80)).1.shiftHeld = if key = 0x2A ∨ key = 0x36 then 0 else mods.shiftHeld := by
  have each : ∀ key : UInt8, key < 0x80 → ¬ (key ||| 0x80 = 0x2A ∨ key ||| 0x80 = 0x36) ∧
      (key ||| 0x80 = 0xAA ∨ key ||| 0x80 = 0xB6 ↔ key = 0x2A ∨ key = 0x36) ∧ ¬ key ||| 0x80 = 0x3A :=
    forall_code (by decide +kernel)
  obtain ⟨up, shift, caps⟩ := each key make
  rw [decodeScancode_modifiers, if_neg up, if_neg caps]
  simp only [shift]
  exact apply_ite Modifiers.shiftHeld _ _ _

theorem KeyStep.tracks_iff {before next : Typing} {event : KeyEvent} (tracks : before.Tracks)
    (step : KeyStep before event next) : next.Tracks ↔ ¬ OverlappingRelease before event := by
  cases step with
  | press make =>
      rename_i mods down key
      simp only [OverlappingRelease, not_false_eq_true, iff_true, Typing.Tracks, decodeScancode_press make]
      by_cases left : key = 0x2A
      · simp [left]
      · by_cases right : key = 0x36
        · simp [right]
        · have same : mods.shiftHeld = 1 ↔ down 0x2A = true ∨ down 0x36 = true := tracks
          simp [left, right, Ne.symm left, Ne.symm right, same]
  | release make held =>
      rename_i mods down key
      simp only [OverlappingRelease, Typing.Tracks, decodeScancode_release make]
      by_cases left : key = 0x2A
      · simp [left]
      · by_cases right : key = 0x36
        · simp [right]
        · have same : mods.shiftHeld = 1 ↔ down 0x2A = true ∨ down 0x36 = true := tracks
          simp [left, right, Ne.symm left, Ne.symm right, same]

/-- `shift_held` says whether a Shift key is down after every scan code exactly if
no Shift key is released while the other one is down. -/
theorem shift_tracked_iff {trace : List (Transition Typing KeyEvent)} {final : Typing}
    (run : Run KeyStep bootTyping trace final) :
    (∀ key ∈ trace, key.after.Tracks) ↔ ∀ key ∈ trace, ¬ OverlappingRelease key.before key.label := by
  have boot : bootTyping.Tracks := by simp [bootTyping, Typing.Tracks, bootModifiers]
  exact run.holds_throughout_iff boot fun _ _ _ tracks step => step.tracks_iff tracks

theorem shift_tracked_once : ∃ trace final, Run KeyStep bootTyping trace final ∧
    trace.map Transition.label = [.press 0x2A, .press 0x2A, .release 0x2A] ∧
    ∀ key ∈ trace, key.after.Tracks := by
  have left : (0x2A : UInt8) < 0x80 := by decide
  have first : KeyStep bootTyping (.press 0x2A) _ := .press left
  have run := ((Run.done.next first).next (.press left)).next (.release left (by simp))
  refine ⟨_, _, run, rfl, (shift_tracked_iff run).mpr ?_⟩
  simp [OverlappingRelease]

/-- Both Shift keys pressed, one released. -/
theorem shift_lost : ¬ ∀ trace final, Run KeyStep bootTyping trace final → ∀ key ∈ trace, key.after.Tracks := by
  intro tracked
  have left : (0x2A : UInt8) < 0x80 := by decide
  have right : (0x36 : UInt8) < 0x80 := by decide
  have first : KeyStep bootTyping (.press 0x2A) _ := .press left
  have run := ((Run.done.next first).next (.press right)).next (.release left (by simp))
  have last := tracked _ _ run _ (List.mem_append_right _ (List.mem_singleton_self _))
  simp [Typing.Tracks, decodeScancode_release] at last

end Shift

end DugOS.Keyboard
