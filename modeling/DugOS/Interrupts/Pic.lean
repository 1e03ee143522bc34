import DugOS.Data.History

namespace DugOS.Interrupts

open Data

/-! The two 8259A interrupt controllers and the functions of `pic.c` on them. -/

inductive Chip where
  | master
  | slave
deriving DecidableEq

/-- The registers of the two chips, and the diagnostic port of `io_wait`. -/
inductive Port where
  | cmd (chip : Chip)
  | data (chip : Chip)
  | post
deriving DecidableEq

/-- Which initialization word a chip waits for at its data port. -/
inductive Stage where
  | ready
  | icw2 (cascaded icw4 : Bool)
  | icw3 (icw4 : Bool)
  | icw4
deriving DecidableEq

structure ChipState where
  mask : UInt8
  base : UInt8
  stage : Stage

/-- A write with bit 4 set is ICW1, which clears the mask register and starts the
sequence. The other commands leave the mask register alone. -/
def ChipState.command (chip : ChipState) (value : UInt8) : ChipState :=
  if value &&& 0x10 ≠ 0 then
    { chip with mask := 0, stage := .icw2 (value &&& 0x02 = 0) (value &&& 0x01 ≠ 0) }
  else chip

def ChipState.write (chip : ChipState) (value : UInt8) : ChipState :=
  match chip.stage with
  | .ready => { chip with mask := value }
  | .icw2 cascaded icw4 =>
      { chip with base := value &&& 0xF8, stage := if cascaded then .icw3 icw4 else if icw4 then .icw4 else .ready }
  | .icw3 icw4 => { chip with stage := if icw4 then .icw4 else .ready }
  | .icw4 => { chip with stage := .ready }

abbrev Pics := Chip → ChipState

def outb (pics : Pics) : Port → UInt8 → Pics
  | .cmd chip, value => Function.update pics chip ((pics chip).command value)
  | .data chip, value => Function.update pics chip ((pics chip).write value)
  | .post, _ => pics

/-- `inb` of a data port. -/
def readMask (pics : Pics) (chip : Chip) : UInt8 :=
  (pics chip).mask

def ioWait (pics : Pics) : Pics :=
  outb pics .post 0

abbrev icw1Init : UInt8 := 0x11
abbrev icw4Mode : UInt8 := 0x01
abbrev picEoiWord : UInt8 := 0x20

/-- The initialization of both chips, as `pic_init` and `pic_restore` do it. -/
def sendInit (pics : Pics) (offset1 offset2 : UInt8) : Pics :=
  let pics := ioWait (outb pics (.cmd .master) icw1Init)
  let pics := ioWait (outb pics (.cmd .slave) icw1Init)
  let pics := ioWait (outb pics (.data .master) offset1)
  let pics := ioWait (outb pics (.data .slave) offset2)
  let pics := ioWait (outb pics (.data .master) 0x04)
  let pics := ioWait (outb pics (.data .slave) 0x02)
  let pics := ioWait (outb pics (.data .master) icw4Mode)
  ioWait (outb pics (.data .slave) icw4Mode)

def picInit (pics : Pics) : Pics :=
  let mask1 := readMask pics .master
  let mask2 := readMask pics .slave
  let pics := sendInit pics 0x20 0x28
  let pics := outb pics (.data .master) mask1
  outb pics (.data .slave) mask2

def picRestore (pics : Pics) : Pics :=
  let pics := sendInit pics 0x08 0x70
  let pics := outb pics (.data .master) 0xFF
  outb pics (.data .slave) 0xFF

/-- The chip of a line, and the line on that chip. -/
def chipLine (irq : UInt8) : Chip × UInt8 :=
  if irq < 8 then (.master, irq) else (.slave, irq - 8)

def picMask (pics : Pics) (irq : UInt8) : Pics :=
  let (chip, irq) := chipLine irq
  outb pics (.data chip) (readMask pics chip ||| ((1 : UInt32) <<< irq.toUInt32).toUInt8)

def picUnmask (pics : Pics) (irq : UInt8) : Pics :=
  let (chip, irq) := chipLine irq
  outb pics (.data chip) (readMask pics chip &&& (~~~ ((1 : UInt32) <<< irq.toUInt32)).toUInt8)

/-- The writes of `pic_eoi`, in order. -/
def picEoi (irq : UInt8) : List (Port × UInt8) :=
  (if 8 ≤ irq then [(.cmd .slave, picEoiWord)] else []) ++ [(.cmd .master, picEoiWord)]

/-- A call of `pic_mask` or `pic_unmask`. -/
inductive PicCall where
  | mask (irq : Fin 16)
  | unmask (irq : Fin 16)
deriving DecidableEq

def PicCall.irq : PicCall → Fin 16
  | mask irq => irq
  | unmask irq => irq

def PicCall.names (line : Fin 16) (call : PicCall) : Bool :=
  call.irq = line

/-- What the mask bit of the line becomes. -/
def PicCall.bit : PicCall → Bool
  | mask _ => true
  | unmask _ => false

def PicCall.apply (pics : Pics) : PicCall → Pics
  | mask irq => picMask pics (UInt8.ofNat irq)
  | unmask irq => picUnmask pics (UInt8.ofNat irq)

def chipOf (line : Fin 16) : Chip :=
  if line.val < 8 then .master else .slave

/-- The bit of a line in the mask register of its chip. -/
def maskBit (pics : Pics) (line : Fin 16) : Bool :=
  (readMask pics (chipOf line)).toNat.testBit (line % 8)

/-- Some call names the line, and the last one that does unmasks it. -/
def Requested (calls : List PicCall) (line : Fin 16) : Prop :=
  lastNaming (PicCall.names line) calls = some (.unmask line)

def Ready (pics : Pics) : Prop :=
  ∀ chip, (pics chip).stage = .ready

variable {pics : Pics} {line : Fin 16} {call : PicCall}

section Initialization

/-- The four words that both functions send to a chip. -/
theorem initialized (chip : ChipState) (offset third : UInt8) :
    (((chip.command icw1Init).write offset).write third).write icw4Mode = ⟨0, offset &&& 0xF8, .ready⟩ := by
  rfl

theorem sendInit_eq (pics : Pics) (offset1 offset2 : UInt8) (chip : Chip) : sendInit pics offset1 offset2 chip =
    ⟨0, (if chip = .master then offset1 else offset2) &&& 0xF8, .ready⟩ := by
  cases chip with
  | master => exact initialized (pics .master) offset1 0x04
  | slave => exact initialized (pics .slave) offset2 0x02

theorem outb_data {chip : Chip} (ready : (pics chip).stage = .ready) (value : UInt8) :
    outb pics (.data chip) value = Function.update pics chip { pics chip with mask := value } := by
  simp only [outb, ChipState.write, ready]

/-- The two writes to the mask registers that end both functions. -/
theorem masks_written (offset1 offset2 mask1 mask2 : UInt8) (chip : Chip) :
    outb (outb (sendInit pics offset1 offset2) (.data .master) mask1) (.data .slave) mask2 chip =
      ⟨if chip = .master then mask1 else mask2, (if chip = .master then offset1 else offset2) &&& 0xF8, .ready⟩ := by
  have first : (sendInit pics offset1 offset2 .master).stage = .ready := by rw [sendInit_eq]
  have second : (sendInit pics offset1 offset2 .slave).stage = .ready := by rw [sendInit_eq]
  rw [outb_data first, outb_data (by simpa using second)]
  cases chip with
  | master => simp [sendInit_eq]
  | slave => simp [sendInit_eq]

/-- The remapped chips have the masks that they had before. -/
theorem picInit_spec (pics : Pics) :
    Ready (picInit pics) ∧ ∀ chip, readMask (picInit pics) chip = readMask pics chip := by
  refine ⟨?_, ?_⟩
  · intro chip
    rw [picInit, masks_written]
  · intro chip
    rw [readMask, picInit, masks_written]
    cases chip <;> rfl

theorem picRestore_masks (pics : Pics) (line : Fin 16) : maskBit (picRestore pics) line = true := by
  have all : ∀ bit : Fin 8, (0xFF : UInt8).toNat.testBit bit = true := by decide
  rw [maskBit, readMask, picRestore, masks_written, ite_self]
  exact all ⟨line % 8, Nat.mod_lt _ (by decide)⟩

end Initialization

section Calls

theorem bit_set : ∀ i j : Fin 8,
    (((1 : UInt32) <<< (UInt8.ofNat i).toUInt32).toUInt8).toNat.testBit j = decide (i = j) := by
  decide +kernel

theorem bit_clear : ∀ i j : Fin 8,
    ((~~~ ((1 : UInt32) <<< (UInt8.ofNat i).toUInt32)).toUInt8).toNat.testBit j = decide (i ≠ j) := by
  decide +kernel

theorem chipLine_eq : ∀ irq : Fin 16, chipLine (UInt8.ofNat irq) = (chipOf irq, UInt8.ofNat (irq % 8)) := by
  decide +kernel

theorem same_line_iff : ∀ irq line : Fin 16, irq = line ↔ chipOf irq = chipOf line ∧ irq.val % 8 = line.val % 8 := by
  decide +kernel

/-- A write to the mask register of the chip of `irq` that changes one bit. -/
theorem maskBit_outb {irq : Fin 16} {value : UInt8} {bit : Bool} (ready : Ready pics)
    (changed : ∀ j : Fin 8, value.toNat.testBit j =
      if irq.val % 8 = j then bit else (readMask pics (chipOf irq)).toNat.testBit j) :
    Ready (outb pics (.data (chipOf irq)) value) ∧
      maskBit (outb pics (.data (chipOf irq)) value) line = if irq = line then bit else maskBit pics line := by
  rw [outb_data (ready _)]
  refine ⟨?_, ?_⟩
  · intro chip
    by_cases same : chip = chipOf irq
    · rw [same, Function.update_self]
      exact ready _
    · rw [Function.update_of_ne same]
      exact ready chip
  · have found := changed ⟨line % 8, Nat.mod_lt _ (by decide)⟩
    simp only [maskBit, readMask, same_line_iff irq line]
    by_cases same : chipOf line = chipOf irq
    · rw [same, Function.update_self, found]
      simp [readMask]
    · rw [Function.update_of_ne same, if_neg (fun both => same both.1.symm)]

theorem PicCall.apply_spec (ready : Ready pics) (call : PicCall) (line : Fin 16) : Ready (call.apply pics) ∧
    maskBit (call.apply pics) line = if call.irq = line then call.bit else maskBit pics line := by
  have place (irq : Fin 16) (j : Fin 8) : (⟨irq.val % 8, Nat.mod_lt _ (by decide)⟩ : Fin 8) = j ↔ irq.val % 8 = j :=
    Fin.ext_iff
  cases call with
  | mask irq =>
      rw [apply, picMask, chipLine_eq]
      apply maskBit_outb ready
      intro j
      have set := bit_set ⟨irq.val % 8, Nat.mod_lt _ (by decide)⟩ j
      rw [UInt8.toNat_or, Nat.testBit_or, set]
      simp only [place]
      split <;> simp_all [PicCall.bit]
  | unmask irq =>
      rw [apply, picUnmask, chipLine_eq]
      apply maskBit_outb ready
      intro j
      have clear := bit_clear ⟨irq.val % 8, Nat.mod_lt _ (by decide)⟩ j
      rw [UInt8.toNat_and, Nat.testBit_and, clear]
      simp only [ne_eq, place]
      split <;> simp_all [PicCall.bit]

/-- The mask bit of a line after a history of calls. -/
theorem maskBit_calls (pics : Pics) (calls : List PicCall) (line : Fin 16) :
    maskBit (calls.foldl PicCall.apply (picInit pics)) line =
      ((lastNaming (PicCall.names line) calls).map PicCall.bit).getD (maskBit pics line) := by
  obtain ⟨ready, same⟩ := picInit_spec pics
  have start : maskBit (picInit pics) line = maskBit pics line := by rw [maskBit, same, maskBit]
  have kept : ∀ state (entry : PicCall), Ready state → Ready (entry.apply state) := by
    intro state entry ready
    exact (entry.apply_spec ready line).1
  have sets : ∀ state (entry : PicCall), Ready state →
      maskBit (entry.apply state) line = if entry.names line then entry.bit else maskBit state line := by
    intro state entry ready
    simpa [PicCall.names] using (entry.apply_spec ready line).2
  rw [← start]
  exact (foldl_lastNaming (fun pics => maskBit pics line) PicCall.bit ready kept sets calls).2

/-- A line is enabled exactly on request if a call names it or the BIOS has left
it masked, and in no other case. -/
theorem enabled_on_request_iff (pics : Pics) (calls : List PicCall) (line : Fin 16) :
    (maskBit (calls.foldl PicCall.apply (picInit pics)) line = false ↔ Requested calls line) ↔
      (∃ call ∈ calls, call.irq = line) ∨ maskBit pics line = true := by
  rw [maskBit_calls, Requested]
  cases last : lastNaming (PicCall.names line) calls with
  | none =>
      have unnamed : ¬ ∃ call ∈ calls, call.irq = line := by
        intro named
        obtain ⟨call, member, names⟩ := named
        have other := lastNaming_eq_none.mp last call member
        simp [PicCall.names, names] at other
      simp [unnamed]
  | some call =>
      obtain ⟨member, names⟩ := lastNaming_eq_some last
      have names : call.irq = line := by simpa [PicCall.names] using names
      refine iff_of_true ?_ (.inl ⟨call, member, names⟩)
      subst names
      cases call with
      | mask irq => simp [PicCall.bit]
      | unmask irq => simp [PicCall.bit, PicCall.irq]

/-- Whatever the BIOS has enabled stays enabled after `pic_init`. -/
theorem bios_line_enabled : ¬ ∀ (pics : Pics) (calls : List PicCall) (line : Fin 16),
    (maskBit (calls.foldl PicCall.apply (picInit pics)) line = false ↔ Requested calls line) := by
  intro claimed
  have enabled : maskBit (picInit fun _ => ⟨0xB8, 0x08, .ready⟩) 0 = false := by decide
  have requested := (claimed _ [] 0).mp enabled
  cases requested

end Calls

end DugOS.Interrupts
