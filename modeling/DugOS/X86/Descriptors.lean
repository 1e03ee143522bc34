import DugOS.X86.Machine
import Mathlib.Data.Fin.VecNotation

namespace DugOS.X86

/-! Descriptor tables in memory and the instructions that make the processor use
them.

Addresses are linear. A table register gives the place of a table and the last
byte that belongs to it. A segment register takes a selector only if the
descriptor behind it permits that; otherwise the instruction faults.
-/

def storeBytes (mem : Memory) (address : Word) (bytes : List Byte) : Memory := fun byte =>
  (bytes[(byte - address).toNat]?).getD (mem byte)

def store8 (mem : Memory) (address : Word) (value : Byte) : Memory :=
  storeBytes mem address [value]

def store16 (mem : Memory) (address : Word) (value : BitVec 16) : Memory :=
  storeBytes mem address [value.extractLsb' 0 8, value.extractLsb' 8 8]

def load16 (mem : Memory) (address : Word) : BitVec 16 :=
  mem (address + 1) ++ mem address

structure TableRegister where
  limit : BitVec 16
  base : Word
deriving DecidableEq

abbrev Descriptor := Fin 8 → Byte

def descriptor (mem : Memory) (base : Word) (index : Nat) : Descriptor := fun lane =>
  mem (base + BitVec.ofNat 32 (8 * index + lane))

/-- The descriptor at an index that the table reaches to. -/
def TableRegister.lookup (table : TableRegister) (mem : Memory) (index : Nat) : Option Descriptor :=
  if 8 * index + 7 ≤ table.limit.toNat then some (descriptor mem table.base index) else none

/-- A present 32-bit interrupt gate; other gates lead nowhere in this model. -/
def Descriptor.gate (bytes : Descriptor) : Option Gate :=
  if bytes 5 &&& 0x9F = 0x8E then
    some ⟨bytes 3 ++ bytes 2, bytes 7 ++ bytes 6 ++ bytes 1 ++ bytes 0⟩
  else none

structure Segment where
  base : Word
  /-- The last offset in the segment. -/
  limit : Word
  ring : BitVec 2
  code : Bool
  /-- A code segment that lower rings may call, or a data segment that grows down. -/
  conforming : Bool
  /-- Code that can be read, or data that can be written. -/
  access : Bool
  wide : Bool
deriving DecidableEq

/-- A present code or data segment. The limit counts pages if the granularity bit
is set. -/
def Descriptor.segment (bytes : Descriptor) : Option Segment :=
  if bytes 5 &&& 0x90 = 0x90 then
    let limit : BitVec 20 := (bytes 6).extractLsb' 0 4 ++ bytes 1 ++ bytes 0
    some {
      base := bytes 7 ++ bytes 4 ++ bytes 3 ++ bytes 2
      limit := if (bytes 6).getLsbD 7 then limit ++ 0xFFF#12 else limit.setWidth 32
      ring := (bytes 5).extractLsb' 5 2
      code := (bytes 5).getLsbD 3
      conforming := (bytes 5).getLsbD 2
      access := (bytes 5).getLsbD 1
      wide := (bytes 6).getLsbD 6 }
  else none

/-- The note in the rights byte of a descriptor that it has been loaded. -/
def marked (mem : Memory) (rights : Word) : Memory :=
  store8 mem rights (mem rights ||| 1)

structure System where
  machine : Machine
  gdtr : TableRegister
  idtr : TableRegister

/-- The requested privilege of a selector, and the current one if it is in `cs`. -/
def ringOf (selector : BitVec 16) : BitVec 2 :=
  selector.extractLsb' 0 2

/-- The selector of the same segment that is put in `cs`. -/
def withRing (selector : BitVec 16) (ring : BitVec 2) : BitVec 16 :=
  selector.extractLsb' 2 14 ++ ring

namespace System

def ring (system : System) : BitVec 2 :=
  ringOf (system.machine.segs .cs)

/-- The segment that a selector of the global table names; the first entry of the
table names none. -/
def segmentAt (system : System) (selector : BitVec 16) : Option Segment :=
  if selector.getLsbD 2 ∨ selector >>> 3 = 0 then none
  else (system.gdtr.lookup system.machine.mem (selector >>> 3).toNat).bind Descriptor.segment

/-- Memory after the processor has loaded a descriptor. -/
def touch (system : System) (selector : BitVec 16) : Memory :=
  if (system.segmentAt selector).isSome then
    marked system.machine.mem (system.gdtr.base + BitVec.ofNat 32 (8 * (selector >>> 3).toNat + 5))
  else system.machine.mem

/-- Whether a segment register takes a selector. -/
def accepts (system : System) (seg : Seg) (selector : BitVec 16) : Bool :=
  (system.segmentAt selector).elim (decide (seg ≠ .cs ∧ seg ≠ .ss ∧ selector < 4)) fun segment =>
    if seg = .cs then
      segment.code &&
        if segment.conforming then decide (segment.ring ≤ system.ring)
        else decide (ringOf selector ≤ system.ring ∧ segment.ring = system.ring)
    else if seg = .ss then
      !segment.code && segment.access && decide (ringOf selector = system.ring ∧ segment.ring = system.ring)
    else
      (!segment.code || segment.access) && ((segment.code && segment.conforming) ||
        decide (system.ring ≤ segment.ring ∧ ringOf selector ≤ segment.ring))

end System

/-- The instructions that load a table, and those that go with them. The first one
fetches the argument of a function into `eax`. -/
inductive SystemOp where
  | movEaxArgument
  | lgdtEax
  | lidtEax
  | movAx (value : BitVec 16)
  | movSegAx (seg : Seg)
  | jmpFar (selector : BitVec 16) (offset : Word)
  | ret
deriving DecidableEq

def loadTableRegister (mem : Memory) (address : Word) : TableRegister :=
  ⟨load16 mem address, load32 mem (address + 2)⟩

/-- One instruction, with `none` for a fault. -/
def SystemOp.exec (cpu : Processor) (system : System) : SystemOp → Option System
  | movEaxArgument =>
      let value := load32 system.machine.mem (system.machine.regs .esp + 4)
      some { system with machine := system.machine.set .eax value }
  | lgdtEax => some { system with gdtr := loadTableRegister system.machine.mem (system.machine.regs .eax) }
  | lidtEax => some { system with idtr := loadTableRegister system.machine.mem (system.machine.regs .eax) }
  | movAx value => some { system with machine := Op.exec cpu system.machine (.movAx value) }
  | movSegAx seg =>
      let selector := (system.machine.regs .eax).setWidth 16
      if system.accepts seg selector then
        some { system with machine := Op.exec cpu { system.machine with mem := system.touch selector } (.movSegAx seg) }
      else none
  | jmpFar selector offset =>
      if system.accepts .cs selector then
        let machine := system.machine.setSeg .cs (withRing selector system.ring)
        some { system with machine := { machine with eip := offset, mem := system.touch selector } }
      else none
  | ret => some { system with machine := { system.machine.drop with eip := system.machine.top } }

def runSystem (cpu : Processor) (list : List SystemOp) (system : System) : Option System :=
  list.foldlM (SystemOp.exec cpu) system

/-- Delivery of an interrupt in the ring that is running: `none` if the table has
no gate for the vector, or the gate leads to a segment that is not code of this
ring. -/
def System.deliver (cpu : Processor) (vector : Nat) (errorCode : Option Word) (system : System) :
    Option (Gate × System) :=
  ((system.idtr.lookup system.machine.mem vector).bind Descriptor.gate).bind fun gate =>
    if (system.segmentAt gate.selector).any fun segment => segment.code &&
        if segment.conforming then decide (segment.ring ≤ system.ring) else decide (segment.ring = system.ring) then
      let entered : Gate := ⟨withRing gate.selector system.ring, gate.offset⟩
      let machine := { system.machine with mem := system.touch gate.selector }
      some (entered, { system with machine := machine.interrupt cpu entered errorCode })
    else none

section Bytes

variable {mem after : Memory} {address base : Word} {bytes : List Byte}

theorem storeBytes_outside {byte : Word} (outside : bytes.length ≤ (byte - address).toNat) (mem : Memory) :
    storeBytes mem address bytes byte = mem byte := by
  rw [storeBytes, List.getElem?_eq_none outside]
  rfl

theorem store8_apply (mem : Memory) (address : Word) (value : Byte) (byte : Word) :
    store8 mem address value byte = if byte = address then value else mem byte := by
  by_cases here : byte = address
  · rw [if_pos here, here, store8, storeBytes, BitVec.sub_self]
    rfl
  · rw [if_neg here]
    apply storeBytes_outside
    have apart : byte - address ≠ 0 := fun zero => here (by bv_omega)
    exact Nat.one_le_iff_ne_zero.mpr fun zero => apart (BitVec.eq_of_toNat_eq zero)

/-- Two objects that have no byte in common. -/
def Apart (first : Word) (count : Nat) (second : Word) (size : Nat) : Prop :=
  count ≤ (second - first).toNat ∧ size ≤ (first - second).toNat

instance (first : Word) (count : Nat) (second : Word) (size : Nat) : Decidable (Apart first count second size) :=
  inferInstanceAs (Decidable (_ ∧ _))

theorem Apart.symm {first second : Word} {count size : Nat} (apart : Apart first count second size) :
    Apart second size first count :=
  ⟨apart.2, apart.1⟩

theorem add_sub_add_word (first second i j : Word) : first + i - (second + j) = first - second + i - j := by
  rw [BitVec.sub_eq_add_neg, BitVec.sub_eq_add_neg (first - second + i), BitVec.sub_eq_add_neg first,
    BitVec.neg_add, BitVec.sub_eq_add_neg]
  ac_rfl

/-- A byte of the one object is out of the reach of stores into the other. -/
theorem Apart.distance {first second : Word} {count size i : Nat} (apart : Apart first count second size)
    (inside : i < count) : size ≤ (first + BitVec.ofNat 32 i - second).toNat := by
  obtain ⟨ahead, behind⟩ := apart
  have opposite : (second - first).toNat + (first - second).toNat ≤ 4294967296 := by
    rw [BitVec.toNat_sub, BitVec.toNat_sub]
    have firstBound := first.isLt
    have secondBound := second.isLt
    omega
  have moved : first + BitVec.ofNat 32 i - second = first - second + BitVec.ofNat 32 i := by
    have split := add_sub_add_word first second (BitVec.ofNat 32 i) 0
    simpa using split
  rw [moved]
  generalize first - second = distance at *
  rw [BitVec.toNat_add, BitVec.toNat_ofNat]
  have bound := distance.isLt
  omega

/-- Two places of one object, as the distance that a store sees. -/
theorem offset_sub {i j : Nat} (first : i < 4294967296) (second : j < 4294967296) (base : Word) :
    (base + BitVec.ofNat 32 i - (base + BitVec.ofNat 32 j)).toNat = (i + 4294967296 - j) % 4294967296 := by
  rw [add_sub_add_word, BitVec.sub_self, BitVec.zero_add, BitVec.toNat_sub, BitVec.toNat_ofNat, BitVec.toNat_ofNat]
  omega

/-- A store into an object, seen at one of its bytes. -/
theorem storeBytes_offset {i j : Nat} (first : i < 4294967296) (fits : j + bytes.length ≤ 4294967296)
    (second : j < 4294967296) (mem : Memory) (base : Word) :
    storeBytes mem (base + BitVec.ofNat 32 j) bytes (base + BitVec.ofNat 32 i) =
      if j ≤ i then (bytes[i - j]?).getD (mem (base + BitVec.ofNat 32 i)) else mem (base + BitVec.ofNat 32 i) := by
  have distance := offset_sub first second base
  by_cases above : j ≤ i
  · have exactly : (base + BitVec.ofNat 32 i - (base + BitVec.ofNat 32 j)).toNat = i - j := by omega
    rw [if_pos above, storeBytes, exactly]
  · rw [if_neg above]
    apply storeBytes_outside
    omega

/-- A block of bytes after a store into it. -/
def overwrite (block : List Byte) (place : Nat) (bytes : List Byte) : List Byte :=
  block.take place ++ bytes ++ block.drop (place + bytes.length)

theorem storeBytes_overwrite {block : List Byte} {place : Nat} (inside : place + bytes.length ≤ block.length)
    (small : block.length ≤ 4294967296) (nonempty : place < block.length) (mem : Memory) (base : Word) :
    storeBytes (storeBytes mem base block) (base + BitVec.ofNat 32 place) bytes =
      storeBytes mem base (overwrite block place bytes) := by
  funext byte
  have distance : (byte - (base + BitVec.ofNat 32 place)).toNat =
      ((byte - base).toNat + 4294967296 - place) % 4294967296 := by
    rw [← sub_sub_word, BitVec.toNat_sub, BitVec.toNat_ofNat]
    omega
  have bound := (byte - base).isLt
  simp only [storeBytes, distance, overwrite]
  generalize (byte - base).toNat = n at *
  have front : (block.take place).length = place := by rw [List.length_take]; omega
  by_cases before : n < place
  · have missed : (bytes[(n + 4294967296 - place) % 4294967296]?) = none := List.getElem?_eq_none (by omega)
    rw [missed, List.append_assoc, List.getElem?_append_left (by omega), List.getElem?_take_of_lt before]
    rfl
  · have exactly : (n + 4294967296 - place) % 4294967296 = n - place := by omega
    rw [exactly]
    by_cases hit : n - place < bytes.length
    · rw [List.getElem?_append_left (by rw [List.length_append]; omega), List.getElem?_append_right (by omega), front,
        List.getElem?_eq_getElem hit]
      rfl
    · rw [List.getElem?_eq_none (by omega), List.getElem?_append_right (by rw [List.length_append]; omega),
        List.length_append, front, List.getElem?_drop]
      have place : place + bytes.length + (n - (place + bytes.length)) = n := by omega
      rw [place]
      rfl

theorem overwrite_length {block : List Byte} {place : Nat} (inside : place + bytes.length ≤ block.length) :
    (overwrite block place bytes).length = block.length := by
  rw [overwrite, List.length_append, List.length_append, List.length_take, List.length_drop]
  omega

/-- The fields of a structure, each at its place. -/
abbrev Fields := List (Nat × List Byte)

def Fields.store (fields : Fields) (mem : Memory) (base : Word) : Memory :=
  fields.foldl (fun mem field => storeBytes mem (base + BitVec.ofNat 32 field.1) field.2) mem

def Fields.fill (fields : Fields) (block : List Byte) : List Byte :=
  fields.foldl (fun block field => overwrite block field.1 field.2) block

/-- Stores into the fields of a structure, in whatever order, are one store of the
structure. -/
theorem Fields.store_eq {fields : Fields} {block : List Byte}
    (inside : fields.all (fun field => field.1 + field.2.length ≤ block.length && field.1 < block.length))
    (small : block.length ≤ 4294967296) (mem : Memory) (base : Word) :
    fields.store (storeBytes mem base block) base = storeBytes mem base (fields.fill block) := by
  induction fields generalizing block with
  | nil => rfl
  | cons field rest ih =>
      simp only [List.all_cons, Bool.and_eq_true, decide_eq_true_eq] at inside
      obtain ⟨⟨fits, begins⟩, others⟩ := inside
      have length := overwrite_length fits
      rw [store, List.foldl_cons, storeBytes_overwrite fits small begins]
      exact ih (by rw [length]; exact others) (by rw [length]; exact small)

/-- Every memory holds some block at an address. -/
theorem storeBytes_self (mem : Memory) (base : Word) (count : Nat) :
    storeBytes mem base ((List.range count).map fun i => mem (base + BitVec.ofNat 32 i)) = mem := by
  funext byte
  have same : base + BitVec.ofNat 32 (byte - base).toNat = byte := by
    rw [BitVec.ofNat_toNat, BitVec.setWidth_eq, BitVec.add_comm, BitVec.sub_add_cancel]
  simp only [storeBytes, List.getElem?_map]
  by_cases inside : (byte - base).toNat < count
  · rw [List.getElem?_range inside, Option.map_some, same]
    rfl
  · rw [List.getElem?_eq_none (by rw [List.length_range]; omega)]
    rfl

theorem Fields.store_whole (fields : Fields) {count : Nat}
    (inside : fields.all (fun field => field.1 + field.2.length ≤ count && field.1 < count))
    (small : count ≤ 4294967296) (mem : Memory) (base : Word) :
    fields.store mem base =
      storeBytes mem base (fields.fill ((List.range count).map fun i => mem (base + BitVec.ofNat 32 i))) := by
  have length : ((List.range count).map fun i => mem (base + BitVec.ofNat 32 i)).length = count := by simp
  rw [← store_eq (by rw [length]; exact inside) (by rw [length]; exact small), storeBytes_self]

theorem half_bytes (value : BitVec 16) : value.extractLsb' 8 8 ++ value.extractLsb' 0 8 = value := by
  apply BitVec.eq_of_toNat_eq
  have bound := value.isLt
  simp only [BitVec.toNat_append, BitVec.extractLsb'_toNat, Nat.shiftRight_eq_div_pow]
  rw [← Nat.shiftLeft_add_eq_or_of_lt (by omega), Nat.shiftLeft_eq]
  omega

theorem load16_store16 (mem : Memory) (address : Word) (value : BitVec 16) :
    load16 (store16 mem address value) address = value := by
  have first : address - address = 0 := by bv_omega
  have second : address + 1 - address = 1 := by bv_omega
  simp only [load16, store16, storeBytes, first, second]
  exact half_bytes value

/-- What `lgdt` and `lidt` read is six bytes long. -/
theorem loadTableRegister_congr (same : Untouched mem after address 6) :
    loadTableRegister after address = loadTableRegister mem address := by
  have first : after address = mem address := by simpa using same 0 (by decide)
  have second : after (address + 1) = mem (address + 1) := same 1 (by decide)
  have word : load32 after (address + 2) = load32 mem (address + 2) := by
    apply load32_congr
    intro i small
    have place : address + 2 + BitVec.ofNat 32 i = address + BitVec.ofNat 32 (2 + i) := by
      rw [BitVec.add_assoc, BitVec.ofNat_add]
      rfl
    rw [place]
    exact same (2 + i) (by omega)
  rw [loadTableRegister, loadTableRegister, word, load16, load16, first, second]

theorem loadTableRegister_store (mem : Memory) (address : Word) (limit : BitVec 16) (base : Word) :
    loadTableRegister (store32 (store16 mem address limit) (address + 2) base) address = ⟨limit, base⟩ := by
  have first : store32 (store16 mem address limit) (address + 2) base address = store16 mem address limit address := by
    apply store32_outside
    have distance : address - (address + 2) = 4294967294 := by bv_omega
    rw [distance]
    decide
  have second : store32 (store16 mem address limit) (address + 2) base (address + 1) =
      store16 mem address limit (address + 1) := by
    apply store32_outside
    have distance : address + 1 - (address + 2) = 4294967295 := by bv_omega
    rw [distance]
    decide
  have low := load16_store16 mem address limit
  rw [loadTableRegister, load32_store32, load16, first, second]
  rw [load16] at low
  rw [low]

theorem word_bytes (value : Word) : value.extractLsb' 24 8 ++ value.extractLsb' 16 8 ++ value.extractLsb' 8 8 ++
    value.extractLsb' 0 8 = value := by
  apply BitVec.eq_of_toNat_eq
  have bound := value.isLt
  simp only [BitVec.toNat_append, BitVec.extractLsb'_toNat, Nat.shiftRight_eq_div_pow]
  rw [← Nat.shiftLeft_add_eq_or_of_lt (by omega), ← Nat.shiftLeft_add_eq_or_of_lt (by omega),
    ← Nat.shiftLeft_add_eq_or_of_lt (by omega)]
  simp only [Nat.shiftLeft_eq]
  omega

theorem descriptor_congr {index : Nat}
    (same : ∀ i < 8, after (base + BitVec.ofNat 32 (8 * index + i)) = mem (base + BitVec.ofNat 32 (8 * index + i))) :
    descriptor after base index = descriptor mem base index := by
  funext lane
  exact same lane lane.isLt

/-- An entry of a table is stored as a whole. -/
theorem descriptor_storeBytes {index other : Nat} (eight : bytes.length = 8) (first : index < 8192)
    (second : other < 8192) (mem : Memory) (base : Word) :
    descriptor (storeBytes mem (base + BitVec.ofNat 32 (8 * index)) bytes) base other =
      if index = other then fun lane : Fin 8 => bytes.getD lane 0 else descriptor mem base other := by
  funext lane
  have small := lane.isLt
  rw [descriptor, storeBytes_offset (by omega) (by omega) (by omega)]
  by_cases same : index = other
  · subst same
    have inside : 8 * index + lane.val - 8 * index < bytes.length := by omega
    rw [if_pos (by omega), if_pos rfl, List.getElem?_eq_getElem inside]
    simp [List.getD, eight]
  · rw [if_neg same]
    by_cases above : 8 * index ≤ 8 * other + lane.val
    · have beyond : bytes.length ≤ 8 * other + lane.val - 8 * index := by omega
      rw [if_pos above, List.getElem?_eq_none beyond]
      rfl
    · rw [if_neg above]
      rfl

theorem descriptor_store8 {index other : Nat} {lane : Nat} (small : lane < 8) (first : index < 8192)
    (second : other < 8192) (mem : Memory) (base : Word) (value : Byte) :
    descriptor (store8 mem (base + BitVec.ofNat 32 (8 * index + lane)) value) base other =
      if index = other then Function.update (descriptor mem base other) ⟨lane, small⟩ value
      else descriptor mem base other := by
  funext place
  have bound := place.isLt
  have single : ([value] : List Byte).length = 1 := rfl
  rw [descriptor, store8, storeBytes_offset (by omega) (by omega) (by omega)]
  by_cases hit : 8 * other + place.val = 8 * index + lane
  · have same : index = other := by omega
    have here : place = ⟨lane, small⟩ := Fin.ext (show place.val = lane by omega)
    rw [if_pos (by omega), if_pos same, hit, Nat.sub_self, here, Function.update_self]
    rfl
  · have miss : (if 8 * index + lane ≤ 8 * other + place.val then
        ([value][8 * other + place.val - (8 * index + lane)]?).getD (mem (base + BitVec.ofNat 32 (8 * other + place.val)))
        else mem (base + BitVec.ofNat 32 (8 * other + place.val))) = descriptor mem base other place := by
      split
      · rw [List.getElem?_eq_none (by rw [single]; omega)]
        rfl
      · rfl
    rw [miss]
    by_cases same : index = other
    · have elsewhere : place ≠ ⟨lane, small⟩ := by
        intro equal
        have values := congrArg Fin.val equal
        exact hit (by rw [same, values])
      rw [if_pos same, Function.update_of_ne elsewhere]
    · rw [if_neg same]

end Bytes

section Loading

variable {cpu : Processor} {system next : System} {selector : BitVec 16} {op : SystemOp} {rest : List SystemOp}

theorem Machine.set_same (machine : Machine) (reg : Reg) (value : Word) : (machine.set reg value).regs reg = value := by
  simp [set]

theorem runSystem_cons (step : op.exec cpu system = some next) :
    runSystem cpu (op :: rest) system = runSystem cpu rest next := by
  rw [runSystem, List.foldlM_cons, step]
  rfl

/-- The note of the processor is not part of what a descriptor says. -/
theorem segment_accessed (bytes : Descriptor) :
    Descriptor.segment (Function.update bytes 5 (bytes 5 ||| 1)) = bytes.segment := by
  have rights : ∀ rights : Byte, (rights ||| 1) &&& 0x90 = rights &&& 0x90 ∧
      (rights ||| 1).extractLsb' 5 2 = rights.extractLsb' 5 2 ∧ (rights ||| 1).getLsbD 3 = rights.getLsbD 3 ∧
      (rights ||| 1).getLsbD 2 = rights.getLsbD 2 ∧ (rights ||| 1).getLsbD 1 = rights.getLsbD 1 := by
    decide +kernel
  obtain ⟨present, ring, code, conforming, access⟩ := rights (bytes 5)
  have others (lane : Fin 8) (other : lane ≠ 5) : Function.update bytes 5 (bytes 5 ||| 1) lane = bytes lane :=
    Function.update_of_ne other _ _
  simp only [Descriptor.segment, Function.update_self, present, ring, code, conforming, access,
    others 0 (by decide), others 1 (by decide), others 2 (by decide), others 3 (by decide), others 4 (by decide),
    others 6 (by decide), others 7 (by decide)]

theorem marked_outside {byte rights : Word} (other : byte ≠ rights) (mem : Memory) :
    marked mem rights byte = mem byte := by
  rw [marked, store8_apply, if_neg other]

theorem marked_self (mem : Memory) (rights : Word) : marked mem rights rights = mem rights ||| 1 := by
  rw [marked, store8_apply, if_pos rfl]

/-- A descriptor that has been loaded before is not changed again. -/
theorem marked_of_accessed {mem : Memory} {rights : Word} (accessed : (mem rights).getLsbD 0 = true) :
    marked mem rights = mem := by
  have again : ∀ rights : Byte, rights.getLsbD 0 = true → rights ||| 1 = rights := by decide +kernel
  funext byte
  by_cases here : byte = rights
  · rw [here, marked_self]
    exact again _ accessed
  · exact marked_outside here mem

theorem marked_segment {index other : Nat} (first : index < 8192) (second : other < 8192) (mem : Memory) (base : Word) :
    (descriptor (marked mem (base + BitVec.ofNat 32 (8 * index + 5))) base other).segment =
      (descriptor mem base other).segment := by
  rw [marked, descriptor_store8 (by decide) first second]
  split
  · rename_i same
    subst same
    exact segment_accessed (descriptor mem base index)
  · rfl

namespace System

theorem touch_of_segment {segment : Segment} (names : system.segmentAt selector = some segment) :
    system.touch selector =
      marked system.machine.mem (system.gdtr.base + BitVec.ofNat 32 (8 * (selector >>> 3).toNat + 5)) := by
  rw [touch, names]
  rfl

theorem touch_of_accessed
    (accessed : (descriptor system.machine.mem system.gdtr.base (selector >>> 3).toNat 5).getLsbD 0 = true) :
    system.touch selector = system.machine.mem := by
  rw [touch]
  split
  · exact marked_of_accessed accessed
  · rfl

end System

end Loading

end DugOS.X86
