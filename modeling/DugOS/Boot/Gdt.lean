import DugOS.X86.Descriptors
import DugOS.Data.History
import Mathlib.Data.Fintype.Basic
import Mathlib.Tactic.FinCases
import Mathlib.Tactic.IntervalCases

namespace DugOS.Boot

open X86 Data

/-! The global descriptor table of `gdt.c` and `gdt_flush` of `isr_stubs.s`.

The stores of `gdt_init` are those of the source, field by field. `gdt_flush` then
runs on a processor that checks each selector against the table it has just been
given.
-/

/-- Where the linker has put the tables and what `lgdt` and `lidt` read. -/
structure Layout where
  gdt : Word
  gdtDescriptor : Word
  idt : Word
  idtDescriptor : Word
  gdt_pointer : Apart gdt 40 gdtDescriptor 6
  idt_pointer : Apart idt 2048 idtDescriptor 6
  tables : Apart gdt 40 idt 2048
  gdt_other : Apart gdt 40 idtDescriptor 6

section Source

def gdtSet (gdt : Word) (mem : Memory) (idx : Nat) (base limit : Word) (access flags : Byte) : Memory :=
  let entry := gdt + BitVec.ofNat 32 (8 * idx)
  let mem := store16 mem (entry + 2) ((base &&& 0xFFFF).setWidth 16)
  let mem := store8 mem (entry + 4) (((base >>> 16) &&& 0xFF).setWidth 8)
  let mem := store8 mem (entry + 7) (((base >>> 24) &&& 0xFF).setWidth 8)
  let mem := store16 mem (entry + 0) ((limit &&& 0xFFFF).setWidth 16)
  let mem := store8 mem (entry + 6) ((((limit >>> 16) &&& 0x0F) ||| (flags.setWidth 32 &&& 0xF0)).setWidth 8)
  store8 mem (entry + 5) access

/-- A call of `gdt_set`. -/
structure GdtCall where
  idx : Fin 5
  base : Word
  limit : Word
  access : Byte
  flags : Byte
deriving DecidableEq

/-- The null descriptor, kernel code and data, user code and data. -/
def gdtCalls : List GdtCall :=
  [⟨0, 0, 0, 0, 0⟩, ⟨1, 0, 0xFFFFFFFF, 0x9A, 0xCF⟩, ⟨2, 0, 0xFFFFFFFF, 0x92, 0xCF⟩,
    ⟨3, 0, 0xFFFFFFFF, 0xFA, 0xCF⟩, ⟨4, 0, 0xFFFFFFFF, 0xF2, 0xCF⟩]

/-- What `gdt_init` stores before it calls `gdt_flush`. -/
def gdtInit (layout : Layout) (mem : Memory) : Memory :=
  let mem := store16 mem layout.gdtDescriptor (5 * 8 - 1)
  let mem := store32 mem (layout.gdtDescriptor + 2) layout.gdt
  gdtCalls.foldl (fun mem call => gdtSet layout.gdt mem call.idx call.base call.limit call.access call.flags) mem

/-- The label `.flush` stands in front of `ret`. -/
def gdtFlush (flush : Word) : List SystemOp :=
  [.movEaxArgument, .lgdtEax, .movAx 0x10, .movSegAx .ds, .movSegAx .es, .movSegAx .fs, .movSegAx .gs,
    .movSegAx .ss, .jmpFar 0x08 flush, .ret]

end Source

section Entries

/-- The high nibble of `flags` and the high bits of the limit. -/
def flagsByte (limit : Word) (flags : Byte) : Byte :=
  (((limit >>> 16) &&& 0x0F) ||| (flags.setWidth 32 &&& 0xF0)).setWidth 8

/-- The bytes of an entry in the order of `struct gdt_entry`. -/
def gdtEntry (base limit : Word) (access flags : Byte) : List Byte :=
  [limit.extractLsb' 0 8, limit.extractLsb' 8 8, base.extractLsb' 0 8, base.extractLsb' 8 8, base.extractLsb' 16 8,
    access, flagsByte limit flags, base.extractLsb' 24 8]

theorem low_half (value : Word) : ((value &&& 0xFFFF).setWidth 16 : BitVec 16).extractLsb' 0 8 = value.extractLsb' 0 8 ∧
    ((value &&& 0xFFFF).setWidth 16 : BitVec 16).extractLsb' 8 8 = value.extractLsb' 8 8 := by
  constructor
  · apply BitVec.eq_of_getLsbD_eq
    intro i small
    interval_cases i <;> simp
  · apply BitVec.eq_of_getLsbD_eq
    intro i small
    interval_cases i <;> simp

theorem shifted_byte (value : Word) : (((value >>> 16) &&& 0xFF).setWidth 8 : Byte) = value.extractLsb' 16 8 ∧
    (((value >>> 24) &&& 0xFF).setWidth 8 : Byte) = value.extractLsb' 24 8 := by
  constructor
  · apply BitVec.eq_of_getLsbD_eq
    intro i small
    interval_cases i <;> simp
  · apply BitVec.eq_of_getLsbD_eq
    intro i small
    interval_cases i <;> simp

theorem flagsByte_spec (limit : Word) (flags : Byte) : (flagsByte limit flags).extractLsb' 0 4 = limit.extractLsb' 16 4 ∧
    (flagsByte limit flags).getLsbD 6 = flags.getLsbD 6 ∧ (flagsByte limit flags).getLsbD 7 = flags.getLsbD 7 := by
  refine ⟨?_, by simp [flagsByte], by simp [flagsByte]⟩
  apply BitVec.eq_of_getLsbD_eq
  intro i small
  interval_cases i <;> simp [flagsByte]

theorem gdtSet_eq (gdt : Word) (mem : Memory) (idx : Nat) (base limit : Word) (access flags : Byte) :
    gdtSet gdt mem idx base limit access flags =
      storeBytes mem (gdt + BitVec.ofNat 32 (8 * idx)) (gdtEntry base limit access flags) := by
  obtain ⟨baseFirst, baseSecond⟩ := low_half base
  obtain ⟨limitFirst, limitSecond⟩ := low_half limit
  obtain ⟨baseMid, baseHigh⟩ := shifted_byte base
  let fields : Fields := [(2, [base.extractLsb' 0 8, base.extractLsb' 8 8]), (4, [base.extractLsb' 16 8]),
    (7, [base.extractLsb' 24 8]), (0, [limit.extractLsb' 0 8, limit.extractLsb' 8 8]),
    (6, [flagsByte limit flags]), (5, [access])]
  have fieldwise : gdtSet gdt mem idx base limit access flags =
      fields.store mem (gdt + BitVec.ofNat 32 (8 * idx)) := by
    simp only [gdtSet, store8, store16, baseFirst, baseSecond, limitFirst, limitSecond, baseMid, baseHigh]
    rfl
  rw [fieldwise, fields.store_whole (show fields.all (fun field => field.1 + field.2.length ≤ 8 && field.1 < 8) from rfl)
    (by decide)]
  rfl

/-- What the processor reads in an entry is what `gdt_set` was told, of the limit
its lower 20 bits. -/
theorem gdtEntry_segment (base limit : Word) (access flags : Byte) :
    Descriptor.segment (fun lane : Fin 8 => (gdtEntry base limit access flags).getD lane 0) =
      if access &&& 0x90 = 0x90 then some {
        base
        limit := if flags.getLsbD 7 then limit.extractLsb' 0 20 ++ 0xFFF#12 else (limit.extractLsb' 0 20).setWidth 32
        ring := access.extractLsb' 5 2
        code := access.getLsbD 3
        conforming := access.getLsbD 2
        access := access.getLsbD 1
        wide := flags.getLsbD 6 }
      else none := by
  obtain ⟨nibble, wide, pages⟩ := flagsByte_spec limit flags
  have limitBytes : limit.extractLsb' 16 4 ++ limit.extractLsb' 8 8 ++ limit.extractLsb' 0 8 = limit.extractLsb' 0 20 := by
    apply BitVec.eq_of_toNat_eq
    simp only [BitVec.toNat_append, BitVec.extractLsb'_toNat, Nat.shiftRight_eq_div_pow]
    rw [← Nat.shiftLeft_add_eq_or_of_lt (by omega), ← Nat.shiftLeft_add_eq_or_of_lt (by omega)]
    simp only [Nat.shiftLeft_eq]
    omega
  have baseBytes := word_bytes base
  change (if access &&& 0x90 = 0x90 then some (Segment.mk
    (base.extractLsb' 24 8 ++ base.extractLsb' 16 8 ++ base.extractLsb' 8 8 ++ base.extractLsb' 0 8)
    (if (flagsByte limit flags).getLsbD 7 then
      ((flagsByte limit flags).extractLsb' 0 4 ++ limit.extractLsb' 8 8 ++ limit.extractLsb' 0 8 : BitVec 20) ++ 0xFFF#12
      else ((flagsByte limit flags).extractLsb' 0 4 ++ limit.extractLsb' 8 8 ++ limit.extractLsb' 0 8).setWidth 32)
    (access.extractLsb' 5 2) (access.getLsbD 3) (access.getLsbD 2) (access.getLsbD 1)
    ((flagsByte limit flags).getLsbD 6)) else none) = _
  rw [nibble, wide, pages, limitBytes, baseBytes]

end Entries

section Table

variable {layout : Layout} {mem after : Memory}

def GdtCall.names (index : Fin 5) (call : GdtCall) : Bool :=
  call.idx = index

def GdtCall.entry (call : GdtCall) : Descriptor := fun lane =>
  (gdtEntry call.base call.limit call.access call.flags).getD lane 0

def GdtCall.apply (gdt : Word) (mem : Memory) (call : GdtCall) : Memory :=
  gdtSet gdt mem call.idx call.base call.limit call.access call.flags

theorem GdtCall.apply_descriptor (gdt : Word) (mem : Memory) (call : GdtCall) (index : Fin 5) :
    descriptor (call.apply gdt mem) gdt index = if call.names index then call.entry else descriptor mem gdt index := by
  have small := call.idx.isLt
  have bound := index.isLt
  rw [apply, gdtSet_eq, descriptor_storeBytes rfl (by omega) (by omega)]
  simp only [names, decide_eq_true_eq, Fin.ext_iff]
  rfl

theorem GdtCall.apply_outside {gdt byte : Word} (outside : 40 ≤ (byte - gdt).toNat) (mem : Memory) (call : GdtCall) :
    call.apply gdt mem byte = mem byte := by
  have small := call.idx.isLt
  have bound := (byte - gdt).isLt
  rw [apply, gdtSet_eq]
  apply storeBytes_outside
  rw [← sub_sub_word, BitVec.toNat_sub, BitVec.toNat_ofNat]
  change 8 ≤ _
  omega

theorem gdtCalls_outside {gdt byte : Word} (outside : 40 ≤ (byte - gdt).toNat) (mem : Memory) (calls : List GdtCall) :
    calls.foldl (GdtCall.apply gdt) mem byte = mem byte := by
  induction calls generalizing mem with
  | nil => rfl
  | cons call rest ih => exact (ih _).trans (call.apply_outside outside mem)

theorem gdtInit_eq (layout : Layout) (mem : Memory) : gdtInit layout mem = gdtCalls.foldl (GdtCall.apply layout.gdt)
    (store32 (store16 mem layout.gdtDescriptor 39) (layout.gdtDescriptor + 2) layout.gdt) := rfl

theorem gdtInit_descriptor (layout : Layout) (mem : Memory) (index : Fin 5) :
    descriptor (gdtInit layout mem) layout.gdt index = (gdtCalls.get index).entry := by
  have last : ∀ index : Fin 5, lastNaming (GdtCall.names index) gdtCalls = some (gdtCalls.get index) := by decide
  have any : ∀ (mem : Memory) (call : GdtCall), True → True := fun _ _ _ => trivial
  have sets := fun (mem : Memory) call (_ : True) => GdtCall.apply_descriptor layout.gdt mem call index
  have built (start : Memory) : descriptor (gdtCalls.foldl (GdtCall.apply layout.gdt) start) layout.gdt index = _ :=
    (foldl_lastNaming (fun mem => descriptor mem layout.gdt index) GdtCall.entry trivial any sets gdtCalls).2
  rw [gdtInit_eq, built, last]
  rfl

/-- `gdt_init` stores into the table and the pointer to it, and nowhere else. -/
theorem gdtInit_outside {byte : Word} (table : 40 ≤ (byte - layout.gdt).toNat)
    (pointer : 6 ≤ (byte - layout.gdtDescriptor).toNat) (mem : Memory) : gdtInit layout mem byte = mem byte := by
  rw [gdtInit_eq, gdtCalls_outside table, store32_outside, store16, storeBytes_outside]
  · change 2 ≤ _
    omega
  · rw [← sub_sub_word]
    generalize byte - layout.gdtDescriptor = distance at *
    bv_omega

/-- `lgdt` finds the table. -/
theorem gdtInit_pointer (layout : Layout) (mem : Memory) :
    loadTableRegister (gdtInit layout mem) layout.gdtDescriptor = ⟨39, layout.gdt⟩ := by
  refine (loadTableRegister_congr ?_).trans (loadTableRegister_store mem layout.gdtDescriptor 39 layout.gdt)
  intro i small
  rw [gdtInit_eq]
  apply gdtCalls_outside
  exact layout.gdt_pointer.symm.distance small

end Table

section Flush

variable {cpu : Processor} {layout : Layout} {mem after : Memory} {system : System} {entry : Machine}

/-- All of memory. -/
def flat (ring : BitVec 2) (code : Bool) : Segment :=
  ⟨0, 0xFFFFFFFF, ring, code, false, true, true⟩

/-- Kernel code and data, user code and data. -/
def kernelSegments : List (Option Segment) :=
  [none, some (flat 0 true), some (flat 0 false), some (flat 3 true), some (flat 3 false)]

def segmentOf (selector : BitVec 16) : Option Segment :=
  if selector.getLsbD 2 then none else (kernelSegments[(selector >>> 3).toNat]?).join

/-- The table in memory, whatever the processor has noted in it. -/
def GdtInstalled (layout : Layout) (mem : Memory) : Prop :=
  ∀ index : Fin 5, (descriptor mem layout.gdt index).segment = kernelSegments.get index

theorem gdtInit_installed (layout : Layout) (mem : Memory) : GdtInstalled layout (gdtInit layout mem) := by
  intro index
  have each : ∀ index : Fin 5, (gdtCalls.get index).entry.segment = kernelSegments.get index := by
    intro index
    refine (gdtEntry_segment _ _ _ _).trans ?_
    fin_cases index <;> rfl
  rw [gdtInit_descriptor, each]

theorem GdtInstalled.congr (installed : GdtInstalled layout mem) (same : Untouched mem after layout.gdt 40) :
    GdtInstalled layout after := by
  intro index
  have small := index.isLt
  rw [descriptor_congr fun i inside => same (8 * index + i) (by omega)]
  exact installed index

/-- The segments that the processor sees are those of the table. -/
theorem GdtInstalled.segmentAt (installed : GdtInstalled layout system.machine.mem)
    (register : system.gdtr = ⟨39, layout.gdt⟩) (selector : BitVec 16) :
    system.segmentAt selector = segmentOf selector := by
  have length : kernelSegments.length = 5 := rfl
  rw [System.segmentAt, segmentOf, register, TableRegister.lookup]
  by_cases isLocal : selector.getLsbD 2 = true
  · rw [if_pos (.inl isLocal), if_pos isLocal]
  · rw [if_neg isLocal]
    by_cases isNull : selector >>> 3 = 0
    · rw [if_pos (.inr isNull), isNull]
      rfl
    · have reaches : 8 * (selector >>> 3).toNat + 7 ≤ (39 : BitVec 16).toNat ↔ (selector >>> 3).toNat < 5 := by
        change 8 * (selector >>> 3).toNat + 7 ≤ 39 ↔ _
        omega
      rw [if_neg (not_or.mpr ⟨isLocal, isNull⟩)]
      by_cases inside : (selector >>> 3).toNat < 5
      · rw [if_pos (reaches.mpr inside), Option.bind_some, List.getElem?_eq_getElem (by rw [length]; exact inside)]
        exact installed ⟨_, inside⟩
      · rw [if_neg (fun reached => inside (reaches.mp reached)), List.getElem?_eq_none (by rw [length]; omega)]
        rfl

/-- The state in which a segment register is loaded with the kernel data segment. -/
structure Loading (layout : Layout) (system : System) : Prop where
  register : system.gdtr = ⟨39, layout.gdt⟩
  installed : GdtInstalled layout system.machine.mem
  kernel : system.ring = 0
  selector : (system.machine.regs .eax).setWidth 16 = (0x10 : BitVec 16)

/-- Memory with the note that an entry has been loaded. -/
def noted (layout : Layout) (index : Nat) (mem : Memory) : Memory :=
  marked mem (layout.gdt + BitVec.ofNat 32 (8 * index + 5))

theorem GdtInstalled.noted (installed : GdtInstalled layout mem) {index : Nat} (small : index < 5) :
    GdtInstalled layout (noted layout index mem) := by
  intro other
  have bound := other.isLt
  rw [Boot.noted, marked_segment (by omega) (by omega)]
  exact installed other

/-- The state after one load. -/
def loaded (layout : Layout) (seg : Seg) (system : System) : System :=
  { system with machine := { system.machine with
    mem := noted layout 2 system.machine.mem
    segs := Function.update system.machine.segs seg 0x10 } }

theorem Loading.load (loading : Loading layout system) (cpu : Processor) {seg : Seg} (data : seg ≠ .cs) :
    SystemOp.exec cpu system (.movSegAx seg) = some (loaded layout seg system) ∧ Loading layout (loaded layout seg system) := by
  have names : system.segmentAt 0x10 = some (flat 0 false) := loading.installed.segmentAt loading.register 0x10
  have accepted : system.accepts seg 0x10 = true := by
    rw [System.accepts, names, loading.kernel]
    cases seg <;> first | exact absurd rfl data | decide
  have base : system.gdtr.base = layout.gdt := by rw [loading.register]
  constructor
  · rw [SystemOp.exec, loading.selector, if_pos accepted, System.touch_of_segment names, base]
    simp only [Op.exec, loading.selector]
    rfl
  · refine ⟨loading.register, loading.installed.noted (by decide), ?_, loading.selector⟩
    have same : (loaded layout seg system).machine.segs .cs = system.machine.segs .cs := Function.update_of_ne data.symm _ _
    rw [System.ring, same]
    exact loading.kernel

/-- What loading a list of segment registers keeps and changes. -/
structure Loads (layout : Layout) (start : System) (segs : List Seg) (system : System) : Prop where
  regs : system.machine.regs = start.machine.regs
  eflags : system.machine.eflags = start.machine.eflags
  idtr : system.idtr = start.idtr
  segs : ∀ seg, system.machine.segs seg = if seg ∈ segs then 0x10 else start.machine.segs seg
  mem : ∀ byte, 40 ≤ (byte - layout.gdt).toNat → system.machine.mem byte = start.machine.mem byte

theorem noted_outside {byte : Word} {index : Nat} (small : index < 5) (outside : 40 ≤ (byte - layout.gdt).toNat)
    (mem : Memory) : noted layout index mem byte = mem byte := by
  apply marked_outside
  intro hit
  have distance : (byte - layout.gdt).toNat = 8 * index + 5 := by
    rw [hit, BitVec.add_comm, BitVec.add_sub_cancel, BitVec.toNat_ofNat]
    omega
  omega

theorem Loading.loads (loading : Loading layout system) (cpu : Processor) {segs : List Seg}
    (data : ∀ seg ∈ segs, seg ≠ .cs) (rest : List SystemOp) :
    ∃ next, runSystem cpu (segs.map .movSegAx ++ rest) system = runSystem cpu rest next ∧ Loading layout next ∧
      Loads layout system segs next := by
  induction segs generalizing system with
  | nil => exact ⟨system, rfl, loading, rfl, rfl, rfl, by simp, fun _ _ => rfl⟩
  | cons seg segs ih =>
      obtain ⟨step, loading⟩ := loading.load cpu (data seg List.mem_cons_self)
      obtain ⟨next, runs, ready, loads⟩ := ih loading fun other member => data other (List.mem_cons_of_mem _ member)
      refine ⟨next, (runSystem_cons step).trans runs, ready, loads.regs, loads.eflags, loads.idtr, ?_, ?_⟩
      · intro other
        rw [loads.segs]
        by_cases again : other ∈ segs
        · simp [again]
        · by_cases here : other = seg
          · simp [here, loaded]
          · simp [again, here, loaded]
      · intro byte outside
        rw [loads.mem byte outside]
        exact noted_outside (by decide) outside system.machine.mem

/-- A call of `gdt_flush` or `idt_flush` with the pointer to a table that has just
been stored; the stack lies elsewhere. -/
structure FlushCall (stored : Memory) (table : Word) (size : Nat) (pointer returnTo : Word) (entry : Machine) :
    Prop where
  tableKept : Untouched stored entry.mem table size
  pointerKept : Untouched stored entry.mem pointer 6
  stack : entry.Stack [returnTo, pointer]
  apart : Apart (entry.regs .esp) 8 table size

/-- An object out of the way of a call with one argument. -/
theorem pushes_untouched (machine : Machine) (argument returnTo : Word) {object : Word} {count : Nat}
    (apart : Apart (machine.regs .esp - 8) 8 object count) :
    Untouched machine.mem ((machine.push argument).push returnTo).mem object count := by
  intro i inside
  have distance := apart.symm.distance inside
  generalize object + BitVec.ofNat 32 i = byte at *
  change store32 (store32 machine.mem (machine.regs .esp - 4) argument) ((machine.push argument).regs .esp - 4)
    returnTo byte = machine.mem byte
  rw [Machine.push_esp, store32_outside, store32_outside]
  · bv_omega
  · bv_omega

/-- The call as a compiler writes it. -/
theorem FlushCall.of_pushes (machine : Machine) {table pointer : Word} {size : Nat} (returnTo : Word)
    (tableApart : Apart (machine.regs .esp - 8) 8 table size) (pointerApart : Apart (machine.regs .esp - 8) 8 pointer 6) :
    FlushCall machine.mem table size pointer returnTo ((machine.push pointer).push returnTo) := by
  have empty : machine.Stack [] := trivial
  have stack := (empty.push (by simp) pointer).push (by simp) returnTo
  have esp : ((machine.push pointer).push returnTo).regs .esp = machine.regs .esp - 8 := by
    rw [Machine.push_esp, Machine.push_esp, sub_sub_word]
    rfl
  exact ⟨pushes_untouched machine pointer returnTo tableApart, pushes_untouched machine pointer returnTo pointerApart,
    stack, by rw [esp]; exact tableApart⟩

/-- The processor uses the table of the kernel, and its code segment has been
loaded from there. -/
structure GdtLoaded (layout : Layout) (system : System) : Prop where
  register : system.gdtr = ⟨39, layout.gdt⟩
  installed : GdtInstalled layout system.machine.mem
  accessed : (descriptor system.machine.mem layout.gdt 1 5).getLsbD 0 = true

/-- The jump into the code segment is noted in its descriptor. -/
theorem GdtInstalled.entered (installed : GdtInstalled layout mem) (register : system.gdtr = ⟨39, layout.gdt⟩)
    (code : system.machine.mem = Boot.noted layout 1 mem) : GdtLoaded layout system := by
  refine ⟨register, ?_, ?_⟩
  · rw [code]
    exact installed.noted (by decide)
  · have set : ∀ rights : Byte, (rights ||| 1).getLsbD 0 = true := by decide +kernel
    have note := marked_self mem (layout.gdt + BitVec.ofNat 32 (8 * 1 + 5))
    rw [code]
    exact (congrArg (·.getLsbD 0) note).trans (set _)

/-- What a function that is not to fault leaves to its caller. -/
structure Flushed (entry : Machine) (returnTo : Word) (machine : Machine) : Prop where
  eip : machine.eip = returnTo
  esp : machine.regs .esp = entry.regs .esp + 4
  regs : ∀ reg, reg ≠ .esp → reg ≠ .eax → machine.regs reg = entry.regs reg
  eflags : machine.eflags = entry.eflags

/-- The far jump into the kernel code segment. -/
def jumped (layout : Layout) (flush : Word) (system : System) : System :=
  { system with machine := { system.machine with
    mem := noted layout 1 system.machine.mem
    segs := Function.update system.machine.segs .cs 0x08
    eip := flush } }

theorem Loading.jump (loading : Loading layout system) (cpu : Processor) (flush : Word) :
    SystemOp.exec cpu system (.jmpFar 0x08 flush) = some (jumped layout flush system) := by
  have names : system.segmentAt 0x08 = some (flat 0 true) := loading.installed.segmentAt loading.register 0x08
  have accepted : system.accepts .cs 0x08 = true := by
    rw [System.accepts, names, loading.kernel]
    decide
  have base : system.gdtr.base = layout.gdt := by rw [loading.register]
  rw [SystemOp.exec, if_pos accepted, System.touch_of_segment names, base, loading.kernel]
  rfl

/-- `eax` points at the six bytes, the table register is loaded from there, and the
selector of the kernel data segment is in `ax`. -/
theorem gdtFlush_ready (cpu : Processor) (gdtr idtr : TableRegister) {returnTo : Word} (flush : Word)
    (call : FlushCall (gdtInit layout mem) layout.gdt 40 layout.gdtDescriptor returnTo entry)
    (kernel : ringOf (entry.segs .cs) = 0) :
    ∃ value, runSystem cpu (gdtFlush flush) ⟨entry, gdtr, idtr⟩ =
        runSystem cpu ((gdtFlush flush).drop 3) ⟨entry.set .eax value, ⟨39, layout.gdt⟩, idtr⟩ ∧
      Loading layout ⟨entry.set .eax value, ⟨39, layout.gdt⟩, idtr⟩ := by
  have argument : load32 entry.mem (entry.regs .esp + 4) = layout.gdtDescriptor := call.stack.2.1
  have pointer := (loadTableRegister_congr call.pointerKept).trans (gdtInit_pointer layout mem)
  let fetched := entry.set .eax layout.gdtDescriptor
  have first : SystemOp.exec cpu ⟨entry, gdtr, idtr⟩ .movEaxArgument = some ⟨fetched, gdtr, idtr⟩ := by
    simp only [SystemOp.exec, argument, fetched]
  have second : SystemOp.exec cpu ⟨fetched, gdtr, idtr⟩ .lgdtEax = some ⟨fetched, ⟨39, layout.gdt⟩, idtr⟩ := by
    have inEax : fetched.regs .eax = layout.gdtDescriptor := entry.set_same .eax layout.gdtDescriptor
    simp only [SystemOp.exec, inEax]
    rw [← pointer]
    rfl
  have third : SystemOp.exec cpu ⟨fetched, ⟨39, layout.gdt⟩, idtr⟩ (.movAx 0x10) = some
      ⟨entry.set .eax ((fetched.regs .eax).extractLsb 31 16 ++ (0x10 : BitVec 16)), ⟨39, layout.gdt⟩, idtr⟩ := by
    simp only [SystemOp.exec, Op.exec, fetched, Machine.set, Function.update_idem]
  refine ⟨_, (runSystem_cons first).trans ((runSystem_cons second).trans (runSystem_cons third)), rfl, ?_, kernel, ?_⟩
  · exact (gdtInit_installed layout mem).congr call.tableKept
  · rw [Machine.set_same]
    exact BitVec.setWidth_append_eq_right

/-- Whatever memory and the table registers held, `gdt_init` comes back without a
fault. All segment registers then name segments of the new table, which span all
of memory, and no other selector names a segment but those of the two user
segments. -/
theorem gdt_init_flat (cpu : Processor) (layout : Layout) (mem : Memory) (gdtr idtr : TableRegister)
    {returnTo : Word} (flush : Word) (call : FlushCall (gdtInit layout mem) layout.gdt 40 layout.gdtDescriptor returnTo entry)
    (kernel : ringOf (entry.segs .cs) = 0) :
    ∃ after, runSystem cpu (gdtFlush flush) ⟨entry, gdtr, idtr⟩ = some after ∧ Flushed entry returnTo after.machine ∧
      GdtLoaded layout after ∧ after.idtr = idtr ∧
      (∀ seg, after.machine.segs seg = if seg = .cs then 0x08 else 0x10) ∧
      (∀ selector, after.segmentAt selector = segmentOf selector) ∧
      (∀ byte, 40 ≤ (byte - layout.gdt).toNat → after.machine.mem byte = entry.mem byte) ∧
      ∀ byte, 40 ≤ (byte - layout.gdt).toNat → 6 ≤ (byte - layout.gdtDescriptor).toNat →
        gdtInit layout mem byte = mem byte := by
  obtain ⟨value, begins, ready⟩ := gdtFlush_ready cpu gdtr idtr flush call kernel
  have dataOnly : ∀ seg ∈ [Seg.ds, .es, .fs, .gs, .ss], seg ≠ .cs := by decide
  obtain ⟨data, runs, jumping, loads⟩ := ready.loads cpu dataOnly [.jmpFar 0x08 flush, .ret]
  have far := jumping.jump cpu flush
  have kept : ∀ byte, 40 ≤ (byte - layout.gdt).toNat → noted layout 1 data.machine.mem byte = entry.mem byte := by
    intro byte outside
    rw [noted_outside (by decide) outside, loads.mem byte outside]
    rfl
  have esp : data.machine.regs .esp = entry.regs .esp := congrFun loads.regs .esp
  have top : load32 (noted layout 1 data.machine.mem) (data.machine.regs .esp) = returnTo := by
    rw [esp]
    exact (load32_congr fun i small => kept _ (call.apart.distance (by omega))).trans call.stack.1
  have installed : GdtInstalled layout (noted layout 1 data.machine.mem) := jumping.installed.noted (by decide)
  refine ⟨_, begins.trans (runs.trans ((runSystem_cons far).trans (runSystem_cons rfl))), ?_, ?_, loads.idtr, ?_, ?_, kept, ?_⟩
  · refine ⟨top, ?_, ?_, loads.eflags⟩
    · change (jumped layout flush data).machine.drop.regs .esp = _
      rw [Machine.drop, Machine.set_same]
      exact congrArg (· + 4) esp
    · intro reg notEsp notEax
      refine (Machine.drop_other notEsp).trans ((congrFun loads.regs reg).trans ?_)
      simp [Machine.set, notEax]
  · exact jumping.installed.entered jumping.register rfl
  · intro seg
    change Function.update data.machine.segs .cs 0x08 seg = _
    by_cases code : seg = .cs
    · rw [if_pos code, code, Function.update_self]
    · rw [if_neg code, Function.update_of_ne code, loads.segs, if_pos]
      cases seg <;> first | exact absurd rfl code | decide
  · exact GdtInstalled.segmentAt installed jumping.register
  · intro byte table pointer
    exact gdtInit_outside table pointer mem

def sampleLayout : Layout :=
  ⟨0x1000, 0x2000, 0x3000, 0x4000, by decide, by decide, by decide, by decide⟩

/-- The state in which a boot loader starts the kernel, with a stack at 0x9000. -/
def bootMachine (mem : Memory) : Machine :=
  ⟨fun _ => 0x9000, fun seg => if seg = .cs then 0x18 else 0x20, 0x100000, 0x2, mem⟩

theorem boot_gdt_flat : ∃ after, runSystem ⟨fun _ _ => 0, fun machine => machine.eflags⟩ (gdtFlush 0x100020)
      ⟨((bootMachine (gdtInit sampleLayout fun _ => 0)).push 0x2000).push 0x100010, ⟨0, 0⟩, ⟨0, 0⟩⟩ = some after ∧
    after.machine.eip = 0x100010 ∧ after.segmentAt 0x08 = some (flat 0 true) := by
  have call := FlushCall.of_pushes (bootMachine (gdtInit sampleLayout fun _ => 0)) 0x100010
    (show Apart _ 8 sampleLayout.gdt 40 by decide) (show Apart _ 8 sampleLayout.gdtDescriptor 6 by decide)
  obtain ⟨after, runs, flushed, _, _, _, segments, _⟩ := gdt_init_flat ⟨fun _ _ => 0, fun machine => machine.eflags⟩
    sampleLayout (fun _ => 0) ⟨0, 0⟩ ⟨0, 0⟩ 0x100020 call (by decide)
  exact ⟨after, runs, flushed.eip, segments 0x08⟩

end Flush

end DugOS.Boot
