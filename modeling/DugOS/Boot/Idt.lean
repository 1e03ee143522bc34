import DugOS.Boot.Gdt

namespace DugOS.Boot

open X86 Data

/-! The interrupt descriptor table of `idt.c` and `idt_flush` of `isr_stubs.s`.

`idt_init` runs after `gdt_init`. The result says what the processor does with
each of its vectors: it enters the stub of that vector, or finds no gate.
-/

/-- The entry points of `isr_stubs.s`. -/
inductive Stub where
  | isr (vector : Fin 32)
  | irq (line : Fin 16)
deriving DecidableEq

section Source

def idtSet (idt : Word) (mem : Memory) (n : Nat) (handler : Word) (sel : BitVec 16) (flags : Byte) : Memory :=
  let entry := idt + BitVec.ofNat 32 (8 * n)
  let mem := store16 mem (entry + 0) ((handler &&& 0xFFFF).setWidth 16)
  let mem := store16 mem (entry + 6) (((handler >>> 16) &&& 0xFFFF).setWidth 16)
  let mem := store16 mem (entry + 2) sel
  let mem := store8 mem (entry + 4) 0
  store8 mem (entry + 5) flags

/-- A call of `idt_set` with one of the stubs. -/
structure IdtCall where
  n : Fin 256
  handler : Stub
  sel : BitVec 16
  flags : Byte
deriving DecidableEq

/-- All calls pass the kernel code segment and the type of an interrupt gate. -/
def interruptGate (n : Fin 256) (handler : Stub) : IdtCall :=
  ⟨n, handler, 0x08, 0x8E⟩

/-- For the numerals of vectors. -/
local instance thirtyTwo : NeZero 32 :=
  ⟨by decide⟩

local instance allVectors : NeZero 256 :=
  ⟨by decide⟩

/-- The exceptions with names of their own. -/
def exceptionCalls : List IdtCall :=
  [interruptGate 0 (.isr 0), interruptGate 1 (.isr 1), interruptGate 2 (.isr 2), interruptGate 3 (.isr 3),
    interruptGate 4 (.isr 4), interruptGate 5 (.isr 5), interruptGate 6 (.isr 6), interruptGate 7 (.isr 7),
    interruptGate 8 (.isr 8), interruptGate 9 (.isr 9), interruptGate 10 (.isr 10), interruptGate 11 (.isr 11),
    interruptGate 12 (.isr 12), interruptGate 13 (.isr 13), interruptGate 14 (.isr 14),
    interruptGate 15 (.isr 15), interruptGate 16 (.isr 16), interruptGate 17 (.isr 17),
    interruptGate 18 (.isr 18), interruptGate 19 (.isr 19), interruptGate 20 (.isr 20)]

/-- The rest of the exceptions, reserved but for one. -/
def reservedCalls : List IdtCall :=
  [interruptGate 21 (.isr 21), interruptGate 22 (.isr 22), interruptGate 23 (.isr 23),
    interruptGate 24 (.isr 24), interruptGate 25 (.isr 25), interruptGate 26 (.isr 26),
    interruptGate 27 (.isr 27), interruptGate 28 (.isr 28), interruptGate 29 (.isr 29),
    interruptGate 30 (.isr 30), interruptGate 31 (.isr 31)]

/-- The lines of the interrupt controllers. -/
def irqCalls : List IdtCall :=
  [interruptGate 32 (.irq 0), interruptGate 33 (.irq 1), interruptGate 34 (.irq 2), interruptGate 35 (.irq 3),
    interruptGate 36 (.irq 4), interruptGate 37 (.irq 5), interruptGate 38 (.irq 6), interruptGate 39 (.irq 7),
    interruptGate 40 (.irq 8), interruptGate 41 (.irq 9), interruptGate 42 (.irq 10),
    interruptGate 43 (.irq 11), interruptGate 44 (.irq 12), interruptGate 45 (.irq 13),
    interruptGate 46 (.irq 14), interruptGate 47 (.irq 15)]

def idtCalls : List IdtCall :=
  exceptionCalls ++ reservedCalls ++ irqCalls

/-- The loop over the bytes of the table. -/
def idtZero (idt : Word) (mem : Memory) : Memory :=
  (List.range (256 * 8)).foldl (fun mem i => store8 mem (idt + BitVec.ofNat 32 i) 0) mem

/-- What `idt_init` stores before it calls `idt_flush`, with the addresses of the
stubs. -/
def idtInit (layout : Layout) (address : Stub → Word) (mem : Memory) : Memory :=
  let mem := store16 mem layout.idtDescriptor (256 * 8 - 1)
  let mem := store32 mem (layout.idtDescriptor + 2) layout.idt
  let mem := idtZero layout.idt mem
  idtCalls.foldl (fun mem call => idtSet layout.idt mem call.n (address call.handler) call.sel call.flags) mem

def idtFlush : List SystemOp :=
  [.movEaxArgument, .lidtEax, .ret]

end Source

section Entries

variable {idt : Word} {mem : Memory}

/-- The bytes of an entry in the order of `struct idt_entry`. -/
def idtEntry (handler : Word) (sel : BitVec 16) (flags : Byte) : List Byte :=
  [handler.extractLsb' 0 8, handler.extractLsb' 8 8, sel.extractLsb' 0 8, sel.extractLsb' 8 8, 0, flags,
    handler.extractLsb' 16 8, handler.extractLsb' 24 8]

theorem high_half (value : Word) :
    (((value >>> 16) &&& 0xFFFF).setWidth 16 : BitVec 16).extractLsb' 0 8 = value.extractLsb' 16 8 ∧
    (((value >>> 16) &&& 0xFFFF).setWidth 16 : BitVec 16).extractLsb' 8 8 = value.extractLsb' 24 8 := by
  constructor
  · apply BitVec.eq_of_getLsbD_eq
    intro i small
    interval_cases i <;> simp
  · apply BitVec.eq_of_getLsbD_eq
    intro i small
    interval_cases i <;> simp

theorem idtSet_eq (idt : Word) (mem : Memory) (n : Nat) (handler : Word) (sel : BitVec 16) (flags : Byte) :
    idtSet idt mem n handler sel flags =
      storeBytes mem (idt + BitVec.ofNat 32 (8 * n)) (idtEntry handler sel flags) := by
  obtain ⟨first, second⟩ := low_half handler
  obtain ⟨third, fourth⟩ := high_half handler
  let fields : Fields := [(0, [handler.extractLsb' 0 8, handler.extractLsb' 8 8]),
    (6, [handler.extractLsb' 16 8, handler.extractLsb' 24 8]), (2, [sel.extractLsb' 0 8, sel.extractLsb' 8 8]),
    (4, [0]), (5, [flags])]
  have fieldwise : idtSet idt mem n handler sel flags = fields.store mem (idt + BitVec.ofNat 32 (8 * n)) := by
    simp only [idtSet, store8, store16, first, second, third, fourth]
    rfl
  rw [fieldwise, fields.store_whole (show fields.all (fun field => field.1 + field.2.length ≤ 8 && field.1 < 8) from rfl)
    (by decide)]
  rfl

theorem idtEntry_gate (handler : Word) (sel : BitVec 16) (flags : Byte) :
    Descriptor.gate (fun lane : Fin 8 => (idtEntry handler sel flags).getD lane 0) =
      if flags &&& 0x9F = 0x8E then some ⟨sel, handler⟩ else none := by
  change (if flags &&& 0x9F = 0x8E then some (Gate.mk (sel.extractLsb' 8 8 ++ sel.extractLsb' 0 8)
    (handler.extractLsb' 24 8 ++ handler.extractLsb' 16 8 ++ handler.extractLsb' 8 8 ++ handler.extractLsb' 0 8))
    else none) = _
  rw [word_bytes, half_bytes]

/-- The loop clears the table and nothing else. -/
theorem zero_spec (idt : Word) (mem : Memory) {count : Nat} (small : count ≤ 4294967296) (byte : Word) :
    (List.range count).foldl (fun mem i => store8 mem (idt + BitVec.ofNat 32 i) 0) mem byte =
      if (byte - idt).toNat < count then 0 else mem byte := by
  induction count with
  | zero => rfl
  | succ count ih =>
      have here : byte = idt + BitVec.ofNat 32 count ↔ (byte - idt).toNat = count := by
        constructor
        · intro hit
          rw [hit, BitVec.add_comm, BitVec.add_sub_cancel, BitVec.toNat_ofNat]
          omega
        · intro distance
          rw [← distance, BitVec.ofNat_toNat, BitVec.setWidth_eq, BitVec.add_comm, BitVec.sub_add_cancel]
      rw [List.range_succ, List.foldl_append, List.foldl_cons, List.foldl_nil, store8_apply, ih (by omega)]
      by_cases last : (byte - idt).toNat = count
      · rw [if_pos (here.mpr last), if_pos (by omega)]
      · rw [if_neg fun hit => last (here.mp hit)]
        by_cases before : (byte - idt).toNat < count
        · rw [if_pos before, if_pos (by omega)]
        · rw [if_neg before, if_neg (by omega)]

end Entries

section Table

variable {layout : Layout} {address : Stub → Word} {mem after : Memory}

/-- The stub that handles a vector. -/
def stubFor (vector : Nat) : Option Stub :=
  if exception : vector < 32 then some (.isr ⟨vector, exception⟩)
  else if line : vector - 32 < 16 then some (.irq ⟨vector - 32, line⟩)
  else none

def IdtCall.names (vector : Fin 256) (call : IdtCall) : Bool :=
  call.n = vector

def IdtCall.entry (address : Stub → Word) (call : IdtCall) : Descriptor := fun lane =>
  (idtEntry (address call.handler) call.sel call.flags).getD lane 0

def IdtCall.apply (idt : Word) (address : Stub → Word) (mem : Memory) (call : IdtCall) : Memory :=
  idtSet idt mem call.n (address call.handler) call.sel call.flags

theorem IdtCall.apply_descriptor (idt : Word) (address : Stub → Word) (mem : Memory) (call : IdtCall)
    (vector : Fin 256) : descriptor (call.apply idt address mem) idt vector =
      if call.names vector then call.entry address else descriptor mem idt vector := by
  have small := call.n.isLt
  have bound := vector.isLt
  rw [apply, idtSet_eq, descriptor_storeBytes rfl (by omega) (by omega)]
  simp only [names, decide_eq_true_eq, Fin.ext_iff]
  rfl

theorem idtCalls_outside {idt byte : Word} (outside : 2048 ≤ (byte - idt).toNat) (address : Stub → Word) (mem : Memory)
    (calls : List IdtCall) : calls.foldl (IdtCall.apply idt address) mem byte = mem byte := by
  have step (call : IdtCall) (mem : Memory) : call.apply idt address mem byte = mem byte := by
    have small := call.n.isLt
    have bound := (byte - idt).isLt
    rw [IdtCall.apply, idtSet_eq]
    apply storeBytes_outside
    rw [← sub_sub_word, BitVec.toNat_sub, BitVec.toNat_ofNat]
    change 8 ≤ _
    omega
  induction calls generalizing mem with
  | nil => rfl
  | cons call rest ih => exact (ih _).trans (step call mem)

theorem idtInit_eq (layout : Layout) (address : Stub → Word) (mem : Memory) : idtInit layout address mem =
    idtCalls.foldl (IdtCall.apply layout.idt address) (idtZero layout.idt
      (store32 (store16 mem layout.idtDescriptor 2047) (layout.idtDescriptor + 2) layout.idt)) := rfl

theorem idtZero_descriptor (idt : Word) (mem : Memory) (vector : Fin 256) :
    descriptor (idtZero idt mem) idt vector = fun _ => 0 := by
  funext lane
  have small := lane.isLt
  have bound := vector.isLt
  have distance : (idt + BitVec.ofNat 32 (8 * vector + lane) - idt).toNat = 8 * vector + lane := by
    rw [BitVec.add_comm, BitVec.add_sub_cancel, BitVec.toNat_ofNat]
    omega
  rw [descriptor, idtZero, zero_spec idt mem (by decide), distance, if_pos (by omega)]

/-- The gate that the processor finds for a vector. -/
theorem idtInit_gate (layout : Layout) (address : Stub → Word) (mem : Memory) (vector : Fin 256) :
    (descriptor (idtInit layout address mem) layout.idt vector).gate =
      (stubFor vector).map fun stub => ⟨0x08, address stub⟩ := by
  have last : ∀ vector : Fin 256, lastNaming (IdtCall.names vector) idtCalls =
      (stubFor vector).map (interruptGate vector) := by decide +kernel
  have any : ∀ (mem : Memory) (call : IdtCall), True → True := fun _ _ _ => trivial
  have sets := fun (mem : Memory) call (_ : True) => IdtCall.apply_descriptor layout.idt address mem call vector
  have stored (start : Memory) :
      descriptor (idtCalls.foldl (IdtCall.apply layout.idt address) start) layout.idt vector = _ :=
    (foldl_lastNaming (fun mem => descriptor mem layout.idt vector) (IdtCall.entry address) trivial any sets idtCalls).2
  rw [idtInit_eq, stored, last, idtZero_descriptor]
  cases stubFor vector with
  | none =>
      have absent : Descriptor.gate (fun _ => 0) = none := by decide
      exact absent
  | some stub => exact idtEntry_gate (address stub) 0x08 0x8E

/-- `lidt` finds the table. -/
theorem idtInit_pointer (layout : Layout) (address : Stub → Word) (mem : Memory) :
    loadTableRegister (idtInit layout address mem) layout.idtDescriptor = ⟨2047, layout.idt⟩ := by
  refine (loadTableRegister_congr ?_).trans (loadTableRegister_store mem layout.idtDescriptor 2047 layout.idt)
  intro i small
  have outside := layout.idt_pointer.symm.distance small
  rw [idtInit_eq, idtCalls_outside outside, idtZero, zero_spec layout.idt _ (by decide), if_neg (by omega)]

/-- `idt_init` leaves the other table alone. -/
theorem idtInit_gdt (layout : Layout) (address : Stub → Word) (mem : Memory) :
    Untouched mem (idtInit layout address mem) layout.gdt 40 := by
  intro i small
  have outside := layout.tables.distance small
  have pointer := layout.gdt_other.distance small
  rw [idtInit_eq, idtCalls_outside outside, idtZero, zero_spec layout.idt _ (by decide), if_neg (by omega)]
  generalize layout.gdt + BitVec.ofNat 32 i = byte at *
  rw [store32_outside, store16, storeBytes_outside]
  · change 2 ≤ _
    omega
  · rw [← sub_sub_word]
    generalize byte - layout.idtDescriptor = distance at *
    bv_omega

end Table

section Delivery

variable {cpu : Processor} {layout : Layout} {address : Stub → Word} {mem : Memory} {system other : System}
  {entry : Machine}

/-- The processor uses both tables of the kernel. -/
structure TablesLoaded (layout : Layout) (address : Stub → Word) (system : System) : Prop where
  gdt : GdtLoaded layout system
  register : system.idtr = ⟨2047, layout.idt⟩
  gates : ∀ vector : Fin 256, (descriptor system.machine.mem layout.idt vector).gate =
    (stubFor vector).map fun stub => ⟨0x08, address stub⟩

theorem GdtLoaded.congr (loaded : GdtLoaded layout system) (register : other.gdtr = system.gdtr)
    (same : Untouched system.machine.mem other.machine.mem layout.gdt 40) : GdtLoaded layout other := by
  refine ⟨register.trans loaded.register, loaded.installed.congr same, ?_⟩
  rw [descriptor_congr fun i small => same (8 * 1 + i) (by omega)]
  exact loaded.accessed

/-- The tables stay in use as long as nothing stores into them. -/
theorem TablesLoaded.congr (loaded : TablesLoaded layout address system) (gdtr : other.gdtr = system.gdtr)
    (idtr : other.idtr = system.idtr) (gdt : Untouched system.machine.mem other.machine.mem layout.gdt 40)
    (idt : Untouched system.machine.mem other.machine.mem layout.idt 2048) : TablesLoaded layout address other := by
  refine ⟨loaded.gdt.congr gdtr gdt, idtr.trans loaded.register, ?_⟩
  intro vector
  have bound := vector.isLt
  rw [descriptor_congr fun i small => idt (8 * vector + i) (by omega)]
  exact loaded.gates vector

/-- Each vector leads to its stub, or nowhere. -/
theorem TablesLoaded.deliver (loaded : TablesLoaded layout address system) (kernel : system.ring = 0)
    (cpu : Processor) (vector : Nat) (errorCode : Option Word) :
    system.deliver cpu vector errorCode = (stubFor vector).map fun stub =>
      (⟨0x08, address stub⟩, { system with machine := system.machine.interrupt cpu ⟨0x08, address stub⟩ errorCode }) := by
  have reaches : 8 * vector + 7 ≤ system.idtr.limit.toNat ↔ vector < 256 := by
    rw [loaded.register]
    change 8 * vector + 7 ≤ 2047 ↔ _
    omega
  have base : system.idtr.base = layout.idt := by rw [loaded.register]
  have names : system.segmentAt 0x08 = some (flat 0 true) :=
    loaded.gdt.installed.segmentAt loaded.gdt.register 0x08
  have unchanged : system.touch 0x08 = system.machine.mem := by
    apply System.touch_of_accessed
    rw [loaded.gdt.register]
    exact loaded.gdt.accessed
  rw [System.deliver, TableRegister.lookup, base]
  by_cases inside : vector < 256
  · rw [if_pos (reaches.mpr inside), Option.bind_some, loaded.gates ⟨vector, inside⟩]
    cases stubFor vector with
    | none => rfl
    | some stub =>
        simp only [Option.map_some, Option.bind_some, names, unchanged, kernel]
        rfl
  · have beyond : stubFor vector = none := by
      rw [stubFor, dif_neg (by omega), dif_neg (by omega)]
    rw [if_neg fun reached => inside (reaches.mp reached), beyond]
    rfl

/-- Whatever memory held, `idt_init` comes back without a fault, and from then on the
exceptions and the lines of the interrupt controllers enter their own stubs in
the kernel code segment; other vectors have no gate. -/
theorem idt_init_complete (cpu : Processor) (layout : Layout) (address : Stub → Word) {caller : Machine}
    {gdtr idtr : TableRegister} {returnTo : Word} (loaded : GdtLoaded layout ⟨caller, gdtr, idtr⟩)
    (call : FlushCall (idtInit layout address caller.mem) layout.idt 2048 layout.idtDescriptor returnTo entry)
    (gdtKept : Untouched (idtInit layout address caller.mem) entry.mem layout.gdt 40)
    (kernel : ringOf (entry.segs .cs) = 0) :
    ∃ after, runSystem cpu idtFlush ⟨entry, gdtr, idtr⟩ = some after ∧ Flushed entry returnTo after.machine ∧
      after.machine.segs = entry.segs ∧ after.machine.mem = entry.mem ∧ TablesLoaded layout address after ∧
      ∀ vector errorCode, after.deliver cpu vector errorCode = (stubFor vector).map fun stub =>
        (⟨0x08, address stub⟩, { after with machine := after.machine.interrupt cpu ⟨0x08, address stub⟩ errorCode }) := by
  have argument : load32 entry.mem (entry.regs .esp + 4) = layout.idtDescriptor := call.stack.2.1
  have pointer := (loadTableRegister_congr call.pointerKept).trans (idtInit_pointer layout address caller.mem)
  let fetched := entry.set .eax layout.idtDescriptor
  have first : SystemOp.exec cpu ⟨entry, gdtr, idtr⟩ .movEaxArgument = some ⟨fetched, gdtr, idtr⟩ := by
    simp only [SystemOp.exec, argument, fetched]
  have second : SystemOp.exec cpu ⟨fetched, gdtr, idtr⟩ .lidtEax = some ⟨fetched, gdtr, ⟨2047, layout.idt⟩⟩ := by
    have inEax : fetched.regs .eax = layout.idtDescriptor := entry.set_same .eax layout.idtDescriptor
    simp only [SystemOp.exec, inEax]
    rw [← pointer]
    rfl
  let after : System := ⟨{ fetched.drop with eip := fetched.top }, gdtr, ⟨2047, layout.idt⟩⟩
  have tables : TablesLoaded layout address after := by
    refine ⟨loaded.congr rfl ?_, rfl, ?_⟩
    · intro i small
      exact (gdtKept i small).trans (idtInit_gdt layout address caller.mem i small)
    · intro vector
      have bound := vector.isLt
      have same : descriptor entry.mem layout.idt vector = descriptor (idtInit layout address caller.mem) layout.idt vector :=
        descriptor_congr fun i small => call.tableKept (8 * vector + i) (by omega)
      exact (congrArg Descriptor.gate same).trans (idtInit_gate layout address caller.mem vector)
  refine ⟨after, (runSystem_cons first).trans ((runSystem_cons second).trans (runSystem_cons rfl)), ?_, rfl, rfl, tables,
    tables.deliver kernel cpu⟩
  refine ⟨?_, ?_, ?_, rfl⟩
  · exact call.stack.1
  · change fetched.drop.regs .esp = _
    rw [Machine.drop, Machine.set_same]
    rfl
  · intro reg notEsp notEax
    refine (Machine.drop_other notEsp).trans ?_
    simp [fetched, Machine.set, notEax]

def sampleAddress : Stub → Word
  | .isr vector => 0x100000 + 16 * BitVec.ofNat 32 vector
  | .irq line => 0x101000 + 16 * BitVec.ofNat 32 line

/-- The processor as `gdt_init` leaves it. -/
def flatMachine (mem : Memory) : Machine :=
  ⟨fun _ => 0x9000, fun seg => if seg = .cs then 0x08 else 0x10, 0x100000, 0x2, mem⟩

theorem flatMachine_loaded (idtr : TableRegister) : GdtLoaded sampleLayout
    ⟨flatMachine (noted sampleLayout 1 (gdtInit sampleLayout fun _ => 0)), ⟨39, 0x1000⟩, idtr⟩ :=
  (gdtInit_installed sampleLayout fun _ => 0).entered rfl rfl

/-- The keyboard has a gate, vector 200 has none. -/
theorem flat_idt_complete : ∃ entry after keyboard, runSystem ⟨fun _ _ => 0, fun machine => machine.eflags⟩ idtFlush
      ⟨entry, ⟨39, 0x1000⟩, ⟨0, 0⟩⟩ = some after ∧ after.machine.eip = 0x100010 ∧
    after.deliver ⟨fun _ _ => 0, fun machine => machine.eflags⟩ 33 none = some (⟨0x08, 0x101010⟩, keyboard) ∧
    keyboard.machine.eip = 0x101010 ∧
    after.deliver ⟨fun _ _ => 0, fun machine => machine.eflags⟩ 200 none = none := by
  let caller := flatMachine (noted sampleLayout 1 (gdtInit sampleLayout fun _ => 0))
  let stored := flatMachine (idtInit sampleLayout sampleAddress caller.mem)
  have call := FlushCall.of_pushes stored 0x100010
    (show Apart _ 8 sampleLayout.idt 2048 by decide) (show Apart _ 8 sampleLayout.idtDescriptor 6 by decide)
  have kept := pushes_untouched stored sampleLayout.idtDescriptor 0x100010 (show Apart _ 8 sampleLayout.gdt 40 by decide)
  obtain ⟨after, runs, flushed, _, _, _, delivers⟩ := idt_init_complete ⟨fun _ _ => 0, fun machine => machine.eflags⟩
    sampleLayout sampleAddress (flatMachine_loaded ⟨0, 0⟩) call kept (by decide)
  exact ⟨_, after, _, runs, flushed.eip, (delivers 33 none).trans rfl, rfl, (delivers 200 none).trans rfl⟩

end Delivery

end DugOS.Boot
