import DugOS.X86.Machine

namespace DugOS.Interrupts

open X86

/-! The exception stubs of `isr_stubs.s` and the frame that they build for
`isr_common_handler`. -/

/-- The C functions that the stubs call. -/
inductive Callee where
  | isrCommonHandler
  | irqDispatch
deriving DecidableEq

section Stubs

/-- With these instructions `isr_common` and the IRQ stubs save the registers and
load the kernel data segment. -/
def saveRegisters : List Op :=
  [.pusha, .pushSeg .ds, .pushSeg .es, .pushSeg .fs, .pushSeg .gs,
    .movAx 0x10, .movSegAx .ds, .movSegAx .es, .movSegAx .fs, .movSegAx .gs]

/-- With these they drop the argument and take the registers back. -/
def restoreRegisters : List Op :=
  [.addEsp 4, .popSeg .gs, .popSeg .fs, .popSeg .es, .popSeg .ds, .popa]

def isrCommon (returnTo : Word) : List (Line Callee) :=
  ops (saveRegisters ++ [.pushReg .esp]) ++ .call .isrCommonHandler returnTo ::
    (ops (restoreRegisters ++ [.addEsp 8]) ++ [.iret])

def isrNoerr (vector : Word) : List Op :=
  [.cli, .pushImm 0, .pushImm vector]

def isrErr (vector : Word) : List Op :=
  [.cli, .pushImm vector]

/-- The 32 instantiations, each of which jumps to `isr_common` at its end. -/
def isrStubs : List (List Op) :=
  [isrNoerr 0, isrNoerr 1, isrNoerr 2, isrNoerr 3, isrNoerr 4, isrNoerr 5, isrNoerr 6, isrNoerr 7,
    isrErr 8, isrNoerr 9, isrErr 10, isrErr 11, isrErr 12, isrErr 13, isrErr 14, isrNoerr 15,
    isrNoerr 16, isrErr 17, isrNoerr 18, isrNoerr 19, isrNoerr 20, isrNoerr 21, isrNoerr 22, isrNoerr 23,
    isrNoerr 24, isrNoerr 25, isrNoerr 26, isrNoerr 27, isrNoerr 28, isrNoerr 29, isrErr 30, isrNoerr 31]

def isrStub (returnTo : Word) (vector : Fin 32) : List (Line Callee) :=
  ops (isrStubs.get vector) ++ isrCommon returnTo

end Stubs

/-- The vectors for which the processor pushes an error code. -/
def PushesErrorCode (vector : Fin 32) : Prop :=
  vector ∈ [8, 10, 11, 12, 13, 14, 17, 30]

instance (vector : Fin 32) : Decidable (PushesErrorCode vector) :=
  inferInstanceAs (Decidable (vector ∈ [8, 10, 11, 12, 13, 14, 17, 30]))

/-- Exception `vector` at `machine`, with the error code if it has one. -/
def fault (cpu : Processor) (gate : Gate) (vector : Fin 32) (errorCode : Word) (machine : Machine) : Machine :=
  machine.interrupt cpu gate (if PushesErrorCode vector then some errorCode else none)

/-- `struct regs`. -/
structure Regs where
  gs : Word
  fs : Word
  es : Word
  ds : Word
  edi : Word
  esi : Word
  ebp : Word
  esp : Word
  ebx : Word
  edx : Word
  ecx : Word
  eax : Word
  vector : Word
  errCode : Word
  eip : Word
  cs : Word
  eflags : Word
  useresp : Word
  ss : Word

/-- The structure that `r` points to. -/
def readRegs (mem : Memory) (r : Word) : Regs :=
  let field (i : Nat) := load32 mem (r + BitVec.ofNat 32 (4 * i))
  ⟨field 0, field 1, field 2, field 3, field 4, field 5, field 6, field 7, field 8, field 9, field 10, field 11,
    field 12, field 13, field 14, field 15, field 16, field 17, field 18⟩

variable {cpu : Processor} {machine saved back : Machine} {words frame : List Word} {argument value : Word}

section Registers

/-- The twelve words that `saveRegisters` leaves on the stack. -/
def Saves (machine : Machine) (frame : List Word) : Prop :=
  ∃ gs fs es ds : Word, frame = [gs, fs, es, ds] ++
      ([machine.regs .edi, machine.regs .esi, machine.regs .ebp, machine.regs .esp] ++
        [machine.regs .ebx, machine.regs .edx, machine.regs .ecx, machine.regs .eax]) ∧
    gs.setWidth 16 = machine.segs .gs ∧ fs.setWidth 16 = machine.segs .fs ∧
    es.setWidth 16 = machine.segs .es ∧ ds.setWidth 16 = machine.segs .ds

theorem Saves.length (saves : Saves machine frame) : frame.length = 12 := by
  obtain ⟨gs, fs, es, ds, rfl, _⟩ := saves
  rfl

theorem saveRegisters_spec (cpu : Processor) (stack : machine.Stack words) (room : words.length ≤ 16) :
    ∃ frame, Saves machine frame ∧ (runOps cpu machine saveRegisters).Stack (frame ++ words) ∧
      (runOps cpu machine saveRegisters).regs .esp = machine.regs .esp - 48 ∧
      (runOps cpu machine saveRegisters).segs .cs = machine.segs .cs ∧
      (runOps cpu machine saveRegisters).segs .ss = machine.segs .ss := by
  have general := Machine.pusha_stack stack (by omega)
  have segs : machine.pusha.segs = machine.segs := Machine.pushAll_segs machine _
  have esp : machine.pusha.regs .esp = machine.regs .esp - 32 := Machine.pushAll_esp machine _
  let afterDs := machine.pusha.push (machine.pusha.selectorWord cpu .ds)
  let afterEs := afterDs.push (afterDs.selectorWord cpu .es)
  let afterFs := afterEs.push (afterEs.selectorWord cpu .fs)
  have ds : afterDs.Stack _ := general.push (by simp; omega) _
  have es : afterEs.Stack _ := ds.push (by simp; omega) _
  have fs : afterFs.Stack _ := es.push (by simp; omega) _
  have gs := fs.push (by simp; omega) (afterFs.selectorWord cpu .gs)
  refine ⟨_, ⟨_, _, _, _, rfl, ?_, ?_, ?_, ?_⟩, gs.of_eq rfl rfl, ?_, congrFun segs .cs, congrFun segs .ss⟩
  · rw [Machine.selectorWord_low]
    exact congrFun segs .gs
  · rw [Machine.selectorWord_low]
    exact congrFun segs .fs
  · rw [Machine.selectorWord_low]
    exact congrFun segs .es
  · rw [Machine.selectorWord_low]
    exact congrFun segs .ds
  · change machine.pusha.regs .esp - 4 - 4 - 4 - 4 = machine.regs .esp - 48
    rw [esp, sub_sub_word, sub_sub_word, sub_sub_word, sub_sub_word]
    rfl

theorem restoreRegisters_spec (cpu : Processor) (saves : Saves machine frame)
    (stack : back.Stack (argument :: (frame ++ words))) :
    (runOps cpu back restoreRegisters).Stack words ∧
      (∀ reg, reg ≠ .esp → (runOps cpu back restoreRegisters).regs reg = machine.regs reg) ∧
      (runOps cpu back restoreRegisters).regs .esp = back.regs .esp + 52 ∧
      ∀ seg, (runOps cpu back restoreRegisters).segs seg =
        if seg = .cs ∨ seg = .ss then back.segs seg else machine.segs seg := by
  obtain ⟨gs, fs, es, ds, rfl, gsLow, fsLow, esLow, dsLow⟩ := saves
  have dropped : (Op.exec cpu back (.addEsp 4)).Stack _ := stack.drop.of_eq rfl rfl
  obtain ⟨popGs, gsSegs⟩ := Machine.popSeg_stack .gs dropped
  obtain ⟨popFs, fsSegs⟩ := Machine.popSeg_stack .fs popGs
  obtain ⟨popEs, esSegs⟩ := Machine.popSeg_stack .es popFs
  obtain ⟨popDs, dsSegs⟩ := Machine.popSeg_stack .ds popEs
  obtain ⟨rest, regs⟩ := Machine.popa_regs popDs
  refine ⟨rest, regs, ?_, ?_⟩
  · rw [runOps, restoreRegisters]
    change (Machine.popa _).regs .esp = _
    rw [Machine.popa_esp]
    change back.regs .esp + 4 + 4 + 4 + 4 + 4 + 32 = back.regs .esp + 52
    simp only [BitVec.add_assoc]
    rfl
  · intro seg
    have restored : (runOps cpu back restoreRegisters).segs = _ := dsSegs
    rw [restored, esSegs, fsSegs, gsSegs, gsLow, fsLow, esLow, dsLow]
    cases seg <;> rfl

/-- The common part of all stubs: the callee starts with its argument on the
stack, below the saved registers. -/
theorem stub_calls (callee : Callee) (returnTo : Word) (rest : List (Line Callee)) {argument : Op}
    (stack : machine.Stack words) (room : words.length ≤ 16)
    (pushes : ∀ saved : Machine, saved.regs .esp = machine.regs .esp - 48 →
      argument.exec cpu saved = saved.push value) :
    ∃ entry frame, execute cpu (ops (saveRegisters ++ [argument]) ++ .call callee returnTo :: rest) machine =
        .called callee entry rest ∧ Saves machine frame ∧
      entry.Stack (returnTo :: value :: (frame ++ words)) ∧ entry.regs .esp = machine.regs .esp - 56 ∧
      entry.segs .cs = machine.segs .cs ∧ entry.segs .ss = machine.segs .ss := by
  obtain ⟨frame, saves, saved, esp, cs, ss⟩ := saveRegisters_spec cpu stack room
  have length := saves.length
  have pushed := pushes _ esp
  refine ⟨((runOps cpu machine saveRegisters).push value).push returnTo, frame, ?_, saves, ?_, ?_, cs, ss⟩
  · rw [execute_ops, runOps_append, ← pushed]
    rfl
  · have first := saved.push (by rw [List.length_append]; omega) value
    exact first.push (by rw [List.length_cons, List.length_append]; omega) returnTo
  · rw [Machine.push_esp, Machine.push_esp, esp, sub_sub_word, sub_sub_word]
    rfl

/-- The data segments come from the stack, and the stack segment is left alone. -/
theorem restored_segs {interrupted restored : Machine} {selector : BitVec 16}
    (entered : interrupted.segs = Function.update machine.segs .cs selector)
    (stackSeg : back.segs .ss = interrupted.segs .ss)
    (popped : ∀ seg, restored.segs seg = if seg = .cs ∨ seg = .ss then back.segs seg else interrupted.segs seg) :
    ∀ seg, seg ≠ .cs → restored.segs seg = machine.segs seg := by
  intro seg other
  have unchanged : interrupted.segs seg = machine.segs seg := by rw [entered, Function.update_of_ne other]
  rw [popped]
  by_cases isSs : seg = .ss
  · rw [if_pos (.inr isSs), isSs, stackSeg, ← isSs, unchanged]
  · rw [if_neg (by simp [other, isSs]), unchanged]

/-- The interrupted code goes on as if nothing had happened. -/
structure Resumes (machine resumed : Machine) : Prop where
  regs : resumed.regs = machine.regs
  segs : resumed.segs = machine.segs
  eip : resumed.eip = machine.eip
  eflags : resumed.eflags = machine.eflags

/-- Everything but `cs` is restored, and `esp` points at what the processor has
pushed. -/
structure Restored (cpu : Processor) (machine leaving : Machine) : Prop where
  regs : ∀ reg, reg ≠ .esp → leaving.regs reg = machine.regs reg
  esp : leaving.regs .esp = machine.regs .esp - 12
  segs : ∀ seg, seg ≠ .cs → leaving.segs seg = machine.segs seg
  stack : leaving.Stack [machine.eip, machine.selectorWord cpu .cs, machine.eflags]

theorem Restored.resumes {leaving : Machine} (restored : Restored cpu machine leaving) :
    Resumes machine leaving.iret := by
  obtain ⟨eip, segs, eflags, regs⟩ := Machine.iret_spec restored.stack
  refine ⟨?_, ?_, eip, eflags⟩
  · rw [regs, restored.esp, BitVec.sub_add_cancel]
    funext reg
    by_cases isEsp : reg = .esp
    · rw [isEsp, Function.update_self]
    · rw [Function.update_of_ne isEsp, restored.regs reg isEsp]
  · rw [segs, Machine.selectorWord_low]
    funext seg
    by_cases isCs : seg = .cs
    · rw [isCs, Function.update_self]
    · rw [Function.update_of_ne isCs, restored.segs seg isCs]

end Registers

section Frame

/-- What `struct regs` says about the fault, each selector in the lower half of
its field. -/
structure Regs.Reports (regs : Regs) (cpu : Processor) (number : Fin 32) (errorCode : Word) (machine : Machine) :
    Prop where
  gs : regs.gs.setWidth 16 = machine.segs .gs
  fs : regs.fs.setWidth 16 = machine.segs .fs
  es : regs.es.setWidth 16 = machine.segs .es
  ds : regs.ds.setWidth 16 = machine.segs .ds
  edi : regs.edi = machine.regs .edi
  esi : regs.esi = machine.regs .esi
  ebp : regs.ebp = machine.regs .ebp
  ebx : regs.ebx = machine.regs .ebx
  edx : regs.edx = machine.regs .edx
  ecx : regs.ecx = machine.regs .ecx
  eax : regs.eax = machine.regs .eax
  vector : regs.vector = BitVec.ofNat 32 number
  errCode : regs.errCode = if PushesErrorCode number then errorCode else 0
  eip : regs.eip = machine.eip
  cs : regs.cs = cpu.upper machine .cs ++ machine.segs .cs
  eflags : regs.eflags = machine.eflags

theorem isrStubs_get (vector : Fin 32) : isrStubs.get vector =
    if PushesErrorCode vector then isrErr (BitVec.ofNat 32 vector) else isrNoerr (BitVec.ofNat 32 vector) := by
  have each : ∀ vector : Fin 32, isrStubs[vector.val]? =
      some (if PushesErrorCode vector then isrErr (BitVec.ofNat 32 vector) else isrNoerr (BitVec.ofNat 32 vector)) := by
    decide +kernel
  have present : isrStubs[vector.val]? = some (isrStubs.get vector) := List.getElem?_eq_getElem vector.isLt
  exact Option.some.inj (present.symm.trans (each vector))

/-- The state before the vector is pushed, whether the processor has pushed an
error code or the stub has pushed a dummy. -/
def withErrorCode (cpu : Processor) (gate : Gate) (vector : Fin 32) (errorCode : Word) (machine : Machine) : Machine :=
  let entered := Op.cli.exec cpu (fault cpu gate vector errorCode machine)
  if PushesErrorCode vector then entered else entered.push 0

theorem runOps_isrStub (cpu : Processor) (gate : Gate) (vector : Fin 32) (errorCode : Word) (machine : Machine) :
    runOps cpu (fault cpu gate vector errorCode machine) (isrStubs.get vector) =
      (withErrorCode cpu gate vector errorCode machine).push (BitVec.ofNat 32 vector) := by
  rw [isrStubs_get, withErrorCode]
  split
  · rfl
  · rfl

theorem withErrorCode_spec (cpu : Processor) (gate : Gate) (vector : Fin 32) (errorCode : Word) (machine : Machine) :
    (withErrorCode cpu gate vector errorCode machine).Stack [if PushesErrorCode vector then errorCode else 0,
      machine.eip, machine.selectorWord cpu .cs, machine.eflags] ∧
    (∀ reg, reg ≠ .esp → (withErrorCode cpu gate vector errorCode machine).regs reg = machine.regs reg) ∧
    (withErrorCode cpu gate vector errorCode machine).regs .esp = machine.regs .esp - 16 ∧
    (withErrorCode cpu gate vector errorCode machine).segs = Function.update machine.segs .cs gate.selector := by
  have regs (before : Machine) : (Op.cli.exec cpu before).regs = before.regs := rfl
  have segs (before : Machine) : (Op.cli.exec cpu before).segs = before.segs := rfl
  have stack (code : Option Word) : (Op.cli.exec cpu (machine.interrupt cpu gate code)).Stack _ :=
    (Machine.interrupt_stack cpu gate code machine).of_eq rfl rfl
  by_cases pushes : PushesErrorCode vector
  · simp only [withErrorCode, fault, if_pos pushes, regs, segs]
    refine ⟨stack (some errorCode), ?_, Machine.interrupt_esp cpu gate (some errorCode) machine,
      Machine.interrupt_segs cpu gate (some errorCode) machine⟩
    intro reg general
    exact Machine.interrupt_reg cpu gate (some errorCode) machine general
  · simp only [withErrorCode, fault, if_neg pushes, Machine.push_segs, segs]
    refine ⟨(stack none).push (by simp) 0, ?_, ?_, Machine.interrupt_segs cpu gate none machine⟩
    · intro reg general
      rw [Machine.push_reg general, regs, Machine.interrupt_reg cpu gate none machine general]
    · rw [Machine.push_esp, regs, Machine.interrupt_esp]
      change machine.regs .esp - 12 - 4 = machine.regs .esp - 16
      rw [sub_sub_word]
      rfl

/-- The state in which the stub jumps to `isr_common`. -/
structure AtCommon (cpu : Processor) (gate : Gate) (vector : Fin 32) (errorCode : Word) (machine common : Machine) :
    Prop where
  stack : common.Stack [BitVec.ofNat 32 vector, if PushesErrorCode vector then errorCode else 0, machine.eip,
    machine.selectorWord cpu .cs, machine.eflags]
  regs : ∀ reg, reg ≠ .esp → common.regs reg = machine.regs reg
  esp : common.regs .esp = machine.regs .esp - 20
  segs : common.segs = Function.update machine.segs .cs gate.selector

theorem isrStub_common (cpu : Processor) (gate : Gate) (vector : Fin 32) (errorCode returnTo : Word)
    (machine : Machine) :
    ∃ common, execute cpu (isrStub returnTo vector) (fault cpu gate vector errorCode machine) =
        execute cpu (isrCommon returnTo) common ∧ AtCommon cpu gate vector errorCode machine common := by
  obtain ⟨stack, general, esp, segs⟩ := withErrorCode_spec cpu gate vector errorCode machine
  refine ⟨_, ?_, stack.push (by simp) (BitVec.ofNat 32 vector), ?_, ?_, segs⟩
  · rw [isrStub, execute_ops, runOps_isrStub]
  · intro reg isGeneral
    rw [Machine.push_reg isGeneral, general reg isGeneral]
  · rw [Machine.push_esp, esp, sub_sub_word]
    rfl

variable {gate : Gate} {vector : Fin 32} {errorCode r : Word} {common : Machine} {mem : Memory}

theorem AtCommon.reports (jumped : AtCommon cpu gate vector errorCode machine common) (saves : Saves common frame)
    (stored : WordsAt mem r (frame ++ [BitVec.ofNat 32 vector, if PushesErrorCode vector then errorCode else 0,
      machine.eip, machine.selectorWord cpu .cs, machine.eflags])) :
    (readRegs mem r).Reports cpu vector errorCode machine := by
  obtain ⟨gs, fs, es, ds, rfl, gsLow, fsLow, esLow, dsLow⟩ := saves
  have selector (seg : Seg) (other : seg ≠ .cs) : common.segs seg = machine.segs seg := by
    rw [jumped.segs, Function.update_of_ne other]
  have gsField : (readRegs mem r).gs = gs := stored.get rfl
  have fsField : (readRegs mem r).fs = fs := stored.get rfl
  have esField : (readRegs mem r).es = es := stored.get rfl
  have dsField : (readRegs mem r).ds = ds := stored.get rfl
  exact {
    gs := by rw [gsField, gsLow, selector .gs (by simp)]
    fs := by rw [fsField, fsLow, selector .fs (by simp)]
    es := by rw [esField, esLow, selector .es (by simp)]
    ds := by rw [dsField, dsLow, selector .ds (by simp)]
    edi := by rw [← jumped.regs .edi (by simp)]; exact stored.get rfl
    esi := by rw [← jumped.regs .esi (by simp)]; exact stored.get rfl
    ebp := by rw [← jumped.regs .ebp (by simp)]; exact stored.get rfl
    ebx := by rw [← jumped.regs .ebx (by simp)]; exact stored.get rfl
    edx := by rw [← jumped.regs .edx (by simp)]; exact stored.get rfl
    ecx := by rw [← jumped.regs .ecx (by simp)]; exact stored.get rfl
    eax := by rw [← jumped.regs .eax (by simp)]; exact stored.get rfl
    vector := stored.get rfl
    errCode := stored.get rfl
    eip := stored.get rfl
    cs := stored.get rfl
    eflags := stored.get rfl }

/-- The way back through `isr_common`, once the registers are on the stack
again. -/
theorem AtCommon.leaves (jumped : AtCommon cpu gate vector errorCode machine common) (saves : Saves common frame)
    (stack : back.Stack (argument :: (frame ++ [BitVec.ofNat 32 vector,
      if PushesErrorCode vector then errorCode else 0, machine.eip, machine.selectorWord cpu .cs, machine.eflags])))
    (esp : back.regs .esp = common.regs .esp - 52) (cs : back.segs .cs = common.segs .cs)
    (ss : back.segs .ss = common.segs .ss) :
    ∃ leaving, execute cpu (ops (α := Callee) (restoreRegisters ++ [.addEsp 8]) ++ [.iret]) back = .leaving leaving ∧
      Restored cpu machine leaving ∧ leaving.segs .cs = gate.selector := by
  obtain ⟨rest, regs, popped, segs⟩ := restoreRegisters_spec cpu saves stack
  have runs : execute cpu (ops (α := Callee) (restoreRegisters ++ [.addEsp 8]) ++ [.iret]) back =
      .leaving ((Op.addEsp 8).exec cpu (runOps cpu back restoreRegisters)) := by
    rw [execute_ops, runOps_append]
    rfl
  refine ⟨_, runs, ?_⟩
  generalize runOps cpu back restoreRegisters = restored at rest regs popped segs
  have sameMem : ((Op.addEsp 8).exec cpu restored).mem = restored.drop.drop.mem := rfl
  have sameSegs : ((Op.addEsp 8).exec cpu restored).segs = restored.segs := rfl
  have moved : ((Op.addEsp 8).exec cpu restored).regs .esp = restored.regs .esp + 8 := rfl
  have twice : restored.drop.drop.regs .esp = restored.regs .esp + 8 := by
    change restored.regs .esp + 4 + 4 = _
    rw [BitVec.add_assoc]
    rfl
  constructor
  · constructor
    case regs =>
      intro reg general
      change Function.update _ Reg.esp _ reg = _
      rw [Function.update_of_ne general, regs reg general, jumped.regs reg general]
    case esp =>
      rw [moved, popped, esp, BitVec.sub_add_cancel, jumped.esp, sub_add_word]
      rfl
    case segs =>
      rw [sameSegs]
      exact restored_segs jumped.segs ss segs
    case stack => exact rest.drop.drop.of_eq sameMem (moved.trans twice.symm)
  · rw [sameSegs, segs, if_pos (.inl rfl), cs, jumped.segs, Function.update_self]

/-- The handler gets a pointer to a `struct regs` that reports the fault. When it
returns and has left that structure alone, the stub reaches `iret` with all
registers restored. -/
theorem exception_frame (cpu : Processor) (gate : Gate) (vector : Fin 32) (errorCode returnTo : Word)
    (machine : Machine) :
    ∃ entry rest r, execute cpu (isrStub returnTo vector) (fault cpu gate vector errorCode machine) =
        .called .isrCommonHandler entry rest ∧
      load32 entry.mem (entry.regs .esp + 4) = r ∧ (readRegs entry.mem r).Reports cpu vector errorCode machine ∧
      ∀ back, Cdecl entry back → Untouched entry.mem back.mem r 68 →
        ∃ leaving, execute cpu rest back = .leaving leaving ∧ Restored cpu machine leaving ∧
          leaving.segs .cs = gate.selector ∧ Resumes machine leaving.iret := by
  obtain ⟨common, jumps, jumped⟩ := isrStub_common cpu gate vector errorCode returnTo machine
  have pushes (saved : Machine) (esp : saved.regs .esp = common.regs .esp - 48) :
      (Op.pushReg .esp).exec cpu saved = saved.push (common.regs .esp - 48) := by
    rw [← esp]
    rfl
  obtain ⟨entry, frame, calls, saves, stack, esp, cs, ss⟩ := stub_calls .isrCommonHandler returnTo
    (ops (restoreRegisters ++ [.addEsp 8]) ++ [.iret]) jumped.stack (by simp) pushes
  have pointer : entry.regs .esp + 8 = common.regs .esp - 48 := by
    rw [esp, sub_add_word]
    rfl
  have stored : WordsAt entry.mem (entry.regs .esp + 4 + 4) _ := stack.2.2
  have above : entry.regs .esp + 4 + 4 = common.regs .esp - 48 := by
    rw [BitVec.add_assoc]
    exact pointer
  rw [above] at stored
  refine ⟨entry, _, common.regs .esp - 48, jumps.trans calls, stack.2.1, jumped.reports saves stored, ?_⟩
  intro back returns kept
  have length := saves.length
  rw [← pointer] at kept
  have again := returns.stack_back stack (by rwa [List.length_append, length])
  have backEsp : back.regs .esp = common.regs .esp - 52 := by
    rw [returns.returned, esp, sub_add_word]
    rfl
  obtain ⟨leaving, leaves, restored, code⟩ :=
    jumped.leaves saves again backEsp (returns.code.trans cs) (returns.stack.trans ss)
  exact ⟨leaving, leaves, restored, code, restored.resumes⟩

def quietProcessor : Processor :=
  ⟨fun _ _ => 0, fun machine => machine.eflags⟩

def sampleMachine : Machine :=
  ⟨fun _ => 0x9000, fun _ => 0x10, 0x100000, 0x202, fun _ => 0⟩

/-- A handler that returns at once from a page fault. -/
theorem page_fault_resumes : ∃ entry rest leaving,
    execute quietProcessor (isrStub 0x100020 14) (fault quietProcessor ⟨0x08, 0x100010⟩ 14 2 sampleMachine) =
      .called .isrCommonHandler entry rest ∧
    (readRegs entry.mem (load32 entry.mem (entry.regs .esp + 4))).errCode = 2 ∧
    execute quietProcessor rest entry.drop = .leaving leaving ∧ Resumes sampleMachine leaving.iret := by
  obtain ⟨entry, rest, r, calls, pointer, reports, returns⟩ :=
    exception_frame quietProcessor ⟨0x08, 0x100010⟩ 14 2 0x100020 sampleMachine
  have back : Cdecl entry entry.drop := ⟨rfl, by simp [Machine.drop, Machine.set], rfl, rfl⟩
  obtain ⟨leaving, leaves, _, _, resumes⟩ := returns entry.drop back (fun _ _ => rfl)
  exact ⟨entry, rest, leaving, calls, by rw [pointer]; exact reports.errCode, leaves, resumes⟩

end Frame

end DugOS.Interrupts
