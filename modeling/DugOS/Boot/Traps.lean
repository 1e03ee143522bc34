import DugOS.Boot.Idt
import DugOS.Interrupts.Irq
import DugOS.Interrupts.Panic
import DugOS.X86.Footprint
import Mathlib.Logic.Relation

namespace DugOS.Boot

open X86 Data Interrupts Vga

/-! From the event to the C code and back: what happens when an exception or an
interrupt line strikes a processor that uses the tables of the kernel. -/

/-- The code at the entry points. -/
def stubCode (returnTo : Word) : Stub → List (Line Callee)
  | .isr vector => isrStub returnTo vector
  | .irq line => (irqStubs returnTo).get line

/-- Where the linker has put the stubs; each of them has its own address to which
the C code returns. -/
structure Program where
  address : Stub → Word
  returnTo : Stub → Word
  codeAt : Word → List (Line Callee)
  linked : ∀ stub, codeAt (address stub) = stubCode (returnTo stub) stub

/-- The state from which the kernel can take an exception or an interrupt: the
tables are in use, and the stack, down to `depth` bytes, does not reach them. -/
structure Trapping (layout : Layout) (program : Program) (depth : Nat) (system : System) : Prop where
  tables : TablesLoaded layout program.address system
  kernel : system.ring = 0
  gdt : Apart (system.machine.regs .esp - BitVec.ofNat 32 depth) depth layout.gdt 40
  idt : Apart (system.machine.regs .esp - BitVec.ofNat 32 depth) depth layout.idt 2048

variable {cpu : Processor} {layout : Layout} {program : Program} {system after : System}

section Sample

def allStubs : List Stub :=
  (List.finRange 32).map .isr ++ (List.finRange 16).map .irq

def sampleProgram : Program where
  address := sampleAddress
  returnTo := fun _ => 0x102000
  codeAt := fun word => ((allStubs.find? fun stub => sampleAddress stub = word).map (stubCode 0x102000)).getD []
  linked := by
    have distinct : ∀ stub, allStubs.find? (fun other => sampleAddress other = sampleAddress stub) = some stub := by
      intro stub
      cases stub with
      | isr vector =>
          revert vector
          decide +kernel
      | irq line =>
          revert line
          decide +kernel
    intro stub
    rw [distinct]
    rfl

/-- The processor as `idt_init` leaves it. -/
def sampleSystem : System :=
  let mem := idtInit sampleLayout sampleAddress (noted sampleLayout 1 (gdtInit sampleLayout fun _ => 0))
  ⟨flatMachine mem, ⟨39, 0x1000⟩, ⟨2047, 0x3000⟩⟩

theorem sampleSystem_trapping (depth : Nat) (gdt : Apart (0x9000 - BitVec.ofNat 32 depth) depth sampleLayout.gdt 40)
    (idt : Apart (0x9000 - BitVec.ofNat 32 depth) depth sampleLayout.idt 2048) :
    Trapping sampleLayout sampleProgram depth sampleSystem := by
  refine ⟨⟨?_, rfl, ?_⟩, by decide, gdt, idt⟩
  · exact (flatMachine_loaded ⟨2047, 0x3000⟩).congr rfl (idtInit_gdt sampleLayout sampleAddress _)
  · exact idtInit_gate sampleLayout sampleAddress _

end Sample

section Exceptions

variable {vga : VgaState} {terminal : Terminal}

theorem isrStub_descends (cpu : Processor) (gate : Gate) (vector : Fin 32) (errorCode returnTo : Word)
    (machine : Machine) :
    ∃ entry rest, execute cpu (isrStub returnTo vector) (fault cpu gate vector errorCode machine) =
        .called .isrCommonHandler entry rest ∧ Descends machine entry 76 ∧ entry.eflags.getLsbD 9 = false := by
  have frame : isrStub returnTo vector = ops (isrStubs.get vector ++ (saveRegisters ++ [.pushReg .esp])) ++
      .call .isrCommonHandler returnTo :: (ops (restoreRegisters ++ [.addEsp 8]) ++ [.iret]) := by
    simp [isrStub, isrCommon, ops]
  have depth : ∀ vector : Fin 32, depthOf (isrStubs.get vector ++ (saveRegisters ++ [.pushReg .esp])) =
      some (if PushesErrorCode vector then 56 else 60) := by decide +kernel
  obtain ⟨down, off⟩ := Machine.interrupt_descends cpu gate (if PushesErrorCode vector then some errorCode else none) machine
  rw [frame]
  have bound : (if PushesErrorCode vector then 56 else 60) + 4 ≤ 4294967296 := by split <;> decide
  obtain ⟨entry, calls, deeper⟩ := execute_descends (depth vector) bound cpu Callee.isrCommonHandler returnTo
    (ops (restoreRegisters ++ [.addEsp 8]) ++ [.iret]) (fault cpu gate vector errorCode machine)
  refine ⟨entry, _, calls, ?_, deeper.masked off⟩
  by_cases pushes : PushesErrorCode vector
  · rw [if_pos pushes] at deeper
    rw [if_pos pushes] at down
    exact down.trans (show Descends _ entry 60 by rwa [fault, if_pos pushes] at deeper) (by simp)
  · rw [if_neg pushes] at deeper
    rw [if_neg pushes] at down
    exact down.trans (show Descends _ entry 64 by rwa [fault, if_neg pushes] at deeper) (by simp)

/-- `isr_common` calls the C code with the address of the saved registers, which lie
in front of the words that the stub has left. -/
theorem isrCommon_calls (cpu : Processor) (returnTo : Word) {common : Machine} {words : List Word}
    (stack : common.Stack words) (room : words.length ≤ 16) :
    ∃ entry rest frame, execute cpu (isrCommon returnTo) common = .called .isrCommonHandler entry rest ∧
      Saves common frame ∧ WordsAt entry.mem (load32 entry.mem (entry.regs .esp + 4)) (frame ++ words) := by
  have pushes (saved : Machine) (esp : saved.regs .esp = common.regs .esp - 48) :
      (Op.pushReg .esp).exec cpu saved = saved.push (common.regs .esp - 48) := by
    rw [← esp]
    rfl
  obtain ⟨entry, frame, calls, saves, stack, esp, _⟩ := stub_calls .isrCommonHandler returnTo
    (ops (restoreRegisters ++ [.addEsp 8]) ++ [.iret]) stack room pushes
  have argument : load32 entry.mem (entry.regs .esp + 4) = common.regs .esp - 48 := stack.2.1
  have stored : WordsAt entry.mem (entry.regs .esp + 4 + 4) _ := stack.2.2
  have above : entry.regs .esp + 4 + 4 = common.regs .esp - 48 := by
    rw [BitVec.add_assoc, esp, sub_add_word]
    rfl
  rw [above] at stored
  refine ⟨entry, _, frame, calls, saves, ?_⟩
  rw [argument]
  exact stored

/-- The first half of an exception, up to the C code. -/
theorem isrStub_calls (cpu : Processor) (gate : Gate) (vector : Fin 32) (errorCode returnTo : Word)
    (machine : Machine) :
    ∃ entry rest, execute cpu (isrStub returnTo vector) (fault cpu gate vector errorCode machine) =
        .called .isrCommonHandler entry rest ∧
      (readRegs entry.mem (load32 entry.mem (entry.regs .esp + 4))).Reports cpu vector errorCode machine := by
  obtain ⟨common, jumps, jumped⟩ := isrStub_common cpu gate vector errorCode returnTo machine
  obtain ⟨entry, rest, frame, calls, saves, stored⟩ := isrCommon_calls cpu returnTo jumped.stack (by simp)
  exact ⟨entry, rest, jumps.trans calls, jumped.reports saves stored⟩

/-- Every exception reaches `isr_common_handler` with interrupts off and the tables
intact, and the report on the screen names the vector, the error code that the
processor has pushed, or zero, and the address of the fault. -/
theorem exception_is_reported (cpu : Processor) (standing : Trapping layout program 76 system) (vector : Fin 32)
    (errorCode : Word) (buf : Buffer 11) (shows : Shows vga terminal) :
    ∃ gate entered entry rest number code eip screen,
      system.deliver cpu vector (if PushesErrorCode vector then some errorCode else none) = some (gate, entered) ∧
      execute cpu (program.codeAt gate.offset) entered.machine = .called .isrCommonHandler entry rest ∧
      entry.eflags.getLsbD 9 = false ∧ TablesLoaded layout program.address { entered with machine := entry } ∧
      isrCommonHandler buf (readRegs entry.mem (load32 entry.mem (entry.regs .esp + 4))) vga = some screen ∧
      Shows screen (Terminal.write { terminal with color := 12 }
        (panicText number (exceptionName (UInt32.ofNat vector)) code eip)) ∧
      Denotes 10 number vector ∧ Denotes 16 code (if PushesErrorCode vector then errorCode.toNat else 0) ∧
      Denotes 16 eip system.machine.eip.toNat := by
  have exceptional : stubFor vector = some (.isr vector) := dif_pos vector.isLt
  let gate : Gate := ⟨0x08, program.address (.isr vector)⟩
  let entered : System := { system with machine := fault cpu gate vector errorCode system.machine }
  obtain ⟨entry, rest, calls, reports⟩ := isrStub_calls cpu gate vector errorCode (program.returnTo (.isr vector))
    system.machine
  obtain ⟨same, _, again, down, off⟩ := isrStub_descends cpu gate vector errorCode (program.returnTo (.isr vector))
    system.machine
  cases calls.symm.trans again
  obtain ⟨number, code, eip, screen, draws, shown, isNumber, isCode, isEip⟩ :=
    isrCommonHandler_prints buf reports.vector shows
  rw [reports.errCode] at isCode
  rw [reports.eip] at isEip
  refine ⟨gate, entered, entry, rest, number, code, eip, screen, ?_, ?_, off, ?_, draws, shown, isNumber, ?_, isEip⟩
  · rw [standing.tables.deliver standing.kernel, exceptional]
    rfl
  · rw [program.linked]
    exact calls
  · exact standing.tables.congr rfl rfl (down.untouched standing.gdt) (down.untouched standing.idt)
  · split
    · rename_i pushes
      rwa [if_pos pushes] at isCode
    · rename_i pushes
      rwa [if_neg pushes] at isCode

theorem page_fault_is_reported : ∃ gate entered entry rest number screen start,
    sampleSystem.deliver quietProcessor 14 (some 2) = some (gate, entered) ∧
    execute quietProcessor (sampleProgram.codeAt gate.offset) entered.machine = .called .isrCommonHandler entry rest ∧
    vgaInit ⟨fun _ => 0, 0, 0, 0⟩ = some start ∧
    isrCommonHandler (.zeros 11) (readRegs entry.mem (load32 entry.mem (entry.regs .esp + 4))) start = some screen ∧
    Denotes 10 number 14 := by
  obtain ⟨start, begins, shows⟩ := vgaInit_shows ⟨fun _ => 0, 0, 0, 0⟩
  obtain ⟨gate, entered, entry, rest, number, _, _, screen, delivers, enters, _, _, draws, _, isNumber, _⟩ :=
    exception_is_reported quietProcessor (sampleSystem_trapping 76 (by decide) (by decide)) 14 2 (.zeros 11) shows
  exact ⟨gate, entered, entry, rest, number, screen, start, delivers, enters, begins, draws, isNumber⟩

end Exceptions

section Lines

variable {H : Type} {pics : Pics} {handlers : IrqHandlers H} {line : Fin 16} {actions : List (Action H)}

/-- The vector that a chip sends for one of its lines. -/
def vectorOf (pics : Pics) (line : Fin 16) : Nat :=
  (pics (chipOf line)).base.toNat + line % 8

/-- Both chips have been initialized and send the vectors behind the exceptions. -/
def Remapped (pics : Pics) : Prop :=
  ∀ chip, (pics chip).stage = .ready ∧ (pics chip).base = if chip = .master then 0x20 else 0x28

theorem picInit_remapped (pics : Pics) : Remapped (picInit pics) := by
  intro chip
  rw [picInit, masks_written]
  cases chip <;> exact ⟨rfl, rfl⟩

theorem Remapped.outb (remapped : Remapped pics) (chip : Chip) (value : UInt8) :
    Remapped (outb pics (.data chip) value) := by
  intro other
  rw [outb_data (remapped chip).1]
  by_cases same : other = chip
  · rw [same, Function.update_self]
    exact remapped chip
  · rw [Function.update_of_ne same]
    exact remapped other

theorem Remapped.calls (remapped : Remapped pics) (calls : List PicCall) :
    Remapped (calls.foldl PicCall.apply pics) := by
  induction calls generalizing pics with
  | nil => exact remapped
  | cons call rest ih =>
      apply ih
      cases call with
      | mask irq => exact remapped.outb _ _
      | unmask irq => exact remapped.outb _ _

theorem Remapped.vectorOf (remapped : Remapped pics) (line : Fin 16) : vectorOf pics line = 32 + line := by
  have bound := line.isLt
  rw [Boot.vectorOf, (remapped _).2, chipOf]
  by_cases first : line.val < 8
  · rw [if_pos first, if_pos rfl]
    change 32 + line.val % 8 = _
    omega
  · rw [if_neg first, if_neg (by decide)]
    change 40 + line.val % 8 = _
    omega

theorem stubFor_line (line : Fin 16) : stubFor (32 + line) = some (.irq line) := by
  have bound := line.isLt
  rw [stubFor, dif_neg (by omega), dif_pos (by omega)]
  congr 2
  exact Fin.ext (by simp)

theorem irqStub_descends (cpu : Processor) (gate : Gate) (returnTo : Word) (line : Fin 16) (machine : Machine) :
    ∃ entry rest, execute cpu ((irqStubs returnTo).get line) (machine.interrupt cpu gate none) =
        .called .irqDispatch entry rest ∧ Descends machine entry 68 ∧ entry.eflags.getLsbD 9 = false := by
  obtain ⟨down, off⟩ := Machine.interrupt_descends cpu gate none machine
  have depth : depthOf (saveRegisters ++ [.pushImm (BitVec.ofNat 32 line)]) = some 52 := rfl
  obtain ⟨entry, calls, deeper⟩ := execute_descends depth (by decide) cpu Callee.irqDispatch returnTo
    (ops restoreRegisters ++ [.iret]) (machine.interrupt cpu gate none)
  rw [irqStubs_get]
  exact ⟨entry, _, calls, down.trans deeper (by simp), deeper.masked off⟩

/-- The second half: what the stub does with whatever the C code leaves it. -/
theorem irqStub_returns (cpu : Processor) (gate : Gate) (returnTo : Word) (handlers : IrqHandlers H) (line : Fin 16)
    (machine : Machine) :
    ∃ entry rest, execute cpu ((irqStubs returnTo).get line) (machine.interrupt cpu gate none) =
        .called .irqDispatch entry rest ∧
      ∀ actions back, Dispatched handlers entry actions back → actions = irqDispatch handlers (BitVec.ofNat 32 line) ∧
        ∃ leaving, execute cpu rest back = .leaving leaving ∧ Restored cpu machine leaving ∧ leaving.mem = back.mem := by
  have start := Machine.interrupt_stack cpu gate none machine
  have pushes (saved : Machine) (_ : saved.regs .esp = (machine.interrupt cpu gate none).regs .esp - 48) :
      (Op.pushImm (BitVec.ofNat 32 line)).exec cpu saved = saved.push (BitVec.ofNat 32 line) := rfl
  obtain ⟨entry, frame, calling, saves, stack, esp, cs, ss⟩ := stub_calls .irqDispatch returnTo
    (ops restoreRegisters ++ [.iret]) start (by simp) pushes
  refine ⟨entry, _, by rw [irqStubs_get]; exact calling, ?_⟩
  intro actions back dispatched
  have argument : load32 entry.mem (entry.regs .esp + 4) = BitVec.ofNat 32 line := stack.2.1
  refine ⟨by rw [dispatched.acts, argument], ?_⟩
  have again := dispatched.returns.stack_back stack (by
    rw [List.length_append, saves.length]
    exact dispatched.kept)
  obtain ⟨rest, general, popped, selectors⟩ := restoreRegisters_spec cpu saves again
  refine ⟨runOps cpu back restoreRegisters, by rw [execute_ops]; rfl, ⟨?_, ?_, ?_, rest⟩, rfl⟩
  · intro reg isGeneral
    rw [general reg isGeneral, Machine.interrupt_reg cpu gate none machine isGeneral]
  · have pushed : (machine.interrupt cpu gate none).regs .esp = machine.regs .esp - 12 :=
      Machine.interrupt_esp cpu gate none machine
    rw [popped, dispatched.returns.returned, esp, sub_add_word, sub_add_word, pushed]
    exact BitVec.sub_zero _
  · exact restored_segs (Machine.interrupt_segs cpu gate none machine) (dispatched.returns.stack.trans ss) selectors

/-- An interrupt from its line to the end of its stub. The C code keeps to the
calling convention and does not store into the tables. -/
def Serviced (cpu : Processor) (layout : Layout) (program : Program) (handlers : IrqHandlers H) (pics : Pics)
    (line : Fin 16) (actions : List (Action H)) (before after : System) : Prop :=
  ∃ gate entered entry rest back leaving,
    before.deliver cpu (vectorOf pics line) none = some (gate, entered) ∧
    execute cpu (program.codeAt gate.offset) entered.machine = .called .irqDispatch entry rest ∧
    Dispatched handlers entry actions back ∧ Untouched entry.mem back.mem layout.gdt 40 ∧
    Untouched entry.mem back.mem layout.idt 2048 ∧ execute cpu rest back = .leaving leaving ∧
    after = { entered with machine := leaving.iret }

/-- One interrupt, from any state in which the kernel can take it. -/
theorem Trapping.takes (standing : Trapping layout program 68 system) (remapped : Remapped pics) (cpu : Processor)
    (handlers : IrqHandlers H) (line : Fin 16) :
    ∃ entered entry rest,
      system.deliver cpu (vectorOf pics line) none = some (⟨0x08, program.address (.irq line)⟩, entered) ∧
      execute cpu (program.codeAt (program.address (.irq line))) entered.machine = .called .irqDispatch entry rest ∧
      entry.eflags.getLsbD 9 = false ∧
      ∀ actions back, Dispatched handlers entry actions back → Untouched entry.mem back.mem layout.gdt 40 →
        Untouched entry.mem back.mem layout.idt 2048 →
        actions = irqDispatch handlers (BitVec.ofNat 32 line) ∧
        ∃ leaving, execute cpu rest back = .leaving leaving ∧ Resumes system.machine leaving.iret ∧
          Trapping layout program 68 { entered with machine := leaving.iret } := by
  let gate : Gate := ⟨0x08, program.address (.irq line)⟩
  obtain ⟨entry, rest, calls, returns⟩ :=
    irqStub_returns cpu gate (program.returnTo (.irq line)) handlers line system.machine
  obtain ⟨same, _, again, down, off⟩ :=
    irqStub_descends cpu gate (program.returnTo (.irq line)) line system.machine
  cases calls.symm.trans again
  refine ⟨{ system with machine := system.machine.interrupt cpu gate none }, entry, rest, ?_, ?_, off, ?_⟩
  · rw [remapped.vectorOf, standing.tables.deliver standing.kernel, stubFor_line]
    rfl
  · rw [program.linked]
    exact calls
  · intro actions back dispatched gdtKept idtKept
    obtain ⟨acts, leaving, leaves, restored, mem⟩ := returns actions back dispatched
    have resumes := restored.resumes
    refine ⟨acts, leaving, leaves, resumes, ?_⟩
    have final : leaving.iret.mem = back.mem := mem
    have kept (object : Word) (size : Nat) (pushed : Untouched system.machine.mem entry.mem object size)
        (left : Untouched entry.mem back.mem object size) :
        Untouched system.machine.mem leaving.iret.mem object size := by
      intro i inside
      rw [final, left i inside, pushed i inside]
    constructor
    case tables =>
      exact standing.tables.congr rfl rfl (kept _ _ (down.untouched standing.gdt) gdtKept)
        (kept _ _ (down.untouched standing.idt) idtKept)
    case kernel =>
      rw [System.ring, resumes.segs]
      exact standing.kernel
    case gdt =>
      rw [resumes.regs]
      exact standing.gdt
    case idt =>
      rw [resumes.regs]
      exact standing.idt

theorem Serviced.keeps {before : System} (serviced : Serviced cpu layout program handlers pics line actions before after)
    (standing : Trapping layout program 68 before) (remapped : Remapped pics) :
    Resumes before.machine after.machine ∧ Trapping layout program 68 after := by
  obtain ⟨gate, entered, entry, rest, back, leaving, delivered, calls, dispatched, gdtKept, idtKept, leaves, rfl⟩ := serviced
  obtain ⟨_, _, _, delivers, enters, _, returns⟩ := standing.takes remapped cpu handlers line
  cases delivered.symm.trans delivers
  cases calls.symm.trans enters
  obtain ⟨_, final, ends, resumes, again⟩ := returns actions back dispatched gdtKept idtKept
  cases leaves.symm.trans ends
  exact ⟨resumes, again⟩

theorem resumes_trans {first second third : Machine} (before : Resumes first second) (further : Resumes second third) :
    Resumes first third :=
  ⟨further.regs.trans before.regs, further.segs.trans before.segs, further.eip.trans before.eip,
    further.eflags.trans before.eflags⟩

/-- Some interrupt, with the handlers and the masks of that moment. -/
def Interrupted (H : Type) (cpu : Processor) (layout : Layout) (program : Program) (before after : System) : Prop :=
  ∃ (registered : List (Registration H)) (boot : Pics) (history : List PicCall) (line : Fin 16)
    (actions : List (Action H)), Serviced cpu layout program (handlersAfter registered)
      (history.foldl PicCall.apply (picInit boot)) line actions before after

/-- After any interrupts on any lines, the code they have interrupted is where it
was, and each line still leads to the handler that was registered for it last,
with interrupts off, an acknowledgement behind the handler and a way back. -/
theorem interrupts_are_transparent (cpu : Processor) (standing : Trapping layout program 68 system)
    (run : Relation.ReflTransGen (Interrupted H cpu layout program) system after) (registered : List (Registration H))
    (boot : Pics) (history : List PicCall) (line : Fin 16) :
    Resumes system.machine after.machine ∧ TablesLoaded layout program.address after ∧
    ∃ gate entered entry rest,
      after.deliver cpu (vectorOf (history.foldl PicCall.apply (picInit boot)) line) none = some (gate, entered) ∧
      execute cpu (program.codeAt gate.offset) entered.machine = .called .irqDispatch entry rest ∧
      entry.eflags.getLsbD 9 = false ∧
      ∀ actions back, Dispatched (handlersAfter registered) entry actions back →
        Untouched entry.mem back.mem layout.gdt 40 → Untouched entry.mem back.mem layout.idt 2048 →
        actions = ((lastNaming (Registration.names line) registered).bind Registration.handler).toList.map .ran ++
          (if 8 ≤ line.val then [.wrote (.cmd .slave) 0x20] else []) ++ [.wrote (.cmd .master) 0x20] ∧
        ∃ next, Serviced cpu layout program (handlersAfter registered)
          (history.foldl PicCall.apply (picInit boot)) line actions after next := by
  have stays : Resumes system.machine after.machine ∧ Trapping layout program 68 after := by
    induction run with
    | refl => exact ⟨⟨rfl, rfl, rfl, rfl⟩, standing⟩
    | tail _ step ih =>
        obtain ⟨resumes, standing⟩ := ih
        obtain ⟨registered, boot, history, line, actions, serviced⟩ := step
        obtain ⟨again, standing⟩ := serviced.keeps standing ((picInit_remapped boot).calls history)
        exact ⟨resumes_trans resumes again, standing⟩
  obtain ⟨resumes, standing⟩ := stays
  obtain ⟨entered, entry, rest, delivers, enters, off, returns⟩ :=
    standing.takes ((picInit_remapped boot).calls history) cpu (handlersAfter registered) line
  refine ⟨resumes, standing.tables, _, entered, entry, rest, delivers, enters, off, ?_⟩
  intro actions back dispatched gdtKept idtKept
  obtain ⟨acts, leaving, leaves, _⟩ := returns actions back dispatched gdtKept idtKept
  refine ⟨by rw [acts, irqDispatch_line, handlersAfter_eq], { entered with machine := leaving.iret }, ?_⟩
  exact ⟨_, entered, entry, rest, back, leaving, delivers, enters, dispatched, gdtKept, idtKept, leaves, rfl⟩

/-- The shortest C code: it runs the handlers and returns. -/
theorem Dispatched.dropped (handlers : IrqHandlers H) (entry : Machine) :
    Dispatched handlers entry (irqDispatch handlers (load32 entry.mem (entry.regs .esp + 4))) entry.drop :=
  ⟨rfl, ⟨rfl, by simp [Machine.drop, Machine.set], rfl, rfl⟩, fun _ _ => rfl⟩

/-- The clock of the slave strikes behind the keyboard. -/
theorem clock_after_keyboard : ∃ key next,
    Serviced quietProcessor sampleLayout sampleProgram (handlersAfter [⟨1, some 7⟩])
      (picInit fun _ => ⟨0, 0x08, .ready⟩) 1 [.ran 7, .wrote (.cmd .master) 0x20] sampleSystem key ∧
    Resumes sampleSystem.machine key.machine ∧
    Serviced quietProcessor sampleLayout sampleProgram (handlersAfter [⟨1, some 7⟩, ⟨8, some 9⟩])
      ([PicCall.mask 1].foldl PicCall.apply (picInit fun _ => ⟨0, 0x08, .ready⟩)) 8
      [.ran 9, .wrote (.cmd .slave) 0x20, .wrote (.cmd .master) 0x20] key next := by
  have standing := sampleSystem_trapping 68 (by decide) (by decide)
  obtain ⟨_, _, _, _, entry, _, _, _, _, returns⟩ := interrupts_are_transparent quietProcessor standing .refl
    [⟨1, some 7⟩] (fun _ => ⟨0, 0x08, .ready⟩) [] 1
  obtain ⟨actions, key, serviced⟩ := returns _ _ (Dispatched.dropped _ entry) (fun _ _ => rfl) (fun _ _ => rfl)
  rw [actions] at serviced
  have once : Interrupted Nat quietProcessor sampleLayout sampleProgram sampleSystem key :=
    ⟨[⟨1, some 7⟩], fun _ => ⟨0, 0x08, .ready⟩, [], 1, _, serviced⟩
  obtain ⟨resumes, _, _, _, entry, _, _, _, _, returns⟩ := interrupts_are_transparent quietProcessor standing
    (.single once) [⟨1, some 7⟩, ⟨8, some 9⟩] (fun _ => ⟨0, 0x08, .ready⟩) [.mask 1] 8
  obtain ⟨actions, next, again⟩ := returns _ _ (Dispatched.dropped _ entry) (fun _ _ => rfl) (fun _ _ => rfl)
  rw [actions] at again
  exact ⟨key, next, serviced, resumes, again⟩

end Lines

end DugOS.Boot
