import DugOS.Interrupts.Exceptions
import DugOS.Interrupts.Pic

namespace DugOS.Interrupts

open Data X86

/-! Hardware interrupts: the IRQ stubs, the handler table and `irq_dispatch`.

The handlers and `irq_dispatch` are compiled C. The model says what they do in
terms of the source, and relies on the calling convention for the registers.
-/

section Source

def irqStub (returnTo irq : Word) : List (Line Callee) :=
  ops (saveRegisters ++ [.pushImm irq]) ++ .call .irqDispatch returnTo :: (ops restoreRegisters ++ [.iret])

/-- The 16 instantiations. -/
def irqStubs (returnTo : Word) : List (List (Line Callee)) :=
  [0, 1, 2, 3, 4, 5, 6, 7, 8, 9, 10, 11, 12, 13, 14, 15].map (irqStub returnTo)

/-- `irq_handlers`, with `none` for the null pointer. -/
abbrev IrqHandlers (H : Type*) := Fin 16 → Option H

def irqRegister {H : Type*} (handlers : IrqHandlers H) (irq : UInt8) (handler : Option H) : IrqHandlers H :=
  if inside : irq.toNat < 16 then Function.update handlers ⟨irq.toNat, inside⟩ handler else handlers

/-- What `irq_dispatch` does, in order. -/
inductive Action (H : Type*) where
  | ran (handler : H)
  | wrote (port : Port) (value : UInt8)

def irqDispatch {H : Type*} (handlers : IrqHandlers H) (irq : Word) : List (Action H) :=
  (if inside : irq.toNat < 16 then (handlers ⟨irq.toNat, inside⟩).toList.map .ran else []) ++
    (picEoi (UInt8.ofNat irq.toNat)).map fun out => .wrote out.1 out.2

end Source

/-- A call of `irq_register`. -/
structure Registration (H : Type*) where
  irq : UInt8
  handler : Option H

def Registration.names {H : Type*} (line : Fin 16) (call : Registration H) : Bool :=
  call.irq.toNat = line

/-- The table after the calls, from the null pointers in `.bss`. -/
def handlersAfter {H : Type*} (calls : List (Registration H)) : IrqHandlers H :=
  calls.foldl (fun handlers call => irqRegister handlers call.irq call.handler) (fun _ => none)

/-- A run of the compiled `irq_dispatch`, from its first instruction to its return:
it acts on the argument above the return address, and obeys the calling
convention, as the handler it calls does, so that the words above the argument
stay as they are. -/
structure Dispatched {H : Type*} (handlers : IrqHandlers H) (entry : Machine) (actions : List (Action H))
    (back : Machine) :
    Prop where
  acts : actions = irqDispatch handlers (load32 entry.mem (entry.regs .esp + 4))
  returns : Cdecl entry back
  kept : Untouched entry.mem back.mem (entry.regs .esp + 8) 60

variable {H : Type*} {cpu : Processor} {machine : Machine} {line : Fin 16}

theorem irqRegister_line (handlers : IrqHandlers H) (call : Registration H) (line : Fin 16) :
    irqRegister handlers call.irq call.handler line = if call.names line then call.handler else handlers line := by
  rw [irqRegister]
  by_cases inside : call.irq.toNat < 16
  · rw [dif_pos inside]
    by_cases named : call.irq.toNat = line.val
    · have same : line = ⟨call.irq.toNat, inside⟩ := Fin.ext named.symm
      rw [same, Function.update_self]
      simp [Registration.names]
    · have other : line ≠ ⟨call.irq.toNat, inside⟩ := fun same => named (congrArg Fin.val same).symm
      rw [Function.update_of_ne other]
      simp [Registration.names, named]
  · have other : call.irq.toNat ≠ line.val := by omega
    rw [dif_neg inside]
    simp [Registration.names, other]

/-- Each line has the handler that was registered for it last. -/
theorem handlersAfter_eq (calls : List (Registration H)) (line : Fin 16) :
    handlersAfter calls line = (lastNaming (Registration.names line) calls).bind Registration.handler := by
  have any : ∀ (handlers : IrqHandlers H) (call : Registration H), True → True := fun _ _ _ => trivial
  have sets := fun (handlers : IrqHandlers H) call (_ : True) => irqRegister_line handlers call line
  apply (foldl_lastNaming (fun handlers => handlers line) Registration.handler trivial any sets calls).2.trans
  cases lastNaming (Registration.names line) calls <;> rfl

theorem irqDispatch_line (handlers : IrqHandlers H) (line : Fin 16) : irqDispatch handlers (BitVec.ofNat 32 line) =
    (handlers line).toList.map .ran ++ (if 8 ≤ line.val then [.wrote (.cmd .slave) 0x20] else []) ++
      [.wrote (.cmd .master) 0x20] := by
  have number : (BitVec.ofNat 32 line.val).toNat = line.val := by
    rw [BitVec.toNat_ofNat]
    omega
  have upper : ∀ line : Fin 16, 8 ≤ UInt8.ofNat line ↔ 8 ≤ line.val := by decide
  simp only [irqDispatch, number, line.isLt, dif_pos, Fin.eta, picEoi, upper]
  split <;> simp

theorem irqStubs_get (returnTo : Word) (line : Fin 16) :
    (irqStubs returnTo).get line = irqStub returnTo (BitVec.ofNat 32 line) := by
  have each : ∀ line : Fin 16, [0, 1, 2, 3, 4, 5, 6, 7, 8, 9, 10, 11, 12, 13, 14, 15][line.val]? =
      some (BitVec.ofNat 32 line) := by decide
  have present : (irqStubs returnTo)[line.val]? = some ((irqStubs returnTo).get line) :=
    List.getElem?_eq_getElem line.isLt
  have mapped : (irqStubs returnTo)[line.val]? = some (irqStub returnTo (BitVec.ofNat 32 line)) := by
    rw [irqStubs, List.getElem?_map, each]
    rfl
  exact Option.some.inj (present.symm.trans mapped)

/-- The stub runs the registered handler and acknowledges the interrupt, and the
interrupted code goes on with all its registers. -/
theorem irq_transparent (cpu : Processor) (gate : Gate) (returnTo : Word) (calls : List (Registration H)) (line : Fin 16)
    (machine : Machine) :
    ∃ entry rest, execute cpu ((irqStubs returnTo).get line) (machine.interrupt cpu gate none) =
        .called .irqDispatch entry rest ∧
      ∀ actions back, Dispatched (handlersAfter calls) entry actions back →
        actions = ((lastNaming (Registration.names line) calls).bind Registration.handler).toList.map .ran ++
          (if 8 ≤ line.val then [.wrote (.cmd .slave) 0x20] else []) ++ [.wrote (.cmd .master) 0x20] ∧
        ∃ leaving, execute cpu rest back = .leaving leaving ∧ Resumes machine leaving.iret := by
  have start := Machine.interrupt_stack cpu gate none machine
  have pushes (saved : Machine) (_ : saved.regs .esp = (machine.interrupt cpu gate none).regs .esp - 48) :
      (Op.pushImm (BitVec.ofNat 32 line)).exec cpu saved = saved.push (BitVec.ofNat 32 line) := rfl
  obtain ⟨entry, frame, calling, saves, stack, esp, cs, ss⟩ := stub_calls .irqDispatch returnTo
    (ops restoreRegisters ++ [.iret]) start (by simp) pushes
  have regs := fun reg (general : reg ≠ Reg.esp) => Machine.interrupt_reg cpu gate none machine general
  have segs := Machine.interrupt_segs cpu gate none machine
  have pushed : (machine.interrupt cpu gate none).regs .esp = machine.regs .esp - 12 :=
    Machine.interrupt_esp cpu gate none machine
  refine ⟨entry, _, by rw [irqStubs_get]; exact calling, ?_⟩
  intro actions back dispatched
  generalize machine.interrupt cpu gate none = interrupted at *
  have argument : load32 entry.mem (entry.regs .esp + 4) = BitVec.ofNat 32 line := stack.2.1
  refine ⟨by rw [dispatched.acts, argument, irqDispatch_line, handlersAfter_eq], ?_⟩
  have again := dispatched.returns.stack_back stack (by
    rw [List.length_append, saves.length]
    exact dispatched.kept)
  obtain ⟨rest, general, popped, selectors⟩ := restoreRegisters_spec cpu saves again
  have restored : Restored cpu machine (runOps cpu back restoreRegisters) := by
    refine ⟨?_, ?_, restored_segs segs (dispatched.returns.stack.trans ss) selectors, rest⟩
    · intro reg isGeneral
      rw [general reg isGeneral, regs reg isGeneral]
    · rw [popped, dispatched.returns.returned, esp, sub_add_word, sub_add_word, pushed]
      exact BitVec.sub_zero _
  exact ⟨_, by rw [execute_ops]; rfl, restored.resumes⟩

/-- The keyboard line, with a dispatcher that comes back at once. -/
theorem keyboard_irq_transparent : ∃ entry rest leaving,
    execute quietProcessor ((irqStubs 0x100030).get (1 : Fin 16))
        (sampleMachine.interrupt quietProcessor ⟨0x08, 0x100040⟩ none) =
      .called .irqDispatch entry rest ∧
    Dispatched (handlersAfter [⟨1, some 7⟩]) entry [.ran 7, .wrote (.cmd .master) 0x20] entry.drop ∧
    execute quietProcessor rest entry.drop = .leaving leaving ∧ Resumes sampleMachine leaving.iret := by
  obtain ⟨entry, rest, calling, returns⟩ :=
    irq_transparent quietProcessor ⟨0x08, 0x100040⟩ 0x100030 [⟨1, some 7⟩] 1 sampleMachine
  have back : Cdecl entry entry.drop := ⟨rfl, by simp [Machine.drop, Machine.set], rfl, rfl⟩
  have dispatched : Dispatched (handlersAfter [⟨1, some 7⟩]) entry _ entry.drop := ⟨rfl, back, fun _ _ => rfl⟩
  obtain ⟨actions, leaving, leaves, resumes⟩ := returns _ _ dispatched
  refine ⟨entry, rest, leaving, calling, ?_, leaves, resumes⟩
  rw [actions] at dispatched
  exact dispatched

end DugOS.Interrupts
