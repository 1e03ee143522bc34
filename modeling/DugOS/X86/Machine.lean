import DugOS.X86.Memory
import Mathlib.Logic.Function.Basic

namespace DugOS.X86

/-! The part of a 32-bit x86 processor that saves and restores a machine state
around an interrupt in the same privilege level.

Code is a list of instructions that ends in `iret`. A call suspends it at the
first instruction of the callee, whose return puts it back to work.
-/

inductive Reg where
  | eax | ecx | edx | ebx | esp | ebp | esi | edi
deriving DecidableEq

inductive Seg where
  | cs | ds | es | fs | gs | ss
deriving DecidableEq

structure Machine where
  regs : Reg → Word
  segs : Seg → BitVec 16
  eip : Word
  eflags : Word
  mem : Memory

/-- What the documentation leaves to the processor, or this model leaves open:
the upper half of the word that a selector is pushed as, and the flags after an
addition. -/
structure Processor where
  upper : Machine → Seg → BitVec 16
  flags : Machine → Word

/-- The code that an interrupt vector leads to. -/
structure Gate where
  selector : BitVec 16
  offset : Word

namespace Machine

def set (machine : Machine) (reg : Reg) (value : Word) : Machine :=
  { machine with regs := Function.update machine.regs reg value }

def setSeg (machine : Machine) (seg : Seg) (selector : BitVec 16) : Machine :=
  { machine with segs := Function.update machine.segs seg selector }

def push (machine : Machine) (value : Word) : Machine :=
  let esp := machine.regs .esp - 4
  { machine.set .esp esp with mem := store32 machine.mem esp value }

def top (machine : Machine) : Word :=
  load32 machine.mem (machine.regs .esp)

/-- `esp` moved past the word on top. -/
def drop (machine : Machine) : Machine :=
  machine.set .esp (machine.regs .esp + 4)

def pop (machine : Machine) (reg : Reg) : Machine :=
  machine.drop.set reg machine.top

def popSeg (machine : Machine) (seg : Seg) : Machine :=
  machine.drop.setSeg seg (machine.top.setWidth 16)

def pushAll (machine : Machine) (values : List Word) : Machine :=
  values.foldl push machine

def pusha (machine : Machine) : Machine :=
  machine.pushAll ([Reg.eax, .ecx, .edx, .ebx, .esp, .ebp, .esi, .edi].map machine.regs)

def popa (machine : Machine) : Machine :=
  let machine := ((machine.pop .edi).pop .esi).pop .ebp
  (((machine.drop.pop .ebx).pop .edx).pop .ecx).pop .eax

def selectorWord (cpu : Processor) (machine : Machine) (seg : Seg) : Word :=
  cpu.upper machine seg ++ machine.segs seg

/-- Entry through an interrupt gate: the trap, interrupt, nested-task, resume and
virtual-8086 flags are cleared. -/
def interrupt (cpu : Processor) (gate : Gate) (errorCode : Option Word) (machine : Machine) : Machine :=
  let pushed := machine.pushAll
    ([machine.eflags, machine.selectorWord cpu .cs, machine.eip] ++ errorCode.toList)
  { pushed.setSeg .cs gate.selector with eip := gate.offset, eflags := machine.eflags &&& ~~~ 0x34300 }

def iret (machine : Machine) : Machine :=
  let eip := machine.top
  let machine := machine.drop
  let machine := machine.popSeg .cs
  { machine.drop with eip, eflags := machine.top }

end Machine

/-- The instructions that only change the machine. -/
inductive Op where
  | cli
  | pushImm (value : Word)
  | pushReg (reg : Reg)
  | pushSeg (seg : Seg)
  | popSeg (seg : Seg)
  | pusha
  | popa
  | movAx (value : BitVec 16)
  | movSegAx (seg : Seg)
  | addEsp (value : Word)
deriving DecidableEq

def Op.exec (cpu : Processor) (machine : Machine) : Op → Machine
  | cli => { machine with eflags := machine.eflags &&& ~~~ 0x200 }
  | pushImm value => machine.push value
  | pushReg reg => machine.push (machine.regs reg)
  | pushSeg seg => machine.push (machine.selectorWord cpu seg)
  | popSeg seg => machine.popSeg seg
  | pusha => machine.pusha
  | popa => machine.popa
  | movAx value => machine.set .eax ((machine.regs .eax).extractLsb 31 16 ++ value)
  | movSegAx seg => machine.setSeg seg ((machine.regs .eax).setWidth 16)
  | addEsp value => { machine.set .esp (machine.regs .esp + value) with eflags := cpu.flags machine }

def runOps (cpu : Processor) (machine : Machine) (ops : List Op) : Machine :=
  ops.foldl (Op.exec cpu) machine

/-- An instruction of the code; a call names its callee and the address of the
instruction behind it. -/
inductive Line (α : Type*) where
  | op (op : Op)
  | call (callee : α) (returnTo : Word)
  | iret

/-- Where a piece of code gets to: the first instruction of a callee, with the
code left to run, or its `iret`. -/
inductive Reached (α : Type*) where
  | called (callee : α) (entry : Machine) (rest : List (Line α))
  | leaving (machine : Machine)
  | ended (machine : Machine)

def execute {α : Type*} (cpu : Processor) : List (Line α) → Machine → Reached α
  | [], machine => .ended machine
  | .op op :: rest, machine => execute cpu rest (op.exec cpu machine)
  | .call callee returnTo :: rest, machine => .called callee (machine.push returnTo) rest
  | .iret :: _, machine => .leaving machine

def ops {α : Type*} (list : List Op) : List (Line α) :=
  list.map .op

/-- What a caller can rely on when a function returns. -/
structure Cdecl (entry back : Machine) : Prop where
  returned : back.regs .esp = entry.regs .esp + 4
  saved : ∀ reg ∈ [Reg.ebx, .esi, .edi, .ebp], back.regs reg = entry.regs reg
  code : back.segs .cs = entry.segs .cs
  stack : back.segs .ss = entry.segs .ss

variable {cpu : Processor} {machine other : Machine} {words : List Word} {word : Word} {reg : Reg}

section Stack

/-- The words on the stack, from its top on. -/
def Machine.Stack (machine : Machine) (words : List Word) : Prop :=
  WordsAt machine.mem (machine.regs .esp) words

namespace Machine

@[simp] theorem push_esp (machine : Machine) (value : Word) :
    (machine.push value).regs .esp = machine.regs .esp - 4 := by
  simp [push, set]

theorem push_reg (general : reg ≠ .esp) (value : Word) : (machine.push value).regs reg = machine.regs reg := by
  simp [push, set, general]

@[simp] theorem push_segs (machine : Machine) (value : Word) : (machine.push value).segs = machine.segs := rfl

theorem Stack.push (stack : machine.Stack words) (room : 4 * words.length + 4 ≤ 4294967296) (value : Word) :
    (machine.push value).Stack (value :: words) := by
  have pushed := WordsAt.push stack room value
  rwa [← push_esp machine value] at pushed

theorem Stack.top (stack : machine.Stack (word :: words)) : machine.top = word :=
  stack.1

theorem Stack.drop (stack : machine.Stack (word :: words)) : machine.drop.Stack words := by
  have rest := stack.2
  simpa [Stack, Machine.drop, set] using rest

theorem Stack.of_eq (stack : machine.Stack words) (mem : other.mem = machine.mem)
    (esp : other.regs .esp = machine.regs .esp) : other.Stack words := by
  rw [Stack, mem, esp]
  exact stack

theorem pushAll_esp (machine : Machine) (values : List Word) :
    (machine.pushAll values).regs .esp = machine.regs .esp - BitVec.ofNat 32 (4 * values.length) := by
  induction values generalizing machine with
  | nil => simp [pushAll]
  | cons value rest ih =>
      have step : (machine.pushAll (value :: rest)).regs .esp = _ := ih (machine.push value)
      rw [step, push_esp, List.length_cons, Nat.mul_succ, BitVec.ofNat_add]
      generalize BitVec.ofNat 32 (4 * rest.length) = size
      bv_omega

theorem pushAll_reg (general : reg ≠ .esp) (machine : Machine) (values : List Word) :
    (machine.pushAll values).regs reg = machine.regs reg := by
  induction values generalizing machine with
  | nil => rfl
  | cons value rest ih => exact (ih (machine.push value)).trans (push_reg general value)

@[simp] theorem pushAll_segs (machine : Machine) (values : List Word) :
    (machine.pushAll values).segs = machine.segs := by
  induction values generalizing machine with
  | nil => rfl
  | cons value rest ih => exact ih (machine.push value)

theorem Stack.pushAll {values : List Word} (stack : machine.Stack words)
    (room : 4 * (values.length + words.length) ≤ 4294967296) :
    (machine.pushAll values).Stack (values.reverse ++ words) := by
  induction values generalizing machine words with
  | nil => exact stack
  | cons value rest ih =>
      rw [List.length_cons] at room
      have next := ih (stack.push (by omega) value) (by rw [List.length_cons]; omega)
      rw [List.reverse_cons, List.append_assoc]
      exact next

theorem pop_stack (general : reg ≠ .esp) (stack : machine.Stack (word :: words)) :
    (machine.pop reg).Stack words ∧ (machine.pop reg).regs reg = word := by
  refine ⟨stack.drop.of_eq rfl ?_, ?_⟩
  · simp [pop, set, general.symm]
  · simp [pop, set, stack.top]

theorem pop_other {target : Reg} (general : reg ≠ .esp) (different : reg ≠ target) :
    (machine.pop target).regs reg = machine.regs reg := by
  simp [pop, drop, set, general, different]

theorem pop_esp (general : reg ≠ .esp) : (machine.pop reg).regs .esp = machine.regs .esp + 4 := by
  simp [pop, drop, set, general.symm]

theorem drop_other (general : reg ≠ .esp) : machine.drop.regs reg = machine.regs reg := by
  simp [drop, set, general]

/-- `popa` takes the registers back from where `pusha` has put them, but `esp`. -/
theorem popa_regs {values : Reg → Word} {skipped : Word}
    (stack : machine.Stack ([values .edi, values .esi, values .ebp, skipped] ++
      [values .ebx, values .edx, values .ecx, values .eax] ++ words)) :
    machine.popa.Stack words ∧ ∀ reg, reg ≠ .esp → machine.popa.regs reg = values reg := by
  obtain ⟨edi, ediValue⟩ := pop_stack (show Reg.edi ≠ .esp by simp) stack
  obtain ⟨esi, esiValue⟩ := pop_stack (show Reg.esi ≠ .esp by simp) edi
  obtain ⟨ebp, ebpValue⟩ := pop_stack (show Reg.ebp ≠ .esp by simp) esi
  obtain ⟨ebx, ebxValue⟩ := pop_stack (show Reg.ebx ≠ .esp by simp) ebp.drop
  obtain ⟨edx, edxValue⟩ := pop_stack (show Reg.edx ≠ .esp by simp) ebx
  obtain ⟨ecx, ecxValue⟩ := pop_stack (show Reg.ecx ≠ .esp by simp) edx
  obtain ⟨eax, eaxValue⟩ := pop_stack (show Reg.eax ≠ .esp by simp) ecx
  refine ⟨eax, ?_⟩
  intro reg general
  cases reg with
  | esp => exact absurd rfl general
  | eax => exact eaxValue
  | ecx => rw [popa, pop_other general (by simp), ecxValue]
  | edx => rw [popa, pop_other general (by simp), pop_other general (by simp), edxValue]
  | ebx => rw [popa, pop_other general (by simp), pop_other general (by simp), pop_other general (by simp), ebxValue]
  | ebp =>
      rw [popa, pop_other general (by simp), pop_other general (by simp), pop_other general (by simp),
        pop_other general (by simp), drop_other general, ebpValue]
  | esi =>
      rw [popa, pop_other general (by simp), pop_other general (by simp), pop_other general (by simp),
        pop_other general (by simp), drop_other general, pop_other general (by simp), esiValue]
  | edi =>
      rw [popa, pop_other general (by simp), pop_other general (by simp), pop_other general (by simp),
        pop_other general (by simp), drop_other general, pop_other general (by simp),
        pop_other general (by simp), ediValue]

theorem popa_esp (machine : Machine) : machine.popa.regs .esp = machine.regs .esp + 32 := by
  have step (machine : Machine) : machine.drop.regs .esp = machine.regs .esp + 4 := by simp [drop, set]
  rw [popa, pop_esp (by simp), pop_esp (by simp), pop_esp (by simp), pop_esp (by simp), step, pop_esp (by simp),
    pop_esp (by simp), pop_esp (by simp)]
  bv_omega

theorem popSeg_stack (seg : Seg) (stack : machine.Stack (word :: words)) :
    (machine.popSeg seg).Stack words ∧
      (machine.popSeg seg).segs = Function.update machine.segs seg (word.setWidth 16) := by
  refine ⟨stack.drop.of_eq rfl rfl, ?_⟩
  rw [popSeg, stack.top]
  rfl

theorem selectorWord_low (cpu : Processor) (machine : Machine) (seg : Seg) :
    (machine.selectorWord cpu seg).setWidth 16 = machine.segs seg :=
  BitVec.setWidth_append_eq_right

theorem pusha_stack (stack : machine.Stack words) (room : 4 * (8 + words.length) ≤ 4294967296) :
    machine.pusha.Stack ([machine.regs .edi, machine.regs .esi, machine.regs .ebp, machine.regs .esp] ++
      [machine.regs .ebx, machine.regs .edx, machine.regs .ecx, machine.regs .eax] ++ words) :=
  Stack.pushAll stack room

end Machine

/-- Instructions that only change the machine run before the rest of the code. -/
theorem execute_ops {α : Type*} (list : List Op) (rest : List (Line α)) (machine : Machine) :
    execute cpu (ops list ++ rest) machine = execute cpu rest (runOps cpu machine list) := by
  induction list generalizing machine with
  | nil => rfl
  | cons op list ih => exact ih (op.exec cpu machine)

theorem runOps_append (first second : List Op) (machine : Machine) :
    runOps cpu machine (first ++ second) = runOps cpu (runOps cpu machine first) second :=
  List.foldl_append

end Stack

section Control

variable {gate : Gate} {entry back : Machine}

theorem Machine.interrupt_stack (cpu : Processor) (gate : Gate) (errorCode : Option Word) (machine : Machine) :
    (machine.interrupt cpu gate errorCode).Stack
      (errorCode.toList ++ [machine.eip, machine.selectorWord cpu .cs, machine.eflags]) := by
  have empty : machine.Stack [] := trivial
  cases errorCode with
  | none => exact (empty.pushAll (by simp)).of_eq rfl rfl
  | some code => exact (empty.pushAll (by simp)).of_eq rfl rfl

theorem Machine.interrupt_esp (cpu : Processor) (gate : Gate) (errorCode : Option Word) (machine : Machine) :
    (machine.interrupt cpu gate errorCode).regs .esp =
      machine.regs .esp - if errorCode.isSome then 16 else 12 := by
  cases errorCode with
  | none => exact pushAll_esp machine [machine.eflags, machine.selectorWord cpu .cs, machine.eip]
  | some code => exact pushAll_esp machine [machine.eflags, machine.selectorWord cpu .cs, machine.eip, code]

theorem Machine.interrupt_reg (cpu : Processor) (gate : Gate) (errorCode : Option Word) (machine : Machine)
    (general : reg ≠ .esp) : (machine.interrupt cpu gate errorCode).regs reg = machine.regs reg :=
  pushAll_reg general machine _

theorem Machine.interrupt_segs (cpu : Processor) (gate : Gate) (errorCode : Option Word) (machine : Machine) :
    (machine.interrupt cpu gate errorCode).segs = Function.update machine.segs .cs gate.selector := by
  simp [interrupt, setSeg]

/-- `iret` from a stack that holds what the interrupt has pushed. -/
theorem Machine.iret_spec {eip cs eflags : Word} (stack : machine.Stack (eip :: cs :: eflags :: words)) :
    machine.iret.eip = eip ∧ machine.iret.segs = Function.update machine.segs .cs (cs.setWidth 16) ∧
      machine.iret.eflags = eflags ∧
      machine.iret.regs = Function.update machine.regs .esp (machine.regs .esp + 12) := by
  obtain ⟨rest, segs⟩ := popSeg_stack .cs stack.drop
  refine ⟨stack.top, segs, rest.top, ?_⟩
  funext reg
  by_cases isEsp : reg = .esp
  · subst isEsp
    change machine.regs .esp + 4 + 4 + 4 = _
    rw [Function.update_self]
    bv_omega
  · rw [Function.update_of_ne isEsp]
    simp [iret, popSeg, setSeg, drop, set, isEsp]

/-- The bytes from `address` on are the same. -/
def Untouched (before after : Memory) (address : Word) (count : Nat) : Prop :=
  ∀ i < count, after (address + BitVec.ofNat 32 i) = before (address + BitVec.ofNat 32 i)

/-- After the return of a function the words above its argument are on the stack
again. -/
theorem Cdecl.stack_back {returnTo argument : Word} (returns : Cdecl entry back)
    (stack : entry.Stack (returnTo :: argument :: words))
    (kept : Untouched entry.mem back.mem (entry.regs .esp + 8) (4 * words.length)) :
    back.Stack (back.top :: words) := by
  have above : WordsAt entry.mem (entry.regs .esp + 4 + 4) words := stack.2.2
  have same : entry.regs .esp + 4 + 4 = entry.regs .esp + 8 := by bv_omega
  refine ⟨rfl, ?_⟩
  rw [returns.returned, same]
  rw [same] at above
  exact above.congr kept

end Control

end DugOS.X86
