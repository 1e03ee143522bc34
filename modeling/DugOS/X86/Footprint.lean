import DugOS.X86.Descriptors

namespace DugOS.X86

/-! What code that only saves state can change: the bytes below the stack pointer
that it starts with.

The interrupt flag is in bit 9 of `eflags`.
-/

/-- From `machine` on, `depth` bytes were pushed, and interrupts were not enabled. -/
structure Descends (machine after : Machine) (depth : Nat) : Prop where
  esp : after.regs .esp = machine.regs .esp - BitVec.ofNat 32 depth
  mem : ∀ byte, depth ≤ (byte - after.regs .esp).toNat → after.mem byte = machine.mem byte
  masked : machine.eflags.getLsbD 9 = false → after.eflags.getLsbD 9 = false

namespace Descends

variable {machine middle after : Machine} {first second depth : Nat}

theorem refl (machine : Machine) : Descends machine machine 0 :=
  ⟨(BitVec.sub_zero _).symm, fun _ _ => rfl, id⟩

theorem trans (above : Descends machine middle first) (below : Descends middle after second)
    (small : first + second ≤ 4294967296) : Descends machine after (first + second) := by
  refine ⟨?_, ?_, fun off => below.masked (above.masked off)⟩
  · rw [below.esp, above.esp, sub_sub_word, BitVec.ofNat_add]
  · intro byte outside
    rw [below.mem byte (by omega)]
    apply above.mem
    have distance : byte - middle.regs .esp = byte - after.regs .esp - BitVec.ofNat 32 second := by
      rw [below.esp]
      generalize BitVec.ofNat 32 second = size
      bv_omega
    have bound := (byte - after.regs .esp).isLt
    rw [distance, BitVec.toNat_sub, BitVec.toNat_ofNat]
    omega

/-- An object that the stack does not reach is untouched. -/
theorem untouched (down : Descends machine after depth) {object : Word} {size : Nat}
    (apart : Apart (machine.regs .esp - BitVec.ofNat 32 depth) depth object size) :
    Untouched machine.mem after.mem object size := by
  intro i inside
  apply down.mem
  rw [down.esp]
  exact apart.symm.distance inside

theorem push (machine : Machine) (value : Word) : Descends machine (machine.push value) 4 := by
  refine ⟨Machine.push_esp machine value, ?_, id⟩
  intro byte outside
  rw [Machine.push_esp] at outside
  exact store32_outside outside machine.mem value

theorem pushAll (machine : Machine) (values : List Word) (small : 4 * values.length ≤ 4294967296) :
    Descends machine (machine.pushAll values) (4 * values.length) := by
  induction values generalizing machine with
  | nil => exact refl machine
  | cons value rest ih =>
      rw [List.length_cons] at small ⊢
      have whole := (push machine value).trans (ih (machine.push value) (by omega)) (by omega)
      rw [Nat.mul_succ, Nat.add_comm]
      exact whole

end Descends

/-- How far an instruction moves the stack pointer down, if it is one that only
saves state. -/
def Op.depth : Op → Option Nat
  | cli | movAx _ | movSegAx _ => some 0
  | pushImm _ | pushReg _ | pushSeg _ => some 4
  | pusha => some 32
  | popSeg _ | popa | addEsp _ => none

theorem Op.descends {op : Op} {depth : Nat} (saves : op.depth = some depth) (cpu : Processor) (machine : Machine) :
    Descends machine (op.exec cpu machine) depth := by
  cases op with
  | cli =>
      cases saves
      refine ⟨(BitVec.sub_zero _).symm, fun _ _ => rfl, ?_⟩
      intro off
      simp only [exec, BitVec.getLsbD_and, off, Bool.false_and]
  | pushImm value =>
      cases saves
      exact .push machine value
  | pushReg reg =>
      cases saves
      exact .push machine _
  | pushSeg seg =>
      cases saves
      exact .push machine _
  | pusha =>
      cases saves
      exact .pushAll machine _ (by simp)
  | movAx value =>
      cases saves
      refine ⟨?_, fun _ _ => rfl, id⟩
      rw [BitVec.sub_zero]
      simp [exec, Machine.set]
  | movSegAx seg =>
      cases saves
      exact ⟨(BitVec.sub_zero _).symm, fun _ _ => rfl, id⟩
  | popSeg seg => cases saves
  | popa => cases saves
  | addEsp value => cases saves

/-- The depth of a list of such instructions. -/
def depthOf (list : List Op) : Option Nat :=
  list.foldr (fun op depth => op.depth.bind fun own => depth.map (own + ·)) (some 0)

theorem runOps_descends {list : List Op} {depth : Nat} (saves : depthOf list = some depth)
    (small : depth ≤ 4294967296) (cpu : Processor) (machine : Machine) :
    Descends machine (runOps cpu machine list) depth := by
  induction list generalizing machine depth with
  | nil =>
      cases saves
      exact .refl machine
  | cons op rest ih =>
      rw [depthOf, List.foldr_cons] at saves
      obtain ⟨own, isOwn, saves⟩ := Option.bind_eq_some_iff.mp saves
      obtain ⟨further, isRest, rfl⟩ := Option.map_eq_some_iff.mp saves
      exact (Op.descends isOwn cpu machine).trans (ih isRest (by omega) (op.exec cpu machine)) small

/-- Entry through an interrupt gate. -/
theorem Machine.interrupt_descends (cpu : Processor) (gate : Gate) (errorCode : Option Word) (machine : Machine) :
    Descends machine (machine.interrupt cpu gate errorCode) (if errorCode.isSome then 16 else 12) ∧
      (machine.interrupt cpu gate errorCode).eflags.getLsbD 9 = false := by
  have off : (machine.interrupt cpu gate errorCode).eflags.getLsbD 9 = false := by
    simp [interrupt]
  refine ⟨⟨?_, ?_, fun _ => off⟩, off⟩
  · rw [interrupt_esp]
    cases errorCode <;> rfl
  · intro byte outside
    cases errorCode with
    | none =>
        exact (Descends.pushAll machine [machine.eflags, machine.selectorWord cpu .cs, machine.eip] (by simp)).mem byte outside
    | some code =>
        exact (Descends.pushAll machine [machine.eflags, machine.selectorWord cpu .cs, machine.eip, code] (by simp)).mem
          byte outside

/-- A callee starts below the code that has called it. -/
theorem execute_descends {α : Type*} {list : List Op} {depth : Nat} (saves : depthOf list = some depth)
    (small : depth + 4 ≤ 4294967296) (cpu : Processor) (callee : α) (returnTo : Word) (rest : List (Line α))
    (machine : Machine) :
    ∃ entry, execute cpu (ops list ++ .call callee returnTo :: rest) machine = .called callee entry rest ∧
      Descends machine entry (depth + 4) := by
  refine ⟨(runOps cpu machine list).push returnTo, by rw [execute_ops]; rfl, ?_⟩
  exact (runOps_descends saves (by omega) cpu machine).trans (.push _ returnTo) small

end DugOS.X86
