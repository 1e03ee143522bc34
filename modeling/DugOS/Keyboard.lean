import DugOS.Data.Buffer
import DugOS.Data.Ring
import DugOS.Data.Run

namespace DugOS.Keyboard

open Data

/-! The ring buffer of `keyboard.c` between the interrupt handler, which puts
characters into it, and `kbd_getchar`, which takes them out.

An interrupt can come between any two steps of the reader, so `kbd_getchar` is
cut into the steps at which it looks at the shared data.
-/

abbrev kbdBufSize : Nat := 256

structure KbdState where
  kbdBuf : Buffer kbdBufSize
  kbdHead : Nat
  kbdTail : Nat

/-- The test on which `kbd_put` drops the character. -/
def KbdState.Full (kbd : KbdState) : Prop :=
  (kbd.kbdHead + 1) % kbdBufSize = kbd.kbdTail

instance (kbd : KbdState) : Decidable kbd.Full :=
  inferInstanceAs (Decidable ((kbd.kbdHead + 1) % kbdBufSize = kbd.kbdTail))

/-- `none` when the character would be stored outside of `kbd_buf`. -/
def kbdPut (kbd : KbdState) (c : UInt8) : Option KbdState :=
  let nextHead := (kbd.kbdHead + 1) % kbdBufSize
  if nextHead ≠ kbd.kbdTail then
    (kbd.kbdBuf.store kbd.kbdHead [c]).map fun buf => { kbd with kbdBuf := buf, kbdHead := nextHead }
  else some kbd

def kbdHasChar (kbd : KbdState) : Bool :=
  kbd.kbdHead ≠ kbd.kbdTail

/-- Where `kbd_getchar` stands: before the test of its loop, before the load,
or before the store to `kbd_tail` with the character it is going to return. -/
inductive Reader where
  | test
  | load
  | advance (c : UInt8)
deriving DecidableEq

structure Machine where
  kbd : KbdState
  reader : Reader

inductive KbdEvent where
  | put (c : UInt8)
  | test
  | load
  | advance
deriving DecidableEq

inductive KbdStep : Machine → KbdEvent → Machine → Prop
  | put {kbd after reader c} (stored : kbdPut kbd c = some after) :
      KbdStep ⟨kbd, reader⟩ (.put c) ⟨after, reader⟩
  -- `hlt` returns at the next interrupt, and the test is made again
  | wait {kbd} (none : kbdHasChar kbd = false) : KbdStep ⟨kbd, .test⟩ .test ⟨kbd, .test⟩
  | ready {kbd} (some : kbdHasChar kbd = true) : KbdStep ⟨kbd, .test⟩ .test ⟨kbd, .load⟩
  | load {kbd c} (loaded : kbd.kbdBuf.bytes[kbd.kbdTail]? = some c) :
      KbdStep ⟨kbd, .load⟩ .load ⟨kbd, .advance c⟩
  | advance {kbd c} : KbdStep ⟨kbd, .advance c⟩ .advance
      ⟨{ kbd with kbdTail := (kbd.kbdTail + 1) % kbdBufSize }, .test⟩

/-- The characters that `kbd_put` stored, in order. -/
def accepted (trace : List (Transition Machine KbdEvent)) : List UInt8 :=
  trace.filterMap fun step =>
    match step.label with
    | .put c => if step.before.kbd.Full then none else some c
    | _ => none

/-- The characters that `kbd_getchar` returned, in order. -/
def returned (trace : List (Transition Machine KbdEvent)) : List UInt8 :=
  trace.filterMap fun step =>
    match step.label, step.before.reader with
    | .advance, .advance c => some c
    | _, _ => none

variable {kbd after : KbdState} {c : UInt8} {queue : List UInt8} {machine : Machine}
  {trace : List (Transition Machine KbdEvent)}

/-- The buffer holds the accepted characters that were not released yet. -/
def KbdState.Queue (kbd : KbdState) (queue : List UInt8) : Prop :=
  Ring kbd.kbdBuf.bytes kbd.kbdTail kbd.kbdHead queue

/-- What the reader knows of the queue, whatever is put behind it. -/
def Reader.Knows (queue : List UInt8) : Reader → Prop
  | .test => True
  | .load => queue ≠ []
  | .advance c => queue.head? = some c

section Put

theorem KbdState.Queue.full_iff (held : kbd.Queue queue) : kbd.Full ↔ queue.length = 255 := by
  have met := Ring.full_iff held
  rw [kbd.kbdBuf.length_eq] at met
  rw [KbdState.Full, met]
  exact Nat.succ_inj

theorem kbdPut_full (full : kbd.Full) (c : UInt8) : kbdPut kbd c = some kbd := by
  simp only [KbdState.Full] at full
  simp [kbdPut, full]

theorem kbdPut_space (held : kbd.Queue queue) (space : ¬ kbd.Full) (c : UInt8) :
    ∃ after, kbdPut kbd c = some after ∧ after.kbdHead = (kbd.kbdHead + 1) % kbdBufSize ∧
      after.Queue (queue ++ [c]) := by
  have inside : kbd.kbdHead < kbdBufSize := kbd.kbdBuf.length_eq ▸ Ring.head_lt held
  obtain ⟨buf, stored⟩ := kbd.kbdBuf.store_exists kbd.kbdHead [c] inside
  refine ⟨{ kbd with kbdBuf := buf, kbdHead := (kbd.kbdHead + 1) % kbdBufSize }, ?_, rfl, ?_⟩
  · simp only [KbdState.Full] at space
    simp [kbdPut, space, stored]
  · have bytes : buf.bytes = kbd.kbdBuf.bytes.set kbd.kbdHead c := by
      rw [Buffer.store_bytes stored, List.set_eq_take_append_cons_drop, if_pos (by simpa using inside)]
      simp
    have next := Ring.put held (by rwa [kbd.kbdBuf.length_eq]) c
    rw [kbd.kbdBuf.length_eq, ← bytes] at next
    exact next

theorem kbdPut_queue (held : kbd.Queue queue) (stored : kbdPut kbd c = some after) :
    after.Queue (queue ++ if kbd.Full then [] else [c]) := by
  by_cases full : kbd.Full
  · cases (kbdPut_full full c).symm.trans stored
    rwa [if_pos full, List.append_nil]
  · obtain ⟨other, again, _, next⟩ := kbdPut_space held full c
    cases again.symm.trans stored
    rwa [if_neg full]

theorem kbdHasChar_iff (held : kbd.Queue queue) : kbdHasChar kbd = true ↔ queue ≠ [] := by
  rw [kbdHasChar, decide_eq_true_iff, ne_eq, Ring.head_eq_tail_iff held]

theorem Reader.Knows.append {reader : Reader} (knows : reader.Knows queue) (more : List UInt8) :
    reader.Knows (queue ++ more) := by
  cases reader with
  | test => trivial
  | load => exact List.append_ne_nil_of_left_ne_nil knows more
  | advance c => exact List.head?_append.trans (by rw [knows]; rfl)

end Put

section Runs

theorem accepted_snoc (trace : List (Transition Machine KbdEvent)) (step : Transition Machine KbdEvent) :
    accepted (trace ++ [step]) = accepted trace ++ accepted [step] :=
  List.filterMap_append ..

theorem returned_snoc (trace : List (Transition Machine KbdEvent)) (step : Transition Machine KbdEvent) :
    returned (trace ++ [step]) = returned trace ++ returned [step] :=
  List.filterMap_append ..

/-- The characters between what was returned and what was accepted are the
queue in the buffer. -/
structure Consistent (trace : List (Transition Machine KbdEvent)) (machine : Machine) (queue : List UInt8) :
    Prop where
  order : accepted trace = returned trace ++ queue
  held : machine.kbd.Queue queue
  knows : machine.reader.Knows queue

theorem KbdStep.consistent {next : Machine} {event : KbdEvent} (step : KbdStep machine event next)
    (consistent : Consistent trace machine queue) :
    ∃ queue, Consistent (trace ++ [⟨machine, event, next⟩]) next queue := by
  obtain ⟨order, held, knows⟩ := consistent
  cases step with
  | put stored =>
      rename_i kbd after reader c
      refine ⟨_, ?_, kbdPut_queue held stored, knows.append _⟩
      rw [accepted_snoc, returned_snoc, order]
      by_cases full : kbd.Full
      · simp [accepted, returned, full]
      · simp [accepted, returned, full]
  | wait => exact ⟨queue, by simpa [accepted_snoc, returned_snoc, accepted, returned] using order, held, knows⟩
  | ready some =>
      exact ⟨queue, by simpa [accepted_snoc, returned_snoc, accepted, returned] using order, held,
        (kbdHasChar_iff held).mp some⟩
  | load loaded =>
      cases queue with
      | nil => exact absurd rfl knows
      | cons front rest =>
          have first := Ring.front_eq held
          cases first.symm.trans loaded
          exact ⟨_, by simpa [accepted_snoc, returned_snoc, accepted, returned] using order, held, rfl⟩
  | advance =>
      cases queue with
      | nil => cases knows
      | cons front rest =>
          cases knows
          have released := Ring.release held
          rw [Buffer.length_eq] at released
          refine ⟨rest, ?_, released, trivial⟩
          rw [accepted_snoc, returned_snoc, order]
          simp [accepted, returned]

theorem consistent_of_run (run : Run KbdStep ⟨kbd, .test⟩ trace machine) (empty : kbd.kbdHead = kbd.kbdTail)
    (inside : kbd.kbdTail < 256) : ∃ queue, Consistent trace machine queue := by
  induction run with
  | done =>
      have held : Ring kbd.kbdBuf.bytes kbd.kbdTail kbd.kbdTail [] := Ring.empty (by simpa using inside)
      refine ⟨[], rfl, ?_, trivial⟩
      rw [KbdState.Queue, empty]
      exact held
  | next _ step ih =>
      obtain ⟨queue, consistent⟩ := ih
      exact step.consistent consistent

/-- Whatever the interleaving, the reader gets the accepted characters in order,
and a character is dropped exactly when 255 of them wait for it. -/
theorem keyboard_fifo (run : Run KbdStep ⟨kbd, .test⟩ trace machine) (empty : kbd.kbdHead = kbd.kbdTail)
    (inside : kbd.kbdTail < 256) :
    machine.kbd.kbdHead < 256 ∧ machine.kbd.kbdTail < 256 ∧ returned trace <+: accepted trace ∧
      ∀ c, ∃ after, kbdPut machine.kbd c = some after ∧
        (after = machine.kbd ↔ (accepted trace).length = (returned trace).length + 255) := by
  obtain ⟨queue, order, held, _⟩ := consistent_of_run run empty inside
  have headInside : machine.kbd.kbdHead < 256 := by simpa using Ring.head_lt held
  have tailInside : machine.kbd.kbdTail < 256 := by simpa using Ring.tail_lt held
  refine ⟨headInside, tailInside, ⟨queue, order.symm⟩, ?_⟩
  intro c
  have waiting : (accepted trace).length = (returned trace).length + 255 ↔ queue.length = 255 := by
    rw [order, List.length_append]
    omega
  rw [waiting, ← held.full_iff]
  by_cases full : machine.kbd.Full
  · exact ⟨machine.kbd, kbdPut_full full c, by simp [full]⟩
  · obtain ⟨after, stored, moved, _⟩ := kbdPut_space held full c
    refine ⟨after, stored, ?_⟩
    simp only [full, iff_false]
    intro same
    subst same
    have same : machine.kbd.kbdHead = (machine.kbd.kbdHead + 1) % 256 := moved
    omega

/-- Two characters put around the wrap of the ring, the second one between the
load and the store of the reader. -/
theorem keyboard_fifo_wrap : ∃ trace machine, Run KbdStep ⟨⟨.zeros 256, 255, 255⟩, .test⟩ trace machine ∧
    trace.map Transition.label = [.put 97, .test, .load, .put 98, .advance] ∧
    returned trace = [97] ∧ accepted trace = [97, 98] ∧ returned trace <+: accepted trace := by
  have start : KbdState.Queue ⟨.zeros 256, 255, 255⟩ [] := Ring.empty (by simp)
  have space : ¬ KbdState.Full ⟨.zeros 256, 255, 255⟩ := by simp [start.full_iff]
  obtain ⟨one, putOne, _, heldOne⟩ := kbdPut_space start space 97
  have spaceOne : ¬ one.Full := by simp [heldOne.full_iff]
  obtain ⟨two, putTwo, _, heldTwo⟩ := kbdPut_space heldOne spaceOne 98
  have run := ((((Run.done.next (KbdStep.put putOne)).next
    (.ready ((kbdHasChar_iff heldOne).mpr (by simp)))).next (.load (Ring.front_eq heldOne))).next
    (.put putTwo)).next .advance
  refine ⟨_, _, run, rfl, by simp [returned], by simp [accepted, space, spaceOne], ?_⟩
  exact (keyboard_fifo run rfl (by decide)).2.2.1

end Runs

end DugOS.Keyboard
