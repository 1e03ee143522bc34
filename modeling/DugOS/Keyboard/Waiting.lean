import DugOS.Keyboard.Scancodes

namespace DugOS.Keyboard

open Data

/-! `kbd_getchar` on a processor that sleeps, and the scan codes that wake it.

When the loop finds the ring empty it executes `hlt`, which sleeps until the next
interrupt. The test and `hlt` are two instructions, and an interrupt between
them fills the ring without waking anything.
-/

/-- Where `kbd_getchar` stands. -/
inductive Sleeper where
  | test
  -- the ring was empty, and `hlt` is the next instruction
  | halt
  | asleep
  | load
  | advance (c : UInt8)
deriving DecidableEq

structure Listener where
  kbd : KbdState
  mods : Modifiers
  sleeper : Sleeper

/-- Interrupts, from the keyboard or from elsewhere, and the steps of the reader. -/
inductive ListenEvent where
  | scan (sc : UInt8)
  | other
  | test
  | halt
  | load
  | advance
deriving DecidableEq

/-- The events that come from outside. -/
def ListenEvent.Interrupts : ListenEvent → Prop
  | scan _ => True
  | other => True
  | _ => False

/-- An interrupt ends `hlt`, and the test is made again. -/
def Sleeper.wake : Sleeper → Sleeper
  | asleep => test
  | sleeper => sleeper

inductive ListenStep : Listener → ListenEvent → Listener → Prop
  | scan {kbd mods sleeper sc after left} (handled : kbdIsr kbd mods sc = some (after, left)) :
      ListenStep ⟨kbd, mods, sleeper⟩ (.scan sc) ⟨after, left, sleeper.wake⟩
  | other {kbd mods sleeper} : ListenStep ⟨kbd, mods, sleeper⟩ .other ⟨kbd, mods, sleeper.wake⟩
  | empty {kbd mods} (none : kbdHasChar kbd = false) : ListenStep ⟨kbd, mods, .test⟩ .test ⟨kbd, mods, .halt⟩
  | ready {kbd mods} (some : kbdHasChar kbd = true) : ListenStep ⟨kbd, mods, .test⟩ .test ⟨kbd, mods, .load⟩
  | halt {kbd mods} : ListenStep ⟨kbd, mods, .halt⟩ .halt ⟨kbd, mods, .asleep⟩
  | load {kbd mods c} (loaded : kbd.kbdBuf.bytes[kbd.kbdTail]? = some c) :
      ListenStep ⟨kbd, mods, .load⟩ .load ⟨kbd, mods, .advance c⟩
  | advance {kbd mods c} : ListenStep ⟨kbd, mods, .advance c⟩ .advance
      ⟨{ kbd with kbdTail := (kbd.kbdTail + 1) % kbdBufSize }, mods, .test⟩

/-- The driver's data in `.bss`. -/
def bootListener : Listener :=
  ⟨⟨.zeros kbdBufSize, 0, 0⟩, bootModifiers, .test⟩

/-- The modifiers after scan codes, and the characters that they pass to
`kbd_put`. -/
def decodeAll (mods : Modifiers) (codes : List UInt8) : Modifiers × List UInt8 :=
  codes.foldl (fun typed sc => ((decodeScancode typed.1 sc).1, typed.2 ++ (decodeScancode typed.1 sc).2.toList))
    (mods, [])

abbrev Listening := List (Transition Listener ListenEvent)

def ListenEvent.code : ListenEvent → Option UInt8
  | scan sc => some sc
  | _ => none

/-- The scan codes that came, in order. -/
def codes (trace : Listening) : List UInt8 :=
  trace.filterMap fun step => step.label.code

/-- The character that an interrupt passes to `kbd_put`. -/
def passed (step : Transition Listener ListenEvent) : Option UInt8 :=
  step.label.code.bind fun sc => (decodeScancode step.before.mods sc).2

/-- The characters that found room in the ring. -/
def kept (trace : Listening) : List UInt8 :=
  trace.filterMap fun step => if step.before.kbd.Full then none else passed step

/-- The characters that `kbd_getchar` returned, in order. -/
def received (trace : Listening) : List UInt8 :=
  trace.filterMap fun step =>
    match step.label, step.before.sleeper with
    | .advance, .advance c => some c
    | _, _ => none

/-- The characters that came between the last test and `hlt`. -/
def missed (trace : Listening) : List UInt8 :=
  trace.foldl (fun held step =>
    if step.label = .test then []
    else if step.before.sleeper = .halt then held ++ kept [step]
    else held) []

/-- What the reader knows of the queue. -/
def Sleeper.Knows (queue : List UInt8) : Sleeper → Prop
  | .load => queue ≠ []
  | .advance c => queue.head? = some c
  | _ => True

variable {kbd after : KbdState} {mods left : Modifiers} {sleeper : Sleeper} {sc c : UInt8} {queue rest : List UInt8}
  {listener next final : Listener} {event : ListenEvent} {trace : Listening}

section Interrupts

theorem decodeAll_snoc (mods : Modifiers) (codes : List UInt8) (sc : UInt8) :
    decodeAll mods (codes ++ [sc]) = ((decodeScancode (decodeAll mods codes).1 sc).1,
      (decodeAll mods codes).2 ++ (decodeScancode (decodeAll mods codes).1 sc).2.toList) := by
  rw [decodeAll, List.foldl_append]
  rfl

/-- The handler, from any state of the ring. -/
theorem kbdIsr_queue (held : kbd.Queue queue) (handled : kbdIsr kbd mods sc = some (after, left)) :
    left = (decodeScancode mods sc).1 ∧
      after.Queue (queue ++ if kbd.Full then [] else (decodeScancode mods sc).2.toList) := by
  rw [kbdIsr] at handled
  rcases decoded : decodeScancode mods sc with ⟨changed, put⟩
  rw [decoded] at handled
  cases put with
  | none =>
      cases handled
      refine ⟨rfl, ?_⟩
      simpa using held
  | some c =>
      obtain ⟨stored, put, same⟩ := Option.map_eq_some_iff.mp handled
      cases same
      exact ⟨rfl, kbdPut_queue held put⟩

theorem Sleeper.Knows.wake (knows : sleeper.Knows queue) (more : List UInt8) : sleeper.wake.Knows (queue ++ more) := by
  cases sleeper with
  | test => trivial
  | halt => trivial
  | asleep => trivial
  | load => exact List.append_ne_nil_of_left_ne_nil knows more
  | advance c => exact List.head?_append.trans (by rw [knows]; rfl)

end Interrupts

section Runs

theorem codes_snoc (trace : Listening) (step : Transition Listener ListenEvent) :
    codes (trace ++ [step]) = codes trace ++ step.label.code.toList := by
  rw [codes, List.filterMap_append]
  cases found : step.label.code <;> simp [codes, found]

theorem kept_snoc (trace : Listening) (step : Transition Listener ListenEvent) :
    kept (trace ++ [step]) = kept trace ++ kept [step] :=
  List.filterMap_append ..

theorem received_snoc (trace : Listening) (step : Transition Listener ListenEvent) :
    received (trace ++ [step]) = received trace ++ received [step] :=
  List.filterMap_append ..

theorem missed_snoc (trace : Listening) (step : Transition Listener ListenEvent) :
    missed (trace ++ [step]) = if step.label = .test then []
      else if step.before.sleeper = .halt then missed trace ++ kept [step] else missed trace := by
  rw [missed, List.foldl_append]
  rfl

theorem kept_scan (kbd : KbdState) (mods : Modifiers) (sleeper : Sleeper) (sc : UInt8) (next : Listener) :
    kept [⟨⟨kbd, mods, sleeper⟩, .scan sc, next⟩] = if kbd.Full then [] else (decodeScancode mods sc).2.toList := by
  by_cases full : kbd.Full
  · simp [kept, full]
  · cases put : (decodeScancode mods sc).2 <;> simp [kept, full, passed, ListenEvent.code, put]

/-- The characters between what was received and what was kept are the queue in
the ring; a reader that has found the ring empty has missed all of them. -/
structure Heard (trace : Listening) (listener : Listener) (queue : List UInt8) : Prop where
  order : kept trace = received trace ++ queue
  held : listener.kbd.Queue queue
  knows : listener.sleeper.Knows queue
  mods : listener.mods = (decodeAll bootModifiers (codes trace)).1
  typed : trace.filterMap passed = (decodeAll bootModifiers (codes trace)).2
  late : listener.sleeper = .halt ∨ listener.sleeper = .asleep → queue = missed trace

/-- A step without an interrupt from the keyboard. -/
theorem Heard.silent (heard : Heard trace listener queue) (quiet : event.code = none) (queue' : List UInt8)
    (order : queue = received [⟨listener, event, next⟩] ++ queue') (held : next.kbd.Queue queue')
    (knows : next.sleeper.Knows queue') (same : next.mods = listener.mods)
    (late : next.sleeper = .halt ∨ next.sleeper = .asleep → queue' = missed (trace ++ [⟨listener, event, next⟩])) :
    Heard (trace ++ [⟨listener, event, next⟩]) next queue' := by
  have nothing : passed ⟨listener, event, next⟩ = none := by simp [passed, quiet]
  refine ⟨?_, held, knows, ?_, ?_, late⟩
  · rw [kept_snoc, received_snoc, heard.order, order, List.append_assoc]
    simp [kept, nothing]
  · rw [same, heard.mods, codes_snoc, quiet]
    simp
  · rw [List.filterMap_append, heard.typed, codes_snoc, quiet]
    simp [nothing]

theorem ListenStep.heard (step : ListenStep listener event next) (heard : Heard trace listener queue) :
    ∃ queue, Heard (trace ++ [⟨listener, event, next⟩]) next queue := by
  cases step with
  | scan handled =>
      rename_i kbd mods sleeper sc after left
      obtain ⟨changed, held⟩ := kbdIsr_queue heard.held handled
      have typed : mods = (decodeAll bootModifiers (codes trace)).1 := heard.mods
      refine ⟨_, ?_, held, heard.knows.wake _, ?_, ?_, ?_⟩
      · rw [kept_snoc, received_snoc, heard.order, kept_scan]
        simp [received]
      · rw [changed, codes_snoc]
        simp only [ListenEvent.code, Option.toList_some, decodeAll_snoc, ← typed]
      · rw [List.filterMap_append, heard.typed, codes_snoc]
        simp only [ListenEvent.code, Option.toList_some, decodeAll_snoc, ← typed]
        cases put : (decodeScancode mods sc).2 <;> simp [passed, ListenEvent.code, put]
      · intro waiting
        have before : sleeper = .halt := by
          cases sleeper <;> simp_all [Sleeper.wake]
        have now := missed_snoc trace ⟨⟨kbd, mods, sleeper⟩, .scan sc, ⟨after, left, sleeper.wake⟩⟩
        rw [if_neg (by simp), if_pos before, kept_scan, ← heard.late (.inl before)] at now
        exact now.symm
  | other =>
      rename_i kbd mods sleeper
      refine ⟨queue, heard.silent rfl queue rfl heard.held ?_ rfl ?_⟩
      · have woken := heard.knows.wake []
        rwa [List.append_nil] at woken
      · intro waiting
        have before : sleeper = .halt := by
          cases sleeper <;> simp_all [Sleeper.wake]
        rw [missed_snoc, if_neg (by simp), if_pos before, ← heard.late (.inl before)]
        simp [kept, passed, ListenEvent.code]
  | empty none =>
      have nothing : queue = [] := by
        by_contra some
        rw [(kbdHasChar_iff heard.held).mpr some] at none
        cases none
      refine ⟨queue, heard.silent rfl queue rfl heard.held trivial rfl ?_⟩
      intro _
      rw [missed_snoc, if_pos rfl, nothing]
  | ready some =>
      refine ⟨queue, heard.silent rfl queue rfl heard.held ((kbdHasChar_iff heard.held).mp some) rfl ?_⟩
      simp
  | halt =>
      refine ⟨queue, heard.silent rfl queue rfl heard.held trivial rfl ?_⟩
      intro _
      rw [missed_snoc, if_neg (by simp), if_pos rfl, ← heard.late (.inl rfl)]
      simp [kept, passed, ListenEvent.code]
  | load loaded =>
      cases queue with
      | nil => exact absurd rfl heard.knows
      | cons front rest =>
          cases (Ring.front_eq heard.held).symm.trans loaded
          exact ⟨_, heard.silent rfl _ rfl heard.held rfl rfl (by simp)⟩
  | advance =>
      cases queue with
      | nil => cases heard.knows
      | cons front rest =>
          have first : some front = some _ := heard.knows
          cases first
          have released := Ring.release heard.held
          rw [Buffer.length_eq] at released
          exact ⟨rest, heard.silent rfl rest rfl released trivial rfl (by simp)⟩

theorem heard_of_run (run : Run ListenStep bootListener trace final) : ∃ queue, Heard trace final queue := by
  induction run with
  | done =>
      have held : Ring (Buffer.zeros kbdBufSize).bytes 0 0 [] := Ring.empty (by simp)
      exact ⟨[], rfl, held, trivial, rfl, rfl, by simp [bootListener]⟩
  | next _ step ih =>
      obtain ⟨queue, heard⟩ := ih
      exact step.heard heard

/-- What has to happen before the reader returns a character that waits for it. One
that sleeps, or is going to, needs an interrupt. -/
def Sleeper.toReturn (waking : ListenEvent) : Sleeper → List ListenEvent
  | .test => [.test, .load, .advance]
  | .halt => [.halt, waking, .test, .load, .advance]
  | .asleep => [waking, .test, .load, .advance]
  | .load => [.load, .advance]
  | .advance _ => [.advance]

/-- Any interrupt finds the processor, and what is in the ring stays in front. -/
theorem ListenEvent.Interrupts.wakes (interrupt : event.Interrupts) (held : kbd.Queue queue) (mods : Modifiers)
    (sleeper : Sleeper) : ∃ after left more,
      ListenStep ⟨kbd, mods, sleeper⟩ event ⟨after, left, sleeper.wake⟩ ∧ after.Queue (queue ++ more) := by
  cases event with
  | scan sc =>
      obtain ⟨after, handled, _⟩ := kbdIsr_spec held mods sc .test
      exact ⟨after, _, _, .scan handled, (kbdIsr_queue held handled).2⟩
  | other => exact ⟨kbd, mods, [], .other, by rwa [List.append_nil]⟩
  | test | halt | load | advance => cases interrupt

/-- From the test on, the reader comes to the first character. -/
theorem returns_from_test (held : kbd.Queue (c :: rest)) (mods : Modifiers) : ∃ more next,
    Run ListenStep ⟨kbd, mods, .test⟩ more next ∧ more.map Transition.label = [.test, .load, .advance] ∧
      received more = [c] := by
  have ready : kbdHasChar kbd = true := (kbdHasChar_iff held).mpr (by simp)
  have loaded : kbd.kbdBuf.bytes[kbd.kbdTail]? = some c := Ring.front_eq held
  exact ⟨_, _, ((Run.done.next (.ready ready)).next (.load loaded)).next .advance, rfl, by simp [received]⟩

/-- From sleep it takes an interrupt more. -/
theorem returns_from_sleep (held : kbd.Queue (c :: rest)) (mods : Modifiers) {waking : ListenEvent}
    (interrupt : waking.Interrupts) : ∃ more next, Run ListenStep ⟨kbd, mods, .asleep⟩ more next ∧
      more.map Transition.label = [waking, .test, .load, .advance] ∧ received more = [c] := by
  obtain ⟨woken, left, later, wakes, queued⟩ := interrupt.wakes held mods .asleep
  obtain ⟨more, next, run, labels, gets⟩ := returns_from_test queued left
  refine ⟨_, next, (Run.done.next wakes).append run, ?_, ?_⟩
  · rw [List.map_append, labels]
    rfl
  · simpa [received] using gets

theorem Heard.returns (heard : Heard trace listener (c :: rest)) {waking : ListenEvent} (interrupt : waking.Interrupts) :
    ∃ more next, Run ListenStep listener more next ∧
      more.map Transition.label = listener.sleeper.toReturn waking ∧ received more = [c] := by
  obtain ⟨kbd, mods, sleeper⟩ := listener
  have loaded : kbd.kbdBuf.bytes[kbd.kbdTail]? = some c := Ring.front_eq heard.held
  cases sleeper with
  | test => exact returns_from_test heard.held mods
  | halt =>
      obtain ⟨more, next, run, labels, gets⟩ := returns_from_sleep heard.held mods interrupt
      refine ⟨_, next, (Run.done.next .halt).append run, ?_, ?_⟩
      · rw [List.map_append, labels]
        rfl
      · simpa [received] using gets
  | asleep => exact returns_from_sleep heard.held mods interrupt
  | load => exact ⟨_, _, (Run.done.next (.load loaded)).next .advance, rfl, by simp [received]⟩
  | advance front =>
      have first : some c = some front := heard.knows
      cases first
      exact ⟨_, _, Run.done.next .advance, rfl, by simp [received]⟩

theorem kept_sublist (trace : Listening) : (kept trace).Sublist (trace.filterMap passed) := by
  induction trace with
  | nil => exact .slnil
  | cons step trace ih =>
      rw [kept, List.filterMap_cons, List.filterMap_cons]
      by_cases full : step.before.kbd.Full
      · rw [if_pos full]
        cases passed step with
        | none => exact ih
        | some c => exact ih.cons c
      · rw [if_neg full]
        cases passed step with
        | none => exact ih
        | some c => exact ih.cons_cons c

theorem kept_all (space : ∀ step ∈ trace, step.before.kbd.Full → passed step = none) :
    kept trace = trace.filterMap passed := by
  apply List.filterMap_congr
  intro step member
  split
  · rename_i full
    exact (space step member full).symm
  · rfl

/-- Whatever comes between the steps of the reader, it gets the characters that the
scan codes stand for, in order, less those that met a full ring. It sleeps while
characters wait for it exactly if they came between its last test and `hlt`, and
any interrupt then gets it to return the first of them. -/
theorem keys_arrive (run : Run ListenStep bootListener trace final) :
    ∃ queue, final.kbd.Queue queue ∧ kept trace = received trace ++ queue ∧
      (kept trace).Sublist (decodeAll bootModifiers (codes trace)).2 ∧
      ((∀ step ∈ trace, step.before.kbd.Full → passed step = none) →
        kept trace = (decodeAll bootModifiers (codes trace)).2) ∧
      (final.sleeper = .asleep → queue = missed trace) ∧
      ∀ c rest, queue = c :: rest → ∀ waking : ListenEvent, waking.Interrupts →
        ∃ more next, Run ListenStep final more next ∧
          more.map Transition.label = final.sleeper.toReturn waking ∧ received more = [c] := by
  obtain ⟨queue, heard⟩ := heard_of_run run
  refine ⟨queue, heard.held, heard.order, ?_, ?_, fun asleep => heard.late (.inr asleep), ?_⟩
  · rw [← heard.typed]
    exact kept_sublist trace
  · intro space
    rw [← heard.typed]
    exact kept_all space
  · intro c rest waiting waking interrupt
    subst waiting
    exact heard.returns interrupt

/-- The letter `a` comes between the test and `hlt`. -/
theorem late_letter : ∃ trace final, Run ListenStep bootListener trace final ∧
    trace.map Transition.label = [.test, .scan 0x1E, .halt] ∧ final.sleeper = .asleep ∧
    missed trace = [97] ∧ kept trace = [97] ∧ received trace = [] := by
  have start : KbdState.Queue ⟨.zeros kbdBufSize, 0, 0⟩ [] := Ring.empty (by simp)
  have space : ¬ KbdState.Full ⟨.zeros kbdBufSize, 0, 0⟩ := by decide
  have decoded : decodeScancode bootModifiers 0x1E = (bootModifiers, some 97) := by decide
  obtain ⟨filled, put, _, _⟩ := kbdPut_space start space 97
  have handled : kbdIsr ⟨.zeros kbdBufSize, 0, 0⟩ bootModifiers 0x1E = some (filled, bootModifiers) := by
    rw [kbdIsr, decoded]
    exact congrArg (Option.map _) put
  have tested : ListenStep bootListener .test ⟨⟨.zeros kbdBufSize, 0, 0⟩, bootModifiers, .halt⟩ := .empty rfl
  have run := ((Run.done.next tested).next (ListenStep.scan handled)).next ListenStep.halt
  refine ⟨_, _, run, rfl, rfl, ?_, ?_, rfl⟩
  · simp [missed, kept, passed, ListenEvent.code, space, decoded]
  · simp [kept, passed, ListenEvent.code, space, decoded]

/-- The reader then sleeps with a character in the ring until the key is released,
which it returns. -/
theorem key_sleeps_in_ring : ∃ trace final more next, Run ListenStep bootListener trace final ∧
    trace.map Transition.label = [.test, .scan 0x1E, .halt] ∧ final.sleeper = .asleep ∧
    missed trace = [97] ∧ final.kbd.Queue [97] ∧ Run ListenStep final more next ∧
    more.map Transition.label = [.scan 0x9E, .test, .load, .advance] ∧ received more = [97] := by
  obtain ⟨trace, final, run, labels, sleeps, late, _, _⟩ := late_letter
  obtain ⟨queue, held, _, _, _, asleep, returns⟩ := keys_arrive run
  have waiting : queue = [97] := (asleep sleeps).trans late
  obtain ⟨more, next, onward, wakes, gets⟩ := returns 97 [] waiting (.scan 0x9E) trivial
  rw [waiting] at held
  rw [sleeps] at wakes
  exact ⟨trace, final, more, next, run, labels, sleeps, late, held, onward, wakes, gets⟩

end Runs

end DugOS.Keyboard
