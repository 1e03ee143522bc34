import Mathlib.Logic.Basic

namespace DugOS.Data

/-! Computations that read from the front of a stream.

What is still unread goes along in a value, and more input can be put behind it.
A computation is causal if it does not look ahead: unless it fails for want of
input, more of it behind what is there changes nothing but what is left over.
-/

variable {κ ε α β γ : Type}

/-- `before` and `after` put more input behind what is unread in the argument and in
the result; `wait` is the failure for want of input. -/
def Causal (wait : ε) (before : List κ → α → α) (after : List κ → β → β) (read : α → Except ε β) (value : α) : Prop :=
  read value ≠ .error wait → ∀ more, read (before more value) = (read value).map (after more)

variable {wait : ε} {before : List κ → α → α} {between : List κ → β → β} {after : List κ → γ → γ} {value : α}

namespace Causal

/-- One computation, and another that starts with what the first has left. -/
theorem bind {read : α → Except ε β} {next : β → Except ε γ} (first : Causal wait before between read value)
    (second : ∀ middle, read value = .ok middle → Causal wait between after next middle) :
    Causal wait before after (fun value => read value >>= next) value := by
  intro waits more
  have other : read value ≠ .error wait := by
    intro same
    exact waits (by simp only [same]; rfl)
  have again : read (before more value) >>= next = (read value).map (between more) >>= next :=
    congrArg (· >>= next) (first other more)
  refine again.trans ?_
  cases result : read value with
  | error reason =>
      simp only [result]
      rfl
  | ok middle =>
      simp only [result] at waits ⊢
      exact second middle result waits more

/-- A computation that does not fail. -/
theorem ok {result : α → γ} (same : ∀ more, result (before more value) = after more (result value)) :
    Causal wait before after (fun value => .ok (result value)) value := by
  intro _ more
  exact congrArg Except.ok (same more)

/-- A computation that reads nothing comes first. -/
theorem check {done : Except ε β} {next : β → α → Except ε γ}
    (rest : ∀ result, done = .ok result → Causal wait before after (next result) value) :
    Causal wait before after (fun value => done >>= fun result => next result value) value := by
  intro waits more
  cases done with
  | error reason => rfl
  | ok result => exact rest result rfl waits more

theorem map {read : α → Except ε β} {change : β → γ} (reads : Causal wait before between read value)
    (same : ∀ result more, change (between more result) = after more (change result)) :
    Causal wait before after (fun value => (read value).map change) value := by
  have mapped : (fun value => (read value).map change) = fun value => read value >>= fun result => .ok (change result) := by
    funext value
    cases read value <;> rfl
  rw [mapped]
  exact reads.bind fun middle _ => ok (same middle)

theorem branch {condition : Prop} {decided : α → Decidable condition} {first second : α → Except ε γ}
    (yes : condition → Causal wait before after first value)
    (no : ¬ condition → Causal wait before after second value) :
    Causal wait before after (fun value => @ite _ condition (decided value) (first value) (second value)) value := by
  by_cases holds : condition
  · simp only [if_pos holds]
    exact yes holds
  · simp only [if_neg holds]
    exact no holds

/-- A condition under which nothing more is read. -/
theorem guard {condition : Prop} {decided : α → Decidable condition} {result : α → γ} {rest : α → Except ε γ}
    (same : ∀ more, result (before more value) = after more (result value))
    (goesOn : ¬ condition → Causal wait before after rest value) :
    Causal wait before after (fun value => @ite _ condition (decided value) (.ok (result value)) (rest value)) value :=
  branch (fun _ => ok same) goesOn

end Causal

end DugOS.Data
