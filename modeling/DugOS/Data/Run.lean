import Mathlib.Data.List.Basic

namespace DugOS.Data

/-! Finite runs of a labelled transition system, with every transition recorded.

The record keeps the state before each step, so that conditions on the steps
of a run can speak about the state in which the step was taken.
-/

structure Transition (σ α : Type*) where
  before : σ
  label : α
  after : σ

inductive Run {σ α : Type*} (step : σ → α → σ → Prop) (start : σ) :
    List (Transition σ α) → σ → Prop
  | done : Run step start [] start
  | next {trace middle label after} : Run step start trace middle → step middle label after →
      Run step start (trace ++ [⟨middle, label, after⟩]) after

namespace Run

variable {σ α : Type*} {step : σ → α → σ → Prop} {start middle final : σ}
  {trace more : List (Transition σ α)} {condition : Transition σ α → Prop}

/-- Runs compose. -/
theorem append (run : Run step start trace middle) (onward : Run step middle more final) :
    Run step start (trace ++ more) final := by
  induction onward with
  | done => rwa [List.append_nil]
  | next _ taken ih =>
      rw [← List.append_assoc]
      exact ih.next taken

/-- What holds at the start and is kept by every step that meets the condition
holds after every run whose steps all meet it. -/
theorem invariant_of {holds : σ → Prop} (run : Run step start trace final) (initial : holds start)
    (kept : ∀ before label after, holds before → step before label after →
      condition ⟨before, label, after⟩ → holds after)
    (meets : ∀ transition ∈ trace, condition transition) : holds final := by
  induction run with
  | done => exact initial
  | next _ taken ih =>
      have earlier := ih (fun transition member => meets transition (by simp [member]))
      exact kept _ _ _ earlier taken (meets _ (by simp))

theorem invariant {holds : σ → Prop} (run : Run step start trace final) (initial : holds start)
    (kept : ∀ before label after, holds before → step before label after → holds after) :
    holds final := by
  induction run with
  | done => exact initial
  | next _ taken ih => exact kept _ _ _ ih taken

/-- When an allowed step ends in a good state exactly if it started in one and
met the condition, a run of allowed steps ends in a good state exactly if it
started in one and all its steps met the condition. -/
theorem holds_iff {valid holds : σ → Prop} {allowed : Transition σ α → Prop}
    (run : Run step start trace final) (initial : valid start)
    (kept : ∀ before label after, valid before → step before label after → valid after)
    (exact_step : ∀ before label after, valid before → step before label after →
      allowed ⟨before, label, after⟩ →
        (holds after ↔ holds before ∧ condition ⟨before, label, after⟩))
    (permitted : ∀ transition ∈ trace, allowed transition) :
    valid final ∧ (holds final ↔ holds start ∧ ∀ transition ∈ trace, condition transition) := by
  induction run with
  | done => simp [initial]
  | next _ taken ih =>
      obtain ⟨valid, earlier⟩ := ih (fun transition member => permitted transition (by simp [member]))
      refine ⟨kept _ _ _ valid taken, ?_⟩
      rw [exact_step _ _ _ valid taken (permitted _ (by simp)), earlier]
      simp only [List.mem_append, List.mem_singleton, or_imp, forall_and, forall_eq, and_assoc]

/-- What every step keeps holds before each step of a run, and each of them is a
step of the system. -/
theorem invariant_before {holds : σ → Prop} (run : Run step start trace final) (initial : holds start)
    (kept : ∀ before label after, holds before → step before label after → holds after) :
    ∀ transition ∈ trace, holds transition.before ∧ step transition.before transition.label transition.after := by
  induction run with
  | done => simp
  | next earlier taken ih =>
      intro transition member
      rcases List.mem_append.mp member with member | last
      · exact ih transition member
      · cases List.mem_singleton.mp last
        exact ⟨earlier.invariant initial kept, taken⟩

/-- A run is a run of its own steps. -/
theorem restrict {allowed : Transition σ α → Prop} (run : Run step start trace final)
    (permitted : ∀ transition ∈ trace, allowed transition) :
    Run (fun before label after => step before label after ∧ allowed ⟨before, label, after⟩) start trace final := by
  induction run with
  | done => exact .done
  | next _ taken ih =>
      have earlier := ih (fun transition member => permitted transition (by simp [member]))
      exact earlier.next ⟨taken, permitted _ (by simp)⟩

theorem holds_final {holds : σ → Prop} (run : Run step start trace final) (initial : holds start)
    (after : ∀ transition ∈ trace, holds transition.after) : holds final := by
  cases run with
  | done => exact initial
  | next _ _ => exact after _ (List.mem_append_right _ (List.mem_singleton_self _))

/-- When a step from a good state ends in one exactly if it meets the condition,
all states of a run are good exactly if all its steps meet the condition. -/
theorem holds_throughout_iff {holds : σ → Prop} (run : Run step start trace final) (initial : holds start)
    (exact_step : ∀ before label after, holds before → step before label after →
      (holds after ↔ condition ⟨before, label, after⟩)) :
    (∀ transition ∈ trace, holds transition.after) ↔ ∀ transition ∈ trace, condition transition := by
  induction run with
  | done => simp
  | next earlier taken ih =>
      simp only [List.mem_append, List.mem_singleton, or_imp, forall_and, forall_eq]
      rw [← ih]
      apply and_congr_right
      intro good
      exact exact_step _ _ _ (earlier.holds_final initial good) taken

end Run

end DugOS.Data
