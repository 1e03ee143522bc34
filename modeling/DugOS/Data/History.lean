import Mathlib.Data.List.Induction

namespace DugOS.Data

/-! Part of a state that only some entries of a history set.

Whatever else the entries do, the part has the value that the last entry naming
it has set, or the one from before the history.
-/

/-- The last entry of the history that names the part. -/
def lastNaming {α : Type*} (names : α → Bool) (history : List α) : Option α :=
  (history.filter names).getLast?

variable {α σ β : Type*} {names : α → Bool} {history : List α}

theorem lastNaming_snoc (names : α → Bool) (history : List α) (entry : α) :
    lastNaming names (history ++ [entry]) = if names entry then some entry else lastNaming names history := by
  rw [lastNaming, List.filter_append]
  by_cases named : names entry
  · simp [named]
  · simp [named, lastNaming]

theorem lastNaming_eq_none : lastNaming names history = none ↔ ∀ entry ∈ history, names entry = false := by
  simp [lastNaming]

theorem lastNaming_eq_some {entry : α} (last : lastNaming names history = some entry) :
    entry ∈ history ∧ names entry = true :=
  List.mem_filter.mp (List.mem_of_getLast? last)

/-- A part that an entry sets exactly when it names it. -/
theorem foldl_lastNaming {apply : σ → α → σ} {valid : σ → Prop} {start : σ} (view : σ → β) (effect : α → β)
    (initial : valid start) (kept : ∀ state entry, valid state → valid (apply state entry))
    (sets : ∀ state entry, valid state → view (apply state entry) = if names entry then effect entry else view state)
    (history : List α) : valid (history.foldl apply start) ∧
      view (history.foldl apply start) = ((lastNaming names history).map effect).getD (view start) := by
  induction history using List.reverseRecOn with
  | nil => exact ⟨initial, rfl⟩
  | append_singleton history entry ih =>
      rw [List.foldl_append, lastNaming_snoc]
      refine ⟨kept _ _ ih.1, ?_⟩
      rw [List.foldl_cons, List.foldl_nil, sets _ _ ih.1, ih.2]
      split <;> rfl

end DugOS.Data
