namespace DugOS.Data

/-! Counting loops whose body may fail. -/

/-- `for (i = first; i < first + n; i++) body(i)`. -/
def forLoop {σ : Type} (body : Nat → σ → Option σ) (i : Nat) : Nat → σ → Option σ
  | 0, state => some state
  | n + 1, state => (body i state).bind (forLoop body (i + 1) n)

variable {σ : Type} {body : Nat → σ → Option σ} {i n : Nat} {state : σ}

/-- What holds before the loop and is carried from each turn to the next holds
after it, and no turn fails. -/
theorem forLoop_invariant {holds : Nat → σ → Prop} (initial : holds i state)
    (turn : ∀ k before, i ≤ k → k < i + n → holds k before →
      ∃ after, body k before = some after ∧ holds (k + 1) after) :
    ∃ final, forLoop body i n state = some final ∧ holds (i + n) final := by
  induction n generalizing i state with
  | zero => exact ⟨state, rfl, initial⟩
  | succ n ih =>
      obtain ⟨next, ran, held⟩ := turn i state (Nat.le_refl i) (by omega) initial
      obtain ⟨final, rest, done⟩ := ih held (fun k before low high => turn k before (by omega) (by omega))
      have position : i + 1 + n = i + (n + 1) := by omega
      rw [position] at done
      refine ⟨final, ?_, done⟩
      rw [forLoop, ran, Option.bind_some, rest]

end DugOS.Data
