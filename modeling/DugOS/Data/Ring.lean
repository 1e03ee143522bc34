import Mathlib.Data.List.Basic

namespace DugOS.Data

/-! A queue laid out in a ring of cells.

The queue stands behind `tail`, front first, and wraps around at the end of
the cells. One cell is always left over, so that an empty ring and a full one
differ.
-/

structure Ring {α : Type*} (cells : List α) (tail head : Nat) (queue : List α) : Prop where
  tail_lt : tail < cells.length
  head_eq : head = (tail + queue.length) % cells.length
  room : queue.length < cells.length
  stored : ∀ k, k < queue.length → cells[(tail + k) % cells.length]? = queue[k]?

namespace Ring

variable {α : Type*} {cells queue : List α} {tail head : Nat} {front item : α}

theorem empty (inside : tail < cells.length) : Ring cells tail tail [] := by
  refine ⟨inside, ?_, Nat.lt_of_le_of_lt (Nat.zero_le _) inside, by simp⟩
  rw [List.length_nil, Nat.add_zero, Nat.mod_eq_of_lt inside]

theorem head_lt (ring : Ring cells tail head queue) : head < cells.length := by
  rw [ring.head_eq]
  exact Nat.mod_lt _ (Nat.lt_of_le_of_lt (Nat.zero_le _) ring.tail_lt)

theorem mod_eq_iff (size : Nat) {first second : Nat} (lap : first ≤ second) (within : second < first + size) :
    first % size = second % size ↔ first = second := by
  constructor
  · intro same
    have divides : (second - first) % size = 0 := Nat.sub_mod_eq_zero_of_mod_eq same.symm
    rw [Nat.mod_eq_of_lt (by omega)] at divides
    omega
  · intro same
    subst same
    rfl

theorem head_eq_tail_iff (ring : Ring cells tail head queue) : head = tail ↔ queue = [] := by
  have room := ring.room
  have lap := mod_eq_iff cells.length (Nat.le_add_right tail queue.length) (by omega)
  rw [Nat.mod_eq_of_lt ring.tail_lt, ← ring.head_eq] at lap
  rw [eq_comm, lap, ← List.length_eq_zero_iff]
  omega

/-- The step of `head` that would meet `tail`. -/
theorem full_iff (ring : Ring cells tail head queue) :
    (head + 1) % cells.length = tail ↔ queue.length + 1 = cells.length := by
  have inside := ring.tail_lt
  have room := ring.room
  rw [ring.head_eq, Nat.mod_add_mod]
  constructor
  · intro met
    by_contra different
    have lap := mod_eq_iff cells.length (Nat.le_add_right tail (queue.length + 1)) (by omega)
    rw [Nat.mod_eq_of_lt inside, ← Nat.add_assoc, met] at lap
    have := lap.mp rfl
    omega
  · intro full
    rw [Nat.add_assoc, full, Nat.add_mod_right, Nat.mod_eq_of_lt inside]

theorem put (ring : Ring cells tail head queue) (space : (head + 1) % cells.length ≠ tail) (item : α) :
    Ring (cells.set head item) tail ((head + 1) % cells.length) (queue ++ [item]) := by
  have room := ring.room
  have notFull := ring.full_iff.not.mp space
  constructor
  case tail_lt => simpa using ring.tail_lt
  case head_eq =>
    rw [List.length_set, List.length_append, List.length_singleton, ring.head_eq, Nat.mod_add_mod, Nat.add_assoc]
  case room =>
    rw [List.length_set, List.length_append, List.length_singleton]
    omega
  case stored =>
    intro k below
    rw [List.length_append, List.length_singleton] at below
    rw [List.length_set]
    by_cases last : k = queue.length
    · subst last
      rw [← ring.head_eq, List.getElem?_set_self ring.head_lt]
      simp
    · have older : k < queue.length := by omega
      have apart : head ≠ (tail + k) % cells.length := by
        rw [ring.head_eq]
        intro same
        have lap := mod_eq_iff cells.length (Nat.add_le_add_left (Nat.le_of_lt older) tail) (by omega)
        have := lap.mp same.symm
        omega
      rw [List.getElem?_set_ne apart, ring.stored k older, List.getElem?_append_left older]

theorem front_eq (ring : Ring cells tail head (front :: queue)) : cells[tail]? = some front := by
  have first := ring.stored 0 (by simp)
  rwa [Nat.add_zero, Nat.mod_eq_of_lt ring.tail_lt] at first

theorem release (ring : Ring cells tail head (front :: queue)) :
    Ring cells ((tail + 1) % cells.length) head queue := by
  have room := ring.room
  rw [List.length_cons] at room
  have position : ∀ k, ((tail + 1) % cells.length + k) % cells.length = (tail + (k + 1)) % cells.length := by
    intro k
    rw [Nat.mod_add_mod]
    congr 1
    omega
  constructor
  case tail_lt => exact Nat.mod_lt _ (by omega)
  case head_eq => rw [position, ring.head_eq, List.length_cons]
  case room => omega
  case stored =>
    intro k below
    rw [position, ring.stored (k + 1) (by simpa using below), List.getElem?_cons_succ]

end Ring

end DugOS.Data
