import Mathlib.Data.List.Nodup
import Mathlib.Data.List.Basic
import Mathlib.Data.List.Infix
import Mathlib.Data.Fintype.Card

namespace DugOS.Data

/-! Singly linked chains in a table of link values.

The table gives a link value for each cell. A link value is either the address
of a cell or the stop value; anything else does not occur on a linked chain.
-/

/-- Starting at the link value `from`, the table links exactly `cells`, in
order, and then stops. -/
def Linked {ι ν : Type*} (address : ι → ν) (stop : ν) (link : ι → ν) : ν → List ι → Prop
  | start, [] => start = stop
  | start, cell :: cells => start = address cell ∧ Linked address stop link (link cell) cells

namespace Linked

variable {ι ν : Type*} {address : ι → ν} {stop : ν} {link changed : ι → ν}
  {start : ν} {cell : ι} {cells other : List ι}

theorem frame (linked : Linked address stop link start cells)
    (same : ∀ cell ∈ cells, changed cell = link cell) :
    Linked address stop changed start cells := by
  induction cells generalizing start with
  | nil => exact linked
  | cons cell cells ih =>
      refine ⟨linked.1, ?_⟩
      rw [same cell (by simp)]
      exact ih linked.2 (fun other member => same other (by simp [member]))

theorem unique (injective : Function.Injective address) (distinct : ∀ cell, address cell ≠ stop)
    (linked : Linked address stop link start cells)
    (linkedOther : Linked address stop link start other) : cells = other := by
  induction cells generalizing start other with
  | nil =>
      cases other with
      | nil => rfl
      | cons cell other => exact absurd (linkedOther.1.symm.trans linked) (distinct cell)
  | cons cell cells ih =>
      cases other with
      | nil => exact absurd (linked.1.symm.trans linkedOther) (distinct cell)
      | cons next other =>
          have same : cell = next := injective (linked.1.symm.trans linkedOther.1)
          subst same
          rw [ih linked.2 linkedOther.2]

theorem suffix (linked : Linked address stop link start cells)
    (tail : cell :: other <:+ cells) : Linked address stop link (link cell) other := by
  induction cells generalizing start with
  | nil => simp at tail
  | cons next cells ih =>
      rcases List.suffix_cons_iff.mp tail with whole | inner
      · obtain ⟨rfl, rfl⟩ := List.cons.inj whole
        exact linked.2
      · exact ih linked.2 inner

theorem getLast (linked : Linked address stop link start cells) (last : cells.getLast? = some cell) :
    link cell = stop := by
  obtain ⟨front, split⟩ := List.getLast?_eq_some_iff.mp last
  exact linked.suffix ⟨front, split.symm⟩

/-- A chain that stops never visits a cell twice. -/
theorem nodup (injective : Function.Injective address) (distinct : ∀ cell, address cell ≠ stop)
    (linked : Linked address stop link start cells) : cells.Nodup := by
  induction cells generalizing start with
  | nil => exact List.nodup_nil
  | cons cell cells ih =>
      refine List.nodup_cons.mpr ⟨?_, ih linked.2⟩
      intro member
      obtain ⟨before, behind, split⟩ := List.append_of_mem member
      have again : Linked address stop link (link cell) behind :=
        linked.2.suffix ⟨before, split.symm⟩
      have short := congrArg List.length (unique injective distinct linked.2 again)
      rw [split] at short
      simp at short
      omega

end Linked

section Walk

variable {ι ν : Type*} [Fintype ι] [DecidableEq ι] {cell : ν → Option ι} {link : ι → ν} {visited : Finset ι}
  {value : ν} {next : ι}

theorem unvisited_decreases (fresh : next ∉ visited) : (insert next visited)ᶜ.card < visitedᶜ.card := by
  apply Finset.card_lt_card
  rw [Finset.compl_ssubset_compl]
  exact Finset.ssubset_insert fresh

/-- The cells that following any table from `value` on meets, up to the first
value that leads to no cell or to a cell already visited. -/
def reached {ι ν : Type*} [Fintype ι] [DecidableEq ι] (cell : ν → Option ι) (link : ι → ν) (visited : Finset ι)
    (value : ν) : List ι :=
  match cell value with
  | none => []
  | some next =>
      if _fresh : next ∉ visited then next :: reached cell link (insert next visited) (link next)
      else []
termination_by visitedᶜ.card
decreasing_by exact unvisited_decreases _fresh

theorem reached_none (link : ι → ν) (visited : Finset ι) (outside : cell value = none) :
    reached cell link visited value = [] := by
  rw [reached, outside]

theorem reached_visited (link : ι → ν) (inside : cell value = some next) (member : next ∈ visited) :
    reached cell link visited value = [] := by
  rw [reached, inside]
  exact dif_neg (not_not_intro member)

theorem reached_fresh (link : ι → ν) (inside : cell value = some next) (fresh : next ∉ visited) :
    reached cell link visited value = next :: reached cell link (insert next visited) (link next) := by
  rw [reached, inside]
  exact dif_pos fresh

/-- The walk meets each cell once, and only cells that values lead to. -/
theorem reached_spec (cell : ν → Option ι) (link : ι → ν) (visited : Finset ι) (value : ν) :
    (reached cell link visited value).Nodup ∧
      ∀ met ∈ reached cell link visited value, met ∉ visited ∧ ∃ address, cell address = some met := by
  induction visited, value using reached.induct cell link with
  | case1 visited value outside =>
      rw [reached_none link visited outside]
      simp
  | case2 visited value next inside fresh ih =>
      rw [reached_fresh link inside fresh]
      refine ⟨List.nodup_cons.mpr ⟨?_, ih.1⟩, ?_⟩
      · intro member
        exact (ih.2 next member).1 (Finset.mem_insert_self next visited)
      · intro met member
        rcases List.mem_cons.mp member with same | later
        · subst same
          exact ⟨fresh, value, inside⟩
        · obtain ⟨unvisited, address⟩ := ih.2 met later
          exact ⟨fun before => unvisited (Finset.mem_insert_of_mem before), address⟩
  | case3 visited value next inside member =>
      rw [reached_visited link inside (not_not.mp member)]
      simp

end Walk

end DugOS.Data
