import Mathlib.Data.List.DropRight

namespace DugOS.Data

/-! Lines that are collected one behind another into a bounded space.

Every line is followed by a separator. A line that does not fit into what is
left of the space is skipped, and the next one is tried. The line that arrives
for an item may be shorter than the one that was meant.
-/

variable {α ι : Type*} {separator : α} {capacity total : Nat} {got want : ι → List α} {items : List ι}

def joined (separator : α) (lines : List (List α)) : List α :=
  lines.flatMap (· ++ [separator])

@[simp] theorem joined_cons (line : List α) (lines : List (List α)) :
    joined separator (line :: lines) = line ++ separator :: joined separator lines := by
  simp [joined]

/-- The lines that fit, behind `total` elements that are already there. -/
def keepFitting (separator : α) (capacity : Nat) : Nat → List (List α) → List α
  | _, [] => []
  | total, line :: lines =>
      if total + line.length + 1 ≤ capacity then
        line ++ separator :: keepFitting separator capacity (total + line.length + 1) lines
      else keepFitting separator capacity total lines

/-- The space the lines of some items take. -/
def spaceOf (got : ι → List α) : List ι → Nat
  | [] => 0
  | item :: items => (got item).length + 1 + spaceOf got items

theorem spaceOf_append (got : ι → List α) (front back : List ι) :
    spaceOf got (front ++ back) = spaceOf got front + spaceOf got back := by
  induction front with
  | nil => simp [spaceOf]
  | cons item front ih =>
      simp only [List.cons_append, spaceOf, ih]
      omega

/-- The items split into a first part, whose lines arrive as they were meant and
fit together, and a rest of which no line fits behind them. -/
def Unbroken (capacity total : Nat) (got want : ι → List α) (items : List ι) : Prop :=
  ∃ stored rejected, items = stored ++ rejected ∧ (∀ item ∈ stored, got item = want item) ∧
    total + spaceOf got stored ≤ capacity ∧
    ∀ item ∈ rejected, capacity < total + spaceOf got stored + (got item).length + 1

section Shortened

variable {line whole : List α}

theorem dropLast_sublist_dropLast (sublist : line.Sublist whole) : line.dropLast.Sublist whole.dropLast := by
  apply List.reverse_sublist.mp
  rw [← List.tail_reverse, ← List.tail_reverse]
  exact sublist.reverse.tail

theorem dropWhile_sublist_dropWhile {blank : α → Bool} (sublist : line.Sublist whole) :
    (line.dropWhile blank).Sublist (whole.dropWhile blank) := by
  induction sublist with
  | slnil => exact .slnil
  | @cons line whole head sublist ih =>
      rw [List.dropWhile_cons]
      split
      · exact ih
      · exact (List.dropWhile_sublist blank).trans (sublist.cons head)
  | @cons_cons line whole head sublist ih =>
      rw [List.dropWhile_cons, List.dropWhile_cons]
      split
      · exact ih
      · exact sublist.cons_cons head

/-- Trimming blanks from the ends keeps a shortened line shorter. -/
theorem rdropWhile_sublist_rdropWhile {blank : α → Bool} (sublist : line.Sublist whole) :
    (line.rdropWhile blank).Sublist (whole.rdropWhile blank) := by
  apply List.reverse_sublist.mp
  simp only [List.rdropWhile, List.reverse_reverse]
  exact dropWhile_sublist_dropWhile sublist.reverse

end Shortened

/-- Lines without the separator in them can be compared one by one. -/
theorem line_prefix_iff {line other rest more : List α} (absent : separator ∉ line)
    (absentOther : separator ∉ other) :
    line ++ separator :: rest <+: other ++ separator :: more ↔ line = other ∧ rest <+: more := by
  induction line generalizing other with
  | nil =>
      cases other with
      | nil => simp
      | cons head other =>
          simp only [List.mem_cons, not_or] at absentOther
          simp [absentOther.1]
  | cons head line ih =>
      simp only [List.mem_cons, not_or] at absent
      cases other with
      | nil => simp [Ne.symm absent.1]
      | cons first other =>
          simp only [List.mem_cons, not_or] at absentOther
          simp [ih absent.2 absentOther.2, and_assoc]

theorem unbroken_nil : Unbroken capacity total got want [] ↔ total ≤ capacity := by
  constructor
  · intro unbroken
    obtain ⟨stored, rejected, split, _, room, _⟩ := unbroken
    exact Nat.le_of_add_right_le room
  · intro inside
    exact ⟨[], [], rfl, by simp, by simpa [spaceOf] using inside, by simp⟩

theorem unbroken_of_room {item : ι} (room : total + (got item).length + 1 ≤ capacity) :
    Unbroken capacity total got want (item :: items) ↔
      got item = want item ∧ Unbroken capacity (total + (got item).length + 1) got want items := by
  constructor
  · intro unbroken
    obtain ⟨stored, rejected, split, same, space, noRoom⟩ := unbroken
    cases stored with
    | nil =>
        simp only [List.nil_append] at split
        have tooLong := noRoom item (by simp [← split])
        simp only [spaceOf] at tooLong
        omega
    | cons head stored =>
        cases split
        simp only [spaceOf] at space noRoom
        have sameRest : ∀ other ∈ stored, got other = want other := fun other member => same other (by simp [member])
        refine ⟨same item (by simp), stored, rejected, rfl, sameRest, ?_, ?_⟩
        · omega
        · intro other member
          have tooLong := noRoom other member
          omega
  · intro both
    obtain ⟨sameFirst, stored, rejected, split, same, space, noRoom⟩ := both
    refine ⟨item :: stored, rejected, by rw [split]; rfl, ?_, ?_, ?_⟩
    · simpa using ⟨sameFirst, same⟩
    · simp only [spaceOf] at space ⊢
      omega
    · intro other member
      have tooLong := noRoom other member
      simp only [spaceOf] at tooLong ⊢
      omega

theorem unbroken_of_full {item : ι} (inside : total ≤ capacity) (full : capacity < total + (got item).length + 1) :
    Unbroken capacity total got want (item :: items) ↔
      ∀ other ∈ items, capacity < total + (got other).length + 1 := by
  constructor
  · intro unbroken
    obtain ⟨stored, rejected, split, _, space, noRoom⟩ := unbroken
    cases stored with
    | nil =>
        simp only [List.nil_append] at split
        intro other member
        simpa [spaceOf] using noRoom other (by simp [← split, member])
    | cons head stored =>
        cases split
        simp only [spaceOf] at space
        omega
  · intro noRoom
    refine ⟨[], item :: items, rfl, by simp, by simpa [spaceOf] using inside, ?_⟩
    intro other member
    rcases List.mem_cons.mp member with rfl | member
    · simpa [spaceOf] using full
    · simpa [spaceOf] using noRoom other member

/-- Either no line fits, or what is kept starts with a line that does. -/
theorem keepFitting_cases (separator : α) (capacity total : Nat) (lines : List (List α)) :
    (keepFitting separator capacity total lines = [] ∧ ∀ line ∈ lines, capacity < total + line.length + 1) ∨
      ∃ line ∈ lines, ∃ rest, total + line.length + 1 ≤ capacity ∧
        keepFitting separator capacity total lines = line ++ separator :: rest := by
  induction lines with
  | nil => simp [keepFitting]
  | cons line lines ih =>
      simp only [keepFitting]
      split
      · rename_i room
        exact .inr ⟨line, by simp, _, room, rfl⟩
      · rename_i full
        rcases ih with ⟨empty, noRoom⟩ | ⟨first, member, rest, room, kept⟩
        · exact .inl ⟨empty, List.forall_mem_cons.mpr ⟨Nat.lt_of_not_le full, noRoom⟩⟩
        · exact .inr ⟨first, by simp [member], rest, room, kept⟩

/-- What is kept is a beginning of what was meant exactly when the lines that
fit come first and arrived whole. A line kept in the place of a longer one
that was skipped shows, because it ends earlier. -/
theorem keepFitting_prefix_iff (shorter : ∀ item, (got item).length ≤ (want item).length)
    (absent : ∀ item ∈ items, separator ∉ got item ∧ separator ∉ want item) (inside : total ≤ capacity) :
    keepFitting separator capacity total (items.map got) <+: joined separator (items.map want) ↔
      Unbroken capacity total got want items := by
  induction items generalizing total with
  | nil => simp [keepFitting, unbroken_nil, inside]
  | cons item items ih =>
      obtain ⟨absentGot, absentWant⟩ := absent item (by simp)
      have absentRest : ∀ other ∈ items, separator ∉ got other ∧ separator ∉ want other :=
        fun other member => absent other (by simp [member])
      simp only [List.map_cons, keepFitting, joined_cons]
      split
      · rename_i room
        rw [line_prefix_iff absentGot absentWant, ih absentRest room, unbroken_of_room room]
      · rename_i full
        have full := Nat.lt_of_not_le full
        rw [unbroken_of_full inside full]
        rcases keepFitting_cases separator capacity total (items.map got) with
          ⟨empty, noRoom⟩ | ⟨line, found, rest, room, kept⟩
        · simpa [empty] using noRoom
        · obtain ⟨other, member, rfl⟩ := List.mem_map.mp found
          rw [kept, line_prefix_iff (absentRest other member).1 absentWant]
          constructor
          · intro ⟨same, _⟩
            have long := shorter item
            rw [← same] at long
            omega
          · intro noRoom
            have tooLong := noRoom other member
            omega

end DugOS.Data
