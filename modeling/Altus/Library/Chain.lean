import Mathlib.Data.List.Nodup
import Mathlib.Logic.Function.Basic
import Mathlib.Logic.Relation
import Mathlib.Tactic

namespace Altus.Chain

/-!
Singly linked chains in a heap. A list names the cells of a chain in link order.
-/

variable {α : Type}

/-- Each listed cell links to the cell after it, and the last one links nowhere. -/
def Linked (next : α → Option α) (cells : List α) : Prop :=
  ∀ index (inside : index < cells.length), next cells[index] = cells[index + 1]?

theorem linked_nil (next : α → Option α) : Linked next [] := by
  intro index inside
  simp at inside

/-- A chain only depends on the links of its own cells. -/
theorem Linked.congr {next other : α → Option α} {cells : List α} (linked : Linked next cells)
    (same : ∀ cell ∈ cells, other cell = next cell) : Linked other cells := by
  intro index inside
  rw [same _ (List.getElem_mem inside)]
  exact linked index inside

/-- The first cell leaves the chain. -/
theorem Linked.tail {next : α → Option α} {head : α} {rest : List α}
    (linked : Linked next (head :: rest)) : Linked next rest := by
  intro index inside
  exact linked (index + 1) (by simpa using inside)

/-- The link of a cell at a known place. -/
theorem Linked.next_eq {next : α → Option α} {cells : List α} (linked : Linked next cells)
    {index : Nat} {cell : α} (here : cells[index]? = some cell) : next cell = cells[index + 1]? := by
  obtain ⟨inside, equal⟩ := List.getElem?_eq_some_iff.mp here
  rw [← equal]
  exact linked index inside

/-- A chain is known by its first cell. -/
theorem Linked.unique {next : α → Option α} {one two : List α} (first : Linked next one) (second : Linked next two)
    (head : one[0]? = two[0]?) : one = two := by
  apply List.ext_getElem?
  intro index
  induction index with
  | zero => exact head
  | succ index ih =>
      cases here : one[index]? with
      | some cell => rw [← first.next_eq here, ← second.next_eq (ih.symm.trans here)]
      | none =>
          have shortOne := List.getElem?_eq_none_iff.mp here
          have shortTwo := List.getElem?_eq_none_iff.mp (ih.symm.trans here)
          rw [List.getElem?_eq_none (by omega), List.getElem?_eq_none (by omega)]

/-- A cell of a chain without repetitions has one place. -/
theorem place_unique {cells : List α} (nodup : cells.Nodup) {first second : Nat} {cell : α}
    (here : cells[first]? = some cell) (there : cells[second]? = some cell) : first = second :=
  (List.getElem?_inj (List.getElem?_eq_some_iff.mp here).1 nodup).mp (here.trans there.symm)

/-- A fresh cell joins behind the last cell. -/
theorem Linked.append {next other : α → Option α} {cells : List α} {last fresh : α}
    (linked : Linked next cells) (nodup : cells.Nodup) (ends : cells.getLast? = some last)
    (newLast : other last = some fresh) (newEnd : other fresh = none)
    (same : ∀ cell ∈ cells, cell ≠ last → other cell = next cell) :
    Linked other (cells ++ [fresh]) := by
  have positive : cells ≠ [] := by rintro rfl; simp at ends
  have lastAt : cells[cells.length - 1]? = some last := by rw [← List.getLast?_eq_getElem?, ends]
  intro index inside
  have bound : index < cells.length + 1 := by simpa using inside
  rcases Nat.lt_or_ge index (cells.length - 1) with early | late
  · have within : index < cells.length := by omega
    have here : (cells ++ [fresh])[index] = cells[index] := List.getElem_append_left within
    have different : cells[index] ≠ last := by
      intro equal
      have places := place_unique nodup (List.getElem?_eq_some_iff.mpr ⟨within, equal⟩) lastAt
      omega
    rw [here, same _ (List.getElem_mem within) different, linked index within,
      List.getElem?_append_left (by omega)]
  · have nonzero := List.length_pos_iff.mpr positive
    rcases Nat.eq_or_lt_of_le late with final | beyond
    · subst final
      have within : cells.length - 1 < cells.length := by omega
      have here : (cells ++ [fresh])[cells.length - 1] = last := by
        rw [List.getElem_append_left within]
        exact Option.some.inj ((List.getElem?_eq_getElem within).symm.trans lastAt)
      rw [here, newLast, show cells.length - 1 + 1 = cells.length by omega]
      simp
    · obtain rfl : index = cells.length := by omega
      simp [newEnd]

end Altus.Chain
