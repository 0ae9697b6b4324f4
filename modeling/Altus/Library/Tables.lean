import Mathlib.Logic.Function.Basic
import Mathlib.Tactic

namespace Altus.Tables

/-!
Tables from keys to entries, and two tables that list the same entries under different keys.
-/

variable {κ ι α : Type} [DecidableEq κ] [DecidableEq ι]

/-- A new entry enters a table. An entry that is there stays. -/
def insert (table : κ → Option α) (key : κ) (entry : α) : κ → Option α :=
  match table key with
  | some _ => table
  | none => Function.update table key (some entry)

/-- The entry of a key leaves a table. -/
def erase (table : κ → Option α) (key : κ) : κ → Option α := Function.update table key none

section Lookup

variable {table : κ → Option α} {key other : κ} {entry value : α}

theorem insert_self (absent : table key = none) : insert table key entry key = some entry := by
  simp [insert, absent]

theorem insert_other (apart : other ≠ key) : insert table key entry other = table other := by
  cases present : table key with
  | none => simp [insert, present, apart]
  | some old => simp [insert, present]

theorem insert_eq_some (absent : table key = none) :
    insert table key entry other = some value ↔
      (other = key ∧ value = entry) ∨ table other = some value := by
  by_cases same : other = key
  · subst same
    simp [insert_self absent, absent, eq_comm]
  · simp [insert_other same, same]

theorem update_eq_some :
    Function.update table key (some entry) other = some value ↔
      (other = key ∧ value = entry) ∨ other ≠ key ∧ table other = some value := by
  by_cases same : other = key
  · subst same
    simp [eq_comm]
  · simp [same]

@[simp] theorem erase_self : erase table key key = none := Function.update_self ..

theorem erase_other (apart : other ≠ key) : erase table key other = table other :=
  Function.update_of_ne apart _ _

theorem erase_eq_some : erase table key other = some value ↔ other ≠ key ∧ table other = some value := by
  by_cases same : other = key
  · subst same
    simp
  · simp [erase_other same, same]

end Lookup

/-- Every entry of a table stands under one key. -/
def Once (table : κ → Option α) : Prop :=
  ∀ one other entry, table one = some entry → table other = some entry → one = other

/-- An entry that was nowhere enters a table. -/
theorem Once.insert {table : κ → Option α} {key : κ} {entry : α} (once : Once table) (absent : table key = none)
    (new : ∀ other, table other ≠ some entry) : Once (insert table key entry) := by
  intro one other value inOne inOther
  rw [insert_eq_some absent] at inOne inOther
  rcases inOne with ⟨first, made⟩ | old <;> rcases inOther with ⟨second, again⟩ | kept
  · exact first.trans second.symm
  · exact absurd (made ▸ kept) (new other)
  · exact absurd (again ▸ old) (new one)
  · exact once one other value old kept

theorem Once.erase {table : κ → Option α} (once : Once table) (key : κ) : Once (erase table key) :=
  fun one other entry inOne inOther => once one other entry (erase_eq_some.mp inOne).2 (erase_eq_some.mp inOther).2

/-- Two tables list the same entries, each of them under one key. -/
structure Agree (first : κ → Option α) (second : ι → Option α) : Prop where
  firstOnce : Once first
  secondOnce : Once second
  same : ∀ entry, (∃ key, first key = some entry) ↔ ∃ key, second key = some entry

namespace Agree

variable {first : κ → Option α} {second : ι → Option α} {key : κ} {position : ι} {entry : α}

omit [DecidableEq κ] [DecidableEq ι] in
theorem empty : Agree (fun _ : κ => (none : Option α)) (fun _ : ι => none) where
  firstOnce := fun _ _ _ impossible => nomatch impossible
  secondOnce := fun _ _ _ impossible => nomatch impossible
  same := by simp

/-- A new entry gets a free key of each table. -/
theorem insert (agree : Agree first second) (free : first key = none) (vacant : second position = none)
    (new : ∀ other, first other ≠ some entry) :
    Agree (Tables.insert first key entry) (Tables.insert second position entry) where
  firstOnce := agree.firstOnce.insert free new
  secondOnce := by
    refine agree.secondOnce.insert vacant fun other present => ?_
    obtain ⟨place, found⟩ := (agree.same entry).mpr ⟨other, present⟩
    exact new place found
  same := by
    intro value
    simp only [insert_eq_some free, insert_eq_some vacant, exists_or, exists_and_right, exists_eq, true_and,
      agree.same value]

/-- An entry leaves both tables. -/
theorem erase (agree : Agree first second) (here : first key = some entry) (there : second position = some entry) :
    Agree (Tables.erase first key) (Tables.erase second position) where
  firstOnce := agree.firstOnce.erase key
  secondOnce := agree.secondOnce.erase position
  same := by
    intro value
    simp only [erase_eq_some]
    constructor
    · rintro ⟨other, apart, listed⟩
      obtain ⟨place, found⟩ := (agree.same value).mp ⟨other, listed⟩
      refine ⟨place, ?_, found⟩
      rintro rfl
      rw [there, Option.some.injEq] at found
      exact apart (agree.firstOnce other key value listed (found ▸ here))
    · rintro ⟨place, apart, listed⟩
      obtain ⟨other, found⟩ := (agree.same value).mpr ⟨place, listed⟩
      refine ⟨other, ?_, found⟩
      rintro rfl
      rw [here, Option.some.injEq] at found
      exact apart (agree.secondOnce place position value listed (found ▸ there))

end Agree

end Altus.Tables
