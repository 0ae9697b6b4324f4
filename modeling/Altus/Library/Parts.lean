import Mathlib.Tactic
import Mathlib.Data.Finset.Card
import Mathlib.Data.Set.Lattice
import Mathlib.Order.CompletePartialOrder
import Mathlib.Order.SuccPred.IntervalSucc

namespace Altus.Parts

/-!
An interval that increasing bounds cut into parts, and the sets of points that consist of whole parts.
-/

variable {α : Type} [LinearOrder α]

/-- The part of an index. It may be empty. -/
def part (start : Nat → α) (index : Nat) : Set α := Set.Ico (start index) (start (index + 1))

/-- The points lie below the end of the last part, and each part is among them in full or not at all. -/
structure Whole (start : Nat → α) (count : Nat) (points : Set α) : Prop where
  below : points ⊆ Set.Iio (start count)
  whole : ∀ index < count, part start index ⊆ points ∨ Disjoint (part start index) points

section Bounds

variable {start : Nat → α} {count : Nat} {points : Set α} {point next : α}

/-- Every point of the interval lies in a part. -/
theorem exists_part (lower : start 0 ≤ point) (upper : point < start count) :
    ∃ index < count, point ∈ part start index := by
  induction count with
  | zero => exact absurd upper (not_lt.mpr lower)
  | succ count ih =>
      rcases lt_or_ge point (start count) with early | late
      · obtain ⟨index, inside, member⟩ := ih early
        exact ⟨index, inside.trans (Nat.lt_succ_self count), member⟩
      · exact ⟨count, Nat.lt_succ_self count, late, upper⟩

/-- A part that is not empty ends where a later one begins. -/
theorem exists_part_before (monotone : Monotone start) {later : Nat} (lower : start 0 < start later) :
    ∃ index < later, start index < start later ∧ start (index + 1) = start later := by
  induction later with
  | zero => exact absurd lower (lt_irrefl _)
  | succ later ih =>
      rcases lt_or_ge (start later) (start (later + 1)) with rises | flat
      · exact ⟨later, Nat.lt_succ_self later, rises, rfl⟩
      · have same : start later = start (later + 1) := le_antisymm (monotone (Nat.le_succ later)) flat
        rw [← same] at lower ⊢
        obtain ⟨index, inside, found⟩ := ih lower
        exact ⟨index, inside.trans (Nat.lt_succ_self later), found⟩

/-- Two parts have no point in common. -/
theorem part_apart (monotone : Monotone start) {one other : Nat} (different : one ≠ other) :
    Disjoint (part start one) (part start other) :=
  monotone.pairwise_disjoint_on_Ico_succ different

/-- A whole part joins the points. -/
theorem Whole.insert (whole : Whole start count points) (monotone : Monotone start) {index : Nat}
    (inside : index < count) :
    Whole start count (points ∪ part start index) where
  below := by
    apply Set.union_subset whole.below
    intro point member
    exact member.2.trans_le (monotone inside)
  whole := by
    intro other known
    by_cases same : other = index
    · subst same
      exact Or.inl Set.subset_union_right
    rcases whole.whole other known with all | none
    · exact Or.inl (all.trans Set.subset_union_left)
    · exact Or.inr (Set.disjoint_union_right.mpr ⟨none, part_apart monotone same⟩)

/-- More parts follow. -/
theorem Whole.extend {longer : Nat → α} {more : Nat} (whole : Whole start count points) (monotone : Monotone longer)
    (same : ∀ index ≤ count, longer index = start index) (further : count ≤ more) : Whole longer more points where
  below := by
    intro point member
    have before : point < start count := whole.below member
    rw [← same count le_rfl] at before
    exact before.trans_le (monotone further)
  whole := by
    intro index known
    rcases Nat.lt_or_ge index count with old | new
    · rw [part, same index old.le, same (index + 1) old]
      exact whole.whole index old
    · refine Or.inr (Set.disjoint_left.mpr fun point member received => ?_)
      have before : point < start count := whole.below received
      rw [← same count le_rfl] at before
      exact absurd (before.trans_le ((monotone new).trans member.1)) (lt_irrefl point)

/-- The part at the first missing point is missing, and begins there. -/
theorem Whole.missing_at (whole : Whole start count points) (lower : start 0 ≤ point) (upper : point < start count)
    (before : Set.Ico (start 0) point ⊆ points) (missing : point ∉ points) (monotone : Monotone start) :
    ∃ index < count, start index = point ∧ point < start (index + 1) ∧ Disjoint (part start index) points := by
  obtain ⟨index, inside, member⟩ := exists_part lower upper
  have apart := (whole.whole index inside).resolve_left fun all => missing (all member)
  refine ⟨index, inside, ?_, member.2, apart⟩
  by_contra different
  have earlier : start index < point := lt_of_le_of_ne member.1 different
  have first : start index ∈ points := before ⟨monotone (Nat.zero_le index), earlier⟩
  exact Set.disjoint_left.mp apart ⟨le_rfl, earlier.trans member.2⟩ first

/-- The part in front of the first point after a gap is missing. It ends where that point begins its own part. -/
theorem Whole.missing_before (whole : Whole start count points) (monotone : Monotone start) (lower : start 0 ≤ point)
    (before : Set.Ico (start 0) point ⊆ points) (gap : point < next)
    (none : ∀ other, point ≤ other → other < next → other ∉ points)
    (first : next ∈ points) :
    ∃ index < count, point ≤ start index ∧ start index < start (index + 1) ∧ start (index + 1) = next ∧
      Disjoint (part start index) points ∧
      ∃ later < count, start later = next ∧ next < start (later + 1) ∧ part start later ⊆ points := by
  obtain ⟨later, known, member⟩ := exists_part (lower.trans gap.le) (whole.below first)
  have all := (whole.whole later known).resolve_right fun apart => Set.disjoint_left.mp apart member first
  have begins : start later = next := by
    by_contra different
    have earlier : start later < next := lt_of_le_of_ne member.1 different
    -- The part would reach into the gap.
    have inGap : max point (start later) ∈ points :=
      all ⟨le_max_right _ _, max_lt (gap.trans member.2) (earlier.trans member.2)⟩
    exact none _ (le_max_left _ _) (max_lt gap earlier) inGap
  obtain ⟨index, inside, rises, ends⟩ := exists_part_before monotone (by rw [begins]; exact lower.trans_lt gap)
  rw [begins] at rises ends
  have mid : max point (start index) ∈ part start index := ⟨le_max_right _ _, by rw [ends]; exact max_lt gap rises⟩
  have apart := (whole.whole index (inside.trans known)).resolve_left fun covered =>
    none _ (le_max_left _ _) (max_lt gap rises) (covered mid)
  refine ⟨index, inside.trans known, ?_, by rw [ends]; exact rises, ends, apart, later, known, begins, member.2, all⟩
  by_contra early
  have received : start index ∈ points := before ⟨monotone (Nat.zero_le index), not_le.mp early⟩
  exact Set.disjoint_left.mp apart ⟨le_rfl, by rw [ends]; exact rises⟩ received

end Bounds

section Missing

open Classical

/-- The number of parts that are not among the points. -/
noncomputable def countMissing (start : Nat → α) (count : Nat) (points : Set α) : Nat :=
  ((Finset.range count).filter fun index => ¬ part start index ⊆ points).card

variable {start : Nat → α} {count : Nat} {points : Set α}

theorem countMissing_le (start : Nat → α) (count : Nat) (points : Set α) : countMissing start count points ≤ count :=
  (Finset.card_filter_le _ _).trans (Finset.card_range count).le

/-- A missing part that joins the points is missing no longer. -/
theorem countMissing_insert {index : Nat} (inside : index < count) (absent : ¬ part start index ⊆ points) :
    countMissing start count (points ∪ part start index) < countMissing start count points := by
  apply Finset.card_lt_card
  rw [Finset.ssubset_iff_of_subset]
  · refine ⟨index, Finset.mem_filter.mpr ⟨Finset.mem_range.mpr inside, absent⟩, fun still => ?_⟩
    exact (Finset.mem_filter.mp still).2 Set.subset_union_right
  · intro other member
    obtain ⟨known, remains⟩ := Finset.mem_filter.mp member
    exact Finset.mem_filter.mpr ⟨known, fun all => remains (all.trans Set.subset_union_left)⟩

end Missing

end Altus.Parts
