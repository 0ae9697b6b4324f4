import Mathlib.Tactic
import Mathlib.Data.List.Pairwise
import Mathlib.Order.Interval.Set.Basic
import Mathlib.Order.CompletePartialOrder

namespace Altus.Runs

/-!
Finite unions of half-open intervals over a linear order.
A canonical list names the maximal intervals of the covered set in increasing order.
-/

variable {α : Type} [LinearOrder α]

/-- Every interval is non-empty and ends strictly before the next one begins. -/
structure Canonical (runs : List (α × α)) : Prop where
  nonempty : ∀ run ∈ runs, run.1 < run.2
  separated : runs.Pairwise fun left right => left.2 < right.1

/-- Every interval, possibly an empty one, ends strictly before the next one begins. -/
structure Sorted (runs : List (α × α)) : Prop where
  ordered : ∀ run ∈ runs, run.1 ≤ run.2
  separated : runs.Pairwise fun left right => left.2 < right.1

theorem Canonical.sorted {runs : List (α × α)} (canonical : Canonical runs) : Sorted runs :=
  ⟨fun run member => (canonical.nonempty run member).le, canonical.separated⟩

@[simp] theorem sorted_nil : Sorted ([] : List (α × α)) := ⟨by simp, List.Pairwise.nil⟩

theorem sorted_cons {run : α × α} {rest : List (α × α)} :
    Sorted (run :: rest) ↔ run.1 ≤ run.2 ∧ (∀ later ∈ rest, run.2 < later.1) ∧ Sorted rest := by
  constructor
  · rintro ⟨ordered, separated⟩
    rw [List.pairwise_cons] at separated
    exact ⟨ordered run (by simp), separated.1, fun later member => ordered later (by simp [member]), separated.2⟩
  · rintro ⟨first, before, ordered, separated⟩
    refine ⟨?_, List.pairwise_cons.mpr ⟨before, separated⟩⟩
    intro later member
    rcases List.mem_cons.mp member with rfl | inRest
    · exact first
    · exact ordered later inRest

/-- A head bound holds for every later interval. -/
theorem Sorted.head_le {run : α × α} {rest : List (α × α)} (sorted : Sorted (run :: rest)) :
    ∀ later ∈ run :: rest, run.1 ≤ later.1 := by
  obtain ⟨ordered, before, -⟩ := sorted_cons.mp sorted
  intro later member
  rcases List.mem_cons.mp member with rfl | inRest
  · exact le_rfl
  · exact ordered.trans (before later inRest).le

/-- The covered set is the union of all listed intervals. -/
def covered (runs : List (α × α)) : Set α := {point | ∃ run ∈ runs, run.1 ≤ point ∧ point < run.2}

@[simp] theorem covered_nil : covered ([] : List (α × α)) = ∅ := by
  ext point
  simp [covered]

theorem mem_covered_cons {run : α × α} {rest : List (α × α)} {point : α} :
    point ∈ covered (run :: rest) ↔ (run.1 ≤ point ∧ point < run.2) ∨ point ∈ covered rest := by
  simp [covered]

theorem canonical_cons {run : α × α} {rest : List (α × α)} :
    Canonical (run :: rest) ↔
      run.1 < run.2 ∧ (∀ later ∈ rest, run.2 < later.1) ∧ Canonical rest := by
  constructor
  · rintro ⟨nonempty, separated⟩
    rw [List.pairwise_cons] at separated
    exact ⟨nonempty run (by simp), separated.1,
      fun later member => nonempty later (by simp [member]), separated.2⟩
  · rintro ⟨positive, before, nonempty, separated⟩
    refine ⟨?_, List.pairwise_cons.mpr ⟨before, separated⟩⟩
    intro later member
    rcases List.mem_cons.mp member with rfl | inRest
    · exact positive
    · exact nonempty later inRest

/-- A point before the first interval is not covered. -/
theorem Canonical.not_covered_of_lt {runs : List (α × α)} {point : α}
    (beyond : ∀ run ∈ runs, point < run.1) : point ∉ covered runs := by
  rintro ⟨run, member, lower, -⟩
  exact absurd lower (not_le.mpr (beyond run member))

/-- The start of a listed interval is covered. -/
theorem Canonical.start_covered {runs : List (α × α)} (canonical : Canonical runs) {run : α × α}
    (member : run ∈ runs) : run.1 ∈ covered runs :=
  ⟨run, member, le_rfl, canonical.nonempty run member⟩

/-- A bound on the covered points is a bound on the ends. -/
theorem Canonical.end_le {runs : List (α × α)} (canonical : Canonical runs) {bound : α}
    (below : covered runs ⊆ Set.Iio bound) {run : α × α} (member : run ∈ runs) : run.2 ≤ bound := by
  by_contra beyond
  have start : run.1 < bound := below (canonical.start_covered member)
  exact absurd (below ⟨run, member, start.le, not_le.mp beyond⟩) (lt_irrefl bound)

/-- The end of a listed interval is not covered. -/
theorem Canonical.end_not_covered {runs : List (α × α)} (canonical : Canonical runs) {run : α × α}
    (member : run ∈ runs) : run.2 ∉ covered runs := by
  induction runs with
  | nil => simp at member
  | cons head rest ih =>
      obtain ⟨nonempty, before, tail⟩ := canonical_cons.mp canonical
      rw [mem_covered_cons, not_or]
      rcases List.mem_cons.mp member with rfl | inRest
      · exact ⟨fun inside => lt_irrefl _ inside.2, not_covered_of_lt before⟩
      · have ordered := before run inRest
        have positive := tail.nonempty run inRest
        exact ⟨fun inside => absurd inside.2 (not_lt.mpr (ordered.trans positive).le), ih tail inRest⟩

/-- A run of a set is an interval inside it that no larger interval inside it contains. -/
def IsRun (points : Set α) (run : α × α) : Prop :=
  run.1 < run.2 ∧ Set.Ico run.1 run.2 ⊆ points ∧
    ∀ first last, first ≤ run.1 → run.2 ≤ last → Set.Ico first last ⊆ points →
      first = run.1 ∧ last = run.2

/-- No covered interval extends a listed interval to the left. -/
theorem Canonical.start_maximal {runs : List (α × α)} (canonical : Canonical runs) {run : α × α}
    (member : run ∈ runs) {first : α} (reaches : first ≤ run.1)
    (inside : Set.Ico first run.1 ⊆ covered runs) : first = run.1 := by
  induction runs with
  | nil => simp at member
  | cons head rest ih =>
      obtain ⟨nonempty, before, tail⟩ := canonical_cons.mp canonical
      by_contra shorter
      have strict : first < run.1 := lt_of_le_of_ne reaches shorter
      rcases List.mem_cons.mp member with rfl | inRest
      · rcases mem_covered_cons.mp (inside ⟨le_rfl, strict⟩) with here | ⟨later, inLater, reached, -⟩
        · exact absurd here.1 (not_le.mpr strict)
        · exact absurd (reached.trans_lt strict)
            (not_lt.mpr (nonempty.trans (before later inLater)).le)
      · have gap := before run inRest
        by_cases crosses : first ≤ head.2
        · exact canonical.end_not_covered (List.mem_cons_self ..) (inside ⟨crosses, gap⟩)
        · apply shorter
          refine ih tail inRest fun point between => ?_
          rcases mem_covered_cons.mp (inside between) with here | later
          · exact absurd (here.2.trans (not_le.mp crosses)) (not_lt.mpr between.1)
          · exact later

/-- A canonical list names exactly the runs of its covered set. -/
theorem Canonical.mem_iff_isRun {runs : List (α × α)} (canonical : Canonical runs) (run : α × α) :
    run ∈ runs ↔ IsRun (covered runs) run := by
  constructor
  · intro member
    have positive := canonical.nonempty run member
    refine ⟨positive, fun point inside => ⟨run, member, inside.1, inside.2⟩, ?_⟩
    intro first last starts ends inside
    constructor
    · exact canonical.start_maximal member starts fun point between =>
        inside ⟨between.1, between.2.trans_le (positive.le.trans ends)⟩
    · by_contra longer
      exact canonical.end_not_covered member
        (inside ⟨starts.trans positive.le, lt_of_le_of_ne ends (Ne.symm longer)⟩)
  · rintro ⟨positive, inside, maximal⟩
    obtain ⟨host, member, starts, reached⟩ := inside ⟨le_rfl, positive⟩
    have ends : run.2 ≤ host.2 := by
      by_contra longer
      exact canonical.end_not_covered member (inside ⟨reached.le, not_le.mp longer⟩)
    have same := maximal host.1 host.2 starts ends fun point between =>
      ⟨host, member, between.1, between.2⟩
    have equal : host = run := Prod.ext same.1 same.2
    exact equal ▸ member

/-- Two canonical lists of one set are the same list. -/
theorem Canonical.eq_of_covered {first second : List (α × α)} (one : Canonical first) (other : Canonical second)
    (same : covered first = covered second) : first = second := by
  have increasing {runs : List (α × α)} (canonical : Canonical runs) :
      runs.Pairwise fun left right => left.1 < right.1 := by
    refine canonical.separated.imp_of_mem ?_
    intro left right inLeft _ gap
    exact (canonical.nonempty left inLeft).trans gap
  have nodup {runs : List (α × α)} (canonical : Canonical runs) : runs.Nodup :=
    (increasing canonical).imp fun less equal => absurd (congrArg Prod.fst equal) less.ne
  have perm : first.Perm second := by
    rw [List.perm_ext_iff_of_nodup (nodup one) (nodup other)]
    intro run
    rw [one.mem_iff_isRun, other.mem_iff_isRun, same]
  apply perm.eq_of_pairwise ?_ (increasing one) (increasing other)
  intro left right _ _ forth back
  exact absurd forth back.asymm

/-- The answer to the insertion of one interval. -/
inductive Placement (α : Type) where
  | overlap
  | extended (runs : List (α × α))
  | added (runs : List (α × α))

/-- The answer under an unchanged first interval. -/
def Placement.after (run : α × α) : Placement α → Placement α
  | .overlap => .overlap
  | .extended runs => .extended (run :: runs)
  | .added runs => .added (run :: runs)

/-- The interval `[first, last)` joins the list, or meets a covered point. -/
def place (first last : α) : List (α × α) → Placement α
  | [] => .added [(first, last)]
  | run :: rest =>
      if first < run.1 then
        if last < run.1 then .added ((first, last) :: run :: rest)
        else if last = run.1 then .extended ((first, run.2) :: rest)
        else .overlap
      else if first < run.2 then .overlap
      else if first = run.2 then
        match rest with
        | [] => .extended [(run.1, last)]
        | next :: tail =>
            if last < next.1 then .extended ((run.1, last) :: next :: tail)
            else if last = next.1 then .extended ((run.1, next.2) :: tail)
            else .overlap
      else (place first last rest).after run

/-- The listed intervals touch the block `[first, last)` at one of its ends. -/
def Touches (first last : α) (runs : List (α × α)) : Prop :=
  ∃ run ∈ runs, run.2 = first ∨ run.1 = last

/-- What an insertion answers, in terms of the covered set. -/
def Placed (first last : α) (runs : List (α × α)) : Placement α → Prop
  | .overlap => ∃ point, first ≤ point ∧ point < last ∧ point ∈ covered runs
  | .extended next => Canonical next ∧ Disjoint (Set.Ico first last) (covered runs) ∧
      covered next = covered runs ∪ Set.Ico first last ∧ Touches first last runs ∧
      next ≠ [] ∧ next.length ≤ runs.length
  | .added next => Canonical next ∧ Disjoint (Set.Ico first last) (covered runs) ∧
      covered next = covered runs ∪ Set.Ico first last ∧ ¬ Touches first last runs ∧
      next.length = runs.length + 1

/-- What an admitted interval does to a sorted list. -/
structure Admitted (first last : α) (runs next : List (α × α)) : Prop where
  sorted : Sorted next
  apart : Disjoint (Set.Ico first last) (covered runs)
  union : covered next = covered runs ∪ Set.Ico first last
  nonempty : next ≠ []
  starts : ∀ run ∈ next, run.1 = first ∨ ∃ old ∈ runs, run.1 = old.1
  ends : ∀ run ∈ next, run.2 = last ∨ ∃ old ∈ runs, run.2 = old.2

/-- The block lies before the head run. -/
theorem admitted_before {first last : α} {run : α × α} {rest : List (α × α)} (ordered : first ≤ last)
    (sorted : Sorted (run :: rest)) (gap : last < run.1) :
    Admitted first last (run :: rest) ((first, last) :: run :: rest) := by
  have lower := sorted.head_le
  refine ⟨sorted_cons.mpr ⟨ordered, fun later member => gap.trans_le (lower later member), sorted⟩, ?_, ?_, by simp,
    ?_, ?_⟩
  · rw [Set.disjoint_left]
    rintro point ⟨-, upper⟩ ⟨later, member, above, -⟩
    exact absurd (above.trans_lt upper) (not_lt.mpr (gap.le.trans (lower later member)))
  · ext point
    simp only [mem_covered_cons, Set.mem_union, Set.mem_Ico]
    tauto
  · intro later member
    rcases List.mem_cons.mp member with rfl | old
    · exact Or.inl rfl
    · exact Or.inr ⟨later, old, rfl⟩
  · intro later member
    rcases List.mem_cons.mp member with rfl | old
    · exact Or.inl rfl
    · exact Or.inr ⟨later, old, rfl⟩

/-- The block fills the gap before the head run exactly. -/
theorem admitted_joins {first : α} {run : α × α} {rest : List (α × α)} (positive : first < run.1)
    (sorted : Sorted (run :: rest)) : Admitted first run.1 (run :: rest) ((first, run.2) :: rest) := by
  have lower := sorted.head_le
  obtain ⟨ordered, before, tail⟩ := sorted_cons.mp sorted
  refine ⟨sorted_cons.mpr ⟨positive.le.trans ordered, before, tail⟩, ?_, ?_, by simp, ?_, ?_⟩
  · rw [Set.disjoint_left]
    rintro point ⟨-, upper⟩ ⟨later, member, above, -⟩
    exact absurd (above.trans_lt upper) (not_lt.mpr (lower later member))
  · ext point
    simp only [mem_covered_cons, Set.mem_union, Set.mem_Ico]
    grind
  · intro later member
    rcases List.mem_cons.mp member with rfl | old
    · exact Or.inl rfl
    · exact Or.inr ⟨later, List.mem_cons_of_mem run old, rfl⟩
  · intro later member
    rcases List.mem_cons.mp member with rfl | old
    · exact Or.inr ⟨run, by simp, rfl⟩
    · exact Or.inr ⟨later, List.mem_cons_of_mem run old, rfl⟩

/-- The block continues the head run and stays before the later runs. -/
theorem admitted_continues {last : α} {run : α × α} {rest : List (α × α)} (longer : run.2 ≤ last)
    (sorted : Sorted (run :: rest)) (gap : ∀ later ∈ rest, last < later.1) :
    Admitted run.2 last (run :: rest) ((run.1, last) :: rest) := by
  obtain ⟨ordered, -, tail⟩ := sorted_cons.mp sorted
  refine ⟨sorted_cons.mpr ⟨ordered.trans longer, gap, tail⟩, ?_, ?_, by simp, ?_, ?_⟩
  · rw [Set.disjoint_left]
    rintro point ⟨above, upper⟩ inside
    rcases mem_covered_cons.mp inside with ⟨-, below⟩ | ⟨later, member, reached, -⟩
    · exact absurd above (not_le.mpr below)
    · exact absurd (reached.trans_lt upper) (not_lt.mpr (gap later member).le)
  · ext point
    simp only [mem_covered_cons, Set.mem_union, Set.mem_Ico]
    grind
  · intro later member
    rcases List.mem_cons.mp member with rfl | old
    · exact Or.inr ⟨run, by simp, rfl⟩
    · exact Or.inr ⟨later, List.mem_cons_of_mem run old, rfl⟩
  · intro later member
    rcases List.mem_cons.mp member with rfl | old
    · exact Or.inl rfl
    · exact Or.inr ⟨later, List.mem_cons_of_mem run old, rfl⟩

/-- The block bridges the head run and the next run. -/
theorem admitted_bridges {run next : α × α} {tail : List (α × α)} (sorted : Sorted (run :: next :: tail)) :
    Admitted run.2 next.1 (run :: next :: tail) ((run.1, next.2) :: tail) := by
  obtain ⟨ordered, before, rest⟩ := sorted_cons.mp sorted
  obtain ⟨nextOrdered, later, tailSorted⟩ := sorted_cons.mp rest
  have lower := rest.head_le
  have gap := before next (by simp)
  refine ⟨sorted_cons.mpr ⟨ordered.trans (gap.le.trans nextOrdered), later, tailSorted⟩, ?_, ?_, by simp, ?_, ?_⟩
  · rw [Set.disjoint_left]
    rintro point ⟨above, upper⟩ inside
    rcases mem_covered_cons.mp inside with ⟨-, below⟩ | ⟨following, member, reached, -⟩
    · exact absurd above (not_le.mpr below)
    · exact absurd (reached.trans_lt upper) (not_lt.mpr (lower following member))
  · ext point
    simp only [mem_covered_cons, Set.mem_union, Set.mem_Ico]
    grind
  · intro other member
    rcases List.mem_cons.mp member with rfl | old
    · exact Or.inr ⟨run, by simp, rfl⟩
    · exact Or.inr ⟨other, by simp [old], rfl⟩
  · intro other member
    rcases List.mem_cons.mp member with rfl | old
    · exact Or.inr ⟨next, by simp, rfl⟩
    · exact Or.inr ⟨other, by simp [old], rfl⟩

/-- An admission behind the head run is an admission to the whole list. -/
theorem Admitted.after {first last : α} {run : α × α} {rest next : List (α × α)} (sorted : Sorted (run :: rest))
    (beyond : run.2 < first) (admitted : Admitted first last rest next) :
    Admitted first last (run :: rest) (run :: next) := by
  obtain ⟨ordered, before, -⟩ := sorted_cons.mp sorted
  refine ⟨sorted_cons.mpr ⟨ordered, ?_, admitted.sorted⟩, ?_, ?_, by simp, ?_, ?_⟩
  · intro later member
    rcases admitted.starts later member with fresh | ⟨old, inRest, same⟩
    · rw [fresh]
      exact beyond
    · rw [same]
      exact before old inRest
  · have apart := admitted.apart
    rw [Set.disjoint_left] at apart ⊢
    intro point inside member
    rcases mem_covered_cons.mp member with here | later
    · exact absurd (beyond.trans_le inside.1) (not_lt.mpr here.2.le)
    · exact apart inside later
  · ext point
    rw [mem_covered_cons, admitted.union, Set.mem_union, Set.mem_union, mem_covered_cons]
    tauto
  · intro later member
    rcases List.mem_cons.mp member with rfl | inNext
    · exact Or.inr ⟨later, by simp, rfl⟩
    · rcases admitted.starts later inNext with fresh | ⟨old, inRest, same⟩
      · exact Or.inl fresh
      · exact Or.inr ⟨old, List.mem_cons_of_mem run inRest, same⟩
  · intro later member
    rcases List.mem_cons.mp member with rfl | inNext
    · exact Or.inr ⟨later, by simp, rfl⟩
    · rcases admitted.ends later inNext with fresh | ⟨old, inRest, same⟩
      · exact Or.inl fresh
      · exact Or.inr ⟨old, List.mem_cons_of_mem run inRest, same⟩

/-- The list after an admission. -/
def Placement.admits : Placement α → List (α × α) → Prop
  | .overlap, _ => False
  | .extended runs, next => runs = next
  | .added runs, next => runs = next

omit [LinearOrder α] in
theorem Placement.admits_after {run : α × α} {answer : Placement α} {next : List (α × α)}
    (admits : (answer.after run).admits next) : ∃ rest, answer.admits rest ∧ next = run :: rest := by
  cases answer with
  | overlap => exact admits.elim
  | extended runs => exact ⟨runs, rfl, admits.symm⟩
  | added runs => exact ⟨runs, rfl, admits.symm⟩

omit [LinearOrder α] in
theorem Placement.admits_unique {answer : Placement α} {next other : List (α × α)} (admits : answer.admits next)
    (same : answer.admits other) : next = other := by
  cases answer with
  | overlap => exact admits.elim
  | extended runs => exact admits.symm.trans same
  | added runs => exact admits.symm.trans same

/-- The insertion is exact on sorted lists, also for an empty block. -/
theorem place_admits {first last : α} (ordered : first ≤ last) {runs : List (α × α)} :
    Sorted runs → ∀ {next : List (α × α)}, (place first last runs).admits next → Admitted first last runs next := by
  induction runs with
  | nil =>
      rintro - next rfl
      refine ⟨sorted_cons.mpr ⟨ordered, by simp, sorted_nil⟩, by simp, ?_, by simp, by simp, by simp⟩
      ext point
      simp [mem_covered_cons]
  | cons run rest ih =>
      intro sorted next admits
      obtain ⟨-, before, tail⟩ := sorted_cons.mp sorted
      rw [place.eq_def] at admits
      dsimp only at admits
      split_ifs at admits with ahead gap joins inside continues
      · obtain rfl := admits
        exact admitted_before ordered sorted gap
      · obtain rfl := admits
        subst joins
        exact admitted_joins ahead sorted
      · exact admits.elim
      · exact admits.elim
      · subst continues
        cases rest with
        | nil =>
            obtain rfl := admits
            exact admitted_continues ordered sorted (by simp)
        | cons following tail =>
            dsimp only at admits
            split_ifs at admits with short bridges
            · obtain rfl := admits
              have lower := (sorted_cons.mp sorted).2.2.head_le
              exact admitted_continues ordered sorted fun later member => short.trans_le (lower later member)
            · obtain rfl := admits
              subst bridges
              exact admitted_bridges sorted
            · exact admits.elim
      · obtain ⟨inRest, restAdmits, rfl⟩ := Placement.admits_after admits
        exact (ih tail restAdmits).after sorted (lt_of_le_of_ne (not_lt.mp inside) (Ne.symm continues))

/-- The insertion of a block with a point keeps every listed interval non-empty. -/
theorem place_nonempty {first last : α} (positive : first < last) {runs : List (α × α)} :
    Canonical runs → ∀ {next : List (α × α)}, (place first last runs).admits next →
      ∀ run ∈ next, run.1 < run.2 := by
  induction runs with
  | nil =>
      rintro - next rfl run member
      obtain rfl := List.mem_singleton.mp member
      exact positive
  | cons head rest ih =>
      intro canonical next admits run member
      obtain ⟨nonempty, before, tail⟩ := canonical_cons.mp canonical
      have later (inRest : run ∈ rest) : run.1 < run.2 := tail.nonempty run inRest
      rw [place.eq_def] at admits
      dsimp only at admits
      split_ifs at admits with ahead gap joins inside continues
      · obtain rfl := admits
        rcases List.mem_cons.mp member with rfl | old
        · exact positive
        · exact canonical.nonempty run old
      · obtain rfl := admits
        rcases List.mem_cons.mp member with rfl | old
        · exact ahead.trans nonempty
        · exact later old
      · exact admits.elim
      · exact admits.elim
      · cases rest with
        | nil =>
            obtain rfl := admits
            obtain rfl := List.mem_singleton.mp member
            exact nonempty.trans (continues ▸ positive)
        | cons following tail =>
            dsimp only at admits
            split_ifs at admits with short bridges
            · obtain rfl := admits
              rcases List.mem_cons.mp member with rfl | old
              · exact nonempty.trans (continues ▸ positive)
              · exact later old
            · obtain rfl := admits
              rcases List.mem_cons.mp member with rfl | old
              · exact nonempty.trans ((before following (by simp)).trans (tail.nonempty following (by simp)))
              · exact later (List.mem_cons_of_mem following old)
            · exact admits.elim
      · obtain ⟨inRest, restAdmits, rfl⟩ := Placement.admits_after admits
        rcases List.mem_cons.mp member with rfl | old
        · exact nonempty
        · exact ih tail restAdmits run old

/-- The list grows only when the block is added. -/
theorem place_length (first last : α) (runs : List (α × α)) :
    match place first last runs with
    | .overlap => True
    | .extended next => next.length ≤ runs.length
    | .added next => next.length = runs.length + 1 := by
  induction runs with
  | nil => rfl
  | cons run rest ih =>
      rw [place.eq_def]
      dsimp only
      split_ifs
      · rfl
      · simp
      · trivial
      · trivial
      · cases rest with
        | nil => simp
        | cons next tail =>
            dsimp only
            split_ifs <;> simp
      · cases answer : place first last rest with
        | overlap => trivial
        | extended next =>
            rw [answer] at ih
            simpa [Placement.after] using ih
        | added next =>
            rw [answer] at ih
            simpa [Placement.after] using ih

/-- Only a block that meets the covered set is refused, and only one that touches an interval extends it. -/
theorem place_answers {first last : α} (positive : first < last) {runs : List (α × α)} (canonical : Canonical runs) :
    match place first last runs with
    | .overlap => ∃ point, first ≤ point ∧ point < last ∧ point ∈ covered runs
    | .extended _ => Touches first last runs
    | .added _ => ¬ Touches first last runs := by
  induction runs with
  | nil => simp [place, Touches]
  | cons run rest ih =>
      obtain ⟨nonempty, before, tail⟩ := canonical_cons.mp canonical
      rw [place.eq_def]
      dsimp only
      split_ifs with ahead gap joins inside continues
      · rintro ⟨later, member, ends | starts⟩
        · have lower := canonical.sorted.head_le later member
          have some := canonical.nonempty later member
          exact absurd (some.trans (ends ▸ ahead)) (not_lt.mpr lower)
        · exact absurd (canonical.sorted.head_le later member) (not_le.mpr (starts ▸ gap))
      · exact ⟨run, by simp, Or.inr joins.symm⟩
      · exact ⟨run.1, ahead.le, lt_of_le_of_ne (not_lt.mp gap) (Ne.symm joins),
          mem_covered_cons.mpr (Or.inl ⟨le_rfl, nonempty⟩)⟩
      · exact ⟨first, le_rfl, positive, mem_covered_cons.mpr (Or.inl ⟨not_lt.mp ahead, inside⟩)⟩
      · have touches : Touches first last (run :: rest) := ⟨run, by simp, Or.inl continues.symm⟩
        cases rest with
        | nil => exact touches
        | cons next following =>
            dsimp only
            split_ifs with short bridges
            · exact touches
            · exact touches
            · have gap := before next (by simp)
              exact ⟨next.1, continues ▸ gap.le, lt_of_le_of_ne (not_lt.mp short) (Ne.symm bridges),
                mem_covered_cons.mpr (Or.inr (mem_covered_cons.mpr (Or.inl
                  ⟨le_rfl, tail.nonempty next (by simp)⟩)))⟩
      · have beyond : run.2 < first := lt_of_le_of_ne (not_lt.mp inside) (Ne.symm continues)
        have touches : Touches first last (run :: rest) ↔ Touches first last rest := by
          constructor
          · rintro ⟨later, member, touching⟩
            rcases List.mem_cons.mp member with rfl | inRest
            · rcases touching with ends | starts
              · exact absurd ends beyond.ne
              · exact absurd starts ((nonempty.trans beyond).trans positive).ne
            · exact ⟨later, inRest, touching⟩
          · rintro ⟨later, member, touching⟩
            exact ⟨later, by simp [member], touching⟩
        have remaining := ih tail
        cases answer : place first last rest with
        | overlap =>
            rw [answer] at remaining
            obtain ⟨point, above, below, inside⟩ := remaining
            exact ⟨point, above, below, mem_covered_cons.mpr (Or.inr inside)⟩
        | extended next =>
            rw [answer] at remaining
            exact touches.mpr remaining
        | added next =>
            rw [answer] at remaining
            exact fun touching => remaining (touches.mp touching)

/-- The insertion is exact on canonical lists. -/
theorem place_spec {first last : α} (positive : first < last) {runs : List (α × α)}
    (canonical : Canonical runs) : Placed first last runs (place first last runs) := by
  have answers := place_answers positive canonical
  have lengths := place_length first last runs
  have admits {next : List (α × α)} := @place_admits _ _ first last positive.le runs canonical.sorted next
  have nonempty {next : List (α × α)} := @place_nonempty _ _ first last positive runs canonical next
  cases answer : place first last runs with
  | overlap =>
      rw [answer] at answers
      exact answers
  | extended next =>
      rw [answer] at answers lengths admits nonempty
      have admitted := admits rfl
      exact ⟨⟨nonempty rfl, admitted.sorted.separated⟩, admitted.apart, admitted.union, answers,
        admitted.nonempty, lengths⟩
  | added next =>
      rw [answer] at answers lengths admits nonempty
      have admitted := admits rfl
      exact ⟨⟨nonempty rfl, admitted.sorted.separated⟩, admitted.apart, admitted.union, answers, lengths⟩

/-- The first interval joins the finished part when it starts at its end. -/
def absorb (position : α) : List (α × α) → α × List (α × α)
  | [] => (position, [])
  | run :: rest => if run.1 = position then (run.2, rest) else (position, run :: rest)

/-- The finished part grows exactly by the intervals that leave the list. -/
theorem absorb_spec {position : α} {runs : List (α × α)} (sorted : Sorted runs)
    (beyond : ∀ run ∈ runs, position ≤ run.1) :
    Sorted (absorb position runs).2 ∧ position ≤ (absorb position runs).1 ∧
      (∀ run ∈ (absorb position runs).2, (absorb position runs).1 < run.1) ∧
      covered (absorb position runs).2 ∪ Set.Ico position (absorb position runs).1 = covered runs ∧
      (∀ run ∈ (absorb position runs).2, run ∈ runs) ∧
      (absorb position runs).2.length ≤ runs.length := by
  cases runs with
  | nil => simp [absorb]
  | cons run rest =>
      obtain ⟨ordered, before, tail⟩ := sorted_cons.mp sorted
      by_cases turn : run.1 = position
      · simp only [absorb, if_pos turn]
        refine ⟨tail, turn ▸ ordered, before, ?_, fun later member => List.mem_cons_of_mem run member,
          by simp⟩
        ext point
        simp only [mem_covered_cons, Set.mem_union, Set.mem_Ico, turn]
        tauto
      · simp only [absorb, if_neg turn]
        have strict : position < run.1 := lt_of_le_of_ne (beyond run (by simp)) (Ne.symm turn)
        refine ⟨sorted, le_rfl, fun later member => strict.trans_le (sorted.head_le later member), ?_,
          fun _ member => member, le_rfl⟩
        simp

/-- The largest end of the intervals, or `start` when none ends beyond it. -/
def furthest (start : α) (runs : List (α × α)) : α := runs.foldr (fun run bound => max run.2 bound) start

theorem furthest_cons (start : α) (run : α × α) (rest : List (α × α)) :
    furthest start (run :: rest) = max run.2 (furthest start rest) := rfl

theorem furthest_le {start bound : α} {runs : List (α × α)} :
    furthest start runs ≤ bound ↔ start ≤ bound ∧ ∀ run ∈ runs, run.2 ≤ bound := by
  induction runs with
  | nil => simp [furthest]
  | cons run rest ih =>
      rw [furthest_cons, max_le_iff, ih, List.forall_mem_cons]
      tauto

theorem start_le_furthest (start : α) (runs : List (α × α)) : start ≤ furthest start runs :=
  (furthest_le.mp le_rfl).1

theorem end_le_furthest (start : α) {runs : List (α × α)} {run : α × α} (member : run ∈ runs) :
    run.2 ≤ furthest start runs := (furthest_le.mp le_rfl).2 run member

/-- An insertion moves the furthest end at most to the end of its block. -/
theorem furthest_place {start first last : α} (ordered : first ≤ last) {runs : List (α × α)} :
    Sorted runs → ∀ {next : List (α × α)}, (place first last runs).admits next →
      furthest start next = max last (furthest start runs) := by
  induction runs with
  | nil =>
      rintro - next rfl
      rfl
  | cons run rest ih =>
      intro sorted next admits
      obtain ⟨headOrdered, before, tail⟩ := sorted_cons.mp sorted
      rw [place.eq_def] at admits
      dsimp only at admits
      split_ifs at admits with ahead gap joins inside continues
      · obtain rfl := admits
        rfl
      · obtain rfl := admits
        rw [furthest_cons, furthest_cons, ← max_assoc, max_eq_right (joins.le.trans headOrdered)]
      · exact admits.elim
      · exact admits.elim
      · have longer : run.2 ≤ last := continues ▸ ordered
        cases rest with
        | nil =>
            obtain rfl := admits
            rw [furthest_cons, furthest_cons, ← max_assoc, max_eq_left longer]
        | cons following tail =>
            dsimp only at admits
            split_ifs at admits with short bridges
            · obtain rfl := admits
              rw [furthest_cons, furthest_cons start run, ← max_assoc, max_eq_left longer]
            · obtain rfl := admits
              have followingOrdered := sorted.ordered following (by simp)
              rw [furthest_cons, furthest_cons, furthest_cons, ← max_assoc, max_eq_left longer, ← max_assoc,
                max_eq_right (bridges.le.trans followingOrdered)]
            · exact admits.elim
      · obtain ⟨inRest, restAdmits, rfl⟩ := Placement.admits_after admits
        rw [furthest_cons, furthest_cons, ih tail restAdmits, max_left_comm]

/-- The furthest end stays when the first interval joins the finished part. -/
theorem furthest_absorb {position : α} {runs : List (α × α)} (sorted : Sorted runs) :
    furthest (absorb position runs).1 (absorb position runs).2 = furthest position runs := by
  cases runs with
  | nil => rfl
  | cons run rest =>
      by_cases turn : run.1 = position
      · obtain ⟨ordered, -, -⟩ := sorted_cons.mp sorted
        rw [absorb, if_pos turn]
        apply le_antisymm
        · exact furthest_le.mpr ⟨end_le_furthest position (by simp), fun later member =>
            end_le_furthest position (List.mem_cons_of_mem run member)⟩
        · refine furthest_le.mpr ⟨?_, ?_⟩
          · exact (turn ▸ ordered).trans (start_le_furthest run.2 rest)
          · rw [List.forall_mem_cons]
            exact ⟨start_le_furthest run.2 rest, fun later => end_le_furthest run.2⟩
      · rw [absorb, if_neg turn]

end Altus.Runs
