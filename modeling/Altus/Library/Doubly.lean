import Altus.Library.Owners

namespace Altus.Chain

/-!
Doubly linked chains of several owners.
-/

variable {α ι : Type}

/-- The first link of a chain, and the rest of it. -/
theorem linked_cons {next : α → Option α} {cell : α} {rest : List α} :
    Linked next (cell :: rest) ↔ next cell = rest.head? ∧ Linked next rest := by
  constructor
  · intro linked
    refine ⟨?_, linked.tail⟩
    rw [linked.next_eq (show (cell :: rest)[0]? = some cell from rfl), List.getElem?_cons_succ,
      List.head?_eq_getElem?]
  · rintro ⟨first, linked⟩ index inside
    cases index with
    | zero =>
        rw [List.getElem_cons_zero, first, List.head?_eq_getElem?]
        rfl
    | succ index =>
        rw [List.getElem_cons_succ, List.getElem?_cons_succ]
        exact linked index (by simpa using inside)

/-- The back of a chain is a chain. -/
theorem Linked.drop {next : α → Option α} {cells : List α} (linked : Linked next cells) (count : Nat) :
    Linked next (cells.drop count) := by
  induction count generalizing cells with
  | zero => exact linked
  | succ count ih =>
      cases cells with
      | nil => exact linked
      | cons head rest => exact ih linked.tail

/-- The front of a chain ends where the link of its last cell goes. -/
theorem Linked.cut {next other : α → Option α} {cells rest : List α} {last : α}
    (linked : Linked next (cells ++ rest)) (nodup : cells.Nodup) (ends : cells.getLast? = some last)
    (newEnd : other last = none) (same : ∀ cell ∈ cells, cell ≠ last → other cell = next cell) :
    Linked other cells := by
  have lastAt : cells[cells.length - 1]? = some last := by rw [← List.getLast?_eq_getElem?, ends]
  intro index inside
  rcases Nat.lt_or_ge (index + 1) cells.length with early | final
  · have different : cells[index] ≠ last := by
      intro equal
      have places := place_unique nodup (List.getElem?_eq_some_iff.mpr ⟨inside, equal⟩) lastAt
      omega
    have here : (cells ++ rest)[index]? = some cells[index] := by
      rw [List.getElem?_append_left inside, List.getElem?_eq_getElem inside]
    rw [same _ (List.getElem_mem inside) different, linked.next_eq here, List.getElem?_append_left early]
  · have here : cells[index] = last := by
      rw [show cells.length - 1 = index by omega] at lastAt
      exact (List.getElem?_eq_some_iff.mp lastAt).2
    rw [here, newEnd]
    exact (List.getElem?_eq_none_iff.mpr final).symm

/-- Every owner keeps a chain of its own, and the backward links invert the forward ones. -/
structure DoublyOwned (next prev : α → Option α) (chain : ι → List α) : Prop extends Owned next chain where
  back : ∀ owner, Linked prev (chain owner).reverse

section Change

variable [DecidableEq α] [DecidableEq ι] {next prev : α → Option α} {chain : ι → List α} {owner : ι}

omit [DecidableEq α] in
/-- The backward links of the other owners stay. -/
theorem DoublyOwned.set (doubly : DoublyOwned next prev chain) {other before : α → Option α} {cells : List α}
    (owned : Owned other (Function.update chain owner cells)) (back : Linked before cells.reverse)
    (same : ∀ holder, holder ≠ owner → ∀ cell ∈ chain holder, before cell = prev cell) :
    DoublyOwned other before (Function.update chain owner cells) where
  toOwned := owned
  back := by
    intro holder
    by_cases own : holder = owner
    · subst own
      rw [Function.update_self]
      exact back
    · rw [Function.update_of_ne own]
      apply (doubly.back holder).congr
      intro cell member
      exact same holder own cell (List.mem_reverse.mp member)

/-- A free cell joins behind the last cell of a chain. -/
theorem DoublyOwned.append (doubly : DoublyOwned next prev chain) {last cell : α} (free : Free chain cell)
    (ends : (chain owner).getLast? = some last) :
    DoublyOwned (Function.update (Function.update next cell none) last (some cell))
      (Function.update prev cell (some last)) (Function.update chain owner (chain owner ++ [cell])) := by
  have lastMember : last ∈ chain owner := List.mem_of_getLast? ends
  have different : cell ≠ last := fun same => free owner (same ▸ lastMember)
  have kept (holder : ι) (other : α) (member : other ∈ chain holder) (notLast : other ≠ last) :
      Function.update (Function.update next cell none) last (some cell) other = next other := by
    have notCell : other ≠ cell := fun same => free holder (same ▸ member)
    rw [Function.update_of_ne notLast, Function.update_of_ne notCell]
  have keptBack (holder : ι) (other : α) (member : other ∈ chain holder) :
      Function.update prev cell (some last) other = prev other := by
    have notCell : other ≠ cell := fun same => free holder (same ▸ member)
    rw [Function.update_of_ne notCell]
  apply doubly.set
  · refine doubly.toOwned.set owner ?_ ?_ ?_ ?_
    · apply (doubly.linked owner).append (doubly.nodup owner) ends
      · rw [Function.update_self]
      · rw [Function.update_of_ne different, Function.update_self]
      · exact kept owner
    · rw [List.nodup_append_comm]
      exact List.nodup_cons.mpr ⟨free owner, doubly.nodup owner⟩
    · intro other member holder held
      rcases List.mem_append.mp member with old | new
      · exact doubly.apart holder owner other held old
      · rw [List.mem_singleton.mp new] at held
        exact absurd held (free holder)
    · intro holder own other member
      refine kept holder other member ?_
      rintro rfl
      exact own (doubly.apart holder owner other member lastMember)
  · rw [List.reverse_append, List.reverse_singleton, List.singleton_append, linked_cons, List.head?_reverse, ends,
      Function.update_self]
    refine ⟨rfl, (doubly.back owner).congr ?_⟩
    intro other member
    exact keptBack owner other (List.mem_reverse.mp member)
  · intro holder _ other member
    exact keptBack holder other member

/-- The first cell of a chain of several cells becomes free. -/
theorem DoublyOwned.dropFirst (doubly : DoublyOwned next prev chain) {first second : α} {rest : List α}
    (cells : chain owner = first :: second :: rest) :
    DoublyOwned next (Function.update prev second none) (Function.update chain owner (second :: rest)) ∧
      Free (Function.update chain owner (second :: rest)) first := by
  have linked := doubly.linked owner
  have nodup := doubly.nodup owner
  have back := doubly.back owner
  rw [cells] at linked nodup back
  have secondMember : second ∈ chain owner := by rw [cells]; simp
  have firstMember : first ∈ chain owner := by rw [cells]; simp
  have restNodup : (second :: rest).Nodup := (List.nodup_cons.mp nodup).2
  constructor
  · apply doubly.set
    · refine doubly.toOwned.set owner linked.tail restNodup ?_ (fun _ _ _ _ => rfl)
      intro other member holder held
      have inside : other ∈ chain owner := by
        rw [cells]
        exact List.mem_cons_of_mem first member
      exact doubly.apart holder owner other held inside
    · rw [List.reverse_cons] at back
      refine back.cut (List.nodup_reverse.mpr restNodup) ?_ (Function.update_self ..) ?_
      · rw [List.getLast?_reverse]
        rfl
      · intro other _ notSecond
        exact Function.update_of_ne notSecond _ _
    · intro holder own other member
      refine Function.update_of_ne ?_ _ _
      rintro rfl
      exact own (doubly.apart holder owner other member secondMember)
  · intro holder held
    by_cases own : holder = owner
    · subst own
      rw [Function.update_self] at held
      exact (List.nodup_cons.mp nodup).1 held
    · rw [Function.update_of_ne own] at held
      exact own (doubly.apart holder owner first held firstMember)

/-- A free cell becomes the chain of an owner without cells. -/
theorem DoublyOwned.start (doubly : DoublyOwned next prev chain) {cell : α} (free : Free chain cell) (owner : ι) :
    DoublyOwned (Function.update next cell none) (Function.update prev cell none)
      (Function.update chain owner [cell]) := by
  have different {holder : ι} {other : α} (member : other ∈ chain holder) : other ≠ cell :=
    fun same => free holder (same ▸ member)
  apply doubly.set
  · refine doubly.toOwned.set owner (linked_single (Function.update_self ..)) (List.nodup_singleton cell) ?_ ?_
    · intro other member holder held
      rw [List.mem_singleton.mp member] at held
      exact absurd held (free holder)
    · intro holder _ other member
      exact Function.update_of_ne (different member) _ _
  · rw [List.reverse_singleton]
    exact linked_single (Function.update_self ..)
  · intro holder _ other member
    exact Function.update_of_ne (different member) _ _

end Change

end Altus.Chain
