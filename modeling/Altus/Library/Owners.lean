import Altus.Library.Chain

namespace Altus.Chain

/-!
Several owners keep one chain each, and no cell lies on two chains.
-/

variable {α ι : Type}

/-- One cell links to another. -/
def Link (next : α → Option α) (first second : α) : Prop := next first = some second

/-- A cell that a chain reaches lies on the chain. -/
theorem Linked.mem_of_reach {next : α → Option α} {cells : List α} (linked : Linked next cells)
    {first last : α} (member : first ∈ cells) (reach : Relation.ReflTransGen (Link next) first last) :
    last ∈ cells := by
  induction reach with
  | refl => exact member
  | tail _ link ih =>
      obtain ⟨index, here⟩ := List.mem_iff_getElem?.mp ih
      have following := linked.next_eq here
      rw [link] at following
      exact List.mem_of_getElem? following.symm

theorem linked_single {next : α → Option α} {cell : α} (ends : next cell = none) : Linked next [cell] := by
  intro index inside
  obtain rfl : index = 0 := by simpa using inside
  simpa using ends

theorem linked_pair {next : α → Option α} {first second : α} (link : next first = some second)
    (ends : next second = none) : Linked next [first, second] := by
  intro index inside
  rcases index with _ | _ | index
  · simpa using link
  · simpa using ends
  · simp at inside

/-- Every owner keeps a chain of its own. -/
structure Owned (next : α → Option α) (chain : ι → List α) : Prop where
  linked : ∀ owner, Linked next (chain owner)
  nodup : ∀ owner, (chain owner).Nodup
  apart : ∀ first second cell, cell ∈ chain first → cell ∈ chain second → first = second

/-- A cell that no owner keeps. -/
def Free (chain : ι → List α) (cell : α) : Prop := ∀ owner, cell ∉ chain owner

section Change

variable {next other : α → Option α} {chain : ι → List α}

/-- The cells of all chains after one owner took another chain. -/
theorem exists_mem_update [DecidableEq ι] (chain : ι → List α) (owner : ι) (cells : List α) (cell : α) :
    (∃ holder, cell ∈ Function.update chain owner cells holder) ↔
      cell ∈ cells ∨ ∃ holder, holder ≠ owner ∧ cell ∈ chain holder := by
  constructor
  · rintro ⟨holder, member⟩
    by_cases own : holder = owner
    · subst own
      rw [Function.update_self] at member
      exact Or.inl member
    · rw [Function.update_of_ne own] at member
      exact Or.inr ⟨holder, own, member⟩
  · rintro (member | ⟨holder, own, member⟩)
    · exact ⟨owner, by rw [Function.update_self]; exact member⟩
    · exact ⟨holder, by rw [Function.update_of_ne own]; exact member⟩

/-- One owner takes another chain, of its own cells and of free cells. -/
theorem Owned.set [DecidableEq ι] (owned : Owned next chain) (owner : ι) {cells : List α}
    (linked : Linked other cells) (nodup : cells.Nodup)
    (allowed : ∀ cell ∈ cells, ∀ holder, cell ∈ chain holder → holder = owner)
    (same : ∀ holder, holder ≠ owner → ∀ cell ∈ chain holder, other cell = next cell) :
    Owned other (Function.update chain owner cells) where
  linked := by
    intro holder
    by_cases own : holder = owner
    · subst own
      simpa using linked
    · rw [Function.update_of_ne own]
      exact (owned.linked holder).congr (same holder own)
  nodup := by
    intro holder
    by_cases own : holder = owner
    · subst own
      simpa using nodup
    · rw [Function.update_of_ne own]
      exact owned.nodup holder
  apart := by
    intro first second cell inFirst inSecond
    by_cases firstOwn : first = owner <;> by_cases secondOwn : second = owner
    · exact firstOwn.trans secondOwn.symm
    · subst firstOwn
      rw [Function.update_self] at inFirst
      rw [Function.update_of_ne secondOwn] at inSecond
      exact absurd (allowed cell inFirst second inSecond) secondOwn
    · subst secondOwn
      rw [Function.update_self] at inSecond
      rw [Function.update_of_ne firstOwn] at inFirst
      exact absurd (allowed cell inSecond first inFirst) firstOwn
    · rw [Function.update_of_ne firstOwn] at inFirst
      rw [Function.update_of_ne secondOwn] at inSecond
      exact owned.apart first second cell inFirst inSecond

end Change

end Altus.Chain
