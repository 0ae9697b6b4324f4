import Mathlib.Logic.Function.Basic
import Mathlib.Logic.Relation
import Mathlib.Tactic

namespace Altus.Network

/-!
Parties that share nothing but a log. A party may act on any note of the log at any time and any number of times,
so what the log calls a message may be lost, repeated and reordered.
-/

variable {ι σ ν : Type}

/-- The state of each party, and the log of everything that happened. -/
structure Config (ι σ ν : Type) where
  party : ι → σ
  log : List ν

/-- What the parties can do with a log, and the notes that may come from elsewhere. -/
structure System (ι σ ν : Type) where
  moves : ι → List ν → σ → List ν → σ → Prop
  outside : ν → Prop

/-- One party acts and appends its notes, or a note comes from outside. -/
inductive System.Step [DecidableEq ι] (system : System ι σ ν) (config : Config ι σ ν) : Config ι σ ν → Prop
  | act (actor : ι) {notes : List ν} {next : σ}
      (moved : system.moves actor config.log (config.party actor) notes next) :
      Step system config ⟨Function.update config.party actor next, config.log ++ notes⟩
  | enter {note : ν} (foreign : system.outside note) : Step system config ⟨config.party, config.log ++ [note]⟩

/-- The notes before each note justify it. -/
def Causal (justified : List ν → ν → Prop) (log : List ν) : Prop :=
  ∀ before note after, log = before ++ note :: after → justified before note

/-- A property of a log that later notes cannot break. -/
def Stable {α : Type} (property : List ν → α → Prop) : Prop :=
  ∀ log more subject, property log subject → property (log ++ more) subject

section Logs

variable {justified : List ν → ν → Prop} {log notes : List ν} {note : ν}

theorem Causal.nil : Causal justified [] := by
  intro before note after split
  simp at split

/-- A causal log grows by one justified note. -/
theorem Causal.concat (causal : Causal justified log)
    (here : justified log note) : Causal justified (log ++ [note]) := by
  intro before other after split
  rcases List.eq_nil_or_concat after with rfl | ⟨front, last, rfl⟩
  · obtain ⟨rfl, same⟩ := List.append_inj' split rfl
    obtain rfl := List.singleton_inj.mp same
    exact here
  · have parts : log ++ [note] = (before ++ other :: front) ++ [last] := by
      rw [split, List.concat_eq_append, List.append_assoc, List.cons_append]
    obtain ⟨rfl, -⟩ := List.append_inj' parts rfl
    exact causal before other front rfl

/-- A causal log grows by notes that it justifies already. -/
theorem Causal.append (stable : Stable justified) (causal : Causal justified log)
    (all : ∀ note ∈ notes, justified log note) : Causal justified (log ++ notes) := by
  induction notes using List.reverseRecOn with
  | nil => rwa [List.append_nil]
  | append_singleton front last ih =>
      rw [← List.append_assoc]
      apply (ih fun note member => all note (List.mem_append_left _ member)).concat
      exact stable log front last (all last (List.mem_append_right _ (List.mem_singleton_self _)))

/-- Every note of a causal log stands behind the notes that justify it. -/
theorem Causal.before (causal : Causal justified log) (member : note ∈ log) :
    ∃ before, before ++ [note] <+: log ∧ justified before note ∧ Causal justified before := by
  obtain ⟨before, after, split⟩ := List.append_of_mem member
  refine ⟨before, ⟨after, by rw [split]; simp⟩, causal before note after split, ?_⟩
  rintro front other back rfl
  apply causal front other (back ++ note :: after)
  rw [split, List.append_assoc, List.cons_append]

end Logs

/-- An invariant of each party that later notes keep, together with the reason of each note. -/
structure System.Inductive (system : System ι σ ν) (good : ι → List ν → σ → Prop) (justified : List ν → ν → Prop) :
    Prop where
  stable : ∀ party, Stable (good party)
  moves : ∀ party log state notes next, good party log state → Causal justified log →
    system.moves party log state notes next → good party (log ++ notes) next ∧ Causal justified (log ++ notes)
  foreign : ∀ log note, system.outside note → justified log note

namespace System.Inductive

variable [DecidableEq ι] {system : System ι σ ν} {good : ι → List ν → σ → Prop} {justified : List ν → ν → Prop}
  {config next : Config ι σ ν}

/-- The invariant has to be checked only at the party that acts. -/
theorem step (rule : system.Inductive good justified)
    (holds : (∀ party, good party config.log (config.party party)) ∧ Causal justified config.log)
    (step : system.Step config next) :
    (∀ party, good party next.log (next.party party)) ∧ Causal justified next.log := by
  obtain ⟨all, causal⟩ := holds
  cases step with
  | act actor moved =>
      obtain ⟨kept, extended⟩ := rule.moves _ _ _ _ _ (all actor) causal moved
      refine ⟨?_, extended⟩
      intro party
      dsimp only
      by_cases own : party = actor
      · subst own
        rw [Function.update_self]
        exact kept
      · rw [Function.update_of_ne own]
        exact rule.stable party _ _ _ (all party)
  | enter foreign =>
      exact ⟨fun party => rule.stable party _ _ _ (all party), causal.concat (rule.foreign _ _ foreign)⟩

theorem run (rule : system.Inductive good justified)
    (begins : (∀ party, good party config.log (config.party party)) ∧ Causal justified config.log)
    (run : Relation.ReflTransGen system.Step config next) :
    (∀ party, good party next.log (next.party party)) ∧ Causal justified next.log := by
  induction run with
  | refl => exact begins
  | tail _ last ih => exact rule.step ih last

end System.Inductive

end Altus.Network
