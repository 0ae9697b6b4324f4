import Altus.Library.Serial
import Altus.Library.Runs
import Altus.Construction.UBList

namespace Altus.UBList

open Runs

/-- The first `count` entries are the serial numbers of the listed runs. -/
structure Lists (ubList : UBList) (runs : List (Nat × Nat)) : Prop where
  count : ubList.count = BitVec.ofNat 32 runs.length
  entry : ∀ index run, runs[index]? = some run →
    ubList.headSeq index = BitVec.ofNat 32 run.1 ∧ ubList.tailSeq index = BitVec.ofNat 32 run.2

/-- All ends of the runs lie in one half range of the sequence numbers. -/
def Within (base : Nat) (runs : List (Nat × Nat)) : Prop :=
  ∀ run ∈ runs, base ≤ run.1 ∧ run.1 ≤ run.2 ∧ run.2 < base + 2 ^ 31

theorem Lists.nil (ubList : UBList) (empty : ubList.count = 0) : Lists ubList [] :=
  ⟨empty, by simp⟩

/-- The count of a list that fits is the number of its runs. -/
theorem Lists.count_toNat {ubList : UBList} {runs : List (Nat × Nat)} (lists : Lists ubList runs)
    (few : runs.length ≤ 8) : ubList.count.toNat = runs.length := by
  rw [lists.count, BitVec.toNat_ofNat, Nat.mod_eq_of_lt (by omega)]

theorem Lists.runs_nil {ubList : UBList} {runs : List (Nat × Nat)} (lists : Lists ubList runs)
    (few : runs.length ≤ 8) (empty : ubList.count = 0) : runs = [] := by
  have count := lists.count_toNat few
  rw [empty] at count
  exact List.length_eq_zero_iff.mp count.symm

/-- The insertion of one run moves the later runs one place up. -/
theorem Lists.insert {ubList : UBList} {before after : List (Nat × Nat)} (first last : Nat)
    (lists : Lists ubList (before ++ after)) (room : (before ++ after).length < 8) :
    Lists { headSeq := Function.update (pushBack ubList.headSeq before.length) before.length
              (BitVec.ofNat 32 first)
            tailSeq := Function.update (pushBack ubList.tailSeq before.length) before.length
              (BitVec.ofNat 32 last)
            count := ubList.count + 1 } (before ++ (first, last) :: after) := by
  rw [List.length_append] at room
  constructor
  · simp only [lists.count, List.length_append, List.length_cons]
    exact Serial.ofNat_succ _
  · intro index run found
    rcases Nat.lt_trichotomy index before.length with early | rfl | late
    · rw [List.getElem?_append_left early] at found
      have old := lists.entry index run (by rw [List.getElem?_append_left early]; exact found)
      simpa [Function.update_of_ne (Nat.ne_of_lt early), pushBack, Nat.not_lt_of_lt early] using old
    · obtain rfl : (first, last) = run := by simpa using found
      simp
    · obtain ⟨place, rfl⟩ : ∃ place, index = before.length + 1 + place := ⟨index - before.length - 1, by omega⟩
      have tailFound : after[place]? = some run := by
        rw [List.getElem?_append_right (by omega)] at found
        rwa [show before.length + 1 + place - before.length = place + 1 by omega,
          List.getElem?_cons_succ] at found
      have inside := (List.getElem?_eq_some_iff.mp tailFound).1
      have old := lists.entry (before.length + place) run (by
        rw [List.getElem?_append_right (by omega), Nat.add_sub_cancel_left]
        exact tailFound)
      have shifted : before.length + 1 + place - 1 = before.length + place := by omega
      have moved : before.length < before.length + 1 + place ∧ before.length + 1 + place < 8 := by omega
      simpa [Function.update_of_ne (show before.length + 1 + place ≠ before.length by omega),
        pushBack, moved, shifted] using old

/-- A run joins behind all listed runs. -/
theorem Lists.append {ubList : UBList} {runs : List (Nat × Nat)} (first last : Nat)
    (lists : Lists ubList runs) (bound : runs.length < 8) :
    Lists { headSeq := Function.update ubList.headSeq ubList.count.toNat (BitVec.ofNat 32 first)
            tailSeq := Function.update ubList.tailSeq ubList.count.toNat (BitVec.ofNat 32 last)
            count := ubList.count + 1 } (runs ++ [(first, last)]) := by
  have place := lists.count_toNat bound.le
  constructor
  · simp only [lists.count, List.length_append, List.length_singleton]
    exact Serial.ofNat_succ _
  · intro index run found
    rw [place]
    rcases Nat.lt_or_ge index runs.length with early | late
    · rw [List.getElem?_append_left early] at found
      simpa [Function.update_of_ne (Nat.ne_of_lt early)] using lists.entry index run found
    · have inside := (List.getElem?_eq_some_iff.mp found).1
      obtain rfl : index = runs.length := by simp at inside; omega
      obtain rfl : (first, last) = run := by simpa using found
      simp

/-- The change of one run leaves the other entries in place. -/
theorem Lists.set {ubList : UBList} {before after : List (Nat × Nat)} {run : Nat × Nat}
    (first last : Nat) (lists : Lists ubList (before ++ run :: after)) :
    Lists { headSeq := Function.update ubList.headSeq before.length (BitVec.ofNat 32 first)
            tailSeq := Function.update ubList.tailSeq before.length (BitVec.ofNat 32 last)
            count := ubList.count } (before ++ (first, last) :: after) := by
  constructor
  · simp [lists.count]
  · intro index other found
    by_cases here : index = before.length
    · subst here
      obtain rfl : (first, last) = other := by simpa using found
      simp
    · have old := lists.entry index other (by
        rcases Nat.lt_or_gt_of_ne here with early | late
        · rw [List.getElem?_append_left early] at found ⊢
          exact found
        · rw [List.getElem?_append_right (by omega)] at found ⊢
          rw [show index - before.length = (index - before.length - 1) + 1 by omega,
            List.getElem?_cons_succ] at found ⊢
          exact found)
      simpa [Function.update_of_ne here] using old

/-- The bridge of two runs moves the later runs one place down. -/
theorem Lists.bridge {ubList : UBList} {before after : List (Nat × Nat)} {run next : Nat × Nat}
    (lists : Lists ubList (before ++ run :: next :: after))
    (bound : (before ++ run :: next :: after).length ≤ 8) :
    Lists { headSeq := pullUp ubList.headSeq before.length
            tailSeq := pullUp (Function.update ubList.tailSeq before.length
              (ubList.tailSeq (before.length + 1))) before.length
            count := ubList.count - 1 } (before ++ (run.1, next.2) :: after) := by
  simp only [List.length_append, List.length_cons] at bound
  have nextEntry := lists.entry (before.length + 1) next (by
    rw [List.getElem?_append_right (by omega), Nat.add_sub_cancel_left]; rfl)
  constructor
  · simp only [lists.count, List.length_append, List.length_cons]
    exact Serial.ofNat_succ_sub_one _
  · intro index other found
    rcases Nat.lt_trichotomy index before.length with early | rfl | late
    · rw [List.getElem?_append_left early] at found
      have old := lists.entry index other (by rw [List.getElem?_append_left early]; exact found)
      simpa [Function.update_of_ne (Nat.ne_of_lt early), pullUp, Nat.not_lt_of_lt early] using old
    · obtain rfl : (run.1, next.2) = other := by simpa using found
      have own := lists.entry before.length run (by simp)
      simpa [pullUp, nextEntry.2] using own.1
    · obtain ⟨place, rfl⟩ : ∃ place, index = before.length + 1 + place := ⟨index - before.length - 1, by omega⟩
      have tailFound : after[place]? = some other := by
        rw [List.getElem?_append_right (by omega)] at found
        rwa [show before.length + 1 + place - before.length = place + 1 by omega,
          List.getElem?_cons_succ] at found
      have inside := (List.getElem?_eq_some_iff.mp tailFound).1
      have old := lists.entry (before.length + 1 + place + 1) other (by
        rw [List.getElem?_append_right (by omega),
          show before.length + 1 + place + 1 - before.length = place + 1 + 1 by omega,
          List.getElem?_cons_succ, List.getElem?_cons_succ]
        exact tailFound)
      have moved : before.length < before.length + 1 + place ∧
          before.length + 1 + place + 1 < 8 := by omega
      simpa [Function.update_of_ne (show before.length + 1 + place + 1 ≠ before.length by omega),
        pullUp, moved] using old

/-- `altusUBPop` drops the first run. -/
theorem Lists.pop {ubList : UBList} {run : Nat × Nat} {rest : List (Nat × Nat)}
    (lists : Lists ubList (run :: rest)) (bound : (run :: rest).length ≤ 8) :
    Lists (altusUBPop ubList) rest := by
  simp only [List.length_cons] at bound
  constructor
  · simp only [altusUBPop, lists.count, List.length_cons]
    exact Serial.ofNat_succ_sub_one _
  · intro index other found
    have inside := (List.getElem?_eq_some_iff.mp found).1
    have old := lists.entry (index + 1) other (by simpa using found)
    simpa [altusUBPop, show index < 7 by omega] using old

/-- A visit either admits the block or leaves the list as it was. -/
theorem altusUBCheckFrom_answers (ubList : UBList) (seq length : U32) (visits i : Nat) :
    let answer := altusUBCheckFrom ubList seq length visits i
    (answer.1 = ubenumUBExtended ∨ answer.1 = ubenumNewUBAdded) ∨
      ((answer.1 = ubenumFull ∨ answer.1 = ubenumMaliciousInput) ∧ answer.2 = ubList) := by
  induction visits generalizing i with
  | zero =>
      rw [altusUBCheckFrom]
      split <;> simp
  | succ visits ih =>
      rw [altusUBCheckFrom]
      dsimp only
      split_ifs <;> first | exact ih (i + 1) | simp

/-- `altusUBCheck` either admits the block or leaves the list as it was. -/
theorem altusUBCheck_answers (ubList : UBList) (seq length : U32) :
    let answer := altusUBCheck ubList seq length
    (answer.1 = ubenumUBExtended ∨ answer.1 = ubenumNewUBAdded) ∨
      ((answer.1 = ubenumFull ∨ answer.1 = ubenumMaliciousInput) ∧ answer.2 = ubList) :=
  altusUBCheckFrom_answers ubList seq length ubList.count.toNat 0

/-- How the answer of `altusUBCheck` follows from the insertion of the block into the listed runs. -/
def Follows (ubList : UBList) (before : List (Nat × Nat)) (answer : Int × UBList) :
    Placement Nat → Prop
  | .overlap => answer = (ubenumMaliciousInput, ubList)
  | .extended runs => answer.1 = ubenumUBExtended ∧ Lists answer.2 (before ++ runs)
  | .added runs =>
      if (before ++ runs).length ≤ 8 then
        answer.1 = ubenumNewUBAdded ∧ Lists answer.2 (before ++ runs)
      else answer = (ubenumFull, ubList)

/-- An answer for the later runs is an answer for the whole list. -/
theorem Follows.after {ubList : UBList} {before : List (Nat × Nat)} {run : Nat × Nat}
    {answer : Int × UBList} {placement : Placement Nat}
    (follows : Follows ubList (before ++ [run]) answer placement) :
    Follows ubList before answer (placement.after run) := by
  cases placement <;> simpa [Follows, Placement.after] using follows

section Visit

variable {ubList : UBList} {before rest : List (Nat × Nat)} {run : Nat × Nat} {base first last : Nat}

/-- The signed comparisons of one visit order the positions. -/
theorem visit_compare (within : Within base (run :: rest)) (inside : base ≤ first)
    (ordered : first ≤ last) (below : last < base + 2 ^ 31) :
    (0 < (BitVec.ofNat 32 run.1 - BitVec.ofNat 32 first).toInt ↔ first < run.1) ∧
    (0 < (BitVec.ofNat 32 run.1 - BitVec.ofNat 32 last).toInt ↔ last < run.1) ∧
    (BitVec.ofNat 32 last = BitVec.ofNat 32 run.1 ↔ last = run.1) ∧
    (0 < (BitVec.ofNat 32 run.2 - BitVec.ofNat 32 first).toInt ↔ first < run.2) ∧
    (BitVec.ofNat 32 first = BitVec.ofNat 32 run.2 ↔ first = run.2) ∧
    (0 < (BitVec.ofNat 32 first - BitVec.ofNat 32 run.2).toInt ↔ run.2 < first) := by
  have bounds := within run (by simp)
  exact ⟨Serial.sub_pos_iff (by omega) (by omega) (by decide),
    Serial.sub_pos_iff (by omega) (by omega) (by decide), Serial.ofNat_inj (by omega) (by omega),
    Serial.sub_pos_iff (by omega) (by omega) (by decide), Serial.ofNat_inj (by omega) (by omega),
    Serial.sub_pos_iff (by omega) (by omega) (by decide)⟩

/-- The visit stands at the last entry exactly when no run follows. -/
theorem visit_last (lists : Lists ubList (before ++ run :: rest))
    (bound : (before ++ run :: rest).length ≤ 8) :
    BitVec.ofNat 32 before.length = ubList.count - 1 ↔ rest = [] := by
  simp only [List.length_append, List.length_cons] at bound
  rw [lists.count, List.length_append, List.length_cons, ← Nat.add_assoc, Serial.ofNat_succ_sub_one,
    Serial.ofNat_inj (by omega) (by omega)]
  constructor
  · intro equal
    exact List.length_eq_zero_iff.mp (by omega)
  · rintro rfl
    simp

/-- There is room for one more entry exactly below eight entries. -/
theorem room_iff {runs : List (Nat × Nat)} (lists : Lists ubList runs) (bound : runs.length ≤ 8) :
    (0 < (8#32 - ubList.count).toInt ↔ runs.length < 8) ∧ (ubList.count < 8#32 ↔ runs.length < 8) := by
  rw [lists.count]
  constructor
  · exact @Serial.sub_pos_iff 32 8 runs.length (by omega) (by omega) (by decide)
  · rw [BitVec.lt_def, BitVec.toNat_ofNat, Nat.mod_eq_of_lt (by omega)]
    rfl

end Visit

/-- The visits of the remaining entries insert the block into the remaining runs. -/
theorem altusUBCheckFrom_follows {ubList : UBList} {base first last : Nat} (inside : base ≤ first)
    (ordered : first ≤ last) (below : last < base + 2 ^ 31) (rest before : List (Nat × Nat))
    (lists : Lists ubList (before ++ rest)) (bound : (before ++ rest).length ≤ 8)
    (within : Within base rest) (start : rest = [] → before = []) :
    Follows ubList before
      (altusUBCheckFrom ubList (BitVec.ofNat 32 first) (BitVec.ofNat 32 (last - first)) rest.length
        before.length) (place first last rest) := by
  have ends : BitVec.ofNat 32 first + BitVec.ofNat 32 (last - first) = BitVec.ofNat 32 last := by
    rw [← BitVec.ofNat_add, Nat.add_sub_of_le ordered]
  induction rest generalizing before with
  | nil =>
      obtain rfl := start rfl
      have empty : ubList.count = 0 := by simpa using lists.count
      have small : ([] ++ [(first, last)]).length ≤ 8 := by simp
      rw [place, Follows, if_pos small]
      rw [List.length_nil, altusUBCheckFrom, if_pos empty, ends]
      refine ⟨rfl, rfl, ?_⟩
      intro index run found
      rcases index with _ | index
      · obtain rfl : (first, last) = run := by simpa using found
        simp
      · simp at found
  | cons run rest ih =>
      have entry := lists.entry before.length run (by simp)
      obtain ⟨beforeHead, beforeJoin, join, inTail, atTail, beyond⟩ :=
        visit_compare within inside ordered below
      have lastVisit := visit_last lists bound
      have room := room_iff lists bound
      rw [List.length_cons, altusUBCheckFrom, place.eq_def]
      simp only [entry.1, entry.2, ends, beforeHead, beforeJoin, join, inTail, atTail, beyond, lastVisit,
        room.1, room.2]
      by_cases ahead : first < run.1
      · simp only [if_pos ahead]
        by_cases gap : last < run.1
        · simp only [if_pos gap]
          by_cases space : (before ++ run :: rest).length < 8
          · rw [if_pos space]
            exact (if_pos (by simp at space ⊢; omega)).mpr ⟨rfl, lists.insert first last space⟩
          · rw [if_neg space]
            exact (if_neg (by simp at space ⊢; omega)).mpr rfl
        · simp only [if_neg gap]
          by_cases joins : last = run.1
          · simp only [if_pos joins]
            have changed := lists.set first run.2
            rw [← entry.2, Function.update_eq_self] at changed
            exact ⟨rfl, changed⟩
          · simp only [if_neg joins]
            rfl
      · simp only [if_neg ahead]
        by_cases covered : first < run.2
        · simp only [if_pos covered]
          rfl
        · simp only [if_neg covered]
          by_cases continues : first = run.2
          · simp only [if_pos continues]
            cases rest with
            | nil =>
                have changed := lists.set run.1 last
                rw [← entry.1, Function.update_eq_self] at changed
                exact ⟨rfl, changed⟩
            | cons next tail =>
                have nextEntry := lists.entry (before.length + 1) next (by
                  rw [List.getElem?_append_right (by omega), Nat.add_sub_cancel_left]; rfl)
                have withinNext : Within base (next :: tail) := fun other member =>
                  within other (List.mem_cons_of_mem run member)
                obtain ⟨-, nextGap, nextJoin, -⟩ := visit_compare withinNext inside ordered below
                simp only [nextEntry.1, nextGap, nextJoin, reduceCtorEq, if_false]
                by_cases short : last < next.1
                · simp only [if_pos short]
                  have changed := lists.set run.1 last
                  rw [← entry.1, Function.update_eq_self] at changed
                  exact ⟨rfl, changed⟩
                · simp only [if_neg short]
                  by_cases bridges : last = next.1
                  · simp only [if_pos bridges]
                    exact ⟨rfl, lists.bridge bound⟩
                  · simp only [if_neg bridges]
                    rfl
          · have later : run.2 < first := by omega
            simp only [if_neg continues, later, true_and]
            cases rest with
            | nil =>
                simp only [if_true, place, Placement.after]
                by_cases space : (before ++ [run]).length < 8
                · rw [if_pos space]
                  rw [Follows, if_pos (by simp at space ⊢; omega)]
                  exact ⟨rfl, by simpa using lists.append first last space⟩
                · rw [if_neg space]
                  exact (if_neg (by simp at space ⊢; omega)).mpr rfl
            | cons next tail =>
                simp only [reduceCtorEq, if_false]
                have remaining := ih (before ++ [run]) (by simpa using lists) (by simpa using bound)
                  (fun other member => within other (List.mem_cons_of_mem run member)) (by simp)
                simpa using remaining.after

/-- `altusUBCheck` inserts the block into the listed runs. -/
theorem altusUBCheck_follows {ubList : UBList} {runs : List (Nat × Nat)} {base first last : Nat}
    (lists : Lists ubList runs) (bound : runs.length ≤ 8) (within : Within base runs)
    (inside : base ≤ first) (ordered : first ≤ last) (below : last < base + 2 ^ 31) :
    Follows ubList [] (altusUBCheck ubList (BitVec.ofNat 32 first) (BitVec.ofNat 32 (last - first)))
      (place first last runs) := by
  rw [altusUBCheck, lists.count_toNat bound]
  exact altusUBCheckFrom_follows inside ordered below runs [] (by simpa using lists)
    (by simpa using bound) within (fun _ => rfl)

end Altus.UBList
