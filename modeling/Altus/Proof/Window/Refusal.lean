import Altus.Proof.Window.Put

namespace Altus.WindowedQueue

open Bytes UBList

section Faults

variable {state : WQState} {fault : Fault}

/-- A part of `altusWQPut` only fails at a null pointer. -/
theorem altusWQNewNode_fault (failed : altusWQNewNode state = .error fault) : fault = .nullDereference := by
  have taken {fault : Fault} (took : takeNode state = .error fault) : fault = .nullDereference := by
    rw [takeNode] at took
    split at took
    · cases took
    · split at took
      · exact (Except.error.inj took).symm
      · cases took
  rw [altusWQNewNode] at failed
  split at failed
  · rename_i took
    obtain rfl := Except.error.inj failed
    exact taken took
  · cases failed

/-- The copy loop never ends the program. -/
theorem copyLoop_fault {length : U32} {data : Memory} (rounds : Nat) :
    ∀ {state : WQState} {currentNode : Option Ptr} {currentNodeSeq leftSeq leftLen : U32} {fault : Fault},
      copyLoop length data rounds state currentNode currentNodeSeq leftSeq leftLen = .error fault →
      fault ≠ .exit := by
  induction rounds with
  | zero =>
      intro state currentNode currentNodeSeq leftSeq leftLen fault failed
      obtain rfl := Except.error.inj failed
      decide
  | succ rounds ih =>
      intro state currentNode currentNodeSeq leftSeq leftLen fault failed
      have grows {before : WQState} {found : Fault} (stopped : altusWQNewNode before = .error found) :
          found ≠ .exit := by
        rw [altusWQNewNode_fault stopped]
        decide
      rw [copyLoop.eq_def] at failed
      dsimp only at failed
      split at failed
      · cases failed
      split at failed
      · obtain rfl := Except.error.inj failed
        decide
      split at failed
      · split at failed
        · rename_i stopped
          obtain rfl := Except.error.inj failed
          split at stopped
          · exact grows stopped
          · cases stopped
        · exact ih failed
      · generalize (if leftLen < currentNodeSeq + nodeSpan - leftSeq then leftLen
          else currentNodeSeq + nodeSpan - leftSeq) = writelen at failed
        split at failed
        · rename_i stopped
          obtain rfl := Except.error.inj failed
          rw [copyInto_fault stopped]
          decide
        split at failed
        · rename_i went
          obtain rfl := Except.error.inj failed
          split at went
          · split at went
            · rename_i stopped
              obtain rfl := Except.error.inj went
              exact grows stopped
            · exact ih went
          · exact ih went
        · cases failed

/-- The advance of `safe_tail` never ends the program. -/
theorem advanceLoop_fault {newSeq : U32} (rounds : Nat) : ∀ {state : WQState} {fault : Fault},
    advanceLoop newSeq rounds state = .error fault → fault ≠ .exit := by
  induction rounds with
  | zero =>
      intro state fault failed
      obtain rfl := Except.error.inj failed
      decide
  | succ rounds ih =>
      intro state fault failed
      rw [advanceLoop] at failed
      dsimp only at failed
      split at failed
      · split at failed
        · obtain rfl := Except.error.inj failed
          decide
        · exact ih failed
      · split at failed
        · split at failed
          · obtain rfl := Except.error.inj failed
            decide
          · cases failed
        · cases failed

/-- The part of `altusWQPut` after its checks never ends the program. -/
theorem deliver_fault {seq length : U32} {data : Memory} (failed : deliver state seq length data = .error fault) :
    fault ≠ .exit := by
  rw [deliver] at failed
  split at failed
  · rename_i copied
    obtain rfl := Except.error.inj failed
    exact copyLoop_fault _ copied
  · split at failed
    · rename_i absorbed
      obtain rfl := Except.error.inj failed
      rw [absorb] at absorbed
      split at absorbed
      · dsimp only at absorbed
        split at absorbed
        · rename_i advanced
          obtain rfl := Except.error.inj absorbed
          exact advanceLoop_fault _ advanced
        · cases absorbed
      · cases absorbed
    · cases failed

end Faults

/-- A call that does not answer zero leaves the window, its nodes and the pool as they are, and no call
reaches the default branch, which ends the program. -/
theorem altusWQPut_allOrNothing (state : WQState) (seq length : U32) (data : Memory) :
    altusWQPut state seq length data ≠ .error .exit ∧
    ∀ code copies next, altusWQPut state seq length data = .ok (code, copies, next) → code ≠ 0 →
      next = state ∧ copies = [] := by
  rw [altusWQPut_eq]
  split
  · constructor
    · intro ended
      exact deliver_fault ended rfl
    · intro code copies next answered nonzero
      exact absurd (deliver_zero answered) nonzero
  · constructor
    · intro ended
      cases ended
    · intro code copies next answered nonzero
      obtain ⟨-, rest⟩ := Prod.mk.inj (Except.ok.inj answered)
      obtain ⟨none, same⟩ := Prod.mk.inj rest
      exact ⟨same.symm, none.symm⟩

end Altus.WindowedQueue
