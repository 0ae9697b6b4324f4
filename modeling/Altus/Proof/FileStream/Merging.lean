import Altus.Proof.FileStream.CheckUB
import Altus.Proof.FileStream.Unsequenced

namespace Altus.FileReceiveStream

open Bytes

section Merge

variable {state next : FileState} {seq length : U32} {data : Memory} {front : U32 × U32} {rest : List (U32 × U32)}

theorem copyTo_stream {target : Option Ptr} {offset : Int} {source : Memory}
    (copied : copyTo state target offset source length = .ok next) : next.stream = state.stream := by
  rw [copyTo] at copied
  split at copied
  · cases copied
  · rw [← Except.ok.inj copied]

/-- A merging case that ends has flushed nothing, and it has moved `lastSeq` to the end of the first entry. -/
theorem appendMerging_ok (merged : appendMerging state front length data = .ok next) :
    (nodeSize : Int) ≤ (length + front.2 - front.1).toInt ∧ next.stream.file = state.stream.file ∧
      next.stream.ubList = state.stream.ubList ∧
      next.stream.lastSeq = state.stream.lastSeq + (length + front.2 - front.1) := by
  rw [appendMerging] at merged
  dsimp only at merged
  split at merged
  · cases merged
  rename_i middle copied
  split at merged
  · cases merged
  obtain ⟨long, rfl⟩ := mergeLoop_ok mergeRounds merged
  have same : middle.stream = state.stream := by
    split at copied
    · exact copyTo_stream copied
    · split at copied
      · cases copied
      · rename_i first
        exact (copyTo_stream copied).trans (copyTo_stream first)
  refine ⟨long, by rw [same], by rw [same], ?_⟩
  rw [same, BitVec.ofInt_toInt]

/-- A block that is placed is not in sequence, and edits the list. -/
theorem checkUB_placed {stream : FileRcvStream} (placed : Placed (checkUB stream seq length).1) :
    seq ≠ stream.lastSeq ∧ Edits stream.headSeq stream.capacity stream.ubList.length seq length stream.ubList
      (checkUB stream seq length).1 (checkUB stream seq length).2 := by
  by_cases sequenced : seq = stream.lastSeq
  · rw [checkUB, if_pos sequenced] at placed
    split at placed
    · simp [Placed] at placed
    · split_ifs at placed <;> simp [Placed] at placed
  · rw [checkUB, if_neg sequenced]
    exact ⟨sequenced, checkUBFrom_edits stream.ubList⟩

/-- A block in sequence ends before the first entry. -/
theorem checkUB_onSeq {stream : FileRcvStream} (onSeq : (checkUB stream seq length).1 = .onSeq) :
    seq = stream.lastSeq ∧ ∀ front ∈ stream.ubList.head?, 0 < (front.1 - (seq + length)).toInt := by
  by_cases sequenced : seq = stream.lastSeq
  · refine ⟨sequenced, ?_⟩
    rw [checkUB, if_pos sequenced] at onSeq
    intro front first
    cases list : stream.ubList with
    | nil =>
        rw [list] at first
        cases first
    | cons head rest =>
        rw [list] at first onSeq
        obtain rfl := Option.some.inj first
        dsimp only at onSeq
        split_ifs at onSeq with before
        exact before
  · rw [checkUB, if_neg sequenced] at onSeq
    exact absurd onSeq (checkUBFrom_front _ _ _ _ _ _).1

/-- `CheckUB` answers `MERGING` exactly when the block fills the gap before the first entry. -/
theorem checkUB_merging (merging : (checkUB state.stream seq length).1 = .merging) :
    seq = state.stream.lastSeq ∧ ∃ front rest, state.stream.ubList = front :: rest ∧ front.1 = seq + length ∧
      checkUB state.stream seq length = (.merging, front :: rest) := by
  rw [checkUB] at merging ⊢
  split at merging
  · rename_i sequenced
    rw [if_pos sequenced]
    refine ⟨sequenced, ?_⟩
    cases list : state.stream.ubList with
    | nil =>
        rw [list] at merging
        cases merging
    | cons front rest =>
        rw [list] at merging
        dsimp only at merging ⊢
        split_ifs at merging with before touches
        exact ⟨front, rest, rfl, touches, by rw [if_neg before, if_pos touches]⟩
  · obtain ⟨-, never, -⟩ := checkUBFrom_front state.stream.headSeq state.stream.capacity
      state.stream.ubList.length seq length state.stream.ubList
    exact absurd merging never

/-- The merging case of `Append`. -/
theorem append_merging (sequenced : seq = state.stream.lastSeq)
    (checked : checkUB state.stream seq length = (.merging, front :: rest)) (callees : ChainCallees) :
    append state seq length data callees = finish 0 (appendMerging { state with stream := { state.stream with
      ubList := front :: rest, unSeqLen := front.1 - state.stream.lastSeq } } front length data callees) := by
  have inTime : ¬ 0 < (state.stream.lastSeq - seq).toInt := by
    rw [sequenced, BitVec.sub_self]
    decide
  rw [append]
  dsimp only
  rw [if_neg inTime, checked]

/-- A merging `Append` that returns. -/
theorem append_merging_returned {code : Int} (merging : (checkUB state.stream seq length).1 = .merging)
    (returned : append state seq length data = (.returned code, next)) :
    ∃ front rest, state.stream.ubList = front :: rest ∧ (nodeSize : Int) ≤ (length + front.2 - front.1).toInt ∧
      next.stream.file = state.stream.file ∧ next.stream.ubList = front :: rest ∧ next.stream.lastSeq = front.2 := by
  obtain ⟨sequenced, front, rest, list, touches, checked⟩ := checkUB_merging merging
  rw [append_merging sequenced checked] at returned
  refine ⟨front, rest, list, ?_⟩
  cases merged : appendMerging { state with stream := { state.stream with
      ubList := front :: rest, unSeqLen := front.1 - state.stream.lastSeq } } front length data with
  | error failed =>
      rw [merged] at returned
      cases returned
  | ok final =>
      rw [merged] at returned
      obtain rfl : final = next := congrArg Prod.snd returned
      obtain ⟨long, sameFile, sameList, moved⟩ := appendMerging_ok merged
      refine ⟨long, sameFile, sameList, moved.trans ?_⟩
      dsimp only
      rw [touches, sequenced]
      ring

/-- The merging case returns, flushes one node for every full node of bytes and ends with `lastSeq` behind the
bytes of the head node. Each `FlushNode` adds one node to the file. -/
def MergesExactly (state : FileState) (seq length : U32) (data : Memory) (front : U32 × U32) : Prop :=
  ∃ next, append state seq length data = (.returned 0, next) ∧
    next.stream.file.length = state.stream.file.length +
      nodeSize * ((state.stream.headByteCount.toNat + length.toNat + (front.2 - front.1).toNat) / nodeSize) ∧
    next.stream.headSeq + next.stream.headByteCount.setWidth 32 = next.stream.lastSeq

theorem not_mergesExactly (merging : (checkUB state.stream seq length).1 = .merging)
    (first : state.stream.ubList.head? = some front) : ¬ MergesExactly state seq length data front := by
  rintro ⟨next, returned, flushed, -⟩
  obtain ⟨other, rest, list, long, same, -⟩ := append_merging_returned merging returned
  rw [list] at first
  obtain rfl : other = front := Option.some.inj first
  -- A merge that ends has at least one full node of bytes and flushed none of them.
  have word : (length + other.2 - other.1).toNat ≤ length.toNat + (other.2 - other.1).toNat := by
    rw [show length + other.2 - other.1 = length + (other.2 - other.1) by ring, BitVec.toNat_add]
    exact Nat.mod_le _ _
  have small := (length + other.2 - other.1).isLt
  rw [BitVec.toInt_eq_toNat_cond] at long
  rw [same] at flushed
  unfold nodeSize at flushed long
  split at long <;> omega

/-- No merging `Append` flushes the right number of nodes. -/
theorem append_never_mergesExactly (state : FileState) (seq length : U32) (data : Memory)
    (merging : (checkUB state.stream seq length).1 = .merging) :
    ∃ front, state.stream.ubList.head? = some front ∧ ¬ MergesExactly state seq length data front := by
  obtain ⟨-, front, rest, list, -⟩ := checkUB_merging merging
  have first : state.stream.ubList.head? = some front := by rw [list, List.head?_cons]
  exact ⟨front, first, not_mergesExactly merging first⟩

end Merge

/-- A stream that waits for its first byte and holds the second one. -/
def oneWaiting : FileState := (append (fileRcvStream blankNodes NodePool.empty 8) 1 1 (fun _ => 7)).2

theorem append_never_mergesExactly_one : ∃ front, oneWaiting.stream.ubList.head? = some front ∧
    ¬ MergesExactly oneWaiting 0 1 (fun _ => 7) front :=
  append_never_mergesExactly oneWaiting 0 1 (fun _ => 7) (by decide)

/-- The first byte merges with the second one, and the loop that follows does not end in range. -/
theorem first_byte_mergesWrongly : oneWaiting.stream.headByteCount.toNat ≤ nodeSize ∧
    (checkUB oneWaiting.stream 0 1).1 = .merging ∧ oneWaiting.stream.ubList.head? = some (1, 2) ∧
    ¬ MergesExactly oneWaiting 0 1 (fun _ => 7) (1, 2) := by
  have first : oneWaiting.stream.ubList.head? = some (1, 2) := by decide
  have merging : (checkUB oneWaiting.stream 0 1).1 = .merging := by decide
  exact ⟨by decide, merging, first, not_mergesExactly merging first⟩

end Altus.FileReceiveStream
