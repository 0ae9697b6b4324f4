import Altus.Proof.FileStream.Merging

namespace Altus.FileReceiveStream

open Bytes Chain

/-- The nodes that the links lead to from `head`, up to a null link. -/
def ChainOf (state : FileState) (nodes : List Ptr) : Prop :=
  nodes.head? = some state.stream.head ∧ Linked state.heap.links nodes

/-- `tail` is the last node from `head` on and links nowhere, and `_nodeCount` counts the nodes after `head`. -/
def Chained (state : FileState) : Prop :=
  ∃ nodes, ChainOf state nodes ∧ nodes.getLast? = some state.stream.tail ∧
    (state.heap.node state.stream.tail).toTail = none ∧ state.stream.nodeCount + 1 = nodes.length

/-- `NewNode` drops no linked node in this state. -/
def Extends (state : FileState) : Prop :=
  ∀ nodes, ChainOf state nodes → ∃ node, ChainOf (newNode state) (nodes ++ [node])

/-- In this state `FlushNode` makes the second node of a longer chain the head, with its bytes. -/
def Moves (state : FileState) : Prop :=
  ∀ second rest, ChainOf state (state.stream.head :: second :: rest) → ∃ next, flushNode state = .ok next ∧
    ChainOf next (second :: rest) ∧ (next.heap.node second).data = (state.heap.node second).data

/-- In this state `PutUnSeq` reaches the node of the block and meets no null link. -/
structure ReachesNode (state : FileState) (seq length : U32) (data : Memory) : Prop where
  walks : ∃ walked nodes node i, putUnSeqLoop ((seq - state.stream.headSeq).toInt.toNat / nodeSize + 1) state
      (some state.stream.head) (seq - state.stream.headSeq).toInt = .ok (walked, some node, i) ∧
    ChainOf walked nodes ∧ nodes[(seq - state.stream.headSeq).toNat / nodeSize]? = some node
  writes : ∃ next, putUnSeq state seq length data = .ok next

/-- The functions act as those of the code wherever these treat the chain well. -/
structure ChainCallees.Agrees (callees : ChainCallees) : Prop where
  newNode : ∀ state, Extends state → callees.newNode state = FileReceiveStream.newNode state
  flushNode : ∀ state, Moves state → callees.flushNode state = FileReceiveStream.flushNode state

theorem ChainCallees.own_agrees : Agrees ⟨FileReceiveStream.newNode, FileReceiveStream.flushNode⟩ :=
  ⟨fun _ _ => rfl, fun _ _ => rfl⟩

/-- The state in which `FileRcvStream::Append` goes on after `CheckUB`. -/
def checked (state : FileState) (seq length : U32) : FileState :=
  let ubList := (checkUB state.stream seq length).2
  let unSeqLen := match ubList with
    | [] => 0
    | front :: _ => front.1 - state.stream.lastSeq
  { state with stream := { state.stream with ubList := ubList, unSeqLen := unSeqLen } }

/-- `Append` takes the block: it is not behind `lastSeq`, and `CheckUB` does not refuse it. -/
def TakesBlock (state : FileState) (seq length : U32) : Prop :=
  ¬ 0 < (state.stream.lastSeq - seq).toInt ∧ ¬ Refuses (checkUB state.stream seq length).1

section Branches

variable {state : FileState} {seq length : U32} {data : Memory}

theorem append_refuses (refused : ¬ TakesBlock state seq length) (data : Memory) : ∃ outcome unSeqLen,
    (∀ fault, outcome ≠ .faulted fault) ∧ ∀ callees, append state seq length data callees =
      (outcome, { state with stream := { state.stream with unSeqLen := unSeqLen } }) := by
  by_cases late : 0 < (state.stream.lastSeq - seq).toInt
  · exact ⟨.returned (-1), state.stream.unSeqLen, by simp, fun callees => if_pos late⟩
  have refuses : Refuses (checkUB state.stream seq length).1 := by
    by_contra accepts
    exact refused ⟨late, accepts⟩
  have same := checkUB_refused refuses
  simp only [append, if_neg late, same]
  rcases refuses with full | malicious | overlap
  · exact ⟨.returned (-2), _, by simp, fun callees => by rw [full]⟩
  · exact ⟨.threw "malicious packet", _, by simp, fun callees => by rw [malicious]⟩
  · exact ⟨.returned (-1), _, by simp, fun callees => by rw [overlap]⟩

theorem append_placed (inTime : ¬ 0 < (state.stream.lastSeq - seq).toInt)
    (placed : Placed (checkUB state.stream seq length).1) (callees : ChainCallees) :
    append state seq length data callees = finish 1 (putUnSeq (checked state seq length) seq length data callees) := by
  rw [append, if_neg inTime, checked]
  generalize checkUB state.stream seq length = answer at placed
  obtain ⟨message, ubList⟩ := answer
  rcases placed with rfl | rfl <;> rfl

theorem append_onSeq (inTime : ¬ 0 < (state.stream.lastSeq - seq).toInt)
    (onSeq : (checkUB state.stream seq length).1 = .onSeq) (callees : ChainCallees) :
    append state seq length data callees = finish 0 (appendOnSeq (checked state seq length) length data callees) := by
  rw [append, if_neg inTime, checked]
  generalize checkUB state.stream seq length = answer at onSeq
  obtain ⟨message, ubList⟩ := answer
  cases onSeq
  rfl

theorem append_merges {front : U32 × U32} {rest : List (U32 × U32)} (sequenced : seq = state.stream.lastSeq)
    (merging : checkUB state.stream seq length = (.merging, front :: rest)) (callees : ChainCallees) :
    append state seq length data callees =
      finish 0 (appendMerging (checked state seq length) front length data callees) := by
  rw [append_merging sequenced merging, checked, merging]

end Branches

end Altus.FileReceiveStream
