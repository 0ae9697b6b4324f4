import Altus.Proof.FileStream.OneNode

namespace Altus.FileReceiveStream

open Bytes

/-- The place of a block lies in the first two nodes. -/
def NearHead (stream : FileRcvStream) (seq length : U32) : Prop :=
  let i := (seq - stream.headSeq).toInt
  0 ≤ i ∧ i < 2 * nodeSize ∧ i + length.toNat ≤ 2 * nodeSize

instance (stream : FileRcvStream) (seq length : U32) : Decidable (NearHead stream seq length) :=
  inferInstanceAs (Decidable (_ ∧ _))

/-- The merging case has the node for its bytes, and its loop has nothing to flush. -/
def MergesWhole (state : FileState) (length : U32) (front : U32 × U32) : Prop :=
  let mergeLength := (length + front.2 - front.1).toInt
  (state.stream.headByteCount.toNat + length.toNat ≤ nodeSize ∨ (state.heap.node state.stream.head).toTail ≠ none) ∧
    (nodeSize : Int) ≤ mergeLength ∧ state.stream.headByteCount.toNat + mergeLength < 2 ^ 31

instance (state : FileState) (length : U32) (front : U32 × U32) : Decidable (MergesWhole state length front) :=
  inferInstanceAs (Decidable (_ ∧ _))

/-- A block in time that is placed lies near the head, and one that merges does so with a whole node. -/
def Holdable (state : FileState) (seq length : U32) : Prop :=
  (Placed (checkUB state.stream seq length).1 → NearHead state.stream seq length) ∧
    ((checkUB state.stream seq length).1 = .merging → ∀ front ∈ state.stream.ubList.head?, MergesWhole state length front)

instance (state : FileState) (seq length : U32) : Decidable (Holdable state seq length) :=
  inferInstanceAs (Decidable (_ ∧ _))

/-- `NewNode` never moves `tail`, and the head node holds no more than its bytes. -/
structure Anchored (stream : FileRcvStream) : Prop where
  single : stream.tail = stream.head
  fits : stream.headByteCount.toNat ≤ nodeSize

/-- A part of a call has ended, and left the ends and the count of the stream as they were. -/
structure Ends (state next : FileState) : Prop where
  head : next.stream.head = state.stream.head
  tail : next.stream.tail = state.stream.tail
  count : next.stream.headByteCount = state.stream.headByteCount
  links : ∀ pointer, (state.heap.node pointer).toTail ≠ none → (next.heap.node pointer).toTail ≠ none

section Parts

variable {state middle next : FileState} {seq length : U32} {data : Memory}

theorem Ends.trans (first : Ends state middle) (second : Ends middle next) : Ends state next :=
  ⟨second.head.trans first.head, second.tail.trans first.tail, second.count.trans first.count,
    fun pointer linked => second.links pointer (first.links pointer linked)⟩

theorem Anchored.ends (anchored : Anchored state.stream) (ends : Ends state next) : Anchored next.stream :=
  ⟨by rw [ends.head, ends.tail, anchored.single], by rw [ends.count]; exact anchored.fits⟩

/-- A `memcpy` that stays inside a node. -/
theorem copyTo_returns {offset : Int} (target : Ptr) (above : 0 ≤ offset) (inside : offset + length.toNat ≤ nodeSize) :
    ∃ next, copyTo state (some target) offset data length = .ok next ∧ Ends state next := by
  refine ⟨{ state with heap := state.heap.modify target fun node =>
    { node with data := memcpy node.data offset.toNat data length.toNat } }, ?_, rfl, rfl, rfl, fun pointer linked => ?_⟩
  · rw [copyTo, NodeHeap.copyTo, if_pos ⟨above, inside⟩]
  · refine ne_of_eq_of_ne ?_ linked
    exact state.heap.modify_keeps Node.toTail target
      (fun node => { node with data := memcpy node.data offset.toNat data length.toNat }) (fun _ => rfl) pointer

/-- The step to the node behind the head always finds one. -/
theorem Anchored.follow (anchored : Anchored state.stream) : ∃ following,
    let next := if (state.heap.node state.stream.head).toTail = none then newNode state else state
    (next.heap.node state.stream.head).toTail = some following ∧ next.stream.head = state.stream.head ∧
      next.stream.tail = state.stream.tail ∧ next.stream.headByteCount = state.stream.headByteCount := by
  by_cases ends : (state.heap.node state.stream.head).toTail = none
  · refine ⟨(take state.heap state.pool).1, ?_⟩
    dsimp only
    rw [if_pos ends, newNode_eq, anchored.single]
    refine ⟨?_, rfl, rfl, rfl⟩
    dsimp only
    rw [NodeHeap.modify_node_self]
  · obtain ⟨following, found⟩ := Option.ne_none_iff_exists'.mp ends
    refine ⟨following, ?_⟩
    dsimp only
    rw [if_neg ends]
    exact ⟨found, rfl, rfl, rfl⟩

theorem writable_toNat {i : Int} (above : 0 ≤ i) (below : i < nodeSize) :
    ((BitVec.ofInt 32 (nodeSize - i)).toNat : Int) = nodeSize - i := by
  rw [BitVec.toNat_ofInt]
  unfold nodeSize at below ⊢
  omega

/-- `PutUnSeq` returns from a block in the first two nodes. -/
theorem Anchored.putUnSeq (anchored : Anchored state.stream) (near : NearHead state.stream seq length) (data : Memory) :
    ∃ next, putUnSeq state seq length data = .ok next ∧ Anchored next.stream := by
  obtain ⟨above, below, inside⟩ := near
  rw [FileReceiveStream.putUnSeq]
  dsimp only
  generalize (seq - state.stream.headSeq).toInt = i at above below inside ⊢
  by_cases first : i < nodeSize
  · rw [putUnSeqLoop, if_neg (by omega)]
    have writable := writable_toNat above first
    dsimp only
    by_cases short : length ≤ BitVec.ofInt 32 (nodeSize - i)
    · rw [if_pos short]
      rw [BitVec.le_def] at short
      obtain ⟨next, copied, ends⟩ := @copyTo_returns state length data i state.stream.head above (by omega)
      exact ⟨next, copied, anchored.ends ends⟩
    · rw [if_neg short]
      rw [BitVec.le_def] at short
      obtain ⟨middle, copied, ends⟩ := @copyTo_returns state (BitVec.ofInt 32 (nodeSize - i)) data i state.stream.head
        above (by omega)
      rw [copied]
      dsimp only
      have middleAnchored := anchored.ends ends
      obtain ⟨following, link, head, tail, count⟩ := middleAnchored.follow
      rw [ends.head] at link head tail count
      rw [link]
      obtain ⟨next, finished, last⟩ := @copyTo_returns
        (if (middle.heap.node state.stream.head).toTail = none then newNode middle else middle)
        (length - BitVec.ofInt 32 (nodeSize - i)) (shift data (BitVec.ofInt 32 (nodeSize - i)).toNat) 0 following le_rfl
        (by rw [BitVec.toNat_sub_of_le (BitVec.le_def.mpr (by omega))]; omega)
      refine ⟨next, finished, Anchored.ends ⟨?_, ?_⟩ last⟩
      · rw [head, tail, middleAnchored.single, ends.head]
      · rw [count]
        exact middleAnchored.fits
  · have rounds : i.toNat / nodeSize + 1 = 2 := by
      unfold nodeSize at first below ⊢
      omega
    obtain ⟨following, link, head, tail, count⟩ := anchored.follow
    rw [rounds, putUnSeqLoop, if_pos (by omega)]
    dsimp only at link ⊢
    rw [link, putUnSeqLoop, if_neg (by omega)]
    dsimp only
    have writable := @writable_toNat (i - nodeSize) (by omega) (by omega)
    rw [if_pos (by rw [BitVec.le_def]; omega)]
    obtain ⟨next, copied, ends⟩ := @copyTo_returns
      (if (state.heap.node state.stream.head).toTail = none then newNode state else state) length data (i - nodeSize)
      following (by omega) (by omega)
    refine ⟨next, copied, Anchored.ends ⟨?_, ?_⟩ ends⟩
    · rw [head, tail, anchored.single]
    · rw [count]
      exact anchored.fits

/-- The bytes that still fit into the head node. -/
theorem Anchored.room (anchored : Anchored state.stream) :
    (nodeSpan - state.stream.headByteCount.setWidth 32 : U32).toNat = nodeSize - state.stream.headByteCount.toNat := by
  have fits := anchored.fits
  have span : (nodeSpan : U32).toNat = 4096 := rfl
  rw [BitVec.toNat_sub, BitVec.toNat_setWidth, span]
  unfold nodeSize at fits ⊢
  omega

/-- The on-sequence case returns from every block that fits into a node. -/
theorem Anchored.appendOnSeq (anchored : Anchored state.stream) (short : length.toNat ≤ nodeSize) (data : Memory) :
    ∃ next, appendOnSeq state length data = .ok next ∧ Anchored next.stream := by
  have fits := anchored.fits
  have room := anchored.room
  rw [FileReceiveStream.appendOnSeq]
  dsimp only
  by_cases inside : length ≤ nodeSpan - state.stream.headByteCount.setWidth 32
  · rw [if_pos inside]
    rw [BitVec.le_def, room] at inside
    obtain ⟨next, copied, ends⟩ := @copyTo_returns state length data state.stream.headByteCount.toNat state.stream.head
      (Int.natCast_nonneg _) (by omega)
    rw [copied]
    refine ⟨_, rfl, (anchored.ends ends).single, ?_⟩
    dsimp only
    rw [BitVec.toNat_add, BitVec.toNat_setWidth]
    unfold nodeSize at fits inside ⊢
    omega
  · rw [if_neg inside]
    rw [BitVec.le_def, room] at inside
    obtain ⟨middle, copied, ends⟩ := @copyTo_returns state (nodeSpan - state.stream.headByteCount.setWidth 32) data
      state.stream.headByteCount.toNat state.stream.head (Int.natCast_nonneg _) (by omega)
    rw [copied]
    dsimp only
    have middleAnchored := anchored.ends ends
    rw [if_pos middleAnchored.single.symm]
    have link : ((newNode middle).heap.node (newNode middle).stream.head).toTail =
        some (take middle.heap middle.pool).1 := by
      rw [newNode_eq, middleAnchored.single]
      dsimp only
      rw [NodeHeap.modify_node_self]
    have single : (newNode middle).stream.tail = (newNode middle).stream.head := middleAnchored.single
    generalize newNode middle = longer at link single ⊢
    rw [link]
    obtain ⟨final, finished, last⟩ := @copyTo_returns longer (length - (nodeSpan - state.stream.headByteCount.setWidth 32))
      (shift data (nodeSpan - state.stream.headByteCount.setWidth 32 : U32).toNat) 0 (take middle.heap middle.pool).1
      le_rfl (by rw [BitVec.toNat_sub_of_le (BitVec.le_def.mpr (by omega))]; omega)
    rw [finished]
    have finalSingle : final.stream.tail = final.stream.head := by rw [last.tail, last.head, single]
    -- `FlushNode` takes the head for the last node, so the head stays and its count becomes zero.
    exact ⟨_, flushNode_eq finalSingle, finalSingle, Nat.zero_le _⟩

/-- The end of the merging case behind its copies. -/
theorem Anchored.mergeEnds (anchored : Anchored state.stream) {mergeLength : Int} (long : (nodeSize : Int) ≤ mergeLength)
    (small : state.stream.headByteCount.toNat + mergeLength < 2 ^ 31) (lastSeq : U32) :
    ∃ next, (if (2 : Int) ^ 31 ≤ state.stream.headByteCount.toNat + mergeLength then .error (.signedOverflow, state)
      else mergeLoop mergeRounds { state with stream := { state.stream with
        headByteCount := BitVec.ofInt 16 ((state.stream.headByteCount.toNat + mergeLength).tmod nodeSize)
        lastSeq := lastSeq } } mergeLength) = Except.ok (ε := Fault × FileState) next ∧ Anchored next.stream := by
  rw [if_neg (by omega)]
  have done (state : FileState) : mergeLoop (2097151 + 1) state mergeLength = .ok state := by
    rw [mergeLoop, if_neg (by omega)]
  refine ⟨_, done _, anchored.single, ?_⟩
  have positive : (0 : Int) ≤ state.stream.headByteCount.toNat + mergeLength := by omega
  dsimp only
  rw [Int.tmod_eq_emod_of_nonneg positive, BitVec.toNat_ofInt]
  unfold nodeSize
  omega

/-- The merging case returns when its loop has nothing to flush. -/
theorem Anchored.appendMerging (anchored : Anchored state.stream) (short : length.toNat ≤ nodeSize) {front : U32 × U32}
    (whole : MergesWhole state length front) (data : Memory) :
    ∃ next, appendMerging state front length data = .ok next ∧ Anchored next.stream := by
  have fits := anchored.fits
  have room := anchored.room
  obtain ⟨node, long, small⟩ := whole
  rw [FileReceiveStream.appendMerging]
  dsimp only
  by_cases inside : length ≤ nodeSpan - state.stream.headByteCount.setWidth 32
  · rw [if_pos inside]
    rw [BitVec.le_def, room] at inside
    obtain ⟨middle, copied, ends⟩ := @copyTo_returns state length data state.stream.headByteCount.toNat state.stream.head
      (Int.natCast_nonneg _) (by omega)
    rw [copied, ← ends.count]
    exact (anchored.ends ends).mergeEnds long (by rw [ends.count]; exact small) _
  · rw [if_neg inside]
    rw [BitVec.le_def, room] at inside
    obtain ⟨middle, copied, ends⟩ := @copyTo_returns state (nodeSpan - state.stream.headByteCount.setWidth 32) data
      state.stream.headByteCount.toNat state.stream.head (Int.natCast_nonneg _) (by omega)
    obtain ⟨following, link⟩ := Option.ne_none_iff_exists'.mp (ends.links _ (node.resolve_left (by omega)))
    rw [← ends.head] at link
    obtain ⟨final, finished, last⟩ := @copyTo_returns middle (length - (nodeSpan - state.stream.headByteCount.setWidth 32))
      (shift data (nodeSpan - state.stream.headByteCount.setWidth 32 : U32).toNat) 0 following le_rfl
      (by rw [BitVec.toNat_sub_of_le (BitVec.le_def.mpr (by omega))]; omega)
    rw [copied]
    dsimp only
    rw [link, finished, ← (ends.trans last).count]
    exact (anchored.ends (ends.trans last)).mergeEnds long (by rw [(ends.trans last).count]; exact small) _

end Parts

section Call

variable {state : FileState} {seq length : U32}

/-- `Append` returns from a block that runs into no entry and that its nodes can hold. -/
theorem Anchored.append (anchored : Anchored state.stream) (short : length.toNat ≤ nodeSize)
    (holdable : ¬ 0 < (state.stream.lastSeq - seq).toInt →
      (checkUB state.stream seq length).1 ≠ .malicious ∧ Holdable state seq length) (data : Memory) :
    ∃ code next, append state seq length data = (.returned code, next) ∧ Anchored next.stream := by
  by_cases late : 0 < (state.stream.lastSeq - seq).toInt
  · exact ⟨-1, state, if_pos late, anchored⟩
  obtain ⟨honest, near, whole⟩ := holdable late
  have checkedAnchored : Anchored (checked state seq length).stream := ⟨anchored.single, anchored.fits⟩
  have finished {code : Int} {part : Part} (returns : ∃ next, part = .ok next ∧ Anchored next.stream) :
      ∃ answer next, finish code part = (.returned answer, next) ∧ Anchored next.stream := by
    obtain ⟨next, rfl, kept⟩ := returns
    exact ⟨code, next, rfl, kept⟩
  cases message : (checkUB state.stream seq length).1 with
  | malicious => exact absurd message honest
  | full | overlap =>
      rw [FileReceiveStream.append, if_neg late]
      generalize checkUB state.stream seq length = answer at message ⊢
      obtain ⟨_, ubList⟩ := answer
      cases message
      exact ⟨_, _, rfl, anchored.single, anchored.fits⟩
  | extended | added =>
      have placed : Placed (checkUB state.stream seq length).1 := by simp [Placed, message]
      rw [append_placed late placed]
      exact finished (checkedAnchored.putUnSeq (near placed) data)
  | onSeq =>
      rw [append_onSeq late message]
      exact finished (checkedAnchored.appendOnSeq short data)
  | merging =>
      obtain ⟨sequenced, front, rest, list, -, answer⟩ := checkUB_merging message
      rw [append_merges sequenced answer]
      exact finished (checkedAnchored.appendMerging short (whole message front (by rw [list]; rfl)) data)

end Call

/-- A new stream has one node without a byte. -/
theorem fileRcvStream_anchored (heap : NodeHeap) (pool : NodePool) (capacity : Nat) :
    Anchored (fileRcvStream heap pool capacity).stream := by
  refine ⟨rfl, ?_⟩
  exact Nat.zero_le _

end Altus.FileReceiveStream
