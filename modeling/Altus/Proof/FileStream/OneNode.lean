import Altus.Proof.FileStream.ChainCalls

namespace Altus.FileReceiveStream

open Bytes Chain

/-- The stream has one node. -/
structure OneNode (state : FileState) : Prop where
  single : state.stream.tail = state.stream.head
  ends : (state.heap.node state.stream.head).toTail = none
  count : state.stream.nodeCount = 0

section Single

variable {state : FileState} {seq length : U32} {data : Memory} {offset : Nat} {callees : ChainCallees}

theorem OneNode.nodes (one : OneNode state) {nodes : List Ptr} (chain : ChainOf state nodes) :
    nodes = [state.stream.head] := by
  obtain ⟨first, linked⟩ := chain
  cases nodes with
  | nil => cases first
  | cons head rest =>
      obtain rfl := Option.some.inj first
      have link : state.heap.links state.stream.head = (state.stream.head :: rest)[1]? := linked.next_eq rfl
      rw [NodeHeap.links, one.ends] at link
      cases rest with
      | nil => rfl
      | cons second rest => cases link

theorem OneNode.chainOf (one : OneNode state) : ChainOf state [state.stream.head] :=
  ⟨rfl, linked_single one.ends⟩

theorem OneNode.chained (one : OneNode state) : Chained state := by
  refine ⟨[state.stream.head], one.chainOf, ?_, ?_, ?_⟩
  · rw [one.single]
    rfl
  · rw [one.single]
    exact one.ends
  · rw [one.count]
    rfl

/-- A chain of one node has no second node that `FlushNode` could make the head. -/
theorem OneNode.moves (one : OneNode state) : Moves state := by
  intro second rest chain
  cases one.nodes chain

theorem OneNode.write (one : OneNode state) (offset : Nat) (data : Memory) (length : U32) :
    OneNode (written state offset data length) where
  single := one.single
  ends := by
    refine Eq.trans ?_ one.ends
    exact state.heap.modify_keeps Node.toTail state.stream.head
      (fun node => { node with data := memcpy node.data offset data length.toNat }) (fun _ => rfl) state.stream.head
  count := one.count

/-- `PutUnSeq` writes a block of the head node there, without `NewNode`. -/
theorem putUnSeq_near (positive : 1 ≤ length.toNat)
    (inside : (seq - state.stream.headSeq).toNat + length.toNat ≤ nodeSize) (data : Memory) (callees : ChainCallees) :
    putUnSeqLoop ((seq - state.stream.headSeq).toInt.toNat / nodeSize + 1) state
        (some state.stream.head) (seq - state.stream.headSeq).toInt callees =
      .ok (state, some state.stream.head, (seq - state.stream.headSeq).toInt) ∧
    putUnSeq state seq length data callees = .ok (written state (seq - state.stream.headSeq).toNat data length) := by
  have place : (seq - state.stream.headSeq).toInt = (seq - state.stream.headSeq).toNat := by
    apply BitVec.toInt_eq_toNat_of_lt
    unfold nodeSize at inside
    omega
  have near : ¬ (nodeSize : Int) ≤ (seq - state.stream.headSeq).toInt := by
    rw [place]
    omega
  have walked : putUnSeqLoop ((seq - state.stream.headSeq).toInt.toNat / nodeSize + 1) state
      (some state.stream.head) (seq - state.stream.headSeq).toInt callees =
        .ok (state, some state.stream.head, (seq - state.stream.headSeq).toInt) := by
    rw [putUnSeqLoop, if_neg near]
  refine ⟨walked, ?_⟩
  have room : length ≤ BitVec.ofInt 32 (nodeSize - (seq - state.stream.headSeq).toInt) := by
    rw [place, BitVec.le_def, BitVec.toNat_ofInt]
    unfold nodeSize at inside ⊢
    omega
  rw [putUnSeq]
  dsimp only
  rw [walked]
  dsimp only
  rw [if_pos room, place, copyTo_head inside]

theorem appendOnSeq_near (inside : state.stream.headByteCount.toNat + length.toNat ≤ nodeSize)
    (callees : ChainCallees) :
    appendOnSeq state length data callees =
      .ok { written state state.stream.headByteCount.toNat data length with stream := { state.stream with
        lastSeq := state.stream.lastSeq + length
        headByteCount := state.stream.headByteCount + length.setWidth 16 } } := by
  rw [appendOnSeq]
  dsimp only
  rw [if_pos (fits_head inside), copyTo_head inside]
  rfl

/-- The merging case up to its loop, for a block that ends in the head node. -/
def merged (state : FileState) (front : U32 × U32) (length : U32) (data : Memory) : FileState :=
  { written state state.stream.headByteCount.toNat data length with stream := { state.stream with
      headByteCount := BitVec.ofInt 16 ((state.stream.headByteCount.toNat +
        (length + front.2 - front.1).toInt).tmod nodeSize)
      lastSeq := state.stream.lastSeq + (length + front.2 - front.1) } }

theorem appendMerging_near {front : U32 × U32}
    (inside : state.stream.headByteCount.toNat + length.toNat ≤ nodeSize)
    (room : ¬ (2 : Int) ^ 31 ≤ state.stream.headByteCount.toNat + (length + front.2 - front.1).toInt)
    (callees : ChainCallees) :
    appendMerging state front length data callees =
      mergeLoop mergeRounds (merged state front length data) (length + front.2 - front.1).toInt callees := by
  rw [appendMerging]
  dsimp only
  rw [if_pos (fits_head inside), copyTo_head inside]
  dsimp only
  rw [if_neg room, BitVec.ofInt_toInt]
  rfl

/-- The flushes of the merging case leave a single node in place. -/
theorem OneNode.merges (agrees : callees.Agrees) (rounds : Nat) : ∀ {state : FileState} {mergeLength : Int},
    OneNode state → mergeLoop rounds state mergeLength callees = mergeLoop rounds state mergeLength ∧
      OneNode (finish 0 (mergeLoop rounds state mergeLength)).2 := by
  induction rounds with
  | zero => exact fun one => ⟨rfl, one⟩
  | succ rounds ih =>
      intro state mergeLength one
      rw [mergeLoop, mergeLoop]
      dsimp only
      rw [agrees.flushNode state one.moves, flushNode_eq one.single]
      by_cases short : mergeLength < (nodeSize : Int)
      · rw [if_pos short, if_pos short]
        dsimp only
        have flushed : OneNode { state with stream := { state.stream with
            file := state.stream.file ++ Bytes.read (state.heap.node state.stream.head).data nodeSize
            headSeq := state.stream.headSeq + nodeSpan
            headByteCount := 0 } } := ⟨one.single, one.ends, one.count⟩
        split_ifs with overflow
        · exact ⟨rfl, flushed⟩
        · exact ih flushed
      · rw [if_neg short, if_neg short]
        exact ⟨rfl, one⟩

end Single

/-- `tail` has a node behind it. -/
def Grown (state : FileState) : Prop := (state.heap.node state.stream.tail).toTail ≠ none

instance (state : FileState) : Decidable (Grown state) := inferInstanceAs (Decidable (_ ≠ _))

section Growth

variable {state next : FileState} {seq length : U32} {data : Memory}

theorem Grown.not_chained (grown : Grown state) : ¬ Chained state :=
  fun ⟨_, _, _, ends, _⟩ => grown ends

/-- `NewNode` links a node behind `tail`, but does not move `tail`. -/
theorem newNode_grown (state : FileState) : Grown (newNode state) := by
  rw [Grown, newNode_eq, NodeHeap.modify_node_self]
  exact Option.some_ne_none _

theorem Grown.setStream (grown : Grown state) {stream : FileRcvStream} (tail : stream.tail = state.stream.tail) :
    Grown { state with stream := stream } := by
  rw [Grown]
  dsimp only
  rw [tail]
  exact grown

theorem Grown.copy (grown : Grown state) (target : Option Ptr) (offset : Int) (source : Memory) (length : U32) :
    Grown (finish 1 (copyTo state target offset source length)).2 := by
  rw [copyTo, NodeHeap.copyTo.eq_def]
  cases target with
  | none => exact grown
  | some pointer =>
      dsimp only
      split_ifs
      · refine ne_of_eq_of_ne ?_ grown
        exact state.heap.modify_keeps Node.toTail pointer
          (fun node => { node with data := memcpy node.data offset.toNat source length.toNat }) (fun _ => rfl) _
      · exact grown

/-- The step of `PutUnSeq` to the following node. -/
theorem nextNode_grown (target : Ptr) (grows : Grown state ∨ (state.heap.node target).toTail = none) :
    Grown (if (state.heap.node target).toTail = none then newNode state else state) := by
  split_ifs with ends
  · exact newNode_grown state
  · exact grows.resolve_right ends

theorem Grown.walk (rounds : Nat) : ∀ {state : FileState} {target : Option Ptr} {i : Int}, Grown state →
    match putUnSeqLoop rounds state target i with
    | .ok (next, _) => Grown next
    | .error (_, next) => Grown next := by
  induction rounds with
  | zero => exact fun grown => grown
  | succ rounds ih =>
      intro state target i grown
      rw [putUnSeqLoop.eq_def]
      dsimp only
      split_ifs
      · cases target with
        | none => exact grown
        | some pointer => exact ih (nextNode_grown pointer (Or.inl grown))
      · exact grown

/-- What `PutUnSeq` does behind its walk never takes the node behind `tail` away. -/
theorem putUnSeq_grown (walked : match putUnSeqLoop ((seq - state.stream.headSeq).toInt.toNat / nodeSize + 1) state
      (some state.stream.head) (seq - state.stream.headSeq).toInt with
    | .ok (middle, _) => Grown middle
    | .error (_, middle) => Grown middle) : Grown (finish 1 (putUnSeq state seq length data)).2 := by
  rw [putUnSeq]
  dsimp only
  revert walked
  cases putUnSeqLoop ((seq - state.stream.headSeq).toInt.toNat / nodeSize + 1) state (some state.stream.head)
      (seq - state.stream.headSeq).toInt with
  | error failed => exact id
  | ok answer =>
      obtain ⟨middle, target, i⟩ := answer
      intro grown
      dsimp only
      split_ifs
      · exact grown.copy target i data length
      · have copied := grown.copy target i data (BitVec.ofInt 32 (nodeSize - i))
        revert copied
        cases copyTo middle target i data (BitVec.ofInt 32 (nodeSize - i)) with
        | error failed => exact id
        | ok final =>
            intro copied
            cases target with
            | none => exact copied
            | some pointer => exact Grown.copy (nextNode_grown pointer (Or.inl copied)) _ _ _ _

/-- A block beyond the head node makes `PutUnSeq` call `NewNode`. -/
theorem OneNode.putUnSeq_far (one : OneNode state) (far : (nodeSize : Int) ≤ (seq - state.stream.headSeq).toInt) :
    Grown (finish 1 (putUnSeq state seq length data)).2 := by
  apply putUnSeq_grown
  rw [putUnSeqLoop, if_pos far]
  exact Grown.walk _ (nextNode_grown state.stream.head (Or.inr one.ends))

/-- So does a block that begins in the head node and ends behind it. -/
theorem OneNode.putUnSeq_crossing (one : OneNode state) (near : (seq - state.stream.headSeq).toNat < nodeSize)
    (crosses : nodeSize < (seq - state.stream.headSeq).toNat + length.toNat) :
    Grown (finish 1 (putUnSeq state seq length data)).2 := by
  have place : (seq - state.stream.headSeq).toInt = (seq - state.stream.headSeq).toNat := by
    apply BitVec.toInt_eq_toNat_of_lt
    unfold nodeSize at near
    omega
  have writable : (BitVec.ofInt 32 (nodeSize - ((seq - state.stream.headSeq).toNat : Int))).toNat =
      nodeSize - (seq - state.stream.headSeq).toNat := by
    rw [BitVec.toNat_ofInt]
    unfold nodeSize at near ⊢
    omega
  have long : ¬ length ≤ BitVec.ofInt 32 (nodeSize - ((seq - state.stream.headSeq).toNat : Int)) := by
    rw [BitVec.le_def, writable]
    omega
  rw [putUnSeq, place]
  dsimp only
  rw [putUnSeqLoop, if_neg (by exact_mod_cast Nat.not_le.mpr near)]
  dsimp only
  rw [if_neg long, copyTo_head (by rw [writable]; omega)]
  dsimp only
  exact Grown.copy (nextNode_grown _ (Or.inr (one.write _ _ _).ends)) _ _ _ _

/-- A block that does not end in the head node leaves a node behind `tail` when `PutUnSeq` reaches its place. -/
theorem OneNode.putUnSeq_large (one : OneNode state)
    (large : nodeSize < (seq - state.stream.headSeq).toNat + length.toNat)
    (reaches : ReachesNode state seq length data) :
    Grown (finish 1 (putUnSeq state seq length data)).2 := by
  rcases Nat.lt_or_ge (seq - state.stream.headSeq).toNat nodeSize with near | beyond
  · exact one.putUnSeq_crossing near large
  by_cases far : (nodeSize : Int) ≤ (seq - state.stream.headSeq).toInt
  · exact one.putUnSeq_far far
  -- A distance that is negative as an `int` ends the walk at the head, but the chain has no node at this place.
  obtain ⟨walked, nodes, node, i, walks, chain, place⟩ := reaches.walks
  rw [putUnSeqLoop, if_neg far] at walks
  obtain rfl : state = walked := congrArg Prod.fst (Except.ok.inj walks)
  rw [one.nodes chain] at place
  have first := (List.getElem?_eq_some_iff.mp place).1
  have index : 1 ≤ (seq - state.stream.headSeq).toNat / nodeSize := (Nat.one_le_div_iff (by decide)).mpr beyond
  simp only [List.length_singleton] at first
  omega

/-- A block in sequence that does not fit into the head node makes `Append` call `NewNode`. -/
theorem OneNode.appendOnSeq_crossing (one : OneNode state) (room : state.stream.headByteCount.toNat ≤ nodeSize)
    (crosses : nodeSize < state.stream.headByteCount.toNat + length.toNat) :
    Grown (finish 0 (appendOnSeq state length data)).2 := by
  have span : (nodeSpan : U32).toNat = 4096 := rfl
  have writable : (nodeSpan - state.stream.headByteCount.setWidth 32).toNat =
      nodeSize - state.stream.headByteCount.toNat := by
    rw [BitVec.toNat_sub, BitVec.toNat_setWidth, span]
    unfold nodeSize at room ⊢
    omega
  have long : ¬ length ≤ nodeSpan - state.stream.headByteCount.setWidth 32 := by
    rw [BitVec.le_def, writable]
    omega
  rw [appendOnSeq]
  dsimp only
  rw [if_neg long, copyTo_head (by rw [writable]; omega)]
  dsimp only
  have wrote := one.write state.stream.headByteCount.toNat data (nodeSpan - state.stream.headByteCount.setWidth 32)
  generalize nodeSpan - state.stream.headByteCount.setWidth 32 = writableLen at wrote ⊢
  generalize written state state.stream.headByteCount.toNat data writableLen = middle at wrote ⊢
  rw [if_pos wrote.single.symm]
  have grown := newNode_grown middle
  have single : (newNode middle).stream.tail = (newNode middle).stream.head := wrote.single
  generalize newNode middle = longer at grown single ⊢
  have filled := grown.copy (longer.heap.node longer.stream.head).toTail 0 (shift data writableLen.toNat)
    (length - writableLen)
  cases copied : copyTo longer (longer.heap.node longer.stream.head).toTail 0 (shift data writableLen.toNat)
      (length - writableLen) with
  | error failed =>
      rw [copied] at filled
      exact filled
  | ok final =>
      rw [copied] at filled
      -- `FlushNode` takes the head for the last node, so the head stays.
      dsimp only
      rw [flushNode_eq (by dsimp only; rw [copyTo_stream copied]; exact single)]
      exact Grown.setStream filled rfl

end Growth

end Altus.FileReceiveStream
