import Altus.Proof.FileStream.OneNode

namespace Altus.FileReceiveStream

open Bytes Chain

/-- A block that `Append` takes ends in the head node. -/
def FitsHead (state : FileState) (seq length : U32) : Prop :=
  TakesBlock state seq length → (seq - state.stream.headSeq).toNat + length.toNat ≤ nodeSize

/-- The chain is kept by an `Append`, by every `NewNode` and `FlushNode` that it calls, and by its `PutUnSeq`. -/
structure KeepsChain (state : FileState) (seq length : U32) (data : Memory) : Prop where
  chained : Chained (append state seq length data).2
  calls : ∀ callees : ChainCallees, callees.Agrees →
    append state seq length data callees = append state seq length data
  reaches : ¬ 0 < (state.stream.lastSeq - seq).toInt → Placed (checkUB state.stream seq length).1 →
    ReachesNode (checked state seq length) seq length data

/-- A stream of one node that holds all bytes. `headByteCount` counts the bytes in sequence, unless a merge has filled
the node, which leaves the first entry behind. -/
structure Confined (state : FileState) : Prop where
  one : OneNode state
  sequenced : (state.stream.lastSeq - state.stream.headSeq).toNat ≤ nodeSize
  entries : ∀ run ∈ state.stream.ubList, (run.1 - state.stream.headSeq).toNat ≤ nodeSize ∧
    (run.2 - state.stream.headSeq).toNat ≤ nodeSize
  filled : state.stream.headByteCount.toNat = (state.stream.lastSeq - state.stream.headSeq).toNat ∨
    state.stream.headByteCount.toNat = 0 ∧ (state.stream.lastSeq - state.stream.headSeq).toNat = nodeSize ∧
      ∃ front ∈ state.stream.ubList.head?, (front.1 - state.stream.headSeq).toNat < nodeSize

section Step

variable {state : FileState} {seq length : U32}

theorem OneNode.checked (one : OneNode state) : OneNode (checked state seq length) := ⟨one.single, one.ends, one.count⟩

/-- The distance to the end of a block that begins in the head node. -/
theorem Confined.end_distance (confined : Confined state) (sequenced : seq = state.stream.lastSeq)
    (short : length.toNat ≤ 488) :
    (seq + length - state.stream.headSeq).toNat = (seq - state.stream.headSeq).toNat + length.toNat := by
  apply Serial.distance_add
  have near := confined.sequenced
  rw [← sequenced] at near
  unfold nodeSize at near
  omega

/-- A block in sequence begins behind the bytes of the head node. -/
theorem Confined.count_onSeq (confined : Confined state) (sequenced : seq = state.stream.lastSeq)
    (before : ∀ front ∈ state.stream.ubList.head?, 0 < (front.1 - (seq + length)).toInt) (short : length.toNat ≤ 488) :
    state.stream.headByteCount.toNat = (seq - state.stream.headSeq).toNat := by
  rw [sequenced]
  refine confined.filled.resolve_right ?_
  rintro ⟨-, full, front, first, below⟩
  have ends := confined.end_distance sequenced short
  rw [sequenced, full] at ends
  have ahead := before front first
  unfold nodeSize at full ends below
  rw [sequenced, @Serial.sub_pos_iff_of_base 32 state.stream.headSeq _ _ (by omega) (by omega)] at ahead
  omega

/-- A block that merges begins behind the bytes of the head node, and it ends in it. -/
theorem Confined.count_merging (confined : Confined state) (sequenced : seq = state.stream.lastSeq)
    {front : U32 × U32} {rest : List (U32 × U32)} (list : state.stream.ubList = front :: rest)
    (touches : front.1 = seq + length) (short : length.toNat ≤ 488) :
    state.stream.headByteCount.toNat = (seq - state.stream.headSeq).toNat ∧
      (seq - state.stream.headSeq).toNat + length.toNat ≤ nodeSize := by
  have ends := confined.end_distance sequenced short
  have inside := (confined.entries front (by rw [list]; exact List.mem_cons_self)).1
  rw [touches, ends] at inside
  refine ⟨?_, inside⟩
  rw [sequenced]
  refine confined.filled.resolve_right ?_
  rintro ⟨-, full, other, first, below⟩
  rw [list] at first
  obtain rfl := Option.some.inj first
  rw [touches, ends, sequenced, full] at below
  omega

/-- A placed block that fits leaves a stream of one node. -/
theorem Confined.place (confined : Confined state) (inTime : ¬ 0 < (state.stream.lastSeq - seq).toInt)
    (placed : Placed (checkUB state.stream seq length).1) (positive : 1 ≤ length.toNat)
    (inside : (seq - state.stream.headSeq).toNat + length.toNat ≤ nodeSize) (data : Memory) :
    Confined (written (checked state seq length) (seq - state.stream.headSeq).toNat data length) where
  one := confined.one.checked.write _ _ _
  sequenced := confined.sequenced
  entries := by
    obtain ⟨-, edits⟩ := checkUB_placed placed
    refine edits.ends (fun serial => (serial - state.stream.headSeq).toNat ≤ nodeSize) ?_ ?_ confined.entries
    · omega
    · rw [Serial.distance_add (by unfold nodeSize at inside; omega)]
      exact inside
  filled := by
    refine Or.inl (confined.filled.resolve_right ?_)
    rintro ⟨-, full, -⟩
    have near : 2 * (state.stream.lastSeq - state.stream.headSeq).toNat < 2 ^ 32 := by
      rw [full]
      decide
    have ahead := (Serial.distance_of_not_behind inTime near).1
    omega

/-- A block in sequence that fits leaves a stream of one node. -/
theorem Confined.sequence (confined : Confined state) (onSeq : (checkUB state.stream seq length).1 = .onSeq)
    (short : length.toNat ≤ 488) (inside : (seq - state.stream.headSeq).toNat + length.toNat ≤ nodeSize)
    (data : Memory) : Confined { written (checked state seq length) state.stream.headByteCount.toNat data length with
      stream := { (checked state seq length).stream with
        lastSeq := state.stream.lastSeq + length
        headByteCount := state.stream.headByteCount + length.setWidth 16 } } := by
  obtain ⟨sequenced, before⟩ := checkUB_onSeq onSeq
  have count := confined.count_onSeq sequenced before short
  have ends := confined.end_distance sequenced short
  have wrote : OneNode (written (checked state seq length) state.stream.headByteCount.toNat data length) :=
    confined.one.checked.write _ _ _
  refine ⟨⟨wrote.single, wrote.ends, wrote.count⟩, ?_, ?_, Or.inl ?_⟩
  · change (state.stream.lastSeq + length - state.stream.headSeq).toNat ≤ nodeSize
    rw [← sequenced, ends]
    exact inside
  · change ∀ run ∈ (checkUB state.stream seq length).2, _
    rw [checkUB_sequenced sequenced]
    exact confined.entries
  · change (state.stream.headByteCount + length.setWidth 16).toNat =
      (state.stream.lastSeq + length - state.stream.headSeq).toNat
    rw [← sequenced, ends, BitVec.toNat_add, BitVec.toNat_setWidth, count]
    unfold nodeSize at inside
    omega

/-- A merge that ends has filled the node with its first bytes. -/
theorem Confined.merge (confined : Confined state) {front : U32 × U32} {rest : List (U32 × U32)}
    (sequenced : seq = state.stream.lastSeq) (list : state.stream.ubList = front :: rest)
    (touches : front.1 = seq + length) (short : length.toNat ≤ 488) (data : Memory) :
    ¬ (2 : Int) ^ 31 ≤ state.stream.headByteCount.toNat + (length + front.2 - front.1).toInt ∧
      ((nodeSize : Int) ≤ (length + front.2 - front.1).toInt →
        Confined (merged (checked state seq length) front length data)) := by
  obtain ⟨count, inside⟩ := confined.count_merging sequenced list touches short
  have near := confined.sequenced
  have stop := (confined.entries front (by rw [list]; exact List.mem_cons_self)).2
  have joined : length + front.2 - front.1 = front.2 - state.stream.lastSeq := by
    rw [touches, sequenced]
    ring
  have distance := Serial.toNat_sub_sub state.stream.headSeq state.stream.lastSeq front.2
  have small := state.stream.headByteCount.isLt
  rw [joined]
  unfold nodeSize at near stop inside ⊢
  constructor
  · rw [BitVec.toInt_eq_toNat_cond]
    split at distance <;> split <;> omega
  intro long
  have whole : (state.stream.lastSeq - state.stream.headSeq).toNat = 0 ∧
      (front.2 - state.stream.headSeq).toNat = nodeSize ∧ (front.2 - state.stream.lastSeq).toInt = nodeSize := by
    rw [BitVec.toInt_eq_toNat_cond] at long ⊢
    unfold nodeSize
    split at distance <;> split at long <;> omega
  obtain ⟨start, full, bytes⟩ := whole
  have wrote : OneNode (written (checked state seq length) state.stream.headByteCount.toNat data length) :=
    confined.one.checked.write _ _ _
  have kept : (checked state seq length).stream.ubList = state.stream.ubList := checkUB_sequenced sequenced
  have lastSeq : (merged (checked state seq length) front length data).stream.lastSeq = front.2 := by
    change state.stream.lastSeq + (length + front.2 - front.1) = front.2
    rw [joined]
    ring
  have empty : state.stream.headByteCount.toNat = 0 := by rw [count, sequenced, start]
  refine ⟨⟨wrote.single, wrote.ends, wrote.count⟩, ?_, ?_, Or.inr ⟨?_, ?_, front, ?_, ?_⟩⟩
  · rw [lastSeq]
    exact full.le
  · change ∀ run ∈ (checked state seq length).stream.ubList, _
    rw [kept]
    exact confined.entries
  · change (BitVec.ofInt 16 ((state.stream.headByteCount.toNat + (length + front.2 - front.1).toInt).tmod
      nodeSize)).toNat = 0
    rw [joined, bytes, empty]
    rfl
  · rw [lastSeq]
    exact full
  · change front ∈ (checked state seq length).stream.ubList.head?
    rw [kept, list]
    exact rfl
  · change (front.1 - state.stream.headSeq).toNat < nodeSize
    rw [touches, confined.end_distance sequenced short, sequenced, start]
    unfold nodeSize
    omega

/-- A block that fits calls neither `NewNode` nor `FlushNode`, or it ends in the loop of the merging case. -/
theorem Confined.appends (confined : Confined state) (positive : 1 ≤ length.toNat) (short : length.toNat ≤ 488)
    (fits : FitsHead state seq length) (data : Memory) :
    (∃ outcome next, (∀ callees, append state seq length data callees = (outcome, next)) ∧ Confined next) ∨
      ∃ middle mergeLength, (∀ callees, append state seq length data callees =
        finish 0 (mergeLoop mergeRounds middle mergeLength callees)) ∧ OneNode middle ∧
          ((nodeSize : Int) ≤ mergeLength → Confined middle) := by
  by_cases taken : TakesBlock state seq length
  swap
  · obtain ⟨outcome, unSeqLen, -, same⟩ := append_refuses taken data
    refine Or.inl ⟨outcome, _, same, ⟨?_, confined.sequenced, confined.entries, confined.filled⟩⟩
    exact ⟨confined.one.single, confined.one.ends, confined.one.count⟩
  obtain ⟨inTime, accepts⟩ := taken
  have inside := fits ⟨inTime, accepts⟩
  cases message : (checkUB state.stream seq length).1 with
  | full | malicious | overlap => exact absurd (by simp [Refuses, message]) accepts
  | extended | added =>
      have placed : Placed (checkUB state.stream seq length).1 := by simp [Placed, message]
      refine Or.inl ⟨.returned 1, _, fun callees => ?_, confined.place inTime placed positive inside data⟩
      have near : (seq - (checked state seq length).stream.headSeq).toNat + length.toNat ≤ nodeSize := inside
      rw [append_placed inTime placed, (putUnSeq_near positive near data callees).2]
      rfl
  | onSeq =>
      obtain ⟨sequenced, before⟩ := checkUB_onSeq message
      have room := inside
      rw [← confined.count_onSeq sequenced before short] at room
      refine Or.inl ⟨.returned 0, _, fun callees => ?_, confined.sequence message short inside data⟩
      rw [append_onSeq inTime message, appendOnSeq_near
        (show (checked state seq length).stream.headByteCount.toNat + _ ≤ _ from room)]
      rfl
  | merging =>
      obtain ⟨sequenced, front, rest, list, touches, answer⟩ := checkUB_merging message
      obtain ⟨room, ends⟩ := confined.merge sequenced list touches short data
      rw [← (confined.count_merging sequenced list touches short).1] at inside
      have wrote : OneNode (written (checked state seq length) state.stream.headByteCount.toNat data length) :=
        confined.one.checked.write _ _ _
      refine Or.inr ⟨merged (checked state seq length) front length data, (length + front.2 - front.1).toInt, ?_,
        ⟨wrote.single, wrote.ends, wrote.count⟩, ends⟩
      intro callees
      rw [append_merges sequenced answer, appendMerging_near
        (show (checked state seq length).stream.headByteCount.toNat + _ ≤ _ from inside) room]

/-- A block that fits keeps the chain. -/
theorem Confined.keepsChain (confined : Confined state) (positive : 1 ≤ length.toNat) (short : length.toNat ≤ 488)
    (fits : FitsHead state seq length) (data : Memory) : KeepsChain state seq length data where
  chained := by
    rcases confined.appends positive short fits data with
      ⟨outcome, next, same, kept⟩ | ⟨middle, mergeLength, same, one, -⟩
    · rw [same]
      exact kept.one.chained
    · rw [same]
      exact (one.merges ChainCallees.own_agrees mergeRounds).2.chained
  calls := by
    intro callees agrees
    rcases confined.appends positive short fits data with
      ⟨outcome, next, same, -⟩ | ⟨middle, mergeLength, same, one, -⟩
    · rw [same, same]
    · rw [same, same, (one.merges agrees mergeRounds).1]
  reaches := by
    intro inTime placed
    have inside := fits ⟨inTime, by rcases placed with extended | added <;> simp [Refuses, *]⟩
    have near : (seq - (checked state seq length).stream.headSeq).toNat + length.toNat ≤ nodeSize := inside
    obtain ⟨walked, put⟩ := putUnSeq_near positive near data ⟨newNode, flushNode⟩
    refine ⟨⟨_, _, _, _, walked, confined.one.checked.chainOf, ?_⟩, _, put⟩
    have first : (seq - state.stream.headSeq).toNat / nodeSize = 0 := Nat.div_eq_of_lt (by omega)
    change [state.stream.head][(seq - state.stream.headSeq).toNat / nodeSize]? = some state.stream.head
    rw [first]
    rfl

/-- The stream still has one node that holds all bytes. -/
theorem Confined.append (confined : Confined state) (positive : 1 ≤ length.toNat) (short : length.toNat ≤ 488)
    (fits : FitsHead state seq length) {data : Memory} {outcome : Outcome} {next : FileState}
    (appended : append state seq length data = (outcome, next)) (ended : ∀ fault, outcome ≠ .faulted fault) :
    Confined next := by
  rcases confined.appends positive short fits data with
    ⟨other, final, same, kept⟩ | ⟨middle, mergeLength, same, -, ends⟩
  · rw [same] at appended
    obtain rfl : final = next := congrArg Prod.snd appended
    exact kept
  · rw [same] at appended
    cases merges : mergeLoop mergeRounds middle mergeLength with
    | error failed =>
        rw [merges] at appended
        exact absurd (congrArg Prod.fst appended).symm (ended failed.1)
    | ok final =>
        rw [merges] at appended
        obtain rfl : final = next := congrArg Prod.snd appended
        obtain ⟨long, rfl⟩ := mergeLoop_ok mergeRounds merges
        exact ends long

/-- A block that the stream takes and that does not fit breaks the chain. -/
theorem Confined.breaks (confined : Confined state) (short : length.toNat ≤ 488)
    (taken : TakesBlock state seq length) (large : nodeSize < (seq - state.stream.headSeq).toNat + length.toNat)
    (data : Memory) : ¬ KeepsChain state seq length data := by
  intro keeps
  obtain ⟨inTime, accepts⟩ := taken
  have one : OneNode (checked state seq length) := confined.one.checked
  have chained := keeps.chained
  cases message : (checkUB state.stream seq length).1 with
  | full | malicious | overlap => exact absurd (by simp [Refuses, message]) accepts
  | extended | added =>
      have placed : Placed (checkUB state.stream seq length).1 := by simp [Placed, message]
      rw [append_placed inTime placed] at chained
      exact (one.putUnSeq_large large (keeps.reaches inTime placed)).not_chained chained
  | onSeq =>
      obtain ⟨sequenced, before⟩ := checkUB_onSeq message
      rw [append_onSeq inTime message] at chained
      have count := confined.count_onSeq sequenced before short
      have near := confined.sequenced
      rw [← sequenced, ← count] at near
      rw [← count] at large
      exact (one.appendOnSeq_crossing near large).not_chained chained
  | merging =>
      obtain ⟨sequenced, front, rest, list, touches, -⟩ := checkUB_merging message
      have inside := (confined.count_merging sequenced list touches short).2
      omega

end Step

/-- A new stream takes its one node from fresh memory when the pool is empty. -/
theorem fileRcvStream_confined {pool : NodePool} (empty : pool.recycledHead = none) (heap : NodeHeap) (capacity : Nat) :
    Confined (fileRcvStream heap pool capacity) := by
  rw [fileRcvStream, NodePool.pop, empty]
  refine ⟨⟨rfl, ?_, rfl⟩, by simp, by simp, Or.inl (by simp)⟩
  simp [NodeHeap.newNode]

/-- A completed `Append` of a block of 1 to 488 bytes that fits. -/
def FitAppend (state next : FileState) : Prop :=
  ∃ seq length data outcome, 1 ≤ length.toNat ∧ length.toNat ≤ 488 ∧ FitsHead state seq length ∧
    append state seq length data = (outcome, next) ∧ ∀ fault, outcome ≠ .faulted fault

/-- In every run whose blocks fit, the chain is kept in every state, and the next block keeps it exactly when it fits. -/
theorem run_keepsChain_iff {heap : NodeHeap} {pool : NodePool} {capacity : Nat} {state : FileState}
    (empty : pool.recycledHead = none)
    (run : Relation.ReflTransGen FitAppend (fileRcvStream heap pool capacity) state) :
    Chained state ∧ ∀ seq length data, 1 ≤ length.toNat → length.toNat ≤ 488 →
      (KeepsChain state seq length data ↔ FitsHead state seq length) := by
  have confined : Confined state := by
    induction run with
    | refl => exact fileRcvStream_confined empty heap capacity
    | tail _ last ih =>
        obtain ⟨seq, length, data, outcome, positive, short, fits, appended, ended⟩ := last
        exact ih.append positive short fits appended ended
  refine ⟨confined.one.chained, fun seq length data positive short => ⟨fun keeps taken => ?_, fun fits => ?_⟩⟩
  · by_contra large
    exact confined.breaks short taken (not_le.mp large) data keeps
  · exact confined.keepsChain positive short fits data

/-- Four bytes in sequence join the stream that holds four later ones. -/
theorem run_keepsChain_iff_waiting : Chained fourWaiting ∧ KeepsChain fourWaiting 0 4 (fun _ => 7) := by
  have run : Relation.ReflTransGen FitAppend (fileRcvStream blankNodes NodePool.empty 8) fourWaiting :=
    .single ⟨10, 4, fun _ => 7, .returned 1, by decide, by decide, fun _ => by decide, rfl, by simp⟩
  obtain ⟨chained, keeps⟩ := run_keepsChain_iff rfl run
  exact ⟨chained, (keeps 0 4 (fun _ => 7) (by decide) (by decide)).mpr fun _ => by decide⟩

/-- A byte behind a gap of two nodes: the second `NewNode` drops the node of the first one, and `PutUnSeq` meets a null
link. A byte in the second node alone leaves `tail` before the last node. -/
theorem gap_breaks_chain :
    (append (fileRcvStream blankNodes NodePool.empty 8) 8192 1 (fun _ => 7)).1 = .faulted .nullDereference ∧
      ¬ KeepsChain (fileRcvStream blankNodes NodePool.empty 8) 8192 1 (fun _ => 7) ∧
      ¬ KeepsChain (fileRcvStream blankNodes NodePool.empty 8) 4096 1 (fun _ => 7) := by
  refine ⟨rfl, fun keeps => ?_, fun keeps => ?_⟩
  · have grown : Grown (append (fileRcvStream blankNodes NodePool.empty 8) 8192 1 (fun _ => 7)).2 := by decide
    exact grown.not_chained keeps.chained
  · have grown : Grown (append (fileRcvStream blankNodes NodePool.empty 8) 4096 1 (fun _ => 7)).2 := by decide
    exact grown.not_chained keeps.chained

end Altus.FileReceiveStream
