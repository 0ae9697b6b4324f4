import Altus.Proof.FileStream.Owners

namespace Altus.FileReceiveStream

open Bytes Chain

/-- The walk over a number of links from a node meets the end of its chain. -/
def fallsShort (heap : NodeHeap) : (steps : Nat) → Option Ptr → Bool
  | 0, _ => false
  | _ + 1, none => false
  | steps + 1, some pointer =>
      match (heap.node pointer).toTail with
      | none => true
      | some next => fallsShort heap steps (some next)

/-- The offset that `PutUnSeq` reaches in its node. -/
def lastOffset (i : Int) : Int := if i < 4096 then i else i % 4096

/-- `PutUnSeq` writes into a second node. -/
def crosses (i : Int) (length : U32) : Bool := decide (¬ length ≤ BitVec.ofInt 32 (4096 - lastOffset i))

/-- The links that `PutUnSeq` follows from the head. -/
def linksNeeded (i : Int) (length : U32) : Nat := i.toNat / 4096 + (crosses i length).toNat

/-- An `Append` that links a new node. -/
def TakesNode (state : FileState) (seq length : U32) : Prop :=
  ¬ 0 < (state.stream.lastSeq - seq).toInt ∧
    match (checkUB state.stream seq length).1 with
    | .onSeq => ¬ length ≤ nodeSpan - state.stream.headByteCount.setWidth 32
    | .extended | .added =>
        fallsShort state.heap (linksNeeded (seq - state.stream.headSeq).toInt length) (some state.stream.head) = true
    | _ => False

/-- What a part of an `Append` to stream `id` leaves behind. -/
structure Kept (id : Nat) (heads : Nat → Option Ptr) (state : FileState) (chain : Option Nat → List Ptr)
    (next : FileState) (nextChain : Option Nat → List Ptr) : Prop where
  owns : Owns next.heap next.pool heads nextChain
  others : ∀ other, other ≠ id → nextChain (some other) = chain (some other)
  data : ∀ other, other ≠ id → ∀ cell ∈ chain (some other),
    (next.heap.node cell).data = (state.heap.node cell).data
  head : next.stream.head = state.stream.head
  tail : next.stream.tail = state.stream.tail

section Parts

variable {id : Nat} {heads : Nat → Option Ptr} {state next : FileState} {chain : Option Nat → List Ptr}

theorem Kept.refl (owns : Owns state.heap state.pool heads chain) : Kept id heads state chain state chain :=
  ⟨owns, fun _ _ => rfl, fun _ _ _ _ => rfl, rfl, rfl⟩

theorem Kept.trans {middle : FileState} {middleChain nextChain : Option Nat → List Ptr}
    (first : Kept id heads state chain middle middleChain)
    (second : Kept id heads middle middleChain next nextChain) : Kept id heads state chain next nextChain where
  owns := second.owns
  others := fun other different => (second.others other different).trans (first.others other different)
  data := by
    intro other different cell member
    rw [second.data other different cell (by rw [first.others other different]; exact member)]
    exact first.data other different cell member
  head := second.head.trans first.head
  tail := second.tail.trans first.tail

/-- A change of the other fields of a stream is no change of its chain. -/
theorem Kept.setStream {nextChain : Option Nat → List Ptr} (kept : Kept id heads state chain next nextChain)
    {stream : FileRcvStream} (head : stream.head = next.stream.head) (tail : stream.tail = next.stream.tail) :
    Kept id heads state chain { next with stream := stream } nextChain :=
  ⟨kept.owns, kept.others, kept.data, head.trans kept.head, tail.trans kept.tail⟩

theorem newNode_eq (state : FileState) :
    newNode state =
      { heap := (take state.heap state.pool).2.1.modify state.stream.tail
          fun cell => { cell with toTail := some (take state.heap state.pool).1 }
        pool := (take state.heap state.pool).2.2
        stream := { state.stream with nodeCount := state.stream.nodeCount + 1 } } := by
  rw [newNode, take, NodePool.pop]
  cases state.pool.recycledHead <;> rfl

/-- `NewNode` replaces what follows the head by one node. -/
theorem newNode_kept (owns : Owns state.heap state.pool heads chain) (mine : heads id = some state.stream.head)
    (single : state.stream.tail = state.stream.head) (few : AtMostOne state.heap state.pool) :
    ∃ node nextChain, Kept id heads state chain (newNode state) nextChain ∧
      nextChain (some id) = [state.stream.head, node] ∧
      AtMostOne (newNode state).heap (newNode state).pool := by
  obtain ⟨taken, free, ends, allocated, empty, bytes⟩ := owns.take few
  have linked := taken.link mine free ends allocated
  refine ⟨(take state.heap state.pool).1, Function.update (Function.update chain none []) (some id)
    [state.stream.head, (take state.heap state.pool).1], ?_, Function.update_self _ _ _, ?_⟩
  · rw [newNode_eq, single]
    refine ⟨linked, ?_, ?_, rfl, rfl⟩
    · intro other different
      rw [Function.update_of_ne (by simpa using different), Function.update_of_ne (by simp)]
    · intro other _ cell _
      exact (NodeHeap.setLink_data _ _ _ cell).trans (bytes cell)
  · rw [newNode_eq]
    intro first found
    rw [empty] at found
    cases found

/-- The node behind the end of a chain exists only behind the head, after `NewNode`. -/
theorem newNode_next (owns : Owns state.heap state.pool heads chain)
    (single : state.stream.tail = state.stream.head) {target : Ptr} (member : target ∈ chain (some id))
    (ends : (state.heap.node target).toTail = none) {node : Ptr}
    {nextChain : Option Nat → List Ptr} (kept : Kept id heads state chain (newNode state) nextChain)
    (cells : nextChain (some id) = [state.stream.head, node]) :
    ∀ following, ((newNode state).heap.node target).toTail = some following →
      following ∈ nextChain (some id) := by
  intro following link
  by_cases isHead : target = state.stream.head
  · have headMember : target ∈ nextChain (some id) := by rw [cells, isHead]; simp
    exact kept.owns.next_mem headMember link
  · have unchanged : ((newNode state).heap.node target).toTail = none := by
      rw [newNode_eq, single]
      rw [NodeHeap.modify_node_of_ne _ _ isHead]
      rw [take, NodePool.pop]
      cases state.pool.recycledHead with
      | none => exact (state.heap.newNode_links_of_ne
          (Nat.ne_of_lt (owns.allocated _ target member))).trans ends
      | some first => exact ends
    rw [unchanged] at link
    cases link

/-- A `memcpy` into a node of the own chain. -/
theorem copyTo_kept (owns : Owns state.heap state.pool heads chain) {target : Option Ptr} {offset : Int}
    {source : Memory} {length : U32} (member : ∀ pointer, target = some pointer → pointer ∈ chain (some id))
    (copied : copyTo state target offset source length = .ok next) :
    Kept id heads state chain next chain ∧ next.heap.links = state.heap.links ∧ next.pool = state.pool ∧
      next.stream = state.stream := by
  rw [copyTo] at copied
  split at copied
  · cases copied
  · rename_i heap written
    obtain rfl := Except.ok.inj copied
    cases target with
    | none => cases written
    | some pointer =>
      simp only [NodeHeap.copyTo] at written
      split at written
      · obtain rfl := Except.ok.inj written
        have sameLinks : (state.heap.modify pointer fun node =>
            { node with data := memcpy node.data offset.toNat source length.toNat }).links = state.heap.links := by
          funext other
          exact state.heap.modify_keeps Node.toTail pointer
            (fun node => { node with data := memcpy node.data offset.toNat source length.toNat })
            (fun _ => rfl) other
        refine ⟨⟨owns.of_links sameLinks rfl, fun _ _ => rfl, ?_, rfl, rfl⟩, sameLinks, rfl, rfl⟩
        intro other different cell inOther
        have notTarget : cell ≠ pointer := by
          rintro rfl
          have same := owns.owned.apart (some other) (some id) cell inOther (member cell rfl)
          exact different (Option.some.inj same)
        rw [NodeHeap.modify_node_of_ne _ _ notTarget]
      · cases written

/-- The head node takes the bytes of a `memcpy`. -/
def written (state : FileState) (offset : Nat) (data : Memory) (length : U32) : FileState :=
  { state with heap := state.heap.modify state.stream.head fun node =>
      { node with data := memcpy node.data offset data length.toNat } }

@[simp] theorem written_stream (state : FileState) (offset : Nat) (data : Memory) (length : U32) :
    (written state offset data length).stream = state.stream := rfl

theorem written_data (state : FileState) (offset : Nat) (data : Memory) (length : U32) :
    ((written state offset data length).heap.node state.stream.head).data =
      memcpy (state.heap.node state.stream.head).data offset data length.toNat := by
  rw [written, NodeHeap.modify_node_self]

theorem copyTo_head {offset : Nat} {data : Memory} {length : U32} (inside : offset + length.toNat ≤ nodeSize) :
    copyTo state (some state.stream.head) offset data length = .ok (written state offset data length) := by
  rw [copyTo, NodeHeap.copyTo, if_pos ⟨by omega, by exact_mod_cast inside⟩]
  rfl

/-- A block that fits into the head node fits into the bytes that `Append` may write there. -/
theorem fits_head {headByteCount : U16} {length : U32}
    (inside : headByteCount.toNat + length.toNat ≤ nodeSize) :
    length ≤ nodeSpan - headByteCount.setWidth 32 := by
  have span : (nodeSpan : U32).toNat = 4096 := rfl
  rw [BitVec.le_def, BitVec.toNat_sub, BitVec.toNat_setWidth, span]
  unfold nodeSize at inside
  omega

/-- `FlushNode` of a stream with one pointer keeps all nodes in place. -/
theorem flushNode_eq (single : state.stream.tail = state.stream.head) :
    flushNode state = .ok { state with stream := { state.stream with
      file := state.stream.file ++ Bytes.read (state.heap.node state.stream.head).data nodeSize
      headSeq := state.stream.headSeq + nodeSpan
      headByteCount := 0 } } := by
  rw [flushNode]
  simp only [single, if_true]

/-- The last loop of the merging case ends only when it never began, since its counter runs down. -/
theorem mergeLoop_ok (rounds : Nat) : ∀ {state : FileState} {mergeLength : Int},
    mergeLoop rounds state mergeLength = .ok next → (nodeSize : Int) ≤ mergeLength ∧ next = state := by
  induction rounds with
  | zero =>
      intro state mergeLength merged
      cases merged
  | succ rounds ih =>
      intro state mergeLength merged
      rw [mergeLoop] at merged
      split at merged
      · split at merged
        · cases merged
        split at merged
        · cases merged
        · obtain ⟨ended, -⟩ := ih merged
          have positive : (0 : Int) ≤ nodeSize := by decide
          omega
      · exact ⟨by omega, (Except.ok.inj merged).symm⟩

/-- The step of `PutUnSeq` to the following node, which `NewNode` may link first. -/
theorem nextNode_kept (owns : Owns state.heap state.pool heads chain) (mine : heads id = some state.stream.head)
    (single : state.stream.tail = state.stream.head) {target : Ptr} (member : target ∈ chain (some id))
    {steps : Nat} (room : AtMostOne state.heap state.pool ∨
      fallsShort state.heap (steps + 1) (some target) = false)
    (moved : (if (state.heap.node target).toTail = none then newNode state else state) = next) :
    ∃ nextChain, Kept id heads state chain next nextChain ∧
      (∀ following, (next.heap.node target).toTail = some following → following ∈ nextChain (some id)) ∧
      (AtMostOne next.heap next.pool ∨ fallsShort next.heap steps (next.heap.node target).toTail = false) := by
  cases link : (state.heap.node target).toTail with
  | none =>
      rw [if_pos link] at moved
      subst moved
      have few : AtMostOne state.heap state.pool := by
        rcases room with few | enough
        · exact few
        · simp [fallsShort, link] at enough
      obtain ⟨node, nextChain, kept, cells, nextFew⟩ := newNode_kept owns mine single few
      exact ⟨nextChain, kept, newNode_next owns single member link kept cells, Or.inl nextFew⟩
  | some following =>
      rw [if_neg (by simp [link])] at moved
      subst moved
      refine ⟨chain, Kept.refl owns, ?_, ?_⟩
      · intro other found
        exact owns.next_mem member found
      · rcases room with few | enough
        · exact Or.inl few
        · right
          simpa [fallsShort, link] using enough

/-- The walk of `PutUnSeq` stays on the own chain. -/
theorem putUnSeqLoop_kept (extra rounds : Nat) : ∀ {state : FileState} {chain : Option Nat → List Ptr}
    {target : Option Ptr} {i : Int} {answer : FileState × Option Ptr × Int},
    Owns state.heap state.pool heads chain → heads id = some state.stream.head →
    state.stream.tail = state.stream.head → (∀ pointer, target = some pointer → pointer ∈ chain (some id)) →
    (AtMostOne state.heap state.pool ∨ fallsShort state.heap (i.toNat / 4096 + extra) target = false) →
    putUnSeqLoop rounds state target i = .ok answer →
    answer.2.2 = lastOffset i ∧ ∃ nextChain, Kept id heads state chain answer.1 nextChain ∧
      (∀ pointer, answer.2.1 = some pointer → pointer ∈ nextChain (some id)) ∧
      (AtMostOne answer.1.heap answer.1.pool ∨ fallsShort answer.1.heap extra answer.2.1 = false) := by
  induction rounds with
  | zero =>
      intro state chain target i answer owns mine single member room walked
      cases walked
  | succ rounds ih =>
      intro state chain target i answer owns mine single member room walked
      rw [putUnSeqLoop.eq_def] at walked
      dsimp only at walked
      split at walked
      · rename_i far
        have far : (4096 : Int) ≤ i := far
        have further : (i - 4096).toNat / 4096 + 1 = i.toNat / 4096 := by omega
        cases target with
        | none => cases walked
        | some pointer =>
            dsimp only at walked
            rw [← further, Nat.add_right_comm] at room
            generalize moved : (if (state.heap.node pointer).toTail = none then newNode state else state) = middle
              at walked
            obtain ⟨middleChain, kept, members, middleRoom⟩ :=
              nextNode_kept owns mine single (member pointer rfl) room moved
            obtain ⟨offset, nextChain, later, ends, finalRoom⟩ := ih kept.owns (by rw [kept.head]; exact mine)
              (by rw [kept.head, kept.tail]; exact single) members middleRoom walked
            refine ⟨?_, nextChain, kept.trans later, ends, finalRoom⟩
            rw [offset, lastOffset, lastOffset, if_neg (show ¬ i < 4096 by omega)]
            split <;> omega
      · rename_i near
        have near : ¬ (4096 : Int) ≤ i := near
        obtain rfl := Except.ok.inj walked
        have offset : lastOffset i = i := if_pos (by omega)
        refine ⟨offset.symm, chain, Kept.refl owns, member, ?_⟩
        rcases room with few | enough
        · exact Or.inl few
        · right
          rwa [show i.toNat / 4096 = 0 by omega, Nat.zero_add] at enough

/-- `PutUnSeq` writes on the own chain only. -/
theorem putUnSeq_kept (owns : Owns state.heap state.pool heads chain) (mine : heads id = some state.stream.head)
    (single : state.stream.tail = state.stream.head) {seq length : U32} {data : Memory}
    (room : AtMostOne state.heap state.pool ∨ fallsShort state.heap
      (linksNeeded (seq - state.stream.headSeq).toInt length) (some state.stream.head) = false)
    (put : putUnSeq state seq length data = .ok next) :
    ∃ nextChain, Kept id heads state chain next nextChain := by
  have headMember := owns.head_target mine
  rw [putUnSeq] at put
  dsimp only at put
  split at put
  · cases put
  rename_i middle target offset walked
  obtain ⟨offsetIs, middleChain, kept, member, middleRoom⟩ :=
    putUnSeqLoop_kept _ _ owns mine single headMember room walked
  dsimp only at offsetIs
  split at put
  · exact ⟨middleChain, kept.trans (copyTo_kept kept.owns member put).1⟩
  rename_i crossing
  split at put
  · cases put
  rename_i written copied
  obtain ⟨copyKept, sameLinks, samePool, sameStream⟩ := copyTo_kept kept.owns member copied
  cases target with
  | none => cases put
  | some pointer =>
      dsimp only at put
      have crossed : (crosses (seq - state.stream.headSeq).toInt length).toNat = 1 := by
        rw [crosses, ← offsetIs]
        exact congrArg Bool.toNat (decide_eq_true crossing)
      rw [crossed] at middleRoom
      have writtenRoom : AtMostOne written.heap written.pool ∨
          fallsShort written.heap 1 (some pointer) = false := by
        have linkIs (cell : Ptr) : (written.heap.node cell).toTail = (middle.heap.node cell).toTail :=
          congrFun sameLinks cell
        simpa only [AtMostOne, fallsShort, linkIs, samePool] using middleRoom
      generalize moved : (if (written.heap.node pointer).toTail = none then newNode written else written) = final
        at put
      have both := kept.trans copyKept
      obtain ⟨finalChain, finalKept, members, -⟩ := nextNode_kept copyKept.owns
        (by rw [both.head]; exact mine) (by rw [both.head, both.tail]; exact single) (member pointer rfl)
        writtenRoom moved
      exact ⟨finalChain, both.trans (finalKept.trans (copyTo_kept finalKept.owns members put).1)⟩

/-- The on-sequence case writes on the own chain only. -/
theorem appendOnSeq_kept (owns : Owns state.heap state.pool heads chain) (mine : heads id = some state.stream.head)
    (single : state.stream.tail = state.stream.head) {length : U32} {data : Memory}
    (room : ¬ length ≤ nodeSpan - state.stream.headByteCount.setWidth 32 → AtMostOne state.heap state.pool)
    (appended : appendOnSeq state length data = .ok next) :
    ∃ nextChain, Kept id heads state chain next nextChain := by
  have headMember := owns.head_target mine
  rw [appendOnSeq] at appended
  dsimp only at appended
  split at appended
  · split at appended
    · cases appended
    · rename_i written copied
      obtain rfl := Except.ok.inj appended
      exact ⟨chain, (copyTo_kept owns headMember copied).1.setStream rfl rfl⟩
  · rename_i crossing
    split at appended
    · cases appended
    rename_i written copied
    obtain ⟨kept, sameLinks, samePool, sameStream⟩ := copyTo_kept owns headMember copied
    rw [if_pos (by rw [sameStream]; exact single.symm)] at appended
    have few : AtMostOne written.heap written.pool := by
      have before := room crossing
      have linkIs (cell : Ptr) : (written.heap.node cell).toTail = (state.heap.node cell).toTail :=
        congrFun sameLinks cell
      simpa only [AtMostOne, linkIs, samePool] using before
    have writtenMine : heads id = some written.stream.head := by rw [sameStream]; exact mine
    have writtenSingle : written.stream.tail = written.stream.head := by rw [sameStream]; exact single
    obtain ⟨node, nextChain, grown, cells, -⟩ := newNode_kept kept.owns writtenMine writtenSingle few
    split at appended
    · cases appended
    rename_i final filled
    have members : ∀ pointer, ((newNode written).heap.node (newNode written).stream.head).toTail = some pointer →
        pointer ∈ nextChain (some id) := by
      intro pointer link
      have first : (newNode written).stream.head ∈ nextChain (some id) := by rw [cells, grown.head]; simp
      exact grown.owns.next_mem first link
    obtain ⟨fillKept, -, -, -⟩ := copyTo_kept grown.owns members filled
    have all := kept.trans (grown.trans fillKept)
    rw [flushNode_eq (by dsimp only; rw [all.head, all.tail]; exact single)] at appended
    obtain rfl := Except.ok.inj appended
    exact ⟨nextChain, all.setStream rfl rfl⟩

/-- The merging case writes on the own chain only. -/
theorem appendMerging_kept (owns : Owns state.heap state.pool heads chain)
    (mine : heads id = some state.stream.head) {front : U32 × U32} {length : U32} {data : Memory}
    (appended : appendMerging state front length data = .ok next) : Kept id heads state chain next chain := by
  have headMember := owns.head_target mine
  have follower (middle : FileState) (sameLinks : middle.heap.links = state.heap.links)
      (sameStream : middle.stream = state.stream) : ∀ pointer,
      (middle.heap.node middle.stream.head).toTail = some pointer → pointer ∈ chain (some id) := by
    intro pointer link
    rw [sameStream] at link
    exact owns.next_mem (headMember _ rfl) ((congrFun sameLinks _).symm.trans link)
  rw [appendMerging] at appended
  dsimp only at appended
  split at appended
  · cases appended
  rename_i written copied
  have kept : Kept id heads state chain written chain := by
    split at copied
    · exact (copyTo_kept owns headMember copied).1
    · split at copied
      · cases copied
      · rename_i middle first
        obtain ⟨firstKept, sameLinks, -, sameStream⟩ := copyTo_kept owns headMember first
        exact firstKept.trans (copyTo_kept firstKept.owns (follower middle sameLinks sameStream) copied).1
  split at appended
  · cases appended
  · obtain ⟨-, rfl⟩ := mergeLoop_ok mergeRounds appended
    exact kept.setStream rfl rfl

end Parts

section Source

variable {length : U32} {first second : Memory}

/-- A `memcpy` of a part of the block only reads the bytes of the block. -/
theorem copyTo_congr (agree : ∀ index < length.toNat, first index = second index) (state : FileState)
    (target : Option Ptr) (offset : Int) {start : Nat} {count : U32} (inside : start + count.toNat ≤ length.toNat) :
    copyTo state target offset (shift first start) count = copyTo state target offset (shift second start) count := by
  have copied (dest : Memory) (position : Nat) :
      memcpy dest position (shift first start) count.toNat = memcpy dest position (shift second start) count.toNat := by
    apply memcpy_congr
    intro index below
    rw [shift, shift, agree _ (by omega)]
  simp only [copyTo, NodeHeap.copyTo, copied]

theorem copyTo_congr_start (agree : ∀ index < length.toNat, first index = second index) (state : FileState)
    (target : Option Ptr) (offset : Int) {count : U32} (inside : count.toNat ≤ length.toNat) :
    copyTo state target offset first count = copyTo state target offset second count := by
  have whole := copyTo_congr agree state target offset (show 0 + count.toNat ≤ length.toNat by omega)
  rwa [shift_zero, shift_zero] at whole

/-- The two parts of a block that does not fit into its node. -/
theorem parts_inside {writableLen : U32} (long : ¬ length ≤ writableLen) :
    writableLen.toNat ≤ length.toNat ∧ writableLen.toNat + (length - writableLen).toNat ≤ length.toNat := by
  rw [BitVec.le_def] at long
  rw [BitVec.toNat_sub]
  have bound := length.isLt
  omega

theorem putUnSeq_congr (agree : ∀ index < length.toNat, first index = second index) (state : FileState) (seq : U32) :
    putUnSeq state seq length first = putUnSeq state seq length second := by
  unfold putUnSeq
  dsimp only
  split
  · rfl
  · split
    · exact copyTo_congr_start agree _ _ _ le_rfl
    · rename_i long
      obtain ⟨front, back⟩ := parts_inside long
      rw [copyTo_congr_start agree _ _ _ front]
      simp only [copyTo_congr agree _ _ _ back]

theorem appendOnSeq_congr (agree : ∀ index < length.toNat, first index = second index) (state : FileState) :
    appendOnSeq state length first = appendOnSeq state length second := by
  unfold appendOnSeq
  dsimp only
  split
  · rw [copyTo_congr_start agree _ _ _ le_rfl]
  · rename_i long
    obtain ⟨front, back⟩ := parts_inside long
    rw [copyTo_congr_start agree _ _ _ front]
    simp only [copyTo_congr agree _ _ _ back]

theorem appendMerging_congr (agree : ∀ index < length.toNat, first index = second index) (state : FileState)
    (front : U32 × U32) : appendMerging state front length first = appendMerging state front length second := by
  unfold appendMerging
  dsimp only
  by_cases whole : length ≤ nodeSpan - state.stream.headByteCount.setWidth 32
  · rw [if_pos whole, if_pos whole, copyTo_congr_start agree _ _ _ le_rfl]
  · obtain ⟨early, late⟩ := parts_inside whole
    rw [if_neg whole, if_neg whole, copyTo_congr_start agree _ _ _ early]
    simp only [copyTo_congr agree _ _ _ late]

/-- `Append` only reads the bytes of its block. -/
theorem append_congr (agree : ∀ index < length.toNat, first index = second index) (state : FileState) (seq : U32) :
    append state seq length first = append state seq length second := by
  unfold append
  simp only [putUnSeq_congr agree, appendOnSeq_congr agree, appendMerging_congr agree]

end Source

end Altus.FileReceiveStream
