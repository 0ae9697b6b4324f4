import Altus.Proof.FileStream.Append
import Altus.Library.Serial

namespace Altus.FileReceiveStream

open Bytes

/-- The nodes that a stream finds behind its head, or takes from the pool, are not its head. -/
structure HeadAlone (state : FileState) (others : Set Ptr) : Prop where
  single : state.stream.tail = state.stream.head
  notHead : state.stream.head ∉ others
  headAllocated : state.stream.head < state.heap.brk
  allocated : ∀ cell ∈ others, cell < state.heap.brk
  closed : ∀ cell ∈ others, ∀ next, (state.heap.node cell).toTail = some next → next ∈ others
  follows : ∀ next, (state.heap.node state.stream.head).toTail = some next → next ∈ others
  pooled : ∀ first, state.pool.recycledHead = some first → first ∈ others

/-- Only `_nodeCount` of the stream may change, and the first bytes of the head node stay. -/
structure Steady (limit : Nat) (state next : FileState) : Prop where
  stream : next.stream = { state.stream with nodeCount := next.stream.nodeCount }
  bytes : ∀ index < limit,
    (next.heap.node state.stream.head).data index = (state.heap.node state.stream.head).data index

/-- A copy to this place leaves the first bytes of the head node alone. -/
def Behind (limit : Nat) (state : FileState) (others : Set Ptr) (target : Option Ptr) (offset : Int) : Prop :=
  ∀ pointer, target = some pointer → pointer = state.stream.head ∧ limit ≤ offset ∨ pointer ∈ others

/-- A part of a call leaves the head node alone, also when it faults. -/
def Settles (limit : Nat) (state : FileState) : Part → Prop
  | .ok next => Steady limit state next ∧ ∃ others, HeadAlone next others
  | .error (_, next) => Steady limit state next

section Parts

variable {limit : Nat} {state middle next : FileState} {others : Set Ptr}

theorem Steady.refl : Steady limit state state := ⟨rfl, fun _ _ => rfl⟩

theorem Steady.head (steady : Steady limit state next) : next.stream.head = state.stream.head := by
  rw [steady.stream]

theorem Steady.trans (first : Steady limit state middle) (second : Steady limit middle next) :
    Steady limit state next where
  stream := by
    rw [second.stream, first.stream]
  bytes := by
    intro index below
    rw [← first.bytes index below, ← first.head]
    exact second.bytes index below

theorem Settles.of_steady {part : Part} (first : Steady limit state middle) (second : Settles limit middle part) :
    Settles limit state part := by
  cases part with
  | ok next => exact ⟨first.trans second.1, second.2⟩
  | error failed => exact first.trans second

/-- `NewNode` takes its node from the pool or from fresh memory. -/
theorem HeadAlone.grow (alone : HeadAlone state others) :
    ∃ more, others ⊆ more ∧ HeadAlone (newNode state) more ∧ Steady limit state (newNode state) := by
  have build (heap : NodeHeap) (pool : NodePool) (node : Ptr) (more : Set Ptr) (grows : others ⊆ more)
      (taken : take state.heap state.pool = (node, heap, pool)) (brk : state.heap.brk ≤ heap.brk)
      (notHead : state.stream.head ∉ more) (allocated : ∀ cell ∈ more, cell < heap.brk)
      (closed : ∀ cell ∈ more, ∀ next, (heap.node cell).toTail = some next → next ∈ more)
      (member : node ∈ more) (pooled : ∀ first, pool.recycledHead = some first → first ∈ more)
      (bytes : ∀ cell, (heap.node cell).data = (state.heap.node cell).data) :
      ∃ more, others ⊆ more ∧ HeadAlone (newNode state) more ∧
        Steady limit state (newNode state) := by
    refine ⟨more, grows, ?_, ?_⟩
    · rw [newNode_eq, taken, alone.single]
      refine ⟨alone.single, notHead, Nat.lt_of_lt_of_le alone.headAllocated brk, allocated, ?_, ?_, pooled⟩
      · intro cell inside next link
        have different : cell ≠ state.stream.head := by
          rintro rfl
          exact notHead inside
        rw [NodeHeap.modify_node_of_ne _ _ different] at link
        exact closed cell inside next link
      · intro next link
        rw [NodeHeap.modify_node_self] at link
        rwa [← Option.some.inj link]
    · rw [newNode_eq, taken]
      refine ⟨rfl, ?_⟩
      intro index _
      exact congrFun ((NodeHeap.setLink_data _ _ _ _).trans (bytes _)) index
  cases first : state.pool.recycledHead with
  | none =>
      refine build state.heap.newNode.2 state.pool state.heap.brk (insert state.heap.brk others)
        (Set.subset_insert _ _) (by rw [take, NodePool.pop, first]; rfl) (Nat.le_succ _) ?_ ?_ ?_
        (Set.mem_insert _ _) (by simp [first]) state.heap.newNode_data
      · rintro (same | old)
        · exact Nat.ne_of_lt alone.headAllocated same
        · exact alone.notHead old
      · rintro cell (rfl | old)
        · exact Nat.lt_succ_self _
        · exact Nat.lt_succ_of_lt (alone.allocated cell old)
      · rintro cell (rfl | old) next link
        · simp [NodeHeap.newNode] at link
        · have same := state.heap.newNode_links_of_ne (Nat.ne_of_lt (alone.allocated cell old))
          exact Set.mem_insert_of_mem _ (alone.closed cell old next (same.symm.trans link))
  | some node =>
      have member : node ∈ others := alone.pooled node first
      exact build state.heap _ node others (Set.Subset.refl _)
        (by rw [take, NodePool.pop, first]) (Nat.le_refl _) alone.notHead alone.allocated alone.closed member
        (alone.closed node member) (fun _ => rfl)

/-- The node behind a place is another node than the head. -/
theorem HeadAlone.following (alone : HeadAlone state others) {pointer : Ptr}
    (place : pointer = state.stream.head ∨ pointer ∈ others) (offset : Int) :
    Behind limit state others (state.heap.node pointer).toTail offset := by
  intro following link
  right
  rcases place with rfl | inside
  · exact alone.follows following link
  · exact alone.closed pointer inside following link

/-- A step to the following node, which `NewNode` may link first. -/
theorem HeadAlone.move (alone : HeadAlone state others) {pointer : Ptr}
    (place : pointer = state.stream.head ∨ pointer ∈ others)
    (moved : (if (state.heap.node pointer).toTail = none then newNode state else state) = next) :
    ∃ more, HeadAlone next more ∧ Steady limit state next ∧
      ∀ offset, Behind limit next more (next.heap.node pointer).toTail offset := by
  split at moved
  · subst moved
    obtain ⟨more, grows, nextAlone, steady⟩ := alone.grow
    refine ⟨more, nextAlone, steady, fun offset => nextAlone.following ?_ offset⟩
    rw [steady.head]
    exact place.imp_right fun inside => grows inside
  · subst moved
    exact ⟨others, alone, Steady.refl, alone.following place⟩

/-- A copy behind the first bytes of the head node. -/
theorem HeadAlone.copy (alone : HeadAlone state others) {target : Option Ptr} {offset : Int}
    (behind : Behind limit state others target offset) (source : Memory) (length : U32) :
    match copyTo state target offset source length with
    | .ok next => Steady limit state next ∧ HeadAlone next others ∧ next.heap.links = state.heap.links
    | .error (_, next) => Steady limit state next := by
  cases target with
  | none => exact Steady.refl
  | some pointer =>
      rw [copyTo, NodeHeap.copyTo]
      by_cases inside : 0 ≤ offset ∧ offset + length.toNat ≤ nodeSize
      · rw [if_pos inside]
        have sameLinks (cell : Ptr) : ((state.heap.modify pointer fun node => { node with
            data := memcpy node.data offset.toNat source length.toNat }).node cell).toTail =
              (state.heap.node cell).toTail :=
          state.heap.modify_keeps Node.toTail pointer
            (fun node => { node with data := memcpy node.data offset.toNat source length.toNat })
            (fun _ => rfl) cell
        refine ⟨⟨rfl, ?_⟩, ⟨alone.single, alone.notHead, alone.headAllocated, alone.allocated, ?_, ?_,
          alone.pooled⟩, funext sameLinks⟩
        · intro index below
          rcases behind pointer rfl with ⟨rfl, far⟩ | other
          · rw [NodeHeap.modify_node_self]
            exact memcpy_outside (by omega)
          · rw [NodeHeap.modify_node_of_ne]
            rintro same
            exact alone.notHead (same ▸ other)
        · intro cell member next link
          exact alone.closed cell member next ((sameLinks cell).symm.trans link)
        · intro next link
          exact alone.follows next ((sameLinks _).symm.trans link)
      · rw [if_neg inside]
        exact Steady.refl

/-- The walk of `PutUnSeq` ends behind the first bytes of the head node. -/
theorem putUnSeqLoop_settles (rounds : Nat) : ∀ {state : FileState} {others : Set Ptr} {target : Option Ptr}
    {i : Int}, HeadAlone state others → Behind limit state others target i →
    match putUnSeqLoop rounds state target i with
    | .ok (next, target, i) => Steady limit state next ∧
        ∃ more, HeadAlone next more ∧ Behind limit next more target i
    | .error (_, next) => Steady limit state next := by
  induction rounds with
  | zero => exact fun _ _ => Steady.refl
  | succ rounds ih =>
      intro state others target i alone behind
      rw [putUnSeqLoop.eq_def]
      dsimp only
      by_cases far : (nodeSize : Int) ≤ i
      · rw [if_pos far]
        cases target with
        | none => exact Steady.refl
        | some pointer =>
            dsimp only
            generalize moved : (if (state.heap.node pointer).toTail = none then newNode state else state) = middle
            obtain ⟨more, middleAlone, steady, following⟩ :=
              alone.move ((behind pointer rfl).imp_left And.left) moved
            have later := ih middleAlone (following (i - nodeSize))
            revert later
            cases putUnSeqLoop rounds middle (middle.heap.node pointer).toTail (i - nodeSize) with
            | ok answer => exact fun later => ⟨steady.trans later.1, later.2⟩
            | error failed => exact fun later => steady.trans later
      · rw [if_neg far]
        exact ⟨Steady.refl, others, alone, behind⟩

/-- `PutUnSeq` leaves the bytes before its block alone. -/
theorem putUnSeq_settles (alone : HeadAlone state others) {seq length : U32} {data : Memory}
    (far : limit ≤ (seq - state.stream.headSeq).toInt) :
    Settles limit state (putUnSeq state seq length data) := by
  have start : Behind limit state others (some state.stream.head) (seq - state.stream.headSeq).toInt := by
    intro pointer same
    exact Or.inl ⟨(Option.some.inj same).symm, far⟩
  have walked := putUnSeqLoop_settles ((seq - state.stream.headSeq).toInt.toNat / nodeSize + 1) alone start
  rw [putUnSeq]
  dsimp only
  revert walked
  cases putUnSeqLoop ((seq - state.stream.headSeq).toInt.toNat / nodeSize + 1) state (some state.stream.head)
      (seq - state.stream.headSeq).toInt with
  | error failed => exact id
  | ok answer =>
      obtain ⟨middle, target, i⟩ := answer
      rintro ⟨steady, more, middleAlone, behind⟩
      apply Settles.of_steady steady
      dsimp only
      split
      · have copied := middleAlone.copy behind data length
        revert copied
        cases copyTo middle target i data length with
        | ok final => exact fun copied => ⟨copied.1, more, copied.2.1⟩
        | error failed => exact id
      · have copied := middleAlone.copy behind data (BitVec.ofInt 32 (nodeSize - i))
        revert copied
        cases copyTo middle target i data (BitVec.ofInt 32 (nodeSize - i)) with
        | error failed => exact id
        | ok written =>
            rintro ⟨writtenSteady, writtenAlone, -⟩
            apply Settles.of_steady writtenSteady
            cases target with
            | none => exact Steady.refl
            | some pointer =>
                dsimp only
                generalize moved : (if (written.heap.node pointer).toTail = none then newNode written
                  else written) = final
                have place : pointer = written.stream.head ∨ pointer ∈ more := by
                  rw [writtenSteady.head]
                  exact (behind pointer rfl).imp_left And.left
                obtain ⟨last, finalAlone, finalSteady, following⟩ := writtenAlone.move place moved
                apply Settles.of_steady finalSteady
                have filled := finalAlone.copy (following 0)
                  (shift data (BitVec.ofInt 32 (nodeSize - i)).toNat) (length - BitVec.ofInt 32 (nodeSize - i))
                revert filled
                cases copyTo final (final.heap.node pointer).toTail 0
                    (shift data (BitVec.ofInt 32 (nodeSize - i)).toNat)
                    (length - BitVec.ofInt 32 (nodeSize - i)) with
                | ok ended => exact fun filled => ⟨filled.1, last, filled.2.1⟩
                | error failed => exact id

end Parts

/-- The block goes to `PutUnSeq`. -/
def Placed (message : UBM) : Prop := message = .extended ∨ message = .added

instance (message : UBM) : Decidable (Placed message) := inferInstanceAs (Decidable (_ ∨ _))

/-- The first unsequenced byte once a block is placed. -/
def firstUnSeq (seq : U32) : List (U32 × U32) → U32
  | [] => seq
  | front :: _ => if 0 < (front.1 - seq).toInt then seq else front.1

/-- The loop of `CheckUB` keeps the first byte of the list, or moves it to the block that it places. -/
theorem checkUBFrom_front (headSeq : U32) (capacity size : Nat) (seq length : U32) (list : List (U32 × U32)) :
    (checkUBFrom headSeq capacity size seq length list).1 ≠ .onSeq ∧
      (checkUBFrom headSeq capacity size seq length list).1 ≠ .merging ∧
      (Placed (checkUBFrom headSeq capacity size seq length list).1 →
        (checkUBFrom headSeq capacity size seq length list).2.head?.map Prod.fst = some (firstUnSeq seq list)) ∧
      (¬ Placed (checkUBFrom headSeq capacity size seq length list).1 →
        (checkUBFrom headSeq capacity size seq length list).2.head?.map Prod.fst = list.head?.map Prod.fst) := by
  induction list with
  | nil =>
      rw [checkUBFrom]
      split_ifs <;> simp [Placed, firstUnSeq]
  | cons front rest ih =>
      obtain ⟨currentHS, currentTS⟩ := front
      rw [checkUBFrom.eq_def]
      dsimp only
      by_cases before : 0 < (currentHS - seq).toInt
      · rw [if_pos before]
        have moved : firstUnSeq seq ((currentHS, currentTS) :: rest) = seq := if_pos before
        rw [moved]
        split_ifs <;> simp [Placed]
      · rw [if_neg before]
        have kept : firstUnSeq seq ((currentHS, currentTS) :: rest) = currentHS := if_neg before
        rw [kept]
        by_cases inside : 0 < (currentTS - seq).toInt
        · rw [if_pos inside]
          split_ifs <;> simp
        · rw [if_neg inside]
          by_cases adjacent : seq = currentTS
          · rw [if_pos adjacent]
            cases rest <;> dsimp only <;> split_ifs <;> simp
          · rw [if_neg adjacent]
            exact ⟨ih.1, ih.2.1, fun _ => rfl, fun _ => rfl⟩

end Altus.FileReceiveStream
