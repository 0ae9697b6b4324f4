import Altus.Library.Owners
import Altus.Construction.FileReceiveStream

namespace Altus

open Bytes Chain

@[simp] theorem NodeHeap.modify_node_self (heap : NodeHeap) (pointer : Ptr) (change : Node → Node) :
    (heap.modify pointer change).node pointer = change (heap.node pointer) := by
  simp [modify]

theorem NodeHeap.modify_node_of_ne (heap : NodeHeap) {pointer other : Ptr} (change : Node → Node)
    (different : other ≠ pointer) : (heap.modify pointer change).node other = heap.node other := by
  simp [modify, Function.update_of_ne different]

/-- A change that keeps one field keeps it in every node. -/
theorem NodeHeap.modify_keeps {β : Type} (field : Node → β) (heap : NodeHeap) (pointer : Ptr)
    (change : Node → Node) (keeps : ∀ node, field (change node) = field node) (other : Ptr) :
    field ((heap.modify pointer change).node other) = field (heap.node other) := by
  by_cases same : other = pointer
  · subst same
    rw [modify_node_self, keeps]
  · rw [modify_node_of_ne heap change same]

/-- The `to_tail` links of a heap. -/
def NodeHeap.links (heap : NodeHeap) : Ptr → Option Ptr := fun pointer => (heap.node pointer).toTail

/-- An assignment to a link changes no byte. -/
theorem NodeHeap.setLink_data (heap : NodeHeap) (pointer : Ptr) (link : Option Ptr) (other : Ptr) :
    ((heap.modify pointer fun node => { node with toTail := link }).node other).data = (heap.node other).data :=
  heap.modify_keeps Node.data pointer (fun node => { node with toTail := link }) (fun _ => rfl) other

theorem NodeHeap.newNode_data (heap : NodeHeap) (other : Ptr) :
    (heap.newNode.2.node other).data = (heap.node other).data :=
  NodeHeap.setLink_data { heap with brk := heap.brk + 1 } heap.brk none other

theorem NodeHeap.newNode_links_of_ne (heap : NodeHeap) {other : Ptr} (different : other ≠ heap.brk) :
    heap.newNode.2.links other = heap.links other :=
  congrArg Node.toTail (NodeHeap.modify_node_of_ne { heap with brk := heap.brk + 1 }
    (fun node => { node with toTail := none }) different)

/-- No node is allocated, and all bytes are zero. -/
def blankNodes : NodeHeap := ⟨fun _ => ⟨none, fun _ => 0⟩, 0⟩

namespace FileReceiveStream

/-- Each stream and the pool (`none`) keep a chain of their own, and the pool links behind its first node. -/
structure Owns (heap : NodeHeap) (pool : NodePool) (heads : Nat → Option Ptr) (chain : Option Nat → List Ptr) :
    Prop where
  owned : Owned heap.links chain
  allocated : ∀ owner, ∀ cell ∈ chain owner, cell < heap.brk
  streams : ∀ id, (chain (some id)).head? = heads id
  pooled : (chain none).head? = pool.recycledHead
  poolEnd : pool.recycledHead ≠ none → pool.recycledTail = pool.recycledHead

/-- The pool holds at most one node. -/
def AtMostOne (heap : NodeHeap) (pool : NodePool) : Prop :=
  ∀ first, pool.recycledHead = some first → (heap.node first).toTail = none

section Operations

variable {heap : NodeHeap} {pool : NodePool} {heads : Nat → Option Ptr} {chain : Option Nat → List Ptr}

/-- A change of bytes keeps the chains. -/
theorem Owns.of_links (owns : Owns heap pool heads chain) {next : NodeHeap} (same : next.links = heap.links)
    (brk : next.brk = heap.brk) : Owns next pool heads chain where
  owned := by rw [same]; exact owns.owned
  allocated := by rw [brk]; exact owns.allocated
  streams := owns.streams
  pooled := owns.pooled
  poolEnd := owns.poolEnd

theorem Owns.head_mem (owns : Owns heap pool heads chain) {id : Nat} {head : Ptr} (mine : heads id = some head) :
    head ∈ chain (some id) := by
  have first := owns.streams id
  rw [mine] at first
  exact List.mem_of_head? first

/-- A pointer to the head of a stream points into its chain. -/
theorem Owns.head_target (owns : Owns heap pool heads chain) {id : Nat} {head : Ptr} (mine : heads id = some head) :
    ∀ pointer, some head = some pointer → pointer ∈ chain (some id) := by
  intro pointer same
  rw [← Option.some.inj same]
  exact owns.head_mem mine

/-- A link from a node of a chain leads to a node of the chain. -/
theorem Owns.next_mem (owns : Owns heap pool heads chain) {owner : Option Nat} {cell following : Ptr}
    (member : cell ∈ chain owner) (link : (heap.node cell).toTail = some following) :
    following ∈ chain owner := by
  obtain ⟨index, here⟩ := List.mem_iff_getElem?.mp member
  have expected : heap.links cell = (chain owner)[index + 1]? := (owns.owned.linked owner).next_eq here
  rw [NodeHeap.links, link] at expected
  exact List.mem_of_getElem? expected.symm

theorem Owns.pool_chain (owns : Owns heap pool heads chain) (few : AtMostOne heap pool) :
    chain none = [] ∧ pool.recycledHead = none ∨
      ∃ first, chain none = [first] ∧ pool.recycledHead = some first := by
  have head := owns.pooled
  cases cells : chain none with
  | nil =>
      rw [cells] at head
      exact Or.inl ⟨rfl, head.symm⟩
  | cons first rest =>
      rw [cells] at head
      have linked := owns.owned.linked none
      rw [cells] at linked
      have link : heap.links first = (first :: rest)[1]? := linked.next_eq rfl
      rw [NodeHeap.links, few first head.symm] at link
      cases rest with
      | nil => exact Or.inr ⟨first, rfl, head.symm⟩
      | cons second rest => simp at link

/-- The pool gets another chain. -/
theorem Owns.setPool (owns : Owns heap pool heads chain) {next : NodeHeap} {nextPool : NodePool} {cells : List Ptr}
    (linked : Linked next.links cells) (nodup : cells.Nodup)
    (allowed : ∀ cell ∈ cells, ∀ holder, cell ∈ chain holder → holder = none)
    (same : ∀ holder, holder ≠ none → ∀ cell ∈ chain holder, next.links cell = heap.links cell)
    (brk : heap.brk ≤ next.brk) (allocated : ∀ cell ∈ cells, cell < next.brk)
    (head : cells.head? = nextPool.recycledHead)
    (poolEnd : nextPool.recycledHead ≠ none → nextPool.recycledTail = nextPool.recycledHead) :
    Owns next nextPool heads (Function.update chain none cells) where
  owned := owns.owned.set none linked nodup allowed same
  allocated := by
    intro owner cell member
    by_cases own : owner = none
    · subst own
      rw [Function.update_self] at member
      exact allocated cell member
    · rw [Function.update_of_ne own] at member
      exact Nat.lt_of_lt_of_le (owns.allocated owner cell member) brk
  streams := by
    intro id
    rw [Function.update_of_ne (Option.some_ne_none _)]
    exact owns.streams id
  pooled := by
    rw [Function.update_self]
    exact head
  poolEnd := poolEnd

/-- One stream gets another chain. -/
theorem Owns.setStream (owns : Owns heap pool heads chain) {next : NodeHeap} {id : Nat} {cells : List Ptr}
    (linked : Linked next.links cells) (nodup : cells.Nodup)
    (allowed : ∀ cell ∈ cells, ∀ holder, cell ∈ chain holder → holder = some id)
    (same : ∀ holder, holder ≠ some id → ∀ cell ∈ chain holder, next.links cell = heap.links cell)
    (brk : next.brk = heap.brk) (allocated : ∀ cell ∈ cells, cell < heap.brk) :
    Owns next pool (Function.update heads id cells.head?) (Function.update chain (some id) cells) where
  owned := owns.owned.set (some id) linked nodup allowed same
  allocated := by
    intro owner cell member
    rw [brk]
    by_cases own : owner = some id
    · subst own
      rw [Function.update_self] at member
      exact allocated cell member
    · rw [Function.update_of_ne own] at member
      exact owns.allocated owner cell member
  streams := by
    intro other
    by_cases own : other = id
    · subst own
      rw [Function.update_self, Function.update_self]
    · rw [Function.update_of_ne (fun equal => own (Option.some.inj equal)), Function.update_of_ne own]
      exact owns.streams other
  pooled := by
    rw [Function.update_of_ne (Option.some_ne_none _).symm]
    exact owns.pooled
  poolEnd := owns.poolEnd

/-- `pool->pop()`, or else `new Node`: the node that a stream takes. -/
def take (heap : NodeHeap) (pool : NodePool) : Ptr × NodeHeap × NodePool :=
  match pool.pop heap with
  | (some node, pool) => (node, heap, pool)
  | (none, pool) => (heap.newNode.1, heap.newNode.2, pool)

/-- A cell that no stream keeps is free once the pool gave up its chain. -/
theorem free_emptied {cell : Ptr} (unowned : ∀ owner, owner ≠ none → cell ∉ chain owner) :
    Free (Function.update chain none []) cell := by
  intro owner member
  by_cases own : owner = none
  · subst own
    simp at member
  · rw [Function.update_of_ne own] at member
    exact unowned owner own member

/-- A node taken from a pool of at most one node is free and links nowhere. -/
theorem Owns.take (owns : Owns heap pool heads chain) (few : AtMostOne heap pool) :
    Owns (take heap pool).2.1 (take heap pool).2.2 heads (Function.update chain none []) ∧
      Free (Function.update chain none []) (take heap pool).1 ∧
      (take heap pool).2.1.links (take heap pool).1 = none ∧ (take heap pool).1 < (take heap pool).2.1.brk ∧
      (take heap pool).2.2.recycledHead = none ∧
      ∀ pointer, ((take heap pool).2.1.node pointer).data = (heap.node pointer).data := by
  have emptied {next : NodeHeap} {nextPool : NodePool} (empty : nextPool.recycledHead = none)
      (brk : heap.brk ≤ next.brk)
      (same : ∀ owner, owner ≠ none → ∀ cell ∈ chain owner, next.links cell = heap.links cell) :
      Owns next nextPool heads (Function.update chain none []) :=
    owns.setPool (linked_nil _) List.nodup_nil (by simp) same brk (by simp) empty.symm fun filled => absurd empty filled
  rcases owns.pool_chain few with ⟨cells, head⟩ | ⟨first, cells, head⟩
  · have taken : FileReceiveStream.take heap pool = (heap.newNode.1, heap.newNode.2, pool) := by
      rw [FileReceiveStream.take, NodePool.pop, head]
    have fresh (owner : Option Nat) (cell : Ptr) (member : cell ∈ chain owner) : cell ≠ heap.brk :=
      Nat.ne_of_lt (owns.allocated owner cell member)
    rw [taken]
    refine ⟨emptied head (Nat.le_succ _) ?_, ?_, ?_, Nat.lt_succ_self _, head, ?_⟩
    · intro owner _ cell member
      exact heap.newNode_links_of_ne (fresh owner cell member)
    · exact free_emptied fun owner _ member => fresh owner _ member rfl
    · simp [NodeHeap.newNode, NodeHeap.links]
    · exact heap.newNode_data
  · have link := few first head
    have member : first ∈ chain none := by rw [cells]; simp
    have taken : FileReceiveStream.take heap pool =
        (first, heap, { pool with recycledHead := none, size := pool.size - 1 }) := by
      rw [FileReceiveStream.take, NodePool.pop, head]
      simp only [link]
    rw [taken]
    refine ⟨emptied rfl (Nat.le_refl _) (fun _ _ _ _ => rfl), ?_, link, owns.allocated none first member, rfl,
      fun _ => rfl⟩
    exact free_emptied fun owner own held => own (owns.owned.apart owner none first held member)

/-- A free node joins behind the first node of a stream. -/
theorem Owns.link (owns : Owns heap pool heads chain) {id : Nat} {head node : Ptr}
    (mine : heads id = some head) (free : Free chain node) (ends : heap.links node = none)
    (allocated : node < heap.brk) :
    Owns (heap.modify head fun cell => { cell with toTail := some node }) pool heads
      (Function.update chain (some id) [head, node]) := by
  have headMember : head ∈ chain (some id) := owns.head_mem mine
  have different : node ≠ head := fun same => free (some id) (same ▸ headMember)
  have kept : Function.update heads id [head, node].head? = heads := by
    rw [List.head?_cons, ← mine, Function.update_eq_self]
  rw [← kept]
  apply owns.setStream
  · apply linked_pair
    · simp [NodeHeap.links]
    · rw [NodeHeap.links, NodeHeap.modify_node_of_ne _ _ different]
      exact ends
  · simpa using different.symm
  · intro cell member holder held
    simp only [List.mem_cons, List.not_mem_nil, or_false] at member
    rcases member with rfl | rfl
    · exact owns.owned.apart holder (some id) cell held headMember
    · exact absurd held (free holder)
  · intro holder other cell member
    apply congrArg Node.toTail
    apply NodeHeap.modify_node_of_ne
    rintro rfl
    exact other (owns.owned.apart holder (some id) cell member headMember)
  · rfl
  · intro cell member
    simp only [List.mem_cons, List.not_mem_nil, or_false] at member
    rcases member with rfl | rfl
    · exact owns.allocated _ cell headMember
    · exact allocated

/-- A free node becomes the chain of a new stream. -/
theorem Owns.create (owns : Owns heap pool heads chain) {id : Nat} {node : Ptr} (free : Free chain node)
    (ends : heap.links node = none) (allocated : node < heap.brk) :
    Owns heap pool (Function.update heads id (some node)) (Function.update chain (some id) [node]) := by
  apply owns.setStream (linked_single ends) (List.nodup_singleton node) _ (fun _ _ _ _ => rfl) rfl
  · intro cell member
    obtain rfl := List.mem_singleton.mp member
    exact allocated
  · intro cell member holder held
    obtain rfl := List.mem_singleton.mp member
    exact absurd held (free holder)

/-- A stream gives up its chain. -/
theorem Owns.release (owns : Owns heap pool heads chain) (id : Nat) :
    Owns heap pool (Function.update heads id none) (Function.update chain (some id) []) :=
  owns.setStream (linked_nil _) List.nodup_nil (by simp) (fun _ _ _ _ => rfl) rfl (by simp)

/-- The pool takes a free node next to nodes of its own. -/
theorem Owns.setPool_joined (owns : Owns heap pool heads chain) {node : Ptr} (free : Free chain node)
    (allocated : node < heap.brk) {next : NodeHeap} {nextPool : NodePool} {cells : List Ptr}
    (linked : Linked next.links cells) (nodup : cells.Nodup) (inside : ∀ cell ∈ cells, cell = node ∨ cell ∈ chain none)
    (same : ∀ cell, cell ≠ node → cell ∉ chain none → next.links cell = heap.links cell) (brk : next.brk = heap.brk)
    (head : cells.head? = nextPool.recycledHead)
    (poolEnd : nextPool.recycledHead ≠ none → nextPool.recycledTail = nextPool.recycledHead) :
    Owns next nextPool heads (Function.update chain none cells) := by
  refine owns.setPool linked nodup ?_ ?_ brk.ge ?_ head poolEnd
  · intro cell member holder held
    rcases inside cell member with rfl | old
    · exact absurd held (free holder)
    · exact owns.owned.apart holder none cell held old
  · intro holder other cell member
    apply same cell
    · rintro rfl
      exact free holder member
    · intro pooled
      exact other (owns.owned.apart holder none cell member pooled)
  · intro cell member
    rw [brk]
    rcases inside cell member with rfl | old
    · exact allocated
    · exact owns.allocated none cell old

/-- `NodePool::push` of a free node. Only the links of that node and of the pool's first node change. -/
theorem Owns.push (owns : Owns heap pool heads chain) {node : Ptr} (free : Free chain node)
    (allocated : node < heap.brk) :
    ∃ next nextPool cells, pool.push heap node = .ok (next, nextPool) ∧
      Owns next nextPool heads (Function.update chain none cells) ∧ next.brk = heap.brk ∧
      (∀ cell ∈ cells, cell = node ∨ cell ∈ chain none) ∧
      (∀ cell, cell ≠ node → cell ∉ chain none → next.links cell = heap.links cell) ∧
      ∀ pointer, (next.node pointer).data = (heap.node pointer).data := by
  let cut := heap.modify node fun cell => { cell with toTail := none }
  have cutOther (cell : Ptr) (different : cell ≠ node) : cut.links cell = heap.links cell :=
    congrArg Node.toTail (NodeHeap.modify_node_of_ne _ _ different)
  have cutNode : cut.links node = none := by simp [cut, NodeHeap.links]
  cases head : pool.recycledHead with
  | none =>
      have same (cell : Ptr) (different : cell ≠ node) (_ : cell ∉ chain none) := cutOther cell different
      refine ⟨cut, ⟨some node, some node, pool.size + 1⟩, [node], by simp only [NodePool.push, head]; rfl, ?_,
        rfl, by simp, same, heap.setLink_data node none⟩
      exact owns.setPool_joined free allocated (linked_single cutNode) (List.nodup_singleton node) (by simp) same rfl rfl
        fun _ => rfl
  | some first =>
      have tail : pool.recycledTail = some first := (owns.poolEnd (by simp [head])).trans head
      have firstMember : first ∈ chain none := by
        have pooled := owns.pooled
        rw [head] at pooled
        exact List.mem_of_head? pooled
      have different : node ≠ first := fun same => free none (same ▸ firstMember)
      let joined := cut.modify first fun cell => { cell with toTail := some node }
      have joinedOther (cell : Ptr) (notFirst : cell ≠ first) : joined.links cell = cut.links cell :=
        congrArg Node.toTail (NodeHeap.modify_node_of_ne _ _ notFirst)
      have joinedFirst : joined.links first = some node := by simp [joined, NodeHeap.links]
      have inside : ∀ cell ∈ [first, node], cell = node ∨ cell ∈ chain none := by simp [firstMember]
      have same (cell : Ptr) (notNew : cell ≠ node) (outside : cell ∉ chain none) : joined.links cell = heap.links cell := by
        rw [joinedOther cell (fun same => outside (same ▸ firstMember)), cutOther cell notNew]
      refine ⟨joined, { pool with size := pool.size + 1 }, [first, node],
        by simp only [NodePool.push, head, tail]; rfl, ?_, rfl, inside, same, ?_⟩
      · have linked : Linked joined.links [first, node] :=
          linked_pair joinedFirst ((joinedOther node different).trans cutNode)
        exact owns.setPool_joined free allocated linked (by simpa using different.symm) inside same rfl head.symm
          fun _ => tail.trans head.symm
      · intro pointer
        exact (cut.setLink_data first (some node) pointer).trans (heap.setLink_data node none pointer)

end Operations

end FileReceiveStream

end Altus
