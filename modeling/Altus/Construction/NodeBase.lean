import Altus.Construction.Machine

namespace Altus

open Bytes

/-- One node of a file stream, `Node`. -/
structure Node where
  toTail : Option Ptr
  data : Memory

/-- The nodes by address, and the address that the next `new Node` returns. -/
structure NodeHeap where
  node : Ptr → Node
  brk : Ptr

namespace NodeHeap

/-- One field assignment through a pointer. -/
def modify (heap : NodeHeap) (pointer : Ptr) (change : Node → Node) : NodeHeap :=
  { heap with node := Function.update heap.node pointer (change (heap.node pointer)) }

/-- `new Node` links nowhere and leaves its bytes as they are. -/
def newNode (heap : NodeHeap) : Ptr × NodeHeap :=
  (heap.brk, { heap with brk := heap.brk + 1 }.modify heap.brk fun node => { node with toTail := none })

/-- A `memcpy` to an offset of a node's bytes. -/
def copyTo (heap : NodeHeap) (target : Option Ptr) (offset : Int) (source : Memory) (length : U32) :
    Except Fault NodeHeap :=
  match target with
  | none => .error .nullDereference
  | some pointer =>
      if 0 ≤ offset ∧ offset + length.toNat ≤ nodeSize then
        .ok (heap.modify pointer fun node =>
          { node with data := memcpy node.data offset.toNat source length.toNat })
      else .error .outOfBounds

end NodeHeap

/-- The recycled nodes, `NodePool`. -/
structure NodePool where
  recycledHead : Option Ptr
  recycledTail : Option Ptr
  size : Int

namespace NodePool

/-- `NodePool::NodePool`. -/
def empty : NodePool := ⟨none, none, 0⟩

/-- `NodePool::pop`. The popped node keeps its link, and `recycled_tail` stays. -/
def pop (heap : NodeHeap) (pool : NodePool) : Option Ptr × NodePool :=
  match pool.recycledHead with
  | none => (none, pool)
  | some poppingNode =>
      (some poppingNode,
        { pool with recycledHead := (heap.node poppingNode).toTail, size := pool.size - 1 })

/-- `NodePool::push`. The node is linked behind `recycled_tail`, which stays. -/
def push (heap : NodeHeap) (pool : NodePool) (node : Ptr) : Except Fault (NodeHeap × NodePool) :=
  let heap := heap.modify node fun cell => { cell with toTail := none }
  match pool.recycledHead with
  | none => .ok (heap, ⟨some node, some node, pool.size + 1⟩)
  | some _ =>
      match pool.recycledTail with
      | none => .error .nullDereference
      | some recycledTail =>
          .ok (heap.modify recycledTail fun cell => { cell with toTail := some node },
            { pool with size := pool.size + 1 })

/-- The first loop of `NodePool::resize` follows the links from `recycled_head`. -/
def walk (heap : NodeHeap) : (steps : Nat) → (currentNode : Option Ptr) → Except Fault Ptr
  | 0, some currentNode => .ok currentNode
  | steps + 1, some currentNode => walk heap steps (heap.node currentNode).toTail
  | _, none => .error .nullDereference

/-- The last loop of `NodePool::resize` deletes the nodes of a chain. -/
def deleteLoop (heap : NodeHeap) : (rounds : Nat) → (deletingNode : Option Ptr) → Except Fault (List Ptr)
  | _, none => .ok []
  | 0, some _ => .error .unfinished
  | rounds + 1, some deletingNode =>
      (deleteLoop heap rounds (heap.node deletingNode).toTail).map (deletingNode :: ·)

/-- `NodePool::resize` answers the number of nodes it removes and the nodes it deletes.
A chain without a cycle has at most `brk` nodes. -/
def resize (heap : NodeHeap) (pool : NodePool) (n : Int) : Except Fault (Int × List Ptr × NodeHeap × NodePool) :=
  let removeCount := pool.size - n
  if removeCount ≤ 0 then .ok (0, [], heap, pool)
  else
    match walk heap (n - 1).toNat pool.recycledHead with
    | .error fault => .error fault
    | .ok currentNode =>
        let deletingNode := (heap.node currentNode).toTail
        let heap := heap.modify currentNode fun cell => { cell with toTail := none }
        (deleteLoop heap heap.brk deletingNode).map fun deleted =>
          (removeCount, deleted, heap, { pool with recycledTail := some currentNode, size := n })

end NodePool

end Altus
