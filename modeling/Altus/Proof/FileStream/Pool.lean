import Altus.Library.Doubly
import Altus.Proof.FileStream.Owners

namespace Altus

open Chain

namespace NodePool

/-- The calls on a pool. An owner links a node that it took from the pool. -/
inductive PoolCall where
  | push (node : Ptr)
  | pop
  | resize (n : Int)
  | link (node : Ptr) (toTail : Option Ptr)

/-- The node that a call returns, and the count and the nodes that it removes. -/
structure PoolAnswer where
  popped : Option Ptr
  removed : Int
  deleted : List Ptr
deriving DecidableEq

/-- One call on the pool of the code. -/
def PoolCall.step (heap : NodeHeap) (pool : NodePool) :
    PoolCall → Except Fault (PoolAnswer × NodeHeap × NodePool)
  | .push node => (NodePool.push heap pool node).map fun next => (⟨none, 0, []⟩, next)
  | .pop => .ok (⟨(NodePool.pop heap pool).1, 0, []⟩, heap, (NodePool.pop heap pool).2)
  | .resize n => (NodePool.resize heap pool n).map fun next => (⟨none, next.1, next.2.1⟩, next.2.2)
  | .link node toTail => .ok (⟨none, 0, []⟩, heap.modify node fun cell => { cell with toTail := toTail }, pool)

/-- The queue of free nodes that the pool is for. -/
def PoolCall.serve (queue : List Ptr) : PoolCall → PoolAnswer × List Ptr
  | .push node => (⟨none, 0, []⟩, queue ++ [node])
  | .pop => (⟨queue.head?, 0, []⟩, queue.tail)
  | .resize n => (⟨none, max 0 (queue.length - n), queue.drop n.toNat⟩, queue.take n.toNat)
  | .link _ _ => (⟨none, 0, []⟩, queue)

/-- The node that a call hands in. -/
def PoolCall.pushed : PoolCall → List Ptr
  | .push node => [node]
  | _ => []

/-- No call hands in or links a node of the queue, and `resize` keeps a node at least. -/
def PoolCall.Admissible (brk : Ptr) (queue : List Ptr) : PoolCall → Prop
  | .push node => node ∉ queue ∧ node < brk
  | .pop => True
  | .resize n => 1 ≤ n
  | .link node _ => node ∉ queue

/-- Every call of a run is admissible at the queue it finds. -/
def Admissible (brk : Ptr) : (queue : List Ptr) → List PoolCall → Prop
  | _, [] => True
  | queue, call :: rest => call.Admissible brk queue ∧ Admissible brk (call.serve queue).2 rest

/-- Every `push` of a run finds an empty pool. -/
def PushesFindEmpty : (queue : List Ptr) → List PoolCall → Prop
  | _, [] => True
  | queue, call :: rest => (call.pushed ≠ [] → queue = []) ∧ PushesFindEmpty (call.serve queue).2 rest

/-- `queue` is the chain of the pool from `recycled_head`. -/
structure IsQueue (heap : NodeHeap) (pool : NodePool) (queue : List Ptr) : Prop where
  linked : Linked heap.links queue
  distinct : queue.Nodup
  allocated : ∀ node ∈ queue, node < heap.brk
  head : pool.recycledHead = queue.head?
  last : queue ≠ [] → pool.recycledTail = queue.getLast?
  size : pool.size = queue.length

/-- The pool answers every call of a run as the queue does. A popped node links nowhere, and each node
of the queue stays, is returned or is deleted. -/
def Behaves (heap : NodeHeap) (pool : NodePool) (queue : List Ptr) : List PoolCall → Prop
  | [] => IsQueue heap pool queue
  | call :: rest =>
      IsQueue heap pool queue ∧
      ∃ answer nextHeap nextPool, call.step heap pool = .ok (answer, nextHeap, nextPool) ∧
        answer = (call.serve queue).1 ∧
        (∀ node ∈ answer.popped, nextHeap.links node = none) ∧
        (queue ++ call.pushed).Perm (answer.popped.toList ++ answer.deleted ++ (call.serve queue).2) ∧
        Behaves nextHeap nextPool (call.serve queue).2 rest

/-- The queue returns, deletes or keeps each of its nodes once. -/
theorem PoolCall.serve_accounts (queue : List Ptr) (call : PoolCall) :
    (queue ++ call.pushed).Perm
      ((call.serve queue).1.popped.toList ++ (call.serve queue).1.deleted ++ (call.serve queue).2) := by
  cases call with
  | push node => simp [serve, pushed]
  | pop => cases queue <;> simp [serve, pushed]
  | resize n =>
      simp only [serve, pushed, List.append_nil, Option.toList_none, List.nil_append]
      exact (List.perm_append_comm.trans (by rw [List.take_append_drop])).symm
  | link node toTail => simp [serve, pushed]

theorem isQueue_empty (heap : NodeHeap) : IsQueue heap empty [] where
  linked := linked_nil _
  distinct := List.nodup_nil
  allocated := by simp
  head := rfl
  last := fun nonempty => absurd rfl nonempty
  size := rfl

/-- A change to a node outside the queue keeps the queue. -/
theorem IsQueue.modify {heap : NodeHeap} {pool : NodePool} {queue : List Ptr} (isQueue : IsQueue heap pool queue)
    {node : Ptr} (outside : node ∉ queue) (change : Node → Node) :
    IsQueue (heap.modify node change) pool queue where
  linked := by
    apply isQueue.linked.congr
    intro cell member
    have different : cell ≠ node := fun same => outside (same ▸ member)
    exact congrArg Node.toTail (NodeHeap.modify_node_of_ne heap change different)
  distinct := isQueue.distinct
  allocated := isQueue.allocated
  head := isQueue.head
  last := isQueue.last
  size := isQueue.size

/-- `pop` takes the first node of the queue. -/
theorem IsQueue.pop {heap : NodeHeap} {pool : NodePool} {queue : List Ptr} (isQueue : IsQueue heap pool queue) :
    (pop heap pool).1 = queue.head? ∧ IsQueue heap (NodePool.pop heap pool).2 queue.tail := by
  cases queue with
  | nil =>
      have none : pool.recycledHead = none := isQueue.head
      unfold NodePool.pop
      rw [none]
      exact ⟨rfl, isQueue⟩
  | cons first rest =>
      have here : pool.recycledHead = some first := isQueue.head
      unfold NodePool.pop
      rw [here]
      refine ⟨rfl, isQueue.linked.tail, (List.nodup_cons.mp isQueue.distinct).2, ?_, ?_, ?_, ?_⟩
      · intro node member
        exact isQueue.allocated node (List.mem_cons_of_mem _ member)
      · have link : heap.links first = (first :: rest)[1]? := isQueue.linked.next_eq rfl
        simpa [NodeHeap.links, List.head?_eq_getElem?] using link
      · intro nonempty
        have ends := isQueue.last (by simp)
        obtain ⟨second, others, rfl⟩ := List.exists_cons_of_ne_nil nonempty
        simpa using ends
      · have sizeIs := isQueue.size
        simp only [List.length_cons, Nat.cast_add, Nat.cast_one] at sizeIs
        simp only [List.tail_cons]
        omega

/-- The only node of a queue is detached. -/
theorem IsQueue.detached {heap : NodeHeap} {pool : NodePool} {queue : List Ptr}
    (isQueue : IsQueue heap pool queue) (short : queue.length ≤ 1) :
    ∀ node ∈ queue.head?, heap.links node = none := by
  intro node first
  cases queue with
  | nil => simp at first
  | cons head rest =>
      obtain rfl : rest = [] := List.length_eq_zero_iff.mp (by simpa using short)
      obtain rfl : head = node := by simpa using first
      exact isQueue.linked.next_eq (show [head][0]? = some head from rfl)

/-- `push` puts a node in an empty queue. -/
theorem IsQueue.push {heap : NodeHeap} {pool : NodePool} (isQueue : IsQueue heap pool []) {node : Ptr}
    (allocated : node < heap.brk) :
    ∃ nextHeap nextPool, push heap pool node = .ok (nextHeap, nextPool) ∧ IsQueue nextHeap nextPool [node] := by
  have none : pool.recycledHead = none := isQueue.head
  unfold NodePool.push
  rw [none]
  refine ⟨_, _, rfl, ?_, List.nodup_singleton node, ?_, rfl, fun _ => rfl, ?_⟩
  · apply linked_cons.mpr
    exact ⟨by simp [NodeHeap.links], linked_nil _⟩
  · intro cell member
    obtain rfl := List.mem_singleton.mp member
    exact allocated
  · simpa using isQueue.size

/-- `push` on other pools forgets the new last node. -/
theorem push_keepsLast {heap nextHeap : NodeHeap} {pool nextPool : NodePool} {node : Ptr}
    (nonempty : pool.recycledHead ≠ none) (pushed : push heap pool node = .ok (nextHeap, nextPool)) :
    nextPool.recycledTail = pool.recycledTail := by
  obtain ⟨first, here⟩ := Option.ne_none_iff_exists'.mp nonempty
  unfold NodePool.push at pushed
  rw [here] at pushed
  cases tail : pool.recycledTail with
  | none => simp [tail] at pushed
  | some last =>
      simp only [tail, Except.ok.injEq, Prod.mk.injEq] at pushed
      rw [← pushed.2]

theorem walk_eq {heap : NodeHeap} {queue : List Ptr} (linked : Linked heap.links queue) (steps : Nat) {node : Ptr}
    (here : queue[steps]? = some node) : walk heap steps queue.head? = .ok node := by
  induction steps generalizing queue with
  | zero =>
      rw [List.head?_eq_getElem?, here]
      rfl
  | succ steps ih =>
      cases queue with
      | nil => simp at here
      | cons first rest =>
          have link : (heap.node first).toTail = rest.head? := (linked_cons.mp linked).1
          rw [List.head?_cons, walk, link]
          exact ih linked.tail (by simpa using here)

theorem deleteLoop_eq {heap : NodeHeap} {cells : List Ptr} (linked : Linked heap.links cells) {rounds : Nat}
    (enough : cells.length ≤ rounds) : deleteLoop heap rounds cells.head? = .ok cells := by
  induction cells generalizing rounds with
  | nil => cases rounds <;> rfl
  | cons first rest ih =>
      obtain ⟨rounds, rfl⟩ : ∃ fewer, rounds = fewer + 1 :=
        Nat.exists_eq_add_one_of_ne_zero (by rintro rfl; simp at enough)
      have link : (heap.node first).toTail = rest.head? := (linked_cons.mp linked).1
      rw [List.head?_cons, deleteLoop, link, ih linked.tail (by simpa using enough)]
      rfl

theorem IsQueue.length_le {heap : NodeHeap} {pool : NodePool} {queue : List Ptr}
    (isQueue : IsQueue heap pool queue) : queue.length ≤ heap.brk := by
  have inside : queue ⊆ List.range heap.brk := fun node member => List.mem_range.mpr (isQueue.allocated node member)
  simpa using (List.subperm_of_subset isQueue.distinct inside).length_le

/-- `resize` keeps the first `n` nodes of any queue and deletes the others. -/
theorem IsQueue.resize {heap : NodeHeap} {pool : NodePool} {queue : List Ptr} (isQueue : IsQueue heap pool queue)
    {n : Int} (positive : 1 ≤ n) :
    ∃ nextHeap nextPool,
      resize heap pool n =
        .ok (max 0 (queue.length - n), queue.drop n.toNat, nextHeap, nextPool) ∧
      IsQueue nextHeap nextPool (queue.take n.toNat) := by
  unfold NodePool.resize
  rw [isQueue.size]
  rcases le_or_gt ((queue.length : Int) - n) 0 with few | many
  · have all : queue.length ≤ n.toNat := by omega
    refine ⟨heap, pool, ?_, ?_⟩
    · rw [if_pos few, List.drop_eq_nil_of_le all, max_eq_left few]
    · rw [List.take_of_length_le all]
      exact isQueue
  · have inside : (n - 1).toNat < queue.length := by omega
    have next : n.toNat = (n - 1).toNat + 1 := by omega
    set last := queue[(n - 1).toNat] with lastIs
    have here : queue[(n - 1).toNat]? = some last := List.getElem?_eq_getElem inside
    have ends : (queue.take n.toNat).getLast? = some last := by
      rw [List.getLast?_take, if_neg (by omega), show n.toNat - 1 = (n - 1).toNat by omega, here]
      rfl
    have splits : queue.take n.toNat ++ queue.drop n.toNat = queue := List.take_append_drop _ _
    have disjoint := List.disjoint_of_nodup_append (splits.symm ▸ isQueue.distinct)
    have link : (heap.node last).toTail = (queue.drop n.toNat).head? := by
      rw [List.head?_drop, next]
      exact isQueue.linked.next_eq here
    rw [if_neg (by omega), isQueue.head, walk_eq isQueue.linked _ here]
    simp only [link]
    set cut := heap.modify last fun cell => { cell with toTail := none } with cutIs
    have others : ∀ cell, cell ≠ last → cut.links cell = heap.links cell := fun cell different =>
      congrArg Node.toTail (NodeHeap.modify_node_of_ne heap _ different)
    have lastIn : last ∈ queue.take n.toNat := List.mem_of_getLast? ends
    have deleted : Linked cut.links (queue.drop n.toNat) := by
      apply (isQueue.linked.drop n.toNat).congr
      intro cell member
      exact others cell fun same => disjoint lastIn (same ▸ member)
    have enough : (queue.drop n.toNat).length ≤ cut.brk := by
      have bound : queue.length ≤ cut.brk := isQueue.length_le
      rw [List.length_drop]
      omega
    refine ⟨cut, ⟨pool.recycledHead, some last, n⟩, ?_, ?_, ?_, ?_, ?_, ?_, ?_⟩
    · rw [deleteLoop_eq deleted enough, max_eq_right (by omega), isQueue.head]
      rfl
    · have linked : Linked heap.links (queue.take n.toNat ++ queue.drop n.toNat) := splits.symm ▸ isQueue.linked
      apply linked.cut (isQueue.distinct.sublist (List.take_sublist _ _)) ends
      · simp [NodeHeap.links, cutIs]
      · exact fun cell _ different => others cell different
    · exact isQueue.distinct.sublist (List.take_sublist _ _)
    · intro cell member
      exact isQueue.allocated cell (List.mem_of_mem_take member)
    · rw [isQueue.head, List.head?_take, if_neg (by omega)]
    · intro _
      exact ends.symm
    · simp only [List.length_take]
      omega

theorem push_brk {heap : NodeHeap} {pool : NodePool} {node : Ptr} {next : NodeHeap × NodePool}
    (pushed : push heap pool node = .ok next) : next.1.brk = heap.brk := by
  unfold NodePool.push at pushed
  cases head : pool.recycledHead with
  | none =>
      rw [head] at pushed
      cases pushed
      rfl
  | some first =>
      cases tail : pool.recycledTail with
      | none => simp [head, tail] at pushed
      | some last =>
          rw [head, tail] at pushed
          cases pushed
          rfl

theorem resize_brk {heap : NodeHeap} {pool : NodePool} {n : Int} {next : Int × List Ptr × NodeHeap × NodePool}
    (resized : resize heap pool n = .ok next) : next.2.2.1.brk = heap.brk := by
  unfold NodePool.resize at resized
  by_cases few : pool.size - n ≤ 0
  · rw [if_pos few] at resized
    cases resized
    rfl
  · rw [if_neg few] at resized
    cases walked : walk heap (n - 1).toNat pool.recycledHead with
    | error fault => simp only [walked, reduceCtorEq] at resized
    | ok node =>
        simp only [walked] at resized
        obtain ⟨deleted, -, rfl⟩ := map_ok resized
        rfl

theorem PoolCall.step_brk (call : PoolCall) {heap nextHeap : NodeHeap} {pool nextPool : NodePool}
    {answer : PoolAnswer} (stepped : call.step heap pool = .ok (answer, nextHeap, nextPool)) :
    nextHeap.brk = heap.brk := by
  cases call with
  | push node =>
      obtain ⟨next, pushed, ⟨⟩⟩ := map_ok stepped
      exact push_brk pushed
  | pop => cases stepped; rfl
  | resize n =>
      obtain ⟨⟨removed, deleted, next⟩, resized, ⟨⟩⟩ := map_ok stepped
      exact resize_brk resized
  | link node toTail => cases stepped; rfl

/-- A call that finds at most one node, and an empty pool when it pushes, is served. -/
theorem IsQueue.serves {heap : NodeHeap} {pool : NodePool} {queue : List Ptr} (isQueue : IsQueue heap pool queue)
    (short : queue.length ≤ 1) {call : PoolCall} (admissible : call.Admissible heap.brk queue)
    (findsEmpty : call.pushed ≠ [] → queue = []) :
    ∃ nextHeap nextPool, call.step heap pool = .ok ((call.serve queue).1, nextHeap, nextPool) ∧
      IsQueue nextHeap nextPool (call.serve queue).2 ∧ (call.serve queue).2.length ≤ 1 ∧
      ∀ node ∈ (call.serve queue).1.popped, nextHeap.links node = none := by
  cases call with
  | push node =>
      obtain rfl : queue = [] := findsEmpty (by simp [PoolCall.pushed])
      obtain ⟨nextHeap, nextPool, pushed, formed⟩ := isQueue.push admissible.2
      refine ⟨nextHeap, nextPool, ?_, formed, Nat.le_refl 1, by simp [PoolCall.serve]⟩
      rw [PoolCall.step, pushed]
      rfl
  | pop =>
      obtain ⟨popped, formed⟩ := isQueue.pop
      refine ⟨heap, (NodePool.pop heap pool).2, ?_, formed, ?_, isQueue.detached short⟩
      · rw [PoolCall.step, popped]
        rfl
      · have fewer : queue.tail.length = queue.length - 1 := List.length_tail
        simp only [PoolCall.serve]
        omega
  | resize n =>
      obtain ⟨nextHeap, nextPool, resized, formed⟩ := isQueue.resize admissible
      refine ⟨nextHeap, nextPool, ?_, formed, ?_, by simp [PoolCall.serve]⟩
      · rw [PoolCall.step, resized]
        rfl
      · exact Nat.le_trans (List.length_take_le' _ _) short
  | link node toTail =>
      exact ⟨_, pool, rfl, isQueue.modify admissible _, short, by simp [PoolCall.serve]⟩

/-- A `push` that leaves a queue behind found an empty pool. -/
theorem IsQueue.findsEmpty {heap nextHeap : NodeHeap} {pool nextPool : NodePool} {queue : List Ptr} {call : PoolCall}
    {answer : PoolAnswer} (isQueue : IsQueue heap pool queue) (admissible : call.Admissible heap.brk queue)
    (stepped : call.step heap pool = .ok (answer, nextHeap, nextPool))
    (formed : IsQueue nextHeap nextPool (call.serve queue).2) : call.pushed ≠ [] → queue = [] := by
  intro pushes
  by_contra nonempty
  cases call with
  | push node =>
      have present : pool.recycledHead ≠ none := by
        rw [isQueue.head]
        simpa using nonempty
      obtain ⟨next, pushed, ⟨⟩⟩ := map_ok stepped
      have kept := push_keepsLast present pushed
      have ends := formed.last (by simp [PoolCall.serve])
      rw [kept, isQueue.last nonempty] at ends
      simp only [PoolCall.serve, List.getLast?_concat] at ends
      exact admissible.1 (List.mem_of_getLast? ends)
  | pop => exact pushes rfl
  | resize n => exact pushes rfl
  | link node toTail => exact pushes rfl

theorem Behaves.isQueue {heap : NodeHeap} {pool : NodePool} {queue : List Ptr} {calls : List PoolCall}
    (behaves : Behaves heap pool queue calls) : IsQueue heap pool queue := by
  cases calls with
  | nil => exact behaves
  | cons call rest => exact behaves.1

/-- In a run that is served throughout every `push` finds an empty pool. -/
theorem Behaves.findsEmpty {heap : NodeHeap} {pool : NodePool} {queue : List Ptr} {calls : List PoolCall}
    (behaves : Behaves heap pool queue calls) (admissible : Admissible heap.brk queue calls) :
    PushesFindEmpty queue calls := by
  induction calls generalizing heap pool queue with
  | nil => trivial
  | cons call rest ih =>
      obtain ⟨isQueue, answer, nextHeap, nextPool, stepped, -, -, -, behaves⟩ := behaves
      refine ⟨isQueue.findsEmpty admissible.1 stepped behaves.isQueue, ih behaves ?_⟩
      rw [call.step_brk stepped]
      exact admissible.2

/-- From a pool of at most one node, a run whose pushes find an empty pool is served throughout. -/
theorem IsQueue.behaves {heap : NodeHeap} {pool : NodePool} {queue : List Ptr} {calls : List PoolCall}
    (isQueue : IsQueue heap pool queue) (short : queue.length ≤ 1) (admissible : Admissible heap.brk queue calls)
    (findEmpty : PushesFindEmpty queue calls) : Behaves heap pool queue calls := by
  induction calls generalizing heap pool queue with
  | nil => exact isQueue
  | cons call rest ih =>
      obtain ⟨nextHeap, nextPool, stepped, formed, shorter, detached⟩ :=
        isQueue.serves short admissible.1 findEmpty.1
      refine ⟨isQueue, _, nextHeap, nextPool, stepped, rfl, detached, call.serve_accounts queue, ?_⟩
      apply ih formed shorter _ findEmpty.2
      rw [call.step_brk stepped]
      exact admissible.2

/-- In every run of admissible calls from an empty pool, the pool is a queue of free nodes exactly when every
`push` finds it empty. -/
theorem run_isQueue (heap : NodeHeap) (calls : List PoolCall) (admissible : Admissible heap.brk [] calls) :
    Behaves heap empty [] calls ↔ PushesFindEmpty [] calls :=
  ⟨fun behaves => behaves.findsEmpty admissible, (isQueue_empty heap).behaves (Nat.zero_le 1) admissible⟩

/-- A node comes back to the pool after its owner linked it to another one. -/
theorem run_isQueue_reused :
    Behaves ⟨fun _ => ⟨none, fun _ => 0⟩, 2⟩ empty []
      [.push 0, .resize 1, .pop, .link 0 (some 1), .push 1, .pop, .push 0] :=
  (run_isQueue _ _ (by simp [Admissible, PoolCall.Admissible, PoolCall.serve])).mpr
    (by simp [PushesFindEmpty, PoolCall.pushed, PoolCall.serve])

/-- The second of two pushed nodes is not `recycled_tail`. -/
theorem second_push_keepsTail :
    Admissible 2 [] [.push 0, .push 1] ∧
      ¬ Behaves ⟨fun _ => ⟨none, fun _ => 0⟩, 2⟩ empty [] [.push 0, .push 1] := by
  refine ⟨by simp [Admissible, PoolCall.Admissible, PoolCall.serve], ?_⟩
  rintro ⟨-, first, heap, pool, pushed, -, -, -, -, second, nextHeap, nextPool, again, -, -, -, formed⟩
  cases pushed
  cases again
  have ends : some 0 = some 1 := formed.last (by simp [PoolCall.serve])
  simp at ends

end NodePool

end Altus
