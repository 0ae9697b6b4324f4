import Altus.Library.Doubly
import Altus.Library.Serial
import Altus.Proof.Window.Nodes

namespace Altus.WindowedQueue

open Chain

/-- Windows that share one pool. -/
structure SharedPool where
  heap : WQHeap
  pool : WQNodePool
  windows : List WQWindow

namespace SharedPool

/-- What an operation on one window reads. -/
def view (shared : SharedPool) (window : WQWindow) : WQState := ⟨shared.heap, shared.pool, window⟩

/-- What an operation on one window leaves behind. -/
def put (shared : SharedPool) (index : Nat) (state : WQState) : SharedPool :=
  ⟨state.heap, state.pool, shared.windows.set index state.window⟩

/-- A new pool, before any other node is allocated. -/
def start (node : Ptr → WQNode) : SharedPool :=
  let (pool, heap) := altusWQNewNodePool ⟨node, 0⟩
  ⟨heap, pool, []⟩

end SharedPool

/-- `safe_tail` moves to the following node, with the count and the `lastSeq` that the advance of `altusWQPut` computes. -/
def advanceTo (state : WQState) (next : Ptr) (count lastSeq : U32) : WQState :=
  { state with
    heap := (state.heap.modify state.window.safeTail fun node => { node with validBlockCount := count }).modify next
      fun node => { node with validBlockCount := 0 }
    window := { state.window with
      lastSeq := lastSeq
      safeLen := state.window.safeLen + 1
      unsafeLen := state.window.unsafeLen - 1
      safeTail := next } }

/-- One operation on the window of an index. -/
inductive NodeStep (index : Nat) (shared : SharedPool) : SharedPool → Prop
  | newWindow (raw : WQWindow) (last : index = shared.windows.length) :
      NodeStep index shared
        ⟨(altusNewWindow shared.heap raw).2, shared.pool, shared.windows ++ [(altusNewWindow shared.heap raw).1]⟩
  | newNode {window : WQWindow} {next : WQState} (here : shared.windows[index]? = some window)
      (returned : altusWQNewNode (shared.view window) = .ok next) : NodeStep index shared (shared.put index next)
  | popNode {window : WQWindow} {next : WQState} {code : Int} (here : shared.windows[index]? = some window)
      (returned : altusWQPopNode (shared.view window) = .ok (code, next)) :
      NodeStep index shared (shared.put index next)
  | advance {window : WQWindow} {next : Ptr} (count lastSeq : U32) (here : shared.windows[index]? = some window)
      (link : (shared.heap.node window.safeTail).toTail = some next) :
      NodeStep index shared (shared.put index (advanceTo (shared.view window) next count lastSeq))

/-- The `to_head` links of a heap. -/
def backLinks (heap : WQHeap) : Ptr → Option Ptr := fun pointer => (heap.node pointer).toHead

section Links

theorem links_modify_eq (heap : WQHeap) (pointer : Ptr) (change : WQNode → WQNode) :
    links (heap.modify pointer change) =
      Function.update (links heap) pointer (change (heap.node pointer)).toTail := by
  funext other
  by_cases same : other = pointer
  · subst same
    rw [links, WQHeap.modify_node_self, Function.update_self]
  · rw [links, WQHeap.modify_node_of_ne _ _ same, Function.update_of_ne same, links]

theorem backLinks_modify_eq (heap : WQHeap) (pointer : Ptr) (change : WQNode → WQNode) :
    backLinks (heap.modify pointer change) =
      Function.update (backLinks heap) pointer (change (heap.node pointer)).toHead := by
  funext other
  by_cases same : other = pointer
  · subst same
    rw [backLinks, WQHeap.modify_node_self, Function.update_self]
  · rw [backLinks, WQHeap.modify_node_of_ne _ _ same, Function.update_of_ne same, backLinks]

/-- A node loses its link to the head side. -/
def beHead (heap : WQHeap) (pointer : Ptr) : WQHeap := heap.modify pointer fun node => { node with toHead := none }

theorem beHead_links (heap : WQHeap) (pointer : Ptr) : links (beHead heap pointer) = links heap := by
  rw [beHead, links_modify_eq]
  exact Function.update_eq_self _ _

theorem beHead_backLinks (heap : WQHeap) (pointer : Ptr) :
    backLinks (beHead heap pointer) = Function.update (backLinks heap) pointer none := by
  rw [beHead, backLinks_modify_eq]

theorem beHead_of_ne (heap : WQHeap) {pointer other : Ptr} (different : other ≠ pointer) :
    (beHead heap pointer).node other = heap.node other := WQHeap.modify_node_of_ne _ _ different

/-- A node is linked behind the last one of a chain. -/
def appendNode (heap : WQHeap) (pointer last : Ptr) : WQHeap :=
  (heap.modify pointer fun node => { node with toTail := none, toHead := some last }).modify last
    fun node => { node with toTail := some pointer }

theorem appendNode_links (heap : WQHeap) (pointer last : Ptr) :
    links (appendNode heap pointer last) =
      Function.update (Function.update (links heap) pointer none) last (some pointer) := by
  rw [appendNode, links_modify_eq, links_modify_eq]

theorem appendNode_backLinks (heap : WQHeap) (pointer last : Ptr) :
    backLinks (appendNode heap pointer last) = Function.update (backLinks heap) pointer (some last) := by
  rw [appendNode, backLinks_modify_eq]
  dsimp only
  rw [← backLinks_modify_eq heap pointer fun node => { node with toTail := none, toHead := some last }]
  exact Function.update_eq_self _ _

theorem appendNode_of_ne (heap : WQHeap) {pointer last other : Ptr} (notNew : other ≠ pointer)
    (notLast : other ≠ last) :
    (appendNode heap pointer last).node other = heap.node other := by
  rw [appendNode, WQHeap.modify_node_of_ne _ _ notLast, WQHeap.modify_node_of_ne _ _ notNew]

theorem advanceTo_of_ne (state : WQState) {next other : Ptr} (count lastSeq : U32)
    (notSafe : other ≠ state.window.safeTail) (notNext : other ≠ next) :
    (advanceTo state next count lastSeq).heap.node other = state.heap.node other := by
  rw [advanceTo]
  dsimp only
  rw [WQHeap.modify_node_of_ne _ _ notNext, WQHeap.modify_node_of_ne _ _ notSafe]

theorem altusNewWindow_of_ne (heap : WQHeap) (raw : WQWindow) {other : Ptr} (notNew : other ≠ heap.brk) :
    (altusNewWindow heap raw).2.node other = heap.node other := by
  rw [altusNewWindow]
  dsimp only
  rw [WQHeap.modify_node_of_ne _ _ notNew]

end Links

/-- The chains of the windows and of the pool (`none`) are doubly linked and hold each allocated node once.
Inside an operation one node may be `loose`. -/
structure Apart (shared : SharedPool) (chain : Option Nat → List Ptr) (loose : Option Ptr) : Prop where
  doubly : DoublyOwned (links shared.heap) (backLinks shared.heap) chain
  free : ∀ pointer, loose = some pointer → Free chain pointer
  placed : ∀ pointer, pointer < shared.heap.brk ↔ (∃ owner, pointer ∈ chain owner) ∨ loose = some pointer
  windows : ∀ index window, shared.windows[index]? = some window → (chain (some index)).head? = some window.head ∧
    (chain (some index)).getLast? = some window.unsafeTail ∧ window.safeTail ∈ chain (some index)
  absent : ∀ index, shared.windows.length ≤ index → chain (some index) = []
  poolHead : (chain none).head? = some shared.pool.recycledHead
  poolTail : (chain none).getLast? = some shared.pool.recycledTail
  len : shared.pool.len = BitVec.ofNat 32 (chain none).length

/-- An operation on one window leaves the other windows, their chains and their nodes unchanged. -/
def Frame (index : Nat) (shared : SharedPool) (chain : Option Nat → List Ptr) (next : SharedPool)
    (nextChain : Option Nat → List Ptr) : Prop :=
  ∀ other, other ≠ index → next.windows[other]? = shared.windows[other]? ∧
    nextChain (some other) = chain (some other) ∧
    ∀ pointer ∈ chain (some other), next.heap.node pointer = shared.heap.node pointer

theorem Frame.trans {index : Nat} {first second third : SharedPool} {one two three : Option Nat → List Ptr}
    (left : Frame index first one second two) (right : Frame index second two third three) :
    Frame index first one third three := by
  intro other different
  obtain ⟨window, cells, nodes⟩ := left other different
  obtain ⟨nextWindow, nextCells, nextNodes⟩ := right other different
  refine ⟨nextWindow.trans window, nextCells.trans cells, ?_⟩
  intro pointer member
  rw [nextNodes pointer (by rw [cells]; exact member), nodes pointer member]

section Operations

variable {shared : SharedPool} {chain : Option Nat → List Ptr} {loose : Option Ptr}

theorem Apart.below (apart : Apart shared chain loose) {owner : Option Nat} {pointer : Ptr}
    (member : pointer ∈ chain owner) : pointer < shared.heap.brk :=
  (apart.placed pointer).mpr (Or.inl ⟨owner, member⟩)

/-- A chain of one owner differs from all chains of the other ones. -/
theorem Apart.ne_of_mem (apart : Apart shared chain loose) {owner other : Option Nat} {pointer cell : Ptr}
    (member : pointer ∈ chain owner) (different : other ≠ owner) (inOther : cell ∈ chain other) : cell ≠ pointer := by
  rintro rfl
  exact different (apart.doubly.apart other owner cell inOther member)

/-- The same nodes are placed when one owner takes another chain of its nodes and of the loose one. -/
theorem Apart.placed_update (apart : Apart shared chain loose) {owner : Option Nat} {cells : List Ptr}
    {newLoose : Option Ptr}
    (moved : ∀ pointer, (pointer ∈ cells ∨ newLoose = some pointer) ↔ (pointer ∈ chain owner ∨ loose = some pointer))
    (pointer : Ptr) :
    pointer < shared.heap.brk ↔
      (∃ holder, pointer ∈ Function.update chain owner cells holder) ∨ newLoose = some pointer := by
  have both := moved pointer
  have old := exists_mem_update chain owner (chain owner) pointer
  rw [Function.update_eq_self] at old
  rw [apart.placed, old, exists_mem_update, or_right_comm, ← both, or_right_comm]

/-- The pool gets another chain. -/
theorem Apart.setPool (apart : Apart shared chain loose) {heap : WQHeap} {pool : WQNodePool} {cells : List Ptr}
    {newLoose : Option Ptr} (doubly : DoublyOwned (links heap) (backLinks heap) (Function.update chain none cells))
    (free : ∀ pointer, newLoose = some pointer → Free (Function.update chain none cells) pointer)
    (brk : heap.brk = shared.heap.brk)
    (moved : ∀ pointer, (pointer ∈ cells ∨ newLoose = some pointer) ↔ (pointer ∈ chain none ∨ loose = some pointer))
    (head : cells.head? = some pool.recycledHead) (tail : cells.getLast? = some pool.recycledTail)
    (len : pool.len = BitVec.ofNat 32 cells.length) :
    Apart ⟨heap, pool, shared.windows⟩ (Function.update chain none cells) newLoose where
  doubly := doubly
  free := free
  placed := by
    rw [brk]
    exact apart.placed_update moved
  windows := by
    intro index window here
    rw [Function.update_of_ne (Option.some_ne_none _)]
    exact apart.windows index window here
  absent := by
    intro index beyond
    rw [Function.update_of_ne (Option.some_ne_none _)]
    exact apart.absent index beyond
  poolHead := by rw [Function.update_self]; exact head
  poolTail := by rw [Function.update_self]; exact tail
  len := by rw [Function.update_self]; exact len

/-- One window gets another chain. -/
theorem Apart.setWindow (apart : Apart shared chain loose) {index : Nat} {window newWindow : WQWindow}
    (here : shared.windows[index]? = some window) {heap : WQHeap} {cells : List Ptr} {newLoose : Option Ptr}
    (doubly : DoublyOwned (links heap) (backLinks heap) (Function.update chain (some index) cells))
    (free : ∀ pointer, newLoose = some pointer → Free (Function.update chain (some index) cells) pointer)
    (brk : heap.brk = shared.heap.brk)
    (moved : ∀ pointer, (pointer ∈ cells ∨ newLoose = some pointer) ↔
      (pointer ∈ chain (some index) ∨ loose = some pointer))
    (head : cells.head? = some newWindow.head) (tail : cells.getLast? = some newWindow.unsafeTail)
    (safe : newWindow.safeTail ∈ cells) :
    Apart ⟨heap, shared.pool, shared.windows.set index newWindow⟩ (Function.update chain (some index) cells)
      newLoose where
  doubly := doubly
  free := free
  placed := by
    rw [brk]
    exact apart.placed_update moved
  windows := by
    intro other current found
    have inside := (List.getElem?_eq_some_iff.mp here).1
    by_cases own : other = index
    · subst own
      rw [List.getElem?_set_self inside] at found
      obtain rfl := Option.some.inj found
      rw [Function.update_self]
      exact ⟨head, tail, safe⟩
    · rw [List.getElem?_set_ne (Ne.symm own)] at found
      rw [Function.update_of_ne (fun same => own (Option.some.inj same))]
      exact apart.windows other current found
  absent := by
    intro other beyond
    have inside := (List.getElem?_eq_some_iff.mp here).1
    rw [List.length_set] at beyond
    have different : other ≠ index := by omega
    rw [Function.update_of_ne (fun same => different (Option.some.inj same))]
    exact apart.absent other beyond
  poolHead := by rw [Function.update_of_ne (Option.some_ne_none _).symm]; exact apart.poolHead
  poolTail := by rw [Function.update_of_ne (Option.some_ne_none _).symm]; exact apart.poolTail
  len := by rw [Function.update_of_ne (Option.some_ne_none _).symm]; exact apart.len

/-- What the first part of `altusWQNewNode` leaves behind. -/
structure Taken (shared : SharedPool) (chain : Option Nat → List Ptr) (newNode : Ptr) (next : SharedPool)
    (nextChain : Option Nat → List Ptr) : Prop where
  apart : Apart next nextChain (some newNode)
  windows : next.windows = shared.windows
  chains : ∀ index, nextChain (some index) = chain (some index)
  nodes : ∀ index, ∀ pointer ∈ chain (some index), next.heap.node pointer = shared.heap.node pointer
  /-- A node is allocated only when the pool keeps its last one. -/
  fresh : next.heap.brk ≠ shared.heap.brk → (chain none).length = 1
  /-- A pool of a single node stays as it is. -/
  single : (chain none).length = 1 → nextChain none = chain none

/-- A pool of a single node keeps it, and `altusWQNewNode` allocates. -/
theorem Apart.take_fresh (apart : Apart shared chain none) {first : Ptr} (cells : chain none = [first])
    (window : WQWindow) :
    ∃ newNode next nextChain, takeNode (shared.view window) = .ok (newNode, next.view window) ∧
      Taken shared chain newNode next nextChain := by
  have head := apart.poolHead
  have tail := apart.poolTail
  rw [cells] at head tail
  have same : shared.pool.recycledHead = shared.pool.recycledTail :=
    (Option.some.inj head).symm.trans (Option.some.inj tail)
  refine ⟨shared.heap.brk, ⟨{ shared.heap with brk := shared.heap.brk + 1 }, shared.pool, shared.windows⟩, chain,
    if_pos same, { apart with free := ?_, placed := ?_ }, rfl, fun _ => rfl, fun _ _ _ => rfl,
    fun _ => by rw [cells]; rfl, fun _ => rfl⟩
  · rintro pointer same owner member
    obtain rfl := Option.some.inj same
    exact Nat.lt_irrefl _ (apart.below member)
  · intro pointer
    have old := apart.placed pointer
    simp only [reduceCtorEq, or_false] at old
    rw [← old, Option.some.injEq, eq_comm (a := shared.heap.brk)]
    exact Nat.lt_succ_iff_lt_or_eq

/-- A pool of several nodes gives its first one. -/
theorem Apart.take_pooled (apart : Apart shared chain none) {first second : Ptr} {rest : List Ptr}
    (cells : chain none = first :: second :: rest) (window : WQWindow) :
    ∃ newNode next nextChain, takeNode (shared.view window) = .ok (newNode, next.view window) ∧
      Taken shared chain newNode next nextChain := by
  have head := apart.poolHead
  have tail := apart.poolTail
  have linked := apart.doubly.linked none
  have nodup := apart.doubly.nodup none
  rw [cells] at head tail linked nodup
  have headIs : first = shared.pool.recycledHead := Option.some.inj head
  rw [List.getLast?_cons_cons] at tail
  have different : shared.pool.recycledHead ≠ shared.pool.recycledTail := by
    intro same
    have member := List.mem_of_getLast? tail
    rw [← same, ← headIs] at member
    exact (List.nodup_cons.mp nodup).1 member
  have link : (shared.heap.node shared.pool.recycledHead).toTail = some second := by
    rw [← headIs]
    exact (linked_cons.mp linked).1
  obtain ⟨doubly, free⟩ := apart.doubly.dropFirst cells
  have len : shared.pool.len - 1 = BitVec.ofNat 32 (second :: rest).length := by
    rw [apart.len, cells]
    exact Serial.ofNat_succ_sub_one _
  refine ⟨first, ⟨beHead shared.heap second,
    { shared.pool with recycledHead := second, len := shared.pool.len - 1 }, shared.windows⟩,
    Function.update chain none (second :: rest), ?_, ?_, rfl, ?_, ?_, fun grown => absurd rfl grown, ?_⟩
  · rw [takeNode]
    simp only [SharedPool.view, if_neg different, link, headIs]
    rfl
  · refine apart.setPool ?_ ?_ rfl ?_ rfl tail len
    · rw [beHead_links, beHead_backLinks]
      exact doubly
    · intro pointer same
      obtain rfl := Option.some.inj same
      exact free
    · intro pointer
      rw [cells, Option.some.injEq, List.mem_cons (b := first), eq_comm (a := first)]
      simp only [reduceCtorEq, or_false]
      exact Or.comm
  · intro index
    exact Function.update_of_ne (Option.some_ne_none _) _ _
  · intro index pointer member
    have secondMember : second ∈ chain none := by rw [cells]; simp
    exact beHead_of_ne _ (apart.ne_of_mem secondMember (Option.some_ne_none _) member)
  · intro single
    rw [cells] at single
    simp at single

/-- `altusWQNewNode` takes a node of the pool or a new one. -/
theorem Apart.take (apart : Apart shared chain none) (window : WQWindow) :
    ∃ newNode next nextChain, takeNode (shared.view window) = .ok (newNode, next.view window) ∧
      Taken shared chain newNode next nextChain := by
  have head := apart.poolHead
  cases cells : chain none with
  | nil =>
      rw [cells] at head
      cases head
  | cons first rest =>
      cases rest with
      | nil => exact apart.take_fresh cells window
      | cons second rest => exact apart.take_pooled cells window

/-- The second part of `altusWQNewNode` gives the node to the window. -/
theorem Apart.link {newNode : Ptr} (apart : Apart shared chain (some newNode)) {index : Nat} {window : WQWindow}
    (here : shared.windows[index]? = some window) :
    Apart (shared.put index (linkNode newNode (shared.view window)))
        (Function.update chain (some index) (chain (some index) ++ [newNode])) none ∧
      Frame index shared chain (shared.put index (linkNode newNode (shared.view window)))
        (Function.update chain (some index) (chain (some index) ++ [newNode])) := by
  obtain ⟨head, tail, safe⟩ := apart.windows index window here
  have free := apart.free newNode rfl
  have tailMember := List.mem_of_getLast? tail
  have doubly := apart.doubly.append free tail
  rw [← appendNode_links, ← appendNode_backLinks] at doubly
  constructor
  · refine apart.setWindow here doubly (by simp) rfl ?_ ?_ ?_ ?_
    · intro pointer
      rw [List.mem_append, List.mem_singleton, Option.some.injEq, eq_comm (a := newNode)]
      simp
    · rw [List.head?_append_of_ne_nil _ (List.ne_nil_of_mem tailMember)]
      exact head
    · rw [List.getLast?_concat]
      rfl
    · exact List.mem_append_left _ safe
  · intro other different
    have apartIndex : some other ≠ some index := fun same => different (Option.some.inj same)
    refine ⟨List.getElem?_set_ne (Ne.symm different), Function.update_of_ne apartIndex _ _, ?_⟩
    intro pointer member
    exact appendNode_of_ne _ (fun same => free (some other) (same ▸ member))
      (apart.ne_of_mem tailMember apartIndex member)

/-- `altusWQNewNode` completes and keeps the chains apart. -/
theorem Apart.newNode (apart : Apart shared chain none) {index : Nat} {window : WQWindow}
    (here : shared.windows[index]? = some window) :
    ∃ next nextChain, altusWQNewNode (shared.view window) = .ok next ∧
      Apart (shared.put index next) nextChain none ∧
      Frame index shared chain (shared.put index next) nextChain ∧
      (next.heap.brk ≠ shared.heap.brk → (chain none).length = 1) := by
  obtain ⟨newNode, middle, middleChain, took, taken⟩ := apart.take window
  have stillHere : middle.windows[index]? = some window := by rw [taken.windows]; exact here
  obtain ⟨nextApart, frame⟩ := taken.apart.link stillHere
  have putIs : middle.put index (linkNode newNode (middle.view window)) =
      shared.put index (linkNode newNode (middle.view window)) := by
    rw [SharedPool.put, SharedPool.put, taken.windows]
  rw [putIs] at nextApart frame
  refine ⟨linkNode newNode (middle.view window), _, by rw [altusWQNewNode, took], nextApart, ?_, taken.fresh⟩
  have first : Frame index shared chain middle middleChain := by
    intro other _
    exact ⟨by rw [taken.windows], taken.chains other, taken.nodes other⟩
  exact first.trans frame

/-- The node of a window with several nodes becomes loose. -/
theorem Apart.drop (apart : Apart shared chain none) {index : Nat} {window : WQWindow}
    (here : shared.windows[index]? = some window) (several : window.head ≠ window.safeTail) :
    ∃ second rest, chain (some index) = window.head :: second :: rest ∧
      (shared.heap.node window.head).toTail = some second ∧
      Apart ⟨beHead shared.heap second, shared.pool,
        shared.windows.set index { window with head := second, safeLen := window.safeLen - 1 }⟩
        (Function.update chain (some index) (second :: rest)) (some window.head) := by
  obtain ⟨head, tail, safe⟩ := apart.windows index window here
  obtain ⟨second, rest, cells⟩ : ∃ second rest, chain (some index) = window.head :: second :: rest := by
    cases cells : chain (some index) with
    | nil => rw [cells] at head; simp at head
    | cons first rest =>
        rw [cells] at head safe
        obtain rfl : first = window.head := Option.some.inj head
        cases rest with
        | nil => exact absurd (List.mem_singleton.mp safe).symm several
        | cons second rest => exact ⟨second, rest, rfl⟩
  have linked := apart.doubly.linked (some index)
  rw [cells] at linked tail safe
  obtain ⟨doubly, free⟩ := apart.doubly.dropFirst cells
  refine ⟨second, rest, cells, (linked_cons.mp linked).1, apart.setWindow here ?_ ?_ rfl ?_ rfl ?_ ?_⟩
  · rw [beHead_links, beHead_backLinks]
    exact doubly
  · intro pointer same
    obtain rfl := Option.some.inj same
    exact free
  · intro pointer
    rw [cells, Option.some.injEq, List.mem_cons (b := window.head), eq_comm (a := window.head)]
    simp only [reduceCtorEq, or_false]
    tauto
  · rw [List.getLast?_cons_cons] at tail
    exact tail
  · exact (List.mem_cons.mp safe).resolve_left (Ne.symm several)

/-- A loose node joins the end of the pool. -/
theorem Apart.recycle {oldHead : Ptr} (apart : Apart shared chain (some oldHead)) :
    Apart ⟨appendNode shared.heap oldHead shared.pool.recycledTail,
        { shared.pool with recycledTail := oldHead, len := shared.pool.len + 1 }, shared.windows⟩
      (Function.update chain none (chain none ++ [oldHead])) none ∧
      ∀ index, ∀ pointer ∈ chain (some index),
        (appendNode shared.heap oldHead shared.pool.recycledTail).node pointer = shared.heap.node pointer := by
  have free := apart.free oldHead rfl
  have tailMember := List.mem_of_getLast? apart.poolTail
  have doubly := apart.doubly.append free apart.poolTail
  rw [← appendNode_links, ← appendNode_backLinks] at doubly
  constructor
  · refine apart.setPool doubly (by simp) rfl ?_ ?_ ?_ ?_
    · intro pointer
      rw [List.mem_append, List.mem_singleton, Option.some.injEq, eq_comm (a := oldHead)]
      simp
    · rw [List.head?_append_of_ne_nil _ (List.ne_nil_of_mem tailMember)]
      exact apart.poolHead
    · exact List.getLast?_concat ..
    · dsimp only
      rw [apart.len, List.length_append, List.length_singleton]
      exact Serial.ofNat_succ _
  · intro index pointer member
    exact appendNode_of_ne _ (fun same => free (some index) (same ▸ member))
      (apart.ne_of_mem tailMember (Option.some_ne_none _) member)

/-- The head node of a window with several nodes moves to the end of the pool. -/
theorem Apart.popNode_several (apart : Apart shared chain none) {index : Nat} {window : WQWindow}
    (here : shared.windows[index]? = some window) (several : window.head ≠ window.safeTail) :
    ∃ next second rest, chain (some index) = window.head :: second :: rest ∧
      altusWQPopNode (shared.view window) = .ok (0, next) ∧
      next.window = { window with head := second, safeLen := window.safeLen - 1 } ∧
      Apart (shared.put index next)
        (Function.update (Function.update chain (some index) (second :: rest)) none (chain none ++ [window.head])) none ∧
      Frame index shared chain (shared.put index next)
        (Function.update (Function.update chain (some index) (second :: rest)) none (chain none ++ [window.head])) := by
  obtain ⟨second, rest, cells, link, dropped⟩ := apart.drop here several
  obtain ⟨recycled, nodes⟩ := dropped.recycle
  rw [Function.update_of_ne (Option.some_ne_none _).symm] at recycled
  have popped : altusWQPopNode (shared.view window) = .ok (0,
      ⟨appendNode (beHead shared.heap second) window.head shared.pool.recycledTail,
        { shared.pool with recycledTail := window.head, len := shared.pool.len + 1 },
        { window with head := second, safeLen := window.safeLen - 1 }⟩) := by
    rw [altusWQPopNode]
    simp only [SharedPool.view, if_neg several, link]
    rfl
  refine ⟨_, second, rest, cells, popped, rfl, recycled, ?_⟩
  intro other different
  have apartIndex : some other ≠ some index := fun same => different (Option.some.inj same)
  have secondMember : second ∈ chain (some index) := by rw [cells]; simp
  refine ⟨List.getElem?_set_ne (Ne.symm different), ?_, ?_⟩
  · rw [Function.update_of_ne (Option.some_ne_none _), Function.update_of_ne apartIndex]
  · intro pointer member
    refine (nodes other pointer ?_).trans (beHead_of_ne _ (apart.ne_of_mem secondMember apartIndex member))
    rw [Function.update_of_ne apartIndex]
    exact member

/-- `altusWQPopNode` completes and keeps the chains apart. -/
theorem Apart.popNode (apart : Apart shared chain none) {index : Nat} {window : WQWindow}
    (here : shared.windows[index]? = some window) :
    ∃ code next nextChain, altusWQPopNode (shared.view window) = .ok (code, next) ∧
      Apart (shared.put index next) nextChain none ∧ Frame index shared chain (shared.put index next) nextChain := by
  by_cases single : window.head = window.safeTail
  · obtain ⟨head, tail, safe⟩ := apart.windows index window here
    have sameChain : Function.update chain (some index) (chain (some index)) = chain := Function.update_eq_self _ _
    have popped : altusWQPopNode (shared.view window) =
        .ok (-1, shared.view { window with safeLen := 1 }) := if_pos single
    have kept := @Apart.setWindow shared chain none apart index window { window with safeLen := 1 } here shared.heap
      (chain (some index)) none (by rw [sameChain]; exact apart.doubly) (by simp) rfl (fun _ => Iff.rfl) head tail safe
    rw [sameChain] at kept
    refine ⟨-1, _, chain, popped, kept, ?_⟩
    intro other different
    exact ⟨List.getElem?_set_ne (Ne.symm different), rfl, fun _ _ => rfl⟩
  · obtain ⟨next, second, rest, -, popped, -, nextApart, frame⟩ := apart.popNode_several here single
    exact ⟨0, next, _, popped, nextApart, frame⟩

/-- The advance of `safe_tail` keeps the chains apart. -/
theorem Apart.advance (apart : Apart shared chain none) {index : Nat} {window : WQWindow}
    (here : shared.windows[index]? = some window) {next : Ptr} (count lastSeq : U32)
    (link : (shared.heap.node window.safeTail).toTail = some next) :
    Apart (shared.put index (advanceTo (shared.view window) next count lastSeq)) chain none ∧
      Frame index shared chain (shared.put index (advanceTo (shared.view window) next count lastSeq)) chain := by
  obtain ⟨head, tail, safe⟩ := apart.windows index window here
  obtain ⟨place, found⟩ := List.mem_iff_getElem?.mp safe
  have following : links shared.heap window.safeTail = (chain (some index))[place + 1]? :=
    (apart.doubly.linked (some index)).next_eq found
  have nextMember : next ∈ chain (some index) := List.mem_of_getElem? (following.symm.trans link)
  have sameChain : Function.update chain (some index) (chain (some index)) = chain := Function.update_eq_self _ _
  have sameLinks : links (advanceTo (shared.view window) next count lastSeq).heap = links shared.heap :=
    (links_modify _ _ (fun node => { node with validBlockCount := 0 }) fun _ => rfl).trans
      (links_modify _ _ (fun node => { node with validBlockCount := count }) fun _ => rfl)
  have sameBack : backLinks (advanceTo (shared.view window) next count lastSeq).heap = backLinks shared.heap := by
    funext pointer
    exact (WQHeap.modify_keeps WQNode.toHead _ _ (fun node => { node with validBlockCount := 0 }) (fun _ => rfl) _).trans
      (WQHeap.modify_keeps WQNode.toHead _ _ (fun node => { node with validBlockCount := count }) (fun _ => rfl) _)
  have kept := @Apart.setWindow shared chain none apart index window
    (advanceTo (shared.view window) next count lastSeq).window here
    (advanceTo (shared.view window) next count lastSeq).heap (chain (some index)) none
    (by rw [sameChain, sameLinks, sameBack]; exact apart.doubly) (by simp) rfl (fun _ => Iff.rfl) head tail nextMember
  rw [sameChain] at kept
  refine ⟨kept, ?_⟩
  intro other different
  have apartIndex : some other ≠ some index := fun same => different (Option.some.inj same)
  refine ⟨List.getElem?_set_ne (Ne.symm different), rfl, ?_⟩
  intro pointer member
  exact advanceTo_of_ne (shared.view window) count lastSeq (apart.ne_of_mem safe apartIndex member)
    (apart.ne_of_mem nextMember apartIndex member)

/-- `altusNewWindow` starts a chain of its own. -/
theorem Apart.newWindow (apart : Apart shared chain none) (raw : WQWindow) :
    Apart ⟨(altusNewWindow shared.heap raw).2, shared.pool, shared.windows ++ [(altusNewWindow shared.heap raw).1]⟩
        (Function.update chain (some shared.windows.length) [shared.heap.brk]) none ∧
      Frame shared.windows.length shared chain
        ⟨(altusNewWindow shared.heap raw).2, shared.pool, shared.windows ++ [(altusNewWindow shared.heap raw).1]⟩
        (Function.update chain (some shared.windows.length) [shared.heap.brk]) := by
  have free : Free chain shared.heap.brk := fun owner member => Nat.lt_irrefl _ (apart.below member)
  have doubly := apart.doubly.start free (some shared.windows.length)
  have empty := apart.absent shared.windows.length le_rfl
  have other {index : Nat} (different : index ≠ shared.windows.length) :
      Function.update chain (some shared.windows.length) [shared.heap.brk] (some index) = chain (some index) :=
    Function.update_of_ne (fun same => different (Option.some.inj same)) _ _
  constructor
  · refine ⟨?_, by simp, ?_, ?_, ?_, ?_, ?_, ?_⟩
    · rw [altusNewWindow]
      dsimp only
      rw [links_modify_eq, backLinks_modify_eq]
      exact doubly
    · intro pointer
      have old := exists_mem_update chain (some shared.windows.length) [] pointer
      rw [← empty, Function.update_eq_self] at old
      have below := apart.placed pointer
      simp only [empty, List.not_mem_nil, false_or, reduceCtorEq, or_false] at old below
      rw [exists_mem_update, ← old, ← below, List.mem_singleton]
      simp only [reduceCtorEq, or_false]
      exact Nat.lt_succ_iff_lt_or_eq.trans Or.comm
    · intro index window here
      rcases Nat.lt_trichotomy index shared.windows.length with early | rfl | late
      · rw [List.getElem?_append_left early] at here
        rw [other (Nat.ne_of_lt early)]
        exact apart.windows index window here
      · rw [List.getElem?_concat_length] at here
        obtain rfl := Option.some.inj here
        rw [Function.update_self]
        exact ⟨rfl, rfl, List.mem_singleton_self _⟩
      · have beyond : (shared.windows ++ [(altusNewWindow shared.heap raw).1])[index]? = none :=
          List.getElem?_eq_none (by simp; omega)
        rw [beyond] at here
        cases here
    · intro index beyond
      rw [List.length_append, List.length_singleton] at beyond
      rw [other (by omega)]
      exact apart.absent index (by omega)
    · rw [Function.update_of_ne (Option.some_ne_none _).symm]
      exact apart.poolHead
    · rw [Function.update_of_ne (Option.some_ne_none _).symm]
      exact apart.poolTail
    · rw [Function.update_of_ne (Option.some_ne_none _).symm]
      exact apart.len
  · intro index different
    refine ⟨?_, other different, ?_⟩
    · rcases Nat.lt_or_ge index shared.windows.length with early | late
      · exact List.getElem?_append_left early
      · rw [List.getElem?_eq_none late, List.getElem?_eq_none (by simp; omega)]
    · intro pointer member
      exact altusNewWindow_of_ne shared.heap raw (Nat.ne_of_lt (apart.below member))

/-- Every operation keeps the chains apart and leaves the other windows alone. -/
theorem Apart.step (apart : Apart shared chain none) {index : Nat} {next : SharedPool}
    (step : NodeStep index shared next) :
    ∃ nextChain, Apart next nextChain none ∧ Frame index shared chain next nextChain := by
  cases step with
  | newWindow raw last =>
      subst last
      exact ⟨_, apart.newWindow raw⟩
  | newNode here returned =>
      obtain ⟨other, nextChain, made, nextApart, frame, -⟩ := apart.newNode here
      obtain rfl := Except.ok.inj (made.symm.trans returned)
      exact ⟨nextChain, nextApart, frame⟩
  | popNode here returned =>
      obtain ⟨code, other, nextChain, popped, nextApart, frame⟩ := apart.popNode here
      obtain ⟨-, rfl⟩ := Prod.mk.inj (Except.ok.inj (popped.symm.trans returned))
      exact ⟨nextChain, nextApart, frame⟩
  | advance count lastSeq here link => exact ⟨chain, apart.advance here count lastSeq link⟩

end Operations

/-- One operation on any window. -/
def AnyStep (shared next : SharedPool) : Prop := ∃ index, NodeStep index shared next

theorem start_apart (node : Ptr → WQNode) :
    Apart (SharedPool.start node) (fun owner => if owner = none then [0] else []) none := by
  have first : (SharedPool.start node).heap.node 0 =
      { node 0 with toHead := none, toTail := none, validBlockCount := 0 } := by
    simp [SharedPool.start, altusWQNewNodePool, WQHeap.modify]
  have single (owner : Option Nat) : (if owner = none then [0] else []) = ([0] : List Ptr) ∨
      (if owner = none then [0] else []) = ([] : List Ptr) := by
    split
    · exact Or.inl rfl
    · exact Or.inr rfl
  refine ⟨⟨⟨?_, ?_, ?_⟩, ?_⟩, by simp, ?_, ?_, ?_, rfl, rfl, rfl⟩
  · intro owner
    rcases single owner with cells | cells <;> rw [cells]
    · exact linked_single (by rw [links, first])
    · exact linked_nil _
  · intro owner
    rcases single owner with cells | cells <;> rw [cells] <;> simp
  · intro one other cell inOne inOther
    split at inOne
    · split at inOther
      · rename_i left right
        rw [left, right]
      · simp at inOther
    · simp at inOne
  · intro owner
    rcases single owner with cells | cells <;> rw [cells]
    · exact linked_single (by rw [backLinks, first])
    · exact linked_nil _
  · intro pointer
    show pointer < 1 ↔ _
    simp
  · intro index window here
    cases here
  · intro index _
    rfl

/-- In every run the chains of the windows and of the pool stay apart. -/
theorem run_apart {node : Ptr → WQNode} {shared : SharedPool}
    (run : Relation.ReflTransGen AnyStep (SharedPool.start node) shared) : ∃ chain, Apart shared chain none := by
  induction run with
  | refl => exact ⟨_, start_apart node⟩
  | tail _ step ih =>
      obtain ⟨chain, apart⟩ := ih
      obtain ⟨index, step⟩ := step
      obtain ⟨nextChain, nextApart, -⟩ := apart.step step
      exact ⟨nextChain, nextApart⟩

/-- A node lies on one chain only, and the pool counts its nodes modulo 2^32. -/
theorem Apart.counts {shared : SharedPool} {chain : Option Nat → List Ptr} (apart : Apart shared chain none) :
    (∀ pointer < shared.heap.brk, ∃! owner, pointer ∈ chain owner) ∧ 1 ≤ (chain none).length ∧
      ((chain none).length < 2 ^ 32 → shared.pool.len.toNat = (chain none).length) := by
  refine ⟨?_, ?_, ?_⟩
  · intro pointer below
    obtain ⟨owner, member⟩ := ((apart.placed pointer).mp below).resolve_right (by simp)
    exact ⟨owner, member, fun other held => apart.doubly.apart other owner pointer held member⟩
  · exact List.length_pos_of_mem (List.mem_of_head? apart.poolHead)
  · intro small
    rw [apart.len, BitVec.toNat_ofNat, Nat.mod_eq_of_lt small]

/-- In every run all nodes lie on doubly linked chains that the windows and the pool keep apart, and an operation on one
window leaves the other windows alone. -/
theorem run_separates {node : Ptr → WQNode} {shared : SharedPool}
    (run : Relation.ReflTransGen AnyStep (SharedPool.start node) shared) :
    ∃ chain, Apart shared chain none ∧ (∀ pointer < shared.heap.brk, ∃! owner, pointer ∈ chain owner) ∧
      1 ≤ (chain none).length ∧ ((chain none).length < 2 ^ 32 → shared.pool.len.toNat = (chain none).length) ∧
      (∀ (index : Nat) (next : SharedPool), NodeStep index shared next →
        ∃ nextChain, Apart next nextChain none ∧ Frame index shared chain next nextChain) ∧
      ∀ (index : Nat) (window : WQWindow), shared.windows[index]? = some window →
        ∃ next, altusWQNewNode (shared.view window) = .ok next ∧
          (next.heap.brk ≠ shared.heap.brk → (chain none).length = 1) := by
  obtain ⟨chain, apart⟩ := run_apart run
  obtain ⟨once, filled, exact⟩ := apart.counts
  refine ⟨chain, apart, once, filled, exact, fun index next step => apart.step step, ?_⟩
  intro index window here
  obtain ⟨next, nextChain, made, -, -, fresh⟩ := apart.newNode here
  exact ⟨next, made, fresh⟩

section Wrap

variable {shared : SharedPool} {chain : Option Nat → List Ptr}

/-- The only window ends at `safe_tail` and keeps some further nodes, and the pool recycled some. -/
structure Stands (shared : SharedPool) (chain : Option Nat → List Ptr) (window : WQWindow) (kept recycled : Nat) :
    Prop where
  apart : Apart shared chain none
  only : shared.windows = [window]
  safe : (chain (some 0)).getLast? = some window.safeTail
  kept : (chain (some 0)).length = kept + 1
  recycled : (chain none).length = recycled + 1

/-- A new node joins the window, and `safe_tail` moves to it. -/
theorem Stands.grow {window : WQWindow} {kept : Nat} (stands : Stands shared chain window kept 0) :
    ∃ next nextChain nextWindow, Relation.ReflTransGen AnyStep shared next ∧
      Stands next nextChain nextWindow (kept + 1) 0 := by
  have here : shared.windows[0]? = some window := by rw [stands.only]; rfl
  obtain ⟨newNode, middle, middleChain, took, taken⟩ := stands.apart.take window
  have stillHere : middle.windows[0]? = some window := by rw [taken.windows]; exact here
  obtain ⟨linked, -⟩ := taken.apart.link stillHere
  have made : altusWQNewNode (shared.view window) = .ok (linkNode newNode (middle.view window)) := by
    rw [altusWQNewNode, took]
  have only : middle.put 0 (linkNode newNode (middle.view window)) = shared.put 0 (linkNode newNode (middle.view window)) := by
    rw [SharedPool.put, SharedPool.put, taken.windows]
  rw [only, taken.chains 0] at linked
  have first : AnyStep shared (shared.put 0 (linkNode newNode (middle.view window))) := ⟨0, .newNode here made⟩
  have nextHere : (shared.put 0 (linkNode newNode (middle.view window))).windows[0]? =
      some (linkNode newNode (middle.view window)).window := by
    rw [SharedPool.put, stands.only]
    rfl
  have lastAt : (chain (some 0))[kept]? = some window.safeTail := by
    rw [← stands.safe, List.getLast?_eq_getElem?, stands.kept, Nat.add_sub_cancel]
  have link : ((linkNode newNode (middle.view window)).heap.node window.safeTail).toTail = some newNode := by
    have chained := linked.doubly.linked (some 0)
    rw [Function.update_self] at chained
    have following := chained.next_eq (show (chain (some 0) ++ [newNode])[kept]? = some window.safeTail by
      rw [List.getElem?_append_left (by rw [stands.kept]; omega)]; exact lastAt)
    rw [← stands.kept, List.getElem?_concat_length] at following
    exact following
  obtain ⟨advanced, -⟩ := linked.advance nextHere 0 0 link
  refine ⟨_, _, (advanceTo ((shared.put 0 (linkNode newNode (middle.view window))).view
    (linkNode newNode (middle.view window)).window) newNode 0 0).window,
    (Relation.ReflTransGen.single first).tail ⟨0, .advance 0 0 nextHere link⟩, advanced, ?_, ?_, ?_, ?_⟩
  · rw [SharedPool.put, SharedPool.put, stands.only]
    rfl
  · rw [Function.update_self, List.getLast?_concat]
    rfl
  · rw [Function.update_self, List.length_append, stands.kept, List.length_singleton]
  · rw [Function.update_of_ne (Option.some_ne_none _).symm, taken.single stands.recycled, stands.recycled]

/-- The head node of the window moves to the pool. -/
theorem Stands.shrink {window : WQWindow} {kept recycled : Nat}
    (stands : Stands shared chain window (kept + 1) recycled) :
    ∃ next nextChain nextWindow, AnyStep shared next ∧ Stands next nextChain nextWindow kept (recycled + 1) := by
  have here : shared.windows[0]? = some window := by rw [stands.only]; rfl
  have head := (stands.apart.windows 0 window here).1
  have safe := stands.safe
  have nodup := stands.apart.doubly.nodup (some 0)
  have several : window.head ≠ window.safeTail := by
    intro same
    rw [List.head?_eq_getElem?, same] at head
    rw [List.getLast?_eq_getElem?, stands.kept, Nat.add_sub_cancel] at safe
    have places := place_unique nodup head safe
    omega
  obtain ⟨next, second, rest, cells, popped, windowIs, apart, -⟩ := stands.apart.popNode_several here several
  refine ⟨_, _, next.window, ⟨0, .popNode here popped⟩, apart, ?_, ?_, ?_, ?_⟩
  · rw [SharedPool.put, stands.only]
    rfl
  · rw [cells, List.getLast?_cons_cons] at safe
    rw [Function.update_of_ne (Option.some_ne_none _), Function.update_self, windowIs]
    exact safe
  · have length := stands.kept
    rw [cells, List.length_cons] at length
    rw [Function.update_of_ne (Option.some_ne_none _), Function.update_self]
    omega
  · rw [Function.update_self, List.length_append, stands.recycled, List.length_singleton]

/-- Any number of nodes passes through one window into the pool. -/
theorem reach_stands (node : Ptr → WQNode) (kept recycled : Nat) : ∃ shared chain window,
    Relation.ReflTransGen AnyStep (SharedPool.start node) shared ∧ Stands shared chain window kept recycled := by
  induction recycled generalizing kept with
  | zero =>
      induction kept with
      | zero =>
          have apart := start_apart node
          obtain ⟨nextApart, -⟩ := apart.newWindow ⟨0, 0, 0, 0, 0, 0, 0, ⟨fun _ => 0, fun _ => 0, 0⟩, 0, 0⟩
          exact ⟨_, _, _, Relation.ReflTransGen.single ⟨0, .newWindow _ rfl⟩, nextApart, rfl, rfl, rfl, rfl⟩
      | succ kept ih =>
          obtain ⟨shared, chain, window, run, stands⟩ := ih
          obtain ⟨next, nextChain, nextWindow, more, nextStands⟩ := stands.grow
          exact ⟨next, nextChain, nextWindow, run.trans more, nextStands⟩
  | succ recycled ih =>
      obtain ⟨shared, chain, window, run, stands⟩ := ih (kept + 1)
      obtain ⟨next, nextChain, nextWindow, step, nextStands⟩ := stands.shrink
      exact ⟨next, nextChain, nextWindow, run.tail step, nextStands⟩

/-- The first of two windows releases its node 1 to the pool, and the second one takes node 0 out of it. -/
theorem run_separates_two : ∃ shared, shared.pool.recycledHead = 1 ∧ shared.pool.len = 1 ∧
    shared.windows.map (fun window => (window.head, window.unsafeTail)) = [(3, 3), (2, 0)] ∧
      ∃ chain, Apart shared chain none ∧ ∀ pointer < shared.heap.brk, ∃! owner, pointer ∈ chain owner := by
  let raw : WQWindow := ⟨0, 0, 0, 0, 0, 0, 0, ⟨fun _ => 0, fun _ => 0, 0⟩, 0, 0⟩
  have made := (Relation.ReflTransGen.single ⟨0, .newWindow raw rfl⟩ : Relation.ReflTransGen AnyStep
    (SharedPool.start fun _ => ⟨none, none, fun _ => 0, 0⟩) _).tail ⟨1, .newWindow raw rfl⟩
  have grown := (made.tail ⟨0, .newNode rfl rfl⟩).tail ⟨0, .advance 4096 4096 rfl rfl⟩
  have run := (grown.tail ⟨0, .popNode rfl rfl⟩).tail ⟨1, .newNode rfl rfl⟩
  obtain ⟨chain, apart, once, -⟩ := run_separates run
  exact ⟨_, by decide, by decide, by decide, chain, apart, once⟩

/-- After 2^32 nodes went to the pool its `len` is zero. -/
theorem pool_len_wraps : ∃ shared, Relation.ReflTransGen AnyStep
    (SharedPool.start fun _ => ⟨none, none, fun _ => 0, 0⟩) shared ∧ shared.pool.len = 0 := by
  obtain ⟨shared, chain, window, run, stands⟩ := reach_stands (fun _ => ⟨none, none, fun _ => 0, 0⟩) 0 (2 ^ 32 - 1)
  refine ⟨shared, run, ?_⟩
  rw [stands.apart.len, stands.recycled]
  rfl

end Wrap

end Altus.WindowedQueue
