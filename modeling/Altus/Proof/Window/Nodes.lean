import Altus.Library.Chain
import Altus.Construction.WindowedQueue

namespace Altus

open Bytes Chain

@[simp] theorem WQHeap.modify_node_self (heap : WQHeap) (pointer : Ptr) (change : WQNode → WQNode) :
    (heap.modify pointer change).node pointer = change (heap.node pointer) := by
  simp [modify]

theorem WQHeap.modify_node_of_ne (heap : WQHeap) {pointer other : Ptr} (change : WQNode → WQNode)
    (different : other ≠ pointer) : (heap.modify pointer change).node other = heap.node other := by
  simp [modify, Function.update_of_ne different]

/-- A change that keeps one field keeps it in every node. -/
theorem WQHeap.modify_keeps {β : Type} (field : WQNode → β) (heap : WQHeap) (pointer : Ptr)
    (change : WQNode → WQNode) (keeps : ∀ node, field (change node) = field node) (other : Ptr) :
    field ((heap.modify pointer change).node other) = field (heap.node other) := by
  by_cases same : other = pointer
  · subst same
    rw [modify_node_self, keeps]
  · rw [modify_node_of_ne heap change same]

namespace WindowedQueue

/-- The `to_tail` links of a heap. -/
def links (heap : WQHeap) : Ptr → Option Ptr := fun pointer => (heap.node pointer).toTail

/-- `cells` is the node chain of the window and `free` the chain of the pool. -/
structure Formed (state : WQState) (cells free : List Ptr) (last : Nat) : Prop where
  cellsLinked : Linked (links state.heap) cells
  freeLinked : Linked (links state.heap) free
  distinct : (cells ++ free).Nodup
  allocated : ∀ pointer ∈ cells ++ free, pointer < state.heap.brk
  head : cells[0]? = some state.window.head
  safe : cells[last]? = some state.window.safeTail
  unsafeEnd : cells.getLast? = some state.window.unsafeTail
  freeHead : free[0]? = some state.pool.recycledHead
  freeEnd : free.getLast? = some state.pool.recycledTail

/-- Two heaps hold the same bytes and counts in every node. -/
def SameContent (first second : WQHeap) : Prop :=
  ∀ pointer, (second.node pointer).data = (first.node pointer).data ∧
    (second.node pointer).validBlockCount = (first.node pointer).validBlockCount

theorem SameContent.trans {first second third : WQHeap} (left : SameContent first second)
    (right : SameContent second third) : SameContent first third := fun pointer =>
  ⟨(right pointer).1.trans (left pointer).1, (right pointer).2.trans (left pointer).2⟩

theorem sameContent_modify (heap : WQHeap) (pointer : Ptr) (change : WQNode → WQNode)
    (keepsData : ∀ node, (change node).data = node.data)
    (keepsCount : ∀ node, (change node).validBlockCount = node.validBlockCount) :
    SameContent heap (heap.modify pointer change) := fun other =>
  ⟨heap.modify_keeps WQNode.data pointer change keepsData other,
    heap.modify_keeps WQNode.validBlockCount pointer change keepsCount other⟩

/-- A change that keeps the links of a heap keeps its chains. -/
theorem Formed.of_links {state : WQState} {cells free : List Ptr} {last : Nat}
    (formed : Formed state cells free last) {heap : WQHeap}
    (sameLinks : links heap = links state.heap) (sameBrk : heap.brk = state.heap.brk) :
    Formed { state with heap := heap } cells free last where
  cellsLinked := by rw [sameLinks]; exact formed.cellsLinked
  freeLinked := by rw [sameLinks]; exact formed.freeLinked
  distinct := formed.distinct
  allocated := by simpa only [sameBrk] using formed.allocated
  head := formed.head
  safe := formed.safe
  unsafeEnd := formed.unsafeEnd
  freeHead := formed.freeHead
  freeEnd := formed.freeEnd

theorem links_modify (heap : WQHeap) (pointer : Ptr) (change : WQNode → WQNode)
    (keeps : ∀ node, (change node).toTail = node.toTail) : links (heap.modify pointer change) = links heap := by
  funext other
  exact heap.modify_keeps WQNode.toTail pointer change keeps other

/-- The node that `takeNode` returns is on no chain afterwards. -/
theorem takeNode_spec {state : WQState} {cells free : List Ptr} {last : Nat}
    (formed : Formed state cells free last) :
    ∃ newNode next nextFree, takeNode state = .ok (newNode, next) ∧ Formed next cells nextFree last ∧
      newNode ∉ cells ++ nextFree ∧ newNode < next.heap.brk ∧ SameContent state.heap next.heap ∧
      next.window = state.window := by
  have distinct := formed.distinct
  obtain ⟨first, rest, rfl⟩ : ∃ first rest, free = first :: rest := by
    have head := formed.freeHead
    cases free with
    | nil => simp at head
    | cons first rest => exact ⟨first, rest, rfl⟩
  have firstIs : first = state.pool.recycledHead := by simpa using formed.freeHead
  have endIs := formed.freeEnd
  cases rest with
  | nil =>
      have single : state.pool.recycledHead = state.pool.recycledTail := by
        rw [← firstIs]
        simpa using endIs
      have took : takeNode state = .ok (state.heap.brk,
          { state with heap := { state.heap with brk := state.heap.brk + 1 } }) := if_pos single
      refine ⟨_, _, [first], took, ?_, ?_, ?_, fun _ => ⟨rfl, rfl⟩, rfl⟩
      · exact { formed with
          allocated := fun pointer member => Nat.lt_succ_of_lt (formed.allocated pointer member) }
      · intro member
        exact Nat.lt_irrefl _ (formed.allocated _ member)
      · exact Nat.lt_succ_self _
  | cons second rest =>
      have different : state.pool.recycledHead ≠ state.pool.recycledTail := by
        intro same
        have tailMember : state.pool.recycledTail ∈ second :: rest := by
          apply List.mem_of_getLast?
          rwa [List.getLast?_cons_cons] at endIs
        have separate := (List.nodup_append.mp distinct).2.1
        rw [List.nodup_cons, firstIs, same] at separate
        exact separate.1 tailMember
      have link : (state.heap.node state.pool.recycledHead).toTail = some second :=
        formed.freeLinked.next_eq formed.freeHead
      have took : takeNode state = .ok (state.pool.recycledHead,
          { state with
            heap := state.heap.modify second fun node => { node with toHead := none }
            pool := { state.pool with recycledHead := second, len := state.pool.len - 1 } }) := by
        rw [takeNode, if_neg different, link]
      refine ⟨_, _, second :: rest, took, ?_, ?_, ?_, ?_, rfl⟩
      · have sameLinks := links_modify state.heap second (fun node => { node with toHead := none })
          fun _ => rfl
        have reduced : (cells ++ second :: rest).Sublist (cells ++ first :: second :: rest) :=
          List.Sublist.append_left (List.sublist_cons_self ..) cells
        refine ⟨?_, ?_, distinct.sublist reduced, ?_, formed.head, formed.safe, formed.unsafeEnd, rfl, ?_⟩
        · rw [sameLinks]
          exact formed.cellsLinked
        · rw [sameLinks]
          exact formed.freeLinked.tail
        · intro pointer member
          exact formed.allocated pointer (reduced.subset member)
        · rwa [List.getLast?_cons_cons] at endIs
      · rw [← firstIs]
        have moved := (@List.nodup_middle _ first cells (second :: rest)).mp distinct
        exact (List.nodup_cons.mp moved).1
      · rw [← firstIs]
        exact formed.allocated first (by simp)
      · exact sameContent_modify state.heap second (fun node => { node with toHead := none })
          (fun _ => rfl) fun _ => rfl

theorem linkNode_content (newNode : Ptr) (state : WQState) :
    SameContent state.heap (linkNode newNode state).heap := by
  have linked := sameContent_modify state.heap newNode
    (fun node => { node with toTail := none, toHead := some state.window.unsafeTail })
    (fun _ => rfl) fun _ => rfl
  exact linked.trans (sameContent_modify _ state.window.unsafeTail
    (fun node => { node with toTail := some newNode }) (fun _ => rfl) fun _ => rfl)

/-- `altusWQNewNode` adds one node behind the chain. -/
theorem altusWQNewNode_spec {state : WQState} {cells free : List Ptr} {last : Nat}
    (formed : Formed state cells free last) :
    ∃ newNode next nextFree, altusWQNewNode state = .ok next ∧
      Formed next (cells ++ [newNode]) nextFree last ∧ SameContent state.heap next.heap ∧
      next.window = { state.window with
        unsafeTail := newNode, unsafeLen := state.window.unsafeLen + 1 } := by
  obtain ⟨newNode, taken, nextFree, took, kept, fresh, allocated, content, sameWindow⟩ := takeNode_spec formed
  refine ⟨newNode, linkNode newNode taken, nextFree, by rw [altusWQNewNode, took], ?_, ?_, ?_⟩
  · have unsafeMember : taken.window.unsafeTail ∈ cells := List.mem_of_getLast? kept.unsafeEnd
    have outside : newNode ∉ cells := fun member => fresh (by simp [member])
    have notFree : newNode ∉ nextFree := fun member => fresh (by simp [member])
    have different : newNode ≠ taken.window.unsafeTail := fun same => outside (same ▸ unsafeMember)
    have chains := List.nodup_append.mp kept.distinct
    have linkNew : links (linkNode newNode taken).heap newNode = none := by
      simp [links, linkNode, WQHeap.modify_node_of_ne _ _ different]
    have linkEnd : links (linkNode newNode taken).heap taken.window.unsafeTail = some newNode := by
      simp [links, linkNode]
    have linkOther (other : Ptr) (notNew : other ≠ newNode) (notEnd : other ≠ taken.window.unsafeTail) :
        links (linkNode newNode taken).heap other = links taken.heap other := by
      simp [links, linkNode, WQHeap.modify_node_of_ne _ _ notNew, WQHeap.modify_node_of_ne _ _ notEnd]
    refine ⟨?_, ?_, ?_, ?_, ?_, ?_, by simp [linkNode], kept.freeHead, kept.freeEnd⟩
    · apply kept.cellsLinked.append chains.1 kept.unsafeEnd linkEnd linkNew
      intro cell member notEnd
      exact linkOther cell (fun same => outside (same ▸ member)) notEnd
    · apply kept.freeLinked.congr
      intro cell member
      exact linkOther cell (fun same => notFree (same ▸ member))
        (fun same => chains.2.2 _ unsafeMember _ member same.symm)
    · rw [List.append_assoc, List.singleton_append, List.nodup_middle, List.nodup_cons]
      exact ⟨fresh, kept.distinct⟩
    · intro pointer member
      rw [List.append_assoc, List.singleton_append] at member
      have cases : pointer = newNode ∨ pointer ∈ cells ++ nextFree := by
        simp only [List.mem_append, List.mem_cons] at member ⊢
        tauto
      rcases cases with rfl | old
      · exact allocated
      · exact kept.allocated pointer old
    · have positive : 0 < cells.length := List.length_pos_of_mem unsafeMember
      rw [List.getElem?_append_left positive]
      exact kept.head
    · have inside := (List.getElem?_eq_some_iff.mp kept.safe).1
      rw [List.getElem?_append_left inside]
      exact kept.safe
  · exact content.trans (linkNode_content newNode taken)
  · simp [linkNode, sameWindow]

/-- The single node of a chain stays in the window. -/
theorem altusWQPopNode_single {state : WQState} (single : state.window.head = state.window.safeTail) :
    altusWQPopNode state = .ok (-1, { state with window := { state.window with safeLen := 1 } }) :=
  if_pos single

/-- `altusWQPopNode` moves the first of several nodes to the end of the pool. -/
theorem altusWQPopNode_spec {state : WQState} {first : Ptr} {rest free : List Ptr} {last : Nat}
    (formed : Formed state (first :: rest) free (last + 1)) :
    ∃ next head, altusWQPopNode state = .ok (0, next) ∧ Formed next rest (free ++ [first]) last ∧
      SameContent state.heap next.heap ∧ next.window = { state.window with
        head := head, safeLen := state.window.safeLen - 1 } := by
  have headIs : first = state.window.head := by simpa using formed.head
  have distinct := formed.distinct
  have safeRest : rest[last]? = some state.window.safeTail := by simpa using formed.safe
  have positive : rest ≠ [] := by rintro rfl; simp at safeRest
  obtain ⟨head, tail, rfl⟩ := List.exists_cons_of_ne_nil positive
  have separate := List.nodup_cons.mp (by simpa using distinct : (first :: ((head :: tail) ++ free)).Nodup)
  have different : state.window.head ≠ state.window.safeTail := by
    intro same
    apply separate.1
    rw [headIs, same]
    exact List.mem_append_left _ (List.mem_of_getElem? safeRest)
  have link : (state.heap.node state.window.head).toTail = some head :=
    formed.cellsLinked.next_eq formed.head
  let cut := state.heap.modify head fun node => { node with toHead := none }
  let detached := cut.modify state.window.head fun node =>
    { node with toTail := none, toHead := some state.pool.recycledTail }
  let joined := detached.modify state.pool.recycledTail fun node => { node with toTail := some state.window.head }
  have popped : altusWQPopNode state = .ok (0,
      { heap := joined
        pool := { state.pool with recycledTail := state.window.head, len := state.pool.len + 1 }
        window := { state.window with head := head, safeLen := state.window.safeLen - 1 } }) := by
    rw [altusWQPopNode]
    simp only [if_neg different, link]
    rfl
  have tailMember : state.pool.recycledTail ∈ free := List.mem_of_getLast? formed.freeEnd
  have headOutside : state.window.head ∉ (head :: tail) ++ free := headIs ▸ separate.1
  have tailDifferent : state.window.head ≠ state.pool.recycledTail := fun same =>
    headOutside (by rw [same]; exact List.mem_append_right _ tailMember)
  have linkHead : links joined state.window.head = none := by
    simp [links, joined, detached, WQHeap.modify_node_of_ne _ _ tailDifferent]
  have linkTail : links joined state.pool.recycledTail = some state.window.head := by
    simp [links, joined]
  have linkOther (other : Ptr) (notHead : other ≠ state.window.head)
      (notTail : other ≠ state.pool.recycledTail) : links joined other = links state.heap other := by
    have kept := congrFun (links_modify state.heap head (fun node => { node with toHead := none })
      fun _ => rfl) other
    simpa [links, joined, detached, WQHeap.modify_node_of_ne _ _ notHead,
      WQHeap.modify_node_of_ne _ _ notTail] using kept
  have cutContent : SameContent state.heap cut := sameContent_modify _ _ _ (fun _ => rfl) fun _ => rfl
  have detachedContent : SameContent cut detached := sameContent_modify _ _ _ (fun _ => rfl) fun _ => rfl
  have joinedContent : SameContent detached joined := sameContent_modify _ _ _ (fun _ => rfl) fun _ => rfl
  have chains := List.nodup_append.mp separate.2
  refine ⟨_, head, popped, ⟨?_, ?_, ?_, ?_, rfl, safeRest, ?_, ?_, by simp [headIs]⟩,
    cutContent.trans (detachedContent.trans joinedContent), rfl⟩
  · apply formed.cellsLinked.tail.congr
    intro cell member
    exact linkOther cell (fun same => headOutside (same ▸ List.mem_append_left _ member))
      (fun same => chains.2.2 cell member _ tailMember same)
  · rw [headIs]
    apply formed.freeLinked.append chains.2.1 formed.freeEnd linkTail linkHead
    intro cell member notTail
    exact linkOther cell (fun same => headOutside (same ▸ List.mem_append_right _ member)) notTail
  · rw [← List.append_assoc, List.nodup_append_comm]
    simpa using distinct
  · intro pointer member
    apply formed.allocated pointer
    simp only [List.mem_append, List.mem_cons] at member ⊢
    tauto
  · have ends := formed.unsafeEnd
    rwa [List.getLast?_cons_cons] at ends
  · have free0 := formed.freeHead
    rwa [List.getElem?_append_left (List.length_pos_of_mem tailMember)]

end WindowedQueue

end Altus
