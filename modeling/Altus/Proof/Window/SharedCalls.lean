import Altus.Proof.Window.Put
import Altus.Proof.Window.Sharing

namespace Altus.WindowedQueue

open Chain

section Chains

variable {shared : SharedPool} {chain : Option Nat → List Ptr} {index : Nat} {window : WQWindow}

/-- The chain of a window and the chain of the pool, as the window sees them. -/
theorem Apart.formed (apart : Apart shared chain none) (here : shared.windows[index]? = some window) {last : Nat}
    (safe : (chain (some index))[last]? = some window.safeTail) :
    Formed (shared.view window) (chain (some index)) (chain none) last := by
  obtain ⟨head, tail, -⟩ := apart.windows index window here
  have doubly := apart.doubly
  refine ⟨doubly.linked _, doubly.linked _, ?_, ?_, ?_, safe, tail, ?_, apart.poolTail⟩
  · refine List.nodup_append.mpr ⟨doubly.nodup _, doubly.nodup _, ?_⟩
    rintro pointer inWindow _ inPool rfl
    exact Option.some_ne_none _ (doubly.apart _ _ pointer inWindow inPool)
  · intro pointer member
    rcases List.mem_append.mp member with inWindow | inPool
    · exact apart.below inWindow
    · exact apart.below inPool
  · rw [← List.head?_eq_getElem?]
    exact head
  · rw [← List.head?_eq_getElem?]
    exact apart.poolHead

/-- The view of a window names the chain that the window owns. -/
theorem Apart.cells (apart : Apart shared chain none) (here : shared.windows[index]? = some window)
    {cells free : List Ptr}
    {last : Nat} (formed : Formed (shared.view window) cells free last) : cells = chain (some index) := by
  refine formed.cellsLinked.unique (apart.doubly.linked _) ?_
  rw [formed.head, ← List.head?_eq_getElem?]
  exact (apart.windows index window here).1.symm

end Chains

/-- A call on the window of an index has come to `state`. -/
structure Midway (index : Nat) (shared : SharedPool) (chain : Option Nat → List Ptr) (state : WQState)
    (stateChain : Option Nat → List Ptr) : Prop where
  inside : index < shared.windows.length
  apart : Apart (shared.put index state) stateChain none
  frame : Frame index shared chain (shared.put index state) stateChain

section Midway

variable {index : Nat} {shared : SharedPool} {chain stateChain : Option Nat → List Ptr} {state next : WQState}

theorem SharedPool.put_put (shared : SharedPool) (index : Nat) (first second : WQState) :
    (shared.put index first).put index second = shared.put index second := by
  rw [put, put, List.set_set]
  rfl

theorem SharedPool.put_here (shared : SharedPool) {index : Nat} (inside : index < shared.windows.length)
    (state : WQState) : (shared.put index state).windows[index]? = some state.window := List.getElem?_set_self inside

/-- A call starts where the window and its pool are. -/
theorem Apart.midway (apart : Apart shared chain none) {window : WQWindow}
    (here : shared.windows[index]? = some window) :
    Midway index shared chain (shared.view window) chain := by
  obtain ⟨inside, windowIs⟩ := List.getElem?_eq_some_iff.mp here
  have same : shared.put index (shared.view window) = shared := by
    rw [SharedPool.put, SharedPool.view]
    dsimp only
    rw [← windowIs, List.set_getElem_self]
  refine ⟨inside, by rw [same]; exact apart, ?_⟩
  rw [same]
  exact fun _ _ => ⟨rfl, rfl, fun _ _ => rfl⟩

theorem Midway.step (midway : Midway index shared chain state stateChain) {nextChain : Option Nat → List Ptr}
    (apart : Apart ((shared.put index state).put index next) nextChain none)
    (frame : Frame index (shared.put index state) stateChain ((shared.put index state).put index next) nextChain) :
    Midway index shared chain next nextChain := by
  rw [SharedPool.put_put] at apart frame
  exact ⟨midway.inside, apart, midway.frame.trans frame⟩

/-- The node behind a node of the window belongs to the window. -/
theorem Midway.follow (midway : Midway index shared chain state stateChain) {pointer following : Ptr}
    (member : pointer ∈ stateChain (some index)) (link : (state.heap.node pointer).toTail = some following) :
    following ∈ stateChain (some index) := by
  obtain ⟨place, found⟩ := List.mem_iff_getElem?.mp member
  have next := (midway.apart.doubly.linked (some index)).next_eq found
  exact List.mem_of_getElem? (next.symm.trans link)

theorem Midway.safe (midway : Midway index shared chain state stateChain) :
    state.window.safeTail ∈ stateChain (some index) :=
  (midway.apart.windows index _ (shared.put_here midway.inside state)).2.2

/-- A node of the window changes what is not a link, and the window what is not a pointer. -/
theorem Midway.touch (midway : Midway index shared chain state stateChain) {pointer : Ptr}
    (member : pointer ∈ stateChain (some index)) (change : WQNode → WQNode) {window : WQWindow}
    (keepsTail : ∀ node, (change node).toTail = node.toTail) (keepsHead : ∀ node, (change node).toHead = node.toHead)
    (sameHead : window.head = state.window.head) (sameSafe : window.safeTail = state.window.safeTail)
    (sameUnsafe : window.unsafeTail = state.window.unsafeTail) :
    Midway index shared chain ⟨state.heap.modify pointer change, state.pool, window⟩ stateChain := by
  have here := shared.put_here midway.inside state
  obtain ⟨head, tail, safe⟩ := midway.apart.windows index _ here
  have sameChain : Function.update stateChain (some index) (stateChain (some index)) = stateChain :=
    Function.update_eq_self _ _
  have sameLinks : links (state.heap.modify pointer change) = links state.heap := links_modify _ _ _ keepsTail
  have sameBack : backLinks (state.heap.modify pointer change) = backLinks state.heap := by
    funext other
    exact WQHeap.modify_keeps WQNode.toHead _ _ _ keepsHead _
  have kept := @Apart.setWindow (shared.put index state) stateChain none midway.apart index _ window here
    (state.heap.modify pointer change) (stateChain (some index)) none
    (by rw [sameChain, sameLinks, sameBack]; exact midway.apart.doubly) (by simp) rfl (fun _ => Iff.rfl)
    (by rw [sameHead]; exact head) (by rw [sameUnsafe]; exact tail) (by rw [sameSafe]; exact safe)
  rw [sameChain] at kept
  refine midway.step kept ?_
  intro other different
  have apartIndex : some other ≠ some index := fun same => different (Option.some.inj same)
  refine ⟨List.getElem?_set_ne (Ne.symm different), rfl, ?_⟩
  intro cell inOther
  exact WQHeap.modify_node_of_ne _ _ (midway.apart.ne_of_mem member apartIndex inOther)

/-- The window changes what is not a pointer. -/
theorem Midway.setWindow (midway : Midway index shared chain state stateChain) {window : WQWindow}
    (sameHead : window.head = state.window.head) (sameSafe : window.safeTail = state.window.safeTail)
    (sameUnsafe : window.unsafeTail = state.window.unsafeTail) :
    Midway index shared chain { state with window := window } stateChain := by
  have touched := midway.touch midway.safe id (fun _ => rfl) (fun _ => rfl) sameHead sameSafe sameUnsafe
  have same : state.heap.modify state.window.safeTail id = state.heap := by
    rw [WQHeap.modify, id, Function.update_eq_self]
  rwa [same] at touched

/-- `altusWQNewNode` completes and gives the window one node more. -/
theorem Midway.newNode (midway : Midway index shared chain state stateChain) :
    ∃ next nextChain, altusWQNewNode state = .ok next ∧ Midway index shared chain next nextChain ∧
      ∀ pointer ∈ stateChain (some index), pointer ∈ nextChain (some index) := by
  have here := shared.put_here midway.inside state
  obtain ⟨newNode, middle, middleChain, took, taken⟩ := midway.apart.take state.window
  have stillHere : middle.windows[index]? = some state.window := by rw [taken.windows]; exact here
  obtain ⟨nextApart, frame⟩ := taken.apart.link stillHere
  have putIs : middle.put index (linkNode newNode (middle.view state.window)) =
      (shared.put index state).put index (linkNode newNode (middle.view state.window)) := by
    rw [SharedPool.put, SharedPool.put, taken.windows]
  rw [putIs] at nextApart frame
  have first : Frame index (shared.put index state) stateChain middle middleChain := by
    intro other _
    exact ⟨by rw [taken.windows], taken.chains other, taken.nodes other⟩
  refine ⟨_, _, ?_, midway.step nextApart (first.trans frame), ?_⟩
  · show altusWQNewNode ((shared.put index state).view state.window) = _
    rw [altusWQNewNode, took]
  · intro pointer member
    rw [Function.update_self, taken.chains index]
    exact List.mem_append_left _ member

theorem Midway.popNode (midway : Midway index shared chain state stateChain) {code : Int}
    (returned : altusWQPopNode state = .ok (code, next)) : ∃ nextChain, Midway index shared chain next nextChain := by
  obtain ⟨other, final, nextChain, popped, apart, frame⟩ := midway.apart.popNode (shared.put_here midway.inside state)
  rw [show (shared.put index state).view state.window = state from rfl, returned] at popped
  obtain ⟨-, rfl⟩ := Prod.mk.inj (Except.ok.inj popped)
  exact ⟨nextChain, midway.step apart frame⟩

theorem Midway.advance (midway : Midway index shared chain state stateChain) {following : Ptr} (count lastSeq : U32)
    (link : (state.heap.node state.window.safeTail).toTail = some following) :
    Midway index shared chain (advanceTo state following count lastSeq) stateChain := by
  obtain ⟨apart, frame⟩ := midway.apart.advance (shared.put_here midway.inside state) count lastSeq link
  exact midway.step apart frame

end Midway

section Calls

variable {index : Nat} {shared : SharedPool} {chain : Option Nat → List Ptr}

/-- The copy loop stays in the nodes of its window. -/
theorem Midway.copyLoop {length : U32} {data : Bytes.Memory} (rounds : Nat) : ∀ {state final : WQState}
    {stateChain : Option Nat → List Ptr} {current : Option Ptr} {currentNodeSeq leftSeq leftLen : U32}
    {copies : List Copy}, Midway index shared chain state stateChain →
    (∀ pointer, current = some pointer → pointer ∈ stateChain (some index)) →
    WindowedQueue.copyLoop length data rounds state current currentNodeSeq leftSeq leftLen = .ok (copies, final) →
    ∃ finalChain, Midway index shared chain final finalChain := by
  induction rounds with
  | zero =>
      intro state final stateChain current currentNodeSeq leftSeq leftLen copies midway own looped
      cases looped
  | succ rounds ih =>
      intro state final stateChain current currentNodeSeq leftSeq leftLen copies midway own looped
      rw [WindowedQueue.copyLoop.eq_def] at looped
      dsimp only at looped
      split at looped
      · obtain ⟨-, rfl⟩ := Prod.mk.inj (Except.ok.inj looped)
        exact ⟨stateChain, midway⟩
      split at looped
      · cases looped
      rename_i pointer
      have member := own pointer rfl
      split at looped
      · -- The block starts behind this node.
        split at looped
        · cases looped
        rename_i middle made
        split at made
        · obtain ⟨next, nextChain, newNode, nextMidway, kept⟩ := midway.newNode
          obtain rfl := Except.ok.inj (newNode.symm.trans made)
          exact ih nextMidway (fun following link => nextMidway.follow (kept pointer member) link) looped
        · obtain rfl := Except.ok.inj made
          exact ih midway (fun following link => midway.follow member link) looped
      · split at looped
        · cases looped
        rename_i afterCopy copied
        split at looped
        · cases looped
        rename_i later
        obtain ⟨-, rfl⟩ := Prod.mk.inj (Except.ok.inj looped)
        obtain ⟨-, rfl⟩ := copyInto_ok copied
        generalize (if leftLen < currentNodeSeq + nodeSpan - leftSeq then leftLen
          else currentNodeSeq + nodeSpan - leftSeq) = writelen at later
        have written := midway.touch member (fun node => { node with
          data := Bytes.memcpy node.data (BitVec.setWidth 16 (leftSeq - currentNodeSeq)).toNat
            (Bytes.shift data (length - leftLen).toNat) writelen.toNat }) (fun _ => rfl) (fun _ => rfl) rfl rfl rfl
        split at later
        · split at later
          · cases later
          rename_i made
          obtain ⟨next, nextChain, newNode, nextMidway, kept⟩ := written.newNode
          obtain rfl := Except.ok.inj (newNode.symm.trans made)
          exact ih nextMidway (fun following link => nextMidway.follow (kept pointer member) link) later
        · exact ih written (fun other same => by obtain rfl := Option.some.inj same; exact member) later

/-- The advance of `safe_tail` stays in the nodes of its window. -/
theorem Midway.advanceLoop {newSeq : U32} (rounds : Nat) : ∀ {state final : WQState}
    {stateChain : Option Nat → List Ptr}, Midway index shared chain state stateChain →
    WindowedQueue.advanceLoop newSeq rounds state = .ok final →
    ∃ finalChain, Midway index shared chain final finalChain := by
  induction rounds with
  | zero =>
      intro state final stateChain midway looped
      cases looped
  | succ rounds ih =>
      intro state final stateChain midway looped
      have sameLink (count : U32) :
          ((state.heap.modify state.window.safeTail fun node => { node with validBlockCount := count }).node
            state.window.safeTail).toTail = (state.heap.node state.window.safeTail).toTail := by
        rw [WQHeap.modify_node_self]
      rw [WindowedQueue.advanceLoop] at looped
      dsimp only at looped
      split at looped
      · split at looped
        · cases looped
        rename_i following link
        rw [sameLink] at link
        exact ih (midway.advance _ _ link) looped
      split at looped
      · split at looped
        · cases looped
        rename_i following link
        rw [sameLink] at link
        obtain rfl := Except.ok.inj looped
        exact ⟨stateChain, midway.advance _ state.window.lastSeq link⟩
      · obtain rfl := Except.ok.inj looped
        exact ⟨stateChain, midway.touch midway.safe _ (fun _ => rfl) (fun _ => rfl) rfl rfl rfl⟩

theorem Midway.absorb {state final : WQState} {stateChain : Option Nat → List Ptr}
    (midway : Midway index shared chain state stateChain) (absorbed : WindowedQueue.absorb state = .ok final) :
    ∃ finalChain, Midway index shared chain final finalChain := by
  rw [WindowedQueue.absorb] at absorbed
  split at absorbed
  · dsimp only at absorbed
    split at absorbed
    · cases absorbed
    rename_i advanced looped
    obtain rfl := Except.ok.inj absorbed
    obtain ⟨finalChain, kept⟩ := midway.advanceLoop _ looped
    exact ⟨finalChain, kept.setWindow rfl rfl rfl⟩
  · obtain rfl := Except.ok.inj absorbed
    exact ⟨stateChain, midway⟩

/-- `altusWQPut` stays in the nodes of its window and of the pool. -/
theorem Midway.put {state final : WQState} {stateChain : Option Nat → List Ptr}
    (midway : Midway index shared chain state stateChain) {seq length : U32} {data : Bytes.Memory} {code : Int}
    {copies : List Copy} (returned : altusWQPut state seq length data = .ok (code, copies, final)) :
    ∃ finalChain, Midway index shared chain final finalChain := by
  rw [altusWQPut_eq] at returned
  split at returned
  · have listed : Midway index shared chain (listBlock state seq length) stateChain := midway.setWindow rfl rfl rfl
    rw [deliver] at returned
    split at returned
    · cases returned
    rename_i moves middle looped
    obtain ⟨middleChain, copied⟩ := listed.copyLoop _
      (fun pointer same => by obtain rfl := Option.some.inj same; exact listed.safe) looped
    split at returned
    · cases returned
    rename_i absorbed
    obtain ⟨-, rest⟩ := Prod.mk.inj (Except.ok.inj returned)
    obtain ⟨-, rfl⟩ := Prod.mk.inj rest
    exact copied.absorb absorbed
  · obtain ⟨-, rest⟩ := Prod.mk.inj (Except.ok.inj returned)
    obtain ⟨-, rfl⟩ := Prod.mk.inj rest
    exact ⟨stateChain, midway⟩

/-- `altusWQPop` only moves nodes of its window to the pool. -/
theorem Midway.popLoop {length : Int} (rounds : Nat) : ∀ {state final : WQState} {stateChain : Option Nat → List Ptr}
    {current : Ptr} {leftLen taken : Int} {dest filled : Option Bytes.Memory},
    Midway index shared chain state stateChain →
    WindowedQueue.popLoop length rounds state current leftLen dest = .ok (taken, filled, final) →
    ∃ finalChain, Midway index shared chain final finalChain := by
  induction rounds with
  | zero =>
      intro state final stateChain current leftLen taken dest filled midway looped
      cases looped
  | succ rounds ih =>
      intro state final stateChain current leftLen taken dest filled midway looped
      have returns {left : Int} {memory : Option Bytes.Memory} {other : WQState}
          (same : (Except.ok (left, memory, other) : Except Fault (Int × Option Bytes.Memory × WQState)) =
            .ok (taken, filled, final)) : other = final :=
        (Prod.mk.inj (Prod.mk.inj (Except.ok.inj same)).2).2
      have moved (offset : U32) : Midway index shared chain
          { state with window := { state.window with headDataOffset := offset } } stateChain :=
        midway.setWindow rfl rfl rfl
      rw [WindowedQueue.popLoop] at looped
      dsimp only at looped
      generalize (if leftLen < ((state.heap.node current).validBlockCount - state.window.headDataOffset).toInt then leftLen
        else ((state.heap.node current).validBlockCount - state.window.headDataOffset).toInt) = writelen at looped
      split at looped
      · exact ⟨stateChain, returns looped ▸ midway⟩
      split at looped
      · exact ⟨stateChain, returns looped ▸ midway⟩
      split at looped
      · cases looped
      split at looped
      · -- The head node is read in full.
        split at looped
        · cases looped
        rename_i code next popped
        obtain ⟨nextChain, kept⟩ := (moved _).popNode popped
        have reset : Midway index shared chain { next with window := { next.window with headDataOffset := 0 } } nextChain :=
          kept.setWindow rfl rfl rfl
        split at looped
        · cases looped
        split at looped
        · exact ⟨nextChain, returns looped ▸ reset⟩
        · exact ih reset looped
      split at looped
      · split at looped
        · cases looped
        rename_i popped
        obtain ⟨nextChain, kept⟩ := (moved _).popNode popped
        exact ⟨nextChain, returns looped ▸ kept⟩
      · exact ih (moved _) looped

theorem Midway.pop {state final : WQState} {stateChain : Option Nat → List Ptr}
    (midway : Midway index shared chain state stateChain) {length taken : Int} {dest filled : Option Bytes.Memory}
    (returned : altusWQPop state length dest = .ok (taken, filled, final)) :
    ∃ finalChain, Midway index shared chain final finalChain := midway.popLoop _ returned

/-- `altusWQSanitize` changes no node. -/
theorem Midway.sanitize {state final : WQState} {stateChain : Option Nat → List Ptr}
    (midway : Midway index shared chain state stateChain) {code : Int}
    (returned : altusWQSanitize state = .ok (code, final)) : Midway index shared chain final stateChain := by
  rw [altusWQSanitize, recalculateWinLen] at returned
  dsimp only at returned
  generalize recalculateLoop _ _ _ _ _ _ _ = counted at returned
  cases counted with
  | error fault => cases returned
  | ok answer =>
      have answered := Except.ok.inj returned
      dsimp only at answered
      have sanitized : Midway index shared chain { state with window := { state.window with
          safeLen := answer.2, unsafeLen := BitVec.ofInt 32 answer.1 } } stateChain := midway.setWindow rfl rfl rfl
      split_ifs at answered <;> exact (Prod.mk.inj answered).2 ▸ sanitized

end Calls

end Altus.WindowedQueue
