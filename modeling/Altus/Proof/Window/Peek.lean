import Altus.Proof.Window.Fifo

namespace Altus.WindowedQueue

open Bytes Chain Runs UBList

section HeadSeq

variable {state next : WQState}

theorem altusWQNewNode_headSeq (made : altusWQNewNode state = .ok next) :
    next.window.headSeq = state.window.headSeq := by
  have taken {node : Ptr} {middle : WQState} (took : takeNode state = .ok (node, middle)) :
      middle.window = state.window := by
    rw [takeNode] at took
    split at took
    · obtain ⟨-, rfl⟩ := Prod.mk.inj (Except.ok.inj took)
      rfl
    · split at took
      · cases took
      · obtain ⟨-, rfl⟩ := Prod.mk.inj (Except.ok.inj took)
        rfl
  rw [altusWQNewNode] at made
  split at made
  · cases made
  · rename_i took
    obtain rfl := Except.ok.inj made
    have same := taken took
    simp only [linkNode, same]

theorem copyLoop_headSeq {length : U32} {data : Memory} (rounds : Nat) :
    ∀ {state next : WQState} {currentNode : Option Ptr} {currentNodeSeq leftSeq leftLen : U32}
      {copies : List Copy},
      copyLoop length data rounds state currentNode currentNodeSeq leftSeq leftLen = .ok (copies, next) →
      next.window.headSeq = state.window.headSeq := by
  induction rounds with
  | zero =>
      intro state next currentNode currentNodeSeq leftSeq leftLen copies looped
      cases looped
  | succ rounds ih =>
      intro state next currentNode currentNodeSeq leftSeq leftLen copies looped
      rw [copyLoop.eq_def] at looped
      dsimp only at looped
      split at looped
      · obtain ⟨-, rfl⟩ := Prod.mk.inj (Except.ok.inj looped)
        rfl
      split at looped
      · cases looped
      split at looped
      · split at looped
        · cases looped
        · rename_i middle grown
          have same : middle.window.headSeq = state.window.headSeq := by
            split at grown
            · exact altusWQNewNode_headSeq grown
            · rw [Except.ok.inj grown]
          exact (ih looped).trans same
      · generalize (if leftLen < currentNodeSeq + nodeSpan - leftSeq then leftLen
          else currentNodeSeq + nodeSpan - leftSeq) = writelen at looped
        split at looped
        · cases looped
        rename_i written copied
        obtain ⟨-, rfl⟩ := copyInto_ok copied
        split at looped
        · cases looped
        · rename_i went
          obtain ⟨-, rfl⟩ := Prod.mk.inj (Except.ok.inj looped)
          split at went
          · split at went
            · cases went
            · rename_i grown
              have same := altusWQNewNode_headSeq grown
              exact (ih went).trans same
          · have same := ih went
            exact same

theorem advanceLoop_headSeq {newSeq : U32} (rounds : Nat) : ∀ {state next : WQState},
    advanceLoop newSeq rounds state = .ok next → next.window.headSeq = state.window.headSeq := by
  induction rounds with
  | zero =>
      intro state next advanced
      cases advanced
  | succ rounds ih =>
      intro state next advanced
      rw [advanceLoop] at advanced
      dsimp only at advanced
      split at advanced
      · split at advanced
        · cases advanced
        · have same := ih advanced
          exact same
      · split at advanced
        · split at advanced
          · cases advanced
          · obtain rfl := Except.ok.inj advanced
            rfl
        · obtain rfl := Except.ok.inj advanced
          rfl

theorem absorb_headSeq (absorbed : absorb state = .ok next) : next.window.headSeq = state.window.headSeq := by
  rw [absorb] at absorbed
  split at absorbed
  · dsimp only at absorbed
    split at absorbed
    · cases absorbed
    · rename_i advanced
      obtain rfl := Except.ok.inj absorbed
      have same := advanceLoop_headSeq _ advanced
      exact same
  · obtain rfl := Except.ok.inj absorbed
    rfl

/-- `altusWQPut` never moves `headSeq`. -/
theorem altusWQPut_headSeq {seq length : U32} {data : Memory} {code : Int} {copies : List Copy}
    (returned : altusWQPut state seq length data = .ok (code, copies, next)) :
    next.window.headSeq = state.window.headSeq := by
  rw [altusWQPut_eq] at returned
  split at returned
  · rw [deliver] at returned
    split at returned
    · cases returned
    · rename_i copied
      split at returned
      · cases returned
      · rename_i absorbed
        obtain ⟨-, rest⟩ := Prod.mk.inj (Except.ok.inj returned)
        obtain ⟨-, rfl⟩ := Prod.mk.inj rest
        have same := copyLoop_headSeq _ copied
        exact (absorb_headSeq absorbed).trans same
  · obtain ⟨-, rest⟩ := Prod.mk.inj (Except.ok.inj returned)
    obtain ⟨-, rfl⟩ := Prod.mk.inj rest
    rfl

theorem altusWQPopNode_headSeq {code : Int} (popped : altusWQPopNode state = .ok (code, next)) :
    next.window.headSeq = state.window.headSeq := by
  rw [altusWQPopNode] at popped
  dsimp only at popped
  split at popped
  · obtain ⟨-, rfl⟩ := Prod.mk.inj (Except.ok.inj popped)
    rfl
  · split at popped
    · cases popped
    · obtain ⟨-, rfl⟩ := Prod.mk.inj (Except.ok.inj popped)
      rfl

theorem popLoop_headSeq (length : Int) (rounds : Nat) :
    ∀ {state : WQState} {currentNode : Ptr} {leftLen : Int} {dest : Option Memory}
      {answer : Int × Option Memory × WQState},
      popLoop length rounds state currentNode leftLen dest = .ok answer →
      answer.2.2.window.headSeq = state.window.headSeq := by
  induction rounds with
  | zero =>
      intro state currentNode leftLen dest answer returned
      cases returned
  | succ rounds ih =>
      intro state currentNode leftLen dest answer returned
      rw [popLoop_succ] at returned
      split at returned
      · obtain rfl := Except.ok.inj returned
        rfl
      rw [popRound] at returned
      dsimp only at returned
      generalize (if leftLen < available state currentNode then leftLen
        else available state currentNode) = writelen at returned
      split at returned
      · obtain rfl := Except.ok.inj returned
        rfl
      split at returned
      · cases returned
      split at returned
      · split at returned
        · cases returned
        rename_i popped
        have same := altusWQPopNode_headSeq popped
        split at returned
        · cases returned
        split at returned
        · obtain rfl := Except.ok.inj returned
          exact same
        · have later := ih returned
          exact later.trans same
      split at returned
      · split at returned
        · cases returned
        rename_i popped
        obtain rfl := Except.ok.inj returned
        have same := altusWQPopNode_headSeq popped
        exact same
      · have same := ih returned
        exact same

/-- `altusWQPop` never moves `headSeq`. -/
theorem altusWQPop_headSeq {length : Int} {dest got : Option Memory} {popped : Int}
    (returned : altusWQPop state length dest = .ok (popped, got, next)) :
    next.window.headSeq = state.window.headSeq :=
  popLoop_headSeq length _ returned

end HeadSeq

/-- The node that a number of `to_tail` links leads to. -/
def nodeAfter (heap : WQHeap) : (steps : Nat) → (node : Ptr) → Option Ptr
  | 0, node => some node
  | steps + 1, node => (heap.node node).toTail.bind (nodeAfter heap steps)

/-- The walk along a chain finds the listed nodes. -/
theorem nodeAfter_eq {heap : WQHeap} {cells : List Ptr} (linked : Linked (links heap) cells) (steps : Nat) :
    ∀ {place : Nat} {current : Ptr}, cells[place]? = some current →
      nodeAfter heap steps current = cells[place + steps]? := by
  induction steps with
  | zero =>
      intro place current here
      exact here.symm
  | succ steps ih =>
      intro place current here
      have link : (heap.node current).toTail = cells[place + 1]? := linked.next_eq here
      rw [nodeAfter, link]
      cases after : cells[place + 1]? with
      | none =>
          have outside := List.getElem?_eq_none_iff.mp after
          exact (List.getElem?_eq_none_iff.mpr (by omega)).symm
      | some following =>
          rw [Option.bind_some, ih after, show place + 1 + steps = place + (steps + 1) by omega]

/-- The loop of `altusWQPeek` follows one link for each whole node. -/
theorem peekLoop_eq (heap : WQHeap) (rounds : Nat) :
    ∀ {distance : Nat} (current : Ptr), distance < 2 ^ 32 → distance / 4096 < rounds →
      peekLoop heap rounds current (BitVec.ofNat 32 distance) =
        (nodeAfter heap (distance / 4096) current).map fun node => (node, BitVec.ofNat 32 (distance % 4096)) := by
  induction rounds with
  | zero =>
      intro distance current small enough
      omega
  | succ rounds ih =>
      intro distance current small enough
      have compare : nodeSpan ≤ BitVec.ofNat 32 distance ↔ 4096 ≤ distance := by
        rw [BitVec.le_def, BitVec.toNat_ofNat, BitVec.toNat_ofNat, Nat.mod_eq_of_lt small]
      rw [peekLoop]
      by_cases far : 4096 ≤ distance
      · have shorter : BitVec.ofNat 32 distance - nodeSpan = BitVec.ofNat 32 (distance - 4096) :=
          Serial.ofNat_sub far
        rw [if_pos (compare.mpr far), show distance / 4096 = (distance - 4096) / 4096 + 1 by omega, nodeAfter]
        cases (heap.node current).toTail with
        | none => rw [Option.bind_none, Option.map_none]
        | some following =>
            dsimp only
            rw [shorter, ih following (by omega) (by omega), show (distance - 4096) % 4096 = distance % 4096 by omega,
              Option.bind_some]
      · rw [if_neg (by rw [compare]; exact far), show distance / 4096 = 0 by omega, Nat.mod_eq_of_lt (by omega),
          nodeAfter, Option.map_some]

/-- `altusWQPeek` reads the count of the node that the distance from `headSeq` falls into. -/
theorem altusWQPeek_eq (heap : WQHeap) (window : WQWindow) (seq : U32) :
    altusWQPeek heap window seq =
      match nodeAfter heap ((seq - window.headSeq).toNat / 4096) window.head with
      | none => (0, none)
      | some node =>
          let offset := BitVec.ofNat 32 ((seq - window.headSeq).toNat % 4096)
          if (heap.node node).validBlockCount - offset = 0 then (0, none)
          else (((heap.node node).validBlockCount - offset).toInt, some (node, offset)) := by
  have bound := (seq - window.headSeq).isLt
  have looped := @peekLoop_eq heap ((seq - window.headSeq).toNat / 4096 + 1) (seq - window.headSeq).toNat
    window.head bound (by omega)
  rw [Serial.ofNat_toNat] at looped
  rw [altusWQPeek]
  dsimp only
  rw [show nodeSize = 4096 from rfl, looped]
  cases nodeAfter heap ((seq - window.headSeq).toNat / 4096) window.head <;> rfl

/-- `altusWQPeek` answers an `int`, and no bytes without a position. -/
theorem altusWQPeek_length {heap : WQHeap} {window : WQWindow} {seq : U32} {length : Int} {pos : Option (Ptr × U32)}
    (answer : altusWQPeek heap window seq = (length, pos)) : length < 2 ^ 31 ∧ (pos = none → length = 0) := by
  rw [altusWQPeek_eq] at answer
  split at answer
  · obtain ⟨rfl, rfl⟩ := Prod.mk.inj answer
    exact ⟨by decide, fun _ => rfl⟩
  · dsimp only at answer
    split at answer
    · obtain ⟨rfl, rfl⟩ := Prod.mk.inj answer
      exact ⟨by decide, fun _ => rfl⟩
    · obtain ⟨rfl, rfl⟩ := Prod.mk.inj answer
      exact ⟨BitVec.toInt_lt, by simp⟩

section Peek

variable {state : WQState} {view : View} {point : Nat}

/-- The sequenced bytes from a position on that lie in its node. -/
def View.room (view : View) (point : Nat) : Nat := min (4096 - (point - view.origin) % 4096) (view.position - point)

/-- `altusWQPeek` finds the sequenced bytes of a node as long as `headSeq` names the head node. -/
theorem Tracks.peek (tracks : Tracks state view)
    (headSeq : state.window.headSeq = BitVec.ofNat 32 view.origin) (above : view.origin ≤ point)
    (below : point ≤ view.position) :
    ∃ cell, view.cells[(point - view.origin) / 4096]? = some cell ∧
      altusWQPeek state.heap state.window (BitVec.ofNat 32 point) =
        if view.room point = 0 then (0, none)
        else ((view.room point : Int), some (cell, BitVec.ofNat 32 ((point - view.origin) % 4096))) := by
  have depth : view.depth = view.position - view.origin := rfl
  have shallow := tracks.shallow
  have size := tracks.size
  have inside := tracks.safeInside
  have distance : (BitVec.ofNat 32 point - state.window.headSeq).toNat = point - view.origin := by
    rw [headSeq, Serial.toNat_sub above (by omega)]
  obtain ⟨cell, found⟩ : ∃ cell, view.cells[(point - view.origin) / 4096]? = some cell :=
    ⟨_, List.getElem?_eq_getElem (by omega)⟩
  have readable : (state.heap.node cell).validBlockCount - BitVec.ofNat 32 ((point - view.origin) % 4096) =
      BitVec.ofNat 32 (view.room point) := by
    rcases Nat.lt_or_ge ((point - view.origin) / 4096) (view.depth / 4096) with early | last
    · rw [tracks.counts.full _ cell early found, Serial.ofNat_sub (by omega)]
      congr 1
      rw [View.room]
      omega
    · have same : (point - view.origin) / 4096 = view.depth / 4096 := by omega
      rw [same] at found
      rw [tracks.counts.partly cell found, Serial.ofNat_sub (by omega)]
      congr 1
      rw [View.room]
      omega
  have room : view.room point ≤ 4096 := by
    rw [View.room]
    omega
  have roomIs : (BitVec.ofNat 32 (view.room point)).toNat = view.room point := by
    rw [BitVec.toNat_ofNat, Nat.mod_eq_of_lt (by omega)]
  refine ⟨cell, found, ?_⟩
  rw [altusWQPeek_eq, nodeAfter_eq tracks.formed.cellsLinked _ tracks.formed.head, distance, Nat.zero_add, found]
  dsimp only
  rw [readable]
  by_cases empty : view.room point = 0
  · rw [if_pos empty, if_pos (by rw [empty]; rfl)]
  · have nonzero : BitVec.ofNat 32 (view.room point) ≠ 0 := by
      intro zero
      rw [zero] at roomIs
      exact empty roomIs.symm
    rw [if_neg empty, if_neg nonzero, BitVec.toInt_eq_toNat_cond, roomIs, if_pos (by omega)]

/-- The bytes at a peeked position are the next bytes of the content. -/
theorem Reads.peek_bytes {content : Memory} (reads : Reads state view content) (above : view.origin ≤ point)
    {cell : Ptr} (here : view.cells[(point - view.origin) / 4096]? = some cell) {index : Nat}
    (inside : index < view.room point) :
    (state.heap.node cell).data ((point - view.origin) % 4096 + index) = content (point + index) := by
  rw [View.room] at inside
  have found := reads (point + index) (by omega) (by omega)
  rw [stored, show (point + index - view.origin) / 4096 = (point - view.origin) / 4096 by omega, here,
    Option.map_some, show (point + index - view.origin) % 4096 = (point - view.origin) % 4096 + index by omega]
    at found
  exact Option.some.inj found

end Peek

end Altus.WindowedQueue
