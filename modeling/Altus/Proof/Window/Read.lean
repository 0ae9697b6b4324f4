import Altus.Proof.Window.Pop

namespace Altus.WindowedQueue

open Bytes Chain Runs UBList

/-- The sequenced part of the chain holds the bytes of `content`. -/
def Reads (state : WQState) (view : View) (content : Memory) : Prop :=
  ∀ point, view.origin ≤ point → point < view.position →
    stored state.heap view.cells (point - view.origin) = some (content point)

/-- The position of the next byte that a pop delivers. -/
def front (state : WQState) (view : View) : Nat := view.origin + state.window.headDataOffset.toNat

/-- What a pop of `count` bytes leaves behind. -/
structure Popped (state : WQState) (view : View) (count : Nat) (next : WQState) (nextView : View) : Prop where
  represents : Represents next nextView
  reading : Reading next nextView
  sequence : SameSequence state view next nextView
  forward : view.origin ≤ nextView.origin
  front : front next nextView = front state view + count
  room : nextView.origin + 4096 * nextView.cells.length = view.origin + 4096 * view.cells.length
  kept : ∀ point, nextView.origin ≤ point →
    stored next.heap nextView.cells (point - nextView.origin) =
      stored state.heap view.cells (point - view.origin)

section Facts

variable {state next : WQState} {view nextView : View} {count : Nat}

theorem Popped.trans {middle : WQState} {middleView : View} {first second : Nat}
    (earlier : Popped state view first middle middleView) (later : Popped middle middleView second next nextView) :
    Popped state view (first + second) next nextView where
  represents := later.represents
  reading := later.reading
  sequence := earlier.sequence.trans later.sequence
  forward := earlier.forward.trans later.forward
  front := by rw [later.front, earlier.front, Nat.add_assoc]
  room := later.room.trans earlier.room
  kept := fun point above => (later.kept point above).trans (earlier.kept point (later.forward.trans above))

theorem Popped.reads (popped : Popped state view count next nextView) {content : Memory}
    (reads : Reads state view content) : Reads next nextView content := by
  intro point above below
  rw [popped.kept point above]
  exact reads point (popped.forward.trans above) (by rwa [popped.sequence.1] at below)

theorem Popped.backed (popped : Popped state view count next nextView) (backed : view.Backed) :
    nextView.Backed := by
  intro point member
  rw [popped.sequence.2.1] at member
  have node := backed point member
  have room := popped.room
  have forward := popped.forward
  have nonempty := popped.represents.safeInside
  omega

theorem Popped.holds (popped : Popped state view count next nextView) {content : Memory}
    (holds : Holds state view content) : Holds next nextView content := by
  intro point above received
  rw [popped.kept point above]
  rw [popped.sequence.1, popped.sequence.2.1] at received
  exact holds point (popped.forward.trans above) received

/-- The count of the head node is the part of the sequenced bytes that lies in it. -/
theorem Represents.head_count (represents : Represents state view) :
    (state.heap.node state.window.head).validBlockCount = BitVec.ofNat 32 (min 4096 view.depth) := by
  rcases Nat.lt_or_ge view.depth 4096 with single | several
  · have first : view.depth / 4096 = 0 := by omega
    have counts := represents.counts
    rw [first] at counts
    rw [counts.partly _ represents.formed.head, show view.depth % 4096 = min 4096 view.depth by omega]
  · rw [represents.counts.full 0 _ (by omega) represents.formed.head, Nat.min_eq_left several]

/-- What a pop may take from the head node. -/
theorem available_head (represents : Represents state view) (reading : Reading state view) :
    available state state.window.head =
      ((min 4096 view.depth - state.window.headDataOffset.toNat : Nat) : Int) := by
  have offset := reading.offset
  have consumed := reading.consumed
  have word : state.window.headDataOffset = BitVec.ofNat 32 state.window.headDataOffset.toNat :=
    (Serial.ofNat_toNat _).symm
  have distance := @Serial.toNat_sub 32 (min 4096 view.depth) state.window.headDataOffset.toNat
    (by omega) (by omega)
  rw [← word] at distance
  rw [available, represents.head_count, BitVec.toInt_eq_toNat_cond, distance, if_pos (by omega)]

/-- The bytes of the head node are the next bytes of the content. -/
theorem Reads.head_bytes {content : Memory} (reads : Reads state view content)
    (represents : Represents state view) {index : Nat} (inNode : index < 4096) (sequenced : index < view.depth) :
    (state.heap.node state.window.head).data index = content (view.origin + index) := by
  have depth : view.depth = view.position - view.origin := rfl
  have found := reads (view.origin + index) (by omega) (by omega)
  rw [Nat.add_sub_cancel_left, stored, Nat.div_eq_of_lt inNode, represents.formed.head, Option.map_some,
    Nat.mod_eq_of_lt inNode] at found
  exact Option.some.inj found

/-- A pop inside the head node only moves the read offset. -/
theorem popped_inside (represents : Represents state view) {offset : U32}
    (moved : offset.toNat = state.window.headDataOffset.toNat + count) (inNode : offset.toNat < 4096)
    (sequenced : offset.toNat ≤ view.depth) : Popped state view count (setOffset state offset) view where
  represents := represents.setOffset offset
  reading := ⟨inNode, sequenced⟩
  sequence := ⟨rfl, rfl, rfl⟩
  forward := le_rfl
  front := by
    rw [WindowedQueue.front, WindowedQueue.front, Nat.add_assoc, ← moved]
    rfl
  room := rfl
  kept := fun _ _ => rfl

/-- A pop up to the end of the head node drops it. -/
theorem popped_node (represents : Represents state view) (several : 4096 ≤ view.depth)
    (ends : state.window.headDataOffset.toNat + count = 4096) (offset : U32) :
    ∃ middle, altusWQPopNode (setOffset state offset) = .ok (0, middle) ∧
      Popped state view count (setOffset middle 0) view.drop ∧
      (state.heap.node state.window.head).toTail = some middle.window.head := by
  obtain ⟨middle, popNode, kept, content, size, -⟩ := (represents.setOffset offset).popNode_several several
  have nonempty : view.cells ≠ [] := by
    intro empty
    have head := represents.formed.head
    rw [empty] at head
    simp at head
  have length : view.cells.length = view.drop.cells.length + 1 := by
    have positive := List.length_pos_iff.mpr nonempty
    rw [View.drop, List.length_tail]
    omega
  have place (index : Nat) : view.drop.cells[index]? = view.cells[index + 1]? := by
    rw [View.drop, List.getElem?_tail]
  refine ⟨middle, popNode, ?_, ?_⟩
  · exact {
      represents := kept.setOffset 0
      reading := ⟨show (0 : Nat) < 4096 by decide, Nat.zero_le _⟩
      sequence := ⟨rfl, rfl, size⟩
      forward := Nat.le_add_right _ _
      front := by
        show view.origin + 4096 + 0 = view.origin + state.window.headDataOffset.toNat + count
        omega
      room := by
        show view.origin + 4096 + 4096 * view.drop.cells.length = _
        omega
      kept := by
        intro point above
        have above : view.origin + 4096 ≤ point := above
        have split : point - view.origin = (point - (view.origin + 4096)) + 4096 := by omega
        show stored middle.heap view.drop.cells (point - (view.origin + 4096)) = _
        rw [stored, stored, split, Nat.add_div_right _ (by decide), Nat.add_mod_right, ← place]
        congr 1
        funext pointer
        exact congrFun (content pointer).1 _ }
  · have link := represents.formed.cellsLinked.next_eq represents.formed.head
    have head := kept.formed.head
    rw [place] at head
    exact link.trans head

end Facts

/-- The number of sequenced bytes that no pop delivered yet. -/
def unread (state : WQState) (view : View) : Nat := view.position - front state view

theorem Popped.unread {state next : WQState} {view nextView : View} {count : Nat}
    (popped : Popped state view count next nextView) :
    unread next nextView = WindowedQueue.unread state view - count := by
  rw [WindowedQueue.unread, WindowedQueue.unread, popped.front, popped.sequence.1]
  omega

section Rounds

variable {state : WQState} {view : View} {content : Memory} {leftLen count : Nat}

/-- The destination after `count` of the next bytes are copied to it. -/
def received (content : Memory) (position done count : Nat) (dest : Option Memory) : Option Memory :=
  dest.map fun memory => memcpy memory done (shift content position) count

@[simp] theorem received_zero (position done : Nat) (dest : Option Memory) : received content position done 0 dest = dest := by
  simp [received]

/-- Two receipts in a row are one receipt. -/
theorem received_received (position done first second : Nat) (dest : Option Memory) :
    received content (position + first) (done + first) second (received content position done first dest) =
      received content position done (first + second) dest := by
  rw [received, received, received, Option.map_map]
  congr 1
  funext memory
  rw [Function.comp_apply, ← shift_shift, memcpy_memcpy]

/-- One round copies the bytes of the content. -/
theorem round_received (done leftLen : Nat) (dest : Option Memory) (represents : Represents state view)
    (reads : Reads state view content) (within : state.window.headDataOffset.toNat + count ≤ min 4096 view.depth) :
    (dest.map fun memory => memcpy memory (((done + leftLen : Nat) : Int) - (leftLen : Int)).toNat
      (shift (state.heap.node state.window.head).data state.window.headDataOffset.toNat) (count : Int).toNat) =
      received content (front state view) done count dest := by
  rw [received, show (((done + leftLen : Nat) : Int) - (leftLen : Int)).toNat = done by omega, Int.toNat_natCast]
  congr 1
  funext memory
  apply memcpy_congr
  intro index inside
  rw [shift, shift, front, Nat.add_assoc, reads.head_bytes represents (by omega) (by omega)]

/-- The read offset after a round. -/
theorem round_offset (within : state.window.headDataOffset.toNat + count ≤ 4096) :
    state.window.headDataOffset + BitVec.ofInt 32 (count : Int) =
        BitVec.ofNat 32 (state.window.headDataOffset.toNat + count) ∧
      (BitVec.ofNat 32 (state.window.headDataOffset.toNat + count)).toNat =
        state.window.headDataOffset.toNat + count := by
  constructor
  · rw [BitVec.ofNat_add, Serial.ofNat_toNat, BitVec.ofInt_natCast]
  · rw [BitVec.toNat_ofNat, Nat.mod_eq_of_lt (by omega)]

/-- A round that takes the rest of the head node goes on with the next node, unless that one is empty. -/
theorem popRound_node (done rounds : Nat) (dest : Option Memory) (represents : Represents state view)
    (reads : Reads state view content) (positive : 0 < count) (few : count ≤ leftLen) (several : 4096 ≤ view.depth)
    (ends : state.window.headDataOffset.toNat + count = 4096) :
    ∃ next, Popped state view count next view.drop ∧
      popRound ((done + leftLen : Nat) : Int) rounds state state.window.head (leftLen : Int) dest (count : Int) =
        if view.depth = 4096 then
          .ok (((done + count : Nat) : Int), received content (front state view) done count dest, next)
        else popLoop ((done + leftLen : Nat) : Int) rounds next next.window.head ((leftLen - count : Nat) : Int)
          (received content (front state view) done count dest) := by
  obtain ⟨offset, -⟩ := round_offset (show state.window.headDataOffset.toNat + count ≤ 4096 by omega)
  obtain ⟨middle, popNode, popped, link⟩ := popped_node represents several ends (BitVec.ofNat 32 4096)
  refine ⟨setOffset middle 0, popped, ?_⟩
  have count0 := popped.represents.head_count
  have lower : view.drop.depth = view.depth - 4096 := by
    show view.position - (view.origin + 4096) = view.position - view.origin - 4096
    omega
  have empty : (0 : U32) = (middle.heap.node middle.window.head).validBlockCount ↔ view.depth = 4096 := by
    rw [show (middle.heap.node middle.window.head).validBlockCount = _ from count0, lower]
    have compare := @Serial.ofNat_inj 32 0 (min 4096 (view.depth - 4096)) (by omega) (by omega)
    rw [show (0 : U32) = BitVec.ofNat 32 0 from rfl, compare]
    omega
  have copied := round_received done leftLen dest represents reads
    (show state.window.headDataOffset.toNat + count ≤ min 4096 view.depth by omega)
  rw [popRound, if_neg (by omega), if_neg (by omega)]
  simp only [offset, ends, copied, if_true, popNode, link, empty]
  rw [show ((leftLen - count : Nat) : Int) = (leftLen : Int) - (count : Int) by omega,
    show ((done + count : Nat) : Int) = ((done + leftLen : Nat) : Int) - ((leftLen : Int) - (count : Int)) by omega]
  rfl

/-- A round inside the head node ends the loop when it takes the last sequenced byte. -/
theorem popRound_inside (done rounds : Nat) (dest : Option Memory) (represents : Represents state view)
    (reads : Reads state view content) (positive : 0 < count) (few : count ≤ leftLen)
    (inNode : state.window.headDataOffset.toNat + count < 4096)
    (sequenced : state.window.headDataOffset.toNat + count ≤ view.depth) :
    ∃ next, Popped state view count next view ∧ next.window.head = state.window.head ∧
      popRound ((done + leftLen : Nat) : Int) rounds state state.window.head (leftLen : Int) dest (count : Int) =
        if state.window.headDataOffset.toNat + count = view.depth then
          .ok (((done + count : Nat) : Int), received content (front state view) done count dest, next)
        else popLoop ((done + leftLen : Nat) : Int) rounds next next.window.head ((leftLen - count : Nat) : Int)
          (received content (front state view) done count dest) := by
  obtain ⟨offset, value⟩ := round_offset (show state.window.headDataOffset.toNat + count ≤ 4096 by omega)
  have popped := popped_inside represents value (by omega) (by omega)
  have copied := round_received done leftLen dest represents reads
    (show state.window.headDataOffset.toNat + count ≤ min 4096 view.depth by omega)
  have notNode : BitVec.ofNat 32 (state.window.headDataOffset.toNat + count) ≠ nodeSpan := by
    intro equal
    have same := (@Serial.ofNat_inj 32 _ 4096 (by omega) (by omega)).mp equal
    omega
  have final : BitVec.ofNat 32 (state.window.headDataOffset.toNat + count) =
      (state.heap.node state.window.head).validBlockCount ↔
        state.window.headDataOffset.toNat + count = view.depth := by
    rw [represents.head_count, Serial.ofNat_inj (by omega) (by omega)]
    omega
  refine ⟨_, popped, rfl, ?_⟩
  rw [popRound, if_neg (by omega), if_neg (by omega)]
  simp only [offset, copied, notNode, if_false, final]
  rw [show ((leftLen - count : Nat) : Int) = (leftLen : Int) - (count : Int) by omega,
    show ((done + count : Nat) : Int) = ((done + leftLen : Nat) : Int) - ((leftLen : Int) - (count : Int)) by omega]
  by_cases last : state.window.headDataOffset.toNat + count = view.depth
  · rw [if_pos last, if_pos last, popped.represents.popNode_single (by omega)]
  · rw [if_neg last, if_neg last]
    rfl

end Rounds

/-- The loop delivers the next bytes, as many as there are. -/
theorem popLoop_spec {content : Memory} (rounds : Nat) :
    ∀ {state : WQState} {view : View} {done leftLen : Nat} {dest : Option Memory},
      Represents state view → Reading state view → Reads state view content → leftLen < rounds →
      ∃ next nextView,
        popLoop ((done + leftLen : Nat) : Int) rounds state state.window.head (leftLen : Int) dest =
          .ok (((done + min leftLen (unread state view) : Nat) : Int),
            received content (front state view) done (min leftLen (unread state view)) dest, next) ∧
        Popped state view (min leftLen (unread state view)) next nextView := by
  induction rounds with
  | zero =>
      intro state view done leftLen dest represents reading reads enough
      omega
  | succ rounds ih =>
      intro state view done leftLen dest represents reading reads enough
      have offset := reading.offset
      have consumed := reading.consumed
      have stays : Popped state view 0 state view := popped_inside represents rfl offset consumed
      have total : unread state view = view.depth - state.window.headDataOffset.toNat := by
        simp only [unread, front, View.depth]
        omega
      -- A round that is not the last one leaves the rest of the loop to the induction hypothesis.
      have goesOn {count : Nat} {middle : WQState} {middleView : View} (positive : 0 < count)
          (few : count ≤ leftLen) (popped : Popped state view count middle middleView) :
          ∃ next nextView,
            popLoop ((done + leftLen : Nat) : Int) rounds middle middle.window.head
                ((leftLen - count : Nat) : Int) (received content (front state view) done count dest) =
              .ok (((done + (count + min (leftLen - count) (unread state view - count)) : Nat) : Int),
                received content (front state view) done
                  (count + min (leftLen - count) (unread state view - count)) dest, next) ∧
            Popped state view (count + min (leftLen - count) (unread state view - count)) next nextView := by
        obtain ⟨next, nextView, looped, later⟩ := @ih middle middleView (done + count) (leftLen - count)
          (received content (front state view) done count dest) popped.represents popped.reading
          (popped.reads reads) (by omega)
        rw [popped.unread, popped.front, received_received,
          show done + count + (leftLen - count) = done + leftLen by omega, Nat.add_assoc done count] at looped
        rw [popped.unread] at later
        exact ⟨next, nextView, looped, popped.trans later⟩
      rw [popLoop_succ]
      rcases Nat.eq_zero_or_pos leftLen with rfl | positive
      · refine ⟨state, view, ?_, by rw [Nat.zero_min]; exact stays⟩
        rw [if_pos Int.natCast_zero, Nat.zero_min, received_zero]
      rw [if_neg (by omega), available_head represents reading]
      generalize room : min 4096 view.depth - state.window.headDataOffset.toNat = limit
      obtain ⟨count, countIs⟩ : ∃ count, count = min leftLen limit := ⟨_, rfl⟩
      have writelen : (if (leftLen : Int) < (limit : Int) then (leftLen : Int) else (limit : Int)) =
          ((count : Nat) : Int) := by
        split <;> omega
      rw [writelen]
      rcases Nat.eq_zero_or_pos limit with empty | some
      · have nothing : min leftLen (unread state view) = 0 := by omega
        refine ⟨state, view, ?_, by rw [nothing]; exact stays⟩
        rw [popRound, if_pos (by omega), nothing, received_zero]
        congr 2
        omega
      rcases Nat.lt_or_ge (state.window.headDataOffset.toNat + count) 4096 with inNode | ends
      · obtain ⟨middle, popped, -, round⟩ := popRound_inside done rounds dest represents reads
          (by omega) (show count ≤ leftLen by omega) inNode (by omega)
        rw [round]
        by_cases last : state.window.headDataOffset.toNat + count = view.depth
        · rw [if_pos last, show min leftLen (unread state view) = count by omega]
          exact ⟨middle, view, rfl, popped⟩
        · rw [if_neg last, show min leftLen (unread state view) =
            count + min (leftLen - count) (unread state view - count) by omega]
          exact goesOn (by omega) (by omega) popped
      · obtain ⟨middle, popped, round⟩ := popRound_node done rounds dest represents reads (by omega)
          (show count ≤ leftLen by omega) (by omega) (by omega)
        rw [round]
        by_cases last : view.depth = 4096
        · rw [if_pos last, show min leftLen (unread state view) = count by omega]
          exact ⟨middle, view.drop, rfl, popped⟩
        · rw [if_neg last, show min leftLen (unread state view) =
            count + min (leftLen - count) (unread state view - count) by omega]
          exact goesOn (by omega) (by omega) popped

/-- `altusWQPop` delivers the next bytes of the content, as many as there are. -/
theorem altusWQPop_spec {state : WQState} {view : View} {content : Memory} (represents : Represents state view)
    (reading : Reading state view) (reads : Reads state view content) (length : Nat) (dest : Option Memory) :
    ∃ next nextView,
      altusWQPop state (length : Int) dest = .ok (((min length (unread state view) : Nat) : Int),
        received content (front state view) 0 (min length (unread state view)) dest, next) ∧
      Popped state view (min length (unread state view)) next nextView := by
  have looped := @popLoop_spec content (popRounds length) state view 0 length dest represents reading reads
    (by simp only [popRounds, Int.toNat_natCast]; omega)
  simpa only [Nat.zero_add, altusWQPop] using looped

end Altus.WindowedQueue
