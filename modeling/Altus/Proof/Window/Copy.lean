import Altus.Library.Serial
import Altus.Proof.Window.Nodes

namespace Altus.WindowedQueue

open Bytes Chain

/-- The byte at a distance from the first byte of a node chain. -/
def stored (heap : WQHeap) (cells : List Ptr) (index : Nat) : Option Byte :=
  (cells[index / 4096]?).map fun pointer => (heap.node pointer).data (index % 4096)

/-- A longer chain with the same bytes stores the same bytes on its front part. -/
theorem stored_of_prefix {heap next : WQHeap} {cells nextCells : List Ptr}
    (grown : cells <+: nextCells) (same : ∀ pointer, (next.node pointer).data = (heap.node pointer).data)
    {index : Nat} (inside : index / 4096 < cells.length) :
    stored next nextCells index = stored heap cells index := by
  obtain ⟨more, rfl⟩ := grown
  simp only [stored, List.getElem?_append_left inside, same]

/-- One `memcpy` inside a node changes exactly its bytes of the chain. -/
theorem stored_memcpy {heap : WQHeap} {cells : List Ptr} (distinct : cells.Nodup) {place : Nat}
    {current : Ptr} (here : cells[place]? = some current) {offset length : Nat} (source : Memory)
    (inside : offset + length ≤ 4096) (index : Nat) :
    stored (heap.modify current fun node => { node with data := memcpy node.data offset source length })
        cells index =
      if 4096 * place + offset ≤ index ∧ index < 4096 * place + offset + length then
        some (source (index - (4096 * place + offset)))
      else stored heap cells index := by
  by_cases same : index / 4096 = place
  · have found : cells[index / 4096]? = some current := by rw [same]; exact here
    simp only [stored, found, Option.map_some, WQHeap.modify_node_self]
    by_cases within : offset ≤ index % 4096 ∧ index % 4096 < offset + length
    · rw [memcpy_inside within.1 within.2, if_pos (by omega)]
      congr 2
      omega
    · rw [memcpy_outside (by omega), if_neg (by omega)]
  · have outside : ¬ (4096 * place + offset ≤ index ∧ index < 4096 * place + offset + length) := by
      omega
    rw [if_neg outside]
    simp only [stored]
    cases found : cells[index / 4096]? with
    | none => rfl
    | some pointer =>
        have different : pointer ≠ current := by
          rintro rfl
          exact same (place_unique distinct found here)
        simp only [Option.map_some, WQHeap.modify_node_of_ne _ _ different]

/-- The state after one `memcpy` of the copy loop. -/
def writeNode (state : WQState) (current : Ptr) (offset : Nat) (source : Memory) (count : Nat) : WQState :=
  { state with heap := state.heap.modify current fun node =>
      { node with data := memcpy node.data offset source count } }

theorem writeNode_formed {state : WQState} {cells free : List Ptr} {last : Nat}
    (formed : Formed state cells free last) (current : Ptr) (offset : Nat) (source : Memory) (count : Nat) :
    Formed (writeNode state current offset source count) cells free last :=
  formed.of_links (links_modify state.heap current
    (fun node => { node with data := memcpy node.data offset source count }) fun _ => rfl) rfl

/-- What the copy of a block into a chain leaves behind. -/
structure Copied (state : WQState) (cells : List Ptr) (last start length : Nat) (source : Memory)
    (copies : List Copy) (next : WQState) (nextCells nextFree : List Ptr) : Prop where
  formed : Formed next nextCells nextFree last
  grown : cells <+: nextCells
  counts : ∀ pointer, (next.heap.node pointer).validBlockCount = (state.heap.node pointer).validBlockCount
  window : ∃ unsafeTail unsafeLen, next.window = { state.window with
    unsafeTail := unsafeTail, unsafeLen := unsafeLen }
  inside : ∀ copy ∈ copies, copy.writeoffset + copy.writelen ≤ 4096
  reached : 0 < length → (start + length) / 4096 < nextCells.length
  written : ∀ index, start ≤ index → index < start + length →
    stored next.heap nextCells index = some (source (index - start))
  kept : ∀ index, index / 4096 < cells.length → index < start ∨ start + length ≤ index →
    stored next.heap nextCells index = stored state.heap cells index

/-- The walk moves from one node of the chain to the following one. -/
structure Walked (state : WQState) (cells : List Ptr) (last place : Nat) (current : Ptr)
    (next : WQState) (nextCells nextFree : List Ptr) (following : Ptr) : Prop where
  formed : Formed next nextCells nextFree last
  grown : cells <+: nextCells
  here : nextCells[place + 1]? = some following
  link : (next.heap.node current).toTail = some following
  content : SameContent state.heap next.heap
  window : ∃ unsafeTail unsafeLen, next.window = { state.window with
    unsafeTail := unsafeTail, unsafeLen := unsafeLen }

section Walk

variable {state : WQState} {cells free : List Ptr} {last place : Nat} {current : Ptr}

/-- After a new node every node of the old chain has a following one. -/
theorem walked_new (formed : Formed state cells free last) (here : cells[place]? = some current) :
    ∃ next nextCells nextFree following, altusWQNewNode state = .ok next ∧
      Walked state cells last place current next nextCells nextFree following ∧
      nextCells.length = cells.length + 1 := by
  have inside := (List.getElem?_eq_some_iff.mp here).1
  obtain ⟨newNode, next, nextFree, created, grownFormed, content, window⟩ := altusWQNewNode_spec formed
  have stillHere : (cells ++ [newNode])[place]? = some current := by
    rw [List.getElem?_append_left inside]; exact here
  have length : place + 1 < (cells ++ [newNode]).length := by simp; omega
  exact ⟨next, cells ++ [newNode], nextFree, (cells ++ [newNode])[place + 1], created, ⟨grownFormed,
    List.prefix_append _ _, List.getElem?_eq_getElem length,
    (grownFormed.cellsLinked.next_eq stillHere).trans (List.getElem?_eq_getElem length), content, _, _, window⟩,
    by simp⟩

/-- A node before the end of the chain has a following one. -/
theorem walked_existing (formed : Formed state cells free last) (here : cells[place]? = some current)
    (notEnd : current ≠ state.window.unsafeTail) :
    place + 1 < cells.length ∧ ∃ following, Walked state cells last place current state cells free following := by
  have inside := (List.getElem?_eq_some_iff.mp here).1
  have notLast : place + 1 < cells.length := by
    by_contra final
    have ends := formed.unsafeEnd
    rw [List.getLast?_eq_getElem?, show cells.length - 1 = place by omega, here] at ends
    exact notEnd (Option.some.inj ends)
  exact ⟨notLast, cells[place + 1], formed, List.prefix_rfl, List.getElem?_eq_getElem notLast,
    (formed.cellsLinked.next_eq here).trans (List.getElem?_eq_getElem notLast),
    fun _ => ⟨rfl, rfl⟩, _, _, rfl⟩

/-- The skip of a node appends a node only at the end of the chain. -/
theorem walked_skip (formed : Formed state cells free last) (here : cells[place]? = some current) :
    ∃ next nextCells nextFree following,
      (if current = state.window.unsafeTail then altusWQNewNode state else .ok state) = .ok next ∧
      Walked state cells last place current next nextCells nextFree following ∧
      nextCells.length = max cells.length (place + 2) := by
  by_cases ends : current = state.window.unsafeTail
  · obtain ⟨next, nextCells, nextFree, following, created, walked, grown⟩ := walked_new formed here
    have final := formed.unsafeEnd
    rw [List.getLast?_eq_getElem?, ← ends] at final
    have same := place_unique (List.nodup_append.mp formed.distinct).1 final here
    refine ⟨next, nextCells, nextFree, following, by rw [if_pos ends, created], walked, ?_⟩
    have inside := (List.getElem?_eq_some_iff.mp here).1
    omega
  · obtain ⟨inside, following, walked⟩ := walked_existing formed here ends
    exact ⟨state, cells, free, following, if_neg ends, walked, (Nat.max_eq_left inside).symm⟩

end Walk

/-- Nothing remains to copy. -/
theorem copied_done {state : WQState} {cells free : List Ptr} {last : Nat}
    (formed : Formed state cells free last) (start : Nat) (source : Memory) :
    Copied state cells last start 0 source [] state cells free where
  formed := formed
  grown := List.prefix_rfl
  counts := fun _ => rfl
  window := ⟨_, _, rfl⟩
  inside := by simp
  reached := by simp
  written := by intro index lower upper; omega
  kept := fun _ _ _ => rfl

/-- A walk before the copy does not change its result. -/
theorem Copied.after_walk {state middle next : WQState} {cells middleCells middleFree nextCells nextFree : List Ptr}
    {last place start length : Nat} {current following : Ptr} {source : Memory} {copies : List Copy}
    (walked : Walked state cells last place current middle middleCells middleFree following)
    (copied : Copied middle middleCells last start length source copies next nextCells nextFree) :
    Copied state cells last start length source copies next nextCells nextFree where
  formed := copied.formed
  grown := walked.grown.trans copied.grown
  counts := fun pointer => (copied.counts pointer).trans (walked.content pointer).2
  window := by
    obtain ⟨_, _, first⟩ := walked.window
    obtain ⟨tail, len, second⟩ := copied.window
    exact ⟨tail, len, by rw [second, first]⟩
  inside := copied.inside
  reached := copied.reached
  written := copied.written
  kept := by
    intro index inside outside
    have grown := walked.grown
    rw [copied.kept index (Nat.lt_of_lt_of_le inside grown.length_le) outside]
    exact stored_of_prefix grown (fun pointer => (walked.content pointer).1) inside

/-- One `memcpy` into the current node precedes the rest of the copy. -/
theorem Copied.after_memcpy {state next : WQState} {cells nextCells nextFree : List Ptr}
    {last place start count rest length : Nat} {current : Ptr} {source : Memory} {copies : List Copy}
    (total : count + rest = length) (distinct : cells.Nodup) (here : cells[place]? = some current)
    (lower : 4096 * place ≤ start)
    (positive : 0 < count) (upper : start + count ≤ 4096 * place + 4096)
    (ends : rest = 0 → start + count < 4096 * place + 4096 ∨ 4096 * place + 4096 < 4096 * nextCells.length)
    (copied : Copied (writeNode state current (start - 4096 * place) source count) cells last
      (start + count) rest (shift source count) copies next nextCells nextFree) :
    Copied state cells last start length source (⟨start - 4096 * place, count⟩ :: copies)
      next nextCells nextFree where
  formed := copied.formed
  grown := copied.grown
  counts := by
    intro pointer
    rw [copied.counts pointer]
    exact state.heap.modify_keeps WQNode.validBlockCount current
      (fun node => { node with data := memcpy node.data (start - 4096 * place) source count })
      (fun _ => rfl) pointer
  window := copied.window
  inside := by
    intro copy member
    rcases List.mem_cons.mp member with rfl | later
    · dsimp only
      omega
    · exact copied.inside copy later
  reached := by
    intro _
    have inside := (List.getElem?_eq_some_iff.mp here).1
    have longer := copied.grown.length_le
    rcases Nat.eq_zero_or_pos rest with rfl | more
    · rcases ends rfl with short | room <;> omega
    · simpa only [← total, Nat.add_assoc] using copied.reached more
  written := by
    intro index first final
    have inside := (List.getElem?_eq_some_iff.mp here).1
    have split : 4096 * place + (start - 4096 * place) = start := by omega
    rcases Nat.lt_or_ge index (start + count) with early | late
    · rw [copied.kept index (by omega) (Or.inl early),
        writeNode, stored_memcpy distinct here source (by omega) index, split, if_pos ⟨first, early⟩]
    · rw [copied.written index late (by omega), shift]
      congr 2
      omega
  kept := by
    intro index inside outside
    have split : 4096 * place + (start - 4096 * place) = start := by omega
    rw [copied.kept index inside (by omega), writeNode,
      stored_memcpy distinct here source (by omega) index, split, if_neg (by omega)]

section Writes

variable {state next : WQState} {current : Ptr} {source : Memory}

theorem copyInto_inside {offset count : Nat} (inside : offset + count ≤ nodeSize) :
    copyInto state current ⟨offset, count⟩ source = .ok (writeNode state current offset source count) := by
  rw [copyInto, if_pos inside]
  rfl

theorem copyInto_outside {offset count : Nat} (outside : nodeSize < offset + count) :
    copyInto state current ⟨offset, count⟩ source = .error .outOfBounds := by
  rw [copyInto, if_neg (Nat.not_le.mpr outside)]

/-- A `memcpy` that returns stays inside its node. -/
theorem copyInto_ok {copy : Copy} (copied : copyInto state current copy source = .ok next) :
    copy.writeoffset + copy.writelen ≤ nodeSize ∧
      next = writeNode state current copy.writeoffset source copy.writelen := by
  rw [copyInto] at copied
  split at copied
  · rename_i inside
    cases copied
    exact ⟨inside, rfl⟩
  · cases copied

theorem copyInto_fault {copy : Copy} {fault : Fault} (failed : copyInto state current copy source = .error fault) :
    fault = .outOfBounds := by
  rw [copyInto] at failed
  split at failed
  · cases failed
  · exact (Except.error.inj failed).symm

end Writes

section Rounds

variable {length : U32} {data : Memory} {rounds : Nat} {state : WQState} {current : Ptr}
  {currentNodeSeq leftSeq leftLen : U32}

theorem copyLoop_skip {next : WQState} (nonzero : leftLen ≠ 0)
    (full : currentNodeSeq + nodeSpan - leftSeq = 0)
    (walk : (if current = state.window.unsafeTail then altusWQNewNode state else .ok state) = .ok next) :
    copyLoop length data (rounds + 1) state (some current) currentNodeSeq leftSeq leftLen =
      copyLoop length data rounds next (next.heap.node current).toTail (currentNodeSeq + nodeSpan)
        leftSeq leftLen := by
  rw [copyLoop, if_neg nonzero]
  simp only [full, if_true, walk]

/-- A round that fills the node goes on in a new node. -/
theorem copyLoop_write_on {count : U32} {next : WQState} (nonzero : leftLen ≠ 0)
    (room : currentNodeSeq + nodeSpan - leftSeq ≠ 0)
    (countIs : (if leftLen < currentNodeSeq + nodeSpan - leftSeq then leftLen
      else currentNodeSeq + nodeSpan - leftSeq) = count)
    (inside : ((leftSeq - currentNodeSeq).setWidth 16).toNat + count.toNat ≤ nodeSize)
    (fills : leftSeq + count = currentNodeSeq + nodeSpan)
    (created : altusWQNewNode (writeNode state current ((leftSeq - currentNodeSeq).setWidth 16).toNat
      (shift data (length - leftLen).toNat) count.toNat) = .ok next) :
    copyLoop length data (rounds + 1) state (some current) currentNodeSeq leftSeq leftLen =
      (copyLoop length data rounds next (next.heap.node current).toTail (currentNodeSeq + nodeSpan)
        (leftSeq + count) (leftLen - count)).map fun answer =>
          (⟨((leftSeq - currentNodeSeq).setWidth 16).toNat, count.toNat⟩ :: answer.1, answer.2) := by
  rw [copyLoop, if_neg nonzero]
  simp only [if_neg room, countIs, copyInto_inside inside, created, fills, or_true, if_true]
  cases copyLoop length data rounds next (next.heap.node current).toTail (currentNodeSeq + nodeSpan)
    (currentNodeSeq + nodeSpan) (leftLen - count) <;> rfl

/-- A round that ends the block inside the node is the last one. -/
theorem copyLoop_write_end {count : U32} (nonzero : leftLen ≠ 0)
    (room : currentNodeSeq + nodeSpan - leftSeq ≠ 0)
    (countIs : (if leftLen < currentNodeSeq + nodeSpan - leftSeq then leftLen
      else currentNodeSeq + nodeSpan - leftSeq) = count)
    (inside : ((leftSeq - currentNodeSeq).setWidth 16).toNat + count.toNat ≤ nodeSize)
    (ends : leftLen - count = 0) (within : leftSeq + count ≠ currentNodeSeq + nodeSpan) :
    copyLoop length data (rounds + 2) state (some current) currentNodeSeq leftSeq leftLen =
      .ok ([⟨((leftSeq - currentNodeSeq).setWidth 16).toNat, count.toNat⟩],
        writeNode state current ((leftSeq - currentNodeSeq).setWidth 16).toNat
          (shift data (length - leftLen).toNat) count.toNat) := by
  rw [copyLoop, if_neg nonzero]
  simp only [if_neg room, countIs, copyInto_inside inside, ends, within, ne_eq, not_true_eq_false, or_self, if_false]
  rw [copyLoop, if_pos rfl]

/-- A round whose `memcpy` leaves the node is the end of the call. -/
theorem copyLoop_leaves {count : U32} (nonzero : leftLen ≠ 0) (room : currentNodeSeq + nodeSpan - leftSeq ≠ 0)
    (countIs : (if leftLen < currentNodeSeq + nodeSpan - leftSeq then leftLen
      else currentNodeSeq + nodeSpan - leftSeq) = count)
    (outside : nodeSize < ((leftSeq - currentNodeSeq).setWidth 16).toNat + count.toNat) :
    copyLoop length data (rounds + 1) state (some current) currentNodeSeq leftSeq leftLen = .error .outOfBounds := by
  rw [copyLoop, if_neg nonzero]
  simp only [if_neg room, countIs, copyInto_outside outside]

end Rounds

section Positions

variable {length : U32} {data : Memory} {state : WQState} {current : Ptr} {place start remaining count : Nat}

/-- The numbers of one round, in positions. -/
theorem copyLoop_numbers (origin : Nat) (lower : 4096 * place ≤ start) (upper : start ≤ 4096 * place + 4096)
    (enough : remaining ≤ length.toNat) :
    BitVec.ofNat 32 (origin + 4096 * place) + nodeSpan = BitVec.ofNat 32 (origin + 4096 * (place + 1)) ∧
    BitVec.ofNat 32 (origin + 4096 * place) + nodeSpan - BitVec.ofNat 32 (origin + start) =
      BitVec.ofNat 32 (4096 * place + 4096 - start) ∧
    (start < 4096 * place + 4096 →
      ((BitVec.ofNat 32 (origin + start) - BitVec.ofNat 32 (origin + 4096 * place)).setWidth 16).toNat =
        start - 4096 * place) ∧
    (length - BitVec.ofNat 32 remaining).toNat = length.toNat - remaining := by
  have nextSeq : BitVec.ofNat 32 (origin + 4096 * place) + nodeSpan =
      BitVec.ofNat 32 (origin + 4096 * (place + 1)) := by
    rw [show origin + 4096 * (place + 1) = (origin + 4096 * place) + 4096 by omega]
    exact (BitVec.ofNat_add _ 4096).symm
  have bound := length.isLt
  refine ⟨nextSeq, ?_, ?_, ?_⟩
  · rw [nextSeq, Serial.ofNat_sub (by omega),
      show origin + 4096 * (place + 1) - (origin + start) = 4096 * place + 4096 - start by omega]
  · intro inside
    rw [BitVec.toNat_setWidth, Serial.toNat_sub (by omega) (by omega)]
    omega
  · rw [BitVec.toNat_sub, BitVec.toNat_ofNat, Nat.mod_eq_of_lt (show remaining < 2 ^ 32 by omega)]
    omega

/-- The bytes that one round writes are the rest of the block, or as many as fit into the node. -/
theorem copyLoop_count {room : Nat} (small : remaining < 2 ^ 32) (positive : 0 < remaining) (space : 0 < room)
    (fits : room ≤ 4096) :
    BitVec.ofNat 32 remaining ≠ 0 ∧ BitVec.ofNat 32 room ≠ 0 ∧
      (if BitVec.ofNat 32 remaining < BitVec.ofNat 32 room then BitVec.ofNat 32 remaining
        else BitVec.ofNat 32 room) = BitVec.ofNat 32 (min remaining room) := by
  have wordIs (value : Nat) (fits : value < 2 ^ 32) : (BitVec.ofNat 32 value).toNat = value := by
    rw [BitVec.toNat_ofNat, Nat.mod_eq_of_lt fits]
  have nonzero (value : Nat) (fits : value < 2 ^ 32) (above : 0 < value) : BitVec.ofNat 32 value ≠ 0 := by
    intro zero
    have number := wordIs value fits
    rw [zero] at number
    simp at number
    omega
  have compare : BitVec.ofNat 32 remaining < BitVec.ofNat 32 room ↔ remaining < room := by
    rw [BitVec.lt_def, wordIs remaining small, wordIs room (by omega)]
  refine ⟨nonzero _ small positive, nonzero _ (by omega) space, ?_⟩
  by_cases shorter : remaining < room
  · rw [if_pos (compare.mpr shorter), Nat.min_eq_left (by omega)]
  · rw [if_neg (fun less => shorter (compare.mp less)), Nat.min_eq_right (by omega)]

/-- A round that fills the node goes on in the following one. -/
theorem copyLoop_fills (origin rounds : Nat) (lower : 4096 * place ≤ start) (positive : 0 < count)
    (few : count ≤ remaining) (fills : start + count = 4096 * place + 4096) (enough : remaining ≤ length.toNat)
    {next : WQState} (created : altusWQNewNode (writeNode state current (start - 4096 * place)
      (shift data (length.toNat - remaining)) count) = .ok next) :
    copyLoop length data (rounds + 1) state (some current) (BitVec.ofNat 32 (origin + 4096 * place))
        (BitVec.ofNat 32 (origin + start)) (BitVec.ofNat 32 remaining) =
      (copyLoop length data rounds next (next.heap.node current).toTail
        (BitVec.ofNat 32 (origin + 4096 * (place + 1))) (BitVec.ofNat 32 (origin + (start + count)))
        (BitVec.ofNat 32 (remaining - count))).map fun answer =>
          (⟨start - 4096 * place, count⟩ :: answer.1, answer.2) := by
  have bound := length.isLt
  obtain ⟨nextSeq, distance, offsetIs, sourceIs⟩ :=
    @copyLoop_numbers length place start remaining origin lower (by omega) enough
  obtain ⟨nonzero, room, countIs⟩ := @copyLoop_count remaining (4096 * place + 4096 - start) (by omega) (by omega)
    (by omega) (by omega)
  rw [show min remaining (4096 * place + 4096 - start) = count by omega] at countIs
  have countWord : (BitVec.ofNat 32 count).toNat = count := by
    rw [BitVec.toNat_ofNat, Nat.mod_eq_of_lt (by omega)]
  have nextStart : BitVec.ofNat 32 (origin + start) + BitVec.ofNat 32 count =
      BitVec.ofNat 32 (origin + (start + count)) := by
    rw [← BitVec.ofNat_add, Nat.add_assoc]
  rw [← distance] at room countIs
  rw [copyLoop_write_on nonzero room countIs (by rw [offsetIs (by omega), countWord, nodeSize]; omega)
    (by rw [nextStart, nextSeq, fills, Nat.mul_succ])
    (by rw [offsetIs (by omega), sourceIs, countWord]; exact created), nextSeq, nextStart,
    Serial.ofNat_sub few, offsetIs (by omega), countWord]

/-- A round that ends the block inside the node is the last one. -/
theorem copyLoop_ends (origin rounds : Nat) (lower : 4096 * place ≤ start) (positive : 0 < remaining)
    (inside : start + remaining < 4096 * place + 4096) (enough : remaining ≤ length.toNat) :
    copyLoop length data (rounds + 2) state (some current) (BitVec.ofNat 32 (origin + 4096 * place))
        (BitVec.ofNat 32 (origin + start)) (BitVec.ofNat 32 remaining) =
      .ok ([⟨start - 4096 * place, remaining⟩], writeNode state current (start - 4096 * place)
        (shift data (length.toNat - remaining)) remaining) := by
  obtain ⟨nextSeq, distance, offsetIs, sourceIs⟩ :=
    @copyLoop_numbers length place start remaining origin lower (by omega) enough
  obtain ⟨nonzero, room, countIs⟩ := @copyLoop_count remaining (4096 * place + 4096 - start) (by omega) positive
    (by omega) (by omega)
  rw [show min remaining (4096 * place + 4096 - start) = remaining by omega] at countIs
  have word : (BitVec.ofNat 32 remaining).toNat = remaining := by
    rw [BitVec.toNat_ofNat, Nat.mod_eq_of_lt (by omega)]
  have within : BitVec.ofNat 32 (origin + start) + BitVec.ofNat 32 remaining ≠
      BitVec.ofNat 32 (origin + 4096 * place) + nodeSpan := by
    rw [← BitVec.ofNat_add, nextSeq]
    intro equal
    have same := (Serial.ofNat_inj (by omega) (by omega)).mp equal
    omega
  rw [← distance] at room countIs
  rw [copyLoop_write_end nonzero room countIs (by rw [offsetIs (by omega), word, nodeSize]; omega) (BitVec.sub_self _) within,
    offsetIs (by omega), sourceIs, word]

end Positions

/-- The copy loop writes the block into the chain when it starts at or before the end of the current node.
Each node that it fills adds one node to the chain, wherever the node is. -/
theorem copyLoop_spec {length : U32} {data : Memory} {origin last : Nat} (rounds : Nat) :
    ∀ {state : WQState} {cells free : List Ptr} {place start remaining : Nat} {current : Ptr},
      Formed state cells free last → cells[place]? = some current →
      4096 * place ≤ start → start ≤ 4096 * place + 4096 → remaining ≤ length.toNat →
      remaining < 2 ^ 31 → (if start = 4096 * place + 4096 then remaining + 2 else remaining + 1) ≤ rounds →
      ∃ copies next nextCells nextFree,
        copyLoop length data rounds state (some current) (BitVec.ofNat 32 (origin + 4096 * place))
          (BitVec.ofNat 32 (origin + start)) (BitVec.ofNat 32 remaining) = .ok (copies, next) ∧
        Copied state cells last start remaining (shift data (length.toNat - remaining)) copies next
          nextCells nextFree ∧
        (start < 4096 * place + 4096 ∨ 0 < remaining → nextCells.length =
          max cells.length (start / 4096 + 1) + ((start + remaining) / 4096 - start / 4096)) := by
  induction rounds with
  | zero =>
      intro state cells free place start remaining current formed here lower upper enough small rounds
      split at rounds <;> omega
  | succ rounds ih =>
      intro state cells free place start remaining current formed here lower upper enough small fuel
      have distinct := (List.nodup_append.mp formed.distinct).1
      have inside := (List.getElem?_eq_some_iff.mp here).1
      rcases Nat.eq_zero_or_pos remaining with rfl | positive
      · refine ⟨[], state, cells, free, ?_, copied_done formed start _, by omega⟩
        rw [copyLoop, if_pos (by rfl)]
      rcases Nat.eq_or_lt_of_le upper with atEnd | room
      · obtain ⟨nextSeq, distance, -⟩ := copyLoop_numbers origin lower upper enough
        obtain ⟨nonzero, -⟩ := @copyLoop_count remaining 4096 (by omega) positive (by omega) (by omega)
        obtain ⟨next, nextCells, nextFree, following, walk, walked, grown⟩ := walked_skip formed here
        rw [if_pos atEnd] at fuel
        obtain ⟨copies, final, finalCells, finalFree, looped, copied, lengthIs⟩ := @ih _ _ _ _ start _ _
          walked.formed walked.here (by omega) (by omega) enough small (by rw [if_neg (by omega)]; omega)
        have total := lengthIs (Or.inr positive)
        refine ⟨copies, final, finalCells, finalFree, ?_, copied.after_walk walked, by omega⟩
        rw [copyLoop_skip nonzero (by rw [distance, atEnd, Nat.sub_self]; rfl) walk, walked.link, nextSeq]
        exact looped
      rw [if_neg (by omega)] at fuel
      rcases Nat.lt_or_ge (start + remaining) (4096 * place + 4096) with ends | fills
      · obtain ⟨more, rfl⟩ : ∃ more, rounds = more + 1 := ⟨rounds - 1, by omega⟩
        have finished := copied_done (writeNode_formed formed current (start - 4096 * place)
          (shift data (length.toNat - remaining)) remaining) (start + remaining)
          (shift (shift data (length.toNat - remaining)) remaining)
        exact ⟨_, _, cells, free, copyLoop_ends origin more lower positive ends enough,
          finished.after_memcpy (Nat.add_zero _) distinct here lower positive ends.le (fun _ => Or.inl ends), by omega⟩
      · obtain ⟨count, countIs⟩ : ∃ count, start + count = 4096 * place + 4096 :=
          ⟨4096 * place + 4096 - start, by omega⟩
        have source : shift (shift data (length.toNat - remaining)) count =
            shift data (length.toNat - (remaining - count)) := by
          rw [shift_shift, show length.toNat - remaining + count = length.toNat - (remaining - count) by omega]
        obtain ⟨next, nextCells, nextFree, following, created, walked, grown⟩ := walked_new
          (writeNode_formed formed current (start - 4096 * place) (shift data (length.toNat - remaining)) count) here
        obtain ⟨copies, final, finalCells, finalFree, looped, copied, lengthIs⟩ := @ih _ _ _ _ (start + count)
          (remaining - count) _ walked.formed walked.here (by omega) (by omega)
          (by omega) (by omega) (by rw [if_neg (by omega)]; omega)
        rw [← source] at copied
        have total := lengthIs (Or.inl (by omega))
        have longer := copied.grown.length_le
        have followingInside := (List.getElem?_eq_some_iff.mp walked.here).1
        refine ⟨_, final, finalCells, finalFree, ?_, (copied.after_walk walked).after_memcpy
          (show count + (remaining - count) = remaining by omega) distinct here lower (by omega) (by omega)
          (fun _ => Or.inr (by omega)), by omega⟩
        rw [copyLoop_fills origin rounds lower (by omega) (by omega) countIs enough created, walked.link, looped]
        rfl

/-- A block that starts beyond the end of the current node is written to that node all the same, in one `memcpy` whose
offset has lost its upper bits. The call ends when that leaves the node. -/
theorem copyLoop_stray {length : U32} {data : Memory} {state : WQState} {current : Ptr}
    {nodeStart start : Nat} (rounds : Nat) (beyond : nodeStart + 4096 < start)
    (near : start + length.toNat < nodeStart + 2 ^ 32) (positive : 0 < length.toNat) :
    copyLoop length data (rounds + 2) state (some current) (BitVec.ofNat 32 nodeStart)
        (BitVec.ofNat 32 start) length =
      if nodeSize < (start - nodeStart) % 65536 + length.toNat then .error .outOfBounds
      else .ok ([⟨(start - nodeStart) % 65536, length.toNat⟩],
        writeNode state current ((start - nodeStart) % 65536) data length.toNat) := by
  have nextSeq : BitVec.ofNat 32 nodeStart + nodeSpan = BitVec.ofNat 32 (nodeStart + 4096) :=
    (BitVec.ofNat_add nodeStart 4096).symm
  have distance : (BitVec.ofNat 32 nodeStart + nodeSpan - BitVec.ofNat 32 start).toNat =
      2 ^ 32 - (start - (nodeStart + 4096)) := by
    rw [nextSeq, Serial.toNat_sub_reverse beyond (by omega)]
  have nonzero : length ≠ 0 := by
    rintro rfl
    simp at positive
  have room : BitVec.ofNat 32 nodeStart + nodeSpan - BitVec.ofNat 32 start ≠ 0 := by
    intro zero
    rw [zero] at distance
    simp at distance
    omega
  have whole : length < BitVec.ofNat 32 nodeStart + nodeSpan - BitVec.ofNat 32 start := by
    rw [BitVec.lt_def, distance]
    omega
  have within : BitVec.ofNat 32 start + length ≠ BitVec.ofNat 32 nodeStart + nodeSpan := by
    rw [nextSeq, ← Serial.ofNat_toNat length, ← BitVec.ofNat_add]
    intro equal
    have same := (Serial.ofNat_inj (by omega) (by omega)).mp equal
    omega
  have offsetIs : ((BitVec.ofNat 32 start - BitVec.ofNat 32 nodeStart).setWidth 16).toNat =
      (start - nodeStart) % 65536 := by
    rw [BitVec.toNat_setWidth, Serial.toNat_sub (by omega) (by omega)]
  have sourceIs : shift data (length - length).toNat = data := by simp
  split
  · rename_i outside
    exact copyLoop_leaves nonzero room (if_pos whole) (by rw [offsetIs]; exact outside)
  · rename_i inside
    rw [copyLoop_write_end nonzero room (if_pos whole) (by rw [offsetIs]; exact Nat.not_lt.mp inside)
      (BitVec.sub_self length) within, offsetIs, sourceIs]

end Altus.WindowedQueue
