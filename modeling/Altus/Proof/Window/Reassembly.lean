import Altus.Proof.Window.Deliver
import Altus.Proof.Window.Initial

namespace Altus.WindowedQueue

open Bytes Runs UBList

/-- One call on the window of a receiver. -/
inductive Arrival where
  /-- The block `[seq, seq + length)` of the stream arrives. -/
  | block (seq length : Nat)
  /-- The application pops at most `length` bytes. -/
  | pop (length : Nat)

/-- A block of a stream has between 1 and 488 bytes of it. -/
def Arrival.OfStream (stream : List Byte) : Arrival → Prop
  | .block seq length => 1 ≤ length ∧ length ≤ 488 ∧ seq + length ≤ stream.length
  | .pop _ => True

/-- The call answers its `memcpy` calls into nodes, the popped bytes and the state after it. -/
def Arrival.perform (stream : List Byte) (state : WQState) :
    Arrival → Except Fault (List Copy × List Byte × WQState)
  | .block seq length =>
      (altusWQPut state (BitVec.ofNat 32 seq) (BitVec.ofNat 32 length) (shift (ofList stream) seq)).map
        fun answer => (answer.2.1, [], answer.2.2)
  | .pop length =>
      (altusWQPop state length (some fun _ => 0)).map
        fun answer => ([], Bytes.read (answer.2.1.getD fun _ => 0) answer.1.toNat, answer.2.2)

/-- The popped bytes are a prefix of the stream, and all available bytes complete it up to `lastSeq`. -/
def Delivers (stream : List Byte) (state : WQState) (popped : List Byte) : Prop :=
  popped <+: stream ∧
    ∀ length, state.window.lastSeq.toNat ≤ length → ∃ bytes next,
      (Arrival.pop length).perform stream state = .ok ([], bytes, next) ∧
      popped ++ bytes = stream.take state.window.lastSeq.toNat

/-- Every call of the run returns, writes inside one node, and the window delivers the stream all along. -/
def Reassembles (stream : List Byte) (state : WQState) (popped : List Byte) : List Arrival → Prop
  | [] => Delivers stream state popped
  | arrival :: rest => Delivers stream state popped ∧ ∃ copies bytes next,
      arrival.perform stream state = .ok (copies, bytes, next) ∧
      (∀ copy ∈ copies, copy.writeoffset + copy.writelen ≤ 4096) ∧
      Reassembles stream next (popped ++ bytes) rest

/-- A block that passes the checks starts at most 4096 bytes beyond the first byte of `safe_tail`. -/
def Arrival.Reaches (state : WQState) : Arrival → Prop
  | .block seq length =>
      Accepts state.window (BitVec.ofNat 32 seq) (BitVec.ofNat 32 length) → InReach state (BitVec.ofNat 32 seq)
  | .pop _ => True

/-- Every block of the run is in reach when it arrives. -/
def AllReach (stream : List Byte) (state : WQState) : List Arrival → Prop
  | [] => True
  | arrival :: rest => arrival.Reaches state ∧ ∀ copies bytes next,
      arrival.perform stream state = .ok (copies, bytes, next) → AllReach stream next rest

/-- The window has received a part of the stream and the application has popped a prefix of it. -/
structure Receiving (stream : List Byte) (state : WQState) (popped : List Byte) (view : View) : Prop where
  represents : Represents state view
  reading : Reading state view
  backed : view.Backed
  holds : Holds state view (ofList stream)
  bounded : view.position ≤ stream.length
  listed : covered view.runs ⊆ Set.Iio stream.length
  popped : popped = stream.take (front state view)

section Calls

variable {stream popped : List Byte} {state : WQState} {view : View}

theorem Receiving.front_le (receiving : Receiving stream state popped view) :
    front state view ≤ view.position := by
  have consumed := receiving.reading.consumed
  have ordered := receiving.represents.ordered
  rw [front]
  rw [View.depth] at consumed
  omega

/-- A pop delivers the next bytes of the stream. -/
theorem Receiving.pop_takes (receiving : Receiving stream state popped view) (length : Nat) :
    ∃ next nextView, (Arrival.pop length).perform stream state =
        .ok ([], (stream.drop (front state view)).take (min length (unread state view)), next) ∧
      Receiving stream next
        (popped ++ (stream.drop (front state view)).take (min length (unread state view))) nextView ∧
      Popped state view (min length (unread state view)) next nextView := by
  have reads : Reads state view (ofList stream) := fun point above below =>
    receiving.holds point above (Or.inl below)
  obtain ⟨next, nextView, returned, taken⟩ :=
    altusWQPop_spec receiving.represents receiving.reading reads length (some fun _ => 0)
  have before := receiving.front_le
  have bounded := receiving.bounded
  have total : unread state view = view.position - front state view := rfl
  refine ⟨next, nextView, ?_, ⟨taken.represents, taken.reading, taken.backed receiving.backed,
    taken.holds receiving.holds, ?_, ?_, ?_⟩, taken⟩
  · have bytes : Bytes.read (memcpy (fun _ => 0) 0 (shift (ofList stream) (front state view))
        (min length (unread state view))) (min length (unread state view)) =
        (stream.drop (front state view)).take (min length (unread state view)) := by
      rw [← read_ofList (by omega)]
      apply read_congr
      intro index inside
      rw [memcpy_inside (Nat.zero_le _) (by omega), Nat.sub_zero]
    rw [Arrival.perform, returned]
    simp only [Except.map, received, Option.map_some, Option.getD_some, Int.toNat_natCast, bytes]
  · rw [taken.sequence.1]
    exact bounded
  · rw [taken.sequence.2.1]
    exact receiving.listed
  · rw [taken.front, receiving.popped, List.take_add]

theorem Receiving.pop (receiving : Receiving stream state popped view) (length : Nat) :
    ∃ next nextView, (Arrival.pop length).perform stream state =
        .ok ([], (stream.drop (front state view)).take (min length (unread state view)), next) ∧
      Receiving stream next
        (popped ++ (stream.drop (front state view)).take (min length (unread state view))) nextView := by
  obtain ⟨next, nextView, returned, kept, -⟩ := receiving.pop_takes length
  exact ⟨next, nextView, returned, kept⟩

/-- All available bytes complete the stream up to `lastSeq`. -/
theorem Receiving.delivers (receiving : Receiving stream state popped view) (small : stream.length < 2 ^ 31) :
    Delivers stream state popped := by
  have before := receiving.front_le
  have bounded := receiving.bounded
  have total : unread state view = view.position - front state view := rfl
  have lastSeq : state.window.lastSeq.toNat = view.position := by
    rw [receiving.represents.lastSeq, BitVec.toNat_ofNat, Nat.mod_eq_of_lt (by omega)]
  refine ⟨receiving.popped ▸ List.take_prefix _ _, ?_⟩
  intro length enough
  obtain ⟨next, nextView, returned, -⟩ := receiving.pop length
  refine ⟨_, next, returned, ?_⟩
  rw [lastSeq] at enough ⊢
  rw [receiving.popped, ← List.take_add, show front state view + min length (unread state view) =
    view.position by omega]

/-- A piece of the stream in reach keeps the reception, and an accepted one adds its positions. -/
theorem Receiving.piece_grows (receiving : Receiving stream state popped view) (small : stream.length < 2 ^ 31)
    {seq length : Nat} (positive : 1 ≤ length) (inside : seq + length ≤ stream.length)
    (reaches : (Arrival.block seq length).Reaches state) :
    ∃ code copies next nextView,
      altusWQPut state (BitVec.ofNat 32 seq) (BitVec.ofNat 32 length) (shift (ofList stream) seq) =
        .ok (code, copies, next) ∧
      (Accepts state.window (BitVec.ofNat 32 seq) (BitVec.ofNat 32 length) → code = 0) ∧
      (∀ copy ∈ copies, copy.writeoffset + copy.writelen ≤ 4096) ∧
      Receiving stream next popped nextView ∧ next.window.windowSize = state.window.windowSize ∧
      (Accepts state.window (BitVec.ofNat 32 seq) (BitVec.ofNat 32 length) →
        Grows view seq (seq + length) nextView ∧ seq ≤ view.origin + 4096 * (view.depth / 4096) + 4096) ∧
      (¬ Accepts state.window (BitVec.ofNat 32 seq) (BitVec.ofNat 32 length) → nextView = view) := by
  have represents := receiving.represents
  have bounded := receiving.bounded
  have lengthIs : (BitVec.ofNat 32 length).toNat = length := by
    rw [BitVec.toNat_ofNat, Nat.mod_eq_of_lt (by omega)]
  by_cases accepts : Accepts state.window (BitVec.ofNat 32 seq) (BitVec.ofNat 32 length)
  · have ahead : view.position ≤ seq := by
      have notLate := accepts.1
      rw [represents.lastSeq, Serial.sub_pos_iff (by omega) (by omega) (by decide)] at notLate
      omega
    have distance : (BitVec.ofNat 32 seq - state.window.lastSeq).toNat = seq - view.position := by
      rw [represents.lastSeq, Serial.toNat_sub ahead (by omega)]
    have first : firstPosition state view (BitVec.ofNat 32 seq) = seq := by
      rw [firstPosition, distance]
      omega
    have near := (represents.inReach_iff accepts (by omega)).mp (reaches accepts)
    obtain ⟨copies, next, nextView, returned, nextRepresents, grows, backed, holds, within, sameSize, sameOffset⟩ :=
      @Represents.put_delivers _ _ _ _ (shift (ofList stream) seq) represents accepts (by omega) (by omega)
        (reaches accepts) receiving.backed (ofList stream) receiving.holds (by intro index below; rw [first]; rfl)
    rw [first] at near
    rw [first, lengthIs] at grows
    have union := grows.union
    have all : covered nextView.runs ∪ Set.Ico view.position nextView.position ⊆ Set.Iio stream.length := by
      rw [union]
      rintro point (old | ⟨-, below⟩)
      · exact receiving.listed old
      · exact below.trans_le inside
    have forward := grows.forward
    refine ⟨0, copies, next, nextView, returned, fun _ => rfl, within, ⟨nextRepresents, ?_,
      backed, holds, ?_, fun point member => all (Or.inl member), ?_⟩, sameSize, fun _ => ⟨grows, near⟩,
      fun refused => absurd accepts refused⟩
    · have offset := receiving.reading.offset
      have consumed := receiving.reading.consumed
      refine ⟨by rw [sameOffset]; exact offset, ?_⟩
      rw [View.depth] at consumed ⊢
      rw [sameOffset, grows.origin]
      omega
    · by_contra beyond
      have member : nextView.position - 1 ∈ Set.Iio stream.length := all (Or.inr ⟨by omega, by omega⟩)
      rw [Set.mem_Iio] at member
      omega
    · rw [receiving.popped, front, front, sameOffset, grows.origin]
  · exact ⟨_, [], state, view, altusWQPut_refused _ accepts, fun accepted => absurd accepted accepts, by simp, receiving,
      rfl, fun accepted => absurd accepted accepts, fun _ => rfl⟩

/-- A piece of the stream in reach keeps the reception. -/
theorem Receiving.piece (receiving : Receiving stream state popped view) (small : stream.length < 2 ^ 31)
    {seq length : Nat} (positive : 1 ≤ length) (inside : seq + length ≤ stream.length)
    (reaches : (Arrival.block seq length).Reaches state) :
    ∃ code copies next nextView,
      altusWQPut state (BitVec.ofNat 32 seq) (BitVec.ofNat 32 length) (shift (ofList stream) seq) =
        .ok (code, copies, next) ∧
      (Accepts state.window (BitVec.ofNat 32 seq) (BitVec.ofNat 32 length) → code = 0) ∧
      (∀ copy ∈ copies, copy.writeoffset + copy.writelen ≤ 4096) ∧
      Receiving stream next popped nextView := by
  obtain ⟨code, copies, next, nextView, returned, zero, within, kept, -⟩ :=
    receiving.piece_grows small positive inside reaches
  exact ⟨code, copies, next, nextView, returned, zero, within, kept⟩

/-- A block in reach keeps the reception. -/
theorem Receiving.block (receiving : Receiving stream state popped view) (small : stream.length < 2 ^ 31)
    {seq length : Nat} (block : (Arrival.block seq length).OfStream stream)
    (reaches : (Arrival.block seq length).Reaches state) :
    ∃ copies next nextView, (Arrival.block seq length).perform stream state = .ok (copies, [], next) ∧
      (∀ copy ∈ copies, copy.writeoffset + copy.writelen ≤ 4096) ∧
      Receiving stream next popped nextView := by
  obtain ⟨positive, -, inside⟩ := block
  obtain ⟨code, copies, next, nextView, returned, -, within, kept⟩ := receiving.piece small positive inside reaches
  exact ⟨copies, next, nextView, by rw [Arrival.perform, returned]; rfl, within, kept⟩

/-- A run of blocks in reach reassembles the stream. -/
theorem Receiving.run (receiving : Receiving stream state popped view) (small : stream.length < 2 ^ 31)
    {arrivals : List Arrival} (blocks : ∀ arrival ∈ arrivals, arrival.OfStream stream)
    (reach : AllReach stream state arrivals) : Reassembles stream state popped arrivals := by
  induction arrivals generalizing state popped view with
  | nil => exact receiving.delivers small
  | cons arrival rest ih =>
      have later : ∀ arrival ∈ rest, arrival.OfStream stream := fun other member =>
        blocks other (List.mem_cons_of_mem _ member)
      refine ⟨receiving.delivers small, ?_⟩
      cases arrival with
      | block seq length =>
          obtain ⟨copies, next, nextView, returned, within, kept⟩ :=
            receiving.block small (blocks _ (List.mem_cons_self ..)) reach.1
          exact ⟨copies, [], next, returned, within,
            ih (by simpa using kept) later (reach.2 _ _ _ returned)⟩
      | pop length =>
          obtain ⟨next, nextView, returned, kept⟩ := receiving.pop length
          exact ⟨[], _, next, returned, by simp, ih kept later (reach.2 _ _ _ returned)⟩

end Calls

/-- A new window reassembles the stream in every run whose blocks are in reach when they arrive. -/
theorem run_reassembles {state : WQState} (empty : Empty state)
    (size : state.window.windowSize = windowBlockMaxDefault) (lastSeq : state.window.lastSeq = 0)
    {stream : List Byte} (small : stream.length < 2 ^ 31) {arrivals : List Arrival}
    (blocks : ∀ arrival ∈ arrivals, arrival.OfStream stream) (reach : AllReach stream state arrivals) :
    Reassembles stream state [] arrivals := by
  obtain ⟨cells, free, represents, reading⟩ := @Empty.represents _ empty 0 lastSeq
    (by rw [size]; decide) (by rw [size]; decide)
  have receiving : Receiving stream state [] ⟨cells, free, 0, 0, []⟩ := by
    refine ⟨represents, reading, by simp [View.Backed], by simp [Holds], Nat.zero_le _, by simp, ?_⟩
    rw [front, empty.offset]
    rfl
  exact receiving.run small blocks reach

/-- Two bytes that arrive in the wrong order reach the application in the right one. -/
theorem run_reassembles_swapped :
    Reassembles [1, 2] (fresh blankHeap blankWindow) [] [.block 1 1, .block 0 1, .pop 5] := by
  refine run_reassembles (fresh_empty blankHeap blankWindow) rfl rfl (by decide) ?_ ?_
  · simp [Arrival.OfStream]
  · refine ⟨fun _ => by decide +kernel, ?_⟩
    intro copies bytes next returned
    have nextIs : next = (((Arrival.block 1 1).perform [1, 2] (fresh blankHeap blankWindow)).toOption.map
        fun answer => answer.2.2).getD (fresh blankHeap blankWindow) := by
      rw [returned]
      rfl
    subst nextIs
    exact ⟨fun _ => by decide +kernel, fun _ _ _ _ => ⟨trivial, fun _ _ _ _ => trivial⟩⟩

/-- The `memcpy` of a block beyond the reach of `safe_tail` leaves its node. -/
theorem stray_block_escapes : Empty (fresh blankHeap blankWindow) ∧
    (fresh blankHeap blankWindow).window.windowSize = windowBlockMaxDefault ∧
    (fresh blankHeap blankWindow).window.lastSeq = 0 ∧
    (Arrival.block 4097 1).OfStream (List.replicate 4098 0) ∧
    ¬ Reassembles (List.replicate 4098 0) (fresh blankHeap blankWindow) [] [.block 4097 1] := by
  refine ⟨fresh_empty blankHeap blankWindow, rfl, rfl, ?_, ?_⟩
  · exact ⟨by decide, by decide, by rw [List.length_replicate]⟩
  · rintro ⟨-, copies, bytes, next, returned, -, -⟩
    have stray : (Arrival.block 4097 1).perform (List.replicate 4098 0) (fresh blankHeap blankWindow) =
        .error .outOfBounds := by with_unfolding_all rfl
    rw [stray] at returned
    cases returned

end Altus.WindowedQueue
