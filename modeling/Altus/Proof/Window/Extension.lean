import Altus.Proof.Window.Fifo
import Altus.Proof.Window.Reassembly

namespace Altus.WindowedQueue

open Bytes

/-- A block at `lastSeq` is in reach. -/
theorem Represents.inReach_next {state : WQState} {view : View} {length : U32} (represents : Represents state view)
    (accepts : Accepts state.window state.window.lastSeq length) (small : length.toNat < 2 ^ 31) :
    InReach state state.window.lastSeq := by
  have depth : view.depth = view.position - view.origin := rfl
  have ordered := represents.ordered
  rw [represents.inReach_iff accepts (accepts.short small), firstPosition_lastSeq]
  omega

section Stays

/-- A window stands with its nodes as it did, next to another chain of the pool. -/
structure Stays (state next : WQState) (view : View) (free : List Ptr) : Prop where
  window : next.window = state.window
  formed : Formed next view.cells free (view.depth / 4096)
  same : ∀ pointer ∈ view.cells, next.heap.node pointer = state.heap.node pointer

variable {state next : WQState} {view : View} {free : List Ptr}

theorem Stays.stored (stays : Stays state next view free) (offset : Nat) :
    stored next.heap view.cells offset = stored state.heap view.cells offset := by
  rw [WindowedQueue.stored, WindowedQueue.stored]
  cases found : view.cells[offset / 4096]? with
  | none => rfl
  | some pointer => rw [Option.map_some, Option.map_some, stays.same pointer (List.mem_of_getElem? found)]

theorem Tracks.stays (tracks : Tracks state view) (stays : Stays state next view free) :
    Tracks next { view with free := free } := by
  obtain ⟨heap, pool, window⟩ := next
  obtain rfl : window = state.window := stays.window
  have counts : Counts heap view.cells (view.depth / 4096) (view.depth % 4096) := by
    refine ⟨?_, ?_⟩
    · intro place pointer before found
      rw [stays.same pointer (List.mem_of_getElem? found)]
      exact tracks.counts.full place pointer before found
    · intro pointer found
      rw [stays.same pointer (List.mem_of_getElem? found)]
      exact tracks.counts.partly pointer found
  exact { tracks with formed := stays.formed, counts := counts }

theorem Represents.stays (represents : Represents state view) (stays : Stays state next view free) :
    Represents next { view with free := free } :=
  { represents.toTracks.stays stays with nonempty := represents.nonempty }

theorem Reading.stays (reading : Reading state view) (stays : Stays state next view free) :
    Reading next { view with free := free } :=
  ⟨by rw [stays.window]; exact reading.offset, by rw [stays.window]; exact reading.consumed⟩

theorem Reads.stays {content : Memory} (reads : Reads state view content) (stays : Stays state next view free) :
    Reads next { view with free := free } content := fun point above before =>
  (stays.stored _).trans (reads point above before)

/-- What another window of the pool does leaves the reception of a window as it is. -/
theorem Receiving.stays {stream popped : List Byte} (receiving : Receiving stream state popped view)
    (stays : Stays state next view free) : Receiving stream next popped { view with free := free } := by
  refine ⟨receiving.represents.stays stays, receiving.reading.stays stays, receiving.backed, ?_, receiving.bounded,
    receiving.listed, ?_⟩
  · intro point above inside
    exact (stays.stored _).trans (receiving.holds point above inside)
  · rw [receiving.popped, front, front, stays.window]

end Stays

/-- An empty window that starts at sequence number 0 has received nothing of any stream. -/
theorem Empty.receiving {state : WQState} (empty : Empty state) (lastSeq : state.window.lastSeq = 0)
    (size : state.window.windowSize = windowBlockMaxDefault) (stream : List Byte) :
    ∃ cells free, Receiving stream state [] ⟨cells, free, 0, 0, []⟩ := by
  obtain ⟨cells, free, represents, reading⟩ := @Empty.represents _ empty 0 lastSeq (by rw [size]; decide)
    (by rw [size]; decide)
  refine ⟨cells, free, represents, reading, by simp [View.Backed], by simp [Holds], Nat.zero_le _, by simp, ?_⟩
  rw [front, empty.offset]
  rfl

section Receiving

variable {stream popped : List Byte} {state : WQState} {view : View}

/-- More bytes of a stream change nothing for what is received of it. -/
theorem Receiving.extend (receiving : Receiving stream state popped view) (more : List Byte) :
    Receiving (stream ++ more) state popped view := by
  have longer : stream.length ≤ (stream ++ more).length := by simp
  refine ⟨receiving.represents, receiving.reading, receiving.backed, ?_, receiving.bounded.trans longer,
    receiving.listed.trans (Set.Iio_subset_Iio longer), ?_⟩
  · intro point above inside
    have below : point < stream.length := by
      rcases inside with early | covered
      · exact early.trans_le receiving.bounded
      · exact receiving.listed covered
    rw [receiving.holds point above inside, ofList, ofList, List.getD_append _ _ _ _ below]
  · rw [List.take_append_of_le_length (receiving.front_le.trans receiving.bounded)]
    exact receiving.popped

/-- A put of no bytes, which is late or finds nothing waiting, keeps the reception. -/
theorem Receiving.nothing (receiving : Receiving stream state popped view) {seq : U32}
    (harmless : 0 < (state.window.lastSeq - seq).toInt ∨ seq = state.window.lastSeq ∧ state.window.ubList.count = 0)
    (data : Memory) :
    ∃ code next, altusWQPut state seq 0 data = .ok (code, [], next) ∧ Receiving stream next popped view := by
  have represents := receiving.represents
  by_cases accepts : Accepts state.window seq 0
  · obtain ⟨rfl, empty⟩ := harmless.resolve_left accepts.1
    have noRuns := represents.lists.runs_nil represents.few empty
    obtain ⟨next, returned, nextRepresents, sameData, sameOffset⟩ := represents.put_nothing noRuns accepts data
    refine ⟨0, next, returned, nextRepresents, ?_, receiving.backed, ?_, receiving.bounded, receiving.listed, ?_⟩
    · exact ⟨by rw [sameOffset]; exact receiving.reading.offset, by rw [sameOffset]; exact receiving.reading.consumed⟩
    · intro point above inside
      rw [← receiving.holds point above inside]
      simp only [stored, sameData]
    · rw [receiving.popped, front, front, sameOffset]
  · exact ⟨_, state, altusWQPut_refused data accepts, receiving⟩

/-- A put at `lastSeq` continues a stream that is received in full. -/
theorem Receiving.append (receiving : Receiving stream state popped view) (empty : state.window.ubList.count = 0)
    (all : state.window.lastSeq.toNat = stream.length) {length : U32} (small : stream.length + length.toNat < 2 ^ 31)
    (data : Memory) :
    ∃ code copies next nextView, altusWQPut state state.window.lastSeq length data = .ok (code, copies, next) ∧
      (∀ copy ∈ copies, copy.writeoffset + copy.writelen ≤ 4096) ∧
      Receiving (stream ++ if code = 0 then Bytes.read data length.toNat else []) next popped nextView := by
  by_cases accepts : Accepts state.window state.window.lastSeq length
  · rcases Nat.eq_zero_or_pos length.toNat with zero | positive
    · obtain rfl : length = 0 := BitVec.eq_of_toNat_eq zero
      obtain ⟨code, next, returned, kept⟩ := receiving.nothing (Or.inr ⟨rfl, empty⟩) data
      refine ⟨code, [], next, view, returned, by simp, ?_⟩
      exact kept.extend _
    have longer := receiving.extend (Bytes.read data length.toNat)
    have place : state.window.lastSeq = BitVec.ofNat 32 stream.length := by rw [← all, BitVec.ofNat_toNat, BitVec.setWidth_eq]
    have count : length = BitVec.ofNat 32 length.toNat := by rw [BitVec.ofNat_toNat, BitVec.setWidth_eq]
    obtain ⟨code, copies, next, nextView, returned, zero, inside, kept⟩ := longer.piece
      (by rw [List.length_append, read_length]; exact small) positive (by rw [List.length_append, read_length])
      (fun _ => by rw [← place]; exact receiving.represents.inReach_next accepts (by omega))
    rw [← place, ← count] at returned zero
    obtain rfl := zero accepts
    refine ⟨0, copies, next, nextView, ?_, inside, by rw [if_pos rfl]; exact kept⟩
    rw [← returned]
    apply altusWQPut_congr
    intro index below
    rw [shift, ofList, List.getD_append_right _ _ _ _ (by omega), Nat.add_sub_cancel_left, read_getD _ _ below]
  · refine ⟨_, [], state, view, altusWQPut_refused data accepts, by simp, ?_⟩
    have negative := refusal_neg state.window state.window.lastSeq length
    rw [if_neg (by omega), List.append_nil]
    exact receiving

end Receiving

end Altus.WindowedQueue
