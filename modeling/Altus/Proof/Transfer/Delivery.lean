import Altus.Library.Parts
import Altus.Proof.Peer.Directory
import Altus.Proof.Sender.Release
import Altus.Proof.Window.Filling

namespace Altus.Channel

open Bytes Parts WindowedQueue UBList

/-- Two applications, the sending channel of the one, the receiving channel of the other, and everything that the network
has of both. The network may deliver each datagram at any time, in any order and any number of times. -/
structure Transfer where
  sender : Endpoint
  receiver : Endpoint
  data : List Datagram
  acks : List Datagram
  /-- The bytes that `CreateUpstream` accepted. -/
  written : List Byte
  /-- The bytes that the receiving application popped. -/
  popped : List Byte

/-- One step of an application or of the network. The bytes of `rest` are what the buffer held behind the datagram. -/
inductive Action where
  | upstream (buf : Memory) (len : Int)
  | send (stack : Fin 16 → Memory)
  | data (index : Nat) (rest : Memory)
  | ack (index : Nat) (rest : Memory)
  | pop (length : Nat)

/-- The buffer that `recvfrom` filled with a datagram. -/
def filled (datagram : Datagram) (rest : Memory) : Memory := memcpy rest 0 (ofList datagram) datagram.length

/-- What a function of a window reads at an endpoint. -/
def Endpoint.state (endpoint : Endpoint) (window : WQWindow) : WQState :=
  ⟨endpoint.pools.heap, endpoint.pools.pool, window⟩

/-- A call of the sending side. -/
def Transfer.call (cuid : U16) (transfer : Transfer) (step : SenderStep) : Except Fault Transfer :=
  (step.perform cuid transfer.sender).map fun (code, sent, sender) =>
    { transfer with
      sender := sender
      data := transfer.data ++ sent
      written := transfer.written ++ step.written code }

/-- A data datagram arrives. -/
def Transfer.deliver (transfer : Transfer) (datagram : Datagram) (rest : Memory) : Except Fault Transfer :=
  (transfer.receiver.channel.processPacket transfer.receiver.pools (filled datagram rest) datagram.length).map
    fun (_, sent, pools, channel) =>
      { transfer with receiver := ⟨pools, channel⟩, acks := transfer.acks ++ sent }

/-- The application pops bytes of the receiving window. -/
def Transfer.take (transfer : Transfer) (length : Nat) : Except Fault Transfer :=
  match transfer.receiver.channel.storage with
  | .buffer window =>
      ((Arrival.pop length).perform transfer.written (transfer.receiver.state window)).map fun (_, bytes, state) =>
        { transfer with
          receiver := ⟨{ transfer.receiver.pools with heap := state.heap, pool := state.pool },
            { transfer.receiver.channel with storage := .buffer state.window }⟩
          popped := transfer.popped ++ bytes }
  | _ => .error .nullDereference

/-- The transfer after one step. -/
def Action.perform (cuid : U16) (transfer : Transfer) : Action → Except Fault Transfer
  | .upstream buf len => transfer.call cuid (.upstream buf len)
  | .send stack => transfer.call cuid (.send stack)
  | .data index rest =>
      match transfer.data[index]? with
      | none => .ok transfer
      | some datagram => transfer.deliver datagram rest
  | .ack index rest =>
      match transfer.acks[index]? with
      | none => .ok transfer
      | some datagram => transfer.call cuid (.ack (filled datagram rest) datagram.length)
  | .pop length => transfer.take length

/-- The receiving application has read a prefix of what was written, and all bytes that it can read now complete the
stream up to `lastSeq`. -/
def Intact (transfer : Transfer) : Prop :=
  ∃ window, transfer.receiver.channel.storage = .buffer window ∧
    Delivers transfer.written (transfer.receiver.state window) transfer.popped

/-- Every step returns, and the transfer is intact all along. -/
def Transfers (cuid : U16) (transfer : Transfer) : List Action → Prop
  | [] => Intact transfer
  | action :: rest => Intact transfer ∧ ∃ next, action.perform cuid transfer = .ok next ∧ Transfers cuid next rest

/-- A block that is accepted is in reach. A datagram without a payload is late, or it is next and nothing waits. -/
def Arrives (state : WQState) (datagram : Datagram) : Prop :=
  (payloadLength datagram = 0 → 0 < (state.window.lastSeq - sequenceOf datagram).toInt ∨
    sequenceOf datagram = state.window.lastSeq ∧ state.window.ubList.count = 0) ∧
  (payloadLength datagram ≠ 0 →
    Accepts state.window (sequenceOf datagram) (BitVec.ofNat 32 (payloadLength datagram)) →
      InReach state (sequenceOf datagram))

instance (state : WQState) (datagram : Datagram) : Decidable (Arrives state datagram) :=
  inferInstanceAs (Decidable (_ ∧ _))

/-- The conditions of a step: those of the sender's calls, a stream below 2^31 bytes, and blocks in reach. -/
def Action.Meets (transfer : Transfer) : Action → Prop
  | .upstream buf len => (SenderStep.upstream buf len).Meets transfer.sender transfer.written ∧
      transfer.written.length + (BitVec.ofInt 32 len).toNat < 2 ^ 31
  | .send stack => (SenderStep.send stack).Meets transfer.sender transfer.written
  | .data index _ => ∀ datagram window, transfer.data[index]? = some datagram →
      transfer.receiver.channel.storage = .buffer window → Arrives (transfer.receiver.state window) datagram
  | .ack _ _ => True
  | .pop _ => True

instance (transfer : Transfer) (index : Nat) (rest : Memory) : Decidable ((Action.data index rest).Meets transfer) :=
  match found : transfer.data[index]?, stored : transfer.receiver.channel.storage with
  | some datagram, .buffer window => decidable_of_iff (Arrives (transfer.receiver.state window) datagram)
      ⟨fun arrives other place same here => by
        obtain rfl := Option.some.inj (found.symm.trans same)
        obtain rfl := Storage.buffer.inj (stored.symm.trans here)
        exact arrives, fun meets => meets datagram window found stored⟩
  | none, _ => isTrue fun datagram window same => by
      rw [found] at same
      cases same
  | some _, .null | some _, .frstream _ | some _, .storage _ => isTrue fun datagram window _ here => by
      rw [stored] at here
      cases here

instance (transfer : Transfer) : (action : Action) → Decidable (action.Meets transfer)
  | .upstream buf len =>
      inferInstanceAs (Decidable ((SenderStep.upstream buf len).Meets transfer.sender transfer.written ∧ _))
  | .send stack => inferInstanceAs (Decidable ((SenderStep.send stack).Meets transfer.sender transfer.written))
  | .data index rest => inferInstanceAs (Decidable ((Action.data index rest).Meets transfer))
  | .ack _ _ | .pop _ => isTrue trivial

/-- Every step of the run meets its conditions. -/
def AllActionsMeet (cuid : U16) (transfer : Transfer) : List Action → Prop
  | [] => True
  | action :: rest => action.Meets transfer ∧ ∀ next, action.perform cuid transfer = .ok next →
      AllActionsMeet cuid next rest

section Grow

variable {stream : List Byte}

instance decideAllActionsMeet (cuid : U16) : (actions : List Action) → (transfer : Transfer) →
    Decidable (AllActionsMeet cuid transfer actions)
  | [], _ => isTrue trivial
  | action :: rest, transfer =>
      have _ : DecidablePred fun next => AllActionsMeet cuid next rest := decideAllActionsMeet cuid rest
      inferInstanceAs (Decidable (action.Meets transfer ∧ ∀ next, action.perform cuid transfer = .ok next →
        AllActionsMeet cuid next rest))

/-- The datagrams of a stream carry the longer one as well. -/
theorem Tiles.extend {sent : List Datagram} {position : Nat} (tiles : Tiles stream position sent) (more : List Byte) :
    Tiles (stream ++ more) position sent := by
  induction sent generalizing position with
  | nil => trivial
  | cons datagram rest ih =>
      obtain ⟨sequence, inside, carried, later⟩ := tiles
      refine ⟨sequence, by rw [List.length_append]; omega, ?_, ih later⟩
      rw [carried, List.drop_append_of_le_length (by omega), List.take_append_of_le_length (by simp; omega)]

theorem Tiles.append {sent later : List Datagram} {position : Nat} (tiles : Tiles stream position sent)
    (rest : Tiles stream (behind position sent) later) : Tiles stream position (sent ++ later) := by
  induction sent generalizing position with
  | nil => exact rest
  | cons datagram sent ih =>
      obtain ⟨sequence, inside, carried, tiles⟩ := tiles
      refine ⟨sequence, inside, carried, ih tiles ?_⟩
      rwa [behind_cons rfl] at rest

theorem behind_append (position : Nat) (sent later : List Datagram) :
    behind position (sent ++ later) = behind (behind position sent) later := by
  rw [behind, behind, behind, List.map_append, List.sum_append, Nat.add_assoc]

/-- The position of the datagram at an index. -/
def starts (data : List Datagram) (index : Nat) : Nat := behind 0 (data.take index)

theorem starts_succ {data : List Datagram} {index : Nat} {datagram : Datagram} (found : data[index]? = some datagram) :
    starts data (index + 1) = starts data index + payloadLength datagram := by
  rw [starts, List.take_add_one, found, behind_append]
  simp [behind, starts]

theorem starts_append {data : List Datagram} (more : List Datagram) {index : Nat} (inside : index ≤ data.length) :
    starts (data ++ more) index = starts data index := by
  rw [starts, starts, List.take_append_of_le_length inside]

theorem starts_length (data : List Datagram) : starts data data.length = behind 0 data := by
  rw [starts, List.take_length]

theorem starts_monotone (data : List Datagram) : Monotone (starts data) := by
  apply monotone_nat_of_le_succ
  intro index
  rw [starts, starts, List.take_add_one, behind_append]
  exact Nat.le_add_right _ _

/-- Each datagram carries the bytes at its own position. -/
theorem Tiles.at {sent : List Datagram} {position index : Nat} (tiles : Tiles stream position sent)
    {datagram : Datagram}
    (found : sent[index]? = some datagram) :
    sequenceOf datagram = BitVec.ofNat 32 (behind position (sent.take index)) ∧
      behind position (sent.take index) + payloadLength datagram ≤ stream.length ∧
      payload datagram = (stream.drop (behind position (sent.take index))).take (payloadLength datagram) := by
  induction sent generalizing position index with
  | nil => cases found
  | cons first rest ih =>
      obtain ⟨sequence, inside, carried, later⟩ := tiles
      cases index with
      | zero =>
          obtain rfl := Option.some.inj found
          exact ⟨sequence, inside, carried⟩
      | succ index =>
          rw [List.take_succ_cons, behind_cons rfl]
          exact ih later found

end Grow

section Receive

/-- A receiving channel puts the payload of a datagram, and acknowledges it. -/
theorem processPacket_puts {endpoint : Endpoint} {window : WQWindow} {datagram : Datagram} (rest : Memory)
    (receives : endpoint.channel.kind = (.rdtStream, true)) (storage : endpoint.channel.storage = .buffer window)
    (padded : 8 + paddingOf datagram ≤ datagram.length) (short : datagram.length ≤ 496) :
    endpoint.channel.processPacket endpoint.pools (filled datagram rest) datagram.length =
      (altusWQPut (endpoint.state window) (sequenceOf datagram) (BitVec.ofNat 32 (payloadLength datagram))
        (ofList (payload datagram))).map fun (_, _, state) =>
          (-1, [response state.window (filled datagram rest)],
            { endpoint.pools with heap := state.heap, pool := state.pool },
            { endpoint.channel with storage := .buffer state.window }) := by
  obtain ⟨type, receiving⟩ := Prod.mk.inj receives
  have same {index : Nat} (inside : index < datagram.length) : filled datagram rest index = ofList datagram index := by
    rw [filled, memcpy_inside (Nat.zero_le _) (by omega), Nat.sub_zero]
  have sequence : ntohl (filled datagram rest) 4 = sequenceOf datagram :=
    ntohl_congr fun index inside => same (by omega)
  have length : BitVec.ofInt 32 ((datagram.length : Int) - (rdtHeaderSize : Nat) - (filled datagram rest 2).toNat) =
      BitVec.ofNat 32 (payloadLength datagram) := by
    rw [same (by omega), ← BitVec.ofInt_natCast]
    congr 1
    rw [paddingOf] at padded
    rw [payloadLength, paddingOf, show (rdtHeaderSize : Nat) = 8 from rfl]
    omega
  have bytes : ∀ index < (BitVec.ofNat 32 (payloadLength datagram)).toNat,
      shift (filled datagram rest) rdtHeaderSize index = ofList (payload datagram) index := by
    intro index inside
    have below : index < payloadLength datagram := inside.trans_le (BitVec.toNat_ofNat _ _ ▸ Nat.mod_le _ _)
    rw [payloadLength] at below
    rw [shift, same (by rw [show (rdtHeaderSize : Nat) = 8 from rfl]; omega), ofList, ofList, payload,
      List.getD_eq_getElem?_getD, List.getD_eq_getElem?_getD, List.getElem?_take,
      if_pos (by rw [payloadLength]; exact below), List.getElem?_drop]
  rw [processPacket, receive, receiving, type]
  simp only [if_true, receiveData, storage, put, sequence, length]
  rw [altusWQPut_congr _ _ bytes]
  show Except.bind (Except.map _ (Except.map _ (altusWQPut (endpoint.state window) _ _ _))) _ = _
  cases altusWQPut (endpoint.state window) (sequenceOf datagram) (BitVec.ofNat 32 (payloadLength datagram))
      (ofList (payload datagram)) with
  | error fault => rfl
  | ok result =>
      simp only [Except.map, Except.bind, answer, if_pos (or_one_ne_zero _), one_ne_zero, if_false, if_true]

/-- A datagram of the stream that meets its conditions brings its bytes, or nothing. -/
theorem hears_datagram {stream popped : List Byte} {state : WQState} {view : View}
    (receiving : Receiving stream state popped view) (small : stream.length < 2 ^ 31) {datagram : Datagram}
    {start : Nat}
    (sequence : sequenceOf datagram = BitVec.ofNat 32 start) (below : start + payloadLength datagram ≤ stream.length)
    (carried : payload datagram = (stream.drop start).take (payloadLength datagram))
    (arrives : Arrives state datagram) :
    ∃ code copies next nextView, altusWQPut state (sequenceOf datagram) (BitVec.ofNat 32 (payloadLength datagram))
        (ofList (payload datagram)) = .ok (code, copies, next) ∧
      Receiving stream next popped nextView ∧ next.window.windowSize = state.window.windowSize ∧
      (payloadLength datagram = 0 → nextView = view) ∧
      (payloadLength datagram ≠ 0 →
        Accepts state.window (sequenceOf datagram) (BitVec.ofNat 32 (payloadLength datagram)) →
          Grows view start (start + payloadLength datagram) nextView ∧
            start ≤ view.origin + 4096 * (view.depth / 4096) + 4096) ∧
      (¬ Accepts state.window (sequenceOf datagram) (BitVec.ofNat 32 (payloadLength datagram)) → nextView = view) := by
  by_cases empty : payloadLength datagram = 0
  · obtain ⟨code, next, returned, kept⟩ := receiving.nothing (arrives.1 empty) (ofList (payload datagram))
    obtain ⟨-, -, size⟩ := receiving.represents.toTracks.put_tracks (by decide) returned
    rw [show (0 : U32) = BitVec.ofNat 32 (payloadLength datagram) by rw [empty]; rfl] at returned
    exact ⟨code, [], next, view, returned, kept, size, fun _ => rfl, fun some => absurd empty some, fun _ => rfl⟩
  · obtain ⟨code, copies, next, nextView, returned, -, -, kept, size, grows, stays⟩ :=
      receiving.piece_grows small (Nat.one_le_iff_ne_zero.mpr empty) below (by
        rw [Arrival.Reaches, ← sequence]
        exact arrives.2 empty)
    have content : ∀ place < (BitVec.ofNat 32 (payloadLength datagram)).toNat,
        shift (ofList stream) start place = ofList (payload datagram) place := by
      intro place early
      have within : place < payloadLength datagram := early.trans_le (BitVec.toNat_ofNat _ _ ▸ Nat.mod_le _ _)
      rw [carried, shift, ofList, ofList, List.getD_eq_getElem?_getD, List.getD_eq_getElem?_getD, List.getElem?_take,
        if_pos within, List.getElem?_drop]
    rw [altusWQPut_congr _ _ content, ← sequence] at returned
    rw [← sequence] at grows stays
    exact ⟨code, copies, next, nextView, returned, kept, size, fun zero => absurd zero empty, fun _ => grows, stays⟩

end Receive

/-- The received positions are whole datagrams, and each of them began in reach. -/
structure Filled (data : List Datagram) (window : WQWindow) (view : View) : Prop where
  size : window.windowSize = windowBlockMaxDefault
  aligned : 4096 ∣ view.origin
  whole : Whole (starts data) data.length view.points
  reached : ∀ index < data.length, starts data index < starts data (index + 1) →
    part (starts data) index ⊆ view.points → starts data index ≤ 4096 * (view.position / 4096) + 4096

section Filled

variable {data : List Datagram} {window nextWindow : WQWindow} {view nextView : View}

/-- New datagrams carry no received position. -/
theorem Filled.extend (filled : Filled data window view)
    (more : List Datagram) : Filled (data ++ more) window view where
  size := filled.size
  aligned := filled.aligned
  whole := by
    apply filled.whole.extend (starts_monotone _)
    · intro index inside
      exact starts_append more inside
    · simp
  reached := by
    intro index inside positive received
    rcases Nat.lt_or_ge index data.length with old | new
    · rw [part, starts_append more old.le, starts_append more old] at received
      rw [starts_append more old.le, starts_append more old] at positive
      rw [starts_append more old.le]
      exact filled.reached index old positive received
    · have first : starts (data ++ more) index < starts data data.length :=
        filled.whole.below (received ⟨le_rfl, positive⟩)
      rw [← starts_append more le_rfl] at first
      exact absurd first (not_lt.mpr (starts_monotone _ new))

/-- A pop keeps the received positions. -/
theorem Filled.pop (filled : Filled data window view) {state next : WQState} {count : Nat}
    (popped : Popped state view count next nextView)
    (same : state.window = window) : Filled data next.window nextView := by
  obtain ⟨position, runs, size⟩ := popped.sequence
  have points : nextView.points = view.points := by rw [View.points, View.points, position, runs]
  refine ⟨by rw [size, same]; exact filled.size, ?_, by rw [points]; exact filled.whole, ?_⟩
  · have aligned := filled.aligned
    have room := popped.room
    omega
  · rw [points, position]
    exact filled.reached

/-- A datagram in reach fills its positions. -/
theorem Filled.put (filled : Filled data window view) (size : nextWindow.windowSize = window.windowSize) {index : Nat}
    (inside : index < data.length) (grows : Grows view (starts data index) (starts data (index + 1)) nextView)
    (ordered : view.origin ≤ view.position)
    (near : starts data index ≤ view.origin + 4096 * (view.depth / 4096) + 4096) :
    Filled data nextWindow nextView := by
  have aligned := filled.aligned
  have forward := grows.forward
  have points := grows.points
  refine ⟨size.trans filled.size, by rw [grows.origin]; exact aligned, ?_, ?_⟩
  · rw [points]
    exact filled.whole.insert (starts_monotone data) inside
  · intro other known positive received
    have later : 4096 * (view.position / 4096) + 4096 ≤ 4096 * (nextView.position / 4096) + 4096 := by omega
    by_cases same : other = index
    · subst same
      have depth : view.depth = view.position - view.origin := rfl
      omega
    · rw [points] at received
      have old : part (starts data) other ⊆ view.points :=
        (part_apart (starts_monotone data) same).subset_left_of_subset_union received
      exact (filled.reached other known positive old).trans later

end Filled

/-- The sender's window and the datagrams carry what was written, and the receiver's window holds a part of it. -/
structure Transferring (transfer : Transfer) (sending receiving : WQWindow) (sent received : View) : Prop where
  sends : Sending transfer.sender transfer.written (behind 0 transfer.data) sending sent
  tiles : Tiles transfer.written 0 transfer.data
  framed : ∀ datagram ∈ transfer.data, 8 + paddingOf datagram ≤ datagram.length ∧ datagram.length ≤ 496
  small : transfer.written.length < 2 ^ 31
  kind : transfer.receiver.channel.kind = (.rdtStream, true)
  storage : transfer.receiver.channel.storage = .buffer receiving
  receives : Receiving transfer.written (transfer.receiver.state receiving) transfer.popped received
  fills : Filled transfer.data receiving received

section Steps

variable {cuid : U16} {transfer : Transfer} {sending receiving : WQWindow} {sent received : View}

theorem Transferring.intact (transferring : Transferring transfer sending receiving sent received) : Intact transfer :=
  ⟨receiving, transferring.storage, transferring.receives.delivers transferring.small⟩

/-- `CreateUpstream` continues what was written. -/
theorem Transferring.upstream (transferring : Transferring transfer sending receiving sent received) {buf : Memory}
    {len : Int} (meets : (Action.upstream buf len).Meets transfer) :
    ∃ next nextWindow nextView, (Action.upstream buf len).perform cuid transfer = .ok next ∧
      Transferring next nextWindow receiving nextView received := by
  obtain ⟨code, sender, nextWindow, nextView, performed, kept⟩ := transferring.sends.upstream meets.1
  refine ⟨_, nextWindow, nextView, by rw [Action.perform, Transfer.call, performed]; rfl, ?_⟩
  refine { transferring with sends := ?_, tiles := ?_, framed := ?_, small := ?_, receives := ?_, fills := ?_ }
  · dsimp only
    rw [List.append_nil]
    exact kept
  · dsimp only
    rw [List.append_nil]
    exact transferring.tiles.extend _
  · dsimp only
    rw [List.append_nil]
    exact transferring.framed
  · have small := meets.2
    have old := transferring.small
    rw [List.length_append, SenderStep.written]
    split
    · rw [read_length]
      exact small
    · exact old
  · exact transferring.receives.extend _
  · exact transferring.fills.extend _

/-- `Send` puts datagrams on the network that continue those before. -/
theorem Transferring.send (transferring : Transferring transfer sending receiving sent received)
    {stack : Fin 16 → Memory} (meets : (Action.send stack).Meets transfer) :
    ∃ next, (Action.send stack).perform cuid transfer = .ok next ∧
      Transferring next sending receiving sent received := by
  obtain ⟨datagrams, sender, performed, tiles, kept⟩ := @Sending.send cuid _ _ _ _ _ transferring.sends stack meets
  refine ⟨_, by rw [Action.perform, Transfer.call, performed]; rfl, ?_⟩
  have same : transfer.written ++ (SenderStep.send stack).written 0 = transfer.written := List.append_nil _
  refine { transferring with sends := ?_, tiles := ?_, framed := ?_, small := ?_, receives := ?_, fills := ?_ }
  · dsimp only
    rw [same, behind_append]
    exact kept
  · dsimp only
    rw [same]
    exact transferring.tiles.append tiles
  · intro datagram member
    rcases List.mem_append.mp member with old | new
    · exact transferring.framed datagram old
    · rw [SenderStep.perform] at performed
      split at performed
      · cases performed
      · cases performed
      · rename_i looped
        cases performed
        obtain ⟨-, frames⟩ :=
          sendLoop_dataFrame _ cuid _ (Or.inl transferring.sends.type) looped
        have frame := (frames datagram new).2
        exact ⟨frame.padding, frame.upper⟩
  · dsimp only
    rw [same]
    exact transferring.small
  · dsimp only
    rw [same]
    exact transferring.receives
  · exact transferring.fills.extend _

/-- An acknowledgement leaves the stream as it is. -/
theorem Transferring.ack (transferring : Transferring transfer sending receiving sent received) (index : Nat)
    (rest : Memory) : ∃ next nextWindow nextView, (Action.ack index rest).perform cuid transfer = .ok next ∧
      Transferring next nextWindow receiving nextView received := by
  rw [Action.perform]
  split
  · exact ⟨transfer, sending, sent, rfl, transferring⟩
  rename_i datagram found
  obtain ⟨code, sender, nextWindow, nextView, performed, kept⟩ :=
    @Sending.ack cuid _ _ _ _ _ transferring.sends (filled datagram rest) datagram.length
  refine ⟨_, nextWindow, nextView, by rw [Transfer.call, performed]; rfl, ?_⟩
  have same : transfer.written ++ (SenderStep.ack (filled datagram rest) datagram.length).written code =
      transfer.written := List.append_nil _
  refine { transferring with sends := ?_, tiles := ?_, framed := ?_, small := ?_, receives := ?_, fills := ?_ }
  · dsimp only
    rw [same, List.append_nil]
    exact kept
  · dsimp only
    rw [same, List.append_nil]
    exact transferring.tiles
  · dsimp only
    rw [List.append_nil]
    exact transferring.framed
  · dsimp only
    rw [same]
    exact transferring.small
  · dsimp only
    rw [same]
    exact transferring.receives
  · exact transferring.fills.extend _

/-- A delivery and a pop leave the sender, the datagrams and what was written alone. -/
def Transfer.SameSender (transfer next : Transfer) : Prop :=
  next.sender = transfer.sender ∧ next.data = transfer.data ∧ next.written = transfer.written

/-- A datagram that meets its condition brings bytes of the stream, or nothing. An accepted one fills its positions. -/
theorem Transferring.deliver (transferring : Transferring transfer sending receiving sent received) {index : Nat}
    {datagram : Datagram} (found : transfer.data[index]? = some datagram)
    (arrives : Arrives (transfer.receiver.state receiving) datagram) (rest : Memory) :
    ∃ next nextWindow nextView, transfer.deliver datagram rest = .ok next ∧
      Transferring next sending nextWindow sent nextView ∧ transfer.SameSender next ∧ next.popped = transfer.popped ∧
      (payloadLength datagram ≠ 0 →
        Accepts receiving (sequenceOf datagram) (BitVec.ofNat 32 (payloadLength datagram)) →
          nextView.points = received.points ∪ part (starts transfer.data) index) := by
  obtain ⟨inside, -⟩ := List.getElem?_eq_some_iff.mp found
  obtain ⟨padded, short⟩ := transferring.framed datagram (List.mem_of_getElem? found)
  have puts := processPacket_puts rest transferring.kind transferring.storage padded short
  have arrived {code : Int} {copies : List Copy} {state : WQState} {view : View}
      (returned : altusWQPut (transfer.receiver.state receiving) (sequenceOf datagram)
        (BitVec.ofNat 32 (payloadLength datagram)) (ofList (payload datagram)) = .ok (code, copies, state))
      (kept : Receiving transfer.written state transfer.popped view) (fills : Filled transfer.data state.window view) :
      ∃ next, transfer.deliver datagram rest = .ok next ∧
        Transferring next sending state.window sent view ∧ transfer.SameSender next ∧ next.popped = transfer.popped := by
    refine ⟨_, by rw [Transfer.deliver, puts, returned]; rfl, ?_⟩
    exact ⟨{ transferring with kind := transferring.kind, storage := rfl, receives := kept, fills := fills },
      ⟨rfl, rfl, rfl⟩, rfl⟩
  obtain ⟨sequence, below, carried⟩ := transferring.tiles.at found
  rw [← starts] at sequence below carried
  obtain ⟨code, copies, state, view, returned, kept, size, idle, grows, stays⟩ :=
    hears_datagram transferring.receives transferring.small sequence below carried arrives
  rw [← starts_succ found] at grows
  have fills : Filled transfer.data state.window view := by
    by_cases brings : payloadLength datagram ≠ 0 ∧
        Accepts receiving (sequenceOf datagram) (BitVec.ofNat 32 (payloadLength datagram))
    · obtain ⟨grown, near⟩ := grows brings.1 brings.2
      exact transferring.fills.put size inside grown transferring.receives.represents.ordered near
    · have same : view = received := by
        by_cases empty : payloadLength datagram = 0
        · exact idle empty
        · exact stays fun accepts => brings ⟨empty, accepts⟩
      rw [same]
      exact { transferring.fills with size := size.trans transferring.fills.size }
  obtain ⟨next, delivered, transferred, same, popped⟩ := arrived returned kept fills
  exact ⟨next, _, _, delivered, transferred, same, popped, fun some accepts => (grows some accepts).1.points⟩

/-- The application takes the next bytes. -/
theorem Transferring.take (transferring : Transferring transfer sending receiving sent received) (length : Nat) :
    ∃ next nextWindow nextView, (Action.pop length).perform cuid transfer = .ok next ∧
      Transferring next sending nextWindow sent nextView := by
  obtain ⟨state, view, returned, kept, popped⟩ := transferring.receives.pop_takes length
  refine ⟨_, state.window, view, by rw [Action.perform, Transfer.take, transferring.storage]; dsimp only; rw [returned]; rfl,
    ?_⟩
  exact { transferring with
    kind := transferring.kind, storage := rfl, receives := kept, fills := transferring.fills.pop popped rfl }

/-- Every step that meets its conditions returns and keeps the transfer. -/
theorem Transferring.step (transferring : Transferring transfer sending receiving sent received) {action : Action}
    (meets : action.Meets transfer) : ∃ next nextSending nextReceiving nextSent nextReceived,
      action.perform cuid transfer = .ok next ∧
        Transferring next nextSending nextReceiving nextSent nextReceived := by
  cases action with
  | upstream buf len =>
      obtain ⟨next, window, view, performed, kept⟩ := @Transferring.upstream cuid _ _ _ _ _ transferring _ _ meets
      exact ⟨next, window, receiving, view, received, performed, kept⟩
  | send stack =>
      obtain ⟨next, performed, kept⟩ := @Transferring.send cuid _ _ _ _ _ transferring _ meets
      exact ⟨next, sending, receiving, sent, received, performed, kept⟩
  | data index rest =>
      rw [Action.perform]
      split
      · exact ⟨transfer, sending, receiving, sent, received, rfl, transferring⟩
      rename_i datagram found
      obtain ⟨next, window, view, performed, kept, -⟩ :=
        transferring.deliver found (meets datagram receiving found transferring.storage) rest
      exact ⟨next, sending, window, sent, view, performed, kept⟩
  | ack index rest =>
      obtain ⟨next, window, view, performed, kept⟩ := @Transferring.ack cuid _ _ _ _ _ transferring index rest
      exact ⟨next, window, receiving, view, received, performed, kept⟩
  | pop length =>
      obtain ⟨next, window, view, performed, kept⟩ := @Transferring.take cuid _ _ _ _ _ transferring length
      exact ⟨next, sending, window, sent, view, performed, kept⟩

theorem Transferring.run (transferring : Transferring transfer sending receiving sent received) {actions : List Action}
    (meet : AllActionsMeet cuid transfer actions) : Transfers cuid transfer actions := by
  induction actions generalizing transfer sending receiving sent received with
  | nil => exact transferring.intact
  | cons action rest ih =>
      obtain ⟨next, nextSending, nextReceiving, nextSent, nextReceived, performed, kept⟩ :=
        @Transferring.step cuid _ _ _ _ _ transferring _ meet.1
      exact ⟨transferring.intact, next, performed, ih kept (meet.2 next performed)⟩

end Steps

/-- A receiving channel at its start, next to a well-formed pool. -/
structure Awaits (receiver : Endpoint) (window : WQWindow) : Prop where
  storage : receiver.channel.storage = .buffer window
  kind : receiver.channel.kind = (.rdtStream, true)
  empty : Empty (receiver.state window)
  size : window.windowSize = windowBlockMaxDefault
  lastSeq : window.lastSeq = 0

/-- The two channels before the first step. -/
def Transfer.initial (sender receiver : Endpoint) : Transfer := ⟨sender, receiver, [], [], [], []⟩

theorem initial_transferring {sender receiver : Endpoint} {window receiverWindow : WQWindow}
    (starts : Starts sender window) (awaits : Awaits receiver receiverWindow) :
    ∃ sent received, Transferring (Transfer.initial sender receiver) window receiverWindow sent received := by
  obtain ⟨sent, sends⟩ := starts.sending
  obtain ⟨cells, free, receives⟩ := awaits.empty.receiving awaits.lastSeq awaits.size []
  refine ⟨sent, _, sends, trivial, ?_, Nat.two_pow_pos 31, awaits.kind, awaits.storage, receives, ?_⟩
  · intro datagram member
    cases member
  · exact ⟨awaits.size, Nat.dvd_zero 4096, ⟨by simp [View.points], fun index inside => absurd inside (Nat.not_lt_zero index)⟩,
      fun index inside => absurd inside (Nat.not_lt_zero index)⟩

/-- What one application writes reaches the other in every run whose steps meet their conditions. -/
theorem run_transfers {sender receiver : Endpoint} {window receiverWindow : WQWindow}
    (starts : Starts sender window) (awaits : Awaits receiver receiverWindow) (cuid : U16) {actions : List Action}
    (meet : AllActionsMeet cuid (Transfer.initial sender receiver) actions) :
    Transfers cuid (Transfer.initial sender receiver) actions := by
  obtain ⟨sent, received, transferring⟩ := initial_transferring starts awaits
  exact transferring.run meet

theorem freshReceiver_awaits : Awaits freshReceiver (fresh blankHeap blankWindow).window :=
  ⟨rfl, rfl, fresh_empty blankHeap blankWindow, rfl, rfl⟩

/-- Ten bytes are written, sent, received twice, acknowledged and popped. -/
theorem run_transfers_ten : Transfers 0 (Transfer.initial freshSender freshReceiver)
    [.upstream (fun _ => 7) 10, .send fun _ _ => 0, .data 0 fun _ => 9, .data 0 fun _ => 9, .ack 0 fun _ => 9,
      .pop 20] :=
  run_transfers freshSender_starts freshReceiver_awaits 0 (by decide +kernel)

end Altus.Channel
