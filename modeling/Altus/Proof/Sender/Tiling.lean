import Altus.Proof.FileStream.Owners
import Altus.Proof.Sender.Packet

namespace Altus.Channel

open Bytes WindowedQueue

/-- A channel and the pools of its host. -/
structure Endpoint where
  pools : Pools
  channel : Channel

/-- One call on a sending channel. -/
inductive SenderStep where
  | upstream (buf : Memory) (len : Int)
  | send (stack : Fin 16 → Memory)
  | ack (buf : Memory) (packetSize : Int)

/-- The call answers its code, the datagrams it sends and the channel after it. -/
def SenderStep.perform (cuid : U16) (sender : Endpoint) : SenderStep → Except Fault (Int × List Datagram × Endpoint)
  | .upstream buf len =>
      (createUpstream sender.pools sender.channel buf len).map fun (code, pools, channel) =>
        (code, [], ⟨pools, channel⟩)
  | .send stack =>
      match sendLoop sender.pools.heap cuid (List.ofFn stack) sender.channel with
      | .error fault => .error fault
      | .ok (sent, none) => .ok (-2, sent, sender)
      | .ok (sent, some channel) => .ok (0, sent, ⟨sender.pools, channel⟩)
  | .ack buf packetSize =>
      (receive sender.pools sender.channel buf packetSize).map fun (code, pools, channel) =>
        (code, [], ⟨pools, channel⟩)

/-- The bytes that a call adds to the stream: the buffer of a `CreateUpstream` that answers zero. -/
def SenderStep.written (code : Int) : SenderStep → List Byte
  | .upstream buf len => if code = 0 then read buf (BitVec.ofInt 32 len).toNat else []
  | .send _ => []
  | .ack _ _ => []

/-- The datagrams carry the stream from a position on, one after the other. -/
def Tiles (stream : List Byte) : (position : Nat) → List Datagram → Prop
  | _, [] => True
  | position, datagram :: rest =>
      sequenceOf datagram = BitVec.ofNat 32 position ∧ position + payloadLength datagram ≤ stream.length ∧
      payload datagram = (stream.drop position).take (payloadLength datagram) ∧
      Tiles stream (position + payloadLength datagram) rest

/-- The position behind a list of datagrams. -/
def behind (position : Nat) (sent : List Datagram) : Nat := position + (sent.map payloadLength).sum

/-- Every call returns, and all datagrams of the run together carry the stream. -/
def SendsStream (cuid : U16) (sender : Endpoint) (stream : List Byte) (position : Nat) : List SenderStep → Prop
  | [] => True
  | step :: rest => ∃ code sent next, step.perform cuid sender = .ok (code, sent, next) ∧
      Tiles (stream ++ step.written code) position sent ∧
      SendsStream cuid next (stream ++ step.written code) (behind position sent) rest

/-- A `CreateUpstream` finds `NextSendSeq` at or before `lastSeq`. A `Send` that has something to send
finds it there too, no node of the window is released yet, and the last short datagram of the call does
not cross into the last node unless it is the sixteenth. -/
def SenderStep.Meets (sender : Endpoint) (stream : List Byte) : SenderStep → Prop
  | .upstream _ _ => ∀ window, sender.channel.storage = .buffer window →
      0 ≤ (window.lastSeq - sender.channel.nextSendSeq).toInt
  | .send _ => ∀ window, sender.channel.storage = .buffer window → sender.channel.isUpdated = true →
      0 ≤ (window.lastSeq - sender.channel.nextSendSeq).toInt ∧
      stream.length = 4096 * (window.safeLen.toNat - 1) +
        (sender.pools.heap.node window.safeTail).validBlockCount.toNat ∧
      ((window.lastSeq - sender.channel.nextSendSeq).toNat / 488 < 15 →
        (sender.pools.heap.node window.safeTail).validBlockCount = 0 ∨
        (window.lastSeq - sender.channel.nextSendSeq).toNat % 488 ≤
          (sender.pools.heap.node window.safeTail).validBlockCount.toNat)
  | .ack _ _ => True

instance (storage : Storage) (holds : WQWindow → Prop) [DecidablePred holds] :
    Decidable (∀ window, storage = .buffer window → holds window) :=
  match storage with
  | .buffer window => decidable_of_iff (holds window)
      ⟨fun held other same => Storage.buffer.inj same ▸ held, fun all => all window rfl⟩
  | .null | .frstream _ | .storage _ => isTrue fun _ impossible => by cases impossible

instance (sender : Endpoint) (stream : List Byte) : (step : SenderStep) → Decidable (step.Meets sender stream)
  | .upstream _ _ => inferInstanceAs (Decidable (∀ window, sender.channel.storage = .buffer window → _))
  | .send _ => inferInstanceAs (Decidable (∀ window, sender.channel.storage = .buffer window → _ → _))
  | .ack _ _ => isTrue trivial

/-- Every call of the run meets its condition. -/
def AllMeet (cuid : U16) (sender : Endpoint) (stream : List Byte) : List SenderStep → Prop
  | [] => True
  | step :: rest => step.Meets sender stream ∧ ∀ code sent next, step.perform cuid sender = .ok (code, sent, next) →
      AllMeet cuid next (stream ++ step.written code) rest

instance decideAllMeet (cuid : U16) : (steps : List SenderStep) → (sender : Endpoint) → (stream : List Byte) →
    Decidable (AllMeet cuid sender stream steps)
  | [], _, _ => isTrue trivial
  | step :: rest, sender, stream =>
      have _ (answer : Int × List Datagram × Endpoint) :
          Decidable (AllMeet cuid answer.2.2 (stream ++ step.written answer.1) rest) := decideAllMeet cuid rest _ _
      decidable_of_iff (step.Meets sender stream ∧ ∀ answer, step.perform cuid sender = .ok answer →
          AllMeet cuid answer.2.2 (stream ++ step.written answer.1) rest)
        (and_congr_right fun _ => ⟨fun all _ _ _ performed => all _ performed,
          fun all _ performed => all _ _ _ performed⟩)

/-- `NextSendSeq` stands for the position to send, or a short datagram has moved it beyond the stream. -/
def Cursor (total position : Nat) (nextSendSeq : U32) : Prop :=
  position ≤ total ∧ nextSendSeq = BitVec.ofNat 32 position ∨
    position = total ∧ ∃ gap, 1 ≤ gap ∧ gap ≤ 488 ∧ nextSendSeq = BitVec.ofNat 32 (total + gap)

/-- The window of a sending channel holds the stream, from the first byte that is not released on. -/
structure Sending (sender : Endpoint) (stream : List Byte) (position : Nat) (window : WQWindow) (view : View) :
    Prop where
  storage : sender.channel.storage = .buffer window
  type : sender.channel.type = .rdtStream
  sends : sender.channel.isReceiving = false
  represents : Represents ⟨sender.pools.heap, sender.pools.pool, window⟩ view
  reading : Reading ⟨sender.pools.heap, sender.pools.pool, window⟩ view
  reads : Reads ⟨sender.pools.heap, sender.pools.pool, window⟩ view (ofList stream)
  noRuns : view.runs = []
  headSeq : window.headSeq = 0
  written : view.position = stream.length
  cursor : Cursor stream.length position sender.channel.nextSendSeq

/-- A cursor beyond the stream is behind `lastSeq` in no reading. -/
theorem Cursor.here {total position : Nat} {lastSeq nextSendSeq : U32} (cursor : Cursor total position nextSendSeq)
    (last : lastSeq = BitVec.ofNat 32 total) (ahead : 0 ≤ (lastSeq - nextSendSeq).toInt) :
    position ≤ total ∧ nextSendSeq = BitVec.ofNat 32 position := by
  rcases cursor with here | ⟨-, gap, positive, small, beyond⟩
  · exact here
  · have distance := @Serial.toNat_sub_reverse 32 (total + gap) total (by omega) (by omega)
    rw [last, beyond, BitVec.toInt_eq_toNat_cond, distance] at ahead
    split at ahead <;> omega

section Rounds

variable {state : WQState} {view : View} {stream : List Byte}

theorem tiles_cons {datagram : Datagram} {rest : List Datagram} {position count : Nat}
    (carries : Carries datagram (ofList stream) position count) (inside : position + count ≤ stream.length)
    (later : Tiles stream (position + count) rest) : Tiles stream position (datagram :: rest) := by
  refine ⟨carries.sequence, ?_, ?_, ?_⟩
  · rw [carries.length]
    exact inside
  · rw [carries.bytes, carries.length, read_ofList inside]
  · rw [carries.length]
    exact later

theorem behind_cons {datagram : Datagram} {rest : List Datagram} {position count : Nat}
    (length : payloadLength datagram = count) :
    behind position (datagram :: rest) = behind (position + count) rest := by
  rw [behind, behind, List.map_cons, List.sum_cons, length, Nat.add_assoc]

theorem sendLoop_idle (heap : WQHeap) (cuid : U16) (stack : List Memory) {channel : Channel}
    (idle : channel.isUpdated = false) : sendLoop heap cuid stack channel = .ok ([], some channel) := by
  cases stack with
  | nil => rfl
  | cons buf stack => simp [sendLoop, idle]

/-- The rounds of one call send the stream from the cursor on. -/
theorem sendLoop_tiles (represents : Represents state view) (reads : Reads state view (ofList stream))
    (written : view.position = stream.length)
    (headSeq : state.window.headSeq = BitVec.ofNat 32 view.origin) (cuid : U16) (stack : List Memory) :
    ∀ {channel : Channel} {position : Nat}, channel.storage = .buffer state.window →
      channel.type = .rdtStream → channel.isReceiving = false → channel.isUpdated = true →
      channel.nextSendSeq = BitVec.ofNat 32 position → view.origin ≤ position → position ≤ stream.length →
      ((stream.length - position) / 488 + 1 < stack.length →
        view.depth % 4096 = 0 ∨ (stream.length - position) % 488 ≤ view.depth % 4096) →
      ∃ sent nextSendSeq isUpdated, sendLoop state.heap cuid stack channel =
          .ok (sent, some { channel with nextSendSeq := nextSendSeq, isUpdated := isUpdated }) ∧
        Tiles stream position sent ∧ Cursor stream.length (behind position sent) nextSendSeq := by
  induction stack with
  | nil =>
      intro channel position storage type sends updated cursor above below inside
      exact ⟨[], channel.nextSendSeq, channel.isUpdated, rfl, trivial, Or.inl ⟨below, cursor⟩⟩
  | cons buf stack ih =>
      intro channel position storage type sends updated cursor above below inside
      obtain ⟨datagram, packet, carries⟩ :=
        rdtPacket_spec represents reads headSeq above (by rw [written]; exact below) cuid buf
      rw [written] at packet carries
      have moved : channel.nextSendSeq + rdtDataSize = BitVec.ofNat 32 (position + 488) := by
        rw [cursor, ← BitVec.ofNat_add]
      have round (goesOn : Bool)
          (goes : decide (488 ≤ view.room position ∨ view.room position < stream.length - position) = goesOn)
          {sent : List Datagram} {final : Channel}
          (later : sendLoop state.heap cuid stack { channel with
            nextSendSeq := BitVec.ofNat 32 (position + 488), isUpdated := goesOn } = .ok (sent, some final)) :
          sendLoop state.heap cuid (buf :: stack) channel = .ok (datagram :: sent, some final) := by
        rw [goes] at packet
        rw [sendLoop, updated, sends, type, storage]
        simp only [not_true_eq_false, Bool.false_eq_true, if_false, cursor, packet]
        rw [cursor] at moved
        simp only [type, sends, storage] at later
        rw [moved, later]
      have roomIs : view.room position = min (4096 - (position - view.origin) % 4096) (stream.length - position) := by
        rw [View.room, written]
      have depth : view.depth = stream.length - view.origin := by rw [View.depth, written]
      by_cases full : position + 488 ≤ stream.length
      · have count : min 488 (stream.length - position) = 488 := by omega
        rw [count] at carries
        rw [List.length_cons] at inside
        obtain ⟨sent, nextSendSeq, isUpdated, looped, tiles, cursorLater⟩ :=
          @ih { channel with nextSendSeq := BitVec.ofNat 32 (position + 488), isUpdated := true } (position + 488)
            storage type sends rfl rfl (by omega) full (by omega)
        refine ⟨datagram :: sent, nextSendSeq, isUpdated, round true (decide_eq_true (by omega)) looped,
          tiles_cons carries full tiles, ?_⟩
        rw [behind_cons carries.length]
        exact cursorLater
      · have count : min 488 (stream.length - position) = stream.length - position := by omega
        rw [count] at carries
        have beyond : Cursor stream.length (behind position [datagram]) (BitVec.ofNat 32 (position + 488)) := by
          rw [behind_cons carries.length]
          refine Or.inr ⟨?_, position + 488 - stream.length, by omega, by omega, ?_⟩
          · simp only [behind, List.map_nil, List.sum_nil]
            omega
          · rw [show stream.length + (position + 488 - stream.length) = position + 488 by omega]
        have tiles : Tiles stream position [datagram] := tiles_cons carries (by omega) trivial
        by_cases crossing : view.room position < stream.length - position
        · -- A short datagram that crosses into the last node is the last round of the call.
          obtain rfl : stack = [] := by
            by_contra more
            have positive := List.length_pos_iff.mpr more
            have last := inside (by rw [List.length_cons]; omega)
            omega
          exact ⟨[datagram], _, true, round true (decide_eq_true (by omega)) rfl, tiles, beyond⟩
        · exact ⟨[datagram], _, false, round false (decide_eq_false (by omega)) (sendLoop_idle _ _ _ rfl), tiles,
            beyond⟩

end Rounds

section Acknowledge

variable {pools : Pools} {channel : Channel} {buf : Memory}

/-- The sender takes an acknowledgement that reports no loss and is neither old nor ahead of `NextSendSeq`. -/
def AcceptsAck (channel : Channel) (buf : Memory) : Prop :=
  0 ≤ (ntohl buf 4 - channel.lastAckedSeq).toInt ∧ 0 ≤ (channel.nextSendSeq - ntohl buf 4).toInt ∧ ntohs buf 2 = 0

theorem receiveAck_refused (refused : ¬ AcceptsAck channel buf) :
    ∃ code, receiveAck pools channel buf = .ok (code, 0, pools, channel) := by
  rw [receiveAck]
  by_cases old : (ntohl buf 4 - channel.lastAckedSeq).toInt < 0 ∨ (channel.nextSendSeq - ntohl buf 4).toInt < 0
  · exact ⟨0, by rw [if_pos old]⟩
  · rw [if_neg old, if_pos]
    · exact ⟨-1, rfl⟩
    · intro whole
      push Not at old
      exact refused ⟨old.1, old.2, whole⟩

/-- An accepted acknowledgement pops the distance of its number from `lastAckedSeq`, which stays. -/
theorem receiveAck_accepted (accepts : AcceptsAck channel buf) {window : WQWindow}
    (storage : channel.storage = .buffer window) {popped : Int} {got : Option Memory} {next : WQState}
    (returned : altusWQPop ⟨pools.heap, pools.pool, window⟩ (ntohl buf 4 - channel.lastAckedSeq).toInt none =
      .ok (popped, got, next)) :
    receiveAck pools channel buf = .ok (-1, popped, { pools with heap := next.heap, pool := next.pool },
      { channel with storage := .buffer next.window }) := by
  obtain ⟨young, sent, whole⟩ := accepts
  have notOld : ¬ ((ntohl buf 4 - channel.lastAckedSeq).toInt < 0 ∨
      (channel.nextSendSeq - ntohl buf 4).toInt < 0) := by
    push Not
    exact ⟨young, sent⟩
  rw [receiveAck, if_neg notOld, if_neg (by rw [whole]; exact fun different => different rfl), storage]
  show pop pools channel window _ = _
  rw [pop, returned]
  rfl

theorem receive_ack (packetSize : Int) (sends : channel.isReceiving = false) (type : channel.type = .rdtStream) :
    receive pools channel buf packetSize =
      (receiveAck pools channel buf).map fun (code, _, pools, channel) => (code, pools, channel) := by
  rw [receive, sends, type]
  rfl

end Acknowledge

section Steps

variable {cuid : U16} {sender : Endpoint} {stream : List Byte} {position : Nat} {window : WQWindow} {view : View}

/-- A `CreateUpstream` continues the stream, or leaves it as it is. -/
theorem Sending.upstream (sending : Sending sender stream position window view) {buf : Memory} {len : Int}
    (meets : (SenderStep.upstream buf len).Meets sender stream) :
    ∃ code next nextWindow nextView,
      (SenderStep.upstream buf len).perform cuid sender = .ok (code, [], next) ∧
      Sending next (stream ++ (SenderStep.upstream buf len).written code) position nextWindow nextView := by
  have lastSeq : window.lastSeq = BitVec.ofNat 32 stream.length := by
    rw [← sending.written]
    exact sending.represents.lastSeq
  obtain ⟨below, cursor⟩ := sending.cursor.here lastSeq (meets window sending.storage)
  have performed {code : Int} {copies : List Copy} {next : WQState}
      (returned : altusWQPut ⟨sender.pools.heap, sender.pools.pool, window⟩ window.lastSeq (BitVec.ofInt 32 len)
        buf = .ok (code, copies, next)) :
      (SenderStep.upstream buf len).perform cuid sender = .ok (code, [],
        ⟨{ sender.pools with heap := next.heap, pool := next.pool },
          { sender.channel with storage := .buffer next.window, isUpdated := true }⟩) := by
    rw [SenderStep.perform, createUpstream, sending.type, sending.sends, sending.storage]
    simp only [put, returned, Except.map, ne_eq, not_true_eq_false, Bool.false_eq_true, or_self, if_false]
  rcases sending.represents.put_next sending.reads sending.noRuns (BitVec.ofInt 32 len) buf with
    ⟨-, full⟩ | ⟨-, copies, next, nextView, returned, appended⟩
  · refine ⟨-3, _, window, view, performed full, ?_⟩
    rw [SenderStep.written, if_neg (by decide), List.append_nil]
    exact { sending with
      storage := rfl
      represents := sending.represents
      reading := sending.reading
      reads := sending.reads }
  · refine ⟨0, _, next.window, nextView, performed returned, ?_⟩
    have bytes := appended.reads
    rw [sending.written, memcpy_ofList] at bytes
    have longer : (stream ++ read buf (BitVec.ofInt 32 len).toNat).length =
        stream.length + (BitVec.ofInt 32 len).toNat := by
      rw [List.length_append, read_length]
    rw [SenderStep.written, if_pos rfl]
    exact {
      storage := rfl
      type := sending.type
      sends := sending.sends
      represents := appended.represents
      reading := appended.reading sending.reading
      reads := bytes
      noRuns := appended.runs
      headSeq := (altusWQPut_headSeq returned).trans sending.headSeq
      written := by rw [appended.position, sending.written, longer]
      cursor := Or.inl ⟨by rw [longer]; omega, cursor⟩ }

/-- An acknowledgement leaves the stream as it is. -/
theorem Sending.ack (sending : Sending sender stream position window view) (buf : Memory) (packetSize : Int) :
    ∃ code next nextWindow nextView, (SenderStep.ack buf packetSize).perform cuid sender = .ok (code, [], next) ∧
      Sending next stream position nextWindow nextView := by
  have performed {code popped : Int} {pools : Pools} {channel : Channel}
      (returned : receiveAck sender.pools sender.channel buf = .ok (code, popped, pools, channel)) :
      (SenderStep.ack buf packetSize).perform cuid sender = .ok (code, [], ⟨pools, channel⟩) := by
    rw [SenderStep.perform, receive_ack _ sending.sends sending.type, returned]
    rfl
  by_cases accepts : AcceptsAck sender.channel buf
  · obtain ⟨length, lengthIs⟩ := Int.eq_ofNat_of_zero_le accepts.1
    obtain ⟨next, nextView, returned, popped⟩ :=
      altusWQPop_spec sending.represents sending.reading sending.reads length none
    rw [← lengthIs] at returned
    refine ⟨-1, _, next.window, nextView, performed (receiveAck_accepted accepts sending.storage returned), ?_⟩
    exact {
      storage := rfl
      type := sending.type
      sends := sending.sends
      represents := popped.represents
      reading := popped.reading
      reads := popped.reads sending.reads
      noRuns := popped.sequence.2.1.trans sending.noRuns
      headSeq := (altusWQPop_headSeq returned).trans sending.headSeq
      written := popped.sequence.1.trans sending.written
      cursor := sending.cursor }
  · obtain ⟨code, returned⟩ := receiveAck_refused accepts
    exact ⟨code, sender, window, view, performed returned, sending⟩

/-- A `Send` carries the stream on. -/
theorem Sending.send (sending : Sending sender stream position window view) {stack : Fin 16 → Memory}
    (meets : (SenderStep.send stack).Meets sender stream) :
    ∃ sent next, (SenderStep.send stack).perform cuid sender = .ok (0, sent, next) ∧ Tiles stream position sent ∧
      Sending next stream (behind position sent) window view := by
  cases updated : sender.channel.isUpdated with
  | false =>
      refine ⟨[], sender, ?_, trivial, sending⟩
      rw [SenderStep.perform, sendLoop_idle _ _ _ updated]
  | true =>
      obtain ⟨ahead, unreleased, inside⟩ := meets window sending.storage updated
      have represents := sending.represents
      have lastSeq : window.lastSeq = BitVec.ofNat 32 stream.length := by
        rw [← sending.written]
        exact represents.lastSeq
      obtain ⟨below, cursor⟩ := sending.cursor.here lastSeq ahead
      have shallow := represents.shallow
      have size := represents.size
      have depth : view.depth = stream.length - view.origin := by rw [View.depth, sending.written]
      have ordered := represents.ordered
      rw [sending.written] at ordered
      have countIs : (sender.pools.heap.node window.safeTail).validBlockCount = BitVec.ofNat 32 (view.depth % 4096) :=
        represents.counts.partly _ represents.formed.safe
      have countValue : (BitVec.ofNat 32 (view.depth % 4096)).toNat = view.depth % 4096 := by
        rw [BitVec.toNat_ofNat]
        exact Nat.mod_eq_of_lt (by omega)
      have safeLen : window.safeLen.toNat = view.depth / 4096 + 1 := by
        rw [show window.safeLen = _ from represents.safeLen, BitVec.toNat_ofNat, Nat.mod_eq_of_lt (by omega)]
      rw [safeLen, countIs, countValue] at unreleased
      have first : view.origin = 0 := by omega
      have distance : (window.lastSeq - sender.channel.nextSendSeq).toNat = stream.length - position := by
        rw [lastSeq, cursor, Serial.toNat_sub below (by omega)]
      have zeroCount : BitVec.ofNat 32 (view.depth % 4096) = 0 ↔ view.depth % 4096 = 0 := by
        constructor
        · intro zero
          rw [← countValue, zero]
          rfl
        · intro zero
          rw [zero]
          rfl
      rw [distance, countIs, countValue, zeroCount] at inside
      obtain ⟨sent, nextSendSeq, isUpdated, looped, tiles, later⟩ := sendLoop_tiles represents sending.reads
        sending.written (by rw [first]; exact sending.headSeq) cuid (List.ofFn stack) sending.storage sending.type
        sending.sends updated cursor (by omega) below (by
          intro more
          rw [List.length_ofFn] at more
          exact inside (by omega))
      refine ⟨sent, _, by rw [SenderStep.perform, looped], tiles, ?_⟩
      exact { sending with cursor := later }

/-- Every call that meets its condition carries the stream on. -/
theorem Sending.run (sending : Sending sender stream position window view) {steps : List SenderStep}
    (meet : AllMeet cuid sender stream steps) : SendsStream cuid sender stream position steps := by
  induction steps generalizing sender stream position window view with
  | nil => trivial
  | cons step rest ih =>
      cases step with
      | upstream buf len =>
          obtain ⟨code, next, nextWindow, nextView, performed, kept⟩ := sending.upstream meet.1
          exact ⟨code, [], next, performed, trivial, ih kept (meet.2 _ _ _ performed)⟩
      | send stack =>
          obtain ⟨sent, next, performed, tiles, kept⟩ := sending.send meet.1
          rw [← List.append_nil stream] at tiles kept
          exact ⟨0, sent, next, performed, tiles, ih kept (meet.2 _ _ _ performed)⟩
      | ack buf packetSize =>
          obtain ⟨code, next, nextWindow, nextView, performed, kept⟩ := sending.ack buf packetSize
          rw [← List.append_nil stream] at kept
          exact ⟨code, [], next, performed, trivial, ih kept (meet.2 _ _ _ performed)⟩

end Steps

/-- A sending channel at its start, next to a well-formed pool. -/
structure Starts (sender : Endpoint) (window : WQWindow) : Prop where
  storage : sender.channel.storage = .buffer window
  type : sender.channel.type = .rdtStream
  sends : sender.channel.isReceiving = false
  nextSendSeq : sender.channel.nextSendSeq = 0
  empty : Empty ⟨sender.pools.heap, sender.pools.pool, window⟩
  size : window.windowSize = windowBlockMaxDefault
  lastSeq : window.lastSeq = 0
  headSeq : window.headSeq = 0

theorem Starts.sending {sender : Endpoint} {window : WQWindow} (starts : Starts sender window) :
    ∃ view, Sending sender [] 0 window view := by
  have size := starts.size
  obtain ⟨cells, free, represents, reading⟩ := @Empty.represents _ starts.empty 0 starts.lastSeq
    (by dsimp only; rw [size]; decide) (by dsimp only; rw [size]; decide)
  refine ⟨_, starts.storage, starts.type, starts.sends, represents, reading, ?_, rfl, starts.headSeq, rfl,
    Or.inl ⟨Nat.le_refl _, starts.nextSendSeq⟩⟩
  intro point above below
  exact absurd below (Nat.not_lt_zero point)

/-- In every run whose calls meet their conditions the datagrams carry the stream without a gap. -/
theorem run_sendsStream {sender : Endpoint} {window : WQWindow} (starts : Starts sender window) (cuid : U16)
    {steps : List SenderStep} (meet : AllMeet cuid sender [] steps) : SendsStream cuid sender [] 0 steps := by
  obtain ⟨view, sending⟩ := starts.sending
  exact sending.run meet

/-- A new sending channel next to a new pool. -/
def freshSender : Endpoint where
  pools := ⟨(fresh blankHeap blankWindow).heap, (fresh blankHeap blankWindow).pool, blankNodes, NodePool.empty⟩
  channel := { channel false 0 with type := .rdtStream, storage := .buffer (fresh blankHeap blankWindow).window }

theorem freshSender_starts : Starts freshSender (fresh blankHeap blankWindow).window :=
  ⟨rfl, rfl, rfl, rfl, fresh_empty blankHeap blankWindow, rfl, rfl, rfl⟩

/-- What a call answers, when it returns. -/
def answerOf (cuid : U16) (sender : Endpoint) (step : SenderStep) : Int × List Datagram × Endpoint :=
  match step.perform cuid sender with
  | .ok answer => answer
  | .error _ => (0, [], sender)

theorem answerOf_eq {cuid : U16} {sender : Endpoint} {step : SenderStep} {answer : Int × List Datagram × Endpoint}
    (performed : step.perform cuid sender = .ok answer) : answer = answerOf cuid sender step := by
  rw [answerOf, performed]

/-- Nine datagrams are sent, the last of them across the end of a node, and the first five bytes are acknowledged. -/
theorem run_sendsStream_across : SendsStream 0 freshSender [] 0
    [.upstream (fun _ => 7) 4392, .send fun _ _ => 0, .ack (fun index => if index = 7 then 5 else 0) 8] :=
  run_sendsStream freshSender_starts 0 (by decide +kernel)

/-- The senders after ten bytes are written, sent, and followed by ten more. -/
def tenWritten : Endpoint := (answerOf 0 freshSender (.upstream (fun _ => 7) 10)).2.2

def tenSent : Endpoint := (answerOf 0 tenWritten (.send fun _ _ => 0)).2.2

def twentyWritten : Endpoint := (answerOf 0 tenSent (.upstream (fun _ => 8) 10)).2.2

/-- Ten bytes are written and sent, twice: the second datagram starts 478 positions too late. -/
theorem second_upstream_skips : Starts freshSender (fresh blankHeap blankWindow).window ∧
    ¬ SendsStream 0 freshSender [] 0
      [.upstream (fun _ => 7) 10, .send fun _ _ => 0, .upstream (fun _ => 8) 10, .send fun _ _ => 0] := by
  refine ⟨freshSender_starts, ?_⟩
  rintro ⟨code, sent, next, first, -, rest⟩
  obtain rfl : next = tenWritten := congrArg (fun answer => answer.2.2) (answerOf_eq first)
  obtain rfl : sent = [] := (congrArg (fun answer => answer.2.1) (answerOf_eq first)).trans (by decide +kernel)
  obtain ⟨code, sent, next, second, -, rest⟩ := rest
  obtain rfl : next = tenSent := congrArg (fun answer => answer.2.2) (answerOf_eq second)
  have sentIs : sent = (answerOf 0 tenWritten (.send fun _ _ => 0)).2.1 :=
    congrArg (fun answer => answer.2.1) (answerOf_eq second)
  have ten : behind 0 sent = 10 := by
    rw [sentIs]
    decide +kernel
  obtain ⟨code, more, next, third, -, rest⟩ := rest
  obtain rfl : next = twentyWritten := congrArg (fun answer => answer.2.2) (answerOf_eq third)
  obtain rfl : more = [] := (congrArg (fun answer => answer.2.1) (answerOf_eq third)).trans (by decide +kernel)
  obtain ⟨code, last, next, fourth, tiles, -⟩ := rest
  have lastIs : last = (answerOf 0 twentyWritten (.send fun _ _ => 0)).2.1 :=
    congrArg (fun answer => answer.2.1) (answerOf_eq fourth)
  have late : last.head?.map sequenceOf = some 488 := by
    rw [lastIs]
    decide +kernel
  cases last with
  | nil => cases late
  | cons datagram rest =>
      have sequence : sequenceOf datagram = BitVec.ofNat 32 (behind 0 sent) := tiles.1
      rw [ten] at sequence
      rw [List.head?_cons, Option.map_some, sequence] at late
      exact absurd late (by decide)

end Altus.Channel
