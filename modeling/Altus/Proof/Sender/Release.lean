import Altus.Proof.Sender.Tiling

namespace Altus.Channel

open Bytes WindowedQueue

/-- A sending channel, the receiving channel of its peer, and the datagrams between them.
The network may deliver each datagram at any time, in any order and any number of times. -/
structure Exchange where
  sender : Endpoint
  receiver : Endpoint
  data : List Datagram
  acks : List Datagram
  /-- The bytes that `CreateUpstream` accepted. -/
  written : Nat
  /-- The bytes that acknowledgements released from the sender's window. -/
  released : Nat
  /-- The numbers of the acknowledgements without loss that the sender accepted. -/
  accepted : List U32
  /-- The position that the receiver's `lastSeq` stands for. -/
  received : Nat

/-- One step of the two parties or of the network. -/
inductive Event where
  | upstream (buf : Memory) (len : Int)
  | send (stack : Fin 16 → Memory)
  | data (index : Nat)
  | ack (index : Nat)

instance (channel : Channel) (buf : Memory) : Decidable (AcceptsAck channel buf) :=
  inferInstanceAs (Decidable (_ ∧ _ ∧ _))

/-- The sequence number that the window of a channel has reached. -/
def lastSeqOf (channel : Channel) : U32 :=
  match channel.storage with
  | .buffer window => window.lastSeq
  | _ => 0

/-- A data datagram arrives at the receiver. -/
def Exchange.deliver (exchange : Exchange) (datagram : Datagram) : Except Fault Exchange :=
  (exchange.receiver.channel.processPacket exchange.receiver.pools (ofList datagram) datagram.length).map
    fun (_, sent, pools, channel) =>
      { exchange with
        receiver := ⟨pools, channel⟩
        acks := exchange.acks ++ sent
        received := exchange.received + (lastSeqOf channel - lastSeqOf exchange.receiver.channel).toNat }

/-- An acknowledgement arrives at the sender. -/
def Exchange.acknowledge (exchange : Exchange) (datagram : Datagram) : Except Fault Exchange :=
  (receiveAck exchange.sender.pools exchange.sender.channel (ofList datagram)).map
    fun (_, popped, pools, channel) =>
      { exchange with
        sender := ⟨pools, channel⟩
        released := exchange.released + popped.toNat
        accepted :=
          if AcceptsAck exchange.sender.channel (ofList datagram) then
            ntohl (ofList datagram) 4 :: exchange.accepted
          else exchange.accepted }

/-- The exchange after one step. -/
def Event.perform (cuid : U16) (exchange : Exchange) : Event → Except Fault Exchange
  | .upstream buf len =>
      (createUpstream exchange.sender.pools exchange.sender.channel buf len).map fun (code, pools, channel) =>
        { exchange with
          sender := ⟨pools, channel⟩
          written := exchange.written + if code = 0 then (BitVec.ofInt 32 len).toNat else 0 }
  | .send stack =>
      (sendLoop exchange.sender.pools.heap cuid (List.ofFn stack) exchange.sender.channel).map
        fun (sent, channel) =>
          { exchange with
            sender := ⟨exchange.sender.pools, channel.getD exchange.sender.channel⟩
            data := exchange.data ++ sent }
  | .data index =>
      match exchange.data[index]? with
      | none => .ok exchange
      | some datagram => exchange.deliver datagram
  | .ack index =>
      match exchange.acks[index]? with
      | none => .ok exchange
      | some datagram => exchange.acknowledge datagram

/-- The largest number of a list. -/
def largest (numbers : List U32) : Nat := (numbers.map BitVec.toNat).foldr max 0

/-- The sender has released what was acknowledged, and the receiver has it. -/
def Exact (exchange : Exchange) : Prop :=
  exchange.released ≤ exchange.received ∧ exchange.released = largest exchange.accepted

/-- The release is exact all along a run, up to a step that faults. -/
def StaysExact (cuid : U16) (exchange : Exchange) : List Event → Prop
  | [] => Exact exchange
  | event :: rest => Exact exchange ∧ ∀ next, event.perform cuid exchange = .ok next → StaysExact cuid next rest

/-- An acknowledgement that the sender accepts has the number 0; or it names no more than what was written,
and nothing is released yet, or everything is, or it names all that was written. -/
def Event.Meets (exchange : Exchange) : Event → Prop
  | .ack index => ∀ datagram, exchange.acks[index]? = some datagram →
      AcceptsAck exchange.sender.channel (ofList datagram) →
      (ntohl (ofList datagram) 4).toNat = 0 ∨
        (ntohl (ofList datagram) 4).toNat ≤ exchange.written ∧
          (exchange.released = 0 ∨ exchange.released = exchange.written ∨
            (ntohl (ofList datagram) 4).toNat = exchange.written)
  | _ => True

/-- Every acknowledgement of the run meets its condition. -/
def AllAcksMeet (cuid : U16) (exchange : Exchange) : List Event → Prop
  | [] => True
  | event :: rest => event.Meets exchange ∧ ∀ next, event.perform cuid exchange = .ok next →
      AllAcksMeet cuid next rest

/-- The sender's window holds what is written and not released, and all acknowledgements are behind the receiver. -/
structure Connected (exchange : Exchange) (queue : List Byte) : Prop where
  sends : exchange.sender.channel.isReceiving = false
  sendType : exchange.sender.channel.type = .rdtStream
  neverAcked : exchange.sender.channel.lastAckedSeq = 0
  queues : ∃ window, exchange.sender.channel.storage = .buffer window ∧
    Queues ⟨exchange.sender.pools.heap, exchange.sender.pools.pool, window⟩ queue
  total : queue.length + exchange.released = exchange.written
  receives : exchange.receiver.channel.isReceiving = true
  receiveType : exchange.receiver.channel.type = .rdtStream
  reached : ∃ window, exchange.receiver.channel.storage = .buffer window ∧
    window.lastSeq = BitVec.ofNat 32 exchange.received
  behind : ∀ datagram ∈ exchange.acks, (ntohl (ofList datagram) 4).toNat ≤ exchange.received
  exact : Exact exchange

section Steps

variable {cuid : U16} {exchange next : Exchange} {queue : List Byte}

/-- `CreateUpstream` adds to the sender's window. -/
theorem Connected.upstream (connected : Connected exchange queue) {buf : Memory} {len : Int}
    (performed : (Event.upstream buf len).perform cuid exchange = .ok next) :
    ∃ nextQueue, Connected next nextQueue := by
  obtain ⟨window, storage, queues⟩ := connected.queues
  rw [Event.perform, createUpstream, connected.sendType, connected.sends, storage] at performed
  simp only [put, ne_eq, not_true_eq_false, Bool.false_eq_true, or_self, if_false] at performed
  rcases queues.put (BitVec.ofInt 32 len) buf with ⟨-, full⟩ | ⟨-, copies, state, returned, nextQueues⟩
  · rw [full] at performed
    obtain rfl := Except.ok.inj performed
    refine ⟨queue, { connected with queues := ⟨window, rfl, queues⟩, exact := connected.exact, total := ?_ }⟩
    exact connected.total
  · rw [returned] at performed
    obtain rfl := Except.ok.inj performed
    refine ⟨_, { connected with queues := ⟨state.window, rfl, nextQueues⟩, exact := connected.exact, total := ?_ }⟩
    have total := connected.total
    rw [List.length_append, read_length]
    dsimp only
    rw [if_pos rfl]
    omega

/-- The rounds of a `Send` only move `NextSendSeq` and `_IsUpdated`. -/
theorem sendLoop_keeps (heap : WQHeap) (stack : List Memory) : ∀ {channel final : Channel} {sent : List Datagram},
    sendLoop heap cuid stack channel = .ok (sent, some final) →
    ∃ nextSendSeq isUpdated, final = { channel with nextSendSeq := nextSendSeq, isUpdated := isUpdated } := by
  induction stack with
  | nil =>
      intro channel final sent looped
      obtain ⟨-, same⟩ := Prod.mk.inj (Except.ok.inj looped)
      obtain rfl := Option.some.inj same
      exact ⟨_, _, rfl⟩
  | cons buf stack ih =>
      intro channel final sent looped
      rw [sendLoop] at looped
      split at looped
      · obtain ⟨-, same⟩ := Prod.mk.inj (Except.ok.inj looped)
        obtain rfl := Option.some.inj same
        exact ⟨_, _, rfl⟩
      split at looped
      · exact ih looped
      split at looped
      · exact ih looped
      · split at looped
        · split at looped
          · cases looped
          · rename_i later
            obtain ⟨-, same⟩ := Prod.mk.inj (Except.ok.inj looped)
            subst same
            exact ih later
        · cases looped
      · split at looped
        · split at looped
          · cases looped
          · split at looped
            · cases looped
            · rename_i later
              obtain ⟨-, same⟩ := Prod.mk.inj (Except.ok.inj looped)
              subst same
              obtain ⟨nextSendSeq, isUpdated, same⟩ := ih later
              exact ⟨nextSendSeq, isUpdated, same⟩
        · cases looped
      · cases looped

theorem Connected.send (connected : Connected exchange queue) {stack : Fin 16 → Memory}
    (performed : (Event.send stack).perform cuid exchange = .ok next) : ∃ nextQueue, Connected next nextQueue := by
  rw [Event.perform] at performed
  cases looped : sendLoop exchange.sender.pools.heap cuid (List.ofFn stack) exchange.sender.channel with
  | error fault =>
      rw [looped] at performed
      cases performed
  | ok answer =>
      obtain ⟨sent, final⟩ := answer
      rw [looped] at performed
      obtain rfl := Except.ok.inj performed
      cases final with
      | none => exact ⟨queue, { connected with exact := connected.exact }⟩
      | some final =>
          obtain ⟨nextSendSeq, isUpdated, rfl⟩ := sendLoop_keeps _ _ looped
          exact ⟨queue, { connected with exact := connected.exact }⟩

/-- The acknowledgement names the receiver's `lastSeq`. -/
theorem response_number (window : WQWindow) (buf : Memory) :
    ntohl (ofList (response window buf)) 4 = window.lastSeq := by
  apply ntohl_htonl
  intro index inside
  rw [response, ofList, List.getD_append_right _ _ _ _ (by simp)]
  simp only [List.length_append, read_length, Nat.add_sub_cancel_left]
  exact read_getD _ 0 inside

/-- A data datagram moves the receiver forward and is acknowledged. -/
theorem Connected.deliver (connected : Connected exchange queue) {datagram : Datagram}
    (performed : exchange.deliver datagram = .ok next) : ∃ nextQueue, Connected next nextQueue := by
  obtain ⟨window, storage, lastSeq⟩ := connected.reached
  have lastSeqIs : lastSeqOf exchange.receiver.channel = window.lastSeq := by rw [lastSeqOf, storage]
  rw [Exchange.deliver, processPacket, receive, connected.receives, connected.receiveType] at performed
  simp only [if_true, receiveData, storage, put] at performed
  generalize altusWQPut ⟨exchange.receiver.pools.heap, exchange.receiver.pools.pool, window⟩ _ _ _ = answered
    at performed
  cases answered with
  | error fault => cases performed
  | ok answered =>
      obtain ⟨code, copies, state⟩ := answered
      have asked : ofList datagram 3 ||| 1 ≠ 0 := or_one_ne_zero _
      simp only [Except.map, Except.bind, answer, if_pos asked, one_ne_zero, if_false, if_true] at performed
      obtain rfl := Except.ok.inj performed
      have position : state.window.lastSeq =
          BitVec.ofNat 32 (exchange.received + (state.window.lastSeq - window.lastSeq).toNat) := by
        conv_rhs => rw [lastSeq]
        exact (Serial.ofNat_add_distance _ _).symm
      refine ⟨queue, { connected with
        receives := connected.receives
        receiveType := connected.receiveType
        reached := ⟨state.window, rfl, ?_⟩
        behind := ?_
        exact := ?_ }⟩
      · dsimp only
        rw [lastSeqIs]
        exact position
      · intro other member
        dsimp only
        rw [lastSeqIs, show lastSeqOf _ = state.window.lastSeq from rfl]
        rcases List.mem_append.mp member with old | new
        · exact Nat.le_add_right_of_le (connected.behind other old)
        · rw [List.mem_singleton.mp new, response_number]
          conv_lhs => rw [position]
          rw [BitVec.toNat_ofNat]
          exact Nat.mod_le _ _
      · exact ⟨Nat.le_add_right_of_le connected.exact.1, connected.exact.2⟩

/-- An acknowledgement that meets its condition releases exactly what it adds. -/
theorem Connected.acknowledge (connected : Connected exchange queue) {datagram : Datagram}
    (member : datagram ∈ exchange.acks)
    (meets : AcceptsAck exchange.sender.channel (ofList datagram) →
      (ntohl (ofList datagram) 4).toNat = 0 ∨
        (ntohl (ofList datagram) 4).toNat ≤ exchange.written ∧
          (exchange.released = 0 ∨ exchange.released = exchange.written ∨
            (ntohl (ofList datagram) 4).toNat = exchange.written))
    (performed : exchange.acknowledge datagram = .ok next) : ∃ nextQueue, Connected next nextQueue := by
  obtain ⟨window, storage, queues⟩ := connected.queues
  have total := connected.total
  have exactBefore := connected.exact
  rw [Exchange.acknowledge] at performed
  by_cases accepts : AcceptsAck exchange.sender.channel (ofList datagram)
  · have lengthIs : (ntohl (ofList datagram) 4 - exchange.sender.channel.lastAckedSeq).toInt =
        ((ntohl (ofList datagram) 4).toNat : Int) := by
      have young := accepts.1
      rw [connected.neverAcked, sub_zero] at young ⊢
      rw [BitVec.toInt_eq_toNat_cond] at young ⊢
      have bound := (ntohl (ofList datagram) 4).isLt
      split at young
      · rw [if_pos (by assumption)]
      · omega
    obtain ⟨state, returned, nextQueues⟩ := queues.pop (ntohl (ofList datagram) 4).toNat none
    rw [← lengthIs] at returned
    rw [receiveAck_accepted accepts storage returned, if_pos accepts] at performed
    obtain rfl := Except.ok.inj performed
    have behind := connected.behind datagram member
    have meets := meets accepts
    have grown : largest (ntohl (ofList datagram) 4 :: exchange.accepted) =
        max (ntohl (ofList datagram) 4).toNat exchange.released := by
      rw [exactBefore.2]
      rfl
    have count : (((min (ntohl (ofList datagram) 4).toNat queue.length : Nat) : Int)).toNat =
        min (ntohl (ofList datagram) 4).toNat queue.length := Int.toNat_natCast _
    refine ⟨_, { connected with queues := ⟨state.window, rfl, nextQueues⟩, total := ?_, exact := ?_ }⟩
    · dsimp only
      rw [count, List.length_drop]
      omega
    · have received := exactBefore.1
      rw [Exact]
      dsimp only
      rw [count, grown]
      omega
  · obtain ⟨code, returned⟩ := @receiveAck_refused exchange.sender.pools _ _ accepts
    rw [returned, if_neg accepts] at performed
    obtain rfl := Except.ok.inj performed
    exact ⟨queue, { connected with exact := exactBefore }⟩

/-- Every step that meets its condition keeps the release exact. -/
theorem Connected.step (connected : Connected exchange queue) {event : Event} (meets : event.Meets exchange)
    (performed : event.perform cuid exchange = .ok next) : ∃ nextQueue, Connected next nextQueue := by
  cases event with
  | upstream buf len => exact connected.upstream performed
  | send stack => exact connected.send performed
  | data index =>
      rw [Event.perform] at performed
      split at performed
      · obtain rfl := Except.ok.inj performed
        exact ⟨queue, connected⟩
      · exact connected.deliver performed
  | ack index =>
      rw [Event.perform] at performed
      split at performed
      · obtain rfl := Except.ok.inj performed
        exact ⟨queue, connected⟩
      · rename_i datagram found
        exact connected.acknowledge (List.mem_of_getElem? found) (meets datagram found) performed

theorem Connected.run (connected : Connected exchange queue) {events : List Event}
    (meet : AllAcksMeet cuid exchange events) : StaysExact cuid exchange events := by
  induction events generalizing exchange queue with
  | nil => exact connected.exact
  | cons event rest ih =>
      refine ⟨connected.exact, ?_⟩
      intro next performed
      obtain ⟨nextQueue, nextConnected⟩ := connected.step meet.1 performed
      exact ih nextConnected (meet.2 next performed)

end Steps

/-- A receiving channel at its start. -/
structure Listens (receiver : Endpoint) (window : WQWindow) : Prop where
  storage : receiver.channel.storage = .buffer window
  type : receiver.channel.type = .rdtStream
  receives : receiver.channel.isReceiving = true
  lastSeq : window.lastSeq = 0

/-- The two channels before the first step. -/
def Exchange.initial (sender receiver : Endpoint) : Exchange := ⟨sender, receiver, [], [], 0, 0, [], 0⟩

theorem initial_connected {sender receiver : Endpoint} {window receiverWindow : WQWindow}
    (starts : Starts sender window) (neverAcked : sender.channel.lastAckedSeq = 0)
    (listens : Listens receiver receiverWindow) : Connected (Exchange.initial sender receiver) [] where
  sends := starts.sends
  sendType := starts.type
  neverAcked := neverAcked
  queues := ⟨window, starts.storage, starts.empty.queues starts.size⟩
  total := rfl
  receives := listens.receives
  receiveType := listens.type
  reached := ⟨receiverWindow, listens.storage, listens.lastSeq⟩
  behind := by
    intro datagram member
    cases member
  exact := ⟨Nat.le_refl _, rfl⟩

/-- The release is exact in every run whose accepted acknowledgements meet their condition. -/
theorem run_staysExact {sender receiver : Endpoint} {window receiverWindow : WQWindow}
    (starts : Starts sender window) (neverAcked : sender.channel.lastAckedSeq = 0)
    (listens : Listens receiver receiverWindow) (cuid : U16) {events : List Event}
    (meet : AllAcksMeet cuid (Exchange.initial sender receiver) events) :
    StaysExact cuid (Exchange.initial sender receiver) events :=
  (initial_connected starts neverAcked listens).run meet

/-- A new receiving channel next to a new pool. -/
def freshReceiver : Endpoint := { freshSender with channel := { freshSender.channel with isReceiving := true } }

theorem freshReceiver_listens : Listens freshReceiver (fresh blankHeap blankWindow).window :=
  ⟨rfl, rfl, rfl, rfl⟩

/-- The exchange after a step that returns. -/
def afterEvent (exchange : Exchange) (event : Event) : Exchange :=
  match event.perform 0 exchange with
  | .ok next => next
  | .error _ => exchange

theorem afterEvent_eq {exchange next : Exchange} {event : Event} (performed : event.perform 0 exchange = .ok next) :
    next = afterEvent exchange event := by
  rw [afterEvent, performed]

/-- Ten bytes are written, sent and received. -/
def tenReceived : Exchange :=
  afterEvent (afterEvent (afterEvent (Exchange.initial freshSender freshReceiver)
    (.upstream (fun _ => 7) 10)) (.send fun _ _ => 0)) (.data 0)

/-- Ten bytes are written, sent, received and acknowledged. -/
theorem run_staysExact_ten : StaysExact 0 (Exchange.initial freshSender freshReceiver)
    [.upstream (fun _ => 7) 10, .send fun _ _ => 0, .data 0, .ack 0] := by
  refine run_staysExact freshSender_starts rfl freshReceiver_listens 0
    ⟨trivial, fun first performed => ⟨trivial, fun second sent => ⟨trivial, fun third delivered => ?_⟩⟩⟩
  obtain rfl := afterEvent_eq performed
  obtain rfl := afterEvent_eq sent
  obtain rfl : third = tenReceived := afterEvent_eq delivered
  refine ⟨?_, fun _ _ => trivial⟩
  intro datagram found _
  have number : tenReceived.acks[0]?.map (fun ack => (ntohl (ofList ack) 4).toNat) = some 10 := by decide +kernel
  rw [found, Option.map_some] at number
  refine Or.inr ⟨?_, Or.inl (by decide +kernel)⟩
  rw [Option.some.inj number]
  decide +kernel

/-- The same acknowledgement arrives before and after ten more bytes are written. -/
theorem repeated_ack_releases_twice :
    Starts freshSender (fresh blankHeap blankWindow).window ∧ freshSender.channel.lastAckedSeq = 0 ∧
    Listens freshReceiver (fresh blankHeap blankWindow).window ∧
    ¬ StaysExact 0 (Exchange.initial freshSender freshReceiver)
      [.upstream (fun _ => 7) 10, .send fun _ _ => 0, .data 0, .ack 0, .upstream (fun _ => 8) 10, .ack 0] := by
  refine ⟨freshSender_starts, rfl, freshReceiver_listens, fun exact => ?_⟩
  have returns (exchange : Exchange) (event : Event)
      (known : (event.perform 0 exchange).isOk = true) :
      event.perform 0 exchange = .ok (afterEvent exchange event) := by
    rw [afterEvent]
    cases performed : event.perform 0 exchange with
    | ok next => rfl
    | error fault =>
        rw [performed] at known
        cases known
  have first := exact.2 _ (returns _ _ (by decide +kernel))
  have second := first.2 _ (returns _ _ (by decide +kernel))
  have third := second.2 tenReceived (returns _ _ (by decide +kernel))
  have fourth := third.2 _ (returns _ _ (by decide +kernel))
  have fifth := fourth.2 _ (returns _ _ (by decide +kernel))
  have sixth := fifth.2 _ (returns _ _ (by decide +kernel))
  exact absurd sixth.1 (by decide +kernel)

end Altus.Channel
