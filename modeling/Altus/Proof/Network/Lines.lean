import Altus.Proof.Network.Channels
import Altus.Proof.Transfer.Delivery

namespace Altus

open Bytes Tables Network WindowedQueue Host Channel

section Ends

variable {key : Memory} {here there : Address} {log : List Note} {host next : Host} {freed : List Ptr} {step : HostStep}
  {cuid : U16} {channel after : Channel} {code : Int} {sent : List Sent} {window : WQWindow} {view : View}
  {stream : List Byte} {data : List Datagram}

/-- The place of a channel's window. -/
theorem windowAt_channel (present : host.channelAt there cuid = some channel) (type : channel.type = .rdtStream)
    (storage : channel.storage = .buffer window) : ∃ pointer, host.peers (addrToUint64 there) = some pointer ∧
      host.windowAt (pointer, cuid) = some window := by
  obtain ⟨pointer, peer, known, found, own⟩ := channelAt_some present
  refine ⟨pointer, known, ?_⟩
  rw [windowAt_here found, Peer.windows, own, Option.bind_some, window_rdtStream type storage]

/-- The window of a channel that a step does not call stands as it did. -/
theorem Host.Rooming.stays (rooming : Rooming host freed) (stepped : host.step step = .ok (code, sent, next))
    (elsewhere : ∀ pointer, host.peers (addrToUint64 there) = some pointer → step.place host ≠ some (pointer, cuid))
    (present : host.channelAt there cuid = some channel) (same : next.channelAt there cuid = some channel)
    (type : channel.type = .rdtStream) (storage : channel.storage = .buffer window)
    (represents : Represents ⟨host.pools.heap, host.pools.pool, window⟩ view) :
    ∃ free, Stays ⟨host.pools.heap, host.pools.pool, window⟩ ⟨next.pools.heap, next.pools.pool, window⟩ view free := by
  obtain ⟨after, isolates⟩ := rooming.moves stepped
  obtain ⟨lifetime, slot, rooms⟩ := rooming.rooms
  obtain ⟨nextLifetime, nextSlot, nextRooms⟩ := after.rooms
  obtain ⟨pointer, known, found⟩ := windowAt_channel present type storage
  obtain ⟨nextPointer, -, there⟩ := windowAt_channel same type storage
  exact rooms.stays nextRooms found there (isolates.nodes _ window found (elsewhere pointer known)) represents.toTracks

/-- The window of a channel of a new peer is empty. -/
theorem Host.Rooming.fresh (rooming : Rooming next freed) (present : next.channelAt there cuid = some channel)
    (type : channel.type = .rdtStream) (fresh : channel.Fresh next.pools.heap window) :
    Empty ⟨next.pools.heap, next.pools.pool, window⟩ := by
  obtain ⟨lifetime, slot, rooms⟩ := rooming.rooms
  obtain ⟨pointer, -, found⟩ := windowAt_channel present type fresh.storage
  exact rooms.empty found fresh.blank

/-- The channels of a new peer are fresh. -/
theorem Makes.fresh (makes : Makes host there next) (present : next.channelAt there cuid = some channel)
    (type : channel.type = .rdtStream) : ∃ window, channel.Fresh next.pools.heap window := by
  obtain ⟨raw, last, made, opened, pools, -, channels⟩ := makes
  rw [channels] at present
  rw [pools]
  exact opened.fresh cuid channel present type

section Source

/-- An arriving datagram leaves a sending channel with its stream and is not answered. -/
theorem hears_sending {pools nextPools : Pools} {position : Nat}
    (sending : Sending ⟨pools, channel⟩ stream position window view)
    {buf : Memory} {size answer : Int} {out : List Datagram}
    (processed : channel.processPacket pools buf size = .ok (answer, out, nextPools, after)) :
    out = [] ∧ ∃ window view, Sending ⟨nextPools, after⟩ stream position window view := by
  obtain ⟨⟨middle, middlePools, changed⟩, received, answered⟩ := bind_ok processed
  obtain ⟨middle', next, nextWindow, nextView, performed, kept⟩ := @Sending.ack 0 _ _ _ _ _ sending buf size
  rw [SenderStep.perform] at performed
  dsimp only at performed
  rw [received] at performed
  cases performed
  have asks := (receive_kind received).2
  have same := answer_keeps answered
  have silent : out = [] := by
    refine List.eq_nil_iff_forall_not_mem.mpr fun datagram member => ?_
    obtain ⟨asked, -⟩ := Peer.answer_sends answered member
    have kind := congrArg Prod.snd (asks asked)
    rw [Channel.kind, sending.sends] at kind
    cases kind
  cases same
  exact ⟨silent, nextWindow, nextView, kept⟩

end Source

end Ends

/-- One channel in one direction between two hosts. -/
structure Line where
  source : Address
  target : Address
  cuid : U16

namespace Line

/-- The datagrams of the log that the source sent to the target for the channel. -/
def spoken (line : Line) (log : List Note) : List Datagram :=
  log.filterMap fun
    | .sent source target datagram =>
        if source = line.source ∧ target = line.target ∧ ntohs (ofList datagram) 0 = line.cuid then some datagram
        else none
    | .asked _ _ => none

/-- The bytes that a step of the source writes into the channel. -/
def writes (line : Line) (host : Host) (code : Int) : HostStep → List Byte
  | .createUpstream peid cuid buf len =>
      if host.peidPeer peid = host.peers (addrToUint64 line.target) ∧ cuid = line.cuid then
        (SenderStep.upstream buf len).written code
      else []
  | _ => []

/-- The conditions of the source: those of `CreateUpstream` and of `Send` on the channel, and a stream below 2^31 bytes. -/
def Speaks (line : Line) (host : Host) (stream : List Byte) : HostStep → Prop
  | .createUpstream peid cuid buf len => host.peidPeer peid = host.peers (addrToUint64 line.target) → cuid = line.cuid →
      ∀ channel, host.channelAt line.target line.cuid = some channel →
        (SenderStep.upstream buf len).Meets ⟨host.pools, channel⟩ stream ∧
          stream.length + (BitVec.ofInt 32 len).toNat < 2 ^ 31
  | .sender addrport stack => addrport = addrToUint64 line.target →
      ∀ channel, host.channelAt line.target line.cuid = some channel →
        (SenderStep.send (stack line.cuid)).Meets ⟨host.pools, channel⟩ stream
  | _ => True

/-- The condition of the target: a datagram of the channel is in reach. -/
def Listens (line : Line) (host : Host) : HostStep → Prop
  | .inbound remoteAddr buf recvSize _ _ => remoteAddr = line.source → ntohs buf 0 = line.cuid → recvSize ≠ -1 →
      ∀ channel window, host.channelAt line.source line.cuid = some channel → channel.storage = .buffer window →
        Arrives ⟨host.pools.heap, host.pools.pool, window⟩ (read buf recvSize.toNat)
  | _ => True

instance (present : Option Channel) (holds : Channel → Prop) [DecidablePred holds] :
    Decidable (∀ channel, present = some channel → holds channel) :=
  match present with
  | some channel => decidable_of_iff (holds channel)
      ⟨fun held other same => Option.some.inj same ▸ held, fun all => all channel rfl⟩
  | none => isTrue fun _ impossible => by cases impossible

instance (line : Line) (host : Host) (stream : List Byte) : (step : HostStep) → Decidable (line.Speaks host stream step)
  | .createUpstream peid _ _ _ => inferInstanceAs (Decidable (host.peidPeer peid = _ → _ →
      ∀ channel, host.channelAt line.target line.cuid = some channel → _ ∧ _))
  | .sender _ _ =>
      inferInstanceAs (Decidable (_ = _ → ∀ channel, host.channelAt line.target line.cuid = some channel → _))
  | .inbound .. | .connect .. | .connecter _ | .removePeer _ | .accepting _ => isTrue trivial

instance (line : Line) (host : Host) : (step : HostStep) → Decidable (line.Listens host step)
  | .inbound remoteAddr buf recvSize _ _ =>
      decidable_of_iff (remoteAddr = line.source → ntohs buf 0 = line.cuid → recvSize ≠ -1 →
          ∀ channel, host.channelAt line.source line.cuid = some channel → ∀ window, channel.storage = .buffer window →
            Arrives ⟨host.pools.heap, host.pools.pool, window⟩ (read buf recvSize.toNat))
        ⟨fun held own named received channel window present => held own named received channel present window,
          fun held own named received channel present window => held own named received channel window present⟩
  | .createUpstream .. | .connect .. | .connecter _ | .removePeer _ | .accepting _ | .sender .. => isTrue trivial

/-- A step does not remove the peer of an address. -/
def Keeps (host : Host) (there : Address) (step : HostStep) : Prop :=
  ∀ peid, step = .removePeer peid → host.peidPeer peid ≠ host.peers (addrToUint64 there)

/-- The source holds what is written, and the datagrams that it sent carry it. Before it has a peer nothing is written. -/
def Outgoing (line : Line) (host : Host) (stream : List Byte) (data : List Datagram) : Prop :=
  host.peers (addrToUint64 line.target) = none ∧ stream = [] ∧ data = [] ∨
    ∃ channel window view, host.channelAt line.target line.cuid = some channel ∧
      Sending ⟨host.pools, channel⟩ stream (behind 0 data) window view ∧ Tiles stream 0 data ∧ stream.length < 2 ^ 31 ∧
      ∀ datagram ∈ data, 8 + paddingOf datagram ≤ datagram.length

/-- The target has received a part of the stream. -/
def Incoming (line : Line) (host : Host) (stream : List Byte) : Prop :=
  ∀ channel, host.channelAt line.source line.cuid = some channel → channel.kind = (.rdtStream, true) →
    ∃ window view, channel.storage = .buffer window ∧
      Receiving stream ⟨host.pools.heap, host.pools.pool, window⟩ [] view

section Source

variable {line : Line} {key : Memory} {log : List Note} {host next : Host} {freed : List Ptr} {step : HostStep}
  {channel after : Channel} {code : Int} {sent : List Sent} {window : WQWindow} {view : View} {stream : List Byte}
  {data : List Datagram}

/-- A sending channel that a step does not call. -/
theorem outgoing_stays {position : Nat} (sending : Sending ⟨host.pools, channel⟩ stream position window view)
    {free : List Ptr}
    (stays : Stays ⟨host.pools.heap, host.pools.pool, window⟩ ⟨next.pools.heap, next.pools.pool, window⟩ view free) :
    Sending ⟨next.pools, channel⟩ stream position window { view with free := free } where
  storage := sending.storage
  type := sending.type
  sends := sending.sends
  represents := sending.represents.stays stays
  reading := sending.reading.stays stays
  reads := sending.reads.stays stays
  noRuns := sending.noRuns
  headSeq := sending.headSeq
  written := sending.written
  cursor := sending.cursor

/-- A new peer of the source has written and sent nothing. -/
theorem Outgoing.made (sound : Sound key line.source log next) (rooming : Rooming next freed)
    (makes : Makes host line.target next) (small : line.cuid.toNat < 4)
    (speaking : ∀ channel, next.channelAt line.target line.cuid = some channel → channel.kind = (.rdtStream, false)) :
    line.Outgoing next [] [] := by
  obtain ⟨channel, present⟩ := sound.hasChannel (let ⟨_, _, _, _, _, known, _⟩ := makes; known) small
  obtain ⟨type, sends⟩ := Prod.mk.inj (speaking channel present)
  obtain ⟨window, fresh⟩ := makes.fresh present type
  have starts : Starts ⟨next.pools, channel⟩ window := ⟨fresh.storage, type, sends, fresh.nextSendSeq,
    rooming.fresh present type fresh, fresh.blank.size, fresh.lastSeq, fresh.headSeq⟩
  obtain ⟨view, sending⟩ := starts.sending
  exact Or.inr ⟨channel, window, view, present, sending, trivial, Nat.two_pow_pos 31, fun _ member => by cases member⟩

/-- Only a `CreateUpstream` that finds the peer of the target writes. -/
theorem writes_none (elsewhere : ∀ peid buf len, step = .createUpstream peid line.cuid buf len →
    host.peidPeer peid ≠ host.peers (addrToUint64 line.target)) : line.writes host code step = [] := by
  cases step with
  | createUpstream peid cuid buf len =>
      rw [writes, if_neg]
      rintro ⟨own, rfl⟩
      exact elsewhere peid buf len rfl own
  | _ => rfl

/-- A `CreateUpstream` of a sending channel continues its stream. -/
theorem upstream_sending {pools nextPools : Pools} {position : Nat}
    (sending : Sending ⟨pools, channel⟩ stream position window view) {buf : Memory} {len : Int}
    (meets : (SenderStep.upstream buf len).Meets ⟨pools, channel⟩ stream)
    (created : channel.createUpstream pools buf len = .ok (code, nextPools, after)) :
    ∃ window view, Sending ⟨nextPools, after⟩ (stream ++ (SenderStep.upstream buf len).written code) position window view := by
  obtain ⟨answer, next, nextWindow, nextView, performed, kept⟩ := @Sending.upstream 0 _ _ _ _ _ sending _ _ meets
  rw [SenderStep.perform] at performed
  dsimp only at performed
  rw [created] at performed
  cases performed
  exact ⟨nextWindow, nextView, kept⟩

/-- The rounds of a `Send` on a sending channel carry its stream on. -/
theorem send_sending {pools : Pools} {cuid : U16} {position : Nat}
    (sending : Sending ⟨pools, channel⟩ stream position window view) {stack : Fin 16 → Memory} {out : List Datagram}
    (meets : (SenderStep.send stack).Meets ⟨pools, channel⟩ stream)
    (looped : sendLoop pools.heap cuid (List.ofFn stack) channel = .ok (out, some after)) :
    Tiles stream position out ∧ Sending ⟨pools, after⟩ stream (behind position out) window view ∧
      ∀ datagram ∈ out, 8 + paddingOf datagram ≤ datagram.length := by
  obtain ⟨datagrams, next, performed, tiles, kept⟩ := @Sending.send cuid _ _ _ _ _ sending stack meets
  rw [SenderStep.perform] at performed
  dsimp only at performed
  rw [looped] at performed
  cases performed
  refine ⟨tiles, kept, fun datagram member => ?_⟩
  exact ((sendLoop_dataFrame _ cuid _ (Or.inl sending.type) looped).2 datagram member).2.padding

/-- Every step of the source that meets its conditions keeps its end. -/
theorem Outgoing.acts (outgoing : line.Outgoing host stream data) (sound : Sound key line.source log host)
    (rooming : Rooming host freed) (stepped : host.step step = .ok (code, sent, next)) {nextLog : List Note}
    (nextSound : Sound key line.source nextLog next) (keeps : Keeps host line.target step)
    (speaks : line.Speaks host stream step) (small : line.cuid.toNat < 4)
    (speaking : ∀ channel, next.channelAt line.target line.cuid = some channel → channel.kind = (.rdtStream, false)) :
    line.Outgoing next (stream ++ line.writes host code step) (data ++ toChannel line.target line.cuid sent) := by
  rcases outgoing with ⟨free, rfl, rfl⟩ | ⟨channel, window, view, present, sending, tiles, short, framed⟩
  · obtain ⟨silent, later⟩ := @Sound.makes _ _ line.target _ _ _ _ line.cuid _ _ sound stepped free small
    have nothing : line.writes host code step = [] := by
      apply writes_none
      rintro peid buf len rfl own
      rw [free] at own
      change host.createUpstream peid line.cuid buf len = _ at stepped
      rw [Host.createUpstream, own] at stepped
      cases stepped
    rw [nothing, silent]
    rcases later with stays | makes
    · exact Or.inl ⟨stays, rfl, rfl⟩
    · exact Outgoing.made nextSound (rooming.moves stepped).1 makes small speaking
  · have known {pointer : Ptr} {peid : U32} {buf : Memory} {len : Int} (isStep : step = .createUpstream peid line.cuid buf len)
        (here : host.peers (addrToUint64 line.target) = some pointer)
        (elsewhere : step.place host ≠ some (pointer, line.cuid)) :
        host.peidPeer peid ≠ host.peers (addrToUint64 line.target) := by
      intro own
      apply elsewhere
      rw [isStep, HostStep.place, own, here, Option.map_some]
    cases sound.touches stepped present with
    | still other pools same silent =>
        rw [writes_none fun peid buf len isStep => absurd isStep (other peid line.cuid buf len), silent, List.append_nil,
          List.append_nil]
        exact Or.inr ⟨channel, window, view, same, by rw [pools]; exact sending, tiles, short, framed⟩
    | spared elsewhere same silent =>
        obtain ⟨pointer, here, -⟩ := windowAt_channel present sending.type sending.storage
        rw [writes_none fun peid buf len isStep => known isStep here (elsewhere pointer here), silent, List.append_nil,
          List.append_nil]
        obtain ⟨free, stays⟩ := rooming.stays stepped elsewhere present same sending.type sending.storage
          sending.represents
        exact Or.inr ⟨channel, window, _, same, outgoing_stays sending stays, tiles, short, framed⟩
    | heard isStep named processed here spoken =>
        obtain ⟨rfl, nextWindow, nextView, kept⟩ := hears_sending sending processed
        rw [writes_none fun peid buf len other => (by cases isStep.symm.trans other), spoken, List.append_nil,
          List.append_nil]
        exact Or.inr ⟨_, nextWindow, nextView, here, kept, tiles, short, framed⟩
    | @wrote peid buf len after isStep own created here silent =>
        subst isStep
        obtain ⟨meets, bounded⟩ := speaks own rfl channel present
        obtain ⟨nextWindow, nextView, kept⟩ := upstream_sending sending meets created
        rw [silent, List.append_nil, writes, if_pos ⟨own, rfl⟩]
        refine Or.inr ⟨_, nextWindow, nextView, here, kept, tiles.extend _, ?_, framed⟩
        rw [List.length_append, SenderStep.written]
        split
        · rw [read_length]
          exact bounded
        · exact short
    | @sends stack out after isStep looped pools here spoken =>
        subst isStep
        obtain ⟨more, kept, frames⟩ := send_sending sending (speaks rfl channel present) looped
        rw [writes_none fun peid buf len other => (by cases other), spoken, List.append_nil]
        refine Or.inr ⟨_, window, view, here, ?_, tiles.append more, short, ?_⟩
        · rw [pools, behind_append]
          exact kept
        · intro datagram member
          rcases List.mem_append.mp member with old | new
          · exact framed datagram old
          · exact frames datagram new
    | removed isStep own => exact absurd own (keeps _ isStep)

end Source

section Target

variable {line : Line} {key : Memory} {log : List Note} {host next : Host} {freed : List Ptr} {step : HostStep}
  {channel after : Channel} {code : Int} {sent : List Sent} {window : WQWindow} {view : View} {stream : List Byte}
  {data : List Datagram}

/-- More bytes of the stream change nothing for the target. -/
theorem Incoming.extend (incoming : line.Incoming host stream)
    (more : List Byte) : line.Incoming host (stream ++ more) := by
  intro channel present kind
  obtain ⟨window, view, storage, receiving⟩ := incoming channel present kind
  exact ⟨window, view, storage, receiving.extend more⟩

/-- A new peer of the target has received nothing. -/
theorem Incoming.made (rooming : Rooming next freed) (makes : Makes host line.source next) (stream : List Byte) :
    line.Incoming next stream := by
  intro channel present kind
  have type := (Prod.mk.inj kind).1
  obtain ⟨window, fresh⟩ := makes.fresh present type
  obtain ⟨cells, free, receiving⟩ :=
    (rooming.fresh present type fresh).receiving fresh.lastSeq fresh.blank.size stream
  exact ⟨window, _, fresh.storage, receiving⟩

/-- A `Send` passes over a receiving channel. -/
theorem send_receiving {heap : WQHeap} {cuid : U16} {stack : List Memory} {out : List Datagram} {final : Option Channel}
    (receives : channel.isReceiving = true) (looped : sendLoop heap cuid stack channel = .ok (out, final)) :
    final = some channel := by
  induction stack with
  | nil =>
      cases looped
      rfl
  | cons buf stack ih =>
      rw [sendLoop] at looped
      split at looped
      · cases looped
        rfl
      · exact ih looped

/-- The buffer that holds a datagram. -/
theorem filled_self {buf : Memory} {datagram : Datagram} (whole : read buf datagram.length = datagram) :
    filled datagram buf = buf := by
  funext index
  rcases Nat.lt_or_ge index datagram.length with inside | outside
  · rw [filled, memcpy_inside (Nat.zero_le _) (by omega), Nat.sub_zero]
    exact (sameBytes_of_read whole index inside).symm
  · rw [filled, memcpy_outside (Or.inr (by omega))]

/-- A datagram that carries bytes of the stream brings them to a receiving channel, or it brings nothing. -/
theorem hears_receiving {pools nextPools : Pools}
    (receiving : Receiving stream ⟨pools.heap, pools.pool, window⟩ [] view)
    (kind : channel.kind = (.rdtStream, true)) (storage : channel.storage = .buffer window)
    (short : stream.length < 2 ^ 31)
    (tiles : Tiles stream 0 data) {datagram : Datagram} (member : datagram ∈ data)
    (padded : 8 + paddingOf datagram ≤ datagram.length) (bounded : datagram.length ≤ 496)
    (arrives : Arrives ⟨pools.heap, pools.pool, window⟩ datagram) {rest : Memory} {answer : Int} {out : List Datagram}
    (processed : channel.processPacket pools (filled datagram rest) datagram.length = .ok (answer, out, nextPools, after)) :
    ∃ window view, after.storage = .buffer window ∧
      Receiving stream ⟨nextPools.heap, nextPools.pool, window⟩ [] view := by
  obtain ⟨index, found⟩ := List.mem_iff_getElem?.mp member
  obtain ⟨sequence, below, carried⟩ := tiles.at found
  obtain ⟨answered, copies, state, nextView, returned, kept, -⟩ :=
    hears_datagram receiving short sequence below carried arrives
  have puts := @processPacket_puts ⟨pools, channel⟩ window datagram rest kind storage padded bounded
  rw [Endpoint.state] at puts
  dsimp only at puts
  rw [returned, processed] at puts
  cases puts
  exact ⟨state.window, nextView, rfl, kept⟩

/-- Every step of the target that meets its conditions keeps its end. -/
theorem Incoming.acts (incoming : line.Incoming host stream) (sound : Sound key line.target log host)
    (rooming : Rooming host freed) (stepped : host.step step = .ok (code, sent, next))
    (keeps : Keeps host line.source step) (listens : line.Listens host step) (small : line.cuid.toNat < 4)
    (hears : Note.Hears log line.target step) (short : stream.length < 2 ^ 31) (tiles : Tiles stream 0 data)
    (padded : ∀ datagram ∈ data, 8 + paddingOf datagram ≤ datagram.length)
    (heard : ∀ datagram, .sent line.source line.target datagram ∈ log → 2 ≤ datagram.length ∧
      (ntohs (ofList datagram) 0 = line.cuid → datagram ∈ data)) : line.Incoming next stream := by
  by_cases free : host.peers (addrToUint64 line.source) = none
  · rcases (sound.makes stepped free small).2 with stays | makes
    · intro channel present kind
      obtain ⟨pointer, peer, known, -⟩ := channelAt_some present
      rw [stays] at known
      cases known
    · exact Incoming.made (rooming.moves stepped).1 makes stream
  intro current present kind
  obtain ⟨channel, before⟩ := sound.hasChannel free small
  cases sound.touches stepped before with
  | still other pools same silent =>
      obtain rfl := Option.some.inj (same.symm.trans present)
      obtain ⟨window, view, storage, receiving⟩ := incoming channel before kind
      exact ⟨window, view, storage, by rw [pools]; exact receiving⟩
  | spared elsewhere same silent =>
      obtain rfl := Option.some.inj (same.symm.trans present)
      obtain ⟨window, view, storage, receiving⟩ := incoming channel before kind
      obtain ⟨free, stays⟩ := rooming.stays stepped elsewhere before same (Prod.mk.inj kind).1 storage
        receiving.represents
      exact ⟨window, _, storage, receiving.stays stays⟩
  | @heard buf size currentTime raw answer out after isStep named processed there spoken =>
      obtain rfl := Option.some.inj (there.symm.trans present)
      subst isStep
      rw [processPacket_kind processed] at kind
      obtain ⟨window, view, storage, receiving⟩ := incoming channel before kind
      rcases hears with nothing | ⟨datagram, inLog, bounded, sizeIs, whole⟩
      · have idle : host.step (.inbound line.source buf size currentTime raw) = .ok (0, [], host) := if_pos nothing
        rw [idle] at stepped
        cases stepped
        obtain rfl := Option.some.inj (there.symm.trans before)
        exact ⟨window, view, storage, receiving⟩
      · obtain ⟨long, carried⟩ := heard datagram inLog
        have same := sameBytes_of_read whole
        have channelIs : ntohs (ofList datagram) 0 = line.cuid := by
          rw [← named]
          exact ntohs_congr fun index inside => (same _ (by omega)).symm
        have member := carried channelIs
        have arrives := listens rfl named (by omega) channel window before storage
        rw [sizeIs, Int.toNat_natCast, whole] at arrives
        rw [sizeIs, ← filled_self whole] at processed
        exact hears_receiving receiving kind storage short tiles member (padded datagram member) bounded arrives processed
  | wrote isStep own created there silent =>
      obtain rfl := Option.some.inj (there.symm.trans present)
      rw [createUpstream_kind created] at kind
      obtain ⟨window, view, storage, receiving⟩ := incoming channel before kind
      rw [Channel.createUpstream, if_pos (Or.inr (Prod.mk.inj kind).2)] at created
      obtain ⟨-, pools, same⟩ : _ = code ∧ host.pools = next.pools ∧ channel = _ := by
        simpa only [Except.ok.injEq, Prod.mk.injEq] using created
      exact ⟨window, view, by rw [← same]; exact storage, by rw [← pools]; exact receiving⟩
  | sends isStep looped pools there spoken =>
      obtain rfl := Option.some.inj (there.symm.trans present)
      rw [sendLoop_kind looped] at kind
      obtain ⟨window, view, storage, receiving⟩ := incoming channel before kind
      obtain rfl := Option.some.inj (send_receiving (Prod.mk.inj kind).2 looped)
      exact ⟨window, view, storage, by rw [pools]; exact receiving⟩
  | removed isStep own => exact absurd own (keeps _ isStep)

end Target

/-- One step of a network, with the bytes that are written into the line so far. The two hosts of the line meet its
conditions. -/
inductive Step (line : Line) (hosted : Address → Prop) (now : Config Address Host Note × List Byte) :
    Config Address Host Note × List Byte → Prop
  | act (actor : Address) {step : HostStep} {code : Int} {messages : List Sent} {next : Host} (own : hosted actor)
      (hears : Note.Hears now.1.log actor step)
      (stepped : (now.1.party actor).step step = .ok (code, messages, next))
      (source : actor = line.source →
        Keeps (now.1.party actor) line.target step ∧ line.Speaks (now.1.party actor) now.2 step)
      (target : actor = line.target → Keeps (now.1.party actor) line.source step ∧ line.Listens (now.1.party actor) step) :
      Step line hosted now (⟨Function.update now.1.party actor next, now.1.log ++ Note.ofStep actor step messages⟩,
        now.2 ++ if actor = line.source then line.writes (now.1.party actor) code step else [])
  | enter {source target : Address} {datagram : Datagram} (foreign : ¬ hosted source) :
      Step line hosted now (⟨now.1.party, now.1.log ++ [.sent source target datagram]⟩, now.2)

section Log

variable {line : Line} {log more : List Note} {actor : Address} {datagram : Datagram}

theorem spoken_append : line.spoken (log ++ more) = line.spoken log ++ line.spoken more := List.filterMap_append ..

theorem mem_spoken (sent : .sent line.source line.target datagram ∈ log)
    (named : ntohs (ofList datagram) 0 = line.cuid) : datagram ∈ line.spoken log :=
  List.mem_filterMap.mpr ⟨_, sent, if_pos ⟨rfl, rfl, named⟩⟩

/-- Only the source speaks for the line. -/
theorem spoken_ofStep (line : Line) (actor : Address) (step : HostStep) (messages : List Sent) :
    line.spoken (Note.ofStep actor step messages) =
      if actor = line.source then toChannel line.target line.cuid messages else [] := by
  have asked : line.spoken (Note.asks actor step) = [] := by cases step <;> rfl
  rw [Note.ofStep, spoken_append, asked, List.nil_append, spoken]
  induction messages with
  | nil => simp [toChannel, Peer.ofChannel]
  | cons message rest ih =>
      rw [List.map_cons, List.filterMap_cons, ih]
      by_cases own : actor = line.source
      · by_cases there : message.1 = line.target
        · by_cases named : ntohs (ofList message.2) 0 = line.cuid <;>
            simp [own, there, named, toChannel, Peer.ofChannel]
        · simp [own, there, toChannel, Peer.ofChannel]
      · simp [own]

end Log

/-- The two ends of a line belong together, as long as its source sends on it. -/
structure Kept (line : Line) (now : Config Address Host Note × List Byte) : Prop where
  source : ∃ freed, Rooming (now.1.party line.source) freed
  target : ∃ freed, Rooming (now.1.party line.target) freed
  ends : (∀ channel, (now.1.party line.source).channelAt line.target line.cuid = some channel →
      channel.kind = (.rdtStream, false)) →
    line.Outgoing (now.1.party line.source) now.2 (line.spoken now.1.log) ∧
      line.Incoming (now.1.party line.target) now.2

section Runs

variable {line : Line} {hosted : Address → Prop} {key : Address → Memory} {now next : Config Address Host Note × List Byte}

theorem Step.network (step : line.Step hosted now next) : (network hosted).Step now.1 next.1 := by
  cases step with
  | act actor own hears stepped => exact .act actor ⟨own, _, _, _, hears, stepped, rfl⟩
  | enter foreign => exact .enter ⟨_, _, _, foreign, rfl⟩

/-- What the source wrote is below 2^31 bytes, and its datagrams carry it. -/
theorem Outgoing.carries {host : Host} {stream : List Byte} {data : List Datagram}
    (outgoing : line.Outgoing host stream data) :
    Tiles stream 0 data ∧ stream.length < 2 ^ 31 ∧ ∀ datagram ∈ data, 8 + paddingOf datagram ≤ datagram.length := by
  rcases outgoing with ⟨-, rfl, rfl⟩ | ⟨-, -, -, -, -, tiles, short, padded⟩
  · exact ⟨trivial, Nat.two_pow_pos 31, fun _ member => by cases member⟩
  · exact ⟨tiles, short, padded⟩

/-- The source acts. -/
theorem Kept.speaks (kept : line.Kept now) (different : line.source ≠ line.target) (small : line.cuid.toNat < 4)
    {step : HostStep} {code : Int} {messages : List Sent} {host : Host}
    (stepped : (now.1.party line.source).step step = .ok (code, messages, host))
    (keeps : Keeps (now.1.party line.source) line.target step)
    (speaks : line.Speaks (now.1.party line.source) now.2 step) {key : Memory} {log : List Note}
    (sound : Sound key line.source now.1.log (now.1.party line.source)) (nextSound : Sound key line.source log host) :
    line.Kept (⟨Function.update now.1.party line.source host, now.1.log ++ Note.ofStep line.source step messages⟩,
      now.2 ++ line.writes (now.1.party line.source) code step) := by
  obtain ⟨freed, rooming⟩ := kept.source
  refine ⟨?_, ?_, ?_⟩
  · dsimp only
    rw [Function.update_self]
    exact ⟨_, (rooming.moves stepped).1⟩
  · dsimp only
    rw [Function.update_of_ne (Ne.symm different)]
    exact kept.target
  · dsimp only
    rw [Function.update_self, Function.update_of_ne (Ne.symm different), spoken_append, spoken_ofStep, if_pos rfl]
    intro speaking
    obtain ⟨outgoing, incoming⟩ := kept.ends (by
      intro channel present
      obtain ⟨after, there, same⟩ := (sound.touches stepped present).kind keeps
      rw [← same]
      exact speaking after there)
    exact ⟨outgoing.acts sound rooming stepped nextSound keeps speaks small speaking, incoming.extend _⟩

/-- The target acts. -/
theorem Kept.listens (kept : line.Kept now) (different : line.source ≠ line.target) (small : line.cuid.toNat < 4)
    {step : HostStep} {code : Int} {messages : List Sent} {host : Host} (hears : Note.Hears now.1.log line.target step)
    (stepped : (now.1.party line.target).step step = .ok (code, messages, host))
    (keeps : Keeps (now.1.party line.target) line.source step) (listens : line.Listens (now.1.party line.target) step)
    {key : Memory} (sound : Sound key line.target now.1.log (now.1.party line.target))
    (long : ∀ datagram, .sent line.source line.target datagram ∈ now.1.log → 2 ≤ datagram.length) :
    line.Kept (⟨Function.update now.1.party line.target host, now.1.log ++ Note.ofStep line.target step messages⟩, now.2) := by
  obtain ⟨freed, rooming⟩ := kept.target
  refine ⟨?_, ?_, ?_⟩
  · dsimp only
    rw [Function.update_of_ne different]
    exact kept.source
  · dsimp only
    rw [Function.update_self]
    exact ⟨_, (rooming.moves stepped).1⟩
  · dsimp only
    rw [Function.update_self, Function.update_of_ne different, spoken_append, spoken_ofStep, if_neg (Ne.symm different),
      List.append_nil]
    intro speaking
    obtain ⟨outgoing, incoming⟩ := kept.ends speaking
    obtain ⟨tiles, short, padded⟩ := outgoing.carries
    exact ⟨outgoing, incoming.acts sound rooming stepped keeps listens small hears short tiles padded
      fun datagram sent => ⟨long datagram sent, mem_spoken sent⟩⟩

/-- Every step of the network keeps both ends. -/
theorem Kept.acts (kept : line.Kept now) (different : line.source ≠ line.target) (small : line.cuid.toNat < 4)
    (ownSource : hosted line.source) (step : line.Step hosted now next)
    (sound : ∀ here, hosted here → Sound (key here) here now.1.log (now.1.party here))
    (causal : Causal (Justified hosted key) now.1.log)
    (nextSound : ∀ here, hosted here → Sound (key here) here next.1.log (next.1.party here)) : line.Kept next := by
  cases step with
  | @enter source target datagram foreign =>
      refine ⟨kept.source, kept.target, fun speaking => ?_⟩
      have silent : line.spoken [.sent source target datagram] = [] := by
        have other : source ≠ line.source := fun same => foreign (same ▸ ownSource)
        simp [spoken, other]
      dsimp only
      rw [spoken_append, silent, List.append_nil]
      exact kept.ends speaking
  | @act actor step code messages host own hears stepped source target =>
      by_cases isSource : actor = line.source
      · subst isSource
        obtain ⟨keeps, speaks⟩ := source rfl
        have later := nextSound line.source own
        dsimp only at later
        rw [Function.update_self] at later
        rw [if_pos rfl]
        exact kept.speaks different small stepped keeps speaks (sound _ own) later
      rw [if_neg isSource, List.append_nil]
      by_cases isTarget : actor = line.target
      · subst isTarget
        obtain ⟨keeps, listens⟩ := target rfl
        refine kept.listens different small hears stepped keeps listens (sound _ own) fun datagram sent => ?_
        obtain ⟨before, -, justified, -⟩ := causal.before sent
        exact (justified ownSource).long
      · have silent : line.spoken (now.1.log ++ Note.ofStep actor step messages) = line.spoken now.1.log := by
          rw [spoken_append, spoken_ofStep, if_neg isSource, List.append_nil]
        refine ⟨?_, ?_, ?_⟩
        · dsimp only
          rw [Function.update_of_ne (Ne.symm isSource)]
          exact kept.source
        · dsimp only
          rw [Function.update_of_ne (Ne.symm isTarget)]
          exact kept.target
        · dsimp only
          rw [Function.update_of_ne (Ne.symm isSource), Function.update_of_ne (Ne.symm isTarget), silent]
          exact kept.ends

variable {node : Address → Ptr → WQNode} {nodes : Address → NodeHeap} {newPool : Address → NodePool}

/-- The hosts of a network with empty pools, before anything is written. -/
def start (key : Address → Memory) (node : Address → Ptr → WQNode) (nodes : Address → NodeHeap)
    (newPool : Address → NodePool) : Config Address Host Note × List Byte :=
  (network.start key fun here => newPools (node here) (nodes here) (newPool here), [])

theorem run_kept (different : line.source ≠ line.target) (small : line.cuid.toNat < 4) (ownSource : hosted line.source)
    (run : Relation.ReflTransGen (line.Step hosted) (start key node nodes newPool) now) : line.Kept now := by
  induction run with
  | refl =>
      refine ⟨⟨[], altusHost_rooming _ _ _ _⟩, ⟨[], altusHost_rooming _ _ _ _⟩, fun _ => ⟨Or.inl ⟨rfl, rfl, rfl⟩, ?_⟩⟩
      intro channel present
      cases present
  | @tail now next before last ih =>
      obtain ⟨sound, causal⟩ := network.run_explained (before.lift Prod.fst fun _ _ => Step.network)
      obtain ⟨nextSound, -⟩ := network.run_explained ((before.tail last).lift Prod.fst fun _ _ => Step.network)
      exact ih.acts different small ownSource last sound causal nextSound

/-- In every run of the network whose steps meet the conditions of a line, the datagrams of its source carry what was written
there, and its target delivers a part of it, from the first byte on and in order. -/
theorem run_delivers {config : Config Address Host Note} {written : List Byte} (different : line.source ≠ line.target)
    (ownSource : hosted line.source)
    (run : Relation.ReflTransGen (line.Step hosted) (start key node nodes newPool) (config, written))
    {sending receiving : Channel}
    (sends : (config.party line.source).channelAt line.target line.cuid = some sending)
    (sendsKind : sending.kind = (.rdtStream, false))
    (receives : (config.party line.target).channelAt line.source line.cuid = some receiving)
    (receivesKind : receiving.kind = (.rdtStream, true)) :
    Tiles written 0 (line.spoken config.log) ∧ ∃ window, receiving.storage = .buffer window ∧
      Delivers written ⟨(config.party line.target).pools.heap, (config.party line.target).pools.pool, window⟩ [] := by
  obtain ⟨sound, -⟩ := network.run_explained (run.lift Prod.fst fun _ _ => Step.network)
  have small := (sound line.source ownSource).small sends
  obtain ⟨outgoing, incoming⟩ := (run_kept different small ownSource run).ends (by
    intro channel present
    obtain rfl := Option.some.inj (sends.symm.trans present)
    exact sendsKind)
  obtain ⟨tiles, short, -⟩ := outgoing.carries
  obtain ⟨window, view, storage, received⟩ := incoming receiving receives receivesKind
  exact ⟨tiles, window, storage, received.delivers short⟩

end Runs

end Line

namespace Host

/-- `Host.sender` over the numbers that name a channel. -/
def senderSmall (host : Host) (addrport : U64) (stack : U16 → Fin 16 → Memory) : Answer :=
  match host.peers addrport with
  | none => .ok (0, [], host)
  | some pointer =>
      match host.peer pointer with
      | none => .error .useAfterFree
      | some peer =>
          (Peer.sendFrom host.pools.heap stack [0, 1, 2, 3] peer).map fun (code, sent, next) =>
            (code, sent.map fun datagram => (peer.remoteAddr, datagram),
              { host with peer := Function.update host.peer pointer (some next) })

end Host

namespace Line

/-- A peer of a network has no other channels. -/
theorem sender_small {key : Memory} {here : Address} {log : List Note} {host : Host} (sound : Sound key here log host)
    (addrport : U64) (stack : U16 → Fin 16 → Memory) :
    host.step (.sender addrport stack) = host.senderSmall addrport stack := by
  rw [Host.step, Host.sender, senderSmall]
  cases host.peers addrport with
  | none => rfl
  | some pointer =>
      dsimp only
      cases found : host.peer pointer with
      | none => rfl
      | some peer =>
          obtain ⟨role, -, owns⟩ := sound.met pointer peer found
          dsimp only
          rw [owns.send_small]

section Pair

/-- The first channel of a client to its server. -/
def upward : Line := ⟨clientAddress, serverAddress, 0⟩

/-- A network after a step that answers. -/
def answered (now : Config Address Host Note) (actor : Address) (step : HostStep) : Answer → Config Address Host Note
  | .ok (_, sent, next) => ⟨Function.update now.party actor next, now.log ++ Note.ofStep actor step sent⟩
  | .error _ => now

/-- The bytes that a step writes into the line when it answers. -/
def wrote (line : Line) (now : Config Address Host Note) (actor : Address) (step : HostStep) : Answer → List Byte
  | .ok (code, _) => if actor = line.source then line.writes (now.party actor) code step else []
  | .error _ => []

/-- The conditions of a step, except for what its host has heard. -/
def Admits (line : Line) (now : Config Address Host Note) (written : List Byte) (actor : Address) (step : HostStep) :
    Prop :=
  (actor = line.source → line.Speaks (now.party actor) written step) ∧
    (actor = line.target → line.Listens (now.party actor) step)

instance (line : Line) (now : Config Address Host Note) (written : List Byte) (actor : Address) (step : HostStep) :
    Decidable (line.Admits now written actor step) := inferInstanceAs (Decidable (_ ∧ _))

theorem answered_step {line : Line} {hosted : Address → Prop} {now : Config Address Host Note}
    {written more : List Byte} {actor : Address} {step : HostStep} {answer : Answer} (own : hosted actor)
    (hears : Note.Hears now.log actor step)
    (stays : ∀ peid, step ≠ .removePeer peid) (admits : line.Admits now written actor step)
    (performed : (now.party actor).step step = answer) (returns : answer.isOk = true)
    (bytes : written ++ line.wrote now actor step answer = more) :
    line.Step hosted (now, written) (answered now actor step answer, more) := by
  subst bytes
  obtain ⟨speaks, listens⟩ := admits
  have keeps (there : Address) : Keeps (now.party actor) there step := fun peid same => absurd same (stays peid)
  cases answer with
  | error fault => cases returns
  | ok answer =>
      obtain ⟨code, sent, next⟩ := answer
      exact .act actor own hears performed (fun same => ⟨keeps _, speaks same⟩) fun same => ⟨keeps _, listens same⟩

theorem act_answered {now : Config Address Host Note} {actor : Address} {step : HostStep}
    (returns : ((now.party actor).step step).isOk = true) :
    act now actor step = answered now actor step ((now.party actor).step step) := by
  rw [act, stepped]
  cases performed : (now.party actor).step step with
  | error fault =>
      rw [performed] at returns
      cases returns
  | ok answer => rfl

/-- A step of one of the two hosts. -/
theorem pair_step {now : Config Address Host Note} {written more : List Byte} {actor : Address} {step : HostStep}
    (own : pair actor) (hears : Note.Hears now.log actor step) (stays : ∀ peid, step ≠ .removePeer peid)
    (admits : upward.Admits now written actor step) (returns : ((now.party actor).step step).isOk = true)
    (bytes : written ++ upward.wrote now actor step ((now.party actor).step step) = more) :
    upward.Step pair (now, written) (act now actor step, more) := by
  rw [act_answered returns]
  exact answered_step own hears stays admits rfl returns bytes

/-- One of the two hosts receives a datagram of the log. -/
theorem pair_delivery {now : Config Address Host Note} {written more : List Byte} {source actor : Address}
    {datagram : Datagram} (own : pair actor) (sent : .sent source actor datagram ∈ now.log)
    (short : datagram.length ≤ 496) (admits : upward.Admits now written actor (delivery source datagram))
    (returns : ((now.party actor).step (delivery source datagram)).isOk = true)
    (bytes : written ++ upward.wrote now actor (delivery source datagram)
      ((now.party actor).step (delivery source datagram)) = more) :
    upward.Step pair (now, written) (act now actor (delivery source datagram), more) :=
  pair_step own (delivery_hears sent short) (fun _ removes => by cases removes) admits returns bytes

/-- A caller of the client writes ten bytes. -/
def pairWrite : HostStep := .createUpstream 1 0 (fun _ => 7) 10

/-- The client sends them. -/
def pairSend : HostStep := .sender (addrToUint64 serverAddress) fun _ _ _ => 0

/-- The datagram that carries them. -/
def pairData : Datagram := [0, 0, 14, 1] ++ List.replicate 4 0 ++ List.replicate 10 7 ++ List.replicate 14 0

def pairWritten : Config Address Host Note := act pairMet clientAddress pairWrite

def pairSent : Config Address Host Note :=
  answered pairWritten clientAddress pairSend
    ((pairWritten.party clientAddress).senderSmall (addrToUint64 serverAddress) fun _ _ _ => 0)

def pairHeard : Config Address Host Note := act pairSent serverAddress (delivery clientAddress pairData)

/-- The handshake writes nothing into the line. -/
theorem pair_meets : Relation.ReflTransGen (upward.Step pair) (pairStart, []) (pairMet, []) := by
  have asked : upward.Step pair (pairStart, []) (pairAsked, []) :=
    pair_step (Or.inl rfl) trivial (fun _ removes => by cases removes) (by decide +kernel) (by decide +kernel)
      (by decide +kernel)
  have opened : upward.Step pair (pairAsked, []) (pairOpened, []) :=
    pair_delivery (Or.inr rfl) (by decide +kernel) (by decide +kernel) (by decide +kernel) (by decide +kernel)
      (by decide +kernel)
  have replied : upward.Step pair (pairOpened, []) (pairReplied, []) :=
    pair_delivery (Or.inr rfl) (by decide +kernel) (by decide +kernel) (by decide +kernel) (by decide +kernel)
      (by decide +kernel)
  have finished : upward.Step pair (pairReplied, []) (pairFinished, []) :=
    pair_delivery (Or.inl rfl) (by decide +kernel) (by decide +kernel) (by decide +kernel) (by decide +kernel)
      (by decide +kernel)
  have met : upward.Step pair (pairFinished, []) (pairMet, []) :=
    pair_delivery (Or.inr rfl) (by decide +kernel) (by decide +kernel) (by decide +kernel) (by decide +kernel)
      (by decide +kernel)
  exact .tail (.tail (.tail (.tail (.tail .refl asked) opened) replied) finished) met

/-- After the handshake ten bytes are written, sent and received. -/
theorem pair_transfers :
    Relation.ReflTransGen (upward.Step pair) (pairStart, []) (pairHeard, List.replicate 10 7) := by
  have wrote : upward.Step pair (pairMet, []) (pairWritten, List.replicate 10 7) :=
    pair_step (Or.inl rfl) trivial (fun _ removes => by cases removes) (by decide +kernel) (by decide +kernel)
      (by decide +kernel)
  have before := pair_meets.tail wrote
  have between : Relation.ReflTransGen (network pair).Step pairStart pairWritten :=
    before.lift Prod.fst fun _ _ => Step.network
  have sound := (network.run_explained between).1 clientAddress (Or.inl rfl)
  have performed : (pairWritten.party clientAddress).step pairSend =
      (pairWritten.party clientAddress).senderSmall (addrToUint64 serverAddress) fun _ _ _ => 0 :=
    sender_small sound _ _
  have sent : upward.Step pair (pairWritten, List.replicate 10 7) (pairSent, List.replicate 10 7) :=
    answered_step (Or.inl rfl) trivial (fun _ removes => by cases removes) (by decide +kernel) performed
      (by decide +kernel) (by decide +kernel)
  have heard : upward.Step pair (pairSent, List.replicate 10 7) (pairHeard, List.replicate 10 7) :=
    pair_delivery (Or.inr rfl) (by decide +kernel) (by decide +kernel) (by decide +kernel) (by decide +kernel)
      (by decide +kernel)
  exact (before.tail sent).tail heard

/-- The server delivers the ten bytes. -/
theorem run_delivers_pair : ∃ channel window, (pairHeard.party serverAddress).channelAt clientAddress 0 = some channel ∧
    channel.storage = .buffer window ∧ window.lastSeq = 10 ∧
      Delivers (List.replicate 10 7) ⟨(pairHeard.party serverAddress).pools.heap,
        (pairHeard.party serverAddress).pools.pool, window⟩ [] := by
  obtain ⟨sending, sends, sendsKind⟩ := Option.map_eq_some_iff.mp (show ((pairHeard.party clientAddress).channelAt
    serverAddress 0).map Channel.kind = some (.rdtStream, false) by decide +kernel)
  obtain ⟨receiving, receives, receivesKind⟩ := Option.map_eq_some_iff.mp (show ((pairHeard.party serverAddress).channelAt
    clientAddress 0).map Channel.kind = some (.rdtStream, true) by decide +kernel)
  have reached : ∀ channel, (pairHeard.party serverAddress).channelAt clientAddress 0 = some channel →
      ∀ window, channel.storage = .buffer window → window.lastSeq = 10 := by decide +kernel
  have begins : (pairStart, []) =
      start (fun _ _ => 0) (fun _ => blankHeap.node) (fun _ => blankNodes) fun _ => NodePool.empty := rfl
  have run := pair_transfers
  rw [begins] at run
  have different : upward.source ≠ upward.target := by decide
  have own : pair upward.source := Or.inl rfl
  have target : upward.target = serverAddress := rfl
  obtain ⟨-, window, storage, delivers⟩ := run_delivers different own run sends sendsKind receives receivesKind
  rw [target] at delivers
  exact ⟨receiving, window, receives, storage, reached _ receives _ storage, delivers⟩

end Pair

end Line

end Altus
