import Altus.Proof.FileStream.Anchored
import Altus.Proof.Host.Nodes
import Altus.Proof.Receiver.Endings

namespace Altus

open Bytes WindowedQueue

namespace Channel

/-- The sizes that a datagram and its padding can have. -/
def Sized (buf : Memory) (size : Int) : Prop := 8 ≤ size ∧ size ≤ 496 ∧ (buf 2).toNat ≤ size - 8

instance (buf : Memory) (size : Int) : Decidable (Sized buf size) := inferInstanceAs (Decidable (_ ∧ _))

/-- The block of a datagram for a receiving channel finds its nodes. A window takes its bytes in reach, and a file stream
takes it without an overlap, in its first two nodes, and merges only whole nodes. -/
def Bears (pools : Pools) (channel : Channel) (buf : Memory) (size : Int) : Prop :=
  channel.isReceiving = true →
    match channel.storage with
    | .buffer window => Accepts window (ntohl buf 4) (payloadWord buf size) → payloadWord buf size ≠ 0 →
        InReach ⟨pools.heap, pools.pool, window⟩ (ntohl buf 4)
    | .frstream stream => ¬ 0 < (stream.lastSeq - ntohl buf 4).toInt →
        ¬ FileReceiveStream.RunsInto stream (ntohl buf 4) (payloadWord buf size) ∧
          FileReceiveStream.Holdable ⟨pools.nodes, pools.newPool, stream⟩ (ntohl buf 4) (payloadWord buf size)
    | _ => True

/-- What a channel of a peer that only receives datagrams keeps: a receiving window has the nodes of all listed bytes, a
sending one has its reader in place, and the chain of a file stream hangs on its head. -/
inductive Able (pools : Pools) (channel : Channel) : Prop
  | receives {window : WQWindow} {view : View} (type : channel.type = .rdtStream) (receiving : channel.isReceiving = true)
      (storage : channel.storage = .buffer window) (tracks : Tracks ⟨pools.heap, pools.pool, window⟩ view)
      (backed : view.Backed)
  | sends {window : WQWindow} {view : View} (type : channel.type = .rdtStream) (sending : channel.isReceiving = false)
      (storage : channel.storage = .buffer window) (represents : Represents ⟨pools.heap, pools.pool, window⟩ view)
      (reading : Reading ⟨pools.heap, pools.pool, window⟩ view)
  | file {stream : FileRcvStream} (type : channel.type = .fileStreamRcv) (receiving : channel.isReceiving = true)
      (storage : channel.storage = .frstream stream) (anchored : FileReceiveStream.Anchored stream)

section Calls

variable {pools : Pools} {channel : Channel} {buf : Memory} {size : Int}

theorem Able.linked (able : Able pools channel) : channel.Linked := by
  cases able with
  | receives type receiving storage tracks backed => exact Or.inl ⟨type, _, storage⟩
  | sends type sending storage represents reading => exact Or.inl ⟨type, _, storage⟩
  | file type receiving storage anchored => exact Or.inr ⟨type, receiving, _, storage⟩

theorem Sized.payload (sized : Sized buf size) : (payloadWord buf size).toNat ≤ 488 := by
  obtain ⟨long, short, padded⟩ := sized
  rw [payloadWord, BitVec.toNat_ofInt]
  unfold rdtHeaderSize
  omega

/-- Behind `channel::receive` a stream only answers from its window. -/
theorem answer_returns {code : Int} {next : Pools} {after : Channel}
    (stored : code = 1 → ∃ window, after.storage = .buffer window) :
    ∃ answer sent, after.answer buf code next = .ok (answer, sent, next, after) := by
  rw [Channel.answer]
  split
  · exact ⟨_, _, rfl⟩
  split
  · rename_i one
    obtain ⟨window, storage⟩ := stored one
    rw [storage]
    exact ⟨_, _, rfl⟩
  · exact ⟨_, _, rfl⟩

/-- The content that a window holds. -/
theorem reads_self {state : WQState} {view : View} (tracks : Tracks state view) :
    ∃ content, Reads state view content := by
  refine ⟨fun point => (stored state.heap view.cells (point - view.origin)).getD 0, ?_⟩
  intro point above before
  have inside := tracks.safeInside
  have depth : view.depth = view.position - view.origin := rfl
  have place : (point - view.origin) / 4096 < view.cells.length := by omega
  simp only [stored, List.getElem?_eq_getElem place, Option.map_some, Option.getD_some]

/-- `channel::receive` returns, and the channel can go on. -/
theorem Able.receive (able : Able pools channel) (sized : Sized buf size) (bears : channel.Bears pools buf size) :
    ∃ code next after, channel.receive pools buf size = .ok (code, next, after) ∧ Able next after ∧
      (code = 1 → ∃ window, after.storage = .buffer window) := by
  have short := sized.payload
  cases able with
  | @receives window view type receiving storage tracks backed =>
      have reach := bears receiving
      rw [storage] at reach
      obtain ⟨code, copies, state, nextView, returned, nextTracks, nextBacked⟩ :=
        @Tracks.put_returns _ _ _ _ (shift buf rdtHeaderSize) tracks backed (by omega) reach
      have puts : channel.receive pools buf size = .ok (1, { pools with heap := state.heap, pool := state.pool },
          { channel with storage := .buffer state.window }) := by
        rw [ReceivesStream.receive_hands ⟨receiving, Or.inl ⟨type, window, storage⟩⟩, hand, storage]
        dsimp only
        rw [put, returned]
        rfl
      exact ⟨1, _, _, puts, .receives type receiving rfl nextTracks nextBacked, fun _ => ⟨_, rfl⟩⟩
  | @sends window view type sending storage represents reading =>
      have idle : ¬ channel.isReceiving = true := by rw [sending]; simp
      obtain ⟨content, reads⟩ := reads_self represents.toTracks
      rw [Channel.receive, if_neg idle, type]
      dsimp only
      rw [receiveAck]
      split
      · exact ⟨_, _, _, rfl, .sends type sending storage represents reading, by simp⟩
      rename_i current
      split
      · exact ⟨_, _, _, rfl, .sends type sending storage represents reading, by simp⟩
      obtain ⟨state, nextView, returned, popped⟩ := altusWQPop_spec represents reading reads
        (ntohl buf 4 - channel.lastAckedSeq).toInt.toNat none
      rw [Int.toNat_of_nonneg (by omega)] at returned
      rw [storage]
      dsimp only
      rw [pop, returned]
      exact ⟨_, _, _, rfl, .sends type sending rfl popped.represents popped.reading, by simp⟩
  | @file stream type receiving storage anchored =>
      have holdable := bears receiving
      rw [storage] at holdable
      obtain ⟨code, next, appended, nextAnchored⟩ := @FileReceiveStream.Anchored.append
        ⟨pools.nodes, pools.newPool, stream⟩ (ntohl buf 4) (payloadWord buf size) anchored (by unfold nodeSize; omega)
        (fun inTime => ⟨fun malicious => (holdable inTime).1 (FileReceiveStream.checkUB_malicious_iff.mp malicious),
          (holdable inTime).2⟩) (shift buf rdtHeaderSize)
      refine ⟨0, { pools with nodes := next.heap, newPool := next.pool }, { channel with storage := .frstream next.stream },
        ?_, .file type receiving rfl nextAnchored, by simp⟩
      rw [ReceivesStream.receive_hands ⟨receiving, Or.inr ⟨type, stream, storage⟩⟩, hand, storage]
      dsimp only
      rw [appended]

theorem Able.processPacket (able : Able pools channel) (sized : Sized buf size) (bears : channel.Bears pools buf size) :
    ∃ code sent next after, channel.processPacket pools buf size = .ok (code, sent, next, after) ∧ Able next after := by
  obtain ⟨code, next, after, received, kept, stored⟩ := able.receive sized bears
  obtain ⟨answer, sent, answered⟩ := @answer_returns buf code next after stored
  refine ⟨answer, sent, next, after, ?_, kept⟩
  rw [Channel.processPacket, received]
  exact answered

/-- A datagram for a file stream, in the words of `CheckUB`. -/
theorem bears_file {stream : FileRcvStream} (storage : channel.storage = .frstream stream)
    (honest : (FileReceiveStream.checkUB stream (ntohl buf 4) (payloadWord buf size)).1 ≠ .malicious)
    (holdable : FileReceiveStream.Holdable ⟨pools.nodes, pools.newPool, stream⟩ (ntohl buf 4) (payloadWord buf size)) :
    channel.Bears pools buf size := by
  intro _
  rw [storage]
  exact fun _ => ⟨fun runs => honest (FileReceiveStream.checkUB_malicious_iff.mpr runs), holdable⟩

/-- A channel can go on when the nodes of its window stay as they are. -/
theorem Able.kept (able : Able pools channel) {next : Pools} {Place : Type} {windowAt nextWindowAt : Place → Option WQWindow}
    {freed nextFreed : List Ptr} {lifetime nextLifetime : Lifetime} {slot nextSlot : Place → Nat} (place : Place)
    (rooms : Rooms pools.heap pools.pool windowAt freed lifetime slot)
    (after : Rooms next.heap next.pool nextWindowAt nextFreed nextLifetime nextSlot)
    (stands : ∀ window, channel.window = some window → windowAt place = some window ∧ nextWindowAt place = some window ∧
      ∀ pointer ∈ nodesOf pools.heap window, next.heap.node pointer = pools.heap.node pointer) : Able next channel := by
  cases able with
  | receives type receiving storage tracks backed =>
      obtain ⟨found, there, same⟩ := stands _ (window_rdtStream type storage)
      obtain ⟨free, stays⟩ := rooms.stays after found there same tracks
      exact .receives type receiving storage (tracks.stays stays) backed
  | sends type sending storage represents reading =>
      obtain ⟨found, there, same⟩ := stands _ (window_rdtStream type storage)
      obtain ⟨free, stays⟩ := rooms.stays after found there same represents.toTracks
      exact .sends type sending storage (represents.stays stays) (reading.stays stays)
  | file type receiving storage anchored => exact .file type receiving storage anchored

/-- A stream of a new peer can take any datagram that it bears. -/
theorem Fresh.able {window : WQWindow} (fresh : channel.Fresh pools.heap window) (type : channel.type = .rdtStream)
    (empty : Empty ⟨pools.heap, pools.pool, window⟩) : Able pools channel := by
  have size := fresh.blank.size
  obtain ⟨cells, free, represents, reading⟩ := @Empty.represents _ empty 0 fresh.lastSeq (by rw [size]; decide)
    (by rw [size]; decide)
  cases receives : channel.isReceiving with
  | true => exact .receives type receives fresh.storage represents.toTracks (by simp [View.Backed])
  | false => exact .sends type receives fresh.storage represents reading

end Calls

end Channel

namespace Peer

/-- The channel that a datagram selects bears it. -/
def Bears (pools : Pools) (peer : Peer) (buf : Memory) (size : Int) : Prop :=
  ∀ channel, peer.ch (ntohs buf 0) = some channel → channel.Bears pools buf size

/-- Every channel of the peer can go on. -/
def Able (pools : Pools) (peer : Peer) : Prop := ∀ cuid channel, peer.ch cuid = some channel → channel.Able pools

/-- `ALTUSPeer::processPacket` returns. -/
theorem Able.processPacket {pools : Pools} {peer : Peer} {buf : Memory} {size : Int} (able : peer.Able pools)
    (sized : Channel.Sized buf size) (bears : peer.Bears pools buf size) :
    ∃ code sent next after, peer.processPacket pools buf size = .ok (code, sent, next, after) := by
  rw [Peer.processPacket]
  dsimp only
  cases found : peer.ch (ntohs buf 0) with
  | none => exact ⟨_, _, _, _, rfl⟩
  | some channel =>
      obtain ⟨code, sent, next, after, processed, -⟩ := (able _ channel found).processPacket sized (bears channel found)
      dsimp only
      rw [processed]
      exact ⟨_, _, _, _, rfl⟩

/-- The file streams of a new peer. -/
theorem serverPeer_anchored {pools : Pools} {prepeer : SPrePeer} {remoteAddr : Address} {raw : Raw} {cuid : U16}
    {channel : Channel} {stream : FileRcvStream} (here : (serverPeer pools prepeer remoteAddr raw).2.ch cuid = some channel)
    (storage : channel.storage = .frstream stream) : FileReceiveStream.Anchored stream := by
  simp only [serverPeer, channels] at here
  split_ifs at here <;> cases here <;> cases storage
  exact FileReceiveStream.fileRcvStream_anchored _ _ _

theorem clientPeer_anchored {pools : Pools} {prepeer : CPrePeer} {remoteAddr : Address} {raw : Raw} {cuid : U16}
    {channel : Channel} {stream : FileRcvStream} (here : (clientPeer pools prepeer remoteAddr raw).2.ch cuid = some channel)
    (storage : channel.storage = .frstream stream) : FileReceiveStream.Anchored stream := by
  simp only [clientPeer, channels] at here
  split_ifs at here <;> cases here <;> cases storage
  exact FileReceiveStream.fileRcvStream_anchored _ _ _

end Peer

/-- The peers of a host and the pools that they share. -/
structure Peers where
  pools : Pools
  peers : List Peer

namespace Peers

/-- The window of each channel of each peer. -/
def windowAt (now : Peers) : Nat × U16 → Option WQWindow := fun place =>
  now.peers[place.1]?.bind fun peer => peer.windows place.2

/-- A handshake makes a peer, or a peer processes a datagram that its channel bears. -/
inductive Step (now : Peers) : Peers → Prop
  | server (prepeer : SPrePeer) (remoteAddr : Address) (raw : Raw) :
      Step now ⟨(Peer.serverPeer now.pools prepeer remoteAddr raw).1,
        now.peers ++ [(Peer.serverPeer now.pools prepeer remoteAddr raw).2]⟩
  | client (prepeer : CPrePeer) (remoteAddr : Address) (raw : Raw) :
      Step now ⟨(Peer.clientPeer now.pools prepeer remoteAddr raw).1,
        now.peers ++ [(Peer.clientPeer now.pools prepeer remoteAddr raw).2]⟩
  | datagram {index : Nat} {peer after : Peer} {buf : Memory} {size code : Int} {sent : List Datagram} {pools : Pools}
      (here : now.peers[index]? = some peer) (sized : Channel.Sized buf size) (bears : peer.Bears now.pools buf size)
      (processed : peer.processPacket now.pools buf size = .ok (code, sent, pools, after)) :
      Step now ⟨pools, now.peers.set index after⟩

/-- Every channel of every peer can go on, and the windows of all of them have rooms of their own. -/
structure Ready (now : Peers) : Prop where
  rooms : ∃ lifetime slot, Rooms now.pools.heap now.pools.pool now.windowAt [] lifetime slot
  able : ∀ (index : Nat) (peer : Peer), now.peers[index]? = some peer → peer.Able now.pools
  received : ∀ (index : Nat) (peer : Peer), now.peers[index]? = some peer → Peer.Received peer

section Steps

variable {now : Peers} {index : Nat} {peer : Peer}

theorem windowAt_here (here : now.peers[index]? = some peer) (cuid : U16) :
    now.windowAt (index, cuid) = peer.windows cuid := by
  rw [windowAt, here]
  rfl

theorem window_here {cuid : U16} {channel : Channel} (here : now.peers[index]? = some peer)
    (own : peer.ch cuid = some channel) : now.windowAt (index, cuid) = channel.window := by
  rw [windowAt_here here, Peer.windows, own]
  rfl

/-- A new peer finds rooms and leaves the others alone. -/
theorem Ready.made (ready : Ready now) {raw : Fin 3 → WQWindow} {last : U16} {made : Pools × Peer}
    (opened : Peer.Opens now.pools raw last made) (new : Peer.Received made.2)
    (anchored : ∀ cuid channel stream, made.2.ch cuid = some channel → channel.storage = .frstream stream →
      FileReceiveStream.Anchored stream) : Ready ⟨made.1, now.peers ++ [made.2]⟩ := by
  obtain ⟨lifetime, slot, rooms⟩ := ready.rooms
  have free (cuid : U16) : now.windowAt (now.peers.length, cuid) = none := by
    rw [windowAt, List.getElem?_eq_none le_rfl]
    rfl
  obtain ⟨nextLifetime, nextSlot, after⟩ := opened.rooms free rooms
  have windows : (fun place : Nat × U16 => if place.1 = now.peers.length then made.2.windows place.2 else now.windowAt place) =
      windowAt ⟨made.1, now.peers ++ [made.2]⟩ := by
    funext place
    rw [windowAt, windowAt]
    dsimp only
    split
    · rename_i own
      rw [own, List.getElem?_concat_length]
      rfl
    · rename_i old
      rcases Nat.lt_or_ge place.1 now.peers.length with inside | outside
      · rw [List.getElem?_append_left inside]
      · rw [List.getElem?_eq_none outside, List.getElem?_eq_none (by simp; omega)]
  rw [windows] at after
  have split {index : Nat} {peer : Peer} (here : (now.peers ++ [made.2])[index]? = some peer) :
      now.peers[index]? = some peer ∨ index = now.peers.length ∧ made.2 = peer := by
    rcases Nat.lt_trichotomy index now.peers.length with inside | rfl | outside
    · rw [List.getElem?_append_left inside] at here
      exact Or.inl here
    · rw [List.getElem?_concat_length] at here
      exact Or.inr ⟨rfl, Option.some.inj here⟩
    · rw [List.getElem?_eq_none (by simp; omega)] at here
      cases here
  refine ⟨⟨nextLifetime, nextSlot, after⟩, ?_, ?_⟩
  · intro index peer here cuid channel own
    rcases split here with old | ⟨rfl, rfl⟩
    · refine (ready.able index peer old cuid channel own).kept (index, cuid) rooms after fun window found => ?_
      have before := (window_here old own).trans found
      exact ⟨before, (window_here here own).trans found, fun pointer member => opened.below (rooms.below before member)⟩
    · rcases opened.linked cuid channel own with ⟨type, -⟩ | ⟨type, receiving, stream, storage⟩
      · obtain ⟨window, fresh⟩ := opened.fresh cuid channel own type
        have found := (window_here here own).trans (Channel.window_rdtStream type fresh.storage)
        exact fresh.able type (after.empty found fresh.blank)
      · exact .file type receiving storage (anchored cuid channel stream own storage)
  · intro index peer here
    rcases split here with old | ⟨-, rfl⟩
    · exact ready.received index peer old
    · exact new

/-- One channel of one peer has changed. -/
theorem windowAt_set (here : now.peers[index]? = some peer) (pools : Pools) (cuid : U16) (changed : Channel) :
    windowAt ⟨pools, now.peers.set index { peer with ch := Function.update peer.ch cuid (some changed) }⟩ =
      Function.update now.windowAt (index, cuid) changed.window := by
  have inside := (List.getElem?_eq_some_iff.mp here).1
  funext place
  obtain ⟨other, number⟩ := place
  by_cases own : other = index
  · subst own
    rw [windowAt_here (List.getElem?_set_self inside), Peer.windows]
    dsimp only
    by_cases same : number = cuid
    · subst same
      rw [Function.update_self, Function.update_self]
      rfl
    · rw [Function.update_of_ne same, Function.update_of_ne (fun equal => same (Prod.mk.inj equal).2), windowAt_here here]
      rfl
  · rw [Function.update_of_ne (fun equal => own (Prod.mk.inj equal).1), windowAt, windowAt]
    dsimp only
    rw [List.getElem?_set_ne (Ne.symm own)]

/-- The channels of the peers stay ready when one of them is changed in its rooms. -/
theorem Ready.changed (ready : Ready now) (here : now.peers[index]? = some peer) {cuid : U16} {changed : Channel}
    {next : Pools} {lifetime nextLifetime : Lifetime} {slot nextSlot : Nat × U16 → Nat}
    (rooms : Rooms now.pools.heap now.pools.pool now.windowAt [] lifetime slot)
    (after : Rooms next.heap next.pool (Function.update now.windowAt (index, cuid) changed.window) [] nextLifetime nextSlot)
    (same : ∀ place window, now.windowAt place = some window → place ≠ (index, cuid) →
      ∀ pointer ∈ nodesOf now.pools.heap window, next.heap.node pointer = now.pools.heap.node pointer)
    (able : Channel.Able next changed)
    (received : Peer.Received { peer with ch := Function.update peer.ch cuid (some changed) }) :
    Ready ⟨next, now.peers.set index { peer with ch := Function.update peer.ch cuid (some changed) }⟩ := by
  have inside := (List.getElem?_eq_some_iff.mp here).1
  have stands {other : Nat} {otherPeer : Peer} (old : now.peers[other]? = some otherPeer) {number : U16} {channel : Channel}
      (own : otherPeer.ch number = some channel) (different : (other, number) ≠ (index, cuid)) : channel.Able next := by
    refine (ready.able other otherPeer old number channel own).kept (other, number) rooms after fun window found => ?_
    have before := (window_here old own).trans found
    exact ⟨before, (Function.update_of_ne different _ _).trans before, same _ window before different⟩
  refine ⟨⟨nextLifetime, nextSlot, by rw [windowAt_set here]; exact after⟩, ?_, ?_⟩
  · intro other otherPeer found number channel own
    dsimp only at found
    by_cases sameIndex : other = index
    · subst sameIndex
      obtain rfl := Option.some.inj ((List.getElem?_set_self inside).symm.trans found)
      rcases Tables.update_eq_some.mp own with ⟨-, rfl⟩ | ⟨different, old⟩
      · exact able
      · exact stands here old fun equal => different (Prod.mk.inj equal).2
    · rw [List.getElem?_set_ne (Ne.symm sameIndex)] at found
      exact stands found own fun equal => sameIndex (Prod.mk.inj equal).1
  · intro other otherPeer found
    dsimp only at found
    by_cases sameIndex : other = index
    · subst sameIndex
      obtain rfl := Option.some.inj ((List.getElem?_set_self inside).symm.trans found)
      exact received
    · rw [List.getElem?_set_ne (Ne.symm sameIndex)] at found
      exact ready.received other otherPeer found

/-- A datagram that the channel bears leaves all channels ready. -/
theorem Ready.datagram (ready : Ready now) (here : now.peers[index]? = some peer) {after : Peer} {buf : Memory}
    {size code : Int} {sent : List Datagram} {pools : Pools} (sized : Channel.Sized buf size)
    (bears : peer.Bears now.pools buf size)
    (processed : peer.processPacket now.pools buf size = .ok (code, sent, pools, after)) :
    Ready ⟨pools, now.peers.set index after⟩ := by
  obtain ⟨lifetime, slot, rooms⟩ := ready.rooms
  have received : Peer.Received after := .datagram (ready.received index peer here) processed
  rw [Peer.processPacket] at processed
  dsimp only at processed
  split at processed
  · cases processed
    obtain ⟨inside, rfl⟩ := List.getElem?_eq_some_iff.mp here
    rw [List.set_getElem_self]
    exact ready
  rename_i channel own
  obtain ⟨⟨answer, replies, next, changed⟩, answered, same⟩ := map_ok processed
  cases same
  have able := ready.able index peer here _ channel own
  obtain ⟨_, _, _, _, again, kept⟩ := able.processPacket sized (bears channel own)
  cases again.symm.trans answered
  have found := window_here here own
  obtain ⟨-, affects⟩ := able.linked.processPacket answered
  cases affects with
  | quiet heap pool same =>
      have nextRooms : Rooms next.heap next.pool (Function.update now.windowAt (index, ntohs buf 0) changed.window) []
          lifetime slot := by
        rw [same, ← found, Function.update_eq_self, heap, pool]
        exact rooms
      exact ready.changed here rooms nextRooms (fun _ _ _ _ pointer _ => by rw [heap]) kept received
  | @call window state present called heap pool moved =>
      have call (index : Nat) (there : lifetime.shared.windows[index]? = some window) :=
        called.poolCall (rooms.view _) there
      obtain ⟨nextLifetime, nextRooms⟩ := rooms.call (found.trans present) call
      rw [← heap, ← pool, ← moved] at nextRooms
      refine ready.changed here rooms nextRooms (fun place other placed different pointer member => ?_) kept received
      rw [heap]
      exact rooms.call_frame (found.trans present) call placed different pointer member

theorem Ready.step {next : Peers} (ready : Ready now) (step : Step now next) : Ready next := by
  cases step with
  | server prepeer remoteAddr raw =>
      exact ready.made (Peer.serverPeer_opens _ _ _ _) (.server _ _ _ _) fun _ _ _ => Peer.serverPeer_anchored
  | client prepeer remoteAddr raw =>
      exact ready.made (Peer.clientPeer_opens _ _ _ _) (.client _ _ _ _) fun _ _ _ => Peer.clientPeer_anchored
  | datagram here sized bears processed => exact ready.datagram here sized bears processed

end Steps

/-- The pools of a new host, before its first peer. -/
def start (node : Ptr → WQNode) (nodes : NodeHeap) : Peers := ⟨Host.newPools node nodes NodePool.empty, []⟩

theorem run_ready {node : Ptr → WQNode} {nodes : NodeHeap} {now : Peers}
    (run : Relation.ReflTransGen Step (start node nodes) now) : Ready now := by
  induction run with
  | refl =>
      exact ⟨⟨_, _, @Rooms.start (Nat × U16) node⟩, by simp [start], by simp [start]⟩
  | tail _ last ih => exact ih.step last

/-- In every run whose datagrams are borne, every datagram that is borne is processed and returns. Whatever it is, it ends in
an exception or an `exit` only when its block runs into an entry of a file stream. -/
theorem run_returns {node : Ptr → WQNode} {nodes : NodeHeap} {now : Peers}
    (run : Relation.ReflTransGen Step (start node nodes) now) {index : Nat} {peer : Peer}
    (here : now.peers[index]? = some peer) (buf : Memory) (size : Int) (sized : Channel.Sized buf size) :
    (peer.Bears now.pools buf size → ∃ code sent pools after,
      peer.processPacket now.pools buf size = .ok (code, sent, pools, after)) ∧
    (Quiet (peer.processPacket now.pools buf size) ↔
      ¬ ∃ channel, peer.ch (ntohs buf 0) = some channel ∧ channel.RunsIntoEntry buf size) := by
  have ready := run_ready run
  exact ⟨(ready.able index peer here).processPacket sized,
    (ready.received index peer here).processPacket_quiet_iff now.pools buf size⟩

/-- The peer that a new host makes as a server. -/
def serverPeer : Pools × Peer :=
  Peer.serverPeer (start blankHeap.node blankNodes).pools (SPrePeer.sPrePeer 0 blankRaw) ⟨1, 512⟩
    { blankRaw with capacity := 8 }

/-- Four bytes from a number on for the file stream of the server. -/
def fourBytes (seq : Byte) : Memory := ofList [0, 2, 0, 1, 0, 0, 0, seq, 7, 7, 7, 7]

/-- The host once four bytes from 10 on wait in the file stream. -/
def waiting : Peers :=
  match serverPeer.2.processPacket serverPeer.1 (fourBytes 10) 12 with
  | .ok (_, _, pools, peer) => ⟨pools, [peer]⟩
  | .error _ => ⟨serverPeer.1, [serverPeer.2]⟩

theorem waiting_run : Relation.ReflTransGen Step (start blankHeap.node blankNodes) waiting := by
  have made : Relation.ReflTransGen Step (start blankHeap.node blankNodes) ⟨serverPeer.1, [serverPeer.2]⟩ :=
    .single (.server _ _ _)
  have processed : serverPeer.2.processPacket serverPeer.1 (fourBytes 10) 12 = .ok (_, _, _, _) := rfl
  refine made.tail (@Step.datagram _ 0 _ _ _ _ _ _ _ rfl (by decide) ?_ processed)
  rintro channel found
  obtain rfl : _ = channel := Option.some.inj found
  exact Channel.bears_file rfl (by decide) (by decide)

/-- A second block ends where the first one begins, and waits with it. -/
theorem run_returns_waiting : ∃ peer, waiting.peers[0]? = some peer ∧
    (∃ code sent pools after, peer.processPacket waiting.pools (fourBytes 6) 12 = .ok (code, sent, pools, after)) ∧
    Quiet (peer.processPacket waiting.pools (fourBytes 6) 12) := by
  obtain ⟨returns, quiet⟩ := @run_returns _ _ _ waiting_run 0 _ rfl (fourBytes 6) 12 (by decide)
  refine ⟨_, rfl, returns ?_, quiet.mpr ?_⟩
  · rintro channel found
    obtain rfl : _ = channel := Option.some.inj found
    exact Channel.bears_file rfl (by decide) (by decide)
  · rintro ⟨channel, found, -, -, stream, storage, -, runs⟩
    obtain rfl : _ = channel := Option.some.inj found
    obtain rfl : _ = stream := Storage.frstream.inj storage
    rw [← FileReceiveStream.checkUB_malicious_iff] at runs
    exact absurd runs (by decide)

/-- Two blocks that overlap by two bytes end the host with an exception. Behind the second node of the file stream a single
byte ends it with a null pointer, and out of reach of a window with a `memcpy` that leaves the node. -/
theorem overlapping_blocks_end :
    Relation.ReflTransGen Step (start blankHeap.node blankNodes) waiting ∧
    ∃ peer, waiting.peers[0]? = some peer ∧ Channel.Sized (fourBytes 8) 12 ∧
      peer.processPacket waiting.pools (fourBytes 8) 12 = .error (.exception "malicious packet") ∧
      peer.processPacket waiting.pools (ofList [0, 2, 0, 1, 0, 0, 32, 0, 7]) 9 = .error .nullDereference ∧
      peer.processPacket waiting.pools (ofList [0, 0, 0, 1, 0, 0, 16, 1, 7]) 9 = .error .outOfBounds :=
  ⟨waiting_run, _, rfl, by decide, rfl, rfl, by with_unfolding_all rfl⟩

end Peers

end Altus
