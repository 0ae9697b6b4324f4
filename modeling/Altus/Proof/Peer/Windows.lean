import Altus.Construction.Destruction
import Altus.Proof.Window.Rooms
import Altus.Proof.Sender.Release

namespace Altus

open Bytes WindowedQueue

/-- One completed call of `altusWQPut` or `altusWQPop` on a window. -/
def Called (pools : Pools) (window : WQWindow) (state : WQState) : Prop :=
  (∃ seq length data code copies,
    altusWQPut ⟨pools.heap, pools.pool, window⟩ seq length data = .ok (code, copies, state)) ∨
    ∃ length dest taken filled, altusWQPop ⟨pools.heap, pools.pool, window⟩ length dest = .ok (taken, filled, state)

namespace Channel

/-- A stream of a peer is linked to its window or to its file. -/
def Linked (channel : Channel) : Prop :=
  (channel.type = .rdtStream ∧ ∃ window, channel.storage = .buffer window) ∨
    channel.type = .fileStreamRcv ∧ channel.isReceiving = true ∧ ∃ stream, channel.storage = .frstream stream

theorem window_rdtStream {channel : Channel} {window : WQWindow} (type : channel.type = .rdtStream)
    (storage : channel.storage = .buffer window) : channel.window = some window := by
  rw [Channel.window, type, storage]

theorem window_file {channel : Channel} (type : channel.type = .fileStreamRcv) : channel.window = none := by
  rw [Channel.window, type]

/-- A channel with a window that was just made. -/
structure Fresh (heap : WQHeap) (channel : Channel) (window : WQWindow) : Prop where
  storage : channel.storage = .buffer window
  nextSendSeq : channel.nextSendSeq = 0
  lastSeq : window.lastSeq = 0
  headSeq : window.headSeq = 0
  blank : Blank heap window

/-- What a call on a channel does to the nodes of a host. -/
inductive Affects (pools : Pools) (channel : Channel) (next : Pools) (after : Channel) : Prop
  | quiet (heap : next.heap = pools.heap) (pool : next.pool = pools.pool) (same : after.window = channel.window)
  | call {window : WQWindow} {state : WQState} (here : channel.window = some window)
      (called : Called pools window state) (heap : next.heap = state.heap) (pool : next.pool = state.pool)
      (moved : after.window = some state.window)

section Calls

variable {pools next : Pools} {channel after : Channel} {buf data : Memory} {size code : Int} {window : WQWindow}
  {length : U32}

theorem put_affects {seq : U32} (type : channel.type = .rdtStream) (storage : channel.storage = .buffer window)
    (taken : put pools channel window seq length data = .ok (code, next, after)) :
    after.Linked ∧ Affects pools channel next after := by
  have here := window_rdtStream type storage
  obtain ⟨⟨answer, moves, state⟩, returned, stored⟩ := map_ok taken
  cases stored
  exact ⟨Or.inl ⟨type, _, rfl⟩, .call here (Or.inl ⟨_, _, _, _, _, returned⟩) rfl rfl (window_rdtStream type rfl)⟩

/-- `channel::receive` puts into the window of a receiving stream, pops from the window of a sending one, or leaves the
nodes alone. -/
theorem Linked.receive (linked : channel.Linked) (received : channel.receive pools buf size = .ok (code, next, after)) :
    after.Linked ∧ Affects pools channel next after := by
  rw [Channel.receive] at received
  rcases linked with ⟨type, window, storage⟩ | ⟨type, receives, stream, storage⟩
  · rw [type] at received
    split at received
    · simp only [receiveData, storage] at received
      obtain ⟨⟨answer, pools, changed⟩, taken, same⟩ := map_ok received
      cases same
      exact put_affects type storage taken
    · obtain ⟨⟨answer, popped, pools, changed⟩, acknowledged, same⟩ := map_ok received
      cases same
      rw [receiveAck] at acknowledged
      split at acknowledged
      · cases acknowledged
        exact ⟨Or.inl ⟨type, window, storage⟩, .quiet rfl rfl rfl⟩
      split at acknowledged
      · cases acknowledged
        exact ⟨Or.inl ⟨type, window, storage⟩, .quiet rfl rfl rfl⟩
      simp only [storage, pop] at acknowledged
      obtain ⟨⟨taken, filled, state⟩, returned, same⟩ := map_ok acknowledged
      cases same
      exact ⟨Or.inl ⟨type, _, rfl⟩, .call (window_rdtStream type storage) (Or.inr ⟨_, _, _, _, returned⟩) rfl rfl
        (window_rdtStream type rfl)⟩
  · rw [if_pos receives, type] at received
    simp only [receiveFile, storage] at received
    split at received
    · cases received
      exact ⟨Or.inr ⟨type, receives, _, rfl⟩, .quiet rfl rfl (by rw [window_file type]; exact window_file type)⟩
    · cases received
    · cases received

/-- `CreateUpstream` puts into the window of a sending stream behind its last number. -/
theorem Linked.createUpstream (linked : channel.Linked) {len : Int}
    (created : channel.createUpstream pools buf len = .ok (code, next, after)) :
    after.Linked ∧ Affects pools channel next after := by
  rw [Channel.createUpstream] at created
  split at created
  · cases created
    exact ⟨linked, .quiet rfl rfl rfl⟩
  rename_i sends
  rw [not_or, not_not] at sends
  rcases linked with ⟨type, window, storage⟩ | ⟨type, -⟩
  · simp only [storage] at created
    obtain ⟨⟨answer, pools, changed⟩, taken, same⟩ := map_ok created
    obtain ⟨kept, affects⟩ := put_affects type storage taken
    cases same
    refine ⟨kept, ?_⟩
    cases affects with
    | quiet heap pool window => exact .quiet heap pool window
    | call here called heap pool moved => exact .call here called heap pool moved
  · rw [type] at sends
    cases sends.1

/-- The acknowledgement of a datagram changes nothing more. -/
theorem answer_keeps {result : Int × List Datagram × Pools × Channel}
    (answered : channel.answer buf code pools = .ok result) : result.2.2 = (pools, channel) := by
  rw [answer] at answered
  split at answered
  · rw [← Except.ok.inj answered]
  split at answered
  · split at answered
    · rw [← Except.ok.inj answered]
    · cases answered
  · rw [← Except.ok.inj answered]

theorem Linked.processPacket (linked : channel.Linked) {sent : List Datagram}
    (processed : channel.processPacket pools buf size = .ok (code, sent, next, after)) :
    after.Linked ∧ Affects pools channel next after := by
  obtain ⟨⟨middle, pools, changed⟩, received, answered⟩ := bind_ok processed
  cases answer_keeps answered
  exact linked.receive received

end Calls

end Channel

namespace Peer

/-- Every channel of a peer is linked. -/
def Linked (peer : Peer) : Prop := ∀ cuid channel, peer.ch cuid = some channel → channel.Linked

/-- The window behind each channel of a peer. -/
def windows (peer : Peer) : U16 → Option WQWindow := fun cuid => (peer.ch cuid).bind Channel.window

/-- A call on a peer changes one channel. -/
inductive Affects (pools : Pools) (peer : Peer) (cuid : U16) (next : Pools) (after : Peer) : Prop
  | quiet (pools : next = pools) (peer : after = peer)
  | channel {before changed : Channel} (here : peer.ch cuid = some before)
      (affects : before.Affects pools next changed)
      (peer : after = { peer with ch := Function.update peer.ch cuid (some changed) })

section Calls

variable {pools next : Pools} {peer after : Peer} {buf : Memory} {size : Int} {code : Int}

theorem Linked.update (linked : peer.Linked) (cuid : U16) {changed : Channel} (new : changed.Linked) :
    Linked { peer with ch := Function.update peer.ch cuid (some changed) } := by
  intro other channel here
  rcases Tables.update_eq_some.mp here with ⟨-, rfl⟩ | ⟨-, old⟩
  · exact new
  · exact linked other channel old

theorem Linked.processPacket (linked : peer.Linked) {sent : List Datagram}
    (processed : processPacket pools peer buf size = .ok (code, sent, next, after)) :
    after.Linked ∧ Affects pools peer (ntohs buf 0) next after := by
  rw [Peer.processPacket] at processed
  dsimp only at processed
  split at processed
  · cases processed
    exact ⟨linked, .quiet rfl rfl⟩
  rename_i channel here
  obtain ⟨⟨answer, replies, pools, changed⟩, answered, same⟩ := map_ok processed
  cases same
  obtain ⟨kept, affects⟩ := (linked _ channel here).processPacket answered
  exact ⟨linked.update _ kept, .channel here affects rfl⟩

theorem Linked.createUpstream (linked : peer.Linked) {cuid : U16} {len : Int}
    (created : createUpstream pools peer cuid buf len = .ok (code, next, after)) :
    after.Linked ∧ Affects pools peer cuid next after := by
  rw [Peer.createUpstream] at created
  split at created
  · cases created
    exact ⟨linked, .quiet rfl rfl⟩
  rename_i channel here
  obtain ⟨⟨answer, pools, changed⟩, taken, same⟩ := map_ok created
  cases same
  obtain ⟨kept, affects⟩ := (linked _ channel here).createUpstream taken
  exact ⟨linked.update _ kept, .channel here affects rfl⟩

/-- `ALTUSPeer::Send` changes no window. -/
theorem Linked.sendFrom {heap : WQHeap} {stack : U16 → Fin 16 → Memory} (cuids : List U16) {sent : List Datagram}
    (linked : peer.Linked) (performed : sendFrom heap stack cuids peer = .ok (code, sent, after)) :
    after.Linked ∧ after.windows = peer.windows := by
  induction cuids generalizing peer sent code with
  | nil =>
      cases performed
      exact ⟨linked, rfl⟩
  | cons cuid rest ih =>
      rw [Peer.sendFrom] at performed
      split at performed
      · exact ih linked performed
      rename_i channel here
      split at performed
      · cases performed
      · cases performed
        exact ⟨linked, rfl⟩
      rename_i now changed looped
      split at performed
      · cases performed
      rename_i later
      cases performed
      obtain ⟨nextSendSeq, isUpdated, rfl⟩ := Channel.sendLoop_keeps heap _ looped
      have same : Channel.Linked { channel with nextSendSeq := nextSendSeq, isUpdated := isUpdated } :=
        linked cuid channel here
      obtain ⟨kept, windows⟩ := ih (linked.update cuid same) later
      refine ⟨kept, windows.trans (funext fun other => ?_)⟩
      by_cases own : other = cuid
      · subst own
        simp [Peer.windows, here, Channel.window]
      · simp [Peer.windows, own]

theorem Linked.send {heap : WQHeap} {stack : U16 → Fin 16 → Memory} {sent : List Datagram} (linked : peer.Linked)
    (performed : send heap stack peer = .ok (code, sent, after)) : after.Linked ∧ after.windows = peer.windows := by
  rw [Peer.send] at performed
  exact linked.sendFrom _ performed

end Calls

/-- A new peer opens three windows, the last one under the number `last`. -/
structure Opens (pools : Pools) (raw : Fin 3 → WQWindow) (last : U16) (made : Pools × Peer) : Prop where
  linked : made.2.Linked
  fresh : ∀ cuid channel, made.2.ch cuid = some channel → channel.type = .rdtStream →
    ∃ window, channel.Fresh made.1.heap window
  distinct : last ≠ 0 ∧ last ≠ 1
  pool : made.1.pool = pools.pool
  heap : made.1.heap = (altusNewWindow (altusNewWindow (altusNewWindow pools.heap (raw 0)).2 (raw 1)).2 (raw 2)).2
  windows : made.2.windows = Function.update (Function.update (Function.update (fun _ => none) 0
    (some (altusNewWindow pools.heap (raw 0)).1))
    1 (some (altusNewWindow (altusNewWindow pools.heap (raw 0)).2 (raw 1)).1))
    last (some (altusNewWindow (altusNewWindow (altusNewWindow pools.heap (raw 0)).2 (raw 1)).2 (raw 2)).1)

/-- The windows of `malloc`, with the two numbers that `LinkRDTWindow` writes. -/
def zeroed (raw : Raw) : Fin 3 → WQWindow := fun index => { raw.window index with lastSeq := 0, headSeq := 0 }

/-- Three windows in a row get three new nodes without a byte. -/
theorem altusNewWindow_count (heap : WQHeap) (raw : Fin 3 → WQWindow) (index : Fin 3) :
    ((altusNewWindow (altusNewWindow (altusNewWindow heap (raw 0)).2 (raw 1)).2 (raw 2)).2.node
      (heap.brk + index)).validBlockCount = 0 := by
  have made (heap : WQHeap) (raw : WQWindow) : ((altusNewWindow heap raw).2.node heap.brk).validBlockCount = 0 := by
    simp [altusNewWindow, WQHeap.modify]
  fin_cases index
  · exact (congrArg WQNode.validBlockCount ((altusNewWindow_of_ne _ _ (Nat.ne_of_lt (Nat.lt_add_of_pos_right two_pos))).trans
      (altusNewWindow_of_ne _ _ (Nat.ne_of_lt (Nat.lt_succ_self _))))).trans (made heap (raw 0))
  · exact (congrArg WQNode.validBlockCount (altusNewWindow_of_ne _ _ (Nat.ne_of_lt (Nat.lt_succ_self _)))).trans
      (made (altusNewWindow heap (raw 0)).2 (raw 1))
  · exact made (altusNewWindow (altusNewWindow heap (raw 0)).2 (raw 1)).2 (raw 2)

theorem serverPeer_opens (pools : Pools) (prepeer : SPrePeer) (remoteAddr : Address) (raw : Raw) :
    Opens pools (zeroed raw) 3 (serverPeer pools prepeer remoteAddr raw) where
  linked := by
    intro cuid channel here
    simp only [serverPeer, channels] at here
    split_ifs at here <;> cases here
    · exact Or.inl ⟨rfl, _, rfl⟩
    · exact Or.inl ⟨rfl, _, rfl⟩
    · exact Or.inr ⟨rfl, rfl, _, rfl⟩
    · exact Or.inl ⟨rfl, _, rfl⟩
  fresh := by
    intro cuid channel here type
    simp only [serverPeer, channels] at here
    split_ifs at here <;> cases here
    · exact ⟨_, rfl, rfl, rfl, rfl, rfl, altusNewWindow_count pools.heap raw.window 0, rfl, rfl, rfl, rfl⟩
    · exact ⟨_, rfl, rfl, rfl, rfl, rfl, altusNewWindow_count pools.heap raw.window 1, rfl, rfl, rfl, rfl⟩
    · cases type
    · exact ⟨_, rfl, rfl, rfl, rfl, rfl, altusNewWindow_count pools.heap raw.window 2, rfl, rfl, rfl, rfl⟩
  distinct := by decide
  pool := rfl
  heap := rfl
  windows := by
    funext cuid
    simp only [windows, serverPeer, channels, Function.update_apply]
    split_ifs <;> first | rfl | (subst_vars; contradiction)

theorem clientPeer_opens (pools : Pools) (prepeer : CPrePeer) (remoteAddr : Address) (raw : Raw) :
    Opens pools (zeroed raw) 2 (clientPeer pools prepeer remoteAddr raw) where
  linked := by
    intro cuid channel here
    simp only [clientPeer, channels] at here
    split_ifs at here <;> cases here
    · exact Or.inl ⟨rfl, _, rfl⟩
    · exact Or.inl ⟨rfl, _, rfl⟩
    · exact Or.inl ⟨rfl, _, rfl⟩
    · exact Or.inr ⟨rfl, rfl, _, rfl⟩
  fresh := by
    intro cuid channel here type
    simp only [clientPeer, channels] at here
    split_ifs at here <;> cases here
    · exact ⟨_, rfl, rfl, rfl, rfl, rfl, altusNewWindow_count pools.heap raw.window 0, rfl, rfl, rfl, rfl⟩
    · exact ⟨_, rfl, rfl, rfl, rfl, rfl, altusNewWindow_count pools.heap raw.window 1, rfl, rfl, rfl, rfl⟩
    · exact ⟨_, rfl, rfl, rfl, rfl, rfl, altusNewWindow_count pools.heap raw.window 2, rfl, rfl, rfl, rfl⟩
    · cases type
  distinct := by decide
  pool := rfl
  heap := rfl
  windows := by
    funext cuid
    simp only [windows, clientPeer, channels, Function.update_apply]
    split_ifs <;> first | rfl | (subst_vars; contradiction)

section Opens

variable {Key : Type} [DecidableEq Key] {key : Key} {pools : Pools} {raw : Fin 3 → WQWindow} {last : U16}
  {made : Pools × Peer} {windowAt : Key × U16 → Option WQWindow} {freed : List Ptr} {lifetime : Lifetime}
  {slot : Key × U16 → Nat}

/-- A new peer gets rooms for its windows. -/
theorem Opens.rooms (opened : Opens pools raw last made) (free : ∀ cuid, windowAt (key, cuid) = none)
    (rooms : Rooms pools.heap pools.pool windowAt freed lifetime slot) :
    ∃ lifetime slot, Rooms made.1.heap made.1.pool
      (fun place => if place.1 = key then made.2.windows place.2 else windowAt place) freed lifetime slot := by
  have apart {first second : U16} (different : first ≠ second) : ((key, first) : Key × U16) ≠ (key, second) :=
    fun same => different (Prod.mk.inj same).2
  -- The three calls of `LinkRDTWindow`, each on a channel that has no window yet.
  obtain ⟨lifetime, slot, rooms⟩ := rooms.newWindow (free 0) (raw 0)
  obtain ⟨lifetime, slot, rooms⟩ := rooms.newWindow
    ((Function.update_of_ne (apart (by decide : (1 : U16) ≠ 0)) _ _).trans (free 1)) (raw 1)
  obtain ⟨lifetime, slot, rooms⟩ := rooms.newWindow
    ((Function.update_of_ne (apart opened.distinct.2) _ _).trans
      ((Function.update_of_ne (apart opened.distinct.1) _ _).trans (free last))) (raw 2)
  refine ⟨lifetime, slot, ?_⟩
  rw [opened.heap, opened.pool, opened.windows]
  convert rooms using 1
  funext target
  obtain ⟨other, cuid⟩ := target
  simp only [Function.update_apply, Prod.mk.injEq]
  by_cases own : other = key
  · subst own
    simp [free]
  · simp [own]

/-- A new peer leaves the nodes of the others alone. -/
theorem Opens.below (opened : Opens pools raw last made) {pointer : Ptr} (below : pointer < pools.heap.brk) :
    made.1.heap.node pointer = pools.heap.node pointer := by
  rw [opened.heap, altusNewWindow_of_ne _ _ (Nat.ne_of_lt (below.trans (Nat.lt_add_of_pos_right two_pos))),
    altusNewWindow_of_ne _ _ (Nat.ne_of_lt (below.trans (Nat.lt_succ_self _))),
    altusNewWindow_of_ne _ _ (Nat.ne_of_lt below)]

end Opens

/-- `ALTUSPeer::~ALTUSPeer` hands no node back to the pool. -/
theorem destroyFrom_nodes {peer : Peer} {cuids : List U16} : ∀ {pools next : Pools},
    peer.destroyFrom cuids pools = .ok next → next.heap = pools.heap ∧ next.pool = pools.pool := by
  induction cuids with
  | nil =>
      intro pools next destroyed
      cases destroyed
      exact ⟨rfl, rfl⟩
  | cons cuid rest ih =>
      intro pools next destroyed
      rw [destroyFrom] at destroyed
      split at destroyed
      · exact ih destroyed
      · obtain ⟨middle, first, later⟩ := bind_ok destroyed
        obtain ⟨heap, pool⟩ := ih later
        rw [heap, pool]
        rw [Channel.destroy] at first
        split at first
        · obtain ⟨-, -, rfl⟩ := map_ok first
          exact ⟨rfl, rfl⟩
        · obtain ⟨-, -, rfl⟩ := map_ok first
          exact ⟨rfl, rfl⟩
        · cases first
        · cases first
        · obtain ⟨-, -, rfl⟩ := map_ok first
          exact ⟨rfl, rfl⟩
        · cases first
        · cases first
          exact ⟨rfl, rfl⟩

end Peer

end Altus
