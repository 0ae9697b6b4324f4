import Altus.Proof.Host.PeerTables
import Altus.Proof.Peer.Windows
import Altus.Proof.Window.Rooms

namespace Altus

open Bytes Tables WindowedQueue

/-- A call on the window of a host is one on a window of its pool. -/
theorem Called.poolCall {pools : Pools} {window : WQWindow} {state : WQState} {shared : SharedPool}
    (called : Called pools window state) (view : shared.view window = ⟨pools.heap, pools.pool, window⟩) {index : Nat}
    (here : shared.windows[index]? = some window) : PoolCall index shared (shared.put index state) := by
  rcases called with ⟨seq, length, data, code, copies, returned⟩ | ⟨length, dest, taken, filled, returned⟩
  · exact .put seq length data here (by rw [view]; exact returned)
  · exact .pop length dest here (by rw [view]; exact returned)

namespace Host

/-- What a completed step does to the windows of a host: nothing, a call on one of them, three new ones, or the end of those
of a peer. -/
inductive Moves (host : Host) (step : HostStep) (next : Host) : Prop
  | quiet (none : step.freed host = []) (heap : next.pools.heap = host.pools.heap)
      (pool : next.pools.pool = host.pools.pool) (windows : next.windowAt = host.windowAt)
  | call {here : Ptr × U16} {window : WQWindow} {state : WQState} (none : step.freed host = [])
      (named : step.place host = some here) (found : host.windowAt here = some window)
      (called : Called host.pools window state) (heap : next.pools.heap = state.heap)
      (pool : next.pools.pool = state.pool)
      (windows : next.windowAt = Function.update host.windowAt here (some state.window))
  | opens {raw : Fin 3 → WQWindow} {last : U16} {made : Pools × Peer} (none : step.freed host = [])
      (opened : Peer.Opens host.pools raw last made) (pools : next.pools = made.1)
      (windows : next.windowAt = fun place => if place.1 = host.brk then made.2.windows place.2 else host.windowAt place)
  | closes {peid : U32} {pointer : Ptr} {peer : Peer} (removes : step = .removePeer peid)
      (known : host.peidPeer peid = some pointer) (here : host.peer pointer = some peer)
      (heap : next.pools.heap = host.pools.heap) (pool : next.pools.pool = host.pools.pool)
      (windows : next.windowAt = fun place => if place.1 = pointer then Option.none else host.windowAt place)

section Calls

variable {host next : Host} {pointer : Ptr} {peer changed : Peer} {pools : Pools} {buf : Memory} {size code : Int}
  {sent : List Sent} {step : HostStep}

theorem windowAt_here (here : host.peer pointer = some peer) (cuid : U16) :
    host.windowAt (pointer, cuid) = peer.windows cuid := by
  rw [windowAt, here]
  rfl

theorem windowAt_update (objects : next.peer = Function.update host.peer pointer (some changed)) :
    next.windowAt = fun place => if place.1 = pointer then changed.windows place.2 else host.windowAt place := by
  funext place
  rw [windowAt, objects, Function.update_apply]
  split
  · rfl
  · rfl

/-- A changed peer with the same windows. -/
theorem windowAt_same (here : host.peer pointer = some peer)
    (objects : next.peer = Function.update host.peer pointer (some changed)) (same : changed.windows = peer.windows) :
    next.windowAt = host.windowAt := by
  rw [windowAt_update objects]
  funext target
  obtain ⟨other, cuid⟩ := target
  dsimp only
  split
  · rename_i own
    rw [own, windowAt_here here, same]
  · rfl

/-- A call on one channel of one peer. -/
theorem affects_moves {cuid : U16} (none : step.freed host = [])
    (here : host.peer pointer = some peer) (named : step.place host = some (pointer, cuid))
    (affects : peer.Affects host.pools cuid pools changed)
    (objects : next.peer = Function.update host.peer pointer (some changed)) (nodes : next.pools = pools) :
    Moves host step next := by
  cases affects with
  | quiet same unchanged =>
      subst same
      exact .quiet none (by rw [nodes]) (by rw [nodes]) (windowAt_same here objects (by rw [unchanged]))
  | @channel before after found affects made =>
      subst made
      have windows : Peer.windows { peer with ch := Function.update peer.ch cuid (some after) } =
          Function.update peer.windows cuid after.window := by
        funext other
        by_cases own : other = cuid
        · subst own
          simp [Peer.windows]
        · simp [Peer.windows, own]
      have own : peer.windows cuid = before.window := by rw [Peer.windows, found, Option.bind_some]
      cases affects with
      | quiet heap pool same =>
          refine .quiet none (by rw [nodes, heap]) (by rw [nodes, pool]) (windowAt_same here objects ?_)
          rw [windows, same, ← own, Function.update_eq_self]
      | call stored called heap pool moved =>
          refine .call none named ((windowAt_here here cuid).trans (own.trans stored)) called (by rw [nodes, heap])
            (by rw [nodes, pool]) ?_
          rw [windowAt_update objects, windows, moved]
          funext target
          obtain ⟨other, number⟩ := target
          simp only [Function.update_apply, Prod.mk.injEq]
          by_cases first : other = pointer
          · subst first
            simp [windowAt_here here]
          · simp [first]

/-- A new peer with its windows. -/
theorem registered_moves {raw : Fin 3 → WQWindow} {last : U16} {made : Pools × Peer} (none : step.freed host = [])
    (opened : Peer.Opens host.pools raw last made)
    (objects : next.peer = Function.update host.peer host.brk (some made.2))
    (pools : next.pools = made.1) : Moves host step next :=
  .opens none opened pools (windowAt_update objects)

/-- Every channel of every peer is linked. -/
def Linked (host : Host) : Prop := ∀ pointer peer, host.peer pointer = some peer → peer.Linked

theorem Linked.update (linked : host.Linked) (new : changed.Linked)
    (objects : next.peer = Function.update host.peer pointer (some changed)) : next.Linked := by
  intro other found here
  rw [objects] at here
  rcases update_eq_some.mp here with ⟨-, rfl⟩ | ⟨-, old⟩
  · exact new
  · exact linked other found old

section Steps

variable {addrport : U64} {remoteAddr : Address} {raw : Raw} {currentTime : U32}

theorem Linked.accepter (linked : host.Linked) (none : step.freed host = [])
    (accepted : host.accepter addrport buf size currentTime raw = .ok (code, sent, next)) :
    next.Linked ∧ Moves host step next := by
  rcases accepter_promotes accepted with ⟨sPrePeers, rfl⟩ | ⟨before, completed, after, handed, rfl⟩
  · exact ⟨linked, .quiet none rfl rfl rfl⟩
  · obtain ⟨src, registered, -, -, made, rfl⟩ := prepeerToPeer_ok handed
    obtain ⟨newpeid, -, rfl⟩ := register_ok made
    have opened := Peer.serverPeer_opens host.pools src (addressOf addrport) raw
    exact ⟨linked.update opened.linked rfl, registered_moves none opened rfl rfl⟩

theorem Linked.tryCompleteConnection (linked : host.Linked) (none : step.freed host = [])
    (completed : host.tryCompleteConnection addrport buf size raw = .ok (code, sent, next)) :
    next.Linked ∧ Moves host step next := by
  rcases tryCompleteConnection_ok completed with ⟨-, rfl⟩ | ⟨pointer, -, ⟨-, rfl⟩ | ⟨prepeer, key, -, -, -, made⟩⟩
  · exact ⟨linked, .quiet none rfl rfl rfl⟩
  · exact ⟨linked, .quiet none rfl rfl rfl⟩
  · obtain ⟨newpeid, -, rfl⟩ := register_ok made
    have opened := Peer.clientPeer_opens host.pools { prepeer with expired := true, sessionKey := key }
      (addressOf addrport) raw
    exact ⟨linked.update opened.linked rfl, registered_moves none opened rfl rfl⟩

/-- A datagram calls the channel that it names of the peer at its address, or it goes to the handshake. -/
theorem Linked.listener (linked : host.Linked)
    (listened : host.listener remoteAddr buf size currentTime raw = .ok (code, sent, next)) :
    next.Linked ∧ Moves host (.inbound remoteAddr buf size currentTime raw) next := by
  rw [Host.listener] at listened
  split at listened
  · cases listened
    exact ⟨linked, .quiet rfl rfl rfl rfl⟩
  rename_i received
  dsimp only at listened
  cases known : host.peers (addrToUint64 remoteAddr) with
  | some pointer =>
      rw [known] at listened
      dsimp only at listened
      rw [processPacket] at listened
      split at listened
      · cases listened
      rename_i peer here
      obtain ⟨⟨answer, replies, pools, changed⟩, processed, same⟩ := map_ok listened
      cases same
      obtain ⟨kept, affects⟩ := (linked pointer peer here).processPacket processed
      refine ⟨linked.update kept rfl, affects_moves rfl here ?_ affects rfl rfl⟩
      rw [HostStep.place, known, Option.map_some]
  | none =>
      cases pending : host.cPrePeers (addrToUint64 remoteAddr) with
      | some pointer =>
          rw [known, pending] at listened
          exact linked.tryCompleteConnection rfl listened
      | none =>
          rw [known, pending] at listened
          dsimp only at listened
          split at listened
          · exact linked.accepter rfl listened
          · cases listened
            exact ⟨linked, .quiet rfl rfl rfl rfl⟩

theorem Linked.createUpstream (linked : host.Linked) {peid : U32} {cuid : U16} {len : Int}
    (created : host.createUpstream peid cuid buf len = .ok (code, sent, next)) :
    next.Linked ∧ Moves host (.createUpstream peid cuid buf len) next := by
  rw [Host.createUpstream] at created
  split at created
  · cases created
  rename_i pointer known
  split at created
  · cases created
  rename_i peer here
  obtain ⟨⟨answer, pools, changed⟩, taken, same⟩ := map_ok created
  cases same
  obtain ⟨kept, affects⟩ := (linked pointer peer here).createUpstream taken
  refine ⟨linked.update kept rfl, affects_moves rfl here ?_ affects rfl rfl⟩
  rw [HostStep.place, known, Option.map_some]

theorem Linked.sender (linked : host.Linked) {stack : U16 → Fin 16 → Memory}
    (performed : host.sender addrport stack = .ok (code, sent, next)) :
    next.Linked ∧ Moves host (.sender addrport stack) next := by
  rw [Host.sender] at performed
  split at performed
  · cases performed
    exact ⟨linked, .quiet rfl rfl rfl rfl⟩
  rename_i pointer known
  split at performed
  · cases performed
  rename_i peer here
  obtain ⟨⟨answer, datagrams, changed⟩, answered, same⟩ := map_ok performed
  cases same
  obtain ⟨kept, windows⟩ := (linked pointer peer here).send answered
  exact ⟨linked.update kept rfl, .quiet rfl rfl rfl (windowAt_same here rfl windows)⟩

theorem Linked.removePeer (linked : host.Linked) {peid : U32}
    (removed : host.removePeer peid = .ok (code, sent, next)) :
    next.Linked ∧ Moves host (.removePeer peid) next := by
  rw [Host.removePeer] at removed
  cases known : host.peidPeer peid with
  | none =>
      rw [known] at removed
      cases removed
      exact ⟨linked, .quiet (by simp [HostStep.freed, listed, known]) rfl rfl rfl⟩
  | some pointer =>
      rw [known] at removed
      dsimp only at removed
      cases here : host.peer pointer with
      | none =>
          rw [here] at removed
          cases removed
      | some peer =>
          rw [here] at removed
          obtain ⟨pools, destroyed, same⟩ := map_ok removed
          cases same
          obtain ⟨-, -, destroyed⟩ := bind_ok destroyed
          obtain ⟨-, -, destroyed⟩ := bind_ok destroyed
          obtain ⟨heap, pool⟩ := Peer.destroyFrom_nodes destroyed
          refine ⟨fun other found kept => linked other found (erase_eq_some.mp kept).2,
            .closes rfl known here heap pool (funext fun place => ?_)⟩
          simp only [windowAt, erase, Function.update_apply]
          split
          · rfl
          · rfl

/-- Every completed step. -/
theorem Linked.moves (linked : host.Linked) (stepped : host.step step = .ok (code, sent, next)) :
    next.Linked ∧ Moves host step next := by
  cases step with
  | inbound remoteAddr buf recvSize currentTime raw => exact linked.listener stepped
  | connect ip port serverkey keylen starttime raw =>
      rcases connect_ok stepped with rfl | ⟨newpeer, -, -, -, -, rfl⟩ <;> exact ⟨linked, .quiet rfl rfl rfl rfl⟩
  | connecter entry =>
      rcases connecter_ok stepped with rfl | ⟨-, after, retried, rfl⟩
      · exact ⟨linked, .quiet rfl rfl rfl rfl⟩
      · obtain ⟨prepeer, -, rfl | ⟨-, -, rfl⟩⟩ := retry_ok retried <;> exact ⟨linked, .quiet rfl rfl rfl rfl⟩
  | removePeer peid => exact linked.removePeer stepped
  | createUpstream peid cuid buf len => exact linked.createUpstream stepped
  | sender addrport stack => exact linked.sender stepped
  | accepting isAccepting =>
      cases stepped
      exact ⟨linked, .quiet rfl rfl rfl rfl⟩

end Steps

end Calls

end Host

end Altus
