import Altus.Proof.Host.Handshake
import Altus.Proof.Host.PeerTables

namespace Altus

open Bytes Tables

namespace Host

/-- The datagram of `ALTUSHost::TryCompleteConnection`. -/
def doneDatagram : Datagram := ascii "ALTUS/1.0Z" ++ [0, 0]

/-- The host after a new peer entered its maps under its address and a number. -/
def registered (host : Host) (remoteAddr : Address) (newpeid : U32) (dst : Peer) : Host :=
  { host with
    peers := insert host.peers (addrToUint64 remoteAddr) host.brk
    peidPeer := insert host.peidPeer newpeid host.brk
    lastpeid := newpeid
    peer := Function.update host.peer host.brk (some dst)
    brk := host.brk + 1 }

/-- Where an entry of `s_prepeers` comes from: an older one, whose acknowledgement is sent when it is marked so, or a
first page. -/
def Comes (host : Host) (remoteAddr : Address) (buf : Memory) (sent : List Sent) (addrport : U64) (prepeer : SPrePeer) :
    Prop :=
  (∃ old, host.sPrePeers addrport = some old ∧
    (prepeer.isAckSent = true → old.isAckSent = true ∨ (addressOf addrport, ackDatagram) ∈ sent)) ∨
  addrport = addrToUint64 remoteAddr ∧ (∃ page, Page.ofByte (buf 9) = some page) ∧ prepeer.isAckSent = false

/-- What an iteration of `Listener` that returns does and sends. -/
inductive Handles (host : Host) (remoteAddr : Address) (buf : Memory) (size : Int) : List Sent → Host → Prop
  | ignored : Handles host remoteAddr buf size [] host
  | talked {pointer : Ptr} {peer changed : Peer} {code : Int} {out : List Datagram} {pools : Pools}
      (known : host.peers (addrToUint64 remoteAddr) = some pointer) (here : host.peer pointer = some peer)
      (processed : peer.processPacket host.pools buf size = .ok (code, out, pools, changed)) :
      Handles host remoteAddr buf size (out.map fun datagram => (peer.remoteAddr, datagram))
        { host with pools := pools, peer := Function.update host.peer pointer (some changed) }
  | refused : Handles host remoteAddr buf size []
      { host with cPrePeers := erase host.cPrePeers (addrToUint64 remoteAddr) }
  | completed {pointer : Ptr} {prepeer : CPrePeer} {raw : Raw} {newpeid : U32}
      (pending : host.cPrePeers (addrToUint64 remoteAddr) = some pointer) (valid : validReply buf size = true)
      (free : host.peers (addrToUint64 remoteAddr) = none) :
      Handles host remoteAddr buf size [(remoteAddr, doneDatagram)]
        (registered { host with
          cPrePeers := erase host.cPrePeers (addrToUint64 remoteAddr)
          cPrePeer := Function.update host.cPrePeer pointer (some prepeer)
          pools := (Peer.clientPeer host.pools prepeer remoteAddr raw).1 } remoteAddr newpeid
            (Peer.clientPeer host.pools prepeer remoteAddr raw).2)
  | waits {sent : List Sent} {table : U64 → Option SPrePeer} (header : HasHeader buf size)
      (entries : ∀ addrport prepeer, table addrport = some prepeer → Comes host remoteAddr buf sent addrport prepeer)
      (reply : sent = [] ∨ sent = [(remoteAddr, ackDatagram)] ∧ (host.sPrePeers (addrToUint64 remoteAddr)).isSome) :
      Handles host remoteAddr buf size sent { host with sPrePeers := table }
  | promoted {prepeer : SPrePeer} {raw : Raw} {newpeid : U32} (header : HasHeader buf size) (letter : buf 9 = 90)
      (here : host.sPrePeers (addrToUint64 remoteAddr) = some prepeer) (acked : prepeer.isAckSent = true)
      (free : host.peers (addrToUint64 remoteAddr) = none) :
      Handles host remoteAddr buf size []
        { registered { host with pools := (Peer.serverPeer host.pools prepeer remoteAddr raw).1 } remoteAddr newpeid
            (Peer.serverPeer host.pools prepeer remoteAddr raw).2 with
          sPrePeers := erase host.sPrePeers (addrToUint64 remoteAddr) }

section Handles

variable {host next : Host} {remoteAddr : Address} {buf : Memory} {size : Int} {currentTime : U32} {raw : Raw}
  {code : Int} {sent : List Sent}

theorem processPacket_handles {pointer : Ptr} (known : host.peers (addrToUint64 remoteAddr) = some pointer)
    (processed : host.processPacket pointer buf size = .ok (code, sent, next)) :
    Handles host remoteAddr buf size sent next := by
  unfold processPacket at processed
  split at processed
  · cases processed
  · rename_i peer here
    obtain ⟨inner, answered, same⟩ := map_ok processed
    cases same
    exact .talked known here answered

theorem tryCompleteConnection_handles (free : host.peers (addrToUint64 remoteAddr) = none)
    (completed : host.tryCompleteConnection (addrToUint64 remoteAddr) buf size raw = .ok (code, sent, next)) :
    Handles host remoteAddr buf size sent next := by
  unfold tryCompleteConnection popCPrePeer at completed
  cases pending : host.cPrePeers (addrToUint64 remoteAddr) with
  | none =>
      simp only [pending] at completed
      cases completed
      exact .ignored
  | some pointer =>
      simp only [pending] at completed
      cases valid : validReply buf size with
      | false =>
          simp only [valid, Bool.false_eq_true, not_false_eq_true, if_true] at completed
          cases completed
          exact .refused
      | true =>
          simp only [valid, not_true_eq_false, if_false] at completed
          split at completed
          · cases completed
          rename_i prepeer here
          unfold complete at completed
          obtain ⟨sessionKey, -, completed⟩ := bind_ok completed
          simp only [free, Option.isSome_none, Bool.false_eq_true, if_false, addressOf_addrToUint64] at completed
          obtain ⟨after, made, same⟩ := map_ok completed
          obtain ⟨newpeid, -, rfl⟩ := register_ok made
          cases same
          exact .completed pending valid free

/-- A prepeer that stays in time leaves the host as it is. -/
theorem dropTimedOut_same {addrport : U64} {prepeer : SPrePeer}
    (dropped : host.dropTimedOut addrport currentTime = .ok next) (here : next.sPrePeers addrport = some prepeer) :
    next = host := by
  unfold dropTimedOut at dropped
  split at dropped
  · exact (Except.ok.inj dropped).symm
  split at dropped
  · obtain ⟨-, -, rfl⟩ := map_ok dropped
    simp at here
  · exact (Except.ok.inj dropped).symm

theorem acceptFirst_handles {middle : Host} (header : HasHeader buf size)
    (dropped : host.dropTimedOut (addrToUint64 remoteAddr) currentTime = .ok middle)
    (fresh : middle.sPrePeers (addrToUint64 remoteAddr) = none)
    (accepted : middle.acceptFirst (addrToUint64 remoteAddr) buf size currentTime raw = .ok (code, sent, next)) :
    Handles host remoteAddr buf size sent next := by
  have earlier {address : U64} {old : SPrePeer} := @dropTimedOut_entry host middle _ address currentTime old dropped
  obtain ⟨table, rfl⟩ := dropTimedOut_ok dropped
  have stays : Handles host remoteAddr buf size [] { host with sPrePeers := table } :=
    .waits header (fun addrport prepeer found => Or.inl ⟨prepeer, earlier found, Or.inl⟩) (Or.inl rfl)
  unfold acceptFirst at accepted
  dsimp only at accepted
  split at accepted
  · cases accepted
    exact stays
  split at accepted
  · obtain ⟨-, -, same⟩ := map_ok accepted
    cases same
    exact stays
  rename_i page letter
  obtain ⟨newpeer, stored, handed⟩ := bind_ok accepted
  obtain ⟨after, early, same⟩ := map_ok handed
  cases same
  split at early
  · -- A promotion before the insertion finds no prepeer.
    obtain ⟨src, made, here, -⟩ := prepeerToPeer_ok early
    rw [fresh] at here
    cases here
  · obtain rfl := Except.ok.inj early
    refine .waits header ?_ (Or.inl rfl)
    intro addrport prepeer found
    rcases (insert_eq_some fresh).mp found with ⟨rfl, rfl⟩ | old
    · exact Or.inr ⟨rfl, ⟨page, letter⟩, (store_ok stored).2⟩
    · exact Or.inl ⟨prepeer, earlier old, Or.inl⟩

theorem acceptLater_handles {peer : SPrePeer} (header : HasHeader buf size)
    (here : host.sPrePeers (addrToUint64 remoteAddr) = some peer)
    (accepted : host.acceptLater (addrToUint64 remoteAddr) peer buf size raw = .ok (code, sent, next)) :
    Handles host remoteAddr buf size sent next := by
  unfold acceptLater at accepted
  obtain ⟨stored, kept, accepted⟩ := bind_ok accepted
  obtain ⟨-, waits⟩ := storeLater_ok kept
  split at accepted
  · rename_i finishes
    obtain ⟨after, handed, same⟩ := map_ok accepted
    cases same
    obtain ⟨src, inner, found, free, made, rfl⟩ := prepeerToPeer_ok handed
    obtain ⟨newpeid, -, rfl⟩ := register_ok made
    obtain rfl := Option.some.inj (here.symm.trans found)
    have promoted := @Handles.promoted host remoteAddr buf size peer raw newpeid header finishes.1 here
      (waits ▸ finishes.2) free
    rw [addressOf_addrToUint64]
    exact promoted
  split at accepted
  · cases accepted
    rw [addressOf_addrToUint64]
    refine .waits header ?_ (Or.inr ⟨rfl, by rw [here, Option.isSome_some]⟩)
    intro addrport prepeer found
    rcases update_eq_some.mp found with ⟨rfl, rfl⟩ | ⟨-, old⟩
    · exact Or.inl ⟨peer, here, fun _ => Or.inr (by rw [addressOf_addrToUint64]; exact List.mem_singleton_self _)⟩
    · exact Or.inl ⟨prepeer, old, Or.inl⟩
  · cases accepted
    refine .waits header ?_ (Or.inl rfl)
    intro addrport prepeer found
    rcases update_eq_some.mp found with ⟨rfl, rfl⟩ | ⟨-, old⟩
    · exact Or.inl ⟨peer, here, fun acked => Or.inl (waits ▸ acked)⟩
    · exact Or.inl ⟨prepeer, old, Or.inl⟩

/-- The ends of an iteration of `Listener`. -/
theorem listener_handles (listened : host.listener remoteAddr buf size currentTime raw = .ok (code, sent, next)) :
    Handles host remoteAddr buf size sent next := by
  unfold listener at listened
  split at listened
  · cases listened
    exact .ignored
  dsimp only at listened
  split at listened
  · rename_i known
    exact processPacket_handles known listened
  · rename_i free pending
    exact tryCompleteConnection_handles free listened
  split at listened
  swap
  · cases listened
    exact .ignored
  unfold accepter at listened
  split at listened
  · cases listened
    exact .ignored
  split at listened
  · cases listened
    exact .ignored
  split at listened
  · cases listened
    exact .ignored
  rename_i whole name version
  have header : HasHeader buf size := ⟨not_lt.mp whole, not_not.mp name, not_not.mp version⟩
  obtain ⟨middle, dropped, accepted⟩ := bind_ok listened
  split at accepted
  · rename_i fresh
    exact acceptFirst_handles header dropped fresh accepted
  · rename_i peer here
    obtain rfl := dropTimedOut_same dropped here
    exact acceptLater_handles header here accepted

/-- A handshake is sent only to an address with an attempt. -/
theorem sendHandShake1_sends {addrport : U64} {message : Sent} (member : message ∈ host.sendHandShake1 addrport) :
    host.cPrePeers addrport ≠ none ∧ message.1 = addressOf addrport ∧
      message.2 ∈ handShake host.myPublicKey host.myPublicKeySize := by
  unfold sendHandShake1 at member
  split at member
  · cases member
  · rename_i pointer pending
    obtain ⟨datagram, page, rfl⟩ := List.mem_map.mp member
    exact ⟨by rw [pending]; exact Option.some_ne_none _, rfl, page⟩

theorem connect_sends {ip : U32} {port : U16} {serverkey : Memory} {keylen : Int} {starttime : U32}
    (connected : host.connect ip port serverkey keylen starttime raw = .ok (code, sent, next)) {message : Sent}
    (member : message ∈ sent) :
    message.1 = ⟨ip, networkPort port⟩ ∧ message.2 ∈ handShake host.myPublicKey host.myPublicKeySize := by
  unfold connect at connected
  dsimp only at connected
  split at connected
  · cases connected
    cases member
  · obtain ⟨newpeer, -, same⟩ := map_ok connected
    cases same
    obtain ⟨-, target, page⟩ := sendHandShake1_sends member
    exact ⟨by rw [target, addressOf_addrToUint64], page⟩

theorem retry_sends {entry : Retry} (retried : host.retry entry = .ok (code, sent, next)) {message : Sent}
    (member : message ∈ sent) : ∃ addrport, host.cPrePeers addrport ≠ none ∧ message.1 = addressOf addrport ∧
      message.2 ∈ handShake host.myPublicKey host.myPublicKeySize := by
  unfold retry at retried
  split at retried
  · cases retried
  split at retried
  · cases retried
    cases member
  dsimp only at retried
  split at retried
  · obtain ⟨-, -, same⟩ := map_ok retried
    cases same
    cases member
  · cases retried
    exact ⟨_, sendHandShake1_sends member⟩

theorem connecter_sends {entry : Retry} (stepped : host.step (.connecter entry) = .ok (code, sent, next))
    {message : Sent} (member : message ∈ sent) : ∃ addrport, host.cPrePeers addrport ≠ none ∧
      message.1 = addressOf addrport ∧ message.2 ∈ handShake host.myPublicKey host.myPublicKeySize := by
  unfold step at stepped
  dsimp only at stepped
  split at stepped
  · obtain ⟨⟨inner, sends, after⟩, retried, same⟩ := map_ok stepped
    cases same
    exact retry_sends retried member
  · cases stepped
    cases member

/-- `Send` runs on the peer of an address. -/
theorem sender_sends {addrport : U64} {stack : U16 → Fin 16 → Memory}
    (performed : host.sender addrport stack = .ok (code, sent, next)) :
    sent = [] ∧ next = host ∨ ∃ pointer peer changed out, host.peer pointer = some peer ∧
      peer.send host.pools.heap stack = .ok (code, out, changed) ∧
      sent = out.map (fun datagram => (peer.remoteAddr, datagram)) ∧
      next = { host with peer := Function.update host.peer pointer (some changed) } := by
  unfold sender at performed
  split at performed
  · cases performed
    exact Or.inl ⟨rfl, rfl⟩
  split at performed
  · cases performed
  · rename_i peer here
    obtain ⟨⟨inner, out, changed⟩, answered, same⟩ := map_ok performed
    cases same
    exact Or.inr ⟨_, peer, changed, out, here, answered, rfl, rfl⟩

/-- `CreateUpstream` and `removePeer` send nothing. -/
theorem createUpstream_sends {peid : U32} {cuid : U16} {len : Int}
    (created : host.createUpstream peid cuid buf len = .ok (code, sent, next)) :
    sent = [] ∧ ∃ pointer peer changed pools, host.peer pointer = some peer ∧
      peer.createUpstream host.pools cuid buf len = .ok (code, pools, changed) ∧
      next = { host with pools := pools, peer := Function.update host.peer pointer (some changed) } := by
  unfold createUpstream at created
  split at created
  · cases created
  split at created
  · cases created
  · rename_i peer here
    obtain ⟨⟨inner, pools, changed⟩, answered, same⟩ := map_ok created
    cases same
    exact ⟨rfl, _, peer, changed, pools, here, answered, rfl⟩

theorem removePeer_sends {peid : U32} (removed : host.removePeer peid = .ok (code, sent, next)) : sent = [] := by
  unfold removePeer at removed
  split at removed
  · cases removed
    rfl
  split at removed
  · cases removed
  · obtain ⟨pools, -, same⟩ := map_ok removed
    cases same
    rfl

end Handles

end Host

end Altus
