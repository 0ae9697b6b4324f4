import Altus.Construction.Host

namespace Altus

open Bytes Tables

namespace Peer

/-- No call on a peer changes its address. -/
theorem processPacket_remoteAddr {pools : Pools} {peer : Peer} {buf : Memory} {recvSize : Int}
    {answer : Int × List Datagram × Pools × Peer} (processed : processPacket pools peer buf recvSize = .ok answer) :
    answer.2.2.2.remoteAddr = peer.remoteAddr := by
  unfold processPacket at processed
  dsimp only at processed
  split at processed
  · cases processed
    rfl
  · obtain ⟨inner, -, rfl⟩ := map_ok processed
    rfl

theorem createUpstream_remoteAddr {pools : Pools} {peer : Peer} {cuid : U16} {buf : Memory} {len : Int}
    {answer : Int × Pools × Peer} (created : createUpstream pools peer cuid buf len = .ok answer) :
    answer.2.2.remoteAddr = peer.remoteAddr := by
  unfold createUpstream at created
  split at created
  · cases created
    rfl
  · obtain ⟨inner, -, rfl⟩ := map_ok created
    rfl

theorem sendFrom_remoteAddr {heap : WQHeap} {stack : U16 → Fin 16 → Memory} {cuids : List U16} {peer : Peer}
    {answer : Int × List Datagram × Peer} (performed : sendFrom heap stack cuids peer = .ok answer) :
    answer.2.2.remoteAddr = peer.remoteAddr := by
  induction cuids generalizing peer answer with
  | nil =>
      cases performed
      rfl
  | cons cuid rest ih =>
      unfold sendFrom at performed
      split at performed
      · exact ih performed
      · split at performed
        · cases performed
        · cases performed
          rfl
        · split at performed
          · cases performed
          · rename_i later
            have kept := ih later
            cases performed
            exact kept

end Peer

namespace Host

/-- A call on one peer changes it and the pools, but not its address. -/
def ChangesPeer (host next : Host) (pointer : Ptr) : Prop :=
  ∃ peer changed pools, host.peer pointer = some peer ∧ changed.remoteAddr = peer.remoteAddr ∧
    next = { host with pools := pools, peer := Function.update host.peer pointer (some changed) }

section Calls

variable {host next : Host} {addrport : U64} {buf : Memory} {size : Int} {raw : Raw} {code : Int} {sent : List Sent}

/-- What a host is after a new peer entered its maps. -/
theorem register_ok {dst : Peer} (registered : register host addrport dst = .ok next) :
    ∃ newpeid, searchPeid host.peidPeer peidRounds (host.lastpeid + 1) = some newpeid ∧
      next = { host with
        peers := insert host.peers addrport host.brk
        peidPeer := insert host.peidPeer newpeid host.brk
        lastpeid := newpeid
        peer := Function.update host.peer host.brk (some dst)
        brk := host.brk + 1 } := by
  unfold register at registered
  cases found : searchPeid host.peidPeer peidRounds (host.lastpeid + 1) with
  | none => simp only [found, reduceCtorEq] at registered
  | some newpeid =>
      rw [found] at registered
      exact ⟨newpeid, rfl, (Except.ok.inj registered).symm⟩

/-- What `prepeerToPeer` does with a prepeer. -/
theorem prepeerToPeer_ok (completed : host.prepeerToPeer addrport raw = .ok next) :
    ∃ src registered, host.sPrePeers addrport = some src ∧ host.peers addrport = none ∧
      register { host with pools := (Peer.serverPeer host.pools src (addressOf addrport) raw).1 } addrport
        (Peer.serverPeer host.pools src (addressOf addrport) raw).2 = .ok registered ∧
      next = { registered with sPrePeers := erase registered.sPrePeers addrport } := by
  unfold prepeerToPeer at completed
  cases found : host.sPrePeers addrport with
  | none => simp only [found, reduceCtorEq] at completed
  | some src =>
      simp only [found] at completed
      cases free : host.peers addrport with
      | some pointer => simp [free] at completed
      | none =>
          simp only [free, Option.isSome_none, Bool.false_eq_true, if_false] at completed
          obtain ⟨registered, made, rfl⟩ := map_ok completed
          exact ⟨src, registered, rfl, rfl, made, rfl⟩

/-- Only the table of the accepted prepeers changes when one is timed out. -/
theorem dropTimedOut_ok {currentTime : U32} (dropped : host.dropTimedOut addrport currentTime = .ok next) :
    ∃ sPrePeers, next = { host with sPrePeers := sPrePeers } := by
  unfold dropTimedOut at dropped
  split at dropped
  · cases dropped
    exact ⟨host.sPrePeers, rfl⟩
  · split at dropped
    · obtain ⟨-, -, rfl⟩ := map_ok dropped
      exact ⟨_, rfl⟩
    · cases dropped
      exact ⟨host.sPrePeers, rfl⟩

/-- The ends of `accepter` on a first datagram: it is refused, or its page is stored in a new prepeer. -/
theorem acceptFirst_ok {currentTime : U32}
    (accepted : host.acceptFirst addrport buf size currentTime raw = .ok (code, sent, next)) :
    next = host ∨
    ∃ page newpeer registered, ¬ ntohs buf 10 < 128#16 ∧
      SPrePeer.store { SPrePeer.sPrePeer currentTime raw with keySize := ntohs buf 10 } page (shift buf 12) (size - 12) =
        .ok newpeer ∧
      (registered = host ∨ host.prepeerToPeer addrport raw = .ok registered) ∧
      next = { registered with sPrePeers := insert registered.sPrePeers addrport newpeer } := by
  unfold acceptFirst at accepted
  dsimp only at accepted
  split at accepted
  · cases accepted
    exact Or.inl rfl
  rename_i large
  split at accepted
  · obtain ⟨-, -, same⟩ := map_ok accepted
    cases same
    exact Or.inl rfl
  · rename_i page letter
    obtain ⟨newpeer, stored, handed⟩ := bind_ok accepted
    obtain ⟨registered, early, same⟩ := map_ok handed
    cases same
    refine Or.inr ⟨page, newpeer, registered, large, stored, ?_, rfl⟩
    split at early
    · exact Or.inr early
    · exact Or.inl (Except.ok.inj early).symm

/-- The ends of `accepter` on a later datagram: the prepeer is promoted, or it stays with its page. -/
theorem acceptLater_ok {peer : SPrePeer}
    (accepted : host.acceptLater addrport peer buf size raw = .ok (code, sent, next)) :
    ∃ stored, storeLater peer buf size = .ok stored ∧
      (host.prepeerToPeer addrport raw = .ok next ∨
      ∃ left, (left = stored ∨ left = { stored with isAckSent := true } ∧ sent = [(addressOf addrport, ackDatagram)]) ∧
        next = { host with sPrePeers := Function.update host.sPrePeers addrport (some left) }) := by
  unfold acceptLater at accepted
  obtain ⟨stored, kept, accepted⟩ := bind_ok accepted
  refine ⟨stored, kept, ?_⟩
  split at accepted
  · obtain ⟨completed, handed, same⟩ := map_ok accepted
    cases same
    exact Or.inl handed
  split at accepted
  · cases accepted
    exact Or.inr ⟨_, Or.inr ⟨rfl, rfl⟩, rfl⟩
  · cases accepted
    exact Or.inr ⟨_, Or.inl rfl, rfl⟩

/-- A datagram without the header of a handshake is refused. -/
theorem accepter_ok {currentTime : U32}
    (accepted : host.accepter addrport buf size currentTime raw = .ok (code, sent, next)) :
    next = host ∨
    (12 ≤ size ∧ strncmp (ofList (ascii "ALTUS/")) buf 6 = 0 ∧ strncmp (ofList (ascii "1.0")) (shift buf 6) 3 = 0) ∧
      ∃ dropped, host.dropTimedOut addrport currentTime = .ok dropped ∧
        ((dropped.sPrePeers addrport = none ∧
            dropped.acceptFirst addrport buf size currentTime raw = .ok (code, sent, next)) ∨
          ∃ peer, dropped.sPrePeers addrport = some peer ∧
            dropped.acceptLater addrport peer buf size raw = .ok (code, sent, next)) := by
  unfold accepter at accepted
  split at accepted
  · cases accepted
    exact Or.inl rfl
  split at accepted
  · cases accepted
    exact Or.inl rfl
  split at accepted
  · cases accepted
    exact Or.inl rfl
  rename_i whole name version
  obtain ⟨dropped, first, accepted⟩ := bind_ok accepted
  refine Or.inr ⟨⟨not_lt.mp whole, not_not.mp name, not_not.mp version⟩, dropped, first, ?_⟩
  split at accepted
  · rename_i fresh
    exact Or.inl ⟨fresh, accepted⟩
  · rename_i peer here
    exact Or.inr ⟨peer, here, accepted⟩

/-- Apart from the table of the accepted prepeers, `accepter` changes a host by a promotion only. -/
theorem accepter_promotes {currentTime : U32}
    (accepted : host.accepter addrport buf size currentTime raw = .ok (code, sent, next)) :
    (∃ sPrePeers, next = { host with sPrePeers := sPrePeers }) ∨
    ∃ before completed after, prepeerToPeer { host with sPrePeers := before } addrport raw = .ok completed ∧
      next = { completed with sPrePeers := after } := by
  rcases accepter_ok accepted with rfl | ⟨-, dropped, first, ⟨-, early⟩ | ⟨peer, -, late⟩⟩
  · exact Or.inl ⟨next.sPrePeers, rfl⟩
  · obtain ⟨before, rfl⟩ := dropTimedOut_ok first
    rcases acceptFirst_ok early with rfl | ⟨page, newpeer, registered, -, -, rfl | handed, rfl⟩
    · exact Or.inl ⟨before, rfl⟩
    · exact Or.inl ⟨_, rfl⟩
    · exact Or.inr ⟨before, registered, _, handed, rfl⟩
  · obtain ⟨before, rfl⟩ := dropTimedOut_ok first
    obtain ⟨stored, -, handed | ⟨left, -, rfl⟩⟩ := acceptLater_ok late
    · exact Or.inr ⟨before, next, next.sPrePeers, handed, rfl⟩
    · exact Or.inl ⟨_, rfl⟩

theorem processPacket_ok {pointer : Ptr} (processed : host.processPacket pointer buf size = .ok (code, sent, next)) :
    ChangesPeer host next pointer := by
  unfold processPacket at processed
  split at processed
  · cases processed
  · rename_i peer here
    obtain ⟨inner, answered, same⟩ := map_ok processed
    cases same
    exact ⟨peer, _, _, here, Peer.processPacket_remoteAddr answered, rfl⟩

/-- The three ends of `TryCompleteConnection`: no attempt, an invalid reply, and a new peer. -/
theorem tryCompleteConnection_ok
    (completed : host.tryCompleteConnection addrport buf size raw = .ok (code, sent, next)) :
    (host.cPrePeers addrport = none ∧ next = host) ∨
    ∃ pointer, host.cPrePeers addrport = some pointer ∧
      ((validReply buf size = false ∧ next = { host with cPrePeers := erase host.cPrePeers addrport }) ∨
        ∃ prepeer sessionKey, validReply buf size = true ∧ host.cPrePeer pointer = some prepeer ∧
          host.peers addrport = none ∧
          let prepeer := { prepeer with expired := true, sessionKey := sessionKey }
          let made := Peer.clientPeer host.pools prepeer (addressOf addrport) raw
          register { host with
            cPrePeers := erase host.cPrePeers addrport
            cPrePeer := Function.update host.cPrePeer pointer (some prepeer)
            pools := made.1 } addrport made.2 = .ok next) := by
  unfold tryCompleteConnection popCPrePeer at completed
  cases pending : host.cPrePeers addrport with
  | none =>
      simp only [pending] at completed
      cases completed
      exact Or.inl ⟨rfl, rfl⟩
  | some pointer =>
      right
      refine ⟨pointer, rfl, ?_⟩
      simp only [pending] at completed
      cases valid : validReply buf size with
      | false =>
          simp only [valid, Bool.false_eq_true, not_false_eq_true, if_true] at completed
          cases completed
          exact Or.inl ⟨rfl, rfl⟩
      | true =>
          right
          simp only [valid, not_true_eq_false, if_false] at completed
          cases here : host.cPrePeer pointer with
          | none => simp only [here, reduceCtorEq] at completed
          | some prepeer =>
              simp only [here] at completed
              unfold complete at completed
              obtain ⟨sessionKey, -, completed⟩ := bind_ok completed
              dsimp only at completed
              cases free : host.peers addrport with
              | some other => simp [free] at completed
              | none =>
                  simp only [free, Option.isSome_none, Bool.false_eq_true, if_false] at completed
                  obtain ⟨registered, made, same⟩ := map_ok completed
                  cases same
                  exact ⟨prepeer, sessionKey, rfl, rfl, rfl, made⟩

/-- Where an iteration of `Listener` hands its datagram on to. -/
theorem listener_cases {remoteAddr : Address} {currentTime : U32}
    (listened : host.listener remoteAddr buf size currentTime raw = .ok (code, sent, next)) :
    next = host ∨
    (∃ pointer, host.processPacket pointer buf size = .ok (code, sent, next)) ∨
    (size ≠ -1 ∧ host.peers (addrToUint64 remoteAddr) = none ∧ (host.cPrePeers (addrToUint64 remoteAddr)).isSome ∧
      host.tryCompleteConnection (addrToUint64 remoteAddr) buf size raw = .ok (code, sent, next)) ∨
    (host.peers (addrToUint64 remoteAddr) = none ∧ host.cPrePeers (addrToUint64 remoteAddr) = none ∧
      host.isAccepting = true ∧
      host.accepter (addrToUint64 remoteAddr) buf size currentTime raw = .ok (code, sent, next)) := by
  unfold listener at listened
  split at listened
  · cases listened
    exact Or.inl rfl
  rename_i received
  dsimp only at listened
  cases known : host.peers (addrToUint64 remoteAddr) with
  | some pointer =>
      simp only [known] at listened
      exact Or.inr (Or.inl ⟨pointer, listened⟩)
  | none =>
      cases pending : host.cPrePeers (addrToUint64 remoteAddr) with
      | some pointer =>
          simp only [known, pending] at listened
          exact Or.inr (Or.inr (Or.inl ⟨received, rfl, rfl, listened⟩))
      | none =>
          simp only [known, pending] at listened
          split at listened
          · rename_i accepting
            exact Or.inr (Or.inr (Or.inr ⟨rfl, rfl, accepting, listened⟩))
          · cases listened
            exact Or.inl rfl

/-- The peer leaves both maps under its address and its number. -/
theorem removePeer_ok {peid : U32} (removed : host.removePeer peid = .ok (code, sent, next)) :
    (host.peidPeer peid = none ∧ code = -1 ∧ next = host) ∨
    ∃ pointer peer pools, host.peidPeer peid = some pointer ∧ host.peer pointer = some peer ∧ code = 0 ∧
      next = { host with
        pools := pools
        peers := erase host.peers (addrToUint64 peer.remoteAddr)
        peer := erase host.peer pointer
        peidPeer := erase host.peidPeer peid } := by
  unfold removePeer at removed
  split at removed
  · rename_i unknown
    cases removed
    exact Or.inl ⟨unknown, rfl, rfl⟩
  rename_i pointer known
  split at removed
  · cases removed
  · rename_i peer here
    obtain ⟨pools, -, same⟩ := map_ok removed
    cases same
    exact Or.inr ⟨pointer, peer, pools, known, here, rfl, rfl⟩

theorem createUpstream_ok {peid : U32} {cuid : U16} {len : Int}
    (created : host.createUpstream peid cuid buf len = .ok (code, sent, next)) :
    ∃ pointer, ChangesPeer host next pointer := by
  unfold createUpstream at created
  split at created
  · cases created
  rename_i pointer known
  split at created
  · cases created
  · rename_i peer here
    obtain ⟨inner, answered, same⟩ := map_ok created
    cases same
    exact ⟨pointer, peer, _, _, here, Peer.createUpstream_remoteAddr answered, rfl⟩

theorem sender_ok {stack : U16 → Fin 16 → Memory} (performed : host.sender addrport stack = .ok (code, sent, next)) :
    next = host ∨ ∃ pointer, ChangesPeer host next pointer := by
  unfold sender at performed
  split at performed
  · cases performed
    exact Or.inl rfl
  rename_i pointer known
  split at performed
  · cases performed
  · rename_i peer here
    obtain ⟨inner, answered, same⟩ := map_ok performed
    cases same
    exact Or.inr ⟨pointer, peer, _, _, here, Peer.sendFrom_remoteAddr answered, rfl⟩

/-- A new attempt, if none is in the table under its address. -/
theorem connect_ok {ip : U32} {port : U16} {serverkey : Memory} {keylen : Int} {starttime : U32}
    (connected : host.connect ip port serverkey keylen starttime raw = .ok (code, sent, next)) :
    next = host ∨
    ∃ newpeer : CPrePeer, newpeer.expired = false ∧ newpeer.starttime = starttime ∧
      newpeer.remoteAddr = ⟨ip, networkPort port⟩ ∧ host.cPrePeers (addrToUint64 newpeer.remoteAddr) = none ∧
      next = { host with
        cPrePeers := insert host.cPrePeers (addrToUint64 newpeer.remoteAddr) host.brk
        cPrePeer := Function.update host.cPrePeer host.brk (some newpeer)
        retryQueue := host.retryQueue ++
          [(starttime + 1500, host.brk), (starttime + 3000, host.brk), (starttime + 4500, host.brk)]
        brk := host.brk + 1 } := by
  unfold connect at connected
  dsimp only at connected
  cases pending : host.cPrePeers (addrToUint64 ⟨ip, networkPort port⟩) with
  | some pointer =>
      simp only [pending, Option.isSome_some, if_true] at connected
      cases connected
      exact Or.inl rfl
  | none =>
      simp only [pending, Option.isSome_none, Bool.false_eq_true, if_false] at connected
      obtain ⟨newpeer, made, same⟩ := map_ok connected
      cases same
      unfold CPrePeer.cPrePeer at made
      split at made
      · cases made
      · have fields := Except.ok.inj made
        have address : newpeer.remoteAddr = ⟨ip, networkPort port⟩ := by rw [← fields]
        refine Or.inr ⟨newpeer, ?_, ?_, address, ?_, ?_⟩
        · rw [← fields]
        · rw [← fields]
        · rw [address]
          exact pending
        · rw [address]

/-- An entry of the queue is dropped, ends its attempt or sends the key again. -/
theorem retry_ok {entry : Retry} (retried : host.retry entry = .ok (code, sent, next)) :
    ∃ prepeer, host.cPrePeer entry.2 = some prepeer ∧
      (next = host ∨
        prepeer.expired = false ∧ 4500 ≤ (entry.1 - prepeer.starttime).toInt ∧
          next = { host with
            cPrePeers := erase host.cPrePeers (addrToUint64 prepeer.remoteAddr)
            cPrePeer := erase host.cPrePeer entry.2 }) := by
  unfold retry at retried
  cases here : host.cPrePeer entry.2 with
  | none => simp only [here, reduceCtorEq] at retried
  | some prepeer =>
      refine ⟨prepeer, rfl, ?_⟩
      simp only [here] at retried
      cases expired : prepeer.expired with
      | true =>
          simp only [expired, if_true] at retried
          cases retried
          exact Or.inl rfl
      | false =>
          simp only [expired, Bool.false_eq_true, if_false] at retried
          split at retried
          · rename_i old
            obtain ⟨-, -, same⟩ := map_ok retried
            cases same
            exact Or.inr ⟨rfl, old, rfl⟩
          · cases retried
            exact Or.inl rfl

/-- An iteration of `Connecter` takes the top of the queue only. -/
theorem connecter_ok {entry : Retry} (stepped : host.step (.connecter entry) = .ok (code, sent, next)) :
    next = host ∨
    IsTop host.retryQueue entry ∧ ∃ after, host.retry entry = .ok (code, sent, after) ∧ next = after.popRetry entry := by
  unfold step at stepped
  dsimp only at stepped
  split at stepped
  · rename_i top
    obtain ⟨⟨inner, sends, after⟩, retried, same⟩ := map_ok stepped
    cases same
    exact Or.inr ⟨top, after, retried, rfl⟩
  · cases stepped
    exact Or.inl rfl

end Calls

end Host

end Altus
