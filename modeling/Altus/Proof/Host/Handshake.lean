import Altus.Proof.Host.Calls
import Altus.Proof.Host.OwnBytes

namespace Altus

open Bytes Tables

/-- Only one byte names the first page. -/
theorem Page.ofByte_a {byte : Byte} (named : ofByte byte = some .a) : byte = 65 := by
  by_contra other
  rw [ofByte, if_neg other] at named
  split_ifs at named <;> cases named

namespace Host

/-- The datagram has the header of a handshake. -/
def HasHeader (buf : Memory) (size : Int) : Prop :=
  12 ≤ size ∧ strncmp (ofList (ascii "ALTUS/")) buf 6 = 0 ∧ strncmp (ofList (ascii "1.0")) (shift buf 6) 3 = 0

instance (buf : Memory) (size : Int) : Decidable (HasHeader buf size) := inferInstanceAs (Decidable (_ ∧ _ ∧ _))

/-- `Listener` hands a datagram of this address to `accepter`. -/
def Listens (host : Host) (remoteAddr : Address) : Prop :=
  host.peers (addrToUint64 remoteAddr) = none ∧ host.cPrePeers (addrToUint64 remoteAddr) = none ∧
    host.isAccepting = true

instance (host : Host) (remoteAddr : Address) : Decidable (host.Listens remoteAddr) :=
  inferInstanceAs (Decidable (_ ∧ _ ∧ _))

section Reached

variable {host : Host} {remoteAddr : Address} {buf : Memory} {recvSize : Int} {currentTime : U32} {raw : Raw}

/-- A datagram that reaches the handshake. -/
theorem listener_reached (listens : host.Listens remoteAddr) (header : HasHeader buf recvSize) (callees : Callees) :
    host.listener remoteAddr buf recvSize currentTime raw callees =
      (host.dropTimedOut (addrToUint64 remoteAddr) currentTime callees.wipe).bind fun middle =>
        match middle.sPrePeers (addrToUint64 remoteAddr) with
        | none => middle.acceptFirst (addrToUint64 remoteAddr) buf recvSize currentTime raw callees
        | some peer => middle.acceptLater (addrToUint64 remoteAddr) peer buf recvSize raw callees := by
  obtain ⟨noPeer, noCPrePeer, accepting⟩ := listens
  obtain ⟨whole, name, version⟩ := header
  rw [listener, if_neg (by omega)]
  dsimp only
  rw [noPeer, noCPrePeer]
  dsimp only
  rw [if_pos accepting, accepter, if_neg (by omega), if_neg (not_not.mpr name)]
  exact if_neg (not_not.mpr version)

/-- A first datagram of a handshake. -/
theorem listener_first (listens : host.Listens remoteAddr) (header : HasHeader buf recvSize) {callees : Callees}
    {middle : Host} (dropped : host.dropTimedOut (addrToUint64 remoteAddr) currentTime callees.wipe = .ok middle)
    (here : middle.sPrePeers (addrToUint64 remoteAddr) = none) :
    host.listener remoteAddr buf recvSize currentTime raw callees =
      middle.acceptFirst (addrToUint64 remoteAddr) buf recvSize currentTime raw callees := by
  rw [listener_reached listens header, dropped]
  simp only [Except.bind, here]

/-- A later datagram of a handshake. -/
theorem listener_later (listens : host.Listens remoteAddr) (header : HasHeader buf recvSize) {callees : Callees}
    {middle : Host} (dropped : host.dropTimedOut (addrToUint64 remoteAddr) currentTime callees.wipe = .ok middle)
    {peer : SPrePeer} (here : middle.sPrePeers (addrToUint64 remoteAddr) = some peer) :
    host.listener remoteAddr buf recvSize currentTime raw callees =
      middle.acceptLater (addrToUint64 remoteAddr) peer buf recvSize raw callees := by
  rw [listener_reached listens header, dropped]
  simp only [Except.bind, here]

/-- Any other datagram calls none of the functions. -/
theorem listener_unreached (unreached : ¬ (host.Listens remoteAddr ∧ HasHeader buf recvSize))
    (first second : Callees) :
    host.listener remoteAddr buf recvSize currentTime raw first =
      host.listener remoteAddr buf recvSize currentTime raw second := by
  rw [listener, listener]
  split
  · rfl
  dsimp only
  split
  · rfl
  · rfl
  rename_i noPeer noCPrePeer
  split
  · rename_i accepting
    rw [accepter, accepter]
    split
    · rfl
    split
    · rfl
    split
    · rfl
    rename_i whole name version
    exact absurd ⟨⟨noPeer, noCPrePeer, accepting⟩, not_lt.mp whole, not_not.mp name, not_not.mp version⟩ unreached
  · rfl

end Reached

/-- No prepeer of this address is in time. -/
def Vacant (host : Host) (addrport : U64) (currentTime : U32) : Prop :=
  ∀ prepeer ∈ host.sPrePeers addrport, 5000#32 < currentTime - prepeer.starttime

instance (host : Host) (addrport : U64) (currentTime : U32) : Decidable (host.Vacant addrport currentTime) :=
  inferInstanceAs (Decidable (∀ prepeer ∈ host.sPrePeers addrport, 5000#32 < currentTime - prepeer.starttime))

/-- Two prepeers have the same sizes. -/
structure SameSizes (old prepeer : SPrePeer) : Prop where
  keySize : prepeer.keySize = old.keySize
  publicKey : prepeer.publicKey.size = old.publicKey.size
  sessionKey : prepeer.sessionKey.size = old.sessionKey.size

theorem SameSizes.refl (prepeer : SPrePeer) : SameSizes prepeer prepeer := ⟨rfl, rfl, rfl⟩

/-- Where an entry of `s_prepeers` comes from: it was there before the step, or a first datagram made it. -/
inductive Descends (host : Host) (sent : List Sent) (addrport : U64) (prepeer : SPrePeer) : HostStep → Prop where
  | kept {step : HostStep} (old : SPrePeer) (before : host.sPrePeers addrport = some old)
      (sizes : SameSizes old prepeer)
      (acked : prepeer.isAckSent = true → old.isAckSent = true ∨ (addressOf addrport, ackDatagram) ∈ sent) :
      Descends host sent addrport prepeer step
  | made {remoteAddr : Address} {buf : Memory} {recvSize : Int} {currentTime : U32} {raw : Raw}
      (own : addrport = addrToUint64 remoteAddr) (listens : host.Listens remoteAddr) (header : HasHeader buf recvSize)
      (vacant : host.Vacant addrport currentTime) (large : ¬ ntohs buf 10 < 128#16)
      (sizes : SameSizes { SPrePeer.sPrePeer currentTime raw with keySize := ntohs buf 10 } prepeer)
      (waits : prepeer.isAckSent = false) :
      Descends host sent addrport prepeer (.inbound remoteAddr buf recvSize currentTime raw)

section Entries

variable {host next : Host} {addrport other : U64} {buf : Memory} {size : Int} {currentTime : U32} {raw : Raw}
  {code : Int} {sent : List Sent} {prepeer : SPrePeer}

/-- A page changes neither the sizes nor the acknowledgement of a prepeer. -/
theorem store_ok {page : Page} {source : Memory} {length : Int} {stored : SPrePeer}
    (returned : prepeer.store page source length = .ok stored) :
    SameSizes prepeer stored ∧ stored.isAckSent = prepeer.isAckSent := by
  obtain ⟨publicKey, copied, rfl⟩ := map_ok returned
  have size : publicKey.size = prepeer.publicKey.size := by
    unfold Block.copy at copied
    split at copied
    · cases copied
    split at copied
    · cases copied
    · rw [← Except.ok.inj copied]
  cases page <;> exact ⟨⟨rfl, size, rfl⟩, rfl⟩

/-- A page that fits into the key is stored. -/
theorem store_fits {page : Page} {length : Int} (prepeer : SPrePeer) (source : Memory) (whole : 0 ≤ length)
    (fits : length = 0 ∨ page.offset + length ≤ prepeer.publicKey.size) :
    ∃ stored, prepeer.store page source length = .ok stored := by
  unfold SPrePeer.store Block.copy
  rw [if_neg (by omega), if_neg (by omega)]
  exact ⟨_, rfl⟩

theorem storeLater_ok {stored : SPrePeer} (returned : storeLater prepeer buf size = .ok stored) :
    SameSizes prepeer stored ∧ stored.isAckSent = prepeer.isAckSent := by
  unfold storeLater at returned
  split at returned
  · rw [← Except.ok.inj returned]
    exact ⟨⟨rfl, rfl, rfl⟩, rfl⟩
  · exact store_ok returned

/-- The accepted prepeers other than a timed out one stay. -/
theorem dropTimedOut_entry (dropped : host.dropTimedOut addrport currentTime = .ok next)
    (found : next.sPrePeers other = some prepeer) : host.sPrePeers other = some prepeer := by
  unfold dropTimedOut at dropped
  split at dropped
  · rw [← Except.ok.inj dropped] at found
    exact found
  split at dropped
  · obtain ⟨-, -, rfl⟩ := map_ok dropped
    exact (erase_eq_some.mp found).2
  · rw [← Except.ok.inj dropped] at found
    exact found

/-- No prepeer stays only when there was none in time. -/
theorem dropTimedOut_vacant (dropped : host.dropTimedOut addrport currentTime = .ok next)
    (gone : next.sPrePeers addrport = none) : host.Vacant addrport currentTime := by
  unfold dropTimedOut at dropped
  intro old here
  rw [Option.mem_def] at here
  rw [here] at dropped
  dsimp only at dropped
  split at dropped
  · assumption
  · rw [← Except.ok.inj dropped, here] at gone
    cases gone

/-- A promoted prepeer leaves the table, and the others stay. -/
theorem prepeerToPeer_entry (completed : host.prepeerToPeer addrport raw = .ok next)
    (found : next.sPrePeers other = some prepeer) : host.sPrePeers other = some prepeer := by
  obtain ⟨src, registered, -, -, made, rfl⟩ := prepeerToPeer_ok completed
  obtain ⟨newpeid, -, rfl⟩ := register_ok made
  exact (erase_eq_some.mp found).2

/-- A first datagram leaves one new prepeer, and no other prepeer is new. -/
theorem acceptFirst_entry (fresh : host.sPrePeers addrport = none)
    (accepted : host.acceptFirst addrport buf size currentTime raw = .ok (code, sent, next))
    (found : next.sPrePeers other = some prepeer) : host.sPrePeers other = some prepeer ∨
      other = addrport ∧ ¬ ntohs buf 10 < 128#16 ∧
        SameSizes { SPrePeer.sPrePeer currentTime raw with keySize := ntohs buf 10 } prepeer ∧
        prepeer.isAckSent = false := by
  rcases acceptFirst_ok accepted with rfl | ⟨page, newpeer, registered, large, stored, rfl | handed, rfl⟩
  · exact Or.inl found
  · obtain ⟨sizes, waits⟩ := store_ok stored
    rcases (insert_eq_some fresh).mp found with ⟨rfl, rfl⟩ | old
    · exact Or.inr ⟨rfl, large, sizes, waits⟩
    · exact Or.inl old
  · -- A promotion before the insertion finds no prepeer.
    obtain ⟨src, made, here, -⟩ := prepeerToPeer_ok handed
    rw [fresh] at here
    cases here

/-- A later datagram keeps the sizes of its prepeer, and it marks no acknowledgement that it does not send. -/
theorem acceptLater_entry {peer : SPrePeer} (here : host.sPrePeers addrport = some peer)
    (accepted : host.acceptLater addrport peer buf size raw = .ok (code, sent, next))
    (found : next.sPrePeers other = some prepeer) : ∃ old, host.sPrePeers other = some old ∧
      SameSizes old prepeer ∧
      (prepeer.isAckSent = true → old.isAckSent = true ∨ (addressOf other, ackDatagram) ∈ sent) := by
  obtain ⟨stored, kept, handed | ⟨left, acked, rfl⟩⟩ := acceptLater_ok accepted
  · exact ⟨prepeer, prepeerToPeer_entry handed found, .refl prepeer, Or.inl⟩
  obtain ⟨sizes, waits⟩ := storeLater_ok kept
  rcases update_eq_some.mp found with ⟨rfl, rfl⟩ | ⟨-, old⟩
  · rcases acked with rfl | ⟨rfl, rfl⟩
    · exact ⟨peer, here, sizes, fun acked => Or.inl (waits ▸ acked)⟩
    · exact ⟨peer, here, ⟨sizes.keySize, sizes.publicKey, sizes.sessionKey⟩, fun _ => Or.inr (List.mem_singleton_self _)⟩
  · exact ⟨prepeer, old, .refl prepeer, Or.inl⟩

/-- The accepted prepeers after an iteration of `Listener`. -/
theorem listener_entry {remoteAddr : Address}
    (listened : host.listener remoteAddr buf size currentTime raw = .ok (code, sent, next))
    (found : next.sPrePeers other = some prepeer) :
    Descends host sent other prepeer (.inbound remoteAddr buf size currentTime raw) := by
  have same (old : host.sPrePeers other = some prepeer) :
      Descends host sent other prepeer (.inbound remoteAddr buf size currentTime raw) :=
    .kept prepeer old (.refl prepeer) Or.inl
  rcases listener_cases listened with rfl | ⟨pointer, processed⟩ | ⟨-, -, -, completed⟩ |
    ⟨noPeer, noCPrePeer, accepting, accepted⟩
  · exact same found
  · obtain ⟨peer, changed, pools, -, -, rfl⟩ := processPacket_ok processed
    exact same found
  · rcases tryCompleteConnection_ok completed with ⟨-, rfl⟩ | ⟨pointer, -, ⟨-, rfl⟩ | ⟨prepeer, key, -, -, -, made⟩⟩
    · exact same found
    · exact same found
    · obtain ⟨newpeid, -, rfl⟩ := register_ok made
      exact same found
  rcases accepter_ok accepted with rfl | ⟨header, dropped, first, accepted⟩
  · exact same found
  have earlier {address : U64} {old : SPrePeer} := @dropTimedOut_entry host dropped _ address currentTime old first
  rcases accepted with ⟨fresh, accepted⟩ | ⟨peer, here, accepted⟩
  · rcases acceptFirst_entry fresh accepted found with old | ⟨rfl, large, sizes, waits⟩
    · exact same (earlier old)
    · exact .made rfl ⟨noPeer, noCPrePeer, accepting⟩ header (dropTimedOut_vacant first fresh) large sizes waits
  · obtain ⟨old, before, sizes, acked⟩ := acceptLater_entry here accepted found
    exact .kept old (earlier before) sizes acked

/-- Only datagrams change the accepted prepeers. -/
theorem step_entry {step : HostStep} (stepped : host.step step = .ok (code, sent, next))
    (found : next.sPrePeers other = some prepeer) : Descends host sent other prepeer step := by
  have same (kept : next.sPrePeers = host.sPrePeers) : Descends host sent other prepeer step :=
    .kept prepeer (kept ▸ found) (.refl prepeer) Or.inl
  cases step with
  | inbound remoteAddr buf recvSize currentTime raw => exact listener_entry stepped found
  | connect ip port serverkey keylen starttime raw =>
      apply same
      rcases connect_ok stepped with rfl | ⟨newpeer, -, -, -, -, rfl⟩ <;> rfl
  | connecter entry =>
      apply same
      rcases connecter_ok stepped with rfl | ⟨-, after, retried, rfl⟩
      · rfl
      · obtain ⟨prepeer, -, rfl | ⟨-, -, rfl⟩⟩ := retry_ok retried <;> rfl
  | removePeer peid =>
      apply same
      rcases removePeer_ok stepped with ⟨-, -, rfl⟩ | ⟨pointer, peer, pools, -, -, -, rfl⟩ <;> rfl
  | createUpstream peid cuid buf len =>
      apply same
      obtain ⟨pointer, peer, changed, pools, -, -, rfl⟩ := createUpstream_ok stepped
      rfl
  | sender addrport stack =>
      apply same
      rcases sender_ok stepped with rfl | ⟨pointer, peer, changed, pools, -, -, rfl⟩ <;> rfl
  | accepting isAccepting =>
      cases stepped
      exact same rfl

end Entries

end Host

end Altus
