import Altus.Proof.Network.Forms

namespace Altus

open Bytes Tables Network Host Datagram

/-- What the log holds of a handshake of `here` with `there` when a host at `here` makes a peer. -/
inductive Met (log : List Note) (here there : Address) : Role → Prop
  | client {reply : Datagram} (asked : .asked here there ∈ log) (replies : Replies reply)
      (replied : .sent there here reply ∈ log) : Met log here there .client
  | server {opening finish : Datagram} (opens : Opens opening) (opened : .sent there here opening ∈ log)
      (acked : .sent here there ackDatagram ∈ log) (finishes : Finishes finish)
      (finished : .sent there here finish ∈ log) : Met log here there .server

/-- Why a host with a key sends a datagram. -/
inductive Reason (key : Memory) (log : List Note) (here there : Address) (datagram : Datagram) : Prop
  | page (form : datagram ∈ handShake key 700) (asked : .asked here there ∈ log)
  | reply {opening : Datagram} (form : datagram = ackDatagram) (opens : Opens opening)
      (opened : .sent there here opening ∈ log)
  | finish {reply : Datagram} (form : datagram = doneDatagram) (asked : .asked here there ∈ log)
      (replies : Replies reply) (replied : .sent there here reply ∈ log)
  | talk {role : Role} (form : Peer.Speaks role datagram) (met : Met log here there role)

/-- Every datagram of a host has its reason. -/
def Justified (hosted : Address → Prop) (key : Address → Memory) (log : List Note) : Note → Prop
  | .asked _ _ => True
  | .sent source target datagram => hosted source → Reason (key source) log source target datagram

/-- What the log says about the tables of a host. -/
structure Sound (key : Memory) (here : Address) (log : List Note) (host : Host) : Prop where
  key : host.myPublicKey = key
  keySize : host.myPublicKeySize = 700
  listed : Listed host
  pending : ∀ addrport, host.cPrePeers addrport ≠ none → .asked here (addressOf addrport) ∈ log
  opened : ∀ addrport prepeer, host.sPrePeers addrport = some prepeer →
    ∃ opening, Opens opening ∧ .sent (addressOf addrport) here opening ∈ log
  acked : ∀ addrport prepeer, host.sPrePeers addrport = some prepeer → prepeer.isAckSent = true →
    .sent here (addressOf addrport) ackDatagram ∈ log
  met : ∀ pointer peer, host.peer pointer = some peer →
    ∃ role, Met log here peer.remoteAddr role ∧ peer.HasDirectory role

section Stable

variable {log more : List Note} {here there : Address} {role : Role} {key : Memory} {datagram : Datagram}

theorem Met.mono (met : Met log here there role) (more : List Note) : Met (log ++ more) here there role := by
  have keep {note : Note} (member : note ∈ log) : note ∈ log ++ more := List.mem_append_left _ member
  cases met with
  | client asked replies replied => exact .client (keep asked) replies (keep replied)
  | server opens opened acked finishes finished =>
      exact .server opens (keep opened) (keep acked) finishes (keep finished)

theorem Reason.mono (reason : Reason key log here there datagram) (more : List Note) :
    Reason key (log ++ more) here there datagram := by
  have keep {note : Note} (member : note ∈ log) : note ∈ log ++ more := List.mem_append_left _ member
  cases reason with
  | page form asked => exact .page form (keep asked)
  | reply form opens opened => exact .reply form opens (keep opened)
  | finish form asked replies replied => exact .finish form (keep asked) replies (keep replied)
  | talk form met => exact .talk form (met.mono more)

theorem justified_stable (hosted : Address → Prop) (key : Address → Memory) : Stable (Justified hosted key) := by
  intro log more note justified
  cases note with
  | asked => trivial
  | sent source target datagram => exact fun here => (justified here).mono more

theorem sound_stable (key : Memory) (here : Address) : Stable (Sound key here) := by
  intro log more host sound
  have keep {note : Note} (member : note ∈ log) : note ∈ log ++ more := List.mem_append_left _ member
  refine ⟨sound.key, sound.keySize, sound.listed, fun addrport some => keep (sound.pending addrport some), ?_, ?_, ?_⟩
  · intro addrport prepeer found
    obtain ⟨opening, opens, opened⟩ := sound.opened addrport prepeer found
    exact ⟨opening, opens, keep opened⟩
  · intro addrport prepeer found acked
    exact keep (sound.acked addrport prepeer found acked)
  · intro pointer peer found
    obtain ⟨role, met, owns⟩ := sound.met pointer peer found
    exact ⟨role, met.mono more, owns⟩

end Stable

theorem altusHost_sound (key : Memory) (pools : Pools) (here : Address) (log : List Note) :
    Sound key here log (altusHost key pools) where
  key := rfl
  keySize := rfl
  listed := altusHost_listed key pools
  pending := fun _ some => absurd rfl some
  opened := by simp [altusHost]
  acked := by simp [altusHost]
  met := by simp [altusHost]

section Steps

variable {hosted : Address → Prop} {key : Memory} {log : List Note} {here remoteAddr : Address} {host next : Host}
  {buf : Memory} {size : Int} {code : Int} {sent : List Sent} {currentTime : U32} {raw : Raw}

/-- What a completed step shows: its datagrams have their reasons, and the log explains the host after it. -/
def Explained (key : Memory) (log : List Note) (here : Address) (sent : List Sent) (next : Host) : Prop :=
  (∀ message ∈ sent, Reason key log here message.1 message.2) ∧
    Sound key here (log ++ sent.map fun message => .sent here message.1 message.2) next

/-- The tables stay, and one peer changes but keeps its address and its channels. -/
theorem Sound.changePeer (sound : Sound key here log host) {pointer : Ptr} {peer changed : Peer} {role : Role}
    (found : host.peer pointer = some peer) (address : changed.remoteAddr = peer.remoteAddr)
    (met : Met log here peer.remoteAddr role) (owns : changed.HasDirectory role) (pools : Pools) :
    Sound key here log { host with pools := pools, peer := Function.update host.peer pointer (some changed) } where
  key := sound.key
  keySize := sound.keySize
  listed := sound.listed.keeps (ChangesPeer.keeps ⟨peer, changed, pools, found, address, rfl⟩)
  pending := sound.pending
  opened := sound.opened
  acked := sound.acked
  met := by
    intro other current here
    rcases update_eq_some.mp here with ⟨-, rfl⟩ | ⟨-, old⟩
    · exact ⟨role, address ▸ met, owns⟩
    · exact sound.met other current old

/-- What the log explains of a host with a new peer. -/
theorem Sound.newPeer (sound : Sound key here log host) (listed : Listed next) {dst : Peer} {role : Role}
    (met : Met log here dst.remoteAddr role) (owns : dst.HasDirectory role)
    (keys : next.myPublicKey = host.myPublicKey ∧ next.myPublicKeySize = host.myPublicKeySize)
    (fewerC : ∀ addrport, next.cPrePeers addrport ≠ none → host.cPrePeers addrport ≠ none)
    (fewerS : ∀ addrport prepeer, next.sPrePeers addrport = some prepeer → host.sPrePeers addrport = some prepeer)
    (peer : next.peer = Function.update host.peer host.brk (some dst)) : Sound key here log next where
  key := keys.1.trans sound.key
  keySize := keys.2.trans sound.keySize
  listed := listed
  pending := fun addrport some => sound.pending addrport (fewerC addrport some)
  opened := fun addrport prepeer found => sound.opened addrport prepeer (fewerS addrport prepeer found)
  acked := fun addrport prepeer found => sound.acked addrport prepeer (fewerS addrport prepeer found)
  met := by
    intro pointer current found
    rw [peer] at found
    rcases update_eq_some.mp found with ⟨-, rfl⟩ | ⟨-, old⟩
    · exact ⟨role, met, owns⟩
    · exact sound.met pointer current old

/-- The table of the accepted prepeers changes by what it heard. -/
theorem Sound.waits (sound : Sound key here log host) {opening : Datagram} {table : U64 → Option SPrePeer}
    (heard : .sent remoteAddr here opening ∈ log) (header : HasHeader (ofList opening) opening.length)
    (letter : ofList opening 9 = buf 9)
    (entries : ∀ addrport prepeer, table addrport = some prepeer → Comes host remoteAddr buf sent addrport prepeer)
    (listed : Listed { host with sPrePeers := table }) :
    Sound key here (log ++ sent.map fun message => .sent here message.1 message.2)
      { host with sPrePeers := table } where
  key := sound.key
  keySize := sound.keySize
  listed := listed
  pending := fun addrport some => List.mem_append_left _ (sound.pending addrport some)
  opened := by
    intro addrport prepeer found
    rcases entries addrport prepeer found with ⟨old, before, -⟩ | ⟨rfl, ⟨page, named⟩, -⟩
    · obtain ⟨opening, opens, opened⟩ := sound.opened addrport old before
      exact ⟨opening, opens, List.mem_append_left _ opened⟩
    · rw [addressOf_addrToUint64]
      exact ⟨opening, ⟨header, page, letter ▸ named⟩, List.mem_append_left _ heard⟩
  acked := by
    intro addrport prepeer found acked
    rcases entries addrport prepeer found with ⟨old, before, marked⟩ | ⟨-, -, unmarked⟩
    · rcases marked acked with earlier | now
      · exact List.mem_append_left _ (sound.acked addrport old before earlier)
      · exact List.mem_append_right _ (List.mem_map.mpr ⟨_, now, rfl⟩)
    · rw [acked] at unmarked
      cases unmarked
  met := by
    intro pointer peer found
    obtain ⟨role, met, owns⟩ := sound.met pointer peer found
    exact ⟨role, met.mono _, owns⟩

theorem HasHeader.congr {other : Memory} (header : HasHeader buf size) (same : SameBytes size.toNat buf other) :
    HasHeader other size := by
  obtain ⟨whole, name, version⟩ := header
  refine ⟨whole, ?_, ?_⟩
  · rw [← strncmp_congr (fun _ _ => rfl) (same.mono (show 6 ≤ size.toNat by omega))]
    exact name
  · rw [← strncmp_congr (fun _ _ => rfl) ((same.shift 6).mono (show 3 ≤ size.toNat - 6 by omega))]
    exact version

/-- An iteration of `Listener` on a datagram of the log. -/
theorem Sound.handles (sound : Sound key here log host) (listed : Listed next) {datagram : Datagram}
    (heard : .sent remoteAddr here datagram ∈ log) (same : SameBytes datagram.length buf (ofList datagram))
    (handles : Handles host remoteAddr buf datagram.length sent next) : Explained key log here sent next := by
  have quiet {after : Host} (kept : Sound key here log after) : Explained key log here [] after :=
    ⟨by simp, sound_stable key here _ _ _ kept⟩
  have header (whole : HasHeader buf datagram.length) : HasHeader (ofList datagram) datagram.length ∧
      buf 9 = ofList datagram 9 := by
    have size := whole.1
    exact ⟨HasHeader.congr whole (by simpa using same), same 9 (by omega)⟩
  cases handles with
  | ignored => exact quiet sound
  | talked known found processed =>
      rename_i pointer peer changed inner out pools
      obtain ⟨role, met, owns⟩ := sound.met pointer peer found
      obtain ⟨kept, spoken⟩ := owns.processPacket processed
      refine ⟨?_, sound_stable key here _ _ _
        (sound.changePeer found (Peer.processPacket_remoteAddr processed) met kept pools)⟩
      intro message member
      obtain ⟨datagram, sent, rfl⟩ := List.mem_map.mp member
      exact .talk (spoken datagram sent) met
  | refused =>
      apply quiet
      refine { sound with listed := listed, pending := ?_ }
      intro addrport some
      obtain ⟨pointer, present⟩ := Option.ne_none_iff_exists'.mp some
      exact sound.pending addrport (by rw [(erase_eq_some.mp present).2]; exact Option.some_ne_none _)
  | completed pending valid free =>
      have asked := sound.pending (addrToUint64 remoteAddr) (by rw [pending]; exact Option.some_ne_none _)
      rw [addressOf_addrToUint64] at asked
      have replies : Replies datagram := by
        rw [Replies, ← valid, validReply, validReply]
        rw [validReply, Bool.and_eq_true, decide_eq_true_eq] at valid
        rw [strncmp_congr (same.mono (by omega)) fun _ _ => rfl]
      refine ⟨?_, sound_stable key here _ _ _ (sound.newPeer listed (.client asked replies heard)
        (Peer.clientPeer_directory _ _ _ _) ⟨rfl, rfl⟩ ?_ (fun _ _ => id) rfl)⟩
      · intro message member
        obtain rfl := List.mem_singleton.mp member
        exact .finish rfl asked replies heard
      · intro addrport some
        obtain ⟨pointer, present⟩ := Option.ne_none_iff_exists'.mp some
        rw [(erase_eq_some.mp present).2]
        exact Option.some_ne_none _
  | waits whole entries reply =>
      obtain ⟨headed, letter⟩ := header whole
      refine ⟨?_, sound.waits heard headed letter.symm entries listed⟩
      intro message member
      rcases reply with rfl | ⟨rfl, known⟩
      · cases member
      · obtain rfl := List.mem_singleton.mp member
        obtain ⟨prepeer, found⟩ := Option.isSome_iff_exists.mp known
        obtain ⟨opening, opens, opened⟩ := sound.opened _ prepeer found
        rw [addressOf_addrToUint64] at opened
        exact .reply rfl opens opened
  | promoted whole letter found acked free =>
      obtain ⟨headed, same⟩ := header whole
      obtain ⟨opening, opens, opened⟩ := sound.opened _ _ found
      have replied := sound.acked _ _ found acked
      rw [addressOf_addrToUint64] at opened replied
      exact quiet (sound.newPeer listed (.server opens opened replied ⟨headed, same ▸ letter⟩ heard)
        (Peer.serverPeer_directory _ _ _ _) ⟨rfl, rfl⟩ (fun _ => id)
        (fun addrport prepeer found => (erase_eq_some.mp found).2) rfl)

end Steps

end Altus
