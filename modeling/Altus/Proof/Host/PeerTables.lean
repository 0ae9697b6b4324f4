import Altus.Proof.Host.Calls
import Altus.Proof.Host.Run

namespace Altus

open Bytes Tables

/-- The key of an address unpacks to the address. -/
theorem addressOf_addrToUint64 (address : Address) : addressOf (addrToUint64 address) = address := by
  obtain ⟨ip, port⟩ := address
  have ips : ((ip.setWidth 64 <<< 32 ||| port.setWidth 64) >>> 32).setWidth 32 = ip := by
    ext index inside
    have high : port.getLsbD (32 + index) = false := BitVec.getLsbD_of_ge _ _ (by omega)
    simp [inside, high, show 32 + index < 64 by omega, show index < 64 by omega]
  have ports : ((ip.setWidth 64 <<< 32 ||| port.setWidth 64) &&& 0xFFFF#64).setWidth 16 = port := by
    ext index inside
    have ones : (65535#16)[index] = true := by
      rw [show 65535#16 = BitVec.allOnes 16 from rfl, BitVec.getElem_allOnes]
    simp [ones]
  exact congrArg₂ Address.mk ips ports

namespace Host

/-- A number that the search finds is free. -/
theorem searchPeid_free {used : U32 → Option Ptr} {rounds : Nat} {newpeid found : U32}
    (searched : searchPeid used rounds newpeid = some found) : used found = none := by
  induction rounds generalizing newpeid with
  | zero => cases searched
  | succ rounds ih =>
      unfold searchPeid at searched
      split at searched
      · exact ih searched
      · rename_i free
        cases searched
        exact free

/-- The two maps of a host list the same peers, each once, and each peer stands under its address. -/
structure Listed (host : Host) : Prop where
  agree : Agree host.peers host.peidPeer
  named : ∀ addrport pointer, host.peers addrport = some pointer → pointer < host.brk ∧
    ∃ peer, host.peer pointer = some peer ∧ addrToUint64 peer.remoteAddr = addrport

/-- A call keeps both maps and the addresses of the peers. -/
structure KeepsPeers (host next : Host) : Prop where
  peers : next.peers = host.peers
  peids : next.peidPeer = host.peidPeer
  brk : host.brk ≤ next.brk
  addresses : ∀ pointer, (next.peer pointer).map Peer.remoteAddr = (host.peer pointer).map Peer.remoteAddr

theorem KeepsPeers.refl (host : Host) : KeepsPeers host host := ⟨rfl, rfl, le_rfl, fun _ => rfl⟩

/-- A call on one peer keeps the maps and its address. -/
theorem ChangesPeer.keeps {host next : Host} {pointer : Ptr} (changes : ChangesPeer host next pointer) :
    KeepsPeers host next := by
  obtain ⟨peer, changed, pools, here, address, rfl⟩ := changes
  refine ⟨rfl, rfl, le_rfl, fun other => ?_⟩
  dsimp only
  by_cases same : other = pointer
  · subst same
    rw [Function.update_self, here, Option.map_some, Option.map_some, address]
  · rw [Function.update_of_ne same]

/-- A new peer enters both maps under its own address and under a free number. -/
structure Creates (host next : Host) (addrport : U64) (newpeid : U32) : Prop where
  free : host.peers addrport = none
  vacant : host.peidPeer newpeid = none
  peers : next.peers = insert host.peers addrport host.brk
  peids : next.peidPeer = insert host.peidPeer newpeid host.brk
  brk : host.brk < next.brk
  named : ∃ peer, next.peer host.brk = some peer ∧ addrToUint64 peer.remoteAddr = addrport
  others : ∀ pointer, pointer ≠ host.brk → next.peer pointer = host.peer pointer

/-- A step keeps the maps, or a new peer enters them. -/
def Registers (host next : Host) (addrport : U64) : Prop :=
  KeepsPeers host next ∨ ∃ newpeid, Creates host next addrport newpeid

/-- The parts of a host that its peers live in. -/
def peersOf (host : Host) : (U64 → Option Ptr) × (U32 → Option Ptr) × Ptr × (Ptr → Option Peer) :=
  (host.peers, host.peidPeer, host.brk, host.peer)

/-- Changes to other parts of a host do not matter to its peers. -/
theorem Registers.congr {host before after next : Host} {addrport : U64} (registers : Registers before after addrport)
    (start : peersOf before = peersOf host) (finish : peersOf after = peersOf next) :
    Registers host next addrport := by
  simp only [peersOf, Prod.mk.injEq] at start finish
  obtain ⟨peers, peids, brk, objects⟩ := start
  obtain ⟨peers', peids', brk', objects'⟩ := finish
  rcases registers with kept | ⟨newpeid, created⟩
  · left
    constructor
    · rw [← peers', kept.peers, peers]
    · rw [← peids', kept.peids, peids]
    · rw [← brk', ← brk]
      exact kept.brk
    · rw [← objects', ← objects]
      exact kept.addresses
  · right
    refine ⟨newpeid, ?_, ?_, ?_, ?_, ?_, ?_, ?_⟩
    · rw [← peers]
      exact created.free
    · rw [← peids]
      exact created.vacant
    · rw [← peers', created.peers, peers, brk]
    · rw [← peids', created.peids, peids, brk]
    · rw [← brk', ← brk]
      exact created.brk
    · rw [← objects', ← brk]
      exact created.named
    · rw [← objects', ← objects, ← brk]
      exact created.others

section Calls

variable {host next : Host} {addrport : U64} {buf : Memory} {size : Int} {raw : Raw} {code : Int} {sent : List Sent}

theorem register_registers {dst : Peer} (registered : register host addrport dst = .ok next)
    (free : host.peers addrport = none) (named : addrToUint64 dst.remoteAddr = addrport) :
    Registers host next addrport := by
  obtain ⟨newpeid, found, rfl⟩ := register_ok registered
  exact Or.inr ⟨newpeid, free, searchPeid_free found, rfl, rfl, Nat.lt_succ_self _,
    ⟨dst, Function.update_self .., named⟩, fun pointer other => Function.update_of_ne other _ _⟩

theorem prepeerToPeer_registers (packed : addrToUint64 (addressOf addrport) = addrport)
    (completed : host.prepeerToPeer addrport raw = .ok next) : Registers host next addrport := by
  obtain ⟨src, registered, -, free, made, rfl⟩ := prepeerToPeer_ok completed
  exact (register_registers made free packed).congr rfl rfl

theorem accepter_registers {currentTime : U32} (packed : addrToUint64 (addressOf addrport) = addrport)
    (accepted : host.accepter addrport buf size currentTime raw = .ok (code, sent, next)) :
    Registers host next addrport := by
  rcases accepter_promotes accepted with ⟨sPrePeers, rfl⟩ | ⟨before, completed, after, handed, rfl⟩
  · exact Or.inl ⟨rfl, rfl, le_rfl, fun _ => rfl⟩
  · exact (prepeerToPeer_registers packed handed).congr rfl rfl

theorem tryCompleteConnection_registers (packed : addrToUint64 (addressOf addrport) = addrport)
    (completed : host.tryCompleteConnection addrport buf size raw = .ok (code, sent, next)) :
    Registers host next addrport := by
  rcases tryCompleteConnection_ok completed with ⟨-, rfl⟩ | ⟨pointer, -, ⟨-, rfl⟩ | ⟨prepeer, key, -, -, free, made⟩⟩
  · exact Or.inl (.refl _)
  · exact Or.inl ⟨rfl, rfl, le_rfl, fun _ => rfl⟩
  · exact (register_registers made free packed).congr rfl rfl

theorem listener_registers {remoteAddr : Address} {currentTime : U32}
    (listened : host.listener remoteAddr buf size currentTime raw = .ok (code, sent, next)) :
    Registers host next (addrToUint64 remoteAddr) := by
  have packed : addrToUint64 (addressOf (addrToUint64 remoteAddr)) = addrToUint64 remoteAddr := by
    rw [addressOf_addrToUint64]
  rcases listener_cases listened with rfl | ⟨pointer, processed⟩ | ⟨-, -, -, completed⟩ | ⟨-, -, -, accepted⟩
  · exact Or.inl (.refl next)
  · exact Or.inl (processPacket_ok processed).keeps
  · exact tryCompleteConnection_registers packed completed
  · exact accepter_registers packed accepted

theorem sender_keeps {stack : U16 → Fin 16 → Memory}
    (performed : host.sender addrport stack = .ok (code, sent, next)) : KeepsPeers host next := by
  rcases sender_ok performed with rfl | ⟨pointer, changes⟩
  · exact .refl next
  · exact changes.keeps

theorem connect_keeps {ip : U32} {port : U16} {serverkey : Memory} {keylen : Int} {starttime : U32}
    (connected : host.connect ip port serverkey keylen starttime raw = .ok (code, sent, next)) :
    KeepsPeers host next := by
  rcases connect_ok connected with rfl | ⟨newpeer, -, -, -, -, rfl⟩
  · exact .refl next
  · exact ⟨rfl, rfl, Nat.le_succ _, fun _ => rfl⟩

theorem connecter_keeps {entry : Retry} (stepped : host.step (.connecter entry) = .ok (code, sent, next)) :
    KeepsPeers host next := by
  rcases connecter_ok stepped with rfl | ⟨-, after, retried, rfl⟩
  · exact .refl next
  · obtain ⟨prepeer, -, rfl | ⟨-, -, rfl⟩⟩ := retry_ok retried <;> exact ⟨rfl, rfl, le_rfl, fun _ => rfl⟩

end Calls

section Lists

variable {host next : Host} {code : Int} {sent : List Sent}

theorem altusHost_listed (myPublicKey : Memory) (pools : Pools) : Listed (altusHost myPublicKey pools) where
  agree := Agree.empty
  named := fun _ _ impossible => nomatch impossible

theorem Listed.keeps (listed : Listed host) (kept : KeepsPeers host next) : Listed next where
  agree := by
    rw [kept.peers, kept.peids]
    exact listed.agree
  named := by
    intro addrport pointer here
    rw [kept.peers] at here
    obtain ⟨allocated, peer, found, address⟩ := listed.named addrport pointer here
    have same := kept.addresses pointer
    rw [found] at same
    obtain ⟨again, present, equal⟩ := Option.map_eq_some_iff.mp same
    exact ⟨Nat.lt_of_lt_of_le allocated kept.brk, again, present, equal ▸ address⟩

/-- The new peer is under no key before it enters the maps. -/
theorem Listed.fresh (listed : Listed host) (addrport : U64) : host.peers addrport ≠ some host.brk := by
  intro here
  exact Nat.lt_irrefl _ (listed.named addrport host.brk here).1

theorem Listed.creates (listed : Listed host) {addrport : U64} {newpeid : U32}
    (created : Creates host next addrport newpeid) : Listed next where
  agree := by
    rw [created.peers, created.peids]
    exact listed.agree.insert created.free created.vacant listed.fresh
  named := by
    intro other pointer here
    rw [created.peers, insert_eq_some created.free] at here
    rcases here with ⟨rfl, rfl⟩ | before
    · exact ⟨created.brk, created.named⟩
    · obtain ⟨allocated, found⟩ := listed.named other pointer before
      rw [created.others pointer (Nat.ne_of_lt allocated)]
      exact ⟨allocated.trans created.brk, found⟩

/-- What `removePeer` does to the maps. -/
structure Removes (host next : Host) (code : Int) (peid : U32) : Prop where
  unknown : host.peidPeer peid = none → code = -1 ∧ next = host
  known : ∀ pointer, host.peidPeer peid = some pointer → code = 0 ∧ ∃ addrport, host.peers addrport = some pointer ∧
    next.peers = erase host.peers addrport ∧ next.peidPeer = erase host.peidPeer peid

theorem Listed.removes (listed : Listed host) {peid : U32}
    (removed : host.removePeer peid = .ok (code, sent, next)) : Listed next ∧ Removes host next code peid := by
  rcases removePeer_ok removed with ⟨unknown, failed, rfl⟩ | ⟨pointer, peer, pools, known, found, done, rfl⟩
  · refine ⟨listed, fun _ => ⟨failed, rfl⟩, fun pointer impossible => ?_⟩
    rw [unknown] at impossible
    cases impossible
  · obtain ⟨addrport, here⟩ := (listed.agree.same pointer).mpr ⟨peid, known⟩
    obtain ⟨allocated, again, present, rfl⟩ := listed.named addrport pointer here
    obtain rfl := Option.some.inj (found.symm.trans present)
    refine ⟨⟨listed.agree.erase here known, ?_⟩, ?_, ?_⟩
    · intro other left kept
      obtain ⟨apart, before⟩ := erase_eq_some.mp kept
      obtain ⟨below, again, present, address⟩ := listed.named other left before
      refine ⟨below, again, erase_eq_some.mpr ⟨?_, present⟩, address⟩
      rintro rfl
      exact apart (listed.agree.firstOnce other _ left before here)
    · intro impossible
      rw [known] at impossible
      cases impossible
    · intro other named
      obtain rfl := Option.some.inj (known.symm.trans named)
      exact ⟨done, _, here, rfl, rfl⟩

/-- A step keeps what the maps list, but `removePeer` one peer, and a new peer gets a number that was free. -/
def Maintains (host next : Host) (code : Int) : HostStep → Prop
  | .removePeer peid => Removes host next code peid
  | _ =>
      (∀ addrport pointer, host.peers addrport = some pointer → next.peers addrport = some pointer) ∧
      (∀ peid pointer, host.peidPeer peid = some pointer → next.peidPeer peid = some pointer) ∧
      ∀ peid pointer, next.peidPeer peid = some pointer → host.peidPeer peid = some pointer ∨
        host.peidPeer peid = none ∧ ∀ addrport, host.peers addrport ≠ some pointer

theorem KeepsPeers.maintains (kept : KeepsPeers host next) {step : HostStep} (stays : ∀ peid, step ≠ .removePeer peid) :
    Maintains host next code step := by
  cases step with
  | removePeer peid => exact absurd rfl (stays peid)
  | _ =>
      refine ⟨fun addrport pointer here => ?_, fun peid pointer here => ?_, fun peid pointer here => Or.inl ?_⟩
      · rw [kept.peers]
        exact here
      · rw [kept.peids]
        exact here
      · rw [← kept.peids]
        exact here

theorem Listed.maintains (listed : Listed host) {addrport : U64} {newpeid : U32}
    (created : Creates host next addrport newpeid) {step : HostStep} (stays : ∀ peid, step ≠ .removePeer peid) :
    Maintains host next code step := by
  cases step with
  | removePeer peid => exact absurd rfl (stays peid)
  | _ =>
      refine ⟨fun other pointer here => ?_, fun peid pointer here => ?_, fun peid pointer here => ?_⟩
      · rw [created.peers, insert_eq_some created.free]
        exact Or.inr here
      · rw [created.peids, insert_eq_some created.vacant]
        exact Or.inr here
      · rw [created.peids, insert_eq_some created.vacant] at here
        rcases here with ⟨rfl, rfl⟩ | before
        · exact Or.inr ⟨created.vacant, listed.fresh⟩
        · exact Or.inl before

/-- Every completed step keeps the maps in agreement. -/
theorem Listed.step (listed : Listed host) {step : HostStep} (stepped : host.step step = .ok (code, sent, next)) :
    Listed next ∧ Maintains host next code step := by
  have keeps {step : HostStep} (kept : KeepsPeers host next) (stays : ∀ peid, step ≠ .removePeer peid) :
      Listed next ∧ Maintains host next code step := ⟨listed.keeps kept, kept.maintains stays⟩
  cases step with
  | inbound remoteAddr buf recvSize currentTime raw =>
      rcases listener_registers stepped with kept | ⟨newpeid, created⟩
      · exact keeps kept nofun
      · exact ⟨listed.creates created, listed.maintains created nofun⟩
  | connect ip port serverkey keylen starttime raw => exact keeps (connect_keeps stepped) nofun
  | connecter entry => exact keeps (connecter_keeps stepped) nofun
  | removePeer peid => exact listed.removes stepped
  | createUpstream peid cuid buf len =>
      obtain ⟨pointer, changes⟩ := createUpstream_ok stepped
      exact keeps changes.keeps nofun
  | sender addrport stack => exact keeps (sender_keeps stepped) nofun
  | accepting isAccepting =>
      cases stepped
      exact keeps ⟨rfl, rfl, le_rfl, fun _ => rfl⟩ nofun

end Lists

/-- A step that returned. -/
def Completes (host next : Host) : Prop := ∃ step code sent, host.step step = .ok (code, sent, next)

/-- In every run of completed steps both maps list the same peers, each peer under its address, and every next step
keeps what they list up to the peer that it creates or removes. -/
theorem run_listed {myPublicKey : Memory} {pools : Pools} {host : Host}
    (run : Relation.ReflTransGen Completes (altusHost myPublicKey pools) host) :
    Listed host ∧ ∀ step code sent next, host.step step = .ok (code, sent, next) → Maintains host next code step := by
  have listed : Listed host := by
    induction run with
    | refl => exact altusHost_listed myPublicKey pools
    | tail _ last ih =>
        obtain ⟨step, code, sent, stepped⟩ := last
        exact (ih.step stepped).1
  exact ⟨listed, fun step code sent next stepped => (listed.step stepped).2⟩

/-- A valid reply makes the first peer. -/
theorem run_listed_connected : ∃ host, Listed host ∧ host.peers (addrToUint64 ⟨1, 512⟩) = host.peidPeer 1 ∧
    host.peidPeer 1 = some 1 := by
  have run : Relation.ReflTransGen Completes blank _ :=
    .tail (.tail .refl ⟨.connect 1 2 (fun _ => 0) 0 0 blankRaw, _, _, rfl⟩)
      ⟨.inbound ⟨1, 512⟩ (ofList (ascii "ALTUS/1.0Y")) 44 0 blankRaw, _, _, rfl⟩
  exact ⟨_, (run_listed run).1, rfl, rfl⟩

end Host

end Altus
