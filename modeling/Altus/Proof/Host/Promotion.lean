import Altus.Proof.Host.Handshake
import Altus.Proof.Host.Run

namespace Altus.Host

open Bytes Tables

/-- A host after completed steps, and everything that it sent. -/
inductive Reaches (start : Host) : List Sent → Host → Prop where
  | start : Reaches start [] start
  | step {log sent : List Sent} {host next : Host} {step : HostStep} {code : Int} :
      Reaches start log host → host.step step = .ok (code, sent, next) → Reaches start (log ++ sent) next

/-- `prepeerToPeer` may be called: the prepeer is there, its acknowledgement was sent, and no peer has its address. -/
structure Ready (log : List Sent) (host : Host) (addrport : U64) : Prop where
  acknowledged : ∃ prepeer, host.sPrePeers addrport = some prepeer ∧ prepeer.isAckSent = true
  logged : (addressOf addrport, ackDatagram) ∈ log
  free : host.peers addrport = none

/-- The functions of the code with another promotion. -/
def promoting (promote : Host → U64 → Raw → Except Fault Host) : Callees := ⟨promote, Block.copy, Block.wipe⟩

/-- The datagram calls no promotion, or it calls one that may be called, finds its prepeer and no other peer, and
leaves no prepeer behind. -/
def PromotesReady (log : List Sent) (host : Host) (remoteAddr : Address) (buf : Memory) (recvSize : Int)
    (currentTime : U32) (raw : Raw) : Prop :=
  (∃ answer, ∀ promote, host.listener remoteAddr buf recvSize currentTime raw (promoting promote) = answer) ∨
    ∃ ready, Ready log ready (addrToUint64 remoteAddr) ∧
      (∀ promote, host.listener remoteAddr buf recvSize currentTime raw (promoting promote) =
        (promote ready (addrToUint64 remoteAddr) raw).map fun next => (0, [], next)) ∧
      (∀ fault, ready.prepeerToPeer (addrToUint64 remoteAddr) raw = .error fault → fault = .unfinished) ∧
      ∀ next, ready.prepeerToPeer (addrToUint64 remoteAddr) raw = .ok next →
        next.sPrePeers (addrToUint64 remoteAddr) = none

/-- The first datagram of a handshake holds the whole key. -/
structure OnePage (host : Host) (remoteAddr : Address) (buf : Memory) (recvSize : Int) (currentTime : U32) : Prop where
  listens : host.Listens remoteAddr
  header : HasHeader buf recvSize
  first : ∃ middle, host.dropTimedOut (addrToUint64 remoteAddr) currentTime = .ok middle ∧
    middle.sPrePeers (addrToUint64 remoteAddr) = none
  page : buf 9 = 65
  large : ¬ ntohs buf 10 < 128#16
  whole : ((ntohs buf 10).toNat : Int) = recvSize - 12

section Runs

variable {host : Host} {log : List Sent}

/-- A prepeer is only marked as acknowledged when its acknowledgement was sent. -/
theorem Reaches.acked {myPublicKey : Memory} {pools : Pools} (run : Reaches (altusHost myPublicKey pools) log host)
    {addrport : U64} {prepeer : SPrePeer} (here : host.sPrePeers addrport = some prepeer)
    (marked : prepeer.isAckSent = true) : (addressOf addrport, ackDatagram) ∈ log := by
  induction run generalizing prepeer with
  | start => cases here
  | step before stepped ih =>
      cases step_entry stepped here with
      | kept old found _ acked =>
          rcases acked marked with earlier | now
          · exact List.mem_append_left _ (ih found earlier)
          · exact List.mem_append_right _ now
      | made _ _ _ _ _ _ waits =>
          rw [waits] at marked
          cases marked

end Runs

section Promotion

variable {host ready : Host} {log : List Sent} {addrport : U64} {remoteAddr : Address} {buf : Memory} {recvSize : Int}
  {currentTime : U32} {raw : Raw}

/-- A promotion that may be called neither follows the end of a map nor meets a collision. -/
theorem Ready.prepeerToPeer_error (may : Ready log ready addrport) {fault : Fault}
    (failed : ready.prepeerToPeer addrport raw = .error fault) : fault = .unfinished := by
  obtain ⟨prepeer, here, -⟩ := may.acknowledged
  unfold prepeerToPeer at failed
  rw [here, may.free] at failed
  simp only [Option.isSome_none, Bool.false_eq_true, if_false] at failed
  unfold register at failed
  dsimp only at failed
  split at failed
  · exact (Except.error.inj failed).symm
  · cases failed

theorem prepeerToPeer_gone {next : Host} (completed : host.prepeerToPeer addrport raw = .ok next) :
    next.sPrePeers addrport = none := by
  obtain ⟨src, registered, -, -, -, rfl⟩ := prepeerToPeer_ok completed
  exact erase_self

/-- A first datagram that does not hold the whole key calls no promotion. -/
theorem acceptFirst_promoting
    (partly : ¬ (¬ ntohs buf 10 < 128#16 ∧ buf 9 = 65 ∧ ((ntohs buf 10).toNat : Int) = recvSize - 12))
    (promote other : Host → U64 → Raw → Except Fault Host) :
    host.acceptFirst addrport buf recvSize currentTime raw (promoting promote) =
      host.acceptFirst addrport buf recvSize currentTime raw (promoting other) := by
  rw [acceptFirst, acceptFirst]
  dsimp only
  split
  · rfl
  rename_i large
  split
  · rfl
  · rename_i page named
    have never : ¬ (page = .a ∧ ((ntohs buf 10).toNat : Int) = recvSize - 12) := by
      rintro ⟨rfl, whole⟩
      exact partly ⟨large, Page.ofByte_a named, whole⟩
    simp only [if_neg never]
    rfl

/-- A later datagram calls no promotion, or a promotion on its own host. -/
theorem acceptLater_promoting {peer : SPrePeer} :
    (∃ answer, ∀ promote, host.acceptLater addrport peer buf recvSize raw (promoting promote) = answer) ∨
      peer.isAckSent = true ∧ ∀ promote, host.acceptLater addrport peer buf recvSize raw (promoting promote) =
        (promote host addrport raw).map fun next => (0, [], next) := by
  cases kept : storeLater peer buf recvSize with
  | error fault =>
      left
      refine ⟨.error fault, fun promote => ?_⟩
      rw [acceptLater, show storeLater peer buf recvSize (promoting promote).copy = .error fault from kept]
      rfl
  | ok stored =>
      have step (promote : Host → U64 → Raw → Except Fault Host) :
          host.acceptLater addrport peer buf recvSize raw (promoting promote) =
            if buf 9 = 90 ∧ stored.isAckSent then (promote host addrport raw).map fun next => (0, [], next)
            else if ackDue stored then sendAck host addrport stored
            else .ok (0, [], { host with sPrePeers := Function.update host.sPrePeers addrport (some stored) }) := by
        rw [acceptLater, show storeLater peer buf recvSize (promoting promote).copy = .ok stored from kept]
        rfl
      by_cases done : buf 9 = 90 ∧ stored.isAckSent = true
      · right
        refine ⟨(storeLater_ok kept).2 ▸ done.2, fun promote => ?_⟩
        rw [step, if_pos done]
      · left
        refine ⟨host.acceptLater addrport peer buf recvSize raw, fun promote => ?_⟩
        rw [step, if_neg done]
        exact ((step prepeerToPeer).trans (if_neg done)).symm

/-- The only page of a key is promoted before its prepeer is in the table. -/
theorem OnePage.promotes (onePage : host.OnePage remoteAddr buf recvSize currentTime) (short : recvSize ≤ 496) :
    ∃ middle change, middle.sPrePeers (addrToUint64 remoteAddr) = none ∧
      ∀ promote, host.listener remoteAddr buf recvSize currentTime raw (promoting promote) =
        (promote middle (addrToUint64 remoteAddr) raw).map change := by
  obtain ⟨middle, dropped, gone⟩ := onePage.first
  have whole := onePage.header.1
  obtain ⟨newpeer, stored⟩ := @store_fits .a (recvSize - 12)
    { SPrePeer.sPrePeer currentTime raw with keySize := ntohs buf 10 } (shift buf 12) (by omega)
    (Or.inr (show ((0 : Nat) : Int) + (recvSize - 12) ≤ (700 : Nat) by omega))
  refine ⟨middle, fun next => (1, [], { next with
    sPrePeers := insert next.sPrePeers (addrToUint64 remoteAddr) newpeer }), gone, fun promote => ?_⟩
  rw [listener_first onePage.listens onePage.header dropped gone]
  rw [acceptFirst, if_neg onePage.large, onePage.page]
  show ((SPrePeer.store _ .a (shift buf 12) (recvSize - 12)).bind _) = _
  rw [stored]
  show Except.map _ (if _ then _ else _) = _
  rw [if_pos ⟨rfl, onePage.whole⟩]
  rfl

theorem OnePage.not_promotesReady (onePage : host.OnePage remoteAddr buf recvSize currentTime)
    (short : recvSize ≤ 496) : ¬ host.PromotesReady log remoteAddr buf recvSize currentTime raw := by
  obtain ⟨middle, change, gone, promotes⟩ := @OnePage.promotes host remoteAddr buf recvSize currentTime raw onePage short
  rintro (⟨answer, constant⟩ | ⟨ready, may, only, -⟩)
  · have one := (promotes fun _ _ _ => .error .exit).symm.trans (constant _)
    have two := (promotes fun _ _ _ => .error .unfinished).symm.trans (constant _)
    cases one.trans two.symm
  · -- A promotion that tells whether its prepeer is there tells the two hosts apart.
    obtain ⟨prepeer, here, -⟩ := may.acknowledged
    have same := (promotes fun host addrport _ =>
      .error (if (host.sPrePeers addrport).isSome then .exit else .unfinished)).symm.trans (only _)
    rw [gone, here] at same
    cases same

/-- Every promotion that the listener calls may be called, unless the datagram is the only page of a key. -/
theorem run_promotesReady_iff {myPublicKey : Memory} {pools : Pools}
    (run : Reaches (altusHost myPublicKey pools) log host) (remoteAddr : Address) (buf : Memory) (recvSize : Int)
    (currentTime : U32) (raw : Raw) (short : recvSize ≤ 496) :
    host.PromotesReady log remoteAddr buf recvSize currentTime raw ↔
      ¬ host.OnePage remoteAddr buf recvSize currentTime := by
  constructor
  · exact fun ready onePage => onePage.not_promotesReady short ready
  intro partly
  by_cases reached : host.Listens remoteAddr ∧ HasHeader buf recvSize
  swap
  · exact Or.inl ⟨_, fun promote => listener_unreached reached (promoting promote) (promoting prepeerToPeer)⟩
  cases dropped : host.dropTimedOut (addrToUint64 remoteAddr) currentTime with
  | error fault =>
      left
      refine ⟨.error fault, fun promote => ?_⟩
      rw [listener_reached reached.1 reached.2, show host.dropTimedOut _ _ (promoting promote).wipe = _ from dropped]
      rfl
  | ok middle =>
      cases here : middle.sPrePeers (addrToUint64 remoteAddr) with
      | none =>
          have notWhole : ¬ (¬ ntohs buf 10 < 128#16 ∧ buf 9 = 65 ∧ ((ntohs buf 10).toNat : Int) = recvSize - 12) :=
            fun holds => partly ⟨reached.1, reached.2, ⟨middle, dropped, here⟩, holds.2.1, holds.1, holds.2.2⟩
          left
          refine ⟨middle.acceptFirst (addrToUint64 remoteAddr) buf recvSize currentTime raw, fun promote => ?_⟩
          rw [listener_first reached.1 reached.2 dropped here]
          exact acceptFirst_promoting notWhole promote prepeerToPeer
      | some peer =>
          rcases @acceptLater_promoting middle (addrToUint64 remoteAddr) buf recvSize raw peer with
            ⟨answer, constant⟩ | ⟨marked, promotes⟩
          · refine Or.inl ⟨answer, fun promote => ?_⟩
            rw [listener_later reached.1 reached.2 dropped here]
            exact constant promote
          · have may : Ready log middle (addrToUint64 remoteAddr) := by
              refine ⟨⟨peer, here, marked⟩, run.acked (dropTimedOut_entry dropped here) marked, ?_⟩
              obtain ⟨sPrePeers, rfl⟩ := dropTimedOut_ok dropped
              exact reached.1.1
            refine Or.inr ⟨middle, may, fun promote => ?_, fun fault => may.prepeerToPeer_error,
              fun next => prepeerToPeer_gone⟩
            rw [listener_later reached.1 reached.2 dropped here]
            exact promotes promote

end Promotion

/-- The host after a datagram of one address. -/
def afterPage (host : Host) (buf : Memory) (recvSize : Int) : Host :=
  match host.step (.inbound ⟨1, 512⟩ buf recvSize 0 blankRaw) with
  | .ok (_, _, next) => next
  | .error _ => host

/-- The host after the first of two pages, and after both. -/
def firstPage : Host := afterPage blank (handshakeOf 65 700) 496

def bothPages : Host := afterPage firstPage (handshakeOf 66 700) 228

theorem bothPages_reached : Reaches blank [(⟨1, 512⟩, ackDatagram)] bothPages := by
  have first : blank.step (.inbound ⟨1, 512⟩ (handshakeOf 65 700) 496 0 blankRaw) = .ok (1, [], firstPage) := rfl
  have second : firstPage.step (.inbound ⟨1, 512⟩ (handshakeOf 66 700) 228 0 blankRaw) =
      .ok (0, [(⟨1, 512⟩, ackDatagram)], bothPages) := rfl
  exact .step (.step .start first) second

/-- The last datagram of the handshake promotes its prepeer. -/
theorem run_promotesReady_iff_done :
    bothPages.PromotesReady [(⟨1, 512⟩, ackDatagram)] ⟨1, 512⟩ (handshakeOf 90 0) 12 0 blankRaw := by
  refine (run_promotesReady_iff bothPages_reached ⟨1, 512⟩ (handshakeOf 90 0) 12 0 blankRaw (by decide)).mpr ?_
  intro onePage
  exact absurd onePage.page (by decide)

/-- The only page of a key of 128 bytes makes `prepeerToPeer` follow the end of `s_prepeers`. -/
theorem onePage_endDereference :
    blank.step (.inbound ⟨1, 512⟩ (handshakeOf 65 128) 140 0 blankRaw) = .error .endDereference ∧
      ¬ blank.PromotesReady [] ⟨1, 512⟩ (handshakeOf 65 128) 140 0 blankRaw := by
  refine ⟨rfl, OnePage.not_promotesReady ?_ (by decide)⟩
  exact ⟨by decide, by decide, ⟨blank, rfl, rfl⟩, by decide, by decide, by decide⟩

end Altus.Host
