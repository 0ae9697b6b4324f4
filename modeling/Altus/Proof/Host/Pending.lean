import Altus.Proof.Host.Attempts
import Altus.Proof.Host.OwnBytes

namespace Altus.Host

open Bytes Tables

/-- Every queued attempt that is not marked is in the table under its address. -/
def Pending (host : Host) : Prop :=
  ∀ entry ∈ host.retryQueue, ∃ prepeer, host.cPrePeer entry.2 = some prepeer ∧
    (prepeer.expired = false → host.cPrePeers (addrToUint64 prepeer.remoteAddr) = some entry.2)

/-- A well-formed acknowledgement of a handshake: the twelve bytes of its header, and a session key. -/
def IsAck (buf : Memory) (recvSize : Int) : Prop := recvSize = 44 ∧ read buf 12 = ascii "ALTUS/1.0Y" ++ [0, 0]

instance (buf : Memory) (recvSize : Int) : Decidable (IsAck buf recvSize) := inferInstanceAs (Decidable (_ ∧ _))

/-- `TryCompleteConnection` takes every well-formed acknowledgement. -/
theorem IsAck.valid {buf : Memory} {recvSize : Int} (ack : IsAck buf recvSize) : validReply buf recvSize = true := by
  obtain ⟨rfl, header⟩ := ack
  have size : (ascii "ALTUS/1.0Y" ++ [0, 0]).length = 12 := by decide
  have same := sameBytes_of_read (by rw [size]; exact header)
  rw [size] at same
  rw [validReply, strncmp_congr same fun _ _ => rfl]
  decide

/-- A datagram that is no acknowledgement is dismissed by a call that returns. -/
def Dismisses (host : Host) : HostStep → Prop
  | .inbound remoteAddr buf recvSize currentTime raw =>
      host.peers (addrToUint64 remoteAddr) = none → (host.cPrePeers (addrToUint64 remoteAddr)).isSome →
        ¬ IsAck buf recvSize → ∃ answer, host.step (.inbound remoteAddr buf recvSize currentTime raw) = .ok answer
  | _ => True

/-- A datagram that is no acknowledgement leaves the tables as they are, and the end of an attempt removes no other
one. -/
def Spares (host next : Host) : HostStep → Prop
  | .inbound remoteAddr buf recvSize _ _ =>
      (host.cPrePeers (addrToUint64 remoteAddr)).isSome → ¬ IsAck buf recvSize →
        next.cPrePeers = host.cPrePeers ∧ next.peers = host.peers ∧ next.peidPeer = host.peidPeer
  | .connecter entry =>
      ∀ addrport pointer, host.cPrePeers addrport = some pointer → pointer ≠ entry.2 →
        next.cPrePeers addrport = some pointer
  | _ => True

/-- Attempts survive every step of a run until they are answered or expire. -/
def Survives (host : Host) : List HostStep → Prop
  | [] => Pending host
  | step :: rest =>
      Pending host ∧ Dismisses host step ∧ ∀ code sent next, host.step step = .ok (code, sent, next) →
        Spares host next step ∧ next.Survives rest

/-- A datagram from the address of an attempt, where no peer is yet, is a well-formed acknowledgement. -/
def Answers (host : Host) : HostStep → Prop
  | .inbound remoteAddr buf recvSize _ _ =>
      host.peers (addrToUint64 remoteAddr) = none → (host.cPrePeers (addrToUint64 remoteAddr)).isSome →
        recvSize ≠ -1 → IsAck buf recvSize
  | _ => True

/-- Every step of a run answers the attempts it meets. -/
def RunAnswers (host : Host) : List HostStep → Prop
  | [] => True
  | step :: rest =>
      Answers host step ∧ ∀ code sent next, host.step step = .ok (code, sent, next) → next.RunAnswers rest

/-- What the steps of a host keep while every reply is an acknowledgement. -/
structure Attempted (host : Host) : Prop where
  allocated : ∀ pointer prepeer, host.cPrePeer pointer = some prepeer → pointer < host.brk
  queued : ∀ entry ∈ host.retryQueue, ∃ prepeer, host.cPrePeer entry.2 = some prepeer ∧
    entry ∈ turns prepeer.starttime.toNat entry.2 ∧
    (prepeer.expired = false → host.cPrePeers (addrToUint64 prepeer.remoteAddr) = some entry.2)
  distinct : host.retryQueue.Nodup

theorem Attempted.pending {host : Host} (attempted : Attempted host) : Pending host := by
  intro entry member
  obtain ⟨prepeer, here, -, mapped⟩ := attempted.queued entry member
  exact ⟨prepeer, here, mapped⟩

theorem altusHost_attempted (myPublicKey : Memory) (pools : Pools) : Attempted (altusHost myPublicKey pools) where
  allocated := fun _ _ impossible => nomatch impossible
  queued := fun _ impossible => nomatch impossible
  distinct := List.nodup_nil

section Steps

variable {host next : Host} {code : Int} {sent : List Sent}

theorem Attempted.of_same (attempted : Attempted host) (same : SameAttempts host next) : Attempted next where
  allocated := by
    intro pointer prepeer here
    rw [same.objects] at here
    exact Nat.lt_of_lt_of_le (attempted.allocated pointer prepeer here) same.brk
  queued := by
    rw [same.queue, same.objects, same.table]
    exact attempted.queued
  distinct := by
    rw [same.queue]
    exact attempted.distinct

/-- A valid reply marks its attempt when it removes it from the table. -/
theorem Attempted.mark (attempted : Attempted host) {addrport : U64} {pointer : Ptr} {prepeer marked : CPrePeer}
    {pools : Pools} (pending : host.cPrePeers addrport = some pointer) (here : host.cPrePeer pointer = some prepeer)
    (start : marked.starttime = prepeer.starttime) (expired : marked.expired = true) :
    Attempted { host with
      cPrePeers := erase host.cPrePeers addrport
      cPrePeer := Function.update host.cPrePeer pointer (some marked)
      pools := pools } where
  allocated := by
    intro other left found
    by_cases same : other = pointer
    · rw [same]
      exact attempted.allocated pointer prepeer here
    · exact attempted.allocated other left ((Function.update_of_ne same _ _).symm.trans found)
  queued := by
    intro entry member
    obtain ⟨left, found, round, mapped⟩ := attempted.queued entry member
    by_cases same : entry.2 = pointer
    · obtain rfl := Option.some.inj (here.symm.trans (same ▸ found))
      refine ⟨marked, ?_, ?_, ?_⟩
      · dsimp only
        rw [same, Function.update_self]
      · rw [start]
        exact round
      · intro unmarked
        rw [expired] at unmarked
        cases unmarked
    · refine ⟨left, (Function.update_of_ne same _ _).trans found, round, fun unmarked => ?_⟩
      have kept := mapped unmarked
      refine (erase_other fun equal => same ?_).trans kept
      rw [equal, pending] at kept
      exact (Option.some.inj kept).symm
  distinct := attempted.distinct

theorem Attempted.listener (attempted : Attempted host) {remoteAddr : Address} {buf : Memory} {recvSize : Int}
    {currentTime : U32} {raw : Raw}
    (answers : Answers host (.inbound remoteAddr buf recvSize currentTime raw))
    (listened : host.listener remoteAddr buf recvSize currentTime raw = .ok (code, sent, next)) : Attempted next := by
  rcases listener_ok listened with same | ⟨received, free, pending, completed⟩
  · exact attempted.of_same same
  have valid := (answers free pending received).valid
  rcases tryCompleteConnection_ok completed with ⟨-, rfl⟩ | ⟨pointer, mapped, ⟨invalid, -⟩ | ⟨prepeer, key, -, here, -, made⟩⟩
  · exact attempted
  · rw [valid] at invalid
    cases invalid
  · refine Attempted.of_same ?_ (register_sameAttempts made)
    exact attempted.mark mapped here rfl rfl

theorem Attempted.connect (attempted : Attempted host) {ip : U32} {port : U16} {serverkey : Memory} {keylen : Int}
    {starttime : U32} {raw : Raw}
    (connected : host.connect ip port serverkey keylen starttime raw = .ok (code, sent, next)) : Attempted next := by
  rcases connect_ok connected with rfl | ⟨newpeer, -, start, -, free, rfl⟩
  · exact attempted
  have entries : [(starttime + 1500, host.brk), (starttime + 3000, host.brk), (starttime + 4500, host.brk)] =
      turns starttime.toNat host.brk := by
    simp only [turns, turn, BitVec.ofNat_add, Serial.ofNat_toNat]
    rfl
  have known {entry : Retry} (member : entry ∈ host.retryQueue) : entry.2 ≠ host.brk := by
    obtain ⟨prepeer, here, -⟩ := attempted.queued entry member
    exact Nat.ne_of_lt (attempted.allocated _ _ here)
  have new {entry : Retry} (member : entry ∈ turns starttime.toNat host.brk) : entry.2 = host.brk := by
    obtain ⟨round, -, -, rfl⟩ := mem_turns.mp member
    rfl
  rw [entries]
  constructor
  · intro pointer prepeer here
    by_cases same : pointer = host.brk
    · rw [same]
      exact Nat.lt_succ_self _
    · have before := (Function.update_of_ne same _ _).symm.trans here
      exact Nat.lt_succ_of_lt (attempted.allocated pointer prepeer before)
  · intro entry member
    dsimp only
    rcases List.mem_append.mp member with before | after
    · obtain ⟨prepeer, here, round, mapped⟩ := attempted.queued entry before
      refine ⟨prepeer, (Function.update_of_ne (known before) _ _).trans here, round, fun unmarked => ?_⟩
      exact (insert_eq_some free).mpr (Or.inr (mapped unmarked))
    · refine ⟨newpeer, ?_, ?_, fun _ => ?_⟩
      · rw [new after, Function.update_self]
      · rw [start, new after]
        exact after
      · rw [new after]
        exact insert_self free
  · apply attempted.distinct.append (turns_nodup _ _)
    intro entry before after
    exact known before (new after)

theorem Attempted.pop (attempted : Attempted host) (entry : Retry) : Attempted (host.popRetry entry) where
  allocated := attempted.allocated
  queued := fun other member => attempted.queued other (List.mem_of_mem_erase member)
  distinct := attempted.distinct.erase entry

/-- The end of an attempt leaves no entry of it behind, and it only removes its own place in the table. -/
theorem Attempted.expire (attempted : Attempted host) {entry : Retry} {prepeer : CPrePeer}
    (top : IsTop host.retryQueue entry) (here : host.cPrePeer entry.2 = some prepeer)
    (unmarked : prepeer.expired = false) (old : 4500 ≤ (entry.1 - prepeer.starttime).toInt) :
    Attempted (Host.popRetry { host with
        cPrePeers := erase host.cPrePeers (addrToUint64 prepeer.remoteAddr)
        cPrePeer := erase host.cPrePeer entry.2 } entry) ∧
      ∀ addrport pointer, host.cPrePeers addrport = some pointer → pointer ≠ entry.2 →
        erase host.cPrePeers (addrToUint64 prepeer.remoteAddr) addrport = some pointer := by
  have own {other : Retry} (member : other ∈ host.retryQueue) (same : other.2 = entry.2) :
      ∃ round, 1 ≤ round ∧ round ≤ 3 ∧ other = turn prepeer.starttime.toNat entry.2 round := by
    obtain ⟨left, found, round, -⟩ := attempted.queued other member
    rw [same] at found round
    obtain rfl := Option.some.inj (here.symm.trans found)
    exact mem_turns.mp round
  have mapped : host.cPrePeers (addrToUint64 prepeer.remoteAddr) = some entry.2 := by
    obtain ⟨left, found, -, mapped⟩ := attempted.queued entry top.1
    obtain rfl := Option.some.inj (here.symm.trans found)
    exact mapped unmarked
  have spares (addrport : U64) (pointer : Ptr) (kept : host.cPrePeers addrport = some pointer)
      (apart : pointer ≠ entry.2) :
      erase host.cPrePeers (addrToUint64 prepeer.remoteAddr) addrport = some pointer := by
    refine erase_eq_some.mpr ⟨?_, kept⟩
    rintro rfl
    exact apart (Option.some.inj (kept.symm.trans mapped))
  obtain ⟨last, -, few, named⟩ := own top.1 rfl
  obtain rfl : last = 3 := by
    apply turn_expires few
    rw [← named, Serial.ofNat_toNat]
    exact old
  have gone {other : Retry} (member : other ∈ host.retryQueue.erase entry) : other.2 ≠ entry.2 := by
    intro same
    obtain ⟨round, -, less, alike⟩ := own (List.mem_of_mem_erase member) same
    have first : IsTop host.retryQueue (turn prepeer.starttime.toNat entry.2 3) := named ▸ top
    have least := turn_le_of_isTop first le_rfl (alike ▸ List.mem_of_mem_erase member)
    obtain rfl : round = 3 := by omega
    exact attempted.distinct.not_mem_erase ((alike.trans named.symm) ▸ member)
  refine ⟨⟨?_, ?_, attempted.distinct.erase entry⟩, spares⟩
  · intro pointer left found
    exact attempted.allocated pointer left (erase_eq_some.mp found).2
  · intro other member
    change other ∈ host.retryQueue.erase entry at member
    obtain ⟨left, found, round, listed⟩ := attempted.queued other (List.mem_of_mem_erase member)
    dsimp only [Host.popRetry]
    rw [erase_other (gone member)]
    exact ⟨left, found, round, fun unmarked => spares _ _ (listed unmarked) (gone member)⟩

theorem Attempted.connecter (attempted : Attempted host) {entry : Retry}
    (stepped : host.step (.connecter entry) = .ok (code, sent, next)) :
    Attempted next ∧ Spares host next (.connecter entry) := by
  rcases connecter_ok stepped with rfl | ⟨top, after, retried, rfl⟩
  · exact ⟨attempted, fun _ _ kept _ => kept⟩
  · obtain ⟨prepeer, here, rfl | ⟨unmarked, old, rfl⟩⟩ := retry_ok retried
    · exact ⟨attempted.pop entry, fun _ _ kept _ => kept⟩
    · exact attempted.expire top here unmarked old

/-- A datagram from the address of an attempt, where no peer is, reaches `TryCompleteConnection`. -/
theorem listener_completes {remoteAddr : Address} {buf : Memory} {recvSize : Int} {currentTime : U32} {raw : Raw}
    (received : recvSize ≠ -1) (free : host.peers (addrToUint64 remoteAddr) = none)
    (pending : (host.cPrePeers (addrToUint64 remoteAddr)).isSome) :
    host.listener remoteAddr buf recvSize currentTime raw =
      host.tryCompleteConnection (addrToUint64 remoteAddr) buf recvSize raw := by
  obtain ⟨pointer, mapped⟩ := Option.isSome_iff_exists.mp pending
  unfold Host.listener
  simp only [if_neg received, free, mapped]

/-- `TryCompleteConnection` leaves no attempt at its address. -/
theorem tryCompleteConnection_removes {addrport : U64} {buf : Memory} {size : Int} {raw : Raw}
    (pending : (host.cPrePeers addrport).isSome)
    (completed : host.tryCompleteConnection addrport buf size raw = .ok (code, sent, next)) :
    next.cPrePeers addrport = none := by
  rcases tryCompleteConnection_ok completed with ⟨none, -⟩ | ⟨pointer, mapped, ⟨-, rfl⟩ | ⟨prepeer, key, -, -, -, made⟩⟩
  · rw [none] at pending
    cases pending
  · exact erase_self
  · rw [(register_sameAttempts made).table]
    exact erase_self

/-- While every reply is an acknowledgement, a datagram that is none meets a peer. -/
theorem Answers.spares {remoteAddr : Address} {buf : Memory} {recvSize : Int} {currentTime : U32} {raw : Raw}
    (answers : Answers host (.inbound remoteAddr buf recvSize currentTime raw))
    (listened : host.listener remoteAddr buf recvSize currentTime raw = .ok (code, sent, next)) :
    Spares host next (.inbound remoteAddr buf recvSize currentTime raw) := by
  intro pending other
  rcases listener_cases listened with rfl | ⟨pointer, processed⟩ | ⟨received, free, -, -⟩ | ⟨-, gone, -, -⟩
  · exact ⟨rfl, rfl, rfl⟩
  · obtain ⟨peer, changed, pools, -, -, rfl⟩ := processPacket_ok processed
    exact ⟨rfl, rfl, rfl⟩
  · exact absurd (answers free pending received) other
  · rw [gone] at pending
    cases pending

theorem Answers.dismisses {step : HostStep} (answers : Answers host step) : Dismisses host step := by
  cases step with
  | inbound remoteAddr buf recvSize currentTime raw =>
      intro free pending other
      by_cases nothing : recvSize = -1
      · exact ⟨_, if_pos nothing⟩
      · exact absurd (answers free pending nothing) other
  | connect | connecter | removePeer | createUpstream | sender | accepting => trivial

theorem Attempted.step (attempted : Attempted host) {step : HostStep}
    (stepped : host.step step = .ok (code, sent, next)) (answers : Answers host step) :
    Attempted next ∧ Spares host next step := by
  cases step with
  | inbound remoteAddr buf recvSize currentTime raw =>
      exact ⟨attempted.listener answers stepped, answers.spares stepped⟩
  | connect ip port serverkey keylen starttime raw => exact ⟨attempted.connect stepped, trivial⟩
  | connecter entry => exact attempted.connecter stepped
  | removePeer peid => exact ⟨attempted.of_same (removePeer_sameAttempts stepped), trivial⟩
  | createUpstream peid cuid buf len =>
      obtain ⟨pointer, changes⟩ := createUpstream_ok stepped
      exact ⟨attempted.of_same changes.sameAttempts, trivial⟩
  | sender addrport stack => exact ⟨attempted.of_same (sender_sameAttempts stepped), trivial⟩
  | accepting isAccepting =>
      cases stepped
      exact ⟨attempted.of_same ⟨rfl, rfl, rfl, le_rfl⟩, trivial⟩

/-- A datagram that is no acknowledgement, and meets no peer, takes the attempt at its address with it. -/
theorem answers_of_spares {step : HostStep} (dismisses : Dismisses host step)
    (spares : ∀ code sent next, host.step step = .ok (code, sent, next) → Spares host next step) :
    Answers host step := by
  cases step with
  | inbound remoteAddr buf recvSize currentTime raw =>
      intro free pending received
      by_contra other
      obtain ⟨⟨code, sent, next⟩, returned⟩ := dismisses free pending other
      have kept := (spares code sent next returned pending other).1
      have gone := tryCompleteConnection_removes pending ((listener_completes received free pending).symm.trans returned)
      rw [kept] at gone
      rw [gone] at pending
      cases pending
  | connect | connecter | removePeer | createUpstream | sender | accepting => trivial

end Steps

theorem Attempted.survives_iff {host : Host} (attempted : Attempted host) {steps : List HostStep} :
    host.Survives steps ↔ host.RunAnswers steps := by
  induction steps generalizing host with
  | nil => exact ⟨fun _ => trivial, fun _ => attempted.pending⟩
  | cons step rest ih =>
      constructor
      · rintro ⟨-, dismisses, later⟩
        have answers := answers_of_spares dismisses fun code sent next stepped => (later code sent next stepped).1
        refine ⟨answers, fun code sent next stepped => ?_⟩
        exact (ih (attempted.step stepped answers).1).mp (later code sent next stepped).2
      · rintro ⟨answers, later⟩
        refine ⟨attempted.pending, answers.dismisses, fun code sent next stepped => ?_⟩
        obtain ⟨again, spares⟩ := attempted.step stepped answers
        exact ⟨spares, (ih again).mpr (later code sent next stepped)⟩

/-- In every run the attempts survive until they are answered or expire exactly when every datagram from the address
of an attempt, where no peer is yet, is a well-formed acknowledgement. -/
theorem run_survives (myPublicKey : Memory) (pools : Pools) (steps : List HostStep) :
    (altusHost myPublicKey pools).Survives steps ↔ (altusHost myPublicKey pools).RunAnswers steps :=
  (altusHost_attempted myPublicKey pools).survives_iff

/-- An empty datagram from the address of an attempt removes the attempt from the table. -/
theorem empty_reply_removes :
    ¬ blank.Survives [.connect 1 2 (fun _ => 0) 0 0 blankRaw, .inbound ⟨1, 512⟩ (fun _ => 0) 0 0 blankRaw] := by
  rintro ⟨-, -, connected⟩
  obtain ⟨-, -, listened⟩ := (connected _ _ _ rfl).2
  have kept := ((listened _ _ _ rfl).1 rfl (by decide)).1
  have removed := congrFun kept (addrToUint64 ⟨1, 512⟩)
  revert removed
  decide

end Altus.Host
