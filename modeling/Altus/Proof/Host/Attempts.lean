import Altus.Library.Serial
import Altus.Proof.Host.Calls

namespace Altus.Host

open Bytes Tables

/-- A call leaves the attempts of a host, their table and their queue as they are. -/
structure SameAttempts (host next : Host) : Prop where
  queue : next.retryQueue = host.retryQueue
  table : next.cPrePeers = host.cPrePeers
  objects : next.cPrePeer = host.cPrePeer
  brk : host.brk ≤ next.brk

theorem SameAttempts.refl (host : Host) : SameAttempts host host := ⟨rfl, rfl, rfl, le_rfl⟩

section Calls

variable {host next : Host} {addrport : U64} {buf : Memory} {size : Int} {raw : Raw} {code : Int} {sent : List Sent}

theorem register_sameAttempts {dst : Peer} (registered : register host addrport dst = .ok next) :
    SameAttempts host next := by
  obtain ⟨newpeid, -, rfl⟩ := register_ok registered
  exact ⟨rfl, rfl, rfl, Nat.le_succ _⟩

theorem prepeerToPeer_sameAttempts (completed : host.prepeerToPeer addrport raw = .ok next) :
    SameAttempts host next := by
  obtain ⟨src, registered, -, -, made, rfl⟩ := prepeerToPeer_ok completed
  have kept := register_sameAttempts made
  exact ⟨kept.queue, kept.table, kept.objects, kept.brk⟩

theorem accepter_sameAttempts {currentTime : U32}
    (accepted : host.accepter addrport buf size currentTime raw = .ok (code, sent, next)) :
    SameAttempts host next := by
  rcases accepter_promotes accepted with ⟨sPrePeers, rfl⟩ | ⟨before, completed, after, handed, rfl⟩
  · exact ⟨rfl, rfl, rfl, le_rfl⟩
  · have kept := prepeerToPeer_sameAttempts handed
    exact ⟨kept.queue, kept.table, kept.objects, kept.brk⟩

/-- A call on one peer leaves the attempts as they are. -/
theorem ChangesPeer.sameAttempts {pointer : Ptr}
    (changes : ChangesPeer host next pointer) : SameAttempts host next := by
  obtain ⟨peer, changed, pools, -, -, rfl⟩ := changes
  exact ⟨rfl, rfl, rfl, le_rfl⟩

/-- An iteration of `Listener` leaves the attempts as they are, unless it hands the datagram on to
`TryCompleteConnection`. -/
theorem listener_ok {remoteAddr : Address} {currentTime : U32}
    (listened : host.listener remoteAddr buf size currentTime raw = .ok (code, sent, next)) :
    SameAttempts host next ∨
      (size ≠ -1 ∧ host.peers (addrToUint64 remoteAddr) = none ∧
        (host.cPrePeers (addrToUint64 remoteAddr)).isSome ∧
        host.tryCompleteConnection (addrToUint64 remoteAddr) buf size raw = .ok (code, sent, next)) := by
  rcases listener_cases listened with rfl | ⟨pointer, processed⟩ | completed | ⟨-, -, -, accepted⟩
  · exact Or.inl (.refl next)
  · exact Or.inl (processPacket_ok processed).sameAttempts
  · exact Or.inr completed
  · exact Or.inl (accepter_sameAttempts accepted)

theorem removePeer_sameAttempts {peid : U32} (removed : host.removePeer peid = .ok (code, sent, next)) :
    SameAttempts host next := by
  rcases removePeer_ok removed with ⟨-, -, rfl⟩ | ⟨pointer, peer, pools, -, -, -, rfl⟩
  · exact .refl next
  · exact ⟨rfl, rfl, rfl, le_rfl⟩

theorem sender_sameAttempts {stack : U16 → Fin 16 → Memory}
    (performed : host.sender addrport stack = .ok (code, sent, next)) : SameAttempts host next := by
  rcases sender_ok performed with rfl | ⟨pointer, changes⟩
  · exact .refl next
  · exact changes.sameAttempts

end Calls

section Turns

variable {start : Nat} {pointer : Ptr} {queue : List Retry}

/-- The entry of an attempt for one of its rounds. -/
def turn (start : Nat) (pointer : Ptr) (round : Nat) : Retry := (BitVec.ofNat 32 (start + 1500 * round), pointer)

/-- The entries of a new attempt. -/
def turns (start : Nat) (pointer : Ptr) : List Retry :=
  [turn start pointer 1, turn start pointer 2, turn start pointer 3]

theorem turn_inj {first second : Nat} (few : first ≤ 3) (less : second ≤ 3)
    (same : turn start pointer first = turn start pointer second) : first = second := by
  have times := (Serial.ofNat_inj (by omega) (by omega)).mp (congrArg Prod.fst same)
  omega

theorem turns_nodup (start : Nat) (pointer : Ptr) : (turns start pointer).Nodup := by
  have apart {first second : Nat} (few : first ≤ 3) (less : second ≤ 3) (different : first ≠ second) :
      turn start pointer first ≠ turn start pointer second := fun same => different (turn_inj few less same)
  simp only [turns, List.nodup_cons, List.mem_cons, List.not_mem_nil, or_false, not_or, not_false_eq_true,
    List.nodup_nil, and_true]
  exact ⟨⟨apart (by omega) (by omega) (by omega), apart (by omega) (by omega) (by omega)⟩,
    apart (by omega) (by omega) (by omega)⟩

theorem mem_turns {entry : Retry} :
    entry ∈ turns start pointer ↔ ∃ round, 1 ≤ round ∧ round ≤ 3 ∧ entry = turn start pointer round := by
  simp only [turns, List.mem_cons, List.not_mem_nil, or_false]
  constructor
  · rintro (rfl | rfl | rfl)
    · exact ⟨1, le_rfl, by omega, rfl⟩
    · exact ⟨2, by omega, by omega, rfl⟩
    · exact ⟨3, by omega, le_rfl, rfl⟩
  · rintro ⟨round, positive, few, rfl⟩
    interval_cases round <;> simp

/-- The earlier rounds of an attempt are not queued when a later one is at the top. -/
theorem turn_le_of_isTop {early late : Nat} (top : IsTop queue (turn start pointer late)) (few : late ≤ 3)
    (member : turn start pointer early ∈ queue) : late ≤ early := by
  by_contra before
  have behind := of_decide_eq_false (top.2 _ member)
  apply behind
  apply (Serial.sub_pos_iff _ _ (by decide)).mpr <;> omega

/-- Only the last round of an attempt is as old as an attempt may become. -/
theorem turn_expires {round : Nat} (few : round ≤ 3)
    (old : 4500 ≤ ((turn start pointer round).1 - BitVec.ofNat 32 start).toInt) : round = 3 := by
  have distance := @Serial.toNat_sub 32 (start + 1500 * round) start (Nat.le_add_right _ _) (by omega)
  change 4500 ≤ (BitVec.ofNat 32 (start + 1500 * round) - BitVec.ofNat 32 start).toInt at old
  rw [BitVec.toInt_eq_toNat_of_lt (by omega), distance] at old
  omega

end Turns

end Altus.Host
