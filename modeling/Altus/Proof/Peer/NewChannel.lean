import Altus.Library.Serial
import Altus.Construction.Peer

namespace Altus.Peer

open Serial

/-- The number names a channel of the peer. -/
def InUse (peer : Peer) (cuid : U16) : Prop := (peer.ch cuid).isSome

/-- What `newChannel` answers and leaves behind. -/
structure Allocates (peer : Peer) (isReceiving : Bool) (lastAckedSeq : U32) (code : Int) (next : Peer) : Prop where
  refuses : code = -1 ∧ next.ch = peer.ch ↔ ∀ cuid, peer.InUse cuid
  hands : (∃ cuid, ¬ peer.InUse cuid) → ∃ cuid : U16, code = cuid.toNat ∧
    FirstFrom (peer.lastcuid + 1) (fun cuid => ¬ peer.InUse cuid) cuid ∧
    next.ch cuid = some (Channel.channel isReceiving lastAckedSeq) ∧ ∀ other ≠ cuid, next.ch other = peer.ch other
  others : next = { peer with ch := next.ch, lastcuid := peer.lastcuid + 1 }

/-- Several calls of `newChannel`, one after the other, with their directions: what each of them answers and leaves. -/
def newChannels (peer : Peer) : List (Bool × U32) → Except Fault (List (Int × Peer))
  | [] => .ok []
  | (isReceiving, lastAckedSeq) :: rest =>
      match peer.newChannel isReceiving lastAckedSeq with
      | .error fault => .error fault
      | .ok (code, next) => (next.newChannels rest).map ((code, next) :: ·)

/-- Every channel of one state is in its place in a later one. -/
def Keeps (earlier later : Peer) : Prop :=
  ∀ cuid channel, earlier.ch cuid = some channel → later.ch cuid = some channel

/-- No call hands out a number that is in use or was handed out before, and no channel is overwritten. -/
structure KeepsApart (peer : Peer) (answers : List (Int × Peer)) : Prop where
  fresh : ∀ cuid : U16, (cuid.toNat : Int) ∈ answers.map Prod.fst → ¬ peer.InUse cuid
  once : ((answers.map Prod.fst).filter (· ≠ -1)).Nodup
  kept : (peer :: answers.map Prod.snd).Pairwise Keeps

section Search

variable {peer next : Peer} {isReceiving : Bool} {lastAckedSeq : U32} {code : Int}

/-- The loop ends at the first unused number, or once it has met every number. -/
theorem newChannelLoop_spec {ch : U16 → Option Channel} {lastcuid : U16} (rounds : Nat) : ∀ {newcuid : U16},
    NoneBefore lastcuid (fun cuid => ¬ (ch cuid).isSome) newcuid →
    65536 ≤ (newcuid - lastcuid).toNat + rounds →
    newChannelLoop ch lastcuid rounds newcuid = .ok none ∧ (∀ cuid, (ch cuid).isSome) ∨
      ∃ cuid, newChannelLoop ch lastcuid rounds newcuid = .ok (some cuid) ∧
        FirstFrom lastcuid (fun cuid => ¬ (ch cuid).isSome) cuid := by
  induction rounds with
  | zero =>
      intro newcuid _ enough
      have bound := (newcuid - lastcuid).isLt
      omega
  | succ rounds ih =>
      intro newcuid before enough
      rw [newChannelLoop]
      cases found : ch newcuid with
      | none => exact Or.inr ⟨newcuid, rfl, by simp [found], before⟩
      | some channel =>
          have used : ¬ ¬ (ch newcuid).isSome := by simp [found]
          dsimp only
          by_cases around : newcuid + 1 = lastcuid
          · rw [if_pos around]
            exact Or.inl ⟨rfl, fun cuid => not_not.mp (before.none used around cuid)⟩
          · rw [if_neg around]
            refine ih (before.next used around) ?_
            rw [distance_succ around]
            omega

/-- A call on a peer without an unused number. -/
theorem newChannel_full (full : ∀ cuid, peer.InUse cuid) (isReceiving : Bool) (lastAckedSeq : U32) :
    peer.newChannel isReceiving lastAckedSeq = .ok (-1, { peer with lastcuid := peer.lastcuid + 1 }) := by
  rw [newChannel]
  dsimp only
  rcases newChannelLoop_spec 65536 (noneBefore_base (peer.lastcuid + 1)) (Nat.le_add_left ..) with
    ⟨searched, -⟩ | ⟨cuid, -, found⟩
  · rw [searched]
  · exact absurd (full cuid) found.holds

/-- A call on a peer with an unused number. -/
theorem newChannel_free {cuid : U16} (free : ¬ peer.InUse cuid) (isReceiving : Bool) (lastAckedSeq : U32) :
    ∃ cuid : U16, FirstFrom (peer.lastcuid + 1) (fun cuid => ¬ peer.InUse cuid) cuid ∧
      peer.newChannel isReceiving lastAckedSeq = .ok (cuid.toNat, { peer with
        lastcuid := peer.lastcuid + 1
        ch := Tables.insert peer.ch cuid (Channel.channel isReceiving lastAckedSeq) }) := by
  rw [newChannel]
  dsimp only
  rcases newChannelLoop_spec 65536 (noneBefore_base (peer.lastcuid + 1)) (Nat.le_add_left ..) with
    ⟨-, full⟩ | ⟨first, searched, found⟩
  · exact absurd (full cuid) free
  · rw [searched]
    exact ⟨first, found, rfl⟩

/-- Every call ends and allocates. -/
theorem newChannel_returns (peer : Peer) (isReceiving : Bool) (lastAckedSeq : U32) : ∃ code next,
    peer.newChannel isReceiving lastAckedSeq = .ok (code, next) ∧
      Allocates peer isReceiving lastAckedSeq code next := by
  by_cases full : ∀ cuid, peer.InUse cuid
  · refine ⟨_, _, newChannel_full full isReceiving lastAckedSeq, ?_, ?_, rfl⟩
    · exact iff_of_true ⟨rfl, rfl⟩ full
    · rintro ⟨cuid, free⟩
      exact absurd (full cuid) free
  · obtain ⟨unused, free⟩ := not_forall.mp full
    obtain ⟨cuid, first, called⟩ := newChannel_free free isReceiving lastAckedSeq
    have absent : peer.ch cuid = none := by
      have holds := first.holds
      simpa [InUse] using holds
    refine ⟨_, _, called, ?_, ?_, rfl⟩
    · refine iff_of_false ?_ full
      rintro ⟨negative, -⟩
      omega
    · exact fun _ => ⟨cuid, rfl, first, Tables.insert_self absent, fun other apart => Tables.insert_other apart⟩

theorem Allocates.keeps (allocates : Allocates peer isReceiving lastAckedSeq code next) : Keeps peer next := by
  intro cuid channel here
  by_cases full : ∀ cuid, peer.InUse cuid
  · rw [(allocates.refuses.mpr full).2, here]
  · obtain ⟨new, -, first, -, others⟩ := allocates.hands (not_forall.mp full)
    have apart : cuid ≠ new := by
      rintro rfl
      exact first.holds (by rw [InUse, here]; rfl)
    rw [others cuid apart, here]

theorem Keeps.inUse (keeps : Keeps peer next) {cuid : U16} (used : peer.InUse cuid) : next.InUse cuid := by
  obtain ⟨channel, here⟩ := Option.isSome_iff_exists.mp used
  rw [InUse, keeps cuid channel here]
  rfl

/-- A number that a call answers was unused before the call, and is in use behind it. -/
theorem Allocates.answered (allocates : Allocates peer isReceiving lastAckedSeq code next) (handed : code ≠ -1) :
    ∃ cuid : U16, code = cuid.toNat ∧ ¬ peer.InUse cuid ∧ next.InUse cuid := by
  by_cases full : ∀ cuid, peer.InUse cuid
  · exact absurd (allocates.refuses.mpr full).1 handed
  · obtain ⟨cuid, number, first, made, -⟩ := allocates.hands (not_forall.mp full)
    exact ⟨cuid, number, first.holds, by rw [InUse, made]; rfl⟩

/-- One more call before a run. -/
theorem KeepsApart.cons {answers : List (Int × Peer)} (apart : KeepsApart next answers)
    (allocates : Allocates peer isReceiving lastAckedSeq code next) : KeepsApart peer ((code, next) :: answers) where
  fresh := by
    intro cuid member
    rw [List.map_cons, List.mem_cons] at member
    rcases member with here | later
    · obtain ⟨new, number, unused, -⟩ := allocates.answered (by omega)
      have same : cuid.toNat = new.toNat := by omega
      rwa [BitVec.toNat_inj.mp same]
    · exact fun used => apart.fresh cuid later (allocates.keeps.inUse used)
  once := by
    rw [List.map_cons]
    by_cases refused : code = -1
    · rw [List.filter_cons_of_neg (by simpa using refused)]
      exact apart.once
    · rw [List.filter_cons_of_pos (by simpa using refused)]
      refine List.nodup_cons.mpr ⟨fun again => ?_, apart.once⟩
      obtain ⟨cuid, rfl, -, used⟩ := allocates.answered refused
      exact apart.fresh cuid (List.mem_of_mem_filter again) used
  kept := by
    rw [List.map_cons]
    refine List.pairwise_cons.mpr ⟨?_, apart.kept⟩
    intro later member
    have keeps := allocates.keeps
    rcases List.mem_cons.mp member with rfl | further
    · exact keeps
    · exact fun cuid channel here => List.rel_of_pairwise_cons apart.kept further cuid channel (keeps cuid channel here)

/-- Every run of calls ends and keeps the numbers and the channels apart. -/
theorem newChannels_keepsApart (calls : List (Bool × U32)) : ∀ peer : Peer,
    ∃ answers, peer.newChannels calls = .ok answers ∧ KeepsApart peer answers := by
  induction calls with
  | nil => exact fun peer => ⟨[], rfl, by simp, by simp, by simp⟩
  | cons call rest ih =>
      intro peer
      obtain ⟨isReceiving, lastAckedSeq⟩ := call
      obtain ⟨code, next, called, allocates⟩ := newChannel_returns peer isReceiving lastAckedSeq
      obtain ⟨answers, ended, apart⟩ := ih next
      refine ⟨(code, next) :: answers, ?_, apart.cons allocates⟩
      rw [newChannels, called]
      dsimp only
      rw [ended]
      rfl

/-- `newChannel` hands out the first unused number, -1 only when there is none, and no number twice in a run. -/
theorem newChannel_allocates (peer : Peer) :
    (∀ isReceiving lastAckedSeq, ∃ code next, peer.newChannel isReceiving lastAckedSeq = .ok (code, next) ∧
      Allocates peer isReceiving lastAckedSeq code next) ∧
    ∀ calls, ∃ answers, peer.newChannels calls = .ok answers ∧ KeepsApart peer answers :=
  ⟨newChannel_returns peer, fun calls => newChannels_keepsApart calls peer⟩

end Search

end Altus.Peer
