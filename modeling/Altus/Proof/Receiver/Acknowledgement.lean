import Altus.Proof.Receiver.Payload

namespace Altus.Channel

open Bytes WindowedQueue

/-- `ALTUS_RETRY_SIZE`. -/
abbrev retrySize : Nat := 62464

/-- The missing sequence numbers before the first buffered block. -/
def missing (window : WQWindow) : Nat := (window.ubList.headSeq 0 - window.lastSeq).toNat

/-- No buffered block begins at `lastSeq`. -/
def Waits (window : WQWindow) : Prop :=
  ∀ index < window.ubList.count.toNat, window.ubList.headSeq index ≠ window.lastSeq

instance (window : WQWindow) : Decidable (Waits window) :=
  inferInstanceAs (Decidable (∀ index < window.ubList.count.toNat, window.ubList.headSeq index ≠ window.lastSeq))

/-- A decoded acknowledgement names `lastSeq` and the missing length up to the retry size, and it is clean only when
nothing is missing. -/
structure Reports (window : WQWindow) (ack : Datagram) : Prop where
  lostSeq : ntohl (ofList ack) 4 = window.lastSeq
  lostLen : (ntohs (ofList ack) 2).toNat = if window.ubList.count = 0 then 0 else min (missing window) retrySize
  clean : ntohs (ofList ack) 2 = 0 → window.ubList.count = 0

section Acknowledgement

variable {window : WQWindow}

/-- The acknowledgement names the missing length modulo 2^16. -/
theorem response_lostLen (window : WQWindow) (buf : Memory) :
    (ntohs (ofList (response window buf)) 2).toNat =
      if window.ubList.count = 0 then 0 else missing window % 2 ^ 16 := by
  have written : ntohs (ofList (response window buf)) 2 =
      if window.ubList.count ≠ 0 then (window.ubList.headSeq 0 - window.lastSeq).setWidth 16 else 0 := by
    apply ntohs_htons
    intro index inside
    rw [response, List.append_assoc, ofList, List.getD_append_right _ _ _ _ (by simp),
      List.getD_append _ _ _ _ (by simpa using inside)]
    simp only [read_length, Nat.add_sub_cancel_left]
    exact read_getD _ 0 inside
  rw [written]
  by_cases none : window.ubList.count = 0
  · simp [none]
  · rw [if_pos none, if_neg none, BitVec.toNat_setWidth, missing]

/-- A response reports the window exactly when the missing length survives the 16 bits with its cap. -/
theorem response_reports_iff (waits : Waits window) (buf : Memory) :
    Reports window (response window buf) ↔
      window.ubList.count = 0 ∨ missing window ≤ retrySize ∨ missing window % 2 ^ 16 = retrySize := by
  have lostLen := response_lostLen window buf
  by_cases none : window.ubList.count = 0
  · rw [if_pos none] at lostLen
    exact ⟨fun _ => Or.inl none, fun _ => ⟨response_number window buf, by rw [if_pos none, lostLen], fun _ => none⟩⟩
  rw [if_neg none] at lostLen
  have positive : 0 < missing window := by
    apply Nat.pos_of_ne_zero
    intro zero
    apply waits 0 (Nat.pos_of_ne_zero fun same => none (BitVec.toNat_inj.mp same))
    exact sub_eq_zero.mp (BitVec.toNat_inj.mp zero)
  have size : retrySize = 62464 := rfl
  constructor
  · rintro ⟨-, named, -⟩
    rw [if_neg none] at named
    omega
  · intro kept
    have same : missing window % 2 ^ 16 = min (missing window) retrySize := by
      rcases kept with absurdity | short | wrapped
      · exact absurd absurdity none
      · omega
      · omega
    refine ⟨response_number window buf, by rw [if_neg none, lostLen, same], ?_⟩
    intro zero
    rw [zero, show (0 : U16).toNat = 0 from rfl] at lostLen
    omega

/-- Every datagram that a receiving `rdt_stream` takes is acknowledged from its window. -/
theorem processPacket_acknowledges {pools next : Pools} {channel after : Channel} {buf : Memory} {recvSize code : Int}
    {sent : List Datagram} (receiving : channel.isReceiving = true) (type : channel.type = .rdtStream)
    (returned : channel.processPacket pools buf recvSize = .ok (code, sent, next, after)) :
    ∃ window, after.storage = .buffer window ∧ sent = [response window buf] := by
  obtain ⟨⟨answered, middle, changed⟩, received, final⟩ := bind_ok returned
  rw [receive, if_pos receiving, type] at received
  dsimp only at received
  rw [receiveData] at received
  split at received
  · obtain ⟨⟨putCode, putPools, putChannel⟩, taken, flagged⟩ := map_ok received
    rw [if_pos (or_one_ne_zero _)] at flagged
    obtain ⟨rfl, rfl, rfl⟩ : 1 = answered ∧ putPools = middle ∧ putChannel = changed := by simpa using flagged
    obtain ⟨inner, -, stored⟩ := map_ok taken
    obtain rfl : _ = putChannel := congrArg (fun result => result.2.2) stored
    have answered := Except.ok.inj final
    obtain rfl : _ = sent := congrArg (fun result => result.2.1) answered
    obtain rfl : _ = after := congrArg (fun result => result.2.2.2) answered
    exact ⟨inner.2.2.window, rfl, rfl⟩
  · cases received

/-- The acknowledgement of a receiving `rdt_stream` reports its window exactly when the missing length fits. -/
theorem processPacket_reports_iff {pools next : Pools} {channel after : Channel} {buf : Memory} {recvSize code : Int}
    {sent : List Datagram} (receiving : channel.isReceiving = true) (type : channel.type = .rdtStream)
    (returned : channel.processPacket pools buf recvSize = .ok (code, sent, next, after)) :
    ∃ window ack, after.storage = .buffer window ∧ sent = [ack] ∧ (Waits window →
      (Reports window ack ↔
        window.ubList.count = 0 ∨ missing window ≤ retrySize ∨ missing window % 2 ^ 16 = retrySize)) := by
  obtain ⟨window, storage, acknowledged⟩ := processPacket_acknowledges receiving type returned
  exact ⟨window, response window buf, storage, acknowledged, fun waits => response_reports_iff waits buf⟩

end Acknowledgement

/-- What `processPacket` answers on a new window, when it returns. -/
def acknowledged (buf : Memory) (recvSize : Int) : Int × List Datagram × Pools × Channel :=
  match freshReceiver.channel.processPacket freshReceiver.pools buf recvSize with
  | .ok answered => answered
  | .error _ => (0, [], freshReceiver.pools, freshReceiver.channel)

/-- One byte with the sequence number 10. -/
def nearByte : Memory := ofList [0, 1, 0, 1, 0, 0, 0, 10, 7]

/-- A gap of ten bytes is reported. -/
theorem processPacket_reports_iff_near : ∃ window ack, (acknowledged nearByte 9).2.2.2.storage = .buffer window ∧
    (acknowledged nearByte 9).2.1 = [ack] ∧ Reports window ack := by
  have returned : freshReceiver.channel.processPacket freshReceiver.pools nearByte 9 =
      .ok (acknowledged nearByte 9) := by with_unfolding_all rfl
  obtain ⟨window, ack, storage, sent, reports⟩ := processPacket_reports_iff rfl rfl returned
  have near : ∀ window, (acknowledged nearByte 9).2.2.2.storage = .buffer window →
      Waits window ∧ missing window ≤ retrySize := by decide +kernel
  obtain ⟨waits, short⟩ := near window storage
  exact ⟨window, ack, storage, sent, (reports waits).mpr (Or.inr (Or.inl short))⟩

/-- One byte with the sequence number 65536. -/
def distantByte : Memory := ofList [0, 1, 0, 1, 0, 1, 0, 0, 7]

/-- A gap of 65536 bytes is reported as a clean acknowledgement. -/
theorem distant_byte_reported_clean : ∃ code ack pools after window,
    freshReceiver.channel.processPacket freshReceiver.pools distantByte 9 = .ok (code, [ack], pools, after) ∧
      after.storage = .buffer window ∧ Waits window ∧ window.ubList.count = 1 ∧ missing window = 65536 ∧
      ntohs (ofList ack) 2 = 0 ∧ ¬ Reports window ack := by
  with_unfolding_all
    refine ⟨_, _, _, _, _, rfl, rfl, ?_, ?_, ?_, ?_, ?_⟩
    · unfold Waits
      decide
    · decide
    · decide
    · decide
    · intro reports
      exact absurd (reports.clean (by decide)) (by decide)

end Altus.Channel
