import Altus.Proof.Transfer.Delivery

namespace Altus.Channel

open Bytes Parts Runs WindowedQueue

/-- One step after another, up to the first fault. -/
def performAll (cuid : U16) (transfer : Transfer) : List Action → Except Fault Transfer
  | [] => .ok transfer
  | action :: rest => (action.perform cuid transfer).bind fun next => performAll cuid next rest

/-- A window of the default size has room for everything that is written and not popped. -/
def HasRoom (transfer : Transfer) : Prop :=
  transfer.written.length + 2 * 4096 ≤ transfer.popped.length + 4096 * windowBlockMaxDefault.toNat

instance (transfer : Transfer) : Decidable (HasRoom transfer) :=
  inferInstanceAs (Decidable (_ ≤ _))

section Steps

variable {cuid : U16} {transfer : Transfer} {sending receiving : WQWindow} {sent received : View}

/-- A run whose steps meet their conditions returns and keeps the transfer. -/
theorem Transferring.reach (transferring : Transferring transfer sending receiving sent received)
    {actions : List Action}
    (meet : AllActionsMeet cuid transfer actions) :
    ∃ reached nextSending nextReceiving nextSent nextReceived, performAll cuid transfer actions = .ok reached ∧
      Transferring reached nextSending nextReceiving nextSent nextReceived := by
  induction actions generalizing transfer sending receiving sent received with
  | nil => exact ⟨transfer, _, _, _, _, rfl, transferring⟩
  | cons action rest ih =>
      obtain ⟨next, _, _, _, _, performed, kept⟩ := @Transferring.step cuid _ _ _ _ _ transferring _ meet.1
      rw [performAll, performed]
      exact ih kept (meet.2 next performed)

/-- The head node begins less than one node before the first byte that is not popped. -/
theorem Transferring.origin_near (transferring : Transferring transfer sending receiving sent received) :
    transfer.popped.length < received.origin + 4096 := by
  have receives := transferring.receives
  have offset := receives.reading.offset
  rw [receives.popped, List.length_take, front]
  omega

/-- When a sent byte is missing, a datagram is missing in front of the first listed block, or at `lastSeq`. -/
theorem Transferring.next_missing (transferring : Transferring transfer sending receiving sent received)
    (more : received.position < behind 0 transfer.data) :
    ∃ index < transfer.data.length, received.position ≤ starts transfer.data index ∧
      starts transfer.data index < starts transfer.data (index + 1) ∧
      received.Precedes (starts transfer.data index) (starts transfer.data (index + 1)) ∧
      starts transfer.data index ≤ 4096 * (received.position / 4096) + 4096 ∧
      ¬ part (starts transfer.data) index ⊆ received.points := by
  have represents := transferring.receives.represents
  have whole := transferring.fills.whole
  have monotone := starts_monotone transfer.data
  have lower : starts transfer.data 0 ≤ received.position := Nat.zero_le _
  have before : Set.Ico (starts transfer.data 0) received.position ⊆ received.points := fun point member => Or.inl member.2
  have absent {index : Nat} (rises : starts transfer.data index < starts transfer.data (index + 1))
      (apart : Disjoint (part (starts transfer.data) index) received.points) :
      ¬ part (starts transfer.data) index ⊆ received.points := fun all =>
    Set.disjoint_left.mp apart ⟨le_rfl, rises⟩ (all ⟨le_rfl, rises⟩)
  cases runs : received.runs with
  | nil =>
      obtain ⟨index, inside, first, rises, apart⟩ := whole.missing_at lower (by rwa [starts_length]) before
        (View.gap le_rfl (by simp [runs])) monotone
      rw [← first] at rises
      refine ⟨index, inside, first.ge, rises, ?_, by omega, absent rises apart⟩
      rw [View.Precedes, runs]
      exact first
  | cons run rest =>
      have member : run ∈ received.runs := by simp [runs]
      have sorted := represents.sorted
      rw [runs] at sorted
      obtain ⟨index, inside, above, rises, ends, apart, later, known, begins, longer, all⟩ :=
        whole.missing_before monotone lower before (represents.beyond run member)
          (fun point after early => View.gap after fun other listed => by
            rw [runs] at listed
            exact early.trans_le (sorted.head_le other listed))
          (represents.first_received member)
      have near := transferring.fills.reached later known (by rwa [begins]) all
      refine ⟨index, inside, above, rises, ?_, by omega, absent rises apart⟩
      rw [View.Precedes, runs]
      exact ends

/-- A missing datagram is delivered and fills its positions. -/
theorem Transferring.advance (transferring : Transferring transfer sending receiving sent received)
    (room : HasRoom transfer) (more : received.position < behind 0 transfer.data) (rest : Memory) :
    ∃ index next nextWindow nextView, (Action.data index rest).Meets transfer ∧
      (Action.data index rest).perform cuid transfer = .ok next ∧
      Transferring next sending nextWindow sent nextView ∧ transfer.SameSender next ∧ next.popped = transfer.popped ∧
      countMissing (starts transfer.data) transfer.data.length nextView.points <
        countMissing (starts transfer.data) transfer.data.length received.points := by
  obtain ⟨index, inside, above, rises, precedes, near, absent⟩ := transferring.next_missing more
  have found : transfer.data[index]? = some transfer.data[index] := List.getElem?_eq_getElem inside
  generalize transfer.data[index] = datagram at found
  obtain ⟨sequence, below, -⟩ := transferring.tiles.at found
  rw [← starts] at sequence below
  rw [starts_succ found] at rises precedes
  have represents := transferring.receives.represents
  have size := transferring.fills.size
  have aligned := transferring.fills.aligned
  have origin := transferring.origin_near
  have ordered := represents.ordered
  have small := transferring.small
  have depth : received.depth = received.position - received.origin := rfl
  have sizeIs : receiving.windowSize.toNat = 131072 := by rw [size]; rfl
  have roomIs : transfer.written.length + 2 * 4096 ≤ transfer.popped.length + 4096 * 131072 := room
  have accepts : Accepts receiving (sequenceOf datagram) (BitVec.ofNat 32 (payloadLength datagram)) := by
    rw [sequence]
    apply represents.accepts_precedes (by omega) above precedes (by omega)
    rw [Endpoint.state]
    dsimp only
    rw [sizeIs]
    omega
  have arrives : Arrives (transfer.receiver.state receiving) datagram := by
    refine ⟨fun empty => by omega, fun _ accepted => ?_⟩
    have short := accepted.short (by rw [BitVec.toNat_ofNat]; omega)
    rw [represents.inReach_iff accepted short, firstPosition, represents.lastSeq, sequence,
      Serial.toNat_sub above (by omega)]
    omega
  obtain ⟨next, nextWindow, nextView, delivered, kept, same, popped, points⟩ := transferring.deliver found arrives rest
  refine ⟨index, next, nextWindow, nextView, ?_, by rw [Action.perform, found]; exact delivered, kept, same, popped, ?_⟩
  · intro other window here storage
    obtain rfl := Option.some.inj (found.symm.trans here)
    obtain rfl := Storage.buffer.inj (transferring.storage.symm.trans storage)
    exact arrives
  · rw [points (by omega) accepts]
    exact countMissing_insert inside absent

/-- Missing datagrams, one after the other, complete what was sent. -/
theorem Transferring.complete (transferring : Transferring transfer sending receiving sent received)
    (room : HasRoom transfer) (rest : Memory) :
    ∃ order : List Nat, order.length ≤ countMissing (starts transfer.data) transfer.data.length received.points ∧
      AllActionsMeet cuid transfer (order.map fun index => .data index rest) ∧
      ∃ final nextWindow nextView, performAll cuid transfer (order.map fun index => .data index rest) = .ok final ∧
        Transferring final sending nextWindow sent nextView ∧ transfer.SameSender final ∧ final.popped = transfer.popped ∧
        nextView.position = behind 0 transfer.data := by
  generalize bound : countMissing (starts transfer.data) transfer.data.length received.points = count
  induction count using Nat.strong_induction_on generalizing transfer receiving received with
  | _ count ih =>
      rcases Nat.lt_or_ge received.position (behind 0 transfer.data) with more | all
      · obtain ⟨index, next, nextWindow, nextView, meets, performed, kept, same, popped, fewer⟩ :=
          @Transferring.advance cuid _ _ _ _ _ transferring room more rest
        rw [bound] at fewer
        obtain ⟨sender, data, written⟩ := same
        have nextRoom : HasRoom next := by
          rw [HasRoom, written, popped]
          exact room
        obtain ⟨order, few, meet, final, finalWindow, finalView, ran, finally_, finalSame, finalPopped, position⟩ :=
          ih _ fewer kept nextRoom (by rw [data])
        refine ⟨index :: order, by rw [List.length_cons]; omega, ⟨meets, fun other again => ?_⟩, final, finalWindow,
          finalView, ?_, finally_, ?_, finalPopped.trans popped, by rw [position, data]⟩
        · obtain rfl := Except.ok.inj (performed.symm.trans again)
          exact meet
        · rw [List.map_cons, performAll, performed]
          exact ran
        · exact ⟨finalSame.1.trans sender, finalSame.2.1.trans data, finalSame.2.2.trans written⟩
      · refine ⟨[], Nat.zero_le _, trivial, transfer, receiving, received, rfl, transferring, ⟨rfl, rfl, rfl⟩, rfl, ?_⟩
        apply Nat.le_antisymm _ all
        by_contra beyond
        have last : behind 0 transfer.data ∈ Set.Iio (starts transfer.data transfer.data.length) :=
          transferring.fills.whole.below (Or.inl (not_le.mp beyond))
        rw [starts_length] at last
        exact lt_irrefl _ (Set.mem_Iio.mp last)

end Steps

/-- In every state that a run reaches, the network can complete the transfer with datagrams that were sent, each at most
once: whatever was lost, repeated or out of order before, the application can then pop everything that was sent. -/
theorem run_completes {sender receiver : Endpoint} {window receiverWindow : WQWindow} (first : Starts sender window)
    (awaits : Awaits receiver receiverWindow) (cuid : U16) {actions : List Action} {reached : Transfer}
    (meet : AllActionsMeet cuid (Transfer.initial sender receiver) actions)
    (ran : performAll cuid (Transfer.initial sender receiver) actions = .ok reached) (room : HasRoom reached)
    (rest : Memory) :
    ∃ order : List Nat, order.length ≤ reached.data.length ∧
      AllActionsMeet cuid reached (order.map fun index => .data index rest) ∧
      ∃ final, performAll cuid reached (order.map fun index => .data index rest) = .ok final ∧
        ∀ length, (reached.data.map payloadLength).sum ≤ length → ∃ last, (Action.pop length).perform cuid final = .ok last ∧
          last.popped = reached.written.take (reached.data.map payloadLength).sum := by
  obtain ⟨sent, received, transferring⟩ := initial_transferring first awaits
  obtain ⟨again, _, _, _, _, performed, transferring⟩ := transferring.reach meet
  obtain rfl := Except.ok.inj (ran.symm.trans performed)
  obtain ⟨order, few, allMeet, final, finalWindow, finalView, done, kept, same, popped, position⟩ :=
    @Transferring.complete cuid _ _ _ _ _ transferring room rest
  refine ⟨order, few.trans (countMissing_le _ _ _), allMeet, final, done, fun length enough => ?_⟩
  have total : behind 0 reached.data = (reached.data.map payloadLength).sum := Nat.zero_add _
  have small := kept.small
  have bounded := kept.receives.bounded
  have lastSeq : finalWindow.lastSeq.toNat = (reached.data.map payloadLength).sum := by
    have named := kept.receives.represents.lastSeq
    rw [Endpoint.state] at named
    dsimp only at named
    rw [named, BitVec.toNat_ofNat, Nat.mod_eq_of_lt (by omega), position, total]
  obtain ⟨bytes, state, performed, all⟩ := (kept.receives.delivers small).2 length (by
    rw [Endpoint.state]
    dsimp only
    rw [lastSeq]
    exact enough)
  rw [Endpoint.state] at all
  dsimp only at all
  rw [lastSeq, same.2.2] at all
  refine ⟨_, by rw [Action.perform, Transfer.take, kept.storage]; dsimp only; rw [performed]; rfl, ?_⟩
  exact all

/-- The transfer after a step that returns. -/
def afterAction (transfer : Transfer) (action : Action) : Transfer :=
  match action.perform 0 transfer with
  | .ok next => next
  | .error _ => transfer

theorem afterAction_eq {transfer next : Transfer} {action : Action} (performed : action.perform 0 transfer = .ok next) :
    next = afterAction transfer action := by
  rw [afterAction, performed]

/-- Of two datagrams the second one arrives first. -/
theorem run_completes_swapped : ∃ (reached final last : Transfer) (order : List Nat),
    performAll 0 (Transfer.initial freshSender freshReceiver)
      [.upstream (fun _ => 7) 600, .send fun _ _ => 0, .data 1 fun _ => 9] = .ok reached ∧
    performAll 0 reached (order.map fun index => .data index fun _ => 9) = .ok final ∧
    (Action.pop 600).perform 0 final = .ok last ∧ last.popped = reached.written.take 600 := by
  have meet : AllActionsMeet 0 (Transfer.initial freshSender freshReceiver)
      [.upstream (fun _ => 7) 600, .send fun _ _ => 0, .data 1 fun _ => 9] := by decide +kernel
  obtain ⟨sent, received, transferring⟩ := initial_transferring freshSender_starts freshReceiver_awaits
  obtain ⟨reached, _, _, _, _, ran, -⟩ := transferring.reach meet
  obtain ⟨first, wrote, later⟩ := bind_ok ran
  obtain ⟨second, sends, later⟩ := bind_ok later
  obtain ⟨third, arrived, later⟩ := bind_ok later
  obtain rfl := Except.ok.inj later
  have facts : HasRoom third ∧ (third.data.map payloadLength).sum = 600 := by
    rw [afterAction_eq arrived, afterAction_eq sends, afterAction_eq wrote]
    decide +kernel
  obtain ⟨order, -, -, final, done, pops⟩ :=
    run_completes freshSender_starts freshReceiver_awaits 0 meet ran facts.1 fun _ => 9
  obtain ⟨last, popped, all⟩ := pops 600 facts.2.le
  rw [facts.2] at all
  exact ⟨third, final, last, order, ran, done, popped, all⟩

end Altus.Channel
