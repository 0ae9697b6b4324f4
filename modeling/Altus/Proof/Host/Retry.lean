import Altus.Library.Serial
import Altus.Proof.Host.Attempts
import Altus.Proof.Host.Run

namespace Altus

open Bytes Tables Host

/-- A host whose thread `Connecter` may be asleep. The times without a wrap and the deleted prepeers are
for the statements only. -/
structure RetryState where
  host : Host
  /-- The time in milliseconds, of which the code sees 32 bits. -/
  clock : Nat
  /-- When each prepeer was made. -/
  started : Ptr → Nat
  /-- What `RetryQuque.top()` answers. -/
  top : Option Retry
  /-- The entry that `Connecter` read, and the time at which `Sleep` returns at the earliest. -/
  reading : Option (Retry × Nat)
  deleted : List Ptr

namespace RetryState

/-- No entry stands before the top of a queue. -/
def Shows (queue : List Retry) : (top : Option Retry) → Prop
  | none => queue = []
  | some first => IsTop queue first

/-- `push` displaces the top only by an entry that stands before it. -/
def Pushed (queue : List Retry) (top : Option Retry) (entry : Retry) (next : Option Retry) : Prop :=
  Shows (queue ++ [entry]) next ∧ ∀ first, top = some first → comparator first entry = false → next = some first

instance (queue : List Retry) : (top : Option Retry) → Decidable (Shows queue top)
  | none => inferInstanceAs (Decidable (queue = []))
  | some first => inferInstanceAs (Decidable (IsTop queue first))

/-- One `push` after another. -/
def Pushes : (queue : List Retry) → (top : Option Retry) → List Retry → (next : Option Retry) → Prop
  | _, top, [], next => next = top
  | queue, top, entry :: rest, next =>
      ∃ middle, Pushed queue top entry middle ∧ Pushes (queue ++ [entry]) middle rest next

/-- The steps of a host between two steps of `Connecter` that neither connect nor receive. -/
def Quiet : HostStep → Prop
  | .removePeer _ => True
  | .createUpstream .. => True
  | .sender .. => True
  | .accepting _ => True
  | _ => False

/-- `Connecter` reads the top and then, once it slept, processes what it read and removes the top. -/
inductive Step : RetryState → RetryState → Prop where
  | tick (state : RetryState) {later : Nat} (ordered : state.clock ≤ later) :
      Step state { state with clock := later }
  | inbound (state : RetryState) (remoteAddr : Address) (buf : Memory) (recvSize : Int) (raw : Raw)
      {code : Int} {sent : List Sent} {next : Host}
      (listened : state.host.listener remoteAddr buf recvSize (BitVec.ofNat 32 state.clock) raw =
        .ok (code, sent, next)) :
      Step state { state with host := next }
  | connect (state : RetryState) (ip : U32) (port : U16) (serverkey : Memory) (keylen : Int) (raw : Raw)
      {code : Int} {sent : List Sent} {next : Host} {top : Option Retry}
      (connected : state.host.connect ip port serverkey keylen (BitVec.ofNat 32 state.clock) raw =
        .ok (code, sent, next))
      (pushes : Pushes state.host.retryQueue state.top (next.retryQueue.drop state.host.retryQueue.length) top) :
      Step state { state with
        host := next
        started := Function.update state.started state.host.brk state.clock
        top := top }
  | quiet (state : RetryState) (step : HostStep) {code : Int} {sent : List Sent} {next : Host}
      (outside : Quiet step) (stepped : state.host.step step = .ok (code, sent, next)) :
      Step state { state with host := next }
  | read (state : RetryState) (entry : Retry) (idle : state.reading = none) (top : state.top = some entry) :
      Step state { state with
        reading := some (entry, state.clock + (entry.1 - BitVec.ofNat 32 state.clock).toInt.toNat) }
  | process (state : RetryState) {entry removed : Retry} {wake : Nat} {code : Int} {sent : List Sent} {next : Host}
      {top : Option Retry} (reading : state.reading = some (entry, wake)) (slept : wake ≤ state.clock)
      (retried : state.host.retry entry = .ok (code, sent, next)) (removes : state.top = some removed)
      (shows : Shows (next.popRetry removed).retryQueue top) :
      Step state { state with
        host := next.popRetry removed
        top := top
        reading := none
        deleted := state.deleted ++ if (next.cPrePeer entry.2).isNone then [entry.2] else [] }

/-- The time for which an entry is queued. -/
def due (started : Ptr → Nat) (entry : Retry) : Nat :=
  started entry.2 + (entry.1 - BitVec.ofNat 32 (started entry.2)).toNat

/-- The times that are queued together lie in less than half of the range of the clock. -/
def Spans (state : RetryState) : Prop :=
  ∀ one ∈ state.host.retryQueue, ∀ other ∈ state.host.retryQueue,
    due state.started one < due state.started other + 2 ^ 31

instance (state : RetryState) : Decidable (Spans state) :=
  inferInstanceAs (Decidable (∀ one ∈ state.host.retryQueue, ∀ other ∈ state.host.retryQueue, _))

/-- The queue refers to no deleted prepeer, and `pop` removes the entry that was read. -/
structure Sound (state : RetryState) : Prop where
  removes : ∀ entry wake, state.reading = some (entry, wake) → state.top = some entry
  once : state.deleted.Nodup
  unqueued : ∀ pointer ∈ state.deleted, ∀ entry ∈ state.host.retryQueue, entry.2 ≠ pointer
  unmapped : ∀ pointer ∈ state.deleted, ∀ addrport, state.host.cPrePeers addrport ≠ some pointer
  live : ∀ entry ∈ state.host.retryQueue, (state.host.cPrePeer entry.2).isSome

/-- What every step of `Connecter` and its host keeps. -/
structure Inv (state : RetryState) : Prop where
  attempts : ∀ pointer prepeer, state.host.cPrePeer pointer = some prepeer → pointer < state.host.brk ∧
    prepeer.starttime = BitVec.ofNat 32 (state.started pointer) ∧ state.started pointer ≤ state.clock
  table : ∀ addrport pointer, state.host.cPrePeers addrport = some pointer →
    ∃ prepeer, state.host.cPrePeer pointer = some prepeer ∧ addrToUint64 prepeer.remoteAddr = addrport
  queued : ∀ entry ∈ state.host.retryQueue, (state.host.cPrePeer entry.2).isSome ∧
    ∃ round, 1 ≤ round ∧ round ≤ 3 ∧ entry = turn (state.started entry.2) entry.2 round ∧
      (turn (state.started entry.2) entry.2 (round - 1) ∈ state.host.retryQueue ∨
        state.started entry.2 + 1500 * (round - 1) ≤ state.clock)
  distinct : state.host.retryQueue.Nodup
  shows : Shows state.host.retryQueue state.top
  waiting : ∀ entry wake, state.reading = some (entry, wake) → state.top = some entry ∧
    due state.started entry ≤ wake ∧ due state.started entry ≤ state.clock + 1500
  gone : ∀ pointer ∈ state.deleted, pointer < state.host.brk ∧ state.host.cPrePeer pointer = none
  once : state.deleted.Nodup

theorem Inv.sound {state : RetryState} (inv : Inv state) : Sound state where
  removes := fun entry wake reading => (inv.waiting entry wake reading).1
  once := inv.once
  unqueued := by
    intro pointer deleted entry queued same
    have live := (inv.queued entry queued).1
    rw [same, (inv.gone pointer deleted).2] at live
    cases live
  unmapped := by
    intro pointer deleted addrport mapped
    obtain ⟨prepeer, here, -⟩ := inv.table addrport pointer mapped
    rw [(inv.gone pointer deleted).2] at here
    cases here
  live := fun entry queued => (inv.queued entry queued).1

theorem due_turn (started : Ptr → Nat) (pointer : Ptr) {round : Nat} (few : round ≤ 3) :
    due started (turn (started pointer) pointer round) = started pointer + 1500 * round := by
  change started pointer + (BitVec.ofNat 32 (started pointer + 1500 * round) -
    BitVec.ofNat 32 (started pointer)).toNat = _
  rw [Serial.toNat_sub (Nat.le_add_right _ _) (by omega)]
  omega

/-- An entry holds its time as the clock shows it. -/
theorem time_turn {started : Ptr → Nat} {entry : Retry} {round : Nat} (few : round ≤ 3)
    (same : entry = turn (started entry.2) entry.2 round) : entry.1 = BitVec.ofNat 32 (due started entry) := by
  rw [same, due_turn _ _ few]
  rfl

/-- An entry that is due later does not stand before another one. -/
theorem comparator_due {started : Ptr → Nat} {first later : Retry}
    (time : first.1 = BitVec.ofNat 32 (due started first)) (laterTime : later.1 = BitVec.ofNat 32 (due started later))
    (ordered : due started first ≤ due started later) (close : due started later < due started first + 2 ^ 31) :
    comparator first later = false := by
  apply decide_eq_false
  rw [time, laterTime, Serial.sub_pos_iff (by omega) (by omega) (by decide)]
  omega

/-- A host keeps its queue and the address and the start of every attempt. -/
structure Keeps (host next : Host) : Prop where
  queue : next.retryQueue = host.retryQueue
  brk : host.brk ≤ next.brk
  table : ∀ addrport pointer, next.cPrePeers addrport = some pointer → host.cPrePeers addrport = some pointer
  objects : ∀ pointer, (next.cPrePeer pointer).map (fun prepeer => (prepeer.remoteAddr, prepeer.starttime)) =
    (host.cPrePeer pointer).map fun prepeer => (prepeer.remoteAddr, prepeer.starttime)

theorem Keeps.of_same {host next : Host} (same : SameAttempts host next) : Keeps host next where
  queue := same.queue
  brk := same.brk
  table := by
    intro addrport pointer mapped
    rw [← same.table]
    exact mapped
  objects := by
    intro pointer
    rw [same.objects]

theorem Keeps.trans {first second third : Host} (left : Keeps first second) (right : Keeps second third) :
    Keeps first third where
  queue := right.queue.trans left.queue
  brk := left.brk.trans right.brk
  table := fun addrport pointer mapped => left.table _ _ (right.table addrport pointer mapped)
  objects := fun pointer => (right.objects pointer).trans (left.objects pointer)

/-- A valid reply marks its attempt, and every reply removes it from the table. -/
theorem Keeps.of_listener {host next : Host} {remoteAddr : Address} {buf : Memory} {recvSize : Int}
    {currentTime : U32} {raw : Raw} {code : Int} {sent : List Sent}
    (listened : host.listener remoteAddr buf recvSize currentTime raw = .ok (code, sent, next)) : Keeps host next := by
  rcases listener_ok listened with same | ⟨-, -, -, completed⟩
  · exact .of_same same
  have erased (addrport other : U64) (pointer : Ptr) (mapped : erase host.cPrePeers addrport other = some pointer) :
      host.cPrePeers other = some pointer := (erase_eq_some.mp mapped).2
  rcases tryCompleteConnection_ok completed with ⟨-, rfl⟩ | ⟨pointer, -, ⟨-, rfl⟩ | ⟨prepeer, key, -, here, -, made⟩⟩
  · exact .of_same (.refl _)
  · exact ⟨rfl, le_rfl, erased _, fun _ => rfl⟩
  · have second := Keeps.of_same (register_sameAttempts made)
    apply Keeps.trans _ second
    refine ⟨rfl, le_rfl, erased _, ?_⟩
    intro other
    by_cases same : other = pointer
    · subst same
      simp [here]
    · simp [Function.update_of_ne same]

theorem Keeps.of_quiet {host next : Host} {step : HostStep} {code : Int} {sent : List Sent} (outside : Quiet step)
    (stepped : host.step step = .ok (code, sent, next)) : Keeps host next := by
  cases step with
  | removePeer peid => exact .of_same (removePeer_sameAttempts stepped)
  | createUpstream peid cuid buf len =>
      obtain ⟨pointer, changes⟩ := createUpstream_ok stepped
      exact .of_same changes.sameAttempts
  | sender addrport stack => exact .of_same (sender_sameAttempts stepped)
  | accepting isAccepting =>
      cases stepped
      exact ⟨rfl, le_rfl, fun _ _ mapped => mapped, fun _ => rfl⟩
  | inbound | connect | connecter => exact outside.elim

theorem Keeps.back {host next : Host} (keeps : Keeps host next) {pointer : Ptr} {prepeer : CPrePeer}
    (here : next.cPrePeer pointer = some prepeer) : ∃ before, host.cPrePeer pointer = some before ∧
      before.remoteAddr = prepeer.remoteAddr ∧ before.starttime = prepeer.starttime := by
  have same := keeps.objects pointer
  rw [here] at same
  cases found : host.cPrePeer pointer with
  | none => simp [found] at same
  | some before =>
      simp only [found, Option.map_some, Option.some.injEq, Prod.mk.injEq] at same
      exact ⟨before, rfl, same.1.symm, same.2.symm⟩

theorem Keeps.isSome {host next : Host} (keeps : Keeps host next) (pointer : Ptr) :
    (next.cPrePeer pointer).isSome = (host.cPrePeer pointer).isSome := by
  have same := congrArg Option.isSome (keeps.objects pointer)
  simpa only [Option.isSome_map] using same

/-- Steps that keep the attempts keep the invariant. -/
theorem Inv.keeps {state : RetryState} (inv : Inv state) {next : Host} (keeps : Keeps state.host next) :
    Inv { state with host := next } where
  attempts := by
    intro pointer prepeer here
    obtain ⟨before, found, -, start⟩ := keeps.back here
    obtain ⟨allocated, same, ordered⟩ := inv.attempts pointer before found
    exact ⟨Nat.lt_of_lt_of_le allocated keeps.brk, start ▸ same, ordered⟩
  table := by
    intro addrport pointer mapped
    obtain ⟨before, found, named⟩ := inv.table addrport pointer (keeps.table addrport pointer mapped)
    have live := keeps.isSome pointer
    rw [found] at live
    obtain ⟨prepeer, here⟩ := Option.isSome_iff_exists.mp live
    obtain ⟨again, alike, address, -⟩ := keeps.back here
    obtain rfl := Option.some.inj (found.symm.trans alike)
    exact ⟨prepeer, here, address ▸ named⟩
  queued := by
    intro entry member
    change entry ∈ next.retryQueue at member
    rw [keeps.queue] at member
    simp only [keeps.isSome, keeps.queue]
    exact inv.queued entry member
  distinct := by
    change next.retryQueue.Nodup
    rw [keeps.queue]
    exact inv.distinct
  shows := by
    change Shows next.retryQueue state.top
    rw [keeps.queue]
    exact inv.shows
  waiting := inv.waiting
  gone := by
    intro pointer deleted
    obtain ⟨allocated, none⟩ := inv.gone pointer deleted
    have dead := keeps.isSome pointer
    rw [none, Option.isSome_none, Option.isSome_eq_false_iff, Option.isNone_iff_eq_none] at dead
    exact ⟨Nat.lt_of_lt_of_le allocated keeps.brk, dead⟩
  once := inv.once

theorem Inv.tick {state : RetryState} (inv : Inv state) {later : Nat} (ordered : state.clock ≤ later) :
    Inv { state with clock := later } where
  attempts := by
    intro pointer prepeer here
    obtain ⟨allocated, same, before⟩ := inv.attempts pointer prepeer here
    exact ⟨allocated, same, before.trans ordered⟩
  table := inv.table
  queued := by
    intro entry member
    obtain ⟨live, round, positive, few, same, after⟩ := inv.queued entry member
    exact ⟨live, round, positive, few, same, after.imp_right fun passed => passed.trans ordered⟩
  distinct := inv.distinct
  shows := inv.shows
  waiting := by
    intro entry wake reading
    obtain ⟨top, early, near⟩ := inv.waiting entry wake reading
    exact ⟨top, early, near.trans (Nat.add_le_add_right ordered 1500)⟩
  gone := inv.gone
  once := inv.once

/-- The rounds before the one at the top are over. -/
theorem Inv.top_turn {state : RetryState} (inv : Inv state) {entry : Retry} (top : state.top = some entry) :
    ∃ round, round ≤ 3 ∧ entry = turn (state.started entry.2) entry.2 round ∧ due state.started entry ≤ state.clock + 1500 := by
  have shows := inv.shows
  rw [top] at shows
  obtain ⟨live, round, positive, few, same, after⟩ := inv.queued entry shows.1
  refine ⟨round, few, same, ?_⟩
  rw [same, due_turn _ _ few]
  rcases after with earlier | passed
  · have first : IsTop state.host.retryQueue (turn (state.started entry.2) entry.2 round) := same ▸ shows
    have least := turn_le_of_isTop first few earlier
    omega
  · omega

/-- `Connecter` sleeps until the time of the entry that it read. -/
theorem Inv.read {state : RetryState} (inv : Inv state) {entry : Retry} (top : state.top = some entry) :
    Inv { state with
      reading := some (entry, state.clock + (entry.1 - BitVec.ofNat 32 state.clock).toInt.toNat) } where
  attempts := inv.attempts
  table := inv.table
  queued := inv.queued
  distinct := inv.distinct
  shows := inv.shows
  waiting := by
    intro other wake reading
    cases reading
    obtain ⟨round, few, same, near⟩ := inv.top_turn top
    refine ⟨top, ?_, near⟩
    have time := time_turn few same
    rcases Nat.le_total (due state.started entry) state.clock with past | ahead
    · exact past.trans (Nat.le_add_right _ _)
    · have distance := @Serial.toNat_sub 32 _ _ ahead (by omega)
      change due state.started entry ≤ _
      rw [time, BitVec.toInt_eq_toNat_of_lt (by omega), distance]
      omega
  gone := inv.gone
  once := inv.once

theorem Pushes.shows {queue entries : List Retry} {top next : Option Retry} (shows : Shows queue top)
    (pushes : Pushes queue top entries next) : Shows (queue ++ entries) next := by
  induction entries generalizing queue top with
  | nil =>
      obtain rfl : next = top := pushes
      simpa using shows
  | cons entry rest ih =>
      obtain ⟨middle, first, later⟩ := pushes
      simpa using ih first.1 later

/-- The top stays when no new entry stands before it. -/
theorem Pushes.kept {queue entries : List Retry} {top next : Option Retry} {first : Retry} (here : top = some first)
    (pushes : Pushes queue top entries next) (behind : ∀ entry ∈ entries, comparator first entry = false) :
    next = some first := by
  induction entries generalizing queue top with
  | nil =>
      obtain rfl : next = top := pushes
      exact here
  | cons entry rest ih =>
      obtain ⟨middle, pushed, later⟩ := pushes
      have stays := pushed.2 first here (behind entry List.mem_cons_self)
      exact ih stays later fun other member => behind other (List.mem_cons_of_mem _ member)

/-- The times of a new attempt count from now on. -/
theorem Inv.restart {state : RetryState} (inv : Inv state) :
    Inv { state with started := Function.update state.started state.host.brk state.clock } ∧
      ∀ entry ∈ state.host.retryQueue,
        due (Function.update state.started state.host.brk state.clock) entry = due state.started entry := by
  have old {pointer : Ptr} (live : (state.host.cPrePeer pointer).isSome) : pointer ≠ state.host.brk := by
    obtain ⟨prepeer, here⟩ := Option.isSome_iff_exists.mp live
    exact Nat.ne_of_lt (inv.attempts pointer prepeer here).1
  have kept {pointer : Ptr} (live : (state.host.cPrePeer pointer).isSome) :
      Function.update state.started state.host.brk state.clock pointer = state.started pointer :=
    Function.update_of_ne (old live) _ _
  have same : ∀ entry ∈ state.host.retryQueue,
      due (Function.update state.started state.host.brk state.clock) entry = due state.started entry := by
    intro entry member
    unfold due
    rw [kept (inv.queued entry member).1]
  refine ⟨?_, same⟩
  exact {
    attempts := by
      intro pointer prepeer here
      have live : (state.host.cPrePeer pointer).isSome := Option.isSome_of_eq_some here
      dsimp only
      rw [kept live]
      exact inv.attempts pointer prepeer here
    table := inv.table
    queued := by
      intro entry member
      obtain ⟨live, rest⟩ := inv.queued entry member
      refine ⟨live, ?_⟩
      simp only [turn, kept live]
      exact rest
    distinct := inv.distinct
    shows := inv.shows
    waiting := by
      intro entry wake reading
      obtain ⟨top, early, near⟩ := inv.waiting entry wake reading
      have shows := inv.shows
      rw [top] at shows
      dsimp only
      rw [same entry shows.1]
      exact ⟨top, early, near⟩
    gone := inv.gone
    once := inv.once }

/-- A new attempt enters the table and the queue. -/
theorem Inv.attempt {state : RetryState} (inv : Inv state) (now : state.started state.host.brk = state.clock)
    {newpeer : CPrePeer} (start : newpeer.starttime = BitVec.ofNat 32 state.clock)
    (free : state.host.cPrePeers (addrToUint64 newpeer.remoteAddr) = none) {top : Option Retry}
    (pushes : Pushes state.host.retryQueue state.top (turns (state.started state.host.brk) state.host.brk) top)
    {next : RetryState}
    (made : next = { state with
      host := { state.host with
        cPrePeers := insert state.host.cPrePeers (addrToUint64 newpeer.remoteAddr) state.host.brk
        cPrePeer := Function.update state.host.cPrePeer state.host.brk (some newpeer)
        retryQueue := state.host.retryQueue ++ turns (state.started state.host.brk) state.host.brk
        brk := state.host.brk + 1 }
      top := top })
    (spans : Spans next) : Inv next := by
  have old {pointer : Ptr} (allocated : pointer < state.host.brk) :
      Function.update state.host.cPrePeer state.host.brk (some newpeer) pointer = state.host.cPrePeer pointer :=
    Function.update_of_ne (Nat.ne_of_lt allocated) _ _
  have known {pointer : Ptr} (live : (state.host.cPrePeer pointer).isSome) : pointer < state.host.brk := by
    obtain ⟨prepeer, here⟩ := Option.isSome_iff_exists.mp live
    exact (inv.attempts pointer prepeer here).1
  subst made
  exact {
    attempts := by
      intro pointer prepeer here
      dsimp only at here ⊢
      by_cases new : pointer = state.host.brk
      · subst new
        rw [Function.update_self] at here
        cases here
        exact ⟨Nat.lt_succ_self _, by rw [start, now], by rw [now]⟩
      · rw [Function.update_of_ne new] at here
        obtain ⟨allocated, rest⟩ := inv.attempts pointer prepeer here
        exact ⟨Nat.lt_succ_of_lt allocated, rest⟩
    table := by
      intro addrport pointer mapped
      dsimp only at mapped ⊢
      rcases (insert_eq_some free).mp mapped with ⟨rfl, rfl⟩ | mapped
      · exact ⟨newpeer, Function.update_self .., rfl⟩
      · obtain ⟨prepeer, here, named⟩ := inv.table addrport pointer mapped
        rw [old (inv.attempts pointer prepeer here).1]
        exact ⟨prepeer, here, named⟩
    queued := by
      intro entry member
      dsimp only at member ⊢
      rcases List.mem_append.mp member with before | new
      · obtain ⟨live, round, positive, few, same, after⟩ := inv.queued entry before
        rw [old (known live)]
        exact ⟨live, round, positive, few, same, after.imp_left fun earlier => List.mem_append_left _ earlier⟩
      · obtain ⟨round, positive, few, rfl⟩ := mem_turns.mp new
        refine ⟨?_, round, positive, few, rfl, ?_⟩
        · simp [turn]
        -- The first round follows no other, and the later ones follow one that is pushed with them.
        rcases Nat.eq_or_lt_of_le positive with rfl | later
        · right
          simp [turn, now]
        · left
          apply List.mem_append_right
          exact mem_turns.mpr ⟨round - 1, by omega, by omega, rfl⟩
    distinct := by
      apply inv.distinct.append (turns_nodup _ _)
      intro entry before new
      have allocated := known (inv.queued entry before).1
      obtain ⟨round, -, -, rfl⟩ := mem_turns.mp new
      exact Nat.lt_irrefl _ allocated
    shows := Pushes.shows inv.shows pushes
    waiting := by
      intro entry wake reading
      obtain ⟨here, early, near⟩ := inv.waiting entry wake reading
      refine ⟨?_, early, near⟩
      have shows := inv.shows
      rw [here] at shows
      obtain ⟨live, round, positive, few, same, after⟩ := inv.queued entry shows.1
      apply Pushes.kept here pushes
      intro new member
      have close := spans new (List.mem_append_right _ member) entry (List.mem_append_left _ shows.1)
      obtain ⟨turnRound, first, last, rfl⟩ := mem_turns.mp member
      have later := due_turn state.started state.host.brk last
      apply comparator_due (time_turn few same) (time_turn last rfl) _ close
      omega
    gone := by
      intro pointer deleted
      obtain ⟨allocated, none⟩ := inv.gone pointer deleted
      refine ⟨Nat.lt_succ_of_lt allocated, ?_⟩
      dsimp only
      rw [old allocated]
      exact none
    once := inv.once }

/-- Both steps of `connect`: its prepeer and its three entries. -/
theorem Inv.connect {state : RetryState} (inv : Inv state) {ip : U32} {port : U16} {serverkey : Memory} {keylen : Int}
    {raw : Raw} {code : Int} {sent : List Sent} {next : Host} {top : Option Retry}
    (connected : state.host.connect ip port serverkey keylen (BitVec.ofNat 32 state.clock) raw =
      .ok (code, sent, next))
    (pushes : Pushes state.host.retryQueue state.top (next.retryQueue.drop state.host.retryQueue.length) top)
    (spans : Spans { state with
      host := next
      started := Function.update state.started state.host.brk state.clock
      top := top }) :
    Inv { state with
      host := next
      started := Function.update state.started state.host.brk state.clock
      top := top } := by
  obtain ⟨again, -⟩ := inv.restart
  rcases connect_ok connected with rfl | ⟨newpeer, -, start, -, free, rfl⟩
  · rw [List.drop_length] at pushes
    obtain rfl : top = state.top := pushes
    exact again
  · have entries : turns (Function.update state.started state.host.brk state.clock state.host.brk) state.host.brk =
        [(BitVec.ofNat 32 state.clock + 1500, state.host.brk), (BitVec.ofNat 32 state.clock + 3000, state.host.brk),
          (BitVec.ofNat 32 state.clock + 4500, state.host.brk)] := by
      simp only [turns, turn, Function.update_self, BitVec.ofNat_add]
      rfl
    rw [List.drop_left, ← entries] at pushes
    refine again.attempt (Function.update_self ..) start free pushes ?_ spans
    simp only [entries]

/-- Only its last round is left of an attempt whose last round is at the top. -/
theorem Inv.last_turn {state : RetryState} (inv : Inv state) {entry other : Retry} (top : state.top = some entry)
    (last : entry = turn (state.started entry.2) entry.2 3) (member : other ∈ state.host.retryQueue)
    (same : other.2 = entry.2) : other = entry := by
  have shows := inv.shows
  rw [top] at shows
  obtain ⟨-, round, positive, few, named, -⟩ := inv.queued other member
  rw [same] at named
  have first : IsTop state.host.retryQueue (turn (state.started entry.2) entry.2 3) := last ▸ shows
  have least := turn_le_of_isTop first le_rfl (named ▸ member)
  obtain rfl : round = 3 := by omega
  exact named.trans last.symm

/-- The entry that leaves the queue is over, so the next round of its attempt is due within one wait. -/
theorem Inv.pop {state : RetryState} (inv : Inv state) {entry : Retry} (past : due state.started entry ≤ state.clock)
    {top : Option Retry} (shows : Shows (state.host.retryQueue.erase entry) top) :
    Inv { state with host := state.host.popRetry entry, top := top, reading := none } where
  attempts := inv.attempts
  table := inv.table
  queued := by
    intro other member
    obtain ⟨live, round, positive, few, same, after⟩ := inv.queued other (List.mem_of_mem_erase member)
    refine ⟨live, round, positive, few, same, ?_⟩
    by_cases removed : turn (state.started other.2) other.2 (round - 1) = entry
    · right
      rw [← removed, due_turn _ _ (by omega)] at past
      exact past
    · exact after.imp_left fun earlier => (List.mem_erase_of_ne removed).mpr earlier
  distinct := inv.distinct.erase entry
  shows := shows
  waiting := by
    intro other wake reading
    cases reading
  gone := inv.gone
  once := inv.once

/-- A prepeer is deleted when no entry and no address refers to it any more. -/
theorem Inv.delete {state : RetryState} (inv : Inv state) {pointer : Ptr} {prepeer : CPrePeer}
    (here : state.host.cPrePeer pointer = some prepeer)
    (unqueued : ∀ entry ∈ state.host.retryQueue, entry.2 ≠ pointer) :
    Inv { state with
      host := { state.host with
        cPrePeers := erase state.host.cPrePeers (addrToUint64 prepeer.remoteAddr)
        cPrePeer := erase state.host.cPrePeer pointer }
      deleted := state.deleted ++ [pointer] } where
  attempts := fun other left found => inv.attempts other left (erase_eq_some.mp found).2
  table := by
    intro addrport other mapped
    obtain ⟨apart, mapped⟩ := erase_eq_some.mp mapped
    obtain ⟨left, found, named⟩ := inv.table addrport other mapped
    refine ⟨left, erase_eq_some.mpr ⟨?_, found⟩, named⟩
    rintro rfl
    obtain rfl := Option.some.inj (here.symm.trans found)
    exact apart named.symm
  queued := by
    intro entry member
    dsimp only
    rw [erase_other (unqueued entry member)]
    exact inv.queued entry member
  distinct := inv.distinct
  shows := inv.shows
  waiting := inv.waiting
  gone := by
    intro other deleted
    rcases List.mem_append.mp deleted with before | now
    · obtain ⟨allocated, none⟩ := inv.gone other before
      refine ⟨allocated, ?_⟩
      by_cases same : other = pointer
      · subst same
        exact erase_self
      · dsimp only
        rw [erase_other same]
        exact none
    · obtain rfl := List.mem_singleton.mp now
      exact ⟨(inv.attempts other prepeer here).1, erase_self⟩
  once := by
    apply inv.once.append (List.nodup_singleton pointer)
    intro other before now
    obtain rfl := List.mem_singleton.mp now
    rw [(inv.gone other before).2] at here
    cases here

/-- Only the entry of the last round ends its attempt. -/
theorem Inv.expires {state : RetryState} (inv : Inv state) {entry : Retry} (top : state.top = some entry)
    {prepeer : CPrePeer} (here : state.host.cPrePeer entry.2 = some prepeer)
    (old : 4500 ≤ (entry.1 - prepeer.starttime).toInt) : entry = turn (state.started entry.2) entry.2 3 := by
  obtain ⟨round, few, same, -⟩ := inv.top_turn top
  rw [(inv.attempts entry.2 prepeer here).2.1, same] at old
  obtain rfl : round = 3 := turn_expires few old
  exact same

theorem Inv.process {state : RetryState} (inv : Inv state) {entry removed : Retry} {wake : Nat} {code : Int}
    {sent : List Sent} {next : Host} {top : Option Retry} (reading : state.reading = some (entry, wake))
    (slept : wake ≤ state.clock) (retried : state.host.retry entry = .ok (code, sent, next))
    (removes : state.top = some removed) (shows : Shows (next.popRetry removed).retryQueue top) :
    Inv { state with
      host := next.popRetry removed
      top := top
      reading := none
      deleted := state.deleted ++ if (next.cPrePeer entry.2).isNone then [entry.2] else [] } := by
  obtain ⟨here, early, -⟩ := inv.waiting entry wake reading
  obtain rfl : removed = entry := Option.some.inj (removes.symm.trans here)
  obtain ⟨prepeer, live, rfl | ⟨-, old, rfl⟩⟩ := retry_ok retried
  · have popped := inv.pop (early.trans slept) shows
    simpa [live] using popped
  · have last := inv.expires here live old
    have popped := inv.pop (early.trans slept) shows
    have deleted := popped.delete live ?_
    · simpa [Host.popRetry] using deleted
    · intro other member same
      have equal := inv.last_turn here last (List.mem_of_mem_erase member) same
      exact inv.distinct.not_mem_erase (equal ▸ member)

theorem Inv.step {state next : RetryState} (inv : Inv state) (stepped : Step state next) (spans : Spans next) :
    Inv next := by
  cases stepped with
  | tick ordered => exact inv.tick ordered
  | inbound _ _ _ _ listened => exact inv.keeps (.of_listener listened)
  | connect _ _ _ _ _ connected pushes => exact inv.connect connected pushes spans
  | quiet _ outside stepped => exact inv.keeps (.of_quiet outside stepped)
  | read _ _ top => exact inv.read top
  | process reading slept retried removes shows => exact inv.process reading slept retried removes shows

/-- A host that runs at some time, with a `Connecter` that read nothing yet. -/
def start (myPublicKey : Memory) (pools : Pools) (clock : Nat) : RetryState where
  host := altusHost myPublicKey pools
  clock := clock
  started := fun _ => 0
  top := none
  reading := none
  deleted := []

theorem start_inv (myPublicKey : Memory) (pools : Pools) (clock : Nat) : Inv (start myPublicKey pools clock) where
  attempts := fun _ _ impossible => nomatch impossible
  table := fun _ _ impossible => nomatch impossible
  queued := fun _ impossible => nomatch impossible
  distinct := List.nodup_nil
  shows := rfl
  waiting := fun _ _ impossible => nomatch impossible
  gone := fun _ impossible => nomatch impossible
  once := List.nodup_nil

/-- In every run the entry that `pop` removes is the entry that was read, every prepeer is deleted at most once,
and neither the queue nor the table refers to a deleted prepeer. -/
theorem run_sound {myPublicKey : Memory} {pools : Pools} {clock : Nat} {state : RetryState}
    (run : Relation.ReflTransGen (fun before after => Step before after ∧ Spans after)
      (start myPublicKey pools clock) state) : Sound state := by
  apply Inv.sound
  induction run with
  | refl => exact start_inv myPublicKey pools clock
  | tail _ last ih => exact ih.step last.1 last.2

/-- `Connecter` reads the top, sleeps no longer than it has to and processes what it read. -/
theorem iterate {state later : RetryState} {entry : Retry} {code : Int} {sent : List Sent} {next : Host}
    {first : Option Retry} (idle : state.reading = none) (top : state.top = some entry) (spans : Spans state)
    (retried : state.host.retry entry = .ok (code, sent, next)) (shows : Shows (next.popRetry entry).retryQueue first)
    (made : later = { state with
      clock := state.clock + (entry.1 - BitVec.ofNat 32 state.clock).toInt.toNat
      host := next.popRetry entry
      top := first
      reading := none
      deleted := state.deleted ++ if (next.cPrePeer entry.2).isNone then [entry.2] else [] })
    (spansLater : Spans later) :
    Relation.ReflTransGen (fun before after => Step before after ∧ Spans after) state later := by
  subst made
  have read := Step.read state entry idle top
  have slept := Step.tick { state with
    reading := some (entry, state.clock + (entry.1 - BitVec.ofNat 32 state.clock).toInt.toNat) }
    (Nat.le_add_right state.clock (entry.1 - BitVec.ofNat 32 state.clock).toInt.toNat)
  apply Relation.ReflTransGen.head ⟨read, spans⟩
  apply Relation.ReflTransGen.head ⟨slept, spans⟩
  apply Relation.ReflTransGen.single
  exact ⟨.process _ rfl le_rfl retried top shows, spansLater⟩

/-- An attempt that nobody answers is deleted after its third round. -/
theorem run_sound_unanswered : ∃ state, Sound state ∧ state.deleted = [0] := by
  have pushes : Pushes [] none [(1500, 0), (3000, 0), (4500, 0)] (some (1500, 0)) :=
    ⟨some (1500, 0), ⟨by decide, nofun⟩, some (1500, 0), ⟨by decide, fun _ here _ => here⟩,
      some (1500, 0), ⟨by decide, fun _ here _ => here⟩, rfl⟩
  have connected : Relation.ReflTransGen (fun before after => Step before after ∧ Spans after)
      (start (fun _ => 0) blank.pools 0) _ :=
    .single ⟨.connect _ 1 2 (fun _ => 0) 0 blankRaw rfl pushes, by decide⟩
  have first := connected.trans (iterate rfl rfl (by decide) rfl (by decide : Shows _ (some (3000, 0))) rfl (by decide))
  have second := first.trans (iterate rfl rfl (by decide) rfl (by decide : Shows _ (some (4500, 0))) rfl (by decide))
  have third := second.trans (iterate rfl rfl (by decide) rfl (by decide : Shows _ none) rfl (by decide))
  exact ⟨_, run_sound third, rfl⟩

end RetryState

end Altus
