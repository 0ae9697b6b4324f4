import Altus.Proof.Window.Deliver
import Altus.Proof.Window.Initial

namespace Altus.WindowedQueue

open Bytes Runs UBList

/-- The window stands for a queue of bytes and lists no block. -/
def Queues (state : WQState) (queue : List Byte) : Prop :=
  ∃ view content, Represents state view ∧ Reading state view ∧ Reads state view content ∧ view.runs = [] ∧
    queue = read (shift content (front state view)) (unread state view)

/-- A block at `lastSeq` needs more nodes than the window has left. -/
def Crowded (state : WQState) (length : U32) : Prop :=
  state.window.windowSize < state.window.safeLen + (length / nodeSpan + 1)

instance (state : WQState) (length : U32) : Decidable (Crowded state length) := inferInstanceAs (Decidable (_ < _))

section Put

variable {state : WQState} {view : View} {length : U32}

/-- The whole window check is the only check that can fail at `lastSeq` of a window without listed blocks. -/
theorem Represents.accepts_next (represents : Represents state view) (noRuns : view.runs = []) :
    (Accepts state.window state.window.lastSeq length ↔ ¬ Crowded state length) ∧
      (Crowded state length → refusal state.window state.window.lastSeq length = -3) := by
  have notLate : ¬ 0 < (state.window.lastSeq - state.window.lastSeq).toInt := by simp
  have count : state.window.ubList.count = 0 := by
    rw [represents.lists.count, noRuns]
    rfl
  have listed : (altusUBCheck state.window.ubList state.window.lastSeq length).1 = ubenumNewUBAdded := by
    rw [altusUBCheck, count]
    simp [altusUBCheckFrom, count]
  have span : state.window.lastSeq + length - state.window.lastSeq = length := by bv_omega
  refine ⟨⟨fun accepts => ?_, fun room => ?_⟩, fun crowded => ?_⟩
  · have room := accepts.2.1
    rwa [PassesWindow, span] at room
  · refine ⟨notLate, ?_, Or.inr listed⟩
    rwa [PassesWindow, span]
  · rw [refusal, if_neg notLate, if_pos]
    rwa [span]

/-- The view after a block was appended at `lastSeq`. -/
theorem Grows.appended {nextView : View} {next : WQState} {count : Nat} (noRuns : view.runs = [])
    (grows : Grows view view.position (view.position + count) nextView) (represents : Represents next nextView) :
    nextView.position = view.position + count ∧ nextView.runs = [] := by
  have union := grows.union
  rw [noRuns, covered_nil, Set.empty_union] at union
  have beyond := represents.beyond
  have forward := grows.forward
  have notListed : nextView.position ∉ covered nextView.runs := Canonical.not_covered_of_lt beyond
  have position : nextView.position = view.position + count := by
    rcases Nat.lt_trichotomy nextView.position (view.position + count) with short | equal | long
    · have member : nextView.position ∈ Set.Ico view.position (view.position + count) := ⟨forward, short⟩
      rw [← union] at member
      rcases member with listed | ⟨-, inside⟩
      · exact absurd listed notListed
      · exact absurd inside (lt_irrefl _)
    · exact equal
    · have member : view.position + count ∈ covered nextView.runs ∪
          Set.Ico view.position nextView.position := Or.inr ⟨Nat.le_add_right _ _, long⟩
      rw [union] at member
      exact absurd member.2 (lt_irrefl _)
  refine ⟨position, ?_⟩
  cases runs : nextView.runs with
  | nil => rfl
  | cons run rest =>
      have member : run ∈ nextView.runs := by rw [runs]; simp
      have start : run.1 ∈ covered nextView.runs ∪ Set.Ico view.position nextView.position :=
        Or.inl (represents.canonical.start_covered member)
      rw [union] at start
      have above := beyond run member
      have below := start.2
      omega

/-- A put of no bytes at `lastSeq` changes no byte and no position. -/
theorem Represents.put_nothing (represents : Represents state view) (noRuns : view.runs = [])
    (accepts : Accepts state.window state.window.lastSeq 0) (data : Memory) :
    ∃ next, altusWQPut state state.window.lastSeq 0 data = .ok (0, [], next) ∧ Represents next view ∧
      (∀ pointer, (next.heap.node pointer).data = (state.heap.node pointer).data) ∧
      next.window.headDataOffset = state.window.headDataOffset := by
  have count : state.window.ubList.count = 0 := by
    rw [represents.lists.count, noRuns]
    rfl
  have blockIs : (listBlock state state.window.lastSeq 0).window.ubList =
      { headSeq := Function.update state.window.ubList.headSeq 0 state.window.lastSeq
        tailSeq := Function.update state.window.ubList.tailSeq 0 (state.window.lastSeq + 0)
        count := 1 } := by
    rw [listBlock, altusUBCheck, count]
    simp [altusUBCheckFrom, count]
  have ordered := represents.ordered
  have depth : view.origin + view.depth = view.position := Nat.add_sub_of_le ordered
  have looped : copyLoop 0 data ((0 : U32).toNat + 2) (listBlock state state.window.lastSeq 0)
      (some (listBlock state state.window.lastSeq 0).window.safeTail)
      ((listBlock state state.window.lastSeq 0).window.lastSeq -
        ((listBlock state state.window.lastSeq 0).heap.node
          (listBlock state state.window.lastSeq 0).window.safeTail).validBlockCount)
      state.window.lastSeq 0 = .ok ([], listBlock state state.window.lastSeq 0) := by
    rw [copyLoop, if_pos rfl]
  obtain ⟨next, absorbed, joined⟩ := @absorb_joins (listBlock state state.window.lastSeq 0) _ _ view.origin
    view.depth _ _ { represents.formed with } represents.counts represents.lastSeq_split
    (by rw [blockIs]; simp [listBlock])
    (by rw [blockIs, depth, ← represents.lastSeq]; simp)
    (by omega) (by omega) represents.safeInside
  obtain ⟨safeTail, unsafeLen, window⟩ := joined.window
  refine ⟨next, ?_, ?_, joined.data, by rw [window]; rfl⟩
  · rw [altusWQPut_eq, if_pos accepts, deliver]
    simp only [looped, absorbed]
  · exact {
      formed := joined.formed
      counts := joined.counts
      ordered := ordered
      safeLen := by
        rw [window, Nat.sub_self]
        exact (BitVec.add_zero _).trans represents.safeLen
      lastSeq := by rw [window, depth]
      size := by rw [window]; exact represents.size
      shallow := by rw [window]; exact represents.shallow
      lists := by
        rw [window, noRuns]
        exact Lists.nil _ (by dsimp only; rw [altusUBPop, blockIs]; exact BitVec.sub_self 1)
      sorted := represents.sorted
      few := represents.few
      fits := by rw [noRuns]; simp
      reached := represents.reached
      beyond := represents.beyond
      nonempty := represents.nonempty }

/-- What a put of `count` bytes at `lastSeq` leaves behind. -/
structure Appended (state : WQState) (view : View) (content : Memory) (count : Nat) (data : Memory)
    (next : WQState) (nextView : View) : Prop where
  represents : Represents next nextView
  offset : next.window.headDataOffset = state.window.headDataOffset
  origin : nextView.origin = view.origin
  position : nextView.position = view.position + count
  runs : nextView.runs = []
  reads : Reads next nextView (memcpy content view.position data count)

/-- The reader stays where it is. -/
theorem Appended.reading {content data : Memory} {count : Nat} {next : WQState} {nextView : View}
    (appended : Appended state view content count data next nextView) (reading : Reading state view) :
    Reading next nextView := by
  have consumed := reading.consumed
  refine ⟨by rw [appended.offset]; exact reading.offset, ?_⟩
  rw [View.depth] at consumed
  rw [appended.offset, View.depth, appended.position, appended.origin]
  omega

/-- A put at `lastSeq` continues the content of a window without listed blocks, or answers -3 for want of room. -/
theorem Represents.put_next {content : Memory} (represents : Represents state view)
    (reads : Reads state view content) (noRuns : view.runs = []) (length : U32) (data : Memory) :
    (Crowded state length ∧ altusWQPut state state.window.lastSeq length data = .ok (-3, [], state)) ∨
      ¬ Crowded state length ∧ ∃ copies next nextView,
        altusWQPut state state.window.lastSeq length data = .ok (0, copies, next) ∧
          Appended state view content length.toNat data next nextView := by
  have decided := @Represents.accepts_next _ _ length represents noRuns
  by_cases crowded : Crowded state length
  · left
    have refused : ¬ Accepts state.window state.window.lastSeq length := fun accepts => decided.1.mp accepts crowded
    refine ⟨crowded, ?_⟩
    rw [altusWQPut_refused data refused, decided.2 crowded]
  · right
    have accepts := decided.1.mpr crowded
    refine ⟨crowded, ?_⟩
    rcases Nat.eq_zero_or_pos length.toNat with zero | positive
    · obtain rfl : length = 0 := BitVec.eq_of_toNat_eq zero
      obtain ⟨next, returned, nextRepresents, sameData, sameOffset⟩ :=
        represents.put_nothing noRuns accepts data
      refine ⟨[], next, view, returned, nextRepresents, sameOffset, rfl, rfl, noRuns, ?_⟩
      intro point above below
      rw [zero, memcpy_zero, ← reads point above below]
      simp only [stored, sameData]
    · have short : (state.window.lastSeq - state.window.lastSeq).toNat + length.toNat < 2 ^ 32 := by
        rw [BitVec.sub_self]
        simpa using length.isLt
      have first : firstPosition state view state.window.lastSeq = view.position := by
        simp [firstPosition]
      have ordered := represents.ordered
      have depth : view.depth = view.position - view.origin := rfl
      have reach : InReach state state.window.lastSeq := by
        rw [represents.inReach_iff accepts short, first]
        omega
      have holds : Holds state view (memcpy content view.position data length.toNat) := by
        intro point above received
        rw [noRuns, covered_nil] at received
        have below : point < view.position := received.resolve_right (Set.notMem_empty point)
        rw [reads point above below, memcpy_outside (Or.inl below)]
      obtain ⟨copies, next, nextView, returned, nextRepresents, grows, -, nextHolds, -, -, sameOffset⟩ :=
        represents.put_delivers accepts short positive reach (by simp [View.Backed, noRuns]) holds (by
          intro index inside
          rw [first, memcpy_inside (by omega) (by omega), Nat.add_sub_cancel_left])
      rw [first] at grows
      obtain ⟨position, nextRuns⟩ := grows.appended noRuns nextRepresents
      refine ⟨copies, next, nextView, returned, nextRepresents, sameOffset, grows.origin, position, nextRuns, ?_⟩
      intro point above below
      exact nextHolds point above (Or.inl below)

/-- A put at `lastSeq` appends its bytes, or answers -3 for want of room and changes nothing. -/
theorem Queues.put {queue : List Byte} (queues : Queues state queue) (length : U32) (data : Memory) :
    (Crowded state length ∧ altusWQPut state state.window.lastSeq length data = .ok (-3, [], state)) ∨
      ¬ Crowded state length ∧ ∃ copies next,
        altusWQPut state state.window.lastSeq length data = .ok (0, copies, next) ∧
          Queues next (queue ++ read data length.toNat) := by
  obtain ⟨view, content, represents, reading, reads, noRuns, rfl⟩ := queues
  rcases represents.put_next reads noRuns length data with full | ⟨room, copies, next, nextView, returned, appended⟩
  · exact Or.inl full
  · right
    refine ⟨room, copies, next, returned, nextView, memcpy content view.position data length.toNat,
      appended.represents, appended.reading reading, appended.reads, appended.runs, ?_⟩
    have sameFront : front next nextView = front state view := by
      rw [front, front, appended.offset, appended.origin]
    have consumed := reading.consumed
    have ordered := represents.ordered
    have depth : view.depth = view.position - view.origin := rfl
    have frontPlus : front state view + unread state view = view.position := by
      rw [unread, front]
      omega
    have more : unread next nextView = unread state view + length.toNat := by
      rw [unread, sameFront, appended.position]
      omega
    rw [more, sameFront, read_add, shift_shift, frontPlus]
    congr 1
    · apply read_congr
      intro index inside
      rw [shift, shift, memcpy_outside (by omega)]
    · apply read_congr
      intro index inside
      rw [shift, memcpy_inside (by omega) (by omega), Nat.add_sub_cancel_left]

end Put

/-- The destination after a pop delivered `bytes` to it. -/
def deliveredTo (bytes : List Byte) (dest : Option Memory) : Option Memory :=
  dest.map fun memory => memcpy memory 0 (fun index => bytes.getD index 0) bytes.length

/-- A pop delivers and removes the first bytes of the queue, as many as there are. -/
theorem Queues.pop {state : WQState} {queue : List Byte} (queues : Queues state queue) (length : Nat)
    (dest : Option Memory) :
    ∃ next, altusWQPop state (length : Int) dest = .ok (((min length queue.length : Nat) : Int),
        deliveredTo (queue.take (min length queue.length)) dest, next) ∧
      Queues next (queue.drop (min length queue.length)) := by
  obtain ⟨view, content, represents, reading, reads, noRuns, rfl⟩ := queues
  obtain ⟨next, nextView, returned, popped⟩ := altusWQPop_spec represents reading reads length dest
  rw [read_length]
  generalize few : min length (unread state view) = count at *
  have split : unread state view = count + (unread state view - count) := by omega
  have queueIs : Bytes.read (shift content (front state view)) (unread state view) =
      Bytes.read (shift content (front state view)) count ++
        Bytes.read (shift content (front state view + count)) (unread state view - count) := by
    rw [← shift_shift, ← read_add, ← split]
  have taken : (Bytes.read (shift content (front state view)) (unread state view)).take count =
      Bytes.read (shift content (front state view)) count := by
    rw [queueIs]
    exact List.take_left' (read_length _ _)
  have left : (Bytes.read (shift content (front state view)) (unread state view)).drop count =
      Bytes.read (shift content (front state view + count)) (unread state view - count) := by
    rw [queueIs]
    exact List.drop_left' (read_length _ _)
  have filled : received content (front state view) 0 count dest =
      deliveredTo (Bytes.read (shift content (front state view)) count) dest := by
    rw [received, deliveredTo, read_length]
    congr 1
    funext memory
    apply memcpy_congr
    intro index inside
    exact (read_getD _ 0 inside).symm
  rw [taken, left, ← filled]
  refine ⟨next, returned, nextView, content, popped.represents, popped.reading, popped.reads reads, ?_, ?_⟩
  · rw [popped.sequence.2.1, noRuns]
  · rw [popped.front, popped.unread]

/-- One operation on the window of a sender. -/
inductive Operation where
  | put (length : U32) (data : Memory)
  | pop (length : Nat) (dest : Option Memory)

/-- The calls of a list of operations, next to the operations of a FIFO queue.
`sent` are the appended bytes and `taken` the removed bytes, in order. -/
inductive Lockstep : WQState → List Byte → List Operation → (sent taken : List Byte) → WQState → List Byte → Prop
  | done (state : WQState) (queue : List Byte) : Lockstep state queue [] [] [] state queue
  | full {state final : WQState} {queue finalQueue sent taken : List Byte} {rest : List Operation}
      (length : U32) (data : Memory) (crowded : Crowded state length)
      (returned : altusWQPut state state.window.lastSeq length data = .ok (-3, [], state))
      (later : Lockstep state queue rest sent taken final finalQueue) :
      Lockstep state queue (.put length data :: rest) sent taken final finalQueue
  | put {state next final : WQState} {queue finalQueue sent taken : List Byte} {rest : List Operation}
      (length : U32) (data : Memory) {copies : List Copy} (room : ¬ Crowded state length)
      (returned : altusWQPut state state.window.lastSeq length data = .ok (0, copies, next))
      (later : Lockstep next (queue ++ Bytes.read data length.toNat) rest sent taken final finalQueue) :
      Lockstep state queue (.put length data :: rest) (Bytes.read data length.toNat ++ sent) taken final finalQueue
  | pop {state next final : WQState} {queue finalQueue sent taken : List Byte} {rest : List Operation}
      (length : Nat) (dest : Option Memory)
      (returned : altusWQPop state (length : Int) dest = .ok (((min length queue.length : Nat) : Int),
        deliveredTo (queue.take (min length queue.length)) dest, next))
      (later : Lockstep next (queue.drop (min length queue.length)) rest sent taken final finalQueue) :
      Lockstep state queue (.pop length dest :: rest) sent (queue.take (min length queue.length) ++ taken)
        final finalQueue

/-- Every list of operations runs in lockstep with the queue. -/
theorem Queues.lockstep {state : WQState} {queue : List Byte} (queues : Queues state queue)
    (operations : List Operation) : ∃ sent taken final finalQueue,
      Lockstep state queue operations sent taken final finalQueue := by
  induction operations generalizing state queue with
  | nil => exact ⟨[], [], state, queue, .done state queue⟩
  | cons operation rest ih =>
      cases operation with
      | put length data =>
          rcases queues.put length data with ⟨crowded, full⟩ | ⟨room, copies, next, returned, nextQueues⟩
          · obtain ⟨sent, taken, final, finalQueue, later⟩ := ih queues
            exact ⟨_, _, _, _, .full length data crowded full later⟩
          · obtain ⟨sent, taken, final, finalQueue, later⟩ := ih nextQueues
            exact ⟨_, _, _, _, .put length data room returned later⟩
      | pop length dest =>
          obtain ⟨next, returned, nextQueues⟩ := queues.pop length dest
          obtain ⟨sent, taken, final, finalQueue, later⟩ := ih nextQueues
          exact ⟨_, _, _, _, .pop length dest returned later⟩

/-- The removed bytes and the queue are the appended bytes, however they are cut. -/
theorem Lockstep.conserves {state final : WQState} {queue sent taken finalQueue : List Byte}
    {operations : List Operation}
    (lockstep : Lockstep state queue operations sent taken final finalQueue) :
    taken ++ finalQueue = queue ++ sent := by
  induction lockstep with
  | done state queue => simp
  | full length data crowded returned later ih => exact ih
  | put length data room returned later ih => rw [ih, List.append_assoc]
  | pop length dest returned later ih =>
      rw [List.append_assoc, ih, ← List.append_assoc, List.take_append_drop]

/-- An empty window stands for the empty queue. -/
theorem Empty.queues {state : WQState} (empty : Empty state)
    (size : state.window.windowSize = windowBlockMaxDefault) : Queues state [] := by
  obtain ⟨cells, free, represents, reading⟩ := empty.represents (Serial.ofNat_toNat _).symm
    (by rw [size]; decide) (by rw [size]; decide)
  refine ⟨_, fun _ => 0, represents, reading, ?_, rfl, ?_⟩
  · intro point above below
    dsimp only at above below
    omega
  · have nothing : unread state ⟨cells, free, state.window.lastSeq.toNat, state.window.lastSeq.toNat, []⟩ = 0 := by
      rw [unread, front]
      dsimp only
      omega
    rw [nothing, read_zero]

/-- The window refines a FIFO queue of bytes over every list of operations. -/
theorem window_refines_fifo {state : WQState} (empty : Empty state)
    (size : state.window.windowSize = windowBlockMaxDefault) (operations : List Operation) :
    ∃ sent taken final queue, Lockstep state [] operations sent taken final queue ∧ taken ++ queue = sent := by
  obtain ⟨sent, taken, final, queue, lockstep⟩ := (empty.queues size).lockstep operations
  exact ⟨sent, taken, final, queue, lockstep, lockstep.conserves⟩

/-- A new window has no room for 2^29 bytes, takes a put of the bytes 5 and 9 and delivers them in two pops. -/
theorem window_refines_fifo_fresh : ∃ sent taken final queue,
    Lockstep (fresh blankHeap blankWindow) []
      [.put 0x20000000 (fun _ => 7), .put 2 (fun index => if index = 0 then 5 else 9), .pop 1 none,
        .pop 5 (some fun _ => 0)] sent taken final queue ∧
      taken ++ queue = sent ∧ sent = [5, 9] ∧ taken = [5, 9] ∧ queue = [] := by
  obtain ⟨sent, taken, final, queue, lockstep, conserved⟩ := window_refines_fifo (fresh_empty blankHeap blankWindow) rfl
    [.put 0x20000000 (fun _ => 7), .put 2 (fun index => if index = 0 then 5 else 9), .pop 1 none,
      .pop 5 (some fun _ => 0)]
  refine ⟨sent, taken, final, queue, lockstep, conserved, ?_⟩
  cases lockstep with
  | put _ _ room _ _ => exact absurd (by decide) room
  | full _ _ _ _ later =>
      cases later with
      | full _ _ crowded _ _ => exact absurd crowded (by decide)
      | put _ _ _ _ later =>
          cases later with
          | pop _ _ _ later =>
              cases later with
              | pop _ _ _ later =>
                  cases later
                  exact ⟨rfl, rfl, rfl⟩

end Altus.WindowedQueue
