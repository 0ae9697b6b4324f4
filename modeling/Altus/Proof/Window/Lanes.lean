import Altus.Proof.Window.Extension
import Altus.Proof.Window.Freeing

namespace Altus.WindowedQueue

open Bytes Chain Runs UBList

section Foreign

variable {shared next : SharedPool} {chain nextChain : Option Nat → List Ptr} {index other : Nat} {window : WQWindow}

/-- A window that a call on another one leaves alone stands as it did. -/
theorem Apart.stays (apart : Apart shared chain none) (here : shared.windows[index]? = some window)
    (nextApart : Apart next nextChain none) (there : next.windows[other]? = some window)
    (sameNodes : ∀ pointer ∈ chain (some index), next.heap.node pointer = shared.heap.node pointer) {view : View}
    (tracks : Tracks (shared.view window) view) :
    Stays (shared.view window) (next.view window) view (nextChain none) := by
  have cells := apart.cells here tracks.formed
  have sameChain : nextChain (some other) = view.cells := by
    rw [cells]
    refine (nextApart.doubly.linked _).unique ((apart.doubly.linked (some index)).congr ?_) ?_
    · intro pointer member
      rw [links, links, sameNodes pointer member]
    · rw [← List.head?_eq_getElem?, ← List.head?_eq_getElem?, (nextApart.windows other window there).1,
        (apart.windows index window here).1]
  refine ⟨rfl, ?_, fun pointer member => sameNodes pointer (cells ▸ member)⟩
  rw [← sameChain]
  exact nextApart.formed there (by rw [sameChain]; exact tracks.formed.safe)

end Foreign

/-- What a window has to deliver and what the application popped from it. -/
structure Lane where
  stream : List Byte
  popped : List Byte

/-- Windows that share one pool. The lane of a freed window is `none`. -/
structure Lanes where
  shared : SharedPool
  lanes : List (Option Lane)

/-- One call of a host on one of its windows. -/
inductive LaneCall where
  /-- A new window, and the stream that is going to arrive at it. -/
  | newWindow (raw : WQWindow) (stream : List Byte)
  /-- `CreateUpstream` puts bytes at `lastSeq`. -/
  | append (index : Nat) (length : U32) (data : Memory)
  /-- A block of the stream arrives, or the application pops. -/
  | arrive (index : Nat) (arrival : Arrival)
  | free (index : Nat)

/-- What a call on the window of an index leaves behind. -/
def Lanes.set (tenants : Lanes) (index : Nat) (state : WQState) (lane : Lane) : Lanes :=
  ⟨tenants.shared.put index state, tenants.lanes.set index (some lane)⟩

/-- A call on the window of an index, with its lane. No call is made on a freed window. -/
def Lanes.on (tenants : Lanes) (index : Nat) (call : WQWindow → Lane → Except Fault (List Copy × Lanes)) :
    Except Fault (List Copy × Lanes) :=
  match tenants.shared.windows[index]?, tenants.lanes[index]? with
  | some window, some (some lane) => call window lane
  | _, _ => .ok ([], tenants)

/-- The call answers its `memcpy` calls into nodes and the windows after it. -/
def LaneCall.perform (tenants : Lanes) : LaneCall → Except Fault (List Copy × Lanes)
  | .newWindow raw stream =>
      let (window, heap) := altusNewWindow tenants.shared.heap raw
      .ok ([], ⟨⟨heap, tenants.shared.pool, tenants.shared.windows ++ [window]⟩, tenants.lanes ++ [some ⟨stream, []⟩]⟩)
  | .append index length data => tenants.on index fun window lane =>
      (altusWQPut (tenants.shared.view window) window.lastSeq length data).map fun (code, copies, state) =>
        (copies, tenants.set index state
          { lane with stream := lane.stream ++ if code = 0 then Bytes.read data length.toNat else [] })
  | .arrive index arrival => tenants.on index fun window lane =>
      (arrival.perform lane.stream (tenants.shared.view window)).map fun (copies, bytes, state) =>
        (copies, tenants.set index state { lane with popped := lane.popped ++ bytes })
  | .free index => tenants.on index fun window _ =>
      (altusFreeWQ tenants.shared.heap window).map fun _ => ([], { tenants with lanes := tenants.lanes.set index none })

/-- Every window that is not freed delivers its own stream. -/
def Lanes.Intact (tenants : Lanes) : Prop :=
  ∀ (index : Nat) (window : WQWindow) (lane : Lane), tenants.shared.windows[index]? = some window →
    tenants.lanes[index]? = some (some lane) →
    Delivers lane.stream (tenants.shared.view window) lane.popped

/-- Every call of the run returns and writes inside nodes, and every window delivers its own stream all along. -/
def Serves (tenants : Lanes) : List LaneCall → Prop
  | [] => tenants.Intact
  | call :: rest => tenants.Intact ∧ ∃ copies next, call.perform tenants = .ok (copies, next) ∧
      (∀ copy ∈ copies, copy.writeoffset + copy.writelen ≤ 4096) ∧ Serves next rest

/-- A new window starts at sequence number 0, bytes are only put behind a stream that arrived in full, and the blocks of
a stream are in reach. No stream has 2^31 bytes. -/
def LaneCall.Meets (tenants : Lanes) : LaneCall → Prop
  | .newWindow raw stream => raw.lastSeq = 0 ∧ stream.length < 2 ^ 31
  | .append index length _ => ∀ window lane, tenants.shared.windows[index]? = some window →
      tenants.lanes[index]? = some (some lane) →
      window.ubList.count = 0 ∧ window.lastSeq.toNat = lane.stream.length ∧ lane.stream.length + length.toNat < 2 ^ 31
  | .arrive index arrival => ∀ window lane, tenants.shared.windows[index]? = some window →
      tenants.lanes[index]? = some (some lane) →
      arrival.OfStream lane.stream ∧ arrival.Reaches (tenants.shared.view window)
  | .free _ => True

instance (stream : List Byte) : (arrival : Arrival) → Decidable (arrival.OfStream stream)
  | .block _ _ => inferInstanceAs (Decidable (_ ∧ _ ∧ _))
  | .pop _ => isTrue trivial

instance (state : WQState) : (arrival : Arrival) → Decidable (arrival.Reaches state)
  | .block _ _ => inferInstanceAs (Decidable (_ → _))
  | .pop _ => isTrue trivial

/-- Whether something holds of a window that is not freed. -/
def decideHeld (window : Option WQWindow) (lane : Option (Option Lane)) (holds : WQWindow → Lane → Prop)
    [∀ window lane, Decidable (holds window lane)] :
    Decidable (∀ here held, window = some here → lane = some (some held) → holds here held) :=
  match window, lane with
  | some window, some (some lane) => decidable_of_iff (holds window lane)
      ⟨fun true here held found stays => by cases found; cases stays; exact true, fun all => all window lane rfl rfl⟩
  | none, _ => isTrue fun _ _ found => by cases found
  | some _, none => isTrue fun _ _ _ stays => by cases stays
  | some _, some none => isTrue fun _ _ _ stays => by cases stays

instance (tenants : Lanes) : (call : LaneCall) → Decidable (call.Meets tenants)
  | .newWindow _ _ => inferInstanceAs (Decidable (_ ∧ _))
  | .append _ length _ => decideHeld _ _ fun window lane =>
      window.ubList.count = 0 ∧ window.lastSeq.toNat = lane.stream.length ∧ lane.stream.length + length.toNat < 2 ^ 31
  | .arrive _ arrival => decideHeld _ _ fun window lane =>
      arrival.OfStream lane.stream ∧ arrival.Reaches (tenants.shared.view window)
  | .free _ => isTrue trivial

/-- Every call of the run meets its conditions. -/
def AllCallsMeet (tenants : Lanes) : List LaneCall → Prop
  | [] => True
  | call :: rest => call.Meets tenants ∧ ∀ copies next, call.perform tenants = .ok (copies, next) → AllCallsMeet next rest

/-- The windows own their nodes, and each one has received a part of its stream. -/
structure Serving (tenants : Lanes) (chain : Option Nat → List Ptr) : Prop where
  apart : Apart tenants.shared chain none
  same : tenants.lanes.length = tenants.shared.windows.length
  receiving : ∀ (index : Nat) (window : WQWindow) (lane : Lane), tenants.shared.windows[index]? = some window →
    tenants.lanes[index]? = some (some lane) → lane.stream.length < 2 ^ 31 ∧
    ∃ view, Receiving lane.stream (tenants.shared.view window) lane.popped view

section Serve

variable {tenants : Lanes} {chain : Option Nat → List Ptr}

theorem Serving.intact (serving : Serving tenants chain) : tenants.Intact := by
  intro index window lane here held
  obtain ⟨small, view, receiving⟩ := serving.receiving index window lane here held
  exact receiving.delivers small

/-- A call on one window changes its own reception only. -/
theorem Serving.set (serving : Serving tenants chain) {index : Nat} {window : WQWindow}
    (here : tenants.shared.windows[index]? = some window) {state : WQState} {stateChain : Option Nat → List Ptr}
    (kept : Midway index tenants.shared chain state stateChain) {lane : Lane} {view : View}
    (small : lane.stream.length < 2 ^ 31) (receiving : Receiving lane.stream state lane.popped view) :
    Serving (tenants.set index state lane) stateChain := by
  refine ⟨kept.apart, ?_, ?_⟩
  · rw [Lanes.set, SharedPool.put, List.length_set, List.length_set]
    exact serving.same
  · intro other otherWindow otherLane found held
    by_cases own : other = index
    · subst own
      have inside := (List.getElem?_eq_some_iff.mp here).1
      rw [Lanes.set, SharedPool.put, List.getElem?_set_self inside] at found
      rw [Lanes.set, List.getElem?_set_self (by rw [serving.same]; exact inside)] at held
      obtain rfl := Option.some.inj found
      obtain rfl := Option.some.inj (Option.some.inj held)
      exact ⟨small, view, receiving⟩
    · obtain ⟨sameWindow, -, sameNodes⟩ := kept.frame other own
      rw [Lanes.set, List.getElem?_set_ne (Ne.symm own)] at held
      have before := sameWindow.symm.trans found
      obtain ⟨otherSmall, otherView, otherReceiving⟩ := serving.receiving other otherWindow otherLane before held
      exact ⟨otherSmall, _,
        otherReceiving.stays (serving.apart.stays before kept.apart found sameNodes otherReceiving.represents.toTracks)⟩

/-- Without a window that is not freed nothing is called. -/
theorem Lanes.on_cases (tenants : Lanes) (index : Nat) :
    (∃ window lane, tenants.shared.windows[index]? = some window ∧ tenants.lanes[index]? = some (some lane) ∧
      ∀ call, tenants.on index call = call window lane) ∨ ∀ call, tenants.on index call = .ok ([], tenants) := by
  unfold Lanes.on
  split
  · rename_i window lane here held
    exact Or.inl ⟨window, lane, here, held, fun _ => rfl⟩
  · exact Or.inr fun _ => rfl

/-- A window that was just made is empty. -/
theorem Apart.newWindow_empty {shared : SharedPool} (apart : Apart shared chain none) (raw : WQWindow) :
    Empty ⟨(altusNewWindow shared.heap raw).2, shared.pool, (altusNewWindow shared.heap raw).1⟩ := by
  obtain ⟨made, -⟩ := apart.newWindow raw
  have formed := @Apart.formed _ _ shared.windows.length _ made List.getElem?_concat_length 0 (by
    rw [Function.update_self]
    rfl)
  refine ⟨⟨_, _, formed⟩, ?_, rfl, rfl, rfl⟩
  rw [altusNewWindow]
  dsimp only
  rw [WQHeap.modify_node_self]

/-- A new window has received nothing of its stream. -/
theorem Serving.newWindow (serving : Serving tenants chain) {raw : WQWindow} {stream : List Byte}
    (meets : (LaneCall.newWindow raw stream).Meets tenants) :
    ∃ copies next nextChain, (LaneCall.newWindow raw stream).perform tenants = .ok (copies, next) ∧
      (∀ copy ∈ copies, copy.writeoffset + copy.writelen ≤ 4096) ∧ Serving next nextChain := by
  obtain ⟨lastSeq, small⟩ := meets
  obtain ⟨apart, frame⟩ := serving.apart.newWindow raw
  refine ⟨[], _, _, rfl, by simp, apart, ?_, ?_⟩
  · rw [List.length_append, List.length_append, serving.same]
    rfl
  · intro index window lane here held
    dsimp only at here held ⊢
    by_cases own : index = tenants.shared.windows.length
    · subst own
      rw [List.getElem?_concat_length] at here
      rw [← serving.same, List.getElem?_concat_length] at held
      obtain rfl := Option.some.inj here
      obtain rfl := Option.some.inj (Option.some.inj held)
      obtain ⟨cells, free, receiving⟩ := (serving.apart.newWindow_empty raw).receiving lastSeq rfl stream
      exact ⟨small, _, receiving⟩
    · obtain ⟨sameWindow, -, sameNodes⟩ := frame index own
      have before := sameWindow.symm.trans here
      have held : tenants.lanes[index]? = some (some lane) := by
        rw [← held, List.getElem?_append_left]
        rw [serving.same]
        exact (List.getElem?_eq_some_iff.mp before).1
      obtain ⟨otherSmall, view, receiving⟩ := serving.receiving index window lane before held
      exact ⟨otherSmall, _, receiving.stays (serving.apart.stays before apart here sameNodes receiving.represents.toTracks)⟩

theorem Serving.append (serving : Serving tenants chain) {index : Nat} {length : U32} {data : Memory}
    (meets : (LaneCall.append index length data).Meets tenants) :
    ∃ copies next nextChain, (LaneCall.append index length data).perform tenants = .ok (copies, next) ∧
      (∀ copy ∈ copies, copy.writeoffset + copy.writelen ≤ 4096) ∧ Serving next nextChain := by
  rw [LaneCall.perform]
  rcases tenants.on_cases index with ⟨window, lane, here, held, called⟩ | idle
  · obtain ⟨empty, all, short⟩ := meets window lane here held
    obtain ⟨-, view, receiving⟩ := serving.receiving index window lane here held
    obtain ⟨code, copies, state, nextView, returned, inside, kept⟩ := receiving.append empty all short data
    change altusWQPut (tenants.shared.view window) window.lastSeq length data = _ at returned
    obtain ⟨nextChain, midway⟩ := (serving.apart.midway here).put returned
    refine ⟨copies, _, nextChain, by rw [called, returned]; rfl, inside, ?_⟩
    refine @Serving.set _ _ serving _ _ here _ _ midway { lane with stream := _ } _ ?_ kept
    have old := (serving.receiving index window lane here held).1
    rw [List.length_append]
    split
    · rw [read_length]
      exact short
    · exact old
  · exact ⟨[], tenants, chain, idle _, by simp, serving⟩

theorem Serving.arrive (serving : Serving tenants chain) {index : Nat} {arrival : Arrival}
    (meets : (LaneCall.arrive index arrival).Meets tenants) :
    ∃ copies next nextChain, (LaneCall.arrive index arrival).perform tenants = .ok (copies, next) ∧
      (∀ copy ∈ copies, copy.writeoffset + copy.writelen ≤ 4096) ∧ Serving next nextChain := by
  rw [LaneCall.perform]
  rcases tenants.on_cases index with ⟨window, lane, here, held, called⟩ | idle
  · obtain ⟨ofStream, reaches⟩ := meets window lane here held
    obtain ⟨small, view, receiving⟩ := serving.receiving index window lane here held
    cases arrival with
    | block seq length =>
        obtain ⟨copies, state, nextView, performed, inside, kept⟩ := receiving.block small ofStream reaches
        obtain ⟨answer, returned, same⟩ := map_ok performed
        obtain ⟨code, moves, after⟩ := answer
        obtain ⟨rfl, rest⟩ := Prod.mk.inj same
        obtain ⟨-, rfl⟩ := Prod.mk.inj rest
        obtain ⟨nextChain, midway⟩ := (serving.apart.midway here).put returned
        refine ⟨_, _, nextChain, by rw [called, performed]; rfl, inside, ?_⟩
        exact serving.set here midway small (by rw [List.append_nil]; exact kept)
    | pop length =>
        obtain ⟨state, nextView, performed, kept⟩ := receiving.pop length
        obtain ⟨answer, returned, same⟩ := map_ok performed
        obtain ⟨taken, filled, after⟩ := answer
        obtain ⟨-, rest⟩ := Prod.mk.inj same
        obtain ⟨-, rfl⟩ := Prod.mk.inj rest
        obtain ⟨nextChain, midway⟩ := (serving.apart.midway here).pop returned
        refine ⟨_, _, nextChain, by rw [called, performed]; rfl, by simp, ?_⟩
        exact serving.set here midway small kept
  · exact ⟨[], tenants, chain, idle _, by simp, serving⟩

theorem Serving.free (serving : Serving tenants chain) (index : Nat) :
    ∃ copies next, (LaneCall.free index).perform tenants = .ok (copies, next) ∧
      (∀ copy ∈ copies, copy.writeoffset + copy.writelen ≤ 4096) ∧ Serving next chain := by
  rw [LaneCall.perform]
  rcases tenants.on_cases index with ⟨window, lane, here, held, called⟩ | idle
  · refine ⟨[], { tenants with lanes := tenants.lanes.set index none }, ?_, by simp, serving.apart, ?_, ?_⟩
    · rw [called, altusFreeWQ_freed, serving.apart.freedByWQ here]
      rfl
    · rw [List.length_set]
      exact serving.same
    · intro other otherWindow otherLane found stillHeld
      dsimp only at stillHeld
      by_cases own : other = index
      · subst own
        rw [List.getElem?_set_self (List.getElem?_eq_some_iff.mp held).1] at stillHeld
        cases stillHeld
      · rw [List.getElem?_set_ne (Ne.symm own)] at stillHeld
        exact serving.receiving other otherWindow otherLane found stillHeld
  · exact ⟨[], tenants, idle _, by simp, serving⟩

/-- Every call that meets its conditions returns and keeps all receptions. -/
theorem Serving.step (serving : Serving tenants chain) {call : LaneCall} (meets : call.Meets tenants) :
    ∃ copies next nextChain, call.perform tenants = .ok (copies, next) ∧
      (∀ copy ∈ copies, copy.writeoffset + copy.writelen ≤ 4096) ∧ Serving next nextChain := by
  cases call with
  | newWindow raw stream => exact serving.newWindow meets
  | append index length data => exact serving.append meets
  | arrive index arrival => exact serving.arrive meets
  | free index =>
      obtain ⟨copies, next, kept⟩ := serving.free index
      exact ⟨copies, next, chain, kept⟩

theorem Serving.run (serving : Serving tenants chain) {calls : List LaneCall} (meet : AllCallsMeet tenants calls) :
    Serves tenants calls := by
  induction calls generalizing tenants chain with
  | nil => exact serving.intact
  | cons call rest ih =>
      obtain ⟨copies, next, nextChain, performed, inside, kept⟩ := serving.step meet.1
      exact ⟨serving.intact, copies, next, performed, inside, ih kept (meet.2 copies next performed)⟩

end Serve

/-- A pool before its first window. -/
def Lanes.start (node : Ptr → WQNode) : Lanes := ⟨SharedPool.start node, []⟩

theorem Lanes.start_serving (node : Ptr → WQNode) :
    Serving (Lanes.start node) fun owner => if owner = none then [0] else [] := by
  refine ⟨start_apart node, rfl, ?_⟩
  intro index window lane here held
  cases held

/-- Windows that share one pool deliver their own streams in every interleaving of their calls. -/
theorem run_serves (node : Ptr → WQNode) {calls : List LaneCall} (meet : AllCallsMeet (Lanes.start node) calls) :
    Serves (Lanes.start node) calls := (Lanes.start_serving node).run meet

/-- The windows after a call that returns. -/
def afterCall (tenants : Lanes) (call : LaneCall) : Lanes :=
  match call.perform tenants with
  | .ok (_, next) => next
  | .error _ => tenants

theorem AllCallsMeet.cons {tenants : Lanes} {call : LaneCall} {rest : List LaneCall} (meets : call.Meets tenants)
    (later : AllCallsMeet (afterCall tenants call) rest) : AllCallsMeet tenants (call :: rest) := by
  refine ⟨meets, ?_⟩
  intro copies next performed
  rwa [afterCall, performed] at later

/-- The bytes of two windows arrive in turns, and one of them is freed before the other one is read. -/
theorem run_serves_two : Serves (Lanes.start blankHeap.node)
    [.newWindow blankWindow [], .newWindow blankWindow [1, 2], .append 0 3 (fun _ => 7), .arrive 1 (.block 1 1),
      .arrive 0 (.pop 2), .arrive 1 (.block 0 1), .free 0, .arrive 1 (.pop 5)] := by
  refine run_serves blankHeap.node ?_
  refine .cons (by decide) (.cons (by decide) (.cons (by decide +kernel) (.cons (by decide +kernel) ?_)))
  exact .cons (by decide +kernel) (.cons (by decide +kernel) (.cons (by decide) (.cons (by decide +kernel) trivial)))

end Altus.WindowedQueue
