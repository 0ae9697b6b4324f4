import Altus.Proof.Window.View

namespace Altus.WindowedQueue

open Bytes Chain Runs UBList

/-- The window without its read offset. -/
def setOffset (state : WQState) (offset : U32) : WQState :=
  { state with window := { state.window with headDataOffset := offset } }

section Structure

variable {state : WQState} {view : View}

/-- The read offset is no part of what a window tracks. -/
theorem Tracks.setOffset (tracks : Tracks state view) (offset : U32) :
    Tracks (setOffset state offset) view :=
  { tracks with formed := { tracks.formed with } }

/-- The head node leaves a view with more than one sequenced node. -/
def View.drop (view : View) : View :=
  { view with
    cells := view.cells.tail
    free := view.free ++ view.cells.take 1
    origin := view.origin + 4096 }

/-- The single sequenced node stays. -/
theorem Tracks.popNode_single (tracks : Tracks state view) (single : view.depth < 4096) :
    altusWQPopNode state = .ok (-1, state) := by
  have first : view.depth / 4096 = 0 := by omega
  have safe := tracks.formed.safe
  rw [first] at safe
  have same := Option.some.inj (tracks.formed.head.symm.trans safe)
  have safeLen : state.window.safeLen = 1 := by rw [tracks.safeLen, first]; rfl
  rw [altusWQPopNode_single same]
  congr 3
  rw [← safeLen]

/-- The head node of several sequenced nodes leaves the window. -/
theorem Tracks.popNode_several (tracks : Tracks state view) (several : 4096 ≤ view.depth) :
    ∃ next, altusWQPopNode state = .ok (0, next) ∧ Tracks next view.drop ∧
      SameContent state.heap next.heap ∧ next.window.windowSize = state.window.windowSize ∧
      next.window.headDataOffset = state.window.headDataOffset := by
  obtain ⟨first, rest, cells⟩ : ∃ first rest, view.cells = first :: rest := by
    have head := tracks.formed.head
    cases cells : view.cells with
    | nil => rw [cells] at head; simp at head
    | cons first rest => exact ⟨first, rest, rfl⟩
  have formed := tracks.formed
  have shallow := tracks.shallow
  have ordered := tracks.ordered
  have lower : view.drop.depth = view.depth - 4096 := by
    simp only [View.drop, View.depth]
    omega
  have step : view.depth / 4096 = view.drop.depth / 4096 + 1 := by omega
  have remainder : view.depth % 4096 = view.drop.depth % 4096 := by omega
  have dropCells : view.drop.cells = rest := congrArg List.tail cells
  have dropFree : view.drop.free = view.free ++ [first] :=
    congrArg (fun chain => view.free ++ List.take 1 chain) cells
  rw [cells, step] at formed
  obtain ⟨next, head, popped, nextFormed, content, window⟩ := altusWQPopNode_spec formed
  have counts := tracks.counts.congr fun pointer => (content pointer).2
  rw [cells, step, remainder] at counts
  refine ⟨next, popped, ?_, content, by rw [window], by rw [window]⟩
  exact {
    formed := by rw [dropCells, dropFree]; exact nextFormed
    counts := {
      full := by
        intro index pointer before here
        rw [dropCells] at here
        exact counts.full (index + 1) pointer (by omega) (List.getElem?_cons_succ.trans here)
      partly := by
        intro pointer here
        rw [dropCells] at here
        exact counts.partly pointer (List.getElem?_cons_succ.trans here) }
    ordered := by
      have depth : view.depth = view.position - view.origin := rfl
      show view.origin + 4096 ≤ view.position
      omega
    safeLen := by
      rw [window]
      dsimp only
      rw [tracks.safeLen, Serial.ofNat_succ_sub_one, step]
    lastSeq := by rw [window]; exact tracks.lastSeq
    size := by rw [window]; exact tracks.size
    shallow := by rw [window, lower]; dsimp only; omega
    lists := by rw [window]; exact tracks.lists
    sorted := tracks.sorted
    few := tracks.few
    fits := by
      intro run member
      have bound := tracks.fits run member
      rw [window]
      show run.2 < view.origin + 4096 + 4096 * state.window.windowSize.toNat
      omega
    reached := tracks.reached
    beyond := tracks.beyond }

/-- The part of a view that pops do not change. -/
def SameSequence (state : WQState) (view : View) (next : WQState) (nextView : View) : Prop :=
  nextView.position = view.position ∧ nextView.runs = view.runs ∧
    next.window.windowSize = state.window.windowSize

theorem SameSequence.trans {middle next : WQState} {middleView nextView : View}
    (earlier : SameSequence state view middle middleView) (later : SameSequence middle middleView next nextView) :
    SameSequence state view next nextView :=
  ⟨later.1.trans earlier.1, later.2.1.trans earlier.2.1, later.2.2.trans earlier.2.2⟩

/-- Pops keep the sequence and the end of the chain. -/
structure Released (state : WQState) (view : View) (next : WQState) (nextView : View) : Prop where
  sequence : SameSequence state view next nextView
  room : nextView.origin + 4096 * nextView.cells.length = view.origin + 4096 * view.cells.length

theorem Released.of_size {next : WQState} (size : next.window.windowSize = state.window.windowSize) :
    Released state view next view := ⟨⟨rfl, rfl, size⟩, rfl⟩

theorem Released.trans {middle next : WQState} {middleView nextView : View}
    (earlier : Released state view middle middleView) (later : Released middle middleView next nextView) :
    Released state view next nextView where
  sequence := earlier.sequence.trans later.sequence
  room := later.room.trans earlier.room

theorem Tracks.popNode_any (tracks : Tracks state view) {code : Int} {next : WQState}
    (popped : altusWQPopNode state = .ok (code, next)) :
    ∃ nextView, Tracks next nextView ∧ Released state view next nextView := by
  rcases Nat.lt_or_ge view.depth 4096 with single | several
  · rw [tracks.popNode_single single] at popped
    obtain rfl := (Prod.mk.inj (Except.ok.inj popped)).2
    exact ⟨view, tracks, .of_size rfl⟩
  · obtain ⟨other, found, kept, -, size, -⟩ := tracks.popNode_several several
    rw [found] at popped
    obtain rfl := (Prod.mk.inj (Except.ok.inj popped)).2
    have inside := tracks.safeInside
    refine ⟨view.drop, kept, ⟨rfl, rfl, size⟩, ?_⟩
    simp only [View.drop, List.length_tail]
    omega

theorem Represents.setOffset (represents : Represents state view) (offset : U32) :
    Represents (setOffset state offset) view :=
  { represents.toTracks.setOffset offset with nonempty := represents.nonempty }

theorem Represents.popNode_several (represents : Represents state view) (several : 4096 ≤ view.depth) :
    ∃ next, altusWQPopNode state = .ok (0, next) ∧ Represents next view.drop ∧
      SameContent state.heap next.heap ∧ next.window.windowSize = state.window.windowSize ∧
      next.window.headDataOffset = state.window.headDataOffset := by
  obtain ⟨next, popped, tracks, rest⟩ := represents.toTracks.popNode_several several
  exact ⟨next, popped, { tracks with nonempty := represents.nonempty }, rest⟩

end Structure

/-- The rest of a round of `popLoop` once `writelen` is known. -/
def popRound (length : Int) (rounds : Nat) (state : WQState) (currentNode : Ptr) (leftLen : Int)
    (dest : Option Memory) (writelen : Int) : Except Fault (Int × Option Memory × WQState) :=
  if writelen = 0 then .ok (length - leftLen, dest, state)
  else if writelen < 0 ∧ dest.isSome then .error .negativeLength
  else
    let dest := dest.map fun memory => memcpy memory (length - leftLen).toNat
      (shift (state.heap.node currentNode).data state.window.headDataOffset.toNat) writelen.toNat
    let headDataOffset := state.window.headDataOffset + BitVec.ofInt 32 writelen
    if headDataOffset = nodeSpan then
      match altusWQPopNode (setOffset state headDataOffset) with
      | .error fault => .error fault
      | .ok (_, popped) =>
          match (state.heap.node currentNode).toTail with
          | none => .error .nullDereference
          | some currentNode =>
              if (0 : U32) = (popped.heap.node currentNode).validBlockCount then
                .ok (length - (leftLen - writelen), dest, setOffset popped 0)
              else popLoop length rounds (setOffset popped 0) currentNode (leftLen - writelen) dest
    else if headDataOffset = (state.heap.node currentNode).validBlockCount then
      match altusWQPopNode (setOffset state headDataOffset) with
      | .error fault => .error fault
      | .ok (_, popped) => .ok (length - (leftLen - writelen), dest, popped)
    else popLoop length rounds (setOffset state headDataOffset) currentNode (leftLen - writelen) dest

/-- What `altusWQPop` may take from one node. -/
def available (state : WQState) (currentNode : Ptr) : Int :=
  ((state.heap.node currentNode).validBlockCount - state.window.headDataOffset).toInt

theorem popLoop_succ (length : Int) (rounds : Nat) (state : WQState) (currentNode : Ptr) (leftLen : Int)
    (dest : Option Memory) :
    popLoop length (rounds + 1) state currentNode leftLen dest =
      if leftLen = 0 then .ok (length, dest, state)
      else popRound length rounds state currentNode leftLen dest
        (if leftLen < available state currentNode then leftLen else available state currentNode) := rfl

/-- A completed round keeps the sequence and the end of the chain when the rounds after it do. -/
theorem popRound_tracks {length leftLen writelen : Int} {rounds : Nat} {state : WQState} {view : View}
    {currentNode : Ptr} {dest : Option Memory} {answer : Int × Option Memory × WQState}
    (later : ∀ {state : WQState} {view : View} {currentNode : Ptr} {leftLen : Int} {dest : Option Memory},
      Tracks state view → popLoop length rounds state currentNode leftLen dest = .ok answer →
      ∃ nextView, Tracks answer.2.2 nextView ∧ Released state view answer.2.2 nextView)
    (tracks : Tracks state view)
    (returned : popRound length rounds state currentNode leftLen dest writelen = .ok answer) :
    ∃ nextView, Tracks answer.2.2 nextView ∧ Released state view answer.2.2 nextView := by
  have chained {middle : WQState} {middleView : View} (first : Released state view middle middleView)
      (rest : ∃ nextView, Tracks answer.2.2 nextView ∧ Released middle middleView answer.2.2 nextView) :
      ∃ nextView, Tracks answer.2.2 nextView ∧ Released state view answer.2.2 nextView := by
    obtain ⟨nextView, kept, released⟩ := rest
    exact ⟨nextView, kept, first.trans released⟩
  have moved := tracks.setOffset (state.window.headDataOffset + BitVec.ofInt 32 writelen)
  rw [popRound] at returned
  dsimp only at returned
  split at returned
  · obtain rfl := Except.ok.inj returned
    exact ⟨view, tracks, .of_size rfl⟩
  split at returned
  · cases returned
  split at returned
  · split at returned
    · cases returned
    rename_i code middle popped
    obtain ⟨middleView, kept, released⟩ := moved.popNode_any popped
    have same : Released state view (setOffset middle 0) middleView := ⟨released.sequence, released.room⟩
    split at returned
    · cases returned
    split at returned
    · obtain rfl := Except.ok.inj returned
      exact ⟨middleView, kept.setOffset 0, same⟩
    · exact chained same (later (kept.setOffset 0) returned)
  split at returned
  · split at returned
    · cases returned
    rename_i popped
    obtain ⟨middleView, kept, released⟩ := moved.popNode_any popped
    obtain rfl := Except.ok.inj returned
    exact ⟨middleView, kept, ⟨released.sequence, released.room⟩⟩
  · exact @chained (setOffset state (state.window.headDataOffset + BitVec.ofInt 32 writelen)) view (.of_size rfl)
      (later moved returned)

/-- A completed loop keeps the sequence and the end of the chain, whatever lengths and nodes it meets. -/
theorem popLoop_tracks (length : Int) (rounds : Nat) :
    ∀ {state : WQState} {view : View} {currentNode : Ptr} {leftLen : Int} {dest : Option Memory}
      {answer : Int × Option Memory × WQState}, Tracks state view →
      popLoop length rounds state currentNode leftLen dest = .ok answer →
      ∃ nextView, Tracks answer.2.2 nextView ∧ Released state view answer.2.2 nextView := by
  induction rounds with
  | zero =>
      intro state view currentNode leftLen dest answer tracks returned
      cases returned
  | succ rounds ih =>
      intro state view currentNode leftLen dest answer tracks returned
      rw [popLoop_succ] at returned
      split at returned
      · obtain rfl := Except.ok.inj returned
        exact ⟨view, tracks, .of_size rfl⟩
      · exact popRound_tracks ih tracks returned

/-- A completed `altusWQPop` keeps the sequence and the end of the chain. -/
theorem altusWQPop_tracks {state : WQState} {view : View} {length : Int} {dest : Option Memory}
    {answer : Int × Option Memory × WQState} (tracks : Tracks state view)
    (returned : altusWQPop state length dest = .ok answer) :
    ∃ nextView, Tracks answer.2.2 nextView ∧ Released state view answer.2.2 nextView :=
  popLoop_tracks length _ tracks returned

theorem altusWQPop_represents {state : WQState} {view : View} {length : Int} {dest : Option Memory}
    {answer : Int × Option Memory × WQState} (represents : Represents state view)
    (returned : altusWQPop state length dest = .ok answer) :
    ∃ nextView, Represents answer.2.2 nextView ∧ SameSequence state view answer.2.2 nextView := by
  obtain ⟨nextView, tracks, released⟩ := altusWQPop_tracks represents.toTracks returned
  refine ⟨nextView, { tracks with nonempty := ?_ }, released.sequence⟩
  rw [released.sequence.2.1]
  exact represents.nonempty

end Altus.WindowedQueue
