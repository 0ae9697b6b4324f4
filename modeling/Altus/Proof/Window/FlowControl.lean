import Altus.Proof.Window.Deliver
import Altus.Proof.Window.Initial

namespace Altus.WindowedQueue

open Bytes Chain Runs UBList

/-- One completed call that may change the lengths of a window. A block of a half range or more may only be
refused. -/
inductive FlowCall : WQState → WQState → Prop
  | put {state next : WQState} (seq length : U32) (data : Memory) {code : Int} {copies : List Copy}
      (small : length.toNat < 2 ^ 31 ∨ code ≠ 0)
      (returned : altusWQPut state seq length data = .ok (code, copies, next)) : FlowCall state next
  | pop {state next : WQState} (length : Int) (dest : Option Memory) {taken : Int} {filled : Option Memory}
      (returned : altusWQPop state length dest = .ok (taken, filled, next)) : FlowCall state next
  | sanitize {state next : WQState} {code : Int} (returned : altusWQSanitize state = .ok (code, next)) :
      FlowCall state next

/-- The nodes from one node to another, in the order of `to_tail`. -/
structure NodesBetween (heap : WQHeap) (first last : Ptr) (nodes : List Ptr) : Prop where
  starts : nodes.head? = some first
  ends : nodes.getLast? = some last
  linked : nodes.IsChain fun node next => (heap.node node).toTail = some next
  distinct : nodes.Nodup

/-- The sequence number of the first byte of `safe_tail`. -/
def safeNodeSeq (state : WQState) : U32 :=
  state.window.lastSeq - (state.heap.node state.window.safeTail).validBlockCount

/-- The sequenced part and every listed block stay inside the window. -/
structure FlowBounded (state : WQState) : Prop where
  /-- `safe_len` is the number of nodes from `head` to `safe_tail`. -/
  exact : ∃ nodes, NodesBetween state.heap state.window.head state.window.safeTail nodes ∧
    state.window.safeLen.toNat = nodes.length
  sequenced : state.window.safeLen.toNat ≤ state.window.windowSize.toNat
  /-- The end of a listed block falls into one of the first `windowSize` nodes. -/
  listed : ∀ index < state.window.ubList.count.toNat,
    state.window.safeLen.toNat + (state.window.ubList.tailSeq index - safeNodeSeq state).toNat / 4096 ≤
      state.window.windowSize.toNat

section Sanitize

variable {state : WQState} {view : View}

/-- The count at `safe_tail` is the place of `safe_tail` in the chain. -/
theorem recalculateLoop_safeLen {heap : WQHeap} {cells : List Ptr} {last : Nat} {safeTail unsafeTail : Ptr}
    (linked : Linked (links heap) cells) (distinct : cells.Nodup) (safe : cells[last]? = some safeTail) (rounds : Nat) :
    ∀ {place : Nat} {current : Ptr} {answer : Int × U32}, cells[place]? = some current →
      recalculateLoop heap safeTail unsafeTail rounds current ((place + 1 : Nat) : Int) (BitVec.ofNat 32 (last + 1)) =
        .ok answer → answer.2 = BitVec.ofNat 32 (last + 1) := by
  induction rounds with
  | zero =>
      intro place current answer here counted
      cases counted
  | succ rounds ih =>
      intro place current answer here counted
      rw [recalculateLoop] at counted
      split at counted
      · rw [← Except.ok.inj counted]
      have kept : (if current = safeTail then BitVec.ofInt 32 ((place + 1 : Nat) : Int)
          else BitVec.ofNat 32 (last + 1)) = BitVec.ofNat 32 (last + 1) := by
        split
        · rename_i atSafe
          rw [atSafe] at here
          rw [place_unique distinct here safe]
          exact BitVec.ofInt_natCast _ _
        · rfl
      dsimp only at counted
      rw [kept] at counted
      split at counted
      · cases counted
      split at counted
      · cases counted
      · rename_i following link
        have next : cells[place + 1]? = some following := (linked.next_eq here).symm.trans link
        exact ih next counted

/-- A completed `altusWQSanitize` keeps the view of the window. -/
theorem Tracks.sanitize (tracks : Tracks state view) {code : Int} {next : WQState}
    (returned : altusWQSanitize state = .ok (code, next)) :
    Tracks next view ∧ next.window.windowSize = state.window.windowSize := by
  have formed := tracks.formed
  have start : (if state.window.head = state.window.safeTail then 1 else state.window.safeLen) =
      BitVec.ofNat 32 (view.depth / 4096 + 1) := by
    split
    · rename_i single
      have head := formed.head
      rw [single] at head
      rw [← place_unique (List.nodup_append.mp formed.distinct).1 head formed.safe]
      rfl
    · exact tracks.safeLen
  rw [altusWQSanitize, recalculateWinLen] at returned
  dsimp only at returned
  rw [start] at returned
  cases counted : recalculateLoop state.heap state.window.safeTail state.window.unsafeTail state.heap.brk
      state.window.head 1 (BitVec.ofNat 32 (view.depth / 4096 + 1)) with
  | error fault =>
      rw [counted] at returned
      cases returned
  | ok answer =>
      have safeLen := recalculateLoop_safeLen formed.cellsLinked (List.nodup_append.mp formed.distinct).1
        formed.safe state.heap.brk formed.head counted
      obtain ⟨ret, counts⟩ := answer
      rw [counted] at returned
      have nextIs : next = { state with window := { state.window with
          safeLen := counts, unsafeLen := BitVec.ofInt 32 ret } } := by
        have answered := Except.ok.inj returned
        dsimp only at answered
        split_ifs at answered <;> exact (Prod.mk.inj answered).2.symm
      subst nextIs
      exact ⟨{ tracks with formed := { formed with }, safeLen := safeLen }, rfl⟩

end Sanitize

/-- The whole chain leads from `head` to `unsafe_tail`. -/
theorem Formed.nodesBetween {state : WQState} {cells free : List Ptr} {last : Nat}
    (formed : Formed state cells free last) :
    NodesBetween state.heap state.window.head state.window.unsafeTail cells := by
  refine ⟨?_, formed.unsafeEnd, ?_, (List.nodup_append.mp formed.distinct).1⟩
  · rw [List.head?_eq_getElem?]
    exact formed.head
  · rw [List.isChain_iff_getElem]
    intro index bound
    exact (formed.cellsLinked.next_eq (List.getElem?_eq_getElem (by omega))).trans (List.getElem?_eq_getElem bound)

/-- The nodes of the sequenced part are the front of the chain. -/
theorem Tracks.nodesBetween {state : WQState} {view : View} (tracks : Tracks state view) :
    NodesBetween state.heap state.window.head state.window.safeTail (view.cells.take (view.depth / 4096 + 1)) := by
  have formed := tracks.formed
  have inside := tracks.safeInside
  have whole := formed.nodesBetween
  refine ⟨?_, ?_, whole.linked.take _, whole.distinct.sublist (List.take_sublist _ _)⟩
  · rw [List.head?_eq_getElem?, List.getElem?_take, if_pos (by omega)]
    exact formed.head
  · rw [List.getLast?_eq_getElem?, List.length_take, Nat.min_eq_left (show view.depth / 4096 + 1 ≤ _ by omega),
      Nat.add_sub_cancel, List.getElem?_take, if_pos (by omega)]
    exact formed.safe

/-- A tracked window stays inside its bounds. -/
theorem Tracks.flowBounded {state : WQState} {view : View} (tracks : Tracks state view) :
    FlowBounded state := by
  have size := tracks.size
  have shallow := tracks.shallow
  have ordered := tracks.ordered
  have inside := tracks.safeInside
  have depth : view.depth = view.position - view.origin := rfl
  have few := tracks.few
  have safeLen : state.window.safeLen.toNat = view.depth / 4096 + 1 := by
    rw [tracks.safeLen, BitVec.toNat_ofNat, Nat.mod_eq_of_lt (by omega)]
  have count := tracks.lists.count_toNat few
  refine ⟨⟨_, tracks.nodesBetween, ?_⟩, by omega, ?_⟩
  · rw [List.length_take, Nat.min_eq_left inside, safeLen]
  · intro index below
    rw [count] at below
    have member := List.getElem_mem below
    have entry := tracks.lists.entry index _ (List.getElem?_eq_getElem below)
    have fits := tracks.fits _ member
    have beyond := tracks.beyond _ member
    have nonempty := tracks.sorted.ordered _ member
    rw [safeNodeSeq, tracks.nodeSeq_eq, entry.2, Serial.toNat_sub (by omega) (by omega), safeLen]
    omega

/-- Every call keeps the view of a window. -/
theorem Tracks.flowCall {state next : WQState} {view : View} (tracks : Tracks state view)
    (call : FlowCall state next) : ∃ nextView, Tracks next nextView := by
  cases call with
  | put seq length data small returned =>
      rcases small with small | refused
      · obtain ⟨nextView, nextTracks, -⟩ := tracks.put_tracks small returned
        exact ⟨nextView, nextTracks⟩
      · obtain ⟨-, rfl⟩ := (altusWQPut_completed returned).resolve_left refused
        exact ⟨view, tracks⟩
  | pop length dest returned =>
      obtain ⟨nextView, nextTracks, -⟩ := altusWQPop_tracks tracks returned
      exact ⟨nextView, nextTracks⟩
  | sanitize returned => exact ⟨view, (tracks.sanitize returned).1⟩

/-- Every run of completed calls keeps a view of the window. -/
theorem run_tracks {state final : WQState} (empty : Empty state)
    (positive : 1 ≤ state.window.windowSize.toNat) (size : state.window.windowSize.toNat ≤ 2 ^ 19)
    (run : Relation.ReflTransGen FlowCall state final) : ∃ view, Tracks final view := by
  obtain ⟨cells, free, represents, -⟩ := empty.represents (Serial.ofNat_toNat _).symm positive size
  induction run with
  | refl => exact ⟨_, represents.toTracks⟩
  | tail _ call ih =>
      obtain ⟨view, middle⟩ := ih
      exact middle.flowCall call

/-- A window of any admissible size stays inside its bounds in every run of completed calls. -/
theorem run_flowBounded {state final : WQState} (empty : Empty state)
    (positive : 1 ≤ state.window.windowSize.toNat) (size : state.window.windowSize.toNat ≤ 2 ^ 19)
    (run : Relation.ReflTransGen FlowCall state final) : FlowBounded final := by
  obtain ⟨view, tracks⟩ := run_tracks empty positive size run
  exact tracks.flowBounded

/-- A new window of two nodes. -/
def narrow : WQState :=
  { fresh blankHeap blankWindow with window := { (fresh blankHeap blankWindow).window with windowSize := 2 } }

theorem narrow_empty : Empty narrow := by
  have empty := fresh_empty blankHeap blankWindow
  obtain ⟨cells, free, formed⟩ := empty.chains
  exact { chains := ⟨cells, free, { formed with }⟩, count := empty.count, offset := rfl, safeLen := rfl, listed := rfl }

/-- A window of two nodes buffers a byte beyond a gap and counts its nodes again. -/
theorem run_flowBounded_narrow : ∃ final, Relation.ReflTransGen FlowCall narrow final ∧ FlowBounded final := by
  obtain ⟨copies, middle, code, final, buffered, counted⟩ : ∃ copies middle code final,
      altusWQPut narrow 1 1 (fun _ => 7) = .ok (0, copies, middle) ∧ altusWQSanitize middle = .ok (code, final) :=
    by with_unfolding_all exact ⟨_, _, _, _, rfl, rfl⟩
  have run : Relation.ReflTransGen FlowCall narrow final :=
    (Relation.ReflTransGen.single (FlowCall.put 1 1 (fun _ => 7) (Or.inl (by decide)) buffered)).tail
      (FlowCall.sanitize counted)
  exact ⟨final, run, run_flowBounded narrow_empty (by decide) (by decide) run⟩

end Altus.WindowedQueue
