import Altus.Proof.Window.Deliver
import Altus.Proof.Window.Initial

namespace Altus.WindowedQueue

open Bytes Runs UBList

/-- The history of a window in unwrapped positions. -/
structure History where
  /-- The position that `lastSeq` stands for. -/
  position : Nat
  /-- The positions `[first, last)` of each block that a put answered with zero. -/
  accepted : List (Nat × Nat)

/-- The position that a sequence number stands for, at or after the position of `lastSeq`. -/
def History.unwrap (history : History) (window : WQWindow) (seq : U32) : Nat :=
  history.position + (seq - window.lastSeq).toNat

/-- The history after a completed call. -/
def History.advance (history : History) (window next : WQWindow) (accepted : List (Nat × Nat)) : History :=
  ⟨history.unwrap window next.lastSeq, accepted⟩

/-- One completed call on a window. -/
inductive Call : WQState × History → WQState × History → Prop
  | put {state next : WQState} {history : History} (seq length : U32) (data : Memory) {code : Int}
      {copies : List Copy} (positive : 1 ≤ length.toNat) (small : length.toNat < 2 ^ 31)
      (returned : altusWQPut state seq length data = .ok (code, copies, next)) :
      Call (state, history) (next, history.advance state.window next.window
        (if code = 0 then
          (history.unwrap state.window seq, history.unwrap state.window seq + length.toNat) :: history.accepted
        else history.accepted))
  | pop {state next : WQState} {history : History} (length : Int) (dest : Option Memory) {taken : Int}
      {filled : Option Memory} (returned : altusWQPop state length dest = .ok (taken, filled, next)) :
      Call (state, history) (next, history.advance state.window next.window history.accepted)

/-- The view of a window agrees with its history. -/
structure Follows (start : Nat) (state : WQState) (history : History) (view : View) : Prop where
  represents : Represents state view
  position : view.position = history.position
  started : start ≤ history.position
  finished : Set.Ico start history.position ⊆ covered history.accepted
  waiting : ∀ point, history.position ≤ point → (point ∈ covered history.accepted ↔ point ∈ covered view.runs)
  blocks : ∀ block ∈ history.accepted, block.1 < block.2 ∧ block.2 < block.1 + 2 ^ 31

section Invariant

variable {start : Nat} {state next : WQState} {history : History} {view : View}

/-- The unwrapped `lastSeq` after a call is the position of the next view. -/
theorem Follows.advance_position (follows : Follows start state history view) {nextView : View}
    (represents : Represents next nextView) (forward : view.position ≤ nextView.position)
    (near : nextView.position < view.position + 2 ^ 32) :
    history.unwrap state.window next.window.lastSeq = nextView.position := by
  rw [History.unwrap, represents.lastSeq, follows.represents.lastSeq, Serial.toNat_sub forward near,
    ← follows.position, Nat.add_sub_of_le forward]

/-- A refused call leaves the history as it is. -/
theorem advance_same (state : WQState) (history : History) :
    history.advance state.window state.window history.accepted = history := by
  simp [History.advance, History.unwrap]

/-- A completed put keeps the agreement. -/
theorem Follows.put (follows : Follows start state history view) {seq length : U32} {data : Memory}
    {code : Int} {copies : List Copy} (positive : 1 ≤ length.toNat) (small : length.toNat < 2 ^ 31)
    (returned : altusWQPut state seq length data = .ok (code, copies, next)) :
    ∃ nextView, Follows start next (history.advance state.window next.window
      (if code = 0 then
        (history.unwrap state.window seq, history.unwrap state.window seq + length.toNat) :: history.accepted
      else history.accepted)) nextView := by
  rcases altusWQPut_completed returned with rfl | ⟨negative, rfl⟩
  · rw [if_pos rfl]
    have short := (altusWQPut_zero returned).1.short small
    obtain ⟨-, nextView, represents, grows, size⟩ :=
      follows.represents.put_completed short (by omega) returned
    have first : firstPosition state view seq = history.unwrap state.window seq := by
      rw [firstPosition, History.unwrap, follows.position]
    rw [first] at grows
    have near : nextView.position < view.position + 2 ^ 32 := by
      have shallow := represents.shallow
      have bound := represents.size
      have ordered := follows.represents.ordered
      have origin := grows.origin
      simp only [View.depth] at shallow
      omega
    have position := follows.advance_position represents grows.forward near
    have union := grows.union
    have forward := grows.forward
    have lower : view.position ≤ history.unwrap state.window seq := by
      rw [History.unwrap, ← follows.position]
      exact Nat.le_add_right _ _
    have started := follows.started
    have covers (point : Nat) : point ∈ covered ((history.unwrap state.window seq,
        history.unwrap state.window seq + length.toNat) :: history.accepted) ↔
        (history.unwrap state.window seq ≤ point ∧ point < history.unwrap state.window seq + length.toNat) ∨
          point ∈ covered history.accepted := mem_covered_cons
    have received (point : Nat) (above : view.position ≤ point) :
        point ∈ covered ((history.unwrap state.window seq,
          history.unwrap state.window seq + length.toNat) :: history.accepted) ↔
        point ∈ covered nextView.runs ∨ point < nextView.position := by
      have old := follows.waiting point (follows.position ▸ above)
      have both : point ∈ covered nextView.runs ∪ Set.Ico view.position nextView.position ↔
          point ∈ covered view.runs ∪ Set.Ico (history.unwrap state.window seq)
            (history.unwrap state.window seq + length.toNat) := by rw [union]
      simp only [Set.mem_union, Set.mem_Ico, above, true_and] at both
      rw [covers, old]
      tauto
    refine ⟨nextView, represents, position.symm, ?_, ?_, ?_, ?_⟩
    · rw [History.advance, position]
      have equal := follows.position
      dsimp only
      omega
    · rintro point ⟨above, below⟩
      rw [History.advance, position] at below
      rcases Nat.lt_or_ge point view.position with old | new
      · exact (covers point).mpr (Or.inr (follows.finished ⟨above, follows.position ▸ old⟩))
      · exact (received point new).mpr (Or.inr below)
    · intro point above
      rw [History.advance, position] at above
      have bound : ¬ point < nextView.position := Nat.not_lt.mpr above
      exact (received point (forward.trans above)).trans (or_iff_left bound)
    · intro block member
      rcases List.mem_cons.mp member with rfl | old
      · dsimp only
        omega
      · exact follows.blocks block old
  · rw [if_neg (by omega), advance_same]
    exact ⟨view, follows⟩

/-- A completed pop keeps the agreement. -/
theorem Follows.pop (follows : Follows start state history view) {length : Int} {dest : Option Memory}
    {answer : Int × Option Memory × WQState} (returned : altusWQPop state length dest = .ok answer) :
    ∃ nextView, Follows start answer.2.2
      (history.advance state.window answer.2.2.window history.accepted) nextView := by
  obtain ⟨nextView, represents, position, runs, -⟩ := altusWQPop_represents follows.represents returned
  have advanced := follows.advance_position represents (le_of_eq position.symm) (by rw [position]; omega)
  have same : history.advance state.window answer.2.2.window history.accepted = history := by
    rw [History.advance, advanced, position, follows.position]
  rw [same]
  exact ⟨nextView, represents, position.trans follows.position, follows.started, follows.finished,
    fun point above => by rw [runs]; exact follows.waiting point above, follows.blocks⟩

/-- Every completed call keeps the agreement. -/
theorem Follows.call (follows : Follows start state history view) {nextHistory : History}
    (call : Call (state, history) (next, nextHistory)) :
    ∃ nextView, Follows start next nextHistory nextView := by
  cases call with
  | put seq length data positive small returned => exact follows.put positive small returned
  | pop length dest returned => exact follows.pop returned

/-- The agreement holds after every run of completed calls. -/
theorem Follows.run (follows : Follows start state history view) {final : WQState × History}
    (run : Relation.ReflTransGen Call (state, history) final) :
    ∃ finalView, Follows start final.1 final.2 finalView := by
  induction run with
  | refl => exact ⟨view, follows⟩
  | tail _ call ih =>
      obtain ⟨middleView, middle⟩ := ih
      exact middle.call call

/-- A block whose first byte was accepted is refused. -/
theorem Follows.redelivered (follows : Follows start state history view) {block : Nat × Nat}
    (member : block ∈ history.accepted) (near : history.position < block.1 + 2 ^ 31) :
    ¬ Accepts state.window (BitVec.ofNat 32 block.1) (BitVec.ofNat 32 (block.2 - block.1)) := by
  obtain ⟨nonempty, small⟩ := follows.blocks block member
  have position := follows.position
  have lengthIs : (BitVec.ofNat 32 (block.2 - block.1)).toNat = block.2 - block.1 := by
    rw [BitVec.toNat_ofNat, Nat.mod_eq_of_lt (by omega)]
  intro accepts
  rcases Nat.lt_or_ge block.1 history.position with behind | ahead
  · apply accepts.1
    rw [follows.represents.lastSeq, position]
    exact (Serial.sub_pos_iff (by omega) (by omega) (by decide)).mpr behind
  · have listed := (follows.waiting block.1 ahead).mp ⟨block, member, le_rfl, nonempty⟩
    have first : firstPosition state view (BitVec.ofNat 32 block.1) = block.1 := by
      obtain ⟨run, inside, lower, upper⟩ := listed
      have bound := follows.represents.fits run inside
      have size := follows.represents.size
      have ordered := follows.represents.ordered
      rw [firstPosition, follows.represents.lastSeq, Serial.toNat_sub (by omega) (by omega)]
      omega
    obtain ⟨runs, -, placed⟩ := follows.represents.lists_block accepts (accepts.short (by omega))
    rw [first, lengthIs] at placed
    exact Set.disjoint_left.mp placed.apart ⟨le_rfl, by omega⟩ listed

end Invariant

/-- What `lastSeq` and `ub_list` say about the accepted blocks of a history that began at `start`. -/
structure Sequenced (start : Nat) (state : WQState) (history : History) : Prop where
  lastSeq : state.window.lastSeq = BitVec.ofNat 32 history.position
  least : IsLeast {point | start ≤ point ∧ point ∉ covered history.accepted} history.position
  few : state.window.ubList.count.toNat ≤ 8
  /-- The first `count` entries are, in order, exactly the maximal runs of accepted positions beyond `lastSeq`. -/
  runs : ∃ runs : List (Nat × Nat), runs.length = state.window.ubList.count.toNat ∧
    (∀ index run, runs[index]? = some run → state.window.ubList.headSeq index = BitVec.ofNat 32 run.1 ∧
      state.window.ubList.tailSeq index = BitVec.ofNat 32 run.2) ∧
    runs.Pairwise (fun left right => left.2 < right.1) ∧
    (∀ run ∈ runs, history.position < run.1 ∧ run.1 < run.2) ∧
    ∀ run, run ∈ runs ↔ IsRun {point ∈ covered history.accepted | history.position < point} run
  /-- An accepted block is refused without a change as long as `lastSeq` is less than half a range beyond it. -/
  refused : ∀ block ∈ history.accepted, history.position < block.1 + 2 ^ 31 → ∀ data, ∃ code < 0,
    altusWQPut state (BitVec.ofNat 32 block.1) (BitVec.ofNat 32 (block.2 - block.1)) data = .ok (code, [], state)

/-- The listed runs are the runs of the accepted positions beyond `lastSeq`. -/
theorem Follows.beyond_eq {start : Nat} {state : WQState} {history : History} {view : View}
    (follows : Follows start state history view) :
    {point ∈ covered history.accepted | history.position < point} = covered view.runs := by
  ext point
  constructor
  · rintro ⟨accepted, beyond⟩
    exact (follows.waiting point beyond.le).mp accepted
  · intro member
    have beyond : history.position < point := by
      obtain ⟨run, inside, lower, -⟩ := member
      have above := follows.represents.beyond run inside
      rw [follows.position] at above
      omega
    exact ⟨(follows.waiting point beyond.le).mpr member, beyond⟩

theorem Follows.sequenced {start : Nat} {state : WQState} {history : History} {view : View}
    (follows : Follows start state history view) : Sequenced start state history := by
  have few := follows.represents.few
  have count := follows.represents.lists.count_toNat few
  have canonical := follows.represents.canonical
  have beyond (run : Nat × Nat) (member : run ∈ view.runs) : history.position < run.1 :=
    follows.position ▸ follows.represents.beyond run member
  refine ⟨by rw [follows.represents.lastSeq, follows.position], ⟨⟨follows.started, ?_⟩, ?_⟩, by omega,
    ⟨view.runs, count.symm, follows.represents.lists.entry, canonical.separated,
      fun run member => ⟨beyond run member, canonical.nonempty run member⟩, ?_⟩, ?_⟩
  · rw [follows.waiting history.position le_rfl]
    exact Canonical.not_covered_of_lt beyond
  · rintro point ⟨above, missing⟩
    by_contra before
    exact missing (follows.finished ⟨above, Nat.not_le.mp before⟩)
  · intro run
    rw [follows.beyond_eq]
    exact canonical.mem_iff_isRun run
  · intro block member near data
    exact ⟨_, refusal_neg _ _ _, altusWQPut_refused data (follows.redelivered member near)⟩

/-- An empty window agrees with the empty history. -/
theorem Empty.follows {state : WQState} (empty : Empty state)
    (size : state.window.windowSize = windowBlockMaxDefault) :
    ∃ view, Follows state.window.lastSeq.toNat state ⟨state.window.lastSeq.toNat, []⟩ view := by
  obtain ⟨cells, free, represents, -⟩ := empty.represents (Serial.ofNat_toNat _).symm
    (by rw [size]; decide) (by rw [size]; decide)
  exact ⟨_, represents, rfl, le_rfl, by simp, by simp, by simp⟩

/-- After every run of completed calls `lastSeq` and `ub_list` describe exactly the accepted blocks. -/
theorem run_sequenced {state final : WQState} {history : History} (empty : Empty state)
    (size : state.window.windowSize = windowBlockMaxDefault)
    (run : Relation.ReflTransGen Call (state, ⟨state.window.lastSeq.toNat, []⟩) (final, history)) :
    Sequenced state.window.lastSeq.toNat final history := by
  obtain ⟨view, follows⟩ := empty.follows size
  obtain ⟨finalView, finalFollows⟩ := follows.run run
  exact finalFollows.sequenced

/-- The run of one put that leaves a gap of one byte. -/
theorem run_sequenced_gap : ∃ final history,
    Relation.ReflTransGen Call (fresh blankHeap blankWindow, ⟨0, []⟩) (final, history) ∧
      history.accepted = [(1, 2)] ∧ Sequenced 0 final history := by
  have empty := fresh_empty blankHeap blankWindow
  obtain ⟨cells, free, represents, -⟩ := @Empty.represents _ empty 0 rfl (by decide) (by decide)
  obtain ⟨copies, next, -, returned, -⟩ := @Represents.put_delivers _ _ 1 1 (fun _ => 0) represents
    (by decide) (by decide) (by decide) (by decide) (by simp [View.Backed]) (fun _ => 0) (by simp [Holds])
    (by simp)
  have call : Call (fresh blankHeap blankWindow, ⟨0, []⟩) _ :=
    Call.put 1 1 (fun _ => 0) (by decide) (by decide) returned
  have run := Relation.ReflTransGen.single call
  exact ⟨_, _, run, rfl, run_sequenced empty rfl run⟩

end Altus.WindowedQueue
