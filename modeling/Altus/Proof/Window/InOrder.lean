import Altus.Proof.Window.FlowControl

namespace Altus.WindowedQueue

open Bytes Chain Runs UBList

/-- A block at `lastSeq` ends at or before the first listed block. -/
def EndsBeforeListed (window : WQWindow) (length : U32) : Prop :=
  window.ubList.count = 0 ∨ length.toNat ≤ (window.ubList.headSeq 0 - window.lastSeq).toNat

/-- `altusWQPut` takes the next expected block and moves `lastSeq` at least to its end. -/
def TakesNext (state : WQState) (length : U32) (data : Memory) : Prop :=
  ∃ copies next, altusWQPut state state.window.lastSeq length data = .ok (0, copies, next) ∧
    length.toNat ≤ (next.window.lastSeq - state.window.lastSeq).toNat ∧
    (next.window.lastSeq - state.window.lastSeq).toNat < 2 ^ 31

/-- A place of the list is free, or the block touches the first listed block and the chain reaches the end of that one.
`nodes` are the nodes from `safe_tail` on. -/
def NextFits (state : WQState) (nodes : List Ptr) (length : U32) : Prop :=
  let ubList := state.window.ubList
  if ubList.count ≠ 0 ∧ ubList.headSeq 0 = state.window.lastSeq + length then
    (ubList.tailSeq 0 - safeNodeSeq state).toNat / 4096 <
      nodes.length + ((state.heap.node state.window.safeTail).validBlockCount.toNat + length.toNat) / 4096
  else ubList.count.toNat < 8

section Next

variable {state : WQState} {view : View} {length : U32} {data : Memory}

/-- The nodes from `safe_tail` on. -/
def View.waitingNodes (view : View) : List Ptr := view.cells.drop (view.depth / 4096)

theorem Tracks.nodesBehind (tracks : Tracks state view) :
    NodesBetween state.heap state.window.safeTail state.window.unsafeTail view.waitingNodes := by
  have formed := tracks.formed
  have inside := tracks.safeInside
  have whole := formed.nodesBetween
  unfold View.waitingNodes
  refine ⟨?_, ?_, whole.linked.drop _, whole.distinct.sublist (List.drop_sublist _ _)⟩
  · rw [List.head?_drop]
    exact formed.safe
  · rw [List.getLast?_drop, if_neg (by omega)]
    exact formed.unsafeEnd

/-- An accepted block at `lastSeq` is taken exactly when the chain reaches the end of the run that it joins. -/
theorem Tracks.takes_accepted (tracks : Tracks state view) (accepts : Accepts state.window state.window.lastSeq length)
    (positive : 1 ≤ length.toNat) (small : length.toNat < 2 ^ 31) {stop : Nat} {rest : List (Nat × Nat)}
    (placed : (place view.position (view.position + length.toNat) view.runs).admits ((view.position, stop) :: rest))
    (long : view.position + length.toNat ≤ stop) :
    TakesNext state length data ↔
      (stop - view.origin) / 4096 <
        view.cells.length + ((view.depth + length.toNat) / 4096 - view.depth / 4096) := by
  have depth : view.depth = view.position - view.origin := rfl
  have ordered := tracks.ordered
  have size := tracks.size
  obtain ⟨runs, pending, listed⟩ := tracks.lists_block accepts (accepts.short small)
  rw [firstPosition_lastSeq] at listed
  obtain rfl := Placement.admits_unique listed.placed placed
  obtain ⟨-, before, -⟩ := sorted_cons.mp pending.sorted
  have fits := pending.fits (view.position, stop) (by simp)
  have window : (listBlock state state.window.lastSeq length).window.windowSize = state.window.windowSize := rfl
  dsimp only at fits
  rw [window] at fits
  obtain ⟨copies, middle, cells, free, looped, copied, lengthIs⟩ :=
    pending.copy_ok data (show view.position ≤ view.position from le_rfl) (by dsimp only [View.depth]; omega) small
  have total := lengthIs positive
  have copiedPending := pending.after_copy copied
  have sameLast : BitVec.ofNat 32 view.position = state.window.lastSeq := tracks.lastSeq.symm
  rw [sameLast] at looped
  dsimp only [View.depth] at total
  rw [show view.position - view.origin = view.depth from rfl, Nat.max_eq_left tracks.safeInside] at total
  rw [← total]
  have returned := altusWQPut_eq state state.window.lastSeq length data
  rw [if_pos accepts, deliver, looped] at returned
  dsimp only at returned
  constructor
  · rintro ⟨taken, next, answered, -⟩
    by_contra outside
    have turn := (copiedPending.turn_iff rfl).mpr rfl
    have entry := copiedPending.lists.entry 0 (view.position, stop) rfl
    have failed := absorb_null view.origin (stop - view.origin) copiedPending.formed copiedPending.counts
      copiedPending.lastSeq_split turn (by rw [entry.2]; dsimp only; rw [Nat.add_sub_of_le (by omega)])
      (by dsimp only [View.depth]; omega) (by dsimp only; omega)
    rw [returned, failed] at answered
    cases answered
  · intro enough
    obtain ⟨next, absorbed, nextTracks, -⟩ := copiedPending.absorb_ok (by simp) (by
      intro run member turn
      rcases List.mem_cons.mp member with rfl | later
      · exact enough
      · have gap := before run later
        dsimp only at gap turn
        omega)
    have settled : (View.settle { view with cells := cells, free := free, runs := (view.position, stop) :: rest }).position =
        stop := by
      simp only [View.settle, Runs.absorb, if_true]
    have advance : (next.window.lastSeq - state.window.lastSeq).toNat = stop - view.position := by
      rw [nextTracks.lastSeq, settled, tracks.lastSeq, Serial.toNat_sub (by omega) (by omega)]
    refine ⟨copies, next, by rw [returned, absorbed], ?_, ?_⟩
    · omega
    · omega

/-- The first listed entry in positions. -/
theorem Tracks.first_entry (tracks : Tracks state view) {run : Nat × Nat} {rest : List (Nat × Nat)}
    (runs : view.runs = run :: rest) (inside : view.position + length.toNat ≤ view.origin + 2 ^ 31) :
    (state.window.ubList.headSeq 0 - state.window.lastSeq).toNat = run.1 - view.position ∧
    (state.window.ubList.headSeq 0 = state.window.lastSeq + length ↔ run.1 = view.position + length.toNat) ∧
    (state.window.ubList.tailSeq 0 - safeNodeSeq state).toNat =
      run.2 - (view.origin + 4096 * (view.depth / 4096)) := by
  have depth : view.depth = view.position - view.origin := rfl
  have member : run ∈ view.runs := by rw [runs]; simp
  have ordered := tracks.ordered
  have size := tracks.size
  have beyond := tracks.beyond run member
  have fits := tracks.fits run member
  have grows := tracks.sorted.ordered run member
  have entry := tracks.lists.entry 0 run (by rw [runs]; rfl)
  have lastIs : state.window.lastSeq + length = BitVec.ofNat 32 (view.position + length.toNat) := by
    rw [BitVec.ofNat_add, Serial.ofNat_toNat, tracks.lastSeq]
  refine ⟨?_, ?_, ?_⟩
  · rw [entry.1, tracks.lastSeq, Serial.toNat_sub beyond.le (by omega)]
  · rw [entry.1, lastIs]
    exact Serial.ofNat_inj (by omega) (by omega)
  · rw [entry.2, safeNodeSeq, tracks.nodeSeq_eq, Serial.toNat_sub (by omega) (by omega)]

/-- The insertion of a block at `lastSeq` before all listed blocks. -/
theorem Tracks.check_next (tracks : Tracks state view) (passes : PassesWindow state.window state.window.lastSeq length)
    (small : length.toNat < 2 ^ 31) :
    Follows state.window.ubList [] (altusUBCheck state.window.ubList state.window.lastSeq length)
      (place view.position (view.position + length.toNat) view.runs) := by
  have inside := tracks.passes_inside passes (by rw [BitVec.sub_self]; simp; omega)
  rw [firstPosition_lastSeq] at inside
  have ordered := tracks.ordered
  have size := tracks.size
  have follows := altusUBCheck_follows tracks.lists tracks.few tracks.within (by omega)
    (Nat.le_add_right view.position length.toNat) (by omega)
  rwa [Nat.add_sub_cancel_left, ← tracks.lastSeq, Serial.ofNat_toNat] at follows

/-- The first block of an empty list is taken. -/
theorem Tracks.takesNext_alone (tracks : Tracks state view) (positive : 1 ≤ length.toNat)
    (small : length.toNat < 2 ^ 31)
    (passes : PassesWindow state.window state.window.lastSeq length) (runs : view.runs = []) :
    TakesNext state length data ↔ NextFits state view.waitingNodes length := by
  have depth : view.depth = view.position - view.origin := rfl
  have ordered := tracks.ordered
  have safeInside := tracks.safeInside
  have follows := tracks.check_next passes small
  have count : state.window.ubList.count = 0 := by
    rw [tracks.lists.count, runs]
    rfl
  have placed : place view.position (view.position + length.toNat) view.runs =
      .added [(view.position, view.position + length.toNat)] := by
    rw [runs, place]
  rw [placed, Follows, if_pos (by simp)] at follows
  rw [tracks.takes_accepted ⟨by simp, passes, Or.inr follows.1⟩ positive small (by rw [placed]; rfl) le_rfl,
    NextFits, if_neg (fun touches => touches.1 count), count]
  simp
  omega

/-- A block that touches the first listed block is taken when the chain reaches the end of that one. -/
theorem Tracks.takesNext_joins (tracks : Tracks state view) (positive : 1 ≤ length.toNat)
    (small : length.toNat < 2 ^ 31)
    (passes : PassesWindow state.window state.window.lastSeq length) {run : Nat × Nat} {rest : List (Nat × Nat)}
    (runs : view.runs = run :: rest) (joins : view.position + length.toNat = run.1) :
    TakesNext state length data ↔
      (run.2 - (view.origin + 4096 * (view.depth / 4096))) / 4096 <
        view.waitingNodes.length +
          ((state.heap.node state.window.safeTail).validBlockCount.toNat + length.toNat) / 4096 := by
  have depth : view.depth = view.position - view.origin := rfl
  have ordered := tracks.ordered
  have safeInside := tracks.safeInside
  have beyond := tracks.beyond run (by rw [runs]; simp)
  have grows := tracks.sorted.ordered run (by rw [runs]; simp)
  have follows := tracks.check_next passes small
  have nodes : view.waitingNodes.length = view.cells.length - view.depth / 4096 := List.length_drop
  have partly : (state.heap.node state.window.safeTail).validBlockCount.toNat = view.depth % 4096 := by
    rw [tracks.counts.partly _ tracks.formed.safe, BitVec.toNat_ofNat, Nat.mod_eq_of_lt (by omega)]
  have placed : place view.position (view.position + length.toNat) view.runs =
      .extended ((view.position, run.2) :: rest) := by
    rw [runs, place.eq_def]
    dsimp only
    rw [if_pos beyond, if_neg (by omega), if_pos joins]
  rw [placed] at follows
  rw [tracks.takes_accepted ⟨by simp, passes, Or.inl follows.1⟩ positive small (by rw [placed]; rfl) (by omega),
    nodes, partly]
  omega

/-- A block before a gap is taken when the list has a free place. -/
theorem Tracks.takesNext_apart (tracks : Tracks state view) (positive : 1 ≤ length.toNat)
    (small : length.toNat < 2 ^ 31)
    (passes : PassesWindow state.window state.window.lastSeq length) {run : Nat × Nat} {rest : List (Nat × Nat)}
    (runs : view.runs = run :: rest) (gap : view.position + length.toNat < run.1) :
    TakesNext state length data ↔ view.runs.length < 8 := by
  have depth : view.depth = view.position - view.origin := rfl
  have ordered := tracks.ordered
  have safeInside := tracks.safeInside
  have beyond := tracks.beyond run (by rw [runs]; simp)
  have follows := tracks.check_next passes small
  have placed : place view.position (view.position + length.toNat) view.runs =
      .added ((view.position, view.position + length.toNat) :: run :: rest) := by
    rw [runs, place.eq_def]
    dsimp only
    rw [if_pos beyond, if_pos gap]
  rw [placed, Follows] at follows
  rw [runs, List.length_cons]
  split at follows
  · rename_i room
    rw [tracks.takes_accepted ⟨by simp, passes, Or.inr follows.1⟩ positive small (by rw [placed]; rfl) le_rfl]
    simp at room
    omega
  · rename_i full
    have refused : ¬ Accepts state.window state.window.lastSeq length := by
      rintro ⟨-, -, listed⟩
      rw [follows] at listed
      simp at listed
    constructor
    · rintro ⟨copies, next, answered, -⟩
      exact absurd (altusWQPut_zero answered).1 refused
    · intro room
      simp at full
      omega

/-- The next expected block is taken exactly when it fits. -/
theorem Tracks.takesNext_iff (tracks : Tracks state view) (positive : 1 ≤ length.toNat) (small : length.toNat < 2 ^ 31)
    (ends : EndsBeforeListed state.window length) (passes : PassesWindow state.window state.window.lastSeq length) :
    TakesNext state length data ↔ NextFits state view.waitingNodes length := by
  have size := tracks.size
  have ordered := tracks.ordered
  have inside := tracks.passes_inside passes (by rw [BitVec.sub_self]; simp; omega)
  rw [firstPosition_lastSeq] at inside
  have countIs := tracks.lists.count_toNat tracks.few
  cases runs : view.runs with
  | nil => exact tracks.takesNext_alone positive small passes runs
  | cons run rest =>
      obtain ⟨distance, touches, tail⟩ := @Tracks.first_entry _ _ length tracks run rest runs (by omega)
      have count : state.window.ubList.count ≠ 0 := by
        intro zero
        rw [zero, runs] at countIs
        simp at countIs
      have before : view.position + length.toNat ≤ run.1 := by
        have beyond := tracks.beyond run (by rw [runs]; simp)
        rcases ends with empty | short
        · exact absurd empty count
        · omega
      rw [NextFits]
      rcases Nat.eq_or_lt_of_le before with joins | gap
      · rw [tracks.takesNext_joins positive small passes runs joins, if_pos ⟨count, touches.mpr joins.symm⟩, tail]
      · rw [tracks.takesNext_apart positive small passes runs gap, countIs,
          if_neg (fun joins => by have same := touches.mp joins.2; omega)]

end Next

/-- In every run of completed calls the next expected block is taken exactly when it fits. -/
theorem run_takesNext {state final : WQState} (empty : Empty state)
    (positive : 1 ≤ state.window.windowSize.toNat) (size : state.window.windowSize.toNat ≤ 2 ^ 19)
    (run : Relation.ReflTransGen FlowCall state final) :
    ∃ nodes, NodesBetween final.heap final.window.safeTail final.window.unsafeTail nodes ∧
      ∀ (length : U32) (data : Memory), 1 ≤ length.toNat → length.toNat < 2 ^ 31 →
        EndsBeforeListed final.window length → PassesWindow final.window final.window.lastSeq length →
        (TakesNext final length data ↔ NextFits final nodes length) := by
  obtain ⟨view, tracks⟩ := run_tracks empty positive size run
  refine ⟨view.waitingNodes, tracks.nodesBehind, ?_⟩
  intro length data positive small ends passes
  exact tracks.takesNext_iff positive small ends passes

/-- Single bytes arrive one after the other. -/
def putBytes : WQState → List U32 → Except Fault WQState
  | state, [] => .ok state
  | state, seq :: rest =>
      match altusWQPut state seq 1 (fun _ => 7) with
      | .error fault => .error fault
      | .ok (_, _, next) => putBytes next rest

theorem putBytes_run {seqs : List U32} : ∀ {state final : WQState}, putBytes state seqs = .ok final →
    Relation.ReflTransGen FlowCall state final := by
  induction seqs with
  | nil =>
      intro state final arrived
      obtain rfl := Except.ok.inj arrived
      exact Relation.ReflTransGen.refl
  | cons seq rest ih =>
      intro state final arrived
      rw [putBytes] at arrived
      split at arrived
      · cases arrived
      · rename_i returned
        exact Relation.ReflTransGen.head (FlowCall.put seq 1 _ (Or.inl (by decide)) returned) (ih arrived)

/-- The first byte arrives when a later byte already waits. -/
theorem run_takesNext_waiting : ∃ final, Relation.ReflTransGen FlowCall (fresh blankHeap blankWindow) final ∧
    final.window.ubList.count = 1 ∧ TakesNext final 1 (fun _ => 7) := by
  obtain ⟨final, arrived, count, last, first, passes⟩ : ∃ final, putBytes (fresh blankHeap blankWindow) [2] = .ok final ∧
      final.window.ubList.count = 1 ∧ final.window.lastSeq = 0 ∧ final.window.ubList.headSeq 0 = 2 ∧
      PassesWindow final.window final.window.lastSeq 1 := by
    with_unfolding_all exact ⟨_, rfl, rfl, rfl, rfl, by decide⟩
  have run := putBytes_run arrived
  obtain ⟨nodes, -, takes⟩ := run_takesNext (fresh_empty blankHeap blankWindow) (by decide) (by decide) run
  refine ⟨final, run, count, ?_⟩
  refine (takes 1 (fun _ => 7) (by decide) (by decide) ?_ passes).mpr ?_
  · right
    rw [first, last]
    decide
  · rw [NextFits, first, last, count, if_neg (by decide)]
    decide

/-- Eight bytes beyond gaps occupy all places, and the next expected byte is refused. -/
theorem eight_gaps_stall : ∃ final, Relation.ReflTransGen FlowCall (fresh blankHeap blankWindow) final ∧
    EndsBeforeListed final.window 1 ∧ PassesWindow final.window final.window.lastSeq 1 ∧
    ¬ TakesNext final 1 (fun _ => 7) := by
  obtain ⟨final, arrived, last, first, passes, refused⟩ : ∃ final,
      putBytes (fresh blankHeap blankWindow) [2, 4, 6, 8, 10, 12, 14, 16] = .ok final ∧
      final.window.lastSeq = 0 ∧ final.window.ubList.headSeq 0 = 2 ∧
      PassesWindow final.window final.window.lastSeq 1 ∧
      altusWQPut final final.window.lastSeq 1 (fun _ => 7) = .ok (-4, [], final) :=
    by with_unfolding_all exact ⟨_, rfl, rfl, rfl, by decide, rfl⟩
  refine ⟨final, putBytes_run arrived, ?_, passes, ?_⟩
  · right
    rw [first, last]
    decide
  · rintro ⟨copies, next, answered, -⟩
    rw [refused] at answered
    cases (Prod.mk.inj (Except.ok.inj answered)).1

end Altus.WindowedQueue
