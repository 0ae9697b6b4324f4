import Altus.Proof.Window.Put

namespace Altus.WindowedQueue

open Bytes Runs UBList

/-- The received positions grow by exactly one block. -/
structure Grows (view : View) (first last : Nat) (next : View) : Prop where
  origin : next.origin = view.origin
  forward : view.position ≤ next.position
  apart : Disjoint (Set.Ico first last) (covered view.runs)
  union : covered next.runs ∪ Set.Ico view.position next.position = covered view.runs ∪ Set.Ico first last

/-- The number of nodes after the copy of `[first, last)`. A block that starts beyond the node behind `safe_tail` adds
no node. Every other one adds the node in which it starts, and one node for each node end that it reaches. -/
def View.GrowsTo (view : View) (first last count : Nat) : Prop :=
  count = view.cells.length ∨ first ≤ view.origin + 4096 * (view.depth / 4096) + 4096 ∧
    count = max view.cells.length ((first - view.origin) / 4096 + 1) +
      ((last - view.origin) / 4096 - (first - view.origin) / 4096)

/-- The block starts at most one byte behind the node of `safe_tail`. -/
def InReach (state : WQState) (seq : U32) : Prop :=
  (seq - (state.window.lastSeq - (state.heap.node state.window.safeTail).validBlockCount)).toNat ≤ 4096

instance (state : WQState) (seq : U32) : Decidable (InReach state seq) :=
  inferInstanceAs (Decidable (_ ≤ _))

section Step

variable {state : WQState} {view : View} {seq length : U32} {data : Memory}

theorem Listed.settle_grows {first last : Nat} {runs : List (Nat × Nat)} (listed : Listed view first last runs)
    {cells free : List Ptr} (pending : Pending state { view with cells := cells, free := free, runs := runs }) :
    Grows view first last (View.settle { view with cells := cells, free := free, runs := runs }) := by
  obtain ⟨-, forward, -, union, -⟩ := absorb_spec pending.sorted pending.reached
  exact ⟨rfl, forward, listed.apart, union.trans listed.union⟩

/-- The code's distance from `safe_tail` is the distance of the positions. -/
theorem Tracks.inReach_iff (tracks : Tracks state view) (accepts : Accepts state.window seq length)
    (short : (seq - state.window.lastSeq).toNat + length.toNat < 2 ^ 32) :
    InReach state seq ↔
      firstPosition state view seq ≤ view.origin + 4096 * (view.depth / 4096) + 4096 := by
  have inside := tracks.accepts_inside accepts short
  have size := tracks.size
  have ordered := tracks.ordered
  have lower : view.position ≤ firstPosition state view seq := Nat.le_add_right _ _
  rw [InReach, tracks.offset_eq (by omega)]
  omega

/-- The nodes of a chain back the listed bytes after the copy of a block. -/
theorem Listed.backed {first count : Nat} {runs : List (Nat × Nat)} {copies : List Copy} {middle : WQState}
    {cells free : List Ptr} {place : Nat} (listed : Listed view first (first + count) runs)
    (backed : view.Backed) (lower : view.origin ≤ first)
    (copied : Copied state view.cells place (first - view.origin) count data copies middle cells free) :
    ({ view with cells := cells, free := free, runs := runs } : View).Backed := by
  intro point member
  have longer := copied.grown.length_le
  rw [show covered _ = _ from listed.union] at member
  dsimp only
  rcases member with old | ⟨above, below⟩
  · have inside := backed point old
    omega
  · have ends := copied.reached (by omega)
    omega

/-- The chain holds the old bytes and the block after the copy. -/
theorem Listed.holds {first count : Nat} {runs : List (Nat × Nat)} {copies : List Copy} {middle : WQState}
    {cells free : List Ptr} {content : Memory} (listed : Listed view first (first + count) runs)
    (backed : view.Backed) (lower : view.position ≤ first) (ordered : view.origin ≤ view.position)
    (safeInside : view.depth / 4096 < view.cells.length)
    (copied : Copied state view.cells (view.depth / 4096) (first - view.origin) count data copies middle
      cells free) (holds : Holds state view content)
    (agrees : ∀ index < count, data index = content (first + index)) :
    Holds middle { view with cells := cells, free := free, runs := runs } content := by
  intro point above received
  have above : view.origin ≤ point := above
  have depth : view.depth = view.position - view.origin := rfl
  dsimp only at received ⊢
  by_cases fresh : first ≤ point ∧ point < first + count
  · rw [copied.written (point - view.origin) (by omega) (by omega), agrees _ (by omega),
      show first + (point - view.origin - (first - view.origin)) = point by omega]
  · have old : point < view.position ∨ point ∈ covered view.runs := by
      rcases received with early | member
      · exact Or.inl early
      · rw [listed.union] at member
        rcases member with old | inside
        · exact Or.inr old
        · exact absurd inside fresh
    have node : (point - view.origin) / 4096 < view.cells.length := by
      rcases old with early | member
      · omega
      · have inside := backed point member
        omega
    rw [copied.kept (point - view.origin) node (by omega)]
    exact holds point above old

/-- The settled view names the same received positions. -/
theorem Pending.settle_received (pending : Pending state view) (point : Nat) :
    (point < view.settle.position ∨ point ∈ covered view.settle.runs) ↔
      (point < view.position ∨ point ∈ covered view.runs) := by
  obtain ⟨-, forward, -, union, -⟩ := absorb_spec pending.sorted pending.reached
  have split : point ∈ covered view.runs ↔ point ∈ covered view.settle.runs ∨
      view.position ≤ point ∧ point < view.settle.position := by
    rw [← union]
    rfl
  rw [split]
  have order : view.position ≤ view.settle.position := forward
  constructor
  · rintro (early | member)
    · rcases Nat.lt_or_ge point view.position with old | new
      · exact Or.inl old
      · exact Or.inr (Or.inr ⟨new, early⟩)
    · exact Or.inr (Or.inl member)
  · rintro (early | member | ⟨-, early⟩)
    · exact Or.inl (early.trans_le order)
    · exact Or.inr member
    · exact Or.inl early

/-- The listed bytes of the settled view were listed before. -/
theorem Pending.settle_backed (pending : Pending state view) (backed : view.Backed) : view.settle.Backed := by
  obtain ⟨-, -, -, union, -⟩ := absorb_spec pending.sorted pending.reached
  intro point member
  apply backed
  rw [← union]
  exact Or.inl member

/-- Every run of the settled view was listed before. -/
theorem Pending.settle_nonempty (pending : Pending state view) (nonempty : ∀ run ∈ view.runs, run.1 < run.2) :
    ∀ run ∈ view.settle.runs, run.1 < run.2 := by
  obtain ⟨-, -, -, -, kept, -⟩ := absorb_spec pending.sorted pending.reached
  intro run member
  exact nonempty run (kept run member)

/-- The settled view holds the same bytes. -/
theorem Pending.settle_holds (pending : Pending state view) {content : Memory} (holds : Holds state view content)
    {next : WQState} (sameData : ∀ pointer, (next.heap.node pointer).data = (state.heap.node pointer).data) :
    Holds next view.settle content := by
  intro point above received
  rw [← holds point above ((pending.settle_received point).mp received)]
  simp only [stored, sameData, View.settle]

/-- What the delivery of a block in reach goes through: the list, the copy and the end of the call. -/
structure Delivered (state : WQState) (view : View) (seq length : U32) (data : Memory) (copies : List Copy)
    (next : WQState) (cells free : List Ptr) (runs : List (Nat × Nat)) : Prop where
  answer : altusWQPut state seq length data = .ok (0, copies, next)
  listed : Listed view (firstPosition state view seq) (firstPosition state view seq + length.toNat) runs
  backed : ({ view with cells := cells, free := free, runs := runs } : View).Backed
  inside : ∀ copy ∈ copies, copy.writeoffset + copy.writelen ≤ 4096
  tracks : Tracks next (View.settle { view with cells := cells, free := free, runs := runs })
  size : next.window.windowSize = state.window.windowSize
  offset : next.window.headDataOffset = state.window.headDataOffset
  middle : ∃ middle, Pending middle { view with cells := cells, free := free, runs := runs } ∧
    Copied (listBlock state seq length) view.cells (view.depth / 4096) (firstPosition state view seq - view.origin)
      length.toNat data copies middle cells free ∧
    ∀ pointer, (next.heap.node pointer).data = (middle.heap.node pointer).data

/-- The end of `altusWQPut` settles a view whose listed bytes have their nodes. -/
theorem Pending.absorb_backed (pending : Pending state view) (nonempty : view.runs ≠ []) (backed : view.Backed) :
    ∃ next, absorb state = .ok next ∧ Tracks next view.settle ∧
      (∀ pointer, (next.heap.node pointer).data = (state.heap.node pointer).data) ∧
      next.window.windowSize = state.window.windowSize ∧
      next.window.headDataOffset = state.window.headDataOffset := by
  refine pending.absorb_ok nonempty fun run member turn => ?_
  have ordered := pending.sorted.ordered run member
  rcases Nat.eq_or_lt_of_le ordered with empty | longer
  · rw [← empty, turn]
    exact pending.safeInside
  · have inside := backed (run.2 - 1) ⟨run, member, by omega, by omega⟩
    rwa [Nat.sub_add_cancel (by omega)] at inside

/-- A block in reach is delivered, also one without a byte. -/
theorem Tracks.put_delivered (tracks : Tracks state view) (accepts : Accepts state.window seq length)
    (short : (seq - state.window.lastSeq).toNat + length.toNat < 2 ^ 32) (reach : InReach state seq)
    (backed : view.Backed) :
    ∃ copies next cells free runs, Delivered state view seq length data copies next cells free runs := by
  have lower : view.position ≤ firstPosition state view seq := Nat.le_add_right _ _
  have near := (tracks.inReach_iff accepts short).mp reach
  have small : length.toNat < 2 ^ 31 := by
    have inside := tracks.accepts_inside accepts short
    have size := tracks.size
    have ordered := tracks.ordered
    omega
  obtain ⟨runs, pending, listed⟩ := tracks.lists_block accepts short
  obtain ⟨copies, middle, cells, free, looped, copied, -⟩ := pending.copy_ok data lower near small
  have copiedPending := pending.after_copy copied
  have copiedBacked := listed.backed backed (tracks.ordered.trans lower) copied
  obtain ⟨next, absorbed, nextTracks, sameData, sameSize, sameOffset⟩ :=
    copiedPending.absorb_backed listed.nonempty copiedBacked
  have answer : altusWQPut state seq length data = .ok (0, copies, next) := by
    rw [altusWQPut_eq, if_pos accepts, deliver]
    rw [tracks.seq_eq] at looped
    simp only [looped, absorbed]
  obtain ⟨unsafeTail, unsafeLen, window⟩ := copied.window
  exact ⟨copies, next, cells, free, runs, answer, listed, copiedBacked, copied.inside, nextTracks,
    sameSize.trans (by rw [window]; rfl), sameOffset.trans (by rw [window]; rfl), middle, copiedPending, copied, sameData⟩

/-- A block in reach is delivered in full, into nodes of the chain. -/
theorem Represents.put_delivers (represents : Represents state view)
    (accepts : Accepts state.window seq length)
    (short : (seq - state.window.lastSeq).toNat + length.toNat < 2 ^ 32) (positive : 0 < length.toNat)
    (reach : InReach state seq) (backed : view.Backed) {content : Memory} (holds : Holds state view content)
    (agrees : ∀ index < length.toNat, data index = content (firstPosition state view seq + index)) :
    ∃ copies next nextView, altusWQPut state seq length data = .ok (0, copies, next) ∧
      Represents next nextView ∧
      Grows view (firstPosition state view seq) (firstPosition state view seq + length.toNat) nextView ∧
      nextView.Backed ∧ Holds next nextView content ∧
      (∀ copy ∈ copies, copy.writeoffset + copy.writelen ≤ 4096) ∧
      next.window.windowSize = state.window.windowSize ∧
      next.window.headDataOffset = state.window.headDataOffset := by
  have lower : view.position ≤ firstPosition state view seq := Nat.le_add_right _ _
  obtain ⟨copies, next, cells, free, runs, delivered⟩ := @Tracks.put_delivered _ _ _ _ data represents.toTracks accepts
    short reach backed
  obtain ⟨middle, pending, copied, sameData⟩ := delivered.middle
  have nonempty := delivered.listed.runs_nonempty represents (Nat.lt_add_of_pos_right positive)
  have copiedHolds := delivered.listed.holds backed lower represents.ordered represents.safeInside copied
    (fun point above received => holds point above received) agrees
  exact ⟨copies, next, _, delivered.answer, { delivered.tracks with nonempty := pending.settle_nonempty nonempty },
    delivered.listed.settle_grows pending, pending.settle_backed delivered.backed,
    pending.settle_holds copiedHolds sameData, delivered.inside, delivered.size, delivered.offset⟩

/-- An accepted block without a byte is listed, and nothing is copied, wherever it starts. -/
theorem Tracks.put_empty (tracks : Tracks state view) (accepts : Accepts state.window seq 0) (backed : view.Backed) :
    ∃ next nextView, altusWQPut state seq 0 data = .ok (0, [], next) ∧ Tracks next nextView ∧ nextView.Backed := by
  obtain ⟨runs, pending, listed⟩ := tracks.lists_block accepts (accepts.short (by decide))
  have same : covered runs = covered view.runs := by
    rw [listed.union]
    simp
  have kept : ({ view with runs := runs } : View).Backed := by
    intro point member
    exact backed point (same ▸ member)
  obtain ⟨next, absorbed, nextTracks, -⟩ := pending.absorb_backed listed.nonempty kept
  refine ⟨next, _, ?_, nextTracks, pending.settle_backed kept⟩
  rw [altusWQPut_eq, if_pos accepts, deliver, copyLoop.eq_def]
  simp only [if_true, absorbed]

/-- A call returns when its block is empty, in reach or refused, and every listed byte still has its node. -/
theorem Tracks.put_returns (tracks : Tracks state view) (backed : view.Backed) (small : length.toNat < 2 ^ 31)
    (reach : Accepts state.window seq length → length ≠ 0 → InReach state seq) :
    ∃ code copies next nextView, altusWQPut state seq length data = .ok (code, copies, next) ∧ Tracks next nextView ∧
      nextView.Backed := by
  by_cases accepts : Accepts state.window seq length
  swap
  · exact ⟨_, [], state, view, altusWQPut_refused data accepts, tracks, backed⟩
  by_cases empty : length = 0
  · subst empty
    obtain ⟨next, nextView, returned, kept⟩ := @Tracks.put_empty _ _ _ data tracks accepts backed
    exact ⟨0, [], next, nextView, returned, kept⟩
  · obtain ⟨copies, next, cells, free, runs, delivered⟩ := @Tracks.put_delivered _ _ _ _ data tracks accepts
      (accepts.short small) (reach accepts empty) backed
    obtain ⟨middle, pending, -⟩ := delivered.middle
    exact ⟨0, copies, next, _, delivered.answer, delivered.tracks, pending.settle_backed delivered.backed⟩

/-- A completed delivery ends with the completed end of the call. -/
theorem deliver_copied {moves copies : List Copy} {middle next : WQState}
    (looped : copyLoop length data (length.toNat + 2) state (some state.window.safeTail)
      (state.window.lastSeq - (state.heap.node state.window.safeTail).validBlockCount) seq length =
        .ok (moves, middle))
    (delivered : deliver state seq length data = .ok (0, copies, next)) : absorb middle = .ok next := by
  rw [deliver, looped] at delivered
  dsimp only at delivered
  cases absorbed : absorb middle with
  | error fault =>
      rw [absorbed] at delivered
      cases delivered
  | ok final =>
      rw [absorbed] at delivered
      rw [(Prod.mk.inj (Prod.mk.inj (Except.ok.inj delivered)).2).2]

/-- A call that completes with zero lists its block, copies it somewhere and settles the view. -/
theorem Tracks.put_settles (tracks : Tracks state view)
    (short : (seq - state.window.lastSeq).toNat + length.toNat < 2 ^ 32)
    {copies : List Copy} {next : WQState} (answered : altusWQPut state seq length data = .ok (0, copies, next)) :
    ∃ middle cells free runs, Pending middle { view with cells := cells, free := free, runs := runs } ∧
      Listed view (firstPosition state view seq) (firstPosition state view seq + length.toNat) runs ∧
      Tracks next (View.settle { view with cells := cells, free := free, runs := runs }) ∧
      next.window.windowSize = state.window.windowSize ∧
      view.GrowsTo (firstPosition state view seq) (firstPosition state view seq + length.toNat) cells.length := by
  obtain ⟨accepts, delivered⟩ := altusWQPut_zero answered
  have lower : view.position ≤ firstPosition state view seq := Nat.le_add_right _ _
  have inside := tracks.accepts_inside accepts short
  have size := tracks.size
  have ordered := tracks.ordered
  have small : length.toNat < 2 ^ 31 := by omega
  obtain ⟨runs, pending, listed⟩ := tracks.lists_block accepts short
  have step : ∃ middle cells free, Pending middle { view with cells := cells, free := free, runs := runs } ∧
      absorb middle = .ok next ∧ middle.window.windowSize = state.window.windowSize ∧
      view.GrowsTo (firstPosition state view seq) (firstPosition state view seq + length.toNat) cells.length := by
    rcases Nat.eq_zero_or_pos length.toNat with zero | positive
    · have looped : copyLoop length data (length.toNat + 2) (listBlock state seq length)
          (some (listBlock state seq length).window.safeTail) ((listBlock state seq length).window.lastSeq -
            ((listBlock state seq length).heap.node (listBlock state seq length).window.safeTail).validBlockCount)
          seq length = .ok ([], listBlock state seq length) := by
        rw [copyLoop, if_pos (BitVec.eq_of_toNat_eq zero)]
      exact ⟨_, view.cells, view.free, pending, deliver_copied looped delivered, rfl, Or.inl rfl⟩
    rcases Nat.lt_or_ge (view.origin + 4096 * (view.depth / 4096) + 4096)
      (firstPosition state view seq) with beyond | near
    · have looped := pending.copy_stray data beyond (by dsimp only; omega) positive
      rw [tracks.seq_eq] at looped
      split at looped
      · rw [deliver, looped] at delivered
        cases delivered
      exact ⟨_, view.cells, view.free, pending.after_write _ _ _ _, deliver_copied looped delivered, rfl, Or.inl rfl⟩
    · obtain ⟨moves, middle, cells, free, looped, copied, lengthIs⟩ := pending.copy_ok data lower near small
      rw [tracks.seq_eq] at looped
      obtain ⟨unsafeTail, unsafeLen, window⟩ := copied.window
      refine ⟨middle, cells, free, pending.after_copy copied, deliver_copied looped delivered,
        by rw [window]; rfl, Or.inr ⟨near, ?_⟩⟩
      rw [lengthIs positive, Nat.sub_add_comm (ordered.trans lower)]
  obtain ⟨middle, cells, free, middlePending, absorbed, sameSize, grown⟩ := step
  obtain ⟨nextTracks, nextSize⟩ := middlePending.absorb_completed listed.nonempty absorbed
  exact ⟨middle, cells, free, runs, middlePending, listed, nextTracks, nextSize.trans sameSize, grown⟩

/-- A call that completes with zero moves the view along its block. -/
theorem Represents.put_completed (represents : Represents state view)
    (short : (seq - state.window.lastSeq).toNat + length.toNat < 2 ^ 32) (positive : 0 < length.toNat)
    {copies : List Copy} {next : WQState} (answered : altusWQPut state seq length data = .ok (0, copies, next)) :
    Accepts state.window seq length ∧ ∃ nextView, Represents next nextView ∧
      Grows view (firstPosition state view seq) (firstPosition state view seq + length.toNat) nextView ∧
      next.window.windowSize = state.window.windowSize := by
  obtain ⟨middle, cells, free, runs, pending, listed, tracks, size, -⟩ := represents.put_settles short answered
  have nonempty := listed.runs_nonempty represents (Nat.lt_add_of_pos_right positive)
  exact ⟨(altusWQPut_zero answered).1, _, { tracks with nonempty := pending.settle_nonempty nonempty },
    listed.settle_grows pending, size⟩

/-- A completed put of any non-negative length moves the view of the window. -/
theorem Tracks.put_tracks (tracks : Tracks state view) (small : length.toNat < 2 ^ 31) {code : Int}
    {copies : List Copy} {next : WQState} (answered : altusWQPut state seq length data = .ok (code, copies, next)) :
    ∃ nextView, Tracks next nextView ∧ next.window.windowSize = state.window.windowSize := by
  rcases altusWQPut_completed answered with rfl | ⟨-, rfl⟩
  · have short := (altusWQPut_zero answered).1.short small
    obtain ⟨-, _, _, _, -, -, nextTracks, size, -⟩ := tracks.put_settles short answered
    exact ⟨_, nextTracks, size⟩
  · exact ⟨view, tracks, rfl⟩

end Step

end Altus.WindowedQueue
