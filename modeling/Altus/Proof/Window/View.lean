import Altus.Proof.UBList
import Altus.Proof.Window.Copy
import Altus.Proof.Window.Advance

namespace Altus.WindowedQueue

open Bytes Runs UBList

/-- The positions and chains that one window stands for. -/
structure View where
  cells : List Ptr
  free : List Ptr
  /-- The position of the first byte of the head node. -/
  origin : Nat
  /-- The position that `lastSeq` stands for. -/
  position : Nat
  /-- The blocks beyond `position` that `ub_list` names. -/
  runs : List (Nat × Nat)

/-- The distance of `lastSeq` from the first byte of the head node. -/
def View.depth (view : View) : Nat := view.position - view.origin

/-- The first listed block may start at `lastSeq`. -/
structure Pending (state : WQState) (view : View) : Prop where
  formed : Formed state view.cells view.free (view.depth / 4096)
  counts : Counts state.heap view.cells (view.depth / 4096) (view.depth % 4096)
  ordered : view.origin ≤ view.position
  safeLen : state.window.safeLen = BitVec.ofNat 32 (view.depth / 4096 + 1)
  lastSeq : state.window.lastSeq = BitVec.ofNat 32 view.position
  size : state.window.windowSize.toNat ≤ 2 ^ 19
  shallow : view.depth < 4096 * state.window.windowSize.toNat
  lists : Lists state.window.ubList view.runs
  sorted : Sorted view.runs
  few : view.runs.length ≤ 8
  fits : ∀ run ∈ view.runs, run.2 < view.origin + 4096 * state.window.windowSize.toNat
  reached : ∀ run ∈ view.runs, view.position ≤ run.1

/-- Between two calls every listed block starts beyond `lastSeq`. -/
structure Tracks (state : WQState) (view : View) : Prop extends Pending state view where
  beyond : ∀ run ∈ view.runs, view.position < run.1

/-- Calls with at least one byte list no empty block. -/
structure Represents (state : WQState) (view : View) : Prop extends Tracks state view where
  nonempty : ∀ run ∈ view.runs, run.1 < run.2

theorem Represents.canonical {state : WQState} {view : View} (represents : Represents state view) :
    Canonical view.runs := ⟨represents.nonempty, represents.sorted.separated⟩

/-- The reader stands in the head node, at or before `lastSeq`. -/
structure Reading (state : WQState) (view : View) : Prop where
  offset : state.window.headDataOffset.toNat < 4096
  consumed : state.window.headDataOffset.toNat ≤ view.depth

/-- Every listed byte has its node, and so has the byte after it. -/
def View.Backed (view : View) : Prop :=
  ∀ point ∈ covered view.runs, (point + 1 - view.origin) / 4096 < view.cells.length

/-- The chain holds the bytes of `content` at every received position. -/
def Holds (state : WQState) (view : View) (content : Memory) : Prop :=
  ∀ point, view.origin ≤ point → point < view.position ∨ point ∈ covered view.runs →
    stored state.heap view.cells (point - view.origin) = some (content point)

/-- The view after the first block joined the sequenced part. -/
def View.settle (view : View) : View :=
  { view with
    position := (Runs.absorb view.position view.runs).1
    runs := (Runs.absorb view.position view.runs).2 }

section Absorb

variable {state : WQState} {view : View}

theorem Pending.safeInside (pending : Pending state view) : view.depth / 4096 < view.cells.length :=
  (List.getElem?_eq_some_iff.mp pending.formed.safe).1

/-- The sequence number of `lastSeq` splits into the start of the last sequenced node and its count. -/
theorem Pending.lastSeq_split (pending : Pending state view) :
    state.window.lastSeq =
      BitVec.ofNat 32 (view.origin + 4096 * (view.depth / 4096) + view.depth % 4096) := by
  have ordered := pending.ordered
  rw [pending.lastSeq, View.depth, Nat.add_assoc, Nat.div_add_mod, Nat.add_sub_of_le ordered]

/-- The sequenced part ends at most one window behind the head node. -/
theorem Pending.settle_shallow (pending : Pending state view) :
    view.settle.depth < 4096 * state.window.windowSize.toNat ∧ view.position ≤ view.settle.position := by
  have settled := absorb_spec pending.sorted pending.reached
  have shallow := pending.shallow
  have positions := settled.2.1
  refine ⟨?_, positions⟩
  cases runs : view.runs with
  | nil => simpa only [View.settle, View.depth, runs, Runs.absorb] using shallow
  | cons run rest =>
      have bound := pending.fits run (by simp [runs])
      have ordered := pending.ordered
      simp only [View.settle, View.depth, runs, Runs.absorb] at shallow ⊢
      split <;> omega

/-- The parts of a view that do not depend on the nodes settle with the first block. -/
theorem Pending.settle_beyond (pending : Pending state view) :
    Sorted view.settle.runs ∧ view.settle.runs.length ≤ 8 ∧
      (∀ run ∈ view.settle.runs, run.2 < view.origin + 4096 * state.window.windowSize.toNat) ∧
      ∀ run ∈ view.settle.runs, view.settle.position < run.1 := by
  obtain ⟨sorted, -, beyond, -, kept, shorter⟩ := absorb_spec pending.sorted pending.reached
  exact ⟨sorted, shorter.trans pending.few, fun run member => pending.fits run (kept run member), beyond⟩

/-- What the advance over the first listed block leaves behind. -/
structure Joined (state : WQState) (cells free : List Ptr) (target : Nat) (tailSeq : U32) (last : Nat)
    (next : WQState) : Prop where
  formed : Formed next cells free (target / 4096)
  counts : Counts next.heap cells (target / 4096) (target % 4096)
  data : ∀ pointer, (next.heap.node pointer).data = (state.heap.node pointer).data
  window : ∃ safeTail unsafeLen, next.window = { state.window with
    safeTail := safeTail
    safeLen := state.window.safeLen + BitVec.ofNat 32 (target / 4096 - last)
    unsafeLen := unsafeLen
    ubList := altusUBPop state.window.ubList
    lastSeq := tailSeq }

/-- The end of `altusWQPut` moves `lastSeq` to the end of a first block that starts there. -/
theorem absorb_joins {cells free : List Ptr} (origin target : Nat) {last count : Nat}
    (formed : Formed state cells free last) (counts : Counts state.heap cells last count)
    (lastSeq : state.window.lastSeq = BitVec.ofNat 32 (origin + 4096 * last + count))
    (turn : state.window.ubList.headSeq 0 = state.window.lastSeq)
    (ends : state.window.ubList.tailSeq 0 = BitVec.ofNat 32 (origin + target))
    (lower : 4096 * last ≤ target) (near : target < 4096 * last + 2 ^ 31)
    (inside : target / 4096 < cells.length) :
    ∃ next, absorb state = .ok next ∧
      Joined state cells free target (BitVec.ofNat 32 (origin + target)) last next := by
  obtain ⟨middle, advanced, result⟩ := advanceLoop_spec origin inside advanceRounds formed counts
    lastSeq lower near (show target / 4096 - last < 524288 by omega)
  obtain ⟨safeTail, unsafeLen, middleSeq, window⟩ := result.window
  refine ⟨_, by rw [absorb, if_pos turn]; simp only [ends, advanced]; rfl, ?_⟩
  exact {
    formed := { result.formed with }
    counts := result.counts
    data := result.data
    window := ⟨safeTail, unsafeLen, by simp only [window]⟩ }

/-- Without enough nodes the advance follows a null pointer. -/
theorem absorb_null {cells free : List Ptr} (origin target : Nat) {last count : Nat}
    (formed : Formed state cells free last) (counts : Counts state.heap cells last count)
    (lastSeq : state.window.lastSeq = BitVec.ofNat 32 (origin + 4096 * last + count))
    (turn : state.window.ubList.headSeq 0 = state.window.lastSeq)
    (ends : state.window.ubList.tailSeq 0 = BitVec.ofNat 32 (origin + target))
    (near : target < 4096 * last + 2 ^ 31) (outside : cells.length ≤ target / 4096) :
    absorb state = .error .nullDereference := by
  have failed := advanceLoop_null origin outside advanceRounds formed counts lastSeq near
    (show target / 4096 - last < 524288 by omega)
  rw [absorb, if_pos turn]
  simp only [ends, failed]

/-- A first block that does not start at `lastSeq` stays listed. -/
theorem absorb_waits (waits : state.window.ubList.headSeq 0 ≠ state.window.lastSeq) :
    absorb state = .ok state := if_neg waits

/-- The first entry of the list compares with `lastSeq` as its position does. -/
theorem Pending.turn_iff (pending : Pending state view) {run : Nat × Nat} {rest : List (Nat × Nat)}
    (runs : view.runs = run :: rest) :
    state.window.ubList.headSeq 0 = state.window.lastSeq ↔ run.1 = view.position := by
  have entry := pending.lists.entry 0 run (by rw [runs]; rfl)
  have member : run ∈ view.runs := by simp [runs]
  have lower := pending.reached run member
  have upper := pending.fits run member
  have positive := pending.sorted.ordered run member
  have size := pending.size
  have ordered := pending.ordered
  rw [entry.1, pending.lastSeq]
  exact Serial.ofNat_inj (by omega) (by omega)

/-- The end of `altusWQPut` settles the view when the first block has its nodes. -/
theorem Pending.absorb_ok (pending : Pending state view) (nonempty : view.runs ≠ [])
    (enough : ∀ run ∈ view.runs, run.1 = view.position → (run.2 - view.origin) / 4096 < view.cells.length) :
    ∃ next, absorb state = .ok next ∧ Tracks next view.settle ∧
      (∀ pointer, (next.heap.node pointer).data = (state.heap.node pointer).data) ∧
      next.window.windowSize = state.window.windowSize ∧
      next.window.headDataOffset = state.window.headDataOffset := by
  obtain ⟨run, rest, runs⟩ := List.exists_cons_of_ne_nil nonempty
  have turnIff := pending.turn_iff runs
  have ordered := pending.ordered
  obtain ⟨sorted, few, fits, beyond⟩ := pending.settle_beyond
  by_cases turn : run.1 = view.position
  · have member : run ∈ view.runs := by simp [runs]
    have positive := pending.sorted.ordered run member
    have bound := pending.fits run member
    have size := pending.size
    have entry := pending.lists.entry 0 run (by rw [runs]; rfl)
    have settled : view.settle = { view with position := run.2, runs := rest } := by
      simp only [View.settle, runs, Runs.absorb, if_pos turn]
    have depth : view.settle.depth = run.2 - view.origin := by rw [settled]; rfl
    have grows : view.depth ≤ run.2 - view.origin := by simp only [View.depth]; omega
    obtain ⟨next, absorbed, joined⟩ := absorb_joins view.origin (run.2 - view.origin)
      pending.formed pending.counts pending.lastSeq_split (turnIff.mpr turn)
      (by rw [entry.2, Nat.add_sub_of_le (by omega)]) (by omega) (by omega) (enough run member turn)
    obtain ⟨safeTail, unsafeLen, window⟩ := joined.window
    have lists : Lists (altusUBPop state.window.ubList) rest := by
      have all := pending.lists
      rw [runs] at all
      exact all.pop (runs ▸ pending.few)
    have shallow := pending.settle_shallow.1
    refine ⟨next, absorbed, ?_, joined.data, by rw [window], by rw [window]⟩
    rw [← depth] at joined window grows
    exact {
      formed := by rw [settled] at joined ⊢; exact joined.formed
      counts := by rw [settled] at joined ⊢; exact joined.counts
      ordered := by rw [settled]; dsimp only; omega
      safeLen := by
        rw [window]
        dsimp only
        rw [pending.safeLen, ← BitVec.ofNat_add]
        rw [show view.depth / 4096 + 1 + (view.settle.depth / 4096 - view.depth / 4096) =
          view.settle.depth / 4096 + 1 by omega]
      lastSeq := by
        rw [window, depth, settled]
        dsimp only
        rw [Nat.add_sub_of_le (by omega)]
      size := by rw [window]; exact pending.size
      shallow := by rw [window]; exact shallow
      lists := by rw [window, settled]; exact lists
      sorted := sorted
      few := few
      fits := by rw [window]; exact fits
      reached := fun run member => (beyond run member).le
      beyond := beyond }
  · have settled : view.settle = view := by
      rw [View.settle, runs, Runs.absorb, if_neg turn, ← runs]
    rw [settled] at beyond ⊢
    exact ⟨state, absorb_waits fun equal => turn (turnIff.mp equal), ⟨pending, beyond⟩, fun _ => rfl,
      rfl, rfl⟩

/-- A completed end of `altusWQPut` settles the view. -/
theorem Pending.absorb_completed (pending : Pending state view) (nonempty : view.runs ≠ [])
    {next : WQState} (absorbed : absorb state = .ok next) :
    Tracks next view.settle ∧ next.window.windowSize = state.window.windowSize := by
  by_cases enough : ∀ run ∈ view.runs, run.1 = view.position →
      (run.2 - view.origin) / 4096 < view.cells.length
  · obtain ⟨other, same, tracks, -, size, -⟩ := pending.absorb_ok nonempty enough
    obtain rfl : other = next := Except.ok.inj (same.symm.trans absorbed)
    exact ⟨tracks, size⟩
  · push Not at enough
    obtain ⟨run, member, turn, outside⟩ := enough
    obtain ⟨first, rest, runs⟩ := List.exists_cons_of_ne_nil nonempty
    have same : run = first := by
      have sorted := pending.sorted
      rw [runs] at member sorted
      rcases List.mem_cons.mp member with rfl | later
      · rfl
      · obtain ⟨ordered, before, -⟩ := sorted_cons.mp sorted
        have gap := before run later
        have reached := pending.reached first (by simp [runs])
        omega
    subst same
    have positive := pending.sorted.ordered run (by simp [runs])
    have bound := pending.fits run (by simp [runs])
    have size := pending.size
    have ordered := pending.ordered
    have entry := pending.lists.entry 0 run (by rw [runs]; rfl)
    have failed := absorb_null view.origin (run.2 - view.origin) pending.formed
      pending.counts pending.lastSeq_split ((pending.turn_iff runs).mpr turn)
      (by rw [entry.2, Nat.add_sub_of_le (by omega)]) (by omega) outside
    rw [failed] at absorbed
    cases absorbed

end Absorb

end Altus.WindowedQueue
