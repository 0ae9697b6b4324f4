import Altus.Library.Serial
import Altus.Proof.Window.Nodes

namespace Altus.WindowedQueue

open Bytes Chain

/-- Each node before `last` is full and the node at `last` holds `count` bytes. -/
structure Counts (heap : WQHeap) (cells : List Ptr) (last count : Nat) : Prop where
  full : ∀ index pointer, index < last → cells[index]? = some pointer →
    (heap.node pointer).validBlockCount = nodeSpan
  partly : ∀ pointer, cells[last]? = some pointer →
    (heap.node pointer).validBlockCount = BitVec.ofNat 32 count

theorem Counts.congr {heap next : WQHeap} {cells : List Ptr} {last count : Nat}
    (counts : Counts heap cells last count)
    (same : ∀ pointer, (next.node pointer).validBlockCount = (heap.node pointer).validBlockCount) :
    Counts next cells last count where
  full := fun index pointer before here => (same pointer).trans (counts.full index pointer before here)
  partly := fun pointer here => (same pointer).trans (counts.partly pointer here)

/-- The current node gets a new count. -/
theorem Counts.set {heap : WQHeap} {cells : List Ptr} {last count : Nat} {current : Ptr}
    (counts : Counts heap cells last count) (distinct : cells.Nodup) (here : cells[last]? = some current)
    (value : Nat) :
    Counts (heap.modify current fun node => { node with validBlockCount := BitVec.ofNat 32 value })
      cells last value where
  full := by
    intro index pointer before found
    have different : pointer ≠ current := by
      rintro rfl
      have places := place_unique distinct found here
      omega
    rw [WQHeap.modify_node_of_ne _ _ different]
    exact counts.full index pointer before found
  partly := by
    intro pointer found
    obtain rfl := Option.some.inj (here.symm.trans found)
    simp

/-- A full node passes the turn to the following one. -/
theorem Counts.next {heap : WQHeap} {cells : List Ptr} {last : Nat} {following : Ptr}
    (counts : Counts heap cells last 4096) (distinct : cells.Nodup)
    (after : cells[last + 1]? = some following) :
    Counts (heap.modify following fun node => { node with validBlockCount := 0 }) cells (last + 1) 0 where
  full := by
    intro index pointer before found
    have different : pointer ≠ following := by
      rintro rfl
      have places := place_unique distinct found after
      omega
    rw [WQHeap.modify_node_of_ne _ _ different]
    rcases Nat.lt_or_ge index last with earlier | final
    · exact counts.full index pointer earlier found
    · obtain rfl : index = last := by omega
      exact counts.partly pointer found
  partly := by
    intro pointer found
    obtain rfl := Option.some.inj (after.symm.trans found)
    simp

/-- What the advance of `safe_tail` to a distance from the first byte leaves behind. -/
structure Advanced (state : WQState) (cells free : List Ptr) (last target : Nat) (next : WQState) : Prop where
  formed : Formed next cells free (target / 4096)
  counts : Counts next.heap cells (target / 4096) (target % 4096)
  data : ∀ pointer, (next.heap.node pointer).data = (state.heap.node pointer).data
  window : ∃ safeTail unsafeLen lastSeq, next.window = { state.window with
    safeTail := safeTail
    safeLen := state.window.safeLen + BitVec.ofNat 32 (target / 4096 - last)
    unsafeLen := unsafeLen
    lastSeq := lastSeq }

/-- The node at `safe_tail` is full and its follower takes over. -/
def passOn (state : WQState) (next : Ptr) (lastSeq : U32) : WQState :=
  { state with
    heap := (state.heap.modify state.window.safeTail fun node =>
      { node with validBlockCount := nodeSpan }).modify next fun node => { node with validBlockCount := 0 }
    window := { state.window with
      lastSeq := lastSeq
      safeLen := state.window.safeLen + 1
      unsafeLen := state.window.unsafeLen - 1
      safeTail := next } }

section Step

variable {state : WQState} {cells free : List Ptr} {last count : Nat} {next : Ptr} {lastSeq : U32}

theorem passOn_formed (formed : Formed state cells free last) (after : cells[last + 1]? = some next) :
    Formed (passOn state next lastSeq) cells free (last + 1) := by
  have firstLinks := links_modify state.heap state.window.safeTail
    (fun node => { node with validBlockCount := nodeSpan }) fun _ => rfl
  have kept := links_modify (state.heap.modify state.window.safeTail fun node =>
    { node with validBlockCount := nodeSpan }) next (fun node => { node with validBlockCount := 0 }) fun _ => rfl
  have relinked := formed.of_links (kept.trans firstLinks) rfl
  exact { relinked with safe := after }

theorem passOn_counts (formed : Formed state cells free last) (counts : Counts state.heap cells last count)
    (after : cells[last + 1]? = some next) :
    Counts (passOn state next lastSeq).heap cells (last + 1) 0 := by
  have distinct := (List.nodup_append.mp formed.distinct).1
  exact (counts.set distinct formed.safe 4096).next distinct after

theorem passOn_data (pointer : Ptr) :
    ((passOn state next lastSeq).heap.node pointer).data = (state.heap.node pointer).data := by
  rw [passOn, WQHeap.modify_keeps WQNode.data _ next (fun node => { node with validBlockCount := 0 })
    (fun _ => rfl), WQHeap.modify_keeps WQNode.data _ state.window.safeTail
    (fun node => { node with validBlockCount := nodeSpan }) (fun _ => rfl)]

end Step

/-- The sequence number of the first byte of `safe_tail`, and the distance of `newSeq` from it. -/
theorem advance_distance (origin count : Nat) {last target : Nat} (lower : 4096 * last ≤ target)
    (near : target < 4096 * last + 2 ^ 31) :
    BitVec.ofNat 32 (origin + 4096 * last + count) - BitVec.ofNat 32 count =
        BitVec.ofNat 32 (origin + 4096 * last) ∧
      (BitVec.ofNat 32 (origin + target) - BitVec.ofNat 32 (origin + 4096 * last)) =
        BitVec.ofNat 32 (target - 4096 * last) ∧
      (BitVec.ofNat 32 (target - 4096 * last)).toInt = ((target - 4096 * last : Nat) : Int) := by
  refine ⟨?_, ?_, ?_⟩
  · rw [Serial.ofNat_sub (by omega), Nat.add_sub_cancel]
  · rw [Serial.ofNat_sub (by omega), show origin + target - (origin + 4096 * last) = target - 4096 * last by omega]
  · rw [BitVec.toInt_eq_toNat_cond, BitVec.toNat_ofNat, Nat.mod_eq_of_lt (by omega), if_pos (by omega)]

section Rounds

variable {state : WQState} {cells free : List Ptr} {origin last count target rounds : Nat}

/-- A round ends inside the node of `safe_tail`. -/
theorem advanceLoop_within (formed : Formed state cells free last)
    (counts : Counts state.heap cells last count)
    (lastSeq : state.window.lastSeq = BitVec.ofNat 32 (origin + 4096 * last + count))
    (lower : 4096 * last ≤ target) (upper : target < 4096 * last + 4096) :
    ∃ next, advanceLoop (BitVec.ofNat 32 (origin + target)) (rounds + 1) state = .ok next ∧
      Advanced state cells free last target next := by
  have distinct := (List.nodup_append.mp formed.distinct).1
  obtain ⟨nodeIs, distance, signed⟩ := advance_distance origin count lower
    (show target < 4096 * last + 2 ^ 31 by omega)
  have quotient : target / 4096 = last := by omega
  have remainder : target - 4096 * last = target % 4096 := by omega
  refine ⟨{ state with
      heap := state.heap.modify state.window.safeTail fun node =>
        { node with validBlockCount := BitVec.ofNat 32 (target - 4096 * last) }
      window := { state.window with lastSeq := BitVec.ofNat 32 (origin + target) } }, ?_, ?_, ?_, ?_, ?_⟩
  · rw [advanceLoop]
    simp only [counts.partly _ formed.safe, lastSeq, nodeIs, distance, signed]
    rw [if_neg (by omega), if_neg (by omega)]
  · have relinked := formed.of_links (links_modify state.heap state.window.safeTail
      (fun node => { node with validBlockCount := BitVec.ofNat 32 (target - 4096 * last) }) fun _ => rfl) rfl
    rw [quotient]
    exact { relinked with }
  · rw [quotient, remainder]
    exact counts.set distinct formed.safe (target % 4096)
  · intro pointer
    exact state.heap.modify_keeps WQNode.data state.window.safeTail
      (fun node => { node with validBlockCount := BitVec.ofNat 32 (target - 4096 * last) }) (fun _ => rfl) pointer
  · refine ⟨state.window.safeTail, state.window.unsafeLen, BitVec.ofNat 32 (origin + target), ?_⟩
    simp [quotient]

/-- A round whose target lies beyond the node follows `to_tail`. -/
theorem advanceLoop_beyond (formed : Formed state cells free last)
    (counts : Counts state.heap cells last count)
    (lastSeq : state.window.lastSeq = BitVec.ofNat 32 (origin + 4096 * last + count))
    (upper : 4096 * last + 4096 ≤ target) (near : target < 4096 * last + 2 ^ 31) :
    advanceLoop (BitVec.ofNat 32 (origin + target)) (rounds + 1) state =
      match cells[last + 1]? with
      | none => .error .nullDereference
      | some next =>
          if target = 4096 * last + 4096 then .ok (passOn state next state.window.lastSeq)
          else advanceLoop (BitVec.ofNat 32 (origin + target)) rounds
            (passOn state next (BitVec.ofNat 32 (origin + 4096 * (last + 1) + 0))) := by
  obtain ⟨nodeIs, distance, signed⟩ := advance_distance origin count
    (show 4096 * last ≤ target by omega) near
  have link : (state.heap.node state.window.safeTail).toTail = cells[last + 1]? :=
    formed.cellsLinked.next_eq formed.safe
  have nextSeq : BitVec.ofNat 32 (origin + 4096 * last) + nodeSpan =
      BitVec.ofNat 32 (origin + 4096 * (last + 1) + 0) := by
    rw [show origin + 4096 * (last + 1) + 0 = (origin + 4096 * last) + 4096 by omega]
    exact (BitVec.ofNat_add _ 4096).symm
  rw [advanceLoop]
  simp only [counts.partly _ formed.safe, lastSeq, nodeIs, distance, signed, WQHeap.modify_node_self, link]
  by_cases exact : target = 4096 * last + 4096
  · have span : BitVec.ofNat 32 (target - 4096 * last) = nodeSpan := by
      rw [show target - 4096 * last = 4096 by omega]
    rw [if_neg (by omega), if_pos (by omega), span]
    cases cells[last + 1]? with
    | none => rfl
    | some next => simp only [if_pos exact, passOn]
  · rw [if_pos (by omega)]
    cases cells[last + 1]? with
    | none => rfl
    | some next => simp only [if_neg exact, passOn, nextSeq]

end Rounds

/-- A step of `safe_tail` precedes the rest of the advance. -/
theorem Advanced.after_pass {state next : WQState} {cells free : List Ptr} {last target : Nat}
    {following : Ptr} {lastSeq : U32} (beyond : last + 1 ≤ target / 4096)
    (advanced : Advanced (passOn state following lastSeq) cells free (last + 1) target next) :
    Advanced state cells free last target next where
  formed := advanced.formed
  counts := advanced.counts
  data := fun pointer => (advanced.data pointer).trans (passOn_data pointer)
  window := by
    obtain ⟨safeTail, unsafeLen, final, window⟩ := advanced.window
    refine ⟨safeTail, unsafeLen, final, ?_⟩
    have sum : state.window.safeLen + 1 + BitVec.ofNat 32 (target / 4096 - (last + 1)) =
        state.window.safeLen + BitVec.ofNat 32 (target / 4096 - last) := by
      rw [show target / 4096 - last = (target / 4096 - (last + 1)) + 1 by omega, ← Serial.ofNat_succ,
        BitVec.add_assoc, BitVec.add_comm 1]
    rw [window, passOn]
    simp only [sum]

/-- The advance reaches every target inside the chain. -/
theorem advanceLoop_spec (origin : Nat) {target : Nat} {cells free : List Ptr} (inside : target / 4096 < cells.length)
    (rounds : Nat) :
    ∀ {state : WQState} {last count : Nat}, Formed state cells free last →
      Counts state.heap cells last count →
      state.window.lastSeq = BitVec.ofNat 32 (origin + 4096 * last + count) →
      4096 * last ≤ target → target < 4096 * last + 2 ^ 31 → target / 4096 - last < rounds →
      ∃ next, advanceLoop (BitVec.ofNat 32 (origin + target)) rounds state = .ok next ∧
        Advanced state cells free last target next := by
  induction rounds with
  | zero => intro state last count formed counts lastSeq lower near rounds; omega
  | succ rounds ih =>
      intro state last count formed counts lastSeq lower near enough
      rcases Nat.lt_or_ge target (4096 * last + 4096) with within | beyond
      · exact advanceLoop_within formed counts lastSeq lower within
      · have followingInside : last + 1 < cells.length := by omega
        have after : cells[last + 1]? = some cells[last + 1] := List.getElem?_eq_getElem followingInside
        rw [advanceLoop_beyond formed counts lastSeq beyond near, after]
        by_cases exact : target = 4096 * last + 4096
        · have quotient : target / 4096 = last + 1 := by omega
          have remainder : target % 4096 = 0 := by omega
          refine ⟨_, if_pos exact, Advanced.after_pass (by omega) ⟨?_, ?_, fun _ => rfl,
            (passOn state cells[last + 1] state.window.lastSeq).window.safeTail,
            (passOn state cells[last + 1] state.window.lastSeq).window.unsafeLen, state.window.lastSeq, ?_⟩⟩
          · rw [quotient]
            exact passOn_formed formed after
          · rw [quotient, remainder]
            exact passOn_counts formed counts after
          · rw [quotient, Nat.sub_self]
            simp [passOn]
        · simp only [if_neg exact]
          obtain ⟨next, advancedTo, advanced⟩ := ih (passOn_formed formed after)
            (passOn_counts formed counts after) rfl (by omega) (by omega) (by omega)
          exact ⟨next, advancedTo, advanced.after_pass (by omega)⟩

/-- The advance follows a null `to_tail` when the chain ends before the target. -/
theorem advanceLoop_null (origin : Nat) {target : Nat} {cells free : List Ptr} (outside : cells.length ≤ target / 4096)
    (rounds : Nat) :
    ∀ {state : WQState} {last count : Nat}, Formed state cells free last →
      Counts state.heap cells last count →
      state.window.lastSeq = BitVec.ofNat 32 (origin + 4096 * last + count) →
      target < 4096 * last + 2 ^ 31 → target / 4096 - last < rounds →
      advanceLoop (BitVec.ofNat 32 (origin + target)) rounds state = .error .nullDereference := by
  induction rounds with
  | zero => intro state last count formed counts lastSeq near rounds; omega
  | succ rounds ih =>
      intro state last count formed counts lastSeq near enough
      have safeInside := (List.getElem?_eq_some_iff.mp formed.safe).1
      rw [advanceLoop_beyond formed counts lastSeq (by omega) near]
      cases after : cells[last + 1]? with
      | none => rfl
      | some next =>
          have nextInside := (List.getElem?_eq_some_iff.mp after).1
          simp only [if_neg (show ¬ target = 4096 * last + 4096 by omega)]
          exact ih (passOn_formed formed after) (passOn_counts formed counts after) rfl (by omega) (by omega)

end Altus.WindowedQueue
