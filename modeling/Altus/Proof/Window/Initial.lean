import Altus.Proof.Window.Read

namespace Altus.WindowedQueue

open Bytes Chain Runs UBList

/-- A window without a sequenced byte and without a listed block, next to a well-formed pool. -/
structure Empty (state : WQState) : Prop where
  chains : ∃ cells free, Formed state cells free 0
  count : (state.heap.node state.window.safeTail).validBlockCount = 0
  offset : state.window.headDataOffset = 0
  safeLen : state.window.safeLen = 1
  listed : state.window.ubList.count = 0

/-- The view of an empty window. -/
theorem Empty.represents {state : WQState} (empty : Empty state) {position : Nat}
    (lastSeq : state.window.lastSeq = BitVec.ofNat 32 position)
    (positive : 0 < state.window.windowSize.toNat) (size : state.window.windowSize.toNat ≤ 2 ^ 19) :
    ∃ cells free, Represents state ⟨cells, free, position, position, []⟩ ∧
      Reading state ⟨cells, free, position, position, []⟩ := by
  obtain ⟨cells, free, formed⟩ := empty.chains
  have depth : View.depth ⟨cells, free, position, position, []⟩ = 0 := Nat.sub_self position
  have counts : Counts state.heap cells 0 0 := by
    constructor
    · intro index pointer before
      omega
    · intro pointer here
      obtain rfl := Option.some.inj (formed.safe.symm.trans here)
      exact empty.count
  refine ⟨cells, free, ?_, ?_, ?_⟩
  · exact {
      formed := by rw [depth]; exact formed
      counts := by rw [depth]; exact counts
      ordered := le_rfl
      safeLen := by rw [depth]; exact empty.safeLen
      lastSeq := lastSeq
      size := size
      shallow := by rw [depth]; omega
      lists := Lists.nil _ empty.listed
      sorted := sorted_nil
      few := by simp
      fits := by simp
      reached := by simp
      beyond := by simp
      nonempty := by simp }
  · rw [empty.offset]
    decide
  · rw [empty.offset]
    exact Nat.zero_le _

/-- A new window and a new pool on one heap. -/
def fresh (heap : WQHeap) (raw : WQWindow) : WQState :=
  let (window, heap) := altusNewWindow heap raw
  let (pool, heap) := altusWQNewNodePool heap
  ⟨heap, pool, window⟩

/-- A new window next to a new pool is empty. -/
theorem fresh_empty (heap : WQHeap) (raw : WQWindow) : Empty (fresh heap raw) := by
  have first : (fresh heap raw).heap.node heap.brk =
      { heap.node heap.brk with toHead := none, toTail := none, validBlockCount := 0 } := by
    simp [fresh, altusNewWindow, altusWQNewNodePool, WQHeap.modify]
  have second : (fresh heap raw).heap.node (heap.brk + 1) =
      { heap.node (heap.brk + 1) with toHead := none, toTail := none, validBlockCount := 0 } := by
    simp [fresh, altusNewWindow, altusWQNewNodePool, WQHeap.modify]
  refine ⟨⟨[heap.brk], [heap.brk + 1], ?_, ?_, by simp, ?_, rfl, rfl, rfl, rfl, rfl⟩, ?_, rfl, rfl, rfl⟩
  · intro index inside
    obtain rfl : index = 0 := by simpa using inside
    simp [links, first]
  · intro index inside
    obtain rfl : index = 0 := by simpa using inside
    simp [links, second]
  · intro pointer member
    show pointer < heap.brk + 2
    simp only [List.cons_append, List.nil_append, List.mem_cons, List.not_mem_nil, or_false] at member
    rcases member with rfl | rfl
    · exact Nat.lt_add_of_pos_right (by decide)
    · exact Nat.lt_succ_self _
  · exact congrArg WQNode.validBlockCount first

/-- A heap without any object, and a window whose fields are all zero. -/
def blankHeap : WQHeap := ⟨fun _ => ⟨none, none, fun _ => 0, 0⟩, 0⟩

def blankWindow : WQWindow := ⟨0, 0, 0, 0, 0, 0, 0, ⟨fun _ => 0, fun _ => 0, 0⟩, 0, 0⟩

end Altus.WindowedQueue
