import Altus.Proof.Window.Initial
import Altus.Proof.Window.SharedCalls

namespace Altus.WindowedQueue

open Chain

section Loop

variable {heap : WQHeap} {lastNode : Ptr}

/-- `altusFreeWQ` returns when its nodes do. -/
theorem altusFreeWQ_freed (heap : WQHeap) (window : WQWindow) :
    altusFreeWQ heap window = (freedByWQ heap window).map fun _ => () := by
  have loops (rounds : Nat) : ∀ current : Ptr, freeLoop heap window.unsafeTail rounds current =
      (freedLoop heap window.unsafeTail rounds current).map fun _ => () := by
    induction rounds with
    | zero =>
        intro current
        rfl
    | succ rounds ih =>
        intro current
        rw [freeLoop, freedLoop]
        split
        · rfl
        split
        · rfl
        · rename_i next link
          rw [ih next]
          cases freedLoop heap window.unsafeTail rounds next <;> rfl
  exact loops _ _

/-- The loop frees a chain from its first node to its last one. -/
theorem freedLoop_chain {cells : List Ptr} : ∀ {rounds : Nat} {first : Ptr}, Linked (links heap) cells → cells.Nodup →
    cells.head? = some first → cells.getLast? = some lastNode → cells.length ≤ rounds →
    freedLoop heap lastNode rounds first = .ok cells := by
  induction cells with
  | nil =>
      intro rounds first linked nodup head last enough
      cases head
  | cons cell rest ih =>
      intro rounds first linked nodup head last enough
      obtain rfl : cell = first := Option.some.inj head
      obtain ⟨rounds, rfl⟩ : ∃ fewer, rounds = fewer + 1 := ⟨rounds - 1, by simp at enough; omega⟩
      rw [freedLoop]
      cases rest with
      | nil =>
          obtain rfl : cell = lastNode := Option.some.inj last
          rw [if_pos rfl]
      | cons second rest =>
          rw [List.getLast?_cons_cons] at last
          have different : cell ≠ lastNode := by
            rintro rfl
            exact (List.nodup_cons.mp nodup).1 (List.mem_of_getLast? last)
          have link : (heap.node cell).toTail = some second := (linked_cons.mp linked).1
          have later := @ih rounds second linked.tail (List.nodup_cons.mp nodup).2 rfl last (by simp at enough ⊢; omega)
          rw [if_neg different, link]
          dsimp only
          rw [later]
          rfl

end Loop

section Pool

variable {shared : SharedPool} {chain : Option Nat → List Ptr}

/-- No chain has more nodes than are allocated. -/
theorem Apart.length_le (apart : Apart shared chain none) (owner : Option Nat) :
    (chain owner).length ≤ shared.heap.brk := by
  have subset : chain owner ⊆ List.range shared.heap.brk := fun pointer member => List.mem_range.mpr (apart.below member)
  have counted := (List.subperm_of_subset (apart.doubly.nodup owner) subset).length_le
  rwa [List.length_range] at counted

/-- `altusFreeWQ` frees the chain of its window. -/
theorem Apart.freedByWQ (apart : Apart shared chain none) {index : Nat} {window : WQWindow}
    (here : shared.windows[index]? = some window) :
    WindowedQueue.freedByWQ shared.heap window = .ok (chain (some index)) := by
  obtain ⟨head, tail, -⟩ := apart.windows index window here
  exact freedLoop_chain (apart.doubly.linked _) (apart.doubly.nodup _) head tail (apart.length_le _)

/-- `altusFreeP` frees the chain of the pool. -/
theorem Apart.altusFreeP (apart : Apart shared chain none) :
    WindowedQueue.altusFreeP shared.heap shared.pool = .ok (chain none) :=
  freedLoop_chain (apart.doubly.linked _) (apart.doubly.nodup _) apart.poolHead apart.poolTail (apart.length_le _)

theorem Apart.nodesOf (apart : Apart shared chain none) {index : Nat} {window : WQWindow}
    (here : shared.windows[index]? = some window) : WindowedQueue.nodesOf shared.heap window = chain (some index) := by
  rw [WindowedQueue.nodesOf, apart.freedByWQ here]
  rfl

theorem Apart.recycledNodes (apart : Apart shared chain none) :
    WindowedQueue.recycledNodes shared.heap shared.pool = chain none := by
  rw [WindowedQueue.recycledNodes, apart.altusFreeP]
  rfl

end Pool

/-- One completed call on the window of an index. A `memcpy` that leaves its node ends a put with a fault. -/
inductive PoolCall (index : Nat) (shared : SharedPool) : SharedPool → Prop
  | newWindow (raw : WQWindow) (last : index = shared.windows.length) :
      PoolCall index shared
        ⟨(altusNewWindow shared.heap raw).2, shared.pool, shared.windows ++ [(altusNewWindow shared.heap raw).1]⟩
  | put {window : WQWindow} {next : WQState} (seq length : U32) (data : Bytes.Memory) {code : Int} {copies : List Copy}
      (here : shared.windows[index]? = some window)
      (returned : altusWQPut (shared.view window) seq length data = .ok (code, copies, next)) :
      PoolCall index shared (shared.put index next)
  | pop {window : WQWindow} {next : WQState} (length : Int) (dest : Option Bytes.Memory) {taken : Int}
      {filled : Option Bytes.Memory} (here : shared.windows[index]? = some window)
      (returned : altusWQPop (shared.view window) length dest = .ok (taken, filled, next)) :
      PoolCall index shared (shared.put index next)
  | sanitize {window : WQWindow} {next : WQState} {code : Int} (here : shared.windows[index]? = some window)
      (returned : altusWQSanitize (shared.view window) = .ok (code, next)) : PoolCall index shared (shared.put index next)

/-- Every completed call keeps the chains apart and leaves the other windows alone. -/
theorem Apart.call {shared next : SharedPool} {chain : Option Nat → List Ptr} (apart : Apart shared chain none)
    {index : Nat} (call : PoolCall index shared next) :
    ∃ nextChain, Apart next nextChain none ∧ Frame index shared chain next nextChain := by
  cases call with
  | newWindow raw last =>
      subst last
      exact ⟨_, apart.newWindow raw⟩
  | put seq length data here returned =>
      obtain ⟨nextChain, kept⟩ := (apart.midway here).put returned
      exact ⟨nextChain, kept.apart, kept.frame⟩
  | pop length dest here returned =>
      obtain ⟨nextChain, kept⟩ := (apart.midway here).pop returned
      exact ⟨nextChain, kept.apart, kept.frame⟩
  | sanitize here returned =>
      have kept := (apart.midway here).sanitize returned
      exact ⟨chain, kept.apart, kept.frame⟩

/-- The windows of one pool, the indices of those that were freed, and the nodes that were freed with them. -/
structure Lifetime where
  shared : SharedPool
  closed : List Nat
  freed : List Ptr

/-- A call on a window, or the end of a window. -/
inductive Lifetime.Step : Lifetime → Lifetime → Prop
  | call {lifetime : Lifetime} {next : SharedPool} (index : Nat) (stillOpen : index ∉ lifetime.closed)
      (call : PoolCall index lifetime.shared next) : Step lifetime { lifetime with shared := next }
  | close {lifetime : Lifetime} {window : WQWindow} {nodes : List Ptr} (index : Nat) (stillOpen : index ∉ lifetime.closed)
      (here : lifetime.shared.windows[index]? = some window)
      (returned : freedByWQ lifetime.shared.heap window = .ok nodes) :
      Step lifetime { lifetime with closed := index :: lifetime.closed, freed := lifetime.freed ++ nodes }

/-- The windows of a list of indices are freed one after the other. -/
def freeWindows (shared : SharedPool) : List Nat → Except Fault (List Ptr)
  | [] => .ok []
  | index :: rest =>
      match shared.windows[index]? with
      | none => .error .nullDereference
      | some window =>
          match freedByWQ shared.heap window with
          | .error fault => .error fault
          | .ok freed => (freeWindows shared rest).map fun later => freed ++ later

/-- The freed nodes are those of the closed windows. -/
structure Lifetime.Sound (lifetime : Lifetime) (chain : Option Nat → List Ptr) : Prop where
  apart : Apart lifetime.shared chain none
  once : lifetime.closed.Nodup
  known : ∀ index ∈ lifetime.closed, index < lifetime.shared.windows.length
  freed : lifetime.freed.Perm (lifetime.closed.flatMap fun index => chain (some index))

namespace Lifetime

variable {lifetime next : Lifetime} {chain : Option Nat → List Ptr}

theorem Sound.step (sound : lifetime.Sound chain) (step : Step lifetime next) :
    ∃ nextChain, next.Sound nextChain ∧
      ∀ pointer ∈ lifetime.freed, next.shared.heap.node pointer = lifetime.shared.heap.node pointer := by
  cases step with
  | call index stillOpen call =>
      obtain ⟨nextChain, apart, frame⟩ := sound.apart.call call
      have other {closed : Nat} (member : closed ∈ lifetime.closed) : closed ≠ index := by
        rintro rfl
        exact stillOpen member
      refine ⟨nextChain, ⟨apart, sound.once, ?_, ?_⟩, ?_⟩
      · intro closed member
        have here := (frame closed (other member)).1
        rw [List.getElem?_eq_getElem (sound.known closed member)] at here
        exact (List.getElem?_eq_some_iff.mp here).1
      · rw [List.flatMap_congr fun closed member => (frame closed (other member)).2.1]
        exact sound.freed
      · intro pointer member
        obtain ⟨closed, isClosed, inChain⟩ := List.mem_flatMap.mp (sound.freed.subset member)
        exact (frame closed (other isClosed)).2.2 pointer inChain
  | close index stillOpen here returned =>
      obtain rfl := Except.ok.inj ((sound.apart.freedByWQ here).symm.trans returned)
      refine ⟨chain, ⟨sound.apart, List.nodup_cons.mpr ⟨stillOpen, sound.once⟩, ?_, ?_⟩, fun _ _ => rfl⟩
      · intro closed member
        rcases List.mem_cons.mp member with rfl | old
        · exact (List.getElem?_eq_some_iff.mp here).1
        · exact sound.known closed old
      · rw [List.flatMap_cons]
        exact (List.Perm.append_right _ sound.freed).trans List.perm_append_comm

theorem Sound.freeWindows (sound : lifetime.Sound chain) {order : List Nat}
    (known : ∀ index ∈ order, index < lifetime.shared.windows.length) :
    WindowedQueue.freeWindows lifetime.shared order = .ok (order.flatMap fun index => chain (some index)) := by
  induction order with
  | nil => rfl
  | cons index rest ih =>
      have inside := known index (List.mem_cons_self ..)
      rw [WindowedQueue.freeWindows, List.getElem?_eq_getElem inside]
      dsimp only
      rw [sound.apart.freedByWQ (List.getElem?_eq_getElem inside),
        ih fun other member => known other (List.mem_cons_of_mem _ member)]
      rfl

/-- The chains of all windows and of the pool are all allocated nodes. -/
theorem Sound.covers (sound : lifetime.Sound chain) {order : List Nat}
    (rest : (lifetime.closed ++ order).Perm (List.range lifetime.shared.windows.length)) :
    (((lifetime.closed ++ order).flatMap fun index => chain (some index)) ++ chain none).Perm
      (List.range lifetime.shared.heap.brk) := by
  have doubly := sound.apart.doubly
  have several : ((lifetime.closed ++ order).flatMap fun index => chain (some index)).Nodup := by
    refine List.nodup_flatMap.mpr ⟨fun index _ => doubly.nodup (some index), ?_⟩
    have distinct : (lifetime.closed ++ order).Nodup := rest.nodup_iff.mpr List.nodup_range
    refine distinct.imp ?_
    intro first second different pointer inFirst inSecond
    exact different (Option.some.inj (doubly.apart _ _ pointer inFirst inSecond))
  refine (List.perm_ext_iff_of_nodup (List.nodup_append.mpr ⟨several, doubly.nodup none, ?_⟩) List.nodup_range).mpr ?_
  · rintro pointer inWindows _ inPool rfl
    obtain ⟨index, -, inChain⟩ := List.mem_flatMap.mp inWindows
    exact Option.some_ne_none _ (doubly.apart _ _ pointer inChain inPool)
  · intro pointer
    have placed := sound.apart.placed pointer
    simp only [reduceCtorEq, or_false] at placed
    rw [List.mem_append, List.mem_flatMap, List.mem_range, placed]
    constructor
    · rintro (⟨index, -, inChain⟩ | inPool)
      · exact ⟨some index, inChain⟩
      · exact ⟨none, inPool⟩
    · rintro ⟨owner, inChain⟩
      cases owner with
      | none => exact Or.inr inChain
      | some index =>
          refine Or.inl ⟨index, rest.mem_iff.mpr (List.mem_range.mpr ?_), inChain⟩
          by_contra beyond
          rw [sound.apart.absent index (Nat.le_of_not_lt beyond)] at inChain
          cases inChain

/-- The lifetime of a pool before its first window. -/
def start (node : Ptr → WQNode) : Lifetime := ⟨SharedPool.start node, [], []⟩

theorem reached_sound {node : Ptr → WQNode} (run : Relation.ReflTransGen Step (start node) lifetime) :
    ∃ chain, lifetime.Sound chain := by
  induction run with
  | refl => exact ⟨_, start_apart node, List.nodup_nil, by simp [start], List.Perm.refl _⟩
  | tail _ step ih =>
      obtain ⟨chain, sound⟩ := ih
      obtain ⟨nextChain, next, -⟩ := sound.step step
      exact ⟨nextChain, next⟩

/-- In every run no freed node changes any more. At its end the other windows, in any order, and the pool can be freed, and
then every allocated node was freed exactly once. -/
theorem run_frees_once {node : Ptr → WQNode} (run : Relation.ReflTransGen Step (start node) lifetime) :
    (∀ next, Step lifetime next → ∀ pointer ∈ lifetime.freed,
      next.shared.heap.node pointer = lifetime.shared.heap.node pointer) ∧
    ∀ order, (lifetime.closed ++ order).Perm (List.range lifetime.shared.windows.length) →
      ∃ rest pooled, freeWindows lifetime.shared order = .ok rest ∧
        altusFreeP lifetime.shared.heap lifetime.shared.pool = .ok pooled ∧
        (lifetime.freed ++ rest ++ pooled).Perm (List.range lifetime.shared.heap.brk) := by
  obtain ⟨chain, sound⟩ := reached_sound run
  constructor
  · intro next step
    obtain ⟨-, -, kept⟩ := sound.step step
    exact kept
  · intro order rest
    have known : ∀ index ∈ order, index < lifetime.shared.windows.length := fun index member =>
      List.mem_range.mp (rest.subset (List.mem_append_right _ member))
    refine ⟨_, _, sound.freeWindows known, sound.apart.altusFreeP, ?_⟩
    refine (List.Perm.append_right _ (List.Perm.append_right _ sound.freed)).trans ?_
    rw [← List.flatMap_append]
    exact sound.covers rest

/-- A pool after two new windows. -/
def twoWindows : SharedPool :=
  let first := SharedPool.start blankHeap.node
  let second := SharedPool.mk (altusNewWindow first.heap blankWindow).2 first.pool [(altusNewWindow first.heap blankWindow).1]
  ⟨(altusNewWindow second.heap blankWindow).2, second.pool, second.windows ++ [(altusNewWindow second.heap blankWindow).1]⟩

/-- The first of two windows takes a byte and is freed, before the second one and the pool are. -/
theorem run_frees_once_two : ∃ lifetime : Lifetime, lifetime.closed = [0] ∧
    ∃ rest pooled, freeWindows lifetime.shared [1] = .ok rest ∧
      altusFreeP lifetime.shared.heap lifetime.shared.pool = .ok pooled ∧
      (lifetime.freed ++ rest ++ pooled).Perm (List.range lifetime.shared.heap.brk) := by
  have opened : Relation.ReflTransGen Step (start blankHeap.node) ⟨twoWindows, [], []⟩ :=
    (Relation.ReflTransGen.single (Step.call 0 (by simp [start]) (.newWindow blankWindow rfl))).tail
      (Step.call 1 (by simp [start]) (.newWindow blankWindow rfl))
  obtain ⟨next, taken⟩ : ∃ next, altusWQPut (twoWindows.view (twoWindows.windows[0])) 0 1 (fun _ => 7) =
      .ok (0, [⟨0, 1⟩], next) := by with_unfolding_all exact ⟨_, rfl⟩
  have put := opened.tail (Step.call 0 (by simp) (.put 0 1 (fun _ => 7) rfl taken))
  obtain ⟨chain, sound⟩ := reached_sound put
  have here : (twoWindows.put 0 next).windows[0]? = some next.window := rfl
  have closed := put.tail (Step.close 0 (by simp) here (sound.apart.freedByWQ here))
  exact ⟨_, rfl, (run_frees_once closed).2 [1] (List.Perm.refl [0, 1])⟩

end Lifetime

end Altus.WindowedQueue
