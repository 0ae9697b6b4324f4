import Altus.Proof.Window.FlowControl
import Altus.Proof.Window.Lanes

namespace Altus.WindowedQueue

open Chain

variable {Place : Type}

/-- The windows that stand at places live in one pool. Each has a slot of its own in a run of that pool, and no other window of
the run is open. -/
structure Rooms (heap : WQHeap) (pool : WQNodePool) (windowAt : Place → Option WQWindow) (freed : List Ptr)
    (lifetime : Lifetime) (slot : Place → Nat) : Prop where
  run : ∃ node, Relation.ReflTransGen Lifetime.Step (Lifetime.start node) lifetime
  heap : lifetime.shared.heap = heap
  pool : lifetime.shared.pool = pool
  freed : lifetime.freed = freed
  here : ∀ place window, windowAt place = some window → lifetime.shared.windows[slot place]? = some window
  stillOpen : ∀ place, windowAt place ≠ none → slot place ∉ lifetime.closed
  distinct : ∀ place other, windowAt place ≠ none → windowAt other ≠ none → slot place = slot other → place = other
  all : ∀ index < lifetime.shared.windows.length, index ∉ lifetime.closed → ∃ place, windowAt place ≠ none ∧ slot place = index

section Change

variable {heap : WQHeap} {pool : WQNodePool} {windowAt : Place → Option WQWindow} {freed : List Ptr} {lifetime : Lifetime}
  {slot : Place → Nat}

theorem Rooms.view (rooms : Rooms heap pool windowAt freed lifetime slot) (window : WQWindow) :
    lifetime.shared.view window = ⟨heap, pool, window⟩ := by
  rw [SharedPool.view, rooms.heap, rooms.pool]

/-- Before its first window a pool has no window at any place. -/
theorem Rooms.start (node : Ptr → WQNode) :
    @Rooms Place (SharedPool.start node).heap (SharedPool.start node).pool (fun _ => none) [] (Lifetime.start node)
      fun _ => 0 where
  run := ⟨node, Relation.ReflTransGen.refl⟩
  heap := rfl
  pool := rfl
  freed := rfl
  here := by simp
  stillOpen := by simp
  distinct := by simp
  all := by simp [Lifetime.start, SharedPool.start]

variable [DecidableEq Place] {place : Place} {window : WQWindow}

/-- A call on the window of a place. -/
theorem Rooms.call (rooms : Rooms heap pool windowAt freed lifetime slot) (found : windowAt place = some window)
    {state : WQState} (call : ∀ index, lifetime.shared.windows[index]? = some window →
      PoolCall index lifetime.shared (lifetime.shared.put index state)) :
    ∃ next, Rooms state.heap state.pool (Function.update windowAt place (some state.window)) freed next slot := by
  obtain ⟨node, run⟩ := rooms.run
  have present : windowAt place ≠ none := by rw [found]; exact Option.some_ne_none _
  have old (other : Place) : Function.update windowAt place (some state.window) other ≠ none ↔ windowAt other ≠ none := by
    by_cases own : other = place
    · subst own
      simp [found]
    · rw [Function.update_of_ne own]
  have here := rooms.here place window found
  refine ⟨{ lifetime with shared := lifetime.shared.put (slot place) state },
    ⟨node, run.tail (.call _ (rooms.stillOpen place present) (call _ here))⟩, rfl, rfl, rooms.freed, ?_, ?_, ?_, ?_⟩
  · intro other otherWindow otherFound
    by_cases own : other = place
    · subst own
      rw [Function.update_self] at otherFound
      obtain rfl := Option.some.inj otherFound
      exact lifetime.shared.put_here (List.getElem?_eq_some_iff.mp here).1 state
    · rw [Function.update_of_ne own] at otherFound
      have apart : slot place ≠ slot other := fun same =>
        own (rooms.distinct _ _ present (by rw [otherFound]; exact Option.some_ne_none _) same).symm
      exact (List.getElem?_set_ne apart).trans (rooms.here other otherWindow otherFound)
  · exact fun other there => rooms.stillOpen other ((old other).mp there)
  · exact fun other third there also same => rooms.distinct other third ((old other).mp there) ((old third).mp also) same
  · intro index inside unclosed
    obtain ⟨other, there, same⟩ := rooms.all index (by simpa [SharedPool.put] using inside) unclosed
    exact ⟨other, (old other).mpr there, same⟩

/-- A new window at a vacant place. -/
theorem Rooms.newWindow (rooms : Rooms heap pool windowAt freed lifetime slot) (vacant : windowAt place = none)
    (raw : WQWindow) :
    ∃ next nextSlot, Rooms (altusNewWindow heap raw).2 pool
      (Function.update windowAt place (some (altusNewWindow heap raw).1)) freed next nextSlot := by
  obtain ⟨node, run⟩ := rooms.run
  obtain ⟨chain, sound⟩ := Lifetime.reached_sound run
  have unclosed : lifetime.shared.windows.length ∉ lifetime.closed := fun closed =>
    Nat.lt_irrefl _ (sound.known _ closed)
  have old {other : Place} (there : windowAt other ≠ none) : other ≠ place := by
    rintro rfl
    exact there vacant
  have inside {other : Place} (there : windowAt other ≠ none) : slot other < lifetime.shared.windows.length := by
    obtain ⟨otherWindow, found⟩ := Option.ne_none_iff_exists'.mp there
    exact (List.getElem?_eq_some_iff.mp (rooms.here other otherWindow found)).1
  have cases_on {other : Place}
      (there : Function.update windowAt place (some (altusNewWindow heap raw).1) other ≠ none) :
      other = place ∨ other ≠ place ∧ windowAt other ≠ none := by
    by_cases own : other = place
    · exact Or.inl own
    · rw [Function.update_of_ne own] at there
      exact Or.inr ⟨own, there⟩
  refine ⟨{ lifetime with shared := ⟨(altusNewWindow lifetime.shared.heap raw).2, lifetime.shared.pool,
      lifetime.shared.windows ++ [(altusNewWindow lifetime.shared.heap raw).1]⟩ },
    Function.update slot place lifetime.shared.windows.length,
    ⟨node, run.tail (.call _ unclosed (.newWindow raw rfl))⟩, ?_, rooms.pool, rooms.freed, ?_, ?_, ?_, ?_⟩
  · rw [← rooms.heap]
  · intro other otherWindow found
    by_cases own : other = place
    · subst own
      rw [Function.update_self] at found ⊢
      rw [← Option.some.inj found, ← rooms.heap]
      exact List.getElem?_concat_length
    · rw [Function.update_of_ne own] at found ⊢
      have here := rooms.here other otherWindow found
      exact (List.getElem?_append_left (List.getElem?_eq_some_iff.mp here).1).trans here
  · intro other there
    rcases cases_on there with rfl | ⟨own, there⟩
    · rw [Function.update_self]
      exact unclosed
    · rw [Function.update_of_ne own]
      exact rooms.stillOpen other there
  · intro other third there also same
    rcases cases_on there with rfl | ⟨own, first⟩ <;> rcases cases_on also with rfl | ⟨alsoOwn, second⟩
    · rfl
    · rw [Function.update_self, Function.update_of_ne alsoOwn] at same
      exact absurd same (Nat.ne_of_gt (inside second))
    · rw [Function.update_self, Function.update_of_ne own] at same
      exact absurd same (Nat.ne_of_lt (inside first))
    · rw [Function.update_of_ne own, Function.update_of_ne alsoOwn] at same
      exact rooms.distinct other third first second same
  · intro index below open_
    dsimp only at below
    rw [List.length_append, List.length_singleton] at below
    rcases Nat.lt_succ_iff_lt_or_eq.mp below with early | rfl
    · obtain ⟨other, there, same⟩ := rooms.all index early open_
      refine ⟨other, ?_, ?_⟩
      · rw [Function.update_of_ne (old there)]
        exact there
      · rw [Function.update_of_ne (old there)]
        exact same
    · refine ⟨place, ?_, Function.update_self ..⟩
      rw [Function.update_self]
      exact Option.some_ne_none _

/-- The window of a place is freed. -/
theorem Rooms.close (rooms : Rooms heap pool windowAt freed lifetime slot) (found : windowAt place = some window) :
    ∃ nodes next, freedByWQ heap window = .ok nodes ∧
      Rooms heap pool (Function.update windowAt place none) (freed ++ nodes) next slot := by
  obtain ⟨node, run⟩ := rooms.run
  obtain ⟨chain, sound⟩ := Lifetime.reached_sound run
  have present : windowAt place ≠ none := by rw [found]; exact Option.some_ne_none _
  have here := rooms.here place window found
  have freedIs := sound.apart.freedByWQ here
  have old {other : Place} (there : Function.update windowAt place none other ≠ none) :
      other ≠ place ∧ windowAt other ≠ none := by
    by_cases own : other = place
    · subst own
      exact absurd (Function.update_self ..) there
    · rw [Function.update_of_ne own] at there
      exact ⟨own, there⟩
  refine ⟨chain (some (slot place)), { lifetime with
      closed := slot place :: lifetime.closed, freed := lifetime.freed ++ chain (some (slot place)) },
    by rw [← rooms.heap]; exact freedIs, ⟨node, run.tail (.close _ (rooms.stillOpen place present) here freedIs)⟩,
    rooms.heap, rooms.pool, by rw [rooms.freed], ?_, ?_, ?_, ?_⟩
  · intro other otherWindow otherFound
    have own := (@old other (by rw [otherFound]; exact Option.some_ne_none _)).1
    rw [Function.update_of_ne own] at otherFound
    exact rooms.here other otherWindow otherFound
  · intro other there
    obtain ⟨own, there⟩ := old there
    rw [List.mem_cons, not_or]
    exact ⟨fun same => own (rooms.distinct other place there present same), rooms.stillOpen other there⟩
  · exact fun other third there also => rooms.distinct other third (old there).2 (old also).2
  · intro index inside unclosed
    rw [List.mem_cons, not_or] at unclosed
    obtain ⟨other, there, same⟩ := rooms.all index inside unclosed.2
    refine ⟨other, ?_, same⟩
    rw [Function.update_of_ne]
    · exact there
    · rintro rfl
      exact unclosed.1 same.symm

/-- The windows of several places are freed one after the other. -/
theorem Rooms.closeAll {places : List Place} (once : places.Nodup) : ∀ {windowAt : Place → Option WQWindow}
    {freed : List Ptr} {lifetime : Lifetime}, Rooms heap pool windowAt freed lifetime slot →
    ∃ next, Rooms heap pool (fun place => if place ∈ places then none else windowAt place)
      (freed ++ places.flatMap fun place => (windowAt place).elim [] (nodesOf heap)) next slot := by
  induction places with
  | nil =>
      intro windowAt freed lifetime rooms
      refine ⟨lifetime, ?_⟩
      simpa using rooms
  | cons place rest ih =>
      intro windowAt freed lifetime rooms
      obtain ⟨unlisted, once⟩ := List.nodup_cons.mp once
      cases found : windowAt place with
      | none =>
          obtain ⟨next, closed⟩ := ih once rooms
          refine ⟨next, ?_⟩
          rw [List.flatMap_cons, found, Option.elim_none, List.nil_append]
          convert closed using 2 with other
          by_cases own : other = place
          · subst own
            simp [unlisted, found]
          · simp [own]
      | some window =>
          obtain ⟨nodes, middle, freedIs, closed⟩ := rooms.close found
          obtain ⟨next, closed⟩ := ih once closed
          refine ⟨next, ?_⟩
          have later : (rest.flatMap fun place => (windowAt place).elim [] (nodesOf heap)) =
              rest.flatMap fun other => (Function.update windowAt place none other).elim [] (nodesOf heap) := by
            apply List.flatMap_congr
            intro other member
            rw [Function.update_of_ne]
            rintro rfl
            exact unlisted member
          have first : nodesOf heap window = nodes := by
            rw [nodesOf, freedIs]
            rfl
          rw [List.flatMap_cons, found, Option.elim_some, first, later, ← List.append_assoc]
          convert closed using 2 with other
          by_cases own : other = place
          · subst own
            simp
          · simp [own]

end Change

/-- The windows at places own their nodes: no two of them share one, none of them is in the pool, and none is freed. -/
structure Housed (heap : WQHeap) (pool : WQNodePool) (windowAt : Place → Option WQWindow) (freed : List Ptr) : Prop where
  owned : ∀ place window, windowAt place = some window →
    NodesBetween heap window.head window.unsafeTail (nodesOf heap window) ∧ window.safeTail ∈ nodesOf heap window
  apart : ∀ place window other otherWindow, windowAt place = some window → windowAt other = some otherWindow →
    place ≠ other → (nodesOf heap window).Disjoint (nodesOf heap otherWindow)
  unused : ∀ place window, windowAt place = some window → (nodesOf heap window).Disjoint (recycledNodes heap pool)
  gone : ∀ pointer ∈ freed, pointer ∉ recycledNodes heap pool ∧
    ∀ place window, windowAt place = some window → pointer ∉ nodesOf heap window

section Results

variable {heap : WQHeap} {pool : WQNodePool} {windowAt : Place → Option WQWindow} {freed : List Ptr} {lifetime : Lifetime}
  {slot : Place → Nat} {place : Place} {window : WQWindow}

/-- A window whose nodes did not change stands as it did. -/
theorem Rooms.stays (rooms : Rooms heap pool windowAt freed lifetime slot) {nextHeap : WQHeap} {nextPool : WQNodePool}
    {nextWindowAt : Place → Option WQWindow} {nextFreed : List Ptr} {nextLifetime : Lifetime} {nextSlot : Place → Nat}
    (after : Rooms nextHeap nextPool nextWindowAt nextFreed nextLifetime nextSlot)
    (found : windowAt place = some window)
    {nextPlace : Place} (there : nextWindowAt nextPlace = some window)
    (same : ∀ pointer ∈ nodesOf heap window, nextHeap.node pointer = heap.node pointer) {view : View}
    (tracks : Tracks ⟨heap, pool, window⟩ view) :
    ∃ free, Stays ⟨heap, pool, window⟩ ⟨nextHeap, nextPool, window⟩ view free := by
  obtain ⟨node, run⟩ := rooms.run
  obtain ⟨chain, sound⟩ := Lifetime.reached_sound run
  obtain ⟨nextNode, nextRun⟩ := after.run
  obtain ⟨nextChain, nextSound⟩ := Lifetime.reached_sound nextRun
  have here := rooms.here place window found
  have view := rooms.view window
  have nextView := after.view window
  rw [← rooms.heap, sound.apart.nodesOf here] at same
  rw [← after.heap] at same
  refine ⟨nextChain none, ?_⟩
  rw [← view] at tracks ⊢
  rw [← nextView]
  exact sound.apart.stays here nextSound.apart (after.here nextPlace window there) same tracks

/-- A window that was just made, with its node. -/
structure Blank (heap : WQHeap) (window : WQWindow) : Prop where
  safe : window.safeTail = window.head
  count : (heap.node window.safeTail).validBlockCount = 0
  offset : window.headDataOffset = 0
  safeLen : window.safeLen = 1
  listed : window.ubList.count = 0
  size : window.windowSize = windowBlockMaxDefault

theorem Rooms.empty (rooms : Rooms heap pool windowAt freed lifetime slot) (found : windowAt place = some window)
    (blank : Blank heap window) : Empty ⟨heap, pool, window⟩ := by
  obtain ⟨node, run⟩ := rooms.run
  obtain ⟨chain, sound⟩ := Lifetime.reached_sound run
  have here := rooms.here place window found
  have formed := @Apart.formed _ _ _ _ sound.apart here 0 (by
    rw [← List.head?_eq_getElem?, (sound.apart.windows _ _ here).1, blank.safe])
  rw [rooms.view window] at formed
  exact ⟨⟨_, _, formed⟩, blank.count, blank.offset, blank.safeLen, blank.listed⟩

/-- A call leaves the nodes of the windows at other places alone. -/
theorem Rooms.call_frame (rooms : Rooms heap pool windowAt freed lifetime slot) (found : windowAt place = some window)
    {state : WQState} (call : ∀ index, lifetime.shared.windows[index]? = some window →
      PoolCall index lifetime.shared (lifetime.shared.put index state)) {other : Place} {otherWindow : WQWindow}
    (otherFound : windowAt other = some otherWindow) (different : other ≠ place) :
    ∀ pointer ∈ nodesOf heap otherWindow, state.heap.node pointer = heap.node pointer := by
  obtain ⟨node, run⟩ := rooms.run
  obtain ⟨chain, sound⟩ := Lifetime.reached_sound run
  have here := rooms.here other otherWindow otherFound
  obtain ⟨nextChain, -, frame⟩ := sound.apart.call (call _ (rooms.here place window found))
  have apart : slot other ≠ slot place := fun same => different (rooms.distinct other place
    (by rw [otherFound]; exact Option.some_ne_none _) (by rw [found]; exact Option.some_ne_none _) same)
  rw [← rooms.heap, sound.apart.nodesOf here]
  exact (frame _ apart).2.2

/-- The nodes of a window are allocated. -/
theorem Rooms.below (rooms : Rooms heap pool windowAt freed lifetime slot) (found : windowAt place = some window)
    {pointer : Ptr} (member : pointer ∈ nodesOf heap window) : pointer < heap.brk := by
  obtain ⟨node, run⟩ := rooms.run
  obtain ⟨chain, sound⟩ := Lifetime.reached_sound run
  rw [← rooms.heap, sound.apart.nodesOf (rooms.here place window found)] at member
  rw [← rooms.heap]
  exact sound.apart.below member

theorem Rooms.housed (rooms : Rooms heap pool windowAt freed lifetime slot) : Housed heap pool windowAt freed := by
  obtain ⟨node, run⟩ := rooms.run
  obtain ⟨chain, sound⟩ := Lifetime.reached_sound run
  have doubly := sound.apart.doubly
  have nodes {place : Place} {window : WQWindow} (found : windowAt place = some window) :
      nodesOf heap window = chain (some (slot place)) := by
    rw [← rooms.heap]
    exact sound.apart.nodesOf (rooms.here place window found)
  have recycled : recycledNodes heap pool = chain none := by
    rw [← rooms.heap, ← rooms.pool]
    exact sound.apart.recycledNodes
  refine ⟨?_, ?_, ?_, ?_⟩
  · intro place window found
    have here := rooms.here place window found
    have safe := (sound.apart.windows _ _ here).2.2
    obtain ⟨last, safeAt⟩ := List.mem_iff_getElem?.mp safe
    have between := (sound.apart.formed here safeAt).nodesBetween
    rw [rooms.view window] at between
    rw [nodes found]
    exact ⟨between, safe⟩
  · intro place window other otherWindow found otherFound different
    rw [nodes found, nodes otherFound]
    intro pointer member also
    have same := Option.some.inj (doubly.apart _ _ pointer member also)
    exact different (rooms.distinct place other (by rw [found]; exact Option.some_ne_none _)
      (by rw [otherFound]; exact Option.some_ne_none _) same)
  · intro place window found
    rw [nodes found, recycled]
    intro pointer member also
    exact Option.some_ne_none _ (doubly.apart _ _ pointer member also)
  · intro pointer member
    rw [← rooms.freed] at member
    obtain ⟨index, closed, inChain⟩ := List.mem_flatMap.mp (sound.freed.subset member)
    refine ⟨?_, ?_⟩
    · rw [recycled]
      intro also
      exact Option.some_ne_none _ (doubly.apart _ _ pointer inChain also)
    · intro place window found
      rw [nodes found]
      intro also
      have same := Option.some.inj (doubly.apart _ _ pointer inChain also)
      exact rooms.stillOpen place (by rw [found]; exact Option.some_ne_none _) (same ▸ closed)

/-- When no window is left, the freed nodes and those of the pool are all nodes, each once. -/
theorem Rooms.finished (rooms : Rooms heap pool windowAt freed lifetime slot) (gone : ∀ place, windowAt place = none) :
    (freed ++ recycledNodes heap pool).Perm (List.range heap.brk) := by
  obtain ⟨node, run⟩ := rooms.run
  obtain ⟨chain, sound⟩ := Lifetime.reached_sound run
  have order : (lifetime.closed ++ []).Perm (List.range lifetime.shared.windows.length) := by
    rw [List.append_nil]
    refine (List.perm_ext_iff_of_nodup sound.once List.nodup_range).mpr fun index => ?_
    rw [List.mem_range]
    refine ⟨sound.known index, fun inside => ?_⟩
    by_contra unclosed
    obtain ⟨place, there, -⟩ := rooms.all index inside unclosed
    exact there (gone place)
  have covered := sound.covers order
  rw [List.append_nil, ← sound.apart.recycledNodes, rooms.heap, rooms.pool] at covered
  rw [← rooms.freed]
  exact (List.Perm.append_right _ sound.freed).trans covered

/-- The freed nodes, the nodes of all windows and those of the pool are all nodes, each once. -/
theorem Rooms.covers [DecidableEq Place] (rooms : Rooms heap pool windowAt freed lifetime slot) {places : List Place}
    (once : places.Nodup) (all : ∀ place, windowAt place ≠ none → place ∈ places) :
    (freed ++ (places.flatMap fun place => (windowAt place).elim [] (nodesOf heap)) ++ recycledNodes heap pool).Perm
      (List.range heap.brk) := by
  obtain ⟨next, closed⟩ := rooms.closeAll once
  refine closed.finished fun place => ?_
  by_contra there
  split at there
  · exact there rfl
  · rename_i unlisted
    exact unlisted (all place there)

/-- The loops of `altusFreeWQ` and `altusFreeP` end. -/
theorem Rooms.freed_ok (rooms : Rooms heap pool windowAt freed lifetime slot) :
    (∀ place window, windowAt place = some window → freedByWQ heap window = .ok (nodesOf heap window)) ∧
      altusFreeP heap pool = .ok (recycledNodes heap pool) := by
  obtain ⟨node, run⟩ := rooms.run
  obtain ⟨chain, sound⟩ := Lifetime.reached_sound run
  rw [← rooms.heap, ← rooms.pool, sound.apart.recycledNodes]
  refine ⟨fun place window found => ?_, sound.apart.altusFreeP⟩
  rw [sound.apart.nodesOf (rooms.here place window found)]
  exact sound.apart.freedByWQ (rooms.here place window found)

end Results

end Altus.WindowedQueue
