import Altus.Proof.Window.InOrder

namespace Altus.WindowedQueue

open Bytes Chain Runs UBList

/-- The distance of a sequence number from the start of `safe_tail`. -/
def distance (state : WQState) (seq : U32) : Nat := (seq - safeNodeSeq state).toNat

/-- The distances of the buffered blocks. -/
def bufferedBlocks (state : WQState) : List (Nat × Nat) :=
  (List.range state.window.ubList.count.toNat).map fun index =>
    (distance state (state.window.ubList.headSeq index), distance state (state.window.ubList.tailSeq index))

theorem mem_bufferedBlocks {state : WQState} {index : Nat} (below : index < state.window.ubList.count.toNat) :
    (distance state (state.window.ubList.headSeq index), distance state (state.window.ubList.tailSeq index)) ∈
      bufferedBlocks state := List.mem_map_of_mem (List.mem_range.mpr below)

/-- The distance of the end of the furthest buffered block, or of `lastSeq` when none is buffered. -/
def bufferedSpan (state : WQState) : Nat := furthest (distance state state.window.lastSeq) (bufferedBlocks state)

/-- A window has no more nodes than the bytes up to the furthest one take. -/
structure NoSurplus (state : WQState) : Prop where
  waiting : ∃ nodes, NodesBetween state.heap state.window.safeTail state.window.unsafeTail nodes ∧
    nodes.length ≤ 1 + bufferedSpan state / 4096
  whole : ∃ nodes, NodesBetween state.heap state.window.head state.window.unsafeTail nodes ∧
    nodes.length ≤ state.window.safeLen.toNat + bufferedSpan state / 4096

/-- The first node whose end the block reaches is the last node of the chain. -/
def EndsAtTail (state : WQState) (seq length : U32) : Prop :=
  let window := state.window
  let offset := distance state seq
  (offset < 4096 → 4096 ≤ offset + length.toNat → window.safeTail = window.unsafeTail) ∧
    (offset = 4096 → 4096 ≤ length.toNat → window.safeTail = window.unsafeTail ∨
      (state.heap.node window.safeTail).toTail = some window.unsafeTail)

instance (state : WQState) (seq length : U32) : Decidable (EndsAtTail state seq length) :=
  inferInstanceAs (Decidable (_ ∧ _))

/-- One completed call. An accepted block is shorter than a half range and reaches the end of a node only at the end of
the chain. -/
inductive TailCall : WQState → WQState → Prop
  | put {state next : WQState} (seq length : U32) (data : Memory) {code : Int} {copies : List Copy}
      (ends : Accepts state.window seq length → length.toNat < 2 ^ 31 ∧ EndsAtTail state seq length)
      (returned : altusWQPut state seq length data = .ok (code, copies, next)) : TailCall state next
  | pop {state next : WQState} (length : Int) (dest : Option Memory) {taken : Int} {filled : Option Memory}
      (returned : altusWQPop state length dest = .ok (taken, filled, next)) : TailCall state next

/-- The chain ends with the node of the furthest byte, or before it. -/
def View.Tight (view : View) : Prop :=
  view.cells.length ≤ (furthest view.position view.runs - view.origin) / 4096 + 1

section Tight

variable {state next : WQState} {view nextView : View} {seq length : U32} {data : Memory}

theorem Pending.settle_tight (pending : Pending state view) (tight : view.Tight) : view.settle.Tight := by
  unfold View.Tight View.settle
  dsimp only
  rw [furthest_absorb pending.sorted]
  exact tight

theorem Released.tight (released : Released state view next nextView) (tracks : Tracks state view)
    (tight : view.Tight) :
    nextView.Tight := by
  have ordered := tracks.ordered
  have reached := start_le_furthest view.position view.runs
  have room := released.room
  unfold View.Tight at tight ⊢
  rw [released.sequence.1, released.sequence.2.1]
  omega

/-- A chain that ends with `safe_tail` has no node behind it. -/
theorem Tracks.length_of_last (tracks : Tracks state view) (last : state.window.safeTail = state.window.unsafeTail) :
    view.cells.length = view.depth / 4096 + 1 := by
  have formed := tracks.formed
  have ends := formed.unsafeEnd
  have inside := tracks.safeInside
  rw [List.getLast?_eq_getElem?, ← last] at ends
  have same := place_unique (List.nodup_append.mp formed.distinct).1 ends formed.safe
  omega

/-- A chain that ends behind `safe_tail` has one node behind it. -/
theorem Tracks.length_of_next (tracks : Tracks state view)
    (next : (state.heap.node state.window.safeTail).toTail = some state.window.unsafeTail) :
    view.cells.length = view.depth / 4096 + 2 := by
  have formed := tracks.formed
  have ends := formed.unsafeEnd
  have inside := tracks.safeInside
  rw [List.getLast?_eq_getElem?] at ends
  have following := (formed.cellsLinked.next_eq formed.safe).symm.trans next
  have same := place_unique (List.nodup_append.mp formed.distinct).1 ends following
  omega

/-- The nodes that a block adds do not pass its end. `place` is the place of `safe_tail`, and the block starts `offset`
behind its first byte. -/
theorem grown_tight {cells place offset length old new : Nat} (tight : cells ≤ old / 4096 + 1) (longer : old ≤ new)
    (covers : 4096 * place + offset + length ≤ new) (least : place < cells) (near : offset ≤ 4096)
    (first : offset < 4096 → 4096 ≤ offset + length → cells = place + 1)
    (second : offset = 4096 → 4096 ≤ length → cells ≤ place + 2) :
    max cells ((4096 * place + offset) / 4096 + 1) +
      ((4096 * place + offset + length) / 4096 - (4096 * place + offset) / 4096) ≤ new / 4096 + 1 := by
  have bound : (4096 * place + offset + length) / 4096 ≤ new / 4096 := Nat.div_le_div_right covers
  have kept : old / 4096 ≤ new / 4096 := Nat.div_le_div_right longer
  rcases Nat.eq_or_lt_of_le near with atEnd | inside
  · rcases Nat.lt_or_ge length 4096 with short | long
    · omega
    · have few := second atEnd long
      omega
  · rcases Nat.lt_or_ge (offset + length) 4096 with short | long
    · omega
    · have last := first inside long
      omega

/-- A block that reaches the end of a node only at the end of the chain keeps the chain tight. -/
theorem Tracks.put_tight (tracks : Tracks state view) (tight : view.Tight) (small : length.toNat < 2 ^ 31)
    (ends : EndsAtTail state seq length) {copies : List Copy}
    (answered : altusWQPut state seq length data = .ok (0, copies, next)) :
    ∃ nextView, Tracks next nextView ∧ nextView.Tight := by
  have accepts := (altusWQPut_zero answered).1
  have short := accepts.short small
  have inside := tracks.accepts_inside accepts short
  have size := tracks.size
  have ordered := tracks.ordered
  have depth : view.depth = view.position - view.origin := rfl
  have lower : view.position ≤ firstPosition state view seq := Nat.le_add_right _ _
  have offsetIs : distance state seq = _ := @Pending.offset_eq _ _ seq tracks.toPending (by omega)
  obtain ⟨middle, cells, free, runs, pending, listed, nextTracks, -, grown⟩ := tracks.put_settles short answered
  refine ⟨_, nextTracks, pending.settle_tight ?_⟩
  have far := @furthest_place _ _ view.position _ _ (Nat.le_add_right _ _) _ tracks.sorted _ listed.placed
  have longer : furthest view.position view.runs ≤ furthest view.position runs := far ▸ Nat.le_max_right _ _
  have covers : firstPosition state view seq + length.toNat ≤ furthest view.position runs := far ▸ Nat.le_max_left _ _
  unfold View.Tight at tight ⊢
  dsimp only
  rcases grown with same | ⟨near, count⟩
  · rw [same]
    exact tight.trans (Nat.succ_le_succ (Nat.div_le_div_right (Nat.sub_le_sub_right longer _)))
  · obtain ⟨offset, first⟩ : ∃ offset, firstPosition state view seq = view.origin + 4096 * (view.depth / 4096) + offset :=
      ⟨firstPosition state view seq - (view.origin + 4096 * (view.depth / 4096)), by omega⟩
    rw [first, Nat.add_sub_cancel_left] at offsetIs
    have start : firstPosition state view seq - view.origin = 4096 * (view.depth / 4096) + offset := by omega
    rw [Nat.sub_add_comm (ordered.trans lower), start] at count
    rw [count]
    apply grown_tight tight (Nat.sub_le_sub_right longer _) (by omega) tracks.safeInside (by omega)
    · intro before reaches
      exact tracks.length_of_last (ends.1 (by rwa [offsetIs]) (by rwa [offsetIs]))
    · intro atEnd reaches
      rcases ends.2 (by rwa [offsetIs]) reaches with last | following
      · exact (tracks.length_of_last last).le.trans (Nat.le_succ _)
      · exact (tracks.length_of_next following).le

/-- Every call keeps the chain tight. -/
theorem Tracks.tailCall (tracks : Tracks state view) (tight : view.Tight) (call : TailCall state next) :
    ∃ nextView, Tracks next nextView ∧ nextView.Tight := by
  cases call with
  | put seq length data ends returned =>
      rcases altusWQPut_completed returned with rfl | ⟨-, rfl⟩
      · obtain ⟨small, ends⟩ := ends (altusWQPut_zero returned).1
        exact tracks.put_tight tight small ends returned
      · exact ⟨view, tracks, tight⟩
  | pop length dest returned =>
      obtain ⟨nextView, nextTracks, released⟩ := altusWQPop_tracks tracks returned
      exact ⟨nextView, nextTracks, released.tight tracks tight⟩

/-- The furthest byte of a view is in the buffered span. -/
theorem Tracks.furthest_le_span (tracks : Tracks state view) :
    furthest view.position view.runs ≤ view.origin + 4096 * (view.depth / 4096) + bufferedSpan state := by
  have size := tracks.size
  have ordered := tracks.ordered
  have shallow := tracks.shallow
  have depth : view.depth = view.position - view.origin := rfl
  have few := tracks.few
  have nodeSeq : safeNodeSeq state = BitVec.ofNat 32 (view.origin + 4096 * (view.depth / 4096)) := tracks.nodeSeq_eq
  refine furthest_le.mpr ⟨?_, fun run member => ?_⟩
  · have reached : distance state state.window.lastSeq ≤ bufferedSpan state := start_le_furthest _ _
    rw [distance, nodeSeq, tracks.lastSeq, Serial.toNat_sub (by omega) (by omega)] at reached
    exact Nat.sub_le_iff_le_add'.mp reached
  · obtain ⟨index, inside, rfl⟩ := List.mem_iff_getElem.mp member
    have beyond := tracks.beyond _ member
    have fits := tracks.fits _ member
    have grows := tracks.sorted.ordered _ member
    have entry := tracks.lists.entry index _ (List.getElem?_eq_getElem inside)
    rw [← tracks.lists.count_toNat few] at inside
    have reached : distance state (state.window.ubList.tailSeq index) ≤ bufferedSpan state :=
      end_le_furthest _ (mem_bufferedBlocks inside)
    rw [distance, nodeSeq, entry.2, Serial.toNat_sub (by omega) (by omega)] at reached
    exact Nat.sub_le_iff_le_add'.mp reached

/-- A tight chain has no surplus nodes. -/
theorem Tracks.noSurplus (tracks : Tracks state view) (tight : view.Tight) : NoSurplus state := by
  have span := tracks.furthest_le_span
  have ordered := tracks.ordered
  have depth : view.depth = view.position - view.origin := rfl
  have size := tracks.size
  have shallow := tracks.shallow
  have nodes : view.waitingNodes.length = view.cells.length - view.depth / 4096 := List.length_drop
  have safeLen : state.window.safeLen.toNat = view.depth / 4096 + 1 := by
    rw [tracks.safeLen, BitVec.toNat_ofNat, Nat.mod_eq_of_lt (by omega)]
  unfold View.Tight at tight
  exact ⟨⟨_, tracks.nodesBehind, by omega⟩, ⟨_, tracks.formed.nodesBetween, by omega⟩⟩

end Tight

/-- In every run whose blocks reach the end of a node only at the end of the chain, a window has no surplus nodes. -/
theorem run_noSurplus {state final : WQState} (empty : Empty state)
    (single : state.window.safeTail = state.window.unsafeTail) (positive : 1 ≤ state.window.windowSize.toNat)
    (size : state.window.windowSize.toNat ≤ 2 ^ 19) (run : Relation.ReflTransGen TailCall state final) :
    NoSurplus final := by
  have tight : ∃ view, Tracks final view ∧ view.Tight := by
    induction run with
    | refl =>
        obtain ⟨cells, free, represents, -⟩ := empty.represents (Serial.ofNat_toNat _).symm positive size
        refine ⟨_, represents.toTracks, ?_⟩
        have length := represents.length_of_last single
        unfold View.Tight
        rw [length]
        exact Nat.succ_le_succ (Nat.div_le_div_right (Nat.sub_le_sub_right (start_le_furthest _ _) _))
    | tail _ call ih =>
        obtain ⟨view, tracks, tight⟩ := ih
        exact tracks.tailCall tight call
  obtain ⟨view, tracks, tight⟩ := tight
  exact tracks.noSurplus tight

/-- A byte behind the end of `safe_tail` takes one node. -/
theorem run_noSurplus_behind : ∃ final, Relation.ReflTransGen TailCall (fresh blankHeap blankWindow) final ∧
    bufferedSpan final = 4097 ∧ NoSurplus final := by
  obtain ⟨copies, final, returned, span⟩ : ∃ copies final,
      altusWQPut (fresh blankHeap blankWindow) 4096 1 (fun _ => 7) = .ok (0, copies, final) ∧
      bufferedSpan final = 4097 := by with_unfolding_all exact ⟨_, _, rfl, by decide⟩
  have run : Relation.ReflTransGen TailCall (fresh blankHeap blankWindow) final :=
    .single (.put 4096 1 (fun _ => 7) (fun _ => by decide) returned)
  exact ⟨final, run, span, run_noSurplus (fresh_empty blankHeap blankWindow) rfl (by decide) (by decide) run⟩

/-- The byte before it arrives late, and the end of its node adds a node that no byte needs. -/
theorem late_byte_adds_surplus : ∃ final, putBytes (fresh blankHeap blankWindow) [4096, 4095] = .ok final ∧
    ¬ NoSurplus final := by
  obtain ⟨final, arrived, span, safeTail, unsafeTail, link⟩ : ∃ final,
      putBytes (fresh blankHeap blankWindow) [4096, 4095] = .ok final ∧ bufferedSpan final = 4097 ∧
      final.window.safeTail = 0 ∧ final.window.unsafeTail = 3 ∧ (final.heap.node 0).toTail = some 2 :=
    by with_unfolding_all exact ⟨_, rfl, by decide, rfl, rfl, rfl⟩
  refine ⟨final, arrived, ?_⟩
  rintro ⟨⟨nodes, ⟨starts, ends, linked, -⟩, few⟩, -⟩
  rw [safeTail] at starts
  rw [unsafeTail] at ends
  rw [span] at few
  cases nodes with
  | nil => cases starts
  | cons first rest =>
      obtain rfl := Option.some.inj starts
      cases rest with
      | nil => cases ends
      | cons second rest =>
          have short : rest.length = 0 := by
            rw [List.length_cons, List.length_cons] at few
            omega
          obtain rfl := List.length_eq_zero_iff.mp short
          obtain rfl := Option.some.inj ends
          have following := (List.isChain_cons_cons.mp linked).1
          rw [link] at following
          cases following

end Altus.WindowedQueue
