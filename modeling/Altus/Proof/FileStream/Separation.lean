import Altus.Proof.FileStream.Append

namespace Altus.FileReceiveStream

open Bytes Chain

/-- The streams that share one pool, by number. -/
structure Streams where
  heap : NodeHeap
  pool : NodePool
  live : Nat → Option FileRcvStream

/-- No stream, and a new pool. -/
def Streams.initial (heap : NodeHeap) : Streams := ⟨heap, NodePool.empty, fun _ => none⟩

/-- One call that changes the streams. -/
inductive StreamStep where
  | create (id capacity : Nat)
  | append (id : Nat) (seq length : U32) (data : Memory)
  | destroy (id : Nat)

/-- The streams after a call. A call on a number that is not in its place does nothing. -/
def StreamStep.perform (streams : Streams) : StreamStep → Except Fault Streams
  | .create id capacity =>
      match streams.live id with
      | some _ => .ok streams
      | none =>
          let made := fileRcvStream streams.heap streams.pool capacity
          .ok ⟨made.heap, made.pool, Function.update streams.live id (some made.stream)⟩
  | .append id seq length data =>
      match streams.live id with
      | none => .ok streams
      | some stream =>
          match FileReceiveStream.append ⟨streams.heap, streams.pool, stream⟩ seq length data with
          | (.faulted fault, _) => .error fault
          | (_, next) => .ok ⟨next.heap, next.pool, Function.update streams.live id (some next.stream)⟩
  | .destroy id =>
      match streams.live id with
      | none => .ok streams
      | some stream =>
          match FileReceiveStream.destroy streams.heap streams.pool stream with
          | .error fault => .error fault
          | .ok (heap, pool) => .ok ⟨heap, pool, Function.update streams.live id none⟩

/-- One node leads to another along `to_tail`. -/
def Reach (heap : NodeHeap) : Ptr → Ptr → Prop := Relation.ReflTransGen (Link heap.links)

/-- No node is reachable from a stream and from another stream or the pool. -/
def Separated (streams : Streams) : Prop :=
  ∀ id stream, streams.live id = some stream → ∀ cell, Reach streams.heap stream.head cell →
    (∀ other otherStream, streams.live other = some otherStream → other ≠ id →
      ¬ Reach streams.heap otherStream.head cell) ∧
    ∀ first, streams.pool.recycledHead = some first → ¬ Reach streams.heap first cell

/-- An `Append` to one stream changes no byte of another stream. -/
def Undisturbed (streams : Streams) (step : StreamStep) (next : Streams) : Prop :=
  ∀ id seq length data, step = .append id seq length data → ∀ other, other ≠ id → ∀ stream,
    streams.live other = some stream → next.live other = some stream ∧
      ∀ cell, Reach streams.heap stream.head cell → (next.heap.node cell).data = (streams.heap.node cell).data

/-- All streams stay apart along a run, up to a call that faults. -/
def KeepsApart (streams : Streams) : List StreamStep → Prop
  | [] => Separated streams
  | step :: rest => Separated streams ∧ ∀ next, step.perform streams = .ok next →
      Undisturbed streams step next ∧ KeepsApart next rest

/-- A call that takes a node from the pool finds at most one node there. -/
def StreamStep.Meets (streams : Streams) : StreamStep → Prop
  | .create id _ => streams.live id = none → AtMostOne streams.heap streams.pool
  | .append id seq length _ => ∀ stream, streams.live id = some stream →
      TakesNode ⟨streams.heap, streams.pool, stream⟩ seq length → AtMostOne streams.heap streams.pool
  | .destroy _ => True

/-- Every call of the run meets its condition. -/
def AllMeet (streams : Streams) : List StreamStep → Prop
  | [] => True
  | step :: rest => step.Meets streams ∧ ∀ next, step.perform streams = .ok next → AllMeet next rest

/-- The head nodes of the live streams. -/
def Streams.heads (streams : Streams) : Nat → Option Ptr := fun id => (streams.live id).map FileRcvStream.head

/-- Every stream and the pool keep a chain of their own, and every stream has one pointer. -/
structure Apart (streams : Streams) (chain : Option Nat → List Ptr) : Prop where
  owns : Owns streams.heap streams.pool streams.heads chain
  single : ∀ id stream, streams.live id = some stream → stream.tail = stream.head

section Steps

variable {streams : Streams} {chain : Option Nat → List Ptr}

theorem Apart.head_mem (apart : Apart streams chain) {id : Nat} {stream : FileRcvStream}
    (live : streams.live id = some stream) : stream.head ∈ chain (some id) :=
  apart.owns.head_mem (by rw [Streams.heads, live]; rfl)

theorem Apart.reach_mem (apart : Apart streams chain) {owner : Option Nat} {first cell : Ptr}
    (member : first ∈ chain owner) (reach : Reach streams.heap first cell) : cell ∈ chain owner :=
  (apart.owns.owned.linked owner).mem_of_reach member reach

theorem Apart.separated (apart : Apart streams chain) : Separated streams := by
  intro id stream live cell reach
  have mine := apart.reach_mem (apart.head_mem live) reach
  constructor
  · intro other otherStream otherLive different otherReach
    have theirs := apart.reach_mem (apart.head_mem otherLive) otherReach
    exact different (Option.some.inj (apart.owns.owned.apart _ _ cell theirs mine))
  · intro first pooled poolReach
    have firstMember : first ∈ chain none := List.mem_of_head? (apart.owns.pooled.trans pooled)
    have inPool := apart.reach_mem firstMember poolReach
    cases apart.owns.owned.apart _ _ cell inPool mine

theorem heads_update (streams : Streams) (heap : NodeHeap) (pool : NodePool) (id : Nat)
    (stream : Option FileRcvStream) :
    Streams.heads ⟨heap, pool, Function.update streams.live id stream⟩ =
      Function.update streams.heads id (stream.map FileRcvStream.head) := by
  funext other
  by_cases same : other = id
  · subst same
    simp [Streams.heads]
  · simp [Streams.heads, Function.update_of_ne same]

/-- A new stream takes a node of its own. -/
theorem Apart.create (apart : Apart streams chain) {id capacity : Nat}
    (few : AtMostOne streams.heap streams.pool) :
    ∃ nextChain, Apart ⟨(fileRcvStream streams.heap streams.pool capacity).heap,
      (fileRcvStream streams.heap streams.pool capacity).pool,
      Function.update streams.live id (some (fileRcvStream streams.heap streams.pool capacity).stream)⟩
      nextChain := by
  have made : (fileRcvStream streams.heap streams.pool capacity).heap = (take streams.heap streams.pool).2.1 ∧
      (fileRcvStream streams.heap streams.pool capacity).pool = (take streams.heap streams.pool).2.2 ∧
      (fileRcvStream streams.heap streams.pool capacity).stream.head = (take streams.heap streams.pool).1 ∧
      (fileRcvStream streams.heap streams.pool capacity).stream.tail = (take streams.heap streams.pool).1 := by
    rw [fileRcvStream, take, NodePool.pop]
    cases streams.pool.recycledHead <;> exact ⟨rfl, rfl, rfl, rfl⟩
  obtain ⟨taken, free, ends, allocated, -, -⟩ := apart.owns.take few
  obtain ⟨heapIs, poolIs, headIs, tailIs⟩ := made
  refine ⟨Function.update (Function.update chain none []) (some id) [(take streams.heap streams.pool).1], ?_, ?_⟩
  · rw [heads_update, Option.map_some, headIs]
    dsimp only
    rw [heapIs, poolIs]
    exact taken.create free ends allocated
  · intro other stream live
    dsimp only at live
    by_cases same : other = id
    · subst same
      rw [Function.update_self] at live
      obtain rfl := Option.some.inj live
      exact tailIs.trans headIs.symm
    · rw [Function.update_of_ne same] at live
      exact apart.single other stream live

/-- The destructor hands the nodes of a chain to the pool. -/
theorem destroyLoop_owns {heads : Nat → Option Ptr} (rounds : Nat) :
    ∀ {heap : NodeHeap} {pool : NodePool} {chain : Option Nat → List Ptr} {cells : List Ptr}
      {answer : NodeHeap × NodePool}, Owns heap pool heads chain → Linked heap.links cells → cells.Nodup →
      (∀ cell ∈ cells, Free chain cell ∧ cell < heap.brk) →
      destroyLoop rounds heap pool cells.head? = .ok answer →
      ∃ nextChain, Owns answer.1 answer.2 heads nextChain := by
  induction rounds with
  | zero =>
      intro heap pool chain cells answer owns linked nodup released destroyed
      cases cells with
      | nil =>
          obtain rfl := Except.ok.inj destroyed
          exact ⟨chain, owns⟩
      | cons old rest => cases destroyed
  | succ rounds ih =>
      intro heap pool chain cells answer owns linked nodup released destroyed
      cases cells with
      | nil =>
          obtain rfl := Except.ok.inj destroyed
          exact ⟨chain, owns⟩
      | cons old rest =>
          obtain ⟨oldFree, oldAllocated⟩ := released old (by simp)
          obtain ⟨next, nextPool, poolCells, pushed, nextOwns, brk, inside, sameLinks, -⟩ :=
            owns.push oldFree oldAllocated
          have following : (heap.node old).toTail = rest.head? := by
            have link : heap.links old = (old :: rest)[1]? := linked.next_eq rfl
            rw [NodeHeap.links] at link
            rw [link, List.head?_eq_getElem?]
            rfl
          obtain ⟨notIn, restNodup⟩ := List.nodup_cons.mp nodup
          have different (cell : Ptr) (member : cell ∈ rest) : cell ≠ old := by
            rintro rfl
            exact notIn member
          have restFree (cell : Ptr) (member : cell ∈ rest) : Free chain cell ∧ cell < heap.brk :=
            released cell (List.mem_cons_of_mem _ member)
          simp only [List.head?_cons, destroyLoop, pushed, following] at destroyed
          apply ih nextOwns _ restNodup _ destroyed
          · apply linked.tail.congr
            intro cell member
            exact sameLinks cell (different cell member) ((restFree cell member).1 none)
          · intro cell member
            refine ⟨?_, by rw [brk]; exact (restFree cell member).2⟩
            intro owner held
            by_cases pooled : owner = none
            · subst pooled
              rw [Function.update_self] at held
              rcases inside cell held with same | old
              · exact different cell member same
              · exact (restFree cell member).1 none old
            · rw [Function.update_of_ne pooled] at held
              exact (restFree cell member).1 owner held

/-- A destroyed stream leaves the others apart. -/
theorem Apart.destroy (apart : Apart streams chain) {id : Nat} {stream : FileRcvStream}
    (live : streams.live id = some stream) {answer : NodeHeap × NodePool}
    (destroyed : FileReceiveStream.destroy streams.heap streams.pool stream = .ok answer) :
    ∃ nextChain, Apart ⟨answer.1, answer.2, Function.update streams.live id none⟩ nextChain := by
  have head : (chain (some id)).head? = some stream.head := by
    rw [apart.owns.streams id, Streams.heads, live]
    rfl
  have released : ∀ cell ∈ chain (some id), Free (Function.update chain (some id) []) cell ∧
      cell < streams.heap.brk := by
    intro cell member
    refine ⟨?_, apart.owns.allocated _ cell member⟩
    intro owner held
    by_cases own : owner = some id
    · subst own
      simp at held
    · rw [Function.update_of_ne own] at held
      exact own (apart.owns.owned.apart owner (some id) cell held member)
  rw [FileReceiveStream.destroy, ← head] at destroyed
  obtain ⟨nextChain, owns⟩ := destroyLoop_owns _ (apart.owns.release id) (apart.owns.owned.linked (some id))
    (apart.owns.owned.nodup (some id)) released destroyed
  refine ⟨nextChain, ?_, ?_⟩
  · rw [heads_update]
    exact owns
  · intro other otherStream otherLive
    dsimp only at otherLive
    by_cases same : other = id
    · subst same
      simp at otherLive
    · rw [Function.update_of_ne same] at otherLive
      exact apart.single other otherStream otherLive

/-- The case of an `Append` that its part finishes. -/
theorem finish_kept {heads : Nat → Option Ptr} {id : Nat} {state middle next : FileState} {code : Int}
    {part : Part} {outcome : Outcome} (finished : finish code part = (outcome, next))
    (returns : ∀ fault, outcome ≠ .faulted fault) (same : Kept id heads state chain middle chain)
    (kept : part = .ok next → ∃ nextChain, Kept id heads middle chain next nextChain) :
    ∃ nextChain, Kept id heads state chain next nextChain := by
  cases part with
  | ok final =>
      obtain ⟨-, rfl⟩ := Prod.mk.inj finished
      obtain ⟨nextChain, later⟩ := kept rfl
      exact ⟨nextChain, same.trans later⟩
  | error failed =>
      obtain ⟨rfl, -⟩ := Prod.mk.inj finished
      exact absurd rfl (returns _)

/-- An `Append` that does not fault writes on the own chain only. -/
theorem append_kept {heads : Nat → Option Ptr} {id : Nat} {state next : FileState} {seq length : U32}
    {data : Memory} {outcome : Outcome} (owns : Owns state.heap state.pool heads chain)
    (mine : heads id = some state.stream.head) (single : state.stream.tail = state.stream.head)
    (room : TakesNode state seq length → AtMostOne state.heap state.pool)
    (appended : FileReceiveStream.append state seq length data = (outcome, next))
    (returns : ∀ fault, outcome ≠ .faulted fault) :
    ∃ nextChain, Kept id heads state chain next nextChain := by
  rw [FileReceiveStream.append] at appended
  dsimp only at appended
  split at appended
  · obtain ⟨-, rfl⟩ := Prod.mk.inj appended
    exact ⟨chain, Kept.refl owns⟩
  rename_i notLate
  rw [TakesNode] at room
  generalize checked : checkUB state.stream seq length = answer at appended room
  obtain ⟨message, ubList⟩ := answer
  dsimp only at appended room
  have listed (unSeqLen : U32) : Kept id heads state chain
      { state with stream := { state.stream with ubList := ubList, unSeqLen := unSeqLen } } chain :=
    (Kept.refl owns).setStream rfl rfl
  have unsequenced (short : fallsShort state.heap (linksNeeded (seq - state.stream.headSeq).toInt length)
      (some state.stream.head) = true → AtMostOne state.heap state.pool) :
      AtMostOne state.heap state.pool ∨ fallsShort state.heap
        (linksNeeded (seq - state.stream.headSeq).toInt length) (some state.stream.head) = false := by
    cases falls : fallsShort state.heap (linksNeeded (seq - state.stream.headSeq).toInt length)
        (some state.stream.head) with
    | true => exact Or.inl (short falls)
    | false => exact Or.inr rfl
  cases message with
  | full | malicious | overlap =>
      obtain ⟨-, rfl⟩ := Prod.mk.inj appended
      exact ⟨chain, listed _⟩
  | extended | added =>
      exact finish_kept appended returns (listed _) fun put => putUnSeq_kept (listed _).owns mine single
        (unsequenced fun falls => room ⟨notLate, falls⟩) put
  | onSeq =>
      exact finish_kept appended returns (listed _) fun put => appendOnSeq_kept (listed _).owns mine single
        (fun crossing => room ⟨notLate, crossing⟩) put
  | merging =>
      cases ubList with
      | nil =>
          obtain ⟨rfl, -⟩ := Prod.mk.inj appended
          exact absurd rfl (returns _)
      | cons front rest =>
          exact finish_kept appended returns (listed _) fun put =>
            ⟨chain, appendMerging_kept (listed _).owns mine put⟩

/-- An `Append` leaves the other streams apart and undisturbed. -/
theorem Apart.append (apart : Apart streams chain) {id : Nat} {seq length : U32} {data : Memory}
    (meets : (StreamStep.append id seq length data).Meets streams) {next : Streams}
    (performed : (StreamStep.append id seq length data).perform streams = .ok next) :
    (∃ nextChain, Apart next nextChain) ∧ Undisturbed streams (.append id seq length data) next := by
  rw [StreamStep.perform] at performed
  cases live : streams.live id with
  | none =>
      rw [live] at performed
      obtain rfl := Except.ok.inj performed
      exact ⟨⟨chain, apart⟩, fun _ _ _ _ _ _ _ _ otherLive => ⟨otherLive, fun _ _ => rfl⟩⟩
  | some stream =>
      rw [live] at performed
      dsimp only at performed
      generalize called : FileReceiveStream.append ⟨streams.heap, streams.pool, stream⟩ seq length data = answer
        at performed
      obtain ⟨outcome, final⟩ := answer
      have returns : ∀ fault, outcome ≠ .faulted fault := by
        rintro fault rfl
        cases performed
      have nextIs : (⟨final.heap, final.pool, Function.update streams.live id (some final.stream)⟩ : Streams) =
          next := by
        cases outcome with
        | returned code => exact Except.ok.inj performed
        | threw message => exact Except.ok.inj performed
        | faulted fault => exact absurd rfl (returns fault)
      subst nextIs
      have mine : streams.heads id = some stream.head := by rw [Streams.heads, live]; rfl
      obtain ⟨nextChain, kept⟩ := append_kept apart.owns mine (apart.single id stream live)
        (meets stream live) called returns
      constructor
      · refine ⟨nextChain, ?_, ?_⟩
        · have sameHead : final.stream.head = stream.head := kept.head
          rw [heads_update, Option.map_some, sameHead, ← mine, Function.update_eq_self]
          exact kept.owns
        · intro other otherStream otherLive
          dsimp only at otherLive
          by_cases same : other = id
          · subst same
            rw [Function.update_self] at otherLive
            obtain rfl := Option.some.inj otherLive
            rw [kept.head, kept.tail]
            exact apart.single other stream live
          · rw [Function.update_of_ne same] at otherLive
            exact apart.single other otherStream otherLive
      · intro caller seq length data called other different otherStream otherLive
        obtain ⟨rfl, -⟩ := StreamStep.append.inj called
        refine ⟨(Function.update_of_ne different _ _).trans otherLive, ?_⟩
        intro cell reach
        exact kept.data other different cell (apart.reach_mem (apart.head_mem otherLive) reach)

/-- Every call that meets its condition leaves the streams apart. -/
theorem Apart.step (apart : Apart streams chain) {step : StreamStep} (meets : step.Meets streams)
    {next : Streams} (performed : step.perform streams = .ok next) :
    (∃ nextChain, Apart next nextChain) ∧ Undisturbed streams step next := by
  cases step with
  | create id capacity =>
      refine ⟨?_, fun _ _ _ _ same => by cases same⟩
      rw [StreamStep.perform] at performed
      cases live : streams.live id with
      | some stream =>
          rw [live] at performed
          obtain rfl := Except.ok.inj performed
          exact ⟨chain, apart⟩
      | none =>
          rw [live] at performed
          obtain rfl := Except.ok.inj performed
          exact apart.create (meets live)
  | append id seq length data => exact apart.append meets performed
  | destroy id =>
      refine ⟨?_, fun _ _ _ _ same => by cases same⟩
      rw [StreamStep.perform] at performed
      cases live : streams.live id with
      | none =>
          rw [live] at performed
          obtain rfl := Except.ok.inj performed
          exact ⟨chain, apart⟩
      | some stream =>
          rw [live] at performed
          dsimp only at performed
          split at performed
          · cases performed
          · rename_i destroyed
            obtain rfl := Except.ok.inj performed
            exact apart.destroy live destroyed

theorem Apart.run (apart : Apart streams chain) {steps : List StreamStep} (meet : AllMeet streams steps) :
    KeepsApart streams steps := by
  induction steps generalizing streams chain with
  | nil => exact apart.separated
  | cons step rest ih =>
      refine ⟨apart.separated, ?_⟩
      intro next performed
      obtain ⟨⟨nextChain, nextApart⟩, undisturbed⟩ := apart.step meet.1 performed
      exact ⟨undisturbed, ih nextApart (meet.2 next performed)⟩

end Steps

theorem initial_apart (heap : NodeHeap) : Apart (Streams.initial heap) fun _ => [] where
  owns := {
    owned := ⟨fun _ => linked_nil _, fun _ => List.nodup_nil, fun _ _ _ member => by simp at member⟩
    allocated := by simp
    streams := fun _ => rfl
    pooled := rfl
    poolEnd := fun filled => absurd rfl filled }
  single := by
    intro id stream live
    cases live

/-- The streams stay apart in every run whose calls take nodes from a pool of at most one node. -/
theorem run_keepsApart (heap : NodeHeap) {steps : List StreamStep}
    (meet : AllMeet (Streams.initial heap) steps) : KeepsApart (Streams.initial heap) steps :=
  (initial_apart heap).run meet

/-- Two streams, the second of which is filled out of order. -/
theorem run_keepsApart_two : KeepsApart (Streams.initial blankNodes)
    [.create 0 8, .create 1 8, .append 1 5000 10 (fun _ => 1)] := by
  refine run_keepsApart blankNodes ⟨fun _ => ?_, fun next performed => ?_⟩
  · intro first found
    cases found
  · obtain rfl := Except.ok.inj performed
    refine ⟨fun _ => ?_, fun next performed => ?_⟩
    · intro first found
      cases found
    · obtain rfl := Except.ok.inj performed
      refine ⟨fun stream live _ => ?_, fun _ _ => trivial⟩
      intro first found
      cases found

/-- Two nodes in the pool: the next stream shares one of them with the pool. -/
theorem third_stream_shares : ¬ KeepsApart (Streams.initial blankNodes)
    [.create 0 8, .create 1 8, .destroy 0, .destroy 1, .create 2 8] := by
  intro apart
  have separated := ((((((apart.2 _ rfl).2.2 _ rfl).2.2 _ rfl).2.2 _ rfl).2.2 _ rfl).2)
  exact (separated 2 _ rfl 1 (Relation.ReflTransGen.single rfl)).2 1 rfl Relation.ReflTransGen.refl

end Altus.FileReceiveStream
