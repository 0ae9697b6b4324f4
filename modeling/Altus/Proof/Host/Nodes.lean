import Altus.Proof.Host.Windows

namespace Altus

open Bytes Tables WindowedQueue

/-- The channels of a peer in the order of their numbers. -/
def everyCuid : List U16 := (List.range 65536).map (BitVec.ofNat 16)

theorem mem_everyCuid (cuid : U16) : cuid ∈ everyCuid :=
  List.mem_map.mpr ⟨cuid.toNat, List.mem_range.mpr cuid.isLt, BitVec.ofNat_toNat ..|>.trans (BitVec.setWidth_eq cuid)⟩

theorem everyCuid_nodup : everyCuid.Nodup := by
  refine List.Nodup.map_on ?_ List.nodup_range
  intro first below second alsoBelow same
  have numbers := congrArg BitVec.toNat same
  rw [List.mem_range] at below alsoBelow
  rwa [BitVec.toNat_ofNat, BitVec.toNat_ofNat, Nat.mod_eq_of_lt below, Nat.mod_eq_of_lt alsoBelow] at numbers

namespace Host

variable {host next : Host} {freed : List Ptr} {lifetime : Lifetime} {slot : Ptr × U16 → Nat} {pointer : Ptr}
  {peer : Peer} {step : HostStep} {code : Int} {sent : List Sent}

/-- The places of the windows of a peer. -/
def placesOf (pointer : Ptr) : List (Ptr × U16) := everyCuid.map fun cuid => (pointer, cuid)

theorem mem_placesOf {place : Ptr × U16} : place ∈ placesOf pointer ↔ place.1 = pointer := by
  obtain ⟨other, cuid⟩ := place
  simp [placesOf, mem_everyCuid, eq_comm]

theorem placesOf_nodup (pointer : Ptr) : (placesOf pointer).Nodup :=
  everyCuid_nodup.map fun _ _ same => (Prod.mk.inj same).2

/-- The nodes that a peer frees are those of its windows. -/
theorem freed_places (here : host.peer pointer = some peer) :
    peer.freed host.pools.heap = (placesOf pointer).flatMap fun place =>
      (host.windowAt place).elim [] (nodesOf host.pools.heap) := by
  rw [placesOf, List.flatMap_map]
  exact List.flatMap_congr fun cuid _ => by rw [windowAt_here here]; rfl

/-- Every completed step keeps the windows in rooms of their own. -/
theorem Moves.rooms (moves : Moves host step next) (vacant : host.peer host.brk = none)
    (rooms : Rooms host.pools.heap host.pools.pool host.windowAt freed lifetime slot) :
    ∃ lifetime slot, Rooms next.pools.heap next.pools.pool next.windowAt (freed ++ step.freed host) lifetime slot := by
  cases moves with
  | quiet none heap pool windows =>
      rw [heap, pool, windows, none, List.append_nil]
      exact ⟨lifetime, slot, rooms⟩
  | call none named found called heap pool windows =>
      rw [heap, pool, windows, none, List.append_nil]
      obtain ⟨after, kept⟩ := rooms.call found fun index here => called.poolCall (rooms.view _) here
      exact ⟨after, slot, kept⟩
  | @opens raw last made none opened pools windows =>
      have free (cuid : U16) : host.windowAt (host.brk, cuid) = Option.none := by
        rw [windowAt, vacant]
        rfl
      rw [pools, windows, none, List.append_nil]
      exact opened.rooms free rooms
  | @closes peid pointer peer removes known here heap pool windows =>
      obtain ⟨after, closed⟩ := rooms.closeAll (placesOf_nodup pointer)
      refine ⟨after, slot, ?_⟩
      rw [← freed_places here] at closed
      rw [heap, pool, windows, removes, HostStep.freed, listed, known, Option.bind_some, here, Option.elim_some]
      simpa only [mem_placesOf] using closed

/-- A step changes the nodes of no window but the one at its place, which stays a window, and only `removePeer` ends
windows. -/
structure Isolates (host : Host) (step : HostStep) (next : Host) : Prop where
  nodes : ∀ other window, host.windowAt other = some window → step.place host ≠ some other →
    ∀ pointer ∈ nodesOf host.pools.heap window, next.pools.heap.node pointer = host.pools.heap.node pointer
  windows : ∀ other window, host.windowAt other = some window → step.place host ≠ some other →
    next.windowAt other = some window ∨
      ∃ peid, step = .removePeer peid ∧ host.peidPeer peid = some other.1 ∧ next.windowAt other = none
  called : ∀ place window, host.windowAt place = some window → step.place host = some place →
    ∃ moved, next.windowAt place = some moved

theorem Moves.isolates (moves : Moves host step next) (vacant : host.peer host.brk = none)
    (rooms : Rooms host.pools.heap host.pools.pool host.windowAt freed lifetime slot) : Isolates host step next := by
  cases moves with
  | quiet none heap pool windows =>
      refine ⟨fun other window found apart pointer member => by rw [heap], fun other window found apart => Or.inl ?_,
        fun place window found own => ⟨window, ?_⟩⟩
      · rw [windows]
        exact found
      · rw [windows]
        exact found
  | @call here window state none named found called heap pool windows =>
      have different {other : Ptr × U16} (apart : step.place host ≠ some other) : other ≠ here := by
        rintro rfl
        exact apart named
      refine ⟨fun other otherWindow otherFound apart pointer member => ?_,
        fun other otherWindow otherFound apart => Or.inl ?_, fun place window found own => ⟨state.window, ?_⟩⟩
      · rw [heap]
        exact rooms.call_frame found (fun index there => called.poolCall (rooms.view _) there) otherFound
          (different apart) pointer member
      · rw [windows, Function.update_of_ne (different apart)]
        exact otherFound
      · obtain rfl := Option.some.inj (named.symm.trans own)
        rw [windows, Function.update_self]
  | @opens raw last made none opened pools windows =>
      have stands {place : Ptr × U16} {window : WQWindow} (found : host.windowAt place = some window) :
          next.windowAt place = some window := by
        rw [windows]
        dsimp only
        rw [if_neg, found]
        intro new
        rw [windowAt, new, vacant] at found
        cases found
      refine ⟨fun other window found apart pointer member => ?_, fun other window found apart => Or.inl (stands found),
        fun place window found own => ⟨window, stands found⟩⟩
      rw [pools]
      exact opened.below (rooms.below found member)
  | @closes peid pointer peer removes known here heap pool windows =>
      refine ⟨fun other window found apart pointer member => by rw [heap], fun other window found apart => ?_,
        fun place window found own => ?_⟩
      · rw [windows]
        dsimp only
        split
        · rename_i own
          exact Or.inr ⟨peid, removes, by rw [known, own], rfl⟩
        · exact Or.inl found
      · rw [removes] at own
        cases own

/-- Every peer that is not deleted is listed under its address. -/
def Live (host : Host) : Prop :=
  ∀ pointer peer, host.peer pointer = some peer → host.peers (addrToUint64 peer.remoteAddr) = some pointer

theorem Live.keeps (live : host.Live) (kept : KeepsPeers host next) : next.Live := by
  intro pointer peer here
  have same := kept.addresses pointer
  rw [here, Option.map_some] at same
  obtain ⟨before, found, address⟩ := Option.map_eq_some_iff.mp same.symm
  rw [kept.peers, ← address]
  exact live pointer before found

theorem Live.creates (live : host.Live) {addrport : U64} {newpeid : U32}
    (created : Creates host next addrport newpeid) :
    next.Live := by
  intro pointer peer here
  rw [created.peers, insert_eq_some created.free]
  by_cases new : pointer = host.brk
  · obtain ⟨made, there, named⟩ := created.named
    rw [new, there] at here
    obtain rfl := Option.some.inj here
    exact Or.inl ⟨named, new⟩
  · rw [created.others pointer new] at here
    exact Or.inr (live pointer peer here)

theorem Live.removes (live : host.Live) {peid : U32} (removed : host.removePeer peid = .ok (code, sent, next)) :
    next.Live := by
  rcases removePeer_ok removed with ⟨-, -, rfl⟩ | ⟨pointer, peer, pools, -, found, -, rfl⟩
  · exact live
  · intro other kept here
    obtain ⟨different, there⟩ := erase_eq_some.mp here
    have first := live pointer peer found
    have second := live other kept there
    dsimp only
    rw [erase_eq_some]
    refine ⟨fun same => different ?_, second⟩
    rw [← same, second] at first
    exact Option.some.inj first

/-- The windows of a host live in rooms of one pool, and its peers are the listed ones. -/
structure Rooming (host : Host) (freed : List Ptr) : Prop where
  rooms : ∃ lifetime slot, Rooms host.pools.heap host.pools.pool host.windowAt freed lifetime slot
  linked : host.Linked
  listed : Listed host
  live : host.Live

/-- No peer stands at the address of the next one. -/
theorem Rooming.vacant (rooming : Rooming host freed) : host.peer host.brk = none := by
  by_contra here
  obtain ⟨peer, found⟩ := Option.ne_none_iff_exists'.mp here
  exact rooming.listed.fresh _ (rooming.live _ peer found)

theorem Rooming.moves (rooming : Rooming host freed) (stepped : host.step step = .ok (code, sent, next)) :
    Rooming next (freed ++ step.freed host) ∧ Isolates host step next := by
  obtain ⟨lifetime, slot, rooms⟩ := rooming.rooms
  obtain ⟨linked, moves⟩ := rooming.linked.moves stepped
  refine ⟨⟨moves.rooms rooming.vacant rooms, linked, (rooming.listed.step stepped).1, ?_⟩,
    moves.isolates rooming.vacant rooms⟩
  cases step with
  | inbound remoteAddr buf recvSize currentTime raw =>
      rcases listener_registers stepped with kept | ⟨newpeid, created⟩
      · exact rooming.live.keeps kept
      · exact rooming.live.creates created
  | connect ip port serverkey keylen starttime raw => exact rooming.live.keeps (connect_keeps stepped)
  | connecter entry => exact rooming.live.keeps (connecter_keeps stepped)
  | removePeer peid => exact rooming.live.removes stepped
  | createUpstream peid cuid buf len =>
      obtain ⟨pointer, changes⟩ := createUpstream_ok stepped
      exact rooming.live.keeps changes.keeps
  | sender addrport stack => exact rooming.live.keeps (sender_keeps stepped)
  | accepting isAccepting =>
      cases stepped
      exact rooming.live

/-- A completed step, with the nodes that are freed so far. A `memcpy` that leaves its node ends a step with a fault. -/
def Goes (now next : Host × List Ptr) : Prop :=
  ∃ step code sent, now.1.step step = .ok (code, sent, next.1) ∧ next.2 = now.2 ++ step.freed now.1

/-- The pools of a new host. -/
def newPools (node : Ptr → WQNode) (nodes : NodeHeap) (newPool : NodePool) : Pools :=
  ⟨(altusWQNewNodePool ⟨node, 0⟩).2, (altusWQNewNodePool ⟨node, 0⟩).1, nodes, newPool⟩

section Run

variable {myPublicKey : Memory} {node : Ptr → WQNode} {nodes : NodeHeap} {newPool : NodePool}

theorem altusHost_rooming (myPublicKey : Memory) (node : Ptr → WQNode) (nodes : NodeHeap) (newPool : NodePool) :
    Rooming (altusHost myPublicKey (newPools node nodes newPool)) [] where
  rooms := ⟨_, _, Rooms.start node⟩
  linked := fun _ _ impossible => nomatch impossible
  listed := altusHost_listed myPublicKey _
  live := fun _ _ impossible => nomatch impossible

theorem run_rooming (run : Relation.ReflTransGen Goes (altusHost myPublicKey (newPools node nodes newPool), [])
    (host, freed)) : Rooming host freed := by
  generalize reached : (host, freed) = now at run
  induction run generalizing host freed with
  | refl =>
      cases reached
      exact altusHost_rooming myPublicKey node nodes newPool
  | tail _ last ih =>
      obtain ⟨step, code, sent, stepped, more⟩ := last
      subst reached
      dsimp only at more stepped
      rw [more]
      exact ((ih rfl).moves stepped).1

/-- A host that got a valid reply. Its next step sends a byte on the first channel of the peer. -/
theorem run_connected : ∃ host : Host, Relation.ReflTransGen Goes
      (altusHost (fun _ => 0) (newPools blankHeap.node blankNodes NodePool.empty), []) (host, []) ∧
    host.peers = insert (fun _ => none) (addrToUint64 ⟨1, 512⟩) 1 ∧ host.pools.heap.brk = 4 ∧
    (∃ window, host.windowAt (1, 1) = some window) ∧
    ∃ next, host.step (.createUpstream 1 0 (fun _ => 7) 1) = .ok (0, [], next) := by
  have first : Goes (altusHost (fun _ => 0) (newPools blankHeap.node blankNodes NodePool.empty), []) (_, []) :=
    ⟨.connect 1 2 (fun _ => 0) 0 0 blankRaw, _, _, rfl, rfl⟩
  exact ⟨_, (Relation.ReflTransGen.single first).tail
    ⟨.inbound ⟨1, 512⟩ (ofList (ascii "ALTUS/1.0Y")) 44 0 blankRaw, _, _, rfl, rfl⟩, rfl, rfl, ⟨_, rfl⟩,
    by with_unfolding_all exact ⟨_, rfl⟩⟩

/-- In every run the windows of all peers own their nodes, and every next step changes the nodes of no window but the one
of the channel that it calls. -/
theorem run_housed (run : Relation.ReflTransGen Goes (altusHost myPublicKey (newPools node nodes newPool), [])
    (host, freed)) :
    Housed host.pools.heap host.pools.pool host.windowAt freed ∧
      ∀ step code sent next, host.step step = .ok (code, sent, next) → Isolates host step next := by
  have rooming := run_rooming run
  obtain ⟨lifetime, slot, rooms⟩ := rooming.rooms
  exact ⟨rooms.housed, fun step code sent next stepped => (rooming.moves stepped).2⟩

/-- A byte for the first channel leaves the nodes of the second one alone. -/
theorem run_housed_connected : ∃ (host next : Host) (window : WQWindow), host.windowAt (1, 1) = some window ∧
    host.step (.createUpstream 1 0 (fun _ => 7) 1) = .ok (0, [], next) ∧
    ∀ pointer ∈ nodesOf host.pools.heap window, next.pools.heap.node pointer = host.pools.heap.node pointer := by
  obtain ⟨host, run, -, -, ⟨window, here⟩, next, stepped⟩ := run_connected
  have isolates := (run_housed run).2 _ _ _ _ stepped
  exact ⟨host, next, window, here, stepped, isolates.nodes (1, 1) window here (by simp [HostStep.place])⟩

/-- After every run the destructor of the host, over its peers in any order and then over the pool, frees every node that
no removed peer freed, and each of them once. -/
theorem destructor_frees_once (run : Relation.ReflTransGen Goes (altusHost myPublicKey (newPools node nodes newPool), [])
    (host, freed)) {order : List U64} (once : order.Nodup) (all : ∀ addrport, addrport ∈ order ↔ host.peers addrport ≠ none) :
    (∀ place window, host.windowAt place = some window →
        freedByWQ host.pools.heap window = .ok (nodesOf host.pools.heap window)) ∧
      ∃ pooled, altusFreeP host.pools.heap host.pools.pool = .ok pooled ∧
        (freed ++ host.freed order ++ pooled).Perm (List.range host.pools.heap.brk) := by
  have rooming := run_rooming run
  obtain ⟨lifetime, slot, rooms⟩ := rooming.rooms
  refine ⟨rooms.freed_ok.1, _, rooms.freed_ok.2, ?_⟩
  have peersAt (addrport : U64) (member : addrport ∈ order) :
      ∃ pointer peer, host.peers addrport = some pointer ∧ host.peer pointer = some peer := by
    obtain ⟨pointer, here⟩ := Option.ne_none_iff_exists'.mp ((all addrport).mp member)
    obtain ⟨-, peer, found, -⟩ := rooming.listed.named addrport pointer here
    exact ⟨pointer, peer, here, found⟩
  have places : host.freed order = (order.flatMap fun addrport => (host.peers addrport).elim [] placesOf).flatMap
      fun place => (host.windowAt place).elim [] (nodesOf host.pools.heap) := by
    rw [Host.freed, List.flatMap_assoc]
    apply List.flatMap_congr
    intro addrport member
    obtain ⟨pointer, peer, here, found⟩ := peersAt addrport member
    rw [Host.listed, here, Option.bind_some, found, Option.elim_some, Option.elim_some, freed_places found]
  rw [places]
  refine rooms.covers (List.nodup_flatMap.mpr ⟨?_, ?_⟩) ?_
  · intro addrport member
    obtain ⟨pointer, peer, here, -⟩ := peersAt addrport member
    rw [here, Option.elim_some]
    exact placesOf_nodup pointer
  · refine once.imp_of_mem ?_
    intro first second inFirst inSecond different place member also
    obtain ⟨pointer, -, here, -⟩ := peersAt first inFirst
    obtain ⟨other, -, there, -⟩ := peersAt second inSecond
    dsimp only at member also
    rw [here, Option.elim_some] at member
    rw [there, Option.elim_some] at also
    have same : pointer = other := (mem_placesOf.mp member).symm.trans (mem_placesOf.mp also)
    exact different (rooming.listed.agree.firstOnce first second pointer here (same ▸ there))
  · intro place there
    cases found : host.peer place.1 with
    | none =>
        rw [windowAt, found] at there
        exact absurd rfl there
    | some peer =>
        have here := rooming.live place.1 peer found
        refine List.mem_flatMap.mpr ⟨_, (all _).mpr (by rw [here]; exact Option.some_ne_none _), ?_⟩
        rw [here, Option.elim_some]
        exact mem_placesOf.mpr rfl

/-- The destructor of a host with one peer frees its four nodes. -/
theorem destructor_frees_once_connected : ∃ (host : Host)
    (pooled : List Ptr), host.peers (addrToUint64 ⟨1, 512⟩) = some 1 ∧
    altusFreeP host.pools.heap host.pools.pool = .ok pooled ∧
    (host.freed [addrToUint64 ⟨1, 512⟩] ++ pooled).Perm (List.range 4) := by
  obtain ⟨host, run, peers, brk, -⟩ := run_connected
  have all (addrport : U64) : addrport ∈ [addrToUint64 ⟨1, 512⟩] ↔ host.peers addrport ≠ none := by
    rw [peers, List.mem_singleton, Option.ne_none_iff_exists']
    simp [@insert_eq_some U64 Ptr _ (fun _ => none) _ _ _ _ rfl]
  obtain ⟨-, pooled, freedP, covered⟩ := destructor_frees_once run (List.nodup_singleton _) all
  refine ⟨host, pooled, by rw [peers, insert_self rfl], freedP, ?_⟩
  rwa [brk, List.nil_append] at covered

end Run

end Host

end Altus
