import Altus.Proof.Host.Nodes
import Altus.Proof.Network.Agreement

namespace Altus

open Bytes Tables Network WindowedQueue

namespace Host

/-- The channel of a number that a host has for the peer at an address. -/
def channelAt (host : Host) (there : Address) (cuid : U16) : Option Channel :=
  (host.listed host.peers (addrToUint64 there)).bind fun peer => peer.ch cuid

/-- The datagrams for one channel of one address. -/
def toChannel (there : Address) (cuid : U16) (sent : List Sent) : List Datagram :=
  Peer.ofChannel cuid ((sent.filter fun message => message.1 = there).map Prod.snd)

/-- What a completed step does with a channel of the peer at an address. A call on another channel may change the nodes, but
not those of this channel's window. -/
inductive Touches (host : Host) (step : HostStep) (there : Address) (cuid : U16) (channel : Channel) (code : Int)
    (sent : List Sent) (next : Host) : Prop
  | still (other : ∀ peid target buf len, step ≠ .createUpstream peid target buf len) (pools : next.pools = host.pools)
      (same : next.channelAt there cuid = some channel) (silent : toChannel there cuid sent = [])
  | spared (elsewhere : ∀ pointer, host.peers (addrToUint64 there) = some pointer →
        step.place host ≠ some (pointer, cuid))
      (same : next.channelAt there cuid = some channel) (silent : toChannel there cuid sent = [])
  | heard {buf : Memory} {size : Int} {currentTime : U32} {raw : Raw} {answer : Int} {out : List Datagram} {after : Channel}
      (isStep : step = .inbound there buf size currentTime raw) (named : ntohs buf 0 = cuid)
      (processed : channel.processPacket host.pools buf size = .ok (answer, out, next.pools, after))
      (here : next.channelAt there cuid = some after) (spoken : toChannel there cuid sent = out)
  | wrote {peid : U32} {buf : Memory} {len : Int} {after : Channel} (isStep : step = .createUpstream peid cuid buf len)
      (own : host.peidPeer peid = host.peers (addrToUint64 there))
      (created : channel.createUpstream host.pools buf len = .ok (code, next.pools, after))
      (here : next.channelAt there cuid = some after) (silent : toChannel there cuid sent = [])
  | sends {stack : U16 → Fin 16 → Memory} {out : List Datagram} {after : Channel}
      (isStep : step = .sender (addrToUint64 there) stack)
      (looped : Channel.sendLoop host.pools.heap cuid (List.ofFn (stack cuid)) channel = .ok (out, some after))
      (pools : next.pools = host.pools) (here : next.channelAt there cuid = some after)
      (spoken : toChannel there cuid sent = out)
  | removed {peid : U32} (isStep : step = .removePeer peid) (own : host.peidPeer peid = host.peers (addrToUint64 there))

section Messages

variable {there other : Address} {cuid : U16} {sent : List Sent} {out : List Datagram}

theorem toChannel_none (foreign : ∀ message ∈ sent, message.1 = there → ntohs (ofList message.2) 0 ≠ cuid) :
    toChannel there cuid sent = [] := by
  refine List.filter_eq_nil_iff.mpr fun datagram member named => ?_
  obtain ⟨message, kept, rfl⟩ := List.mem_map.mp member
  obtain ⟨inside, target⟩ := List.mem_filter.mp kept
  exact foreign message inside (of_decide_eq_true target) (of_decide_eq_true named)

/-- What is sent to another address is for no channel of this one. -/
theorem toChannel_other (different : other ≠ there) :
    toChannel there cuid (out.map fun datagram => (other, datagram)) = [] := by
  apply toChannel_none
  intro message member target
  obtain ⟨datagram, -, rfl⟩ := List.mem_map.mp member
  exact absurd target different

theorem toChannel_peer : toChannel there cuid (out.map fun datagram => (there, datagram)) = Peer.ofChannel cuid out := by
  have kept : ((out.map fun datagram => (there, datagram)).filter fun message : Sent => message.1 = there) =
      out.map fun datagram => (there, datagram) := by
    refine List.filter_eq_self.mpr fun message member => ?_
    obtain ⟨datagram, -, rfl⟩ := List.mem_map.mp member
    exact decide_eq_true rfl
  rw [toChannel, kept, List.map_map]
  exact congrArg _ (List.map_id out)

/-- The datagrams of a handshake are for no channel. -/
theorem toChannel_handshake (small : cuid.toNat < 4)
    (pages : ∀ message ∈ sent, ¬ (ntohs (ofList message.2) 0).toNat < 4) : toChannel there cuid sent = [] := by
  apply toChannel_none
  rintro message member - rfl
  exact pages message member small

end Messages

section Lookup

variable {host next : Host} {there : Address} {cuid : U16} {channel : Channel} {pointer : Ptr} {peer : Peer}

theorem channelAt_known (known : host.peers (addrToUint64 there) = some pointer)
    (found : host.peer pointer = some peer) :
    host.channelAt there cuid = peer.ch cuid := by
  rw [channelAt, Host.listed, known, Option.bind_some, found, Option.bind_some]

theorem channelAt_changed (known : host.peers (addrToUint64 there) = some pointer) (pools : Pools) (changed : Peer) :
    channelAt { host with pools := pools, peer := Function.update host.peer pointer (some changed) } there cuid =
      changed.ch cuid := channelAt_known known (Function.update_self ..)

theorem channelAt_some (here : host.channelAt there cuid = some channel) : ∃ pointer peer,
    host.peers (addrToUint64 there) = some pointer ∧ host.peer pointer = some peer ∧ peer.ch cuid = some channel := by
  obtain ⟨peer, listed, here⟩ := Option.bind_eq_some_iff.mp here
  obtain ⟨pointer, known, found⟩ := Option.bind_eq_some_iff.mp listed
  exact ⟨pointer, peer, known, found, here⟩

theorem addrToUint64_inj {one other : Address} (same : addrToUint64 one = addrToUint64 other) : one = other := by
  rw [← addressOf_addrToUint64 one, same, addressOf_addrToUint64]

/-- The peer under an address has that address. -/
theorem Listed.remoteAddr (listed : Listed host) (known : host.peers (addrToUint64 there) = some pointer)
    (found : host.peer pointer = some peer) : peer.remoteAddr = there := by
  obtain ⟨-, again, present, address⟩ := listed.named _ _ known
  obtain rfl := Option.some.inj (found.symm.trans present)
  exact addrToUint64_inj address

/-- Two addresses have different peers. -/
theorem Listed.distinct (listed : Listed host) {other : Address} {otherPointer : Ptr}
    (known : host.peers (addrToUint64 there) = some pointer)
    (otherKnown : host.peers (addrToUint64 other) = some otherPointer) (different : other ≠ there) :
    pointer ≠ otherPointer := by
  rintro rfl
  exact different (addrToUint64_inj (listed.agree.firstOnce _ _ pointer otherKnown known))

/-- The channel stays when the tables have the same peer under its address. -/
theorem channelAt_same (known : host.peers (addrToUint64 there) = some pointer)
    (stays : next.peers (addrToUint64 there) = some pointer) (same : next.peer pointer = host.peer pointer) :
    next.channelAt there cuid = host.channelAt there cuid := by
  rw [channelAt, channelAt, Host.listed, Host.listed, known, stays, Option.bind_some, Option.bind_some, same]

end Lookup

end Host

open Host

section Steps

variable {key : Memory} {here there : Address} {log : List Note} {host next : Host} {step : HostStep} {cuid : U16}
  {channel : Channel} {code : Int} {sent : List Sent} {pointer : Ptr} {peer : Peer}

theorem Sound.small (sound : Sound key here log host) (present : host.channelAt there cuid = some channel) :
    cuid.toNat < 4 := by
  obtain ⟨pointer, peer, -, found, own⟩ := channelAt_some present
  obtain ⟨role, -, owns⟩ := sound.met pointer peer found
  exact Role.directory_small (owns.kind own)

/-- Every peer has the first four channels. -/
theorem Sound.hasChannel (sound : Sound key here log host) (known : host.peers (addrToUint64 there) ≠ none)
    (small : cuid.toNat < 4) : ∃ channel, host.channelAt there cuid = some channel := by
  obtain ⟨pointer, known⟩ := Option.ne_none_iff_exists'.mp known
  obtain ⟨-, peer, found, -⟩ := sound.listed.named _ _ known
  obtain ⟨role, -, owns⟩ := sound.met pointer peer found
  obtain ⟨kind, listed⟩ := Role.directory_some role small
  rw [← owns cuid] at listed
  obtain ⟨channel, own, -⟩ := Option.map_eq_some_iff.mp listed
  exact ⟨channel, (channelAt_known known found).trans own⟩

/-- The pages of a handshake are for no channel. -/
theorem Sound.page (sound : Sound key here log host) {datagram : Datagram}
    (page : datagram ∈ handShake host.myPublicKey host.myPublicKeySize) : ¬ (ntohs (ofList datagram) 0).toNat < 4 := by
  rw [sound.keySize] at page
  exact HasHeader.foreign (handShake_isPage page).opens.1

theorem ack_foreign : ¬ (ntohs (ofList ackDatagram) 0).toNat < 4 := by decide

theorem done_foreign : ¬ (ntohs (ofList doneDatagram) 0).toNat < 4 := by decide

/-- A datagram for the peer of the channel. -/
theorem touches_talked (known : host.peers (addrToUint64 there) = some pointer)
    (own : peer.ch cuid = some channel) (remote : peer.remoteAddr = there) {buf : Memory} {size : Int}
    {currentTime : U32}
    {raw : Raw} {out : List Datagram} {pools : Pools} {changed : Peer} {answer : Int}
    (processed : peer.processPacket host.pools buf size = .ok (answer, out, pools, changed)) :
    Touches host (.inbound there buf size currentTime raw) there cuid channel code
      (out.map fun datagram => (peer.remoteAddr, datagram))
      { host with pools := pools, peer := Function.update host.peer pointer (some changed) } := by
  have named := Peer.processPacket_named processed
  rw [remote]
  rw [Peer.processPacket] at processed
  dsimp only at processed
  split at processed
  · cases processed
    exact .still (by simp) rfl ((channelAt_changed known _ _).trans own) rfl
  rename_i thisChannel here
  obtain ⟨⟨inner, replies, nextPools, nextChannel⟩, answered, same⟩ := map_ok processed
  cases same
  by_cases target : ntohs buf 0 = cuid
  · subst target
    obtain rfl := Option.some.inj (own.symm.trans here)
    refine .heard rfl rfl answered ((channelAt_changed known _ _).trans (Function.update_self ..)) (toChannel_peer.trans ?_)
    exact List.filter_eq_self.mpr fun datagram member => decide_eq_true (named datagram member)
  · refine .spared ?_ ((channelAt_changed known _ _).trans ((Function.update_of_ne (Ne.symm target) _ _).trans own))
      (toChannel_peer.trans ?_)
    · intro other _ placed
      rw [HostStep.place, known] at placed
      exact target (Prod.mk.inj (Option.some.inj placed)).2
    · exact List.filter_eq_nil_iff.mpr fun datagram member same =>
        target ((named datagram member).symm.trans (of_decide_eq_true same))

/-- A new peer at another address. -/
theorem touches_registered (sound : Sound key here log host) (present : host.channelAt there cuid = some channel)
    {remoteAddr : Address} (free : host.peers (addrToUint64 remoteAddr) = none) {dst : Peer} {buf : Memory} {size : Int}
    {currentTime : U32} {raw : Raw} (peers : next.peers = insert host.peers (addrToUint64 remoteAddr) host.brk)
    (objects : next.peer = Function.update host.peer host.brk (some dst))
    (elsewhere : ∀ message ∈ sent, message.1 = remoteAddr) :
    Touches host (.inbound remoteAddr buf size currentTime raw) there cuid channel code sent next := by
  obtain ⟨pointer, peer, known, found, own⟩ := channelAt_some present
  have different : remoteAddr ≠ there := by
    rintro rfl
    rw [known] at free
    cases free
  refine .spared ?_ ?_ (toChannel_none fun message member target =>
    absurd ((elsewhere message member).symm.trans target) different)
  · intro other _ placed
    rw [HostStep.place, free] at placed
    cases placed
  · have below : pointer ≠ host.brk := Nat.ne_of_lt (sound.listed.named _ _ known).1
    rw [← present]
    refine channelAt_same known ?_ ?_
    · rw [peers]
      exact (insert_eq_some free).mpr (Or.inr known)
    · rw [objects, Function.update_of_ne below]

theorem Sound.touches_inbound (sound : Sound key here log host) (present : host.channelAt there cuid = some channel)
    {remoteAddr : Address} {buf : Memory} {size : Int} {currentTime : U32} {raw : Raw}
    (listened : host.listener remoteAddr buf size currentTime raw = .ok (code, sent, next)) :
    Touches host (.inbound remoteAddr buf size currentTime raw) there cuid channel code sent next := by
  obtain ⟨pointer, peer, known, found, own⟩ := channelAt_some present
  cases listener_handles listened with
  | ignored => exact .still (by simp) rfl present rfl
  | @talked other otherPeer changed answer out pools otherKnown otherFound processed =>
      have remote := sound.listed.remoteAddr otherKnown otherFound
      by_cases same : remoteAddr = there
      · subst same
        obtain rfl := Option.some.inj (known.symm.trans otherKnown)
        obtain rfl := Option.some.inj (found.symm.trans otherFound)
        exact touches_talked known own remote processed
      · have apart := sound.listed.distinct known otherKnown same
        refine .spared ?_ ?_ (by rw [remote]; exact toChannel_other same)
        · intro third thirdKnown placed
          obtain rfl := Option.some.inj (known.symm.trans thirdKnown)
          rw [HostStep.place, otherKnown] at placed
          exact apart (Prod.mk.inj (Option.some.inj placed)).1.symm
        · rw [← present]
          exact channelAt_same known known (Function.update_of_ne apart _ _)
  | refused => exact .still (by simp) rfl present rfl
  | completed pending valid free => exact touches_registered sound present free rfl rfl (by simp)
  | waits header entries reply =>
      refine .still (by simp) rfl present (toChannel_handshake (sound.small present) ?_)
      intro message member
      rcases reply with rfl | ⟨rfl, -⟩
      · cases member
      · obtain rfl := List.mem_singleton.mp member
        exact ack_foreign
  | promoted header letter prepeer acked free => exact touches_registered sound present free rfl rfl (by simp)

theorem Sound.touches_sender (sound : Sound key here log host) (present : host.channelAt there cuid = some channel)
    {addrport : U64} {stack : U16 → Fin 16 → Memory} (performed : host.sender addrport stack = .ok (code, sent, next)) :
    Touches host (.sender addrport stack) there cuid channel code sent next := by
  obtain ⟨pointer, peer, known, found, own⟩ := channelAt_some present
  rw [Host.sender] at performed
  split at performed
  · cases performed
    exact .still (by simp) rfl present rfl
  rename_i other otherKnown
  split at performed
  · cases performed
  rename_i otherPeer otherFound
  obtain ⟨⟨answer, out, changed⟩, answered, same⟩ := map_ok performed
  cases same
  by_cases same : addrport = addrToUint64 there
  · subst same
    obtain rfl := Option.some.inj (known.symm.trans otherKnown)
    obtain rfl := Option.some.inj (found.symm.trans otherFound)
    obtain ⟨role, -, owns⟩ := sound.met pointer peer found
    rw [Peer.send, ← everyCuid] at answered
    obtain ⟨-, inside⟩ := owns.sendFrom_at cuid everyCuid_nodup answered
    obtain ⟨mine, after, looped, ends, spoken⟩ := inside (mem_everyCuid cuid) channel own
    rw [sound.listed.remoteAddr known found]
    exact .sends rfl looped rfl ((channelAt_changed known host.pools changed).trans ends) (toChannel_peer.trans spoken)
  · obtain ⟨-, again, there, named⟩ := sound.listed.named _ _ otherKnown
    obtain rfl := Option.some.inj (otherFound.symm.trans there)
    rw [← named] at otherKnown same
    have different : otherPeer.remoteAddr ≠ _ := fun equal => same (congrArg addrToUint64 equal)
    have apart := sound.listed.distinct known otherKnown different
    refine .still (by simp) rfl ?_ (toChannel_other different)
    rw [← present]
    exact channelAt_same known known (Function.update_of_ne apart _ _)

theorem touches_createUpstream (present : host.channelAt there cuid = some channel)
    {peid : U32} {target : U16} {buf : Memory} {len : Int}
    (created : host.createUpstream peid target buf len = .ok (code, sent, next)) :
    Touches host (.createUpstream peid target buf len) there cuid channel code sent next := by
  obtain ⟨pointer, peer, known, found, own⟩ := channelAt_some present
  rw [Host.createUpstream] at created
  split at created
  · cases created
  rename_i other otherKnown
  split at created
  · cases created
  rename_i otherPeer otherFound
  obtain ⟨⟨answer, pools, changed⟩, taken, same⟩ := map_ok created
  cases same
  by_cases same : other = pointer
  · subst same
    obtain rfl := Option.some.inj (found.symm.trans otherFound)
    rw [Peer.createUpstream] at taken
    split at taken
    · rename_i vacant
      cases taken
      refine .spared ?_ ((channelAt_changed known _ _).trans own) rfl
      intro third _ placed
      rw [HostStep.place, otherKnown] at placed
      obtain ⟨-, rfl⟩ := Prod.mk.inj (Option.some.inj placed)
      rw [own] at vacant
      cases vacant
    rename_i thisChannel mine
    obtain ⟨⟨retval, nextPools, nextChannel⟩, answered, same⟩ := map_ok taken
    cases same
    by_cases named : target = cuid
    · subst named
      obtain rfl := Option.some.inj (own.symm.trans mine)
      exact .wrote rfl (otherKnown.trans known.symm) answered ((channelAt_changed known _ _).trans (Function.update_self ..)) rfl
    · refine .spared ?_ ((channelAt_changed known _ _).trans ((Function.update_of_ne (Ne.symm named) _ _).trans own)) rfl
      intro third _ placed
      rw [HostStep.place, otherKnown] at placed
      exact named (Prod.mk.inj (Option.some.inj placed)).2
  · refine .spared ?_ ?_ rfl
    · intro third thirdKnown placed
      obtain rfl := Option.some.inj (known.symm.trans thirdKnown)
      rw [HostStep.place, otherKnown] at placed
      exact same (Prod.mk.inj (Option.some.inj placed)).1
    · rw [← present]
      exact channelAt_same known known (Function.update_of_ne (Ne.symm same) _ _)

theorem Sound.touches_removePeer (sound : Sound key here log host) (present : host.channelAt there cuid = some channel)
    {peid : U32} (removed : host.removePeer peid = .ok (code, sent, next)) :
    Touches host (.removePeer peid) there cuid channel code sent next := by
  obtain ⟨pointer, peer, known, found, own⟩ := channelAt_some present
  obtain rfl := removePeer_sends removed
  rcases removePeer_ok removed with ⟨-, -, rfl⟩ | ⟨other, otherPeer, pools, otherKnown, otherFound, -, rfl⟩
  · exact .still (by simp) rfl present rfl
  by_cases same : other = pointer
  · subst same
    exact .removed rfl (otherKnown.trans known.symm)
  · obtain ⟨addrport, listed⟩ := (sound.listed.agree.same other).mpr ⟨peid, otherKnown⟩
    obtain ⟨-, again, again', named⟩ := sound.listed.named _ _ listed
    obtain rfl := Option.some.inj (otherFound.symm.trans again')
    have different : addrToUint64 there ≠ addrToUint64 otherPeer.remoteAddr := by
      intro equal
      rw [equal, named] at known
      exact same (Option.some.inj (listed.symm.trans known))
    have stays : erase host.peers (addrToUint64 otherPeer.remoteAddr) (addrToUint64 there) = some pointer := by
      rw [erase_other different]
      exact known
    have kept : erase host.peer other pointer = host.peer pointer := erase_other (Ne.symm same)
    refine .spared (fun _ _ placed => by cases placed) ?_ rfl
    rw [← present]
    exact channelAt_same known stays kept

/-- Every completed step, seen from one channel. -/
theorem Sound.touches (sound : Sound key here log host) (stepped : host.step step = .ok (code, sent, next))
    (present : host.channelAt there cuid = some channel) : Touches host step there cuid channel code sent next := by
  cases step with
  | inbound remoteAddr buf recvSize currentTime raw => exact sound.touches_inbound present stepped
  | connect ip port serverkey keylen starttime raw =>
      have silent : toChannel there cuid sent = [] := toChannel_handshake (sound.small present) fun message member =>
        sound.page (connect_sends stepped member).2
      rcases connect_ok stepped with rfl | ⟨newpeer, -, -, -, -, rfl⟩ <;> exact .still (by simp) rfl present silent
  | connecter entry =>
      have silent : toChannel there cuid sent = [] := toChannel_handshake (sound.small present) fun message member => by
        obtain ⟨-, -, -, page⟩ := connecter_sends stepped member
        exact sound.page page
      rcases connecter_ok stepped with rfl | ⟨-, after, retried, rfl⟩
      · exact .still (by simp) rfl present silent
      · obtain ⟨prepeer, -, rfl | ⟨-, -, rfl⟩⟩ := retry_ok retried <;> exact .still (by simp) rfl present silent
  | removePeer peid => exact sound.touches_removePeer present stepped
  | createUpstream peid target buf len => exact touches_createUpstream present stepped
  | sender addrport stack => exact sound.touches_sender present stepped
  | accepting isAccepting =>
      cases stepped
      exact .still (by simp) rfl present rfl

/-- A channel keeps its kind as long as its peer is there. -/
theorem Host.Touches.kind (touches : Touches host step there cuid channel code sent next)
    (stays : ∀ peid, step = .removePeer peid → host.peidPeer peid ≠ host.peers (addrToUint64 there)) :
    ∃ after, next.channelAt there cuid = some after ∧ after.kind = channel.kind := by
  cases touches with
  | still other pools same silent => exact ⟨channel, same, rfl⟩
  | spared elsewhere same silent => exact ⟨channel, same, rfl⟩
  | heard isStep named processed present spoken => exact ⟨_, present, Channel.processPacket_kind processed⟩
  | wrote isStep own created present silent => exact ⟨_, present, Channel.createUpstream_kind created⟩
  | sends isStep looped pools present spoken => exact ⟨_, present, Channel.sendLoop_kind looped⟩
  | removed isStep own => exact absurd own (stays _ isStep)

/-- A step has made the peer of an address. -/
def Makes (host : Host) (there : Address) (next : Host) : Prop :=
  ∃ raw last made, Peer.Opens host.pools raw last made ∧ next.pools = made.1 ∧
    next.peers (addrToUint64 there) ≠ none ∧ ∀ cuid, next.channelAt there cuid = made.2.ch cuid

theorem makes_registered {raw : Fin 3 → WQWindow} {last : U16} {made : Pools × Peer}
    (free : host.peers (addrToUint64 there) = none) (opened : Peer.Opens host.pools raw last made)
    (pools : next.pools = made.1) (peers : next.peers = insert host.peers (addrToUint64 there) host.brk)
    (objects : next.peer = Function.update host.peer host.brk (some made.2)) : Makes host there next := by
  have known : next.peers (addrToUint64 there) = some host.brk := by rw [peers, insert_self free]
  have found : next.peer host.brk = some made.2 := by rw [objects, Function.update_self]
  exact ⟨raw, last, made, opened, pools, by rw [known]; exact Option.some_ne_none _, fun _ => channelAt_known known found⟩

theorem Sound.makes_inbound (sound : Sound key here log host) (free : host.peers (addrToUint64 there) = none)
    (small : cuid.toNat < 4) {remoteAddr : Address} {buf : Memory} {size : Int} {currentTime : U32} {raw : Raw}
    (listened : host.listener remoteAddr buf size currentTime raw = .ok (code, sent, next)) :
    toChannel there cuid sent = [] ∧ (next.peers (addrToUint64 there) = none ∨ Makes host there next) := by
  have other (different : remoteAddr ≠ there) :
      insert host.peers (addrToUint64 remoteAddr) host.brk (addrToUint64 there) = none :=
    (insert_other fun same => different (addrToUint64_inj same).symm).trans free
  cases listener_handles listened with
  | ignored => exact ⟨rfl, Or.inl free⟩
  | @talked pointer peer changed answer out pools known found processed =>
      refine ⟨?_, Or.inl free⟩
      rw [sound.listed.remoteAddr known found]
      apply toChannel_other
      rintro rfl
      rw [known] at free
      cases free
  | refused => exact ⟨rfl, Or.inl free⟩
  | @completed pointer prepeer raw newpeid pending valid vacant =>
      refine ⟨toChannel_handshake small ?_, ?_⟩
      · intro message member
        obtain rfl := List.mem_singleton.mp member
        exact done_foreign
      · by_cases same : remoteAddr = there
        · subst same
          exact Or.inr (makes_registered free (Peer.clientPeer_opens host.pools prepeer remoteAddr raw) rfl rfl rfl)
        · exact Or.inl (other same)
  | waits header entries reply =>
      refine ⟨toChannel_handshake small ?_, Or.inl free⟩
      intro message member
      rcases reply with rfl | ⟨rfl, -⟩
      · cases member
      · obtain rfl := List.mem_singleton.mp member
        exact ack_foreign
  | @promoted prepeer raw newpeid header letter entry acked vacant =>
      refine ⟨rfl, ?_⟩
      by_cases same : remoteAddr = there
      · subst same
        exact Or.inr (makes_registered free (Peer.serverPeer_opens host.pools prepeer remoteAddr raw) rfl rfl rfl)
      · exact Or.inl (other same)

/-- A completed step of a host without a peer at an address sends nothing for its channels, and it may make the peer. -/
theorem Sound.makes (sound : Sound key here log host) (stepped : host.step step = .ok (code, sent, next))
    (free : host.peers (addrToUint64 there) = none) (small : cuid.toNat < 4) :
    toChannel there cuid sent = [] ∧ (next.peers (addrToUint64 there) = none ∨ Makes host there next) := by
  cases step with
  | inbound remoteAddr buf recvSize currentTime raw => exact sound.makes_inbound free small stepped
  | connect ip port serverkey keylen starttime raw =>
      refine ⟨toChannel_handshake small fun message member => sound.page (connect_sends stepped member).2, Or.inl ?_⟩
      rw [(connect_keeps stepped).peers, free]
  | connecter entry =>
      refine ⟨toChannel_handshake small fun message member => ?_, Or.inl ?_⟩
      · obtain ⟨-, -, -, page⟩ := connecter_sends stepped member
        exact sound.page page
      · rw [(connecter_keeps stepped).peers, free]
  | removePeer peid =>
      obtain rfl := removePeer_sends stepped
      refine ⟨rfl, Or.inl ?_⟩
      rcases removePeer_ok stepped with ⟨-, -, rfl⟩ | ⟨pointer, peer, pools, -, -, -, rfl⟩
      · exact free
      · have gone : erase host.peers (addrToUint64 peer.remoteAddr) (addrToUint64 there) = none := by
          by_cases same : addrToUint64 there = addrToUint64 peer.remoteAddr
          · rw [same, erase_self]
          · rw [erase_other same]
            exact free
        exact gone
  | createUpstream peid target buf len =>
      obtain ⟨rfl, -⟩ := createUpstream_sends stepped
      obtain ⟨pointer, changes⟩ := createUpstream_ok stepped
      exact ⟨rfl, Or.inl (by rw [changes.keeps.peers, free])⟩
  | sender addrport stack =>
      refine ⟨?_, Or.inl (by rw [(sender_keeps stepped).peers, free])⟩
      change host.sender addrport stack = _ at stepped
      rw [Host.sender] at stepped
      split at stepped
      · cases stepped
        rfl
      rename_i pointer known
      split at stepped
      · cases stepped
      rename_i peer found
      obtain ⟨⟨answer, out, changed⟩, -, same⟩ := map_ok stepped
      cases same
      apply toChannel_other
      obtain ⟨-, again, present, named⟩ := sound.listed.named _ _ known
      obtain rfl := Option.some.inj (found.symm.trans present)
      rintro rfl
      rw [named, known] at free
      cases free
  | accepting isAccepting =>
      cases stepped
      exact ⟨rfl, Or.inl free⟩

end Steps

end Altus
