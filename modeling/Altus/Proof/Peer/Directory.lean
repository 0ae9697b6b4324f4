import Altus.Proof.Receiver.Endings
import Altus.Proof.Sender.Release

namespace Altus

open Bytes WindowedQueue

/-- The side of a handshake on which a peer was made. -/
inductive Role where
  | client
  | server
deriving DecidableEq, Repr

namespace Role

/-- The type and the direction of each channel that a constructor of `ALTUSPeer` inserts. -/
def directory : Role → U16 → Option (ChannelType × Bool)
  | .client, cuid =>
      if cuid = 0 then some (.rdtStream, false)
      else if cuid = 1 then some (.rdtStream, true)
      else if cuid = 2 then some (.rdtStream, false)
      else if cuid = 3 then some (.fileStreamRcv, true)
      else none
  | .server, cuid =>
      if cuid = 0 then some (.rdtStream, true)
      else if cuid = 1 then some (.rdtStream, false)
      else if cuid = 2 then some (.fileStreamRcv, true)
      else if cuid = 3 then some (.rdtStream, false)
      else none

/-- Only four numbers name a channel. -/
theorem directory_small {role : Role} {cuid : U16} {kind : ChannelType × Bool}
    (known : role.directory cuid = some kind) : cuid.toNat < 4 := by
  cases role <;> simp only [directory] at known <;> split_ifs at known <;> subst_vars <;> decide

/-- Every channel is an `rdt_stream` or receives. -/
theorem directory_usual {role : Role} {cuid : U16} {kind : ChannelType × Bool}
    (known : role.directory cuid = some kind) : kind.1 = .rdtStream ∨ kind.2 = true := by
  cases role <;> simp only [directory] at known <;> split_ifs at known <;> cases known <;> simp

/-- Four numbers name a channel in every role. -/
theorem directory_some (role : Role) {cuid : U16}
    (small : cuid.toNat < 4) : ∃ kind, role.directory cuid = some kind := by
  have number : cuid = 0 ∨ cuid = 1 ∨ cuid = 2 ∨ cuid = 3 := by
    simp only [← BitVec.toNat_inj]
    simp
    omega
  rcases number with rfl | rfl | rfl | rfl <;> cases role <;> exact ⟨_, rfl⟩

end Role

namespace Channel

/-- The type and the direction of a channel. -/
def kind (channel : Channel) : ChannelType × Bool := (channel.type, channel.isReceiving)

section Kinds

variable {pools next : Pools} {channel after : Channel} {buf : Memory} {size : Int} {code : Int}

theorem put_kind {window : WQWindow} {seq length : U32} {data : Memory}
    (taken : put pools channel window seq length data = .ok (code, next, after)) : after.kind = channel.kind := by
  obtain ⟨inner, -, stored⟩ := map_ok taken
  rw [← congrArg (fun result : Int × Pools × Channel => result.2.2.kind) stored, kind, kind]

theorem receiveAck_kind {popped : Int} (received : channel.receiveAck pools buf = .ok (code, popped, next, after)) :
    after.kind = channel.kind := by
  rw [receiveAck] at received
  split at received
  · rw [← congrArg (fun result => result.2.2.2.kind) (Except.ok.inj received)]
  split at received
  · rw [← congrArg (fun result => result.2.2.2.kind) (Except.ok.inj received)]
  split at received
  · obtain ⟨inner, -, stored⟩ := map_ok received
    rw [← congrArg (fun result : Int × Int × Pools × Channel => result.2.2.2.kind) stored, kind, kind]
  · cases received

/-- `channel::receive` keeps the kind of a channel, and only a receiving `rdt_stream` asks for an acknowledgement. -/
theorem receive_kind (received : channel.receive pools buf size = .ok (code, next, after)) :
    after.kind = channel.kind ∧ (code = 1 → channel.kind = (.rdtStream, true)) := by
  rw [receive] at received
  split at received
  · rename_i receiving
    split at received
    · cases received
      exact ⟨rfl, by simp⟩
    · split at received
      · cases received
        exact ⟨rfl, by simp⟩
      · split at received
        · cases received
          exact ⟨rfl, by simp⟩
        · cases received
    · rename_i type
      refine ⟨?_, fun _ => by rw [kind, type, receiving]⟩
      rw [receiveData] at received
      split at received
      · obtain ⟨inner, taken, result⟩ := map_ok received
        obtain rfl : inner.2.2 = after := congrArg (fun result => result.2.2) result
        exact put_kind taken
      · cases received
    · split at received
      · obtain ⟨inner, taken, result⟩ := map_ok received
        obtain rfl : inner.2.2 = after := congrArg (fun result => result.2.2) result
        obtain rfl : 0 = code := congrArg (fun result => result.1) result
        exact ⟨put_kind taken, by simp⟩
      · cases received
    · rw [receiveFile] at received
      split at received
      · dsimp only at received
        split at received
        · cases received
          exact ⟨rfl, by simp⟩
        · cases received
        · cases received
      · cases received
    · cases received
  · split at received
    · obtain ⟨inner, acknowledged, result⟩ := map_ok received
      obtain rfl : inner.2.2.2 = after := congrArg (fun result => result.2.2) result
      refine ⟨receiveAck_kind acknowledged, ?_⟩
      rintro rfl
      -- An acknowledgement answers -1 or 0.
      obtain ⟨inner, popped, pools, channel⟩ := inner
      obtain rfl : inner = 1 := congrArg (fun result => result.1) result
      rw [receiveAck] at acknowledged
      split at acknowledged
      · cases acknowledged
      split at acknowledged
      · cases acknowledged
      split at acknowledged
      · obtain ⟨inner, -, stored⟩ := map_ok acknowledged
        cases stored
      · cases acknowledged
    · cases received
      exact ⟨rfl, by simp⟩

theorem createUpstream_kind {len : Int} (created : channel.createUpstream pools buf len = .ok (code, next, after)) :
    after.kind = channel.kind := by
  rw [createUpstream] at created
  split at created
  · cases created
    rfl
  split at created
  · obtain ⟨inner, taken, result⟩ := map_ok created
    rw [← put_kind taken, ← congrArg (fun result : Int × Pools × Channel => result.2.2.kind) result, kind, kind]
  · cases created

theorem sendLoop_kind {heap : WQHeap} {cuid : U16} {stack : List Memory} {sent : List Datagram}
    (looped : sendLoop heap cuid stack channel = .ok (sent, some after)) : after.kind = channel.kind := by
  obtain ⟨nextSendSeq, isUpdated, rfl⟩ := sendLoop_keeps heap stack looped
  rfl

theorem processPacket_kind {sent : List Datagram}
    (processed : channel.processPacket pools buf size = .ok (code, sent, next, after)) : after.kind = channel.kind := by
  obtain ⟨⟨middle, middlePools, changed⟩, received, answered⟩ := bind_ok processed
  have same : after = changed := answer_channel answered
  rw [same]
  exact (receive_kind received).1

/-- A data datagram of a channel: the number of the channel stands in front, the padding behind the header, and the size
is whole blocks. -/
structure DataFrame (cuid : U16) (datagram : Datagram) : Prop where
  channel : ntohs (ofList datagram) 0 = cuid
  padding : 8 + paddingOf datagram ≤ datagram.length
  lower : 16 ≤ datagram.length
  upper : datagram.length ≤ 496
  blocks : 16 ∣ datagram.length

/-- A buffer whose header is untouched, with whole blocks. -/
theorem dataFrame_read {memory buf : Memory} {cuid : U16} {paddingLen : Byte} {nextSeq : U32} {length : Nat}
    (head : ∀ index < 8, memory index = header buf cuid paddingLen nextSeq index)
    (room : 8 + paddingLen.toNat ≤ length) (lower : 16 ≤ length) (upper : length ≤ 496) (blocks : 16 ∣ length) :
    DataFrame cuid (read memory length) := by
  obtain ⟨channel, padding, -, -⟩ := header_fields buf cuid paddingLen nextSeq
  refine ⟨ntohs_htons ?_, ?_, by rwa [read_length], by rwa [read_length], by rwa [read_length]⟩
  · intro index inside
    rw [ofList_read memory (by omega), Nat.zero_add, head index (by omega), channel index inside]
  · rw [paddingOf, ofList_read memory (by omega), head 2 (by decide), padding, read_length]
    exact room

/-- The padding fills the last block, whatever `altusWQPeek` answered. -/
theorem padded_blocks {sendingLen : U32} (small : sendingLen.toNat ≤ 488) :
    8 + (((496#32 - sendingLen - 8#32) % 16#32).setWidth 8).toNat ≤
        8 + sendingLen.toNat + ((496#32 - sendingLen - 8#32) % 16#32).toNat ∧
      16 ≤ 8 + sendingLen.toNat + ((496#32 - sendingLen - 8#32) % 16#32).toNat ∧
      8 + sendingLen.toNat + ((496#32 - sendingLen - 8#32) % 16#32).toNat ≤ 496 ∧
      16 ∣ 8 + sendingLen.toNat + ((496#32 - sendingLen - 8#32) % 16#32).toNat := by
  have padding := padding_byte small
  rw [BitVec.ofNat_toNat, BitVec.setWidth_eq] at padding
  rw [padding.1, padding.2]
  refine ⟨by omega, by omega, by omega, by omega⟩

theorem rdtPacket_dataFrame {heap : WQHeap} {window : WQWindow} {cuid : U16} {nextSeq : U32} {datagram : Datagram}
    {isUpdated : Bool} (built : rdtPacket heap window cuid nextSeq buf = .ok (datagram, isUpdated)) :
    DataFrame cuid datagram := by
  unfold rdtPacket at built
  dsimp only at built
  split at built
  · split at built
    · cases built
    · obtain ⟨rfl, -⟩ := Prod.mk.inj (Except.ok.inj built)
      exact dataFrame_read (fun index inside => memcpy_outside (Or.inl inside)) (by decide) (by omega) (by omega) (by omega)
  generalize BitVec.ofInt 32 (altusWQPeek heap window nextSeq).1 + _ = sum at built
  have small : (if rdtDataSize < sum then rdtDataSize else sum).toNat ≤ 488 := by
    split
    · decide
    · rename_i within
      exact BitVec.le_def.mp (BitVec.not_lt.mp within)
  generalize (if rdtDataSize < sum then rdtDataSize else sum) = sendingLen at built small
  obtain ⟨room, lower, upper, blocks⟩ := padded_blocks small
  split at built
  · obtain ⟨rfl, -⟩ := Prod.mk.inj (Except.ok.inj built)
    exact dataFrame_read (fun index inside => copyPeeked_head heap _ _ _ inside) room lower upper blocks
  split at built
  · cases built
  · obtain ⟨rfl, -⟩ := Prod.mk.inj (Except.ok.inj built)
    exact dataFrame_read (fun index inside => (memcpy_outside (Or.inl (by omega))).trans
      (copyPeeked_head heap _ _ _ inside)) room lower upper blocks

/-- The rounds of a `Send` on an `rdt_stream` send data of the channel, and only when it is a sending one. -/
theorem sendLoop_dataFrame (heap : WQHeap) (cuid : U16) (stack : List Memory) :
    ∀ {channel : Channel} {sent : List Datagram} {after : Option Channel},
      channel.type = .rdtStream ∨ channel.isReceiving = true →
      sendLoop heap cuid stack channel = .ok (sent, after) →
      (∃ final, after = some final) ∧
        ∀ datagram ∈ sent, channel.kind = (.rdtStream, false) ∧ DataFrame cuid datagram := by
  induction stack with
  | nil =>
      intro channel sent after usual looped
      cases looped
      exact ⟨⟨_, rfl⟩, by simp⟩
  | cons buf stack ih =>
      intro channel sent after usual looped
      rw [sendLoop] at looped
      split at looped
      · cases looped
        exact ⟨⟨_, rfl⟩, by simp⟩
      split at looped
      · exact ih usual looped
      rename_i sending
      have type := usual.resolve_right sending
      rw [type] at looped
      dsimp only at looped
      split at looped
      · split at looped
        · cases looped
        rename_i built
        split at looped
        · cases looped
        rename_i later
        cases looped
        obtain ⟨ends, rest⟩ := ih (Or.inl rfl) later
        refine ⟨ends, ?_⟩
        have kindIs : channel.kind = (.rdtStream, false) := by
          rw [kind, type, Bool.eq_false_of_not_eq_true sending]
        intro datagram member
        rcases List.mem_cons.mp member with rfl | old
        · exact ⟨kindIs, rdtPacket_dataFrame built⟩
        · exact ⟨kindIs, (rest datagram old).2⟩
      · cases looped

end Kinds

end Channel

namespace Peer

/-- A peer has the channels of its role. -/
def HasDirectory (role : Role) (peer : Peer) : Prop := ∀ cuid, (peer.ch cuid).map Channel.kind = role.directory cuid

/-- The forms of the datagrams that a peer of a role sends: data of a sending channel, and acknowledgements of a
receiving `rdt_stream`. -/
inductive Speaks (role : Role) (datagram : Datagram) : Prop
  | data (channel : role.directory (ntohs (ofList datagram) 0) = some (.rdtStream, false))
      (lower : 16 ≤ datagram.length) (upper : datagram.length ≤ 496) (blocks : 16 ∣ datagram.length)
  | ack (channel : role.directory (ntohs (ofList datagram) 0) = some (.rdtStream, true))
      (size : datagram.length = 8)

section Calls

variable {role : Role} {pools next : Pools} {peer after : Peer} {buf : Memory} {size : Int} {code : Int}
  {sent : List Datagram}

theorem serverPeer_directory (pools : Pools) (prepeer : SPrePeer) (remoteAddr : Address) (raw : Raw) :
    HasDirectory .server (serverPeer pools prepeer remoteAddr raw).2 := by
  intro cuid
  simp only [serverPeer, channels, Role.directory]
  split_ifs <;> rfl

theorem clientPeer_directory (pools : Pools) (prepeer : CPrePeer) (remoteAddr : Address) (raw : Raw) :
    HasDirectory .client (clientPeer pools prepeer remoteAddr raw).2 := by
  intro cuid
  simp only [clientPeer, channels, Role.directory]
  split_ifs <;> rfl

/-- A channel of the same kind takes the place of one. -/
theorem HasDirectory.update (owns : HasDirectory role peer) {cuid : U16} {channel changed : Channel}
    (here : peer.ch cuid = some channel) (same : changed.kind = channel.kind) :
    HasDirectory role { peer with ch := Function.update peer.ch cuid (some changed) } := by
  intro other
  rw [← owns other]
  by_cases own : other = cuid
  · subst own
    simp [here, same]
  · simp [own]

theorem HasDirectory.kind (owns : HasDirectory role peer) {cuid : U16} {channel : Channel}
    (here : peer.ch cuid = some channel) :
    role.directory cuid = some channel.kind := by
  rw [← owns cuid, here, Option.map_some]

/-- The acknowledgement names the channel of its datagram. -/
theorem response_channel (window : WQWindow) (buf : Memory) :
    (Channel.response window buf).length = 8 ∧ ntohs (ofList (Channel.response window buf)) 0 = ntohs buf 0 := by
  refine ⟨by simp [Channel.response], ntohs_congr ?_⟩
  intro index inside
  rw [Channel.response, ofList, List.getD_append _ _ _ _ (by simp; omega), List.getD_append _ _ _ _ (by simp; omega),
    read_getD _ _ (by omega)]

theorem answer_sends {channel : Channel} {result : Int × List Datagram × Pools × Channel}
    (answered : Channel.answer buf code pools channel = .ok result) {datagram : Datagram}
    (member : datagram ∈ result.2.1) : code = 1 ∧ ∃ window, datagram = Channel.response window buf := by
  rw [Channel.answer] at answered
  split at answered
  · cases answered
    cases member
  split at answered
  · rename_i asked
    split at answered
    · cases answered
      exact ⟨asked, _, List.mem_singleton.mp member⟩
    · cases answered
  · cases answered
    cases member

/-- A datagram changes the kind of no channel, and it is answered by acknowledgements only. -/
theorem HasDirectory.processPacket (owns : HasDirectory role peer)
    (processed : processPacket pools peer buf size = .ok (code, sent, next, after)) :
    HasDirectory role after ∧ ∀ datagram ∈ sent, Speaks role datagram := by
  rw [Peer.processPacket] at processed
  dsimp only at processed
  split at processed
  · cases processed
    exact ⟨owns, by simp⟩
  rename_i channel here
  obtain ⟨inner, answered, result⟩ := map_ok processed
  obtain ⟨⟨middle, middlePools, changed⟩, received, answered⟩ := bind_ok answered
  dsimp only at answered
  obtain ⟨kept, asks⟩ := Channel.receive_kind received
  have same : inner.2.2.2 = changed := Channel.answer_channel answered
  cases result
  refine ⟨owns.update here (by rw [same, kept]), ?_⟩
  intro datagram member
  obtain ⟨asked, window, rfl⟩ := answer_sends answered member
  obtain ⟨length, channelIs⟩ := response_channel window buf
  refine .ack ?_ length
  rw [channelIs, owns.kind here, asks asked]

theorem HasDirectory.createUpstream (owns : HasDirectory role peer) {cuid : U16} {len : Int}
    (created : createUpstream pools peer cuid buf len = .ok (code, next, after)) : HasDirectory role after := by
  rw [Peer.createUpstream] at created
  split at created
  · cases created
    exact owns
  rename_i channel here
  obtain ⟨inner, taken, result⟩ := map_ok created
  cases result
  exact owns.update here (Channel.createUpstream_kind taken)

/-- A datagram is answered under the number of its channel. -/
theorem processPacket_named (processed : processPacket pools peer buf size = .ok (code, sent, next, after)) :
    ∀ datagram ∈ sent, ntohs (ofList datagram) 0 = ntohs buf 0 := by
  intro datagram member
  rw [Peer.processPacket] at processed
  dsimp only at processed
  split at processed
  · cases processed
    cases member
  · obtain ⟨inner, answered, result⟩ := map_ok processed
    obtain ⟨middle, -, answered⟩ := bind_ok answered
    cases result
    obtain ⟨-, window, rfl⟩ := answer_sends answered member
    exact (response_channel window buf).2

/-- `ALTUSPeer::Send` changes the kind of no channel, and it sends data of the sending channels only. -/
theorem HasDirectory.sendFrom {heap : WQHeap} {stack : U16 → Fin 16 → Memory} (cuids : List U16)
    (owns : HasDirectory role peer)
    (performed : sendFrom heap stack cuids peer = .ok (code, sent, after)) :
    HasDirectory role after ∧ ∀ datagram ∈ sent, Speaks role datagram := by
  induction cuids generalizing peer sent code with
  | nil =>
      cases performed
      exact ⟨owns, by simp⟩
  | cons cuid rest ih =>
      rw [Peer.sendFrom] at performed
      split at performed
      · exact ih owns performed
      rename_i channel here
      have known := owns.kind here
      have usual : channel.type = .rdtStream ∨ channel.isReceiving = true := Role.directory_usual known
      split at performed
      · cases performed
      · rename_i looped
        obtain ⟨⟨final, impossible⟩, -⟩ := Channel.sendLoop_dataFrame heap cuid _ usual looped
        cases impossible
      rename_i now changed looped
      obtain ⟨-, spoken⟩ := Channel.sendLoop_dataFrame heap cuid _ usual looped
      split at performed
      · cases performed
      rename_i later
      cases performed
      obtain ⟨kept, laterSpoken⟩ := ih (owns.update here (Channel.sendLoop_kind looped)) later
      refine ⟨kept, ?_⟩
      intro datagram member
      rcases List.mem_append.mp member with early | late
      · obtain ⟨kindIs, framed⟩ := spoken datagram early
        exact .data (by rw [framed.channel, known, kindIs]) framed.lower framed.upper framed.blocks
      · exact laterSpoken datagram late

/-- `ALTUSPeer::Send` passes over the numbers without a channel. -/
theorem HasDirectory.sendFrom_vacant {heap : WQHeap} {stack : U16 → Fin 16 → Memory} {cuids vacant : List U16}
    (outside : ∀ cuid ∈ vacant, role.directory cuid = none) (owns : HasDirectory role peer) :
    Peer.sendFrom heap stack (cuids ++ vacant) peer = Peer.sendFrom heap stack cuids peer := by
  induction cuids generalizing peer with
  | nil =>
      induction vacant with
      | nil => rfl
      | cons cuid rest ih =>
          have unused := outside cuid (List.mem_cons_self ..)
          rw [← owns cuid, Option.map_eq_none_iff] at unused
          have passes : Peer.sendFrom heap stack (cuid :: rest) peer = Peer.sendFrom heap stack rest peer := by
            rw [Peer.sendFrom, unused]
          rw [List.nil_append, passes]
          exact ih fun later member => outside later (List.mem_cons_of_mem _ member)
  | cons cuid rest ih =>
      rw [List.cons_append, Peer.sendFrom, Peer.sendFrom]
      split
      · exact ih owns
      · rename_i channel here
        split
        · rfl
        · rfl
        · rename_i looped
          rw [ih (owns.update here (Channel.sendLoop_kind looped))]

/-- Only four numbers name a channel that `ALTUSPeer::Send` could serve. -/
theorem HasDirectory.send_small {heap : WQHeap} {stack : U16 → Fin 16 → Memory} (owns : HasDirectory role peer) :
    peer.send heap stack = Peer.sendFrom heap stack [0, 1, 2, 3] peer := by
  have split : (List.range 65536).map (BitVec.ofNat 16) =
      ([0, 1, 2, 3] : List U16) ++ (List.range 65532).map fun index => BitVec.ofNat 16 (4 + index) := by
    rw [show 65536 = 4 + 65532 from rfl, List.range_add, List.map_append, List.map_map]
    rfl
  rw [Peer.send, split]
  refine owns.sendFrom_vacant fun cuid member => ?_
  obtain ⟨index, below, rfl⟩ := List.mem_map.mp member
  rw [List.mem_range] at below
  by_contra named
  obtain ⟨kind, known⟩ := Option.ne_none_iff_exists'.mp named
  have small := Role.directory_small known
  rw [BitVec.toNat_ofNat] at small
  omega

/-- The datagrams of a channel. -/
def ofChannel (cuid : U16) (sent : List Datagram) : List Datagram :=
  sent.filter fun datagram => ntohs (ofList datagram) 0 = cuid

/-- The part of `ALTUSPeer::Send` that belongs to one channel is its rounds. -/
theorem HasDirectory.sendFrom_at {heap : WQHeap} {stack : U16 → Fin 16 → Memory} (cuid : U16) {cuids : List U16}
    (once : cuids.Nodup) (owns : HasDirectory role peer)
    (performed : Peer.sendFrom heap stack cuids peer = .ok (code, sent, after)) :
    (cuid ∉ cuids → after.ch cuid = peer.ch cuid ∧ ofChannel cuid sent = []) ∧
      (cuid ∈ cuids → ∀ channel, peer.ch cuid = some channel → ∃ out changed,
        Channel.sendLoop heap cuid (List.ofFn (stack cuid)) channel = .ok (out, some changed) ∧
          after.ch cuid = some changed ∧ ofChannel cuid sent = out) := by
  induction cuids generalizing peer sent code with
  | nil =>
      cases performed
      exact ⟨fun _ => ⟨rfl, rfl⟩, fun member => absurd member List.not_mem_nil⟩
  | cons first rest ih =>
      obtain ⟨unlisted, once⟩ := List.nodup_cons.mp once
      rw [Peer.sendFrom] at performed
      split at performed
      · rename_i vacant
        obtain ⟨outside, inside⟩ := ih once owns performed
        refine ⟨fun absent => outside fun member => absent (List.mem_cons_of_mem _ member), fun member channel here => ?_⟩
        rcases List.mem_cons.mp member with rfl | later
        · rw [vacant] at here
          cases here
        · exact inside later channel here
      rename_i channel here
      have usual : channel.type = .rdtStream ∨ channel.isReceiving = true := Role.directory_usual (owns.kind here)
      split at performed
      · cases performed
      · rename_i looped
        obtain ⟨⟨final, impossible⟩, -⟩ := Channel.sendLoop_dataFrame heap first _ usual looped
        cases impossible
      rename_i now changed looped
      obtain ⟨-, framed⟩ := Channel.sendLoop_dataFrame heap first _ usual looped
      split at performed
      · cases performed
      rename_i later
      cases performed
      obtain ⟨outside, inside⟩ := ih once (owns.update here (Channel.sendLoop_kind looped)) later
      have split (more : List Datagram) : ofChannel cuid (now ++ more) = ofChannel cuid now ++ ofChannel cuid more :=
        List.filter_append ..
      by_cases own : cuid = first
      · subst own
        have whole : ofChannel cuid now = now := List.filter_eq_self.mpr fun datagram member =>
          decide_eq_true (framed datagram member).2.channel
        obtain ⟨same, none⟩ := outside unlisted
        refine ⟨fun absent => absurd (List.mem_cons_self ..) absent, fun _ other there => ?_⟩
        obtain rfl := Option.some.inj (here.symm.trans there)
        exact ⟨now, changed, looped, same.trans (Function.update_self ..), by rw [split, none, whole, List.append_nil]⟩
      · have foreign : ofChannel cuid now = [] := List.filter_eq_nil_iff.mpr fun datagram member same =>
          own ((of_decide_eq_true same).symm.trans (framed datagram member).2.channel)
        refine ⟨fun absent => ?_, fun member other there => ?_⟩
        · obtain ⟨same, none⟩ := outside fun member => absent (List.mem_cons_of_mem _ member)
          exact ⟨same.trans (Function.update_of_ne own _ _), by rw [split, foreign, none, List.append_nil]⟩
        · obtain ⟨out, final, performed, ends, spoken⟩ := inside ((List.mem_cons.mp member).resolve_left own) other
            ((Function.update_of_ne own _ _).trans there)
          exact ⟨out, final, performed, ends, by rw [split, foreign, spoken, List.nil_append]⟩

end Calls

end Peer

end Altus
