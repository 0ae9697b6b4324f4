import Altus.Proof.FileStream.Append
import Altus.Proof.Host.Run
import Altus.Proof.Window.Put

namespace Altus

open Bytes WindowedQueue

/-- Two contents of a buffer agree on the bytes of a datagram. -/
def SameBytes (size : Nat) (first second : Memory) : Prop := ∀ index < size, first index = second index

theorem SameBytes.shift {size : Nat} {first second : Memory} (same : SameBytes size first second) (offset : Nat) :
    SameBytes (size - offset) (Bytes.shift first offset) (Bytes.shift second offset) :=
  fun _ below => same _ (by omega)

theorem SameBytes.mono {size fewer : Nat} {first second : Memory} (same : SameBytes size first second)
    (inside : fewer ≤ size) : SameBytes fewer first second :=
  fun index below => same index (Nat.lt_of_lt_of_le below inside)

/-- The buffer begins with the bytes of the datagram. -/
theorem sameBytes_of_read {buf : Memory} {datagram : Datagram} (same : read buf datagram.length = datagram) :
    SameBytes datagram.length buf (ofList datagram) := by
  intro index inside
  rw [← same, ofList_read buf inside]

namespace FileReceiveStream

/-- The answers of `CheckUB` after which `Append` copies its block. -/
def Takes (stream : FileRcvStream) (seq length : U32) : Prop :=
  ¬ 0 < (stream.lastSeq - seq).toInt ∧ (checkUB stream seq length).1 ∉ [.full, .malicious, .overlap]

instance (stream : FileRcvStream) (seq length : U32) : Decidable (Takes stream seq length) :=
  inferInstanceAs (Decidable (_ ∧ _))

/-- `Append` reads no byte of a block that it does not take. -/
theorem append_refused {state : FileState} {seq length : U32} (refused : ¬ Takes state.stream seq length)
    (first second : Memory) : append state seq length first = append state seq length second := by
  unfold append
  dsimp only
  by_cases late : 0 < (state.stream.lastSeq - seq).toInt
  · rw [if_pos late, if_pos late]
  · have listed : (checkUB state.stream seq length).1 ∈ [.full, .malicious, .overlap] := by
      by_contra other
      exact refused ⟨late, other⟩
    rw [if_neg late, if_neg late]
    generalize (checkUB state.stream seq length).1 = message at listed
    simp only [List.mem_cons, List.not_mem_nil, or_false] at listed
    rcases listed with rfl | rfl | rfl <;> rfl

end FileReceiveStream

namespace Channel

/-- A data datagram has a whole header. If its block is taken, then its padding is a part of the datagram. -/
def Framed (takes : U32 → U32 → Prop) (buf : Memory) (size : Nat) : Prop :=
  8 ≤ size ∧ (takes (ntohl buf 4) (BitVec.ofInt 32 (size - rdtHeaderSize - (buf 2).toNat)) →
    rdtHeaderSize + (buf 2).toNat ≤ size)

instance (takes : U32 → U32 → Prop) [∀ seq length, Decidable (takes seq length)] (buf : Memory) (size : Nat) :
    Decidable (Framed takes buf size) :=
  inferInstanceAs (Decidable (_ ∧ (_ → _)))

/-- `channel::receive` only uses bytes of the datagram. -/
def ReadsOwn (channel : Channel) (buf : Memory) (size : Nat) : Prop :=
  match channel.isReceiving, channel.type, channel.storage with
  | true, .rdtStream, .buffer window => Framed (Accepts window) buf size
  | true, .fileStreamRcv, .frstream stream => Framed (FileReceiveStream.Takes stream) buf size
  | false, .rdtStream, _ => 8 ≤ size
  | _, _, _ => True

instance (channel : Channel) (buf : Memory) (size : Nat) : Decidable (channel.ReadsOwn buf size) := by
  unfold ReadsOwn
  split <;> infer_instance

section Receive

variable {channel : Channel} {first second : Memory} {size : Nat}

/-- The bytes behind the header of a datagram without its padding. -/
theorem SameBytes.payload (same : SameBytes size first second) (short : size ≤ 496)
    (inside : rdtHeaderSize + (first 2).toNat ≤ size) :
    ∀ index < (BitVec.ofInt 32 (size - rdtHeaderSize - (first 2).toNat)).toNat,
      shift first rdtHeaderSize index = shift second rdtHeaderSize index := by
  intro index below
  rw [BitVec.toNat_ofInt] at below
  exact same _ (by omega)

theorem put_congr (pools : Pools) (channel : Channel) (window : WQWindow) (seq : U32) {length : U32}
    (agree : ∀ index < length.toNat, first index = second index) :
    put pools channel window seq length first = put pools channel window seq length second := by
  rw [put, put, altusWQPut_congr _ seq agree]

theorem put_refused (pools : Pools) (channel : Channel) {window : WQWindow} {seq length : U32}
    (refused : ¬ Accepts window seq length) (first second : Memory) :
    put pools channel window seq length first = put pools channel window seq length second := by
  have closed : ¬ Accepts (WQState.mk pools.heap pools.pool window).window seq length := refused
  rw [put, put, altusWQPut_refused first closed, altusWQPut_refused second closed]

/-- A data datagram with a whole header. -/
theorem receiveData_congr (pools : Pools) {window : WQWindow} (stored : channel.storage = .buffer window)
    (framed : Framed (Accepts window) first size) (short : size ≤ 496) (same : SameBytes size first second) :
    receiveData pools channel first size = receiveData pools channel second size := by
  obtain ⟨whole, taken⟩ := framed
  have seqs : ntohl first 4 = ntohl second 4 := ntohl_congr fun index below => same _ (by omega)
  unfold receiveData
  rw [stored]
  dsimp only
  rw [← same 2 (by omega), ← same 3 (by omega), ← seqs]
  by_cases accepts : Accepts window (ntohl first 4) (BitVec.ofInt 32 (size - rdtHeaderSize - (first 2).toNat))
  · rw [put_congr pools channel window _ (SameBytes.payload same short (taken accepts))]
  · rw [put_refused pools channel accepts]

theorem receiveFile_congr (pools : Pools) {stream : FileRcvStream} (stored : channel.storage = .frstream stream)
    (framed : Framed (FileReceiveStream.Takes stream) first size) (short : size ≤ 496)
    (same : SameBytes size first second) :
    receiveFile pools channel first size = receiveFile pools channel second size := by
  obtain ⟨whole, taken⟩ := framed
  have seqs : ntohl first 4 = ntohl second 4 := ntohl_congr fun index below => same _ (by omega)
  have appended (state : FileState) (here : state.stream = stream) :
      FileReceiveStream.append state (ntohl first 4)
          (BitVec.ofInt 32 (size - rdtHeaderSize - (first 2).toNat)) (shift first rdtHeaderSize) =
        FileReceiveStream.append state (ntohl first 4)
          (BitVec.ofInt 32 (size - rdtHeaderSize - (first 2).toNat)) (shift second rdtHeaderSize) := by
    rw [← here] at taken
    by_cases takes : FileReceiveStream.Takes state.stream (ntohl first 4)
        (BitVec.ofInt 32 (size - rdtHeaderSize - (first 2).toNat))
    · exact FileReceiveStream.append_congr (SameBytes.payload same short (taken takes)) state _
    · exact FileReceiveStream.append_refused takes _ _
  unfold receiveFile
  rw [stored]
  dsimp only
  rw [← same 2 (by omega), ← seqs, appended _ rfl]

/-- An acknowledgement with a whole header. -/
theorem receiveAck_congr (pools : Pools) (channel : Channel) (whole : 8 ≤ size)
    (same : SameBytes size first second) : receiveAck pools channel first = receiveAck pools channel second := by
  have lengths : ntohs first 2 = ntohs second 2 := ntohs_congr fun index below => same _ (by omega)
  have seqs : ntohl first 4 = ntohl second 4 := ntohl_congr fun index below => same _ (by omega)
  rw [receiveAck, receiveAck, lengths, seqs]

theorem receive_congr (pools : Pools) (reads : channel.ReadsOwn first size) (short : size ≤ 496)
    (same : SameBytes size first second) : receive pools channel first size = receive pools channel second size := by
  unfold ReadsOwn at reads
  unfold receive
  cases receiving : channel.isReceiving with
  | false =>
      simp only [Bool.false_eq_true, if_false]
      cases kind : channel.type with
      | rdtStream =>
          simp only [receiving, kind] at reads
          rw [receiveAck_congr pools channel reads same]
      | _ => rfl
  | true =>
      simp only [if_true]
      cases kind : channel.type with
      | sharedStruct =>
          dsimp only
          split
          · rfl
          · rename_i enough
            cases channel.storage with
            | storage memory =>
                have copied : memcpy memory 0 first channel.storageSize.toNat =
                    memcpy memory 0 second channel.storageSize.toNat :=
                  memcpy_congr fun index below => same index (by omega)
                simp only [copied]
            | _ => rfl
      | rdtStream =>
          dsimp only
          cases stored : channel.storage with
          | buffer window =>
              simp only [receiving, kind, stored] at reads
              exact receiveData_congr pools stored reads short same
          | _ => simp only [receiveData, stored]
      | lossyStream =>
          dsimp only
          cases channel.storage with
          | buffer window =>
              have agree : ∀ index < (BitVec.ofInt 32 ((size : Int) / 16)).toNat, first index = second index := by
                intro index below
                rw [BitVec.toNat_ofInt] at below
                exact same index (by omega)
              dsimp only
              rw [put_congr pools channel window _ agree]
          | _ => rfl
      | fileStreamRcv =>
          dsimp only
          cases stored : channel.storage with
          | frstream stream =>
              simp only [receiving, kind, stored] at reads
              exact receiveFile_congr pools stored reads short same
          | _ => simp only [receiveFile, stored]
      | _ => rfl

/-- The acknowledgement repeats the first two bytes of the datagram. -/
theorem answer_congr (code : Int) (pools : Pools) (channel : Channel) (named : 2 ≤ size)
    (same : SameBytes size first second) : answer first code pools channel = answer second code pools channel := by
  have names : read first 2 = read second 2 := read_congr fun index below => same index (by omega)
  unfold answer response
  rw [names]

theorem processPacket_congr (pools : Pools) (reads : channel.ReadsOwn first size) (named : 2 ≤ size)
    (short : size ≤ 496) (same : SameBytes size first second) :
    processPacket pools channel first size = processPacket pools channel second size := by
  unfold processPacket
  rw [receive_congr pools reads short same]
  congr 1
  funext ⟨code, pools, channel⟩
  exact answer_congr code pools channel named same

end Receive

end Channel

/-- `ALTUSPeer::processPacket` only uses bytes of the datagram. -/
def Peer.ReadsOwn (peer : Peer) (buf : Memory) (size : Nat) : Prop :=
  2 ≤ size ∧ ∀ channel ∈ peer.ch (ntohs buf 0), channel.ReadsOwn buf size

instance (peer : Peer) (buf : Memory) (size : Nat) : Decidable (peer.ReadsOwn buf size) :=
  inferInstanceAs (Decidable (_ ∧ ∀ channel ∈ peer.ch (ntohs buf 0), channel.ReadsOwn buf size))

theorem Peer.processPacket_congr (pools : Pools) {peer : Peer} {first second : Memory} {size : Nat}
    (reads : peer.ReadsOwn first size) (short : size ≤ 496) (same : SameBytes size first second) :
    processPacket pools peer first size = processPacket pools peer second size := by
  obtain ⟨named, reads⟩ := reads
  have names : ntohs first 0 = ntohs second 0 := ntohs_congr fun index below => same _ (by omega)
  unfold processPacket
  dsimp only
  rw [← names]
  cases found : peer.ch (ntohs first 0) with
  | none => rfl
  | some channel =>
      dsimp only
      rw [Channel.processPacket_congr pools (reads channel found) named short same]

/-- `strncmp` only reads as many bytes as it counts. -/
theorem strncmp_congr {first second third fourth : Memory} {count : Nat} (left : SameBytes count first third)
    (right : SameBytes count second fourth) : strncmp first second count = strncmp third fourth count := by
  induction count generalizing first second third fourth with
  | zero => rfl
  | succ count ih =>
      have rest : strncmp (shift first 1) (shift second 1) count = strncmp (shift third 1) (shift fourth 1) count :=
        ih (left.shift 1) (right.shift 1)
      rw [strncmp, strncmp, left 0 (by omega), right 0 (by omega), rest]

theorem Block.copy_congr (block : Block) (offset : Nat) {first second : Memory} {length : Int}
    (same : SameBytes length.toNat first second) : block.copy offset first length = block.copy offset second length := by
  unfold copy
  rw [memcpy_congr same]

theorem SPrePeer.store_congr (prepeer : SPrePeer) (page : Page) {first second : Memory} {length : Int}
    (same : SameBytes length.toNat first second) : prepeer.store page first length = prepeer.store page second length := by
  rw [store, store, Block.copy_congr _ _ same]

namespace Host

section Handshake

variable {first second : Memory} {size : Nat}

/-- The bytes behind the header of a handshake datagram. -/
theorem SameBytes.key (same : SameBytes size first second) (whole : 12 ≤ size) :
    SameBytes ((size : Int) - 12).toNat (shift first 12) (shift second 12) := by
  rw [show ((size : Int) - 12).toNat = size - 12 by omega]
  exact same.shift 12

theorem acceptFirst_congr (host : Host) (addrport : U64) (currentTime : U32) (raw : Raw) (whole : 12 ≤ size)
    (same : SameBytes size first second) :
    host.acceptFirst addrport first size currentTime raw = host.acceptFirst addrport second size currentTime raw := by
  have sizes : ntohs first 10 = ntohs second 10 := ntohs_congr fun index below => same _ (by omega)
  unfold acceptFirst
  rw [sizes, same 9 (by omega)]
  simp only [SPrePeer.store_congr _ _ (SameBytes.key same whole)]

theorem storeLater_congr (peer : SPrePeer) (whole : 12 ≤ size) (same : SameBytes size first second) :
    storeLater peer first size = storeLater peer second size := by
  have pages : SameBytes ((size : Int) - 12).toNat first second := same.mono (by omega)
  unfold storeLater
  rw [same 9 (by omega)]
  simp only [SPrePeer.store_congr _ _ pages]

/-- `accepter` checks that the datagram has a whole header. -/
theorem accepter_congr (host : Host) (addrport : U64) (currentTime : U32) (raw : Raw)
    (same : SameBytes size first second) :
    host.accepter addrport first size currentTime raw = host.accepter addrport second size currentTime raw := by
  unfold accepter
  by_cases short : (size : Int) < 12
  · rw [if_pos short, if_pos short]
  · have whole : 12 ≤ size := by omega
    have names : strncmp (ofList (ascii "ALTUS/")) first 6 = strncmp (ofList (ascii "ALTUS/")) second 6 :=
      strncmp_congr (fun _ _ => rfl) (same.mono (by omega))
    have versions : strncmp (ofList (ascii "1.0")) (shift first 6) 3 = strncmp (ofList (ascii "1.0")) (shift second 6) 3 :=
      strncmp_congr (fun _ _ => rfl) ((same.shift 6).mono (by omega))
    have later (host : Host) (peer : SPrePeer) :
        host.acceptLater addrport peer first size raw = host.acceptLater addrport peer second size raw := by
      rw [acceptLater, acceptLater, storeLater_congr peer whole same, same 9 (by omega)]
    simp only [names, versions, acceptFirst_congr _ addrport currentTime raw whole same, later]

/-- `TryCompleteConnection` checks the size of the reply. -/
theorem tryCompleteConnection_congr (host : Host) (addrport : U64) (raw : Raw) (same : SameBytes size first second) :
    host.tryCompleteConnection addrport first size raw = host.tryCompleteConnection addrport second size raw := by
  unfold tryCompleteConnection
  by_cases whole : size = 44
  · subst whole
    have valid : validReply first (44 : Nat) = validReply second (44 : Nat) := by
      unfold validReply
      rw [strncmp_congr (same.mono (by omega)) fun _ _ => rfl]
    have completed (host : Host) (pointer : Ptr) (cprepeer : CPrePeer) :
        host.complete addrport pointer cprepeer first raw = host.complete addrport pointer cprepeer second raw := by
      have keys : SameBytes (32 : Int).toNat (shift first 12) (shift second 12) := same.shift 12
      rw [complete, complete, Block.copy_congr _ _ keys]
    simp only [valid, completed]
  · have invalid (buf : Memory) : validReply buf size = false := by
      unfold validReply
      rw [decide_eq_false (by omega), Bool.false_and]
    simp only [invalid, Bool.false_eq_true, not_false_eq_true, if_true]

end Handshake

/-- An iteration of `Listener` only uses bytes of the datagram. Only `processPacket` does not check its size. -/
def ReadsOwn (host : Host) (remoteAddr : Address) (buf : Memory) (size : Nat) : Prop :=
  ∀ pointer ∈ host.peers (addrToUint64 remoteAddr), ∀ peer ∈ host.peer pointer, peer.ReadsOwn buf size

instance (host : Host) (remoteAddr : Address) (buf : Memory) (size : Nat) :
    Decidable (host.ReadsOwn remoteAddr buf size) :=
  inferInstanceAs (Decidable (∀ pointer ∈ host.peers _, ∀ peer ∈ host.peer pointer, peer.ReadsOwn buf size))

theorem listener_congr {host : Host} {remoteAddr : Address} {first second : Memory} {size : Nat}
    (reads : host.ReadsOwn remoteAddr first size) (short : size ≤ 496) (same : SameBytes size first second)
    (currentTime : U32) (raw : Raw) :
    host.listener remoteAddr first size currentTime raw = host.listener remoteAddr second size currentTime raw := by
  have received : ¬ (size : Int) = -1 := by omega
  unfold listener
  dsimp only
  rw [if_neg received, if_neg received]
  cases found : host.peers (addrToUint64 remoteAddr) with
  | some pointer =>
      dsimp only
      unfold processPacket
      cases here : host.peer pointer with
      | none => rfl
      | some peer =>
          dsimp only
          rw [Peer.processPacket_congr host.pools (reads pointer found peer here) short same]
  | none =>
      cases host.cPrePeers (addrToUint64 remoteAddr) with
      | some pointer => exact tryCompleteConnection_congr host _ raw same
      | none =>
          dsimp only
          rw [accepter_congr host _ currentTime raw same]

end Host

/-- The bytes that an iteration of `Listener` uses are bytes of its datagram, if it received one. -/
def HostStep.ReadsOwn (host : Host) : HostStep → Prop
  | .inbound remoteAddr buf recvSize _ _ =>
      recvSize = -1 ∨ 0 ≤ recvSize ∧ recvSize ≤ 496 ∧ host.ReadsOwn remoteAddr buf recvSize.toNat
  | _ => True

instance (host : Host) (step : HostStep) : Decidable (step.ReadsOwn host) := by
  cases step <;> unfold HostStep.ReadsOwn <;> infer_instance

/-- Two steps that differ in what earlier datagrams left behind the datagram of an iteration. -/
inductive SameDatagram : HostStep → HostStep → Prop where
  | inbound (remoteAddr : Address) {first second : Memory} {recvSize : Int} (currentTime : U32) (raw : Raw)
      (same : SameBytes recvSize.toNat first second) :
      SameDatagram (.inbound remoteAddr first recvSize currentTime raw)
        (.inbound remoteAddr second recvSize currentTime raw)
  | other (step : HostStep) : SameDatagram step step

namespace Host

/-- Every iteration of `Listener` in a run only uses bytes of its datagram. -/
def RunReadsOwn (host : Host) : List HostStep → Prop
  | [] => True
  | step :: rest =>
      step.ReadsOwn host ∧
        match host.step step with
        | .error _ => True
        | .ok (_, _, next) => next.RunReadsOwn rest

instance decidableRunReadsOwn : (steps : List HostStep) → (host : Host) → Decidable (host.RunReadsOwn steps)
  | [], _ => isTrue trivial
  | step :: rest, host => by
      have later := decidableRunReadsOwn rest
      unfold RunReadsOwn
      refine @instDecidableAnd _ _ inferInstance ?_
      split <;> infer_instance

theorem step_congr {host : Host} {step other : HostStep} (reads : step.ReadsOwn host)
    (same : SameDatagram step other) : host.step step = host.step other := by
  cases same with
  | inbound remoteAddr currentTime raw same =>
      rename_i first second recvSize
      rcases reads with failed | ⟨positive, short, reads⟩
      · subst failed
        rfl
      · obtain ⟨size, rfl⟩ := Int.eq_ofNat_of_zero_le positive
        exact listener_congr reads (by omega) same currentTime raw
  | other step => rfl

/-- What earlier datagrams left in the buffer of `Listener` changes no answer, no datagram and no state of a run. -/
theorem run_ownBytes {host : Host} {steps others : List HostStep} (reads : host.RunReadsOwn steps)
    (same : List.Forall₂ SameDatagram steps others) : host.answers steps = host.answers others := by
  induction same generalizing host with
  | nil => rfl
  | cons step rest ih =>
      rename_i first second steps others
      obtain ⟨here, later⟩ := reads
      rw [answers, answers, ← step_congr here step]
      cases stepped : host.step first with
      | error fault => rfl
      | ok answer =>
          obtain ⟨code, sent, next⟩ := answer
          rw [stepped] at later
          dsimp only
          rw [ih later]

/-- The datagrams with which the host at an address becomes a peer. -/
def handshakeSteps (remoteAddr : Address) : List HostStep :=
  [.inbound remoteAddr (ofList (ascii "ALTUS/1.0A" ++ [2, 188])) 496 0 blankRaw,
    .inbound remoteAddr (ofList (ascii "ALTUS/1.0B" ++ [2, 188])) 228 0 blankRaw,
    .inbound remoteAddr (ofList (ascii "ALTUS/1.0Z")) 12 0 blankRaw]

/-- What the steps of a run send. -/
def sends (host : Host) (steps : List HostStep) : List (List Sent) :=
  (host.answers steps).map fun answer =>
    match answer with
    | .error _ => []
    | .ok (_, sent, _) => sent

/-- A data datagram of sixteen bytes after a handshake. -/
theorem run_ownBytes_sixteen :
    blank.answers (handshakeSteps ⟨1, 2⟩ ++ [.inbound ⟨1, 2⟩ (fun _ => 0) 24 0 blankRaw]) =
      blank.answers (handshakeSteps ⟨1, 2⟩ ++
        [.inbound ⟨1, 2⟩ (fun index => if index < 24 then 0 else 7) 24 0 blankRaw]) := by
  apply run_ownBytes
  · decide +kernel
  · repeat apply List.Forall₂.cons (SameDatagram.other _)
    apply List.Forall₂.cons _ List.Forall₂.nil
    apply SameDatagram.inbound
    intro index below
    have inside : index < 24 := below
    simp [inside]

/-- An empty datagram from a peer is answered when the bytes before it named a receiving channel. -/
theorem empty_datagram_leaks :
    blank.sends (handshakeSteps ⟨1, 2⟩ ++ [.inbound ⟨1, 2⟩ (fun _ => 0) 0 0 blankRaw]) ≠
      blank.sends (handshakeSteps ⟨1, 2⟩ ++ [.inbound ⟨1, 2⟩ (fun _ => 9) 0 0 blankRaw]) := by
  decide +kernel

end Host

end Altus
