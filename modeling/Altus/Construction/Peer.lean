import Altus.Construction.Channel
import Altus.Library.Tables

namespace Altus

open Bytes WindowedQueue

/-- The bytes of one `sendto`. -/
abbrev Datagram := List Byte

/-- The address and the port of a `sockaddr_in`, both as they stand in it. -/
structure Address where
  ip : U32
  port : U16
deriving DecidableEq, Repr

/-- One peer, `ALTUSPeer`. Its map is a function from `cuid`. -/
structure Peer where
  ch : U16 → Option Channel
  lastcuid : U16
  remoteAddr : Address
  packetRate : Int
  publicKey : Block
  keySize : Int
  sessionKey : Block

namespace Channel

/-- `ALTUS_RDT_DATA_SIZE`. -/
abbrev rdtDataSize : U32 := 488#32

/-- The header that `ALTUSPeer::Send` writes over the bytes of its buffer. -/
def header (buf : Memory) (cuid : U16) (paddingLen : Byte) (nextSeq : U32) : Memory :=
  let buf := memcpy buf 0 (htons cuid) 2
  let buf := memcpy buf 2 (fun _ => paddingLen) 1
  let buf := memcpy buf 3 (fun _ => 1) 1
  memcpy buf 4 (htonl nextSeq) 4

/-- The bytes at a position that `altusWQPeek` answered. -/
def peeked (heap : WQHeap) (position : Ptr × U32) : Memory :=
  shift (heap.node position.1).data position.2.toNat

/-- The `memcpy` of peeked bytes behind the header. A null position comes with the length 0. -/
def copyPeeked (heap : WQHeap) (buf : Memory) (pos : Option (Ptr × U32)) (length : Nat) : Memory :=
  match pos with
  | none => buf
  | some position => memcpy buf 8 (peeked heap position) length

/-- One round of `ALTUSPeer::Send` on an `rdt_stream`: the datagram and the new `_IsUpdated`.
The bytes of `buf` are what the stack held. -/
def rdtPacket (heap : WQHeap) (window : WQWindow) (cuid : U16) (nextSeq : U32) (buf : Memory) :
    Except Fault (Datagram × Bool) :=
  let (available, pos) := altusWQPeek heap window nextSeq
  let availableLen := BitVec.ofInt 32 available
  if rdtDataSize ≤ availableLen then
    match pos with
    | none => .error .nullDereference
    | some position =>
        let buf := header buf cuid 0 nextSeq
        .ok (read (memcpy buf 8 (peeked heap position) 488) 496, true)
  else
    let (available2, pos2) := altusWQPeek heap window (nextSeq + availableLen)
    let sendingLen := availableLen + BitVec.ofInt 32 available2
    let sendingLen := if rdtDataSize < sendingLen then rdtDataSize else sendingLen
    let paddingLen := (496#32 - sendingLen - 8#32) % 16#32
    let buf := header buf cuid (paddingLen.setWidth 8) nextSeq
    let buf := copyPeeked heap buf pos availableLen.toNat
    match pos2 with
    | none => .ok (read buf (8 + sendingLen.toNat + paddingLen.toNat), false)
    | some position =>
        if 488 - availableLen.toNat < (sendingLen - availableLen).toNat then .error .outOfBounds
        else
          let buf := memcpy buf (8 + availableLen.toNat) (peeked heap position) (sendingLen - availableLen).toNat
          .ok (read buf (8 + sendingLen.toNat + paddingLen.toNat), true)

/-- The rounds of `ALTUSPeer::Send` on one channel. `none` in place of a channel is the answer -2. -/
def sendLoop (heap : WQHeap) (cuid : U16) : (stack : List Memory) → Channel →
    Except Fault (List Datagram × Option Channel)
  | [], channel => .ok ([], some channel)
  | buf :: stack, channel =>
      if ¬ channel.isUpdated then .ok ([], some channel)
      else if channel.isReceiving then sendLoop heap cuid stack channel
      else
        match channel.type with
        | .invalid => sendLoop heap cuid stack channel
        | .sharedStruct =>
            match channel.storage with
            | .storage memory =>
                match sendLoop heap cuid stack channel with
                | .error fault => .error fault
                | .ok (sent, next) => .ok (read memory channel.storageSize.toNat :: sent, next)
            | _ => .error .nullDereference
        | .rdtStream =>
            match channel.storage with
            | .buffer window =>
                match rdtPacket heap window cuid channel.nextSendSeq buf with
                | .error fault => .error fault
                | .ok (datagram, isUpdated) =>
                    match sendLoop heap cuid stack { channel with
                        nextSendSeq := channel.nextSendSeq + rdtDataSize
                        isUpdated := isUpdated } with
                    | .error fault => .error fault
                    | .ok (sent, next) => .ok (datagram :: sent, next)
            | _ => .error .nullDereference
        | _ => .ok ([], none)

/-- `ALTUSPeer::CreateUpstream` on the channel that it found. -/
def createUpstream (pools : Pools) (channel : Channel) (buf : Memory) (len : Int) :
    Except Fault (Int × Pools × Channel) :=
  if channel.type ≠ .rdtStream ∨ channel.isReceiving then .ok (-2, pools, channel)
  else
    match channel.storage with
    | .buffer window =>
        (put pools channel window window.lastSeq (BitVec.ofInt 32 len) buf).map fun (retval, pools, channel) =>
          (retval, pools, { channel with isUpdated := true })
    | _ => .error .nullDereference

/-- The acknowledgement of `ALTUSPeer::processPacket`. The assignment after the `if` wins. -/
def response (window : WQWindow) (buf : Memory) : Datagram :=
  let lostLen : U16 :=
    if window.ubList.count ≠ 0 then (window.ubList.headSeq 0 - window.lastSeq).setWidth 16 else 0
  read buf 2 ++ read (htons lostLen) 2 ++ read (htonl window.lastSeq) 4

/-- What `ALTUSPeer::processPacket` does once it has the answer of `channel::receive`. -/
def answer (buf : Memory) (code : Int) (pools : Pools) (thisChannel : Channel) :
    Except Fault (Int × List Datagram × Pools × Channel) :=
  if code = 0 then .ok (0, [], pools, thisChannel)
  else if code = 1 then
    match thisChannel.storage with
    | .buffer window => .ok (-1, [response window buf], pools, thisChannel)
    | _ => .error .nullDereference
  else .ok (-1, [], pools, thisChannel)

/-- `ALTUSPeer::processPacket` on the channel that it found. -/
def processPacket (pools : Pools) (thisChannel : Channel) (buf : Memory) (recvSize : Int) :
    Except Fault (Int × List Datagram × Pools × Channel) :=
  (thisChannel.receive pools buf recvSize).bind fun (code, pools, thisChannel) =>
    thisChannel.answer buf code pools

end Channel

namespace Peer

/-- The loop of `ALTUSPeer::newChannel` looks for an unused `cuid` from `newcuid` on. `none` is its answer -1. -/
def newChannelLoop (ch : U16 → Option Channel) (lastcuid : U16) : (rounds : Nat) → (newcuid : U16) →
    Except Fault (Option U16)
  | 0, _ => .error .unfinished
  | rounds + 1, newcuid =>
      match ch newcuid with
      | none => .ok (some newcuid)
      | some _ =>
          if newcuid + 1 = lastcuid then .ok none else newChannelLoop ch lastcuid rounds (newcuid + 1)

/-- `ALTUSPeer::newChannel` answers the new `cuid`, or -1. This constructor of `channel` throws nothing. -/
def newChannel (peer : Peer) (isReceiving : Bool) (lastAckedSeq : U32) : Except Fault (Int × Peer) :=
  let peer := { peer with lastcuid := peer.lastcuid + 1 }
  match newChannelLoop peer.ch peer.lastcuid 65536 peer.lastcuid with
  | .error fault => .error fault
  | .ok none => .ok (-1, peer)
  | .ok (some newcuid) =>
      .ok (newcuid.toNat, { peer with
        ch := Tables.insert peer.ch newcuid (Channel.channel isReceiving lastAckedSeq) })

/-- `ALTUSPeer::processPacket` answers its code and the datagrams that it sends. -/
def processPacket (pools : Pools) (peer : Peer) (buf : Memory) (recvSize : Int) :
    Except Fault (Int × List Datagram × Pools × Peer) :=
  let cuid := ntohs buf 0
  match peer.ch cuid with
  | none => .ok (-1, [], pools, peer)
  | some thisChannel =>
      (thisChannel.processPacket pools buf recvSize).map fun (code, sent, pools, thisChannel) =>
        (code, sent, pools, { peer with ch := Function.update peer.ch cuid (some thisChannel) })

/-- `ALTUSPeer::CreateUpstream`. -/
def createUpstream (pools : Pools) (peer : Peer) (cuid : U16) (buf : Memory) (len : Int) :
    Except Fault (Int × Pools × Peer) :=
  match peer.ch cuid with
  | none => .ok (-1, pools, peer)
  | some thisChannel =>
      (thisChannel.createUpstream pools buf len).map fun (retval, pools, thisChannel) =>
        (retval, pools, { peer with ch := Function.update peer.ch cuid (some thisChannel) })

/-- The loop of `ALTUSPeer::Send` over the channels in the order of their numbers. -/
def sendFrom (heap : WQHeap) (stack : U16 → Fin 16 → Memory) : List U16 → Peer →
    Except Fault (Int × List Datagram × Peer)
  | [], peer => .ok (0, [], peer)
  | cuid :: rest, peer =>
      match peer.ch cuid with
      | none => sendFrom heap stack rest peer
      | some channel =>
          match Channel.sendLoop heap cuid (List.ofFn (stack cuid)) channel with
          | .error fault => .error fault
          | .ok (sent, none) => .ok (-2, sent, peer)
          | .ok (sent, some channel) =>
              match sendFrom heap stack rest { peer with ch := Function.update peer.ch cuid (some channel) } with
              | .error fault => .error fault
              | .ok (code, later, peer) => .ok (code, sent ++ later, peer)

/-- `ALTUSPeer::Send`. The bytes of `stack` are what its buffers held in each round. -/
def send (heap : WQHeap) (stack : U16 → Fin 16 → Memory) (peer : Peer) : Except Fault (Int × List Datagram × Peer) :=
  sendFrom heap stack ((List.range 65536).map (BitVec.ofNat 16)) peer

end Peer

end Altus
