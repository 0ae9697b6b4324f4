import Altus.Library.Tables
import Altus.Construction.PrePeer

namespace Altus

open Bytes Tables

/-- The key of an address in the maps of a host, `addrTo_uint64`. -/
def addrToUint64 (address : Address) : U64 := address.ip.setWidth 64 <<< 32 ||| address.port.setWidth 64

/-- The address that `addrport >> 32` and `addrport & 0xFFFF` unpack. -/
def addressOf (addrport : U64) : Address := ⟨(addrport >>> 32).setWidth 32, (addrport &&& 0xFFFF).setWidth 16⟩

/-- A port as `htons` puts it in a `sockaddr_in`. -/
def networkPort (port : U16) : U16 := port.extractLsb' 0 8 ++ port.extractLsb' 8 8

/-- The bytes of a string literal. -/
def ascii (text : String) : List Byte := text.toList.map fun letter => BitVec.ofNat 8 letter.toNat

/-- `strncmp` ends at its count, at the first difference or at a common end of the strings. -/
def strncmp : Memory → Memory → (count : Nat) → Int
  | _, _, 0 => 0
  | first, second, count + 1 =>
      if first 0 ≠ second 0 then (first 0).toNat - (second 0).toNat
      else if first 0 = 0 then 0
      else strncmp (shift first 1) (shift second 1) count

/-- One `sendto`. -/
abbrev Sent := Address × Datagram

/-- An entry of `RetryQuque`. -/
abbrev Retry := U32 × Ptr

/-- `Comparator::operator()`. -/
def comparator (a b : Retry) : Bool := 0 < (a.1 - b.1).toInt

/-- No entry of the queue stands before `entry`, as `std::priority_queue::top` promises. -/
def IsTop (queue : List Retry) (entry : Retry) : Prop :=
  entry ∈ queue ∧ ∀ other ∈ queue, comparator entry other = false

instance (queue : List Retry) (entry : Retry) : Decidable (IsTop queue entry) :=
  inferInstanceAs (Decidable (_ ∧ _))

/-- One host, `ALTUSHost`. `peer` and `cPrePeer` are the objects by address, and no address is used again. -/
structure Host where
  myPublicKey : Memory
  myPublicKeySize : Int
  peers : U64 → Option Ptr
  peidPeer : U32 → Option Ptr
  lastpeid : U32
  sPrePeers : U64 → Option SPrePeer
  cPrePeers : U64 → Option Ptr
  retryQueue : List Retry
  isAccepting : Bool
  pools : Pools
  peer : Ptr → Option Peer
  cPrePeer : Ptr → Option CPrePeer
  brk : Ptr

/-- What a call on a host answers: its code, the datagrams it sends and the host. -/
abbrev Answer := Except Fault (Int × List Sent × Host)

namespace Host

/-- `ALTUSHost::ALTUSHost` and `run`. Nothing writes the key of the host. -/
def altusHost (myPublicKey : Memory) (pools : Pools) : Host where
  myPublicKey := myPublicKey
  myPublicKeySize := 700
  peers := fun _ => none
  peidPeer := fun _ => none
  lastpeid := 0
  sPrePeers := fun _ => none
  cPrePeers := fun _ => none
  retryQueue := []
  isAccepting := true
  pools := pools
  peer := fun _ => none
  cPrePeer := fun _ => none
  brk := 0

/-- The loop that looks for a free peer number. -/
def searchPeid (used : U32 → Option Ptr) : (rounds : Nat) → (newpeid : U32) → Option U32
  | 0, _ => none
  | rounds + 1, newpeid =>
      match used newpeid with
      | some _ => searchPeid used rounds (newpeid + 1)
      | none => some newpeid

/-- The number of peer numbers. The loop does not end when all of them are used. -/
def peidRounds : Nat := 2 ^ 32

/-- A new peer enters both maps. -/
def register (host : Host) (addrport : U64) (dst : Peer) : Except Fault Host :=
  match searchPeid host.peidPeer peidRounds (host.lastpeid + 1) with
  | none => .error .unfinished
  | some newpeid =>
      .ok { host with
        peers := insert host.peers addrport host.brk
        peidPeer := insert host.peidPeer newpeid host.brk
        lastpeid := newpeid
        peer := Function.update host.peer host.brk (some dst)
        brk := host.brk + 1 }

/-- `ALTUSHost::prepeerToPeer`. -/
def prepeerToPeer (host : Host) (addrport : U64) (raw : Raw) : Except Fault Host :=
  match host.sPrePeers addrport with
  | none => .error .endDereference
  | some src =>
      if (host.peers addrport).isSome then .error .exit
      else
        let made := Peer.serverPeer host.pools src (addressOf addrport) raw
        (register { host with pools := made.1 } addrport made.2).map fun host =>
          { host with sPrePeers := erase host.sPrePeers addrport }

/-- The datagram of `ALTUSHost::sendAck`. -/
def ackDatagram : Datagram := ascii "ALTUS/1.0Y" ++ List.replicate 34 0

/-- `ALTUSHost::sendAck`. -/
def sendAck (host : Host) (addrport : U64) (prepeer : SPrePeer) : Answer :=
  .ok (0, [(addressOf addrport, ackDatagram)],
    { host with sPrePeers := Function.update host.sPrePeers addrport (some { prepeer with isAckSent := true }) })

/-- The functions that `ALTUSHost::accepter` calls on a prepeer: the promotion, the `memcpy` to its key and the `memset` of
its key. The code calls its own, which stand where the argument is left out. -/
structure Callees where
  promote : Host → U64 → Raw → Except Fault Host
  copy : Block → Nat → Memory → Int → Except Fault Block
  wipe : Block → Int → Except Fault Unit

/-- A prepeer older than `ALTUS_HANDSHAKE_WAITTIME` is deleted. -/
def dropTimedOut (host : Host) (addrport : U64) (currentTime : U32)
    (wipe : Block → Int → Except Fault Unit := Block.wipe) : Except Fault Host :=
  match host.sPrePeers addrport with
  | none => .ok host
  | some prepeer =>
      if 5000#32 < currentTime - prepeer.starttime then
        (prepeer.destroy wipe).map fun _ => { host with sPrePeers := erase host.sPrePeers addrport }
      else .ok host

/-- `ALTUSHost::accepter` on the first datagram of a handshake.
A key of one page is handed on before its prepeer is in the map. -/
def acceptFirst (host : Host) (addrport : U64) (buf : Memory) (size : Int) (currentTime : U32) (raw : Raw)
    (callees : Callees := ⟨prepeerToPeer, Block.copy, Block.wipe⟩) : Answer :=
  let keysize := ntohs buf 10
  if keysize < 128#16 then .ok (-3, [], host)
  else
    let newpeer := { SPrePeer.sPrePeer currentTime raw with keySize := keysize }
    match Page.ofByte (buf 9) with
    | none => (newpeer.destroy callees.wipe).map fun _ => (-3, [], host)
    | some page =>
        (newpeer.store page (shift buf 12) (size - 12) callees.copy).bind fun newpeer =>
          (if page = .a ∧ (keysize.toNat : Int) = size - 12 then callees.promote host addrport raw
            else .ok host).map fun host =>
              (1, [], { host with sPrePeers := insert host.sPrePeers addrport newpeer })

/-- The condition of `ALTUSHost::accepter` for an acknowledgement. -/
def ackDue (peer : SPrePeer) : Bool :=
  (peer.keySize.toNat < 968 && (peer.a || peer.b)) ||
    (peer.keySize.toNat < 1452 && (peer.a || peer.b || peer.c)) ||
    (peer.a && peer.b && peer.c && peer.d)

/-- A later datagram of a handshake stores its page. The copy starts at the header. -/
def storeLater (peer : SPrePeer) (buf : Memory) (size : Int)
    (copy : Block → Nat → Memory → Int → Except Fault Block := Block.copy) : Except Fault SPrePeer :=
  match Page.ofByte (buf 9) with
  | none => .ok peer
  | some page => peer.store page buf (size - 12) copy

/-- `ALTUSHost::accepter` on a later datagram of a handshake. The byte 90 is the page `Z`. -/
def acceptLater (host : Host) (addrport : U64) (peer : SPrePeer) (buf : Memory) (size : Int) (raw : Raw)
    (callees : Callees := ⟨prepeerToPeer, Block.copy, Block.wipe⟩) : Answer :=
  (storeLater peer buf size callees.copy).bind fun peer =>
    if buf 9 = 90 ∧ peer.isAckSent then (callees.promote host addrport raw).map fun host => (0, [], host)
    else if ackDue peer then sendAck host addrport peer
    else .ok (0, [], { host with sPrePeers := Function.update host.sPrePeers addrport (some peer) })

/-- `ALTUSHost::accepter`. -/
def accepter (host : Host) (addrport : U64) (buf : Memory) (size : Int) (currentTime : U32) (raw : Raw)
    (callees : Callees := ⟨prepeerToPeer, Block.copy, Block.wipe⟩) : Answer :=
  if size < 12 then .ok (-2, [], host)
  else if strncmp (ofList (ascii "ALTUS/")) buf 6 ≠ 0 then .ok (-2, [], host)
  else if strncmp (ofList (ascii "1.0")) (shift buf 6) 3 ≠ 0 then .ok (-1, [], host)
  else
    (host.dropTimedOut addrport currentTime callees.wipe).bind fun host =>
      match host.sPrePeers addrport with
      | none => host.acceptFirst addrport buf size currentTime raw callees
      | some peer => host.acceptLater addrport peer buf size raw callees

/-- `ALTUSHost::removePeer`. -/
def removePeer (host : Host) (peid : U32) : Answer :=
  match host.peidPeer peid with
  | none => .ok (-1, [], host)
  | some pointer =>
      match host.peer pointer with
      | none => .error .useAfterFree
      | some peer =>
          (peer.destroy host.pools).map fun pools =>
            (0, [], { host with
              pools := pools
              peers := erase host.peers (addrToUint64 peer.remoteAddr)
              peer := erase host.peer pointer
              peidPeer := erase host.peidPeer peid })

/-- One datagram of `ALTUSHost::SendHandShake1`. The length leaves out the header, and every page starts
with the first byte of the key. -/
def handShakePage (myPublicKey : Memory) (myPublicKeySize : Int) (page : Byte) (sendinglength : Nat) : Datagram :=
  let header := ascii "ALTUS/1.0" ++ page :: read (htons (BitVec.ofInt 16 myPublicKeySize)) 2
  read (memcpy (ofList header) 12 myPublicKey sendinglength) sendinglength

/-- The loop of `ALTUSHost::SendHandShake1`. -/
def handShakeLoop (myPublicKey : Memory) (myPublicKeySize : Int) :
    (rounds : Nat) → (sentLen : Int) → (page : Byte) → List Datagram
  | 0, _, _ => []
  | rounds + 1, sentLen, page =>
      if sentLen < myPublicKeySize then
        let sendinglength := min 484 (myPublicKeySize - sentLen)
        handShakePage myPublicKey myPublicKeySize page sendinglength.toNat ::
          handShakeLoop myPublicKey myPublicKeySize rounds (sentLen + sendinglength) (page + 1)
      else []

/-- The datagrams of `ALTUSHost::SendHandShake1`. Each round sends at least one byte of the key. -/
def handShake (myPublicKey : Memory) (myPublicKeySize : Int) : List Datagram :=
  handShakeLoop myPublicKey myPublicKeySize myPublicKeySize.toNat 0 65

/-- `ALTUSHost::SendHandShake1`. -/
def sendHandShake1 (host : Host) (addrport : U64) : List Sent :=
  match host.cPrePeers addrport with
  | none => []
  | some _ => (handShake host.myPublicKey host.myPublicKeySize).map fun datagram => (addressOf addrport, datagram)

/-- `ALTUSHost::connect`. -/
def connect (host : Host) (ip : U32) (port : U16) (serverkey : Memory) (keylen : Int) (starttime : U32)
    (raw : Raw) : Answer :=
  let address : Address := ⟨ip, networkPort port⟩
  let addrport := addrToUint64 address
  if (host.cPrePeers addrport).isSome then .ok (-1, [], host)
  else
    (CPrePeer.cPrePeer address serverkey keylen starttime raw).map fun newpeer =>
      let next := { host with
        cPrePeers := insert host.cPrePeers addrport host.brk
        cPrePeer := Function.update host.cPrePeer host.brk (some newpeer)
        retryQueue := host.retryQueue ++
          [(starttime + 1500, host.brk), (starttime + 3000, host.brk), (starttime + 4500, host.brk)]
        brk := host.brk + 1 }
      (0, next.sendHandShake1 addrport, next)

/-- What `ALTUSHost::Connecter` does with an entry between `top` and `pop`. -/
def retry (host : Host) (entry : Retry) : Answer :=
  match host.cPrePeer entry.2 with
  | none => .error .useAfterFree
  | some prepeer =>
      if prepeer.expired then .ok (0, [], host)
      else
        let addrport := addrToUint64 prepeer.remoteAddr
        if 4500 ≤ (entry.1 - prepeer.starttime).toInt then
          prepeer.destroy.map fun _ =>
            (0, [], { host with
              cPrePeers := erase host.cPrePeers addrport
              cPrePeer := erase host.cPrePeer entry.2 })
        else .ok (0, host.sendHandShake1 addrport, host)

/-- `RetryQuque.pop()` while `entry` is the top. -/
def popRetry (host : Host) (entry : Retry) : Host := { host with retryQueue := host.retryQueue.erase entry }

/-- One iteration of `ALTUSHost::Connecter` on the top of its queue. -/
def connecter (host : Host) (entry : Retry) : Answer :=
  (host.retry entry).map fun (code, sent, host) => (code, sent, host.popRetry entry)

/-- `ALTUSHost::popCPrePeer`. -/
def popCPrePeer (host : Host) (addrport : U64) : Option Ptr × Host :=
  match host.cPrePeers addrport with
  | none => (none, host)
  | some oldCPrePeer => (some oldCPrePeer, { host with cPrePeers := erase host.cPrePeers addrport })

/-- The check of `ALTUSHost::TryCompleteConnection` on a reply of 44 bytes. -/
def validReply (buf : Memory) (recvSize : Int) : Bool :=
  recvSize = 44 && strncmp buf (ofList (ascii "ALTUS/1.0Y\x00\x00")) 12 = 0

/-- `ALTUSHost::TryCompleteConnection` behind its checks, with a prepeer that left the map. -/
def complete (host : Host) (addrport : U64) (pointer : Ptr) (cprepeer : CPrePeer) (buf : Memory) (raw : Raw) :
    Answer :=
  (cprepeer.sessionKey.copy 0 (shift buf 12) 32).bind fun sessionKey =>
    let cprepeer := { cprepeer with expired := true, sessionKey := sessionKey }
    let host := { host with cPrePeer := Function.update host.cPrePeer pointer (some cprepeer) }
    if (host.peers addrport).isSome then .error .exit
    else
      let made := Peer.clientPeer host.pools cprepeer (addressOf addrport) raw
      (register { host with pools := made.1 } addrport made.2).map fun host =>
        (0, [(made.2.remoteAddr, ascii "ALTUS/1.0Z" ++ [0, 0])], host)

/-- `ALTUSHost::TryCompleteConnection`. -/
def tryCompleteConnection (host : Host) (addrport : U64) (buf : Memory) (recvSize : Int) (raw : Raw) : Answer :=
  match host.popCPrePeer addrport with
  | (none, host) => .ok (-1, [], host)
  | (some pointer, host) =>
      if ¬ validReply buf recvSize then .ok (-1, [], host)
      else
        match host.cPrePeer pointer with
        | none => .error .useAfterFree
        | some cprepeer => host.complete addrport pointer cprepeer buf raw

/-- `ALTUSPeer::processPacket` on the peer at an address. -/
def processPacket (host : Host) (pointer : Ptr) (buf : Memory) (recvSize : Int) : Answer :=
  match host.peer pointer with
  | none => .error .useAfterFree
  | some peer =>
      (peer.processPacket host.pools buf recvSize).map fun (code, sent, pools, next) =>
        (code, sent.map fun datagram => (peer.remoteAddr, datagram),
          { host with pools := pools, peer := Function.update host.peer pointer (some next) })

/-- One iteration of `ALTUSHost::Listener`. The buffer behind the datagram holds what earlier ones left. -/
def listener (host : Host) (remoteAddr : Address) (buf : Memory) (recvSize : Int) (currentTime : U32) (raw : Raw)
    (callees : Callees := ⟨prepeerToPeer, Block.copy, Block.wipe⟩) : Answer :=
  if recvSize = -1 then .ok (0, [], host)
  else
    let addrport := addrToUint64 remoteAddr
    match host.peers addrport, host.cPrePeers addrport with
    | some pointer, _ => host.processPacket pointer buf recvSize
    | none, some _ => host.tryCompleteConnection addrport buf recvSize raw
    | none, none =>
        if host.isAccepting then host.accepter addrport buf recvSize currentTime raw callees else .ok (0, [], host)

/-- `CreateUpstream` on the peer that `ALTUSHost::getPeerbyID` finds. -/
def createUpstream (host : Host) (peid : U32) (cuid : U16) (buf : Memory) (len : Int) : Answer :=
  match host.peidPeer peid with
  | none => .error .nullDereference
  | some pointer =>
      match host.peer pointer with
      | none => .error .useAfterFree
      | some peer =>
          (peer.createUpstream host.pools cuid buf len).map fun (code, pools, next) =>
            (code, [], { host with pools := pools, peer := Function.update host.peer pointer (some next) })

/-- `Send` on one of the peers over which `ALTUSHost::Sender` runs. -/
def sender (host : Host) (addrport : U64) (stack : U16 → Fin 16 → Memory) : Answer :=
  match host.peers addrport with
  | none => .ok (0, [], host)
  | some pointer =>
      match host.peer pointer with
      | none => .error .useAfterFree
      | some peer =>
          (peer.send host.pools.heap stack).map fun (code, sent, next) =>
            (code, sent.map fun datagram => (peer.remoteAddr, datagram),
              { host with peer := Function.update host.peer pointer (some next) })

end Host

/-- The steps of a host: a datagram arrives, a caller uses it, or one of its threads goes on. -/
inductive HostStep where
  | inbound (remoteAddr : Address) (buf : Memory) (recvSize : Int) (currentTime : U32) (raw : Raw)
  | connect (ip : U32) (port : U16) (serverkey : Memory) (keylen : Int) (starttime : U32) (raw : Raw)
  | connecter (entry : Retry)
  | removePeer (peid : U32)
  | createUpstream (peid : U32) (cuid : U16) (buf : Memory) (len : Int)
  | sender (addrport : U64) (stack : U16 → Fin 16 → Memory)
  | accepting (isAccepting : Bool)

namespace Host

/-- One step of a host. The thread `Connecter` takes no entry that is not the top. -/
def step (host : Host) : HostStep → Answer
  | .inbound remoteAddr buf recvSize currentTime raw => host.listener remoteAddr buf recvSize currentTime raw
  | .connect ip port serverkey keylen starttime raw => host.connect ip port serverkey keylen starttime raw
  | .connecter entry => if IsTop host.retryQueue entry then host.connecter entry else .ok (0, [], host)
  | .removePeer peid => host.removePeer peid
  | .createUpstream peid cuid buf len => host.createUpstream peid cuid buf len
  | .sender addrport stack => host.sender addrport stack
  | .accepting isAccepting => .ok (0, [], { host with isAccepting := isAccepting })

end Host

end Altus
