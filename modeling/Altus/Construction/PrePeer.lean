import Altus.Construction.Peer

namespace Altus

open Bytes WindowedQueue

/-- What `malloc` and `new` leave in the memory that the constructors do not write. -/
structure Raw where
  publicKey : Memory
  sessionKey : Memory
  window : Fin 3 → WQWindow
  lastAckedSeq : Fin 3 → U32
  capacity : Nat
  storageSize : Int

/-- A connection that this host asked for, `ALTUS_CPrePeer`. -/
structure CPrePeer where
  expired : Bool
  remoteAddr : Address
  publicKey : Block
  keySize : U16
  sessionKey : Block
  starttime : U32

namespace CPrePeer

/-- `ALTUS_CPrePeer::ALTUS_CPrePeer`. No `malloc` serves a negative length. -/
def cPrePeer (remoteAddr : Address) (serverkey : Memory) (keylen : Int) (starttime : U32) (raw : Raw) :
    Except Fault CPrePeer :=
  if keylen < 0 then .error (.exception "bad allocation")
  else
    .ok { expired := false
          remoteAddr := remoteAddr
          publicKey := ⟨keylen.toNat, memcpy raw.publicKey 0 serverkey keylen.toNat⟩
          keySize := BitVec.ofInt 16 keylen
          sessionKey := ⟨32, raw.sessionKey⟩
          starttime := starttime }

/-- `ALTUS_CPrePeer::~ALTUS_CPrePeer` on a prepeer that still has its keys. -/
def destroy (prepeer : CPrePeer) : Except Fault Unit :=
  (prepeer.publicKey.wipe prepeer.keySize.toNat).bind fun _ => prepeer.sessionKey.wipe 32

end CPrePeer

/-- The pages of a public key. -/
inductive Page where
  | a
  | b
  | c
  | d
deriving DecidableEq, Repr

namespace Page

/-- The page that the tenth byte of a handshake datagram names. -/
def ofByte (byte : Byte) : Option Page :=
  if byte = 65 then some .a
  else if byte = 66 then some .b
  else if byte = 67 then some .c
  else if byte = 68 then some .d
  else none

/-- The place of a page in the key, in steps of `ALTUS_PACKET_SIZE - ALTUS_HANDSHAKE_HEADER_SIZE`. -/
def offset : Page → Nat
  | .a => 0
  | .b => 484
  | .c => 968
  | .d => 1452

end Page

/-- A connection that another host asked for, `ALTUS_SPrePeer`. -/
structure SPrePeer where
  publicKey : Block
  keySize : U16
  sessionKey : Block
  starttime : U32
  a : Bool
  b : Bool
  c : Bool
  d : Bool
  isAckSent : Bool

namespace SPrePeer

/-- `ALTUS_SPrePeer::ALTUS_SPrePeer` with a key of `ALTUS_RSA_KEY_SIZE` bytes. -/
def sPrePeer (starttime : U32) (raw : Raw) : SPrePeer where
  publicKey := ⟨700, raw.publicKey⟩
  keySize := 0
  sessionKey := ⟨32, raw.sessionKey⟩
  starttime := starttime
  a := false
  b := false
  c := false
  d := false
  isAckSent := false

/-- `ALTUS_SPrePeer::~ALTUS_SPrePeer` on a prepeer that still has its keys. -/
def destroy (prepeer : SPrePeer) (wipe : Block → Int → Except Fault Unit := Block.wipe) : Except Fault Unit :=
  (wipe prepeer.publicKey prepeer.keySize.toNat).bind fun _ => prepeer.sessionKey.wipe 32

/-- The flag of a page. -/
def mark (prepeer : SPrePeer) : Page → SPrePeer
  | .a => { prepeer with a := true }
  | .b => { prepeer with b := true }
  | .c => { prepeer with c := true }
  | .d => { prepeer with d := true }

/-- One page arrives: the `memcpy` to its place in the key, and its flag. -/
def store (prepeer : SPrePeer) (page : Page) (source : Memory) (length : Int)
    (copy : Block → Nat → Memory → Int → Except Fault Block := Block.copy) : Except Fault SPrePeer :=
  (copy prepeer.publicKey page.offset source length).map fun publicKey =>
    { prepeer with publicKey := publicKey }.mark page

end SPrePeer

namespace Peer

/-- A linked `rdt_stream`, as the constructors of `ALTUSPeer` make it. -/
def linked (pools : Pools) (isReceiver : Bool) (raw : Raw) (index : Fin 3) : Pools × Channel :=
  Channel.linkRDTWindow pools (raw.window index) (Channel.channel isReceiver (raw.lastAckedSeq index))

/-- The four first channels of a peer. -/
def channels (first second third fourth : Channel) : U16 → Option Channel := fun cuid =>
  if cuid = 0 then some first
  else if cuid = 1 then some second
  else if cuid = 2 then some third
  else if cuid = 3 then some fourth
  else none

/-- `ALTUSPeer::ALTUSPeer` on the server's side. The keys of the prepeer move to the peer. -/
def serverPeer (pools : Pools) (prepeer : SPrePeer) (remoteAddr : Address) (raw : Raw) : Pools × Peer :=
  let (pools, receivingCH) := linked pools true raw 0
  let (pools, sendingCH) := linked pools false raw 1
  let (pools, fileSenderCH) := linked pools false raw 2
  let (pools, fileCH) := Channel.fileChannel pools raw.capacity raw.storageSize
  (pools,
    { ch := channels receivingCH sendingCH fileCH fileSenderCH
      lastcuid := 1
      remoteAddr := remoteAddr
      packetRate := 0
      publicKey := prepeer.publicKey
      keySize := prepeer.keySize.toNat
      sessionKey := prepeer.sessionKey })

/-- `ALTUSPeer::ALTUSPeer` on the client's side. The keys of the prepeer move to the peer. -/
def clientPeer (pools : Pools) (prepeer : CPrePeer) (remoteAddr : Address) (raw : Raw) : Pools × Peer :=
  let (pools, sendingCH) := linked pools false raw 0
  let (pools, receivingCH) := linked pools true raw 1
  let (pools, fileSenderCH) := linked pools false raw 2
  let (pools, fileCH) := Channel.fileChannel pools raw.capacity raw.storageSize
  (pools,
    { ch := channels sendingCH receivingCH fileSenderCH fileCH
      lastcuid := 1
      remoteAddr := remoteAddr
      packetRate := 0
      publicKey := prepeer.publicKey
      keySize := prepeer.keySize.toNat
      sessionKey := prepeer.sessionKey })

/-- The loop of `ALTUSPeer::~ALTUSPeer` over the channels in the order of their numbers. -/
def destroyFrom (peer : Peer) : List U16 → Pools → Except Fault Pools
  | [], pools => .ok pools
  | cuid :: rest, pools =>
      match peer.ch cuid with
      | none => destroyFrom peer rest pools
      | some channel => (channel.destroy pools).bind (destroyFrom peer rest)

/-- `ALTUSPeer::~ALTUSPeer`. -/
def destroy (pools : Pools) (peer : Peer) : Except Fault Pools :=
  (peer.publicKey.wipe peer.keySize).bind fun _ =>
    (peer.sessionKey.wipe 32).bind fun _ =>
      peer.destroyFrom ((List.range 65536).map (BitVec.ofNat 16)) pools

end Peer

end Altus
