import Altus.Construction.Host

namespace Altus

open Bytes WindowedQueue

namespace Channel

/-- The window whose nodes `channel::~channel` frees. -/
def window (channel : Channel) : Option WQWindow :=
  match channel.type, channel.storage with
  | .rdtStream, .buffer window => some window
  | .rdtStreamRcv, .buffer window => some window
  | _, _ => none

end Channel

/-- The nodes that `ALTUSPeer::~ALTUSPeer` frees, channel by channel. -/
def Peer.freed (heap : WQHeap) (peer : Peer) : List Ptr :=
  ((List.range 65536).map (BitVec.ofNat 16)).flatMap fun cuid =>
    ((peer.ch cuid).bind Channel.window).elim [] (nodesOf heap)

namespace Host

/-- The window of a channel, by the address of its peer and its number. -/
def windowAt (host : Host) (place : Ptr × U16) : Option WQWindow :=
  (host.peer place.1).bind fun peer => (peer.ch place.2).bind Channel.window

/-- The peer that a map lists under a key. -/
def listed {κ : Type} (host : Host) (table : κ → Option Ptr) (key : κ) : Option Peer := (table key).bind host.peer

/-- The nodes that the loop of `ALTUSHost::~ALTUSHost` over the peers frees. -/
def freed (host : Host) (order : List U64) : List Ptr :=
  order.flatMap fun addrport => (host.listed host.peers addrport).elim [] (Peer.freed host.pools.heap)

end Host

namespace HostStep

/-- The channel that a step calls, by the address of its peer and its number. -/
def place (host : Host) : HostStep → Option (Ptr × U16)
  | .inbound remoteAddr buf _ _ _ => (host.peers (addrToUint64 remoteAddr)).map fun pointer => (pointer, ntohs buf 0)
  | .createUpstream peid cuid _ _ => (host.peidPeer peid).map fun pointer => (pointer, cuid)
  | _ => none

/-- The nodes that a step frees. -/
def freed (host : Host) : HostStep → List Ptr
  | .removePeer peid => (host.listed host.peidPeer peid).elim [] (Peer.freed host.pools.heap)
  | _ => []

end HostStep

end Altus
