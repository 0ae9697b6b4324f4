import Altus.Construction.Host
import Altus.Proof.FileStream.Owners
import Altus.Proof.Window.Initial

namespace Altus

open Bytes WindowedQueue

/-- A connection's memory before the constructors write to it. -/
def blankRaw : Raw where
  publicKey := fun _ => 0
  sessionKey := fun _ => 0
  window := fun _ => blankWindow
  lastAckedSeq := fun _ => 0
  capacity := 0
  storageSize := 0

namespace Host

/-- A host that runs and has met no other one. -/
def blank : Host :=
  let (pool, heap) := altusWQNewNodePool blankHeap
  altusHost (fun _ => 0) ⟨heap, pool, blankNodes, NodePool.empty⟩

/-- A datagram of a handshake in front of zeros. -/
def handshakeOf (letter : Byte) (keysize : U16) : Memory :=
  ofList (ascii "ALTUS/1.0" ++ letter :: read (htons keysize) 2)

/-- One step after another, up to the first fault. -/
def answers (host : Host) : List HostStep → List Answer
  | [] => []
  | step :: rest =>
      match host.step step with
      | .error fault => [.error fault]
      | .ok (code, sent, next) => .ok (code, sent, next) :: next.answers rest

end Host

end Altus
