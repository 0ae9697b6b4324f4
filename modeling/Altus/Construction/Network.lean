import Altus.Construction.Host
import Altus.Library.Network

namespace Altus

open Bytes Network

/-- What happens between hosts. -/
inductive Note where
  /-- A caller of the host at `source` asks it to connect to `target`. -/
  | asked (source target : Address)
  /-- A datagram leaves `source` for `target`. -/
  | sent (source target : Address) (datagram : Datagram)
deriving DecidableEq

namespace Note

/-- `Listener` receives a datagram that was sent to its host, or nothing in time.
Behind the datagram the buffer may hold anything. -/
def Hears (log : List Note) (here : Address) : HostStep → Prop
  | .inbound remoteAddr buf recvSize _ _ => recvSize = -1 ∨ ∃ datagram, sent remoteAddr here datagram ∈ log ∧
      datagram.length ≤ 496 ∧ recvSize = datagram.length ∧ read buf datagram.length = datagram
  | _ => True

/-- What a step leaves in the log before its datagrams. -/
def asks (here : Address) : HostStep → List Note
  | .connect ip port _ _ _ _ => [asked here ⟨ip, networkPort port⟩]
  | _ => []

/-- The notes of a step. -/
def ofStep (here : Address) (step : HostStep) (messages : List Sent) : List Note :=
  asks here step ++ messages.map fun message => sent here message.1 message.2

end Note

/-- A network with a host at each address of a set. Any datagram may come from the other addresses. -/
def network (hosted : Address → Prop) : System Address Host Note where
  moves here log host notes next := hosted here ∧ ∃ step code messages,
    Note.Hears log here step ∧ host.step step = .ok (code, messages, next) ∧ notes = Note.ofStep here step messages
  outside note := ∃ source target datagram, ¬ hosted source ∧ note = .sent source target datagram

/-- The hosts before the first step. -/
def network.start (key : Address → Memory) (pools : Address → Pools) : Config Address Host Note :=
  ⟨fun here => Host.altusHost (key here) (pools here), []⟩

end Altus
