import Altus.Construction.WindowedQueue
import Altus.Construction.FileReceiveStream

namespace Altus

open Bytes WindowedQueue

/-- The kinds of channels, `channelType`. -/
inductive ChannelType where
  | invalid
  | sharedStruct
  | rdtStream
  | fileStream
  | lossyStream
  | sharedStructRcv
  | rdtStreamRcv
  | fileStreamRcv
  | lossyStreamRcv
deriving DecidableEq, Repr

/-- The union of `channel`: nothing, a file stream, a window or a shared struct. -/
inductive Storage where
  | null
  | frstream (stream : FileRcvStream)
  | buffer (window : WQWindow)
  | storage (memory : Memory)

/-- One channel, `channel`. -/
structure Channel where
  type : ChannelType
  isReceiving : Bool
  nextSendSeq : U32
  lastAckedSeq : U32
  lastLostLen : U16
  isUpdated : Bool
  storage : Storage
  storageSize : Int

/-- The nodes and the pools that the channels of a host share. -/
structure Pools where
  heap : WQHeap
  pool : WQNodePool
  nodes : NodeHeap
  newPool : NodePool

namespace Channel

/-- `ALTUS_RDT_HEADER_SIZE`. -/
abbrev rdtHeaderSize : Nat := 8

/-- `channel::channel` with a direction. It leaves `lastAckedSeq` as `new` left it. -/
def channel (isReceiver : Bool) (lastAckedSeq : U32) : Channel where
  type := .invalid
  isReceiving := isReceiver
  nextSendSeq := 0
  lastAckedSeq := lastAckedSeq
  lastLostLen := 0
  isUpdated := false
  storage := .null
  storageSize := 0

/-- `channel::channel` of the type `file_stream_rcv`. The size of the union's struct stays as it was. -/
def fileChannel (pools : Pools) (capacity : Nat) (storageSize : Int) : Pools × Channel :=
  let made := FileReceiveStream.fileRcvStream pools.nodes pools.newPool capacity
  ({ pools with nodes := made.heap, newPool := made.pool },
    { type := .fileStreamRcv
      isReceiving := true
      nextSendSeq := 0
      lastAckedSeq := 0
      lastLostLen := 0
      isUpdated := false
      storage := .frstream made.stream
      storageSize := storageSize })

/-- `channel::LinkRDTWindow`. -/
def linkRDTWindow (pools : Pools) (raw : WQWindow) (channel : Channel) : Pools × Channel :=
  let (window, heap) := altusNewWindow pools.heap raw
  ({ pools with heap := heap },
    { channel with
      storage := .buffer { window with lastSeq := 0, headSeq := 0 }
      type := .rdtStream })

/-- `altusWQPut` on the window of a channel. -/
def put (pools : Pools) (channel : Channel) (window : WQWindow) (seq length : U32) (data : Memory) :
    Except Fault (Int × Pools × Channel) :=
  (altusWQPut ⟨pools.heap, pools.pool, window⟩ seq length data).map fun (code, _, state) =>
    (code, { pools with heap := state.heap, pool := state.pool }, { channel with storage := .buffer state.window })

/-- A data datagram arrives at a receiving `rdt_stream`. The source asks `flags | ALTUS_FLAG_ACK`. -/
def receiveData (pools : Pools) (channel : Channel) (buf : Memory) (packetSize : Int) :
    Except Fault (Int × Pools × Channel) :=
  match channel.storage with
  | .buffer window =>
      let paddingLen := (buf 2).toNat
      let flags := buf 3
      let currentSeq := ntohl buf 4
      (put pools channel window currentSeq (BitVec.ofInt 32 (packetSize - rdtHeaderSize - paddingLen))
          (shift buf rdtHeaderSize)).map fun (_, pools, channel) =>
        (if flags ||| 1 ≠ 0 then 1 else 0, pools, channel)
  | _ => .error .nullDereference

/-- `altusWQPop` without a destination on the window of a channel, and the answer of the break behind it. -/
def pop (pools : Pools) (channel : Channel) (window : WQWindow) (length : Int) :
    Except Fault (Int × Int × Pools × Channel) :=
  (altusWQPop ⟨pools.heap, pools.pool, window⟩ length none).map fun (popped, _, state) =>
    (-1, popped, { pools with heap := state.heap, pool := state.pool },
      { channel with storage := .buffer state.window })

/-- An acknowledgement arrives at a sending `rdt_stream`. The second number is what `altusWQPop` answers. -/
def receiveAck (pools : Pools) (channel : Channel) (buf : Memory) : Except Fault (Int × Int × Pools × Channel) :=
  let lostLen := ntohs buf 2
  let seq := ntohl buf 4
  let deltaSeq := (seq - channel.lastAckedSeq).toInt
  if deltaSeq < 0 ∨ (channel.nextSendSeq - seq).toInt < 0 then .ok (0, 0, pools, channel)
  else if lostLen ≠ 0 then .ok (-1, 0, pools, channel)
  else
    match channel.storage with
    | .buffer window => pop pools channel window deltaSeq
    | _ => .error .nullDereference

/-- A datagram arrives at a `file_stream_rcv`, which drops the answer of `Append`. -/
def receiveFile (pools : Pools) (channel : Channel) (buf : Memory) (packetSize : Int) :
    Except Fault (Int × Pools × Channel) :=
  match channel.storage with
  | .frstream stream =>
      let paddingLen := (buf 2).toNat
      let currentSeq := ntohl buf 4
      match FileReceiveStream.append ⟨pools.nodes, pools.newPool, stream⟩ currentSeq
          (BitVec.ofInt 32 (packetSize - rdtHeaderSize - paddingLen)) (shift buf rdtHeaderSize) with
      | (.returned _, state) =>
          .ok (0, { pools with nodes := state.heap, newPool := state.pool },
            { channel with storage := .frstream state.stream })
      | (.threw message, _) => .error (.exception message)
      | (.faulted fault, _) => .error fault
  | _ => .error .nullDereference

/-- `channel::receive`. -/
def receive (pools : Pools) (channel : Channel) (buf : Memory) (packetSize : Int) :
    Except Fault (Int × Pools × Channel) :=
  if channel.isReceiving then
    match channel.type with
    | .invalid => .ok (-1, pools, channel)
    | .sharedStruct =>
        if packetSize < channel.storageSize then .ok (-1, pools, channel)
        else
          match channel.storage with
          | .storage memory =>
              .ok (0, pools, { channel with storage := .storage (memcpy memory 0 buf channel.storageSize.toNat) })
          | _ => .error .nullDereference
    | .rdtStream => receiveData pools channel buf packetSize
    | .lossyStream =>
        match channel.storage with
        | .buffer window =>
            (put pools channel window window.lastSeq (BitVec.ofInt 32 (packetSize / 16)) buf).map
              fun (_, pools, channel) => (0, pools, channel)
        | _ => .error .nullDereference
    | .fileStreamRcv => receiveFile pools channel buf packetSize
    | _ => .error .exit
  else
    match channel.type with
    | .rdtStream => (receiveAck pools channel buf).map fun (code, _, pools, channel) => (code, pools, channel)
    | _ => .ok (-1, pools, channel)

/-- `channel::~channel`. A window that was never linked ends the program in `altusFreeWQ`. -/
def destroy (pools : Pools) (channel : Channel) : Except Fault Pools :=
  match channel.type, channel.storage with
  | .rdtStream, .buffer window => (altusFreeWQ pools.heap window).map fun _ => pools
  | .rdtStreamRcv, .buffer window => (altusFreeWQ pools.heap window).map fun _ => pools
  | .rdtStream, _ => .error .exit
  | .rdtStreamRcv, _ => .error .exit
  | .fileStreamRcv, .frstream stream =>
      (FileReceiveStream.destroy pools.nodes pools.newPool stream).map fun (nodes, newPool) =>
        { pools with nodes := nodes, newPool := newPool }
  | .fileStreamRcv, _ => .error .nullDereference
  | _, _ => .ok pools

end Channel

end Altus
