import Altus.Construction.NodeBase

namespace Altus

open Bytes

/-- The answers of `CheckUB`, `UBM`. -/
inductive UBM where
  | full
  | malicious
  | overlap
  | extended
  | added
  | onSeq
  | merging
deriving DecidableEq, Repr

/-- One file stream, `FileRcvStream`, with the bytes of its temporary file and the capacity of its vector. -/
structure FileRcvStream where
  head : Ptr
  tail : Ptr
  nodeCount : Int
  headSeq : U32
  headByteCount : U16
  ubList : List (U32 × U32)
  capacity : Nat
  lastSeq : U32
  unSeqLen : U32
  file : List Byte

/-- What the functions of one stream read and change. -/
structure FileState where
  heap : NodeHeap
  pool : NodePool
  stream : FileRcvStream

/-- How a call on a stream ends. -/
inductive Outcome where
  | returned (code : Int)
  | threw (message : String)
  | faulted (fault : Fault)
deriving DecidableEq, Repr

/-- A part of a call goes on in a state, or faults in one. -/
abbrev Part := Except (Fault × FileState) FileState

namespace FileReceiveStream

/-- `ALTUS_DEFAULT_MAX_NODE_COUNT * ALTUS_NODE_SIZE`. -/
abbrev maxSpan : U32 := 0x4000000#32

/-- `FileRcvStream::FileRcvStream`. The temporary file is created empty, and `reserve(8)` yields `capacity`. -/
def fileRcvStream (heap : NodeHeap) (pool : NodePool) (capacity : Nat) : FileState :=
  let (popped, pool) := pool.pop heap
  let (head, heap) := match popped with
    | some head => (head, heap)
    | none => heap.newNode
  { heap := heap
    pool := pool
    stream :=
      { head := head
        tail := head
        nodeCount := 0
        headSeq := 0
        headByteCount := 0
        ubList := []
        capacity := capacity
        lastSeq := 0
        unSeqLen := 0
        file := [] } }

/-- The loop of `FileRcvStream::~FileRcvStream` pushes the nodes of the chain. -/
def destroyLoop : (rounds : Nat) → NodeHeap → NodePool → (currentNode : Option Ptr) →
    Except Fault (NodeHeap × NodePool)
  | _, heap, pool, none => .ok (heap, pool)
  | 0, _, _, some _ => .error .unfinished
  | rounds + 1, heap, pool, some oldNode =>
      match pool.push heap oldNode with
      | .error fault => .error fault
      | .ok (next, pool) => destroyLoop rounds next pool (heap.node oldNode).toTail

/-- `FileRcvStream::~FileRcvStream`. A chain without a cycle has at most `brk` nodes. -/
def destroy (heap : NodeHeap) (pool : NodePool) (stream : FileRcvStream) : Except Fault (NodeHeap × NodePool) :=
  destroyLoop heap.brk heap pool (some stream.head)

/-- The macro `NewNode` links a node behind `tail`, which stays. -/
def newNode (state : FileState) : FileState :=
  let (popped, pool) := state.pool.pop state.heap
  let (node, heap) := match popped with
    | some node => (node, state.heap)
    | none => state.heap.newNode
  { heap := heap.modify state.stream.tail fun cell => { cell with toTail := some node }
    pool := pool
    stream := { state.stream with nodeCount := state.stream.nodeCount + 1 } }

/-- A `memcpy` of a call on a stream. -/
def copyTo (state : FileState) (target : Option Ptr) (offset : Int) (source : Memory) (length : U32) : Part :=
  match state.heap.copyTo target offset source length with
  | .error fault => .error (fault, state)
  | .ok heap => .ok { state with heap := heap }

/-- `FileRcvStream::FlushNode`, when `WriteFile` writes all requested bytes.
The code follows a null `head` at its next use, the model here. -/
def flushNode (state : FileState) : Part :=
  let stream := state.stream
  let file := stream.file ++ read (state.heap.node stream.head).data nodeSize
  if stream.head = stream.tail then
    .ok { state with stream := { stream with
      file := file, headSeq := stream.headSeq + nodeSpan, headByteCount := 0 } }
  else
    match (state.heap.node stream.head).toTail with
    | none => .error (.nullDereference, { state with stream := { stream with file := file } })
    | some head =>
        match state.pool.push state.heap stream.head with
        | .error fault => .error (fault, { state with stream := { stream with file := file } })
        | .ok (heap, pool) =>
            .ok { heap := heap
                  pool := pool
                  stream := { stream with
                    file := file
                    head := head
                    nodeCount := stream.nodeCount - 1
                    headSeq := stream.headSeq + nodeSpan } }

/-- The loop of `FileRcvStream::CheckUB` over the entries from one on, in a vector of `size` entries. -/
def checkUBFrom (headSeq : U32) (capacity size : Nat) (seq length : U32) :
    List (U32 × U32) → UBM × List (U32 × U32)
  | [] =>
      if size < capacity then
        if maxSpan ≤ seq + length - headSeq then (.full, []) else (.added, [(seq, seq + length)])
      else (.full, [])
  | (currentHS, currentTS) :: rest =>
      if 0 < (currentHS - seq).toInt then
        if 0 < (currentHS - (seq + length)).toInt then
          if size < capacity then (.added, (seq, seq + length) :: (currentHS, currentTS) :: rest)
          else (.full, (currentHS, currentTS) :: rest)
        else if seq + length = currentHS then (.extended, (seq, currentTS) :: rest)
        else (.malicious, (currentHS, currentTS) :: rest)
      else if 0 < (currentTS - seq).toInt then
        if 0 ≤ (currentTS - (seq + length)).toInt then (.overlap, (currentHS, currentTS) :: rest)
        else (.malicious, (currentHS, currentTS) :: rest)
      else if seq = currentTS then
        match rest with
        | [] =>
            if maxSpan ≤ seq + length - headSeq then (.full, [(currentHS, currentTS)])
            else (.extended, [(currentHS, seq + length)])
        | next :: tail =>
            -- The source compares before it converts to `int`, so this asks whether the two differ.
            if 0 < next.1 - (seq + length) then
              if maxSpan ≤ seq + length - headSeq then (.full, (currentHS, currentTS) :: next :: tail)
              else (.extended, (currentHS, seq + length) :: next :: tail)
            else if next.1 = seq + length then (.extended, (currentHS, next.2) :: tail)
            else (.malicious, (currentHS, currentTS) :: next :: tail)
      else
        let (message, rest) := checkUBFrom headSeq capacity size seq length rest
        (message, (currentHS, currentTS) :: rest)

/-- `FileRcvStream::CheckUB` answers how the block joins the stream, and the vector after the call. -/
def checkUB (stream : FileRcvStream) (seq length : U32) : UBM × List (U32 × U32) :=
  if seq = stream.lastSeq then
    match stream.ubList with
    | [] => (.onSeq, stream.ubList)
    | front :: _ =>
        if 0 < (front.1 - (seq + length)).toInt then (.onSeq, stream.ubList)
        else if front.1 = seq + length then (.merging, stream.ubList)
        else (.malicious, stream.ubList)
  else checkUBFrom stream.headSeq stream.capacity stream.ubList.length seq length stream.ubList

/-- The functions that `FileRcvStream::Append` calls on the chain: the macro `NewNode` and `FlushNode`. The code calls its
own, which stand where the argument is left out. -/
structure ChainCallees where
  newNode : FileState → FileState
  flushNode : FileState → Part

/-- The loop of `FileRcvStream::PutUnSeq` walks to the node of the block. -/
def putUnSeqLoop : (rounds : Nat) → FileState → (targetNode : Option Ptr) → (i : Int) →
    (callees : ChainCallees := ⟨newNode, flushNode⟩) → Except (Fault × FileState) (FileState × Option Ptr × Int)
  | 0, state, _, _, _ => .error (.unfinished, state)
  | rounds + 1, state, targetNode, i, callees =>
      if nodeSize ≤ i then
        match targetNode with
        | none => .error (.nullDereference, state)
        | some target =>
            let state := if (state.heap.node target).toTail = none then callees.newNode state else state
            putUnSeqLoop rounds state (state.heap.node target).toTail (i - nodeSize) callees
      else .ok (state, targetNode, i)

/-- `FileRcvStream::PutUnSeq`. -/
def putUnSeq (state : FileState) (seq length : U32) (data : Memory)
    (callees : ChainCallees := ⟨newNode, flushNode⟩) : Part :=
  let i := (seq - state.stream.headSeq).toInt
  match putUnSeqLoop (i.toNat / nodeSize + 1) state (some state.stream.head) i callees with
  | .error failed => .error failed
  | .ok (state, targetNode, i) =>
      let writableLen := BitVec.ofInt 32 (nodeSize - i)
      if length ≤ writableLen then copyTo state targetNode i data length
      else
        match copyTo state targetNode i data writableLen with
        | .error failed => .error failed
        | .ok state =>
            match targetNode with
            | none => .error (.nullDereference, state)
            | some target =>
                let state := if (state.heap.node target).toTail = none then callees.newNode state else state
                copyTo state (state.heap.node target).toTail 0 (shift data writableLen.toNat)
                  (length - writableLen)

/-- The on-sequence case of `FileRcvStream::Append`. -/
def appendOnSeq (state : FileState) (length : U32) (data : Memory)
    (callees : ChainCallees := ⟨newNode, flushNode⟩) : Part :=
  let headByteCount := state.stream.headByteCount
  let writableLen : U32 := nodeSpan - headByteCount.setWidth 32
  if length ≤ writableLen then
    match copyTo state (some state.stream.head) headByteCount.toNat data length with
    | .error failed => .error failed
    | .ok state => .ok { state with stream := { state.stream with
        lastSeq := state.stream.lastSeq + length
        headByteCount := headByteCount + length.setWidth 16 } }
  else
    match copyTo state (some state.stream.head) headByteCount.toNat data writableLen with
    | .error failed => .error failed
    | .ok state =>
        let state := if state.stream.head = state.stream.tail then callees.newNode state else state
        match copyTo state (state.heap.node state.stream.head).toTail 0 (shift data writableLen.toNat)
            (length - writableLen) with
        | .error failed => .error failed
        | .ok state => callees.flushNode { state with stream := { state.stream with
            headByteCount := headByteCount + length.setWidth 16 - 4096#16 } }

/-- The last loop of the merging case. Its counter runs down until it leaves the range of `int`. -/
def mergeLoop : (rounds : Nat) → FileState → (mergeLength : Int) →
    (callees : ChainCallees := ⟨newNode, flushNode⟩) → Part
  | 0, state, _, _ => .error (.unfinished, state)
  | rounds + 1, state, mergeLength, callees =>
      if mergeLength < nodeSize then
        match callees.flushNode state with
        | .error failed => .error failed
        | .ok state =>
            if mergeLength - nodeSize < -2 ^ 31 then .error (.signedOverflow, state)
            else mergeLoop rounds state (mergeLength - nodeSize) callees
      else .ok state

/-- More rounds than the counter of `mergeLoop` can take. -/
abbrev mergeRounds : Nat := 2 ^ 21

/-- The merging case of `FileRcvStream::Append`, for the first entry `front` of the vector. -/
def appendMerging (state : FileState) (front : U32 × U32) (length : U32) (data : Memory)
    (callees : ChainCallees := ⟨newNode, flushNode⟩) : Part :=
  let mergeLength := (length + front.2 - front.1).toInt
  let headByteCount := state.stream.headByteCount
  let writableLen : U32 := nodeSpan - headByteCount.setWidth 32
  let copied :=
    if length ≤ writableLen then copyTo state (some state.stream.head) headByteCount.toNat data length
    else
      match copyTo state (some state.stream.head) headByteCount.toNat data writableLen with
      | .error failed => .error failed
      | .ok state => copyTo state (state.heap.node state.stream.head).toTail 0
          (shift data writableLen.toNat) (length - writableLen)
  match copied with
  | .error failed => .error failed
  | .ok state =>
      if 2 ^ 31 ≤ headByteCount.toNat + mergeLength then .error (.signedOverflow, state)
      else
        let state := { state with stream := { state.stream with
          headByteCount := BitVec.ofInt 16 ((headByteCount.toNat + mergeLength).tmod nodeSize)
          lastSeq := state.stream.lastSeq + BitVec.ofInt 32 mergeLength } }
        mergeLoop mergeRounds state mergeLength callees

/-- A part of `FileRcvStream::Append` that returns `code` when it ends. -/
def finish (code : Int) : Part → Outcome × FileState
  | .ok state => (.returned code, state)
  | .error (fault, state) => (.faulted fault, state)

/-- `FileRcvStream::Append`. -/
def append (state : FileState) (seq length : U32) (data : Memory)
    (callees : ChainCallees := ⟨newNode, flushNode⟩) : Outcome × FileState :=
  let stream := state.stream
  if 0 < (stream.lastSeq - seq).toInt then (.returned (-1), state)
  else
    let (message, ubList) := checkUB stream seq length
    let unSeqLen := match ubList with
      | [] => 0
      | front :: _ => front.1 - stream.lastSeq
    let state := { state with stream := { stream with ubList := ubList, unSeqLen := unSeqLen } }
    match message with
    | .full => (.returned (-2), state)
    | .malicious => (.threw "malicious packet", state)
    | .overlap => (.returned (-1), state)
    | .extended => finish 1 (putUnSeq state seq length data callees)
    | .added => finish 1 (putUnSeq state seq length data callees)
    | .onSeq => finish 0 (appendOnSeq state length data callees)
    | .merging =>
        match ubList with
        | [] => (.faulted .nullDereference, state)
        | front :: _ => finish 0 (appendMerging state front length data callees)

/-- `FileRcvStream::Finalize`, when `WriteFile` writes all requested bytes. -/
def finalize (state : FileState) : Outcome × FileState :=
  let stream := state.stream
  if (state.heap.node stream.head).toTail ≠ none then
    (.threw "cannot finalize stream: incomplete data", state)
  else
    (.returned 0, { state with stream := { stream with
      file := stream.file ++ read (state.heap.node stream.head).data stream.headByteCount.toNat } })

end FileReceiveStream

end Altus
