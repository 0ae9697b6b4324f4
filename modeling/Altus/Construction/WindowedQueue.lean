import Altus.Construction.UBList

namespace Altus

open Bytes UBList

/-- One node of a window, `WQ_Node`. The array `data` has the indices below `nodeSize`. -/
structure WQNode where
  toHead : Option Ptr
  toTail : Option Ptr
  data : Memory
  validBlockCount : U32

/-- The nodes by address, and the address that the next `malloc` returns. -/
structure WQHeap where
  node : Ptr → WQNode
  brk : Ptr

/-- One field assignment through a pointer. -/
def WQHeap.modify (heap : WQHeap) (pointer : Ptr) (change : WQNode → WQNode) : WQHeap :=
  { heap with node := Function.update heap.node pointer (change (heap.node pointer)) }

/-- The recycled nodes, `WQ_Node_Pool`. -/
structure WQNodePool where
  recycledHead : Ptr
  recycledTail : Ptr
  len : U32

/-- One window, `WQ_Window`. -/
structure WQWindow where
  head : Ptr
  safeTail : Ptr
  unsafeTail : Ptr
  safeLen : U32
  unsafeLen : U32
  headDataOffset : U32
  headSeq : U32
  ubList : UBList
  lastSeq : U32
  windowSize : U32

/-- What the window functions read and change. -/
structure WQState where
  heap : WQHeap
  pool : WQNodePool
  window : WQWindow

namespace WindowedQueue

/-- `ALTUS_WINDOW_BLOCK_MAX_DEFAULT`. -/
abbrev windowBlockMaxDefault : U32 := 0x20000#32

/-- `altusNewWindow`. The fields of `raw` are what `malloc` left in the new window. -/
def altusNewWindow (heap : WQHeap) (raw : WQWindow) : WQWindow × WQHeap :=
  let head := heap.brk
  let heap := { heap with brk := heap.brk + 1 }
  ({ raw with
      head := head
      safeTail := head
      unsafeTail := head
      safeLen := 1
      unsafeLen := 0
      headDataOffset := 0
      ubList := { raw.ubList with count := 0 }
      windowSize := windowBlockMaxDefault },
    heap.modify head fun node => { node with toHead := none, toTail := none, validBlockCount := 0 })

/-- `altusWQNewNodePool`. -/
def altusWQNewNodePool (heap : WQHeap) : WQNodePool × WQHeap :=
  let head := heap.brk
  let heap := { heap with brk := heap.brk + 1 }
  ({ recycledHead := head, recycledTail := head, len := 1 },
    heap.modify head fun node => { node with toHead := none, toTail := none, validBlockCount := 0 })

/-- `altusWQPopNode`. -/
def altusWQPopNode (state : WQState) : Except Fault (Int × WQState) :=
  let window := state.window
  if window.head = window.safeTail then
    .ok (-1, { state with window := { window with safeLen := 1 } })
  else
    match (state.heap.node window.head).toTail with
    | none => .error .nullDereference
    | some head =>
        let oldHead := window.head
        let heap := state.heap.modify head fun node => { node with toHead := none }
        let heap := heap.modify oldHead fun node =>
          { node with toTail := none, toHead := some state.pool.recycledTail }
        let heap := heap.modify state.pool.recycledTail fun node => { node with toTail := some oldHead }
        .ok (0,
          { heap := heap
            pool := { state.pool with recycledTail := oldHead, len := state.pool.len + 1 }
            window := { window with head := head, safeLen := window.safeLen - 1 } })

/-- The first part of `altusWQNewNode`: a recycled node, or a new one when the pool keeps its last node. -/
def takeNode (state : WQState) : Except Fault (Ptr × WQState) :=
  if state.pool.recycledHead = state.pool.recycledTail then
    .ok (state.heap.brk, { state with heap := { state.heap with brk := state.heap.brk + 1 } })
  else
    match (state.heap.node state.pool.recycledHead).toTail with
    | none => .error .nullDereference
    | some next =>
        .ok (state.pool.recycledHead,
          { state with
            heap := state.heap.modify next fun node => { node with toHead := none }
            pool := { state.pool with recycledHead := next, len := state.pool.len - 1 } })

/-- The second part of `altusWQNewNode` links the node behind `unsafe_tail`. -/
def linkNode (newNode : Ptr) (state : WQState) : WQState :=
  let window := state.window
  let heap := state.heap.modify newNode fun node =>
    { node with toTail := none, toHead := some window.unsafeTail }
  let heap := heap.modify window.unsafeTail fun node => { node with toTail := some newNode }
  { state with
    heap := heap
    window := { window with unsafeTail := newNode, unsafeLen := window.unsafeLen + 1 } }

/-- `altusWQNewNode`. -/
def altusWQNewNode (state : WQState) : Except Fault WQState :=
  match takeNode state with
  | .error fault => .error fault
  | .ok (newNode, state) => .ok (linkNode newNode state)

/-- The arguments of one `memcpy` into a node. -/
structure Copy where
  writeoffset : Nat
  writelen : Nat
deriving DecidableEq, Repr

/-- One `memcpy` of `altusWQPut`. Behind `data` lie the count of the node and other objects. -/
@[irreducible] def copyInto (state : WQState) (current : Ptr) (copy : Copy) (source : Memory) : Except Fault WQState :=
  if copy.writeoffset + copy.writelen ≤ nodeSize then
    .ok { state with heap := state.heap.modify current fun node =>
      { node with data := memcpy node.data copy.writeoffset source copy.writelen } }
  else .error .outOfBounds

/-- The copy loop of `altusWQPut`, with its executed `memcpy` calls. -/
def copyLoop (length : U32) (data : Memory) :
    (rounds : Nat) → WQState → (currentNode : Option Ptr) → (currentNodeSeq leftSeq leftLen : U32) →
      Except Fault (List Copy × WQState)
  | 0, _, _, _, _, _ => .error .unfinished
  | rounds + 1, state, currentNode, currentNodeSeq, leftSeq, leftLen =>
      if leftLen = 0 then .ok ([], state)
      else
        match currentNode with
        | none => .error .nullDereference
        | some current =>
            let writelen := currentNodeSeq + nodeSpan - leftSeq
            -- The source asks `writelen <= 0` of an unsigned number.
            if writelen = 0 then
              match if current = state.window.unsafeTail then altusWQNewNode state else .ok state with
              | .error fault => .error fault
              | .ok state =>
                  copyLoop length data rounds state (state.heap.node current).toTail
                    (currentNodeSeq + nodeSpan) leftSeq leftLen
            else
              let writelen := if leftLen < writelen then leftLen else writelen
              let writeoffset : U16 := (leftSeq - currentNodeSeq).setWidth 16
              let copy : Copy := ⟨writeoffset.toNat, writelen.toNat⟩
              match copyInto state current copy (shift data (length - leftLen).toNat) with
              | .error fault => .error fault
              | .ok state =>
                  let leftSeq := leftSeq + writelen
                  let leftLen := leftLen - writelen
                  match if leftLen ≠ 0 ∨ leftSeq = currentNodeSeq + nodeSpan then
                      match altusWQNewNode state with
                      | .error fault => .error fault
                      | .ok state => copyLoop length data rounds state (state.heap.node current).toTail
                          (currentNodeSeq + nodeSpan) leftSeq leftLen
                    else copyLoop length data rounds state (some current) currentNodeSeq leftSeq leftLen with
                  | .error fault => .error fault
                  | .ok (copies, state) => .ok (copy :: copies, state)

/-- The advance loop of `altusWQPut` moves `safe_tail` to the node of `newSeq`. -/
def advanceLoop (newSeq : U32) : (rounds : Nat) → WQState → Except Fault WQState
  | 0, _ => .error .unfinished
  | rounds + 1, state =>
      let window := state.window
      let safeNodeSeq := window.lastSeq - (state.heap.node window.safeTail).validBlockCount
      let seqDiff := newSeq - safeNodeSeq
      if 4096 < seqDiff.toInt then
        let heap := state.heap.modify window.safeTail fun node => { node with validBlockCount := nodeSpan }
        match (heap.node window.safeTail).toTail with
        | none => .error .nullDereference
        | some next =>
            advanceLoop newSeq rounds
              { state with
                heap := heap.modify next fun node => { node with validBlockCount := 0 }
                window := { window with
                  lastSeq := safeNodeSeq + nodeSpan
                  safeLen := window.safeLen + 1
                  unsafeLen := window.unsafeLen - 1
                  safeTail := next } }
      else if seqDiff.toInt = 4096 then
        let heap := state.heap.modify window.safeTail fun node => { node with validBlockCount := seqDiff }
        match (heap.node window.safeTail).toTail with
        | none => .error .nullDereference
        | some next =>
            .ok { state with
              heap := heap.modify next fun node => { node with validBlockCount := 0 }
              window := { window with
                safeLen := window.safeLen + 1
                unsafeLen := window.unsafeLen - 1
                safeTail := next } }
      else
        .ok { state with
          heap := state.heap.modify window.safeTail fun node => { node with validBlockCount := seqDiff }
          window := { window with lastSeq := newSeq } }

/-- No difference of two sequence numbers spans more nodes than this. -/
abbrev advanceRounds : Nat := 524288

/-- The end of `altusWQPut` joins the first block to the sequenced part when it is its turn. -/
def absorb (state : WQState) : Except Fault WQState :=
  if state.window.ubList.headSeq 0 = state.window.lastSeq then
    let newSeq := state.window.ubList.tailSeq 0
    match advanceLoop newSeq advanceRounds state with
    | .error fault => .error fault
    | .ok state =>
        .ok { state with window := { state.window with
          ubList := altusUBPop state.window.ubList
          lastSeq := newSeq } }
  else .ok state

/-- `altusWQPut` answers its code, its executed `memcpy` calls and the state after the call. -/
def altusWQPut (state : WQState) (seq length : U32) (data : Memory) :
    Except Fault (Int × List Copy × WQState) :=
  let window := state.window
  if 0 < (window.lastSeq - seq).toInt then .ok (-2, [], state)
  else
    let requiredNewNodeCount := (seq + length - window.lastSeq) / nodeSpan + 1
    if window.windowSize < window.safeLen + requiredNewNodeCount then .ok (-3, [], state)
    else
      let (retval, ubList) := altusUBCheck window.ubList seq length
      let state := { state with window := { window with ubList := ubList } }
      if retval = ubenumFull then .ok (-4, [], state)
      else if retval = ubenumMaliciousInput then .ok (-5, [], state)
      else if retval = ubenumOverlap then .ok (-2, [], state)
      else if retval = ubenumUBExtended ∨ retval = ubenumNewUBAdded then
        let currentNode := window.safeTail
        let currentNodeSeq := window.lastSeq - (state.heap.node currentNode).validBlockCount
        match copyLoop length data (length.toNat + 2) state (some currentNode) currentNodeSeq seq length with
        | .error fault => .error fault
        | .ok (copies, state) =>
            match absorb state with
            | .error fault => .error fault
            | .ok state => .ok (0, copies, state)
      else .error .exit

/-- The loop of `altusWQPop`. A null `dest` is `none`. -/
def popLoop (length : Int) :
    (rounds : Nat) → WQState → (currentNode : Ptr) → (leftLen : Int) → (dest : Option Memory) →
      Except Fault (Int × Option Memory × WQState)
  | 0, _, _, _, _ => .error .unfinished
  | rounds + 1, state, currentNode, leftLen, dest =>
      if leftLen = 0 then .ok (length, dest, state)
      else
        let node := state.heap.node currentNode
        let available := (node.validBlockCount - state.window.headDataOffset).toInt
        let writelen := if leftLen < available then leftLen else available
        if writelen = 0 then .ok (length - leftLen, dest, state)
        else if writelen < 0 ∧ dest.isSome then .error .negativeLength
        else
          let dest := dest.map fun memory => memcpy memory (length - leftLen).toNat
            (shift node.data state.window.headDataOffset.toNat) writelen.toNat
          let leftLen := leftLen - writelen
          let headDataOffset := state.window.headDataOffset + BitVec.ofInt 32 writelen
          let state := { state with window := { state.window with headDataOffset := headDataOffset } }
          if headDataOffset = nodeSpan then
            match altusWQPopNode state with
            | .error fault => .error fault
            | .ok (_, state) =>
                let state := { state with window := { state.window with headDataOffset := 0 } }
                match node.toTail with
                | none => .error .nullDereference
                | some currentNode =>
                    if (0 : U32) = (state.heap.node currentNode).validBlockCount then
                      .ok (length - leftLen, dest, state)
                    else popLoop length rounds state currentNode leftLen dest
          else if headDataOffset = node.validBlockCount then
            match altusWQPopNode state with
            | .error fault => .error fault
            | .ok (_, state) => .ok (length - leftLen, dest, state)
          else popLoop length rounds state currentNode leftLen dest

/-- No call that returns takes more rounds, even when a count below the offset enlarges `leftLen` once. -/
def popRounds (length : Int) : Nat := length.toNat + 2 ^ 32

/-- `altusWQPop` answers the number of bytes it took, the destination and the state after the call. -/
def altusWQPop (state : WQState) (length : Int) (dest : Option Memory) :
    Except Fault (Int × Option Memory × WQState) :=
  popLoop length (popRounds length) state state.window.head length dest

/-- The loop of `altusWQPeek` walks over whole nodes. -/
def peekLoop (heap : WQHeap) : (rounds : Nat) → (targetNode : Ptr) → (deltaSeq : U32) → Option (Ptr × U32)
  | 0, targetNode, deltaSeq => some (targetNode, deltaSeq)
  | rounds + 1, targetNode, deltaSeq =>
      if nodeSpan ≤ deltaSeq then
        match (heap.node targetNode).toTail with
        | none => none
        | some targetNode => peekLoop heap rounds targetNode (deltaSeq - nodeSpan)
      else some (targetNode, deltaSeq)

/-- `altusWQPeek` answers the readable length and the position, a node and an offset in it. -/
def altusWQPeek (heap : WQHeap) (window : WQWindow) (seq : U32) : Int × Option (Ptr × U32) :=
  let deltaSeq := seq - window.headSeq
  match peekLoop heap (deltaSeq.toNat / nodeSize + 1) window.head deltaSeq with
  | none => (0, none)
  | some (targetNode, deltaSeq) =>
      let readable := (heap.node targetNode).validBlockCount - deltaSeq
      -- The source asks `<= 0` of an unsigned number.
      if readable = 0 then (0, none) else (readable.toInt, some (targetNode, deltaSeq))

/-- `ALTUS_WINDOW_BLOCK_MAX_ABSOLUTE`. -/
abbrev windowBlockMaxAbsolute : U32 := 0x40000000#32

/-- The loop of `recalculateWinLen` counts the nodes up to `unsafe_tail` and notes the count at `safe_tail`. -/
def recalculateLoop (heap : WQHeap) (safeTail unsafeTail : Ptr) :
    (rounds : Nat) → (currentNode : Ptr) → (ret : Int) → (safeLen : U32) → Except Fault (Int × U32)
  | 0, _, _, _ => .error .unfinished
  | rounds + 1, currentNode, ret, safeLen =>
      if currentNode = unsafeTail then .ok (ret, safeLen)
      else
        let safeLen := if currentNode = safeTail then BitVec.ofInt 32 ret else safeLen
        if 2 ^ 31 ≤ ret + 1 then .error .signedOverflow
        else
          match (heap.node currentNode).toTail with
          | none => .error .nullDereference
          | some currentNode => recalculateLoop heap safeTail unsafeTail rounds currentNode (ret + 1) safeLen

/-- The macro `recalculateWinLen` leaves the number of all nodes in `unsafe_len`.
A chain without a cycle has at most `brk` nodes. -/
def recalculateWinLen (heap : WQHeap) (window : WQWindow) : Except Fault WQWindow :=
  let safeLen := if window.head = window.safeTail then 1 else window.safeLen
  (recalculateLoop heap window.safeTail window.unsafeTail heap.brk window.head 1 safeLen).map fun (ret, safeLen) =>
    { window with safeLen := safeLen, unsafeLen := BitVec.ofInt 32 ret }

/-- `altusWQSanitize` answers how full the window is. -/
def altusWQSanitize (state : WQState) : Except Fault (Int × WQState) :=
  (recalculateWinLen state.heap state.window).map fun window =>
    let state := { state with window := window }
    if windowBlockMaxAbsolute < window.unsafeLen then (-3, state)
    else if window.windowSize.shiftLeft 1 < window.unsafeLen then (-2, state)
    else if window.windowSize < window.unsafeLen then (-1, state)
    else if window.unsafeLen < window.windowSize.ushiftRight 3 then (3, state)
    else if window.unsafeLen < window.windowSize.ushiftRight 2 then (2, state)
    else if window.unsafeLen < window.windowSize.ushiftRight 1 then (1, state)
    else (0, state)

/-- The loop of `altusFreeWQ` follows the chain up to `unsafe_tail`. No address of a freed node is used again. -/
def freeLoop (heap : WQHeap) (unsafeTail : Ptr) : (rounds : Nat) → (currentNode : Ptr) → Except Fault Unit
  | 0, _ => .error .unfinished
  | rounds + 1, currentNode =>
      if currentNode = unsafeTail then .ok ()
      else
        match (heap.node currentNode).toTail with
        | none => .error .nullDereference
        | some currentNode => freeLoop heap unsafeTail rounds currentNode

/-- `altusFreeWQ`. A chain without a cycle has at most `brk` nodes. -/
def altusFreeWQ (heap : WQHeap) (window : WQWindow) : Except Fault Unit :=
  freeLoop heap window.unsafeTail heap.brk window.head

/-- The nodes that the loops of `altusFreeP` and `altusFreeWQ` hand to `free`, in this order. -/
def freedLoop (heap : WQHeap) (lastNode : Ptr) : (rounds : Nat) → (currentNode : Ptr) → Except Fault (List Ptr)
  | 0, _ => .error .unfinished
  | rounds + 1, currentNode =>
      if currentNode = lastNode then .ok [currentNode]
      else
        match (heap.node currentNode).toTail with
        | none => .error .nullDereference
        | some next => (freedLoop heap lastNode rounds next).map fun freed => currentNode :: freed

/-- `altusFreeP` answers the nodes that it frees. -/
def altusFreeP (heap : WQHeap) (pool : WQNodePool) : Except Fault (List Ptr) :=
  freedLoop heap pool.recycledTail heap.brk pool.recycledHead

/-- The nodes that `altusFreeWQ` frees. -/
def freedByWQ (heap : WQHeap) (window : WQWindow) : Except Fault (List Ptr) :=
  freedLoop heap window.unsafeTail heap.brk window.head

/-- The nodes of a window and of a pool. -/
def nodesOf (heap : WQHeap) (window : WQWindow) : List Ptr := (freedByWQ heap window).toOption.getD []

def recycledNodes (heap : WQHeap) (pool : WQNodePool) : List Ptr := (altusFreeP heap pool).toOption.getD []

end WindowedQueue

end Altus
