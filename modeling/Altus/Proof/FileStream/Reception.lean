import Altus.Proof.FileStream.Unsequenced

namespace Altus.FileReceiveStream

open Bytes

/-- A file and the sizes of the blocks that it is sent in. -/
structure SplitFile where
  content : List Byte
  sizes : List Nat
  small : content.length < 2 ^ 31
  whole : sizes.sum = content.length
  bounded : ∀ size ∈ sizes, 1 ≤ size ∧ size ≤ 488

namespace SplitFile

variable (file : SplitFile)

/-- The number of a block. -/
abbrev Block := Fin file.sizes.length

/-- The position of the first byte of a block. -/
def start (block : Nat) : Nat := (file.sizes.take block).sum

def size (block : file.Block) : Nat := file.sizes[block]

theorem start_succ (block : file.Block) : file.start (block + 1) = file.start block + file.size block :=
  List.sum_take_succ _ _ block.isLt

theorem start_length : file.start file.sizes.length = file.content.length := by
  rw [start, List.take_length, file.whole]

theorem start_le (block : Nat) : file.start block ≤ file.content.length := by
  have parts := List.sum_take_add_sum_drop file.sizes block
  rw [file.whole] at parts
  rw [start]
  omega

theorem size_bounds (block : file.Block) : 1 ≤ file.size block ∧ file.size block ≤ 488 :=
  file.bounded _ (List.getElem_mem _)

/-- The block arrives at a stream. -/
def deliver (state : FileState) (block : file.Block) : Outcome × FileState :=
  append state (BitVec.ofNat 32 (file.start block)) (BitVec.ofNat 32 (file.size block))
    (shift (ofList file.content) (file.start block))

end SplitFile

/-- The file is a prefix of the content, and `Finalize` completes it once every block is accepted. -/
def Faithful (file : SplitFile) (accepted : List file.Block) (state : FileState) : Prop :=
  state.stream.file <+: file.content ∧ ((∀ block, block ∈ accepted) → ∀ final,
    finalize state = (.returned 0, final) → final.stream.file = file.content)

/-- The stream is faithful all along a run of deliveries, also at a fault. -/
def Receives (file : SplitFile) (accepted : List file.Block) (state : FileState) : List file.Block → Prop
  | [] => Faithful file accepted state
  | block :: rest => Faithful file accepted state ∧
      match file.deliver state block with
      | (.returned code, next) => Receives file (if 0 ≤ code then block :: accepted else accepted) next rest
      | (.threw _, next) => Receives file accepted next rest
      | (.faulted _, next) => next.stream.file <+: file.content

/-- A block in sequence leaves a gap before the first unsequenced block, and fits into the head node. -/
def Orderly (state : FileState) (seq length : U32) : Prop :=
  seq = state.stream.lastSeq → (∀ front ∈ state.stream.ubList.head?, front.1 ≠ seq + length) ∧
    state.stream.headByteCount.toNat + length.toNat ≤ 4096

/-- Every block of the run is orderly when it arrives. -/
def AllOrderly (file : SplitFile) (state : FileState) : List file.Block → Prop
  | [] => True
  | block :: rest =>
      Orderly state (BitVec.ofNat 32 (file.start block)) (BitVec.ofNat 32 (file.size block)) ∧
      ∀ outcome next, file.deliver state block = (outcome, next) → (∀ fault, outcome ≠ .faulted fault) →
        AllOrderly file next rest

/-- The head node holds the first bytes of the file, and no block is written to the file yet. -/
structure Filling (file : SplitFile) (accepted : List file.Block) (state : FileState) : Prop where
  alone : ∃ others, HeadAlone state others
  written : state.stream.file = []
  headSeq : state.stream.headSeq = 0
  lastSeq : state.stream.lastSeq = BitVec.ofNat 32 state.stream.headByteCount.toNat
  fits : state.stream.headByteCount.toNat ≤ 4096
  boundary : ∃ block ≤ file.sizes.length, state.stream.headByteCount.toNat = file.start block
  bytes : ∀ index < state.stream.headByteCount.toNat,
    (state.heap.node state.stream.head).data index = ofList file.content index
  gap : ∀ front, state.stream.ubList.head?.map Prod.fst = some front →
    state.stream.headByteCount.toNat < front.toNat ∧ front.toNat < 2 ^ 31
  listed : ∀ block ∈ accepted, file.start block < state.stream.headByteCount.toNat ∨
    ∃ front, state.stream.ubList.head?.map Prod.fst = some front ∧ front.toNat ≤ file.start block

/-- The stream goes on filling its head node after a delivery. -/
def Continues (file : SplitFile) (accepted : List file.Block) (block : file.Block) : Outcome × FileState → Prop
  | (.returned code, next) => Filling file (if 0 ≤ code then block :: accepted else accepted) next
  | (.threw _, next) => Filling file accepted next
  | (.faulted _, next) => next.stream.file = []

section Calls

variable {file : SplitFile} {accepted : List file.Block} {state next : FileState} {block : file.Block}

theorem HeadAlone.setStream {others : Set Ptr} (alone : HeadAlone state others) {stream : FileRcvStream}
    (head : stream.head = state.stream.head) (tail : stream.tail = state.stream.tail) :
    HeadAlone { state with stream := stream } others where
  single := by
    dsimp only
    rw [head, tail, alone.single]
  notHead := by
    dsimp only
    rw [head]
    exact alone.notHead
  headAllocated := by
    dsimp only
    rw [head]
    exact alone.headAllocated
  allocated := alone.allocated
  closed := alone.closed
  follows := by
    dsimp only
    rw [head]
    exact alone.follows
  pooled := alone.pooled

/-- The list of unsequenced blocks changes. -/
theorem Filling.relist (filling : Filling file accepted state) {ubList : List (U32 × U32)} {unSeqLen : U32}
    {blocks : List file.Block}
    (gap : ∀ front, ubList.head?.map Prod.fst = some front →
      state.stream.headByteCount.toNat < front.toNat ∧ front.toNat < 2 ^ 31)
    (listed : ∀ block ∈ blocks, file.start block < state.stream.headByteCount.toNat ∨
      ∃ front, ubList.head?.map Prod.fst = some front ∧ front.toNat ≤ file.start block) :
    Filling file blocks
      { state with stream := { state.stream with ubList := ubList, unSeqLen := unSeqLen } } := by
  obtain ⟨others, alone⟩ := filling.alone
  exact ⟨⟨others, alone.setStream rfl rfl⟩, filling.written, filling.headSeq, filling.lastSeq, filling.fits,
    filling.boundary, filling.bytes, gap, listed⟩

/-- A step that leaves the first bytes of the head node alone. -/
theorem Filling.steady (filling : Filling file accepted state)
    (steady : Steady state.stream.headByteCount.toNat state next) (alone : ∃ others, HeadAlone next others) :
    Filling file accepted next := by
  have stream := steady.stream
  have bytes := steady.bytes
  obtain ⟨heap, pool, changed⟩ := next
  dsimp only at stream
  rw [stream] at alone ⊢
  refine ⟨alone, filling.written, filling.headSeq, filling.lastSeq, filling.fits, filling.boundary, ?_,
    filling.gap, filling.listed⟩
  intro index below
  exact (bytes index below).trans (filling.bytes index below)

/-- The block reaches `PutUnSeq`. -/
theorem Filling.place (filling : Filling file (block :: accepted) state)
    (ahead : state.stream.headByteCount.toNat ≤ file.start block) {length : U32} {data : Memory} :
    Continues file accepted block (finish 1 (putUnSeq state (BitVec.ofNat 32 (file.start block)) length data)) := by
  obtain ⟨others, alone⟩ := filling.alone
  have inside := file.start_le block
  have small := file.small
  have far : (state.stream.headByteCount.toNat : Int) ≤
      (BitVec.ofNat 32 (file.start block) - state.stream.headSeq).toInt := by
    rw [filling.headSeq, sub_zero, BitVec.toInt_eq_toNat_cond, BitVec.toNat_ofNat,
      Nat.mod_eq_of_lt (by omega), if_pos (by omega)]
    exact_mod_cast ahead
  have settles := @putUnSeq_settles _ _ _ alone _ length data far
  revert settles
  cases putUnSeq state (BitVec.ofNat 32 (file.start block)) length data with
  | ok next => exact fun settles => filling.steady settles.1 settles.2
  | error failed =>
      intro settles
      change failed.2.stream.file = []
      rw [Steady.stream settles]
      exact filling.written

/-- The block in sequence is appended to the head node. -/
theorem Filling.sequence (filling : Filling file accepted state)
    (here : file.start block = state.stream.headByteCount.toNat)
    (room : state.stream.headByteCount.toNat + file.size block ≤ 4096)
    (before : ∀ front, state.stream.ubList.head?.map Prod.fst = some front →
      file.start block + file.size block < front.toNat) :
    Continues file accepted block (finish 0 (appendOnSeq state (BitVec.ofNat 32 (file.size block))
      (shift (ofList file.content) (file.start block)))) := by
  have sizeIs : (BitVec.ofNat 32 (file.size block)).toNat = file.size block := by
    rw [BitVec.toNat_ofNat, Nat.mod_eq_of_lt (by omega)]
  have inside : state.stream.headByteCount.toNat + (BitVec.ofNat 32 (file.size block)).toNat ≤ nodeSize := by
    rw [sizeIs]
    exact room
  have countIs : (state.stream.headByteCount + (BitVec.ofNat 32 (file.size block)).setWidth 16).toNat =
      state.stream.headByteCount.toNat + file.size block := by
    rw [BitVec.toNat_add, BitVec.toNat_setWidth, sizeIs]
    omega
  obtain ⟨others, alone⟩ := filling.alone
  have behind : Behind state.stream.headByteCount.toNat state others (some state.stream.head)
      state.stream.headByteCount.toNat := by
    intro pointer same
    exact Or.inl ⟨(Option.some.inj same).symm, le_refl _⟩
  have copied := alone.copy behind (shift (ofList file.content) (file.start block))
    (BitVec.ofNat 32 (file.size block))
  rw [copyTo_head inside] at copied
  obtain ⟨-, nextAlone, -⟩ := copied
  rw [appendOnSeq]
  dsimp only
  rw [if_pos (fits_head inside), copyTo_head inside]
  simp only [finish, Continues, le_refl, if_true, written_stream]
  refine ⟨⟨others, nextAlone.setStream rfl rfl⟩, filling.written, filling.headSeq, ?_, ?_, ?_, ?_, ?_, ?_⟩
  · dsimp only
    rw [countIs, filling.lastSeq, BitVec.ofNat_add]
  · dsimp only
    rw [countIs]
    exact room
  · refine ⟨block + 1, block.isLt, ?_⟩
    dsimp only
    rw [countIs, file.start_succ, here]
  · dsimp only
    rw [countIs, written_data, sizeIs]
    intro index below
    by_cases old : index < state.stream.headByteCount.toNat
    · rw [memcpy_outside (Or.inl old)]
      exact filling.bytes index old
    · rw [memcpy_inside (by omega) below, shift, here]
      congr 1
      omega
  · dsimp only
    rw [countIs, ← here]
    intro front first
    exact ⟨before front first, (filling.gap front first).2⟩
  · dsimp only
    rw [countIs]
    intro other member
    rcases List.mem_cons.mp member with rfl | old
    · left
      have positive := (file.size_bounds other).1
      omega
    · rcases filling.listed other old with done | waiting
      · left
        omega
      · exact Or.inr waiting

/-- A block beyond the sequenced bytes changes the list of unsequenced blocks. -/
theorem Filling.check (filling : Filling file accepted state)
    (ahead : state.stream.headByteCount.toNat < file.start block) {length unSeqLen : U32} :
    let answer := checkUBFrom state.stream.headSeq state.stream.capacity state.stream.ubList.length
      (BitVec.ofNat 32 (file.start block)) length state.stream.ubList
    (¬ Placed answer.1 → Filling file accepted
      { state with stream := { state.stream with ubList := answer.2, unSeqLen := unSeqLen } }) ∧
    (Placed answer.1 → Filling file (block :: accepted)
      { state with stream := { state.stream with ubList := answer.2, unSeqLen := unSeqLen } }) := by
  obtain ⟨-, -, placed, refused⟩ := checkUBFrom_front state.stream.headSeq state.stream.capacity
    state.stream.ubList.length (BitVec.ofNat 32 (file.start block)) length state.stream.ubList
  dsimp only
  generalize checkUBFrom state.stream.headSeq state.stream.capacity state.stream.ubList.length
    (BitVec.ofNat 32 (file.start block)) length state.stream.ubList = answer at placed refused ⊢
  have small := file.small
  have inside := file.start_le block
  have startIs : (BitVec.ofNat 32 (file.start block)).toNat = file.start block := by
    rw [BitVec.toNat_ofNat, Nat.mod_eq_of_lt (by omega)]
  constructor
  · intro notPlaced
    have same := refused notPlaced
    exact filling.relist (by rw [same]; exact filling.gap) (by rw [same]; exact filling.listed)
  · intro isPlaced
    have first := placed isPlaced
    -- The first unsequenced byte only moves down, to the new block.
    have least : state.stream.headByteCount.toNat < (firstUnSeq (BitVec.ofNat 32 (file.start block))
          state.stream.ubList).toNat ∧
        (firstUnSeq (BitVec.ofNat 32 (file.start block)) state.stream.ubList).toNat ≤ file.start block ∧
        ∀ front, state.stream.ubList.head?.map Prod.fst = some front →
          (firstUnSeq (BitVec.ofNat 32 (file.start block)) state.stream.ubList).toNat ≤ front.toNat := by
      have gap := filling.gap
      cases list : state.stream.ubList with
      | nil => simp [firstUnSeq, startIs, ahead]
      | cons front rest =>
          obtain ⟨above, below⟩ := gap front.1 (by rw [list]; rfl)
          have order : 0 < (front.1 - BitVec.ofNat 32 (file.start block)).toInt ↔
              file.start block < front.1.toNat := by
            rw [← Serial.ofNat_toNat front.1, Serial.sub_pos_iff (by simp; omega) (by simp; omega) (by decide)]
            simp
          rw [firstUnSeq]
          by_cases lower : 0 < (front.1 - BitVec.ofNat 32 (file.start block)).toInt
          · rw [if_pos lower, startIs]
            rw [order] at lower
            refine ⟨ahead, le_refl _, ?_⟩
            intro other same
            obtain rfl := Option.some.inj same
            omega
          · rw [if_neg lower]
            rw [order] at lower
            refine ⟨above, by omega, ?_⟩
            intro other same
            obtain rfl := Option.some.inj same
            exact le_refl _
    obtain ⟨above, below, under⟩ := least
    refine filling.relist ?_ ?_
    · rw [first]
      intro front same
      obtain rfl := Option.some.inj same
      exact ⟨above, by omega⟩
    · intro other member
      rcases List.mem_cons.mp member with rfl | old
      · exact Or.inr ⟨_, first, below⟩
      · rcases filling.listed other old with done | ⟨front, same, waiting⟩
        · exact Or.inl done
        · exact Or.inr ⟨_, first, (under front same).trans waiting⟩

/-- A delivery keeps the stream filling its head node. -/
theorem Filling.deliver (filling : Filling file accepted state)
    (orderly : Orderly state (BitVec.ofNat 32 (file.start block)) (BitVec.ofNat 32 (file.size block))) :
    Continues file accepted block (file.deliver state block) := by
  have small := file.small
  have inside := file.start_le block
  have filled := filling.fits
  have whole := file.start_succ block
  have bounded := file.start_le (block + 1)
  have compare : 0 < (state.stream.lastSeq - BitVec.ofNat 32 (file.start block)).toInt ↔
      file.start block < state.stream.headByteCount.toNat := by
    rw [filling.lastSeq, Serial.sub_pos_iff (by omega) (by omega) (by decide)]
  rw [SplitFile.deliver, append]
  dsimp only
  by_cases late : 0 < (state.stream.lastSeq - BitVec.ofNat 32 (file.start block)).toInt
  · rw [if_pos late]
    exact filling
  rw [if_neg late]
  rw [compare] at late
  by_cases here : file.start block = state.stream.headByteCount.toNat
  · have sequenced : BitVec.ofNat 32 (file.start block) = state.stream.lastSeq := by
      rw [filling.lastSeq, here]
    obtain ⟨apart, room⟩ := orderly sequenced
    rw [BitVec.toNat_ofNat, Nat.mod_eq_of_lt (by omega)] at room
    have relisted (unSeqLen : U32) : Filling file accepted { state with stream := { state.stream with
        ubList := state.stream.ubList, unSeqLen := unSeqLen } } := filling.relist filling.gap filling.listed
    rw [checkUB, if_pos sequenced]
    cases list : state.stream.ubList with
    | nil =>
        dsimp only
        rw [← list]
        refine Filling.sequence (relisted _) here room ?_
        intro front first
        simp [list] at first
    | cons front rest =>
        dsimp only
        have gap := filling.gap front.1 (by rw [list]; rfl)
        have order : 0 < (front.1 - (BitVec.ofNat 32 (file.start block) +
            BitVec.ofNat 32 (file.size block))).toInt ↔ file.start block + file.size block < front.1.toNat := by
          rw [← BitVec.ofNat_add, ← Serial.ofNat_toNat front.1,
            Serial.sub_pos_iff (by simp; omega) (by simp; omega) (by decide)]
          simp
        by_cases before : 0 < (front.1 - (BitVec.ofNat 32 (file.start block) +
            BitVec.ofNat 32 (file.size block))).toInt
        · rw [if_pos before]
          dsimp only
          rw [← list]
          refine Filling.sequence (relisted _) here room ?_
          intro other first
          dsimp only at first
          rw [list] at first
          obtain rfl := Option.some.inj first
          exact order.mp before
        · rw [if_neg before, if_neg (apart front (by rw [list]; rfl))]
          dsimp only
          rw [← list]
          exact relisted _
  · have ahead : state.stream.headByteCount.toNat < file.start block := by omega
    have other : BitVec.ofNat 32 (file.start block) ≠ state.stream.lastSeq := by
      rw [filling.lastSeq, Ne, Serial.ofNat_inj (by omega) (by omega)]
      exact here
    rw [checkUB, if_neg other]
    obtain ⟨notOnSeq, notMerging, -, -⟩ := checkUBFrom_front state.stream.headSeq state.stream.capacity
      state.stream.ubList.length (BitVec.ofNat 32 (file.start block)) (BitVec.ofNat 32 (file.size block))
      state.stream.ubList
    have checked (unSeqLen : U32) :=
      @Filling.check _ _ _ _ filling ahead (BitVec.ofNat 32 (file.size block)) unSeqLen
    dsimp only at checked
    generalize checkUBFrom state.stream.headSeq state.stream.capacity state.stream.ubList.length
      (BitVec.ofNat 32 (file.start block)) (BitVec.ofNat 32 (file.size block)) state.stream.ubList = answer
      at notOnSeq notMerging checked ⊢
    obtain ⟨message, ubList⟩ := answer
    dsimp only at notOnSeq notMerging checked ⊢
    cases message with
    | full | malicious | overlap => exact (checked _).1 (by simp [Placed])
    | extended | added => exact Filling.place ((checked _).2 (by simp [Placed])) (Nat.le_of_lt ahead)
    | onSeq => exact absurd rfl notOnSeq
    | merging => exact absurd rfl notMerging

theorem Filling.faithful (filling : Filling file accepted state) : Faithful file accepted state := by
  refine ⟨by rw [filling.written]; exact List.nil_prefix, ?_⟩
  intro all final finalized
  obtain ⟨block, bound, position⟩ := filling.boundary
  have complete : block = file.sizes.length := by
    by_contra different
    have below : block < file.sizes.length := by omega
    rcases filling.listed ⟨block, below⟩ (all _) with done | ⟨front, first, waiting⟩
    · dsimp only at done
      omega
    · have above := (filling.gap front first).1
      dsimp only at waiting
      omega
  rw [complete, file.start_length] at position
  rw [finalize] at finalized
  split at finalized
  · cases finalized
  · obtain ⟨-, rfl⟩ := Prod.mk.inj finalized
    dsimp only
    rw [filling.written, List.nil_append, read_congr filling.bytes, position]
    have whole := @read_ofList file.content 0 file.content.length (by omega)
    rwa [shift_zero, List.drop_zero, List.take_length] at whole

theorem Filling.run (filling : Filling file accepted state) {deliveries : List file.Block}
    (orderly : AllOrderly file state deliveries) : Receives file accepted state deliveries := by
  induction deliveries generalizing state accepted with
  | nil => exact filling.faithful
  | cons block rest ih =>
      refine ⟨filling.faithful, ?_⟩
      have continues := filling.deliver orderly.1
      have later := orderly.2
      revert continues later
      generalize file.deliver state block = answer
      obtain ⟨outcome, next⟩ := answer
      intro continues later
      cases outcome with
      | returned code => exact ih continues (later _ _ rfl (by simp))
      | threw message => exact ih continues (later _ _ rfl (by simp))
      | faulted fault =>
          change next.stream.file = [] at continues
          change next.stream.file <+: file.content
          rw [continues]
          exact List.nil_prefix

end Calls

/-- A received file is a prefix of the content after the next delivery as well. -/
theorem Receives.next {file : SplitFile} {accepted : List file.Block} {state : FileState} {block : file.Block}
    {rest : List file.Block} (receives : Receives file accepted state (block :: rest)) :
    (file.deliver state block).2.stream.file <+: file.content := by
  have faithful {accepted : List file.Block} {state : FileState} {rest : List file.Block}
      (receives : Receives file accepted state rest) : state.stream.file <+: file.content := by
    cases rest with
    | nil => exact receives.1
    | cons block rest => exact receives.1.1
  obtain ⟨-, later⟩ := receives
  revert later
  generalize file.deliver state block = answer
  obtain ⟨outcome, next⟩ := answer
  intro later
  cases outcome with
  | returned code => exact faithful later
  | threw message => exact faithful later
  | faulted fault => exact later

/-- The recycled nodes form one chain of allocated nodes. -/
def PoolFormed (heap : NodeHeap) (pool : NodePool) : Prop :=
  ∃ cells, Chain.Linked heap.links cells ∧ cells.Nodup ∧ cells.head? = pool.recycledHead ∧
    ∀ cell ∈ cells, cell < heap.brk

/-- A new stream has an empty head node that nothing else leads to. -/
theorem fileRcvStream_filling (file : SplitFile) {heap : NodeHeap} {pool : NodePool}
    (formed : PoolFormed heap pool) (capacity : Nat) : Filling file [] (fileRcvStream heap pool capacity) := by
  obtain ⟨cells, linked, nodup, first, allocated⟩ := formed
  have alone : ∃ others, HeadAlone (fileRcvStream heap pool capacity) others := by
    rw [fileRcvStream, NodePool.pop]
    cases cells with
    | nil =>
        rw [← first]
        refine ⟨∅, rfl, by simp, Nat.lt_succ_self _, by simp, by simp, ?_, ?_⟩
        · intro next link
          simp [NodeHeap.newNode] at link
        · intro next found
          cases first.trans found
    | cons head rest =>
        rw [← first]
        have link : (heap.node head).toTail = rest.head? := by
          have following : heap.links head = (head :: rest)[1]? := linked.next_eq rfl
          rw [NodeHeap.links] at following
          rw [following, List.head?_eq_getElem?]
          rfl
        obtain ⟨notIn, -⟩ := List.nodup_cons.mp nodup
        refine ⟨{cell | cell ∈ rest}, rfl, notIn, allocated head (List.mem_cons_self ..),
          fun cell member => allocated cell (List.mem_cons_of_mem _ member), ?_, ?_, ?_⟩
        · intro cell member next found
          obtain ⟨index, here⟩ := List.mem_iff_getElem?.mp member
          have following : heap.links cell = rest[index + 1]? := linked.tail.next_eq here
          rw [NodeHeap.links] at following
          exact List.mem_of_getElem? (following.symm.trans found)
        · intro next found
          exact List.mem_of_head? (link.symm.trans found)
        · intro next found
          exact List.mem_of_head? (link.symm.trans found)
  refine ⟨alone, rfl, rfl, rfl, Nat.zero_le _, ⟨0, Nat.zero_le _, rfl⟩, ?_, ?_, ?_⟩
  · intro index below
    cases below
  · intro front found
    cases found
  · intro block member
    cases member

/-- A new stream receives the file in every run whose blocks are orderly when they arrive. -/
theorem run_receives (file : SplitFile) {heap : NodeHeap} {pool : NodePool} (formed : PoolFormed heap pool)
    (capacity : Nat) {deliveries : List file.Block}
    (orderly : AllOrderly file (fileRcvStream heap pool capacity) deliveries) :
    Receives file [] (fileRcvStream heap pool capacity) deliveries :=
  (fileRcvStream_filling file formed capacity).run orderly

/-- Two bytes in two blocks. -/
def twoBlocks : SplitFile where
  content := [1, 2]
  sizes := [1, 1]
  small := by decide
  whole := rfl
  bounded := by decide

/-- Four bytes in four blocks. -/
def fourBlocks : SplitFile where
  content := [1, 2, 3, 4]
  sizes := [1, 1, 1, 1]
  small := by decide
  whole := rfl
  bounded := by decide

theorem empty_formed (heap : NodeHeap) : PoolFormed heap NodePool.empty :=
  ⟨[], Chain.linked_nil _, List.nodup_nil, rfl, by simp⟩

/-- The last block arrives first and stays unsequenced, then the first two arrive in order, the first one twice. -/
theorem run_receives_unsequenced : Receives fourBlocks [] (fileRcvStream blankNodes NodePool.empty 8)
    [⟨3, by decide⟩, ⟨0, by decide⟩, ⟨0, by decide⟩, ⟨1, by decide⟩] := by
  have clear {state : FileState} {seq length : U32} (list : List (U32 × U32)) (listed : state.stream.ubList = list)
      (gap : ∀ front ∈ list.head?, front.1 ≠ seq + length)
      (room : state.stream.headByteCount.toNat + length.toNat ≤ 4096) : Orderly state seq length := by
    intro _
    rw [listed]
    exact ⟨gap, room⟩
  refine run_receives fourBlocks (empty_formed blankNodes) 8 ⟨clear [] rfl (by simp) (by decide), ?_⟩
  intro outcome next delivered _
  obtain rfl := congrArg Prod.snd delivered
  refine ⟨clear [(3, 4)] rfl (fun _ member => by cases member; decide) (by decide), ?_⟩
  intro outcome next delivered _
  obtain rfl := congrArg Prod.snd delivered
  refine ⟨clear [(3, 4)] rfl (fun _ member => by cases member; decide) (by decide), ?_⟩
  intro outcome next delivered _
  obtain rfl := congrArg Prod.snd delivered
  exact ⟨clear [(3, 4)] rfl (fun _ member => by cases member; decide) (by decide), fun _ _ _ _ => trivial⟩

/-- The loop of the merging case only adds to the file. -/
theorem mergeLoop_file (rounds : Nat) : ∀ {state : FileState} {mergeLength : Int},
    state.stream.tail = state.stream.head →
    state.stream.file.length ≤ (finish 0 (mergeLoop rounds state mergeLength)).2.stream.file.length := by
  induction rounds with
  | zero => exact fun _ => le_refl _
  | succ rounds ih =>
      intro state mergeLength single
      rw [mergeLoop]
      dsimp only
      rw [flushNode_eq single]
      by_cases short : mergeLength < (nodeSize : Int)
      · rw [if_pos short]
        dsimp only
        split_ifs with overflow
        · simp [finish]
        · refine le_trans ?_ (ih single)
          simp
      · rw [if_neg short]
        exact le_refl _

/-- A short merge flushes a whole node. -/
theorem mergeLoop_flushes (rounds : Nat) {state : FileState} {mergeLength : Int} (short : mergeLength < 4096)
    (single : state.stream.tail = state.stream.head) :
    4096 ≤ (finish 0 (mergeLoop (rounds + 1) state mergeLength)).2.stream.file.length := by
  rw [mergeLoop]
  dsimp only
  rw [flushNode_eq single, if_pos (show mergeLength < (nodeSize : Int) from short)]
  dsimp only
  split_ifs with overflow
  · simp [finish]
  · refine le_trans ?_ (mergeLoop_file rounds single)
    simp

/-- The merging case of `Append` flushes a whole node when the merged bytes fill none. -/
theorem append_flushes {state : FileState} {seq length : U32} {data : Memory} {front : U32 × U32}
    {rest : List (U32 × U32)} (inTime : ¬ 0 < (state.stream.lastSeq - seq).toInt)
    (checked : checkUB state.stream seq length = (.merging, front :: rest))
    (single : state.stream.tail = state.stream.head)
    (inside : state.stream.headByteCount.toNat + length.toNat ≤ nodeSize)
    (short : (length + front.2 - front.1).toInt < 4096) :
    4096 ≤ (append state seq length data).2.stream.file.length := by
  rw [append]
  dsimp only
  rw [if_neg inTime, checked]
  dsimp only
  rw [appendMerging]
  dsimp only
  have fit : ¬ (2 : Int) ^ 31 ≤ state.stream.headByteCount.toNat + (length + front.2 - front.1).toInt := by
    have count := state.stream.headByteCount.isLt
    omega
  rw [if_pos (fits_head inside), copyTo_head inside]
  dsimp only
  rw [if_neg fit]
  exact mergeLoop_flushes _ short single

/-- Two blocks in the wrong order: the file is longer than its content. -/
theorem swapped_blocks_overflow : PoolFormed blankNodes NodePool.empty ∧
    ¬ Receives twoBlocks [] (fileRcvStream blankNodes NodePool.empty 8) [⟨1, by decide⟩, ⟨0, by decide⟩] := by
  refine ⟨empty_formed blankNodes, ?_⟩
  rintro ⟨-, received⟩
  change Receives twoBlocks [⟨1, by decide⟩]
    (twoBlocks.deliver (fileRcvStream blankNodes NodePool.empty 8) ⟨1, by decide⟩).2 [⟨0, by decide⟩] at received
  have merged : 4096 ≤ (twoBlocks.deliver
      (twoBlocks.deliver (fileRcvStream blankNodes NodePool.empty 8) ⟨1, by decide⟩).2
      ⟨0, by decide⟩).2.stream.file.length := by
    rw [SplitFile.deliver]
    apply append_flushes
    case checked => rfl
    case inTime => decide
    case single => rfl
    case inside => decide
    case short => decide
  have short := received.next.length_le
  change _ ≤ 2 at short
  omega

end Altus.FileReceiveStream
