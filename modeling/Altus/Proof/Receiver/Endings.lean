import Altus.Proof.Host.Run
import Altus.Proof.Receiver.Payload

namespace Altus

open Bytes WindowedQueue

/-- The program ends by its own code: it calls `exit(-1)`, or an exception meets no handler. -/
def Fault.EndsProgram : Fault → Prop
  | .exit => True
  | .exception _ => True
  | _ => False

/-- A call neither calls `exit(-1)` nor lets an exception escape. -/
def Quiet {α : Type} (call : Except Fault α) : Prop := ∀ fault, call = .error fault → ¬ fault.EndsProgram

section Calls

variable {α β : Type} {call : Except Fault α}

theorem Quiet.ok (result : α) : Quiet (.ok result : Except Fault α) := by
  intro fault failed
  cases failed

theorem Quiet.error {fault : Fault} (quiet : ¬ fault.EndsProgram) : Quiet (.error fault : Except Fault α) := by
  rintro other failed
  cases failed
  exact quiet

theorem quiet_map {change : α → β} : Quiet (call.map change) ↔ Quiet call := by
  cases call with
  | error fault => exact ⟨fun quiet => Quiet.error (quiet fault rfl), fun quiet => Quiet.error (quiet fault rfl)⟩
  | ok result => exact ⟨fun _ => Quiet.ok result, fun _ => Quiet.ok (change result)⟩

/-- Two calls in a row end as the first one does when the second one always returns. -/
theorem quiet_bind {next : α → Except Fault β} (rest : ∀ result, Quiet (next result)) :
    Quiet (call.bind next) ↔ Quiet call := by
  cases call with
  | error fault => exact ⟨fun quiet => Quiet.error (quiet fault rfl), fun quiet => Quiet.error (quiet fault rfl)⟩
  | ok result => exact ⟨fun _ => Quiet.ok result, fun _ => rest result⟩

end Calls

namespace WindowedQueue

theorem altusWQNewNode_quiet (state : WQState) : Quiet (altusWQNewNode state) := by
  intro fault failed
  rw [altusWQNewNode] at failed
  split at failed
  · rename_i taken
    cases failed
    rw [takeNode] at taken
    split at taken
    · cases taken
    · split at taken
      · cases taken
        exact id
      · cases taken
  · cases failed

theorem copyLoop_quiet (length : U32) (data : Memory) (rounds : Nat) :
    ∀ (state : WQState) (currentNode : Option Ptr) (currentNodeSeq leftSeq leftLen : U32),
      Quiet (copyLoop length data rounds state currentNode currentNodeSeq leftSeq leftLen) := by
  induction rounds with
  | zero =>
      intro state currentNode currentNodeSeq leftSeq leftLen
      exact Quiet.error id
  | succ rounds ih =>
      intro state currentNode currentNodeSeq leftSeq leftLen fault failed
      rw [copyLoop.eq_def] at failed
      dsimp only at failed
      split at failed
      · cases failed
      split at failed
      · cases failed
        exact id
      split at failed
      · split at failed
        · rename_i made
          cases failed
          split at made
          · exact altusWQNewNode_quiet _ fault made
          · cases made
        · exact ih _ _ _ _ _ fault failed
      · generalize (if leftLen < currentNodeSeq + nodeSpan - leftSeq then leftLen
          else currentNodeSeq + nodeSpan - leftSeq) = writelen at failed
        split at failed
        · rename_i stopped
          cases failed
          rw [copyInto_fault stopped]
          exact id
        split at failed
        · rename_i looped
          cases failed
          split at looped
          · split at looped
            · rename_i made
              cases looped
              exact altusWQNewNode_quiet _ fault made
            · exact ih _ _ _ _ _ fault looped
          · exact ih _ _ _ _ _ fault looped
        · cases failed

theorem advanceLoop_quiet (newSeq : U32)
    (rounds : Nat) : ∀ state : WQState, Quiet (advanceLoop newSeq rounds state) := by
  induction rounds with
  | zero =>
      intro state
      exact Quiet.error id
  | succ rounds ih =>
      intro state fault failed
      rw [advanceLoop] at failed
      dsimp only at failed
      split at failed
      · split at failed
        · cases failed
          exact id
        · exact ih _ fault failed
      split at failed
      · split at failed
        · cases failed
          exact id
        · cases failed
      · cases failed

/-- The last branch of `altusWQPut`, which calls `exit(-1)`, is never taken. -/
theorem altusWQPut_quiet (state : WQState) (seq length : U32) (data : Memory) :
    Quiet (altusWQPut state seq length data) := by
  intro fault failed
  rw [altusWQPut_eq] at failed
  split at failed
  · rw [deliver] at failed
    split at failed
    · rename_i copied
      cases failed
      exact copyLoop_quiet _ _ _ _ _ _ _ _ fault copied
    · split at failed
      · rename_i absorbed
        cases failed
        rw [absorb] at absorbed
        split at absorbed
        · dsimp only at absorbed
          split at absorbed
          · rename_i advanced
            cases absorbed
            exact advanceLoop_quiet _ _ _ fault advanced
          · cases absorbed
        · cases absorbed
      · cases failed
  · cases failed

theorem altusWQPopNode_quiet (state : WQState) : Quiet (altusWQPopNode state) := by
  intro fault failed
  rw [altusWQPopNode] at failed
  dsimp only at failed
  split at failed
  · cases failed
  · split at failed
    · cases failed
      exact id
    · cases failed

theorem popLoop_quiet (length : Int) (rounds : Nat) :
    ∀ (state : WQState) (currentNode : Ptr) (leftLen : Int) (dest : Option Memory),
      Quiet (popLoop length rounds state currentNode leftLen dest) := by
  induction rounds with
  | zero =>
      intro state currentNode leftLen dest
      exact Quiet.error id
  | succ rounds ih =>
      intro state currentNode leftLen dest fault failed
      rw [popLoop] at failed
      dsimp only at failed
      generalize (if leftLen < ((state.heap.node currentNode).validBlockCount - state.window.headDataOffset).toInt
        then leftLen else ((state.heap.node currentNode).validBlockCount - state.window.headDataOffset).toInt) =
        writelen at failed
      split at failed
      · cases failed
      split at failed
      · cases failed
      split at failed
      · cases failed
        exact id
      split at failed
      · split at failed
        · rename_i popped
          cases failed
          exact altusWQPopNode_quiet _ fault popped
        · split at failed
          · cases failed
            exact id
          · split at failed
            · cases failed
            · exact ih _ _ _ _ fault failed
      split at failed
      · split at failed
        · rename_i popped
          cases failed
          exact altusWQPopNode_quiet _ fault popped
        · cases failed
      · exact ih _ _ _ _ fault failed

end WindowedQueue

namespace FileReceiveStream

/-- A part of `Append` neither calls `exit(-1)` nor throws. -/
def QuietPart (part : Part) : Prop := ∀ failed, part = .error failed → ¬ failed.1.EndsProgram

section Parts

variable {state : FileState} {seq length : U32} {data : Memory}

theorem QuietPart.error {failed : Fault × FileState} (quiet : ¬ failed.1.EndsProgram) :
    QuietPart (.error failed) := by
  rintro other same
  cases same
  exact quiet

theorem copyTo_quiet (state : FileState) (target : Option Ptr) (offset : Int) (source : Memory) (length : U32) :
    QuietPart (copyTo state target offset source length) := by
  intro failed copied
  rw [copyTo] at copied
  split at copied
  · rename_i fault faulted
    cases copied
    rw [NodeHeap.copyTo.eq_def] at faulted
    split at faulted
    · cases faulted
      exact id
    · split at faulted
      · cases faulted
      · cases faulted
        exact id
  · cases copied

theorem flushNode_quiet (state : FileState) : QuietPart (flushNode state) := by
  intro failed flushed
  rw [flushNode] at flushed
  split at flushed
  · cases flushed
  split at flushed
  · cases flushed
    exact id
  split at flushed
  · rename_i pushed
    cases flushed
    rw [NodePool.push] at pushed
    split at pushed
    · cases pushed
    · split at pushed
      · cases pushed
        exact id
      · cases pushed
  · cases flushed

theorem putUnSeqLoop_quiet (rounds : Nat) : ∀ (state : FileState) (targetNode : Option Ptr) (i : Int) failed,
    putUnSeqLoop rounds state targetNode i = .error failed → ¬ failed.1.EndsProgram := by
  induction rounds with
  | zero =>
      rintro state targetNode i failed looped
      cases looped
      exact id
  | succ rounds ih =>
      intro state targetNode i failed looped
      rw [putUnSeqLoop.eq_def] at looped
      dsimp only at looped
      split at looped
      · split at looped
        · cases looped
          exact id
        · exact ih _ _ _ failed looped
      · cases looped

theorem putUnSeq_quiet (state : FileState) (seq length : U32) (data : Memory) :
    QuietPart (putUnSeq state seq length data) := by
  intro failed put
  rw [putUnSeq] at put
  dsimp only at put
  split at put
  · rename_i looped
    cases put
    exact putUnSeqLoop_quiet _ _ _ _ failed looped
  split at put
  · exact copyTo_quiet _ _ _ _ _ failed put
  split at put
  · rename_i copied
    cases put
    exact copyTo_quiet _ _ _ _ _ failed copied
  split at put
  · cases put
    exact id
  · exact copyTo_quiet _ _ _ _ _ failed put

theorem appendOnSeq_quiet (state : FileState) (length : U32) (data : Memory) :
    QuietPart (appendOnSeq state length data) := by
  intro failed appended
  rw [appendOnSeq] at appended
  dsimp only at appended
  split at appended
  · split at appended
    · rename_i copied
      cases appended
      exact copyTo_quiet _ _ _ _ _ failed copied
    · cases appended
  split at appended
  · rename_i copied
    cases appended
    exact copyTo_quiet _ _ _ _ _ failed copied
  split at appended
  · rename_i copied
    cases appended
    exact copyTo_quiet _ _ _ _ _ failed copied
  · exact flushNode_quiet _ failed appended

theorem mergeLoop_quiet (rounds : Nat) : ∀ (state : FileState) (mergeLength : Int),
    QuietPart (mergeLoop rounds state mergeLength) := by
  induction rounds with
  | zero =>
      intro state mergeLength
      exact QuietPart.error id
  | succ rounds ih =>
      intro state mergeLength failed looped
      rw [mergeLoop] at looped
      split at looped
      · split at looped
        · rename_i flushed
          cases looped
          exact flushNode_quiet _ failed flushed
        split at looped
        · cases looped
          exact id
        · exact ih _ _ failed looped
      · cases looped

theorem appendMerging_quiet (state : FileState) (front : U32 × U32) (length : U32) (data : Memory) :
    QuietPart (appendMerging state front length data) := by
  intro failed merged
  rw [appendMerging] at merged
  dsimp only at merged
  split at merged
  · rename_i copied
    cases merged
    split at copied
    · exact copyTo_quiet _ _ _ _ _ failed copied
    split at copied
    · rename_i first
      cases copied
      exact copyTo_quiet _ _ _ _ _ failed first
    · exact copyTo_quiet _ _ _ _ _ failed copied
  split at merged
  · cases merged
    exact id
  · exact mergeLoop_quiet _ _ _ failed merged

end Parts

section Malicious

variable {stream : FileRcvStream} {headSeq seq length : U32} {capacity size : Nat}

/-- The entry lies before the block and does not touch it. -/
def Passed (seq : U32) (run : U32 × U32) : Prop := ¬ 0 < (run.1 - seq).toInt ∧ (run.2 - seq).toInt < 0

instance (seq : U32) (run : U32 × U32) : Decidable (Passed seq run) := inferInstanceAs (Decidable (_ ∧ _))

/-- The block begins before the entry and ends behind its first byte, or begins inside the entry and ends behind it. -/
def Straddles (seq length : U32) (run : U32 × U32) : Prop :=
  0 < (run.1 - seq).toInt ∧ (run.1 - (seq + length)).toInt < 0 ∨
    ¬ 0 < (run.1 - seq).toInt ∧ 0 < (run.2 - seq).toInt ∧ (run.2 - (seq + length)).toInt < 0

/-- The block straddles the first entry that does not lie before it. A block at `lastSeq` reaches into the first
entry. -/
def RunsInto (stream : FileRcvStream) (seq length : U32) : Prop :=
  if seq = stream.lastSeq then ∃ front ∈ stream.ubList.head?, (front.1 - (seq + length)).toInt < 0
  else ∃ run ∈ stream.ubList.find? fun run => ¬ Passed seq run, Straddles seq length run

theorem checkUBFrom_malicious_iff (list : List (U32 × U32)) :
    (checkUBFrom headSeq capacity size seq length list).1 = .malicious ↔
      ∃ run ∈ list.find? fun run => ¬ Passed seq run, Straddles seq length run := by
  induction list with
  | nil =>
      rw [checkUBFrom]
      split_ifs <;> simp
  | cons front rest ih =>
      obtain ⟨currentHS, currentTS⟩ := front
      rw [checkUBFrom.eq_def]
      dsimp only
      by_cases before : 0 < (currentHS - seq).toInt
      · have stops : ¬ Passed seq (currentHS, currentTS) := fun passed => passed.1 before
        rw [if_pos before, List.find?_cons_of_pos (by simpa using stops)]
        simp only [Option.mem_some_iff, exists_eq_left', Straddles, before, true_and, not_true_eq_false, false_and,
          or_false, Serial.sub_neg_iff, ne_comm (b := seq + length), ne_eq]
        split_ifs <;> simp only [true_iff, false_iff] <;> tauto
      rw [if_neg before]
      by_cases inside : 0 < (currentTS - seq).toInt
      · have stops : ¬ Passed seq (currentHS, currentTS) := fun passed => absurd passed.2 (by dsimp only; omega)
        rw [if_pos inside, List.find?_cons_of_pos (by simpa using stops)]
        simp only [Option.mem_some_iff, exists_eq_left', Straddles, before, inside, true_and, not_false_eq_true,
          false_and, false_or]
        split_ifs <;> simp only [true_iff, false_iff] <;> omega
      rw [if_neg inside]
      by_cases adjacent : seq = currentTS
      · have zero : (currentTS - seq).toInt = 0 := Serial.sub_toInt_eq_zero.mpr adjacent.symm
        have stops : ¬ Passed seq (currentHS, currentTS) := fun passed => absurd passed.2 (by dsimp only; omega)
        rw [if_pos adjacent, List.find?_cons_of_pos (by simpa using stops)]
        simp only [Option.mem_some_iff, exists_eq_left', Straddles, before, inside, false_and, and_false, or_false,
          iff_false]
        cases rest with
        | nil =>
            dsimp only
            split_ifs <;> simp
        | cons next tail =>
            dsimp only
            split_ifs with differs full bridges
            · simp
            · simp
            · simp
            · -- The unsigned comparison only fails for equal numbers.
              exact absurd (Serial.sub_pos_iff_ne.mpr bridges) differs
      · have zero : (currentTS - seq).toInt ≠ 0 := fun same => adjacent (Serial.sub_toInt_eq_zero.mp same).symm
        have passed : Passed seq (currentHS, currentTS) := ⟨before, by dsimp only; omega⟩
        rw [if_neg adjacent, List.find?_cons_of_neg (by simpa using passed)]
        exact ih

/-- `CheckUB` calls a block malicious exactly when it runs into an entry. -/
theorem checkUB_malicious_iff : (checkUB stream seq length).1 = .malicious ↔ RunsInto stream seq length := by
  rw [checkUB, RunsInto]
  by_cases sequenced : seq = stream.lastSeq
  · rw [if_pos sequenced, if_pos sequenced]
    cases stream.ubList with
    | nil => simp
    | cons front rest =>
        simp only [List.head?_cons, Option.mem_some_iff, exists_eq_left', Serial.sub_neg_iff, ne_eq]
        split_ifs <;> simp only [true_iff, false_iff] <;> tauto
  · rw [if_neg sequenced, if_neg sequenced]
    exact checkUBFrom_malicious_iff stream.ubList

/-- `Append` throws exactly on a block that is in time and runs into an entry. -/
theorem append_threw_iff {state : FileState} {data : Memory} :
    (∃ message, (append state seq length data).1 = .threw message) ↔
      ¬ 0 < (state.stream.lastSeq - seq).toInt ∧ RunsInto state.stream seq length := by
  have malicious := @checkUB_malicious_iff state.stream seq length
  rw [append]
  dsimp only
  by_cases late : 0 < (state.stream.lastSeq - seq).toInt
  · rw [if_pos late]
    refine iff_of_false ?_ fun runs => runs.1 late
    rintro ⟨message, threw⟩
    cases threw
  rw [if_neg late]
  generalize checkUB state.stream seq length = answer at malicious ⊢
  obtain ⟨message, ubList⟩ := answer
  rw [← malicious, and_iff_right late]
  have ended {code : Int} {part : Part} : ¬ ∃ message, (finish code part).1 = .threw message := by
    rintro ⟨message, threw⟩
    cases part <;> cases threw
  cases message with
  | malicious => simp
  | full | overlap => simp
  | extended | added | onSeq => simpa using ended
  | merging =>
      cases ubList with
      | nil => simp
      | cons front rest => simpa using ended

/-- No fault of `Append` is an exit or an exception. -/
theorem append_faulted {state : FileState} {data : Memory} {fault : Fault}
    (faulted : (append state seq length data).1 = .faulted fault) : ¬ fault.EndsProgram := by
  have ended {code : Int} {part : Part} (quiet : QuietPart part) (failed : (finish code part).1 = .faulted fault) :
      ¬ fault.EndsProgram := by
    cases part with
    | ok final => cases failed
    | error pair =>
        obtain rfl : pair.1 = fault := Outcome.faulted.inj failed
        exact quiet pair rfl
  rw [append] at faulted
  dsimp only at faulted
  split at faulted
  · cases faulted
  generalize checkUB state.stream seq length = answer at faulted
  obtain ⟨message, ubList⟩ := answer
  cases message with
  | full | overlap | malicious => cases faulted
  | extended | added => exact ended (putUnSeq_quiet _ _ _ _) faulted
  | onSeq => exact ended (appendOnSeq_quiet _ _ _) faulted
  | merging =>
      cases ubList with
      | nil =>
          cases faulted
          exact id
      | cons front rest => exact ended (appendMerging_quiet _ _ _ _) faulted

end Malicious

end FileReceiveStream

namespace Channel

variable {pools : Pools} {channel : Channel} {buf : Memory} {size : Int}

theorem receiveData_quiet : Quiet (channel.receiveData pools buf size) := by
  rw [receiveData]
  split
  · rw [quiet_map, put, quiet_map]
    exact altusWQPut_quiet _ _ _ _
  · exact Quiet.error id

theorem receiveAck_quiet : Quiet (channel.receiveAck pools buf) := by
  rw [receiveAck]
  split
  · exact Quiet.ok _
  split
  · exact Quiet.ok _
  split
  · rw [pop, quiet_map]
    exact popLoop_quiet _ _ _ _ _ _
  · exact Quiet.error id

/-- A file stream lets an exception escape exactly when the block runs into an entry. -/
theorem receiveFile_quiet_iff {stream : FileRcvStream} (storage : channel.storage = .frstream stream) :
    Quiet (channel.receiveFile pools buf size) ↔ ¬ (¬ 0 < (stream.lastSeq - ntohl buf 4).toInt ∧
      FileReceiveStream.RunsInto stream (ntohl buf 4) (payloadWord buf size)) := by
  have threw := @FileReceiveStream.append_threw_iff (ntohl buf 4) (payloadWord buf size)
    ⟨pools.nodes, pools.newPool, stream⟩ (shift buf rdtHeaderSize)
  have faulted := @FileReceiveStream.append_faulted (ntohl buf 4) (payloadWord buf size)
    ⟨pools.nodes, pools.newPool, stream⟩ (shift buf rdtHeaderSize)
  rcases appended : FileReceiveStream.append ⟨pools.nodes, pools.newPool, stream⟩ (ntohl buf 4)
    (payloadWord buf size) (shift buf rdtHeaderSize) with ⟨outcome, next⟩
  rw [appended] at threw faulted
  rw [← threw]
  rw [payloadWord] at appended
  cases outcome with
  | returned code =>
      simp only [receiveFile, storage, appended]
      refine iff_of_true (Quiet.ok _) ?_
      rintro ⟨message, same⟩
      cases same
  | threw message =>
      simp only [receiveFile, storage, appended]
      exact iff_of_false (fun quiet => quiet _ rfl trivial) fun never => never ⟨message, rfl⟩
  | faulted fault =>
      simp only [receiveFile, storage, appended]
      refine iff_of_true (Quiet.error (faulted rfl)) ?_
      rintro ⟨message, same⟩
      cases same

/-- What `answer` does with a code ends no program. -/
theorem answer_quiet (buf : Memory) (code : Int) (pools : Pools) (channel : Channel) :
    Quiet (channel.answer buf code pools) := by
  rw [answer]
  split
  · exact Quiet.ok _
  split
  · split
    · exact Quiet.ok _
    · exact Quiet.error id
  · exact Quiet.ok _

theorem answer_channel {code : Int} {result : Int × List Datagram × Pools × Channel}
    (answered : channel.answer buf code pools = .ok result) : result.2.2.2 = channel := by
  rw [answer] at answered
  split at answered
  · rw [← Except.ok.inj answered]
  split at answered
  · split at answered
    · rw [← Except.ok.inj answered]
    · cases answered
  · rw [← Except.ok.inj answered]

/-- The kinds of channels that a peer creates. -/
def OfPeer (channel : Channel) : Prop := channel.type = .rdtStream ∨ channel.type = .fileStreamRcv

/-- The block of a datagram for a receiving file stream is in time and runs into an entry. -/
def RunsIntoEntry (channel : Channel) (buf : Memory) (size : Int) : Prop :=
  channel.isReceiving = true ∧ channel.type = .fileStreamRcv ∧ ∃ stream, channel.storage = .frstream stream ∧
    ¬ 0 < (stream.lastSeq - ntohl buf 4).toInt ∧
    FileReceiveStream.RunsInto stream (ntohl buf 4) (payloadWord buf size)

theorem receive_quiet_iff (ofPeer : channel.OfPeer) :
    Quiet (channel.receive pools buf size) ↔ ¬ channel.RunsIntoEntry buf size := by
  rw [receive]
  rcases ofPeer with type | type
  · rw [type]
    refine iff_of_true ?_ fun runs => absurd (type.symm.trans runs.2.1) (by decide)
    split
    · exact receiveData_quiet
    · exact quiet_map.mpr receiveAck_quiet
  · rw [type]
    split
    · rename_i receiving
      cases storage : channel.storage with
      | frstream stream =>
          dsimp only
          rw [receiveFile_quiet_iff storage, not_iff_not]
          constructor
          · exact fun runs => ⟨receiving, type, stream, storage, runs⟩
          · rintro ⟨-, -, other, same, runs⟩
            obtain rfl := Storage.frstream.inj (storage.symm.trans same)
            exact runs
      | null | buffer window | storage memory =>
          dsimp only
          rw [receiveFile, storage]
          refine iff_of_true (Quiet.error id) ?_
          rintro ⟨-, -, other, same, -⟩
          cases storage.symm.trans same
    · rename_i sending
      exact iff_of_true (Quiet.ok _) fun runs => sending runs.1

theorem put_type {window : WQWindow} {seq length : U32} {data : Memory} {code : Int} {next : Pools} {after : Channel}
    (taken : put pools channel window seq length data = .ok (code, next, after)) : after.type = channel.type := by
  obtain ⟨inner, -, stored⟩ := map_ok taken
  rw [← congrArg (fun result : Int × Pools × Channel => result.2.2.type) stored]

theorem receiveAck_type {code popped : Int} {next : Pools} {after : Channel}
    (received : channel.receiveAck pools buf = .ok (code, popped, next, after)) : after.type = channel.type := by
  rw [receiveAck] at received
  split at received
  · rw [← congrArg (fun result => result.2.2.2.type) (Except.ok.inj received)]
  split at received
  · rw [← congrArg (fun result => result.2.2.2.type) (Except.ok.inj received)]
  split at received
  · obtain ⟨inner, -, stored⟩ := map_ok received
    rw [← congrArg (fun result : Int × Int × Pools × Channel => result.2.2.2.type) stored]
  · cases received

/-- `channel::receive` changes the type of no channel. -/
theorem OfPeer.receive_type {next : Pools} {after : Channel} {code : Int} (ofPeer : channel.OfPeer)
    (received : channel.receive pools buf size = .ok (code, next, after)) : after.type = channel.type := by
  rw [receive] at received
  rcases ofPeer with type | type
  · rw [type] at received
    dsimp only at received
    split at received
    · rw [receiveData] at received
      split at received
      · obtain ⟨inner, taken, result⟩ := map_ok received
        obtain rfl : inner.2.2 = after := congrArg (fun result => result.2.2) result
        exact put_type taken
      · cases received
    · obtain ⟨inner, acknowledged, result⟩ := map_ok received
      obtain rfl : inner.2.2.2 = after := congrArg (fun result => result.2.2) result
      exact receiveAck_type acknowledged
  · rw [type] at received
    dsimp only at received
    split at received
    · rw [receiveFile] at received
      split at received
      · dsimp only at received
        split at received
        · rw [← congrArg (fun result => result.2.2.type) (Except.ok.inj received)]
        · cases received
        · cases received
      · cases received
    · rw [← congrArg (fun result => result.2.2.type) (Except.ok.inj received)]

end Channel

namespace Peer

variable {peer : Peer} {buf : Memory} {size : Int}

/-- The peers after any sequence of received datagrams. The other peers of the host change the pools in between. -/
inductive Received : Peer → Prop where
  | server (pools : Pools) (prepeer : SPrePeer) (remoteAddr : Address) (raw : Raw) :
      Received (serverPeer pools prepeer remoteAddr raw).2
  | client (pools : Pools) (prepeer : CPrePeer) (remoteAddr : Address) (raw : Raw) :
      Received (clientPeer pools prepeer remoteAddr raw).2
  | datagram {peer after : Peer} {pools next : Pools} {buf : Memory} {size code : Int} {sent : List Datagram} :
      Received peer → peer.processPacket pools buf size = .ok (code, sent, next, after) → Received after

theorem channels_ofPeer {first second third fourth : Channel} (one : first.OfPeer) (two : second.OfPeer)
    (three : third.OfPeer) (four : fourth.OfPeer) {cuid : U16} {channel : Channel}
    (found : channels first second third fourth cuid = some channel) : channel.OfPeer := by
  rw [channels] at found
  split_ifs at found
  · exact Option.some.inj found ▸ one
  · exact Option.some.inj found ▸ two
  · exact Option.some.inj found ▸ three
  · exact Option.some.inj found ▸ four

/-- A datagram changes the channel that it selects. -/
theorem processPacket_channel {pools next : Pools} {after : Peer} {code : Int} {sent : List Datagram}
    (returned : peer.processPacket pools buf size = .ok (code, sent, next, after)) {cuid : U16} {channel : Channel}
    (found : after.ch cuid = some channel) : peer.ch cuid = some channel ∨
      ∃ selected middle code, peer.ch cuid = some selected ∧
        selected.receive pools buf size = .ok (code, middle, channel) := by
  rw [processPacket] at returned
  dsimp only at returned
  split at returned
  · obtain rfl : peer = after := congrArg (fun result => result.2.2.2) (Except.ok.inj returned)
    exact Or.inl found
  · rename_i selected chosen
    obtain ⟨inner, processed, result⟩ := map_ok returned
    obtain rfl : { peer with ch := Function.update peer.ch (ntohs buf 0) (some inner.2.2.2) } = after :=
      congrArg (fun result : Int × List Datagram × Pools × Peer => result.2.2.2) result
    dsimp only at found
    by_cases same : cuid = ntohs buf 0
    · subst same
      rw [Function.update_self] at found
      obtain rfl := Option.some.inj found
      obtain ⟨⟨code, middle, changed⟩, received, answered⟩ := bind_ok processed
      rw [Channel.answer_channel answered]
      exact Or.inr ⟨selected, middle, code, chosen, received⟩
    · rw [Function.update_of_ne same] at found
      exact Or.inl found

/-- Every channel of a peer is a stream. -/
theorem Received.ofPeer (received : Received peer) {cuid : U16} {channel : Channel}
    (found : peer.ch cuid = some channel) : channel.OfPeer := by
  induction received generalizing channel with
  | server pools prepeer remoteAddr raw =>
      exact channels_ofPeer (Or.inl rfl) (Or.inl rfl) (Or.inr rfl) (Or.inl rfl) found
  | client pools prepeer remoteAddr raw =>
      exact channels_ofPeer (Or.inl rfl) (Or.inl rfl) (Or.inl rfl) (Or.inr rfl) found
  | datagram before returned ih =>
      rcases processPacket_channel returned found with same | ⟨selected, middle, code, chosen, received⟩
      · exact ih same
      · rw [Channel.OfPeer, (ih chosen).receive_type received]
        exact ih chosen

/-- A datagram ends the host by an exception or an `exit` exactly when its block runs into an entry of a file stream. A fault
such as a null pointer is none of these. -/
theorem Received.processPacket_quiet_iff (received : Received peer) (pools : Pools) (buf : Memory) (size : Int) :
    Quiet (peer.processPacket pools buf size) ↔
      ¬ ∃ channel, peer.ch (ntohs buf 0) = some channel ∧ channel.RunsIntoEntry buf size := by
  rw [processPacket]
  dsimp only
  cases found : peer.ch (ntohs buf 0) with
  | none => exact iff_of_true (Quiet.ok _) (by simp)
  | some channel =>
      dsimp only
      rw [quiet_map, Channel.processPacket, quiet_bind fun result => Channel.answer_quiet buf _ _ _,
        Channel.receive_quiet_iff (received.ofPeer found)]
      simp

end Peer

end Altus
