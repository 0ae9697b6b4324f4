import Altus.Proof.FileStream.Append
import Altus.Proof.Sender.Packet
import Altus.Proof.Window.Initial
import Altus.Proof.Window.Put

namespace Altus.Channel

open Bytes WindowedQueue

/-- A receiving `rdt_stream` or `file_stream_rcv` takes one block of a stream. -/
def takeBlock (pools : Pools) (channel : Channel) (seq : U32) (bytes : List Byte) :
    Except Fault (Int × Pools × Channel) :=
  match channel.storage with
  | .buffer window =>
      (put pools channel window seq (BitVec.ofNat 32 bytes.length) (ofList bytes)).map
        fun (_, pools, channel) => (1, pools, channel)
  | .frstream stream =>
      match FileReceiveStream.append ⟨pools.nodes, pools.newPool, stream⟩ seq (BitVec.ofNat 32 bytes.length)
          (ofList bytes) with
      | (.returned _, state) =>
          .ok (0, { pools with nodes := state.heap, newPool := state.pool },
            { channel with storage := .frstream state.stream })
      | (.threw message, _) => .error (.exception message)
      | (.faulted fault, _) => .error fault
  | _ => .error .nullDereference

/-- A channel that receives the blocks of a stream. -/
def ReceivesStream (channel : Channel) : Prop :=
  channel.isReceiving = true ∧
    ((channel.type = .rdtStream ∧ ∃ window, channel.storage = .buffer window) ∨
      (channel.type = .fileStreamRcv ∧ ∃ stream, channel.storage = .frstream stream))

/-- The receiver of a datagram selects its channel and hands on its block, whatever stands behind it in the buffer. -/
def HandsOn (datagram : Datagram) (cuid : U16) (seq : U32) (bytes : List Byte) : Prop :=
  ∀ buf : Memory, read buf datagram.length = datagram → ∀ (pools : Pools) (peer : Peer),
    peer.processPacket pools buf datagram.length =
        (match peer.ch cuid with
        | none => .ok (-1, [], pools, peer)
        | some channel => (channel.processPacket pools buf datagram.length).map fun (code, sent, pools, channel) =>
            (code, sent, pools, { peer with ch := Function.update peer.ch cuid (some channel) })) ∧
      ∀ channel : Channel, channel.ReceivesStream →
        channel.receive pools buf datagram.length = channel.takeBlock pools seq bytes

section Decode

variable {datagram : Datagram} {cuid : U16} {seq : U32} {bytes : List Byte} {buf : Memory}

/-- The buffer holds the fields and the bytes of the datagram. -/
theorem Encodes.fields (encodes : Encodes datagram cuid seq bytes) (received : read buf datagram.length = datagram) :
    ntohs buf 0 = cuid ∧ ntohl buf 4 = seq ∧ buf 3 = 1 ∧
      (datagram.length : Int) - 8 - (buf 2).toNat = bytes.length ∧
      ∀ index < bytes.length, shift buf 8 index = ofList bytes index := by
  have length := encodes.length
  have same {index : Nat} (inside : index < datagram.length) : buf index = ofList datagram index := by
    rw [← ofList_read buf inside, received]
  have padding : paddingOf datagram = (buf 2).toNat := by rw [paddingOf, same (by omega)]
  refine ⟨?_, ?_, ?_, ?_, ?_⟩
  · rw [← encodes.channel]
    apply ntohs_congr
    intro index inside
    exact same (by omega)
  · rw [← encodes.sequence]
    apply ntohl_congr
    intro index inside
    exact same (by omega)
  · rw [same (by omega), encodes.flags]
  · omega
  · intro index inside
    have carried := encodes.bytes
    have count : payloadLength datagram = bytes.length := by rw [payloadLength]; omega
    rw [payload, count] at carried
    have found : ofList ((datagram.drop 8).take bytes.length) index = ofList bytes index := by rw [carried]
    rw [← found, shift, same (by omega), ofList, ofList, List.getD_eq_getElem?_getD, List.getD_eq_getElem?_getD,
      List.getElem?_take, if_pos inside, List.getElem?_drop]

/-- `channel::receive` of the datagram takes its block. -/
theorem Encodes.receive (encodes : Encodes datagram cuid seq bytes) (received : read buf datagram.length = datagram)
    (pools : Pools) (channel : Channel) (receives : channel.ReceivesStream) :
    channel.receive pools buf datagram.length = channel.takeBlock pools seq bytes := by
  obtain ⟨-, sequence, flags, count, body⟩ := encodes.fields received
  have small : bytes.length < 2 ^ 32 := by
    have bound := encodes.bound
    have length := encodes.length
    omega
  have word : BitVec.ofInt 32 ((datagram.length : Int) - 8 - (buf 2).toNat) = BitVec.ofNat 32 bytes.length := by
    rw [count, BitVec.ofInt_natCast]
  have agree : ∀ index < (BitVec.ofNat 32 bytes.length).toNat, shift buf 8 index = ofList bytes index := by
    rw [BitVec.toNat_ofNat, Nat.mod_eq_of_lt small]
    exact body
  obtain ⟨receiving, stream⟩ := receives
  rw [Channel.receive, if_pos receiving]
  rcases stream with ⟨type, window, storage⟩ | ⟨type, stream, storage⟩
  · rw [type, takeBlock, storage]
    dsimp only
    rw [receiveData, storage]
    dsimp only
    rw [show ((rdtHeaderSize : Nat) : Int) = 8 from rfl, word, sequence, flags, put, put, altusWQPut_congr _ _ agree]
    rfl
  · rw [type, takeBlock, storage]
    dsimp only
    rw [receiveFile, storage]
    dsimp only
    rw [show ((rdtHeaderSize : Nat) : Int) = 8 from rfl, word, sequence]
    have appended := FileReceiveStream.append_congr agree ⟨pools.nodes, pools.newPool, stream⟩ seq
    generalize FileReceiveStream.append _ seq _ (shift buf rdtHeaderSize) = outcome at appended
    subst appended
    rcases FileReceiveStream.append _ seq _ (ofList bytes) with ⟨_ | _ | _, state⟩ <;> rfl

theorem Encodes.handsOn (encodes : Encodes datagram cuid seq bytes) : HandsOn datagram cuid seq bytes := by
  intro buf received pools peer
  constructor
  · rw [Peer.processPacket]
    dsimp only
    obtain rfl := (encodes.fields received).1
    cases peer.ch (ntohs buf 0) <;> rfl
  · exact encodes.receive received pools

end Decode

/-- The bytes of the pieces of one round. A long first piece is sent alone. -/
def pieces (heap : WQHeap) (pos pos2 : Option (Ptr × U32)) (first second : Nat) : List Byte :=
  piece heap pos first ++ if first < 488 then piece heap pos2 second else []

/-- A datagram that `Send` builds from two peeked pieces has a whole number of cipher blocks, fits into a packet and
hands on the first 488 bytes of the pieces. -/
theorem rdtPacket_roundTrip {heap : WQHeap} {window : WQWindow} {nextSeq : U32} {first second : Nat}
    {pos pos2 : Option (Ptr × U32)} (peek : altusWQPeek heap window nextSeq = ((first : Int), pos))
    (next : first < 488 → altusWQPeek heap window (nextSeq + BitVec.ofNat 32 first) = ((second : Int), pos2))
    (cuid : U16) (buf : Memory) :
    (pieces heap pos pos2 first second).length = first + (if first < 488 then second else 0) ∧
      ∃ datagram isUpdated, rdtPacket heap window cuid nextSeq buf = .ok (datagram, isUpdated) ∧
        16 ∣ datagram.length ∧ datagram.length ≤ 496 ∧
        HandsOn datagram cuid nextSeq ((pieces heap pos pos2 first second).take 488) := by
  unfold pieces
  rcases Nat.lt_or_ge first 488 with short | long
  · obtain ⟨datagram, sent, encodes⟩ := rdtPacket_short peek short (next short) cuid buf
    rw [if_pos short, if_pos short, List.length_append, piece_length peek, piece_length (next short)]
    exact ⟨rfl, datagram, _, sent, encodes.whole, encodes.bound, encodes.handsOn⟩
  · obtain ⟨datagram, sent, encodes⟩ := rdtPacket_long peek long cuid buf
    rw [if_neg (by omega), if_neg (by omega), List.append_nil, piece_length peek]
    exact ⟨rfl, datagram, _, sent, encodes.whole, encodes.bound, encodes.handsOn⟩

/-- A full node and thirty counted bytes in the node behind it. -/
def twoCounted : WQHeap :=
  ⟨fun pointer => if pointer = 0 then ⟨none, some 1, fun _ => 7, 4096⟩ else ⟨some 0, none, fun _ => 9, 30⟩, 2⟩

/-- The last hundred bytes of the first node and the thirty of the second one make one datagram. -/
theorem rdtPacket_roundTrip_across : ∃ datagram isUpdated,
    rdtPacket twoCounted blankWindow 5 3996 (fun _ => 0) = .ok (datagram, isUpdated) ∧
      16 ∣ datagram.length ∧ datagram.length ≤ 496 ∧
        HandsOn datagram 5 3996 (List.replicate 100 7 ++ List.replicate 30 9) :=
  (@rdtPacket_roundTrip twoCounted blankWindow 3996 100 30 (some (0, 3996)) (some (1, 0)) (by decide +kernel)
    (fun _ => by decide +kernel) 5 fun _ => 0).2

end Altus.Channel
