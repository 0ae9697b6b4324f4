import Altus.Proof.Sender.Release
import Altus.Proof.Sender.RoundTrip

namespace Altus.Channel

open Bytes WindowedQueue

/-- A receiving channel passes a block to `altusWQPut` or to `FileRcvStream::Append`. -/
def hand (pools : Pools) (channel : Channel) (seq length : U32) (data : Memory) :
    Except Fault (Int × Pools × Channel) :=
  match channel.storage with
  | .buffer window => (put pools channel window seq length data).map fun (_, pools, channel) => (1, pools, channel)
  | .frstream stream =>
      match FileReceiveStream.append ⟨pools.nodes, pools.newPool, stream⟩ seq length data with
      | (.returned _, state) =>
          .ok (0, { pools with nodes := state.heap, newPool := state.pool },
            { channel with storage := .frstream state.stream })
      | (.threw message, _) => .error (.exception message)
      | (.faulted fault, _) => .error fault
  | _ => .error .nullDereference

/-- The length that `channel::receive` computes. -/
def payloadWord (buf : Memory) (packetSize : Int) : U32 :=
  BitVec.ofInt 32 (packetSize - rdtHeaderSize - (buf 2).toNat)

/-- `channel::receive` rejects the datagram, or the length that it passes on is exact and lies in the datagram. -/
def LengthSound (pools : Pools) (channel : Channel) (buf : Memory) (packetSize : Int) : Prop :=
  channel.receive pools buf packetSize = .ok (-1, pools, channel) ∨
    ∃ length : U32, channel.receive pools buf packetSize =
        channel.hand pools (ntohl buf 4) length (shift buf rdtHeaderSize) ∧
      (length.toNat : Int) = packetSize - rdtHeaderSize - (buf 2).toNat ∧
      length.toNat < 2 ^ 31 ∧ (rdtHeaderSize + length.toNat : Int) ≤ packetSize

section Payload

variable {channel : Channel}

/-- Every datagram of a receiving stream goes on, with the computed length. -/
theorem ReceivesStream.receive_hands (receives : channel.ReceivesStream) (pools : Pools) (buf : Memory)
    (packetSize : Int) : channel.receive pools buf packetSize =
      channel.hand pools (ntohl buf 4) (payloadWord buf packetSize) (shift buf rdtHeaderSize) := by
  obtain ⟨receiving, ⟨type, window, storage⟩ | ⟨type, stream, storage⟩⟩ := receives
  · rw [receive, if_pos receiving, type]
    dsimp only
    rw [receiveData, hand, storage]
    dsimp only
    rw [if_pos (or_one_ne_zero _), payloadWord]
  · rw [receive, if_pos receiving, type]
    dsimp only
    rcases appended : FileReceiveStream.append ⟨pools.nodes, pools.newPool, stream⟩ (ntohl buf 4)
      (payloadWord buf packetSize) (shift buf rdtHeaderSize) with ⟨outcome, state⟩
    rw [payloadWord] at appended
    cases outcome <;> simp only [receiveFile, hand, storage, payloadWord, appended]

/-- A block that is handed on is never answered with a rejection. -/
theorem hand_code {pools next : Pools} {seq length : U32} {data : Memory} {code : Int} {after : Channel}
    (handed : channel.hand pools seq length data = .ok (code, next, after)) : 0 ≤ code := by
  rw [hand] at handed
  split at handed
  · obtain ⟨inner, -, same⟩ := map_ok handed
    obtain rfl : 1 = code := congrArg Prod.fst same
    decide
  · split at handed
    · obtain rfl : 0 = code := congrArg Prod.fst (Except.ok.inj handed)
      decide
    · cases handed
    · cases handed
  · cases handed

theorem payloadWord_toNat (buf : Memory) {size : Nat} (fits : size ≤ 496) :
    (payloadWord buf size).toNat =
      if 8 + (buf 2).toNat ≤ size then size - 8 - (buf 2).toNat else 2 ^ 32 - (8 + (buf 2).toNat - size) := by
  have padding := (buf 2).isLt
  rw [payloadWord, BitVec.toNat_ofInt, show ((rdtHeaderSize : Nat) : Int) = 8 from rfl]
  split
  · rw [Int.emod_eq_of_lt (by omega) (by omega)]
    omega
  · rw [← Int.add_emod_right, Int.emod_eq_of_lt (by omega) (by omega)]
    omega

/-- A sound length needs a datagram that holds its header and its padding. -/
theorem LengthSound.whole {pools : Pools} {buf : Memory} {size : Nat} (sound : LengthSound pools channel buf size)
    (receives : channel.ReceivesStream) : 8 + (buf 2).toNat ≤ size := by
  rcases sound with rejected | ⟨length, -, same, -⟩
  · rw [receives.receive_hands] at rejected
    exact absurd (hand_code rejected) (by decide)
  · have headerSize : rdtHeaderSize = 8 := rfl
    omega

/-- The length is sound exactly for the datagrams that hold their header and their padding. -/
theorem ReceivesStream.lengthSound_iff (receives : channel.ReceivesStream) (pools : Pools) (buf : Memory) (size : Nat)
    (fits : size ≤ 496) :
    (LengthSound pools channel buf size ↔ 8 + (buf 2).toNat ≤ size) ∧
      (¬ 8 + (buf 2).toNat ≤ size → 2 ^ 31 ≤ (payloadWord buf size).toNat) := by
  have hands := receives.receive_hands pools buf size
  have word := payloadWord_toNat buf fits
  have padding := (buf 2).isLt
  have headerSize : rdtHeaderSize = 8 := rfl
  refine ⟨⟨fun sound => sound.whole receives, ?_⟩, ?_⟩
  · intro whole
    rw [if_pos whole] at word
    exact Or.inr ⟨payloadWord buf size, hands, by omega, by omega, by omega⟩
  · intro short
    rw [if_neg short] at word
    omega

end Payload

/-- A new `file_stream_rcv` next to the new receiving channel. -/
def freshFile : Pools × Channel := fileChannel freshReceiver.pools 8 0

theorem freshReceiver_receives : freshReceiver.channel.ReceivesStream := ⟨rfl, Or.inl ⟨rfl, _, rfl⟩⟩

/-- A header with the padding length 1 and the sequence number 1, and nothing behind it. -/
def padded : Memory := ofList [0, 2, 1, 1, 0, 0, 0, 1]

/-- With its byte of padding the datagram is an empty block. -/
theorem lengthSound_iff_padded : LengthSound freshReceiver.pools freshReceiver.channel padded 9 :=
  (freshReceiver_receives.lengthSound_iff freshReceiver.pools padded 9 (by decide)).1.mpr (by decide)

/-- The header alone claims a byte of padding, and the length wraps to 2^32 - 1. The file stream leaves its node, and
the window accepts the block. -/
theorem padded_not_lengthSound : payloadWord padded 8 = 0xFFFFFFFF#32 ∧
    freshFile.2.ReceivesStream ∧ ¬ LengthSound freshFile.1 freshFile.2 padded 8 ∧
    freshFile.2.receive freshFile.1 padded 8 = .error .outOfBounds ∧
    freshReceiver.channel.ReceivesStream ∧ ¬ LengthSound freshReceiver.pools freshReceiver.channel padded 8 ∧
    Accepts (fresh blankHeap blankWindow).window (ntohl padded 4) (payloadWord padded 8) := by
  have file : freshFile.2.ReceivesStream := ⟨rfl, Or.inr ⟨rfl, _, rfl⟩⟩
  have unsound {channel : Channel} (receives : channel.ReceivesStream) (pools : Pools) :
      ¬ LengthSound pools channel padded 8 := fun sound => absurd (sound.whole receives) (by decide)
  refine ⟨by decide, file, unsound file freshFile.1, ?_, freshReceiver_receives,
    unsound freshReceiver_receives freshReceiver.pools, by decide⟩
  rw [file.receive_hands]
  rfl

end Altus.Channel
