import Altus.Construction.Peer
import Altus.Proof.Window.Peek

namespace Altus.Channel

open Bytes WindowedQueue

/-- The sequence number of a data datagram. -/
def sequenceOf (datagram : Datagram) : U32 := ntohl (ofList datagram) 4

/-- The padding length of a data datagram. -/
def paddingOf (datagram : Datagram) : Nat := (ofList datagram 2).toNat

/-- The size of a data datagram without its header and its padding. -/
def payloadLength (datagram : Datagram) : Nat := datagram.length - 8 - paddingOf datagram

/-- The bytes of a data datagram between its header and its padding. -/
def payload (datagram : Datagram) : List Byte := (datagram.drop 8).take (payloadLength datagram)

/-- The datagram carries `count` bytes of the content from a position on. -/
structure Carries (datagram : Datagram) (content : Memory) (point count : Nat) : Prop where
  sequence : sequenceOf datagram = BitVec.ofNat 32 point
  length : payloadLength datagram = count
  bytes : payload datagram = read (shift content point) count

/-- The datagram carries the bytes of a block behind a header for its channel and its sequence number. -/
structure Encodes (datagram : Datagram) (cuid : U16) (seq : U32) (bytes : List Byte) : Prop where
  channel : ntohs (ofList datagram) 0 = cuid
  sequence : sequenceOf datagram = seq
  flags : ofList datagram 3 = 1
  length : datagram.length = 8 + bytes.length + paddingOf datagram
  bytes : payload datagram = bytes
  whole : 16 ∣ datagram.length
  bound : datagram.length ≤ 496

/-- A datagram with the bytes of a content carries them. -/
theorem Encodes.carries {datagram : Datagram} {cuid : U16} {content : Memory} {point count : Nat}
    (encodes : Encodes datagram cuid (BitVec.ofNat 32 point) (read (shift content point) count)) :
    Carries datagram content point count := by
  have length := encodes.length
  rw [read_length] at length
  refine ⟨encodes.sequence, ?_, encodes.bytes⟩
  rw [payloadLength]
  omega

/-- The header stands in the first eight bytes. -/
theorem header_fields (buf : Memory) (cuid : U16) (paddingLen : Byte) (nextSeq : U32) :
    (∀ index < 2, header buf cuid paddingLen nextSeq index = htons cuid index) ∧
      header buf cuid paddingLen nextSeq 2 = paddingLen ∧ header buf cuid paddingLen nextSeq 3 = 1 ∧
      ∀ index < 4, header buf cuid paddingLen nextSeq (4 + index) = htonl nextSeq index := by
  rw [header]
  refine ⟨?_, ?_, ?_, ?_⟩
  · intro index inside
    rw [memcpy_outside (by omega), memcpy_outside (by omega), memcpy_outside (by omega),
      memcpy_inside (by omega) (by omega), Nat.sub_zero]
  · rw [memcpy_outside (by decide), memcpy_outside (by decide), memcpy_inside (by decide) (by decide)]
  · rw [memcpy_outside (by decide), memcpy_inside (by decide) (by decide)]
  · intro index inside
    rw [memcpy_inside (by omega) (by omega), Nat.add_sub_cancel_left]

/-- A buffer with a header, a payload and a padding. -/
theorem encodes_buffer {buf : Memory} {cuid : U16} {paddingLen : Byte} {seq : U32} {bytes : List Byte} {count : Nat}
    {memory : Memory} (countIs : bytes.length = count)
    (head : ∀ index < 8, memory index = header buf cuid paddingLen seq index)
    (body : read (shift memory 8) count = bytes) (small : count ≤ 488)
    (fills : paddingLen.toNat = (488 - count) % 16) :
    Encodes (read memory (8 + count + paddingLen.toNat)) cuid seq bytes := by
  subst countIs
  obtain ⟨channel, padding, flags, sequence⟩ := header_fields buf cuid paddingLen seq
  have paddingIs : paddingOf (read memory (8 + bytes.length + paddingLen.toNat)) = paddingLen.toNat := by
    rw [paddingOf, ofList_read memory (by omega), head 2 (by decide), padding]
  have lengthIs : payloadLength (read memory (8 + bytes.length + paddingLen.toNat)) = bytes.length := by
    rw [payloadLength, paddingIs, read_length]
    omega
  refine ⟨?_, ?_, ?_, ?_, ?_, ?_, ?_⟩
  · apply ntohs_htons
    intro index inside
    rw [ofList_read memory (by omega), head (0 + index) (by omega), Nat.zero_add, channel index inside]
  · apply ntohl_htonl
    intro index inside
    rw [ofList_read memory (by omega), head (4 + index) (by omega), sequence index inside]
  · rw [ofList_read memory (by omega), head 3 (by decide), flags]
  · rw [paddingIs, read_length]
  · have split : read memory (8 + bytes.length + paddingLen.toNat) =
        read memory 8 ++ (read (shift memory 8) bytes.length ++
          read (shift memory (8 + bytes.length)) paddingLen.toNat) := by
      rw [Nat.add_assoc, read_add, read_add, shift_shift]
    rw [payload, lengthIs, split, List.drop_left' (read_length _ _), List.take_left' (read_length _ _), body]
  · rw [read_length]
    omega
  · rw [read_length]
    omega

theorem copyPeeked_head (heap : WQHeap) (buf : Memory) (pos : Option (Ptr × U32)) (length : Nat) {index : Nat}
    (inside : index < 8) : copyPeeked heap buf pos length index = buf index := by
  cases pos with
  | none => rfl
  | some position => exact memcpy_outside (Or.inl inside)

section Round

variable {state : WQState} {view : View} {content : Memory} {point : Nat}

/-- A peeked position reads the content. -/
theorem peeked_bytes (reads : Reads state view content) (above : view.origin ≤ point) {cell : Ptr}
    (here : view.cells[(point - view.origin) / 4096]? = some cell) {index : Nat}
    (inside : index < view.room point) :
    peeked state.heap (cell, BitVec.ofNat 32 ((point - view.origin) % 4096)) index = content (point + index) := by
  have offset : (BitVec.ofNat 32 ((point - view.origin) % 4096)).toNat = (point - view.origin) % 4096 := by
    rw [BitVec.toNat_ofNat]
    exact Nat.mod_eq_of_lt (by omega)
  rw [peeked, shift, offset]
  exact reads.peek_bytes above here inside

/-- The bytes that a round can send from the node of its position and the node after it. -/
theorem room_next (above : view.origin ≤ point) (below : point ≤ view.position) :
    (view.room point = view.position - point ∧ view.room (point + view.room point) = 0 ∨
      view.room point < view.position - point ∧ 0 < view.room (point + view.room point)) ∧
    min 488 (view.room point + view.room (point + view.room point)) = min 488 (view.position - point) := by
  have first : view.room point = min (4096 - (point - view.origin) % 4096) (view.position - point) := rfl
  generalize view.room point = room at first ⊢
  have second : view.room (point + room) =
      min (4096 - (point + room - view.origin) % 4096) (view.position - (point + room)) := rfl
  rw [second]
  rcases Nat.lt_or_ge (4096 - (point - view.origin) % 4096) (view.position - point) with crossing | inside
  · have roomIs : room = 4096 - (point - view.origin) % 4096 := by omega
    have start : (point + room - view.origin) % 4096 = 0 := by omega
    rw [start]
    omega
  · have roomIs : room = view.position - point := by omega
    omega

/-- The padding that a round computes fits into a byte. -/
theorem padding_byte {count : Nat} (small : count ≤ 488) :
    ((496#32 - BitVec.ofNat 32 count - 8#32) % 16#32).toNat = (488 - count) % 16 ∧
      (((496#32 - BitVec.ofNat 32 count - 8#32) % 16#32).setWidth 8).toNat = (488 - count) % 16 := by
  have left : 496#32 - BitVec.ofNat 32 count - 8#32 = BitVec.ofNat 32 (488 - count) := by
    rw [Serial.ofNat_sub (show count ≤ 496 by omega), Serial.ofNat_sub (show 8 ≤ 496 - count by omega)]
    congr 1
    omega
  have value : ((496#32 - BitVec.ofNat 32 count - 8#32) % 16#32).toNat = (488 - count) % 16 := by
    rw [left, BitVec.toNat_umod, BitVec.toNat_ofNat, Nat.mod_eq_of_lt (show 488 - count < 2 ^ 32 by omega)]
    rfl
  refine ⟨value, ?_⟩
  rw [BitVec.toNat_setWidth, value, Nat.mod_eq_of_lt (by omega)]

end Round

section Pieces

variable {heap : WQHeap} {window : WQWindow} {nextSeq : U32} {first second : Nat} {pos pos2 : Option (Ptr × U32)}

/-- The bytes of a piece that `altusWQPeek` answered. -/
def piece (heap : WQHeap) (pos : Option (Ptr × U32)) (length : Nat) : List Byte :=
  match pos with
  | none => []
  | some position => read (peeked heap position) length

/-- A piece has the length that `altusWQPeek` answered. -/
theorem piece_length {seq : U32} (peek : altusWQPeek heap window seq = ((first : Int), pos)) :
    (piece heap pos first).length = first := by
  cases pos with
  | none =>
      have none := (altusWQPeek_length peek).2 rfl
      rw [piece, List.length_nil]
      omega
  | some position => exact read_length _ _

/-- The first piece stands behind the header. -/
theorem copyPeeked_body (buf : Memory) {seq : U32} (peek : altusWQPeek heap window seq = ((first : Int), pos)) :
    read (shift (copyPeeked heap buf pos first) 8) first = piece heap pos first := by
  cases pos with
  | none =>
      have zero := (altusWQPeek_length peek).2 rfl
      obtain rfl : first = 0 := by omega
      rfl
  | some position =>
      apply read_congr
      intro index inside
      rw [shift, copyPeeked, memcpy_inside (by omega) (by omega), Nat.add_sub_cancel_left]

/-- A round sends a long first piece alone. -/
theorem rdtPacket_long (peek : altusWQPeek heap window nextSeq = ((first : Int), pos)) (long : 488 ≤ first)
    (cuid : U16) (buf : Memory) :
    ∃ datagram, rdtPacket heap window cuid nextSeq buf = .ok (datagram, true) ∧
      Encodes datagram cuid nextSeq ((piece heap pos first).take 488) := by
  obtain ⟨small, located⟩ := altusWQPeek_length peek
  obtain ⟨position, rfl⟩ : ∃ position, pos = some position := by
    cases pos with
    | none =>
        have zero := located rfl
        omega
    | some position => exact ⟨position, rfl⟩
  have firstWord : (BitVec.ofNat 32 first).toNat = first := by
    rw [BitVec.toNat_ofNat, Nat.mod_eq_of_lt (by omega)]
  have enough : rdtDataSize ≤ BitVec.ofInt 32 (first : Int) := by
    rw [BitVec.ofInt_natCast, BitVec.le_def, firstWord]
    exact long
  have bytes : (piece heap (some position) first).take 488 = read (peeked heap position) 488 := by
    rw [piece, show first = 488 + (first - 488) by omega, read_add, List.take_left' (read_length _ _)]
  have whole := @encodes_buffer buf cuid 0 nextSeq (read (peeked heap position) 488) 488
    (memcpy (header buf cuid 0 nextSeq) 8 (peeked heap position) 488) (read_length _ _)
    (fun index inside => memcpy_outside (Or.inl inside)) (by
      apply read_congr
      intro index inside
      rw [shift, memcpy_inside (by omega) (by omega), Nat.add_sub_cancel_left]) le_rfl rfl
  refine ⟨_, ?_, by rw [bytes]; exact whole⟩
  rw [rdtPacket, peek]
  dsimp only
  rw [if_pos enough]
  rfl

/-- A round sends a short first piece and as much of the second one as fits. -/
theorem rdtPacket_short (peek : altusWQPeek heap window nextSeq = ((first : Int), pos)) (short : first < 488)
    (next : altusWQPeek heap window (nextSeq + BitVec.ofNat 32 first) = ((second : Int), pos2)) (cuid : U16)
    (buf : Memory) :
    ∃ datagram, rdtPacket heap window cuid nextSeq buf = .ok (datagram, pos2.isSome) ∧
      Encodes datagram cuid nextSeq ((piece heap pos first ++ piece heap pos2 second).take 488) := by
  obtain ⟨small, located⟩ := altusWQPeek_length next
  have firstWord : (BitVec.ofNat 32 first).toNat = first := by
    rw [BitVec.toNat_ofNat, Nat.mod_eq_of_lt (by omega)]
  have few : ¬ rdtDataSize ≤ BitVec.ofInt 32 (first : Int) := by
    rw [BitVec.ofInt_natCast, BitVec.le_def, firstWord]
    exact Nat.not_le.mpr short
  have sending : (if rdtDataSize < BitVec.ofNat 32 (first + second) then rdtDataSize
      else BitVec.ofNat 32 (first + second)) = BitVec.ofNat 32 (min 488 (first + second)) := by
    have compare : rdtDataSize < BitVec.ofNat 32 (first + second) ↔ 488 < first + second := by
      rw [BitVec.lt_def, BitVec.toNat_ofNat, BitVec.toNat_ofNat, Nat.mod_eq_of_lt (by omega),
        Nat.mod_eq_of_lt (show first + second < 2 ^ 32 by omega)]
    by_cases large : 488 < first + second
    · rw [if_pos (compare.mpr large), Nat.min_eq_left (by omega)]
    · rw [if_neg (fun less => large (compare.mp less)), Nat.min_eq_right (by omega)]
  have total : ((piece heap pos first ++ piece heap pos2 second).take 488).length = min 488 (first + second) := by
    rw [List.length_take, List.length_append, piece_length peek, piece_length next]
  have sent : min 488 (first + second) ≤ 488 := Nat.min_le_left _ _
  generalize countIs : min 488 (first + second) = count at *
  obtain ⟨padding, paddingByte⟩ := padding_byte sent
  have countWord : (BitVec.ofNat 32 count).toNat = count := by
    rw [BitVec.toNat_ofNat, Nat.mod_eq_of_lt (by omega)]
  rw [rdtPacket, peek]
  dsimp only
  rw [if_neg few, BitVec.ofInt_natCast, next]
  dsimp only
  rw [BitVec.ofInt_natCast, ← BitVec.ofNat_add, sending, firstWord, countWord, padding, ← paddingByte]
  generalize ((496#32 - BitVec.ofNat 32 count - 8#32) % 16#32).setWidth 8 = paddingLen at *
  have head {index : Nat} (inside : index < 8) := copyPeeked_head heap (header buf cuid paddingLen nextSeq) pos first
    inside
  have front := copyPeeked_body (header buf cuid paddingLen nextSeq) peek
  generalize copyPeeked heap (header buf cuid paddingLen nextSeq) pos first = memory at *
  cases pos2 with
  | none =>
      have zero := located rfl
      have whole : piece heap pos first ++ piece heap none second = piece heap pos first := List.append_nil _
      have fits : (piece heap pos first).take 488 = piece heap pos first :=
        List.take_of_length_le (by rw [piece_length peek]; omega)
      rw [whole, fits] at total ⊢
      have countIs : count = first := by rw [← total, piece_length peek]
      exact ⟨_, rfl, encodes_buffer total (fun index inside => head inside) (by rw [countIs, front]) sent paddingByte⟩
  | some position =>
      have rest : (BitVec.ofNat 32 count - BitVec.ofNat 32 first).toNat = count - first :=
        Serial.toNat_sub (by omega) (by omega)
      dsimp only
      rw [rest, if_neg (by omega)]
      have bytes : (piece heap pos first ++ piece heap (some position) second).take 488 =
          piece heap pos first ++ read (peeked heap position) (count - first) := by
        have front : (piece heap pos first).take 488 = piece heap pos first :=
          List.take_of_length_le (by rw [piece_length peek]; omega)
        rw [List.take_append, piece_length peek, front, piece, read_take,
          show min (488 - first) second = count - first by omega]
      rw [bytes] at total ⊢
      refine ⟨_, rfl, @encodes_buffer buf _ _ _ _ _ _ total ?_ ?_ sent paddingByte⟩
      · intro index inside
        rw [memcpy_outside (by omega), head inside]
      · have early : read (shift (memcpy memory (8 + first) (peeked heap position) (count - first)) 8) first =
            read (shift memory 8) first := by
          apply read_congr
          intro index inside
          rw [shift, shift, memcpy_outside (by omega)]
        have late : read (shift (memcpy memory (8 + first) (peeked heap position) (count - first)) (8 + first))
            (count - first) = read (peeked heap position) (count - first) := by
          apply read_congr
          intro index inside
          rw [shift, memcpy_inside (by omega) (by omega), Nat.add_sub_cancel_left]
        have split := read_add (shift (memcpy memory (8 + first) (peeked heap position) (count - first)) 8) first
          (count - first)
        rwa [shift_shift, early, late, front, Nat.add_sub_of_le (by omega)] at split

end Pieces

section Content

variable {state : WQState} {view : View} {content : Memory} {point : Nat}

/-- The piece at a position of the content holds its next bytes. -/
theorem peek_piece (represents : Represents state view) (reads : Reads state view content)
    (headSeq : state.window.headSeq = BitVec.ofNat 32 view.origin) (above : view.origin ≤ point)
    (below : point ≤ view.position) :
    ∃ pos, altusWQPeek state.heap state.window (BitVec.ofNat 32 point) = ((view.room point : Int), pos) ∧
      piece state.heap pos (view.room point) = read (shift content point) (view.room point) ∧
      pos.isSome = decide (0 < view.room point) := by
  obtain ⟨cell, here, peek⟩ := represents.peek headSeq above below
  rcases Nat.eq_zero_or_pos (view.room point) with empty | filled
  · rw [if_pos empty] at peek
    exact ⟨none, by rw [peek, empty]; rfl, by rw [empty]; rfl, by rw [empty]; rfl⟩
  · rw [if_neg (by omega)] at peek
    refine ⟨_, peek, ?_, by rw [decide_eq_true filled]; rfl⟩
    apply read_congr
    intro index inside
    exact peeked_bytes reads above here inside

/-- One round sends up to 488 bytes and goes on unless the next node has nothing to send. -/
theorem rdtPacket_spec (represents : Represents state view) (reads : Reads state view content)
    (headSeq : state.window.headSeq = BitVec.ofNat 32 view.origin) (above : view.origin ≤ point)
    (below : point ≤ view.position) (cuid : U16) (buf : Memory) :
    ∃ datagram, rdtPacket state.heap state.window cuid (BitVec.ofNat 32 point) buf =
        .ok (datagram, decide (488 ≤ view.room point ∨ view.room point < view.position - point)) ∧
      Carries datagram content point (min 488 (view.position - point)) := by
  obtain ⟨nextRoom, total⟩ := room_next above below
  have firstRoom : view.room point = min (4096 - (point - view.origin) % 4096) (view.position - point) := rfl
  obtain ⟨pos, peek, bytes, -⟩ := peek_piece represents reads headSeq above below
  obtain ⟨pos2, nextPeek, nextBytes, nextIs⟩ := @peek_piece _ _ _ (point + view.room point) represents reads headSeq
    (by omega) (by omega)
  have joined : (piece state.heap pos (view.room point) ++
      piece state.heap pos2 (view.room (point + view.room point))).take 488 =
      read (shift content point) (min 488 (view.position - point)) := by
    rw [bytes, nextBytes, ← shift_shift, ← read_add, read_take, total]
  rcases Nat.lt_or_ge (view.room point) 488 with short | long
  · rw [BitVec.ofNat_add] at nextPeek
    obtain ⟨datagram, sent, encodes⟩ := rdtPacket_short peek short nextPeek cuid buf
    rw [joined] at encodes
    refine ⟨datagram, ?_, encodes.carries⟩
    rw [sent, nextIs]
    congr 3
    apply propext
    omega
  · obtain ⟨datagram, sent, encodes⟩ := rdtPacket_long peek long cuid buf
    rw [bytes, read_take, show min 488 (view.room point) = min 488 (view.position - point) by omega] at encodes
    exact ⟨datagram, by rw [sent, decide_eq_true (Or.inl long)], encodes.carries⟩

end Content

end Altus.Channel
