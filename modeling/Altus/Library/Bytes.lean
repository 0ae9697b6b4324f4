import Mathlib.Data.BitVec
import Mathlib.Data.List.GetD
import Mathlib.Tactic

namespace Altus.Bytes

/-!
Byte memory behind one pointer, and the byte orders of a datagram.
-/

abbrev Byte := BitVec 8

/-- The bytes that follow a pointer, by their distance from it. -/
abbrev Memory := Nat → Byte

/-- `length` bytes of `source` replace the bytes of `dest` from `offset` on. -/
def memcpy (dest : Memory) (offset : Nat) (source : Memory) (length : Nat) : Memory :=
  fun index => if offset ≤ index ∧ index < offset + length then source (index - offset) else dest index

/-- The pointer moves forward by `offset` bytes. -/
def shift (memory : Memory) (offset : Nat) : Memory := fun index => memory (offset + index)

/-- The first `length` bytes behind a pointer. -/
def read (memory : Memory) (length : Nat) : List Byte := (List.range length).map memory

theorem memcpy_inside {dest source : Memory} {offset length index : Nat} (lower : offset ≤ index)
    (upper : index < offset + length) :
    memcpy dest offset source length index = source (index - offset) := by
  simp [memcpy, lower, upper]

theorem memcpy_outside {dest source : Memory} {offset length index : Nat}
    (outside : index < offset ∨ offset + length ≤ index) :
    memcpy dest offset source length index = dest index := by
  rw [memcpy, if_neg (by omega)]

@[simp] theorem memcpy_zero (dest source : Memory) (offset : Nat) :
    memcpy dest offset source 0 = dest := by
  funext index
  exact memcpy_outside (by omega)

/-- Only the copied bytes of the source matter. -/
theorem memcpy_congr {dest first second : Memory} {offset length : Nat}
    (agree : ∀ index < length, first index = second index) :
    memcpy dest offset first length = memcpy dest offset second length := by
  funext index
  by_cases inside : offset ≤ index ∧ index < offset + length
  · rw [memcpy_inside inside.1 inside.2, memcpy_inside inside.1 inside.2, agree _ (by omega)]
  · rw [memcpy_outside (by omega), memcpy_outside (by omega)]

/-- Two adjacent copies from one source are one copy. -/
theorem memcpy_memcpy (dest source : Memory) (offset first second : Nat) :
    memcpy (memcpy dest offset source first) (offset + first) (shift source first) second =
      memcpy dest offset source (first + second) := by
  funext index
  simp only [memcpy, shift]
  by_cases early : offset ≤ index ∧ index < offset + first
  · rw [if_neg (by omega), if_pos early, if_pos (by omega)]
  · by_cases late : offset + first ≤ index ∧ index < offset + first + second
    · rw [if_pos late, if_pos (by omega), show first + (index - (offset + first)) = index - offset by omega]
    · rw [if_neg late, if_neg early, if_neg (by omega)]

@[simp] theorem read_zero (memory : Memory) : read memory 0 = [] := rfl

@[simp] theorem read_length (memory : Memory) (length : Nat) : (read memory length).length = length := by
  simp [read]

@[simp] theorem read_getElem (memory : Memory) (length index : Nat)
    (inside : index < (read memory length).length) : (read memory length)[index] = memory index := by
  simp [read]

theorem read_getD (memory : Memory) (fallback : Byte) {length index : Nat} (inside : index < length) :
    (read memory length).getD index fallback = memory index := by
  simp [read, inside]

@[simp] theorem shift_zero (memory : Memory) : shift memory 0 = memory := by
  funext index
  simp only [shift, Nat.zero_add]

theorem shift_shift (memory : Memory) (first second : Nat) :
    shift (shift memory first) second = shift memory (first + second) := by
  funext index
  simp only [shift, Nat.add_assoc]

/-- Equal bytes give equal readings. -/
theorem read_congr {first second : Memory} {length : Nat}
    (agree : ∀ index < length, first index = second index) : read first length = read second length := by
  apply List.map_congr_left
  intro index member
  exact agree index (List.mem_range.mp member)

/-- A reading splits at any inner position. -/
theorem read_add (memory : Memory) (first second : Nat) :
    read memory (first + second) = read memory first ++ read (shift memory first) second := by
  simp [read, shift, List.range_add, List.map_map, Function.comp_def]

/-- A shorter reading is the front of a longer one. -/
theorem read_take (memory : Memory) (length count : Nat) :
    (read memory length).take count = read memory (min count length) := by
  rw [read, read, ← List.map_take, List.take_range]

/-- The bytes of a list, and zeros behind it. -/
def ofList (bytes : List Byte) : Memory := fun index => bytes.getD index 0

/-- A reading is the bytes that it reads. -/
theorem ofList_read (memory : Memory) {length index : Nat} (inside : index < length) :
    ofList (read memory length) index = memory index :=
  read_getD memory 0 inside

/-- A reading inside a list is a part of the list. -/
theorem read_ofList {bytes : List Byte} {start length : Nat} (inside : start + length ≤ bytes.length) :
    read (shift (ofList bytes) start) length = (bytes.drop start).take length := by
  apply List.ext_getElem
  · simp
    omega
  · intro index first second
    simp only [read_length] at first
    simp [shift, ofList, List.getElem_take, List.getElem_drop, show start + index < bytes.length by omega]

/-- A copy behind the last byte of a list appends to it. -/
theorem memcpy_ofList (bytes : List Byte) (source : Memory) (length : Nat) :
    memcpy (ofList bytes) bytes.length source length = ofList (bytes ++ read source length) := by
  funext index
  by_cases early : index < bytes.length
  · rw [memcpy_outside (Or.inl early), ofList, ofList, List.getD_append _ _ _ _ early]
  · have above : bytes.length ≤ index := by omega
    rw [ofList, List.getD_append_right _ _ _ _ above]
    by_cases inside : index < bytes.length + length
    · rw [memcpy_inside above inside, read_getD _ _ (by omega)]
    · rw [memcpy_outside (by omega), ofList, List.getD_eq_default _ _ above,
        List.getD_eq_default _ _ (by rw [read_length]; omega)]

/-- The two bytes of a word in network order. -/
def htons (word : BitVec 16) : Memory := fun index => word.extractLsb' (8 * (1 - index)) 8

/-- The four bytes of a word in network order. -/
def htonl (word : BitVec 32) : Memory := fun index => word.extractLsb' (8 * (3 - index)) 8

/-- The word in network order at an offset. -/
def ntohs (memory : Memory) (offset : Nat) : BitVec 16 := memory offset ++ memory (offset + 1)

/-- The double word in network order at an offset. -/
def ntohl (memory : Memory) (offset : Nat) : BitVec 32 :=
  memory offset ++ memory (offset + 1) ++ memory (offset + 2) ++ memory (offset + 3)

theorem or_one_ne_zero (byte : Byte) : byte ||| 1 ≠ 0 := by
  intro zero
  have bit := congrArg (fun byte : Byte => byte.getLsbD 0) zero
  simp at bit

/-- A word that is written in network order is read back. -/
theorem ntohs_htons {memory : Memory} {offset : Nat} {word : BitVec 16}
    (written : ∀ index < 2, memory (offset + index) = htons word index) : ntohs memory offset = word := by
  have first := written 0 (by decide)
  have second := written 1 (by decide)
  rw [Nat.add_zero] at first
  rw [ntohs, first, second]
  ext index inside
  simp only [htons, BitVec.getElem_append, BitVec.getElem_extractLsb']
  rw [← BitVec.getLsbD_eq_getElem]
  split_ifs <;> congr 1 <;> omega

/-- A word only depends on its bytes. -/
theorem ntohs_congr {first second : Memory} {offset : Nat}
    (agree : ∀ index < 2, first (offset + index) = second (offset + index)) : ntohs first offset = ntohs second offset := by
  have low := agree 0 (by decide)
  rw [Nat.add_zero] at low
  rw [ntohs, ntohs, low, agree 1 (by decide)]

/-- A double word only depends on its bytes. -/
theorem ntohl_congr {first second : Memory} {offset : Nat}
    (agree : ∀ index < 4, first (offset + index) = second (offset + index)) : ntohl first offset = ntohl second offset := by
  have low := agree 0 (by decide)
  rw [Nat.add_zero] at low
  rw [ntohl, ntohl, low, agree 1 (by decide), agree 2 (by decide), agree 3 (by decide)]

/-- A double word that is written in network order is read back. -/
theorem ntohl_htonl {memory : Memory} {offset : Nat} {word : BitVec 32}
    (written : ∀ index < 4, memory (offset + index) = htonl word index) : ntohl memory offset = word := by
  have first := written 0 (by decide)
  have second := written 1 (by decide)
  have third := written 2 (by decide)
  have fourth := written 3 (by decide)
  rw [Nat.add_zero] at first
  rw [ntohl, first, second, third, fourth]
  ext index inside
  simp only [htonl, BitVec.getElem_append, BitVec.getElem_extractLsb']
  rw [← BitVec.getLsbD_eq_getElem]
  split_ifs <;> congr 1 <;> omega

end Altus.Bytes
