import Altus.Library.Bytes

namespace Altus

open Bytes

/-- An `unsigned short` or `uint16_t`. -/
abbrev U16 := BitVec 16

/-- An `unsigned int` or `uint32_t`. -/
abbrev U32 := BitVec 32

/-- A `uint64_t`. -/
abbrev U64 := BitVec 64

/-- A non-null pointer to one object of its type. -/
abbrev Ptr := Nat

/-- What ends a call without a return. -/
inductive Fault where
  /-- A null pointer is followed. -/
  | nullDereference
  /-- A `memcpy` receives a negative length. -/
  | negativeLength
  /-- A `memcpy` or a `memset` leaves its object. -/
  | outOfBounds
  /-- A deleted object is used. -/
  | useAfterFree
  /-- The end of a map is followed like an entry of it. -/
  | endDereference
  /-- A signed integer leaves its range. -/
  | signedOverflow
  /-- The program calls `exit(-1)`. -/
  | exit
  /-- An exception leaves the call. -/
  | exception (message : String)
  /-- The loop does not end within its number of rounds. -/
  | unfinished
deriving DecidableEq, Repr

section Calls

variable {ε α β : Type}

/-- A mapped call returns when the call does. -/
theorem map_ok {call : Except ε α} {change : α → β} {result : β} (returned : call.map change = .ok result) :
    ∃ inner, call = .ok inner ∧ change inner = result := by
  cases call with
  | error fault => cases returned
  | ok inner => exact ⟨inner, rfl, Except.ok.inj returned⟩

/-- Two calls in a row return when both do. -/
theorem bind_ok {call : Except ε α} {next : α → Except ε β} {result : β} (returned : call.bind next = .ok result) :
    ∃ inner, call = .ok inner ∧ next inner = .ok result := by
  cases call with
  | error fault => cases returned
  | ok inner => exact ⟨inner, rfl, returned⟩

/-- What is asked of the answer of a call can be decided. -/
instance decideAnswer (call : Except ε α) (holds : α → Prop) [DecidablePred holds] :
    Decidable (∀ answer, call = .ok answer → holds answer) :=
  match call with
  | .ok answer => decidable_of_iff (holds answer)
      ⟨fun held other same => Except.ok.inj same ▸ held, fun all => all answer rfl⟩
  | .error _ => isTrue fun _ impossible => by cases impossible

end Calls

/-- Memory of a known size, as `malloc` returns it. -/
structure Block where
  size : Nat
  bytes : Memory

namespace Block

/-- A `memcpy` to an offset of a block. A `memcpy` of no bytes leaves no object. -/
def copy (block : Block) (offset : Nat) (source : Memory) (length : Int) : Except Fault Block :=
  if length < 0 then .error .negativeLength
  else if 0 < length ∧ block.size < offset + length.toNat then .error .outOfBounds
  else .ok { block with bytes := memcpy block.bytes offset source length.toNat }

/-- The `memset` that a destructor runs before `free`. -/
def wipe (block : Block) (length : Int) : Except Fault Unit :=
  if length < 0 then .error .negativeLength
  else if block.size < length.toNat then .error .outOfBounds
  else .ok ()

end Block

/-- The bytes of a page of memory, `ALTUS_NODE_SIZE`. -/
abbrev nodeSize : Nat := 4096

/-- The sequence numbers that one node spans, `ALTUS_NODE_SIZE` as an `unsigned int`. -/
abbrev nodeSpan : U32 := 4096#32

end Altus
