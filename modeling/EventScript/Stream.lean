import EventScript.Bytes
import EventScript.Text.Numeral
import EventScript.Work

/-! # Reading from a stream

A reading step takes an offset into a stream and gives a value and the offset behind it, or an error
and the offset where it gave up. A step that fails has not moved, so a failed sequence of steps stands
behind the operands that were read before the failure.
-/

namespace EventScript

/-- Why bytes cannot be read as events. -/
inductive DecodeError where
  /-- Fewer than `needed` bytes are left at `offset`. -/
  | truncated (needed : Nat) (offset : Int) (left : Nat)
  /-- Decoding was to start outside of the stream. -/
  | outside (offset : Int) (size : Nat)
  /-- No event starts with `tag`, which stands at `offset`. -/
  | unrecognized (tag : UInt8) (offset : Int)
  /-- Bytes before the start or behind the end of the stream were asked for. -/
  | outOfBounds
  deriving Repr, DecidableEq

namespace DecodeError

/-- The wording of an error. -/
def message : DecodeError → String
  | .truncated needed offset left =>
      s!"truncated event data: need {needed} bytes at offset 0x{hex 6 offset}, {left} left"
  | .outside offset size =>
      s!"truncated event data: offset 0x{hex 6 offset} outside of {size} bytes"
  | .unrecognized tag offset => s!"unknown event tag 0x{hexByte tag} at 0x{hex 6 offset}"
  | .outOfBounds => "read outside of the stream"

end DecodeError

/-- A reading step: an offset goes in, a value or an error comes out with the offset after it. -/
abbrev Decode (α : Type) := EStateM DecodeError Int α

/-- The number of bytes from an offset to the end of the stream. -/
def left (data : Bytes) (offset : Int) : Nat :=
  (data.size - offset).toNat

/-- Read the next `n` bytes. -/
def take (data : Bytes) (n : Nat) : Decode (Vector UInt8 n) := fun offset =>
  if left data offset < n then
    .error (.truncated n offset (left data offset)) offset
  else if h : 0 ≤ offset ∧ offset + n ≤ data.size then
    .ok ⟨data.extract offset.toNat (offset.toNat + n), by simp; omega⟩ (offset + n)
  else
    .error .outOfBounds offset

/-- Read a number of bytes that is not known beforehand; a negative number is out of bounds. -/
def takeInt (data : Bytes) : Int → Decode Bytes
  | .ofNat n => do return (← take data n).toArray
  | .negSucc _ => throw .outOfBounds

/-- Look at the next byte, and go on by `step` bytes. -/
def byteThen (data : Bytes) (step : Int) : Decode UInt8 := fun offset =>
  if left data offset < 1 then
    .error (.truncated 1 offset (left data offset)) offset
  else
    match data.at? offset with
    | some b => .ok b (offset + step)
    | none => .error .outOfBounds offset

/-- Read one byte. -/
def byte (data : Bytes) : Decode UInt8 :=
  byteThen data 1

/-- The next byte, which stays unread. -/
def peek (data : Bytes) : Decode UInt8 :=
  byteThen data 0

/-- Read two bytes at once. -/
def takeTwo (data : Bytes) : Decode (UInt8 × UInt8) := do
  let v ← take data 2
  return (v[0], v[1])

/-- Read three bytes at once. -/
def takeThree (data : Bytes) : Decode (UInt8 × UInt8 × UInt8) := do
  let v ← take data 3
  return (v[0], v[1], v[2])

/-- Read a 16 bit number, low byte first. -/
def word (data : Bytes) : Decode UInt16 := do
  let v ← takeTwo data
  return .ofNat (pair v.1 v.2)

/-- Read a 24 bit number, low byte first. -/
def long (data : Bytes) : Decode UInt32 := do
  let v ← takeThree data
  return .ofNat (triple v.1 v.2.1 v.2.2)

/-- Give up on the tag at the offset. -/
def unrecognized {α : Type} (data : Bytes) : Decode α := do
  let tag ← peek data
  throw (.unrecognized tag (← get))

/-- Read `n` values of one kind. -/
def readMany {α : Type} (n : Nat) (read : Decode α) : Decode (List α) :=
  match n with
  | 0 => return []
  | n + 1 => do
      let a ← read
      let rest ← readMany n read
      return a :: rest

end EventScript
