import EventScript.Document
import EventScript.Stream

/-! # Conditions on event bits -/

namespace EventScript

/-- A test of one event bit. -/
structure Condition where
  isSet : Bool
  /-- The byte of the event bits that is tested. -/
  index : UInt16
  /-- The bit within that byte. -/
  bit : UInt8
  deriving Repr, DecidableEq, Inhabited

namespace Condition

/-- The three lowest bits select the bit, the next twelve the byte, and the highest one tells whether
    the bit must be set. -/
def ofWord (value : UInt16) : Condition where
  isSet := flag value.toNat 15
  index := .ofNat (bits value.toNat 3 12)
  bit := .ofNat (bits value.toNat 0 3)

/-- Read a condition. -/
def read (data : Bytes) : Decode Condition := do
  return ofWord (← word data)

/-- The state that is asked for. -/
def state (isSet : Bool) : String :=
  if isSet then "set" else "clear"

/-- An event bit by byte and bit. -/
def place (index : UInt16) (bit : UInt8) : String :=
  s!"${hex 3 index.toNat}.{bit.toNat}"

def text (c : Condition) : String :=
  s!"{place c.index c.bit} {state c.isSet}"

def record (c : Condition) : Record :=
  [("is_set", .flag c.isSet), ("byte", .ofWord c.index), ("bit", .ofByte c.bit)]

end Condition

end EventScript
