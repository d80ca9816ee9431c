import EventScript.Bytes

/-! # Records of a fixed size -/

namespace EventScript

/-- The first `n` bytes. -/
def firstBytes? (n : Nat) (data : Bytes) : Option (Vector UInt8 n) :=
  if h : n ≤ data.size then
    some ⟨data.extract 0 n, by rw [Array.size_extract, Nat.min_eq_left h, Nat.sub_zero]⟩
  else
    none

/-- A kind of record: what it is called, how many bytes it has and what they are read as. -/
structure RecordKind (α : Type) where
  name : String
  size : Nat
  read : Vector UInt8 size → α
  size_pos : 0 < size

/-- Too few bytes for the record with this number. -/
structure RecordError where
  index : Nat
  size : Nat
  deriving Repr, DecidableEq

namespace RecordKind

variable {α : Type}

/-- The record at the start of the bytes. -/
def ofBytes? (kind : RecordKind α) (data : Bytes) : Option α :=
  (firstBytes? kind.size data).map kind.read

/-- What is said about too few bytes. -/
def shortMessage (kind : RecordKind α) (size : Nat) : String :=
  s!"{kind.name} needs {kind.size} bytes, have {size}"

/-- What is said about a record of a list. -/
def listMessage (kind : RecordKind α) (e : RecordError) : String :=
  s!"parsing {kind.name} {e.index}: {kind.shortMessage e.size}"

/-- Read records one behind the other from an offset on, as long as there is room for another one. -/
def listFrom (kind : RecordKind α) (data : Bytes) (start : Nat) : Except RecordError (List α) :=
  if start + kind.size ≤ data.size then
    match kind.ofBytes? (data.extract start data.size) with
    | none => .error ⟨start / kind.size, data.size - start⟩
    | some a =>
        match kind.listFrom data (start + kind.size) with
        | .ok rest => .ok (a :: rest)
        | .error e => .error e
  else
    .ok []
termination_by data.size - start
decreasing_by
  have := kind.size_pos
  omega

/-- All records of the bytes. Bytes that do not fill a record are left over. -/
def listOfBytes (kind : RecordKind α) (data : Bytes) : Except RecordError (List α) :=
  kind.listFrom data 0

end RecordKind

end EventScript
