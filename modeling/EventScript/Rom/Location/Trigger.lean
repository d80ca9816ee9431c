import EventScript.Document
import EventScript.Rom.Record

/-! # Triggers on a location -/

namespace EventScript

/-- A tile that starts a script when the party steps on it. -/
structure Trigger where
  x : UInt8
  y : UInt8
  eventAddr : UInt32
  deriving Repr, DecidableEq, Inhabited

namespace Trigger

/-- The size of a record. -/
def recordSize : Nat := 5

/-- Unpack a record. -/
def ofRecord (d : Vector UInt8 recordSize) : Trigger where
  x := d[0]
  y := d[1]
  eventAddr := .ofNat (triple d[2] d[3] d[4])

def kind : RecordKind Trigger :=
  ⟨"trigger", recordSize, ofRecord, by decide⟩

/-- The record at the start of the bytes. -/
def ofBytes? (data : Bytes) : Option Trigger :=
  kind.ofBytes? data

/-- All records of the bytes. -/
def listOfBytes (data : Bytes) : Except RecordError (List Trigger) :=
  kind.listOfBytes data

def record (t : Trigger) : Record :=
  [("x", .ofByte t.x), ("y", .ofByte t.y), ("event_addr", .ofLong t.eventAddr)]

end Trigger

end EventScript
