import EventScript.Document
import EventScript.Rom.Record

/-! # Characters on a location -/

namespace EventScript

/-- A character that the player meets on a location. -/
structure Npc where
  eventAddr : UInt32
  palette : UInt8
  solidActionPath : Bool
  /-- Together with `enableAddr` the event bit that shows the character. -/
  enableBit : UInt8
  enableAddr : UInt8
  x : UInt8
  showRiderInVehicle : Bool
  y : UInt8
  speed : UInt8
  sprite : UInt8
  movementType : UInt8
  mapLayer : UInt8
  vehicle : UInt8
  startDirection : UInt8
  turnWhenTriggered : Bool
  unknown8Bits : UInt8
  deriving Repr, DecidableEq, Inhabited

namespace Npc

/-- The size of a record. -/
def recordSize : Nat := 9

/-- Unpack a record. -/
def ofRecord (d : Vector UInt8 recordSize) : Npc where
  eventAddr := .ofNat (bits (triple d[0] d[1] d[2]) 0 18)
  palette := .ofNat (bits d[2].toNat 2 3)
  solidActionPath := flag d[2].toNat 5
  enableBit := .ofNat (bits (pair d[2] d[3]) 6 3)
  enableAddr := .ofNat (bits d[3].toNat 1 7)
  x := .ofNat (bits d[4].toNat 0 7)
  showRiderInVehicle := flag d[4].toNat 7
  y := .ofNat (bits d[5].toNat 0 6)
  speed := .ofNat (bits d[5].toNat 6 2)
  sprite := d[6]
  movementType := .ofNat (bits d[7].toNat 0 4)
  mapLayer := .ofNat (bits d[7].toNat 4 2)
  vehicle := .ofNat (bits d[7].toNat 6 2)
  startDirection := .ofNat (bits d[8].toNat 0 2)
  turnWhenTriggered := flag d[8].toNat 2
  unknown8Bits := .ofNat (bits d[8].toNat 3 5)

def kind : RecordKind Npc :=
  ⟨"npc", recordSize, ofRecord, by decide⟩

/-- The record at the start of the bytes. -/
def ofBytes? (data : Bytes) : Option Npc :=
  kind.ofBytes? data

/-- All records of the bytes. -/
def listOfBytes (data : Bytes) : Except RecordError (List Npc) :=
  kind.listOfBytes data

def record (n : Npc) : Record :=
  [("event_addr", .ofLong n.eventAddr), ("palette", .ofByte n.palette),
    ("solid_action_path", .flag n.solidActionPath), ("enable_bit", .ofByte n.enableBit),
    ("enable_addr", .ofByte n.enableAddr), ("x", .ofByte n.x),
    ("show_rider_in_vehicle", .flag n.showRiderInVehicle), ("y", .ofByte n.y),
    ("speed", .ofByte n.speed), ("sprite", .ofByte n.sprite),
    ("movement_type", .ofByte n.movementType), ("map_layer", .ofByte n.mapLayer),
    ("vehicle", .ofByte n.vehicle), ("start_direction", .ofByte n.startDirection),
    ("turn_when_triggered", .flag n.turnWhenTriggered), ("unknown_8_bits", .ofByte n.unknown8Bits)]

end Npc

end EventScript
