import EventScript.Rom.Address
import EventScript.Rom.Location.Npc
import EventScript.Rom.Location.Properties
import EventScript.Rom.Location.Trigger
import EventScript.Rom.PointerTable

/-! # Locations of a game image

An image has a table of properties and two pointer tables, one for the characters and one for the
triggers of each location. Characters and triggers refer to event scripts.
-/

namespace EventScript

/-- A map with its settings and with what can start scripts on it. A list is absent if it was never
    read. -/
structure Location where
  index : Int
  properties : Properties
  npcs : Option (List Npc)
  triggers : Option (List Trigger)
  deriving Repr, DecidableEq, Inhabited

namespace Location

/-- The number of locations. -/
def count : Nat := 0x19f

/-- The offsets of the tables in the image. -/
def triggerPointers : Nat := 0x40000
def npcPointers : Nat := 0x41a10
def propertiesTable : Nat := 0x2d8f00

/-- Why a pointer table cannot be read from an image. -/
inductive TableError where
  | outside (offset size : Nat)
  | table (cause : PointerTable.Error)
  deriving Repr, DecidableEq

def TableError.message : TableError → String
  | .outside offset size =>
      s!"table offset 0x{hex 6 offset} is outside of the rom size 0x{hex 6 size}"
  | .table cause => cause.message

/-- Why the locations of an image cannot be read. -/
inductive Error where
  | npcTable (cause : TableError)
  | triggerTable (cause : TableError)
  | properties (index : Nat) (cause : SpanError)
  | propertiesShort (index size : Nat)
  | npcs (index : Nat) (cause : SpanError)
  | npcList (index : Nat) (cause : RecordError)
  | triggers (index : Nat) (cause : SpanError)
  | triggerList (index : Nat) (cause : RecordError)
  /-- A pointer table has no span for a location. -/
  | outOfBounds (index : Nat)
  deriving Repr, DecidableEq

namespace Error

/-- The location at which reading stopped. -/
def place (index : Nat) : String :=
  s!"parsing location 0x{hex 3 index}: "

def message : Error → String
  | .npcTable cause => s!"reading npc pointer table: {cause.message}"
  | .triggerTable cause => s!"reading trigger pointer table: {cause.message}"
  | .properties index cause => s!"{place index}reading properties: {cause.message}"
  | .propertiesShort index size => s!"{place index}{Properties.shortMessage size}"
  | .npcs index cause => s!"{place index}reading npcs: {cause.message}"
  | .npcList index cause => s!"{place index}{Npc.kind.listMessage cause}"
  | .triggers index cause => s!"{place index}reading triggers: {cause.message}"
  | .triggerList index cause => s!"{place index}{Trigger.kind.listMessage cause}"
  | .outOfBounds index => s!"{place index}the tables do not have it"

end Error

/-- Read the pointer table at an offset: a span for each location. -/
def pointerTable (rom : Bytes) (offset : Nat) : Except TableError (List Span) :=
  if rom.size < offset then
    .error (.outside offset rom.size)
  else
    match rom.slice? offset rom.size with
    | some data => (PointerTable.read data (count + 1) offset).mapError .table
    | none => .error (.table .outOfBounds)

/-- The place of the properties of a location. -/
def propertiesSpan (index : Nat) : Span :=
  ⟨propertiesTable + index * Properties.recordSize, Properties.recordSize⟩

/-- Read one location. -/
def read (rom : Bytes) (index : Nat) (npcSpan triggerSpan : Span) : Except Error Location := do
  let data ← ((propertiesSpan index).slice rom).mapError (.properties index)
  let properties ←
    match Properties.ofBytes? data with
    | some properties => .ok properties
    | none => .error (.propertiesShort index data.size)
  let npcData ← (npcSpan.slice rom).mapError (.npcs index)
  let npcs ← (Npc.listOfBytes npcData).mapError (.npcList index)
  let triggerData ← (triggerSpan.slice rom).mapError (.triggers index)
  let triggers ← (Trigger.listOfBytes triggerData).mapError (.triggerList index)
  return ⟨index, properties, some npcs, some triggers⟩

/-- Read the next `n` locations, the first of which has the given index. -/
def readFrom (rom : Bytes) (npcSpans triggerSpans : List Span) (index : Nat) :
    Nat → Except Error (List Location)
  | 0 => .ok []
  | n + 1 =>
      match npcSpans[index]?, triggerSpans[index]? with
      | some npcSpan, some triggerSpan => do
          let location ← read rom index npcSpan triggerSpan
          let rest ← readFrom rom npcSpans triggerSpans (index + 1) n
          return location :: rest
      | _, _ => .error (.outOfBounds index)

/-- Read all locations of an image. -/
def readAll (rom : Bytes) : Except Error (List Location) := do
  let npcSpans ← (pointerTable rom npcPointers).mapError .npcTable
  let triggerSpans ← (pointerTable rom triggerPointers).mapError .triggerTable
  readFrom rom npcSpans triggerSpans 0 count

/-- The script addresses of the characters and triggers of a location. -/
def eventAddrs (location : Location) : List UInt32 :=
  (location.npcs.getD []).map (·.eventAddr) ++ (location.triggers.getD []).map (·.eventAddr)

/-- The offsets of all scripts that locations refer to, in rising order and each one once. -/
def entryPoints (locations : List Location) : List Int :=
  let offsets := locations.flatMap fun location => location.eventAddrs.map Address.eventToFile
  (offsets.mergeSort (· ≤ ·)).eraseReps

/-- A location as a document. -/
def document (location : Location) : Record :=
  [("index", .number location.index), ("properties", .table location.properties.record),
    ("npcs", .ofRows? (location.npcs.map fun npcs => npcs.map Npc.record)),
    ("triggers", .ofRows? (location.triggers.map fun triggers => triggers.map Trigger.record))]

end Location

end EventScript
