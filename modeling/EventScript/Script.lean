import EventScript.Event.Field.Decode
import EventScript.Event.World.Decode

/-! # Scripts

A script is a chain of events of one dialect with a stop byte behind it.
-/

namespace EventScript

/-- The dialects in the order in which they are tried. -/
inductive Dialect where
  | worldChar
  | field
  deriving Repr, DecidableEq

namespace Dialect

def name : Dialect → String
  | .worldChar => "world_char"
  | .field => "field"

/-- The dialects by number. -/
def ofCode? : UInt8 → Option Dialect
  | 0 => some .worldChar
  | 1 => some .field
  | _ => none

/-- The name that a number has as a dialect. -/
def nameOfCode (code : UInt8) : String :=
  match ofCode? code with
  | some dialect => dialect.name
  | none => s!"dialect({code.toNat})"

end Dialect

/-- An event of either dialect. -/
inductive Event where
  | worldChar (event : WorldEvent)
  | field (event : FieldEvent)
  deriving Repr, DecidableEq

namespace Event

def name : Event → String
  | .worldChar e => e.name
  | .field e => e.name

def text : Event → String
  | .worldChar e => e.text
  | .field e => e.text

def record : Event → Record
  | .worldChar e => e.record
  | .field e => e.record

end Event

/-- The events of a script. -/
inductive Events where
  | worldChar (events : List WorldEvent)
  | field (events : List FieldEvent)
  deriving Repr, DecidableEq

namespace Events

def dialect : Events → Dialect
  | .worldChar _ => .worldChar
  | .field _ => .field

def size : Events → Nat
  | .worldChar es => es.length
  | .field es => es.length

def toList : Events → List Event
  | .worldChar es => es.map .worldChar
  | .field es => es.map .field

end Events

/-- Read one event of a dialect. -/
def Dialect.decode (data : Bytes) : Dialect → Decode Event
  | .worldChar => do return .worldChar (← WorldEvent.decoder.decode data)
  | .field => do return .field (← FieldEvent.decoder.decode data)

/-- Read a script of a dialect together with its stop byte. -/
def Dialect.script (data : Bytes) : Dialect → Decode Events
  | .worldChar => do return .worldChar (← assemble WorldEvent.decoder WorldEvent.stops data)
  | .field => do return .field (← assemble FieldEvent.decoder FieldEvent.stops data)

/-- A script ends behind its start, inside of the stream. -/
theorem Dialect.script_eq_ok {data : Bytes} {dialect : Dialect} {offset next : Int} {events : Events}
    (h : dialect.script data offset = .ok events next) : offset < next ∧ next ≤ data.size := by
  cases dialect <;>
    · obtain ⟨_, _, assembled, ended⟩ := bind_eq_ok_iff.mp h
      cases ended
      exact assembleFrom_eq_ok assembled

/-- A script and its place in a stream. -/
structure Entry where
  /-- The offset under which the entry is kept. -/
  offset : Int
  start : Int
  /-- The offset behind the stop byte. -/
  stop : Int
  events : Events
  deriving Repr, DecidableEq

namespace Entry

def dialect (e : Entry) : Dialect :=
  e.events.dialect

/-- The number of events. -/
def size (e : Entry) : Nat :=
  e.events.size

end Entry

end EventScript
