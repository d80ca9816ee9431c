import EventScript.Script

/-! # Scripts as documents -/

namespace EventScript

/-- An event as a record. Operands are left out if there are none. -/
def Event.document (e : Event) : Record :=
  match e.record with
  | [] => [("op", .text e.name)]
  | args => [("op", .text e.name), ("args", .table args)]

/-- The events of a script as a value of a document; a script without events has no list. -/
def Events.node (events : Events) : Node :=
  match events.toList with
  | [] => .absent
  | es => .tables (es.map Event.document)

/-- A script as a document. -/
def Entry.document (e : Entry) : Record :=
  [("dialect", .text e.dialect.name), ("start", .number e.start), ("end", .number e.stop),
    ("events", e.events.node)]

end EventScript
