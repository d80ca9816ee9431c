/-! # Documents

Records are exported as trees of named values. The tree keeps what the output formats tell apart: a
named code is text in some formats and a number in others, and a list that was never made is not the
same as an empty one.
-/

namespace EventScript

/-- A small number that may have a name. -/
structure Octet where
  code : UInt8
  name : Option String
  deriving Repr, DecidableEq

/-- A value of a document. -/
inductive Node where
  | flag (value : Bool)
  | number (value : Int)
  | text (value : String)
  | octet (value : Octet)
  /-- A list that was never made. -/
  | absent
  | octets (items : List Octet)
  | numbers (items : List Int)
  | table (fields : List (String × Node))
  | tables (rows : List (List (String × Node)))

namespace Node

/-- A small number without a name. -/
def ofByte (code : UInt8) : Node :=
  .octet ⟨code, none⟩

/-- A number of 16 bits. -/
def ofWord (n : UInt16) : Node :=
  .number n.toNat

/-- A number of up to 32 bits. -/
def ofLong (n : UInt32) : Node :=
  .number n.toNat

/-- A list of small numbers without names. -/
def ofBytes (codes : List UInt8) : Node :=
  .octets (codes.map (⟨·, none⟩))

/-- A list of records, if it was made. -/
def ofRows? : Option (List (List (String × Node))) → Node
  | none => .absent
  | some rows => .tables rows

end Node

/-- A record: its fields in the order in which they are written. -/
abbrev Record := List (String × Node)

end EventScript
