/-! # Statements of a TOML text

A text is a list of statements: headers that open tables, and keys with values. A key is a path of
names.
-/

namespace EventScript.Toml

/-- A key with the names of the tables around it. -/
abbrev KeyPath := List String

/-- A value as it is written. -/
inductive Value where
  | text (s : String)
  | integer (n : Int)
  /-- A number with a fraction, a truth value or a time. -/
  | other
  | list (items : List Value)
  | table (fields : List (KeyPath × Value))

/-- A statement. -/
inductive Statement where
  /-- Open a table. -/
  | header (path : KeyPath)
  /-- Open one more table of a list of tables. -/
  | listHeader (path : KeyPath)
  | assign (path : KeyPath) (value : Value)

end EventScript.Toml
