import EventScript.Document
import EventScript.Text.Numeral

/-! # Documents as TOML

In each table the plain values stand before the tables. Tables are indented by two blanks for each
level, and an empty line stands before tables at the top and before each item of a list of tables.
-/

namespace EventScript.Document.Toml

/-- A text in quotes. -/
def quoted (text : String) : String :=
  s!"\"{text}\""

/-- A small number, by its name if it has one. -/
def octet (o : Octet) : String :=
  match o.name with
  | some name => quoted name
  | none => toString o.code.toNat

/-- A list on one line. -/
def inlineList (texts : List String) : String :=
  let inner := joinWith ", " texts
  s!"[{inner}]"

/-- The text of a value that stands behind its key. -/
def plain? : Node → Option String
  | .flag b => some (toString b)
  | .number n => some (toString n)
  | .text t => some (quoted t)
  | .octet o => some (octet o)
  | .octets os => some (inlineList (os.map octet))
  | .numbers ns => some (inlineList (ns.map toString))
  | .tables [] => some (inlineList [])
  | .absent | .table _ | .tables (_ :: _) => none

/-- A line at a level of nesting. -/
def line (level : Nat) (text : String) : String :=
  String.ofList (List.replicate (2 * level) ' ') ++ text

/-- The lines of the plain values of a table. -/
def plainFields (level : Nat) (fields : List (String × Node)) : List String :=
  fields.filterMap fun (key, value) =>
    (plain? value).map fun text => line level s!"{key} = {text}"

/-- The full name of a table inside of other tables. -/
def path (outer : List String) (key : String) : String :=
  joinWith "." (outer ++ [key])

/-- An empty line before a table at the top. -/
def gap : List String → List String
  | [] => [""]
  | _ => []

mutual

/-- The lines of a value that is a table or a list of tables. -/
def field (outer : List String) (key : String) : Node → List String
  | .table fs =>
      gap outer ++ line outer.length s!"[{path outer key}]" ::
        (plainFields (outer.length + 1) fs ++ tableFields (outer ++ [key]) fs)
  | .tables rs => rows outer key rs
  | .flag _ | .number _ | .text _ | .octet _ | .absent | .octets _ | .numbers _ => []

/-- The lines of the tables in a table. -/
def tableFields (outer : List String) : List (String × Node) → List String
  | [] => []
  | (key, value) :: rest => field outer key value ++ tableFields outer rest

/-- The lines of a list of tables. -/
def rows (outer : List String) (key : String) : List (List (String × Node)) → List String
  | [] => []
  | r :: rs =>
      "" :: line outer.length s!"[[{path outer key}]]" ::
        (plainFields (outer.length + 1) r ++ tableFields (outer ++ [key]) r) ++ rows outer key rs

end

/-- A record as a text. -/
def render (record : Record) : String :=
  String.join ((plainFields 0 record ++ tableFields [] record).map (· ++ "\n"))

end EventScript.Document.Toml
