import EventScript.Document
import EventScript.Text.Numeral

/-! # Documents as YAML

Block style with four blanks for each level. A list stands below its key, and an empty list is `[]`.
-/

namespace EventScript.Document.Yaml

/-- Texts that stand for a truth value when they are not quoted. -/
def truthWords : List String :=
  ["y", "Y", "yes", "Yes", "YES", "n", "N", "no", "No", "NO", "on", "On", "ON", "off", "Off", "OFF",
    "true", "True", "TRUE", "false", "False", "FALSE"]

/-- A text, quoted if it would be read as something else. -/
def scalar (text : String) : String :=
  if text ∈ truthWords then s!"\"{text}\"" else text

/-- A small number, by its name if it has one. -/
def octet (o : Octet) : String :=
  match o.name with
  | some name => scalar name
  | none => toString o.code.toNat

/-- A line with blanks in front. -/
def indented (columns : Nat) (text : String) : String :=
  String.ofList (List.replicate columns ' ') ++ text

/-- The lines of a list of plain values, with the dashes `step` columns behind the key. -/
def items (step : Nat) (key : String) : List String → List String
  | [] => [s!"{key}: []"]
  | texts => s!"{key}:" :: texts.map fun t => indented step s!"- {t}"

/-- The lines of an item of a list: a dash stands in front of its first line. -/
def dashed (step : Nat) : List String → List String
  | [] => [indented step "- \x7b\x7d"]
  | first :: rest => indented step s!"- {first}" :: rest.map (indented (step + 2))

mutual

/-- The lines of a key and its value. What stands below the key is `step` columns further in. -/
def field (step : Nat) (key : String) : Node → List String
  | .flag b => [s!"{key}: {b}"]
  | .number n => [s!"{key}: {n}"]
  | .text t => [s!"{key}: {scalar t}"]
  | .octet o => [s!"{key}: {octet o}"]
  | .absent => [s!"{key}: []"]
  | .octets os => items step key (os.map octet)
  | .numbers ns => items step key (ns.map toString)
  | .table [] => [s!"{key}: \x7b\x7d"]
  | .table (f :: fs) => s!"{key}:" :: (fields 4 (f :: fs)).map (indented step)
  | .tables [] => [s!"{key}: []"]
  | .tables (r :: rs) => s!"{key}:" :: rows step (r :: rs)

/-- The lines of a record. -/
def fields (step : Nat) : List (String × Node) → List String
  | [] => []
  | (key, value) :: rest => field step (scalar key) value ++ fields step rest

/-- The lines of a list of records. The dash takes up two columns of the step of an item. -/
def rows (step : Nat) : List (List (String × Node)) → List String
  | [] => []
  | r :: rs => dashed step (fields 2 r) ++ rows step rs

end

/-- A record as a text. -/
def render (record : Record) : String :=
  String.join ((fields 4 record).map (· ++ "\n"))

end EventScript.Document.Yaml
