import EventScript.Config
import EventScript.Files.FileTree
import EventScript.Toml.Tables

/-! # Configuration files

A configuration file is a TOML text. Keys are matched without regard to case, and a key that means
nothing is an error.
-/

namespace EventScript

/-- Why a configuration cannot be had. -/
inductive ConfigError where
  /-- The file cannot be read. -/
  | unreadable (path : String) (cause : FileError)
  /-- The file is no TOML text, or a value is of the wrong kind. -/
  | malformed (path : String)
  | unknownKeys (path : String) (keys : List String)
  | invalid (path : String) (cause : ConfigProblem)
  /-- An option is wrong. -/
  | option (cause : ConfigProblem)
  deriving Repr, DecidableEq

def ConfigError.message : ConfigError → String
  | .unreadable path cause => s!"decoding config file '{path}': {cause.message}"
  | .malformed path => s!"decoding config file '{path}': invalid content"
  | .unknownKeys path keys =>
      let names := joinWith ", " keys
      s!"unknown keys in config file '{path}': {names}"
  | .invalid path cause => s!"validating config file '{path}': {cause.message}"
  | .option cause => cause.message

namespace Config

open Toml (Fields KeyPath Tables Tree)

/-- A letter without its case. Two letters outside of ASCII fold to ASCII ones. -/
def foldChar (c : Char) : Char :=
  if c.toNat = 0x17f then 's' else if c.toNat = 0x212a then 'k' else c.toLower

/-- A key without its case. -/
def foldKey (key : String) : String :=
  key.map foldChar

/-- What keys have set, and which keys did. -/
structure Settings (α : Type) where
  value : α
  used : List KeyPath

/-- Apply a key of a region. -/
def setRegionKey (context : KeyPath) (s : Settings Region) (key : String) (tree : Tree) :
    Option (Settings Region) :=
  let used := s.used.insert (context ++ [key])
  match foldKey key, tree with
  | "name", .text name => some ⟨{ s.value with name }, used⟩
  | "start", .integer start => some ⟨{ s.value with start }, used⟩
  | "end", .integer stop => some ⟨{ s.value with stop }, used⟩
  | "name", _ | "start", _ | "end", _ => none
  | _, _ => some s

/-- A region from the keys of its table. -/
def region? (context : KeyPath) (s : Settings Region) :
    List (String × Tree) → Option (Settings Region)
  | [] => some s
  | (key, tree) :: rest => do
      region? context (← setRegionKey context s key tree) rest

/-- The regions of a list of tables, and the keys that set something there or before. What the table of
    a region does not set stays as it was. -/
def regions? (context : KeyPath) (used : List KeyPath) (before : List Region) :
    List Fields → Option (Settings (List Region))
  | [] => some ⟨[], used⟩
  | fields :: rest => do
      let first ← region? context ⟨before.headD ⟨"", 0, 0⟩, used⟩ fields.toList
      let others ← regions? context first.used before.tail rest
      return ⟨first.value :: others.value, others.used⟩

/-- A configuration while keys are applied. -/
structure Draft where
  config : Config
  /-- The regions that are known. A shorter list of tables hides some of them, but they are not
      forgotten. -/
  known : List Region

/-- Apply a list of tables for regions. Keys that differ in case give such lists more than once: the
    tables then add to the regions in their places, unless there are more tables than regions. -/
def setRegions (key : String) (s : Settings Draft) (rows : List Fields) : Option (Settings Draft) := do
  let before := if s.value.known.length < rows.length then [] else s.value.known
  let regions ← regions? [key] s.used before rows
  return ⟨⟨{ s.value.config with regions := regions.value }, regions.value ++ before.drop rows.length⟩,
    regions.used⟩

/-- Apply a key at the top. -/
def setKey (tables : Tables) (s : Settings Draft) (key : String) (tree : Tree) :
    Option (Settings Draft) :=
  let c := s.value.config
  let set (c : Config) : Settings Draft := ⟨{ s.value with config := c }, s.used.insert [key]⟩
  match foldKey key, tree with
  | "output", .text output => some (set { c with output })
  | "format", .text format => some (set { c with format })
  | "workers", .integer workers => some (set { c with workers })
  | "region", tree => do setRegions key (set c) (← tables.rows? tree)
  | "output", _ | "format", _ | "workers", _ => none
  | _, _ => some s

/-- Apply all keys at the top. -/
def setKeys (tables : Tables) (s : Settings Draft) :
    List (String × Tree) → Option (Settings Draft)
  | [] => some s
  | (key, tree) :: rest => do
      setKeys tables (← setKey tables s key tree) rest

/-- The configuration of a text over the standard one, and the keys that mean nothing, in the order
    of the text. -/
def ofText? (text : String) : Option (Config × List String) := do
  let tables ← Tables.ofText? text
  let settings ← setKeys tables ⟨⟨standard, []⟩, []⟩ (tables.fields Tables.root).toList
  let unknown := tables.keys.reverse.filter fun path => path ∉ settings.used
  return (settings.value.config, unknown.map Toml.pathText)

/-- Accept a configuration that was read from a file. The name of the format is put in small
    letters. -/
def accept (path : String) (c : Config) : Except ConfigError Config :=
  match Format.parse? c.format with
  | none => .error (.invalid path (.format c.format))
  | some format =>
      let c := { c with format := format.name }
      match c.validate with
      | .ok _ => .ok c
      | .error cause => .error (.invalid path cause)

/-- Read a configuration file. -/
def load (tree : FileTree) (path : String) : Except ConfigError Config :=
  match tree.read path with
  | .error cause => .error (.unreadable path cause)
  | .ok content =>
      match (String.fromUTF8? ⟨content⟩).bind ofText? with
      | none => .error (.malformed path)
      | some (c, []) => accept path c
      | some (_, keys) => .error (.unknownKeys path keys)

end Config

end EventScript
