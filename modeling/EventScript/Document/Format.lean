import EventScript.Document.Cbor
import EventScript.Document.Toml
import EventScript.Document.Yaml

/-! # Export formats -/

namespace EventScript

/-- The formats in which documents are written. -/
inductive Format where
  | yaml
  | toml
  | cbor
  deriving Repr, DecidableEq

namespace Format

def all : List Format :=
  [.yaml, .toml, .cbor]

def name : Format → String
  | .yaml => "yaml"
  | .toml => "toml"
  | .cbor => "cbor"

/-- The format with exactly this name. -/
def ofName? (name : String) : Option Format :=
  all.find? (·.name == name)

/-- The format with this name, in small or capital letters. -/
def parse? (name : String) : Option Format :=
  ofName? name.toLower

/-- What is said about a name that no format has. -/
def unsupported (name : String) : String :=
  s!"unsupported export format '{name}'"

/-- The content of a file with a record. -/
def encode (record : Record) : Format → Bytes
  | .yaml => (Document.Yaml.render record).toUTF8.data
  | .toml => (Document.Toml.render record).toUTF8.data
  | .cbor => Document.Cbor.encode record

end Format

end EventScript
