import EventScript.Config.File
import EventScript.Log

/-! # Options of a run -/

namespace EventScript

/-- What the command line sets. A text that is empty and a number that is zero are not set. -/
structure Options where
  input : String := ""
  output : String := ""
  config : String := ""
  listing : String := ""
  format : String := ""
  workers : Int := 0
  debug : Bool := false
  quiet : Bool := false
  noHexComments : Bool := false
  noOffsets : Bool := false
  deriving Repr, DecidableEq

namespace Options

/-- The least level of log lines that are shown. -/
def logLevel (o : Options) : Level :=
  .shownFrom o.debug o.quiet

/-- The configuration from the file that is named, or else the standard one. -/
def baseConfig (o : Options) (tree : FileTree) : Except ConfigError Config :=
  if o.config = "" then .ok .standard else Config.load tree o.config

/-- Options that are set count more than the configuration. -/
def override (o : Options) (c : Config) : Except ConfigError Config := do
  let output := if o.output = "" then c.output else o.output
  let format ←
    if o.format = "" then
      .ok c.format
    else
      match Format.parse? o.format with
      | some format => .ok format.name
      | none => .error (.option (.format o.format))
  let workers := if 0 < o.workers then o.workers else c.workers
  return { c with output, format, workers }

/-- The configuration of a run. -/
def resolve (o : Options) (tree : FileTree) : Except ConfigError Config := do
  o.override (← o.baseConfig tree)

end Options

end EventScript
