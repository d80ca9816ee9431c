import EventScript.Document.Format
import EventScript.Rom.Address

/-! # Configuration of a run -/

namespace EventScript

/-- A range of addresses that holds scripts one behind the other. -/
structure Region where
  name : String
  start : Int
  /-- The first address behind the range. -/
  stop : Int
  deriving Repr, DecidableEq

/-- What a run is told. The format is a name that may still be wrong. -/
structure Config where
  output : String
  format : String
  workers : Int
  regions : List Region
  deriving Repr, DecidableEq

/-- What is wrong with a configuration. -/
inductive ConfigProblem where
  | format (name : String)
  | workers (count : Int)
  | unnamed (start stop : Int)
  | badName (name : String)
  | duplicate (name : String)
  | badStart (name : String) (cause : Address.BelowBase)
  | badStop (name : String) (cause : Address.BelowBase)
  | order (name : String) (stop start : Int)
  deriving Repr, DecidableEq

def ConfigProblem.message : ConfigProblem → String
  | .format name => Format.unsupported name
  | .workers count => s!"invalid worker count {count}"
  | .unnamed start stop => s!"region 0x{hex 6 start}-0x{hex 6 stop} has no name"
  | .badName name => s!"region name '{name}' is not a valid directory name"
  | .duplicate name => s!"duplicate region name '{name}'"
  | .badStart name cause => s!"region '{name}' start: {cause.message}"
  | .badStop name cause => s!"region '{name}' end: {cause.message}"
  | .order name stop start =>
      s!"region '{name}' end 0x{hex 6 stop} is not after start 0x{hex 6 start}"

namespace Region

/-- The offsets of a region in the image. -/
def fileRange (r : Region) : Except ConfigProblem (Int × Int) := do
  let start ← (Address.toFile r.start).mapError (.badStart r.name)
  let stop ← (Address.toFile r.stop).mapError (.badStop r.name)
  return (start, stop)

/-- The name can be that of a directory. -/
def hasValidName (r : Region) : Bool :=
  r.name.all (fun c => c ≠ '/' ∧ c ≠ '\\') ∧ r.name ≠ "." ∧ r.name ≠ ".."

/-- What is wrong with a region that comes behind others with the given names. -/
def check (taken : List String) (r : Region) : Except ConfigProblem Unit := do
  if r.name = "" then
    throw (.unnamed r.start r.stop)
  if ¬ r.hasValidName then
    throw (.badName r.name)
  if r.name ∈ taken then
    throw (.duplicate r.name)
  let _ ← r.fileRange
  if r.stop ≤ r.start then
    throw (.order r.name r.stop r.start)

/-- What is wrong with the first of some regions that has something wrong. -/
def checkAll (taken : List String) : List Region → Except ConfigProblem Unit
  | [] => .ok ()
  | r :: rest => do
      r.check taken
      checkAll (r.name :: taken) rest

end Region

namespace Config

/-- The configuration when nothing is set. -/
def standard : Config where
  output := "out"
  format := Format.yaml.name
  workers := 8
  regions := []

/-- What is wrong with a configuration. -/
def validate (c : Config) : Except ConfigProblem Unit := do
  if (Format.parse? c.format).isNone then
    throw (.format c.format)
  if c.workers < 1 then
    throw (.workers c.workers)
  Region.checkAll [] c.regions

end Config

end EventScript
