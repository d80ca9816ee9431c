import EventScript.Command.Options
import EventScript.Text.Integer
import EventScript.Text.Quoted

/-! # The command line

Flags stand before the file to decode. A flag begins with one or two dashes; its value follows behind
an equals sign or as the next argument. Switches have no value unless it follows behind an equals sign.
-/

namespace EventScript

/-- The flags of the command, in the order of their names. -/
inductive Flag where
  | config
  | debug
  | format
  | listing
  | noHexComments
  | noOffsets
  | output
  | quiet
  | workers
  deriving Repr, DecidableEq

namespace Flag

def all : List Flag :=
  [.config, .debug, .format, .listing, .noHexComments, .noOffsets, .output, .quiet, .workers]

def name : Flag → String
  | .config => "c"
  | .debug => "debug"
  | .format => "f"
  | .listing => "l"
  | .noHexComments => "nohexcomments"
  | .noOffsets => "nooffsets"
  | .output => "o"
  | .quiet => "q"
  | .workers => "workers"

def ofName? (name : String) : Option Flag :=
  all.find? (·.name == name)

/-- What a flag is for. -/
def help : Flag → String
  | .config => "TOML config file with output settings and script regions to scan"
  | .debug => "enable debugging options for extended logging"
  | .format => "export format: yaml, toml or cbor (default \"yaml\")"
  | .listing => "name of the text listing file to write, - for stdout"
  | .noHexComments => "do not output event bytes as hex values in listing comments"
  | .noOffsets => "do not output offsets in listing comments"
  | .output => "output directory of the exported records (default \"out\")"
  | .quiet => "perform operations quietly"
  | .workers => "number of concurrent script decoders (default 8)"

/-- What kind of value a flag has; a switch has none to name. -/
def kind : Flag → String
  | .config | .format | .listing | .output => " string"
  | .workers => " int"
  | .debug | .noHexComments | .noOffsets | .quiet => ""

/-- The lines about a flag. The help of a short switch stands on the same line. -/
def usage (f : Flag) : String :=
  let head := s!"  -{f.name}{f.kind}"
  let gap := if head.length ≤ 4 then "\t" else "\n    \t"
  s!"{head}{gap}{f.help}\n"

/-- The lines about all flags. -/
def usageAll : String :=
  String.join (all.map usage)

end Flag

/-- Why the flags cannot be understood. -/
inductive FlagError where
  | badSyntax (arg : String)
  | undefined (name : String)
  | missingValue (name : String)
  | badNumber (value name : String) (cause : IntegerError)
  | badTruth (value name : String)
  /-- Help was asked for. -/
  | help
  deriving Repr, DecidableEq

/-- What is printed about the flags, if anything. -/
def FlagError.reason? : FlagError → Option String
  | .badSyntax arg => some s!"bad flag syntax: {arg}"
  | .undefined name => some s!"flag provided but not defined: -{name}"
  | .missingValue name => some s!"flag needs an argument: -{name}"
  | .badNumber value name .malformed =>
      some s!"invalid value {quoted value} for flag -{name}: parse error"
  | .badNumber value name .outOfRange =>
      some s!"invalid value {quoted value} for flag -{name}: value out of range"
  | .badTruth value name => some s!"invalid boolean value {quoted value} for -{name}: parse error"
  | .help => none

/-- A truth value in words or digits. -/
def truth? (text : String) : Option Bool :=
  if text ∈ ["1", "t", "T", "TRUE", "true", "True"] then some true
  else if text ∈ ["0", "f", "F", "FALSE", "false", "False"] then some false
  else none

namespace Flag

/-- How a flag takes its value. -/
inductive Setter where
  | switch (set : Bool → Options → Options)
  | text (set : String → Options → Options)
  | number (set : Int → Options → Options)

def setter : Flag → Setter
  | .config => .text fun v o => { o with config := v }
  | .debug => .switch fun v o => { o with debug := v }
  | .format => .text fun v o => { o with format := v }
  | .listing => .text fun v o => { o with listing := v }
  | .noHexComments => .switch fun v o => { o with noHexComments := v }
  | .noOffsets => .switch fun v o => { o with noOffsets := v }
  | .output => .text fun v o => { o with output := v }
  | .quiet => .switch fun v o => { o with quiet := v }
  | .workers => .number fun v o => { o with workers := v }

end Flag

/-- An argument taken apart. -/
inductive Argument where
  /-- No flag: the flags end before it. -/
  | positional
  /-- Two dashes: the flags end behind it. -/
  | endOfFlags
  | malformed
  | flag (name : String) (value : Option String)
  deriving Repr, DecidableEq

namespace Argument

/-- A flag without its dashes. Its name has at least one character. -/
def ofFlagChars (cs : List Char) : Argument :=
  match cs with
  | [] => .malformed
  | c :: rest =>
      if c = '-' ∨ c = '=' then
        .malformed
      else
        let name := String.ofList (c :: rest.takeWhile (· ≠ '='))
        match rest.dropWhile (· ≠ '=') with
        | [] => .flag name none
        | _ :: value => .flag name (some (String.ofList value))

def ofString (arg : String) : Argument :=
  match arg.toList with
  | ['-', '-'] => .endOfFlags
  | '-' :: '-' :: rest => ofFlagChars rest
  | '-' :: c :: rest => ofFlagChars (c :: rest)
  | _ => .positional

end Argument

/-- The options that were set, and then either the arguments behind the flags or an error. A wrong
    truth value counts as false. -/
def readFlags (o : Options) : List String → Options × Except FlagError (List String)
  | [] => (o, .ok [])
  | arg :: rest =>
      match Argument.ofString arg with
      | .positional => (o, .ok (arg :: rest))
      | .endOfFlags => (o, .ok rest)
      | .malformed => (o, .error (.badSyntax arg))
      | .flag name value =>
          match Flag.ofName? name with
          | none => (o, .error (if name = "help" ∨ name = "h" then .help else .undefined name))
          | some f =>
              match f.setter, value, rest with
              | .switch set, none, rest => readFlags (set true o) rest
              | .switch set, some v, rest =>
                  match truth? v with
                  | some b => readFlags (set b o) rest
                  | none => (set false o, .error (.badTruth v name))
              | .text set, some v, rest => readFlags (set v o) rest
              | .text set, none, v :: rest => readFlags (set v o) rest
              | .number set, some v, rest =>
                  match Integer.read v with
                  | .ok n => readFlags (set n o) rest
                  | .error e => (o, .error (.badNumber v name e))
              | .number set, none, v :: rest =>
                  match Integer.read v with
                  | .ok n => readFlags (set n o) rest
                  | .error e => (o, .error (.badNumber v name e))
              | _, none, [] => (o, .error (.missingValue name))

/-- Why a command line is refused. -/
inductive CommandLineError where
  | flags (cause : FlagError)
  | noInput
  | misplaced (arg : String)
  | format (name : String)
  | workers (count : Int)
  | listingNeeded
  deriving Repr, DecidableEq

namespace CommandLineError

/-- The usage of the command is shown. -/
def showsUsage : CommandLineError → Bool
  | .flags _ | .noInput | .misplaced _ => true
  | _ => false

def message : CommandLineError → String
  | .flags _ | .noInput => ""
  | .misplaced arg =>
      s!"Potential argument {arg} found after the rom file, please pass the rom file as last argument"
  | .format name =>
      let names := joinWith ", " (Format.all.map Format.name)
      s!"{Format.unsupported name}. Valid options: {names}"
  | .workers count => s!"invalid worker count {count}"
  | .listingNeeded => "-nohexcomments and -nooffsets require a listing output set with -l"

/-- What goes to the error output when usage is shown. Wrong flags are explained first. -/
def errorOutput : CommandLineError → String
  | .flags cause =>
      let reason :=
        match cause.reason? with
        | some text => s!"{text}\n"
        | none => ""
      s!"{reason}Usage of ff6events:\n{Flag.usageAll}{Flag.usageAll}"
  | _ => Flag.usageAll

end CommandLineError

/-- What goes to the standard output when usage is shown. -/
def usageOutput : String :=
  "usage: ff6events [options] <rom file>\n\n\n"

/-- The first argument that looks like a flag. -/
def misplaced? (args : List String) : Option String :=
  args.find? (·.startsWith "-")

/-- Put the name of the format in small letters, and refuse options that make no sense. -/
def Options.check (o : Options) : Options × Except CommandLineError Unit :=
  match (if o.format = "" then some "" else (Format.parse? o.format).map Format.name) with
  | none => (o, .error (.format o.format))
  | some format =>
      let o := { o with format }
      if o.workers < 0 then
        (o, .error (.workers o.workers))
      else if o.listing = "" ∧ (o.noHexComments ∨ o.noOffsets) then
        (o, .error .listingNeeded)
      else
        (o, .ok ())

/-- The options of a command line. They are also there when the command line is refused. -/
def readCommandLine (args : List String) : Options × Except CommandLineError Unit :=
  match readFlags {} args with
  | (o, .error cause) => (o, .error (.flags cause))
  | (o, .ok []) => (o, .error .noInput)
  | (o, .ok (input :: others)) =>
      match misplaced? others with
      | some arg => (o, .error (.misplaced arg))
      | none =>
          match o.check with
          | (o, .ok _) => ({ o with input }, .ok ())
          | (o, .error e) => (o, .error e)

end EventScript
