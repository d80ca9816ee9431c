import EventScript.Command.Line
import EventScript.Run

/-! # The command

The command takes its arguments and the files around it, and gives an exit code, what it prints, and
the files as it leaves them.
-/

namespace EventScript

/-- What the command leaves behind. -/
structure CommandResult where
  exit : Nat
  stdout : String
  stderr : String
  files : FileTree

namespace Command

/-- What is printed of a log line. -/
def printed (level : Level) (line : LogLine) : String :=
  if level.rank ≤ line.level.rank then s!"{line.printed}\n" else ""

/-- What is printed of the output of a run. -/
def printedOutput (level : Level) : Output → String
  | .log line => printed level line
  | .text s => s

/-- The line that names the command, unless it is to be quiet. -/
def banner (o : Options) : String :=
  if o.quiet then "" else printed o.logLevel ⟨.info, "ff6events", []⟩

/-- Explain why a command line is refused. -/
def refuse (files : FileTree) (o : Options) (e : CommandLineError) : CommandResult :=
  let message := printed o.logLevel ⟨.error, e.message, []⟩
  if e.showsUsage then
    let explanation := if e.message = "" then "" else message
    ⟨1, s!"{banner o}{explanation}{usageOutput}", e.errorOutput, files⟩
  else
    ⟨1, message, "", files⟩

/-- What is printed at the end of a failed run. -/
def failureLine (e : RunError) : LogLine :=
  if e.isCancelled then ⟨.info, "Operation cancelled", []⟩
  else ⟨.error, "Decoding failed", [("error", .text e.message)]⟩

/-- Run with options that were accepted. -/
def runWith (files : FileTree) (cancelled : Bool) (o : Options) : CommandResult :=
  match o.resolve files with
  | .error e =>
      let message := printed o.logLevel ⟨.fatal, e.message, []⟩
      ⟨1, s!"{banner o}{message}", "", files⟩
  | .ok c =>
      let output (w : World) : String :=
        banner o ++ String.join (w.output.toList.map (printedOutput o.logLevel))
      match Run.onFile cancelled o c ⟨files, #[]⟩ with
      | .ok _ w => ⟨0, output w, "", w.files⟩
      | .error e w =>
          let exit := if e.isCancelled then 0 else 1
          ⟨exit, output w ++ printed o.logLevel (failureLine e), "", w.files⟩

/-- The command. -/
def run (files : FileTree) (cancelled : Bool) (args : List String) : CommandResult :=
  match readCommandLine args with
  | (o, .error e) => refuse files o e
  | (o, .ok _) => runWith files cancelled o

end Command

end EventScript
