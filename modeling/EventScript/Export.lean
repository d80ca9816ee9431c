import EventScript.Document.Format
import EventScript.Files.FileTree
import EventScript.Log
import EventScript.Rom.Location
import EventScript.Script.Document

/-! # Exporting records to files

Each record has a file of its own, named for its number. A record that cannot be encoded or written
ends the export; the files of the records before it stay.
-/

namespace EventScript

/-- Where records go, in which format, and how they are encoded. -/
structure Exporter where
  dir : String
  format : Format
  encode : Record → Except String Bytes

/-- Why the file of a record was not written. -/
inductive WriteError where
  | encode (format : Format) (reason : String)
  | makeDirectory (dir : String) (cause : FileError)
  | writeFile (path : String) (cause : FileError)
  deriving Repr, DecidableEq

def WriteError.message : WriteError → String
  | .encode format reason => s!"encoding {format.name}: {reason}"
  | .makeDirectory dir cause => s!"creating directory '{dir}': {cause.message}"
  | .writeFile path cause => s!"writing file '{path}': {cause.message}"

/-- Why an export was given up. -/
inductive ExportError where
  | location (index : Int) (cause : WriteError)
  | script (start : Int) (cause : WriteError)
  deriving Repr, DecidableEq

def ExportError.message : ExportError → String
  | .location index cause => s!"exporting location 0x{hex 3 index}: {cause.message}"
  | .script start cause => s!"exporting script 0x{hex 6 start}: {cause.message}"

namespace Exporter

/-- The directory for locations. -/
def locationsDir : String := "field"

/-- The directory for the scripts at entry points. -/
def scriptsDir : String := "events"

/-- The directory for the scripts of a region. -/
def regionDir (name : String) : String :=
  Path.join ["regions", name]

/-- The exporter for a format, whose encoding takes all records. -/
def new (dir : String) (format : Format) : Exporter :=
  ⟨dir, format, fun record => .ok (format.encode record)⟩

/-- The exporter for a format, which must be given by its exact name. -/
def ofFormatName? (dir name : String) : Option Exporter :=
  (Format.ofName? name).map (new dir)

/-- The file of a record. -/
def path (e : Exporter) (subDir name : String) : String :=
  Path.join [Path.join [e.dir, subDir], s!"{name}.{e.format.name}"]

/-- Write the file of a record. -/
def write (e : Exporter) (subDir name : String) (record : Record) : EStateM WriteError FileTree Unit := do
  let content ← ofExcept (.encode e.format) (e.encode record)
  let dir := Path.join [e.dir, subDir]
  wrapError (.makeDirectory dir) (FileTree.makeDirectories dir)
  let path := e.path subDir name
  wrapError (.writeFile path) (FileTree.write path content)

/-- Write the files of a list of records, up to the first that fails. -/
def writeAll {α : Type} (save : α → EStateM ExportError FileTree Unit) :
    List α → EStateM ExportError FileTree Unit
  | [] => return ()
  | a :: rest => do
      save a
      writeAll save rest

/-- Write one location. -/
def location (e : Exporter) (l : Location) : EStateM ExportError FileTree Unit :=
  wrapError (.location l.index) (e.write locationsDir (hex 3 l.index) l.document)

/-- Write one script. -/
def script (e : Exporter) (subDir : String) (entry : Entry) : EStateM ExportError FileTree Unit :=
  wrapError (.script entry.start) (e.write subDir (hex 6 entry.start) entry.document)

/-- Write locations. -/
def locations (e : Exporter) (ls : List Location) : EStateM ExportError FileTree Unit :=
  writeAll e.location ls

/-- Write scripts. -/
def scripts (e : Exporter) (subDir : String) (entries : List Entry) :
    EStateM ExportError FileTree Unit :=
  writeAll (e.script subDir) entries

/-- The log line after an export. -/
def log (e : Exporter) (what subDir : String) (count : Nat) : LogLine where
  level := .debug
  message := s!"{what} exported"
  fields := [("count", .number count), ("dir", .text (Path.join [e.dir, subDir]))]

def locationsLog (e : Exporter) (ls : List Location) : LogLine :=
  e.log "Locations" locationsDir ls.length

def scriptsLog (e : Exporter) (subDir : String) (entries : List Entry) : LogLine :=
  e.log "Scripts" subDir entries.length

end Exporter

end EventScript
