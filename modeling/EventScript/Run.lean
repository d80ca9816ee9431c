import EventScript.Command.Options
import EventScript.Export
import EventScript.Rom.Image
import EventScript.Script.EntryPoints
import EventScript.Script.Listing

/-! # A decoding run

A run reads the locations of an image, decodes the scripts at their entry points and in the configured
regions, exports all of it, and writes a listing if one is asked for. Nothing is written before all
scripts were looked for.
-/

namespace EventScript

/-- What a run puts out besides files. -/
inductive Output where
  | log (line : LogLine)
  | text (s : String)
  deriving Repr, DecidableEq

/-- What a run works on. -/
structure World where
  files : FileTree
  /-- What was put out, in order. -/
  output : Array Output

/-- Why a run failed. -/
inductive RunError where
  | openImage (path : String) (cause : FileError)
  | loadImage (path : String) (cause : Image.Error)
  | config (cause : ConfigProblem)
  | locations (cause : Location.Error)
  | entryPointsCancelled
  | regionsCancelled
  | regionRange (cause : ConfigProblem)
  | regionOutside (name : String) (stop : Int) (size : Nat)
  /-- The bytes up to the end of a region are not in the image. -/
  | outOfBounds (name : String)
  | exporter (format : String)
  | exportLocations (cause : ExportError)
  | exportScripts (cause : ExportError)
  | exportRegion (name : String) (cause : ExportError)
  | createListing (path : String) (cause : FileError)
  | closeListing (path : String) (cause : FileError)
  | listing (cause : ListingError)
  deriving Repr, DecidableEq

namespace RunError

def message : RunError → String
  | .openImage path cause => s!"loading rom: opening file {path}: {cause.message}"
  | .loadImage path cause => s!"loading rom: loading rom {path}: {cause.message}"
  | .config cause => s!"invalid configuration: {cause.message}"
  | .locations cause => s!"parsing locations: {cause.message}"
  | .entryPointsCancelled => s!"decoding entry points: {EntryPointScan.cancelledMessage}"
  | .regionsCancelled => "scanning regions: context canceled"
  | .regionRange cause => cause.message
  | .regionOutside name stop size =>
      s!"region '{name}' ends at 0x{hex 6 stop} outside of the rom size 0x{hex 6 size}"
  | .outOfBounds name => s!"region '{name}': {DecodeError.outOfBounds.message}"
  | .exporter format => s!"creating exporter: {Format.unsupported format}"
  | .exportLocations cause => s!"exporting locations: {cause.message}"
  | .exportScripts cause => s!"exporting scripts: {cause.message}"
  | .exportRegion name cause => s!"exporting region '{name}': {cause.message}"
  | .createListing path cause =>
      s!"writing listing: creating listing file {path}: {cause.message}"
  | .closeListing path cause =>
      s!"writing listing: closing listing file {path}: {cause.message}"
  | .listing cause => s!"writing listing: {cause.message}"

/-- The run was cancelled. -/
def isCancelled : RunError → Bool
  | .entryPointsCancelled | .regionsCancelled => true
  | _ => false

end RunError

/-- Where a run finds out that it is cancelled. -/
structure Context where
  /-- While the scripts at entry points are read, by one who is about to read one of them. -/
  atEntryPoints : Bool
  /-- Before the region with this number is scanned. -/
  atRegion : Nat → Bool

/-- A context in which a run is cancelled from the start, or never. -/
def Context.always (cancelled : Bool) : Context :=
  ⟨cancelled, fun _ => cancelled⟩

/-- A part of a run: it changes the world and may fail. -/
abbrev Run (α : Type) := EStateM RunError World α

/-- What was found in a region. -/
structure RegionScan where
  region : Region
  /-- The offsets of the region in the image. -/
  start : Int
  stop : Int
  result : ScanResult
  deriving Repr, DecidableEq

/-- What a run found. -/
structure Summary where
  locations : List Location
  entryPoints : EntryPointScan
  regions : List RegionScan
  deriving Repr, DecidableEq

/-- The number of scripts at entry points and in regions. -/
def Summary.scripts (s : Summary) : Nat :=
  s.regions.foldl (fun n r => n + r.result.entries.length) s.entryPoints.entries.length

namespace Run

/-- Put something out. -/
def emit (item : Output) : Run Unit :=
  modify fun w => { w with output := w.output.push item }

def log (line : LogLine) : Run Unit :=
  emit (.log line)

def logAll (lines : List LogLine) : Run Unit :=
  lines.forM log

/-- Change the files. Changes before a failure stay. -/
def onFiles {ε α : Type} (wrap : ε → RunError) (work : EStateM ε FileTree α) : Run α := fun w =>
  match work w.files with
  | .ok a files => .ok a { w with files }
  | .error e files => .error (wrap e) { w with files }

/-- Decode the scripts at the entry points. -/
def scanEntryPoints (cancelled : Bool) (rom : Bytes) (offsets : List Int) : Run EntryPointScan := do
  match EntryPointScan.ofOffsets? cancelled rom offsets with
  | none => throw .entryPointsCancelled
  | some scan =>
      log scan.log
      logAll (scan.failures.map fun f =>
        { level := .warn
          message := "Event script could not be decoded"
          fields := [("offset", .hex f.offset), ("error", .text f.mismatch.message)] })
      return scan

/-- The warning about a region that was not read to its end. -/
def regionWarning (region : Region) (r : ScanResult) : List LogLine :=
  match r.mismatch with
  | none => []
  | some m =>
      [{ level := .warn
         message := "Region not fully decoded"
         fields := [("region", .text region.name), ("remaining", .number r.remaining),
           ("error", .text m.message)] }]

/-- Decode the scripts of a region. -/
def scanRegion (cancelled : Bool) (rom : Bytes) (region : Region) : Run RegionScan := do
  if cancelled then
    throw .regionsCancelled
  let (start, stop) ← ofExcept .regionRange region.fileRange
  if rom.size < stop then
    throw (.regionOutside region.name stop rom.size)
  match rom.slice? 0 stop with
  | none => throw (.outOfBounds region.name)
  | some data =>
      let result := scanFrom data start
      logAll result.log
      logAll (regionWarning region result)
      return ⟨region, start, stop, result⟩

/-- Decode the scripts of all regions. Whether the run is cancelled is looked at before each of them. -/
def scanRegions (cancelled : Nat → Bool) (rom : Bytes) : List Region → Run (List RegionScan)
  | [] => return []
  | region :: rest => do
      let scan ← scanRegion (cancelled 0) rom region
      return scan :: (← scanRegions (fun n => cancelled (n + 1)) rom rest)

/-- Export the scripts of regions. -/
def exportRegions (e : Exporter) : List RegionScan → Run Unit
  | [] => return ()
  | r :: rest => do
      let dir := Exporter.regionDir r.region.name
      onFiles (.exportRegion r.region.name) (e.scripts dir r.result.entries)
      log (e.scriptsLog dir r.result.entries)
      exportRegions e rest

/-- Export all that was found. -/
def exportAll (c : Config) (s : Summary) : Run Unit := do
  match Exporter.ofFormatName? c.output c.format with
  | none => throw (.exporter c.format)
  | some e =>
      onFiles .exportLocations (e.locations s.locations)
      log (e.locationsLog s.locations)
      onFiles .exportScripts (e.scripts Exporter.scriptsDir s.entryPoints.entries)
      log (e.scriptsLog Exporter.scriptsDir s.entryPoints.entries)
      exportRegions e s.regions

/-- The part of a listing for a region. -/
def listRegion (shown : Listing.Comments) (rom : Bytes) (r : RegionScan) : Listing Unit := do
  Listing.emptyLine
  Listing.title
    s!"region {r.region.name} ${hex 6 r.region.start}-${hex 6 r.region.stop}"
  Listing.scripts shown rom r.result.entries
  match rom.slice? 0 r.stop with
  | some data => Listing.remaining shown data (r.stop - r.result.remaining)
  | none => throw .outOfBounds

/-- The listing of a run. -/
def listAll (shown : Listing.Comments) (rom : Bytes) (s : Summary) : Listing Unit := do
  Listing.title "entry points"
  Listing.scripts shown rom s.entryPoints.entries
  s.regions.forM (listRegion shown rom)

/-- The sink for a file that was just opened. -/
def sinkFor (tree : FileTree) (path : String) (place : Place) : Sink :=
  match (tree.fault place).writing with
  | some loss => .limited loss.kept (FileError.mk .writeFile path loss.reason).message
  | none => .unlimited

/-- Close the file of a listing with what its sink holds. -/
def closeListing (path : String) (place : Place) (sink : Sink) : EStateM FileError FileTree Unit :=
  FileTree.close path place sink.text.toUTF8.data

/-- Write a listing to a file that was opened, and close it. The file is closed after a failure too, and then
    it is not asked what came of it. -/
def fillListing (path : String) (place : Place) (listing : Listing Unit) : Run Unit := fun w =>
  match listing (sinkFor w.files path place) with
  | .ok _ sink => onFiles (.closeListing path) (closeListing path place sink) w
  | .error e sink => .error (.listing e) { w with files := stateAfter (closeListing path place sink) w.files }

/-- Write a listing to a file. What was written before a failure stays. -/
def writeListingFile (path : String) (listing : Listing Unit) : Run Unit := do
  let place ← onFiles (.createListing path) (FileTree.create path)
  fillListing path place listing

/-- Write a listing to the standard output. -/
def printListing (listing : Listing Unit) : Run Unit := fun w =>
  match listing .unlimited with
  | .ok _ sink => .ok () { w with output := w.output.push (.text sink.text) }
  | .error e sink => .error (.listing e) { w with output := w.output.push (.text sink.text) }

/-- Write the listing that the options ask for. -/
def writeListing (o : Options) (rom : Bytes) (s : Summary) : Run Unit := do
  let listing := listAll ⟨!o.noHexComments, !o.noOffsets⟩ rom s
  if o.listing = "-" then printListing listing
  else if o.listing ≠ "" then writeListingFile o.listing listing

/-- Run on an image without header. -/
def onImageIn (context : Context) (rom : Bytes) (o : Options) (c : Config) : Run Summary := do
  ofExcept .config c.validate
  let locations ← ofExcept .locations (Location.readAll rom)
  let offsets := Location.entryPoints locations
  log { level := .debug
        message := "Locations parsed"
        fields := [("locations", .number locations.length), ("entry_points", .number offsets.length)] }
  let entryPoints ← scanEntryPoints context.atEntryPoints rom offsets
  let regions ← scanRegions context.atRegion rom c.regions
  let summary : Summary := ⟨locations, entryPoints, regions⟩
  exportAll c summary
  writeListing o rom summary
  unless o.quiet do
    log { level := .info
          message := "Decoding finished"
          fields := [("locations", .number locations.length), ("scripts", .number summary.scripts),
            ("failures", .number entryPoints.failures.length), ("output", .text c.output)] }
  return summary

/-- Run on an image without header, cancelled from the start or never. -/
def onImage (cancelled : Bool) (rom : Bytes) (o : Options) (c : Config) : Run Summary :=
  onImageIn (.always cancelled) rom o c

/-- The image of a file. -/
def loadImage (path : String) : Run Image := do
  match (← get).files.read path with
  | .ok content => ofExcept (.loadImage path) (Image.ofBytes content)
  | .error cause =>
      match cause.call with
      | .readFile => throw (.loadImage path (.unreadable cause.message))
      | _ => throw (.openImage path cause)

/-- Run on the image in the file that the options name. -/
def onFile (cancelled : Bool) (o : Options) (c : Config) : Run Summary := do
  let image ← loadImage o.input
  unless o.quiet do
    log { level := .info
          message := "Processing ROM"
          fields := [("file", .text o.input), ("size", .number image.data.size),
            ("format", .text c.format)] }
  if image.hasCopierHeader then
    log { level := .debug, message := "Copier header removed", fields := [] }
  onImage cancelled image.data o c

end Run

end EventScript
