import EventScript.Script.Scan

/-! # Listings

A listing shows scripts as text: a label, a line for each event, and a line for the stop byte. Lines
can name the offset and the bytes that they stand for. The text goes to a sink piece by piece, and a
sink may run out of room.
-/

namespace EventScript

/-- The parts of a listing that are written in one piece. -/
inductive ListingPart where
  | title
  | label
  | line
  | data
  deriving Repr, DecidableEq

/-- Why a listing was given up. -/
inductive ListingError where
  /-- The sink did not take a piece of text. -/
  | write (part : ListingPart) (reason : String)
  /-- An event of the script is not in the stream. -/
  | decode (offset : Int) (cause : DecodeError)
  /-- Bytes that a line stands for are not in the stream. -/
  | outOfBounds
  /-- Something went wrong in the script at `start`. -/
  | script (start : Int) (cause : ListingError)
  deriving Repr, DecidableEq

namespace ListingError

def message : ListingError → String
  | .write .title reason => s!"writing title: {reason}"
  | .write .label reason => s!"writing label: {reason}"
  | .write .line reason => s!"writing line: {reason}"
  | .write .data reason => s!"writing remaining data: writing data line: {reason}"
  | .decode offset cause => s!"decoding event at 0x{hex 6 offset}: {cause.message}"
  | .outOfBounds => DecodeError.outOfBounds.message
  | .script start cause => s!"writing script 0x{hex 6 start}: {cause.message}"

end ListingError

/-- Where a listing goes. -/
structure Sink where
  /-- The pieces that were written, in order. -/
  pieces : Array String
  /-- How many more pieces are taken; there is no limit if it is absent. -/
  room : Option Nat
  /-- What a sink without room says. -/
  reason : String

namespace Sink

/-- A sink that takes everything. -/
def unlimited : Sink :=
  ⟨#[], none, ""⟩

/-- A sink that takes `n` pieces. -/
def limited (n : Nat) (reason : String) : Sink :=
  ⟨#[], some n, reason⟩

/-- All that was written. -/
def text (sink : Sink) : String :=
  String.join sink.pieces.toList

end Sink

/-- Writing to a sink, up to the first error. -/
abbrev Listing (α : Type) := EStateM ListingError Sink α

namespace Listing

/-- What the comments of a listing show. -/
structure Comments where
  hex : Bool
  offsets : Bool
  deriving Repr, DecidableEq

/-- Write one piece. A sink without room stays as it is. -/
def write (part : ListingPart) (piece : String) : Listing Unit := fun sink =>
  match sink.room with
  | none => .ok () { sink with pieces := sink.pieces.push piece }
  | some 0 => .error (.write part sink.reason) sink
  | some (n + 1) => .ok () { sink with pieces := sink.pieces.push piece, room := some n }

/-- Name the script in which an error arose. -/
def inScript {α : Type} (start : Int) (writing : Listing α) : Listing α := fun sink =>
  match writing sink with
  | .ok a rest => .ok a rest
  | .error e rest => .error (.script start e) rest

/-- Write a title above a group of scripts. -/
def title (text : String) : Listing Unit :=
  write .title s!"; {text}\n\n"

/-- Write an empty line. -/
def emptyLine : Listing Unit :=
  write .line "\n"

/-- The offsets of the next `count` events and of what follows them, behind those in `done`, which is
    in reverse. -/
def offsetsFrom (data : Bytes) (dialect : Dialect) (done : List Int) :
    Nat → Int → Except ListingError (List Int)
  | 0, offset => .ok (offset :: done).reverse
  | count + 1, offset =>
      match dialect.decode data offset with
      | .ok _ next => offsetsFrom data dialect (offset :: done) count next
      | .error e _ => .error (.decode offset e)

/-- The offset of each event of an entry, and last that of its stop byte. -/
def eventOffsets (data : Bytes) (entry : Entry) : Except ListingError (List Int) :=
  offsetsFrom data entry.dialect [] entry.size entry.start

/-- The comments on the bytes from `start` up to `stop`. -/
def comments (shown : Comments) (data : Bytes) (start stop : Int) :
    Except ListingError (List String) :=
  let place := if shown.offsets then [s!"${hexUpper 6 start}"] else []
  if shown.hex then
    match data.slice? start stop with
    | some codes => .ok (place ++ [joinWith " " (codes.toList.map hexByte)])
    | none => .error .outOfBounds
  else
    .ok place

/-- A line with its comments in a column of their own. -/
def lineText (code : String) : List String → String
  | [] => s!"  {code}\n"
  | parts =>
      let comment := joinWith "  " parts
      s!"  {padRight 40 code} ; {comment}\n"

/-- Write the line for the bytes from `start` up to `stop`. -/
def line (shown : Comments) (data : Bytes) (code : String) (start stop : Int) : Listing Unit := do
  match comments shown data start stop with
  | .ok parts => write .line (lineText code parts)
  | .error e => throw e

/-- Write the lines of events; each event ends where the next one starts, and there must be an offset
    for that. -/
def eventLines (shown : Comments) (data : Bytes) : List Event → List Int → Listing Unit
  | [], _ => return ()
  | event :: events, start :: stop :: offsets => do
      line shown data event.text start stop
      eventLines shown data events (stop :: offsets)
  | _, _ => throw .outOfBounds

/-- Write one script. -/
def script (shown : Comments) (data : Bytes) (entry : Entry) : Listing Unit := do
  write .label s!"script_{hex 6 entry.start}: ; {entry.dialect.name}, {entry.size} events\n"
  match eventOffsets data entry with
  | .error e => throw e
  | .ok offsets =>
      eventLines shown data entry.events.toList offsets
      line shown data "end" (entry.stop - 1) entry.stop

/-- Write scripts with an empty line between them. -/
def scripts (shown : Comments) (data : Bytes) : List Entry → Listing Unit
  | [] => return ()
  | [entry] => inScript entry.start (script shown data entry)
  | entry :: entries => do
      inScript entry.start (script shown data entry)
      emptyLine
      scripts shown data entries

/-- The number of bytes on a line of raw data. -/
def bytesPerLine : Nat := 16

/-- A line of raw data. -/
def dataText (shown : Comments) (codes : Bytes) (offset : Nat) : String :=
  let values := joinWith ", " (codes.toList.map fun b => s!"${hexByte b}")
  let code := s!".byte {values}"
  if shown.offsets then s!"  {padRight 64 code} ; ${hexUpper 6 offset}\n" else s!"  {code}\n"

/-- Write raw data from an offset to the end of the stream. -/
def dataLines (shown : Comments) (data : Bytes) (offset : Nat) : Listing Unit := do
  if offset < data.size then
    let codes := data.extract offset (offset + bytesPerLine)
    write .data (dataText shown codes offset)
    dataLines shown data (offset + bytesPerLine)
termination_by data.size - offset
decreasing_by
  simp only [bytesPerLine]
  omega

/-- Write the bytes that no script took, from an offset on. -/
def remaining (shown : Comments) (data : Bytes) (offset : Int) : Listing Unit := do
  if offset < data.size then
    write .line s!"\n; {data.size - offset} bytes not decoded\n"
    if offset < 0 then
      throw .outOfBounds
    else
      dataLines shown data offset.toNat

end Listing

end EventScript
