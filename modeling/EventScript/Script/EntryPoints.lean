import EventScript.Script.Scan

/-! # Scripts at entry points

Scripts that are started from outside have known offsets. They are read one by one, in no particular
order, and the outcome is sorted.
-/

namespace EventScript

/-! ## Sorting -/

section Sorting

variable {α : Type}

/-- How one record compares to another by their keys: below zero if it comes first. Keys are subtracted in
    64 bits. -/
def compareBy (key : α → Int) (a b : α) : Int :=
  wrap64 (key a - key b)

/-- Put a record in front of those that it comes before. The records are listed from the last one on. -/
def insertBack (compare : α → α → Int) (a : α) : List α → List α
  | [] => [a]
  | b :: before => if compare a b < 0 then b :: insertBack compare a before else a :: b :: before

/-- Sort records by inserting one after the other. The latest record is listed first. -/
def sortBy (compare : α → α → Int) (records : List α) : List α :=
  (records.foldr (insertBack compare) []).reverse

end Sorting

/-! ## Outcomes -/

/-- No script was found at an entry point. -/
structure ScanFailure where
  offset : Int
  mismatch : Mismatch
  deriving Repr, DecidableEq

/-- What was found at a number of entry points. -/
structure EntryPointScan where
  /-- The scripts in the order of their starts; each is kept under its start. -/
  entries : List Entry
  /-- The failures in the order of their offsets. -/
  failures : List ScanFailure
  deriving Repr, DecidableEq

namespace EntryPointScan

/-- Add an outcome in front of those that were there. -/
def add (scan : EntryPointScan) (offset : Int) : Except Mismatch Entry → EntryPointScan
  | .ok entry => { scan with entries := entry :: scan.entries }
  | .error m => { scan with failures := ⟨offset, m⟩ :: scan.failures }

/-- The outcomes for the offsets, the latest first. -/
def collect (data : Bytes) (offsets : List Int) : EntryPointScan :=
  offsets.foldl (fun scan offset => scan.add offset (scriptAt data offset)) ⟨[], []⟩

/-- Bring entries and failures into the order of their offsets. -/
def sorted (scan : EntryPointScan) : EntryPointScan where
  entries := sortBy (compareBy Entry.start) scan.entries
  failures := sortBy (compareBy ScanFailure.offset) scan.failures

/-- Read the scripts at the offsets, each as often as it is given. -/
def ofOffsets (data : Bytes) (offsets : List Int) : EntryPointScan :=
  (collect data offsets).sorted

/-- Read the scripts at the offsets unless the work is cancelled, which is looked at before each of
    them. -/
def ofOffsets? (cancelled : Bool) (data : Bytes) (offsets : List Int) : Option EntryPointScan :=
  if cancelled ∧ offsets ≠ [] then none else some (ofOffsets data offsets)

/-- What is said when the work was cancelled. -/
def cancelledMessage : String :=
  "scanning entry points: context canceled"

def log (scan : EntryPointScan) : LogLine where
  level := .debug
  message := "Entry points scanned"
  fields := [("scripts", .number scan.entries.length), ("failures", .number scan.failures.length)]

end EntryPointScan

end EventScript
