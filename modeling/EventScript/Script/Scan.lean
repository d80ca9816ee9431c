import EventScript.Log
import EventScript.Script

/-! # Finding scripts in a stream

A scan reads script after script until the stream ends or no dialect fits.
-/

namespace EventScript

/-- No dialect reads a script at an offset; each one has its own reason. -/
structure Mismatch where
  offset : Int
  worldChar : DecodeError
  field : DecodeError
  deriving Repr, DecidableEq

namespace Mismatch

/-- What is said about the failure of each dialect. -/
def causes (m : Mismatch) : String × String :=
  (s!"{Dialect.worldChar.name} {m.worldChar.message}", s!"{Dialect.field.name} {m.field.message}")

def message (m : Mismatch) : String :=
  let (worldChar, field) := m.causes
  s!"no event script dialect matches at offset 0x{hex 6 m.offset}: {worldChar}; {field}"

end Mismatch

/-- Read a script at an offset. The world-map dialect is tried first. The entry is kept under its
    start. -/
def scriptAt (data : Bytes) (offset : Int) : Except Mismatch Entry :=
  if offset < 0 ∨ data.size < offset then
    .error ⟨offset, .outside offset data.size, .outside offset data.size⟩
  else
    match Dialect.worldChar.script data offset with
    | .ok events stop => .ok ⟨offset, offset, stop, events⟩
    | .error worldChar _ =>
        match Dialect.field.script data offset with
        | .ok events stop => .ok ⟨offset, offset, stop, events⟩
        | .error field _ => .error ⟨offset, worldChar, field⟩

/-- A script that was found takes at least one byte and lies in the stream. -/
theorem scriptAt_eq_ok {data : Bytes} {offset : Int} {entry : Entry}
    (h : scriptAt data offset = .ok entry) :
    entry.start = offset ∧ offset < entry.stop ∧ entry.stop ≤ data.size := by
  simp only [scriptAt] at h
  split at h
  · simp at h
  · split at h
    · rename_i hs
      simp only [Except.ok.injEq] at h
      subst h
      exact ⟨rfl, Dialect.script_eq_ok hs⟩
    · split at h
      · rename_i hs
        simp only [Except.ok.injEq] at h
        subst h
        exact ⟨rfl, Dialect.script_eq_ok hs⟩
      · simp at h

/-- What a scan found. -/
structure ScanResult where
  /-- The scripts in the order of the stream. -/
  entries : List Entry
  /-- The number of bytes behind the last script. -/
  remaining : Int
  /-- Why the scan stopped before the end of the stream. -/
  mismatch : Option Mismatch
  deriving Repr, DecidableEq

namespace ScanResult

/-- The whole stream was read. -/
def isComplete (r : ScanResult) : Bool :=
  r.remaining == 0

/-- Note the positions of entries under their offsets, from position `count` on. An entry hides the one that
    was noted under its offset before. -/
def indexFrom (count : Nat) (noted : List (Int × Nat)) : List Entry → List (Int × Nat)
  | [] => noted
  | e :: entries => indexFrom (count + 1) ((e.offset, count) :: noted) entries

/-- The position of each entry under its offset. -/
def index (r : ScanResult) : List (Int × Nat) :=
  indexFrom 0 [] r.entries

/-- The entry that is kept under an offset. -/
def get? (r : ScanResult) (offset : Int) : Option Entry := do
  let position ← r.index.lookup offset
  r.entries[position]?

/-- What a person is told about the bytes that were not read. -/
def report (r : ScanResult) : String :=
  if r.isComplete then
    ""
  else
    let count := s!"{r.remaining} bytes left.\n"
    match r.mismatch with
    | none => count
    | some m =>
        let (worldChar, field) := m.causes
        s!"{count}Errors: {worldChar}\n{field}\n"

end ScanResult

/-- Scan on from an offset, with the entries found before in reverse. -/
def scanOn (data : Bytes) (found : List Entry) (offset : Int) : ScanResult :=
  if data.size ≤ offset then
    ⟨found.reverse, 0, none⟩
  else
    match h : scriptAt data offset with
    | .error m => ⟨found.reverse, data.size - offset, some m⟩
    | .ok entry =>
        have := scriptAt_eq_ok h
        scanOn data (⟨entry.stop, entry.start, entry.stop, entry.events⟩ :: found) entry.stop
termination_by left data offset
decreasing_by
  simp only [left]
  omega

/-- Read script after script. Each entry is kept under the offset behind it. -/
def scanFrom (data : Bytes) (start : Int) : ScanResult :=
  scanOn data [] (max start 0)

/-- The log of a scan: a line for each script and one for where it stopped early. -/
def ScanResult.log (r : ScanResult) : List LogLine :=
  let found := r.entries.map fun e =>
    { level := .debug
      message := "Script found"
      fields := [("dialect", .text e.dialect.name), ("start", .hex e.start), ("end", .hex e.stop),
        ("events", .number e.size)] : LogLine }
  match r.mismatch with
  | none => found
  | some m =>
      found ++ [{ level := .debug
                  message := "Scan stopped"
                  fields := [("offset", .hex m.offset), ("remaining", .number r.remaining),
                    ("error", .text m.message)] }]

end EventScript
