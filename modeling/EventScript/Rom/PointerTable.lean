import EventScript.Bytes
import EventScript.Text.Numeral

/-! # Pointer tables

A table of 16 bit pointers delimits records of different sizes: each record ends where the next one
starts. The last pointer only ends the record before it. Sums and products are those of 64 bits.
-/

namespace EventScript

/-- A range of bytes. -/
structure Span where
  addr : Int
  len : Int
  deriving Repr, DecidableEq

/-- Why the bytes of a span cannot be had. -/
inductive SpanError where
  /-- The span is not inside of the `size` bytes. -/
  | outside (span : Span) (size : Nat)
  /-- The span ends before it starts. -/
  | outOfBounds
  deriving Repr, DecidableEq

/-- Where a span ends. -/
def Span.stop (span : Span) : Int :=
  wrap64 (span.addr + span.len)

def SpanError.message : SpanError → String
  | .outside span size =>
      s!"entry 0x{hex 6 span.addr}+0x{hex 0 span.len} needs at least {span.stop} bytes, have {size}"
  | .outOfBounds => "the entry ends before it starts"

/-- The bytes of a span. -/
def Span.slice (span : Span) (data : Bytes) : Except SpanError Bytes :=
  if span.addr < 0 ∨ data.size < span.stop then
    .error (.outside span data.size)
  else
    match data.slice? span.addr span.stop with
    | some codes => .ok codes
    | none => .error .outOfBounds

namespace PointerTable

/-- Why bytes are no pointer table. -/
inductive Error where
  | badCount (pointers : Int)
  | short (needed : Int) (size : Nat)
  /-- The pointer at `index` is below the one before it. -/
  | decreasing (index pointer previous : Nat)
  /-- A pointer behind the end of the bytes, or room for too many spans, was asked for. -/
  | outOfBounds
  deriving Repr, DecidableEq

def Error.message : Error → String
  | .badCount pointers => s!"invalid pointer count {pointers}"
  | .short needed size => s!"pointer table needs {needed} bytes, have {size}"
  | .decreasing index pointer previous =>
      s!"pointer {index} 0x{hex 4 pointer} is below previous pointer 0x{hex 4 previous}"
  | .outOfBounds => "the pointer is outside of the table"

/-- The pointer at an index, if the bytes reach that far. -/
def pointerAt? (data : Bytes) (index : Nat) : Option Nat :=
  match data[2 * index]?, data[2 * index + 1]? with
  | some low, some high => some (pair low high)
  | _, _ => none

/-- The next `count` spans, the first of which starts at the pointer with the given index. -/
def spans (data : Bytes) (offset : Int) (index : Nat) : Nat → Except Error (List Span)
  | 0 => .ok []
  | count + 1 =>
      match pointerAt? data index, pointerAt? data (index + 1) with
      | some pointer, some next =>
          if next < pointer then
            .error (.decreasing (index + 1) next pointer)
          else
            match spans data offset (index + 1) count with
            | .ok rest => .ok (⟨wrap64 (offset + pointer), next - pointer⟩ :: rest)
            | .error e => .error e
      | _, _ => .error .outOfBounds

/-- The number of pointers from which on there is no room for the spans of a table. -/
def maxPointers : Int := 0x4000000000000000

/-- Read a table of so many pointers, which count from `offset`. -/
def read (data : Bytes) (pointers : Int) (offset : Int) : Except Error (List Span) :=
  if pointers < 1 then
    .error (.badCount pointers)
  else if data.size < wrap64 (pointers * 2) then
    .error (.short (wrap64 (pointers * 2)) data.size)
  else if maxPointers ≤ pointers then
    .error .outOfBounds
  else
    spans data offset 0 (pointers.toNat - 1)

end PointerTable

end EventScript
