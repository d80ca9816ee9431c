/-! # Whole numbers with a mark of their base

`0x`, `0o` and `0b` mark a base, and so does a zero in front, for base 8. Single underscores may stand
between digits and behind a mark. Numbers have 64 bits.
-/

namespace EventScript

/-- Why a text is no number. -/
inductive IntegerError where
  | malformed
  | outOfRange
  deriving Repr, DecidableEq

namespace Integer

/-- The value of a digit or of a letter that stands for one. -/
def digit? (c : Char) : Option Nat :=
  if '0' ≤ c ∧ c ≤ '9' then some (c.toNat - '0'.toNat)
  else if 'a' ≤ c ∧ c ≤ 'z' then some (c.toNat - 'a'.toNat + 10)
  else if 'A' ≤ c ∧ c ≤ 'Z' then some (c.toNat - 'A'.toNat + 10)
  else none

/-- The base that is marked, and the digits. -/
def split (cs : List Char) : Nat × List Char :=
  match cs with
  | '0' :: mark :: d :: ds =>
      if mark = 'b' ∨ mark = 'B' then (2, d :: ds)
      else if mark = 'o' ∨ mark = 'O' then (8, d :: ds)
      else if mark = 'x' ∨ mark = 'X' then (16, d :: ds)
      else (8, mark :: d :: ds)
  | '0' :: ds => (8, ds)
  | _ => (10, cs)

/-- Read digits behind those that make up `n`, with underscores left out. A number that does not fit
    is given up at once. -/
def digitsFrom (base n : Nat) : List Char → Except IntegerError Nat
  | [] => .ok n
  | c :: rest =>
      if c = '_' then
        digitsFrom base n rest
      else
        match digit? c with
        | none => .error .malformed
        | some d =>
            if base ≤ d then .error .malformed
            else if 1 <<< 64 ≤ base * n + d then .error .outOfRange
            else digitsFrom base (base * n + d) rest

/-- Each underscore stands behind a digit or a mark, and before a digit. -/
def underscoresFrom (afterDigit : Bool) : List Char → Bool
  | [] => true
  | ['_'] => false
  | '_' :: c :: rest => afterDigit && (digit? c).isSome && underscoresFrom true (c :: rest)
  | _ :: rest => underscoresFrom true rest

def underscoresOk (cs : List Char) : Bool :=
  match cs with
  | '0' :: mark :: rest =>
      if mark ∈ ['b', 'B', 'o', 'O', 'x', 'X'] then underscoresFrom true rest
      else underscoresFrom false cs
  | _ => underscoresFrom false cs

/-- A number without sign. -/
def readUnsigned (cs : List Char) : Except IntegerError Nat :=
  if cs.isEmpty then
    .error .malformed
  else
    match digitsFrom (split cs).1 0 (split cs).2 with
    | .error e => .error e
    | .ok n => if underscoresOk cs then .ok n else .error .malformed

/-- Put a number into the range of 64 bits with sign. -/
def signed (negative : Bool) (n : Nat) : Except IntegerError Int :=
  if negative then
    if n ≤ 1 <<< 63 then .ok (-n) else .error .outOfRange
  else
    if n < 1 <<< 63 then .ok n else .error .outOfRange

/-- A number with an optional sign. -/
def read (text : String) : Except IntegerError Int := do
  match text.toList with
  | '-' :: cs => signed true (← readUnsigned cs)
  | '+' :: cs => signed false (← readUnsigned cs)
  | cs => signed false (← readUnsigned cs)

end Integer

end EventScript
