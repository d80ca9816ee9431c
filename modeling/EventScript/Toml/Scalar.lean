/-! # Plain values and strings in TOML texts -/

namespace EventScript.Toml

def isBlank (c : Char) : Bool :=
  c = ' ' ∨ c = '\t'

def isNewline (c : Char) : Bool :=
  c = '\n' ∨ c = '\r'

/-- A control character that may not be written, tabs and newlines apart. -/
def isControl (c : Char) : Bool :=
  (c.toNat < 0x20 ∧ ¬ isBlank c ∧ ¬ isNewline c) ∨ c.toNat = 0x7f

/-- No control character stands in a text, and a carriage return only in front of a line feed. -/
def isLegible : List Char → Bool
  | [] => true
  | c :: rest =>
      (if c = '\r' then rest.head? = some '\n' else ¬ isControl c) && isLegible rest

/-- The value of a digit in any base up to 16. -/
def digitValue? (c : Char) : Option Nat :=
  if '0' ≤ c ∧ c ≤ '9' then some (c.toNat - '0'.toNat)
  else if 'a' ≤ c ∧ c ≤ 'f' then some (c.toNat - 'a'.toNat + 10)
  else if 'A' ≤ c ∧ c ≤ 'F' then some (c.toNat - 'A'.toNat + 10)
  else none

/-- Read digits behind those that make up `n`. Single underscores may stand between digits. -/
def digitsFrom (base n : Nat) (afterDigit : Bool) : List Char → Option Nat
  | [] => if afterDigit then some n else none
  | c :: rest =>
      if c = '_' then
        if afterDigit then digitsFrom base n false rest else none
      else
        match digitValue? c with
        | some d => if d < base then digitsFrom base (base * n + d) true rest else none
        | none => none

def digits? (base : Nat) (cs : List Char) : Option Nat :=
  digitsFrom base 0 false cs

/-- Decimal digits without a zero in front. -/
def decimal? : List Char → Option Nat
  | '0' :: _ :: _ => none
  | cs => digits? 10 cs

/-- Take a sign off. -/
def unsigned : List Char → Bool × List Char
  | '+' :: rest => (false, rest)
  | '-' :: rest => (true, rest)
  | rest => (false, rest)

/-- A whole number: decimal with an optional sign, or with the mark of another base. -/
def integer? (token : List Char) : Option Int :=
  match token with
  | '0' :: 'x' :: ds => inRange false (digits? 16 ds)
  | '0' :: 'o' :: ds => inRange false (digits? 8 ds)
  | '0' :: 'b' :: ds => inRange false (digits? 2 ds)
  | _ => inRange (unsigned token).1 (decimal? (unsigned token).2)
where
  /-- Numbers have 64 bits. -/
  inRange (negative : Bool) : Option Nat → Option Int
    | none => none
    | some n =>
        if negative then
          if n ≤ 1 <<< 63 then some (-n) else none
        else
          if n < 1 <<< 63 then some n else none

def isTruth (token : List Char) : Bool :=
  token = ['t', 'r', 'u', 'e'] ∨ token = ['f', 'a', 'l', 's', 'e']

/-- An exponent: digits with an optional sign. Once it has five digits, more do not count. -/
def exponent? (cs : List Char) : Option Int :=
  let (negative, ds) := unsigned cs
  if (digits? 10 ds).isSome then
    let size : Nat :=
      (ds.filterMap digitValue?).foldl (fun e d => if e < 10000 then 10 * e + d else e) 0
    some (if negative then -size else size)
  else
    none

/-- The digits of the least number that is too large for a float of 64 bits: half a step above the
    largest one, from where on numbers are rounded up. -/
def floatLimit : List Char :=
  Nat.toDigits 10 (1 <<< 1024 - 1 <<< 970)

/-- Digits are at least those of a limit. They are compared from the front, and the last digit of the
    limit is not zero. -/
def isAtLeast : List Char → List Char → Bool
  | _, [] => true
  | [], _ :: _ => false
  | d :: ds, l :: ls => l.toNat < d.toNat || (l == d && isAtLeast ds ls)

/-- The number with the given digits, the first of which is not zero, and the point behind `point` of
    them is too large for a float. -/
def reachesLimit (ds : List Char) (point : Int) : Bool :=
  !ds.isEmpty &&
    (floatLimit.length < point || (point == floatLimit.length && isAtLeast ds floatLimit))

/-- A decimal number is too large if its first 19 digits alone make it so, or if it is too large with its
    whole part cut down to the first 800 digits. What is cut off there takes its places with it. -/
def isTooLarge (whole fraction : List Char) (e : Int) : Bool :=
  let ds := (whole ++ fraction).dropWhile (· = '0')
  let short := (whole.take 800 ++ fraction).dropWhile (· = '0')
  reachesLimit (ds.take 19) (ds.length - fraction.length + e) ||
    reachesLimit short (short.length - fraction.length + e)

/-- A number with a fraction or an exponent, or one that is no number. It must not be too large. -/
def isFloat (token : List Char) : Bool :=
  let cs := (unsigned token).2
  if cs = ['i', 'n', 'f'] ∨ cs = ['n', 'a', 'n'] then
    true
  else
    let mantissa := cs.takeWhile fun c => c ≠ 'e' ∧ c ≠ 'E'
    let power := cs.drop mantissa.length
    let whole := mantissa.takeWhile (· ≠ '.')
    let fraction := mantissa.drop whole.length
    let power? := if power.isEmpty then some 0 else exponent? (power.drop 1)
    match power? with
    | none => false
    | some e =>
        !(fraction.isEmpty && power.isEmpty) && (decimal? whole).isSome &&
          (fraction.isEmpty || (digits? 10 (fraction.drop 1)).isSome) &&
          !isTooLarge (whole.filter Char.isDigit) (fraction.filter Char.isDigit) e

/-- A number of exactly `count` digits that is in a range. -/
def isField (count low high : Nat) (cs : List Char) : Bool :=
  match digits? 10 cs with
  | some n => cs.length = count ∧ cs.all Char.isDigit ∧ low ≤ n ∧ n ≤ high
  | none => false

def isLeapYear (year : Nat) : Bool :=
  year % 4 = 0 ∧ (year % 100 ≠ 0 ∨ year % 400 = 0)

def daysInMonth (year month : Nat) : Nat :=
  if month = 2 then (if isLeapYear year then 29 else 28)
  else if month ∈ [4, 6, 9, 11] then 30
  else 31

/-- A date: year, month and day with dashes between them. -/
def isDate (cs : List Char) : Bool :=
  let year := cs.take 4
  let month := (cs.drop 5).take 2
  let days := daysInMonth ((digits? 10 year).getD 0) ((digits? 10 month).getD 0)
  isField 4 0 9999 year && (cs.drop 4).head? = some '-' && isField 2 1 12 month &&
    (cs.drop 7).head? = some '-' && isField 2 1 days (cs.drop 8)

/-- A time of the day; seconds and their fraction may be left out. -/
def isClock (cs : List Char) : Bool :=
  let seconds := cs.drop 5
  isField 2 0 23 (cs.take 2) && (cs.drop 2).head? = some ':' && isField 2 0 59 ((cs.drop 3).take 2) &&
    (seconds.isEmpty ||
      (seconds.head? = some ':' && isField 2 0 59 ((seconds.drop 1).take 2) &&
        match seconds.drop 3 with
        | [] => true
        | point :: ds => point = '.' && !ds.isEmpty && ds.all Char.isDigit))

/-- The distance of a clock from the common one. -/
def isZone (cs : List Char) : Bool :=
  match cs with
  | ['Z'] | ['z'] => true
  | sign :: rest =>
      (sign = '+' || sign = '-') && isField 2 0 24 (rest.take 2) && (rest.drop 2).head? = some ':' &&
        isField 2 0 60 (rest.drop 3)
  | [] => false

/-- A date, a time of the day, or both, and then perhaps with a zone. -/
def isTime (token : List Char) : Bool :=
  let clock := token.drop 11
  let plain := clock.takeWhile fun c => c ≠ 'Z' ∧ c ≠ 'z' ∧ c ≠ '+' ∧ c ≠ '-'
  let zone := clock.drop plain.length
  isDate token || isClock token ||
    (isDate (token.take 10) && ((token.drop 10).take 1).all (fun c => c = 'T' || c = 't' || c = ' ') &&
      isClock plain && (zone.isEmpty || isZone zone))

/-- The character with a code that is written in hexadecimal digits. -/
def codePoint? (ds : List Char) : Option Char :=
  if ds.all fun c => (digitValue? c).isSome then
    let n := (digits? 16 ds).getD 0
    if n < 0xd800 ∨ (0xe000 ≤ n ∧ n < 0x110000) then some (Char.ofNat n) else none
  else
    none

/-- The character that a letter stands for behind a backslash. -/
def escaped? (c : Char) : Option Char :=
  match c with
  | 'b' => some '\x08'
  | 't' => some '\t'
  | 'n' => some '\n'
  | 'f' => some '\x0c'
  | 'r' => some '\r'
  | 'e' => some '\x1b'
  | '"' => some '"'
  | '\\' => some '\\'
  | _ => none

/-- The line ends here, but for blanks. -/
def endsLine (cs : List Char) : Bool :=
  (cs.takeWhile fun c => isBlank c ∨ isNewline c).contains '\n'

/-- Replace escapes by what they stand for. A backslash at the end of a line joins it with the next
    text, whatever blanks and newlines stand between them; `joining` leaves these out. -/
def unescape (joining : Bool) : List Char → Option (List Char)
  | [] => some []
  | '\\' :: 'x' :: a :: b :: rest => do
      return (← codePoint? [a, b]) :: (← unescape false rest)
  | '\\' :: 'u' :: a :: b :: c :: d :: rest => do
      return (← codePoint? [a, b, c, d]) :: (← unescape false rest)
  | '\\' :: 'U' :: a :: b :: c :: d :: e :: f :: g :: h :: rest => do
      return (← codePoint? [a, b, c, d, e, f, g, h]) :: (← unescape false rest)
  | '\\' :: c :: rest =>
      if endsLine (c :: rest) then
        unescape true (c :: rest)
      else do
        return (← escaped? c) :: (← unescape false rest)
  | ['\\'] => none
  | c :: rest =>
      if joining ∧ (isBlank c ∨ isNewline c) then
        unescape true rest
      else do
        return c :: (← unescape false rest)

/-- Split off what stands before the closing quote of a string on one line. -/
def closeLine (quote : Char) (escapes : Bool) : List Char → Option (List Char × List Char)
  | [] => none
  | c :: rest =>
      if c = quote then
        some ([], rest)
      else if isNewline c then
        none
      else
        match rest with
        | d :: more =>
            if escapes ∧ c = '\\' then
              if isNewline d then none
              else (closeLine quote escapes more).map fun (inner, tail) => (c :: d :: inner, tail)
            else
              (closeLine quote escapes (d :: more)).map fun (inner, tail) => (c :: inner, tail)
        | [] => none

/-- Split off what stands before the three closing quotes of a string on many lines. Up to `extra` more
    quotes may stand before them: two, or three behind a backslash that is escaped. -/
def closeBlock (quote : Char) (escapes : Bool) (extra : Nat) :
    List Char → Option (List Char × List Char)
  | [] => none
  | c :: rest =>
      let quotes := ((c :: rest).takeWhile (· = quote)).length
      if 3 ≤ quotes then
        if quotes ≤ 3 + extra then
          some (List.replicate (quotes - 3) quote, (c :: rest).drop quotes)
        else
          none
      else
        match rest with
        | d :: more =>
            if escapes ∧ c = '\\' ∧ ¬ isNewline d then
              (closeBlock quote escapes (if d = '\\' then 3 else 2) more).map fun (inner, tail) =>
                (c :: d :: inner, tail)
            else
              (closeBlock quote escapes 2 (d :: more)).map fun (inner, tail) => (c :: inner, tail)
        | [] => none

/-- Leave out a newline at the start. -/
def dropNewline : List Char → List Char
  | '\n' :: rest => rest
  | '\r' :: '\n' :: rest => rest
  | cs => cs

end EventScript.Toml
