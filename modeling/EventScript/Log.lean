import EventScript.Text.Numeral

/-! # Log lines

A run reports what it does as a list of lines, each with a level, a message and named values.
-/

namespace EventScript

/-- How much a line matters, in rising order. -/
inductive Level where
  | debug
  | info
  | warn
  | error
  | fatal
  deriving Repr, DecidableEq

namespace Level

def name : Level → String
  | .debug => "DEBUG"
  | .info => "INFO"
  | .warn => "WARN"
  | .error => "ERROR"
  | .fatal => "FATAL"

def rank : Level → Nat
  | .debug => 0
  | .info => 1
  | .warn => 2
  | .error => 3
  | .fatal => 4

/-- The least level that is shown. -/
def shownFrom (debug quiet : Bool) : Level :=
  if debug then .debug else if quiet then .error else .info

end Level

/-- A value of a log line. -/
inductive LogValue where
  | number (n : Int)
  | text (s : String)
  deriving Repr, DecidableEq

/-- One line of the log. -/
structure LogLine where
  level : Level
  message : String
  fields : List (String × LogValue)
  deriving Repr, DecidableEq

/-- An offset as logs show it. -/
def LogValue.hex (n : Int) : LogValue :=
  .text s!"0x{hexUpper 0 n}"

namespace LogLine

/-- A quoted text: quotes, backslashes and characters without a picture are escaped. -/
def quoteChar (c : Char) : List Char :=
  if c = '"' then ['\\', '"']
  else if c = '\\' then ['\\', '\\']
  else if c = '\n' then ['\\', 'n']
  else if c = '\r' then ['\\', 'r']
  else if c = '\t' then ['\\', 't']
  else if c.toNat < 32 ∨ c.toNat = 0x2028 ∨ c.toNat = 0x2029 then
    ['\\', 'u'] ++ hexDigits 4 c.toNat
  else [c]

def quote (s : String) : String :=
  String.ofList ('"' :: s.toList.flatMap quoteChar ++ ['"'])

/-- A value as it is printed. -/
def value : LogValue → String
  | .number n => toString n
  | .text s => quote s

/-- The line as a program prints it: level, message and the named values in braces. -/
def printed (line : LogLine) : String :=
  let head := padRight 8 line.level.name ++ line.message
  if line.fields.isEmpty then
    head
  else
    let fields := joinWith "," (line.fields.map fun (key, v) => s!"{quote key}:{value v}")
    s!"{head} \x7b{fields}\x7d"

end LogLine

end EventScript
