import EventScript.Toml.Scalar
import EventScript.Toml.Value

/-! # Reading TOML texts

A reader takes characters from the front of a text. It fails on anything that is not a statement.
-/

namespace EventScript.Toml

/-- Takes characters from the front, or fails. -/
abbrev Reader (α : Type) := StateT (List Char) Option α

namespace Reader

/-- The next character, which stays in the text. -/
def next? : Reader (Option Char) := do
  return (← get).head?

/-- Take one character. -/
def advance : Reader Unit :=
  modify (·.drop 1)

/-- Take the given character. -/
def expect (c : Char) : Reader Unit := do
  if (← next?) = some c then advance else failure

/-- Take characters as long as they belong to a class. -/
def takeWhile (p : Char → Bool) : Reader (List Char) := fun cs =>
  some (cs.takeWhile p, cs.dropWhile p)

def skipBlanks : Reader Unit := do
  let _ ← takeWhile isBlank

/-- What follows blanks, newlines and comments. -/
def afterSpace (inComment : Bool) : List Char → List Char
  | [] => []
  | c :: rest =>
      if inComment then afterSpace (¬ isNewline c) rest
      else if c = '#' then afterSpace true rest
      else if isBlank c ∨ isNewline c then afterSpace false rest
      else c :: rest

/-- Take blanks, newlines and comments. -/
def skipSpace : Reader Unit :=
  modify (afterSpace false)

/-- The rest of a string on one line, behind its opening quote. -/
def lineString (quote : Char) (escapes : Bool) : Reader String := fun cs => do
  let (inner, rest) ← closeLine quote escapes cs
  let text ← if escapes then unescape false inner else some inner
  return (String.ofList text, rest)

/-- The rest of a string on many lines, behind its opening quotes. -/
def blockString (quote : Char) (escapes : Bool) : Reader String := fun cs => do
  let (inner, rest) ← closeBlock quote escapes 2 cs
  let lines := dropNewline inner
  let text ← if escapes then unescape false lines else some lines
  return (String.ofList text, rest)

/-- A string in either kind of quotes. Only double quotes allow escapes. -/
def string (quote : Char) : Reader String := do
  let escapes := quote = '"'
  expect quote
  match (← get).take 2 with
  | [a, b] =>
      if a = quote ∧ b = quote then
        advance
        advance
        blockString quote escapes
      else
        lineString quote escapes
  | _ => lineString quote escapes

def isBareKeyChar (c : Char) : Bool :=
  c.isAlphanum ∨ c = '_' ∨ c = '-'

/-- One name of a key. -/
def keyName : Reader String := do
  match ← next? with
  | some '"' => advance; lineString '"' true
  | some '\x27' => advance; lineString '\x27' false
  | _ =>
      let name ← takeWhile isBareKeyChar
      if name.isEmpty then failure else return String.ofList name

/-- The names of a key with dots between them. There are fewer names than `fuel`. -/
def key (fuel : Nat) : Reader KeyPath :=
  match fuel with
  | 0 => failure
  | fuel + 1 => do
      skipBlanks
      let name ← keyName
      skipBlanks
      if (← next?) = some '.' then
        advance
        return name :: (← key fuel)
      else
        return [name]

def isScalarChar (c : Char) : Bool :=
  c.isAlphanum ∨ c = '_' ∨ c = '+' ∨ c = '-' ∨ c = '.' ∨ c = ':'

/-- The characters of a plain value. A blank may stand between a date and a time. -/
def scalarToken : Reader (List Char) := do
  let token ← takeWhile isScalarChar
  match (← get).take 2 with
  | [' ', c] =>
      if isDate token ∧ c.isDigit then
        advance
        return token ++ ' ' :: (← takeWhile isScalarChar)
      else
        return token
  | _ => return token

/-- A plain value. -/
def scalar : Reader Value := do
  let token ← scalarToken
  match integer? token with
  | some n => return .integer n
  | none =>
      if isTruth token ∨ isFloat token ∨ isTime token then
        return .other
      else
        failure

mutual

/-- A value. Each value or item inside of it takes one unit of `fuel`. -/
def value (fuel : Nat) : Reader Value :=
  match fuel with
  | 0 => failure
  | fuel + 1 => do
      match ← next? with
      | some '"' => return .text (← string '"')
      | some '\x27' => return .text (← string '\x27')
      | some '[' => advance; return .list (← items fuel)
      | some '\x7b' => advance; return .table (← pairs fuel)
      | _ => scalar

/-- The rest of a list, behind its bracket or a comma. -/
def items (fuel : Nat) : Reader (List Value) :=
  match fuel with
  | 0 => failure
  | fuel + 1 => do
      skipSpace
      if (← next?) = some ']' then
        advance
        return []
      else
        let item ← value fuel
        skipSpace
        match ← next? with
        | some ',' => advance; return item :: (← items fuel)
        | some ']' => advance; return [item]
        | _ => failure

/-- The rest of a table on one line, behind its brace or a comma. -/
def pairs (fuel : Nat) : Reader (List (KeyPath × Value)) :=
  match fuel with
  | 0 => failure
  | fuel + 1 => do
      skipSpace
      if (← next?) = some '\x7d' then
        advance
        return []
      else
        let path ← key fuel
        expect '='
        skipBlanks
        let v ← value fuel
        skipSpace
        match ← next? with
        | some ',' => advance; return (path, v) :: (← pairs fuel)
        | some '\x7d' => advance; return [(path, v)]
        | _ => failure

end

/-- A header, behind its first bracket. -/
def header (fuel : Nat) : Reader Statement := do
  if (← next?) = some '[' then
    advance
    let path ← key fuel
    expect ']'
    expect ']'
    return .listHeader path
  else
    let path ← key fuel
    expect ']'
    return .header path

/-- A key and its value. -/
def assignment (fuel : Nat) : Reader Statement := do
  let path ← key fuel
  expect '='
  skipBlanks
  return .assign path (← value fuel)

/-- Nothing but a comment may follow a statement on its line. -/
def endOfLine : Reader Unit := do
  skipBlanks
  match ← next? with
  | none => return ()
  | some c => if c = '#' ∨ isNewline c then return () else failure

/-- All statements up to the end of the text. Each one takes one unit of `fuel`, and its parts make do
    with what is left. -/
def statements (fuel : Nat) : Reader (List Statement) :=
  match fuel with
  | 0 => failure
  | fuel + 1 => do
      skipSpace
      match ← next? with
      | none => return []
      | some '[' =>
          advance
          let statement ← header fuel
          endOfLine
          return statement :: (← statements fuel)
      | some _ =>
          let statement ← assignment fuel
          endOfLine
          return statement :: (← statements fuel)

end Reader

/-- The statements of a text. A mark of the byte order at its start does not count. No part of a text
    takes more than two units of fuel for each of its characters. -/
def statements? (text : String) : Option (List Statement) :=
  let cs :=
    match text.toList with
    | c :: rest => if c.toNat = 0xfeff then rest else c :: rest
    | [] => []
  if isLegible cs then (Reader.statements (2 * cs.length + 2) cs).map (·.1) else none

end EventScript.Toml
