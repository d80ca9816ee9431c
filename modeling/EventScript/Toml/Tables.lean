import EventScript.Text.Numeral
import EventScript.Toml.Reader
import Std.Data.TreeMap
import Std.Data.TreeSet

/-! # Tables of a TOML text

The statements of a text fill a tree of tables. A key can be given only once. A table that was made
only as a part of a longer key can still get a header of its own.

Tables are numbered in the order in which they are made, and a tree holds their numbers. So one table
can stand in two places: in the tree of the text, and in the table on one line that it was written in.
What is put into it at one place is then seen at the other.
-/

namespace EventScript.Toml

/-- A value in its place. A table stands under its number. -/
inductive Tree where
  | text (s : String)
  | integer (n : Int)
  | other
  | list (items : List Tree)
  | table (number : Nat)
  /-- Tables that were opened one after the other under one name, the latest one first. -/
  | tables (numbers : List Nat)

namespace Tree

/-- The table in which a longer key goes on. Of tables under one name, the latest one counts. -/
def table? : Tree → Option Nat
  | .table number => some number
  | .tables (number :: _) => some number
  | _ => none

def isList : Tree → Bool
  | .list _ => true
  | _ => false

end Tree

/-- The keys of a table with their values. -/
abbrev Fields := Std.TreeMap String Tree

/-- The tables while a text is read. -/
structure Tables where
  /-- The tables by their numbers. -/
  store : Array Fields
  /-- The tables that were made only as a part of a longer key. -/
  implied : Std.TreeSet KeyPath
  /-- The keys whose latest value is a list. -/
  lists : Std.TreeSet KeyPath
  /-- All keys and headers, the latest one first. -/
  keys : List KeyPath

namespace Tables

/-- The number of the table that holds all others. -/
def root : Nat := 0

def empty : Tables :=
  ⟨#[.empty], .empty, .empty, []⟩

/-- The keys of a table. -/
def fields (t : Tables) (number : Nat) : Fields :=
  t.store.getD number .empty

/-- What a table has under a key. -/
def get? (t : Tables) (number : Nat) (key : String) : Option Tree :=
  (t.fields number)[key]?

/-- Give a value to a key of a table. -/
def set (number : Nat) (key : String) (tree : Tree) (t : Tables) : Tables :=
  { t with store := t.store.modify number fun fields => fields.insert key tree }

/-- Make an empty table. It stands nowhere yet. -/
def make (t : Tables) : Nat × Tables :=
  (t.store.size, { t with store := t.store.push .empty })

/-- Note that a table was made only as a part of a longer key. -/
def imply (path : KeyPath) (t : Tables) : Tables :=
  { t with implied := t.implied.insert path }

/-- Note that a table was given by a key of its own. -/
def settle (path : KeyPath) (t : Tables) : Tables :=
  { t with implied := t.implied.erase path }

/-- Note whether the value of a key of the table at a path is a list. With an empty key this is noted
    for the table itself. -/
def markList (isList : Bool) (context : KeyPath) (key : String) (t : Tables) : Tables :=
  let path := if key = "" ∧ context ≠ [] then context else context ++ [key]
  { t with lists := if isList then t.lists.insert path else t.lists.erase path }

/-- Note a key or header of the text. -/
def noteKey (path : KeyPath) (t : Tables) : Tables :=
  { t with keys := path :: t.keys }

/-- The table at a path that starts in a given one. -/
def at? (t : Tables) (number : Nat) : KeyPath → Option Nat
  | [] => some number
  | key :: path => do
      let tree ← t.get? number key
      at? t (← tree.table?) path

/-- The last table that is there on the way through a path, and the names behind it. Nothing but a
    table may stand on the way. -/
def reach? (t : Tables) (number : Nat) : KeyPath → Option (Nat × KeyPath)
  | [] => some (number, [])
  | key :: path =>
      match t.get? number key with
      | none => some (number, key :: path)
      | some tree => do reach? t (← tree.table?) path

/-- Make tables inside of each other, the first one in the table at a path. -/
def nest (context : KeyPath) (number : Nat) (t : Tables) : KeyPath → Nat × Tables
  | [] => (number, t)
  | key :: path =>
      let here := context ++ [key]
      let (inner, t) := t.make
      nest here inner ((t.set number key (.table inner)).imply here) path

/-- The table at a path. The tables on the way are made as far as they are not there. -/
def openTables (path : KeyPath) (t : Tables) : Option (Nat × Tables) := do
  let (number, rest) ← t.reach? root path
  return t.nest (path.take (path.length - rest.length)) number rest

/-- Give a value to a key of the table at a path. A key that has one must be only implied so far. It
    keeps what it has, unless a list is noted for it. -/
def define (context : KeyPath) (key : String) (tree : Tree) (t : Tables) : Option Tables := do
  let number ← t.at? root context
  let path := context ++ [key]
  match t.get? number key with
  | none => t.set number key tree
  | some _ =>
      if path ∉ t.implied then none
      else if path ∈ t.lists then (t.settle path).set number key tree
      else t.settle path

/-- Open a table. -/
def openTable (path : KeyPath) (t : Tables) : Option Tables := do
  let (_, t) ← t.openTables path.dropLast
  let (inner, t) := t.make
  t.define path.dropLast (path.getLastD "") (.table inner)

/-- Open one more table of a list of tables. -/
def openRow (path : KeyPath) (t : Tables) : Option Tables := do
  let key := path.getLastD ""
  let (number, t) ← t.openTables path.dropLast
  let (row, t) := t.make
  match t.get? number key with
  | none => t.set number key (.tables [row])
  | some (.tables rows) => t.set number key (.tables (row :: rows))
  | some _ => none

/-- Open the tables that are a part of a longer key. -/
def enter (context : KeyPath) (t : Tables) : KeyPath → Option Tables
  | [] => some t
  | key :: path => do
      let here := context ++ [key]
      enter here (← (t.imply here).openTable here) path

/-- Put a value below a path of names in a table, with tables made on the way. -/
def insert (number : Nat) (tree : Tree) (t : Tables) : KeyPath → Option Tables
  | [] => none
  | [key] => t.set number key tree
  | key :: path =>
      match t.get? number key with
      | some (.table inner) => insert inner tree t path
      | some _ => none
      | none =>
          let (inner, t) := t.make
          insert inner tree (t.set number key (.table inner)) path

/-- Get ready for the value of a key: the tables that are a part of the key are opened, and the key is
    noted. -/
def announce (context path : KeyPath) (t : Tables) : Option Tables := do
  return (← t.enter context path.dropLast).noteKey (context ++ path)

/-- Give its value to a key that is announced. -/
def assign (context path : KeyPath) (tree : Tree) (t : Tables) : Option Tables := do
  let parent := context ++ path.dropLast
  let key := path.getLastD ""
  return (← t.define parent key tree).markList tree.isList parent key

mutual

/-- Take in a value for a key of the table at a path. The keys of a table on one line are given to the
    table of that name in the tree, and they also make up a table of their own, which is the value. -/
def value (context : KeyPath) (key : String) (inList : Bool) (t : Tables) :
    Value → Option (Tree × Tables)
  | .text s => some (.text s, t)
  | .integer n => some (.integer n, t)
  | .other => some (.other, t)
  | .list vs => do
      let (trees, t) ← items context key (t.markList true context key) vs
      return (.list trees, t)
  | .table entries => do
      let path := context ++ [key]
      let t := t.imply path
      let t ← if inList then t.openRow path else t.openTable path
      let (own, t) := t.make
      return (.table own, ← line path own t entries)

/-- Take in the values of a list. -/
def items (context : KeyPath) (key : String) (t : Tables) :
    List Value → Option (List Tree × Tables)
  | [] => some ([], t)
  | v :: rest => do
      let (tree, t) ← value context key true t v
      let (trees, t) ← items context key t rest
      return (tree :: trees, t)

/-- Take in the keys of a table on one line, whose own table has the number `own`. -/
def line (context : KeyPath) (own : Nat) (t : Tables) : List (KeyPath × Value) → Option Tables
  | [] => some t
  | (path, v) :: rest => do
      let t ← t.announce context path
      let (tree, t) ← value (context ++ path.dropLast) (path.getLastD "") false t v
      let t ← t.assign context path tree
      line context own (← t.insert own tree path) rest

end

/-- Take in a statement. Keys belong to the table that was opened last. -/
def add (context : KeyPath) (t : Tables) : Statement → Option (KeyPath × Tables)
  | .header path => do
      let t ← t.openTable path
      return (path, (t.markList false path "").noteKey path)
  | .listHeader path => do
      let t ← t.openRow path
      return (path, (t.markList false path "").noteKey path)
  | .assign path v => do
      let t ← t.announce context path
      let (tree, t) ← t.value (context ++ path.dropLast) (path.getLastD "") false v
      return (context, ← t.assign context path tree)

def addAll (context : KeyPath) (t : Tables) : List Statement → Option Tables
  | [] => some t
  | s :: rest => do
      let (context, t) ← t.add context s
      addAll context t rest

/-- The tables of a text. -/
def ofText? (text : String) : Option Tables := do
  empty.addAll [] (← statements? text)

/-- The tables of a list of tables, in the order of the text. -/
def rows? (t : Tables) : Tree → Option (List Fields)
  | .tables numbers => some (numbers.reverse.map t.fields)
  | .list trees => trees.mapM fun tree =>
      match tree with
      | .table number => some (t.fields number)
      | _ => none
  | _ => none

end Tables

/-- A name as it stands in a key: in quotes unless it can stand without. -/
def nameText (name : String) : String :=
  if name ≠ "" ∧ name.all Reader.isBareKeyChar then name
  else String.ofList ('"' :: name.toList.flatMap quoteChar ++ ['"'])
where
  quoteChar (c : Char) : List Char :=
    if c = '"' then ['\\', '"']
    else if c = '\\' then ['\\', '\\']
    else if c.toNat = 8 then ['\\', 'b']
    else if c = '\t' then ['\\', 't']
    else if c = '\n' then ['\\', 'n']
    else if c.toNat = 12 then ['\\', 'f']
    else if c = '\r' then ['\\', 'r']
    else if c.toNat < 32 ∨ c.toNat = 0x7f then ['\\', 'u'] ++ hexDigits 4 c.toNat
    else [c]

/-- A key with dots between its names. -/
def pathText (path : KeyPath) : String :=
  joinWith "." (path.map nameText)

end EventScript.Toml
