import EventScript.Bytes
import EventScript.Files.Path
import EventScript.Work
import Std.Data.TreeMap

/-! # Files and directories

A file tree maps places to files and directories. It answers as an operating system does: what cannot
be opened or made is refused with a reason, and then no file changes. A file that was opened has lost
what it held, and what is written to it may be lost as well.
-/

namespace EventScript

/-- Why a call on files was refused. -/
inductive FileReason where
  | missing
  | notDirectory
  | isDirectory
  | noSpace
  | nameTooLong
  | invalid
  /-- What else a device may say. -/
  | other (text : String)
  deriving Repr, DecidableEq

def FileReason.message : FileReason → String
  | .missing => "no such file or directory"
  | .notDirectory => "not a directory"
  | .isDirectory => "is a directory"
  | .noSpace => "no space left on device"
  | .nameTooLong => "file name too long"
  | .invalid => "invalid argument"
  | .other text => text

/-- The calls that can be refused. -/
inductive FileCall where
  | makeDirectory
  | openFile
  | readFile
  | writeFile
  | closeFile
  deriving Repr, DecidableEq

def FileCall.name : FileCall → String
  | .makeDirectory => "mkdir"
  | .openFile => "open"
  | .readFile => "read"
  | .writeFile => "write"
  | .closeFile => "close"

/-- A refused call: what was to be done with which path, and why it was refused. -/
structure FileError where
  call : FileCall
  path : String
  reason : FileReason
  deriving Repr, DecidableEq

def FileError.message (e : FileError) : String :=
  s!"{e.call.name} {e.path}: {e.reason.message}"

/-- What stands at a place. -/
inductive FileNode where
  | directory
  | file (content : Bytes)
  deriving Repr, DecidableEq

/-- A place: the names on the way from the working directory, or from the root if the first one
    is `/`. -/
abbrev Place := List String

/-- Data that a file did not take. -/
structure Loss where
  /-- How much it took: bytes, or pieces of what is written piece by piece. -/
  kept : Nat
  reason : FileReason
  deriving Repr, DecidableEq

/-- The bytes that a file took. -/
def Loss.cut (loss : Loss) (content : Bytes) : Bytes :=
  content.extract 0 loss.kept

/-- What goes wrong with a call although nothing in the tree speaks against it. -/
structure Fault where
  /-- A directory is not made, or a file is not opened. -/
  refusal : Option FileReason := none
  /-- A file does not take what is written to it. -/
  writing : Option Loss := none
  /-- What was written to a file is lost, which is seen when the file is closed. -/
  closing : Option Loss := none
  deriving Repr, DecidableEq

/-- The places that hold something, and the faults of the device that they are on. -/
structure FileTree where
  nodes : Std.TreeMap Place FileNode
  /-- The fault of a call on a place, by the number of calls before it. -/
  faults : Place → Nat → Fault
  /-- How many calls there were. -/
  calls : Nat

namespace FileTree

/-- The device that takes no data. -/
def fullDevice : Place := ["/", "dev", "full"]

/-- A tree without files, except for the device that is always full. -/
def empty : FileTree where
  nodes := Std.TreeMap.empty.insertMany [(["/", "dev"], .directory), (fullDevice, .file #[])]
  faults place _ := if place = fullDevice then { writing := some ⟨0, .noSpace⟩ } else {}
  calls := 0

/-- The working directory, the root, and what lies above the working directory. -/
def isGround (place : Place) : Bool :=
  place == ["/"] || place.all (· == "..")

/-- What stands at a place. -/
def get? (tree : FileTree) (place : Place) : Option FileNode :=
  if isGround place then some .directory else tree.nodes[place]?

/-- Put something at a place. -/
def put (tree : FileTree) (place : Place) (node : FileNode) : FileTree :=
  { tree with nodes := tree.nodes.insert place node }

/-- The fault of the next call on a place. -/
def fault (tree : FileTree) (place : Place) : Fault :=
  tree.faults place tree.calls

/-- The tree behind a call. -/
def next (tree : FileTree) : FileTree :=
  { tree with calls := tree.calls + 1 }

/-- The files below the working directory. -/
def files (tree : FileTree) : List (Place × Bytes) :=
  tree.nodes.toList.filterMap fun (place, node) =>
    match node with
    | .file content =>
        if place.head? = some ".." ∨ place.head? = some "/" then none else some (place, content)
    | _ => none

/-- The place that a name leads to. -/
def step (place : Place) (name : String) : Place :=
  if name = "." then
    place
  else if name = ".." then
    if place = ["/"] then place
    else if place.all (· == "..") then place ++ [".."]
    else place.dropLast
  else
    place ++ [name]

/-- The longest name that a file can have, in bytes. -/
def maxName : Nat := 255

/-- The longest path that can be followed, in bytes. -/
def maxPath : Nat := 4095

/-- Follow names from a place through directories. -/
def follow (tree : FileTree) (place : Place) : List String → Except FileReason Place
  | [] => .ok place
  | name :: names =>
      if maxName < name.utf8ByteSize then
        .error .nameTooLong
      else
        match tree.get? (step place name) with
        | some .directory => follow tree (step place name) names
        | some _ => .error .notDirectory
        | none => .error .missing

/-- The directory that a path leads to, and the name that it has there. -/
def locate (tree : FileTree) (path : String) : Except FileReason (Place × String) := do
  if path = "" then
    throw .missing
  else if path.contains '\x00' then
    throw .invalid
  else if maxPath < path.utf8ByteSize then
    throw .nameTooLong
  else
    let names := (Path.parts path).filter (· ≠ "")
    let place ← tree.follow (if Path.isRooted path then ["/"] else []) names.dropLast
    return (place, names.getLastD ".")

/-- The place that a name leads to in a directory. -/
def enter (place : Place) (name : String) : Except FileReason Place :=
  if maxName < name.utf8ByteSize then .error .nameTooLong else .ok (step place name)

/-- The path can only name a directory. -/
def wantsDirectory (path : String) : Bool :=
  path.endsWith "/"

/-- The place of a file that is to be written. Whether the path asks for a directory is seen before
    its last name is looked up. -/
def target (tree : FileTree) (path : String) : Except FileReason Place := do
  let (directory, name) ← tree.locate path
  if wantsDirectory path then
    throw .isDirectory
  let place ← enter directory name
  if tree.get? place = some .directory then
    throw .isDirectory
  return place

/-- Open a file for writing. It is made if there is none, and else emptied. -/
def create (path : String) : EStateM FileError FileTree Place := fun tree =>
  match tree.target path with
  | .error reason => .error ⟨.openFile, path, reason⟩ tree
  | .ok place =>
      match (tree.fault place).refusal with
      | some reason => .error ⟨.openFile, path, reason⟩ tree.next
      | none => .ok place (tree.next.put place (.file #[]))

/-- Close a file that has taken some content. -/
def close (path : String) (place : Place) (content : Bytes) : EStateM FileError FileTree Unit := fun tree =>
  match (tree.fault place).closing with
  | some loss => .error ⟨.closeFile, path, loss.reason⟩ (tree.next.put place (.file (loss.cut content)))
  | none => .ok () (tree.next.put place (.file content))

/-- Write to a file that was opened, and close it. If it does not take the content then that is the error,
    whatever comes of closing it. -/
def fill (path : String) (place : Place) (content : Bytes) : EStateM FileError FileTree Unit := fun tree =>
  match (tree.fault place).writing with
  | some loss =>
      .error ⟨.writeFile, path, loss.reason⟩ (stateAfter (close path place (loss.cut content)) tree)
  | none => close path place content tree

/-- Write the whole content of a file. -/
def write (path : String) (content : Bytes) : EStateM FileError FileTree Unit := do
  let place ← create path
  fill path place content

/-- What stands where a path leads. A path that asks for a directory leads to nothing else. -/
def find (tree : FileTree) (path : String) : Except FileReason FileNode := do
  let (directory, name) ← tree.locate path
  let place ← enter directory name
  match tree.get? place with
  | none => throw .missing
  | some .directory => return .directory
  | some node => if wantsDirectory path then throw .notDirectory else return node

/-- Read the whole content of a file. -/
def read (tree : FileTree) (path : String) : Except FileError Bytes :=
  match tree.find path with
  | .error reason => .error ⟨.openFile, path, reason⟩
  | .ok .directory => .error ⟨.readFile, path, .isDirectory⟩
  | .ok (.file content) => .ok content

/-- What keeps a directory from being made, whatever stands around it. -/
def nameFault? (path name : String) : Option FileReason :=
  if name.contains '\x00' then some .invalid
  else if maxName < name.utf8ByteSize ∨ maxPath < path.utf8ByteSize then some .nameTooLong
  else none

/-- The place that clean names lead to. -/
def placeOf (rooted : Bool) (names : List String) : Place :=
  if rooted then "/" :: names else names

/-- Make the directory with this name, of which the path and the place are given, unless there is one. -/
def makeDirectory (path name : String) (place : Place) : EStateM FileError FileTree Unit := fun tree =>
  match nameFault? path name with
  | some reason => .error ⟨.makeDirectory, path, reason⟩ tree
  | none =>
      match tree.get? place with
      | some .directory => .ok () tree
      | some _ => .error ⟨.makeDirectory, path, .notDirectory⟩ tree
      | none =>
          match (tree.fault place).refusal with
          | some reason => .error ⟨.makeDirectory, path, reason⟩ tree.next
          | none => .ok () (tree.next.put place .directory)

/-- Make the directories that lead from a place through names, of which some led to the place. -/
def makeFrom (rooted : Bool) (before : List String) : List String → EStateM FileError FileTree Unit
  | [] => return ()
  | name :: names => do
      let here := before ++ [name]
      makeDirectory (Path.ofParts rooted here) name (placeOf rooted here)
      makeFrom rooted here names

/-- Make a directory and all that lead to it. The path is clean. -/
def makeDirectories (path : String) : EStateM FileError FileTree Unit :=
  if path = "" then
    throw ⟨.makeDirectory, path, .missing⟩
  else
    makeFrom (Path.isRooted path) [] (Path.cleanParts path)

end FileTree

end EventScript
