import EventScript.Text.Numeral

/-! # Paths

A path names a place by the directories on the way to it. A clean path has no empty parts, no `.`, and
`..` only where nothing can be taken back.
-/

namespace EventScript.Path

/-- The parts of a path between its slashes. -/
def parts (path : String) : List String :=
  (path.toList.splitOn '/').map String.ofList

/-- The path starts at the root and not at the working directory. -/
def isRooted (path : String) : Bool :=
  path.startsWith "/"

/-- Add a part to a clean list of parts, the last of which is at its head. -/
def push (rooted : Bool) (done : List String) (part : String) : List String :=
  if part = "" ∨ part = "." then
    done
  else if part = ".." then
    match done with
    | [] => if rooted then [] else [".."]
    | last :: before => if last = ".." then part :: done else before
  else
    part :: done

/-- The parts of a clean path. -/
def cleanParts (path : String) : List String :=
  ((parts path).foldl (push (isRooted path)) []).reverse

/-- A path from its parts. -/
def ofParts (rooted : Bool) (names : List String) : String :=
  let inner := joinWith "/" names
  if rooted then s!"/{inner}" else if names.isEmpty then "." else inner

/-- The shortest path that names the same place. -/
def clean (path : String) : String :=
  ofParts (isRooted path) (cleanParts path)

/-- A clean path through all the given ones; empty ones do not count. -/
def join (paths : List String) : String :=
  match paths.filter (· ≠ "") with
  | [] => ""
  | given => clean (joinWith "/" given)

end EventScript.Path
