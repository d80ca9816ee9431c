import EventScript.Command

/-! # The program

Brings the files that a run can touch into a tree, runs the command on it, and writes what has changed.
-/

namespace EventScript.Program

/-- The path of a place. -/
def pathOf (place : Place) : String :=
  match place with
  | "/" :: names => Path.ofParts true names
  | names => Path.ofParts false names

/-- What stands on the disk at a path. What is there and cannot be read is taken for a directory. -/
def onDisk (path : String) : IO (Option FileNode) := do
  try
    return some (.file (← IO.FS.readBinFile path).data)
  catch
    | .noFileOrDirectory .. => return none
    | _ => return some .directory

/-- Bring what stands on the way through `names` from a place into a tree. -/
def mountFrom (tree : FileTree) (place : Place) : List String → IO FileTree
  | [] => return tree
  | name :: names => do
      let here := FileTree.step place name
      if (tree.get? here).isSome then
        mountFrom tree here names
      else
        match ← onDisk (pathOf here) with
        | none => return tree
        | some node => mountFrom (tree.put here node) here names

/-- Bring what stands on the way to a path into a tree. -/
def mount (tree : FileTree) (path : String) : IO FileTree :=
  mountFrom tree (if Path.isRooted path then ["/"] else []) ((Path.parts path).filter (· ≠ ""))

/-- The directories that a run with this configuration exports to. -/
def exportPaths (c : Config) : List String :=
  ([Exporter.locationsDir, Exporter.scriptsDir] ++ c.regions.map (Exporter.regionDir ·.name)).map
    fun dir => Path.join [c.output, dir]

/-- The files that a run with these options can touch. -/
def mountAll (o : Options) : IO FileTree := do
  let tree ← [o.input, o.config, o.listing].foldlM mount FileTree.empty
  match o.resolve tree with
  | .ok c => (exportPaths c).foldlM mount tree
  | .error _ => return tree

/-- Write what has changed from one tree to the other. -/
def writeChanges (before after : FileTree) : IO Unit :=
  for (place, node) in after.nodes.toList do
    unless before.get? place = some node do
      match node with
      | .directory => IO.FS.createDirAll (pathOf place)
      | .file content => IO.FS.writeBinFile (pathOf place) ⟨content⟩

end EventScript.Program

def main (args : List String) : IO UInt32 := do
  let files ← EventScript.Program.mountAll (EventScript.readCommandLine args).1
  let result := EventScript.Command.run files false args
  EventScript.Program.writeChanges files result.files
  (← IO.getStdout).putStr result.stdout
  (← IO.getStderr).putStr result.stderr
  return .ofNat result.exit
