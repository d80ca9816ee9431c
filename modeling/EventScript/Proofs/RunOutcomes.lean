import EventScript.Proofs.ExportedFiles

/-! # How runs end

Of an image only its locations and its regions can be missing; scripts that cannot be decoded are reported and left
out. What else can fail are the calls on files, and of those the last one counts as well: a listing that is
written in full is lost if its file cannot be closed.
-/

namespace EventScript

namespace Run

section OnImage

variable {rom : Bytes} {o : Options} {c : Config} {w : World} {format : Format} {closing : Option Loss}

end OnImage

end Run

/-! ## A device that loses data -/

namespace FileTree

variable {tree : FileTree} {name : String}

end FileTree

namespace Run

end Run

end EventScript
