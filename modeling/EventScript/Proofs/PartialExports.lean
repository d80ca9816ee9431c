import EventScript.Proofs.ExportedFiles

/-! # What an export leaves behind

An export writes its records one behind the other, each over what stood in its file before, and stops at the
first that cannot be saved. The files are then those from before the export, overlaid with the records in front
of that one. Only if the file of that record was opened, and then did not take its data, does it hold the part
that it took.
-/

namespace EventScript

/-- A file was opened and lost data, so that it no longer holds what it held before. -/
def WriteError.LosesData : WriteError → Prop
  | .writeFile _ cause => cause.call = .writeFile ∨ cause.call = .closeFile
  | _ => False

/-! ## Contents of files -/

/-- What the file at a place holds. Nothing is held where no file stands. -/
def FileTree.content? (tree : FileTree) (place : Place) : Option Bytes :=
  match tree.get? place with
  | some (.file content) => some content
  | _ => none

/-- Contents by place, after files were written one behind the other over what was there. -/
def overlay (contents : Place → Option Bytes) : List (Place × Bytes) → Place → Option Bytes
  | [] => contents
  | file :: files => overlay (fun place => if place = file.1 then some file.2 else contents place) files

namespace FileTree

variable {tree made after : FileTree} {rooted : Bool} {names : List String} {place : Place} {content : Bytes}

end FileTree

/-! ## Saving one record -/

namespace Exporter

variable {e : Exporter} {before : FileTree} {subDir name : String} {record : Record}

/-- The bytes of a record, if it can be encoded. -/
def document (e : Exporter) (record : Record) : Bytes :=
  (e.encode record).toOption.getD #[]

end Exporter

/-! ## Saving records one behind the other -/

section Leaving

variable {α : Type} {save : α → EStateM ExportError FileTree Unit} {file : α → Place × Bytes}
  {label : α → WriteError → ExportError} {heading : α → String} {before : FileTree} {items : List α}

/-- How an export of some items ends. It has written the files of all of them, or the files of those in front
    of an item that its error names and that could not be saved in the tree that was reached. No other file has
    changed, except that the file of that item may have lost data. -/
def Leaves (save : α → EStateM ExportError FileTree Unit) (file : α → Place × Bytes)
    (label : α → WriteError → ExportError) (heading : α → String) (before : FileTree) (items : List α) :
    EStateM.Result ExportError FileTree Unit → Prop
  | .ok _ after => after.content? = overlay before.content? (items.map file)
  | .error e after => ∃ i item cause middle, items[i]? = some item ∧ e = label item cause ∧
      e.message = heading item ++ cause.message ∧ save item middle = .error e after ∧
      middle.content? = overlay before.content? ((items.take i).map file) ∧
      (¬ cause.LosesData → after.content? = overlay before.content? ((items.take i).map file)) ∧
      (cause.LosesData → ∃ taken, after.content? = overlay before.content?
        ((items.take i).map file ++ [((file item).1, (file item).2.extract 0 taken)]))

theorem Leaves.cons {a : α} {middle : FileTree} {result : EStateM.Result ExportError FileTree Unit}
    (first : middle.content? = overlay before.content? [file a])
    (rest : Leaves save file label heading middle items result) :
    Leaves save file label heading before (a :: items) result := by
  have behind (files : List (Place × Bytes)) :
      overlay middle.content? files = overlay before.content? (file a :: files) := by
    rw [first]
    rfl
  cases result with
  | ok _ after => exact rest.trans (behind _)
  | error e after =>
      obtain ⟨i, item, cause, reached, stopped, named, shown, refused, files, kept, lost⟩ := rest
      refine ⟨i + 1, item, cause, reached, stopped, named, shown, refused, files.trans (behind _),
        fun lossless => (kept lossless).trans (behind _), fun loses => ?_⟩
      obtain ⟨taken, files⟩ := lost loses
      exact ⟨taken, files.trans (behind _)⟩

end Leaving

namespace Exporter

end Exporter

end EventScript
