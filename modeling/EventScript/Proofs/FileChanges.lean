import EventScript.Proofs.FileWrites

/-! # What calls on files change

A call changes what it is asked to change and nothing else, whatever stands in the tree and however it ends.
Making directories adds some where nothing was, and writing puts a file at one place. What a sequence of calls
that are granted does follows as long as no two files have the same place.
-/

namespace EventScript.FileTree

variable {tree made written after : FileTree} {rooted : Bool} {names before : List String} {name : String}

/-- All is as it was, but for directories on the way through the names where nothing was. -/
def Extends (tree made : FileTree) (rooted : Bool) (names : List String) : Prop :=
  ∀ place, made.get? place = tree.get? place ∨ tree.get? place = none ∧
    made.get? place = some .directory ∧ ∃ front, front <+: names ∧ place = placeOf rooted front

theorem makeDirectory_changes (path name : String) (place : Place) (tree : FileTree) :
    (∀ other, (stateAfter (makeDirectory path name place) tree).get? other = tree.get? other) ∨
      tree.get? place = none ∧ Places tree (stateAfter (makeDirectory path name place) tree) place .directory := by
  unfold stateAfter makeDirectory
  cases nameFault? path name with
  | some reason => exact .inl fun _ => rfl
  | none =>
      cases here : tree.get? place with
      | some node => cases node <;> exact .inl fun _ => rfl
      | none =>
          cases (tree.fault place).refusal with
          | some reason => exact .inl fun _ => rfl
          | none => exact .inr ⟨rfl, places_put (ne_directory_of_absent here) _⟩

/-- Directories that were made before one could not be made are still there. -/
theorem extends_makeFrom : Extends tree (stateAfter (makeFrom rooted before names) tree) rooted (before ++ names) := by
  induction names generalizing before tree with
  | nil => exact fun _ => .inl rfl
  | cons name names ih =>
      rw [List.append_cons]
      have change := makeDirectory_changes (Path.ofParts rooted (before ++ [name])) name
        (placeOf rooted (before ++ [name])) tree
      -- All that is known of the first directory is known of the tree behind it, and the others extend that.
      have later (first made : FileTree) (rest : Extends first made rooted (before ++ [name] ++ names))
          (change : (∀ other, first.get? other = tree.get? other) ∨
            tree.get? (placeOf rooted (before ++ [name])) = none ∧
              Places tree first (placeOf rooted (before ++ [name])) .directory) :
          Extends tree made rooted (before ++ [name] ++ names) := by
        intro place
        rcases change with same | ⟨absent, places⟩
        · rw [← same]
          exact rest place
        · have more := rest place
          rw [places] at more
          split at more <;> rename_i here
          · rw [here] at more ⊢
            rcases more with there | ⟨missing, _⟩
            · exact .inr ⟨absent, there, _, List.prefix_append .., rfl⟩
            · cases missing
          · exact more
      cases first : makeDirectory (Path.ofParts rooted (before ++ [name])) name
          (placeOf rooted (before ++ [name])) tree with
      | ok _ middle =>
          rw [stateAfter_of_ok first] at change
          rw [makeFrom, stateAfter_bind_of_ok first]
          exact later middle _ ih change
      | error e middle =>
          rw [stateAfter_of_error first] at change
          rw [makeFrom, stateAfter_bind_of_error first]
          exact later middle _ (fun _ => .inl rfl) change

theorem extends_makeDirectories (clean : Path.IsClean rooted names) :
    Extends tree (stateAfter (makeDirectories (Path.ofParts rooted names)) tree) rooted names := by
  rw [makeDirectories, if_neg (Path.ofParts_ne_empty clean), Path.isRooted_ofParts clean,
    Path.cleanParts_ofParts clean]
  exact extends_makeFrom

/-! ## Files -/

theorem placeOf_of_follow {place : Place} (clean : Path.IsClean rooted (before ++ names))
    (granted : tree.follow (placeOf rooted before) names = .ok place) :
    place = placeOf rooted (before ++ names) := by
  induction names generalizing before with
  | nil =>
      cases granted
      rw [List.append_nil]
  | cons name names ih =>
      rw [List.append_cons] at clean ⊢
      unfold follow at granted
      split at granted
      · cases granted
      · rw [step_placeOf clean.front] at granted
        split at granted
        · exact ih clean granted
        · cases granted
        · cases granted

theorem placeOf_of_locate {found : Place × String} (clean : Path.IsClean rooted (names ++ [name]))
    (granted : tree.locate (Path.ofParts rooted (names ++ [name])) = .ok found) :
    found = (placeOf rooted names, name) := by
  have start : (if rooted = true then ["/"] else []) = placeOf rooted [] := rfl
  unfold locate at granted
  dsimp only at granted
  rw [if_neg (Path.ofParts_ne_empty clean), filter_parts_ofParts clean, Path.isRooted_ofParts clean,
    List.dropLast_concat, List.getLastD_concat, start] at granted
  split at granted
  · cases granted
  · split at granted
    · cases granted
    · cases followed : tree.follow (placeOf rooted []) names with
      | error reason =>
          rw [followed] at granted
          cases granted
      | ok place =>
          rw [followed] at granted
          cases granted
          rw [@placeOf_of_follow tree rooted names [] place clean.front followed, List.nil_append]

theorem placeOf_of_target {place : Place} (clean : Path.IsClean rooted (names ++ [name]))
    (granted : tree.target (Path.ofParts rooted (names ++ [name])) = .ok place) :
    place = placeOf rooted (names ++ [name]) ∧ tree.get? place ≠ some .directory := by
  unfold target at granted
  cases located : tree.locate (Path.ofParts rooted (names ++ [name])) with
  | error reason =>
      rw [located] at granted
      cases granted
  | ok found =>
      rw [located, placeOf_of_locate clean located] at granted
      simp only [ok_bind, wantsDirectory_ofParts clean, enter, step_placeOf clean] at granted
      by_cases long : maxName < name.utf8ByteSize
      · simp only [if_pos long] at granted
        cases granted
      · simp only [if_neg long, ok_bind] at granted
        by_cases directory : tree.get? (placeOf rooted (names ++ [name])) = some .directory
        · simp only [if_pos directory] at granted
          cases granted
        · simp only [if_neg directory] at granted
          cases granted
          exact ⟨rfl, directory⟩

/-- How the writing of a file ends. If it cannot be opened then all is as it was. Else all but this file is, and
    it holds the content, or a part of it from the front if data was lost. -/
inductive Writing (tree : FileTree) (place : Place) (content : Bytes) : EStateM.Result FileError FileTree Unit → Prop
  | refused {e : FileError} {after : FileTree} (call : e.call = .openFile)
      (kept : ∀ other, after.get? other = tree.get? other) : Writing tree place content (.error e after)
  | lost {e : FileError} {after : FileTree} (call : e.call = .writeFile ∨ e.call = .closeFile) (taken : Nat)
      (places : Places tree after place (.file (content.extract 0 taken))) : Writing tree place content (.error e after)
  | done {after : FileTree} (places : Places tree after place (.file content)) : Writing tree place content (.ok () after)

theorem Places.trans {middle : FileTree} {place : Place} {node node' : FileNode} (first : Places tree middle place node)
    (second : Places middle after place node') : Places tree after place node' := by
  intro other
  rw [second, first]
  split <;> rfl

theorem create_cases {path : String} :
    (∃ e after, create path tree = .error e after ∧ e.call = .openFile ∧
      ∀ other, after.get? other = tree.get? other) ∨
    ∃ place, tree.target path = .ok place ∧ create path tree = .ok place (tree.next.put place (.file #[])) := by
  unfold create
  cases tree.target path with
  | error reason => exact .inl ⟨_, _, rfl, rfl, fun _ => rfl⟩
  | ok place =>
      dsimp only
      cases (tree.fault place).refusal with
      | some reason => exact .inl ⟨_, _, rfl, rfl, fun _ => rfl⟩
      | none => exact .inr ⟨place, rfl, rfl⟩

theorem places_close {path : String} {place : Place} (content : Bytes) (closed : tree.get? place ≠ some .directory) :
    ∃ taken, Places tree (stateAfter (close path place content) tree) place (.file (content.extract 0 taken)) := by
  unfold stateAfter close
  cases (tree.fault place).closing with
  | none => exact ⟨content.size, Array.extract_size ▸ places_put closed _⟩
  | some loss => exact ⟨loss.kept, places_put closed _⟩

theorem fill_cases {path : String} {place : Place} (content : Bytes) (closed : tree.get? place ≠ some .directory) :
    (∃ after, fill path place content tree = .ok () after ∧ Places tree after place (.file content)) ∨
      ∃ e after taken, fill path place content tree = .error e after ∧
        (e.call = .writeFile ∨ e.call = .closeFile) ∧ Places tree after place (.file (content.extract 0 taken)) := by
  unfold fill
  cases (tree.fault place).writing with
  | none =>
      unfold close
      cases (tree.fault place).closing with
      | none => exact .inl ⟨_, rfl, places_put closed _⟩
      | some loss => exact .inr ⟨_, _, loss.kept, rfl, .inr rfl, places_put closed _⟩
  | some loss =>
      -- What was taken at first may be lost when the file is closed.
      obtain ⟨taken, places⟩ := @places_close tree path place (loss.cut content) closed
      rw [Loss.cut, Array.extract_extract, Nat.zero_add] at places
      exact .inr ⟨_, _, _, rfl, .inl rfl, places⟩

theorem writing_write (content : Bytes) (clean : Path.IsClean rooted (names ++ [name])) :
    Writing tree (placeOf rooted (names ++ [name])) content
      (write (Path.ofParts rooted (names ++ [name])) content tree) := by
  rcases @create_cases tree (Path.ofParts rooted (names ++ [name])) with
    ⟨e, after, failed, call, kept⟩ | ⟨place, found, made⟩
  · rw [write, bind_of_error failed]
    exact .refused call kept
  · obtain ⟨rfl, closed⟩ := placeOf_of_target clean found
    have opened := places_put closed (.file #[])
    rw [write, bind_of_ok made]
    rcases fill_cases content opened.ne_directory with ⟨after, done, places⟩ | ⟨e, after, taken, failed, call, places⟩
    · rw [done]
      exact .done (opened.trans places)
    · rw [failed]
      exact .lost call taken (opened.trans places)

theorem places_of_write {content : Bytes} (clean : Path.IsClean rooted (names ++ [name]))
    (granted : write (Path.ofParts rooted (names ++ [name])) content tree = .ok () after) :
    Places tree after (placeOf rooted (names ++ [name])) (.file content) := by
  have ended := @writing_write tree rooted names name content clean
  rw [granted] at ended
  cases ended with
  | done places => exact places

/-! ## Sequences of calls -/

/-- The files are there, and all else is as it was, but for directories on the way to them where nothing
    was. -/
structure Gains (before after : FileTree) (rooted : Bool) (files : List (List String × Bytes)) : Prop where
  stored : ∀ file ∈ files, after.get? (placeOf rooted file.1) = some (.file file.2)
  kept : ∀ place, (∀ file ∈ files, place ≠ placeOf rooted file.1) →
    after.get? place = before.get? place ∨ before.get? place = none ∧
      after.get? place = some .directory ∧
        ∃ file ∈ files, ∃ front, front <+: file.1.dropLast ∧ place = placeOf rooted front

theorem gains_nil : Gains tree tree rooted [] :=
  ⟨nofun, fun _ _ => .inl rfl⟩

theorem Gains.cons {content : Bytes} {files : List (List String × Bytes)}
    (rest : Gains written after rooted files) (directory : Extends tree made rooted names)
    (file : Places made written (placeOf rooted (names ++ [name])) (.file content))
    (unique : ∀ file ∈ files, file.1 ≠ names ++ [name]) :
    Gains tree after rooted ((names ++ [name], content) :: files) where
  stored := by
    refine List.forall_mem_cons.mpr ⟨?_, rest.stored⟩
    have there := file (placeOf rooted (names ++ [name]))
    rw [if_pos rfl] at there
    rcases rest.kept (placeOf rooted (names ++ [name])) fun file listed same =>
      unique file listed (placeOf_inj.mp same).symm with same | ⟨missing, _⟩
    · exact same.trans there
    · cases there.symm.trans missing
  kept := by
    intro place others
    obtain ⟨other, others⟩ := List.forall_mem_cons.mp others
    have unwritten := file place
    rw [if_neg other] at unwritten
    -- A directory that was made for another file may lead to this one as well.
    rcases rest.kept place others with same | ⟨missing, made', file', listed, front, leading, here⟩
    · rw [same, unwritten]
      rcases directory place with same | ⟨missing, made', front, leading, here⟩
      · exact .inl same
      · refine .inr ⟨missing, made', _, List.mem_cons_self, front, ?_, here⟩
        rwa [List.dropLast_concat]
    · rw [unwritten] at missing
      rcases directory place with same | ⟨_, present, _⟩
      · exact .inr ⟨same.symm.trans missing, made', file', List.mem_cons_of_mem _ listed, front, leading, here⟩
      · cases missing.symm.trans present

end EventScript.FileTree
