import EventScript.Proofs.RecordSaving
import EventScript.Run

/-! # Files that are not read

Once it has its image, a run reads no file. If all that two trees differ in is what one file holds, then every
call is granted in both or refused in both. The run ends the same way in both and puts out the same, and the
trees still differ in no more than that file.
-/

namespace EventScript

/-! ## Computations side by side -/

section Alike

variable {ε δ σ α β : Type}

/-- Both end with the same value or the same error. -/
inductive EndAlike (related : σ → σ → Prop) : EStateM.Result ε σ α → EStateM.Result ε σ α → Prop
  | ok (value : α) {s t : σ} (h : related s t) : EndAlike related (.ok value s) (.ok value t)
  | error (e : ε) {s t : σ} (h : related s t) : EndAlike related (.error e s) (.error e t)

/-- From related states the computation ends alike, in related states. -/
def Preserves (related : σ → σ → Prop) (part : EStateM ε σ α) : Prop :=
  ∀ s t, related s t → EndAlike related (part s) (part t)

variable {related : σ → σ → Prop} {part : EStateM ε σ α} {rest : α → EStateM ε σ β} {s t : σ}

theorem Preserves.cases (h : Preserves related part) (states : related s t) :
    (∃ a s' t', part s = .ok a s' ∧ part t = .ok a t' ∧ related s' t') ∨
      ∃ e s' t', part s = .error e s' ∧ part t = .error e t' ∧ related s' t' := by
  have alike := h s t states
  generalize part s = result at alike
  generalize part t = result' at alike
  cases alike with
  | ok a h => exact .inl ⟨a, _, _, rfl, rfl, h⟩
  | error e h => exact .inr ⟨e, _, _, rfl, rfl, h⟩

theorem Preserves.bind (first : Preserves related part) (second : ∀ a, Preserves related (rest a)) :
    Preserves related (part >>= rest) := by
  intro s t states
  rcases first.cases states with ⟨a, s', t', here, there, states⟩ | ⟨e, s', t', here, there, states⟩
  · rw [bind_of_ok here, bind_of_ok there]
    exact second a s' t' states
  · rw [bind_of_error here, bind_of_error there]
    exact .error e states

theorem Preserves.wrapError (h : Preserves related part) (wrap : ε → δ) :
    Preserves related (wrapError wrap part) := by
  intro s t states
  rcases h.cases states with ⟨a, s', t', here, there, states⟩ | ⟨e, s', t', here, there, states⟩
  · rw [wrapError_of_ok here, wrapError_of_ok there]
    exact .ok a states
  · rw [wrapError_of_error here, wrapError_of_error there]
    exact .error (wrap e) states

theorem Preserves.stateAfter (h : Preserves related part) (states : related s t) :
    related (stateAfter part s) (stateAfter part t) := by
  rcases h.cases states with ⟨a, s', t', here, there, states⟩ | ⟨e, s', t', here, there, states⟩
  · rwa [stateAfter_of_ok here, stateAfter_of_ok there]
  · rwa [stateAfter_of_error here, stateAfter_of_error there]

theorem preserves_pure (a : α) : Preserves related (pure a : EStateM ε σ α) :=
  fun _ _ h => .ok a h

theorem preserves_throw (e : ε) : Preserves related (throw e : EStateM ε σ α) :=
  fun _ _ h => .error e h

theorem preserves_throw_bind (e : ε) : Preserves related ((throw e : EStateM ε σ α) >>= rest) :=
  fun _ _ h => .error e h

theorem preserves_ofExcept (wrap : ε → δ) (result : Except ε α) :
    Preserves related (ofExcept wrap result : EStateM δ σ α) := by
  cases result with
  | ok a => exact preserves_pure a
  | error e => exact preserves_throw (wrap e)

end Alike

/-! ## Trees that differ in one file -/

namespace FileTree

variable {place : Place} {x y : Bytes} {a b : FileTree}

/-- The same stands everywhere in both trees, except that the place may hold a file with the one content here
    and a file with the other there. The same will go wrong with both. -/
structure DifferAt (place : Place) (x y : Bytes) (a b : FileTree) : Prop where
  nodes : ∀ other, a.get? other = b.get? other ∨
    other = place ∧ a.get? other = some (.file x) ∧ b.get? other = some (.file y)
  faults : a.faults = b.faults
  calls : a.calls = b.calls

theorem get?_put_ground {tree : FileTree} {node : FileNode} (ground : isGround place = true) (other : Place) :
    (tree.put place node).get? other = tree.get? other := by
  unfold get? put
  by_cases same : other = place
  · subst same
    simp [ground]
  · simp [Std.TreeMap.getElem?_insert, Ne.symm same]

theorem differAt_put (tree : FileTree) (held : isGround place = false) :
    DifferAt place x y (tree.put place (.file x)) (tree.put place (.file y)) := by
  refine ⟨fun other => ?_, rfl, rfl⟩
  rw [get?_put tree _ held, get?_put tree _ held]
  by_cases here : other = place
  · rw [if_pos here, if_pos here]
    exact .inr ⟨here, rfl, rfl⟩
  · rw [if_neg here, if_neg here]
    exact .inl rfl

namespace DifferAt

theorem fault_eq (h : DifferAt place x y a b) (spot : Place) : a.fault spot = b.fault spot := by
  rw [fault, fault, h.faults, h.calls]

theorem next (h : DifferAt place x y a b) : DifferAt place x y a.next b.next :=
  ⟨h.nodes, h.faults, congrArg (· + 1) h.calls⟩

theorem directory_iff (h : DifferAt place x y a b) (other : Place) :
    a.get? other = some .directory ↔ b.get? other = some .directory := by
  rcases h.nodes other with same | ⟨_, here, there⟩
  · rw [same]
  · rw [here, there]
    exact ⟨nofun, nofun⟩

theorem put (h : DifferAt place x y a b) (spot : Place) (node : FileNode) :
    DifferAt place x y (a.put spot node) (b.put spot node) := by
  refine ⟨fun other => ?_, h.faults, h.calls⟩
  cases held : isGround spot with
  -- What is put on the ground does not show in either tree.
  | true =>
      rw [get?_put_ground held, get?_put_ground held]
      exact h.nodes other
  | false =>
      rw [get?_put a node held, get?_put b node held]
      by_cases here : other = spot
      · rw [if_pos here, if_pos here]
        exact .inl rfl
      · rw [if_neg here, if_neg here]
        exact h.nodes other

theorem follow_eq (h : DifferAt place x y a b) (start : Place) (names : List String) :
    a.follow start names = b.follow start names := by
  induction names generalizing start with
  | nil => rfl
  | cons name names ih =>
      simp only [follow, ih]
      -- Where the trees differ there is a file in both, and no way through it.
      rcases h.nodes (step start name) with same | ⟨_, here, there⟩
      · rw [same]
      · rw [here, there]

theorem locate_eq (h : DifferAt place x y a b) (path : String) : a.locate path = b.locate path := by
  simp only [locate, h.follow_eq]

theorem target_eq (h : DifferAt place x y a b) (path : String) : a.target path = b.target path := by
  simp only [target, h.locate_eq, h.directory_iff]

end DifferAt

theorem preserves_create (path : String) : Preserves (DifferAt place x y) (create path) := by
  intro a b h
  unfold create
  rw [h.target_eq]
  cases b.target path with
  | error reason => exact .error _ h
  | ok spot =>
      dsimp only
      rw [h.fault_eq]
      cases (b.fault spot).refusal with
      | some reason => exact .error _ h.next
      | none => exact .ok spot (h.next.put spot _)

theorem preserves_close (path : String) (spot : Place) (content : Bytes) :
    Preserves (DifferAt place x y) (close path spot content) := by
  intro a b h
  unfold close
  rw [h.fault_eq]
  cases (b.fault spot).closing with
  | some loss => exact .error _ (h.next.put spot _)
  | none => exact .ok () (h.next.put spot _)

theorem preserves_fill (path : String) (spot : Place) (content : Bytes) :
    Preserves (DifferAt place x y) (fill path spot content) := by
  intro a b h
  unfold fill
  rw [h.fault_eq]
  cases (b.fault spot).writing with
  | some loss => exact .error _ ((preserves_close path spot _).stateAfter h)
  | none => exact preserves_close path spot content a b h

theorem preserves_write (path : String) (content : Bytes) : Preserves (DifferAt place x y) (write path content) :=
  (preserves_create path).bind fun spot => preserves_fill path spot content

theorem preserves_makeDirectory (path name : String) (spot : Place) :
    Preserves (DifferAt place x y) (makeDirectory path name spot) := by
  intro a b h
  unfold makeDirectory
  rw [h.fault_eq]
  cases nameFault? path name with
  | some reason => exact .error _ h
  | none =>
      dsimp only
      rcases h.nodes spot with same | ⟨_, here, there⟩
      · rw [same]
        split
        · exact .ok () h
        · exact .error _ h
        · cases (b.fault spot).refusal with
          | some reason => exact .error _ h.next
          | none => exact .ok () (h.next.put spot _)
      · rw [here, there]
        exact .error _ h

theorem preserves_makeFrom (rooted : Bool) (before names : List String) :
    Preserves (DifferAt place x y) (makeFrom rooted before names) := by
  induction names generalizing before with
  | nil => exact preserves_pure ()
  | cons name names ih => exact (preserves_makeDirectory _ name _).bind fun _ => ih _

theorem preserves_makeDirectories (path : String) : Preserves (DifferAt place x y) (makeDirectories path) := by
  unfold makeDirectories
  split
  · exact preserves_throw _
  · exact preserves_makeFrom _ _ _

end FileTree

/-! ## Exports -/

namespace Exporter

open FileTree

variable {place : Place} {x y : Bytes}

theorem preserves_write (e : Exporter) (subDir name : String) (record : Record) :
    Preserves (DifferAt place x y) (e.write subDir name record) := by
  apply (preserves_ofExcept _ _).bind
  intro content
  apply ((preserves_makeDirectories _).wrapError _).bind
  intro _
  exact (FileTree.preserves_write _ content).wrapError _

theorem preserves_writeAll {α : Type} {save : α → EStateM ExportError FileTree Unit}
    (step : ∀ item, Preserves (DifferAt place x y) (save item)) (items : List α) :
    Preserves (DifferAt place x y) (writeAll save items) := by
  induction items with
  | nil => exact preserves_pure ()
  | cons item items ih => exact (step item).bind fun _ => ih

theorem preserves_scripts (e : Exporter) (subDir : String) (entries : List Entry) :
    Preserves (DifferAt place x y) (e.scripts subDir entries) :=
  preserves_writeAll (fun _ => (e.preserves_write subDir _ _).wrapError _) entries

theorem preserves_locations (e : Exporter) (locations : List Location) :
    Preserves (DifferAt place x y) (e.locations locations) :=
  preserves_writeAll (fun _ => (e.preserves_write locationsDir _ _).wrapError _) locations

end Exporter

/-! ## Runs -/

/-- The files differ in one place at most, and the same was added to what was put out before. -/
structure World.Beside (place : Place) (x y : Bytes) (out out' : Array Output) (w w' : World) : Prop where
  files : w.files.DifferAt place x y w'.files
  output : ∃ added, w.output = out ++ added ∧ w'.output = out' ++ added

theorem World.Beside.push {place : Place} {x y : Bytes} {out out' : Array Output} {w w' : World}
    (h : Beside place x y out out' w w') (item : Output) :
    Beside place x y out out' { w with output := w.output.push item } { w' with output := w'.output.push item } := by
  obtain ⟨files, added, here, there⟩ := h
  exact ⟨files, added.push item, by simp [here], by simp [there]⟩

namespace Run

open FileTree

variable {place : Place} {x y : Bytes} {out out' : Array Output} {α : Type}

theorem preserves_emit (item : Output) : Preserves (World.Beside place x y out out') (emit item) := by
  intro w w' beside
  exact .ok () (beside.push item)

theorem preserves_logAll (lines : List LogLine) : Preserves (World.Beside place x y out out') (logAll lines) := by
  induction lines with
  | nil => exact preserves_pure ()
  | cons line lines ih => exact (preserves_emit (.log line)).bind fun _ => ih

theorem preserves_onFiles {ε : Type} {wrap : ε → RunError} {work : EStateM ε FileTree α}
    (h : Preserves (DifferAt place x y) work) : Preserves (World.Beside place x y out out') (onFiles wrap work) := by
  intro w w' beside
  unfold onFiles
  rcases h.cases beside.files with ⟨a, s, t, here, there, files⟩ | ⟨e, s, t, here, there, files⟩
  · rw [here, there]
    exact .ok a ⟨files, beside.output⟩
  · rw [here, there]
    exact .error (wrap e) ⟨files, beside.output⟩

theorem preserves_scanEntryPoints (cancelled : Bool) (rom : Bytes) (offsets : List Int) :
    Preserves (World.Beside place x y out out') (scanEntryPoints cancelled rom offsets) := by
  unfold scanEntryPoints
  split
  · exact preserves_throw _
  · apply (preserves_emit _).bind
    intro _
    apply (preserves_logAll _).bind
    intro _
    exact preserves_pure _

theorem preserves_scanRegion (cancelled : Bool) (rom : Bytes) (region : Region) :
    Preserves (World.Beside place x y out out') (scanRegion cancelled rom region) := by
  cases cancelled with
  | true => exact preserves_throw_bind RunError.regionsCancelled
  | false =>
      apply (preserves_ofExcept _ region.fileRange).bind
      rintro ⟨start, stop⟩
      dsimp only
      split
      · exact preserves_throw_bind _
      · split
        · exact preserves_throw _
        · apply (preserves_logAll _).bind
          intro _
          apply (preserves_logAll _).bind
          intro _
          exact preserves_pure _

theorem preserves_scanRegions (cancelled : Nat → Bool) (rom : Bytes) (regions : List Region) :
    Preserves (World.Beside place x y out out') (scanRegions cancelled rom regions) := by
  induction regions generalizing cancelled with
  | nil => exact preserves_pure []
  | cons region regions ih =>
      apply (preserves_scanRegion _ rom region).bind
      intro scan
      apply (ih _).bind
      intro scans
      exact preserves_pure _

theorem preserves_exportRegions (e : Exporter) (regions : List RegionScan) :
    Preserves (World.Beside place x y out out') (exportRegions e regions) := by
  induction regions with
  | nil => exact preserves_pure ()
  | cons r regions ih =>
      apply (preserves_onFiles (e.preserves_scripts _ _)).bind
      intro _
      exact (preserves_emit _).bind fun _ => ih

theorem preserves_exportAll (c : Config) (s : Summary) :
    Preserves (World.Beside place x y out out') (exportAll c s) := by
  unfold exportAll
  split
  · exact preserves_throw _
  · rename_i e _
    apply (preserves_onFiles (e.preserves_locations _)).bind
    intro _
    apply (preserves_emit _).bind
    intro _
    apply (preserves_onFiles (e.preserves_scripts _ _)).bind
    intro _
    apply (preserves_emit _).bind
    intro _
    exact preserves_exportRegions e s.regions

theorem preserves_printListing (listing : Listing Unit) :
    Preserves (World.Beside place x y out out') (printListing listing) := by
  intro w w' beside
  unfold printListing
  split
  · exact .ok () (beside.push _)
  · exact .error _ (beside.push _)

theorem preserves_fillListing (path : String) (spot : Place) (listing : Listing Unit) :
    Preserves (World.Beside place x y out out') (fillListing path spot listing) := by
  intro w w' beside
  have sink : sinkFor w.files path spot = sinkFor w'.files path spot := by
    rw [sinkFor, sinkFor, beside.files.fault_eq]
  have close (sink : Sink) : Preserves (DifferAt place x y) (closeListing path spot sink) := preserves_close path spot _
  unfold fillListing
  rw [sink]
  cases listing (sinkFor w'.files path spot) with
  | ok _ sink => exact preserves_onFiles (close sink) w w' beside
  | error e sink => exact .error _ ⟨(close sink).stateAfter beside.files, beside.output⟩

theorem preserves_writeListingFile (path : String) (listing : Listing Unit) :
    Preserves (World.Beside place x y out out') (writeListingFile path listing) :=
  (preserves_onFiles (preserves_create path)).bind fun spot => preserves_fillListing path spot listing

theorem preserves_writeListing (o : Options) (rom : Bytes) (s : Summary) :
    Preserves (World.Beside place x y out out') (writeListing o rom s) := by
  unfold writeListing
  dsimp only
  split
  · exact preserves_printListing _
  · split
    · exact preserves_writeListingFile _ _
    · exact preserves_pure ()

/-- A run on an image ends the same way whatever a file holds. -/
theorem preserves_onImageIn (context : Context) (rom : Bytes) (o : Options) (c : Config) :
    Preserves (World.Beside place x y out out') (onImageIn context rom o c) := by
  apply (preserves_ofExcept _ _).bind
  intro _
  apply (preserves_ofExcept _ _).bind
  intro locations
  apply (preserves_emit _).bind
  intro _
  apply (preserves_scanEntryPoints _ rom _).bind
  intro entryPoints
  apply (preserves_scanRegions _ rom c.regions).bind
  intro regions
  apply (preserves_exportAll c _).bind
  intro _
  apply (preserves_writeListing o rom _).bind
  intro _
  cases o.quiet with
  | true => exact preserves_pure _
  | false => exact (preserves_emit _).bind fun _ => preserves_pure _

end Run

end EventScript
