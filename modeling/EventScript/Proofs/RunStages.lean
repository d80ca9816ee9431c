import EventScript.Proofs.Findings

/-! # The stages of a run

A run reads and decodes first, and then writes. Whatever stops it while it reads and decodes is an
obstacle that can be told from the image, the configuration and the context, and it leaves the files alone.
Without an obstacle only the calls on files can fail.
-/

namespace EventScript

/-- What stops a run before it writes anything. -/
inductive Obstacle (context : Context) (rom : Bytes) (c : Config) : RunError → Prop where
  | config {problem : ConfigProblem} (invalid : c.validate = .error problem) :
      Obstacle context rom c (.config problem)
  | locations {cause : Location.Error} (unread : Location.readAll rom = .error cause) :
      Obstacle context rom c (.locations cause)
  | entryPoints {locations : List Location} (read : Location.readAll rom = .ok locations)
      (referred : Location.entryPoints locations ≠ []) (cancelled : context.atEntryPoints = true) :
      Obstacle context rom c .entryPointsCancelled
  | region {index : Nat} (listed : index < c.regions.length) (cancelled : context.atRegion index = true) :
      Obstacle context rom c .regionsCancelled
  | outside {region : Region} (listed : region ∈ c.regions)
      (outside : rom.size < region.stop - Address.romBase) :
      Obstacle context rom c (.regionOutside region.name (region.stop - Address.romBase) rom.size)
  | exporter (unknown : Format.ofName? c.format = none) : Obstacle context rom c (.exporter c.format)

/-- A call on files was refused, or a file did not take what was written to it. -/
def RunError.IsWriting : RunError → Prop
  | .exportLocations _ | .exportScripts _ | .exportRegion .. | .createListing .. | .closeListing .. => True
  | .listing cause => cause.IsWrite
  | _ => False

/-- A run gave up while it read and decoded. -/
def RunError.IsEarly : RunError → Prop
  | .config _ | .locations _ | .entryPointsCancelled | .regionsCancelled | .regionOutside .. | .exporter _ => True
  | _ => False

theorem Obstacle.isEarly {context : Context} {rom : Bytes} {c : Config} {e : RunError}
    (h : Obstacle context rom c e) : e.IsEarly := by
  cases h <;> exact trivial

theorem RunError.IsWriting.not_isEarly {e : RunError} (h : e.IsWriting) : ¬ e.IsEarly := by
  cases e with
  | exportLocations | exportScripts | exportRegion | createListing | closeListing | listing => exact id
  | _ => cases h

namespace Run

variable {α β : Type}

/-- From these files the part ends, with a value and files or with an error and files as described. -/
def Ends (part : Run α) (before : FileTree) (done : α → FileTree → Prop)
    (failed : RunError → FileTree → Prop) : Prop :=
  ∀ w : World, w.files = before →
    (∃ a w', part w = .ok a w' ∧ done a w'.files) ∨ ∃ e w', part w = .error e w' ∧ failed e w'.files

section Parts

variable {part : Run α} {rest : α → Run β} {before : FileTree} {a : α} {done : α → FileTree → Prop}
  {done' : β → FileTree → Prop} {failed : RunError → FileTree → Prop}

theorem Ends.bind (first : Ends part before done failed)
    (second : ∀ a files, done a files → Ends (rest a) files done' failed) :
    Ends (part >>= rest) before done' failed := by
  intro w same
  rcases first w same with ⟨a, w', ended, known⟩ | ⟨e, w', ended, known⟩
  · rw [bind_of_ok ended]
    exact second a w'.files known w' rfl
  · exact .inr ⟨e, w', bind_of_error ended, known⟩

theorem Ends.imp {weaker : α → FileTree → Prop} {weaker' : RunError → FileTree → Prop}
    (h : Ends part before done failed) (known : ∀ a files, done a files → weaker a files)
    (known' : ∀ e files, failed e files → weaker' e files) : Ends part before weaker weaker' := by
  intro w same
  rcases h w same with ⟨a, w', ended, here⟩ | ⟨e, w', ended, here⟩
  · exact .inl ⟨a, w', ended, known a _ here⟩
  · exact .inr ⟨e, w', ended, known' e _ here⟩

theorem Ends.of_eq_ok {w w' : World} (h : Ends part w.files done failed) (ended : part w = .ok a w') :
    done a w'.files := by
  rcases h w rfl with ⟨b, w'', ended', known⟩ | ⟨e, w'', ended', _⟩
  · cases ended'.symm.trans ended
    exact known
  · cases ended'.symm.trans ended

theorem Ends.of_eq_error {w w' : World} {e : RunError} (h : Ends part w.files done failed)
    (ended : part w = .error e w') : failed e w'.files := by
  rcases h w rfl with ⟨b, w'', ended', _⟩ | ⟨e', w'', ended', known⟩
  · cases ended'.symm.trans ended
  · cases ended'.symm.trans ended
    exact known

theorem ends_pure (known : done a before) : Ends (pure a : Run α) before done failed :=
  fun w same => .inl ⟨a, w, rfl, same ▸ known⟩

theorem ends_throw {e : RunError} (known : failed e before) : Ends (throw e : Run α) before done failed :=
  fun w same => .inr ⟨e, w, rfl, same ▸ known⟩

theorem ends_throw_bind {e : RunError} (known : failed e before) :
    Ends ((throw e : Run α) >>= rest) before done' failed :=
  fun w same => .inr ⟨e, w, rfl, same ▸ known⟩

theorem ends_log (line : LogLine) : Ends (log line) before (fun _ after => after = before) failed :=
  fun _ same => .inl ⟨(), _, rfl, same⟩

theorem ends_logAll (lines : List LogLine) : Ends (logAll lines) before (fun _ after => after = before) failed := by
  induction lines with
  | nil => exact ends_pure rfl
  | cons line lines ih =>
      apply (ends_log line).bind
      rintro _ _ rfl
      exact ih

theorem ends_ofExcept {ε : Type} {wrap : ε → RunError} {result : Except ε α}
    (refused : ∀ e, result = .error e → failed (wrap e) before) :
    Ends (ofExcept wrap result) before (fun a files => result = .ok a ∧ files = before) failed := by
  cases result with
  | ok a => exact ends_pure ⟨rfl, rfl⟩
  | error e => exact ends_throw (refused e rfl)

theorem ends_onFiles {ε : Type} {wrap : ε → RunError} {work : EStateM ε FileTree α} :
    Ends (onFiles wrap work) before (fun a after => work before = .ok a after)
      fun e after => ∃ cause, e = wrap cause ∧ work before = .error cause after := by
  rintro w rfl
  cases ended : work w.files with
  | ok a after => exact .inl ⟨a, { w with files := after }, by simp only [onFiles, ended], rfl⟩
  | error e after =>
      exact .inr ⟨wrap e, { w with files := after }, by simp only [onFiles, ended], e, rfl, rfl⟩

end Parts

/-! ## Decoding -/

section Decoding

variable {rom : Bytes} {before : FileTree} {failed : RunError → FileTree → Prop}

theorem scanEntryPoints_of_not {cancelled : Bool} {offsets : List Int}
    (h : ¬ (cancelled = true ∧ offsets ≠ [])) :
    scanEntryPoints cancelled rom offsets = scanEntryPoints false rom offsets := by
  unfold scanEntryPoints EntryPointScan.ofOffsets?
  rw [if_neg h, if_neg nofun]

theorem ends_scanEntryPoints {cancelled : Bool} {offsets : List Int}
    (stopped : offsets ≠ [] → cancelled = true → failed .entryPointsCancelled before) :
    Ends (scanEntryPoints cancelled rom offsets) before
      (fun scan files => ¬ (cancelled = true ∧ offsets ≠ []) ∧ scan = .ofOffsets rom offsets ∧ files = before)
      failed := by
  unfold scanEntryPoints EntryPointScan.ofOffsets?
  by_cases cut : cancelled = true ∧ offsets ≠ []
  · rw [if_pos cut]
    exact ends_throw (stopped cut.2 cut.1)
  · rw [if_neg cut]
    apply (ends_log _).bind
    rintro _ _ rfl
    apply (ends_logAll _).bind
    rintro _ _ rfl
    exact ends_pure ⟨cut, rfl, rfl⟩

theorem ends_scanRegion {cancelled : Bool} {region : Region} (range : region.IsRange)
    (stopped : cancelled = true → failed .regionsCancelled before)
    (outside : ¬ region.EndsIn rom →
      failed (.regionOutside region.name (region.stop - Address.romBase) rom.size) before) :
    Ends (scanRegion cancelled rom region) before
      (fun scan files => cancelled = false ∧ region.EndsIn rom ∧ scan = .found rom region ∧ files = before)
      failed := by
  cases cancelled with
  | true => exact ends_throw_bind (stopped rfl)
  | false =>
      refine (ends_ofExcept fun e refused => ?_).bind fun bounds files known => ?_
      · cases range.fileRange.symm.trans refused
      · obtain ⟨found, rfl⟩ := known
        cases range.fileRange.symm.trans found
        dsimp only
        by_cases inside : region.EndsIn rom
        · rw [if_neg (Int.not_lt.mpr inside), region.slice?_cut range inside]
          apply (ends_logAll _).bind
          rintro _ _ rfl
          apply (ends_logAll _).bind
          rintro _ _ rfl
          exact ends_pure ⟨rfl, inside, rfl, rfl⟩
        · rw [if_pos (Int.not_le.mp inside)]
          exact ends_throw_bind (outside inside)

theorem ends_scanRegions {cancelled : Nat → Bool} {regions : List Region} (ranges : ∀ r ∈ regions, r.IsRange)
    (stopped : ∀ index, index < regions.length → cancelled index = true → failed .regionsCancelled before)
    (outside : ∀ r ∈ regions, ¬ r.EndsIn rom →
      failed (.regionOutside r.name (r.stop - Address.romBase) rom.size) before) :
    Ends (scanRegions cancelled rom regions) before
      (fun scans files => (∀ index, index < regions.length → cancelled index = false) ∧
        (∀ r ∈ regions, r.EndsIn rom) ∧ scans = regions.map (RegionScan.found rom) ∧ files = before)
      failed := by
  induction regions generalizing cancelled with
  | nil => exact ends_pure ⟨nofun, nofun, rfl, rfl⟩
  | cons r regions ih =>
      obtain ⟨range, ranges⟩ := List.forall_mem_cons.mp ranges
      obtain ⟨outside, later⟩ := List.forall_mem_cons.mp outside
      refine (ends_scanRegion range (stopped 0 (by simp)) outside).bind ?_
      rintro scan files ⟨going, inside, rfl, rfl⟩
      refine (ih ranges (fun index listed => stopped (index + 1) (by simpa using listed)) later).bind ?_
      rintro scans files ⟨goingOn, insideToo, rfl, rfl⟩
      refine ends_pure ⟨fun index listed => ?_, ?_, rfl, rfl⟩
      · cases index with
        | zero => exact going
        | succ index => exact goingOn index (by simpa using listed)
      · exact List.forall_mem_cons.mpr ⟨inside, insideToo⟩

end Decoding

/-! ## Exporting -/

/-- The part saves the records if all calls that it takes are granted, and else it fails. -/
def Saving (e : Exporter) (records : List SavedRecord) (part : Run Unit) : Prop :=
  ∀ before, Ends part before (fun _ after => Saves e before records after)
    fun cause _ => cause.IsWriting ∧ ∀ after, ¬ Saves e before records after

section Exporting

variable {e : Exporter} {first second : List SavedRecord} {part next : Run Unit}

theorem saving_pure : Saving e [] (pure ()) :=
  fun _ => ends_pure .done

theorem saving_log (line : LogLine) : Saving e [] (log line) := by
  intro before
  exact (ends_log line).imp (fun _ _ same => same ▸ .done) fun _ _ => id

theorem Saving.bind (here : Saving e first part) (there : Saving e second next) :
    Saving e (first ++ second) (part >>= fun _ => next) := by
  intro before
  apply ((here before).imp (fun _ _ => id) _).bind
  · intro _ middle saved
    refine (there middle).imp (fun _ _ more => saved.append more) fun cause _ unsaved => ⟨unsaved.1, ?_⟩
    intro after saves
    obtain ⟨middle', saved', more⟩ := saves.split
    cases saved.unique saved'
    exact unsaved.2 after more
  · intro cause _ unsaved
    refine ⟨unsaved.1, fun after saves => ?_⟩
    obtain ⟨middle, saved, _⟩ := saves.split
    exact unsaved.2 middle saved

theorem saving_writeAll {items : List α} {saved : α → SavedRecord} {label : α → WriteError → ExportError}
    {save : α → EStateM ExportError FileTree Unit} {wrap : ExportError → RunError}
    (writes : ∀ a, save a = wrapError (label a) (e.write (saved a).subDir (saved a).name (saved a).record))
    (writing : ∀ cause, (wrap cause).IsWriting) :
    Saving e (items.map saved) (onFiles wrap (Exporter.writeAll save items)) := by
  intro before
  refine ends_onFiles.imp (fun _ after => (saves_iff_writeAll writes).mpr) ?_
  rintro _ _ ⟨cause, rfl, failed⟩
  refine ⟨writing cause, fun after saves => ?_⟩
  cases failed.symm.trans ((saves_iff_writeAll writes).mp saves)

theorem saving_exportRegions (e : Exporter) (regions : List RegionScan) :
    Saving e (regions.flatMap (·.saved)) (exportRegions e regions) := by
  induction regions with
  | nil => exact saving_pure
  | cons r regions ih =>
      have here : Saving e r.saved (onFiles (.exportRegion r.region.name)
          (e.scripts (Exporter.regionDir r.region.name) r.result.entries)) :=
        saving_writeAll (fun _ => rfl) fun _ => trivial
      exact here.bind ((saving_log _).bind ih)

theorem saving_exportAll {c : Config} {format : Format} (named : Format.ofName? c.format = some format)
    (s : Summary) : Saving (.new c.output format) s.saved (exportAll c s) := by
  have locations : Saving (.new c.output format) (s.locations.map (·.saved))
      (onFiles .exportLocations (Exporter.locations (.new c.output format) s.locations)) :=
    saving_writeAll (fun _ => rfl) fun _ => trivial
  have scripts : Saving (.new c.output format) (s.entryPoints.entries.map (·.saved Exporter.scriptsDir))
      (onFiles .exportScripts (Exporter.scripts (.new c.output format) Exporter.scriptsDir s.entryPoints.entries)) :=
    saving_writeAll (fun _ => rfl) fun _ => trivial
  rw [exportAll, Exporter.ofFormatName?, named, Summary.saved, List.append_assoc]
  exact locations.bind ((saving_log _).bind (scripts.bind ((saving_log _).bind (saving_exportRegions _ s.regions))))

end Exporting

end Run

/-! ## Listing -/

/-- A listing can be written: it goes to no file, or to one that can be opened and takes what is written to it. What
    is lost nevertheless is seen when the file is closed. -/
def FileTree.TakesListing (tree : FileTree) (path : String) (closing : Option Loss) : Prop :=
  if path = "" ∨ path = "-" then closing = none
  else ∃ made place, create path tree = .ok place made ∧ (made.fault place).writing = none ∧
    (made.fault place).closing = closing

theorem FileTree.TakesListing.unique {tree : FileTree} {path : String} {closing closing' : Option Loss}
    (h : tree.TakesListing path closing) (h' : tree.TakesListing path closing') : closing = closing' := by
  unfold TakesListing at h h'
  split at h <;> rename_i unfiled
  · rw [if_pos unfiled] at h'
    rw [h, h']
  · rw [if_neg unfiled] at h'
    obtain ⟨made, place, created, _, rfl⟩ := h
    obtain ⟨_, _, created', _, rfl⟩ := h'
    cases created.symm.trans created'
    rfl

/-- What a listing says that was lost when its file was closed. -/
def RunError.lostListing (path : String) (loss : Loss) : RunError :=
  .closeListing path ⟨.closeFile, path, loss.reason⟩

namespace Run

section Listing

variable {before : FileTree} {listing : Listing Unit} {failed : RunError → FileTree → Prop}

theorem ends_printListing (h : Listing.Completes listing) :
    Ends (printListing listing) before (fun _ after => after = before) failed := by
  intro w same
  obtain ⟨sink, written⟩ := @Listing.Completes.unlimited listing h .unlimited rfl
  exact .inl ⟨(), { w with output := w.output.push (.text sink.text) }, by simp only [printListing, written], same⟩

theorem ends_fillListing (h : Listing.Completes listing) (path : String) (place : Place) :
    Ends (fillListing path place listing) before
      (fun _ _ => (before.fault place).writing = none → (before.fault place).closing = none)
      fun e _ => e.IsWriting ∧ ((before.fault place).writing = none →
        ∃ loss, (before.fault place).closing = some loss ∧ e = .lostListing path loss) := by
  rintro w rfl
  cases written : listing (sinkFor w.files path place) with
  | ok _ sink =>
      have closes : fillListing path place listing w =
          onFiles (.closeListing path) (closeListing path place sink) w := by
        simp only [fillListing, written]
      cases fault : (w.files.fault place).closing with
      | none =>
          refine .inl ⟨(), { w with files := w.files.next.put place (.file sink.text.toUTF8.data) },
            closes.trans ?_, fun _ => rfl⟩
          simp only [onFiles, closeListing, FileTree.close, fault]
      | some loss =>
          refine .inr ⟨.lostListing path loss,
            { w with files := w.files.next.put place (.file (loss.cut sink.text.toUTF8.data)) },
            closes.trans ?_, trivial, fun _ => ⟨loss, rfl, rfl⟩⟩
          simp only [onFiles, closeListing, FileTree.close, fault]
          rfl
  | error e sink =>
      refine .inr ⟨.listing e, { w with files := stateAfter (closeListing path place sink) w.files },
        by simp only [fillListing, written], h.isWrite written, fun free => ?_⟩
      -- A file without a fault has room for all that is written to it.
      have room : (sinkFor w.files path place).room = none := by
        rw [sinkFor, free]
        rfl
      obtain ⟨sink', written'⟩ := h.unlimited room
      cases written'.symm.trans written

theorem ends_writeListing {o : Options} {rom : Bytes} {s : Summary}
    (h : Listing.Completes (listAll ⟨!o.noHexComments, !o.noOffsets⟩ rom s)) :
    Ends (writeListing o rom s) before
      (fun _ after => (∀ closing, before.TakesListing o.listing closing → closing = none) ∧
        (o.listing = "" ∨ o.listing = "-" → after = before))
      fun e _ => e.IsWriting ∧ ∀ closing, before.TakesListing o.listing closing →
        ∃ loss, closing = some loss ∧ e = .lostListing o.listing loss := by
  have unfiled (known : o.listing = "" ∨ o.listing = "-") (closing : Option Loss)
      (takes : before.TakesListing o.listing closing) : closing = none := by
    rwa [FileTree.TakesListing, if_pos known] at takes
  unfold writeListing
  by_cases printed : o.listing = "-"
  · simp only [if_pos printed]
    exact (ends_printListing h).imp (fun _ _ same => ⟨unfiled (.inr printed), fun _ => same⟩) fun _ _ => id
  simp only [if_neg printed]
  by_cases none : o.listing = ""
  · rw [if_neg (not_not_intro none)]
    exact ends_pure ⟨unfiled (.inl none), fun _ => rfl⟩
  rw [if_pos none]
  have filed : ¬ (o.listing = "" ∨ o.listing = "-") := not_or.mpr ⟨none, printed⟩
  have created (closing : Option Loss) (takes : before.TakesListing o.listing closing) :
      ∃ made place, FileTree.create o.listing before = .ok place made ∧ (made.fault place).writing = .none ∧
        (made.fault place).closing = closing := by
    rwa [FileTree.TakesListing, if_neg filed] at takes
  apply (ends_onFiles.imp (fun _ _ => id) _).bind
  · intro place made opened
    refine (ends_fillListing h o.listing place).imp (fun _ after known => ⟨fun closing takes => ?_, fun asked => ?_⟩)
      fun e after known => ⟨known.1, fun closing takes => ?_⟩
    · obtain ⟨_, _, opened', free, rfl⟩ := created closing takes
      cases opened.symm.trans opened'
      exact known free
    · exact absurd asked filed
    · obtain ⟨_, _, opened', free, rfl⟩ := created closing takes
      cases opened.symm.trans opened'
      exact known.2 free
  · rintro _ _ ⟨cause, rfl, refused⟩
    refine ⟨trivial, fun closing takes => ?_⟩
    obtain ⟨_, _, opened, _⟩ := created closing takes
    cases refused.symm.trans opened

end Listing

end Run

/-! ## Whole runs -/

/-- All calls on files are granted that a run makes to write what it found. What is lost of the listing nevertheless
    is seen when its file is closed. -/
def FileTree.Takes (tree : FileTree) (e : Exporter) (listing : String) (s : Summary) (closing : Option Loss) : Prop :=
  ∃ exported, Saves e tree s.saved exported ∧ exported.TakesListing listing closing

namespace Run

/-- What is known of a run that succeeds. -/
structure Finishes (context : Context) (rom : Bytes) (o : Options) (c : Config) (before : FileTree)
    (s : Summary) (after : FileTree) : Prop where
  free : ∀ e, ¬ Obstacle context rom c e
  found : ∃ locations, Location.readAll rom = .ok locations ∧ s = .found rom c.regions locations
  saved : ∃ format exported, Format.ofName? c.format = some format ∧
    Saves (.new c.output format) before s.saved exported ∧
    (∀ closing, exported.TakesListing o.listing closing → closing = none) ∧
    (o.listing = "" ∨ o.listing = "-" → after = exported)

/-- What is known of a run that fails while it writes. If all calls are granted that it makes to write what it
    found then the listing was lost when its file was closed. -/
structure Refused (context : Context) (rom : Bytes) (o : Options) (c : Config) (before : FileTree) (e : RunError) :
    Prop where
  free : ∀ e', ¬ Obstacle context rom c e'
  writing : e.IsWriting
  untaken : ∀ locations format closing, Location.readAll rom = .ok locations →
    Format.ofName? c.format = some format →
    before.Takes (.new c.output format) o.listing (.found rom c.regions locations) closing →
      ∃ loss, closing = some loss ∧ e = .lostListing o.listing loss

theorem not_obstacle {context : Context} {rom : Bytes} {c : Config} {locations : List Location} {format : Format}
    (valid : c.validate = .ok ()) (read : Location.readAll rom = .ok locations)
    (looked : ¬ (context.atEntryPoints = true ∧ Location.entryPoints locations ≠ []))
    (going : ∀ index, index < c.regions.length → context.atRegion index = false)
    (inside : ∀ r ∈ c.regions, r.EndsIn rom) (named : Format.ofName? c.format = some format) (e : RunError) :
    ¬ Obstacle context rom c e := by
  intro obstacle
  cases obstacle with
  | config invalid => cases valid.symm.trans invalid
  | locations unread => cases read.symm.trans unread
  | entryPoints read' referred cancelled =>
      cases read.symm.trans read'
      exact looked ⟨cancelled, referred⟩
  | region listed cancelled => cases (going _ listed).symm.trans cancelled
  | outside listed outside => exact absurd (inside _ listed) (Int.not_le.mpr outside)
  | exporter unknown => cases named.symm.trans unknown

/-- A run that fails does so at an obstacle, with the files as they were, or while it writes, where no
    obstacle was. -/
theorem ends_onImageIn (context : Context) (rom : Bytes) (o : Options) (c : Config) (before : FileTree) :
    Ends (onImageIn context rom o c) before (Finishes context rom o c before) fun e after =>
      Obstacle context rom c e ∧ after = before ∨ Refused context rom o c before e := by
  apply (ends_ofExcept fun problem invalid => .inl ⟨.config invalid, rfl⟩).bind
  rintro _ files ⟨valid, rfl⟩
  apply (ends_ofExcept fun cause unread => .inl ⟨.locations unread, rfl⟩).bind
  rintro locations files ⟨read, rfl⟩
  apply (ends_log _).bind
  rintro _ files rfl
  apply (ends_scanEntryPoints fun referred cancelled => .inl ⟨.entryPoints read referred cancelled, rfl⟩).bind
  rintro _ files ⟨looked, rfl, rfl⟩
  have ranges := c.isRange_of_validate valid
  apply (ends_scanRegions ranges (fun _ listed cancelled => .inl ⟨.region listed cancelled, rfl⟩)
    fun _ listed outside => .inl ⟨.outside listed (Int.not_le.mp outside), rfl⟩).bind
  rintro _ files ⟨going, inside, rfl, rfl⟩
  cases named : Format.ofName? c.format with
  | none =>
      dsimp only
      rw [exportAll, Exporter.ofFormatName?, named]
      exact ends_throw_bind (.inl ⟨.exporter named, rfl⟩)
  | some format =>
      have free := not_obstacle valid read looked going inside named
      -- What a run asks for is determined by the image and the configuration.
      have asked {locations' format' closing} (read' : Location.readAll rom = .ok locations')
          (named' : Format.ofName? c.format = some format')
          (takes : files.Takes (.new c.output format') o.listing (.found rom c.regions locations') closing) :
          files.Takes (.new c.output format) o.listing (.found rom c.regions locations) closing := by
        cases read.symm.trans read'
        cases named.symm.trans named'
        exact takes
      apply ((saving_exportAll named _ files).imp (fun _ _ => id) _).bind
      · intro _ exported saves
        apply ((ends_writeListing (completes_listAll ranges inside)).imp (fun _ _ => id) _).bind
        · intro _ after listed
          have finishes : Finishes context rom o c files (.found rom c.regions locations) after :=
            ⟨free, ⟨locations, read, rfl⟩, format, exported, named, saves, listed⟩
          cases o.quiet with
          | true => exact ends_pure finishes
          | false =>
              apply (ends_log _).bind
              rintro _ _ rfl
              exact ends_pure finishes
        · intro e _ unlisted
          refine .inr ⟨free, unlisted.1, fun locations' format' closing read' named' takes => ?_⟩
          obtain ⟨exported', saves', takes⟩ := asked read' named' takes
          cases saves.unique saves'
          exact unlisted.2 closing takes
      · intro e _ unsaved
        refine .inr ⟨free, unsaved.1, fun locations' format' closing read' named' takes => ?_⟩
        obtain ⟨exported, saves, _⟩ := asked read' named' takes
        exact absurd saves (unsaved.2 exported)

/-- A run without an obstacle succeeds if all calls are granted that it makes. -/
theorem onImageIn_eq_ok {context : Context} {rom : Bytes} {o : Options} {c : Config} {w : World}
    {locations : List Location} {format : Format} (free : ∀ e, ¬ Obstacle context rom c e)
    (read : Location.readAll rom = .ok locations) (named : Format.ofName? c.format = some format)
    (takes : w.files.Takes (.new c.output format) o.listing (.found rom c.regions locations) none) :
    ∃ w', onImageIn context rom o c w = .ok (.found rom c.regions locations) w' := by
  rcases ends_onImageIn context rom o c w.files w rfl with
    ⟨s, w', done, finishes⟩ | ⟨e, w', _, ⟨obstacle, _⟩ | refused⟩
  · obtain ⟨locations', read', rfl⟩ := finishes.found
    cases read.symm.trans read'
    exact ⟨w', done⟩
  · exact absurd obstacle (free e)
  · obtain ⟨loss, some, _⟩ := refused.untaken locations format none read named takes
    cases some

/-- A run fails early exactly if there is an obstacle. The error then names one of those that there are, and
    no file and no directory was made or changed. -/
theorem onImageIn_fails_early_iff (context : Context) (rom : Bytes) (o : Options) (c : Config) (w : World) :
    ((∃ e w', onImageIn context rom o c w = .error e w' ∧ e.IsEarly) ↔ ∃ e, Obstacle context rom c e) ∧
    ∀ e w', onImageIn context rom o c w = .error e w' → e.IsEarly →
      Obstacle context rom c e ∧ w'.files = w.files := by
  have keeps (e : RunError) (w' : World) (failed : onImageIn context rom o c w = .error e w') (early : e.IsEarly) :
      Obstacle context rom c e ∧ w'.files = w.files := by
    rcases (ends_onImageIn context rom o c w.files).of_eq_error failed with kept | refused
    · exact kept
    · exact absurd early refused.writing.not_isEarly
  refine ⟨⟨?_, ?_⟩, keeps⟩
  · rintro ⟨e, w', failed, early⟩
    exact ⟨e, (keeps e w' failed early).1⟩
  · rintro ⟨e, obstacle⟩
    rcases ends_onImageIn context rom o c w.files w rfl with
      ⟨s, w', _, finishes⟩ | ⟨e', w', failed, ⟨obstacle', _⟩ | refused⟩
    · exact absurd obstacle (finishes.free e)
    · exact ⟨e', w', failed, obstacle'.isEarly⟩
    · exact absurd obstacle (refused.free e)

theorem onImageIn_fails_early_iff_far :
    ∃ w', onImageIn (.always false) (undecodable 0x2dc47f) {} { Config.standard with
        regions := [⟨"intro", 0xca0000, 0xca0010⟩, ⟨"far", 0xca0000, 0xf00000⟩] } ⟨.empty, #[]⟩ =
      .error (.regionOutside "far" 0x300000 0x2dc47f) w' ∧ w'.files = .empty := by
  have size : (undecodable 0x2dc47f).size = 0x2dc47f := Undecodable.size_eq
  obtain ⟨fails, keeps⟩ := onImageIn_fails_early_iff (.always false) (undecodable 0x2dc47f) {}
    { Config.standard with
      regions := [⟨"intro", 0xca0000, 0xca0010⟩, ⟨"far", 0xca0000, 0xf00000⟩] } ⟨.empty, #[]⟩
  obtain ⟨e, w', failed, early⟩ := fails.mpr ⟨_, .outside (List.mem_cons_of_mem _ List.mem_cons_self) (by
    rw [size]
    decide)⟩
  obtain ⟨obstacle, same⟩ := keeps e w' failed early
  refine ⟨w', failed.trans (congrArg (EStateM.Result.error · w') ?_), same⟩
  cases obstacle with
  | config invalid =>
      have range : (⟨"intro", 0xca0000, 0xca0010⟩ : Region).IsRange := ⟨by decide, by decide⟩
      have range' : (⟨"far", 0xca0000, 0xf00000⟩ : Region).IsRange := ⟨by decide, by decide⟩
      have checked : Region.checkAll [] [⟨"intro", 0xca0000, 0xca0010⟩, ⟨"far", 0xca0000, 0xf00000⟩] = .ok () :=
        Region.checkAll_eq_ok_iff.mpr
          ⟨by simpa [Region.hasValidName_iff] using ⟨range, range'⟩, by simp, by simp⟩
      cases (Config.validate_standard checked).symm.trans invalid
  | locations unread =>
      have read := Location.readAll_of_hasAll (Undecodable.hasAll (Nat.le_refl 0x2dc47f))
      cases read.symm.trans unread
  | outside listed outside =>
      rw [size] at outside ⊢
      rcases List.mem_cons.mp listed with rfl | last
      · exact absurd outside (by decide)
      · rw [List.mem_singleton.mp last]
        rfl
  | exporter unknown => cases (Format.ofName?_name .yaml).symm.trans unknown
  | entryPoints _ _ cancelled => cases cancelled
  | region _ cancelled => cases cancelled

end Run

end EventScript
