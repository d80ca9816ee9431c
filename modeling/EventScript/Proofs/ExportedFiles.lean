import EventScript.Proofs.FileChanges
import EventScript.Proofs.RunStages

/-! # The files of an export

Every record of a run has a file of its own: no two of them have the same name in the same directory, since
locations, entry points and the scripts of a region are numbered and regions have names of their own. A run that
succeeds therefore leaves each record in its file, and nothing else but the directories on the way to them.
-/

namespace EventScript

/-! ## Places -/

section Places

variable {e : Exporter} {r : SavedRecord} {before after : FileTree} {records : List SavedRecord} {dir : List String}

/-- The names on the way to the file of a record below the output directory. -/
def SavedRecord.names (e : Exporter) (r : SavedRecord) : List String :=
  Path.cleanParts r.subDir ++ [e.fileName r.name]

theorem SavedRecord.GoesTo.names_eq (h : r.GoesTo e dir) : r.names e = dir ++ [e.fileName r.name] := by
  have clean : Path.IsClean false dir := Path.isClean_nil.append fun n member => h.plain n (by simp [member])
  rw [SavedRecord.names, h.subDir, Path.cleanParts_ofParts clean]

theorem SavedRecord.GoesTo.plain_names (h : r.GoesTo e dir) : ∀ n ∈ r.names e, Path.Plain n := by
  rw [h.names_eq]
  exact h.plain

/-- Saving records that have places of their own leaves each of them at its place. -/
theorem Saves.gains (saves : Saves e before records after)
    (encodes : ∀ record, e.encode record = .ok (e.format.encode record))
    (placed : ∀ r ∈ records, ∃ dir, r.GoesTo e dir) (unique : (records.map (·.names e)).Nodup) :
    FileTree.Gains before after (Path.isRooted e.dir)
      (records.map fun r => (Path.cleanParts e.dir ++ r.names e, e.format.encode r.record)) := by
  induction saves with
  | done => exact FileTree.gains_nil
  | @record tree made written after r content records encoded directory file more ih =>
      obtain ⟨⟨dir, here⟩, placed⟩ := List.forall_mem_cons.mp placed
      cases (encodes r.record).symm.trans encoded
      rw [List.map_cons, List.nodup_cons] at unique
      obtain ⟨asDirectory, asFile⟩ := here.paths
      have clean : Path.IsClean (Path.isRooted e.dir) (Path.cleanParts e.dir ++ dir ++ [e.fileName r.name]) := by
        rw [List.append_assoc]
        exact (Path.isClean_cleanParts e.dir).append here.plain
      rw [asDirectory] at directory
      rw [asFile] at file
      have grown := @FileTree.extends_makeDirectories tree _ _ clean.front
      rw [stateAfter_of_ok directory] at grown
      rw [List.map_cons, here.names_eq, ← List.append_assoc]
      apply (ih placed unique.2).cons grown (FileTree.places_of_write clean file)
      intro other listed same
      obtain ⟨r', member, rfl⟩ := List.mem_map.mp listed
      rw [List.append_assoc, List.append_cancel_left_eq, ← here.names_eq] at same
      exact unique.1 (List.mem_map.mpr ⟨r', member, same⟩)

end Places

/-! ## Numbers -/

section Numbers

variable {e : Exporter}

theorem fileName_hex_inj {width n m : Nat} (same : e.fileName (hex width n) = e.fileName (hex width m)) :
    n = m := by
  have chars := congrArg String.toList same
  rw [toList_fileName_hex, toList_fileName_hex, List.append_cancel_right_eq] at chars
  have read := hexNumber?_hexDigits digitStyle_id width
  have number := read n
  rw [chars, read m] at number
  exact (Option.some.inj number).symm

/-- Numbers that can be told apart by their digits. -/
def AreNumbered (numbers : List Int) : Prop :=
  numbers.Nodup ∧ ∀ n ∈ numbers, 0 ≤ n

/-- Files in a directory whose numbers differ have names that differ. -/
theorem AreNumbered.nodup_names {α : Type} {items : List α} {number : α → Int}
    (h : AreNumbered (items.map number)) (dir : List String) (width : Nat) :
    (items.map fun a => dir ++ [e.fileName (hex width (number a))]).Nodup := by
  obtain ⟨unique, low⟩ := h
  rw [List.Nodup, List.pairwise_map] at unique ⊢
  refine unique.imp_of_mem fun {a b} first second different same => ?_
  obtain ⟨n, shown⟩ := Int.eq_ofNat_of_zero_le (low _ (List.mem_map_of_mem first))
  obtain ⟨m, shown'⟩ := Int.eq_ofNat_of_zero_le (low _ (List.mem_map_of_mem second))
  rw [List.append_cancel_left_eq, shown, shown'] at same
  have equal := @fileName_hex_inj e width n m (List.head_eq_of_cons_eq same)
  omega

theorem Tiles.rising {entries : List Entry} {start stop : Int} (h : Tiles start entries stop) :
    (∀ e ∈ entries, start ≤ e.start) ∧ (entries.map (·.start)).Pairwise (· < ·) := by
  induction entries generalizing start with
  | nil => exact ⟨nofun, .nil⟩
  | cons e entries ih =>
      obtain ⟨here, nonempty, more⟩ := h
      obtain ⟨behind, rising⟩ := ih more
      refine ⟨List.forall_mem_cons.mpr ⟨Int.le_of_eq here.symm, fun e' later => ?_⟩, .cons ?_ rising⟩
      · have := behind e' later
        omega
      · intro n listed
        obtain ⟨e', later, rfl⟩ := List.mem_map.mp listed
        exact Int.lt_of_lt_of_le nonempty (behind e' later)

end Numbers

/-- What is exported can be told apart: locations, entry points and the scripts of a region by their numbers,
    and regions by names that can be those of directories. -/
structure Summary.IsNumbered (s : Summary) : Prop where
  locations : AreNumbered (s.locations.map (·.index))
  entryPoints : AreNumbered (s.entryPoints.entries.map (·.start))
  scripts : ∀ r ∈ s.regions, AreNumbered (r.result.entries.map (·.start))
  regions : (s.regions.map (·.region.name)).Nodup
  plain : ∀ r ∈ s.regions, Path.Plain r.region.name

section Found

variable {rom : Bytes} {regions : List Region} {locations : List Location}

theorem areNumbered_locations (read : Location.readAll rom = .ok locations) :
    AreNumbered (locations.map (·.index)) := by
  have numbers : locations.map (·.index) = (List.range' 0 Location.count).map Int.ofNat := by
    rw [Location.eq_of_readAll read, List.map_map]
    rfl
  constructor
  · rw [numbers, List.Nodup, List.pairwise_map]
    exact (List.pairwise_lt_range' 1).imp fun less same => Nat.ne_of_lt less (Int.ofNat.inj same)
  · intro n listed
    obtain ⟨l, member, rfl⟩ := List.mem_map.mp listed
    obtain ⟨i, _, index⟩ := Location.index_of_readAll read member
    exact index ▸ Int.natCast_nonneg i

theorem areNumbered_entryPoints (rom : Bytes) (locations : List Location) :
    AreNumbered ((EntryPointScan.ofOffsets rom (Location.entryPoints locations)).entries.map (·.start)) := by
  have covers := (EntryPointScan.holds_ofOffsets rom (Location.entryPoints locations)).covers
  have rising := (Location.entryPoints_unique locations).1
  have unique := covers.nodup_iff.mpr (rising.imp Int.ne_of_lt)
  refine ⟨(List.nodup_append.mp unique).1, fun n listed => ?_⟩
  obtain ⟨e, member, rfl⟩ := List.mem_map.mp listed
  exact (foundIn_of_mem_entryPoints member).nonneg

theorem areNumbered_region {region : Region} (range : region.IsRange) (inside : region.EndsIn rom) :
    AreNumbered ((RegionScan.found rom region).result.entries.map (·.start)) := by
  have tiling := region.tiling_found range inside
  refine ⟨tiling.tiles.rising.2.imp Int.ne_of_lt, fun n listed => ?_⟩
  obtain ⟨e, member, rfl⟩ := List.mem_map.mp listed
  exact (tiling.found e member).nonneg

theorem Region.plain_name {region : Region} (named : region.name ≠ "") (valid : region.hasValidName) :
    Path.Plain region.name := by
  obtain ⟨⟨whole, _⟩, here, up⟩ := Region.hasValidName_iff.mp valid
  exact ⟨named, here, up, whole⟩

theorem isNumbered_found (read : Location.readAll rom = .ok locations)
    (checked : Region.checkAll [] regions = .ok ()) (inside : ∀ r ∈ regions, r.EndsIn rom) :
    (Summary.found rom regions locations).IsNumbered := by
  obtain ⟨sound, _, unique⟩ := Region.checkAll_eq_ok_iff.mp checked
  refine ⟨areNumbered_locations read, areNumbered_entryPoints rom locations, ?_, ?_, ?_⟩
  · intro r scanned
    obtain ⟨region, listed, rfl⟩ := List.mem_map.mp scanned
    exact areNumbered_region (sound region listed).2.2 (inside region listed)
  · rwa [Summary.found, List.map_map]
  · intro r scanned
    obtain ⟨region, listed, rfl⟩ := List.mem_map.mp scanned
    exact Region.plain_name (sound region listed).1 (sound region listed).2.1

end Found

/-! ## Files -/

/-- A file of an export: the names on the way to it below the output directory, and the record that it
    holds. -/
structure ExportedFile where
  names : List String
  record : Record

/-- The path of a file below an output directory. -/
def ExportedFile.path (output : String) (file : ExportedFile) : String :=
  Path.join (output :: file.names)

/-- The files of a run. -/
def Summary.exports (format : Format) (s : Summary) : List ExportedFile :=
  s.locations.map (fun l => ⟨["field", s!"{hex 3 l.index}.{format.name}"], l.document⟩) ++
    s.entryPoints.entries.map (fun e => ⟨["events", s!"{hex 6 e.start}.{format.name}"], e.document⟩) ++
    s.regions.flatMap fun r => r.result.entries.map fun e =>
      ⟨["regions", r.region.name, s!"{hex 6 e.start}.{format.name}"], e.document⟩

section Files

variable {s : Summary} {e : Exporter}

theorem Summary.length_exports (format : Format) (s : Summary) :
    (s.exports format).length = s.locations.length + s.scripts := by
  rw [Summary.scripts_eq, exports, List.length_append, List.length_append, List.length_map, List.length_map,
    List.length_flatMap, List.length_flatMap, Nat.add_assoc]
  simp only [List.length_map]

theorem Location.goesTo_saved {l : Location} (low : 0 ≤ l.index) : l.saved.GoesTo e ["field"] := by
  obtain ⟨n, index⟩ := Int.eq_ofNat_of_zero_le low
  rw [Location.saved, index, Exporter.locationsDir, ← Path.ofParts_singleton "field"]
  exact goesTo_hex (by simp) (by decide) 3 n l.document

theorem Entry.goesTo_saved {entry : Entry} {dir : List String} (nonempty : dir ≠ [])
    (plain : ∀ n ∈ dir, Path.Plain n) (low : 0 ≤ entry.start) :
    (entry.saved (Path.ofParts false dir)).GoesTo e dir := by
  obtain ⟨n, start⟩ := Int.eq_ofNat_of_zero_le low
  rw [Entry.saved, start]
  exact goesTo_hex nonempty plain 6 n entry.document

/-- The names of the records of a run, by the directories that they go to. -/
structure Summary.IsPlaced (s : Summary) (e : Exporter) : Prop where
  locations : ∀ l ∈ s.locations, l.saved.GoesTo e ["field"]
  entryPoints : ∀ entry ∈ s.entryPoints.entries, (entry.saved Exporter.scriptsDir).GoesTo e ["events"]
  scripts : ∀ r ∈ s.regions, ∀ entry ∈ r.result.entries,
    (entry.saved (Exporter.regionDir r.region.name)).GoesTo e ["regions", r.region.name]

theorem Summary.IsNumbered.isPlaced (h : s.IsNumbered) (e : Exporter) : s.IsPlaced e where
  locations l listed := Location.goesTo_saved (h.locations.2 _ (List.mem_map_of_mem listed))
  entryPoints entry listed := by
    rw [Exporter.scriptsDir, ← Path.ofParts_singleton "events"]
    exact Entry.goesTo_saved (by simp) (by decide) (h.entryPoints.2 _ (List.mem_map_of_mem listed))
  scripts r scanned entry listed := by
    have plain := h.plain r scanned
    rw [regionDir_eq plain]
    refine Entry.goesTo_saved (by simp) ?_ ((h.scripts r scanned).2 _ (List.mem_map_of_mem listed))
    exact List.forall_mem_cons.mpr ⟨by decide, List.forall_mem_singleton.mpr plain⟩

theorem Summary.IsPlaced.goesTo (h : s.IsPlaced e) : ∀ r ∈ s.saved, ∃ dir, r.GoesTo e dir :=
  forall_mem_saved (fun l listed => ⟨_, h.locations l listed⟩)
    (fun entry listed => ⟨_, h.entryPoints entry listed⟩)
    fun r scanned entry listed => ⟨_, h.scripts r scanned entry listed⟩

theorem Summary.IsPlaced.exports_eq (h : s.IsPlaced e) :
    s.exports e.format = s.saved.map fun r => ⟨r.names e, r.record⟩ := by
  rw [exports, saved, List.map_append, List.map_append, List.map_map, List.map_map, List.map_flatMap,
    List.flatMap_def, List.flatMap_def]
  refine congr (congrArg _ (congr (congrArg _ ?_) ?_)) (congrArg _ ?_)
  · refine List.map_congr_left fun l listed => ?_
    rw [Function.comp_apply, (h.locations l listed).names_eq]
    rfl
  · refine List.map_congr_left fun entry listed => ?_
    rw [Function.comp_apply, (h.entryPoints entry listed).names_eq]
    rfl
  · refine List.map_congr_left fun r scanned => ?_
    rw [RegionScan.saved, List.map_map]
    refine List.map_congr_left fun entry listed => ?_
    rw [Function.comp_apply, (h.scripts r scanned entry listed).names_eq]
    rfl

theorem Summary.IsNumbered.nodup_exports (h : s.IsNumbered) (format : Format) :
    ((s.exports format).map (·.names)).Nodup := by
  rw [exports, List.map_append, List.map_append, List.map_map, List.map_map, List.map_flatMap]
  have locations := h.locations.nodup_names (e := .new "" format) ["field"] 3
  have entryPoints := h.entryPoints.nodup_names (e := .new "" format) ["events"] 6
  have scripts (r : RegionScan) (scanned : r ∈ s.regions) :=
    (h.scripts r scanned).nodup_names (e := .new "" format) ["regions", r.region.name] 6
  have regions : (s.regions.map (·.region.name)).Nodup := h.regions
  rw [List.Nodup, List.pairwise_map] at regions
  refine List.nodup_append.mpr ⟨List.nodup_append.mpr ⟨locations, entryPoints, ?_⟩, ?_, ?_⟩
  · intro names location names' script same
    obtain ⟨l, _, rfl⟩ := List.mem_map.mp location
    obtain ⟨entry, _, rfl⟩ := List.mem_map.mp script
    exact absurd (List.head_eq_of_cons_eq same) (by decide)
  · refine List.pairwise_flatMap.mpr ⟨fun r scanned => ?_, regions.imp ?_⟩
    · rw [List.map_map]
      exact scripts r scanned
    · intro r r' different names first names' second same
      rw [List.map_map] at first second
      obtain ⟨entry, _, rfl⟩ := List.mem_map.mp first
      obtain ⟨entry', _, rfl⟩ := List.mem_map.mp second
      exact different (List.head_eq_of_cons_eq (List.tail_eq_of_cons_eq same))
  · intro names first names' region same
    obtain ⟨r, _, script⟩ := List.mem_flatMap.mp region
    rw [List.map_map] at script
    obtain ⟨entry, _, rfl⟩ := List.mem_map.mp script
    rcases List.mem_append.mp first with location | script
    · obtain ⟨l, _, rfl⟩ := List.mem_map.mp location
      exact absurd (List.head_eq_of_cons_eq same) (by decide)
    · obtain ⟨entry', _, rfl⟩ := List.mem_map.mp script
      exact absurd (List.head_eq_of_cons_eq same) (by decide)

theorem Summary.IsPlaced.plain_exports (h : s.IsPlaced e) :
    ∀ file ∈ s.exports e.format, file.names ≠ [] ∧ ∀ n ∈ file.names, Path.Plain n := by
  intro file exported
  rw [h.exports_eq] at exported
  obtain ⟨r, saved, rfl⟩ := List.mem_map.mp exported
  obtain ⟨dir, placed⟩ := h.goesTo r saved
  refine ⟨?_, placed.plain_names⟩
  rw [placed.names_eq]
  exact List.concat_ne_nil _ _

theorem Summary.IsNumbered.gains_exports (h : s.IsNumbered) {before after : FileTree}
    (encodes : ∀ record, e.encode record = .ok (e.format.encode record)) (saves : Saves e before s.saved after) :
    FileTree.Gains before after (Path.isRooted e.dir)
      ((s.exports e.format).map fun file => (Path.cleanParts e.dir ++ file.names, e.format.encode file.record)) := by
  have placed := h.isPlaced e
  have unique := h.nodup_exports e.format
  rw [placed.exports_eq, List.map_map] at unique ⊢
  exact saves.gains encodes placed.goesTo unique

end Files

/-! ## Paths -/

/-- The path leads down from the directory, by at least one name. -/
def Path.IsBelow (dir path : String) : Prop :=
  isRooted path = isRooted dir ∧
    ∃ names, names ≠ [] ∧ (∀ n ∈ names, Plain n) ∧ cleanParts path = cleanParts dir ++ names

/-- The place that a path leads to once it is clean. -/
def Path.place (path : String) : Place :=
  FileTree.placeOf (isRooted path) (cleanParts path)

theorem Path.place_ofParts {rooted : Bool} {names : List String} (clean : IsClean rooted names) :
    place (ofParts rooted names) = FileTree.placeOf rooted names := by
  rw [place, isRooted_ofParts clean, cleanParts_ofParts clean]

section Paths

variable {file : ExportedFile} (nonempty : file.names ≠ []) (plain : ∀ n ∈ file.names, Path.Plain n)

include plain

theorem ExportedFile.isClean (output : String) :
    Path.IsClean (Path.isRooted output) (Path.cleanParts output ++ file.names) :=
  (Path.isClean_cleanParts output).append plain

include nonempty

theorem ExportedFile.path_eq (output : String) : file.path output =
    Path.ofParts (Path.isRooted output) (Path.cleanParts output ++ file.names) :=
  Path.join_cons output nonempty plain

theorem ExportedFile.place_path (output : String) : Path.place (file.path output) =
    FileTree.placeOf (Path.isRooted output) (Path.cleanParts output ++ file.names) := by
  rw [path_eq nonempty plain, Path.place_ofParts (isClean plain output)]

theorem ExportedFile.isBelow_path (output : String) : Path.IsBelow output (file.path output) := by
  have clean := isClean plain output
  rw [path_eq nonempty plain]
  exact ⟨Path.isRooted_ofParts clean, file.names, nonempty, plain, Path.cleanParts_ofParts clean⟩

theorem ExportedFile.place_path_of_plain {output : String} (here : Path.Plain output) :
    Path.place (file.path output) = output :: file.names := by
  rw [place_path nonempty plain, here.isRooted, here.cleanParts]
  rfl

end Paths

theorem Summary.IsNumbered.nodup_paths {s : Summary} (h : s.IsNumbered) (format : Format) (output : String) :
    ((s.exports format).map fun file => Path.clean (file.path output)).Nodup := by
  have plain := (h.isPlaced (.new output format)).plain_exports
  have unique := h.nodup_exports format
  rw [List.Nodup, List.pairwise_map] at unique ⊢
  refine unique.imp_of_mem fun {file other} first second different same => different ?_
  obtain ⟨nonempty, plain₁⟩ := plain file first
  obtain ⟨nonempty', plain₂⟩ := plain other second
  have clean := ExportedFile.isClean plain₁ output
  have clean' := ExportedFile.isClean plain₂ output
  rw [ExportedFile.path_eq nonempty plain₁, ExportedFile.path_eq nonempty' plain₂, Path.clean_ofParts clean,
    Path.clean_ofParts clean'] at same
  exact List.append_cancel_left (Path.ofParts_inj clean clean' same)

theorem FileTree.isPrefix_placeOf {rooted : Bool} {front names : List String} (leading : front <+: names) :
    placeOf rooted front <+: placeOf rooted names := by
  cases rooted with
  | true => exact List.cons_prefix_cons.mpr ⟨rfl, leading⟩
  | false => exact leading

/-- Saving what a run found changes the files of the export and nothing else, but for directories on the way to
    them. -/
theorem Summary.IsNumbered.changes {s : Summary} (h : s.IsNumbered) {e : Exporter} {before after : FileTree}
    (encodes : ∀ record, e.encode record = .ok (e.format.encode record)) (saves : Saves e before s.saved after) :
    (∀ file ∈ s.exports e.format,
      after.get? (Path.place (file.path e.dir)) = some (.file (e.format.encode file.record))) ∧
    ∀ place, (∀ file ∈ s.exports e.format, place ≠ Path.place (file.path e.dir)) →
      after.get? place = before.get? place ∨ before.get? place = none ∧
        after.get? place = some .directory ∧
          ∃ file ∈ s.exports e.format, place <+: Path.place (file.path e.dir) := by
  have plain := (h.isPlaced e).plain_exports
  have placed (file : ExportedFile) (exported : file ∈ s.exports e.format) :=
    ExportedFile.place_path (plain file exported).1 (plain file exported).2 e.dir
  obtain ⟨stored, kept⟩ := h.gains_exports encodes saves
  constructor
  · intro file exported
    rw [placed file exported]
    exact List.forall_mem_map.mp stored file exported
  · intro place elsewhere
    rcases kept place (List.forall_mem_map.mpr fun file exported => placed file exported ▸ elsewhere file exported)
      with same | ⟨absent, made, written, listed, front, leading, rfl⟩
    · exact .inl same
    · obtain ⟨file, exported, rfl⟩ := List.mem_map.mp listed
      refine .inr ⟨absent, made, file, exported, ?_⟩
      rw [placed file exported]
      exact FileTree.isPrefix_placeOf (leading.trans (List.dropLast_prefix _))

/-! ## A blank image -/

/-- An image in which every byte ends a script, and no location has characters or triggers. -/
def blank (size : Nat) : Bytes :=
  Array.replicate size 0xff

namespace Blank

variable {size : Nat}

theorem size_eq : (blank size).size = size :=
  Array.size_replicate

theorem extract_eq {n : Nat} (inside : n ≤ size) : (blank size).extract 0 n = blank n := by
  rw [blank, Array.extract_replicate, Nat.sub_zero, Nat.min_eq_left inside]
  rfl

theorem pointer_eq {table i : Nat} (inside : table + 2 * i + 1 < size) :
    Location.pointer (blank size) table i = 0xffff := by
  have byte {n : Nat} (inside : n < size) : (blank size).getD n 0 = 0xff := by
    rw [Array.getD_eq_getD_getElem?, blank, Array.getElem?_replicate, if_pos inside, Option.getD_some]
  rw [Location.pointer, byte (by omega), byte inside]
  rfl

section Large

variable (large : 0x2dc47f ≤ size)

include large

theorem pointer_next {table i : Nat} (low : table ≤ Location.npcPointers) (bound : i < Location.count) :
    Location.pointer (blank size) table i = 0xffff ∧ Location.pointer (blank size) table (i + 1) = 0xffff := by
  simp only [Location.npcPointers, Location.count] at low bound
  exact ⟨pointer_eq (by omega), pointer_eq (by omega)⟩

theorem hasAll : Location.HasAll (blank size) := by
  refine ⟨size_eq ▸ large, fun i bound => ?_, fun i bound => ?_⟩
  · obtain ⟨here, next⟩ := pointer_next large (Nat.le_refl _) bound
    exact Nat.le_of_eq (here.trans next.symm)
  · obtain ⟨here, next⟩ := @pointer_next size large Location.triggerPointers i (by decide) bound
    exact Nat.le_of_eq (here.trans next.symm)

theorem eventAddrs_placed {i : Nat} (bound : i < Location.count) :
    (Location.placed (blank size) i).eventAddrs = [] := by
  have none {table : Nat} (low : table ≤ Location.npcPointers) : Location.listBytes (blank size) table i = #[] := by
    obtain ⟨here, next⟩ := pointer_next large low bound
    rw [Location.listBytes, here, next, Nat.sub_self]
    exact Array.extract_empty_of_stop_le_start (Nat.le_refl _)
  rw [Location.eventAddrs, Location.placed, none (Nat.le_refl _), none (by decide)]
  rfl

theorem entryPoints_eq {locations : List Location} (read : Location.readAll (blank size) = .ok locations) :
    Location.entryPoints locations = [] := by
  apply List.eq_nil_iff_forall_not_mem.mpr
  intro offset listed
  obtain ⟨l, member, addr, referred, _⟩ := ((Location.entryPoints_unique locations).2 offset).mp listed
  rw [Location.eq_of_readAll read] at member
  obtain ⟨i, bound, rfl⟩ := List.mem_map.mp member
  rw [eventAddrs_placed large (by simpa using bound)] at referred
  cases referred

end Large

/-- A script that has no events stands at every offset. -/
theorem scriptAt_eq {offset : Nat} (inside : offset < size) : ∃ entry, scriptAt (blank size) offset = .ok entry := by
  have stands : StandsIn #[0xff] (blank size) offset := by
    refine ⟨by rw [size_eq]; simp; omega, fun n b found => ?_⟩
    have bounds := Bytes.bounds_of_at? found
    obtain rfl : n = 0 := by
      simp at bounds
      omega
    cases found
    rw [Int.zero_add, Bytes.at?_natCast, blank, Array.getElem?_replicate, if_pos inside]
    rfl
  have single : ∃ events stop, Dialect.worldChar.script #[0xff] 0 = .ok events stop :=
    ⟨_, _, by with_unfolding_all rfl⟩
  obtain ⟨events, stop, read⟩ := single
  have moved := Dialect.worldChar.steady_script.transfer_of_ok stands (Int.le_refl 0) read
  rw [Int.zero_add] at moved
  rw [scriptAt, if_neg (by rw [size_eq]; omega), moved]
  exact ⟨_, rfl⟩

theorem exists_entry {offset : Nat} (inside : offset < size) :
    ∃ e ∈ (scanFrom (blank size) offset).entries, e.start = offset := by
  have run := scans_scanFrom (blank size) offset
  rw [Int.max_eq_left (Int.natCast_nonneg offset)] at run
  obtain ⟨entry, read⟩ := scriptAt_eq inside
  generalize scanFrom (blank size) offset = r at run
  cases run with
  | finished atEnd =>
      rw [size_eq] at atEnd
      omega
  | stuck _ failed => cases read.symm.trans failed
  | found _ read' _ => exact ⟨_, List.mem_cons_self, (scriptAt_eq_ok read').1⟩

end Blank

namespace Run

section Finishing

variable {context : Context} {rom : Bytes} {o : Options} {c : Config} {before after : FileTree} {s : Summary}

theorem Finishes.checked (h : Finishes context rom o c before s after) :
    Region.checkAll [] c.regions = .ok () ∧ ∀ r ∈ c.regions, r.EndsIn rom := by
  constructor
  · cases checked : c.validate with
    | error problem => exact absurd (.config checked) (h.free _)
    | ok => exact (Config.validate_eq_ok_iff.mp checked).2.2
  · intro r listed
    exact Int.not_lt.mp fun outside => h.free _ (.outside listed outside)

theorem Finishes.isNumbered (h : Finishes context rom o c before s after) : s.IsNumbered := by
  obtain ⟨checked, inside⟩ := h.checked
  obtain ⟨locations, read, rfl⟩ := h.found
  exact isNumbered_found read checked inside

/-- The first location goes to the first file of its directory. -/
theorem Finishes.stores_first (h : Finishes context rom o c before s after)
    (unlisted : o.listing = "" ∨ o.listing = "-") (plain : Path.Plain c.output) (yaml : c.format = Format.yaml.name) :
    s.locations.length = 0x19f ∧ ∃ content, after.get? [c.output, "field", "000.yaml"] = some (.file content) := by
  have numbered := h.isNumbered
  obtain ⟨_, ⟨locations, read, rfl⟩, format, exported, named, saves, _, same⟩ := h
  rw [yaml] at named
  cases (Format.ofName?_name .yaml).symm.trans named
  have length := congrArg List.length (Location.eq_of_readAll read)
  rw [List.length_map, List.length_range'] at length
  have stored := (numbered.changes (fun _ => rfl) saves).1
  rw [← same unlisted] at stored
  have first : (⟨["field", "000.yaml"], (Location.placed rom 0).document⟩ : ExportedFile) ∈
      (Summary.found rom c.regions locations).exports .yaml := by
    have name : s!"{hex 3 0}.{Format.yaml.name}" = "000.yaml" := by decide
    rw [Location.eq_of_readAll read]
    refine List.mem_append_left _ (List.mem_append_left _ (List.mem_map.mpr ⟨_, List.mem_map_of_mem
      (List.mem_range'_1.mpr ⟨Nat.le_refl 0, by decide⟩), ?_⟩))
    exact congrArg (fun name => ExportedFile.mk ["field", name] _) name
  have below : ∀ n ∈ ["field", "000.yaml"], Path.Plain n := by decide
  have placed : Path.place (ExportedFile.path c.output ⟨["field", "000.yaml"], (Location.placed rom 0).document⟩) =
      [c.output, "field", "000.yaml"] :=
    ExportedFile.place_path_of_plain (by simp) below plain
  exact ⟨length, _, placed ▸ stored _ first⟩

end Finishing

/-- A run that succeeds without a listing file leaves each record in a file of its own below the output
    directory. All that stood elsewhere stands there as before, and all that is new elsewhere are directories
    that lead to these files. -/
theorem onImageIn_exports (context : Context) (rom : Bytes) (o : Options) (c : Config) (w w' : World)
    (s : Summary) (unlisted : o.listing = "" ∨ o.listing = "-")
    (done : onImageIn context rom o c w = .ok s w') :
    Location.readAll rom = .ok s.locations ∧ s.locations.length = 0x19f ∧
    s = .found rom c.regions s.locations ∧
    ∃ format : Format, c.format = format.name ∧
      (s.exports format).length = s.locations.length + s.scripts ∧
      ((s.exports format).map fun file => Path.clean (file.path c.output)).Nodup ∧
      (∀ file ∈ s.exports format, Path.IsBelow c.output (file.path c.output) ∧
        w'.files.get? (Path.place (file.path c.output)) = some (.file (format.encode file.record))) ∧
      ∀ place, (∀ file ∈ s.exports format, place ≠ Path.place (file.path c.output)) →
        w'.files.get? place = w.files.get? place ∨
        w.files.get? place = none ∧ w'.files.get? place = some .directory ∧
          ∃ file ∈ s.exports format, place <+: Path.place (file.path c.output) := by
  have finishes := (ends_onImageIn context rom o c w.files).of_eq_ok done
  have numbered := finishes.isNumbered
  obtain ⟨_, ⟨locations, read, rfl⟩, format, exported, named, saves, _, same⟩ := finishes
  have plain := (numbered.isPlaced (.new c.output format)).plain_exports
  obtain ⟨stored, kept⟩ := numbered.changes (fun _ => rfl) saves
  rw [← same unlisted] at stored kept
  have length := congrArg List.length (Location.eq_of_readAll read)
  rw [List.length_map, List.length_range'] at length
  refine ⟨read, length, rfl, format, (Format.name_of_ofName? named).symm, Summary.length_exports format _,
    numbered.nodup_paths format c.output, fun file exported => ⟨?_, stored file exported⟩, kept⟩
  exact ExportedFile.isBelow_path (plain file exported).1 (plain file exported).2 c.output

/-- A run on a blank image succeeds if nothing stands in the way of its files. -/
theorem exists_onImage_blank {size : Nat} {regions : List Region} {o : Options} {w : World}
    (large : 0x2dc47f ≤ size) (small : size < 0x1000000) (checked : Region.checkAll [] regions = .ok ())
    (inside : ∀ r ∈ regions, r.EndsIn (blank size))
    (room : ∀ dir ∈ exportDirs regions, Exporter.HasRoom (.new "out" .yaml) dir)
    (tidy : w.files.IsTidy (.new "out" .yaml) (exportDirs regions)) (unlisted : o.listing = "") :
    ∃ s w', onImage false (blank size) o { Config.standard with regions } w = .ok s w' := by
  have read := Location.readAll_of_hasAll (Blank.hasAll large)
  have valid := Config.validate_standard checked
  have named := Format.ofName?_name .yaml
  obtain ⟨exported, saves, _⟩ := exists_saves_found (fun _ => ⟨_, rfl⟩) read (Blank.size_eq ▸ small)
    (Config.isRange_of_validate valid) inside room tidy
  have free := @not_obstacle (.always false) _ _ _ _ valid read nofun (fun _ _ => rfl) inside named
  have listed : exported.TakesListing o.listing none := by
    rw [FileTree.TakesListing, if_pos (.inl unlisted)]
  obtain ⟨w', done⟩ := onImageIn_eq_ok free read named ⟨exported, saves, listed⟩
  exact ⟨_, w', done⟩

theorem onImageIn_exports_blank :
    ∃ s w', onImageIn (.always false) (blank 0x2dc47f) {} { Config.standard with
        regions := [⟨"intro", 0xca0000, 0xca0001⟩] } ⟨.empty, #[]⟩ = .ok s w' ∧
      s.locations.length = 0x19f ∧
      ∃ content, w'.files.get? ["out", "regions", "intro", "0a0000.yaml"] = some (.file content) := by
  have range : (⟨"intro", 0xca0000, 0xca0001⟩ : Region).IsRange := ⟨by decide, by decide⟩
  have checked : Region.checkAll [] [⟨"intro", 0xca0000, 0xca0001⟩] = .ok () :=
    Region.checkAll_eq_ok_iff.mpr ⟨by simpa [Region.hasValidName_iff] using range, by simp, by simp⟩
  have inside : ∀ r ∈ [(⟨"intro", 0xca0000, 0xca0001⟩ : Region)], r.EndsIn (blank 0x2dc47f) := by
    simp only [Region.EndsIn, Blank.size_eq]
    decide
  have room := @hasRoom_exportDirs (.new "out" .yaml) [⟨"intro", 0xca0000, 0xca0001⟩] (by decide)
  obtain ⟨s, w', done⟩ := @exists_onImage_blank 0x2dc47f _ {} ⟨.empty, #[]⟩ (by decide) (by decide) checked inside room
    (FileTree.isTidy_empty (by decide)) rfl
  obtain ⟨_, length, found, format, named, _, _, stored, _⟩ := onImageIn_exports (.always false)
    (blank 0x2dc47f) {} { Config.standard with regions := [⟨"intro", 0xca0000, 0xca0001⟩] } ⟨.empty, #[]⟩ w' s
    (.inl rfl) done
  obtain rfl : format = .yaml := by
    cases format with
    | yaml => rfl
    | toml | cbor => exact absurd named (by decide)
  refine ⟨s, w', done, length, ?_⟩
  obtain ⟨entry, listed, start⟩ := @Blank.exists_entry 0xa0001 0xa0000 (by decide)
  have exported : (⟨["regions", "intro", "0a0000.yaml"], entry.document⟩ : ExportedFile) ∈ s.exports .yaml := by
    rw [found]
    refine List.mem_append_right _ (List.mem_flatMap.mpr ⟨_, List.mem_map_of_mem List.mem_cons_self, ?_⟩)
    refine List.mem_map.mpr ⟨entry, ?_, ?_⟩
    · have cut := @Blank.extract_eq 0x2dc47f 0xa0001 (by decide)
      rw [← cut] at listed
      exact listed
    · have name : s!"{hex 6 0xa0000}.{Format.yaml.name}" = "0a0000.yaml" := by decide
      rw [start]
      exact congrArg (fun name => ExportedFile.mk ["regions", "intro", name] entry.document) name
  have plain : ∀ n ∈ ["regions", "intro", "0a0000.yaml"], Path.Plain n := by decide
  have placed : Path.place (ExportedFile.path "out" ⟨["regions", "intro", "0a0000.yaml"], entry.document⟩) =
      ["out", "regions", "intro", "0a0000.yaml"] :=
    ExportedFile.place_path_of_plain (by simp) plain (by decide)
  exact ⟨_, placed ▸ (stored _ exported).2⟩

end Run

end EventScript
