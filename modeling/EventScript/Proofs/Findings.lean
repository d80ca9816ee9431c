import EventScript.Proofs.ConfigChecks
import EventScript.Proofs.EntryPointScans
import EventScript.Proofs.ListingLines
import EventScript.Proofs.LocationTables
import EventScript.Proofs.RecordSaving
import EventScript.Run

/-! # What there is to find in an image

A run finds the scripts at the entry points of the locations and in its regions. What it finds can be listed, and
it can be saved where nothing stands in the way.
-/

namespace EventScript

/-! ## Entry points -/

namespace Location

theorem sorted_mergeSort (offsets : List Int) : (offsets.mergeSort (· ≤ ·)).Pairwise (· ≤ ·) := by
  have sorted := @List.pairwise_mergeSort Int (fun a b => decide (a ≤ b))
    (fun a b c first second => by simp only [decide_eq_true_eq] at *; omega)
    (fun a b => by simp only [Bool.or_eq_true, decide_eq_true_eq]; omega) offsets
  simpa only [decide_eq_true_eq] using sorted

theorem eraseReps_loop {a : Int} {rest done : List Int} (falling : (a :: done).Pairwise (· > ·))
    (sorted : (a :: rest).Pairwise (· ≤ ·)) :
    (List.eraseRepsBy.loop (· == ·) a rest done).Pairwise (· < ·) ∧
      ∀ x, x ∈ List.eraseRepsBy.loop (· == ·) a rest done ↔ x ∈ done ∨ x ∈ a :: rest := by
  induction rest generalizing a done with
  | nil =>
      refine ⟨?_, by simp [List.eraseRepsBy.loop, or_comm]⟩
      rw [List.eraseRepsBy.loop, List.pairwise_reverse]
      exact falling
  | cons next rest ih =>
      have later := List.pairwise_cons.mp sorted
      by_cases same : a = next
      · subst same
        simp only [List.eraseRepsBy.loop, BEq.rfl]
        refine ⟨(ih falling later.2).1, fun x => ?_⟩
        rw [(ih falling later.2).2 x]
        simp
      -- A new offset is above all that were kept, since it is above the last of them.
      · have above : a < next := by
          have := later.1 next (by simp)
          omega
        have falling' : (next :: a :: done).Pairwise (· > ·) := by
          refine List.pairwise_cons.mpr ⟨fun x member => ?_, falling⟩
          rcases List.mem_cons.mp member with rfl | member
          · exact above
          · have := (List.pairwise_cons.mp falling).1 x member
            omega
        simp only [List.eraseRepsBy.loop, beq_eq_false_iff_ne.mpr same]
        refine ⟨(ih falling' later.2).1, fun x => ?_⟩
        rw [(ih falling' later.2).2 x]
        simp only [List.mem_cons]
        grind

theorem eraseReps_sorted {offsets : List Int} (sorted : offsets.Pairwise (· ≤ ·)) :
    offsets.eraseReps.Pairwise (· < ·) ∧ ∀ x, x ∈ offsets.eraseReps ↔ x ∈ offsets := by
  cases offsets with
  | nil => exact ⟨.nil, fun x => Iff.rfl⟩
  | cons a rest =>
      simpa [List.eraseReps, List.eraseRepsBy] using
        eraseReps_loop (List.pairwise_singleton _ a) sorted

variable (locations : List Location)

/-- The location has a character or trigger with a script at this offset. -/
def RefersTo (location : Location) (offset : Int) : Prop :=
  ∃ addr ∈ location.eventAddrs, Address.eventToFile addr = offset

theorem entryPoints_unique : (entryPoints locations).Pairwise (· < ·) ∧
    ∀ offset, offset ∈ entryPoints locations ↔ ∃ l ∈ locations, l.RefersTo offset := by
  have sorted := sorted_mergeSort (locations.flatMap fun l => l.eventAddrs.map Address.eventToFile)
  refine ⟨(eraseReps_sorted sorted).1, fun offset => ((eraseReps_sorted sorted).2 offset).trans ?_⟩
  simp [RefersTo]

end Location

/-! ## Scripts -/

/-- What is found in a region whose offsets lie in the image. -/
def RegionScan.found (rom : Bytes) (region : Region) : RegionScan :=
  let start := region.start - Address.romBase
  let stop := region.stop - Address.romBase
  ⟨region, start, stop, scanFrom (rom.extract 0 stop.toNat) start⟩

/-- What is found in an image. -/
def Summary.found (rom : Bytes) (regions : List Region) (locations : List Location) : Summary :=
  ⟨locations, .ofOffsets rom (Location.entryPoints locations), regions.map (RegionScan.found rom)⟩

/-- What is found at entry points lies in the image. -/
theorem foundIn_of_mem_entryPoints {rom : Bytes} {offsets : List Int} {e : Entry}
    (member : e ∈ (EntryPointScan.ofOffsets rom offsets).entries) :
    Entry.FoundIn rom ⟨e.stop, e.start, e.stop, e.events⟩ :=
  Entry.foundIn_of_scriptAt ((EntryPointScan.holds_ofOffsets rom offsets).entry member).2

theorem Summary.scripts_eq (s : Summary) :
    s.scripts = s.entryPoints.entries.length + (s.regions.flatMap (·.result.entries)).length := by
  have sum (regions : List RegionScan) (n : Nat) :
      regions.foldl (fun n r => n + r.result.entries.length) n =
        n + (regions.flatMap (·.result.entries)).length := by
    induction regions generalizing n with
    | nil => rfl
    | cons r regions ih => rw [List.foldl_cons, ih, List.flatMap_cons, List.length_append, Nat.add_assoc]
  exact sum s.regions _

namespace Region

variable {rom : Bytes} {region : Region}

/-- The region ends in the image. -/
def EndsIn (rom : Bytes) (region : Region) : Prop :=
  region.stop - Address.romBase ≤ rom.size

theorem size_cut (range : region.IsRange) (inside : region.EndsIn rom) :
    (rom.extract 0 (region.stop - Address.romBase).toNat).size = region.stop - Address.romBase := by
  obtain ⟨low, ordered⟩ := range
  unfold EndsIn at inside
  rw [Array.size_extract]
  omega

theorem slice?_cut (range : region.IsRange) (inside : region.EndsIn rom) :
    rom.slice? 0 (region.stop - Address.romBase) =
      some (rom.extract 0 (region.stop - Address.romBase).toNat) := by
  obtain ⟨low, ordered⟩ := range
  exact if_pos ⟨Int.le_refl 0, by omega, inside⟩

theorem tiling_found (range : region.IsRange) (inside : region.EndsIn rom) :
    Tiling (rom.extract 0 (region.stop - Address.romBase).toNat) (region.start - Address.romBase)
      (RegionScan.found rom region).result := by
  have size := size_cut range inside
  obtain ⟨low, ordered⟩ := range
  have run := scans_scanFrom (rom.extract 0 (region.stop - Address.romBase).toNat)
    (region.start - Address.romBase)
  have tiling := run.tiling (by omega) (by omega)
  rwa [Int.max_eq_left (by omega)] at tiling

end Region

/-! ## Records -/

def RegionScan.saved (r : RegionScan) : List SavedRecord :=
  r.result.entries.map (·.saved (Exporter.regionDir r.region.name))

/-- The records that a run saves. -/
def Summary.saved (s : Summary) : List SavedRecord :=
  s.locations.map (·.saved) ++ s.entryPoints.entries.map (·.saved Exporter.scriptsDir) ++
    s.regions.flatMap (·.saved)

theorem Summary.forall_mem_saved {s : Summary} {p : SavedRecord → Prop} (locations : ∀ l ∈ s.locations, p l.saved)
    (entryPoints : ∀ e ∈ s.entryPoints.entries, p (e.saved Exporter.scriptsDir))
    (scripts : ∀ r ∈ s.regions, ∀ e ∈ r.result.entries, p (e.saved (Exporter.regionDir r.region.name))) :
    ∀ r ∈ s.saved, p r := by
  intro record saved
  rcases List.mem_append.mp saved with first | region
  · rcases List.mem_append.mp first with location | script
    · obtain ⟨l, listed, rfl⟩ := List.mem_map.mp location
      exact locations l listed
    · obtain ⟨e, listed, rfl⟩ := List.mem_map.mp script
      exact entryPoints e listed
  · obtain ⟨r, scanned, script⟩ := List.mem_flatMap.mp region
    obtain ⟨e, listed, rfl⟩ := List.mem_map.mp script
    exact scripts r scanned e listed

/-- The directories of an export, by their names below the output directory. -/
def exportDirs (regions : List Region) : List (List String) :=
  [Exporter.locationsDir] :: [Exporter.scriptsDir] :: regions.map fun r => ["regions", r.name]

theorem areApart_exportDirs (regions : List Region) : AreApart (exportDirs regions) := by
  intro dir member other member' name leading
  simp only [exportDirs, List.mem_cons, List.mem_map] at member member'
  rcases member with rfl | rfl | ⟨r, _, rfl⟩ <;> rcases member' with rfl | rfl | ⟨r', _, rfl⟩ <;>
    simp [List.cons_prefix_cons, Exporter.locationsDir, Exporter.scriptsDir] at leading

theorem regionDir_eq {name : String} (plain : Path.Plain name) :
    Exporter.regionDir name = Path.ofParts false ["regions", name] := by
  have top : Path.Plain "regions" := ⟨by decide, by decide, by decide, by decide⟩
  rw [Exporter.regionDir, Path.join_pair _ plain, top.isRooted, top.cleanParts]
  rfl

/-- The directories of an export take its files if the output directory and the regions have usual names. -/
theorem hasRoom_exportDirs {e : Exporter} {regions : List Region}
    (usual : ∀ name ∈ e.dir :: regions.map (·.name), Path.Plain name ∧ '\x00' ∉ name.toList ∧
      name.utf8ByteSize ≤ FileTree.maxName) : ∀ dir ∈ exportDirs regions, e.HasRoom dir := by
  obtain ⟨⟨plain, valid, short⟩, usual⟩ := List.forall_mem_cons.mp usual
  have room {dir : List String} (nonempty : dir ≠ []) (few : dir.length ≤ 2)
      (each : ∀ name ∈ dir, Path.Plain name ∧ '\x00' ∉ name.toList ∧ name.utf8ByteSize ≤ FileTree.maxName) :
      e.HasRoom dir := by
    have all : ∀ name ∈ e.dir :: dir, Path.Plain name ∧ '\x00' ∉ name.toList ∧ name.utf8ByteSize ≤ FileTree.maxName :=
      List.forall_mem_cons.mpr ⟨⟨plain, valid, short⟩, each⟩
    have short : ∀ name ∈ e.dir :: dir, name.utf8ByteSize ≤ FileTree.maxName := fun name member => (all name member).2.2
    refine Exporter.hasRoom_of_plain (fun name member => (all name member).1) nonempty
      (fun name member => (all name member).2.1) short ?_
    have size := FileTree.utf8ByteSize_joinWith_le short
    rw [List.length_cons] at size
    have whole : Path.ofParts false (e.dir :: dir) = joinWith "/" (e.dir :: dir) := rfl
    rw [whole]
    simp only [FileTree.maxName, FileTree.maxPath] at size ⊢
    omega
  intro dir listed
  simp only [exportDirs, List.mem_cons, List.mem_map] at listed
  rcases listed with rfl | rfl | ⟨r, listed, rfl⟩
  · exact room (by simp) (by decide) (by decide)
  · exact room (by simp) (by decide) (by decide)
  · refine room (by simp) (by simp) (List.forall_mem_cons.mpr ⟨by decide, List.forall_mem_singleton.mpr ?_⟩)
    exact usual _ (List.mem_map_of_mem listed)

section Taking

variable {tree : FileTree} {e : Exporter} {rom : Bytes} {regions : List Region} {locations : List Location}

/-- What is found in an image of usual size can be saved in a tidy tree. -/
theorem exists_saves_found (encodes : ∀ record, ∃ content, e.encode record = .ok content)
    (read : Location.readAll rom = .ok locations) (small : rom.size < 0x1000000)
    (ranges : ∀ r ∈ regions, r.IsRange) (inside : ∀ r ∈ regions, r.EndsIn rom)
    (room : ∀ dir ∈ exportDirs regions, e.HasRoom dir) (tidy : tree.IsTidy e (exportDirs regions)) :
    ∃ exported, Saves e tree (Summary.found rom regions locations).saved exported ∧
      exported.faults = tree.faults := by
  -- A script lies in the image, so that its number has at most six digits.
  have fits {subDir : String} {dir : List String} (member : dir ∈ exportDirs regions)
      (named : subDir = Path.ofParts false dir) {entry : Entry} (low : 0 ≤ entry.start)
      (high : entry.start < rom.size) : ∃ dir ∈ exportDirs regions, (entry.saved subDir).FitsIn e dir := by
    obtain ⟨n, start⟩ := Int.eq_ofNat_of_zero_le low
    refine ⟨dir, member, ?_⟩
    rw [Entry.saved, start, named]
    exact (room dir member).fitsIn (encodes entry.document) (Nat.le_refl 6) (by omega)
  refine exists_saves (areApart_exportDirs regions) tidy (Summary.forall_mem_saved ?_ ?_ ?_)
  · intro l member
    obtain ⟨i, bound, index⟩ := Location.index_of_readAll read member
    have listed : [Exporter.locationsDir] ∈ exportDirs regions := by simp [exportDirs]
    refine ⟨_, listed, ?_⟩
    rw [Location.saved, index]
    exact (room _ listed).fitsIn (encodes l.document) (by decide) (Nat.lt_trans bound (by decide))
  · intro entry member
    have found := foundIn_of_mem_entryPoints member
    have dir : [Exporter.scriptsDir] ∈ exportDirs regions := by simp [exportDirs]
    exact fits dir (Path.ofParts_singleton _).symm found.nonneg
      (Int.lt_of_lt_of_le found.nonempty found.inside)
  · intro scan scanned entry listed
    obtain ⟨region, member, rfl⟩ := List.mem_map.mp scanned
    have dir : ["regions", region.name] ∈ exportDirs regions :=
      List.mem_cons_of_mem _ (List.mem_cons_of_mem _ (List.mem_map.mpr ⟨region, member, rfl⟩))
    have range := ranges region member
    have here := inside region member
    have found := (region.tiling_found range here).found entry listed
    have high := Int.lt_of_lt_of_le found.nonempty found.inside
    rw [region.size_cut range here] at high
    exact fits dir (regionDir_eq ((room _ dir).plain _ (by simp))) found.nonneg
      (Int.lt_of_lt_of_le high here)

end Taking

/-! ## Listings -/

section Listing

variable {shown : Listing.Comments} {rom : Bytes}

theorem completes_listRegion {region : Region} (range : region.IsRange) (inside : region.EndsIn rom) :
    Listing.Completes (Run.listRegion shown rom (.found rom region)) := by
  have tiling := region.tiling_found range inside
  have scripts : Listing.Completes (Listing.scripts shown rom (RegionScan.found rom region).result.entries) :=
    (lists_scripts fun _ e member => ⟨(tiling.found e member).nonneg, (tiling.found e member).read_whole⟩).completes
      trivial
  -- The scripts tile the region up to where the raw data starts.
  have reached := tiling.tiles.le
  rw [region.size_cut range inside] at reached
  have rest : 0 ≤ (RegionScan.found rom region).stop - (RegionScan.found rom region).result.remaining := by
    have low := range.low
    simp only [RegionScan.found] at reached ⊢
    omega
  have cut := region.slice?_cut range inside
  refine (Listing.Completes.write .line _).bind ((Listing.Completes.write .title _).bind (scripts.bind ?_))
  simp only [RegionScan.found, cut]
  exact (lists_remaining fun _ => rest).completes trivial

theorem completes_listAll {regions : List Region} {locations : List Location}
    (ranges : ∀ r ∈ regions, r.IsRange) (inside : ∀ r ∈ regions, r.EndsIn rom) :
    Listing.Completes (Run.listAll shown rom (.found rom regions locations)) := by
  have scripts : Listing.Completes (Listing.scripts shown rom
      (EntryPointScan.ofOffsets rom (Location.entryPoints locations)).entries) :=
    (lists_scripts fun _ e member =>
      ⟨(foundIn_of_mem_entryPoints member).nonneg, (foundIn_of_mem_entryPoints member).read⟩).completes trivial
  have all : Listing.Completes ((regions.map (RegionScan.found rom)).forM (Run.listRegion shown rom)) := by
    induction regions with
    | nil => exact .pure
    | cons r regions ih =>
        obtain ⟨range, ranges⟩ := List.forall_mem_cons.mp ranges
        obtain ⟨here, inside⟩ := List.forall_mem_cons.mp inside
        exact (completes_listRegion range here).bind (ih ranges inside)
  exact (Listing.Completes.write .title _).bind (scripts.bind all)

end Listing

/-! ## An image without scripts -/

/-- An image in which no script can be decoded. Its first location has a trigger that refers to one. -/
def undecodable (size : Nat) : Bytes :=
  (Array.replicate size 0xac).setIfInBounds 0x40000 0xa7

namespace Undecodable

variable {size : Nat} (large : 0x2dc47f ≤ size)

theorem size_eq : (undecodable size).size = size := by
  rw [undecodable, Array.size_setIfInBounds, Array.size_replicate]

theorem getElem?_eq {i : Nat} (inside : i < size) (other : i ≠ 0x40000) :
    (undecodable size)[i]? = some 0xac := by
  rw [undecodable, Array.getElem?_setIfInBounds_ne other.symm, Array.getElem?_replicate, if_pos inside]

theorem getD_eq {i : Nat} (inside : i < size) (other : i ≠ 0x40000) : (undecodable size).getD i 0 = 0xac := by
  rw [Array.getD_eq_getD_getElem?, getElem?_eq inside other, Option.getD_some]

theorem pointer_eq {table i : Nat} (inside : table + 2 * i + 1 < size) (behind : 0x40000 < table + 2 * i) :
    Location.pointer (undecodable size) table i = 0xacac := by
  rw [Location.pointer, getD_eq (by omega) (by omega), getD_eq inside (by omega)]
  rfl

include large

theorem pointer_first : Location.pointer (undecodable size) 0x40000 0 = 0xaca7 := by
  have first : (undecodable size).getD 0x40000 0 = 0xa7 := by
    rw [Array.getD_eq_getD_getElem?, undecodable, Array.getElem?_setIfInBounds_self_of_lt, Option.getD_some]
    rw [Array.size_replicate]
    omega
  rw [Location.pointer, Nat.mul_zero, Nat.add_zero, first, getD_eq (by omega) (by omega)]
  rfl

theorem hasAll : Location.HasAll (undecodable size) := by
  refine ⟨size_eq ▸ large, fun i bound => ?_, fun i bound => ?_⟩
  · simp only [Location.count] at bound
    have here := @pointer_eq size Location.npcPointers i
    have next := @pointer_eq size Location.npcPointers (i + 1)
    simp only [Location.npcPointers] at here next ⊢
    omega
  · simp only [Location.count] at bound
    have first := pointer_first large
    have here := @pointer_eq size Location.triggerPointers i
    have next := @pointer_eq size Location.triggerPointers (i + 1)
    simp only [Location.triggerPointers] at here next ⊢
    by_cases start : i = 0
    · subst start
      omega
    · omega

theorem triggers_eq : (Location.placed (undecodable size) 0).triggers = some [⟨0xac, 0xac, 0xacacac⟩] := by
  have bytes : Location.listBytes (undecodable size) 0x40000 0 = Array.replicate 5 0xac := by
    rw [Location.listBytes, pointer_first large, pointer_eq (by omega) (by omega)]
    refine Array.ext_getElem? fun i => ?_
    rw [Array.getElem?_extract, Array.getElem?_replicate, size_eq]
    split
    · rw [getElem?_eq (by omega) (by omega), if_pos (by omega)]
    · rw [if_neg (by omega)]
  rw [Location.placed, Location.triggerPointers, bytes]
  rfl

theorem refersTo : (Location.placed (undecodable size) 0).RefersTo 0xaacac := by
  refine ⟨0xacacac, ?_, by decide⟩
  rw [Location.eventAddrs, triggers_eq large]
  simp

theorem standsIn : StandsIn #[0xac] (undecodable size) 0xaacac := by
  refine ⟨by rw [size_eq]; simp; omega, fun offset b found => ?_⟩
  have inside := Bytes.bounds_of_at? found
  obtain rfl : offset = 0 := by
    simp at inside
    omega
  cases found
  rw [Int.zero_add, Bytes.at?_natCast]
  exact getElem?_eq (by omega) (by decide)

theorem scriptAt_eq : ∃ m, scriptAt (undecodable size) 0xaacac = .error m := by
  have unknown (dialect : Dialect) :
      ∃ e stop, dialect.script #[0xac] 0 = .error e stop ∧ ¬ e.IsTruncated := by
    cases dialect <;> exact ⟨_, _, by with_unfolding_all rfl, by decide⟩
  have fails (dialect : Dialect) : ∃ e stop, dialect.script (undecodable size) 0xaacac = .error e stop := by
    obtain ⟨e, stop, failed, known⟩ := unknown dialect
    have same := dialect.steady_script.transfer (standsIn large) (Int.le_refl 0) (.inr (failed ▸ known))
    rw [failed, Int.zero_add] at same
    exact ⟨_, _, same⟩
  obtain ⟨e, stop, worldChar⟩ := fails .worldChar
  obtain ⟨e', stop', field⟩ := fails .field
  rw [scriptAt, if_neg (by rw [size_eq]; omega), worldChar, field]
  exact ⟨_, rfl⟩

end Undecodable

end EventScript
