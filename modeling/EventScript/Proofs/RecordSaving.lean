import EventScript.Export
import EventScript.Proofs.FileWrites
import EventScript.Proofs.ListingReader

/-! # Saving records

Each record is saved by two calls: one that makes its directory and one that writes its file. All of them are
granted in a tree where nothing stands in the way, whatever was saved there before.
-/

namespace EventScript

/-- A record with the directory and the name of its file. -/
structure SavedRecord where
  subDir : String
  name : String
  record : Record

/-- The records are encoded, and the calls that save them one behind the other are all granted. -/
inductive Saves (e : Exporter) : FileTree → List SavedRecord → FileTree → Prop
  | done {tree : FileTree} : Saves e tree [] tree
  | record {tree made written after : FileTree} {r : SavedRecord} {content : Bytes} {records : List SavedRecord}
      (encoded : e.encode r.record = .ok content)
      (directory : FileTree.makeDirectories (Path.join [e.dir, r.subDir]) tree = .ok () made)
      (file : FileTree.write (e.path r.subDir r.name) content made = .ok () written)
      (more : Saves e written records after) : Saves e tree (r :: records) after

def Location.saved (l : Location) : SavedRecord :=
  ⟨Exporter.locationsDir, hex 3 l.index, l.document⟩

def Entry.saved (subDir : String) (e : Entry) : SavedRecord :=
  ⟨subDir, hex 6 e.start, e.document⟩

section Saving

variable {e : Exporter} {before after : FileTree}

theorem Saves.split {first second : List SavedRecord} (h : Saves e before (first ++ second) after) :
    ∃ middle, Saves e before first middle ∧ Saves e middle second after := by
  induction first generalizing before with
  | nil => exact ⟨before, .done, h⟩
  | cons r first ih =>
      cases h with
      | record encoded directory file more =>
          obtain ⟨middle, saved, rest⟩ := ih more
          exact ⟨middle, .record encoded directory file saved, rest⟩

theorem Saves.append {middle : FileTree} {first second : List SavedRecord} (h : Saves e before first middle)
    (more : Saves e middle second after) : Saves e before (first ++ second) after := by
  induction h with
  | done => exact more
  | record encoded directory file _ ih => exact .record encoded directory file (ih more)

theorem Exporter.write_eq_ok_iff {subDir name : String} {record : Record} :
    e.write subDir name record before = .ok () after ↔
      ∃ content made, e.encode record = .ok content ∧
        FileTree.makeDirectories (Path.join [e.dir, subDir]) before = .ok () made ∧
        FileTree.write (e.path subDir name) content made = .ok () after := by
  simp only [Exporter.write, bind_eq_ok_iff, ofExcept_eq_ok_iff, wrapError_eq_ok_iff]
  constructor
  · rintro ⟨content, _, ⟨encoded, rfl⟩, _, made, directory, file⟩
    exact ⟨content, made, encoded, directory, file⟩
  · rintro ⟨content, made, encoded, directory, file⟩
    exact ⟨content, before, ⟨encoded, rfl⟩, (), made, directory, file⟩

theorem Saves.unique {records : List SavedRecord} {after' : FileTree} (h : Saves e before records after)
    (h' : Saves e before records after') : after = after' := by
  induction h with
  | done =>
      cases h'
      rfl
  | record encoded directory file _ ih =>
      cases h' with
      | record encoded' directory' file' more =>
          cases encoded.symm.trans encoded'
          cases directory.symm.trans directory'
          cases file.symm.trans file'
          exact ih more

/-- Records of which all are written are saved one behind the other. -/
theorem saves_iff_writeAll {α : Type} {saved : α → SavedRecord} {label : α → WriteError → ExportError}
    {save : α → EStateM ExportError FileTree Unit} {items : List α}
    (writes : ∀ a, save a = wrapError (label a) (e.write (saved a).subDir (saved a).name (saved a).record)) :
    Saves e before (items.map saved) after ↔ Exporter.writeAll save items before = .ok () after := by
  induction items generalizing before with
  | nil =>
      constructor
      · intro h
        cases h
        rfl
      · intro h
        cases h
        exact .done
  | cons a items ih =>
      rw [Exporter.writeAll, bind_eq_ok_iff]
      constructor
      · intro h
        cases h with
        | record encoded directory file more =>
            refine ⟨(), _, ?_, ih.mp more⟩
            rw [writes, wrapError_eq_ok_iff]
            exact Exporter.write_eq_ok_iff.mpr ⟨_, _, encoded, directory, file⟩
      · rintro ⟨_, written, here, more⟩
        rw [writes, wrapError_eq_ok_iff] at here
        obtain ⟨content, made, encoded, directory, file⟩ := Exporter.write_eq_ok_iff.mp here
        exact .record encoded directory file (ih.mpr more)

end Saving

/-! ## Trees that take records -/

section Taking

variable {e : Exporter} {dirs : List (List String)} {tree : FileTree}

/-- The place of names below the output directory. -/
def Exporter.place (e : Exporter) (names : List String) : Place :=
  FileTree.placeOf (Path.isRooted e.dir) (Path.cleanParts e.dir ++ names)

/-- Nothing stands where directories are to be made but directories, and nothing where files are to be
    written in them but files. No call on these places goes wrong. -/
structure FileTree.IsTidy (tree : FileTree) (e : Exporter) (dirs : List (List String)) : Prop where
  directories : ∀ dir ∈ dirs, tree.IsFree (Path.isRooted e.dir) (Path.cleanParts e.dir ++ dir)
  files : ∀ dir ∈ dirs, ∀ name, tree.IsSoundAt (e.place (dir ++ [name])) ∧
    tree.get? (e.place (dir ++ [name])) ≠ some .directory

/-- Nothing stands in the way of what is saved below a new directory. -/
theorem FileTree.isTidy_of_new (plain : Path.Plain e.dir) (ground : tree.IsSoundAt [])
    (sound : ∀ names, tree.IsSoundAt (e.dir :: names)) (fresh : ∀ names, tree.get? (e.dir :: names) = none) :
    tree.IsTidy e dirs := by
  constructor
  · intro dir member front leading
    rw [plain.isRooted, plain.cleanParts] at *
    cases front with
    | nil => exact ⟨ground, .inr get?_placeOf_nil⟩
    | cons name front =>
        obtain ⟨rfl, _⟩ := List.cons_prefix_cons.mp leading
        exact ⟨sound front, .inl (fresh front)⟩
  · intro dir member name
    rw [Exporter.place, plain.isRooted, plain.cleanParts]
    refine ⟨sound _, fun directory => ?_⟩
    cases (fresh (dir ++ [name])).symm.trans directory

theorem FileTree.isTidy_empty (plain : Path.Plain e.dir) : empty.IsTidy e dirs :=
  isTidy_of_new plain (fun _ => rfl) (isSoundAt_empty plain) fun _ => get?_empty plain

/-- No file in one of the directories stands on the way to another. -/
def AreApart (dirs : List (List String)) : Prop :=
  ∀ dir ∈ dirs, ∀ other ∈ dirs, ∀ name, ¬ dir ++ [name] <+: other

def Exporter.fileName (e : Exporter) (name : String) : String :=
  s!"{name}.{e.format.name}"

/-- The record goes to the directory below the output directory that the names lead to. -/
structure SavedRecord.GoesTo (e : Exporter) (r : SavedRecord) (dir : List String) : Prop where
  nonempty : dir ≠ []
  plain : ∀ n ∈ dir ++ [e.fileName r.name], Path.Plain n
  subDir : r.subDir = Path.ofParts false dir

/-- The record can be encoded, and a file system takes the names of the directory and of the file. -/
structure SavedRecord.FitsIn (e : Exporter) (r : SavedRecord) (dir : List String) : Prop
    extends r.GoesTo e dir where
  encoded : ∃ content, e.encode r.record = .ok content
  admissible : FileTree.Admissible (Path.isRooted e.dir)
    (Path.cleanParts e.dir ++ dir ++ [e.fileName r.name])

theorem SavedRecord.GoesTo.paths {r : SavedRecord} {dir : List String} (h : r.GoesTo e dir) :
    Path.join [e.dir, r.subDir] = Path.ofParts (Path.isRooted e.dir) (Path.cleanParts e.dir ++ dir) ∧
    e.path r.subDir r.name = Path.ofParts (Path.isRooted e.dir)
      (Path.cleanParts e.dir ++ dir ++ [e.fileName r.name]) := by
  have plain : ∀ n ∈ dir, Path.Plain n := fun n member => h.plain n (by simp [member])
  have directory := Path.join_ofParts e.dir h.nonempty plain
  have clean := (Path.isClean_cleanParts e.dir).append plain
  rw [h.subDir, Exporter.path, directory]
  exact ⟨rfl, Path.join_ofParts_pair clean (h.plain (e.fileName r.name) (by simp))⟩

/-- The file of a record is found if only directories stand on the way to it and none in its place. -/
theorem SavedRecord.FitsIn.reach {r : SavedRecord} {dir : List String} (fits : r.FitsIn e dir)
    (way : tree.IsFree (Path.isRooted e.dir) (Path.cleanParts e.dir ++ dir))
    (closed : tree.get? (e.place (dir ++ [e.fileName r.name])) ≠ some .directory) :
    ∃ made, FileTree.makeDirectories (Path.join [e.dir, r.subDir]) tree = .ok () made ∧
      FileTree.Opens tree made (Path.isRooted e.dir) (Path.cleanParts e.dir ++ dir) ∧
      made.target (e.path r.subDir r.name) = .ok (e.place (dir ++ [e.fileName r.name])) ∧
      made.get? (e.place (dir ++ [e.fileName r.name])) = tree.get? (e.place (dir ++ [e.fileName r.name])) := by
  obtain ⟨directory, file⟩ := fits.paths
  obtain ⟨made, done, opens⟩ := FileTree.makeDirectories_opens
    (fits.admissible.front (by simp [fits.nonempty])) way
  have kept := opens.kept (e.place (dir ++ [e.fileName r.name])) fun front leading same => by
    rw [Exporter.place, FileTree.placeOf_inj] at same
    subst same
    exact absurd leading.length_le (by simp)
  refine ⟨made, directory ▸ done, opens, ?_, kept⟩
  rw [← kept, Exporter.place, ← List.append_assoc] at closed
  rw [file, Exporter.place, ← List.append_assoc]
  exact FileTree.target_ofParts fits.admissible opens.directory closed

/-- A record is saved if its file is found and no call on it goes wrong. -/
theorem SavedRecord.FitsIn.save {r : SavedRecord} {dir : List String} (fits : r.FitsIn e dir)
    (way : tree.IsFree (Path.isRooted e.dir) (Path.cleanParts e.dir ++ dir))
    (sound : tree.IsSoundAt (e.place (dir ++ [e.fileName r.name])))
    (closed : tree.get? (e.place (dir ++ [e.fileName r.name])) ≠ some .directory) :
    ∃ content made written, e.encode r.record = .ok content ∧
      FileTree.makeDirectories (Path.join [e.dir, r.subDir]) tree = .ok () made ∧
      FileTree.write (e.path r.subDir r.name) content made = .ok () written ∧
      FileTree.Opens tree made (Path.isRooted e.dir) (Path.cleanParts e.dir ++ dir) ∧
      written.faults = tree.faults ∧
      FileTree.Places made written (e.place (dir ++ [e.fileName r.name])) (.file content) := by
  obtain ⟨content, encoded⟩ := fits.encoded
  obtain ⟨made, directory, opens, found, kept⟩ := fits.reach way closed
  obtain ⟨written, file, faults, places⟩ := FileTree.write_of_target content found (kept ▸ closed)
    (sound.congr opens.faults)
  exact ⟨content, made, written, encoded, directory, file, opens, faults.trans opens.faults, places⟩

theorem FileTree.IsTidy.save {r : SavedRecord} {dir : List String} (tidy : tree.IsTidy e dirs)
    (apart : AreApart dirs) (member : dir ∈ dirs) (fits : r.FitsIn e dir) :
    ∃ content made written, e.encode r.record = .ok content ∧
      makeDirectories (Path.join [e.dir, r.subDir]) tree = .ok () made ∧
      write (e.path r.subDir r.name) content made = .ok () written ∧ written.faults = tree.faults ∧
      written.IsTidy e dirs := by
  obtain ⟨sound, closed⟩ := tidy.files dir member (e.fileName r.name)
  obtain ⟨content, made, written, encoded, done, done', opens, faults, places⟩ :=
    fits.save (tidy.directories dir member) sound closed
  -- Making directories changes nothing where files are written.
  have kept : ∀ other ∈ dirs, ∀ name, made.get? (e.place (other ++ [name])) =
      tree.get? (e.place (other ++ [name])) := by
    refine fun other member' name => opens.kept _ fun front leading same => ?_
    rw [Exporter.place, placeOf_inj] at same
    subst same
    exact apart other member' dir member name (List.prefix_append_right_inj _ |>.mp leading)
  refine ⟨content, made, written, encoded, done, done', faults, fun other member' front leading => ?_,
    fun other member' name => ?_⟩
  -- Writing a file changes nothing where directories are made.
  · obtain ⟨sound, way⟩ := tidy.directories other member' front leading
    refine ⟨sound.congr faults, ?_⟩
    have elsewhere : placeOf (Path.isRooted e.dir) front ≠ e.place (dir ++ [e.fileName r.name]) := by
      intro same
      rw [placeOf_inj.mp same] at leading
      exact apart dir member other member' _ (List.prefix_append_right_inj _ |>.mp leading)
    rw [places, if_neg elsewhere]
    by_cases passed : front <+: Path.cleanParts e.dir ++ dir
    · exact .inr (opens.directory front passed)
    · have same := opens.kept (placeOf _ front) fun way leading same => by
        rw [placeOf_inj.mp same] at passed
        exact passed leading
      rw [same]
      exact way
  · obtain ⟨sound, closed⟩ := tidy.files other member' name
    refine ⟨sound.congr faults, ?_⟩
    rw [places]
    split
    · nofun
    · rw [kept other member']
      exact closed

theorem exists_saves {records : List SavedRecord} (apart : AreApart dirs) (tidy : tree.IsTidy e dirs)
    (fits : ∀ r ∈ records, ∃ dir ∈ dirs, r.FitsIn e dir) :
    ∃ after, Saves e tree records after ∧ after.faults = tree.faults := by
  induction records generalizing tree with
  | nil => exact ⟨tree, .done, rfl⟩
  | cons r records ih =>
      obtain ⟨⟨dir, member, here⟩, fits⟩ := List.forall_mem_cons.mp fits
      obtain ⟨content, made, written, encoded, directory, file, faults, tidy⟩ := tidy.save apart member here
      obtain ⟨after, more, faults'⟩ := ih tidy fits
      exact ⟨after, .record encoded directory file more, faults'.trans faults⟩

/-! ## Numbered records -/

theorem toList_fileName (name : String) :
    (e.fileName name).toList = name.toList ++ '.' :: e.format.name.toList := by
  simp [Exporter.fileName, toString_text]

theorem toList_fileName_hex (width n : Nat) :
    (e.fileName (hex width n)).toList = hexDigits width n ++ '.' :: e.format.name.toList := by
  rw [toList_fileName, toList_hex]

/-- A numeral has digits, behind a sign if the number is negative. -/
theorem toList_hex_eq (width : Nat) (n : Int) :
    ∃ sign least k, (hex width n).toList = sign ++ hexDigits least k ∧ ∀ c ∈ sign, c = '-' := by
  cases n with
  | ofNat k => exact ⟨[], width, k, String.toList_ofList, nofun⟩
  | negSucc k => exact ⟨['-'], width - 1, k + 1, String.toList_ofList, by simp⟩

theorem mem_fileName_hex {width : Nat} {n : Int} {c : Char} (h : c ∈ (e.fileName (hex width n)).toList) :
    c ≠ '/' ∧ c ≠ '\x00' := by
  obtain ⟨sign, least, k, shown, minus⟩ := toList_hex_eq width n
  rw [toList_fileName, shown] at h
  rcases List.mem_append.mp h with number | suffix
  · rcases List.mem_append.mp number with signed | digit
    · rw [minus c signed]
      decide
    · obtain ⟨d, small, rfl⟩ := mem_hexDigits digit
      have all : ∀ d < 16, Nat.digitChar d ≠ '/' ∧ Nat.digitChar d ≠ '\x00' := by decide
      exact all d small
  · have all : ∀ format : Format, ('.' :: format.name.toList).all (fun c => c ≠ '/' ∧ c ≠ '\x00') := by
      intro format
      cases format <;> decide
    simpa using List.all_eq_true.mp (all e.format) c suffix

theorem plain_fileName_hex (width : Nat) (n : Int) : Path.Plain (e.fileName (hex width n)) := by
  -- A digit is enough to tell the name from those that only have dots.
  have digit : ∃ c ∈ (e.fileName (hex width n)).toList, c ≠ '.' := by
    obtain ⟨sign, least, k, shown, _⟩ := toList_hex_eq width n
    obtain ⟨c, rest, digits⟩ := List.exists_cons_of_ne_nil (hexDigits_ne_nil least k)
    obtain ⟨d, small, rfl⟩ := @mem_hexDigits least k c (by simp [digits])
    have all : ∀ d < 16, Nat.digitChar d ≠ '.' := by decide
    exact ⟨_, by simp [toList_fileName, shown, digits], all d small⟩
  have unlike {text : String} (dots : text.toList.all (· = '.')) : e.fileName (hex width n) ≠ text := by
    rintro rfl
    obtain ⟨c, member, other⟩ := digit
    exact other (by simpa using List.all_eq_true.mp dots c member)
  exact ⟨unlike (by decide), unlike (by decide), unlike (by decide), fun slash => (mem_fileName_hex slash).1 rfl⟩

theorem utf8ByteSize_ofList_le (text : List Char) : (String.ofList text).utf8ByteSize ≤ 4 * text.length := by
  induction text with
  | nil => simp
  | cons c text ih =>
      have := c.utf8Size_le_four
      rw [String.ofList_cons, String.utf8ByteSize_append, String.utf8ByteSize_singleton, List.length_cons]
      omega

theorem utf8ByteSize_fileName_hex {width n : Nat} (narrow : width ≤ 6) (small : n < 0x1000000) :
    (e.fileName (hex width n)).utf8ByteSize ≤ 44 := by
  have size := utf8ByteSize_ofList_le (e.fileName (hex width n)).toList
  have digits : (Nat.toDigits 16 n).length ≤ 6 := by
    rw [Nat.length_toDigits_le_iff (by decide) (by decide)]
    exact small
  have suffix : e.format.name.toList.length = 4 := by
    cases e.format <;> rfl
  rw [String.ofList_toList, toList_fileName_hex, List.length_append, List.length_cons, suffix, hexDigits,
    List.length_append, List.length_replicate] at size
  omega

/-- The directory takes files whose numbers have at most six digits. -/
structure Exporter.HasRoom (e : Exporter) (dir : List String) : Prop where
  nonempty : dir ≠ []
  plain : ∀ name ∈ dir, Path.Plain name
  admissible : FileTree.Admissible (Path.isRooted e.dir) (Path.cleanParts e.dir ++ dir)
  room : (Path.ofParts (Path.isRooted e.dir) (Path.cleanParts e.dir ++ dir)).utf8ByteSize + 45 ≤
    FileTree.maxPath

theorem Exporter.hasRoom_of_plain {dir : List String} (plain : ∀ name ∈ e.dir :: dir, Path.Plain name)
    (nonempty : dir ≠ []) (valid : ∀ name ∈ e.dir :: dir, '\x00' ∉ name.toList)
    (short : ∀ name ∈ e.dir :: dir, name.utf8ByteSize ≤ FileTree.maxName)
    (room : (Path.ofParts false (e.dir :: dir)).utf8ByteSize + 45 ≤ FileTree.maxPath) : e.HasRoom dir := by
  obtain ⟨here, below⟩ := List.forall_mem_cons.mp plain
  have names : Path.cleanParts e.dir ++ dir = e.dir :: dir := by rw [here.cleanParts]; rfl
  refine ⟨nonempty, below, ?_, ?_⟩
  · rw [here.isRooted, names]
    exact ⟨Path.isClean_nil.append plain, valid, short, by omega⟩
  · rwa [here.isRooted, names]

theorem goesTo_hex {dir : List String} (nonempty : dir ≠ []) (plain : ∀ name ∈ dir, Path.Plain name)
    (width n : Nat) (record : Record) :
    SavedRecord.GoesTo e ⟨Path.ofParts false dir, hex width n, record⟩ dir := by
  have file := @plain_fileName_hex e width n
  exact ⟨nonempty, List.forall_mem_append.mpr ⟨plain, by simpa using file⟩, rfl⟩

theorem Exporter.HasRoom.fitsIn {dir : List String} (h : e.HasRoom dir) {width n : Nat} {record : Record}
    (encoded : ∃ content, e.encode record = .ok content) (narrow : width ≤ 6) (small : n < 0x1000000) :
    SavedRecord.FitsIn e ⟨Path.ofParts false dir, hex width n, record⟩ dir := by
  obtain ⟨nonempty, plain, admissible, room⟩ := h
  have file := @plain_fileName_hex e width n
  have size := @utf8ByteSize_fileName_hex e width n narrow small
  refine ⟨goesTo_hex nonempty plain width n record, encoded,
    admissible.clean.append (by simpa using file), ?_, ?_, ?_⟩
  · refine List.forall_mem_append.mpr ⟨admissible.valid, ?_⟩
    simpa using fun inside => (@mem_fileName_hex e width n _ inside).2 rfl
  · refine List.forall_mem_append.mpr ⟨admissible.short, ?_⟩
    exact List.forall_mem_singleton.mpr (Nat.le_trans size (by decide))
  · rw [Path.ofParts_append (by simp [nonempty]) (by simp), joinWith, String.intercalate_singleton,
      String.utf8ByteSize_append, String.utf8ByteSize_append]
    have : "/".utf8ByteSize = 1 := rfl
    dsimp only
    omega

end Taking

end EventScript
