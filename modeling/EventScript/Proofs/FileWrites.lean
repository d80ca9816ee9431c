import EventScript.Files.FileTree
import EventScript.Proofs.CleanPaths

/-! # Making directories and writing files -/

namespace EventScript

namespace FileTree

/-- Clean names that a file system takes, also all together as a path. -/
structure Admissible (rooted : Bool) (names : List String) : Prop where
  clean : Path.IsClean rooted names
  valid : ∀ n ∈ names, '\x00' ∉ n.toList
  short : ∀ n ∈ names, n.utf8ByteSize ≤ maxName
  path_short : (Path.ofParts rooted names).utf8ByteSize ≤ maxPath

variable {tree : FileTree} {rooted : Bool} {names before : List String} {name : String}

theorem get?_put (tree : FileTree) (node : FileNode) {place : Place} (held : isGround place = false)
    (other : Place) :
    (tree.put place node).get? other = if other = place then some node else tree.get? other := by
  unfold get? put
  by_cases same : other = place
  · subst same
    simp [held]
  · simp [same, Std.TreeMap.getElem?_insert, Ne.symm same]

@[simp] theorem get?_next (place : Place) : tree.next.get? place = tree.get? place :=
  rfl

theorem isGround_of_get? {place : Place} (h : tree.get? place ≠ some .directory) :
    isGround place = false := by
  unfold get? at h
  split at h <;> simp_all

theorem get?_placeOf_nil : tree.get? (placeOf rooted []) = some .directory := by
  cases rooted <;> rfl

theorem get?_empty {first : String} {rest : Place} (plain : Path.Plain first) : empty.get? (first :: rest) = none := by
  simp [get?, isGround, empty, fullDevice, plain.ne_root, plain.up]

/-- No call on the place goes wrong, now or later. -/
def IsSoundAt (tree : FileTree) (place : Place) : Prop :=
  ∀ n, tree.faults place n = {}

theorem IsSoundAt.fault_eq {place : Place} (h : tree.IsSoundAt place) : tree.fault place = {} :=
  h tree.calls

theorem IsSoundAt.congr {other : FileTree} {place : Place} (h : tree.IsSoundAt place)
    (same : other.faults = tree.faults) : other.IsSoundAt place :=
  fun n => (congrFun (congrFun same place) n).trans (h n)

theorem isSoundAt_empty {first : String} (plain : Path.Plain first) (rest : List String) :
    empty.IsSoundAt (first :: rest) := by
  intro n
  simp [empty, fullDevice, plain.ne_root]

theorem placeOf_inj {others : List String} :
    placeOf rooted names = placeOf rooted others ↔ names = others := by
  cases rooted <;> simp [placeOf]

theorem utf8ByteSize_ofParts_le {more : List String} (nonempty : names ≠ []) :
    (Path.ofParts rooted names).utf8ByteSize ≤ (Path.ofParts rooted (names ++ more)).utf8ByteSize := by
  by_cases last : more = []
  · simp [last]
  · rw [Path.ofParts_append nonempty last, String.utf8ByteSize_append, String.utf8ByteSize_append]
    omega

theorem utf8ByteSize_joinWith_le {names : List String} (short : ∀ n ∈ names, n.utf8ByteSize ≤ maxName) :
    (joinWith "/" names).utf8ByteSize ≤ names.length * (maxName + 1) := by
  have slash : "/".utf8ByteSize = 1 := rfl
  induction names with
  | nil => exact Nat.zero_le _
  | cons n names ih =>
      obtain ⟨here, short⟩ := List.forall_mem_cons.mp short
      have rest := ih short
      cases names with
      | nil =>
          rw [joinWith, String.intercalate_singleton, List.length_singleton]
          omega
      | cons m names =>
          rw [joinWith, String.intercalate_cons_cons, String.utf8ByteSize_append, String.utf8ByteSize_append, slash,
            List.length_cons, Nat.add_one_mul]
          rw [joinWith] at rest
          omega

theorem Admissible.front {more : List String} (h : Admissible rooted (names ++ more))
    (nonempty : names ≠ []) : Admissible rooted names where
  clean := h.clean.front
  valid n member := h.valid n (by simp [member])
  short n member := h.short n (by simp [member])
  path_short := Nat.le_trans (utf8ByteSize_ofParts_le nonempty) h.path_short

theorem step_placeOf (clean : Path.IsClean rooted (before ++ [name])) :
    step (placeOf rooted before) name = placeOf rooted (before ++ [name]) := by
  have whole : name ≠ "." := by
    rcases clean.mem List.mem_concat_self with rfl | plain
    · decide
    · exact plain.here
  unfold step
  rw [if_neg whole]
  split <;> rename_i up
  · subst up
    obtain ⟨rfl, ups⟩ := clean.before_up
    have ups : before.all (· == "..") := by simpa using ups
    have other : before ≠ ["/"] := by
      rintro rfl
      contradiction
    simp [placeOf, ups, other]
  · cases rooted <;> simp [placeOf]

/-! ## Directories -/

/-- Directories stand on the whole way through the names, and all else is as it was. -/
structure Opens (tree made : FileTree) (rooted : Bool) (names : List String) : Prop where
  faults : made.faults = tree.faults
  directory : ∀ front, front <+: names → made.get? (placeOf rooted front) = some .directory
  kept : ∀ place, (∀ front, front <+: names → place ≠ placeOf rooted front) →
    made.get? place = tree.get? place

/-- Nothing but directories stands on the way, and no call on it goes wrong. -/
def IsFree (tree : FileTree) (rooted : Bool) (names : List String) : Prop :=
  ∀ front, front <+: names → tree.IsSoundAt (placeOf rooted front) ∧
    (tree.get? (placeOf rooted front) = none ∨ tree.get? (placeOf rooted front) = some .directory)

/-- The place holds the node, and all else is as it was. -/
def Places (tree after : FileTree) (place : Place) (node : FileNode) : Prop :=
  ∀ other, after.get? other = if other = place then some node else tree.get? other

theorem places_put {place : Place} (closed : tree.get? place ≠ some .directory) (node : FileNode) :
    Places tree (tree.next.put place node) place node := by
  intro other
  rw [get?_put _ _ (isGround_of_get? closed), get?_next]

theorem ne_directory_of_absent {place : Place} (absent : tree.get? place = none) :
    tree.get? place ≠ some .directory := by
  rw [absent]
  nofun

/-- Where a file stands there is no directory. -/
theorem Places.ne_directory {after : FileTree} {place : Place} {content : Bytes}
    (h : Places tree after place (.file content)) : after.get? place ≠ some .directory := by
  rw [h, if_pos rfl]
  nofun

theorem makeDirectory_places {path : String} {place : Place} (faultless : nameFault? path name = none)
    (sound : tree.IsSoundAt place) (free : tree.get? place = none ∨ tree.get? place = some .directory) :
    ∃ made, makeDirectory path name place tree = .ok () made ∧ made.faults = tree.faults ∧
      Places tree made place .directory := by
  rcases free with absent | directory
  · refine ⟨tree.next.put place .directory, ?_, rfl, places_put (ne_directory_of_absent absent) _⟩
    simp only [makeDirectory, faultless, absent, sound.fault_eq]
  · refine ⟨tree, ?_, rfl, fun other => ?_⟩
    · simp only [makeDirectory, faultless, directory]
    · split <;> rename_i here
      · rw [here, directory]
      · rfl

theorem makeFrom_opens (admissible : Admissible rooted (before ++ names))
    (free : tree.IsFree rooted (before ++ names))
    (passed : ∀ front, front <+: before → tree.get? (placeOf rooted front) = some .directory) :
    ∃ made, makeFrom rooted before names tree = .ok () made ∧ Opens tree made rooted (before ++ names) := by
  induction names generalizing before tree with
  | nil => exact ⟨tree, rfl, rfl, by simpa using passed, fun _ _ => rfl⟩
  | cons name names ih =>
      have split : before ++ name :: names = (before ++ [name]) ++ names := by simp
      rw [split] at admissible free ⊢
      have member : name ∈ before ++ [name] ++ names := by simp
      have faultless : nameFault? (Path.ofParts rooted (before ++ [name])) name = none := by
        have valid := admissible.valid name member
        have short := admissible.short name member
        have short' := @utf8ByteSize_ofParts_le rooted (before ++ [name]) names (by simp)
        have := admissible.path_short
        rw [nameFault?, String.contains_char_eq, if_neg (by simpa using valid), if_neg (by omega)]
      have here : before ++ [name] <+: before ++ [name] ++ names := List.prefix_append ..
      obtain ⟨first, made, faults, places⟩ := makeDirectory_places faultless (free _ here).1 (free _ here).2
      have free' : first.IsFree rooted (before ++ [name] ++ names) := by
        intro front leading
        refine ⟨(free front leading).1.congr faults, ?_⟩
        rw [places]
        split
        · exact .inr rfl
        · exact (free front leading).2
      have passed' : ∀ front, front <+: before ++ [name] → first.get? (placeOf rooted front) = some .directory := by
        intro front leading
        rw [places]
        split <;> rename_i other
        · rfl
        · rcases List.prefix_concat_iff.mp leading with rfl | leading
          · contradiction
          · exact passed front leading
      obtain ⟨last, more, opens⟩ := ih admissible free' passed'
      refine ⟨last, (bind_of_ok made).trans more, opens.faults.trans faults, opens.directory, fun place apart => ?_⟩
      rw [opens.kept place apart, places, if_neg (apart _ here)]

theorem makeDirectories_opens (admissible : Admissible rooted names) (free : tree.IsFree rooted names) :
    ∃ made, makeDirectories (Path.ofParts rooted names) tree = .ok () made ∧ Opens tree made rooted names := by
  have clean := admissible.clean
  rw [makeDirectories, if_neg (Path.ofParts_ne_empty clean), Path.isRooted_ofParts clean, Path.cleanParts_ofParts clean]
  refine makeFrom_opens admissible free fun front leading => ?_
  rw [List.prefix_nil.mp leading]
  exact get?_placeOf_nil

theorem follow_placeOf (clean : Path.IsClean rooted (before ++ names))
    (short : ∀ n ∈ names, n.utf8ByteSize ≤ maxName)
    (passed : ∀ front, front <+: before ++ names → tree.get? (placeOf rooted front) = some .directory) :
    tree.follow (placeOf rooted before) names = .ok (placeOf rooted (before ++ names)) := by
  induction names generalizing before with
  | nil => simp [follow]
  | cons name names ih =>
      have split : before ++ name :: names = (before ++ [name]) ++ names := by simp
      rw [split] at clean passed ⊢
      obtain ⟨here, short⟩ := List.forall_mem_cons.mp short
      rw [follow, if_neg (Nat.not_lt.mpr here), step_placeOf clean.front,
        passed _ (List.prefix_append ..)]
      exact ih clean short passed

/-! ## Files -/

theorem filter_parts_ofParts (clean : Path.IsClean rooted (names ++ [name])) :
    (Path.parts (Path.ofParts rooted (names ++ [name]))).filter (· ≠ "") = names ++ [name] := by
  have all : (names ++ [name]).filter (· ≠ "") = names ++ [name] :=
    List.filter_eq_self.mpr fun n member => by simpa using clean.nonempty member
  rw [Path.parts_ofParts clean]
  cases rooted <;> simpa using all

theorem locate_ofParts (admissible : Admissible rooted (names ++ [name]))
    (passed : ∀ front, front <+: names → tree.get? (placeOf rooted front) = some .directory) :
    tree.locate (Path.ofParts rooted (names ++ [name])) = .ok (placeOf rooted names, name) := by
  have clean := admissible.clean
  have valid : '\x00' ∉ (Path.ofParts rooted (names ++ [name])).toList := by
    intro inside
    rcases Path.mem_ofParts (by simp) inside with slash | ⟨n, member, inside⟩
    · contradiction
    · exact admissible.valid n member inside
  have follows := @follow_placeOf tree rooted names [] clean.front
    (fun n member => admissible.short n (by simp [member])) passed
  rw [locate, if_neg (Path.ofParts_ne_empty clean), String.contains_char_eq, if_neg (by simpa using valid),
    if_neg (Nat.not_lt.mpr admissible.path_short), filter_parts_ofParts clean, Path.isRooted_ofParts clean]
  simp only [List.dropLast_concat]
  rw [show (if rooted = true then ["/"] else []) = placeOf rooted [] from rfl, follows]
  simp [ok_bind, Pure.pure, Except.pure]

theorem wantsDirectory_ofParts (clean : Path.IsClean rooted (names ++ [name])) :
    wantsDirectory (Path.ofParts rooted (names ++ [name])) = false := by
  have shown : ∃ front, Path.ofParts rooted (names ++ [name]) = front ++ name := by
    by_cases first : names = []
    · subst first
      cases rooted with
      | true => exact ⟨"/", rfl⟩
      | false => exact ⟨"", by simp [Path.ofParts_singleton]⟩
    · exact ⟨_, by rw [Path.ofParts_append first (by simp), joinWith, String.intercalate_singleton]⟩
  obtain ⟨front, shown⟩ := shown
  have member : name ∈ names ++ [name] := List.mem_concat_self
  have nonempty : name.toList ≠ [] := by simpa using clean.nonempty member
  rw [wantsDirectory, String.endsWith, String.Slice.endsWith_string_eq_false_iff, String.copy_toSlice,
    shown, String.toList_append]
  rintro ⟨rest, same⟩
  have last : name.toList.getLast? = some '/' := by
    simpa [List.getLast?_append, nonempty] using (congrArg List.getLast? same).symm
  exact clean.whole member (List.mem_of_getLast? last)

theorem target_ofParts (admissible : Admissible rooted (names ++ [name]))
    (passed : ∀ front, front <+: names → tree.get? (placeOf rooted front) = some .directory)
    (free : tree.get? (placeOf rooted (names ++ [name])) ≠ some .directory) :
    tree.target (Path.ofParts rooted (names ++ [name])) = .ok (placeOf rooted (names ++ [name])) := by
  have short := admissible.short name (by simp)
  rw [target, locate_ofParts admissible passed]
  simp only [ok_bind, wantsDirectory_ofParts admissible.clean, enter,
    if_neg (Nat.not_lt.mpr short), step_placeOf admissible.clean, if_neg free]
  rfl

theorem read_ofParts {content : Bytes} (admissible : Admissible rooted (names ++ [name]))
    (passed : ∀ front, front <+: names → tree.get? (placeOf rooted front) = some .directory)
    (held : tree.get? (placeOf rooted (names ++ [name])) = some (.file content)) :
    tree.read (Path.ofParts rooted (names ++ [name])) = .ok content := by
  have short := admissible.short name (by simp)
  rw [read, find, locate_ofParts admissible passed]
  simp only [ok_bind, wantsDirectory_ofParts admissible.clean, enter,
    if_neg (Nat.not_lt.mpr short), step_placeOf admissible.clean, held]
  rfl

/-- A file that is put into the working directory is read under its name. -/
theorem read_put (plain : Path.Plain name) (admissible : Admissible false [name]) (content : Bytes) :
    (tree.put [name] (.file content)).read name = .ok content := by
  have below : isGround [name] = false := by
    simp [isGround, plain.ne_root, plain.up]
  have ground : ∀ front, front <+: [] →
      (tree.put [name] (.file content)).get? (placeOf false front) = some .directory := by
    intro front within
    rw [List.prefix_nil.mp within]
    rfl
  have held : (tree.put [name] (.file content)).get? (placeOf false ([] ++ [name])) =
      some (.file content) := by
    rw [placeOf, get?_put tree _ below]
    exact if_pos rfl
  simpa only [List.nil_append, Path.ofParts_singleton] using read_ofParts admissible ground held

/-- A file that is opened and written takes all of the content where no call goes wrong. -/
theorem write_of_target {path : String} {place : Place} (content : Bytes) (found : tree.target path = .ok place)
    (closed : tree.get? place ≠ some .directory) (sound : tree.IsSoundAt place) :
    ∃ after, write path content tree = .ok () after ∧ after.faults = tree.faults ∧
      Places tree after place (.file content) := by
  have created : create path tree = .ok place (tree.next.put place (.file #[])) := by
    simp only [create, found, sound.fault_eq]
  have sound' : (tree.next.put place (.file #[])).IsSoundAt place := sound
  have opened := places_put closed (.file #[])
  refine ⟨(tree.next.put place (.file #[])).next.put place (.file content), ?_, rfl, fun other => ?_⟩
  · rw [write, bind_of_ok created]
    simp only [fill, close, sound'.fault_eq]
  · rw [places_put opened.ne_directory, opened]
    split <;> rfl

end FileTree

end EventScript
