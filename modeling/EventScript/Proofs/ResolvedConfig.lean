import EventScript.Command.Line
import EventScript.Export
import EventScript.Proofs.ConfigChecks
import EventScript.Proofs.FileWrites

/-! # Where the settings of a run come from

A setting is taken from the option if that is set, else from the file if one is named and gives it, else from
the standard configuration. Options are put in after a file was checked, but they are checked themselves, so
what comes out needs no further check.
-/

namespace EventScript

open Toml (Tables Tree)

/-! ## Settings -/

/-- The text of a value, if it is one. -/
def Toml.Tree.text? : Tree → Option String
  | .text s => some s
  | .integer _ | .other | .list _ | .table _ | .tables _ => none

/-- The whole number of a value, if it is one. -/
def Toml.Tree.integer? : Tree → Option Int
  | .integer n => some n
  | .text _ | .other | .list _ | .table _ | .tables _ => none

/-- A setting that an option or a key of a file can give. -/
structure Setting (α : Type) where
  /-- The key in a file. -/
  key : String
  value? : Tree → Option α
  option? : Options → Option α
  of : Config → α

namespace Setting

variable {α : Type}

def output : Setting String where
  key := "output"
  value? := Tree.text?
  option? o := if o.output = "" then none else some o.output
  of := Config.output

def format : Setting String where
  key := "format"
  value? := Tree.text?
  option? o := if o.format = "" then none else some o.format
  of := Config.format

def workers : Setting Int where
  key := "workers"
  value? := Tree.integer?
  option? o := if 0 < o.workers then some o.workers else none
  of := Config.workers

/-- What one row of a table gives. Keys are matched without regard to case. -/
def row? (s : Setting α) (row : String × Tree) : Option α :=
  if Config.foldKey row.1 = s.key then s.value? row.2 else none

/-- What the rows of a table give, the last of them if there are several. -/
def given? (s : Setting α) (rows : List (String × Tree)) : Option α :=
  rows.reverse.findSome? s.row?

end Setting

/-- The rows at the top of a file. There are none if the file cannot be read. -/
def Config.rows (tree : FileTree) (path : String) : List (String × Tree) :=
  match tree.read path with
  | .error _ => []
  | .ok content =>
      match (String.fromUTF8? ⟨content⟩).bind Tables.ofText? with
      | none => []
      | some tables => (tables.fields Tables.root).toList

/-- The rows at the top of the file that is named. -/
def Options.rows (o : Options) (tree : FileTree) : List (String × Tree) :=
  if o.config = "" then [] else Config.rows tree o.config

/-- An option counts most, then a file, and then the standard configuration. -/
def Setting.resolved {α : Type} (s : Setting α) (o : Options) (tree : FileTree) : α :=
  ((s.option? o).or (s.given? (o.rows tree))).getD (s.of .standard)

/-! ## Reading a file -/

namespace Setting

variable {α : Type} {s : Setting α} {key : String} {tree : Tree}

theorem getD_of_key {b : α} (h : Config.foldKey key = s.key) (value : s.value? tree = some b) (a : α) :
    (s.given? [(key, tree)]).getD a = b := by
  rw [given?, List.reverse_singleton, List.findSome?_singleton, row?, if_pos h, value, Option.getD_some]

theorem getD_of_other {name : String} (h : Config.foldKey key = name) (other : name ≠ s.key) (a : α) :
    (s.given? [(key, tree)]).getD a = a := by
  rw [given?, List.reverse_singleton, List.findSome?_singleton, row?, if_neg (by rwa [h]), Option.getD_none]

/-- A later row counts more than an earlier one. -/
theorem getD_cons (s : Setting α) (row : String × Tree) (rows : List (String × Tree)) (a : α) :
    (s.given? (row :: rows)).getD a = (s.given? rows).getD ((s.given? [row]).getD a) := by
  rw [given?, List.reverse_cons, List.findSome?_append, Option.getD_or]
  rfl

end Setting

namespace Config

/-- What rows make of a configuration, the regions apart. -/
structure Applies (rows : List (String × Tree)) (before after : Config) : Prop where
  output : after.output = (Setting.output.given? rows).getD before.output
  format : after.format = (Setting.format.given? rows).getD before.format
  workers : after.workers = (Setting.workers.given? rows).getD before.workers

theorem Applies.cons {row : String × Tree} {rows : List (String × Tree)} {before middle after : Config}
    (first : Applies [row] before middle) (rest : Applies rows middle after) :
    Applies (row :: rows) before after where
  output := by rw [Setting.getD_cons _ row rows, ← first.output, rest.output]
  format := by rw [Setting.getD_cons _ row rows, ← first.format, rest.format]
  workers := by rw [Setting.getD_cons _ row rows, ← first.workers, rest.workers]

theorem applies_setKey {tables : Tables} {draft draft' : Settings Draft} {key : String} {tree : Tree}
    (read : setKey tables draft key tree = some draft') :
    Applies [(key, tree)] draft.value.config draft'.value.config := by
  simp only [setKey] at read
  split at read
  · rename_i folded
    cases read
    exact ⟨(Setting.getD_of_key folded rfl _).symm, (Setting.getD_of_other folded (by decide) _).symm,
      (Setting.getD_of_other folded (by decide) _).symm⟩
  · rename_i folded
    cases read
    exact ⟨(Setting.getD_of_other folded (by decide) _).symm, (Setting.getD_of_key folded rfl _).symm,
      (Setting.getD_of_other folded (by decide) _).symm⟩
  · rename_i folded
    cases read
    exact ⟨(Setting.getD_of_other folded (by decide) _).symm,
      (Setting.getD_of_other folded (by decide) _).symm, (Setting.getD_of_key folded rfl _).symm⟩
  · rename_i folded
    obtain ⟨rows, _, read⟩ := Option.bind_eq_some_iff.mp read
    obtain ⟨regions, _, same⟩ := Option.bind_eq_some_iff.mp read
    cases same
    exact ⟨(Setting.getD_of_other folded (by decide) _).symm,
      (Setting.getD_of_other folded (by decide) _).symm, (Setting.getD_of_other folded (by decide) _).symm⟩
  · cases read
  · cases read
  · cases read
  · rename_i noOutput noFormat noWorkers _ _ _
    cases read
    exact ⟨(Setting.getD_of_other rfl noOutput _).symm, (Setting.getD_of_other rfl noFormat _).symm,
      (Setting.getD_of_other rfl noWorkers _).symm⟩

theorem applies_setKeys {tables : Tables} {draft draft' : Settings Draft} {rows : List (String × Tree)}
    (read : setKeys tables draft rows = some draft') :
    Applies rows draft.value.config draft'.value.config := by
  induction rows generalizing draft with
  | nil =>
      cases read
      exact ⟨rfl, rfl, rfl⟩
  | cons row rows ih =>
      obtain ⟨middle, first, rest⟩ := Option.bind_eq_some_iff.mp read
      exact (applies_setKey first).cons (ih rest)

theorem applies_ofText? {text : String} {c : Config} {unknown : List String}
    (read : ofText? text = some (c, unknown)) :
    ∃ tables, Tables.ofText? text = some tables ∧
      Applies (tables.fields Tables.root).toList standard c := by
  obtain ⟨tables, parsed, read⟩ := Option.bind_eq_some_iff.mp read
  obtain ⟨draft, set, same⟩ := Option.bind_eq_some_iff.mp read
  cases same
  exact ⟨tables, parsed, applies_setKeys set⟩

/-- What is accepted has passed its checks, and has the exact name of its format. -/
theorem accept_eq_ok {path : String} {before c : Config} (accepted : accept path before = .ok c) :
    c.validate = .ok () ∧ (∃ format : Format, c.format = format.name) ∧
      c = { before with format := before.format.toLower } := by
  simp only [accept] at accepted
  split at accepted
  · cases accepted
  · rename_i format parsed
    split at accepted
    · rename_i checked
      cases accepted
      exact ⟨checked, ⟨format, rfl⟩, by rw [Format.name_of_ofName? parsed]⟩
    · cases accepted

/-- What a file gives stands in the place of the standard configuration. -/
structure Loaded (rows : List (String × Tree)) (c : Config) : Prop where
  checked : c.validate = .ok ()
  known : ∃ format : Format, c.format = format.name
  output : c.output = (Setting.output.given? rows).getD standard.output
  format : c.format = ((Setting.format.given? rows).getD standard.format).toLower
  workers : c.workers = (Setting.workers.given? rows).getD standard.workers

theorem loaded_standard : Loaded [] standard where
  checked := validate_standard rfl
  known := ⟨.yaml, rfl⟩
  output := rfl
  format := (Format.toLower_name .yaml).symm
  workers := rfl

theorem loaded_of_load {tree : FileTree} {path : String} {c : Config} (h : load tree path = .ok c) :
    Loaded (rows tree path) c := by
  simp only [load] at h
  split at h
  · cases h
  · rename_i content found
    split at h
    · cases h
    · rename_i before decoded
      obtain ⟨text, valid, read⟩ := Option.bind_eq_some_iff.mp decoded
      obtain ⟨tables, parsed, applies⟩ := applies_ofText? read
      have same : rows tree path = (tables.fields Tables.root).toList := by
        simp only [rows, found, valid, Option.bind_some, parsed]
      obtain ⟨checked, known, rfl⟩ := accept_eq_ok h
      rw [same]
      exact ⟨checked, known, applies.output, by simp only [applies.format], applies.workers⟩
    · cases h

end Config

namespace Options

theorem loaded_of_baseConfig {o : Options} {tree : FileTree} {c : Config} (h : o.baseConfig tree = .ok c) :
    Config.Loaded (o.rows tree) c := by
  simp only [baseConfig] at h
  split at h
  · rename_i noFile
    cases h
    rw [rows, if_pos noFile]
    exact Config.loaded_standard
  · rename_i named
    rw [rows, if_neg named]
    exact Config.loaded_of_load h

/-- The format is not set, or it is set by its exact name. -/
def HasKnownFormat (o : Options) : Prop :=
  o.format = "" ∨ ∃ format : Format, o.format = format.name

theorem hasKnownFormat_of_check {o o' : Options} (h : o.check = (o', .ok ())) : o'.HasKnownFormat := by
  simp only [check] at h
  split at h
  · cases h
  · rename_i name chosen
    have known : name = "" ∨ ∃ format : Format, name = format.name := by
      split at chosen
      · cases chosen
        exact .inl rfl
      · obtain ⟨format, _, rfl⟩ := Option.map_eq_some_iff.mp chosen
        exact .inr ⟨format, rfl⟩
    split at h
    · cases h
    · split at h
      · cases h
      · cases h
        exact known

theorem hasKnownFormat_of_readCommandLine {args : List String} {o : Options}
    (h : readCommandLine args = (o, .ok ())) : o.HasKnownFormat := by
  simp only [readCommandLine] at h
  split at h
  · cases h
  · cases h
  · split at h
    · cases h
    · split at h
      · rename_i checked
        have known := hasKnownFormat_of_check checked
        cases h
        exact known
      · cases h

theorem HasKnownFormat.option?_format {o : Options} (known : o.HasKnownFormat) :
    o.format = "" ∧ Setting.format.option? o = none ∨
      ∃ format : Format, o.format = format.name ∧ o.format ≠ "" ∧
        Setting.format.option? o = some format.name := by
  obtain unset | ⟨format, named⟩ := known
  · exact .inl ⟨unset, if_pos unset⟩
  · have set : o.format ≠ "" := by
      rw [named]
      cases format <;> decide
    exact .inr ⟨format, named, set, (if_neg set).trans (congrArg some named)⟩

/-- Options that are set stand in the place of what the configuration says. -/
theorem override_eq_ok {o : Options} (known : o.HasKnownFormat) (c : Config) :
    o.override c = .ok
      { c with
        output := (Setting.output.option? o).getD c.output
        format := (Setting.format.option? o).getD c.format
        workers := (Setting.workers.option? o).getD c.workers } := by
  have output : (Setting.output.option? o).getD c.output = if o.output = "" then c.output else o.output :=
    apply_ite (Option.getD · c.output) ..
  have workers : (Setting.workers.option? o).getD c.workers = if 0 < o.workers then o.workers else c.workers :=
    apply_ite (Option.getD · c.workers) ..
  rw [output, workers, override]
  obtain ⟨unset, option⟩ | ⟨format, named, set, option⟩ := known.option?_format
  · rw [if_pos unset, option]
    rfl
  · rw [if_neg set, named, Format.parse?_name, option]
    rfl

theorem resolve_eq_ok_iff {o : Options} (known : o.HasKnownFormat) {tree : FileTree} {c : Config} :
    o.resolve tree = .ok c ↔ ∃ base, o.baseConfig tree = .ok base ∧
      { base with
        output := (Setting.output.option? o).getD base.output
        format := (Setting.format.option? o).getD base.format
        workers := (Setting.workers.option? o).getD base.workers } = c := by
  simp only [resolve, bindExcept_eq_ok_iff, override_eq_ok known, Except.ok.injEq]

theorem getD_option? {α : Type} {s : Setting α} {o : Options} {tree : FileTree} {base : α}
    (h : base = (s.given? (o.rows tree)).getD (s.of .standard)) :
    (s.option? o).getD base = s.resolved o tree := by
  rw [h, Setting.resolved, Option.getD_or]

/-- The name of the format is exact, wherever it comes from. -/
theorem HasKnownFormat.exists_name {o : Options} (known : o.HasKnownFormat) {tree : FileTree} {base : Config}
    (loaded : Config.Loaded (o.rows tree) base) :
    ∃ format : Format, (Setting.format.option? o).getD base.format = format.name ∧
      (Setting.format.option? o).getD base.format = (Setting.format.resolved o tree).toLower := by
  rw [Setting.resolved, Option.getD_or]
  obtain ⟨_, option⟩ | ⟨format, _, _, option⟩ := known.option?_format
  · obtain ⟨format, named⟩ := loaded.known
    exact ⟨format, by rw [option, Option.getD_none, named], by rw [option]; exact loaded.format⟩
  · rw [option]
    exact ⟨format, rfl, (Format.toLower_name format).symm⟩

theorem workers_pos {o : Options} {base : Config} (positive : 1 ≤ base.workers) :
    1 ≤ (Setting.workers.option? o).getD base.workers := by
  by_cases set : 0 < o.workers
  · rw [show Setting.workers.option? o = some o.workers from if_pos set]
    exact set
  · rw [show Setting.workers.option? o = none from if_neg set]
    exact positive

/-- The configuration that is resolved from an accepted command line passes all checks, and each setting comes
    from the option, from the file or from the standard configuration, in this order. Without a file there is
    always a configuration. -/
theorem resolve_sound (args : List String) (o : Options) (accepted : readCommandLine args = (o, .ok ()))
    (tree : FileTree) :
    (∀ c, o.resolve tree = .ok c →
      c.validate = .ok () ∧ (Exporter.ofFormatName? c.output c.format).isSome ∧
        c.output = Setting.output.resolved o tree ∧
        c.format = (Setting.format.resolved o tree).toLower ∧
        c.workers = Setting.workers.resolved o tree) ∧
    (o.config = "" → ∃ c, o.resolve tree = .ok c) := by
  have known := hasKnownFormat_of_readCommandLine accepted
  refine ⟨fun c resolved => ?_, fun noFile => ?_⟩
  · obtain ⟨base, found, rfl⟩ := (resolve_eq_ok_iff known).mp resolved
    have loaded := loaded_of_baseConfig found
    obtain ⟨format, named, lower⟩ := known.exists_name loaded
    have checks := Config.validate_eq_ok_iff.mp loaded.checked
    refine ⟨Config.validate_eq_ok_iff.mpr ⟨?_, ?_, checks.2.2⟩, ?_, ?_, lower, ?_⟩
    · rw [named, Format.parse?_name, Option.isSome_some]
    · exact workers_pos checks.2.1
    · rw [Exporter.ofFormatName?, named, Format.ofName?_name]
      rfl
    · exact getD_option? loaded.output
    · exact getD_option? loaded.workers
  · exact ⟨_, (resolve_eq_ok_iff known).mpr ⟨_, if_pos noFile, rfl⟩⟩

theorem resolve_sound_over_file :
    let o : Options := { input := "rom", config := "s", format := "toml", workers := 3 }
    let content := "Workers = 5\noutput = \"a\"\nformat = \"CBOR\"\n".toUTF8.data
    let tree := FileTree.empty.put ["s"] (.file content)
    let c : Config := ⟨"a", "toml", 3, []⟩
    readCommandLine ["-f", "TOML", "-workers=3", "-c", "s", "rom"] = (o, .ok ()) ∧
      o.resolve tree = .ok c ∧ c.validate = .ok () ∧ (Exporter.ofFormatName? c.output c.format).isSome ∧
      c.output = Setting.output.resolved o tree ∧ c.format = (Setting.format.resolved o tree).toLower ∧
      c.workers = Setting.workers.resolved o tree := by
  intro o content tree c
  have accepted : readCommandLine ["-f", "TOML", "-workers=3", "-c", "s", "rom"] = (o, .ok ()) := by
    with_unfolding_all rfl
  have named : Path.Plain "s" := by decide
  have read : tree.read "s" = .ok content :=
    FileTree.read_put named ⟨named.isClean, by simp, by decide, by decide⟩ content
  have text : (String.fromUTF8? ⟨content⟩).bind Config.ofText? = some (⟨"a", "CBOR", 5, []⟩, []) := by
    decide +kernel
  have loaded : Config.load tree "s" = .ok ⟨"a", "cbor", 5, []⟩ := by
    rw [Config.load, read]
    simp only [text]
    with_unfolding_all rfl
  have found : o.baseConfig tree = .ok ⟨"a", "cbor", 5, []⟩ := by
    rw [baseConfig, if_neg (by decide), loaded]
  have resolved : o.resolve tree = .ok c :=
    (resolve_eq_ok_iff (hasKnownFormat_of_readCommandLine accepted)).mpr ⟨_, found, rfl⟩
  exact ⟨accepted, resolved, (resolve_sound _ o accepted tree).1 c resolved⟩

end Options

end EventScript
