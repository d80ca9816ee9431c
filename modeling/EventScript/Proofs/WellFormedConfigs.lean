import EventScript.Proofs.ExportedFiles

/-! # Well-formed configurations

The checks of a configuration are all there is to its form: what passes them is well formed, and each of its
regions has a range of offsets in an image. They take the name of a format in any letters. An exporter takes it
in small letters only, so that a run can still fail on a configuration that passed.
-/

namespace EventScript

/-! ## What passes the checks -/

/-- The name of the region is that of a single directory, and its range of addresses begins in an image and
    is not empty. -/
structure Region.IsWellFormed (r : Region) : Prop where
  named : r.name ≠ ""
  single : '/' ∉ r.name.toList ∧ '\\' ∉ r.name.toList
  proper : r.name ≠ "." ∧ r.name ≠ ".."
  low : 0xc00000 ≤ r.start
  ordered : r.start < r.stop

structure Config.IsWellFormed (c : Config) : Prop where
  format : c.format.toLower ∈ ["yaml", "toml", "cbor"]
  workers : 1 ≤ c.workers
  regions : ∀ r ∈ c.regions, r.IsWellFormed
  distinct : c.regions.Pairwise fun r other => r.name ≠ other.name

theorem Region.isWellFormed_iff {r : Region} : r.IsWellFormed ↔ r.name ≠ "" ∧ r.hasValidName ∧ r.IsRange := by
  rw [hasValidName_iff]
  constructor
  · rintro ⟨named, single, proper, low, ordered⟩
    exact ⟨named, ⟨single, proper⟩, low, ordered⟩
  · rintro ⟨named, ⟨single, proper⟩, low, ordered⟩
    exact ⟨named, single, proper, low, ordered⟩

theorem Format.isSome_ofName?_iff {name : String} : (ofName? name).isSome ↔ name ∈ ["yaml", "toml", "cbor"] := by
  have names : ["yaml", "toml", "cbor"] = all.map Format.name := rfl
  rw [names, List.mem_map, ofName?, List.find?_isSome]
  simp only [beq_iff_eq]

namespace Config

variable {c : Config}

theorem isWellFormed_iff : c.IsWellFormed ↔
    (Format.parse? c.format).isSome ∧ 1 ≤ c.workers ∧ Region.checkAll [] c.regions = .ok () := by
  rw [Format.parse?, Format.isSome_ofName?_iff, Region.checkAll_eq_ok_iff, List.nodup_iff_pairwise_ne,
    List.pairwise_map]
  simp only [← Region.isWellFormed_iff]
  constructor
  · rintro ⟨format, workers, regions, distinct⟩
    exact ⟨format, workers, regions, by simp, distinct⟩
  · rintro ⟨format, workers, regions, _, distinct⟩
    exact ⟨format, workers, regions, distinct⟩

/-- A configuration passes its checks exactly if it is well formed. Each of its regions then has offsets in an
    image, as many as it has addresses. -/
theorem validate_iff_isWellFormed (c : Config) :
    (c.validate = .ok () ↔ c.IsWellFormed) ∧
    (c.validate = .ok () → ∀ r ∈ c.regions, ∃ start stop, r.fileRange = .ok (start, stop) ∧
      0 ≤ start ∧ start < stop ∧ stop - start = r.stop - r.start) := by
  refine ⟨validate_eq_ok_iff.trans isWellFormed_iff.symm, ?_⟩
  intro valid r listed
  have range := isRange_of_validate valid r listed
  have := range.low
  have := range.ordered
  exact ⟨_, _, range.fileRange, by omega, by omega, by omega⟩

theorem validate_iff_isWellFormed_toml :
    let c : Config := ⟨"", "Toml", 1, [⟨"..a", 0xc00000, 0xc00001⟩, ⟨"...", 0xc00000, 0xd00000⟩]⟩
    c.validate = .ok () ∧ ∃ start stop, (⟨"...", 0xc00000, 0xd00000⟩ : Region).fileRange = .ok (start, stop) ∧
      0 ≤ start ∧ start < stop ∧ stop - start = 0x100000 := by
  intro c
  have lower : c.format.toLower = "toml" := by
    rw [← String.toList_inj, toList_toLower]
    decide
  have formed : c.IsWellFormed := by
    refine ⟨by simp [lower], by decide, ?_, by decide⟩
    intro r listed
    simp only [c, List.mem_cons, List.not_mem_nil, or_false] at listed
    rcases listed with rfl | rfl <;> exact ⟨by decide, by decide, by decide, by decide, by decide⟩
  obtain ⟨passes, ranges⟩ := validate_iff_isWellFormed c
  have valid := passes.mpr formed
  exact ⟨valid, ranges valid _ (by simp [c])⟩

end Config

/-! ## What an exporter takes -/

theorem Format.isSome_ofName?_iff_toLower {name : String} (known : (parse? name).isSome) :
    (ofName? name).isSome ↔ name.toLower = name := by
  constructor
  · intro taken
    obtain ⟨format, found⟩ := Option.isSome_iff_exists.mp taken
    rw [← name_of_ofName? found, toLower_name]
  · intro lower
    rwa [parse?, lower] at known

/-- The name of the format is in the way of nothing but the exporter. -/
theorem Obstacle.rename {context : Context} {rom : Bytes} {c : Config} {e : RunError} (format : String)
    (valid : c.validate = .ok ()) (obstacle : Obstacle context rom c e) :
    e = .exporter c.format ∨ Obstacle context rom { c with format } e := by
  cases obstacle with
  | config invalid => cases valid.symm.trans invalid
  | locations unread => exact .inr (.locations unread)
  | entryPoints read referred cancelled => exact .inr (.entryPoints read referred cancelled)
  | region listed cancelled => exact .inr (.region listed cancelled)
  | outside listed outside => exact .inr (.outside listed outside)
  | exporter => exact .inl rfl

namespace Run

variable {context : Context} {rom : Bytes} {o : Options} {c : Config} {w : World}

theorem onImageIn_ne_exporter (known : (Format.ofName? c.format).isSome) (name : String) (w' : World) :
    onImageIn context rom o c w ≠ .error (.exporter name) w' := by
  intro failed
  rcases (ends_onImageIn context rom o c w.files).of_eq_error failed with ⟨obstacle, _⟩ | ⟨_, writing⟩
  · cases obstacle with
    | exporter unknown => simp [unknown] at known
  · cases writing

theorem onImageIn_of_unknown (unknown : Format.ofName? c.format = none) :
    ∃ e w', onImageIn context rom o c w = .error e w' ∧ w'.files = w.files ∧ Obstacle context rom c e := by
  have obstacle : Obstacle context rom c (.exporter c.format) := .exporter unknown
  rcases ends_onImageIn context rom o c w.files w rfl with
    ⟨s, w', _, finishes⟩ | ⟨e, w', failed, ⟨stopped, same⟩ | ⟨free, _⟩⟩
  · exact absurd obstacle (finishes.free _)
  · exact ⟨e, w', failed, same, stopped⟩
  · exact absurd obstacle (free _)

/-- There is an exporter for a configuration that passed its checks exactly if the name of its format is in small
    letters. Without one every run fails and leaves the files alone, and for no other reason if a run with the
    name in small letters succeeds. -/
theorem exporter_iff_toLower (c : Config) (valid : c.validate = .ok ()) :
    ((Exporter.ofFormatName? c.output c.format).isSome ↔ c.format.toLower = c.format) ∧
    ∀ context rom o w,
      (c.format.toLower = c.format → ∀ name w', onImageIn context rom o c w ≠ .error (.exporter name) w') ∧
      (c.format.toLower ≠ c.format → ∃ e w', onImageIn context rom o c w = .error e w' ∧ w'.files = w.files ∧
        ∀ s w'', onImageIn context rom o { c with format := c.format.toLower } w = .ok s w'' →
          e = .exporter c.format) := by
  have taken := Format.isSome_ofName?_iff_toLower (Config.validate_eq_ok_iff.mp valid).1
  refine ⟨by rw [Exporter.ofFormatName?, Option.isSome_map, taken], fun context rom o w => ⟨?_, ?_⟩⟩
  · intro lower
    exact onImageIn_ne_exporter (taken.mpr lower)
  · intro upper
    have unknown : Format.ofName? c.format = none := by
      rw [← Option.not_isSome_iff_eq_none, taken]
      exact upper
    obtain ⟨e, w', failed, same, obstacle⟩ := @onImageIn_of_unknown context rom o c w unknown
    refine ⟨e, w', failed, same, fun s w'' succeeds => ?_⟩
    have finishes := (ends_onImageIn context rom o _ w.files).of_eq_ok succeeds
    exact (obstacle.rename c.format.toLower valid).resolve_right (finishes.free e)

theorem exporter_iff_toLower_standard :
    Config.standard.validate = .ok () ∧
      (Exporter.ofFormatName? Config.standard.output Config.standard.format).isSome ∧
      ∀ context rom o w name w', onImageIn context rom o .standard w ≠ .error (.exporter name) w' := by
  have valid : Config.standard.validate = .ok () := Config.validate_standard rfl
  obtain ⟨taken, runs⟩ := exporter_iff_toLower .standard valid
  have lower : Config.standard.format.toLower = Config.standard.format := Format.toLower_name .yaml
  exact ⟨valid, taken.mpr lower, fun context rom o w => (runs context rom o w).1 lower⟩

/-- A configuration with the name of its format in capital letters passes, and yet it has no exporter. -/
theorem exporter_refuses_capitals :
    let c := { Config.standard with format := "YAML" }
    c.validate = .ok () ∧ Exporter.ofFormatName? c.output c.format = none ∧
      ∃ w', onImage false (blank 0x2dc47f) {} c ⟨.empty, #[]⟩ = .error (.exporter "YAML") w' := by
  intro c
  have lower : "YAML".toLower = Format.yaml.name := by
    rw [← String.toList_inj, toList_toLower]
    decide
  have valid : c.validate = .ok () := by
    refine Config.validate_eq_ok_iff.mpr ⟨?_, by decide, rfl⟩
    rw [Format.parse?, lower, Format.ofName?_name, Option.isSome_some]
  have unknown : Format.ofName? "YAML" = none := by decide
  refine ⟨valid, by rw [Exporter.ofFormatName?, unknown, Option.map_none], ?_⟩
  obtain ⟨e, w', failed, _, obstacle⟩ :=
    @onImageIn_of_unknown (.always false) (blank 0x2dc47f) {} c ⟨.empty, #[]⟩ unknown
  refine ⟨w', failed.trans (congrArg (EStateM.Result.error · w') ?_)⟩
  cases obstacle with
  | exporter => rfl
  | config invalid => cases valid.symm.trans invalid
  | locations unread =>
      have read := Location.readAll_of_hasAll (Blank.hasAll (Nat.le_refl 0x2dc47f))
      cases read.symm.trans unread
  | entryPoints _ _ cancelled => cases cancelled
  | region _ cancelled => cases cancelled
  | outside listed => cases listed

end Run

end EventScript
