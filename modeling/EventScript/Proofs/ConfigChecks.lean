import EventScript.Config

/-! # What checked configurations satisfy

A configuration passes its checks exactly if its format is known, there is a worker, and all its regions have
a name of their own and a range of offsets.
-/

namespace EventScript

section Checks

variable {ε α β : Type} {e : ε} {a : α}

theorem bindExcept_eq_ok_iff {x : Except ε β} {next : β → Except ε α} :
    x >>= next = .ok a ↔ ∃ b, x = .ok b ∧ next b = .ok a := by
  cases x with
  | error e => exact ⟨nofun, nofun⟩
  | ok b => exact ⟨fun h => ⟨b, rfl, h⟩, fun ⟨_, same, h⟩ => by cases same; exact h⟩

theorem refuse_eq_ok_iff {p : Prop} [Decidable p] {next : β → Except ε α} {rest : Except ε α} :
    (if p then throw e >>= next else rest) = .ok a ↔ ¬ p ∧ rest = .ok a := by
  split <;> rename_i h
  · exact ⟨nofun, fun passed => absurd h passed.1⟩
  · exact ⟨fun passed => ⟨h, passed⟩, And.right⟩

end Checks

namespace Region

variable {region : Region}

/-- The offsets of the region are in order, and none is in front of the image. -/
structure IsRange (region : Region) : Prop where
  low : Address.romBase ≤ region.start
  ordered : region.start < region.stop

theorem fileRange_eq_ok_iff {range : Int × Int} : region.fileRange = .ok range ↔
    Address.romBase ≤ region.start ∧ Address.romBase ≤ region.stop ∧
      range = (region.start - Address.romBase, region.stop - Address.romBase) := by
  simp only [Region.fileRange, Address.toFile]
  split <;> rename_i start
  · exact ⟨nofun, fun h => by omega⟩
  · split <;> rename_i stop
    · exact ⟨nofun, fun h => by omega⟩
    · exact ⟨fun h => ⟨by omega, by omega, (Except.ok.inj h).symm⟩, fun h => congrArg Except.ok h.2.2.symm⟩

theorem IsRange.fileRange (h : region.IsRange) :
    region.fileRange = .ok (region.start - Address.romBase, region.stop - Address.romBase) :=
  fileRange_eq_ok_iff.mpr ⟨h.low, Int.le_of_lt (Int.lt_of_le_of_lt h.low h.ordered), rfl⟩

theorem hasValidName_iff : region.hasValidName ↔
    ('/' ∉ region.name.toList ∧ '\\' ∉ region.name.toList) ∧ region.name ≠ "." ∧ region.name ≠ ".." := by
  have chars : region.name.all (fun c => c ≠ '/' ∧ c ≠ '\\') ↔
      '/' ∉ region.name.toList ∧ '\\' ∉ region.name.toList := by
    rw [String.all_prop_eq]
    simp only [List.all_eq_true, decide_eq_true_eq]
    grind
  simp only [hasValidName, decide_eq_true_eq, chars]

theorem check_eq_ok_iff {taken : List String} : region.check taken = .ok () ↔
    region.name ≠ "" ∧ region.hasValidName ∧ region.name ∉ taken ∧ region.IsRange := by
  simp only [check, refuse_eq_ok_iff, bindExcept_eq_ok_iff, fileRange_eq_ok_iff, Decidable.not_not]
  refine and_congr_right fun _ => and_congr_right fun _ => and_congr_right fun _ => ?_
  constructor
  · rintro ⟨_, ⟨low, _, _⟩, h⟩
    split at h <;> rename_i ordered
    · cases h
    · exact ⟨low, by omega⟩
  · rintro ⟨low, ordered⟩
    exact ⟨_, ⟨low, by omega, rfl⟩, if_neg (by omega)⟩

theorem checkAll_eq_ok_iff {taken : List String} {regions : List Region} :
    checkAll taken regions = .ok () ↔ (∀ r ∈ regions, r.name ≠ "" ∧ r.hasValidName ∧ r.IsRange) ∧
      (∀ r ∈ regions, r.name ∉ taken) ∧ (regions.map (·.name)).Nodup := by
  induction regions generalizing taken with
  | nil => simp [checkAll]
  | cons r regions ih =>
      have step : checkAll taken (r :: regions) = .ok () ↔
          r.check taken = .ok () ∧ checkAll (r.name :: taken) regions = .ok () :=
        bindExcept_eq_ok_iff.trans ⟨fun ⟨(), here, rest⟩ => ⟨here, rest⟩, fun ⟨here, rest⟩ => ⟨(), here, rest⟩⟩
      rw [step, check_eq_ok_iff, ih, List.map_cons, List.nodup_cons, List.forall_mem_cons, List.forall_mem_cons,
        List.mem_map]
      grind

end Region

theorem Format.ofName?_name (format : Format) : ofName? format.name = some format := by
  cases format <;> rfl

theorem Format.name_of_ofName? {name : String} {format : Format} (h : ofName? name = some format) :
    format.name = name := by
  simpa using List.find?_some h

theorem toList_toLower (text : String) : text.toLower.toList = text.toList.map Char.toLower := by
  have mapped : text.toLower = text.map Char.toLower := rfl
  rw [mapped, String.toList_map]

theorem Format.toLower_name (format : Format) : format.name.toLower = format.name := by
  rw [← String.toList_inj, toList_toLower]
  cases format <;> decide

theorem Format.parse?_name (format : Format) : parse? format.name = some format := by
  rw [parse?, toLower_name, ofName?_name]

theorem Config.validate_eq_ok_iff {c : Config} : c.validate = .ok () ↔
    (Format.parse? c.format).isSome ∧ 1 ≤ c.workers ∧ Region.checkAll [] c.regions = .ok () := by
  simp only [Config.validate, refuse_eq_ok_iff, Int.not_lt, Option.isNone_iff_eq_none, Option.isSome_iff_ne_none]

theorem Config.validate_standard {regions : List Region} (checked : Region.checkAll [] regions = .ok ()) :
    { Config.standard with regions : Config }.validate = .ok () := by
  have workers : 1 ≤ Config.standard.workers := by decide
  exact validate_eq_ok_iff.mpr ⟨by simp [Config.standard, Format.parse?_name], workers, checked⟩

theorem Config.isRange_of_validate {c : Config} (h : c.validate = .ok ()) : ∀ r ∈ c.regions, r.IsRange :=
  fun r listed => ((Region.checkAll_eq_ok_iff.mp (validate_eq_ok_iff.mp h).2.2).1 r listed).2.2

end EventScript
