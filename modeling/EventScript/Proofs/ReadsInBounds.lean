import EventScript.Proofs.RunStages

/-! # Runs ask for nothing outside of the image

Bytes that a stream does not have can be asked for, and what is said then differs from what is said about a
stream that ended too early. No image, configuration or listing leads a run there: whatever an image says
about offsets is compared with its size before it is followed.
-/

namespace EventScript

/-- A dialect asked for bytes outside of the stream. -/
def Mismatch.IsOutOfBounds (m : Mismatch) : Prop :=
  m.worldChar = .outOfBounds ∨ m.field = .outOfBounds

/-- Bytes outside of the stream, or an offset that no event has, were asked for. -/
def ListingError.IsOutOfBounds : ListingError → Prop
  | .outOfBounds => True
  | .decode _ cause => cause = .outOfBounds
  | .script _ cause => cause.IsOutOfBounds
  | .write .. => False

/-- Something outside of the image was asked for. -/
def RunError.IsOutOfBounds : RunError → Prop
  | .locations cause => cause.IsOutOfBounds
  | .listing cause => cause.IsOutOfBounds
  | .outOfBounds _ => True
  | _ => False

/-- At this offset no dialect asks for bytes outside of the stream, also one that is tried in vain. -/
def ReadsInside (data : Bytes) (offset : Int) : Prop :=
  ∀ (dialect : Dialect) (e : DecodeError) (stop : Int),
    dialect.script data offset = .error e stop → e ≠ .outOfBounds

section Reading

variable {data : Bytes} {offset : Int} {m : Mismatch}

theorem readsInside_of_bounds (low : 0 ≤ offset) (high : offset ≤ data.size) : ReadsInside data offset := by
  intro dialect e stop failed
  cases dialect.steady_script.givesUp low high failed with
  | truncated => nofun
  | unrecognized => nofun

theorem Entry.FoundIn.readsInside {e : Entry} (h : e.FoundIn data) : ReadsInside data e.start :=
  readsInside_of_bounds h.nonneg (Int.le_trans (Int.le_of_lt h.nonempty) h.inside)

theorem not_isOutOfBounds_of_scriptAt (failed : scriptAt data offset = .error m) : ¬ m.IsOutOfBounds := by
  by_cases outside : offset < 0 ∨ data.size < offset
  · rw [scriptAt, if_pos outside] at failed
    cases failed
    rintro (same | same) <;> cases same
  · have inside : ReadsInside data offset := readsInside_of_bounds (by omega) (by omega)
    obtain ⟨_, ⟨stop, worldChar⟩, ⟨stop', field⟩⟩ := scriptAt_eq_error (by omega) (by omega) failed
    exact not_or.mpr ⟨inside _ _ _ worldChar, inside _ _ _ field⟩

theorem Scans.scriptAt_mismatch {r : ScanResult} (run : Scans data offset r) (stuck : r.mismatch = some m) :
    ∃ offset, scriptAt data offset = .error m := by
  induction run with
  | finished => cases stuck
  | @stuck offset _ _ failed =>
      cases stuck
      exact ⟨offset, failed⟩
  | found _ _ _ ih => exact ih stuck

end Reading

theorem ListingError.IsWrite.not_isOutOfBounds {e : ListingError} (h : e.IsWrite) : ¬ e.IsOutOfBounds := by
  induction e with
  | write => exact id
  | script start cause ih => exact ih h
  | decode | outOfBounds => cases h

theorem RunError.IsWriting.not_isOutOfBounds {e : RunError} (h : e.IsWriting) : ¬ e.IsOutOfBounds := by
  cases e with
  | listing cause => exact ListingError.IsWrite.not_isOutOfBounds h
  | exportLocations | exportScripts | exportRegion | createListing | closeListing => exact id
  | _ => cases h

theorem Obstacle.not_isOutOfBounds {context : Context} {rom : Bytes} {c : Config} {e : RunError}
    (h : Obstacle context rom c e) : ¬ e.IsOutOfBounds := by
  cases h with
  | locations unread =>
      by_cases all : Location.HasAll rom
      · cases (Location.readAll_of_hasAll all).symm.trans unread
      · obtain ⟨cause, failed, reason⟩ := Location.readAll_of_not_hasAll all
        cases failed.symm.trans unread
        exact reason
  | config | entryPoints | region | outside | exporter => exact id

/-- Whatever the image, the options and the configuration, a run does not end because something outside of
    the image was asked for, and the scans that it makes do not ask for it either, be it at a script that
    they find or where they give up. -/
theorem Run.onImageIn_stays_in_bounds (context : Context) (rom : Bytes) (o : Options) (c : Config) (w : World) :
    (∀ e w', onImageIn context rom o c w = .error e w' → ¬ e.IsOutOfBounds) ∧
    (∀ offsets, (∀ e ∈ (EntryPointScan.ofOffsets rom offsets).entries, ReadsInside rom e.start) ∧
      ∀ f ∈ (EntryPointScan.ofOffsets rom offsets).failures, ¬ f.mismatch.IsOutOfBounds) ∧
    ∀ (start : Int) (stop : Nat),
      (∀ e ∈ (scanFrom (rom.extract 0 stop) start).entries, ReadsInside (rom.extract 0 stop) e.start) ∧
      ∀ m, (scanFrom (rom.extract 0 stop) start).mismatch = some m → ¬ m.IsOutOfBounds := by
  refine ⟨fun e w' failed => ?_, fun offsets => ⟨fun e listed => ?_, fun f listed => ?_⟩,
    fun start stop => ⟨fun e listed => ?_, fun m stuck => ?_⟩⟩
  · rcases (ends_onImageIn context rom o c w.files).of_eq_error failed with ⟨obstacle, _⟩ | ⟨_, writing⟩
    · exact obstacle.not_isOutOfBounds
    · exact writing.not_isOutOfBounds
  · exact (foundIn_of_mem_entryPoints listed).readsInside
  · exact not_isOutOfBounds_of_scriptAt ((EntryPointScan.holds_ofOffsets rom offsets).failure listed).2
  · exact ((scans_scanFrom _ start).foundIn e listed).readsInside
  · obtain ⟨offset, failed⟩ := (scans_scanFrom _ start).scriptAt_mismatch stuck
    exact not_isOutOfBounds_of_scriptAt failed

end EventScript
