import EventScript.Proofs.ExportedFiles

/-! # Cancelled runs

A run finds out that it is cancelled when it is about to read a script at an entry point, and before it scans a
region. An image that refers to no script, in a run without regions, gives it no occasion: such a run goes
on to write all its files.
-/

namespace EventScript.Run

/-- The image refers to no script, and there is no region to scan. -/
def NothingToDecode (rom : Bytes) (c : Config) : Prop :=
  ∃ locations, Location.readAll rom = .ok locations ∧ Location.entryPoints locations = [] ∧ c.regions = []

section Cancelled

variable {rom : Bytes} {c : Config}

/-- A cancelled run meets an obstacle where there is something to decode. -/
theorem nothingToDecode_of_free (free : ∀ e, ¬ Obstacle (.always true) rom c e) : NothingToDecode rom c := by
  cases read : Location.readAll rom with
  | error cause => exact absurd (.locations read) (free _)
  | ok locations =>
      refine ⟨locations, read, ?_, ?_⟩
      · apply Classical.byContradiction
        intro referred
        exact free _ (.entryPoints read referred rfl)
      · cases regions : c.regions with
        | nil => rfl
        | cons first rest =>
            have listed : 0 < c.regions.length := by
              rw [regions]
              exact Nat.zero_lt_succ _
            exact absurd (.region listed rfl) (free _)

/-- Without anything to decode a run does not look whether it is cancelled. -/
theorem NothingToDecode.onImage_eq (h : NothingToDecode rom c) (o : Options) :
    onImage true rom o c = onImage false rom o c := by
  obtain ⟨locations, read, unreferred, alone⟩ := h
  have scan : scanEntryPoints true rom [] = scanEntryPoints false rom [] :=
    scanEntryPoints_of_not fun h => h.2 rfl
  have next {β : Type} (rest : List Location → Run β) :
      ofExcept .locations (Location.readAll rom) >>= rest = rest locations := by
    rw [read]
    rfl
  simp only [onImage, onImageIn, next, unreferred, alone, Context.always, scan, scanRegions]

end Cancelled

/-- A cancelled run fails and leaves the files alone if there is something to decode, and else it does the same
    as a run that is not cancelled. -/
theorem onImage_cancelled (rom : Bytes) (o : Options) (c : Config) (w : World) :
    (¬ NothingToDecode rom c → ∃ e w', onImage true rom o c w = .error e w' ∧ w'.files = w.files) ∧
    (NothingToDecode rom c → onImage true rom o c w = onImage false rom o c w) := by
  constructor
  · intro something
    rcases ends_onImageIn (.always true) rom o c w.files w rfl with
      ⟨s, w', _, finishes⟩ | ⟨e, w', failed, ⟨_, same⟩ | ⟨free, _⟩⟩
    · exact absurd (nothingToDecode_of_free finishes.free) something
    · exact ⟨e, w', failed, same⟩
    · exact absurd (nothingToDecode_of_free free) something
  · intro nothing
    rw [nothing.onImage_eq]

/-- A run that is cancelled from the start writes all its files if the image is blank. -/
theorem onImage_cancelled_blank :
    ∃ s w', onImage true (blank 0x2dc47f) {} Config.standard ⟨.empty, #[]⟩ = .ok s w' ∧
      s.locations.length = 0x19f ∧
      ∃ content, w'.files.get? ["out", "field", "000.yaml"] = some (.file content) := by
  have read := Location.readAll_of_hasAll (Blank.hasAll (Nat.le_refl 0x2dc47f))
  have nothing : NothingToDecode (blank 0x2dc47f) Config.standard :=
    ⟨_, read, Blank.entryPoints_eq (Nat.le_refl 0x2dc47f) read, rfl⟩
  have room := @hasRoom_exportDirs (.new "out" .yaml) [] (by decide)
  obtain ⟨s, w', done⟩ := @exists_onImage_blank 0x2dc47f [] {} ⟨.empty, #[]⟩ (by decide) (by decide) rfl
    (List.forall_mem_nil _) room (FileTree.isTidy_empty (by decide)) rfl
  have same := congrFun (nothing.onImage_eq {}) ⟨.empty, #[]⟩
  have finishes := (ends_onImageIn (.always false) (blank 0x2dc47f) {} Config.standard .empty).of_eq_ok done
  exact ⟨s, w', same.trans done, finishes.stores_first (.inl rfl) (by decide) rfl⟩

end EventScript.Run
