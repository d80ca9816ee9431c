import EventScript.Proofs.ScanTiling

/-! # Scanning what was written

Scripts that are written one behind the other are found again by a scan, each at its own place. The one
thing that can go wrong is that a field script also reads as a script of the world-map dialect, which is
tried first.
-/

namespace EventScript

/-- The entries of scripts that are written one behind the other from an offset. -/
def Script.placedFrom : Int → List Script → List Entry
  | _, [] => []
  | start, s :: scripts =>
      let stop := start + s.encode.length
      ⟨stop, start, stop, s.events⟩ :: placedFrom stop scripts

theorem Script.placedFrom_dialect {scripts : List Script} {start : Int} {e : Entry}
    (h : e ∈ placedFrom start scripts) : ∃ s ∈ scripts, s.dialect = e.dialect := by
  induction scripts generalizing start with
  | nil => simp [placedFrom] at h
  | cons s scripts ih =>
      rcases List.mem_cons.mp h with rfl | later
      · exact ⟨s, List.mem_cons_self, rfl⟩
      · obtain ⟨t, member, same⟩ := ih later
        exact ⟨t, List.mem_cons_of_mem _ member, same⟩

/-- A step of a scan finds a script that is written at the offset, unless another dialect comes first. -/
theorem scriptAt_of_spans {data : Bytes} {s : Script} {start stop : Int} (valid : s.WellFormed)
    (spans : Spans data start s.encode stop)
    (unlike : s.dialect = .field → ¬ Dialect.worldChar.Fits data start) :
    scriptAt data start = .ok ⟨start, start, stop, s.events⟩ := by
  have read := (Dialect.reads_script s.dialect _ _ _).mpr ⟨_, ⟨s.stop, rfl, valid, rfl⟩, spans⟩
  exact scriptAt_eq_ok_iff.mpr ⟨s.events, stop, read, unlike, rfl⟩

theorem scans_of_spans {data : Bytes} {scripts : List Script} {start : Int}
    (valid : ∀ s ∈ scripts, s.WellFormed)
    (spans : Spans data start (scripts.flatMap Script.encode) data.size)
    (unlike : ∀ e ∈ Script.placedFrom start scripts, e.dialect = .field →
      ¬ Dialect.worldChar.Fits data e.start) :
    Scans data start ⟨Script.placedFrom start scripts, 0, none⟩ := by
  induction scripts generalizing start with
  | nil => exact .finished (Int.le_of_eq spans)
  | cons s scripts ih =>
      obtain ⟨here, valid⟩ := List.forall_mem_cons.mp valid
      obtain ⟨unlikeHere, unlike⟩ := List.forall_mem_cons.mp unlike
      obtain ⟨stop, front, back⟩ := spans_append.mp (List.flatMap_cons ▸ spans)
      have read := scriptAt_of_spans here front unlikeHere
      have moved := scriptAt_eq_ok read
      cases front.stop_eq
      exact .found (by omega) read (ih valid back unlike)

/-- A stream of scripts is scanned back to these scripts, if no field script in it reads as a script of
    the world-map dialect; in particular, if there is no field script. -/
theorem scanFrom_flatMap_encode (scripts : List Script) (valid : ∀ s ∈ scripts, s.WellFormed) :
    let stream := (scripts.flatMap Script.encode).toArray
    let entries := Script.placedFrom 0 scripts
    ((∀ e ∈ entries, e.dialect = .field → ¬ Dialect.worldChar.Fits stream e.start) →
      scanFrom stream 0 = ⟨entries, 0, none⟩) ∧
    ((∀ s ∈ scripts, s.dialect = .worldChar) → scanFrom stream 0 = ⟨entries, 0, none⟩) := by
  intro stream entries
  have whole : Spans stream 0 (scripts.flatMap Script.encode) stream.size :=
    spans_iff_prefix.mpr ⟨by simp [stream], by simp [stream]⟩
  have scanned (unlike : ∀ e ∈ entries, e.dialect = .field → ¬ Dialect.worldChar.Fits stream e.start) :
      scanFrom stream 0 = ⟨entries, 0, none⟩ :=
    (scans_scanFrom stream 0).unique (scans_of_spans valid whole unlike)
  refine ⟨scanned, fun worldOnly => scanned fun e member isField => ?_⟩
  obtain ⟨s, listed, same⟩ := Script.placedFrom_dialect member
  simp [← same, worldOnly s listed] at isField

/-- A field script between two world-map scripts. Its events also read as graphical actions; only its stop
    byte tells the dialects apart. -/
theorem scanFrom_dialog_between_moves :
    let scripts : List Script :=
      [⟨.worldChar [.move 2 5, .showCharacter], 0xff⟩, ⟨.field [.dialog 0x0123 true, .dialogWait], 0xfe⟩,
        ⟨.worldChar [], 0xfd⟩]
    let stream : Bytes := #[0x96, 0xd0, 0xff, 0x4b, 0x23, 0x01, 0x49, 0xfe, 0xfd]
    (∀ s ∈ scripts, s.WellFormed) ∧ ¬ Dialect.worldChar.Fits stream 3 ∧
      scanFrom stream 0 =
        ⟨[⟨3, 0, 3, .worldChar [.move 2 5, .showCharacter]⟩,
          ⟨8, 3, 8, .field [.dialog 0x0123 true, .dialogWait]⟩, ⟨9, 8, 9, .worldChar []⟩], 0, none⟩ := by
  intro scripts stream
  have valid : ∀ s ∈ scripts, s.WellFormed := by decide
  exact ⟨valid, by decide +kernel, (scanFrom_flatMap_encode scripts valid).1 (by decide +kernel)⟩

end EventScript
