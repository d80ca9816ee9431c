import EventScript.Proofs.EntryPointScans
import EventScript.Proofs.EventOffsets

/-! # Entries of either kind of scan

Scans in sequence and scans of entry points keep their entries under different offsets, but both find
scripts that stand in the stream. Such a script is found again wherever bytes are put behind the stream, event
by event, and its offsets lead from its start to its stop byte.
-/

namespace EventScript

/-- The entry was found in the stream, by a scan in sequence or at an entry point. -/
inductive Entry.ScannedIn (data : Bytes) (e : Entry) : Prop where
  | inSequence {start : Int} (listed : e ∈ (scanFrom data start).entries)
  | atEntryPoint {cancelled : Bool} {offsets : List Int} {scan : EntryPointScan}
      (done : EntryPointScan.ofOffsets? cancelled data offsets = some scan) (listed : e ∈ scan.entries)

theorem Entry.ScannedIn.scriptAt_start {data : Bytes} {e : Entry} (h : e.ScannedIn data) :
    scriptAt data e.start = .ok { e with offset := e.start } := by
  cases h with
  | inSequence listed => exact ((scans_scanFrom data _).foundIn e listed).scriptAt_start
  | @atEntryPoint _ offsets _ done listed =>
      simp only [EntryPointScan.ofOffsets?, Option.ite_none_left_eq_some, Option.some.injEq] at done
      obtain ⟨_, rfl⟩ := done
      have found := ((EntryPointScan.holds_ofOffsets data offsets).entry listed).2
      obtain ⟨_, _, _, _, same⟩ := scriptAt_eq_ok_iff.mp found
      rw [found, same]

/-- The script of the entry stands in the stream. -/
theorem Entry.ScannedIn.read {data : Bytes} {e : Entry} (h : e.ScannedIn data) :
    e.dialect.script data e.start = .ok e.events e.stop := by
  obtain ⟨events, next, read, _, same⟩ := scriptAt_eq_ok_iff.mp h.scriptAt_start
  cases same
  exact read

namespace ReadAt

variable {α : Type} {step : Decode α} {events : List α} {offsets : List Int}

theorem length_eq (h : ReadAt step events offsets) : offsets.length = events.length + 1 := by
  induction h with
  | done => rfl
  | event _ _ ih => exact congrArg (· + 1) ih

/-- Where each event takes up some bytes, the offsets rise. -/
theorem rising (h : ReadAt step events offsets)
    (advances : ∀ offset a next, step offset = .ok a next → offset < next) :
    offsets.Pairwise (· < ·) := by
  induction h with
  | done => exact List.pairwise_singleton _ _
  | @event _ _ offset next _ read _ ih =>
      have moved := advances _ _ _ read
      refine List.pairwise_cons.mpr ⟨fun later member => ?_, ih⟩
      rcases List.mem_cons.mp member with rfl | further
      · exact moved
      · exact Int.lt_trans moved (List.rel_of_pairwise_cons ih further)

theorem getElem? (h : ReadAt step events offsets) {i : Nat} {a : α} (listed : events[i]? = some a) :
    ∃ offset next, offsets[i]? = some offset ∧ offsets[i + 1]? = some next ∧ step offset = .ok a next := by
  induction h generalizing i with
  | done => cases listed
  | event read _ ih =>
      cases i with
      | zero =>
          cases listed
          exact ⟨_, _, rfl, rfl, read⟩
      | succ i => exact ih listed

end ReadAt

/-- The events of an entry are found again when bytes are put behind the stream. Their offsets rise from the
    start of the entry to its stop byte, and the event at each of them ends at the next one. -/
theorem eventOffsets_of_scanned (data ext : Bytes) (e : Entry) (scanned : e.ScannedIn data) :
    ∃ offsets, Listing.eventOffsets (data ++ ext) e = .ok offsets ∧ offsets.length = e.size + 1 ∧
      offsets.Pairwise (· < ·) ∧ offsets.head? = some e.start ∧
      offsets.getLast? = some (e.stop - 1) ∧
      ∀ i event, e.events.toList[i]? = some event → ∃ offset next, offsets[i]? = some offset ∧
        offsets[i + 1]? = some next ∧ e.dialect.decode (data ++ ext) offset = .ok event next := by
  have low := (Dialect.script_spans scanned.read).1
  have read : e.dialect.script (data ++ ext) e.start = .ok e.events e.stop :=
    e.dialect.steady_script.append_of_ok low scanned.read
  obtain ⟨offsets, found, events, ends⟩ := Listing.eventOffsets_of_script read
  have rising := events.rising fun _ _ _ decoded => (Dialect.decode_eq_ok decoded).1
  have count : (e.start :: offsets).length = e.size + 1 := by
    rw [events.length_eq, Events.length_toList, Entry.size]
  exact ⟨_, found, count, rising, rfl, ends, fun _ _ => events.getElem?⟩

/-- A queue and a call, found behind a byte and read again in a longer stream. -/
theorem eventOffsets_of_scanned_queue :
    let data : Bytes := #[0x01, 0x32, 0x83, 0xd7, 0xd7, 0xff, 0xb2, 0x10, 0x20, 0x30, 0xfe]
    let queue : FieldEvent := .actionQueue 0x32 true 3 (some [.centerOnScreen, .centerOnScreen])
    let e : Entry := ⟨11, 1, 11, .field [queue, .call 0x302010]⟩
    let offsets : List Int := [1, 6, 10]
    e.ScannedIn data ∧ Listing.eventOffsets (data ++ #[0xff, 0xfe]) e = .ok offsets ∧
      ∃ offset next, offsets[1]? = some offset ∧ offsets[2]? = some next ∧
        Dialect.field.decode (data ++ #[0xff, 0xfe]) offset = .ok (.field (.call 0x302010)) next := by
  intro data queue e offsets
  have listed : e ∈ (scanFrom data 1).entries := by decide +kernel
  have again : Listing.eventOffsets (data ++ #[0xff, 0xfe]) e = .ok offsets := by
    with_unfolding_all rfl
  obtain ⟨_, found, _, _, _, _, events⟩ :=
    eventOffsets_of_scanned data #[0xff, 0xfe] e (.inSequence listed)
  cases found.symm.trans again
  exact ⟨.inSequence listed, again, events 1 _ rfl⟩

end EventScript
