import EventScript.Proofs.ScriptEncoding
import EventScript.Script.Scan

/-! # What a scan finds

A scan is a run of steps, each of which finds a script at an offset and goes on behind it. What one step
gives is carried along the run: the scripts that are found tile the stream from the start up to where the
scan stops, and it stops early only where neither dialect reads a script.
-/

namespace EventScript

/-- A script of the dialect stands at the offset. -/
def Dialect.Fits (data : Bytes) (dialect : Dialect) (offset : Int) : Prop :=
  ∃ events next, dialect.script data offset = .ok events next

instance (data : Bytes) (dialect : Dialect) (offset : Int) : Decidable (dialect.Fits data offset) :=
  match h : dialect.script data offset with
  | .ok events next => .isTrue ⟨events, next, h⟩
  | .error _ _ => .isFalse (by simp [Dialect.Fits, h])

/-- A script that is read has the dialect it was read with, lies in the stream, and ends in a stop byte of
    the dialect. -/
theorem Dialect.script_spans {data : Bytes} {dialect : Dialect} {offset next : Int} {events : Events}
    (h : dialect.script data offset = .ok events next) :
    0 ≤ offset ∧ events.dialect = dialect ∧ ∃ stop, (Script.mk events stop).WellFormed ∧
      data.at? (next - 1) = some stop := by
  obtain ⟨bytes, ⟨stop, same, valid, rfl⟩, spans⟩ := (Dialect.reads_script dialect _ _ _).mp h
  obtain ⟨body, whole⟩ := Script.encode_eq_append ⟨events, stop⟩
  rw [whole] at spans
  have sliced := slice?_eq_some_iff.mp ((spans_iff_slice? (by simp)).mp spans)
  obtain ⟨last, _, found, rfl⟩ := spans_append.mp spans
  refine ⟨sliced.1, same, stop, valid, ?_⟩
  rwa [Int.add_sub_cancel]

/-! ## One step of a scan -/

theorem scriptAt_eq_ok_iff {data : Bytes} {offset : Int} {entry : Entry} :
    scriptAt data offset = .ok entry ↔
      ∃ events next, events.dialect.script data offset = .ok events next ∧
        (events.dialect = .field → ¬ Dialect.worldChar.Fits data offset) ∧
        entry = ⟨offset, offset, next, events⟩ := by
  constructor
  · intro h
    simp only [scriptAt] at h
    split at h
    · simp at h
    · split at h
      · rename_i events next read
        obtain ⟨_, same, _⟩ := Dialect.script_spans read
        cases h
        exact ⟨events, next, by rwa [same], by simp [same], rfl⟩
      · rename_i failed
        split at h
        · rename_i events next read
          obtain ⟨_, same, _⟩ := Dialect.script_spans read
          cases h
          exact ⟨events, next, by rwa [same], by simp [Dialect.Fits, failed], rfl⟩
        · simp at h
  · intro h
    obtain ⟨events, next, read, unlike, rfl⟩ := h
    have low := (Dialect.script_spans read).1
    have high := Dialect.script_eq_ok read
    rw [scriptAt, if_neg (by omega)]
    cases same : events.dialect with
    | worldChar => rw [same] at read; simp only [read]
    | field =>
        rw [same] at read
        cases other : Dialect.worldChar.script data offset with
        | ok _ _ => exact absurd ⟨_, _, other⟩ (unlike same)
        | error _ _ => simp only [read]

theorem scriptAt_eq_error {data : Bytes} {offset : Int} {m : Mismatch} (low : 0 ≤ offset)
    (high : offset ≤ data.size) (h : scriptAt data offset = .error m) :
    m.offset = offset ∧ (∃ stop, Dialect.worldChar.script data offset = .error m.worldChar stop) ∧
      ∃ stop, Dialect.field.script data offset = .error m.field stop := by
  simp only [scriptAt, if_neg (show ¬ (offset < 0 ∨ data.size < offset) by omega)] at h
  split at h
  · simp at h
  · rename_i worldChar stop failed
    split at h
    · simp at h
    · rename_i field stop' failed'
      cases h
      exact ⟨rfl, ⟨_, failed⟩, ⟨_, failed'⟩⟩

/-! ## Runs -/

/-- The run of a scan from an offset, with what it finds. -/
inductive Scans (data : Bytes) : Int → ScanResult → Prop where
  | finished {offset : Int} (atEnd : data.size ≤ offset) : Scans data offset ⟨[], 0, none⟩
  | stuck {offset : Int} {m : Mismatch} (inside : offset < data.size)
      (failed : scriptAt data offset = .error m) :
      Scans data offset ⟨[], data.size - offset, some m⟩
  | found {offset : Int} {entry : Entry} {r : ScanResult} (inside : offset < data.size)
      (read : scriptAt data offset = .ok entry) (rest : Scans data entry.stop r) :
      Scans data offset ⟨⟨entry.stop, entry.start, entry.stop, entry.events⟩ :: r.entries,
        r.remaining, r.mismatch⟩

theorem scans_scanOn (data : Bytes) (done : List Entry) (offset : Int) :
    ∃ r, Scans data offset r ∧
      scanOn data done offset = ⟨done.reverse ++ r.entries, r.remaining, r.mismatch⟩ := by
  fun_induction scanOn data done offset with
  | case1 done offset atEnd => exact ⟨_, .finished atEnd, by simp⟩
  | case2 done offset more m failed => exact ⟨_, .stuck (by omega) failed, by simp⟩
  | case3 done offset more entry read moved ih =>
      obtain ⟨r, run, same⟩ := ih
      exact ⟨_, .found (by omega) read run, by simp [same]⟩

theorem scans_scanFrom (data : Bytes) (start : Int) :
    Scans data (max start 0) (scanFrom data start) := by
  obtain ⟨r, run, same⟩ := scans_scanOn data [] (max start 0)
  have : scanFrom data start = r := same
  rwa [this]

/-- A run finds what there is to find: there is one run from an offset. -/
theorem Scans.unique {data : Bytes} {offset : Int} {r r' : ScanResult} (run : Scans data offset r)
    (run' : Scans data offset r') : r = r' := by
  induction run generalizing r' with
  | finished atEnd =>
      cases run' with
      | finished => rfl
      | stuck inside | found inside => omega
  | stuck inside failed =>
      cases run' with
      | finished => omega
      | stuck _ failed' =>
          cases failed.symm.trans failed'
          rfl
      | found _ read => cases failed.symm.trans read
  | found inside read _ ih =>
      cases run' with
      | finished => omega
      | stuck _ failed => cases read.symm.trans failed
      | found _ read' rest =>
          cases read.symm.trans read'
          rw [ih rest]

/-! ## Tiling -/

/-- Ranges that are not empty lie one behind the other, without gap or overlap. -/
def Tiles : Int → List Entry → Int → Prop
  | start, [], stop => stop = start
  | start, e :: entries, stop => e.start = start ∧ e.start < e.stop ∧ Tiles e.stop entries stop

theorem Tiles.le {entries : List Entry} {start stop : Int} (h : Tiles start entries stop) :
    start ≤ stop := by
  induction entries generalizing start with
  | nil => exact Int.le_of_eq h.symm
  | cons e entries ih =>
      obtain ⟨rfl, nonempty, rest⟩ := h
      have := ih rest
      omega

/-- What is known of an entry of a scan. -/
structure Entry.FoundIn (data : Bytes) (e : Entry) : Prop where
  nonneg : 0 ≤ e.start
  nonempty : e.start < e.stop
  inside : e.stop ≤ data.size
  kept : e.offset = e.stop
  read : e.dialect.script data e.start = .ok e.events e.stop
  worldChar_iff : e.dialect = .worldChar ↔ Dialect.worldChar.Fits data e.start
  worldChar_stop : e.dialect = .worldChar →
    data.at? (e.stop - 1) = some 0xff ∨ data.at? (e.stop - 1) = some 0xfd
  field_stop : e.dialect = .field → data.at? (e.stop - 1) = some 0xfe

/-- What is known of the result of a scan that starts in the stream. -/
structure Tiling (data : Bytes) (start : Int) (r : ScanResult) : Prop where
  tiles : Tiles start r.entries (data.size - r.remaining)
  found : ∀ e ∈ r.entries, e.FoundIn data
  nonneg : 0 ≤ r.remaining
  stuck_iff : r.mismatch.isSome ↔ 0 < r.remaining
  /-- A scan that stops early stops where both dialects fail. -/
  stuck : ∀ m, r.mismatch = some m → m.offset = data.size - r.remaining ∧
    (∃ stop, Dialect.worldChar.script data m.offset = .error m.worldChar stop) ∧
    ∃ stop, Dialect.field.script data m.offset = .error m.field stop

theorem Entry.foundIn_of_scriptAt {data : Bytes} {offset : Int} {entry : Entry}
    (h : scriptAt data offset = .ok entry) :
    Entry.FoundIn data ⟨entry.stop, entry.start, entry.stop, entry.events⟩ := by
  obtain ⟨events, next, read, unlike, rfl⟩ := scriptAt_eq_ok_iff.mp h
  obtain ⟨low, _, stop, valid, last⟩ := Dialect.script_spans read
  have high := Dialect.script_eq_ok read
  cases events with
  | worldChar events =>
      refine ⟨low, high.1, high.2, rfl, read, ⟨fun _ => ⟨_, _, read⟩, fun _ => rfl⟩, fun _ => ?_, nofun⟩
      rcases valid.2 with rfl | rfl
      · exact .inl last
      · exact .inr last
  | field events =>
      obtain rfl : stop = 0xfe := valid.2
      exact ⟨low, high.1, high.2, rfl, read, ⟨nofun, fun fits => absurd fits (unlike rfl)⟩, nofun,
        fun _ => last⟩

theorem Scans.tiling {data : Bytes} {offset : Int} {r : ScanResult} (run : Scans data offset r)
    (low : 0 ≤ offset) (high : offset ≤ data.size) : Tiling data offset r := by
  induction run with
  | finished atEnd =>
      refine ⟨?_, by simp, by simp, by simp, by simp⟩
      simp only [Tiles]
      omega
  | @stuck offset m inside failed =>
      have unread : 0 < data.size - offset := by omega
      refine ⟨?_, by simp, Int.le_of_lt unread, ⟨fun _ => unread, fun _ => rfl⟩, ?_⟩
      · simp only [Tiles]
        omega
      · intro m same
        cases same
        obtain ⟨rfl, causes⟩ := scriptAt_eq_error low high failed
        exact ⟨by simp only; omega, causes⟩
  | found inside read _ ih =>
      have moved := scriptAt_eq_ok read
      have rest := ih (by omega) moved.2.2
      exact ⟨⟨moved.1, by simp only; omega, rest.tiles⟩,
        List.forall_mem_cons.mpr ⟨Entry.foundIn_of_scriptAt read, rest.found⟩,
        rest.nonneg, rest.stuck_iff, rest.stuck⟩

/-- A scan reads the stream without a gap. -/
theorem scanFrom_tiling (data : Bytes) (start : Int) :
    if data.size ≤ max start 0 then scanFrom data start = ⟨[], 0, none⟩
    else Tiling data (max start 0) (scanFrom data start) := by
  split
  · rename_i atEnd
    rw [scanFrom, scanOn, if_pos atEnd]
    rfl
  · exact (scans_scanFrom data start).tiling (by omega) (by omega)

end EventScript
