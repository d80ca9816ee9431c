import EventScript.Proofs.CborDocuments
import EventScript.Proofs.EventDocuments
import EventScript.Proofs.ScannedEntries
import EventScript.Proofs.TomlDocuments
import EventScript.Proofs.YamlDocuments

/-! # Exported scripts lose nothing

All formats are faithful, and the document of a scanned entry is plain. So what is written for an entry tells its
dialect, its place and its events.
-/

namespace EventScript

theorem Format.exists_faithful (format : Format) : ∃ same sameRecord, format.Faithful same sameRecord := by
  cases format with
  | yaml => exact ⟨_, _, Document.Yaml.faithful⟩
  | toml => exact ⟨_, _, Document.Toml.faithful⟩
  | cbor => exact ⟨_, _, Document.Cbor.faithful⟩

theorem Format.Faithful.offset {format : Format} {same : Node → Node → Prop} {sameRecord : Record → Record → Prop}
    (t : format.Faithful same sameRecord) {a b : Int} (low : 0 ≤ a) (low' : 0 ≤ b) (fits : format.Holds a.toNat)
    (fits' : format.Holds b.toNat) (equal : same (.number a) (.number b)) : a = b := by
  obtain ⟨a, rfl⟩ := Int.eq_ofNat_of_zero_le low
  obtain ⟨b, rfl⟩ := Int.eq_ofNat_of_zero_le low'
  exact congrArg Int.ofNat (t.number fits fits' equal)

/-! ## Events of a script -/

theorem Dialect.isWord_name (d : Dialect) : IsWord d.name := by
  cases d <;> decide

theorem Dialect.name_inj {d d' : Dialect} (same : d.name = d'.name) : d = d' := by
  cases d <;> cases d' <;> first | rfl | exact absurd same (by decide)

theorem Script.encode_mk (events : Events) (stop : UInt8) :
    (Script.mk events stop).encode = events.toList.flatMap Event.encode ++ [stop] := by
  cases events with
  | worldChar events => rw [Script.encode, Events.toList, List.flatMap_map]; rfl
  | field events => rw [Script.encode, Events.toList, List.flatMap_map]; rfl

theorem Event.encode_ne_nil {e : Event} (valid : e.WellFormed) : e.encode ≠ [] := by
  cases e with
  | worldChar e =>
      obtain ⟨tag, operands, shown, _⟩ := WorldEvent.encode_starts e valid
      rw [Event.encode, shown]
      exact List.cons_ne_nil tag operands
  | field e =>
      obtain ⟨tag, operands, shown, _⟩ := FieldEvent.encode_starts e valid
      rw [Event.encode, shown]
      exact List.cons_ne_nil tag operands

namespace Events

theorem dialect_of_mem {events : Events} {e : Event} (member : e ∈ events.toList) : e.dialect = events.dialect := by
  cases events with
  | worldChar events =>
      obtain ⟨_, _, rfl⟩ := List.mem_map.mp member
      rfl
  | field events =>
      obtain ⟨_, _, rfl⟩ := List.mem_map.mp member
      rfl

theorem toList_inj {events events' : Events} (dialects : events.dialect = events'.dialect)
    (same : events.toList = events'.toList) : events = events' := by
  match events, events' with
  | .worldChar events, .worldChar events' =>
      rw [(List.map_inj_right fun _ _ => Event.worldChar.inj).mp same]
  | .field events, .field events' =>
      rw [(List.map_inj_right fun _ _ => Event.field.inj).mp same]
  | .worldChar _, .field _ | .field _, .worldChar _ => contradiction

/-- The events are well formed, and what can be counted in them is at most `n`. -/
structure Within (events : Events) (n : Nat) : Prop where
  count : events.toList.length ≤ n
  valid : ∀ e ∈ events.toList, e.WellFormed
  short : ∀ e ∈ events.toList, e.encode.length ≤ n

theorem Within.mono {events : Events} {m n : Nat} (h : events.Within m) (le : m ≤ n) : events.Within n where
  count := Nat.le_trans h.count le
  valid := h.valid
  short e member := Nat.le_trans (h.short e member) le

theorem valid_of_script {events : Events} {stop : UInt8} (valid : (Script.mk events stop).WellFormed) :
    ∀ e ∈ events.toList, e.WellFormed := by
  cases events with
  | worldChar events => exact List.forall_mem_map.mpr valid.1
  | field events => exact List.forall_mem_map.mpr valid.1

theorem within_encode {events : Events} {stop : UInt8} (valid : (Script.mk events stop).WellFormed) :
    events.Within (Script.mk events stop).encode.length := by
  have valid := valid_of_script valid
  have count : events.toList.length ≤ (events.toList.flatMap Event.encode).length :=
    length_le_length_flatMap fun e member => Event.encode_ne_nil (valid e member)
  rw [Script.encode_mk, List.length_append]
  refine ⟨Nat.le_add_right_of_le count, valid, fun e member => Nat.le_add_right_of_le ?_⟩
  obtain ⟨front, back, split⟩ := List.append_of_mem member
  rw [split, List.flatMap_append, List.flatMap_cons, List.length_append, List.length_append]
  omega

section

variable {format : Format} {same : Node → Node → Prop} {sameRecord : Record → Record → Prop} {n n' : Nat}

theorem isPlain_tables {events : Events} (within : events.Within n) (fits : format.Holds n) :
    (Node.tables (events.toList.map Event.document)).IsPlain format := by
  have plain (e : Event) (member : e ∈ events.toList) : Record.IsPlain format e.document :=
    e.isPlain_document (fits.mono (within.short e member))
  refine .tables (fits.mono ?_) (List.forall_mem_map.mpr fun e member => (plain e member).keys)
    (List.forall_mem_map.mpr fun e member => (plain e member).values)
  rw [List.length_map]
  exact within.count

theorem node_of_nil {events : Events} (none : events.toList = []) : events.node = .absent := by
  rw [node, none]

theorem node_of_ne_nil {events : Events} (some : events.toList ≠ []) :
    events.node = .tables (events.toList.map Event.document) := by
  obtain ⟨e, es, shown⟩ := List.exists_cons_of_ne_nil some
  rw [node, shown]

theorem isPlain_node {events : Events} (within : events.Within n) (fits : format.Holds n) :
    events.node.IsPlain format := by
  by_cases none : events.toList = []
  · rw [node_of_nil none]
    exact .absent
  · rw [node_of_ne_nil none]
    exact isPlain_tables within fits

/-- A script without events is not taken for one with events. -/
theorem not_same_absent (t : format.Faithful same sameRecord) {events : Events} (some : events.toList ≠ []) :
    ¬ same .absent events.node := by
  obtain ⟨e, es, shown⟩ := List.exists_cons_of_ne_nil some
  rw [node_of_ne_nil some, shown, List.map_cons]
  exact t.absent_tables

/-- Scripts of one dialect are told apart by their lists of events. -/
theorem eq_of_node (t : format.Faithful same sameRecord) {events events' : Events}
    (dialects : events.dialect = events'.dialect) (within : events.Within n) (within' : events'.Within n')
    (fits : format.Holds n) (fits' : format.Holds n') (equal : same events.node events'.node) :
    events = events' := by
  refine toList_inj dialects ?_
  by_cases none : events.toList = []
  · by_cases none' : events'.toList = []
    · rw [none, none']
    · rw [node_of_nil none] at equal
      exact absurd equal (not_same_absent t none')
  · by_cases none' : events'.toList = []
    · rw [node_of_nil none'] at equal
      exact absurd (t.symm equal) (not_same_absent t none)
    · rw [node_of_ne_nil none, node_of_ne_nil none'] at equal
      refine t.rows none none' (isPlain_tables within fits) (isPlain_tables within' fits')
        (fun e member e' member' documents => ?_) equal
      exact Event.eq_of_document t (by rw [dialect_of_mem member, dialect_of_mem member', dialects])
        (within.valid e member) (within'.valid e' member') (fits.mono (within.short e member))
        (fits'.mono (within'.short e' member')) documents

end

end Events

/-! ## Entries -/

namespace Entry

/-- What can be counted in a scanned entry is at most the offset of its end. -/
theorem ScannedIn.within {data : Bytes} {e : Entry} (h : e.ScannedIn data) :
    0 ≤ e.start ∧ e.start < e.stop ∧ e.events.Within e.stop.toNat := by
  have low := (Dialect.script_spans h.read).1
  have moved := (Dialect.script_eq_ok h.read).1
  obtain ⟨bytes, ⟨stop, _, valid, rfl⟩, spans⟩ := (Dialect.reads_script _ _ _ _).mp h.read
  have ends := spans.stop_eq
  exact ⟨low, moved, (Events.within_encode valid).mono (by omega)⟩

theorem isPlain_document {format : Format} {e : Entry} {n : Nat} (within : e.events.Within n)
    (fits : format.Holds n) : Record.IsPlain format e.document := by
  refine ⟨⟨by simp [document], ?_, by simp [document], by simp [document]⟩, ?_⟩
  · simp only [document, List.forall_mem_cons]
    decide
  · simp only [document, List.forall_mem_cons]
    exact ⟨.text e.dialect.isWord_name, .number _, .number _, Events.isPlain_node within fits, by simp⟩

/-- What is written for a scanned entry tells its dialect, its place and its events. The numbers of CBOR have 64
    bits, and so have the offsets of a stream. -/
theorem eq_of_encode_eq (format : Format) (data data' : Bytes) (e e' : Entry) (scanned : e.ScannedIn data)
    (scanned' : e'.ScannedIn data')
    (fits : format = .cbor → e.stop < 0x10000000000000000 ∧ e'.stop < 0x10000000000000000)
    (same : format.encode e.document = format.encode e'.document) :
    e.dialect = e'.dialect ∧ e.start = e'.start ∧ e.stop = e'.stop ∧ e.events = e'.events := by
  obtain ⟨low, before, within⟩ := scanned.within
  obtain ⟨low', before', within'⟩ := scanned'.within
  have holds : format.Holds e.stop.toNat ∧ format.Holds e'.stop.toNat := by
    cases format with
    | yaml | toml => exact ⟨trivial, trivial⟩
    | cbor =>
        obtain ⟨bound, bound'⟩ := fits rfl
        exact ⟨show e.stop.toNat < 1 <<< 64 by omega, show e'.stop.toNat < 1 <<< 64 by omega⟩
  obtain ⟨fits, fits'⟩ := holds
  obtain ⟨_, sameRecord, t⟩ := format.exists_faithful
  have plain := isPlain_document within fits
  have plain' := isPlain_document within' fits'
  match t.fields plain plain' (t.encoded plain plain' same) rfl with
  | .cons names (.cons starts (.cons stops (.cons nodes .nil))) =>
      have dialects := Dialect.name_inj (t.text e.dialect.isWord_name e'.dialect.isWord_name names)
      have starts := t.offset low low' (fits.mono (by omega)) (fits'.mono (by omega)) starts
      have stops := t.offset (by omega) (by omega) fits fits' stops
      exact ⟨dialects, starts, stops, Events.eq_of_node t dialects within within' fits fits' nodes⟩

/-- A queue that is found in sequence and at an entry point of a longer stream. -/
theorem eq_of_encode_eq_queue :
    let data : Bytes := #[0x32, 0x83, 0xd7, 0xd7, 0xff, 0xb2, 0x10, 0x20, 0x30, 0xfe]
    let queue : FieldEvent := .actionQueue 0x32 true 3 (some [.centerOnScreen, .centerOnScreen])
    let e : Entry := ⟨10, 0, 10, .field [queue, .call 0x302010]⟩
    let e' : Entry := ⟨0, 0, 10, .field [queue, .call 0x302010]⟩
    e.ScannedIn data ∧ e'.ScannedIn (data ++ #[0xff, 0xfe]) ∧
      Format.cbor.encode e.document = Format.cbor.encode e'.document ∧
      e.dialect = e'.dialect ∧ e.start = e'.start ∧ e.stop = e'.stop ∧ e.events = e'.events := by
  intro data queue e e'
  have listed : e ∈ (scanFrom data 0).entries := by decide +kernel
  have listed' : e' ∈ (EntryPointScan.ofOffsets (data ++ #[0xff, 0xfe]) [0]).entries := by decide +kernel
  have scanned : e.ScannedIn data := .inSequence listed
  have done : EntryPointScan.ofOffsets? false (data ++ #[0xff, 0xfe]) [0] = some (.ofOffsets _ [0]) := rfl
  have scanned' : e'.ScannedIn (data ++ #[0xff, 0xfe]) := .atEntryPoint done listed'
  exact ⟨scanned, scanned', rfl, eq_of_encode_eq .cbor _ _ e e' scanned scanned' (fun _ => by decide) rfl⟩

end Entry

end EventScript
