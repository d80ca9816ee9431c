import EventScript.Proofs.RecordLoops
import EventScript.Rom.Location
import EventScript.Work

/-! # Where the records of locations stand

Locations are read through two pointer tables and a table of records of one size. What is read succeeds
exactly if the image holds all properties and no pointer falls: pointers have 16 bits, so that the records
they lead to end long before the properties do.
-/

namespace EventScript

theorem mapError_ok {α ε δ : Type} (wrap : ε → δ) (a : α) : (Except.ok a).mapError wrap = .ok a := rfl

theorem mapError_error {α ε δ : Type} (wrap : ε → δ) (e : ε) :
    (Except.error e : Except ε α).mapError wrap = .error (wrap e) := rfl

/-! ## Spans -/

theorem Bytes.slice?_to_end {data : Bytes} {start : Nat} (inside : start ≤ data.size) :
    data.slice? start data.size = some (data.extract start data.size) :=
  if_pos ⟨Int.natCast_nonneg start, Int.ofNat_le.mpr inside, Int.le_refl _⟩

theorem Span.slice_of_stop {span : Span} {stop : Int} (known : span.stop = stop) (data : Bytes) :
    span.slice data =
      if span.addr < 0 ∨ data.size < stop then .error (.outside span data.size)
      else
        match data.slice? span.addr stop with
        | some codes => .ok codes
        | none => .error .outOfBounds := by
  subst known
  rfl

theorem Span.slice_natCast {addr len : Nat} (fits : addr + len < 0x8000000000000000) (data : Bytes) :
    (Span.mk addr len).slice data =
      if addr + len ≤ data.size then .ok (data.extract addr (addr + len))
      else .error (.outside ⟨addr, len⟩ data.size) := by
  have stop : (Span.mk addr len).stop = (addr + len : Nat) := by
    rw [Span.stop, ← Int.natCast_add]
    exact wrap64_of_fits (by omega) (by omega)
  rw [slice_of_stop stop]
  unfold Bytes.slice?
  by_cases inside : addr + len ≤ data.size
  · rw [if_neg (by simp only; omega), if_pos (by simp only; omega), if_pos inside]
    simp only [Int.toNat_natCast]
  · rw [if_pos (by simp only; omega), if_neg inside]

/-! ## Pointers -/

namespace PointerTable

/-- The two bytes of a pointer are there. -/
theorem pointerAt?_eq_some {data : Bytes} {index : Nat} (inside : 2 * index + 2 ≤ data.size) :
    pointerAt? data index = some (pair (data.getD (2 * index) 0) (data.getD (2 * index + 1) 0)) := by
  have low : data[2 * index]? = some (data.getD (2 * index) 0) := by
    rw [Array.getD_eq_getD_getElem?, Array.getElem?_eq_getElem (by omega)]
    rfl
  have high : data[2 * index + 1]? = some (data.getD (2 * index + 1) 0) := by
    rw [Array.getD_eq_getD_getElem?, Array.getElem?_eq_getElem (by omega)]
    rfl
  simp only [pointerAt?, low, high]

section Spans

variable {data : Bytes} {offset : Int} {p : Nat → Nat} {index count : Nat}

/-- The span between a pointer and the next one. -/
def spanAt (offset : Int) (p : Nat → Nat) (i : Nat) : Span :=
  ⟨wrap64 (offset + p i), p (i + 1) - p i⟩

theorem spans_of_rising (known : ∀ i, index ≤ i → i ≤ index + count → pointerAt? data i = some (p i))
    (rising : ∀ i, index ≤ i → i < index + count → p i ≤ p (i + 1)) :
    spans data offset index count = .ok ((List.range' index count).map (spanAt offset p)) := by
  induction count generalizing index with
  | zero => rfl
  | succ count ih =>
      have here := known index (by omega) (by omega)
      have next := known (index + 1) (by omega) (by omega)
      have step := rising index (by omega) (by omega)
      have rest := @ih (index + 1) (fun i low high => known i (by omega) (by omega))
        (fun i low high => rising i (by omega) (by omega))
      simp only [spans, here, next, if_neg (Nat.not_lt.mpr step), rest]
      rfl

/-- A pointer that falls is reported, the first of them if there are several. -/
theorem spans_of_falling (known : ∀ i, index ≤ i → i ≤ index + count → pointerAt? data i = some (p i))
    (falling : ∃ i, index ≤ i ∧ i < index + count ∧ p (i + 1) < p i) :
    ∃ i, index ≤ i ∧ i < index + count ∧ p (i + 1) < p i ∧
      (∀ j, index ≤ j → j < i → p j ≤ p (j + 1)) ∧
      spans data offset index count = .error (.decreasing (i + 1) (p (i + 1)) (p i)) := by
  induction count generalizing index with
  | zero =>
      obtain ⟨i, low, high, _⟩ := falling
      omega
  | succ count ih =>
      have here := known index (by omega) (by omega)
      have next := known (index + 1) (by omega) (by omega)
      by_cases step : p (index + 1) < p index
      · refine ⟨index, by omega, by omega, step, fun j low high => by omega, ?_⟩
        simp only [spans, here, next, if_pos step]
      · obtain ⟨i, low, high, falls⟩ := falling
        have later : index ≠ i := fun same => step (same ▸ falls)
        obtain ⟨i, low, high, falls, before, failed⟩ :=
          @ih (index + 1) (fun i low high => known i (by omega) (by omega))
            ⟨i, by omega, by omega, falls⟩
        refine ⟨i, by omega, by omega, falls, fun j low high => ?_, ?_⟩
        · by_cases first : j = index
          · subst first
            omega
          · exact before j (by omega) high
        · simp only [spans, here, next, if_neg step, failed]

end Spans

end PointerTable

namespace Location

/-- The pointer at an index of the table that starts at an offset of the image. -/
def pointer (rom : Bytes) (table index : Nat) : Nat :=
  pair (rom.getD (table + 2 * index) 0) (rom.getD (table + 2 * index + 1) 0)

/-- No pointer of a table is below the one before it. -/
def Rising (rom : Bytes) (table : Nat) : Prop :=
  ∀ i, i < count → pointer rom table i ≤ pointer rom table (i + 1)

instance (rom : Bytes) (table : Nat) : Decidable (Rising rom table) :=
  inferInstanceAs (Decidable (∀ i, i < count → _))

theorem pointer_lt (rom : Bytes) (table index : Nat) : pointer rom table index < 0x10000 := by
  have low := (rom.getD (table + 2 * index) 0).toNat_lt
  have high := (rom.getD (table + 2 * index + 1) 0).toNat_lt
  simp only [pointer, pair]
  omega

theorem pointerAt?_extract {rom : Bytes} {table index : Nat} (inside : table + 2 * index + 2 ≤ rom.size) :
    PointerTable.pointerAt? (rom.extract table rom.size) index = some (pointer rom table index) := by
  rw [PointerTable.pointerAt?_eq_some (by rw [Array.size_extract]; omega)]
  simp only [pointer, Array.getD_eq_getD_getElem?, Array.getElem?_extract]
  rw [if_pos (by omega), if_pos (by omega), Nat.add_assoc]

/-- Bytes outside of the image were asked for. -/
def TableError.IsOutOfBounds : TableError → Prop
  | .table cause => cause = .outOfBounds
  | .outside .. => False

section Table

variable {rom : Bytes} {table : Nat}

theorem pointerTable_of_inside (inside : table + 2 * (count + 1) ≤ rom.size) :
    pointerTable rom table =
      (PointerTable.spans (rom.extract table rom.size) table 0 count).mapError .table := by
  have size : (rom.extract table rom.size).size = rom.size - table := by
    rw [Array.size_extract, Nat.min_self]
  have last : ((count : Int) + 1).toNat - 1 = count := by omega
  have needed : wrap64 (((count : Int) + 1) * 2) = 2 * (count + 1) := by decide
  rw [pointerTable, if_neg (by omega), Bytes.slice?_to_end (by omega)]
  simp only [PointerTable.read, if_neg (show ¬ (count : Int) + 1 < 1 by omega), size, needed]
  rw [if_neg (by omega), if_neg (by decide), last]

theorem pointerAt?_of_inside (inside : table + 2 * (count + 1) ≤ rom.size) (i : Nat) (_ : 0 ≤ i)
    (high : i ≤ 0 + count) :
    PointerTable.pointerAt? (rom.extract table rom.size) i = some (pointer rom table i) :=
  pointerAt?_extract (by omega)

theorem pointerTable_of_rising (inside : table + 2 * (count + 1) ≤ rom.size)
    (rising : Rising rom table) :
    pointerTable rom table =
      .ok ((List.range' 0 count).map (PointerTable.spanAt table (pointer rom table))) := by
  rw [pointerTable_of_inside inside, PointerTable.spans_of_rising (pointerAt?_of_inside inside)
    fun i _ high => rising i (by omega)]
  rfl

theorem pointerTable_of_not (refused : ¬ (table + 2 * (count + 1) ≤ rom.size ∧ Rising rom table)) :
    ∃ e, pointerTable rom table = .error e ∧ ¬ e.IsOutOfBounds := by
  by_cases inside : table + 2 * (count + 1) ≤ rom.size
  · have falling : ∃ i, 0 ≤ i ∧ i < 0 + count ∧ pointer rom table (i + 1) < pointer rom table i := by
      have notRising : ¬ Rising rom table := fun rising => refused ⟨inside, rising⟩
      simp only [Rising, Classical.not_forall, Nat.not_le] at notRising
      obtain ⟨i, high, falls⟩ := notRising
      exact ⟨i, by omega, by omega, falls⟩
    obtain ⟨i, _, _, _, _, failed⟩ := PointerTable.spans_of_falling (pointerAt?_of_inside inside) falling
    rw [pointerTable_of_inside inside, failed]
    exact ⟨_, rfl, nofun⟩
  · unfold pointerTable
    split
    · exact ⟨_, rfl, id⟩
    · have size : (rom.extract table rom.size).size = rom.size - table := by
        rw [Array.size_extract, Nat.min_self]
      have needed : wrap64 (((count : Int) + 1) * 2) = 2 * (count + 1) := by decide
      rw [Bytes.slice?_to_end (by omega)]
      simp only [PointerTable.read, if_neg (show ¬ (count : Int) + 1 < 1 by omega), needed]
      rw [if_pos (by omega)]
      exact ⟨_, rfl, nofun⟩

end Table

/-! ## Locations -/

/-- Bytes outside of the image, or a span that a table does not have, were asked for. -/
def Error.IsOutOfBounds : Error → Prop
  | .npcTable cause | .triggerTable cause => cause.IsOutOfBounds
  | .properties _ cause | .npcs _ cause | .triggers _ cause => cause = .outOfBounds
  | .propertiesShort .. | .npcList .. | .triggerList .. => False
  | .outOfBounds _ => True

/-- The bytes of the properties of a location. -/
def propertiesBytes (rom : Bytes) (index : Nat) : Bytes :=
  rom.extract (propertiesTable + index * Properties.recordSize)
    (propertiesTable + index * Properties.recordSize + Properties.recordSize)

/-- The image reaches up to the end of the properties of a location. -/
def HasProperties (rom : Bytes) (index : Nat) : Prop :=
  propertiesTable + index * Properties.recordSize + Properties.recordSize ≤ rom.size

instance (rom : Bytes) (index : Nat) : Decidable (HasProperties rom index) :=
  inferInstanceAs (Decidable (_ ≤ _))

section Read

variable {rom : Bytes} {index : Nat}

theorem slice_propertiesSpan (bound : index < count) :
    (propertiesSpan index).slice rom =
      if HasProperties rom index then .ok (propertiesBytes rom index)
      else .error (.outside (propertiesSpan index) rom.size) := by
  have span : propertiesSpan index =
      ⟨(propertiesTable + index * Properties.recordSize : Nat), (Properties.recordSize : Nat)⟩ := by
    simp only [propertiesSpan, Int.natCast_add, Int.natCast_mul]
  rw [span]
  apply Span.slice_natCast
  simp only [count, propertiesTable, Properties.recordSize] at bound ⊢
  omega

theorem ofBytes?_propertiesBytes (inside : HasProperties rom index) :
    ∃ properties, Properties.ofBytes? (propertiesBytes rom index) = some properties := by
  have size : (propertiesBytes rom index).size = Properties.recordSize := by
    unfold HasProperties at inside
    rw [propertiesBytes, Array.size_extract]
    omega
  rw [Properties.ofBytes?, firstBytes?_of_size size]
  exact ⟨_, rfl⟩

section Slices

variable {npcSpan triggerSpan : Span} {data npcs triggers : Bytes} {p : Properties} {cause : SpanError}

theorem read_of_slices (properties : (propertiesSpan index).slice rom = .ok data)
    (decoded : Properties.ofBytes? data = some p) (npcsRead : npcSpan.slice rom = .ok npcs)
    (triggersRead : triggerSpan.slice rom = .ok triggers) :
    read rom index npcSpan triggerSpan =
      .ok ⟨index, p, some (fixedRecords Npc.recordSize Npc.ofRecord npcs),
        some (fixedRecords Trigger.recordSize Trigger.ofRecord triggers)⟩ := by
  rw [read, properties, npcsRead, triggersRead]
  simp only [ok_bind, mapError_ok, decoded, Npc.listOfBytes, Trigger.listOfBytes,
    RecordKind.listOfBytes_eq]
  rfl

theorem read_of_no_properties (properties : (propertiesSpan index).slice rom = .error cause) :
    read rom index npcSpan triggerSpan = .error (.properties index cause) := by
  rw [read, properties]
  rfl

theorem read_of_no_npcs (properties : (propertiesSpan index).slice rom = .ok data)
    (decoded : Properties.ofBytes? data = some p) (npcsRead : npcSpan.slice rom = .error cause) :
    read rom index npcSpan triggerSpan = .error (.npcs index cause) := by
  rw [read, properties, npcsRead]
  simp only [ok_bind, error_bind, mapError_ok, mapError_error, decoded]

theorem read_of_no_triggers (properties : (propertiesSpan index).slice rom = .ok data)
    (decoded : Properties.ofBytes? data = some p) (npcsRead : npcSpan.slice rom = .ok npcs)
    (triggersRead : triggerSpan.slice rom = .error cause) :
    read rom index npcSpan triggerSpan = .error (.triggers index cause) := by
  rw [read, properties, npcsRead, triggersRead]
  simp only [ok_bind, error_bind, mapError_ok, mapError_error, decoded, Npc.listOfBytes,
    RecordKind.listOfBytes_eq]

end Slices

variable {a n b m : Nat} (bound : index < count) (near : a + n < 0x8000000000000000)
  (near' : b + m < 0x8000000000000000)

include bound near near'

theorem read_of_inside (properties : HasProperties rom index) (npcs : a + n ≤ rom.size)
    (triggers : b + m ≤ rom.size) :
    read rom index ⟨a, n⟩ ⟨b, m⟩ =
      .ok ⟨index, (Properties.ofBytes? (propertiesBytes rom index)).getD default,
        some (fixedRecords Npc.recordSize Npc.ofRecord (rom.extract a (a + n))),
        some (fixedRecords Trigger.recordSize Trigger.ofRecord (rom.extract b (b + m)))⟩ := by
  obtain ⟨p, decoded⟩ := ofBytes?_propertiesBytes properties
  rw [decoded]
  apply read_of_slices _ decoded
  · rw [Span.slice_natCast near, if_pos npcs]
  · rw [Span.slice_natCast near', if_pos triggers]
  · rw [slice_propertiesSpan bound, if_pos properties]

theorem read_of_outside
    (outside : ¬ (HasProperties rom index ∧ a + n ≤ rom.size ∧ b + m ≤ rom.size)) :
    ∃ e, read rom index ⟨a, n⟩ ⟨b, m⟩ = .error e ∧ ¬ e.IsOutOfBounds := by
  have reason (span : Span) : SpanError.outside span rom.size ≠ .outOfBounds := by simp
  have first := @slice_propertiesSpan rom index bound
  have second := Span.slice_natCast near rom
  have third := Span.slice_natCast near' rom
  by_cases properties : HasProperties rom index
  · obtain ⟨p, decoded⟩ := ofBytes?_propertiesBytes properties
    rw [if_pos properties] at first
    by_cases npcs : a + n ≤ rom.size
    · rw [if_pos npcs] at second
      rw [if_neg fun triggers => outside ⟨properties, npcs, triggers⟩] at third
      exact ⟨_, read_of_no_triggers first decoded second third, reason _⟩
    · rw [if_neg npcs] at second
      exact ⟨_, read_of_no_npcs first decoded second, reason _⟩
  · rw [if_neg properties] at first
    exact ⟨_, read_of_no_properties first, reason _⟩

theorem read_ok_or_error (rom : Bytes) :
    (∃ l, read rom index ⟨a, n⟩ ⟨b, m⟩ = .ok l) ∨
      ∃ e, read rom index ⟨a, n⟩ ⟨b, m⟩ = .error e ∧ ¬ e.IsOutOfBounds := by
  by_cases inside : HasProperties rom index ∧ a + n ≤ rom.size ∧ b + m ≤ rom.size
  · exact .inl ⟨_, read_of_inside bound near near' inside.1 inside.2.1 inside.2.2⟩
  · exact .inr (read_of_outside bound near near' inside)

end Read

section ReadFrom

variable {rom : Bytes} {npcSpans triggerSpans : List Span} {index n : Nat}

theorem readFrom_succ {npcSpan triggerSpan : Span} (npcs : npcSpans[index]? = some npcSpan)
    (triggers : triggerSpans[index]? = some triggerSpan) :
    readFrom rom npcSpans triggerSpans index (n + 1) =
      read rom index npcSpan triggerSpan >>= fun location =>
        readFrom rom npcSpans triggerSpans (index + 1) n >>= fun rest => .ok (location :: rest) := by
  rw [readFrom, npcs, triggers]
  rfl

theorem readFrom_of_ok {location : Nat → Location}
    (read : ∀ i, index ≤ i → i < index + n → ∃ npcSpan triggerSpan,
      npcSpans[i]? = some npcSpan ∧ triggerSpans[i]? = some triggerSpan ∧
        read rom i npcSpan triggerSpan = .ok (location i)) :
    readFrom rom npcSpans triggerSpans index n = .ok ((List.range' index n).map location) := by
  induction n generalizing index with
  | zero => rfl
  | succ n ih =>
      obtain ⟨npcSpan, triggerSpan, npcs, triggers, here⟩ := read index (by omega) (by omega)
      have rest := @ih (index + 1) fun i low high => read i (by omega) (by omega)
      rw [readFrom_succ npcs triggers, here, rest]
      rfl

/-- What is read fails for a reason of the first location that cannot be read. -/
theorem readFrom_of_error
    (read : ∀ i, index ≤ i → i < index + n → ∃ npcSpan triggerSpan,
      npcSpans[i]? = some npcSpan ∧ triggerSpans[i]? = some triggerSpan ∧
        ((∃ l, read rom i npcSpan triggerSpan = .ok l) ∨
          ∃ e, read rom i npcSpan triggerSpan = .error e ∧ ¬ e.IsOutOfBounds))
    (unread : ∃ i npcSpan triggerSpan e, index ≤ i ∧ i < index + n ∧ npcSpans[i]? = some npcSpan ∧
      triggerSpans[i]? = some triggerSpan ∧ Location.read rom i npcSpan triggerSpan = .error e) :
    ∃ e, readFrom rom npcSpans triggerSpans index n = .error e ∧ ¬ e.IsOutOfBounds := by
  induction n generalizing index with
  | zero =>
      obtain ⟨i, _, _, _, low, high, _⟩ := unread
      omega
  | succ n ih =>
      obtain ⟨npcSpan, triggerSpan, npcs, triggers, here⟩ := read index (by omega) (by omega)
      rcases here with ⟨l, here⟩ | ⟨e, here, reason⟩
      · obtain ⟨i, npcSpan', triggerSpan', e, low, high, npcs', triggers', failed⟩ := unread
        have later : index ≠ i := by
          rintro rfl
          cases npcs.symm.trans npcs'
          cases triggers.symm.trans triggers'
          cases here.symm.trans failed
        obtain ⟨e, failed, reason⟩ := @ih (index + 1) (fun i low high => read i (by omega) (by omega))
          ⟨i, npcSpan', triggerSpan', e, by omega, by omega, npcs', triggers', failed⟩
        rw [readFrom_succ npcs triggers, here, failed]
        exact ⟨e, rfl, reason⟩
      · rw [readFrom_succ npcs triggers, here]
        exact ⟨e, rfl, reason⟩

end ReadFrom

/-! ## Images -/

/-- The image holds the properties of all locations, and both pointer tables rise. -/
structure HasAll (rom : Bytes) : Prop where
  size : propertiesTable + count * Properties.recordSize ≤ rom.size
  npcs : Rising rom npcPointers
  triggers : Rising rom triggerPointers

/-- The bytes that a pointer table delimits for an index. -/
def listBytes (rom : Bytes) (table index : Nat) : Bytes :=
  let start := table + pointer rom table index
  rom.extract start (start + (pointer rom table (index + 1) - pointer rom table index))

/-- What is read at an index. -/
def placed (rom : Bytes) (index : Nat) : Location where
  index := index
  properties := (Properties.ofBytes? (propertiesBytes rom index)).getD default
  npcs := some (fixedRecords Npc.recordSize Npc.ofRecord (listBytes rom npcPointers index))
  triggers := some (fixedRecords Trigger.recordSize Trigger.ofRecord (listBytes rom triggerPointers index))

section Image

variable {rom : Bytes} {table i : Nat}

theorem hasProperties_of_lt (size : propertiesTable + count * Properties.recordSize ≤ rom.size)
    (bound : i < count) : HasProperties rom i := by
  have : (i + 1) * Properties.recordSize ≤ count * Properties.recordSize := Nat.mul_le_mul_right _ bound
  rw [Nat.add_one_mul] at this
  unfold HasProperties
  omega

/-- The span that a table has for a location, with the bytes that it delimits. -/
theorem getElem?_spans (bound : i < count) (near : table < 0x1000000) (rising : Rising rom table) :
    ((List.range' 0 count).map (PointerTable.spanAt table (pointer rom table)))[i]? =
      some ⟨(table + pointer rom table i : Nat),
        (pointer rom table (i + 1) - pointer rom table i : Nat)⟩ := by
  have small := pointer_lt rom table i
  have placed : wrap64 (table + pointer rom table i) = (table + pointer rom table i : Nat) :=
    wrap64_of_fits (by omega) (by omega)
  rw [List.getElem?_map, List.getElem?_range' bound, Option.map_some]
  simp only [PointerTable.spanAt, Nat.zero_add, Nat.one_mul, placed, Int.ofNat_sub (rising i bound)]

theorem readAll_eq_readFrom {npcSpans triggerSpans : List Span}
    (npcs : pointerTable rom npcPointers = .ok npcSpans)
    (triggers : pointerTable rom triggerPointers = .ok triggerSpans) :
    readAll rom = readFrom rom npcSpans triggerSpans 0 count := by
  rw [readAll, npcs, triggers]
  rfl

theorem near_of_pointer (near : table < 0x1000000) :
    table + pointer rom table i + (pointer rom table (i + 1) - pointer rom table i) <
      0x8000000000000000 := by
  have here := pointer_lt rom table i
  have next := pointer_lt rom table (i + 1)
  omega

theorem readAll_of_hasAll (h : HasAll rom) :
    readAll rom = .ok ((List.range' 0 count).map (placed rom)) := by
  have size := h.size
  simp only [propertiesTable, count, Properties.recordSize] at size
  rw [readAll_eq_readFrom
    (pointerTable_of_rising (by simp only [npcPointers, count]; omega) h.npcs)
    (pointerTable_of_rising (by simp only [triggerPointers, count]; omega) h.triggers)]
  refine readFrom_of_ok fun i _ high => ?_
  have bound : i < count := by omega
  have npcs := pointer_lt rom npcPointers (i + 1)
  have triggers := pointer_lt rom triggerPointers (i + 1)
  refine ⟨_, _, getElem?_spans bound (by decide) h.npcs, getElem?_spans bound (by decide) h.triggers,
    read_of_inside bound (near_of_pointer (by decide)) (near_of_pointer (by decide))
      (hasProperties_of_lt h.size bound) ?_ ?_⟩
  -- The furthest that a pointer can lead is before the properties.
  · have := h.npcs i bound
    simp only [npcPointers] at *
    omega
  · have := h.triggers i bound
    simp only [triggerPointers] at *
    omega

theorem readAll_of_not_hasAll (h : ¬ HasAll rom) :
    ∃ e, readAll rom = .error e ∧ ¬ e.IsOutOfBounds := by
  by_cases npcs : npcPointers + 2 * (count + 1) ≤ rom.size ∧ Rising rom npcPointers
  · by_cases triggers : triggerPointers + 2 * (count + 1) ≤ rom.size ∧ Rising rom triggerPointers
    · rw [readAll_eq_readFrom (pointerTable_of_rising npcs.1 npcs.2)
        (pointerTable_of_rising triggers.1 triggers.2)]
      -- Both tables are read, so it is the properties of the last location that are cut.
      have short : ¬ HasProperties rom (count - 1) := by
        intro inside
        refine h ⟨?_, npcs.2, triggers.2⟩
        simp only [HasProperties, propertiesTable, count, Properties.recordSize] at inside ⊢
        omega
      refine readFrom_of_error (fun i _ high => ?_) ?_
      · have bound : i < count := by omega
        exact ⟨_, _, getElem?_spans bound (by decide) npcs.2, getElem?_spans bound (by decide) triggers.2,
          read_ok_or_error bound (near_of_pointer (by decide)) (near_of_pointer (by decide)) rom⟩
      · have bound : count - 1 < count := by decide
        have first := @slice_propertiesSpan rom (count - 1) bound
        rw [if_neg short] at first
        exact ⟨_, _, _, _, Nat.zero_le _, by omega, getElem?_spans bound (by decide) npcs.2,
          getElem?_spans bound (by decide) triggers.2, read_of_no_properties first⟩
    · obtain ⟨e, failed, reason⟩ := pointerTable_of_not triggers
      rw [readAll, pointerTable_of_rising npcs.1 npcs.2, failed]
      exact ⟨_, rfl, reason⟩
  · obtain ⟨e, failed, reason⟩ := pointerTable_of_not npcs
    rw [readAll, failed]
    exact ⟨_, rfl, reason⟩

theorem eq_of_readAll {locations : List Location} (h : readAll rom = .ok locations) :
    locations = (List.range' 0 count).map (placed rom) := by
  by_cases all : HasAll rom
  · cases (readAll_of_hasAll all).symm.trans h
    rfl
  · obtain ⟨e, failed, _⟩ := readAll_of_not_hasAll all
    cases failed.symm.trans h

theorem index_of_readAll {locations : List Location} {l : Location} (h : readAll rom = .ok locations)
    (member : l ∈ locations) : ∃ i : Nat, i < count ∧ l.index = i := by
  rw [eq_of_readAll h] at member
  obtain ⟨i, listed, rfl⟩ := List.mem_map.mp member
  exact ⟨i, by simpa using listed, rfl⟩

/-- The list holds what is decoded from the bytes that a pointer table delimits for an index: records of
    `n` bytes one behind the other, as many as there is room for. -/
def Lists {α : Type} (rom : Bytes) (table n : Nat) (decode : Bytes → Option α) (index : Nat)
    (list : Option (List α)) : Prop :=
  ∃ records, list = some records ∧
    records.length = (pointer rom table (index + 1) - pointer rom table index) / n ∧
    ∀ j a, records[j]? = some a →
      decode (rom.extract (table + pointer rom table index + n * j)
        (table + pointer rom table index + n * j + n)) = some a

theorem lists_fixedRecords {α : Type} {n : Nat} {read : Vector UInt8 n → α}
    (rising : pointer rom table i ≤ pointer rom table (i + 1))
    (inside : table + pointer rom table (i + 1) ≤ rom.size) :
    Lists rom table n (fun data => (firstBytes? n data).map read) i
      (some (fixedRecords n read (listBytes rom table i))) := by
  refine ⟨_, rfl, ?_, fun j a found => fixedRecords_extract (by omega) found⟩
  rw [length_fixedRecords, listBytes, Array.size_extract]
  congr 1
  omega

end Image

/-- Locations are read exactly if the image holds all properties and neither pointer table falls. Each
    location then has the properties of its index and the characters and triggers that its pointers
    delimit. Whatever the image, nothing outside of it is asked for. -/
theorem readAll_exact (rom : Bytes) :
    if 0x2d8f00 + 0x19f * 0x21 ≤ rom.size ∧ Rising rom 0x41a10 ∧ Rising rom 0x40000 then
      ∃ locations, readAll rom = .ok locations ∧ locations.length = 0x19f ∧
        ∀ (i : Nat) l, locations[i]? = some l →
          l.index = i ∧
          Properties.ofBytes? (rom.extract (0x2d8f00 + 0x21 * i) (0x2d8f00 + 0x21 * i + 0x21)) =
            some l.properties ∧
          Lists rom 0x41a10 9 Npc.ofBytes? i l.npcs ∧
          Lists rom 0x40000 5 Trigger.ofBytes? i l.triggers
    else
      ∃ e, readAll rom = .error e ∧ ¬ e.IsOutOfBounds := by
  split
  · rename_i accepted
    obtain ⟨size, npcs, triggers⟩ := accepted
    refine ⟨_, readAll_of_hasAll ⟨size, npcs, triggers⟩, by simp [count], fun i l found => ?_⟩
    obtain ⟨_, ⟨bound, rfl⟩, rfl⟩ : ∃ j, (i < count ∧ i = j) ∧ placed rom j = l := by
      simpa [List.getElem?_eq_some_iff] using found
    have npcsEnd := pointer_lt rom 0x41a10 (i + 1)
    have triggersEnd := pointer_lt rom 0x40000 (i + 1)
    refine ⟨rfl, ?_, lists_fixedRecords (npcs i bound) (by omega),
      lists_fixedRecords (triggers i bound) (by omega)⟩
    obtain ⟨properties, decoded⟩ := ofBytes?_propertiesBytes (hasProperties_of_lt size bound)
    rw [placed, decoded, Option.getD_some, ← decoded, propertiesBytes, Nat.mul_comm i]
    rfl
  · rename_i refused
    exact readAll_of_not_hasAll fun h => refused ⟨h.size, h.npcs, h.triggers⟩

end Location

end EventScript
