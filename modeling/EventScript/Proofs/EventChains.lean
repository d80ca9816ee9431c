import EventScript.Proofs.ExactReading

/-! # Exact reading of tagged events and of chains

An event is spelled by its tag and the operands that its form asks for. A chain is spelled by its events
one behind the other and a stop byte. No event of it starts like a stop byte, so the end of a chain is
never in doubt. Where every event has one spelling, so has every chain up to the choice of the stop byte.
-/

namespace EventScript

/-- The spelling of a tagged event: a tag with a form, and behind it what the form spells. -/
def Tagged {α φ : Type} (form? : UInt8 → Option φ) (spells : φ → α → List UInt8 → Prop) (a : α)
    (bytes : List UInt8) : Prop :=
  ∃ tag form operands, form? tag = some form ∧ spells form a operands ∧ bytes = tag :: operands

/-- Where no stop byte is a tag, no event starts like a stop byte. -/
theorem Tagged.starts {α φ : Type} {form? : UInt8 → Option φ} {spells : φ → α → List UInt8 → Prop}
    {stops : List UInt8} {a : α} {bytes : List UInt8} (h : Tagged form? spells a bytes)
    (free : ∀ b ∈ stops, form? b = none) :
    ∃ tag operands, bytes = tag :: operands ∧ tag ∉ stops := by
  obtain ⟨tag, form, operands, known, _, rfl⟩ := h
  refine ⟨tag, operands, rfl, fun isStop => ?_⟩
  simp [free tag isStop] at known

theorem ofForms_decode_eq_ok_iff {α φ : Type} {form? : UInt8 → Option φ}
    {read : Bytes → φ → Decode α} {forward : ∀ data form, Forward data (read data form)}
    {data : Bytes} {offset next : Int} {a : α} :
    (Decoder.ofForms form? read forward).decode data offset = .ok a next ↔
      ∃ tag form, data.at? offset = some tag ∧ form? tag = some form ∧
        read data form (offset + 1) = .ok a next := by
  simp only [Decoder.ofForms, decodeForm, bind_eq_ok_iff, peek_eq_ok_iff]
  constructor
  · intro h
    obtain ⟨tag, _, ⟨found, rfl⟩, h⟩ := h
    cases known : form? tag with
    | none => exact absurd (by simpa only [known] using h) unrecognized_ne_ok
    | some form =>
        simp only [known, bind_eq_ok_iff, byte, byteThen_eq_ok_iff] at h
        obtain ⟨_, _, ⟨_, rfl⟩, h⟩ := h
        exact ⟨tag, form, found, known, h⟩
  · intro h
    obtain ⟨tag, form, found, known, h⟩ := h
    refine ⟨tag, offset, ⟨found, rfl⟩, ?_⟩
    simp only [known, bind_eq_ok_iff, byte, byteThen_eq_ok_iff]
    exact ⟨tag, offset + 1, ⟨found, rfl⟩, h⟩

theorem Reads.ofForms {α φ : Type} {form? : UInt8 → Option φ} {read : Bytes → φ → Decode α}
    {forward : ∀ data form, Forward data (read data form)} {spells : φ → α → List UInt8 → Prop}
    {data : Bytes} (h : ∀ form, Reads data (read data form) (spells form)) :
    Reads data ((Decoder.ofForms form? read forward).decode data) (Tagged form? spells) := by
  intro offset a next
  rw [ofForms_decode_eq_ok_iff]
  constructor
  · intro decoded
    obtain ⟨tag, form, found, known, read⟩ := decoded
    obtain ⟨operands, spelled, spans⟩ := (h form _ _ _).mp read
    exact ⟨tag :: operands, ⟨tag, form, operands, known, spelled, rfl⟩, found, spans⟩
  · intro written
    obtain ⟨_, ⟨tag, form, operands, known, spelled, rfl⟩, found, spans⟩ := written
    exact ⟨tag, form, found, known, (h form _ _ _).mpr ⟨operands, spelled, spans⟩⟩

/-- The spelling of a chain of events with its stop byte. -/
inductive Chain {α : Type} (spells : α → List UInt8 → Prop) (stops : List UInt8) :
    List α → List UInt8 → Prop where
  | stop {b : UInt8} (isStop : b ∈ stops) : Chain spells stops [] [b]
  | event {a : α} {tag : UInt8} {operands rest : List UInt8} {events : List α}
      (spelled : spells a (tag :: operands)) (noStop : tag ∉ stops)
      (more : Chain spells stops events rest) :
      Chain spells stops (a :: events) (tag :: operands ++ rest)

namespace Chain

variable {α : Type} {spells : α → List UInt8 → Prop} {stops : List UInt8}

theorem ne_nil {events : List α} {bytes : List UInt8} (h : Chain spells stops events bytes) :
    bytes ≠ [] := by
  cases h <;> simp

/-- Where each event has one spelling, which does not start like a stop byte, a chain is spelled by the
    events in order and any stop byte. -/
theorem iff_flatMap {valid : α → Prop} {encode : α → List UInt8}
    (starts : ∀ a, valid a → ∃ tag operands, encode a = tag :: operands ∧ tag ∉ stops)
    {events : List α} {bytes : List UInt8} :
    Chain (fun a bytes => valid a ∧ bytes = encode a) stops events bytes ↔
      (∀ a ∈ events, valid a) ∧ ∃ stop ∈ stops, bytes = events.flatMap encode ++ [stop] := by
  constructor
  · intro h
    induction h with
    | stop isStop => exact ⟨by simp, _, isStop, rfl⟩
    | event spelled _ _ ih =>
        obtain ⟨all, stop, isStop, rfl⟩ := ih
        refine ⟨List.forall_mem_cons.mpr ⟨spelled.1, all⟩, stop, isStop, ?_⟩
        rw [spelled.2, List.flatMap_cons, List.append_assoc]
  · intro h
    obtain ⟨all, stop, isStop, rfl⟩ := h
    induction events with
    | nil => exact .stop isStop
    | cons a events ih =>
        obtain ⟨ha, rest⟩ := List.forall_mem_cons.mp all
        obtain ⟨tag, operands, spelled, noStop⟩ := starts a ha
        rw [List.flatMap_cons, List.append_assoc, spelled]
        exact .event ⟨ha, spelled.symm⟩ noStop (ih rest)

end Chain

/-- What is read behind the events that were read before is a chain of its own. -/
theorem assembleFrom_eq_ok_iff {α : Type} {d : Decoder α} {stops : List UInt8} {data : Bytes}
    {spells : α → List UInt8 → Prop} (h : Reads data (d.decode data) spells)
    {done events : List α} {offset next : Int} :
    assembleFrom d stops data done offset = .ok events next ↔
      ∃ more bytes, events = done.reverse ++ more ∧ Chain spells stops more bytes ∧
        Spans data offset bytes next := by
  -- In each case the byte at the offset tells the first step of every chain that stands there.
  fun_induction assembleFrom d stops data done offset with
  | case1 done offset e stop unread =>
      simp only [reduceCtorEq, false_iff]
      intro written
      obtain ⟨more, bytes, rfl, chain, spans⟩ := written
      cases bytes with
      | nil => exact chain.ne_nil rfl
      | cons b bytes => simp [peek_eq_ok_iff.mpr ⟨spans.1, rfl⟩] at unread
  | case2 done offset tag _ seen isStop =>
      have found := (peek_eq_ok_iff.mp seen).1
      simp only [EStateM.Result.ok.injEq]
      constructor
      · intro same
        obtain ⟨rfl, rfl⟩ := same
        exact ⟨[], [tag], by simp, .stop isStop, found, rfl⟩
      · intro written
        obtain ⟨_, _, rfl, chain, spans⟩ := written
        cases chain with
        | stop => exact ⟨by simp, spans.2.symm⟩
        | event _ noStop _ =>
            cases found.symm.trans spans.1
            contradiction
  | case3 done offset tag _ seen noStop e stop failed =>
      have found := (peek_eq_ok_iff.mp seen).1
      simp only [reduceCtorEq, false_iff]
      intro written
      obtain ⟨_, _, rfl, chain, spans⟩ := written
      cases chain with
      | stop isStop =>
          cases found.symm.trans spans.1
          contradiction
      | event spelled _ _ =>
          obtain ⟨middle, before, _⟩ := spans_append.mp spans
          have read := (h _ _ _).mpr ⟨_, spelled, before⟩
          simp [read] at failed
  | case4 done offset tag _ seen noStop a middle read moved ih =>
      have found := (peek_eq_ok_iff.mp seen).1
      rw [ih]
      constructor
      · intro written
        obtain ⟨more, rest, rfl, chain, behind⟩ := written
        obtain ⟨bytes, spelled, before⟩ := (h _ _ _).mp read
        cases bytes with
        | nil =>
            simp only [Spans] at before
            omega
        | cons b operands =>
            cases found.symm.trans before.1
            exact ⟨a :: more, _, by simp, .event spelled noStop chain,
              spans_append.mpr ⟨middle, before, behind⟩⟩
      · intro written
        obtain ⟨_, _, rfl, chain, spans⟩ := written
        cases chain with
        | stop isStop =>
            cases found.symm.trans spans.1
            contradiction
        | event spelled _ more =>
            obtain ⟨_, before, behind⟩ := spans_append.mp spans
            cases read.symm.trans ((h _ _ _).mpr ⟨_, spelled, before⟩)
            exact ⟨_, _, by simp, more, behind⟩

theorem Reads.assemble {α : Type} {d : Decoder α} {stops : List UInt8} {data : Bytes}
    {spells : α → List UInt8 → Prop} (h : Reads data (d.decode data) spells) :
    Reads data (EventScript.assemble d stops data) (Chain spells stops) := by
  intro offset events next
  rw [EventScript.assemble, assembleFrom_eq_ok_iff h]
  constructor
  · intro assembled
    obtain ⟨more, bytes, rfl, chain, spans⟩ := assembled
    exact ⟨bytes, chain, spans⟩
  · intro written
    obtain ⟨bytes, chain, spans⟩ := written
    exact ⟨events, bytes, rfl, chain, spans⟩

end EventScript
