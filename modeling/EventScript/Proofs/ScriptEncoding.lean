import EventScript.Proofs.FieldEncoding
import EventScript.Proofs.WorldEncoding

/-! # Encoding of scripts of either dialect

What both dialects have in common: a script is its events and the stop byte behind them, and each dialect
reads exactly the encodings of its own well-formed scripts.
-/

namespace EventScript

/-- A script as it is written: the events of one dialect and a stop byte. -/
structure Script where
  events : Events
  stop : UInt8
  deriving Repr, DecidableEq

namespace Script

def dialect (s : Script) : Dialect :=
  s.events.dialect

/-- All events are well formed, and the stop byte is one of the dialect. -/
def WellFormed : Script → Prop
  | ⟨.worldChar events, stop⟩ => (∀ e ∈ events, e.WellFormed) ∧ (stop = 0xff ∨ stop = 0xfd)
  | ⟨.field events, stop⟩ => (∀ e ∈ events, e.WellFormed) ∧ stop = 0xfe

instance (s : Script) : Decidable s.WellFormed :=
  match s with
  | ⟨.worldChar _, _⟩ | ⟨.field _, _⟩ => inferInstanceAs (Decidable (_ ∧ _))

def encode : Script → List UInt8
  | ⟨.worldChar events, stop⟩ => events.flatMap WorldEvent.encode ++ [stop]
  | ⟨.field events, stop⟩ => events.flatMap FieldEvent.encode ++ [stop]

/-- The stop byte is the last byte. -/
theorem encode_eq_append (s : Script) : ∃ body, s.encode = body ++ [s.stop] := by
  obtain ⟨events | events, stop⟩ := s <;> exact ⟨_, rfl⟩

end Script

theorem Dialect.reads_script {data : Bytes} (dialect : Dialect) :
    Reads data (dialect.script data) fun events bytes =>
      ∃ stop, events.dialect = dialect ∧ (Script.mk events stop).WellFormed ∧
        bytes = (Script.mk events stop).encode := by
  cases dialect with
  | worldChar =>
      apply WorldEvent.reads_script.of_iff
      intro script bytes
      constructor
      · intro h
        obtain ⟨events, ⟨valid, stop, isStop, rfl⟩, rfl⟩ := h
        exact ⟨stop, rfl, ⟨valid, by simpa [WorldEvent.stops] using isStop⟩, rfl⟩
      · intro h
        obtain ⟨stop, same, valid, rfl⟩ := h
        cases script with
        | worldChar events =>
            exact ⟨events, ⟨valid.1, stop, by simpa [WorldEvent.stops] using valid.2, rfl⟩, rfl⟩
        | field events => contradiction
  | field =>
      apply FieldEvent.reads_script.of_iff
      intro script bytes
      constructor
      · intro h
        obtain ⟨events, ⟨valid, stop, isStop, rfl⟩, rfl⟩ := h
        exact ⟨stop, rfl, ⟨valid, by simpa [FieldEvent.stops] using isStop⟩, rfl⟩
      · intro h
        obtain ⟨stop, same, valid, rfl⟩ := h
        cases script with
        | worldChar events => contradiction
        | field events =>
            exact ⟨events, ⟨valid.1, stop, by simpa [FieldEvent.stops] using valid.2, rfl⟩, rfl⟩

end EventScript
