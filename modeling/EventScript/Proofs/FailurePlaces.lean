import EventScript.Proofs.FailureKinds

/-! # Where decoding fails

Reading can stop in the middle of an event, of a queue of actions or of a list of conditions. The error names
the place where it stopped, and what it says about the place is what stands there.
-/

namespace EventScript

/-- What is said about reading that started at `offset` and failed at `stop`. The place lies in the stream.
    Either the tag there is the one that is not known, or there are fewer bytes than were needed. -/
structure Diagnosis (data : Bytes) (offset : Int) (e : DecodeError) (stop : Int) : Prop where
  onward : offset ≤ stop
  inside : stop ≤ data.size
  kind : e.IsTruncated ∨ ∃ tag place, e = .unrecognized tag place
  unrecognized : ∀ tag place, e = .unrecognized tag place →
    stop < data.size ∧ place = stop ∧ data.at? stop = some tag
  truncated : e.IsTruncated → ∃ needed unread : Nat,
    unread = data.size - stop ∧ unread < needed ∧ e = .truncated needed stop unread ∧
      e.message = s!"truncated event data: need {needed} bytes at offset 0x{hex 6 stop}, {unread} left"

theorem GivesUp.diagnosis {data : Bytes} {offset stop : Int} {e : DecodeError}
    (h : GivesUp data offset e stop) : Diagnosis data offset e stop := by
  cases h with
  | @truncated needed _ onward inside short =>
      refine ⟨onward, inside, .inl trivial, nofun, fun _ => ⟨needed, left data stop, ?_, short, rfl, rfl⟩⟩
      simp only [left]
      omega
  | @unrecognized tag _ onward found =>
      have bounds := Bytes.bounds_of_at? found
      refine ⟨onward, by omega, .inr ⟨tag, stop, rfl⟩, ?_, False.elim⟩
      rintro _ _ ⟨⟩
      exact ⟨bounds.2, rfl, found⟩

/-- The step tells what is wrong wherever in a stream it fails. -/
def Diagnoses {α : Type} (step : Bytes → Decode α) : Prop :=
  ∀ (data : Bytes) (offset : Nat) e stop, offset ≤ data.size → step data offset = .error e stop →
    Diagnosis data offset e stop

theorem Steady.diagnoses {α : Type} {step : Bytes → Decode α} (h : Steady step) : Diagnoses step := by
  intro data offset e stop inside failed
  exact (h.givesUp (Int.natCast_nonneg offset) (Int.ofNat_le.mpr inside) failed).diagnosis

theorem Dialect.steady_decode (dialect : Dialect) : Steady fun data => dialect.decode data := by
  cases dialect with
  | worldChar => exact .map _ WorldEvent.steady_decoder
  | field => exact .map _ FieldEvent.steady_decoder

/-- Actions, events and scripts of both dialects tell what is wrong wherever they cannot be read. -/
theorem decoding_diagnoses :
    Diagnoses QueueAction.decoder.decode ∧
    (∀ dialect : Dialect, Diagnoses fun data => dialect.decode data) ∧
    (∀ dialect : Dialect, Diagnoses fun data => dialect.script data) :=
  ⟨QueueAction.steady_decoder.diagnoses, fun dialect => dialect.steady_decode.diagnoses,
    fun dialect => dialect.steady_script.diagnoses⟩

/-- A script whose second event is a queue with an unknown action, and a jump that is cut in its second
    condition. -/
theorem decoding_diagnoses_inside :
    let queue : Bytes := #[0x49, 0x32, 0x83, 0xd7, 0x12, 0xff]
    let jump : Bytes := #[0x84, 0xb9, 0x34, 0x92, 0x10]
    (Dialect.field.script queue 0 = .error (.unrecognized 0x12 4) 4 ∧ queue.at? 4 = some 0x12) ∧
    (Dialect.worldChar.decode jump 1 = .error (.truncated 2 4 1) 4 ∧
      (DecodeError.truncated 2 4 1).message =
        "truncated event data: need 2 bytes at offset 0x000004, 1 left" ∧
      ((1 : Nat) : Int) = jump.size - 4) := by
  intro queue jump
  have unknown : Dialect.field.script queue (0 : Nat) = .error (.unrecognized 0x12 4) 4 := by
    with_unfolding_all rfl
  have cut : Dialect.worldChar.decode jump (1 : Nat) = .error (.truncated 2 4 1) 4 := by
    with_unfolding_all rfl
  have inQueue := decoding_diagnoses.2.2 .field queue 0 _ _ (by decide) unknown
  have inJump := decoding_diagnoses.2.1 .worldChar jump 1 _ _ (by decide) cut
  obtain ⟨needed, unread, counted, _, same, message⟩ := inJump.truncated trivial
  cases same
  exact ⟨⟨unknown, (inQueue.unrecognized _ _ rfl).2.2⟩, cut, message, counted⟩

end EventScript
