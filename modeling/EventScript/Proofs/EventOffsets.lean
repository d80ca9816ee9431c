import EventScript.Decoder
import EventScript.Script.Listing

/-! # The offsets of the events of a script

A listing reads the events of a script once more, one by one, and notes where each of them stands. It meets
the events that the script was read with, and stands before the stop byte at the end.
-/

namespace EventScript

/-- Events stand one behind the other, each at its offset. The last offset is the one behind them. -/
inductive ReadAt {α : Type} (step : Decode α) : List α → List Int → Prop where
  | done (offset : Int) : ReadAt step [] [offset]
  | event {a : α} {events : List α} {offset next : Int} {offsets : List Int}
      (read : step offset = .ok a next) (more : ReadAt step events (next :: offsets)) :
      ReadAt step (a :: events) (offset :: next :: offsets)

theorem ReadAt.map {α β : Type} {step : Decode α} (f : α → β) {events : List α} {offsets : List Int}
    (h : ReadAt step events offsets) :
    ReadAt (step >>= fun a => pure (f a)) (events.map f) offsets := by
  induction h with
  | done offset => exact .done offset
  | event read _ ih =>
      refine .event ?_ ih
      rw [bind_of_ok read]
      rfl

/-- A chain of events stands at offsets that lead from its start to its stop byte. -/
theorem readAt_of_assembleFrom {α : Type} {d : Decoder α} {stops : List UInt8} {data : Bytes}
    {done events : List α} {offset next : Int}
    (h : assembleFrom d stops data done offset = .ok events next) :
    ∃ more offsets, events = done.reverse ++ more ∧ ReadAt (d.decode data) more (offset :: offsets) ∧
      (offset :: offsets).getLast? = some (next - 1) := by
  fun_induction assembleFrom d stops data done offset with
  | case1 => cases h
  | case2 done offset tag _ seen isStop =>
      cases h
      exact ⟨[], [], by simp, .done offset, by simp⟩
  | case3 => cases h
  | case4 done offset tag _ seen noStop a middle read moved ih =>
      obtain ⟨more, offsets, rfl, rest, last⟩ := ih h
      exact ⟨a :: more, middle :: offsets, by simp, .event read rest, by simpa using last⟩

theorem Dialect.readAt_of_script {data : Bytes} {dialect : Dialect} {offset next : Int}
    {events : Events} (h : dialect.script data offset = .ok events next) :
    ∃ offsets, ReadAt (dialect.decode data) events.toList (offset :: offsets) ∧
      (offset :: offsets).getLast? = some (next - 1) := by
  cases dialect <;>
    · obtain ⟨_, _, assembled, ended⟩ := bind_eq_ok_iff.mp h
      cases ended
      obtain ⟨more, offsets, rfl, events, last⟩ := readAt_of_assembleFrom assembled
      exact ⟨offsets, events.map _, last⟩

theorem Dialect.decode_eq_ok {data : Bytes} {dialect : Dialect} {offset next : Int} {event : Event}
    (h : dialect.decode data offset = .ok event next) : offset < next ∧ next ≤ data.size := by
  cases dialect <;>
    · obtain ⟨_, _, read, ended⟩ := bind_eq_ok_iff.mp h
      cases ended
      exact Decoder.advances _ _ _ _ _ read

theorem Events.length_toList (events : Events) : events.toList.length = events.size := by
  cases events <;> simp [toList, size]

namespace Listing

theorem offsetsFrom_of_readAt {data : Bytes} {dialect : Dialect} {events : List Event}
    {offset : Int} {offsets done : List Int}
    (h : ReadAt (dialect.decode data) events (offset :: offsets)) :
    offsetsFrom data dialect done events.length offset = .ok (done.reverse ++ offset :: offsets) := by
  induction events generalizing offset offsets done with
  | nil =>
      cases h
      simp [offsetsFrom]
  | cons event events ih =>
      cases h with
      | event read more =>
          rw [List.length_cons, offsetsFrom, read]
          simpa using @ih _ _ (offset :: done) more

/-- Where the script of an entry stands in a stream, the events of the entry are found again. -/
theorem eventOffsets_of_script {data : Bytes} {e : Entry}
    (h : e.dialect.script data e.start = .ok e.events e.stop) :
    ∃ offsets, eventOffsets data e = .ok (e.start :: offsets) ∧
      ReadAt (e.dialect.decode data) e.events.toList (e.start :: offsets) ∧
      (e.start :: offsets).getLast? = some (e.stop - 1) := by
  obtain ⟨offsets, events, last⟩ := Dialect.readAt_of_script h
  refine ⟨offsets, ?_, events, last⟩
  rw [eventOffsets, Entry.size, ← Events.length_toList, offsetsFrom_of_readAt events]
  rfl

end Listing

end EventScript
