import EventScript.Event.Field.Decode
import EventScript.Event.World.Decode
import EventScript.Proofs.StreamExtension

/-! # The trail of a chain

A chain of events is read in rounds, one event in each, with no count of them kept. However events are decoded,
if each of them takes up some bytes of the stream, there are no more rounds than unread bytes and a last one. The
rounds follow a trail of offsets: at each of them stands an event and no stop byte, and the event ends at the
next offset. What stands where the trail ends tells what comes of the chain: a stop byte, an event that cannot be
read, or nothing.
-/

namespace EventScript

/-- Every event that is decoded takes at least one byte and ends in the stream. -/
def Advances {α : Type} (decode : Bytes → Decode α) : Prop :=
  ∀ data offset a next, decode data offset = .ok a next → offset < next ∧ next ≤ data.size

/-! ## Rounds -/

/-- Read a chain in at most so many rounds, with events that are decoded in any way. Nothing comes of it if
    the rounds are used up. -/
def assembleWithin {α : Type} (step : Decode α) (stops : List UInt8) (data : Bytes) :
    Nat → List α → Int → Option (Outcome (List α))
  | 0, _, _ => none
  | rounds + 1, done, offset =>
      match peek data offset with
      | .error e stop => some (.error e stop)
      | .ok tag _ =>
          if tag ∈ stops then
            some (.ok done.reverse (offset + 1))
          else
            match step offset with
            | .error e stop => some (.error e stop)
            | .ok a next => assembleWithin step stops data rounds (a :: done) next

/-- Each round but the last takes at least one of the unread bytes. -/
theorem assembleWithin_of_left {α : Type} {d : Decoder α} {stops : List UInt8} {data : Bytes}
    {done : List α} {offset : Int} {rounds : Nat} (enough : left data offset < rounds) :
    assembleWithin (d.decode data) stops data rounds done offset =
      some (assembleFrom d stops data done offset) := by
  obtain ⟨rounds, rfl⟩ := Nat.exists_eq_add_one_of_ne_zero (Nat.ne_zero_of_lt enough)
  fun_induction assembleFrom d stops data done offset generalizing rounds with
  | case1 done offset e stop unread => simp only [assembleWithin, unread]
  | case2 done offset tag _ seen isStop => simp only [assembleWithin, seen, if_pos isStop]
  | case3 done offset tag _ seen noStop e stop failed =>
      simp only [assembleWithin, seen, if_neg noStop, failed]
  | case4 done offset tag _ seen noStop a next read moved ih =>
      have fewer : left data next < rounds := by
        simp only [left] at enough ⊢
        omega
      obtain ⟨rounds, rfl⟩ := Nat.exists_eq_add_one_of_ne_zero (Nat.ne_zero_of_lt fewer)
      simp only [assembleWithin, seen, if_neg noStop, read]
      exact ih rounds fewer

/-! ## Trails -/

/-- An event is read at an offset where no stop byte stands, and ends further on. -/
structure EventAt {α : Type} (step : Decode α) (stops : List UInt8) (data : Bytes) (offset : Int) (a : α)
    (next : Int) : Prop where
  noStop : ∃ tag, data.at? offset = some tag ∧ tag ∉ stops
  read : step offset = .ok a next
  onward : offset < next

/-- Each event stands at its offset and ends at the next one. -/
def Trail {α : Type} (step : Decode α) (stops : List UInt8) (data : Bytes) (events : List α)
    (offsets : Nat → Int) : Prop :=
  ∀ i a, events[i]? = some a → EventAt step stops data (offsets i) a (offsets (i + 1))

/-- What comes of a chain whose trail ends at an offset. -/
inductive EndsAt {α : Type} (step : Decode α) (stops : List UInt8) (data : Bytes) (offset : Int)
    (events : List α) : Outcome (List α) → Prop where
  | stopped {tag : UInt8} (found : data.at? offset = some tag) (isStop : tag ∈ stops) :
      EndsAt step stops data offset events (.ok events (offset + 1))
  | failed {tag : UInt8} {e : DecodeError} {stop : Int} (found : data.at? offset = some tag)
      (noStop : tag ∉ stops) (failed : step offset = .error e stop) :
      EndsAt step stops data offset events (.error e stop)
  | ended (atEnd : offset = data.size) :
      EndsAt step stops data offset events (.error (.truncated 1 offset 0) offset)

section Trails

variable {α : Type} {step : Decode α} {stops : List UInt8} {data : Bytes} {events : List α}
  {offsets : Nat → Int} {a : α}

theorem trail_nil : Trail step stops data [] offsets := by
  intro i a listed
  cases listed

theorem trail_cons_iff :
    Trail step stops data (a :: events) offsets ↔
      EventAt step stops data (offsets 0) a (offsets 1) ∧
        Trail step stops data events fun i => offsets (i + 1) := by
  constructor
  · intro trail
    exact ⟨trail 0 a rfl, fun i b listed => trail (i + 1) b listed⟩
  · intro parts i b listed
    cases i with
    | zero =>
        cases listed
        exact parts.1
    | succ i => exact parts.2 i b listed

/-- An offset, and behind it the offsets of a trail. -/
def offsetThen (first : Int) (rest : Nat → Int) : Nat → Int
  | 0 => first
  | i + 1 => rest i

theorem Trail.cons {offset : Int} (first : EventAt step stops data offset a (offsets 0))
    (trail : Trail step stops data events offsets) :
    Trail step stops data (a :: events) (offsetThen offset offsets) :=
  trail_cons_iff.mpr ⟨first, trail⟩

/-- Where a trail ends does not depend on the events along it. -/
theorem EndsAt.with_events {offset : Int} {r : Outcome (List α)} (ends : EndsAt step stops data offset events r)
    (others : List α) : ∃ r, EndsAt step stops data offset others r := by
  cases ends with
  | stopped found isStop => exact ⟨_, .stopped found isStop⟩
  | failed found noStop failed => exact ⟨_, .failed found noStop failed⟩
  | ended atEnd => exact ⟨_, .ended atEnd⟩

end Trails

/-! ## Chains -/

section Chains

variable {α : Type} {d : Decoder α} {stops : List UInt8} {data : Bytes} {events : List α}
  {offsets : Nat → Int}

/-- Reading goes along a trail to its end, and keeps the events. -/
theorem assembleFrom_of_trail (trail : Trail (d.decode data) stops data events offsets) (done : List α) :
    assembleFrom d stops data done (offsets 0) =
      assembleFrom d stops data (events.reverse ++ done) (offsets events.length) := by
  induction events generalizing offsets done with
  | nil => rfl
  | cons a events ih =>
      obtain ⟨first, rest⟩ := trail_cons_iff.mp trail
      obtain ⟨tag, found, noStop⟩ := first.noStop
      rw [assembleFrom_of_event found noStop first.read, ih rest (a :: done)]
      simp

theorem assemble_of_trail {r : Outcome (List α)} (trail : Trail (d.decode data) stops data events offsets)
    (ends : EndsAt (d.decode data) stops data (offsets events.length) events r) :
    assemble d stops data (offsets 0) = r := by
  rw [assemble, assembleFrom_of_trail trail, List.append_nil]
  cases ends with
  | stopped found isStop => rw [assembleFrom_of_stop found isStop, List.reverse_reverse]
  | failed found noStop failed => exact assembleFrom_of_error found noStop failed
  | ended atEnd =>
      have unread : left data (offsets events.length) = 0 := by
        simp only [left]
        omega
      have needs : Needs peek 1 := .byteThen 0
      exact assembleFrom_of_end ((needs (by omega)).mpr ⟨by omega, by rw [unread], rfl⟩)

/-- From every offset in the stream a trail leads to an end. -/
theorem exists_trail (d : Decoder α) (stops : List UInt8) {offset : Int} (low : 0 ≤ offset)
    (high : offset ≤ data.size) :
    ∃ events offsets r, Trail (d.decode data) stops data events offsets ∧ offsets 0 = offset ∧
      EndsAt (d.decode data) stops data (offsets events.length) events r := by
  -- The trail follows the rounds of reading, and each round but the last puts one event in front.
  induction ([] : List α), offset using assembleFrom.induct d stops data with
  | case1 done offset e stop unread =>
      have atEnd := (givesUp_peek low high unread).1
      exact ⟨[], fun _ => offset, _, trail_nil, rfl, .ended atEnd⟩
  | case2 done offset tag _ seen isStop =>
      have found := (peek_eq_ok_iff.mp seen).1
      exact ⟨[], fun _ => offset, _, trail_nil, rfl, .stopped found isStop⟩
  | case3 done offset tag _ seen noStop e stop failed =>
      have found := (peek_eq_ok_iff.mp seen).1
      exact ⟨[], fun _ => offset, _, trail_nil, rfl, .failed found noStop failed⟩
  | case4 done offset tag _ seen noStop a next read moved ih =>
      have found := (peek_eq_ok_iff.mp seen).1
      obtain ⟨events, offsets, r, trail, rfl, ends⟩ := ih (by omega) moved.2
      obtain ⟨r', ends'⟩ := ends.with_events (a :: events)
      exact ⟨a :: events, offsetThen offset offsets, r', trail.cons ⟨⟨tag, found, noStop⟩, read, moved.1⟩, rfl,
        ends'⟩

/-- What comes of a chain is told by its trail and by nothing else. -/
theorem assemble_eq_iff {start : Int} {r : Outcome (List α)} (low : 0 ≤ start) (high : start ≤ data.size) :
    assemble d stops data start = r ↔
      ∃ events offsets, Trail (d.decode data) stops data events offsets ∧ offsets 0 = start ∧
        EndsAt (d.decode data) stops data (offsets events.length) events r := by
  constructor
  · intro same
    obtain ⟨events, offsets, r', trail, rfl, ends⟩ := exists_trail d stops low high
    obtain rfl : r' = r := (assemble_of_trail trail ends).symm.trans same
    exact ⟨events, offsets, trail, rfl, ends⟩
  · intro written
    obtain ⟨events, offsets, trail, rfl, ends⟩ := written
    exact assemble_of_trail trail ends

end Chains

/-! ## Outcomes -/

instance {α : Type} [DecidableEq α] : DecidableEq (Outcome α)
  | .ok a next, .ok b next' => decidable_of_iff (a = b ∧ next = next') (by simp)
  | .error e stop, .error e' stop' => decidable_of_iff (e = e' ∧ stop = stop') (by simp)
  | .ok _ _, .error _ _ | .error _ _, .ok _ _ => .isFalse (by simp)

/-- What is known of the outcome of a chain that starts at an offset. -/
structure FollowsTrail {α : Type} (step : Decode α) (stops : List UInt8) (data : Bytes) (start : Int)
    (outcome : Outcome (List α)) : Prop where
  /-- The outcome is there as soon as there are more rounds than unread bytes. -/
  terminates : ∀ rounds, left data start < rounds →
    assembleWithin step stops data rounds [] start = some outcome
  ok_iff : ∀ events next, outcome = .ok events next ↔
    ∃ offsets, Trail step stops data events offsets ∧ offsets 0 = start ∧
      offsets events.length = next - 1 ∧ ∃ tag ∈ stops, data.at? (next - 1) = some tag
  /-- The first event along the trail that cannot be read gives the error, unless the stream ends before. -/
  error_iff : ∀ e stop, outcome = .error e stop ↔
    ∃ events offsets, Trail step stops data events offsets ∧ offsets 0 = start ∧
      ((∃ tag, data.at? (offsets events.length) = some tag ∧ tag ∉ stops) ∧
          step (offsets events.length) = .error e stop ∨
        offsets events.length = data.size ∧ e = .truncated 1 data.size 0 ∧ stop = data.size)

theorem followsTrail_assemble {α : Type} (d : Decoder α) (stops : List UInt8) {data : Bytes} {start : Int}
    (low : 0 ≤ start) (high : start ≤ data.size) :
    FollowsTrail (d.decode data) stops data start (assemble d stops data start) where
  terminates _ := assembleWithin_of_left
  ok_iff := by
    intro events next
    rw [assemble_eq_iff low high]
    constructor
    · intro followed
      obtain ⟨_, offsets, trail, starts, ends⟩ := followed
      cases ends with
      | stopped found isStop =>
          rw [Int.add_sub_cancel]
          exact ⟨offsets, trail, starts, rfl, _, isStop, found⟩
    · intro followed
      obtain ⟨offsets, trail, starts, last, tag, isStop, found⟩ := followed
      obtain rfl : next = offsets events.length + 1 := by omega
      rw [Int.add_sub_cancel] at found
      exact ⟨events, offsets, trail, starts, .stopped found isStop⟩
  error_iff := by
    intro e stop
    rw [assemble_eq_iff low high]
    constructor
    · intro followed
      obtain ⟨events, offsets, trail, starts, ends⟩ := followed
      refine ⟨events, offsets, trail, starts, ?_⟩
      cases ends with
      | failed found noStop failed => exact .inl ⟨⟨_, found, noStop⟩, failed⟩
      | ended atEnd => exact .inr ⟨atEnd, by rw [atEnd], atEnd⟩
    · intro followed
      obtain ⟨events, offsets, trail, starts, ⟨⟨tag, found, noStop⟩, failed⟩ | ⟨atEnd, rfl, rfl⟩⟩ := followed
      · exact ⟨events, offsets, trail, starts, .failed found noStop failed⟩
      · exact ⟨events, offsets, trail, starts, by rw [← atEnd]; exact .ended atEnd⟩

/-- A chain follows its trail, however its events are decoded, if only each of them takes up some bytes of the
    stream. Actions, field events and world-map events do. -/
theorem assemble_follows_trail :
    (∀ {α : Type} (decode : Bytes → Decode α) (advances : Advances decode) (stops : List UInt8)
      (data : Bytes) (start : Nat), start ≤ data.size →
        FollowsTrail (decode data) stops data start (assemble ⟨decode, advances⟩ stops data start)) ∧
    Advances QueueAction.decoder.decode ∧ Advances FieldEvent.decoder.decode ∧
      Advances WorldEvent.decoder.decode :=
  ⟨fun _ advances stops _ start inside =>
      followsTrail_assemble ⟨_, advances⟩ stops (Int.natCast_nonneg start) (Int.ofNat_le.mpr inside),
    QueueAction.decoder.advances, FieldEvent.decoder.advances, WorldEvent.decoder.advances⟩

/-- A stop byte ends a chain also where it could be read as an event. A chain with a queue that holds an unknown
    action fails as the queue does. -/
theorem assemble_follows_trail_queue :
    let stops : List UInt8 := [0xfe, 0xff]
    let queue : FieldEvent := .actionQueue 0x32 true 3 (some [.centerOnScreen])
    let data : Bytes := #[0x49, 0x32, 0x83, 0xd7, 0xff, 0xff, 0x49, 0xfe]
    let unknown : Bytes := #[0x49, 0x32, 0x83, 0x12, 0xff, 0xfe]
    Advances FieldEvent.decoder.decode ∧
    (0 ≤ data.size ∧ FieldEvent.decoder.decode data 5 = .ok .nop 6 ∧
      assemble FieldEvent.decoder stops data (0 : Nat) = .ok [.dialogWait, queue] 6 ∧
      assembleWithin (FieldEvent.decoder.decode data) stops data 9 [] (0 : Nat) =
        some (.ok [.dialogWait, queue] 6)) ∧
    (0 ≤ unknown.size ∧
      assemble FieldEvent.decoder stops unknown (0 : Nat) = .error (.unrecognized 0x12 3) 3) := by
  intro stops queue data unknown
  have advances : Advances FieldEvent.decoder.decode := assemble_follows_trail.2.2.1
  have follows := assemble_follows_trail.1 _ advances stops data 0 (by decide)
  have follows' := assemble_follows_trail.1 _ advances stops unknown 0 (by decide)
  have wait : EventAt (FieldEvent.decoder.decode data) stops data 0 .dialogWait 1 :=
    ⟨⟨0x49, by decide, by decide⟩, by decide +kernel, by decide⟩
  have wait' : EventAt (FieldEvent.decoder.decode unknown) stops unknown 0 .dialogWait 1 :=
    ⟨⟨0x49, by decide, by decide⟩, by decide +kernel, by decide⟩
  have queued : EventAt (FieldEvent.decoder.decode data) stops data 1 queue 5 :=
    ⟨⟨0x32, by decide, by decide⟩, by decide +kernel, by decide⟩
  have stuck : FieldEvent.decoder.decode unknown 1 = .error (.unrecognized 0x12 3) 3 := by decide +kernel
  have read := (follows.ok_iff [.dialogWait, queue] 6).mpr
    ⟨offsetThen 0 (offsetThen 1 fun _ => 5), .cons wait (.cons queued trail_nil), rfl, rfl, 0xff, by decide,
      by decide⟩
  have failed := (follows'.error_iff (.unrecognized 0x12 3) 3).mpr
    ⟨[.dialogWait], offsetThen 0 fun _ => 1, .cons wait' trail_nil, rfl, .inl ⟨⟨0x32, by decide, by decide⟩, stuck⟩⟩
  exact ⟨advances, ⟨by decide, by decide +kernel, read,
    (follows.terminates 9 (by decide)).trans (congrArg some read)⟩, by decide, failed⟩

end EventScript
