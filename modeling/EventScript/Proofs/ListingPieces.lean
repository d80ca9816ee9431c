import EventScript.Script.Listing

/-! # The pieces of a listing

A listing hands pieces of text to a sink. Which pieces these are, and how the listing ends, does not depend on the
sink, but a listing stops at the first piece that its sink does not take.
-/

namespace EventScript

namespace ListingError

/-- The error goes back to what a sink without room said. -/
def Wraps (reason : String) : ListingError → Prop
  | .write _ said => said = reason
  | .script _ cause => cause.Wraps reason
  | .decode .. | .outOfBounds => False

/-- The sink did not take a piece. -/
def IsWrite : ListingError → Prop
  | .write .. => True
  | .script _ cause => cause.IsWrite
  | .decode .. | .outOfBounds => False

theorem Wraps.isWrite {reason : String} {e : ListingError} (h : e.Wraps reason) : e.IsWrite := by
  induction e with
  | write => trivial
  | script start cause ih => exact ih h
  | decode | outOfBounds => exact h

theorem message_script (start : Int) (cause : ListingError) :
    (script start cause).message = s!"writing script 0x{hex 6 start}: {cause.message}" :=
  rfl

theorem Wraps.message {reason : String} {e : ListingError} (h : e.Wraps reason) :
    ∃ context, e.message = context ++ reason := by
  induction e with
  | write part said =>
      obtain rfl : said = reason := h
      cases part <;> exact ⟨_, rfl⟩
  | script start cause ih =>
      obtain ⟨context, same⟩ := ih h
      refine ⟨s!"writing script 0x{hex 6 start}: " ++ context, ?_⟩
      rw [message_script, same]
      simp only [toString, String.append_assoc]
  | decode | outOfBounds => exact h.elim

end ListingError

namespace Sink

/-- There is room for `n` more pieces. -/
def HasRoom (sink : Sink) (n : Nat) : Prop :=
  ∀ room, sink.room = some room → n ≤ room

/-- The sink behind some more pieces. -/
def put (sink : Sink) (pieces : List String) : Sink :=
  { sink with
    pieces := sink.pieces ++ pieces.toArray
    room := sink.room.map (· - pieces.length) }

variable {sink : Sink}

theorem HasRoom.mono {m n : Nat} (h : sink.HasRoom n) (le : m ≤ n) : sink.HasRoom m :=
  fun room limit => Nat.le_trans le (h room limit)

theorem HasRoom.put {pieces : List String} {n : Nat} (h : sink.HasRoom (pieces.length + n)) :
    (sink.put pieces).HasRoom n := by
  intro room limit
  obtain ⟨before, here, rfl⟩ := Option.map_eq_some_iff.mp limit
  have := h before here
  omega

theorem hasRoom_of_le {room n : Nat} (limit : sink.room = some room) (le : n ≤ room) : sink.HasRoom n := by
  intro room' limit'
  cases limit.symm.trans limit'
  exact le

theorem put_nil (sink : Sink) : sink.put [] = sink := by
  cases sink
  simp [put]

theorem put_append (sink : Sink) (front back : List String) :
    sink.put (front ++ back) = (sink.put front).put back := by
  simp [put, Function.comp_def, Nat.sub_sub]

theorem text_put (sink : Sink) (pieces : List String) :
    (sink.put pieces).text = sink.text ++ String.join pieces := by
  simp [put, text]

@[simp] theorem text_unlimited : unlimited.text = "" :=
  rfl

@[simp] theorem text_limited (n : Nat) (reason : String) : (limited n reason).text = "" :=
  rfl

end Sink

namespace Listing

/-- How a listing ended: well or with an error, and what its sink then held. -/
abbrev Ending := EStateM.Result ListingError Sink Unit

namespace Ending

def outcome : Ending → Except ListingError Unit
  | .ok () _ => .ok ()
  | .error e _ => .error e

def sink : Ending → Sink
  | .ok _ sink | .error _ sink => sink

/-- The pieces that the sink holds. -/
def pieces (ending : Ending) : List String :=
  (sink ending).pieces.toList

/-- All that was written. -/
def text (ending : Ending) : String :=
  (sink ending).text

/-- The end with an outcome on a sink. -/
def of : Except ListingError Unit → Sink → Ending
  | .ok (), sink => .ok () sink
  | .error e, sink => .error e sink

variable (result : Except ListingError Unit) (final : Sink)

@[simp] theorem outcome_of : outcome (of result final) = result := by
  cases result <;> rfl

@[simp] theorem sink_of : sink (of result final) = final := by
  cases result <;> rfl

end Ending

/-- The listing hands these pieces to its sink one by one and ends with the outcome. It stops at the first
    piece that the sink does not take, and says why. -/
structure Emits (writing : Listing Unit) (pieces : List String) (outcome : Except ListingError Unit) :
    Prop where
  whole : ∀ sink : Sink, sink.HasRoom pieces.length → writing sink = Ending.of outcome (sink.put pieces)
  cut : ∀ (sink : Sink) room, sink.room = some room → room < pieces.length →
    ∃ e, writing sink = .error e (sink.put (pieces.take room)) ∧ e.Wraps sink.reason

namespace Emits

variable {writing next : Listing Unit} {pieces more : List String} {outcome : Except ListingError Unit}
  {e : ListingError}

theorem pure : Emits (Pure.pure ()) [] (.ok ()) where
  whole sink _ := by rw [Sink.put_nil]; rfl
  cut _ _ _ short := absurd short (Nat.not_lt_zero _)

theorem throw (e : ListingError) : Emits (MonadExcept.throw e) [] (.error e) where
  whole sink _ := by rw [Sink.put_nil]; rfl
  cut _ _ _ short := absurd short (Nat.not_lt_zero _)

theorem write (part : ListingPart) (piece : String) : Emits (Listing.write part piece) [piece] (.ok ()) where
  whole sink room := by
    unfold Listing.write
    split
    · rename_i free
      simp [Ending.of, Sink.put, free]
    · rename_i full
      exact absurd (room 0 full) (by simp)
    · rename_i n limit
      simp [Ending.of, Sink.put, limit]
  cut sink room limit short := by
    obtain rfl : room = 0 := by simpa using short
    rw [Listing.write, limit, List.take_zero, Sink.put_nil]
    exact ⟨_, rfl, rfl⟩

/-- What comes behind a listing that ended well starts with the room that is left. -/
theorem bind (first : Emits writing pieces (.ok ())) (second : Emits next more outcome) :
    Emits (writing >>= fun _ => next) (pieces ++ more) outcome where
  whole sink room := by
    rw [List.length_append] at room
    have here := first.whole sink (room.mono (Nat.le_add_right ..))
    rw [Sink.put_append, bind_of_ok here]
    exact second.whole (sink.put pieces) room.put
  cut sink room limit short := by
    by_cases early : room < pieces.length
    · obtain ⟨e, failed, wraps⟩ := first.cut sink room limit early
      rw [List.take_append_of_le_length (Nat.le_of_lt early)]
      exact ⟨e, bind_of_error failed, wraps⟩
    · have here := first.whole sink (Sink.hasRoom_of_le limit (Nat.not_lt.mp early))
      have limit' : (sink.put pieces).room = some (room - pieces.length) := by
        rw [Sink.put, limit, Option.map_some]
      rw [List.length_append] at short
      obtain ⟨e, failed, wraps⟩ := second.cut (sink.put pieces) _ limit' (by omega)
      rw [List.take_append, List.take_of_length_le (Nat.not_lt.mp early), Sink.put_append]
      exact ⟨e, (bind_of_ok here).trans failed, wraps⟩

/-- Nothing comes behind a listing that ended with an error. -/
theorem stop (first : Emits writing pieces (.error e)) :
    Emits (writing >>= fun _ => next) pieces (.error e) where
  whole sink room := bind_of_error (first.whole sink room)
  cut sink room limit short := by
    obtain ⟨e, failed, wraps⟩ := first.cut sink room limit short
    exact ⟨e, bind_of_error failed, wraps⟩

theorem inScript {start : Int} (h : Emits writing pieces outcome) :
    Emits (Listing.inScript start writing) pieces (outcome.mapError (.script start)) where
  whole sink room := by
    unfold Listing.inScript
    rw [h.whole sink room]
    cases outcome <;> rfl
  cut sink room limit short := by
    obtain ⟨e, failed, wraps⟩ := h.cut sink room limit short
    exact ⟨.script start e, by unfold Listing.inScript; rw [failed], wraps⟩

end Emits

/-! ## Listings that end well -/

/-- The listing ends well on every sink that has room for it. -/
def Completes (writing : Listing Unit) : Prop :=
  ∃ pieces, Emits writing pieces (.ok ())

namespace Completes

variable {writing next : Listing Unit}

theorem pure : Completes (Pure.pure ()) :=
  ⟨_, .pure⟩

theorem write (part : ListingPart) (piece : String) : Completes (Listing.write part piece) :=
  ⟨_, .write part piece⟩

theorem bind (first : Completes writing) (second : Completes next) : Completes (writing >>= fun _ => next) := by
  obtain ⟨pieces, first⟩ := first
  obtain ⟨more, second⟩ := second
  exact ⟨pieces ++ more, first.bind second⟩

theorem unlimited (h : Completes writing) {sink : Sink} (free : sink.room = none) :
    ∃ sink', writing sink = .ok () sink' := by
  obtain ⟨pieces, emits⟩ := h
  refine ⟨sink.put pieces, emits.whole sink fun room limit => ?_⟩
  cases free.symm.trans limit

/-- All that can go wrong is that the sink does not take a piece. -/
theorem isWrite (h : Completes writing) {sink sink' : Sink} {e : ListingError}
    (failed : writing sink = .error e sink') : e.IsWrite := by
  obtain ⟨pieces, emits⟩ := h
  by_cases room : sink.HasRoom pieces.length
  · cases (emits.whole sink room).symm.trans failed
  · obtain ⟨room, limit, short⟩ : ∃ room, sink.room = some room ∧ room < pieces.length := by
      simpa [Sink.HasRoom] using room
    obtain ⟨e', failed', wraps⟩ := emits.cut sink room limit short
    cases failed'.symm.trans failed
    exact wraps.isWrite

end Completes

end Listing

end EventScript
