import EventScript.Stream

/-! # Decoders and chains of events

A decoder turns the bytes at an offset into one event and moves behind them. Since every event takes
at least one byte of the stream, a chain of events that runs up to a stop byte is finite.
-/

namespace EventScript

/-- A step that succeeds has not gone back, and from inside of the stream it stays inside. -/
def Forward {α : Type} (data : Bytes) (step : Decode α) : Prop :=
  ∀ offset a next, step offset = .ok a next →
    offset ≤ next ∧ (offset ≤ data.size → next ≤ data.size)

/-- A look at a byte needs the offset to be in the stream. -/
theorem byteThen_eq_ok {data : Bytes} {step offset next : Int} {b : UInt8}
    (h : byteThen data step offset = .ok b next) : next = offset + step ∧ offset < data.size := by
  simp only [byteThen] at h
  split at h
  · simp at h
  · rename_i room
    simp only [left] at room
    split at h
    · simp only [EStateM.Result.ok.injEq] at h
      omega
    · simp at h

/-- Reading a byte moves by one. -/
theorem byte_eq_ok {data : Bytes} {offset next : Int} {b : UInt8}
    (h : byte data offset = .ok b next) : next = offset + 1 ∧ offset < data.size :=
  byteThen_eq_ok h

/-- Looking at a byte does not move. -/
theorem peek_eq_ok {data : Bytes} {offset next : Int} {b : UInt8}
    (h : peek data offset = .ok b next) : next = offset ∧ offset < data.size := by
  have := byteThen_eq_ok h
  omega

namespace Forward

variable {α β : Type} {data : Bytes}

theorem pure (a : α) : Forward data (Pure.pure a) := by
  intro offset b next h
  simp only [Pure.pure, EStateM.pure, EStateM.Result.ok.injEq] at h
  omega

theorem bind {step : Decode α} {rest : α → Decode β} (hs : Forward data step)
    (hr : ∀ a, Forward data (rest a)) : Forward data (step >>= rest) := by
  intro offset b next h
  obtain ⟨a, middle, read, more⟩ := bind_eq_ok_iff.mp h
  have first := hs _ _ _ read
  have second := hr a _ _ _ more
  omega

theorem take (n : Nat) : Forward data (EventScript.take data n) := by
  intro offset v next h
  simp only [EventScript.take] at h
  split at h
  · simp at h
  · split at h
    · simp only [EStateM.Result.ok.injEq] at h
      omega
    · simp at h

theorem byte : Forward data (EventScript.byte data) := by
  intro offset b next h
  have := byte_eq_ok h
  omega

theorem takeTwo : Forward data (EventScript.takeTwo data) :=
  bind (take 2) fun _ => pure _

theorem takeThree : Forward data (EventScript.takeThree data) :=
  bind (take 3) fun _ => pure _

theorem word : Forward data (EventScript.word data) :=
  bind takeTwo fun _ => pure _

theorem long : Forward data (EventScript.long data) :=
  bind takeThree fun _ => pure _

theorem readMany {read : Decode α} (hr : Forward data read) (n : Nat) :
    Forward data (EventScript.readMany n read) := by
  induction n with
  | zero => exact pure _
  | succ n ih => exact bind hr fun _ => bind ih fun _ => pure _

end Forward

/-- Giving up never succeeds. -/
theorem unrecognized_ne_ok {α : Type} {data : Bytes} {offset next : Int} {a : α} :
    unrecognized data offset ≠ .ok a next := by
  intro h
  obtain ⟨tag, middle, _, thrown⟩ := bind_eq_ok_iff.mp h
  obtain ⟨_, _, _, thrown⟩ := bind_eq_ok_iff.mp thrown
  cases thrown

/-- A way to read one event. A successful step takes at least one byte and stays in the stream. -/
structure Decoder (α : Type) where
  decode : Bytes → Decode α
  advances : ∀ data offset a next, decode data offset = .ok a next →
    offset < next ∧ next ≤ data.size

section Forms

variable {α φ : Type}

/-- Look at the tag, read it, and go on as the tag's form says. -/
def decodeForm (form? : UInt8 → Option φ) (read : Bytes → φ → Decode α) (data : Bytes) : Decode α := do
  let tag ← peek data
  match form? tag with
  | none => unrecognized data
  | some form =>
      let _ ← byte data
      read data form

theorem decodeForm_advances {form? : UInt8 → Option φ} {read : Bytes → φ → Decode α}
    (forward : ∀ data form, Forward data (read data form)) {data : Bytes} {offset next : Int} {a : α}
    (h : decodeForm form? read data offset = .ok a next) : offset < next ∧ next ≤ data.size := by
  obtain ⟨tag, middle, seen, formed⟩ := bind_eq_ok_iff.mp h
  obtain ⟨rfl, _⟩ := peek_eq_ok seen
  cases known : form? tag with
  | none =>
      rw [known] at formed
      exact absurd formed unrecognized_ne_ok
  | some form =>
      rw [known] at formed
      obtain ⟨_, _, tagged, operands⟩ := bind_eq_ok_iff.mp formed
      have moved := byte_eq_ok tagged
      have kept := forward data _ _ _ _ operands
      omega

/-- The decoder for events whose tag tells their form. -/
def Decoder.ofForms (form? : UInt8 → Option φ) (read : Bytes → φ → Decode α)
    (forward : ∀ data form, Forward data (read data form)) : Decoder α where
  decode := decodeForm form? read
  advances _ _ _ _ h := decodeForm_advances forward h

end Forms

/-- Read events, the ones before `done` in reverse, until a stop byte, which is read as well. -/
def assembleFrom {α : Type} (d : Decoder α) (stops : List UInt8) (data : Bytes) (done : List α)
    (offset : Int) : EStateM.Result DecodeError Int (List α) :=
  match peek data offset with
  | .error e stop => .error e stop
  | .ok tag _ =>
      if tag ∈ stops then
        .ok done.reverse (offset + 1)
      else
        match h : d.decode data offset with
        | .error e stop => .error e stop
        | .ok a next =>
            have := d.advances data offset a next h
            assembleFrom d stops data (a :: done) next
termination_by left data offset
decreasing_by
  simp only [left]
  omega

/-- Read events up to a stop byte, which is read as well. There are no events if one of them fails. -/
def assemble {α : Type} (d : Decoder α) (stops : List UInt8) (data : Bytes) : Decode (List α) :=
  assembleFrom d stops data []

/-- A chain ends behind its stop byte, inside of the stream. -/
theorem assembleFrom_eq_ok {α : Type} {d : Decoder α} {stops : List UInt8} {data : Bytes}
    {done events : List α} {offset next : Int}
    (h : assembleFrom d stops data done offset = .ok events next) :
    offset < next ∧ next ≤ data.size := by
  fun_induction assembleFrom d stops data done offset with
  | case1 => simp at h
  | case2 done offset tag _ htag =>
      simp only [EStateM.Result.ok.injEq] at h
      have := peek_eq_ok htag
      omega
  | case3 => simp at h
  | case4 done offset tag _ htag hstop a middle hd moved ih =>
      have := ih h
      omega

theorem Forward.assemble {α : Type} {data : Bytes} (d : Decoder α) (stops : List UInt8) :
    Forward data (EventScript.assemble d stops data) := by
  intro offset events next h
  have := assembleFrom_eq_ok h
  omega

end EventScript
