import EventScript.Proofs.FailureKinds
import EventScript.Proofs.ScriptEncoding

/-! # Runs of a cursor

Steps of every kind can be taken one behind the other, and a step may start where another one gave up in the
middle of an event. Wherever the steps before it stopped, a step stays in the stream, and what it reads is
told by the bytes that it moves over and by nothing else.
-/

namespace EventScript

/-! ## Steps -/

/-- A step that a cursor can take. -/
inductive CursorStep where
  /-- Look at the next byte. -/
  | peek
  | byte
  | word
  | long
  | take (n : Nat)
  | condition
  /-- Give up on the tag at the cursor. -/
  | unrecognized
  | action
  | event (dialect : Dialect)
  deriving Repr, DecidableEq

/-- What a step gives. -/
inductive CursorValue where
  | byte (b : UInt8)
  | word (w : UInt16)
  | long (l : UInt32)
  | bytes (codes : Bytes)
  | condition (c : Condition)
  | action (a : QueueAction)
  | event (e : Event)
  deriving Repr, DecidableEq

namespace CursorStep

def run (data : Bytes) : CursorStep → Decode CursorValue
  | .peek => do return .byte (← EventScript.peek data)
  | .byte => do return .byte (← EventScript.byte data)
  | .word => do return .word (← EventScript.word data)
  | .long => do return .long (← EventScript.long data)
  | .take n => do return .bytes (← takeInt data n)
  | .condition => do return .condition (← Condition.read data)
  | .unrecognized => EventScript.unrecognized data
  | .action => do return .action (← QueueAction.decoder.decode data)
  | .event dialect => do return .event (← dialect.decode data)

/-- Where the cursor stands after a step, whether it failed or not. -/
def after (data : Bytes) (step : CursorStep) (offset : Int) : Int :=
  match step.run data offset with
  | .ok _ next => next
  | .error _ stop => stop

/-- The steps that only look. -/
def IsLook : CursorStep → Prop
  | .peek | .unrecognized => True
  | .byte | .word | .long | .take _ | .condition | .action | .event _ => False

/-- The steps that read all their bytes at once. -/
def IsPlainRead : CursorStep → Prop
  | .byte | .word | .long | .take _ | .condition => True
  | .peek | .unrecognized | .action | .event _ => False

/-- What holds of a step that starts in the stream. -/
structure Sound (data : Bytes) (step : CursorStep) (offset : Int) : Prop where
  inBounds : ∀ stop, step.run data offset ≠ .error .outOfBounds stop
  onward : offset ≤ step.after data offset
  inside : step.after data offset + left data (step.after data offset) = data.size
  stays : step.IsLook → step.after data offset = offset
  sees : step.IsLook → ∀ v next, step.run data offset = .ok v next →
    ∃ b, data.at? offset = some b ∧ v = .byte b
  unmoved : step.IsPlainRead → ∀ e stop, step.run data offset = .error e stop → stop = offset
  /-- The bytes between the two offsets are read as the same value wherever they stand. -/
  reads : ¬ step.IsLook → ∀ v next, step.run data offset = .ok v next →
    ∃ bytes, data.slice? offset next = some bytes ∧
      ∀ other place, other.slice? place (place + bytes.size) = some bytes →
        step.run other place = .ok v (place + bytes.size)

end CursorStep

/-! ## One step -/

theorem GivesUp.inBounds {data : Bytes} {offset stop : Int} {e : DecodeError}
    (h : GivesUp data offset e stop) : e ≠ .outOfBounds ∧ offset ≤ stop ∧ stop ≤ data.size := by
  cases h with
  | truncated onward inside short => exact ⟨DecodeError.noConfusion, onward, inside⟩
  | unrecognized onward found =>
      have inside := Bytes.bounds_of_at? found
      exact ⟨DecodeError.noConfusion, onward, by omega⟩

/-- The step reads some bytes from its offset on, and gives up inside of the stream if it cannot. -/
structure ReadsOn {α : Type} (step : Bytes → Decode α) : Prop where
  forward : ∀ data, Forward data (step data)
  givesUp : ∀ {data offset e stop}, 0 ≤ offset → offset ≤ data.size →
    step data offset = .error e stop → GivesUp data offset e stop
  /-- The bytes that are read have the same meaning wherever they stand. -/
  slice : ∀ {data offset a next}, 0 ≤ offset → offset ≤ data.size → step data offset = .ok a next →
    ∃ bytes, data.slice? offset next = some bytes ∧
      ∀ other place, other.slice? place (place + bytes.size) = some bytes →
        step other place = .ok a (place + bytes.size)

namespace ReadsOn

variable {α β : Type}

theorem of_reads {step : Bytes → Decode α} {spells : α → List UInt8 → Prop} (steady : Steady step)
    (reads : ∀ data, Reads data (step data) spells) : ReadsOn step where
  forward := steady.forward
  givesUp := steady.givesUp
  slice := by
    intro data offset a next low high read
    obtain ⟨bytes, spelled, spans⟩ := (reads data _ _ _).mp read
    refine ⟨bytes.toArray, slice?_eq_some_iff.mpr ⟨low, high, spans⟩, fun other place sliced => ?_⟩
    exact (reads other _ _ _).mpr ⟨bytes, spelled, (slice?_eq_some_iff.mp sliced).2.2⟩

theorem map {step : Bytes → Decode α} (f : α → β) (h : ReadsOn step) :
    ReadsOn fun data => step data >>= fun a => pure (f a) where
  forward data := .bind (h.forward data) fun a => .pure (f a)
  givesUp := by
    intro data offset e stop low high failed
    obtain failed | ⟨_, _, _, ⟨⟩⟩ := bind_eq_error_iff.mp failed
    exact h.givesUp low high failed
  slice := by
    intro data offset b next low high read
    obtain ⟨a, _, read, ⟨⟩⟩ := bind_eq_ok_iff.mp read
    obtain ⟨bytes, sliced, elsewhere⟩ := h.slice low high read
    exact ⟨bytes, sliced, fun other place found => bind_of_ok (elsewhere other place found)⟩

end ReadsOn

/-- The step reads all its bytes at once, so it has not moved when it fails. -/
def Unmoved {α : Type} (step : Bytes → Decode α) : Prop :=
  ∀ ⦃data offset e stop⦄, 0 ≤ offset → offset ≤ data.size → step data offset = .error e stop →
    stop = offset

theorem Unmoved.map {α β : Type} {step : Bytes → Decode α} (f : α → β) (h : Unmoved step) :
    Unmoved fun data => step data >>= fun a => pure (f a) := by
  intro data offset e stop low high failed
  obtain failed | ⟨_, _, _, ⟨⟩⟩ := bind_eq_error_iff.mp failed
  exact h low high failed

/-- No bytes at all can be read everywhere in the stream, and only there. -/
theorem take_eq_error {data : Bytes} {n : Nat} {offset stop : Int} {e : DecodeError} (low : 0 ≤ offset)
    (high : offset ≤ data.size) (failed : take data n offset = .error e stop) :
    left data offset < n ∧ e = .truncated n offset (left data offset) ∧ stop = offset := by
  cases n with
  | zero =>
      rw [take, if_neg (by omega), dif_pos (by omega)] at failed
      cases failed
  | succ n => exact (Needs.take n low).mp failed

theorem Unmoved.take (n : Nat) : Unmoved fun data => EventScript.take data n := by
  intro data offset e stop low high failed
  exact (take_eq_error low high failed).2.2

theorem Unmoved.byte : Unmoved EventScript.byte := by
  intro data offset e stop low high failed
  exact ((Needs.byteThen 1 low).mp failed).2.2

theorem ReadsOn.take (n : Nat) : ReadsOn fun data => EventScript.take data n where
  forward _ := .take n
  givesUp := by
    intro data offset e stop low high failed
    obtain ⟨short, rfl, rfl⟩ := take_eq_error low high failed
    exact .truncated (Int.le_refl _) high short
  slice := by
    intro data offset v next low high read
    have sliced := take_eq_ok_iff.mp read
    exact ⟨v.toArray, sliced, fun other place found => take_eq_ok_iff.mpr found⟩

theorem Dialect.readsOn_decode (dialect : Dialect) : ReadsOn fun data => dialect.decode data := by
  cases dialect with
  | worldChar => exact .map _ (.of_reads WorldEvent.steady_decoder fun _ => WorldEvent.reads_decoder)
  | field => exact .map _ (.of_reads FieldEvent.steady_decoder fun _ => FieldEvent.reads_decoder)

namespace CursorStep

theorem readsOn_run {step : CursorStep} (reads : ¬ step.IsLook) : ReadsOn fun data => step.run data := by
  cases step with
  | peek | unrecognized => exact absurd trivial reads
  | byte => exact .map _ (.of_reads .byte fun _ => .byte)
  | word => exact .map _ (.map _ (.map _ (.take 2)))
  | long => exact .map _ (.map _ (.map _ (.take 3)))
  | take n => exact .map _ (.map _ (.take n))
  | condition => exact .map _ (.map _ (.map _ (.map _ (.take 2))))
  | action => exact .map _ (.of_reads QueueAction.steady_decoder fun _ => QueueAction.reads_decoder)
  | event dialect => exact .map _ dialect.readsOn_decode

theorem unmoved_run {step : CursorStep} (plain : step.IsPlainRead) : Unmoved fun data => step.run data := by
  cases step with
  | peek | unrecognized | action | event => exact plain.elim
  | byte => exact .map _ .byte
  | word => exact .map _ (.map _ (.map _ (.take 2)))
  | long => exact .map _ (.map _ (.map _ (.take 3)))
  | take n => exact .map _ (.map _ (.take n))
  | condition => exact .map _ (.map _ (.map _ (.map _ (.take 2))))

/-- A look ends where it started, and tells what it sees there. -/
theorem look_cases {data : Bytes} {step : CursorStep} {offset : Int} (look : step.IsLook)
    (low : 0 ≤ offset) (high : offset ≤ data.size) :
    (∃ b, data.at? offset = some b ∧ step.run data offset = .ok (.byte b) offset) ∨
      ∃ e, GivesUp data offset e offset ∧ step.run data offset = .error e offset := by
  have needs : Needs EventScript.peek 1 := .byteThen 0
  cases seen : EventScript.peek data offset with
  | error e stop =>
      obtain ⟨_, _, rfl⟩ := (needs low).mp seen
      have failed := (givesUp_peek low high seen).2
      cases step with
      | peek | unrecognized => exact .inr ⟨e, failed, bind_of_error seen⟩
      | _ => exact look.elim
  | ok tag next =>
      obtain ⟨found, rfl⟩ := peek_eq_ok_iff.mp seen
      cases step with
      | peek => exact .inl ⟨tag, found, bind_of_ok seen⟩
      | unrecognized => exact .inr ⟨_, .unrecognized (Int.le_refl _) found, bind_of_ok seen⟩
      | _ => exact look.elim

theorem after_of_ok {data : Bytes} {step : CursorStep} {offset next : Int} {v : CursorValue}
    (h : step.run data offset = .ok v next) : step.after data offset = next := by
  rw [after, h]

theorem after_of_error {data : Bytes} {step : CursorStep} {offset stop : Int} {e : DecodeError}
    (h : step.run data offset = .error e stop) : step.after data offset = stop := by
  rw [after, h]

theorem after_of_look {data : Bytes} {step : CursorStep} {offset : Int} (look : step.IsLook)
    (low : 0 ≤ offset) (high : offset ≤ data.size) : step.after data offset = offset := by
  obtain ⟨b, _, same⟩ | ⟨e, _, same⟩ := look_cases look low high
  · exact after_of_ok same
  · exact after_of_error same

/-- Every step that fails gives up inside of the stream, at its offset or further on. -/
theorem givesUp_run (step : CursorStep) {data : Bytes} {offset stop : Int} {e : DecodeError}
    (low : 0 ≤ offset) (high : offset ≤ data.size) (failed : step.run data offset = .error e stop) :
    GivesUp data offset e stop := by
  by_cases look : step.IsLook
  · obtain ⟨b, _, same⟩ | ⟨e', gaveUp, same⟩ := look_cases look low high
    · cases failed.symm.trans same
    · cases failed.symm.trans same
      exact gaveUp
  · exact (readsOn_run look).givesUp low high failed

theorem after_bounds (step : CursorStep) {data : Bytes} {offset : Int} (low : 0 ≤ offset)
    (high : offset ≤ data.size) :
    offset ≤ step.after data offset ∧ step.after data offset ≤ data.size := by
  by_cases look : step.IsLook
  · rw [after_of_look look low high]
    exact ⟨Int.le_refl _, high⟩
  · cases outcome : step.run data offset with
    | ok v next =>
        have moved := (readsOn_run look).forward data _ _ _ outcome
        rw [after_of_ok outcome]
        exact ⟨moved.1, moved.2 high⟩
    | error e stop =>
        rw [after_of_error outcome]
        exact (step.givesUp_run low high outcome).inBounds.2

theorem sound (step : CursorStep) {data : Bytes} {offset : Int} (low : 0 ≤ offset)
    (high : offset ≤ data.size) : step.Sound data offset where
  inBounds stop failed := (step.givesUp_run low high failed).inBounds.1 rfl
  onward := (step.after_bounds low high).1
  inside := by
    have bounds := step.after_bounds low high
    simp only [left]
    omega
  stays look := after_of_look look low high
  sees := by
    intro look v next read
    obtain ⟨b, found, same⟩ | ⟨e, _, same⟩ := look_cases look low high
    · cases read.symm.trans same
      exact ⟨b, found, rfl⟩
    · cases read.symm.trans same
  unmoved plain _ _ failed := unmoved_run plain low high failed
  reads noLook _ _ read := (readsOn_run noLook).slice low high read

end CursorStep

/-! ## Runs -/

/-- Take steps one behind the other, whatever comes of them. The run lists each step with the offset at
    which it starts. -/
def cursorRun (data : Bytes) : List CursorStep → Int → List (CursorStep × Int)
  | [], _ => []
  | step :: steps, offset => (step, offset) :: cursorRun data steps (step.after data offset)

theorem steps_cursorRun (data : Bytes) (steps : List CursorStep) (offset : Int) :
    (cursorRun data steps offset).map (·.1) = steps := by
  induction steps generalizing offset with
  | nil => rfl
  | cons step steps ih => exact congrArg (step :: ·) (ih _)

/-- The cursor moves on from step to step and never leaves the stream, so each step meets the cursor as the
    first one did. -/
theorem sound_of_mem_cursorRun {data : Bytes} {steps : List CursorStep} {offset : Int} (low : 0 ≤ offset)
    (high : offset ≤ data.size) : ∀ visit ∈ cursorRun data steps offset, visit.1.Sound data visit.2 := by
  induction steps generalizing offset with
  | nil => exact fun _ => nofun
  | cons step steps ih =>
      have bounds := step.after_bounds low high
      have rest := ih (Int.le_trans low bounds.1) bounds.2
      exact List.forall_mem_cons.mpr ⟨step.sound low high, rest⟩

/-- Whatever steps are taken from a place in the stream, all of them are sound. -/
theorem cursorRun_sound (data : Bytes) (start : Nat) (inside : start ≤ data.size)
    (steps : List CursorStep) :
    (cursorRun data steps start).map (·.1) = steps ∧
      ∀ visit ∈ cursorRun data steps start, visit.1.Sound data visit.2 :=
  ⟨steps_cursorRun data steps start,
    sound_of_mem_cursorRun (Int.natCast_nonneg start) (Int.ofNat_le.mpr inside)⟩

/-- A branch without an address leaves the cursor behind its first operand, where the run goes on. -/
theorem cursorRun_sound_cut_branch :
    let data : Bytes := #[0xfe, 0xc0, 0x05, 0x00, 0xaa]
    let steps : List CursorStep := [.event .field, .peek, .take 2, .take 0, .byte, .unrecognized, .word]
    1 ≤ data.size ∧
      cursorRun data steps 1 =
        [(.event .field, 1), (.peek, 4), (.take 2, 4), (.take 0, 4), (.byte, 4), (.unrecognized, 5),
          (.word, 5)] ∧
      ∀ visit ∈ cursorRun data steps 1, visit.1.Sound data visit.2 := by
  intro data steps
  exact ⟨by decide, by decide +kernel, (cursorRun_sound data 1 (by decide) steps).2⟩

end EventScript
