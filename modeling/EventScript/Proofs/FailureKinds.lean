import EventScript.Proofs.StreamExtension
import EventScript.Script

/-! # The two kinds of failure

A script that is not read either lacks bytes or holds a tag that is not known. The first can be mended by
bytes behind the stream, wherever the stream was cut, and the second cannot.
-/

namespace EventScript

theorem WorldEvent.Form.steady_read (form : Form) : Steady fun data => form.read data := by
  cases form with
  | whole event => exact .pure event
  | conditionalJump op count => exact .bind (.readMany (.map _ .word) count) fun _ => .map _ .long
  | clrSetEventBit set => exact .map _ .word
  | loadMap variant => exact .bind .word fun _ => .map _ .takeThree
  | pause => exact .map _ .byte
  | unknownCmdC7 => exact .map _ .takeTwo

theorem WorldEvent.steady_decoder : Steady decoder.decode :=
  .ofForms Form.steady_read ⟨0xe0, .pause, rfl⟩

theorem QueueAction.steady_decoder : Steady decoder.decode :=
  .ofForms (fun action => .pure action) ⟨0xd7, .centerOnScreen, rfl⟩

theorem FieldEvent.Form.steady_read (form : Form) : Steady fun data => form.read data := by
  cases form with
  | whole event => exact .pure event
  | actionQueue queue =>
      have actions := QueueAction.steady_decoder.assemble (List.mem_singleton_self QueueAction.stop)
      exact .bind .byte fun _ => .map _ actions
  | branchIfEventBit => exact .bind .word fun _ => .map _ .long
  | call => exact .map _ .long
  | dialog => exact .map _ .word
  | jumpIfBattleSwitch => exact .bind .byte fun _ => .map _ .long

theorem FieldEvent.steady_decoder : Steady decoder.decode :=
  .ofForms Form.steady_read ⟨0xff, .whole .nop, rfl⟩

theorem Dialect.steady_script (dialect : Dialect) : Steady fun data => dialect.script data := by
  cases dialect with
  | worldChar => exact .map _ (WorldEvent.steady_decoder.assemble (b := 0xff) (by decide))
  | field => exact .map _ (FieldEvent.steady_decoder.assemble (b := 0xfe) (by decide))

/-- A script that is read is read in the same way whatever is put behind the stream. One that is not read
    lacks bytes exactly if it is read with some bytes behind the stream; else it fails at an unknown tag,
    and does so with any bytes behind the stream. -/
theorem Dialect.script_append (dialect : Dialect) (data : Bytes) (offset : Nat)
    (inside : offset ≤ data.size) :
    (∀ events next, dialect.script data offset = .ok events next →
      ∀ ext, dialect.script (data ++ ext) offset = .ok events next) ∧
    ∀ e stop, dialect.script data offset = .error e stop →
      (e.IsTruncated ∨ ∃ tag place, e = .unrecognized tag place) ∧
      (e.IsTruncated ↔ ∃ ext events next, dialect.script (data ++ ext) offset = .ok events next) ∧
      ∀ tag place, e = .unrecognized tag place →
        ∀ ext, dialect.script (data ++ ext) offset = .error (.unrecognized tag place) stop := by
  have steady := dialect.steady_script
  have low : (0 : Int) ≤ offset := Int.natCast_nonneg offset
  have high : (offset : Int) ≤ data.size := Int.ofNat_le.mpr inside
  refine ⟨fun events next read ext => steady.append_of_ok low read, fun e stop failed => ⟨?_, ?_, ?_⟩⟩
  · cases steady.givesUp low high failed with
    | truncated => exact .inl trivial
    | unrecognized => exact .inr ⟨_, _, rfl⟩
  · exact steady.isTruncated_iff low high failed
  · intro tag place same ext
    subst same
    exact steady.append_of_error low failed id

/-- A jump that is cut in its second condition, and a queue that holds an unknown action. -/
theorem script_append_cut_jump :
    let jump : Bytes := #[0x84, 0xb9, 0x34, 0x92, 0x10]
    let queue : Bytes := #[0x32, 0x83, 0xd7, 0x12]
    (1 ≤ jump.size ∧ Dialect.worldChar.script jump 1 = .error (.truncated 2 4 1) 4 ∧
      ∃ ext events next, Dialect.worldChar.script (jump ++ ext) 1 = .ok events next) ∧
    (0 ≤ queue.size ∧ Dialect.field.script queue 0 = .error (.unrecognized 0x12 3) 3 ∧
      ∀ ext, Dialect.field.script (queue ++ ext) 0 = .error (.unrecognized 0x12 3) 3) := by
  intro jump queue
  have cut : Dialect.worldChar.script jump 1 = .error (.truncated 2 4 1) 4 := by
    with_unfolding_all rfl
  have unknown : Dialect.field.script queue 0 = .error (.unrecognized 0x12 3) 3 := by
    with_unfolding_all rfl
  have mended := (Dialect.script_append .worldChar jump 1 (by decide)).2 _ _ cut
  have stuck := (Dialect.script_append .field queue 0 (by decide)).2 _ _ unknown
  exact ⟨⟨by decide, cut, mended.2.1.mp trivial⟩, by decide, unknown, stuck.2.2 _ _ rfl⟩

end EventScript
