import EventScript.Decoder
import EventScript.Event.Field

/-! # Decoding the field dialect

The tag at the start of an event tells its form. Most forms have operands behind the tag.
-/

namespace EventScript

/-- Reads one queued action. Only actions that are known by name are read. -/
def QueueAction.decoder : Decoder QueueAction :=
  .ofForms (fun tag => if QueueAction.mk tag = .centerOnScreen then some ⟨tag⟩ else none)
    (fun _ action => return action) (fun _ _ => .pure _)

/-- The byte behind the last action of a queue. -/
def QueueAction.stop : UInt8 := 0xff

namespace FieldEvent

/-- What a tag says about the event that it starts. -/
inductive Form where
  /-- The tag is the whole event. -/
  | whole (event : FieldEvent)
  | actionQueue (queue : UInt8)
  | branchIfEventBit
  | call
  | dialog
  | jumpIfBattleSwitch

/-- All tags and their forms. -/
def forms : List (UInt8 × Form) :=
  [(0x31, .actionQueue 0x31), (0x32, .actionQueue 0x32), (0x33, .actionQueue 0x33),
    (0x34, .actionQueue 0x34), (0x47, .whole .makeChar0Lead), (0x49, .whole .dialogWait),
    (0x4b, .dialog), (0x4e, .whole .invokeBattle), (0x8e, .whole .invokeBattleOnChestOpen),
    (0x96, .whole .unfadeScreen), (0xb2, .call), (0xb7, .jumpIfBattleSwitch),
    (0xc0, .branchIfEventBit), (0xff, .whole .nop)]

/-- A list that is absent when there is nothing in it. -/
def absentIfEmpty {α : Type} : List α → Option (List α)
  | [] => none
  | items => some items

/-- Read the operands behind a tag. -/
def Form.read (data : Bytes) : Form → Decode FieldEvent
  | .whole event => return event
  | .actionQueue queue => do
      let info ← byte data
      let actions ← assemble QueueAction.decoder [QueueAction.stop] data
      return .actionQueue queue (flag info.toNat 7) (.ofNat (bits info.toNat 0 7))
        (absentIfEmpty actions)
  | .branchIfEventBit => do
      let bit ← word data
      let addr ← long data
      return .branchIfEventBit bit addr
  | .call => do
      let addr ← long data
      return .call addr
  | .dialog => do
      let msg ← word data
      return .dialog msg true
  | .jumpIfBattleSwitch => do
      let switch ← byte data
      let addr ← long data
      return .jumpIfBattleSwitch switch addr

theorem Form.forward_read (data : Bytes) (form : Form) : Forward data (form.read data) := by
  cases form with
  | whole event => exact .pure _
  | actionQueue queue => exact .bind .byte fun _ => .bind (.assemble _ _) fun _ => .pure _
  | branchIfEventBit => exact .bind .word fun _ => .bind .long fun _ => .pure _
  | call => exact .bind .long fun _ => .pure _
  | dialog => exact .bind .word fun _ => .pure _
  | jumpIfBattleSwitch => exact .bind .byte fun _ => .bind .long fun _ => .pure _

/-- Reads one event of the field dialect. -/
def decoder : Decoder FieldEvent :=
  .ofForms (fun tag => forms.lookup tag) (fun data form => form.read data) Form.forward_read

/-- The bytes that end a script of the field dialect. -/
def stops : List UInt8 := [0xfe]

end FieldEvent

end EventScript
