import EventScript.Event.Code

/-! # Events of the field dialect -/

namespace EventScript

/-- An event of a script that runs on a field map. -/
inductive FieldEvent where
  /-- Hand actions to a party member; the list is absent if it was never filled. -/
  | actionQueue (queue : UInt8) (wait : Bool) (length : UInt8) (actions : Option (List QueueAction))
  | branchIfEventBit (bit : UInt16) (addr : UInt32)
  | call (addr : UInt32)
  | dialog (msg : UInt16) (wait : Bool)
  | jumpIfBattleSwitch (switch : UInt8) (addr : UInt32)
  | dialogWait
  | invokeBattle
  | invokeBattleOnChestOpen
  | makeChar0Lead
  | nop
  | unfadeScreen
  deriving Repr, DecidableEq

namespace FieldEvent

/-- The mnemonic of an event. -/
def name : FieldEvent → String
  | .actionQueue .. => "action_queue"
  | .branchIfEventBit .. => "branch_if_event_bit"
  | .call .. => "call"
  | .dialog .. => "dialog"
  | .jumpIfBattleSwitch .. => "jump_if_battle_switch"
  | .dialogWait => "dialog_wait"
  | .invokeBattle => "invoke_battle"
  | .invokeBattleOnChestOpen => "invoke_battle_on_chest_open"
  | .makeChar0Lead => "make_char0_lead"
  | .nop => "nop"
  | .unfadeScreen => "unfade_screen"

/-- The mark of an event that waits. -/
def waiting (wait : Bool) : String :=
  if wait then " wait" else ""

/-- The event as one line of a listing. -/
def text (e : FieldEvent) : String :=
  match e with
  | .actionQueue queue wait length actions =>
      let names := joinWith ", " ((actions.getD []).map QueueAction.name)
      s!"{e.name} ${hexByte queue} len={length.toNat} [{names}]{waiting wait}"
  | .branchIfEventBit bit addr => s!"{e.name} ${hex 4 bit.toNat}, ${hex 6 addr.toNat}"
  | .call addr => s!"{e.name} ${hex 6 addr.toNat}"
  | .dialog msg wait => s!"{e.name} ${hex 4 msg.toNat}{waiting wait}"
  | .jumpIfBattleSwitch switch addr => s!"{e.name} ${hexByte switch}, ${hex 6 addr.toNat}"
  | _ => e.name

/-- The list of actions as a value of a document. -/
def actionsNode : Option (List QueueAction) → Node
  | none => .absent
  | some actions => .octets (actions.map fun a => ⟨a.code, some a.name⟩)

/-- The operands of an event. -/
def record : FieldEvent → Record
  | .actionQueue queue wait length actions =>
      [("queue_id", .ofByte queue), ("wait", .flag wait), ("len", .ofByte length),
        ("actions", actionsNode actions)]
  | .branchIfEventBit bit addr => [("bit", .ofWord bit), ("addr", .ofLong addr)]
  | .call addr => [("addr", .ofLong addr)]
  | .dialog msg wait => [("msg", .ofWord msg), ("wait", .flag wait)]
  | .jumpIfBattleSwitch switch addr => [("switch", .ofByte switch), ("addr", .ofLong addr)]
  | _ => []

end FieldEvent

end EventScript
