import EventScript.Event.Code
import EventScript.Event.Condition

/-! # Events of the world-map dialect -/

namespace EventScript

/-- An event of a script that moves a character on the world map. -/
inductive WorldEvent where
  | clrSetEventBit (set : Bool) (index : UInt16) (bit : UInt8)
  /-- Jump if the conditions hold; their list is absent if it was never filled. -/
  | conditionalJump (op : CondOp) (conditions : Option (List Condition)) (addr : UInt32)
  | entitySpeed (speed : Speed)
  | fadeScreen
  | graphicalAction (action : UInt8) (flipped : Bool)
  | hideCharacter
  | hideMiniMap
  | loadMap (map : UInt16) (x y mode variant : UInt8)
  | move (dir steps : UInt8)
  /-- Move diagonally by a number of tiles along each axis. -/
  | moveDiag (dir : Diagonal) (across along : UInt8)
  | pause (frames : UInt8)
  | showCharacter
  | showMiniMap
  | turnCharacter (dir : Direction)
  | unfadeScreen
  | unknownCmdC7 (first second : UInt8)
  deriving Repr, DecidableEq

namespace WorldEvent

/-- The mnemonic of an event. -/
def name : WorldEvent → String
  | .clrSetEventBit .. => "clr_set_event_bit"
  | .conditionalJump .. => "conditional_jump"
  | .entitySpeed .. => "entity_speed"
  | .fadeScreen => "fade_screen"
  | .graphicalAction .. => "graphical_action"
  | .hideCharacter => "hide_character"
  | .hideMiniMap => "hide_mini_map"
  | .loadMap .. => "load_map"
  | .move .. => "move"
  | .moveDiag .. => "move_diag"
  | .pause .. => "pause"
  | .showCharacter => "show_character"
  | .showMiniMap => "show_mini_map"
  | .turnCharacter .. => "turn_character"
  | .unfadeScreen => "unfade_screen"
  | .unknownCmdC7 .. => "unknown_cmd_c7"

/-- The event as one line of a listing. -/
def text (e : WorldEvent) : String :=
  match e with
  | .clrSetEventBit set index bit => s!"{e.name} {Condition.state set} {Condition.place index bit}"
  | .conditionalJump op conditions addr =>
      let tests := joinWith ", " ((conditions.getD []).map Condition.text)
      s!"{e.name} {op.name} [{tests}], ${hex 6 addr.toNat}"
  | .entitySpeed speed => s!"{e.name} {speed.name}"
  | .graphicalAction action flipped =>
      let mark := if flipped then " flipped" else ""
      s!"{e.name} ${hexByte action}{mark}"
  | .loadMap map x y mode variant =>
      s!"{e.name} ${hex 4 map.toNat}, {x.toNat}, {y.toNat}, mode=${hexByte mode}, variant=${hexByte variant}"
  | .move dir steps => s!"{e.name} dir={dir.toNat}, steps={steps.toNat}"
  | .moveDiag dir across along => s!"{e.name} {dir.name} {across.toNat}x{along.toNat}"
  | .pause frames => s!"{e.name} {frames.toNat}"
  | .turnCharacter dir => s!"{e.name} {dir.name}"
  | .unknownCmdC7 first second => s!"{e.name} ${hexByte first}, ${hexByte second}"
  | _ => e.name

/-- The operands of an event. -/
def record : WorldEvent → Record
  | .clrSetEventBit set index bit =>
      [("set", .flag set), ("byte", .ofWord index), ("bit", .ofByte bit)]
  | .conditionalJump op conditions addr =>
      [("op", .named op.code op.name),
        ("conditions", .ofRows? (conditions.map fun cs => cs.map Condition.record)),
        ("addr", .ofLong addr)]
  | .entitySpeed speed => [("speed", .named speed.code speed.name)]
  | .graphicalAction action flipped => [("action", .ofByte action), ("flipped", .flag flipped)]
  | .loadMap map x y mode variant =>
      [("map", .ofWord map), ("x", .ofByte x), ("y", .ofByte y), ("mode", .ofByte mode),
        ("variant", .ofByte variant)]
  | .move dir steps => [("dir", .ofByte dir), ("steps", .ofByte steps)]
  | .moveDiag dir across along =>
      [("dir", .named dir.code dir.name), ("steps", .ofBytes [across, along])]
  | .pause frames => [("frames", .ofByte frames)]
  | .turnCharacter dir => [("dir", .named dir.code dir.name)]
  | .unknownCmdC7 first second => [("args", .ofBytes [first, second])]
  | _ => []

end WorldEvent

end EventScript
