import EventScript.Decoder
import EventScript.Event.World

/-! # Decoding the world-map dialect

The tag at the start of an event tells its form. Many tags hold all operands of their event.
-/

namespace EventScript

namespace WorldEvent

/-- What a tag says about the event that it starts. -/
inductive Form where
  /-- The tag is the whole event. -/
  | whole (event : WorldEvent)
  | conditionalJump (op : CondOp) (count : Nat)
  | clrSetEventBit (set : Bool)
  | loadMap (variant : UInt8)
  | pause
  | unknownCmdC7

/-- The tags that stand alone. -/
def forms : List (UInt8 × Form) :=
  [(0xa0, .whole (.moveDiag .rightUp 1 1)), (0xa1, .whole (.moveDiag .rightDown 1 1)),
    (0xa2, .whole (.moveDiag .leftDown 1 1)), (0xa3, .whole (.moveDiag .leftUp 1 1)),
    (0xa4, .whole (.moveDiag .rightUp 1 2)), (0xa5, .whole (.moveDiag .rightUp 2 1)),
    (0xa6, .whole (.moveDiag .rightDown 2 1)), (0xa7, .whole (.moveDiag .rightDown 1 2)),
    (0xa8, .whole (.moveDiag .leftDown 1 2)), (0xa9, .whole (.moveDiag .leftDown 2 1)),
    (0xaa, .whole (.moveDiag .leftUp 2 1)), (0xab, .whole (.moveDiag .leftUp 1 2)),
    (0xc0, .whole (.entitySpeed .slowest)), (0xc1, .whole (.entitySpeed .slow)),
    (0xc2, .whole (.entitySpeed .normal)), (0xc3, .whole (.entitySpeed .fast)),
    (0xc4, .whole (.entitySpeed .fastest)), (0xc7, .unknownCmdC7), (0xc8, .clrSetEventBit true),
    (0xc9, .clrSetEventBit false), (0xcc, .whole (.turnCharacter .up)),
    (0xcd, .whole (.turnCharacter .right)), (0xce, .whole (.turnCharacter .down)),
    (0xcf, .whole (.turnCharacter .left)), (0xd0, .whole .showCharacter),
    (0xd1, .whole .hideCharacter), (0xd2, .loadMap 0xd2), (0xd3, .loadMap 0xd3),
    (0xd8, .whole .unfadeScreen), (0xd9, .whole .fadeScreen), (0xdd, .whole .hideMiniMap),
    (0xdf, .whole .showMiniMap), (0xe0, .pause)]

/-- The form of a tag. Graphical actions, moves and jumps take up ranges of tags and keep small
    operands in the low bits. -/
def Form.ofTag? (tag : UInt8) : Option Form :=
  let n := tag.toNat
  if inRange tag 0x00 0x7f then
    some (.whole (.graphicalAction (.ofNat (bits n 0 6)) (flag n 6)))
  else if inRange tag 0x80 0x9f then
    some (.whole (.move (.ofNat (bits n 0 2)) (.ofNat (bits n 2 3))))
  else if inRange tag 0xb0 0xbf then
    some (.conditionalJump (if flag n 3 then .any else .all) (bits n 0 3 + 1))
  else
    forms.lookup tag

/-- Read the operands behind a tag. -/
def Form.read (data : Bytes) : Form → Decode WorldEvent
  | .whole event => return event
  | .conditionalJump op count => do
      let conditions ← readMany count (Condition.read data)
      let addr ← long data
      return .conditionalJump op (some conditions) addr
  | .clrSetEventBit set => do
      let value ← word data
      return .clrSetEventBit set (.ofNat (bits value.toNat 3 13)) (.ofNat (bits value.toNat 0 3))
  | .loadMap variant => do
      let map ← word data
      let v ← takeThree data
      return .loadMap map v.1 v.2.1 v.2.2 variant
  | .pause => do
      let frames ← byte data
      return .pause frames
  | .unknownCmdC7 => do
      let v ← takeTwo data
      return .unknownCmdC7 v.1 v.2

theorem Form.forward_read (data : Bytes) (form : Form) : Forward data (form.read data) := by
  cases form with
  | whole event => exact .pure _
  | conditionalJump op count =>
      exact .bind (.readMany (.bind .word fun _ => .pure _) _) fun _ => .bind .long fun _ => .pure _
  | clrSetEventBit set => exact .bind .word fun _ => .pure _
  | loadMap variant => exact .bind .word fun _ => .bind .takeThree fun _ => .pure _
  | pause => exact .bind .byte fun _ => .pure _
  | unknownCmdC7 => exact .bind .takeTwo fun _ => .pure _

/-- Reads one event of the world-map dialect. -/
def decoder : Decoder WorldEvent :=
  .ofForms Form.ofTag? (fun data form => form.read data) Form.forward_read

/-- The bytes that end a script of the world-map dialect. -/
def stops : List UInt8 := [0xff, 0xfd]

end WorldEvent

end EventScript
