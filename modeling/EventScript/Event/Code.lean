import EventScript.Document
import EventScript.Text.Numeral

/-! # Codes with names

Some operands are byte codes of which only a few have a meaning. Every code has a text: its name, or a
text that shows the number, so that no two codes share one.
-/

namespace EventScript

/-- The name of a code by its position in a list of names. -/
def nameOf (names : List String) (code : UInt8) : String :=
  names[code.toNat]?.getD s!"unknown({code.toNat})"

/-- How the conditions of a jump are joined. -/
structure CondOp where
  code : UInt8
  deriving Repr, DecidableEq

namespace CondOp

def all : CondOp := ⟨0⟩
def any : CondOp := ⟨1⟩

def name (op : CondOp) : String :=
  nameOf ["and", "or"] op.code

end CondOp

/-- A direction to face. -/
structure Direction where
  code : UInt8
  deriving Repr, DecidableEq

namespace Direction

def up : Direction := ⟨0⟩
def right : Direction := ⟨1⟩
def down : Direction := ⟨2⟩
def left : Direction := ⟨3⟩

def name (d : Direction) : String :=
  nameOf ["up", "right", "down", "left"] d.code

end Direction

/-- A direction of a diagonal step. -/
structure Diagonal where
  code : UInt8
  deriving Repr, DecidableEq

namespace Diagonal

def rightUp : Diagonal := ⟨0⟩
def rightDown : Diagonal := ⟨1⟩
def leftUp : Diagonal := ⟨2⟩
def leftDown : Diagonal := ⟨3⟩

def name (d : Diagonal) : String :=
  nameOf ["right_up", "right_down", "left_up", "left_down"] d.code

end Diagonal

/-- How fast an entity moves. -/
structure Speed where
  code : UInt8
  deriving Repr, DecidableEq

namespace Speed

def slowest : Speed := ⟨0⟩
def slow : Speed := ⟨1⟩
def normal : Speed := ⟨2⟩
def fast : Speed := ⟨3⟩
def fastest : Speed := ⟨4⟩

def name (s : Speed) : String :=
  nameOf ["slowest", "slow", "normal", "fast", "fastest"] s.code

end Speed

/-- An action that waits in the queue of a party member. -/
structure QueueAction where
  code : UInt8
  deriving Repr, DecidableEq

namespace QueueAction

def centerOnScreen : QueueAction := ⟨0xd7⟩

def name (a : QueueAction) : String :=
  if a = centerOnScreen then "center_on_screen" else s!"action_{hexByte a.code}"

end QueueAction

/-- A code and its name as a value of a document. -/
def Node.named (code : UInt8) (name : String) : Node :=
  .octet ⟨code, some name⟩

end EventScript
