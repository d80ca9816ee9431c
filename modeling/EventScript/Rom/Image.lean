import EventScript.Bytes
import EventScript.Text.Numeral

/-! # Game images

Images come in whole banks. A device that copied the image may have put a header in front of it.
-/

namespace EventScript

/-- A game image without header. -/
structure Image where
  data : Bytes
  hasCopierHeader : Bool
  deriving Repr, DecidableEq

namespace Image

def bankSize : Nat := 0x8000
def copierHeaderSize : Nat := 512

/-- Why bytes are no image. -/
inductive Error where
  /-- The bytes could not be read. -/
  | unreadable (reason : String)
  | empty
  | badSize (size : Nat)
  deriving Repr, DecidableEq

def Error.message : Error → String
  | .unreadable reason => s!"reading data: {reason}"
  | .empty => "empty rom image"
  | .badSize size => s!"unexpected rom image size 0x{hex 0 size}"

/-- Take an image from the bytes of a file. The size of the file shows whether there is a header. -/
def ofBytes (data : Bytes) : Except Error Image :=
  if data.isEmpty then
    .error .empty
  else if data.size % bankSize = 0 then
    .ok ⟨data, false⟩
  else if data.size % bankSize = copierHeaderSize then
    .ok ⟨data.extract copierHeaderSize data.size, true⟩
  else
    .error (.badSize data.size)

end Image

end EventScript
