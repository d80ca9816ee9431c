import EventScript.Text.Numeral

/-! # Addresses of the console and offsets in the image

The image is mapped into the address space of the console as one block.
-/

namespace EventScript

namespace Address

/-- The address of the first byte of the image. -/
def romBase : Int := 0xc00000

/-- An address in front of the image. -/
structure BelowBase where
  addr : Int
  deriving Repr, DecidableEq

def BelowBase.message (e : BelowBase) : String :=
  s!"address 0x{hex 6 e.addr} is below the rom base 0x{hex 6 romBase}"

/-- The offset in the image of an address. -/
def toFile (addr : Int) : Except BelowBase Int :=
  if addr < romBase then .error ⟨addr⟩ else .ok (addr - romBase)

/-- The offset in the image at which event scripts start. -/
def eventBase : Nat := 0xa0000

/-- The offset in the image of a script address, of which 18 bits count. -/
def eventToFile (addr : UInt32) : Int :=
  eventBase + addr.toNat % 0x40000

end Address

end EventScript
