/-! # Byte strings

Streams, images and file contents are arrays of bytes. Records pack small numbers into them, least
significant byte and bit first.
-/

namespace EventScript

/-- A byte string. -/
abbrev Bytes := Array UInt8

namespace Bytes

/-- The byte at an offset; there is none before the start or behind the end. -/
def at? (data : Bytes) (offset : Int) : Option UInt8 :=
  if offset < 0 then none else data[offset.toNat]?

/-- The bytes from `start` up to `stop`, which must lie in the string in this order. -/
def slice? (data : Bytes) (start stop : Int) : Option Bytes :=
  if 0 ≤ start ∧ start ≤ stop ∧ stop ≤ data.size then
    some (data.extract start.toNat stop.toNat)
  else
    none

end Bytes

/-- The byte is one of those from `low` to `high`. -/
def inRange (b low high : UInt8) : Bool :=
  low ≤ b && b ≤ high

theorem inRange_iff {b low high : UInt8} :
    inRange b low high = true ↔ low.toNat ≤ b.toNat ∧ b.toNat ≤ high.toNat := by
  simp [inRange, UInt8.le_iff_toNat_le]

/-- The number of `width` bits that starts at bit `low` of `n`. -/
@[inline] def bits (n low width : Nat) : Nat :=
  (n >>> low) % (1 <<< width)

/-- Bit `i` of `n` as a flag. -/
@[inline] def flag (n i : Nat) : Bool :=
  bits n i 1 == 1

/-- What is left of a number in 64 bits, one of them for the sign. -/
def wrap64 (n : Int) : Int :=
  n.bmod 0x10000000000000000

theorem wrap64_of_fits {n : Int} (low : -0x8000000000000000 ≤ n) (high : n < 0x8000000000000000) :
    wrap64 n = n := by
  apply Int.bmod_eq_of_le <;> omega

theorem wrap64_of_ge {n : Int} (low : 0x8000000000000000 ≤ n) (high : n < 0x18000000000000000) :
    wrap64 n = n - 0x10000000000000000 := by
  have shifted : wrap64 n = wrap64 (n - 0x10000000000000000) := (Int.sub_bmod_right ..).symm
  rw [shifted]
  exact wrap64_of_fits (by omega) (by omega)

/-- The number that two bytes stand for, the low byte first. -/
def pair (low high : UInt8) : Nat :=
  low.toNat + 256 * high.toNat

/-- The number that three bytes stand for, the low byte first. -/
def triple (low middle high : UInt8) : Nat :=
  low.toNat + 256 * middle.toNat + 65536 * high.toNat

end EventScript
