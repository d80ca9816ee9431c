import EventScript.Bytes
import EventScript.Document

/-! # Documents as CBOR

The canonical form: numbers are as short as they can be, and the keys of a map are sorted, short ones
first. Lists of small numbers are byte strings.
-/

namespace EventScript.Document.Cbor

/-- The lowest `n` bytes of a number, the highest of them first. -/
def bigEndian : Nat → Nat → List UInt8
  | 0, _ => []
  | n + 1, v => UInt8.ofNat (v >>> (8 * n)) :: bigEndian n v

/-- The head of an item: its kind and a number in the shortest form. -/
def head (kind v : Nat) : List UInt8 :=
  if v < 24 then [.ofNat (32 * kind + v)]
  else if v < 1 <<< 8 then .ofNat (32 * kind + 24) :: bigEndian 1 v
  else if v < 1 <<< 16 then .ofNat (32 * kind + 25) :: bigEndian 2 v
  else if v < 1 <<< 32 then .ofNat (32 * kind + 26) :: bigEndian 4 v
  else .ofNat (32 * kind + 27) :: bigEndian 8 v

def number : Int → List UInt8
  | .ofNat n => head 0 n
  | .negSucc n => head 1 n

def byteString (codes : List UInt8) : List UInt8 :=
  head 2 codes.length ++ codes

def text (s : String) : List UInt8 :=
  head 3 s.utf8ByteSize ++ s.toUTF8.toList

/-- The order of keys in their encoded form: a shorter key comes first. -/
def keyLe (a b : List UInt8) : Bool :=
  if a.length = b.length then decide (a ≤ b) else a.length ≤ b.length

/-- A map, with its items in the order of their keys. -/
def map (items : List (List UInt8 × List UInt8)) : List UInt8 :=
  head 5 items.length ++ (items.mergeSort fun a b => keyLe a.1 b.1).flatMap fun (k, v) => k ++ v

mutual

def value : Node → List UInt8
  | .flag b => [if b then 0xf5 else 0xf4]
  | .number n => number n
  | .text s => text s
  | .octet o => number o.code.toNat
  | .absent => [0xf6]
  | .octets os => byteString (os.map (·.code))
  | .numbers ns => head 4 ns.length ++ ns.flatMap number
  | .table fs => map (fields fs)
  | .tables rs => head 4 rs.length ++ rows rs

/-- The encoded keys and values of a record. -/
def fields : List (String × Node) → List (List UInt8 × List UInt8)
  | [] => []
  | (key, v) :: rest => (text key, value v) :: fields rest

/-- The encoded records of a list, one behind the other. -/
def rows : List (List (String × Node)) → List UInt8
  | [] => []
  | r :: rs => map (fields r) ++ rows rs

end

/-- A record as bytes. -/
def encode (record : Record) : Bytes :=
  (map (fields record)).toArray

end EventScript.Document.Cbor
