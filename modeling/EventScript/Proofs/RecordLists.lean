import EventScript.Proofs.PackedRecords
import EventScript.Rom.Location

/-! # Lists of packed records

The fields of characters and triggers share the bits of their records out among them, none left over and none
used twice. Lists of them are therefore written and read without loss: a list is read again from its
records, with too few bytes for another record behind them, and byte strings are the records of what is
read from them, up to such a rest.
-/

namespace EventScript

/-- Lists of values and byte strings are read and written without loss, in records of `size` bytes. -/
structure RecordsRoundTrip {α : Type} (size : Nat) (read? : Bytes → Option α)
    (readAll : Bytes → Except RecordError (List α)) (encode : α → List UInt8) (InRange : α → Prop) : Prop where
  length_encode : ∀ a, (encode a).length = size
  /-- Written values are read again, too few bytes for another one behind them. -/
  readAll_written : ∀ (values : List α) (tail : Bytes), (∀ a ∈ values, InRange a) → tail.size < size →
    readAll ((values.flatMap encode).toArray ++ tail) = .ok values
  never_fails : ∀ data, ∃ values, readAll data = .ok values
  length_readAll : ∀ data values, readAll data = .ok values → values.length = data.size / size
  inRange_readAll : ∀ data values, readAll data = .ok values → ∀ a ∈ values, InRange a
  /-- Values that are read are written again as the bytes they were read from. -/
  written_readAll : ∀ data values, readAll data = .ok values →
    values.flatMap encode = data.toList.take (size * (data.size / size))
  /-- Each of the values is read alone from the bytes that start at its place. -/
  read?_of_lt : ∀ data values, readAll data = .ok values → ∀ i, i < data.size / size →
    ∃ a, read? (data.extract (size * i) data.size) = some a ∧ values[i]? = some a

section RoundTrip

variable {α F : Type} {size : Nat} {p : Packing α F size}

theorem Packing.fits_read (d : Vector UInt8 size) : p.Fits (p.read d) := by
  intro f
  refine ⟨(p.shows_number d f).lt, ?_⟩
  obtain ⟨n, _, same⟩ := p.shows_read d f
  rw [number, same, p.stored_shown]

theorem Packing.IsSeparate.readAll_written (separate : p.IsSeparate) (positive : 0 < size) (tail : Bytes)
    (short : tail.size < size) {values : List α} (fit : ∀ a ∈ values, p.Fits a) :
    fixedRecords size p.read ((values.flatMap fun a => (p.write a).toList).toArray ++ tail) = values := by
  induction values with
  | nil => exact fixedRecords_of_short (by simpa using short)
  | cons a values ih =>
      obtain ⟨first, others⟩ := List.forall_mem_cons.mp fit
      have split : ((a :: values).flatMap fun a => (p.write a).toList).toArray ++ tail =
          (p.write a).toArray ++ ((values.flatMap fun a => (p.write a).toList).toArray ++ tail) := by
        rw [List.flatMap_cons, ← List.append_toArray, Array.append_assoc]
        rfl
      rw [split, fixedRecords_append positive, separate.read_write first, ih others]

theorem Packing.written_readAll (positive : 0 < size) (data : Bytes) :
    ((fixedRecords size p.read data).flatMap fun a => (p.write a).toList) =
      data.toList.take (size * (data.size / size)) := by
  generalize count : data.size / size = k
  induction k generalizing data with
  | zero =>
      have short : data.size < size := (Nat.div_eq_zero_iff_lt positive).mp count
      rw [fixedRecords_of_short short, Nat.mul_zero, List.take_zero, List.flatMap_nil]
  | succ k ih =>
      have long : size ≤ data.size := by
        apply Nat.le_of_not_lt
        intro short
        rw [Nat.div_eq_of_lt short] at count
        cases count
      obtain ⟨d, first⟩ := exists_firstBytes? long
      rw [eq_append_of_firstBytes? first] at count ⊢
      generalize data.extract size data.size = rest at count ⊢
      rw [Array.size_append, d.size_toArray, Nat.add_div_left _ positive] at count
      rw [fixedRecords_append positive, List.flatMap_cons, p.write_read, ih rest (Nat.succ.inj count),
        Array.toList_append, Nat.mul_succ, Nat.add_comm]
      have size_eq : size = d.toArray.toList.length := by rw [Array.length_toList, d.size_toArray]
      exact (size_eq ▸ List.take_length_add_append _).symm

/-- Records in which no bit is held by two fields can be read and written without loss. -/
theorem Packing.IsSeparate.roundTrip {kind : RecordKind α} {p : Packing α F kind.size} (separate : p.IsSeparate)
    (reads : kind.read = p.read) {InRange : α → Prop} (fits : ∀ a, InRange a ↔ p.Fits a) :
    RecordsRoundTrip kind.size kind.ofBytes? kind.listOfBytes (fun a => (p.write a).toList) InRange where
  length_encode a := by rw [Vector.length_toList]
  readAll_written values tail valid short := by
    rw [kind.listOfBytes_eq, reads]
    congr 1
    exact separate.readAll_written kind.size_pos tail short fun a listed => (fits a).mp (valid a listed)
  never_fails data := ⟨_, kind.listOfBytes_eq data⟩
  length_readAll data values read := by
    cases (kind.listOfBytes_eq data).symm.trans read
    exact length_fixedRecords data
  inRange_readAll data values read a listed := by
    cases (kind.listOfBytes_eq data).symm.trans read
    rw [fixedRecords, List.mem_ofFn, reads] at listed
    obtain ⟨i, rfl⟩ := listed
    exact (fits _).mpr (fits_read _)
  written_readAll data values read := by
    cases (kind.listOfBytes_eq data).symm.trans read
    rw [reads]
    exact written_readAll kind.size_pos data
  read?_of_lt data values read i inside := by
    cases (kind.listOfBytes_eq data).symm.trans read
    obtain ⟨d, first, listed⟩ := getElem?_fixedRecords inside
    exact ⟨kind.read d, by rw [RecordKind.ofBytes?, first, Option.map_some], listed⟩

end RoundTrip

/-! ## Characters -/

namespace Npc

/-- The fields of a character, in the order in which the record has them. -/
inductive Field where
  | eventAddr | palette | solidActionPath | enableBit | enableAddr | x | showRiderInVehicle | y | speed
  | sprite | movementType | mapLayer | vehicle | startDirection | turnWhenTriggered | unknown8Bits
  deriving Repr, DecidableEq

/-- A field as a number. -/
def value (n : Npc) : Field → Nat
  | .eventAddr => n.eventAddr.toNat
  | .palette => n.palette.toNat
  | .solidActionPath => n.solidActionPath.toNat
  | .enableBit => n.enableBit.toNat
  | .enableAddr => n.enableAddr.toNat
  | .x => n.x.toNat
  | .showRiderInVehicle => n.showRiderInVehicle.toNat
  | .y => n.y.toNat
  | .speed => n.speed.toNat
  | .sprite => n.sprite.toNat
  | .movementType => n.movementType.toNat
  | .mapLayer => n.mapLayer.toNat
  | .vehicle => n.vehicle.toNat
  | .startDirection => n.startDirection.toNat
  | .turnWhenTriggered => n.turnWhenTriggered.toNat
  | .unknown8Bits => n.unknown8Bits.toNat

theorem eq_of_value {n m : Npc} (same : ∀ f, n.value f = m.value f) : n = m := by
  have byte {a b : UInt8} (h : a.toNat = b.toNat) : a = b := UInt8.toNat_inj.mp h
  have flag {a b : Bool} (h : a.toNat = b.toNat) : a = b := eq_of_toNat_bool h
  cases n
  cases m
  exact (mk.injEq ..).mpr
    ⟨UInt32.toNat_inj.mp (same .eventAddr), byte (same .palette), flag (same .solidActionPath),
    byte (same .enableBit), byte (same .enableAddr), byte (same .x), flag (same .showRiderInVehicle),
    byte (same .y), byte (same .speed), byte (same .sprite), byte (same .movementType),
    byte (same .mapLayer), byte (same .vehicle), byte (same .startDirection),
    flag (same .turnWhenTriggered), byte (same .unknown8Bits)⟩

namespace Field

def all : List Field :=
  [.eventAddr, .palette, .solidActionPath, .enableBit, .enableAddr, .x, .showRiderInVehicle, .y, .speed,
    .sprite, .movementType, .mapLayer, .vehicle, .startDirection, .turnWhenTriggered, .unknown8Bits]

theorem mem_all (f : Field) : f ∈ all := by
  cases f <;> decide

/-- The bits that a field is read from. -/
def range : Field → BitRange
  | .eventAddr => ⟨0, 0, 18⟩
  | .palette => ⟨2, 2, 3⟩
  | .solidActionPath => ⟨2, 5, 1⟩
  | .enableBit => ⟨2, 6, 3⟩
  | .enableAddr => ⟨3, 1, 7⟩
  | .x => ⟨4, 0, 7⟩
  | .showRiderInVehicle => ⟨4, 7, 1⟩
  | .y => ⟨5, 0, 6⟩
  | .speed => ⟨5, 6, 2⟩
  | .sprite => ⟨6, 0, 8⟩
  | .movementType => ⟨7, 0, 4⟩
  | .mapLayer => ⟨7, 4, 2⟩
  | .vehicle => ⟨7, 6, 2⟩
  | .startDirection => ⟨8, 0, 2⟩
  | .turnWhenTriggered => ⟨8, 2, 1⟩
  | .unknown8Bits => ⟨8, 3, 5⟩

theorem range_inside : ∀ f ∈ all, f.range.stop ≤ 8 * recordSize := by
  decide

theorem leaves_none : LeavesNone range 0 all (8 * recordSize) := by
  decide

end Field

/-- Each field is read from its range. -/
theorem shows_ofRecord (d : Vector UInt8 recordSize) (f : Field) :
    f.range.Shows d.toArray ((ofRecord d).value f) := by
  cases f with
  | eventAddr =>
      exact ((StandsFrom.triple d (by decide)).shows_bits (by decide)).toUInt32 (by decide)
  | enableBit =>
      exact ((StandsFrom.pair d (by decide)).shows_bits (by decide)).toUInt8 (by decide)
  | sprite => exact (StandsFrom.byte d (by decide)).shows (UInt8.toNat_lt _)
  | solidActionPath | showRiderInVehicle | turnWhenTriggered =>
      exact (StandsFrom.byte d (by decide)).shows_flag (by decide)
  | palette | enableAddr | x | y | speed | movementType | mapLayer | vehicle | startDirection
  | unknown8Bits =>
      exact ((StandsFrom.byte d (by decide)).shows_bits (by decide)).toUInt8 (by decide)

def packing : Packing Npc Field recordSize where
  read := ofRecord
  value := value
  fields := Field.all
  range := Field.range
  stored _ n := n
  shown _ n := n
  eq_of_value := eq_of_value
  mem_fields := Field.mem_all
  stored_shown _ _ := rfl
  shows_read d f := ⟨_, shows_ofRecord d f, rfl⟩
  range_inside := Field.range_inside
  leaves_none := Field.leaves_none

/-- Pack a character. -/
def encode (n : Npc) : List UInt8 :=
  (packing.write n).toList

/-- The fields are in the range that a record can hold. -/
structure InRange (n : Npc) : Prop where
  eventAddr : n.eventAddr.toNat < 0x40000
  palette : n.palette.toNat < 8
  enableBit : n.enableBit.toNat < 8
  enableAddr : n.enableAddr.toNat < 128
  x : n.x.toNat < 128
  y : n.y.toNat < 64
  speed : n.speed.toNat < 4
  movementType : n.movementType.toNat < 16
  mapLayer : n.mapLayer.toNat < 4
  vehicle : n.vehicle.toNat < 4
  startDirection : n.startDirection.toNat < 4
  unknown8Bits : n.unknown8Bits.toNat < 32

theorem inRange_iff_fits (n : Npc) : n.InRange ↔ packing.Fits n := by
  constructor
  · intro h f
    refine ⟨?_, rfl⟩
    cases f with
    | eventAddr => exact h.eventAddr
    | palette => exact h.palette
    | enableBit => exact h.enableBit
    | enableAddr => exact h.enableAddr
    | x => exact h.x
    | y => exact h.y
    | speed => exact h.speed
    | sprite => exact n.sprite.toNat_lt
    | movementType => exact h.movementType
    | mapLayer => exact h.mapLayer
    | vehicle => exact h.vehicle
    | startDirection => exact h.startDirection
    | unknown8Bits => exact h.unknown8Bits
    | solidActionPath => exact n.solidActionPath.toNat_lt
    | showRiderInVehicle => exact n.showRiderInVehicle.toNat_lt
    | turnWhenTriggered => exact n.turnWhenTriggered.toNat_lt
  · intro h
    exact ⟨(h .eventAddr).1, (h .palette).1, (h .enableBit).1, (h .enableAddr).1, (h .x).1, (h .y).1,
      (h .speed).1, (h .movementType).1, (h .mapLayer).1, (h .vehicle).1, (h .startDirection).1,
      (h .unknown8Bits).1⟩

theorem isSeparate_packing : packing.IsSeparate :=
  packing.isSeparate_of_pairwise (by decide +kernel)

example : encode ⟨184951, 1, false, 0, 96, 64, false, 7, 1, 54, 0, 0, 0, 2, false, 0⟩ =
    [0x77, 0xd2, 0x06, 0xc0, 0x40, 0x47, 0x36, 0x00, 0x02] := by
  decide

end Npc

/-! ## Triggers -/

namespace Trigger

/-- The fields of a trigger, in the order in which the record has them. -/
inductive Field where
  | x | y | eventAddr
  deriving Repr, DecidableEq

/-- A field as a number. -/
def value (t : Trigger) : Field → Nat
  | .x => t.x.toNat
  | .y => t.y.toNat
  | .eventAddr => t.eventAddr.toNat

theorem eq_of_value {t s : Trigger} (same : ∀ f, t.value f = s.value f) : t = s := by
  cases t
  cases s
  exact (mk.injEq ..).mpr ⟨UInt8.toNat_inj.mp (same .x), UInt8.toNat_inj.mp (same .y),
    UInt32.toNat_inj.mp (same .eventAddr)⟩

namespace Field

def all : List Field :=
  [.x, .y, .eventAddr]

theorem mem_all (f : Field) : f ∈ all := by
  cases f <;> decide

/-- The bits that a field is read from. -/
def range : Field → BitRange
  | .x => ⟨0, 0, 8⟩
  | .y => ⟨1, 0, 8⟩
  | .eventAddr => ⟨2, 0, 24⟩

theorem range_inside : ∀ f ∈ all, f.range.stop ≤ 8 * recordSize := by
  decide

theorem leaves_none : LeavesNone range 0 all (8 * recordSize) := by
  decide

end Field

/-- Each field is read from its range. -/
theorem shows_ofRecord (d : Vector UInt8 recordSize) (f : Field) :
    f.range.Shows d.toArray ((ofRecord d).value f) := by
  cases f with
  | x | y => exact (StandsFrom.byte d (by decide)).shows (UInt8.toNat_lt _)
  | eventAddr => exact ((StandsFrom.triple d (by decide)).shows (triple_lt ..)).toUInt32 (by decide)

def packing : Packing Trigger Field recordSize where
  read := ofRecord
  value := value
  fields := Field.all
  range := Field.range
  stored _ n := n
  shown _ n := n
  eq_of_value := eq_of_value
  mem_fields := Field.mem_all
  stored_shown _ _ := rfl
  shows_read d f := ⟨_, shows_ofRecord d f, rfl⟩
  range_inside := Field.range_inside
  leaves_none := Field.leaves_none

/-- Pack a trigger. -/
def encode (t : Trigger) : List UInt8 :=
  (packing.write t).toList

/-- The address is in the range that a record can hold. -/
def InRange (t : Trigger) : Prop :=
  t.eventAddr.toNat < 0x1000000

theorem inRange_iff_fits (t : Trigger) : t.InRange ↔ packing.Fits t := by
  constructor
  · intro h f
    refine ⟨?_, rfl⟩
    cases f with
    | x => exact t.x.toNat_lt
    | y => exact t.y.toNat_lt
    | eventAddr => exact h
  · intro h
    exact (h .eventAddr).1

theorem isSeparate_packing : packing.IsSeparate :=
  packing.isSeparate_of_pairwise (by decide)

end Trigger

/-- Characters and triggers are read and written without loss, in records of nine and of five bytes. -/
theorem listOfBytes_roundTrip :
    RecordsRoundTrip 9 Npc.ofBytes? Npc.listOfBytes Npc.encode Npc.InRange ∧
      RecordsRoundTrip 5 Trigger.ofBytes? Trigger.listOfBytes Trigger.encode Trigger.InRange :=
  ⟨@Packing.IsSeparate.roundTrip _ _ Npc.kind _ Npc.isSeparate_packing rfl _ Npc.inRange_iff_fits,
    @Packing.IsSeparate.roundTrip _ _ Trigger.kind _ Trigger.isSeparate_packing rfl _
      Trigger.inRange_iff_fits⟩

end EventScript
